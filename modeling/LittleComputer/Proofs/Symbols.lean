import LittleComputer.Dictionary
import LittleComputer.Proofs.Text.ByteOrder
import Mathlib.Data.List.Dedup

/-!
Symbol tables through their lookups.  A table into which definitions were entered one after the
other knows the first definition of every label, and nothing was refused exactly if no label is
defined twice.  A map made from pairs at once knows the last of every name.
-/
namespace LittleComputer

namespace Dictionary

variable {α β : Type}

@[simp] theorem find?_empty (name : String) :
    (empty : Dictionary α).find? name = none := rfl

theorem lookup_cons (key : String) (value : α) (rest : List (String × α))
    (name : String) :
    ((key, value) :: rest).lookup name =
      if name = key then some value else rest.lookup name := by
  by_cases hname : name = key
  · simp [hname]
  · have hbeq : (name == key) = false := by simpa using hname
    simp only [List.lookup_cons, hbeq, hname, if_false]

theorem lookup_place (name : String) (value : α)
    (entries : List (String × α)) (other : String) :
    (place name value entries).lookup other =
      if other = name then some value else entries.lookup other := by
  induction entries with
  | nil => simp [place, lookup_cons]
  | cons entry rest ih =>
      obtain ⟨key, old⟩ := entry
      simp only [place]
      split
      · simp [lookup_cons]
      · rename_i hge
        split
        · rename_i hlt
          have hne : key ≠ name := fun heq => String.lt_irrefl key (heq ▸ hlt)
          by_cases hkey : other = key
          · simp [hkey, hne]
          · simp [lookup_cons, hkey, ih]
        · rename_i hle
          have heq : name = key :=
            String.le_antisymm (String.not_lt.1 hle) (String.not_lt.1 hge)
          by_cases hother : other = name
          · simp [hother]
          · simp [lookup_cons, hother, ← heq]

theorem find?_set (map : Dictionary α) (name : String) (value : α)
    (other : String) :
    (map.set name value).find? other =
      if other = name then some value else map.find? other :=
  lookup_place name value map.entries other

/-- Among entries of different names, looking up finds every entry. -/
theorem lookup_eq_some_iff {entries : List (String × α)} {name : String} {value : α}
    (hnodup : (entries.map Prod.fst).Nodup) :
    entries.lookup name = some value ↔ (name, value) ∈ entries := by
  induction entries with
  | nil => simp
  | cons entry rest ih =>
      obtain ⟨key, old⟩ := entry
      obtain ⟨hfresh, hrest⟩ := List.nodup_cons.mp hnodup
      by_cases hname : name = key
      · subst hname
        have habsent : (name, value) ∉ rest := fun hmem =>
          hfresh (List.mem_map.mpr ⟨_, hmem, rfl⟩)
        simp [habsent, eq_comm]
      · simp [lookup_cons, hname, ih hrest]

theorem nodup_names (map : Dictionary α) : (map.entries.map Prod.fst).Nodup := by
  rw [List.Nodup, List.pairwise_map]
  refine map.sorted.imp ?_
  intro a b hlt heq
  exact String.lt_irrefl b.1 (heq ▸ hlt)

/-- The entries of a map are what it says about its names. -/
theorem mem_entries_iff {map : Dictionary α} {name : String} {value : α} :
    (name, value) ∈ map.entries ↔ map.find? name = some value :=
  (lookup_eq_some_iff map.nodup_names).symm

/-- Maps that say the same about every name are equal. -/
theorem eq_of_find?_eq {first second : Dictionary α}
    (hfind : ∀ name, first.find? name = second.find? name) : first = second := by
  have hperm : first.entries.Perm second.entries := by
    rw [List.perm_ext_iff_of_nodup first.nodup_names.of_map second.nodup_names.of_map]
    intro entry
    rw [mem_entries_iff, mem_entries_iff, hfind]
  have hentries : first.entries = second.entries := by
    refine hperm.eq_of_pairwise ?_ first.sorted second.sorted
    intro a b _ _ hlt hgt
    exact absurd (String.lt_trans hlt hgt) (String.lt_irrefl a.1)
  cases first
  cases second
  cases hentries
  rfl

/-- Of several pairs with one name the last counts, and each before what the map said. -/
theorem find?_foldl_set (pairs : List (String × α)) (map : Dictionary α) (name : String) :
    (pairs.foldl (fun map pair => map.set pair.1 pair.2) map).find? name =
      (pairs.reverse.lookup name).or (map.find? name) := by
  induction pairs generalizing map with
  | nil => simp
  | cons pair rest ih =>
      rw [List.foldl_cons, ih, find?_set, List.reverse_cons, List.lookup_append,
        Option.or_assoc, lookup_cons]
      split <;> simp

theorem find?_ofList (pairs : List (String × α)) (name : String) :
    (ofList pairs).find? name = pairs.reverse.lookup name := by
  rw [ofList, find?_foldl_set, find?_empty, Option.or_none]

section Pairs

variable {pairs : List (String × α)} {name : String} {value : α}

/-- The first pair of that name has the value. -/
def FirstOf (pairs : List (String × α)) (name : String) (value : α) : Prop :=
  ∃ before after, pairs = before ++ (name, value) :: after ∧ name ∉ before.map Prod.fst

/-- The last pair of that name has the value. -/
def LastOf (pairs : List (String × α)) (name : String) (value : α) : Prop :=
  ∃ before after, pairs = before ++ (name, value) :: after ∧ name ∉ after.map Prod.fst

theorem lookup_eq_some_iff_firstOf :
    pairs.lookup name = some value ↔ FirstOf pairs name value := by
  simp only [List.lookup_eq_some_iff, FirstOf, List.mem_map, not_exists, not_and, bne_iff_ne,
    ne_eq, @eq_comm _ name]

theorem lookup_eq_none_iff_not_mem :
    pairs.lookup name = none ↔ name ∉ pairs.map Prod.fst := by
  simp only [List.lookup_eq_none_iff, List.mem_map, not_exists, not_and, bne_iff_ne, ne_eq,
    @eq_comm _ name]

/-- Read backwards, the first pair of a name is the last. -/
theorem firstOf_reverse_iff : FirstOf pairs.reverse name value ↔ LastOf pairs name value := by
  constructor
  · rintro ⟨before, after, hpairs, hfresh⟩
    refine ⟨after.reverse, before.reverse, ?_, by simpa using hfresh⟩
    simpa [List.reverse_eq_append_iff] using hpairs
  · rintro ⟨before, after, rfl, hfresh⟩
    exact ⟨after.reverse, before.reverse, by simp, by simpa using hfresh⟩

theorem FirstOf.mem (hfirst : FirstOf pairs name value) : name ∈ pairs.map Prod.fst := by
  obtain ⟨before, after, rfl, -⟩ := hfirst
  simp

theorem find?_ofList_eq_some_iff :
    (ofList pairs).find? name = some value ↔ LastOf pairs name value := by
  rw [find?_ofList, lookup_eq_some_iff_firstOf, firstOf_reverse_iff]

theorem find?_ofList_eq_none_iff :
    (ofList pairs).find? name = none ↔ name ∉ pairs.map Prod.fst := by
  rw [find?_ofList, lookup_eq_none_iff_not_mem, List.map_reverse, List.mem_reverse]

end Pairs

/-- A map is the map of its entries. -/
theorem ofList_entries (map : Dictionary α) : ofList map.entries = map := by
  apply eq_of_find?_eq
  intro name
  have hnodup : (map.entries.reverse.map Prod.fst).Nodup := by
    rw [List.map_reverse, List.nodup_reverse]
    exact map.nodup_names
  apply Option.ext
  intro value
  rw [find?_ofList, ← mem_entries_iff, lookup_eq_some_iff hnodup, List.mem_reverse]

def map (f : α → β) (table : Dictionary α) : Dictionary β :=
  ⟨table.entries.map fun entry => (entry.1, f entry.2),
    List.pairwise_map.mpr table.sorted⟩

theorem find?_map (f : α → β) (table : Dictionary α) (name : String) :
    (table.map f).find? name = (table.find? name).map f := by
  have hlookup : ∀ entries : List (String × α),
      (entries.map fun entry => (entry.1, f entry.2)).lookup name =
        (entries.lookup name).map f := by
    intro entries
    induction entries with
    | nil => rfl
    | cons entry rest ih =>
        obtain ⟨key, value⟩ := entry
        simp only [List.map_cons, lookup_cons, ih]
        split <;> rfl
  exact hlookup table.entries

theorem map_set (f : α → β) (table : Dictionary α) (name : String) (value : α) :
    (table.set name value).map f = (table.map f).set name (f value) := by
  apply eq_of_find?_eq
  intro other
  simp only [find?_map, find?_set]
  split <;> rfl

end Dictionary

namespace SymbolTable

theorem define_of_some {symbols : SymbolTable} {label : String} {first : Address}
    (address : Address) (hfind : symbols.find? label = some first) :
    symbols.define label address =
      .error (.duplicateLabel label first address) := by
  simp [define, hfind]

theorem define_of_none {symbols : SymbolTable} {label : String}
    (address : Address) (hfind : symbols.find? label = none) :
    symbols.define label address = .ok (symbols.set label address) := by
  simp [define, hfind]

/-- The first definition of a label is the one that counts. -/
theorem find?_defineAll (symbols : SymbolTable)
    (definitions : List (String × Address)) (label : String) :
    (symbols.defineAll definitions).1.find? label =
      (symbols.find? label).or (definitions.lookup label) := by
  induction definitions generalizing symbols with
  | nil => simp [defineAll]
  | cons definition rest ih =>
      obtain ⟨name, address⟩ := definition
      cases hfind : symbols.find? name with
      | some first =>
          simp only [defineAll, define_of_some address hfind, ih]
          by_cases hlabel : label = name
          · simp [hlabel, hfind]
          · simp [Dictionary.lookup_cons, hlabel]
      | none =>
          simp only [defineAll, define_of_none address hfind, ih,
            Dictionary.find?_set]
          by_cases hlabel : label = name
          · simp [hlabel, hfind]
          · simp [Dictionary.lookup_cons, hlabel]

theorem defineAll_append (symbols : SymbolTable)
    (first second : List (String × Address)) :
    symbols.defineAll (first ++ second) =
      (((symbols.defineAll first).1.defineAll second).1,
        (symbols.defineAll first).2 ++
          ((symbols.defineAll first).1.defineAll second).2) := by
  induction first generalizing symbols with
  | nil => simp [defineAll]
  | cons definition rest ih =>
      obtain ⟨name, address⟩ := definition
      cases hfind : symbols.find? name with
      | some old => simp [defineAll, define_of_some address hfind, ih]
      | none => simp [defineAll, define_of_none address hfind, ih]

/-- A table whose names and addresses are replaced throughout is entered into and refuses as
before. -/
theorem defineAll_map {alter : SymbolTable → SymbolTable} {name : String → String}
    {place : Address → Address} {error : AssemblyError → AssemblyError}
    (hfind : ∀ symbols label,
      (alter symbols).find? (name label) = (symbols.find? label).map place)
    (hset : ∀ symbols label address,
      alter (symbols.set label address) = (alter symbols).set (name label) (place address))
    (herror : ∀ label first second, error (.duplicateLabel label first second) =
      .duplicateLabel (name label) (place first) (place second))
    (symbols : SymbolTable) (definitions : List (String × Address)) :
    (alter symbols).defineAll
        (definitions.map fun entry => (name entry.1, place entry.2)) =
      (alter (symbols.defineAll definitions).1,
        (symbols.defineAll definitions).2.map error) := by
  induction definitions generalizing symbols with
  | nil => rfl
  | cons definition rest ih =>
      obtain ⟨label, address⟩ := definition
      have hfound := hfind symbols label
      cases hlabel : symbols.find? label with
      | some first =>
          rw [hlabel, Option.map_some] at hfound
          simp only [List.map_cons, defineAll, define_of_some _ hlabel,
            define_of_some _ hfound, ih, herror]
      | none =>
          rw [hlabel, Option.map_none] at hfound
          simp only [List.map_cons, defineAll, define_of_none _ hlabel,
            define_of_none _ hfound, ← hset, ih]

/-- Nothing is refused exactly if all labels are new and different. -/
theorem defineAll_errors_eq_nil_iff (symbols : SymbolTable)
    (definitions : List (String × Address)) :
    (symbols.defineAll definitions).2 = [] ↔
      (definitions.map Prod.fst).Nodup ∧
        ∀ label ∈ definitions.map Prod.fst, symbols.find? label = none := by
  induction definitions generalizing symbols with
  | nil => simp [defineAll]
  | cons definition rest ih =>
      obtain ⟨name, address⟩ := definition
      cases hfind : symbols.find? name with
      | some first => simp [defineAll, define_of_some address hfind, hfind]
      | none =>
          simp only [defineAll, define_of_none address hfind, ih,
            Dictionary.find?_set, List.map_cons, List.nodup_cons,
            List.forall_mem_cons, hfind, true_and]
          constructor
          · rintro ⟨hnodup, hnew⟩
            refine ⟨⟨fun hmem => ?_, hnodup⟩, fun label hlabel => ?_⟩
            · simpa using hnew name hmem
            · have hlookup := hnew label hlabel
              split at hlookup
              · simp at hlookup
              · exact hlookup
          · rintro ⟨⟨hfresh, hnodup⟩, hnew⟩
            refine ⟨hnodup, fun label hlabel => ?_⟩
            have hne : label ≠ name := fun heq => hfresh (heq ▸ hlabel)
            simpa [hne] using hnew label hlabel

theorem find?_of_labelAt? {symbols : SymbolTable} {address : Address}
    {name : String} (hlabel : symbols.labelAt? address = some name) :
    symbols.find? name = some address := by
  obtain ⟨entry, hfound, rfl⟩ := Option.map_eq_some_iff.mp hlabel
  have haddress : entry.2 = address := by
    simpa using List.find?_some hfound
  rw [← haddress]
  exact Dictionary.mem_entries_iff.mp (List.mem_of_find?_eq_some hfound)

theorem labelAt?_isSome_of_find? {symbols : SymbolTable} {address : Address}
    {name : String} (hfind : symbols.find? name = some address) :
    (symbols.labelAt? address).isSome := by
  rw [labelAt?, Option.isSome_map, List.find?_isSome]
  exact ⟨(name, address), Dictionary.mem_entries_iff.mpr hfind, by simp⟩

/-- A name is the first, in the order of bytes, of those that stand at an address. -/
structure FirstAt (symbols : SymbolTable) (address : Address) (name : String) : Prop where
  stands : symbols.find? name = some address
  least : ∀ other, symbols.find? other = some address → ¬ Text.Before other name

theorem FirstAt.unique {symbols : SymbolTable} {address : Address} {name other : String}
    (hname : symbols.FirstAt address name) (hother : symbols.FirstAt address other) :
    name = other := by
  have hle := hname.least other hother.stands
  have hge := hother.least name hname.stands
  rw [Text.before_iff_lt] at hle hge
  exact String.le_antisymm (String.not_lt.1 hle) (String.not_lt.1 hge)

/-- The entries are in the order of their names, so the first that stands at an address is the
least. -/
theorem firstAt_of_labelAt? {symbols : SymbolTable} {address : Address} {name : String}
    (hlabel : symbols.labelAt? address = some name) : symbols.FirstAt address name := by
  refine ⟨find?_of_labelAt? hlabel, fun other hother hbefore => ?_⟩
  obtain ⟨entry, hfound, rfl⟩ := Option.map_eq_some_iff.mp hlabel
  obtain ⟨-, before, after, hentries, hskipped⟩ :=
    List.find?_eq_some_iff_append.mp hfound
  have hmem := Dictionary.mem_entries_iff.mpr hother
  have hsorted := symbols.sorted
  rw [hentries, List.mem_append, List.mem_cons] at hmem
  rw [hentries, List.pairwise_append, List.pairwise_cons] at hsorted
  rw [Text.before_iff_lt] at hbefore
  rcases hmem with hmem | rfl | hmem
  · simpa using hskipped _ hmem
  · exact String.lt_irrefl _ hbefore
  · exact String.lt_irrefl _ (String.lt_trans hbefore (hsorted.2.1.1 _ hmem))

theorem labelAt?_eq_some_iff {symbols : SymbolTable} {address : Address} {name : String} :
    symbols.labelAt? address = some name ↔ symbols.FirstAt address name := by
  refine ⟨firstAt_of_labelAt?, fun hfirst => ?_⟩
  obtain ⟨shown, hshown⟩ :=
    Option.isSome_iff_exists.mp (labelAt?_isSome_of_find? hfirst.stands)
  rw [hshown, (firstAt_of_labelAt? hshown).unique hfirst]

theorem exists_firstAt {symbols : SymbolTable} {address : Address} {name : String}
    (hfind : symbols.find? name = some address) :
    ∃ first, symbols.FirstAt address first := by
  obtain ⟨first, hfirst⟩ :=
    Option.isSome_iff_exists.mp (labelAt?_isSome_of_find? hfind)
  exact ⟨first, firstAt_of_labelAt? hfirst⟩

/-- A name is the first at its address exactly if no smaller one stands there. -/
theorem FirstAt.eq_iff {symbols : SymbolTable} {address : Address} {first name : String}
    (hfirst : symbols.FirstAt address first) (hfind : symbols.find? name = some address) :
    first = name ↔ ∀ other, Text.Before other name → symbols.find? other ≠ some address := by
  constructor
  · rintro rfl other hbefore hother
    exact hfirst.least other hother hbefore
  · intro hleast
    apply hfirst.unique
    exact ⟨hfind, fun other hother hbefore => hleast other hbefore hother⟩

open Dictionary (FirstOf LastOf)

/-- The table after definitions were entered one after the other. -/
def entered (calls : List (String × Address)) : SymbolTable :=
  (defineAll .empty calls).1

variable {calls : List (String × Address)} {label : String} {address : Address}

theorem find?_entered (calls : List (String × Address)) (label : String) :
    (entered calls).find? label = calls.lookup label := by
  rw [entered, find?_defineAll, Dictionary.find?_empty, Option.none_or]

theorem find?_entered_eq_some_iff :
    (entered calls).find? label = some address ↔ FirstOf calls label address := by
  rw [find?_entered, Dictionary.lookup_eq_some_iff_firstOf]

theorem find?_entered_eq_none_iff :
    (entered calls).find? label = none ↔ label ∉ calls.map Prod.fst := by
  rw [find?_entered, Dictionary.lookup_eq_none_iff_not_mem]

theorem entered_concat (calls : List (String × Address)) (label : String) (address : Address) :
    entered (calls ++ [(label, address)]) =
      ((entered calls).defineAll [(label, address)]).1 := by
  rw [entered, defineAll_append]
  rfl

/-- A definition of a label that was entered before is refused and leaves the table as it is; any
other is added to it. -/
theorem define_entered_cases (calls : List (String × Address)) (label : String)
    (address : Address) :
    (∃ first, FirstOf calls label first ∧
      (entered calls).define label address = .error (.duplicateLabel label first address) ∧
      entered (calls ++ [(label, address)]) = entered calls) ∨
    label ∉ calls.map Prod.fst ∧
      (entered calls).define label address = .ok (entered (calls ++ [(label, address)])) := by
  cases hfind : (entered calls).find? label with
  | some first =>
      have hdefine := define_of_some address hfind
      refine .inl ⟨first, find?_entered_eq_some_iff.mp hfind, hdefine, ?_⟩
      simp only [entered_concat, defineAll, hdefine]
  | none =>
      have hdefine := define_of_none address hfind
      refine .inr ⟨find?_entered_eq_none_iff.mp hfind, ?_⟩
      simp only [entered_concat, defineAll, hdefine]

/-- The names of a table without repetition are those that were entered. -/
theorem size_entered (calls : List (String × Address)) :
    (entered calls).size = (calls.map Prod.fst).dedup.length := by
  have hnames : ((entered calls).entries.map Prod.fst).Perm (calls.map Prod.fst).dedup := by
    rw [List.perm_ext_iff_of_nodup (entered calls).nodup_names (List.nodup_dedup _)]
    intro name
    rw [List.mem_dedup, ← not_iff_not, ← Dictionary.lookup_eq_none_iff_not_mem,
      ← find?_entered_eq_none_iff]
    rfl
  rw [Dictionary.size, ← hnames.length_eq, List.length_map]

theorem labelAt?_eq_none_iff {symbols : SymbolTable} :
    symbols.labelAt? address = none ↔ ∀ name, symbols.find? name ≠ some address := by
  simp only [Option.eq_none_iff_forall_ne_some, ne_eq, labelAt?_eq_some_iff]
  constructor
  · intro hnone name hfind
    obtain ⟨first, hfirst⟩ := exists_firstAt hfind
    exact hnone first hfirst
  · intro hnone name hfirst
    exact hnone name hfirst.stands

/-- A table keeps first definitions, whatever is entered into it.  A definition is refused exactly
if its label was entered before, with the address of the first time, and then changes nothing.  So
the table has every label once, in the order of bytes, with its first address, and shows at an
address the least label there.  Made from pairs at once, it has the last address of each name. -/
theorem first_definitions_stay (calls : List (String × Address)) :
    (∀ index label address, calls[index]? = some (label, address) →
      ((∃ error, (entered (calls.take index)).define label address = .error error) ↔
        label ∈ (calls.take index).map Prod.fst) ∧
      (∀ error, (entered (calls.take index)).define label address = .error error →
        (∃ first, FirstOf (calls.take index) label first ∧
          error = .duplicateLabel label first address) ∧
        entered (calls.take (index + 1)) = entered (calls.take index)) ∧
      ∀ extended, (entered (calls.take index)).define label address = .ok extended →
        entered (calls.take (index + 1)) = extended) ∧
    (∀ label,
      (∀ address, (entered calls).find? label = some address ↔ FirstOf calls label address) ∧
      ((entered calls).find? label = none ↔ label ∉ calls.map Prod.fst)) ∧
    ((entered calls).entries.Pairwise fun first second => Text.Before first.1 second.1) ∧
    (∀ label address,
      (label, address) ∈ (entered calls).entries ↔ FirstOf calls label address) ∧
    (entered calls).size = (calls.map Prod.fst).dedup.length ∧
    (∀ address,
      (∀ name, (entered calls).labelAt? address = some name ↔
        (entered calls).FirstAt address name) ∧
      ((entered calls).labelAt? address = none ↔
        ∀ name, (entered calls).find? name ≠ some address)) ∧
    ∀ label,
      (∀ address, (Dictionary.ofList calls).find? label = some address ↔
        LastOf calls label address) ∧
      ((Dictionary.ofList calls).find? label = none ↔ label ∉ calls.map Prod.fst) := by
  refine ⟨?_, ?_, ?_, ?_, size_entered calls, ?_, ?_⟩
  · intro index label address hcall
    rw [List.take_add_one, hcall, Option.toList_some]
    rcases define_entered_cases (calls.take index) label address with
      ⟨first, hfirst, hdefine, hsame⟩ | ⟨hnew, hdefine⟩
    · rw [hdefine, hsame]
      refine ⟨⟨fun _ => hfirst.mem, fun _ => ⟨_, rfl⟩⟩, ?_, by simp⟩
      rintro error ⟨⟩
      exact ⟨⟨first, hfirst, rfl⟩, rfl⟩
    · rw [hdefine]
      refine ⟨⟨by simp, fun hold => absurd hold hnew⟩, by simp, ?_⟩
      rintro extended ⟨⟩
      rfl
  · intro label
    exact ⟨fun address => find?_entered_eq_some_iff, find?_entered_eq_none_iff⟩
  · simp only [Text.before_iff_lt]
    exact (entered calls).sorted
  · intro label address
    rw [Dictionary.mem_entries_iff, find?_entered_eq_some_iff]
  · intro address
    exact ⟨fun name => labelAt?_eq_some_iff, labelAt?_eq_none_iff⟩
  · intro label
    exact ⟨fun address => Dictionary.find?_ofList_eq_some_iff,
      Dictionary.find?_ofList_eq_none_iff⟩

/-- Labels that differ in case are two labels.  A second address of one of them is refused by a
table, and counts where the pairs are read at once. -/
theorem second_address_is_refused :
    let calls : List (String × Address) :=
      [("LOOP", 0x3000), ("loop", 0x3000), ("LOOP", 0x4000)]
    (entered (calls.take 2)).define "LOOP" 0x4000 =
        .error (.duplicateLabel "LOOP" 0x3000 0x4000) ∧
      entered calls = entered (calls.take 2) ∧ (entered calls).size = 2 ∧
      (Dictionary.ofList calls).find? "LOOP" = some 0x4000 := by
  intro calls
  obtain ⟨hcalls, -, -, -, hsize, -, hlast⟩ := first_definitions_stay calls
  obtain ⟨hrefused, hsame, -⟩ := hcalls 2 "LOOP" 0x4000 rfl
  obtain ⟨error, herror⟩ := hrefused.mpr (by decide)
  obtain ⟨⟨first, hfirst, rfl⟩, htable⟩ := hsame error herror
  have hfind : (entered (calls.take 2)).find? "LOOP" = some 0x3000 := by decide
  obtain rfl := Option.some.inj (hfind.symm.trans (find?_entered_eq_some_iff.mpr hfirst))
  refine ⟨herror, htable, hsize.trans (by decide), ?_⟩
  exact ((hlast "LOOP").1 0x4000).mpr ⟨calls.take 2, [], rfl, by simp⟩

end SymbolTable

end LittleComputer
