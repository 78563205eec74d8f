import LittleComputer.Machine

/-!
Finite maps from names, and symbol tables.  A map is kept as a list in strictly increasing order of
the names.  Names are ordered by code point, which is the order of their UTF-8 bytes, and equal maps
are equal lists.
-/
namespace LittleComputer

/-- A finite map from names. -/
structure Dictionary (α : Type) where
  entries : List (String × α)
  sorted : entries.Pairwise fun a b => a.1 < b.1

namespace Dictionary

variable {α : Type}

instance [DecidableEq α] : DecidableEq (Dictionary α) := fun a b =>
  decidable_of_iff (a.entries = b.entries) <| by
    cases a
    cases b
    simp

def empty : Dictionary α := ⟨[], .nil⟩

def size (map : Dictionary α) : Nat :=
  map.entries.length

def find? (map : Dictionary α) (name : String) : Option α :=
  map.entries.lookup name

def contains (map : Dictionary α) (name : String) : Bool :=
  (map.find? name).isSome

/-- Puts an entry in its place in a sorted list and takes out an older entry of the same name. -/
def place (name : String) (value : α) : List (String × α) → List (String × α)
  | [] => [(name, value)]
  | entry :: rest =>
      if name < entry.1 then (name, value) :: entry :: rest
      else if entry.1 < name then entry :: place name value rest
      else (name, value) :: rest

/-- Where an entry of the placed list comes from. -/
theorem mem_place {name : String} {value : α} {entries : List (String × α)}
    {entry : String × α} (h : entry ∈ place name value entries) :
    entry = (name, value) ∨ entry ∈ entries := by
  induction entries with
  | nil => simpa [place] using h
  | cons head rest ih =>
      simp only [place] at h
      split at h
      · simpa using h
      · split at h
        · rcases List.mem_cons.1 h with h | h
          · exact .inr (by simp [h])
          · exact (ih h).imp_right (List.mem_cons_of_mem head)
        · rcases List.mem_cons.1 h with h | h
          · exact .inl h
          · exact .inr (List.mem_cons_of_mem head h)

theorem sorted_place (name : String) (value : α) (entries : List (String × α))
    (h : entries.Pairwise fun a b => a.1 < b.1) :
    (place name value entries).Pairwise fun a b => a.1 < b.1 := by
  induction entries with
  | nil => simp [place]
  | cons head rest ih =>
      have hrest := List.pairwise_cons.1 h
      simp only [place]
      split
      · rename_i hlt
        refine List.pairwise_cons.2 ⟨fun entry hentry => ?_, h⟩
        rcases List.mem_cons.1 hentry with rfl | hentry
        · exact hlt
        · exact String.lt_trans hlt (hrest.1 entry hentry)
      · rename_i hge
        split
        · rename_i hlt
          refine List.pairwise_cons.2 ⟨fun entry hentry => ?_, ih hrest.2⟩
          rcases mem_place hentry with rfl | hentry
          · exact hlt
          · exact hrest.1 entry hentry
        · rename_i hle
          have heq : name = head.1 :=
            String.le_antisymm (String.not_lt.1 hle) (String.not_lt.1 hge)
          refine List.pairwise_cons.2 ⟨fun entry hentry => ?_, hrest.2⟩
          simpa [heq] using hrest.1 entry hentry

/-- The map in which `name` stands for `value`, whatever it stood for before. -/
def set (map : Dictionary α) (name : String) (value : α) : Dictionary α :=
  ⟨place name value map.entries, sorted_place name value map.entries map.sorted⟩

/-- The map of a list of pairs.  Of several pairs with one name the last counts. -/
def ofList (pairs : List (String × α)) : Dictionary α :=
  pairs.foldl (fun map pair => map.set pair.1 pair.2) empty

end Dictionary

/-!
Symbol tables: the addresses of labels.  A label is defined once; a second definition is refused
and the first one stays.
-/

/-- Addresses by label.  Labels differ when their spelling does, in case too. -/
abbrev SymbolTable := Dictionary Address

namespace SymbolTable

/-- Adds a label that is not defined yet. -/
def define (symbols : SymbolTable) (label : String) (address : Address) :
    Except AssemblyError SymbolTable :=
  match symbols.find? label with
  | some first => .error (.duplicateLabel label first address)
  | none => .ok (symbols.set label address)

/-- Adds labels one after the other; gives the problems of those that were defined before. -/
def defineAll (symbols : SymbolTable) :
    List (String × Address) → SymbolTable × List AssemblyError
  | [] => (symbols, [])
  | (label, address) :: rest =>
      match symbols.define label address with
      | .ok symbols => defineAll symbols rest
      | .error error =>
          let (symbols, errors) := defineAll symbols rest
          (symbols, error :: errors)

/-- The first label, by name, that stands at an address. -/
def labelAt? (symbols : SymbolTable) (address : Address) : Option String :=
  (symbols.entries.find? fun entry => entry.2 == address).map (·.1)

end SymbolTable

end LittleComputer
