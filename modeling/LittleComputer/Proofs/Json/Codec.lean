import LittleComputer.Json.Shape
import LittleComputer.Proofs.Json.Text
import LittleComputer.Proofs.Symbols

/-!
Lawful codecs: what is written is read again.  The law for a structure is that of its fields; it
goes member by member, each of them stored once into the draft that reading starts from.
-/
namespace LittleComputer

/-- A codec whose reader undoes its writer. -/
class LawfulCodec (α : Type) [Codec α] : Prop where
  read_write : ∀ a : α, Codec.read (Codec.write a) = .ok a
  /-- Null stands for an absent value. -/
  write_ne_null : ∀ a : α, Codec.write a ≠ .null
  /-- Every form has a text. -/
  plain_write : ∀ a : α, (Codec.write a).Plain

namespace Codec

export LawfulCodec (read_write write_ne_null plain_write)

/-- A value is read from the pretty text of its form. -/
theorem ofText_pretty {α : Type} [Codec α] [LawfulCodec α] (a : α) :
    ofText (write a).pretty = some a := by
  rw [ofText, Json.parse_pretty (plain_write a), Option.bind_some, read_write]
  rfl

theorem readInt_of_mem {low high number : Int} (wanted : String) (hlow : low ≤ number)
    (hhigh : number ≤ high) : readInt low high wanted (.int number) = .ok number := by
  rw [readInt, if_pos ⟨hlow, hhigh⟩]

instance : LawfulCodec Bool where
  read_write _ := rfl
  write_ne_null _ := by simp [write]
  plain_write := .bool

instance : LawfulCodec String where
  read_write _ := rfl
  write_ne_null _ := by simp [write]
  plain_write := .str

instance : LawfulCodec (BitVec 16) where
  read_write word := by
    have hlt := word.isLt
    change (readInt 0 65535 "u16" (.int word.toNat)).map (BitVec.ofInt 16) = .ok word
    rw [readInt_of_mem _ (by omega) (by omega), Except.map, BitVec.ofInt_natCast,
      BitVec.ofNat_toNat, BitVec.setWidth_eq]
  write_ne_null _ := by simp [write]
  plain_write word := by
    have hlt := word.isLt
    exact .int ⟨by omega, by omega⟩

instance : LawfulCodec Int16 where
  read_write number := by
    change (readInt (-32768) 32767 "i16" (.int number.toInt)).map Int16.ofInt = .ok number
    have hlow : -32768 ≤ number.toInt := number.le_toInt
    have hhigh : number.toInt < 32768 := number.toInt_lt
    rw [readInt_of_mem _ hlow (by omega), Except.map, Int16.ofInt_toInt]
  write_ne_null _ := by simp [write]
  plain_write number := by
    have hlow : -32768 ≤ number.toInt := number.le_toInt
    have hhigh : number.toInt < 32768 := number.toInt_lt
    exact .int ⟨by omega, by omega⟩

variable {α : Type} [Codec α] [LawfulCodec α]

theorem read_some (a : α) : read (write a) = .ok (some a) := by
  have hnull := write_ne_null a
  have hread := read_write a
  cases hwritten : write a with
  | null => exact absurd hwritten hnull
  | _ =>
      rw [hwritten] at hread
      change (read _).map some = _
      rw [hread, Except.map]

theorem mapM_read_write (items : List α) :
    (items.map write).mapM (read : Json → Except ReadError α) = .ok items := by
  induction items with
  | nil => rfl
  | cons item rest ih =>
      rw [List.map_cons, List.mapM_cons, read_write, ih]
      rfl

instance : LawfulCodec (List α) where
  read_write := mapM_read_write
  write_ne_null _ := by simp [write]
  plain_write items := by
    refine .arr fun item hitem => ?_
    obtain ⟨a, -, rfl⟩ := List.mem_map.mp hitem
    exact plain_write a

theorem plain_optionalMember {name : String} {value : Option α} :
    ∀ member ∈ optionalMember name value, member.2.Plain := by
  intro member hmember
  cases value with
  | none => cases hmember
  | some a =>
      obtain rfl := List.mem_singleton.mp hmember
      exact plain_write a

/-- Entries are read one by one, and the last of each name would count. -/
instance : LawfulCodec (Dictionary α) where
  read_write map := by
    have hentries : ∀ entries : List (String × α),
        (entries.map fun entry => (entry.1, write entry.2)).mapM (fun member => do
          let value ← (read member.2 : Except ReadError α)
          return (member.1, value)) = .ok entries := by
      intro entries
      induction entries with
      | nil => rfl
      | cons entry rest ih =>
          rw [List.map_cons, List.mapM_cons, ih, read_write]
          rfl
    exact (congrArg (· >>= fun pairs => pure (Dictionary.ofList pairs))
      (hentries map.entries)).trans (congrArg Except.ok map.ofList_entries)
  write_ne_null _ := by simp [write]
  plain_write map := by
    refine .obj fun member hmember => ?_
    obtain ⟨entry, -, rfl⟩ := List.mem_map.mp hmember
    exact plain_write entry.2

end Codec

namespace Shape

open Codec

variable {α β : Type}
variable {shape : Shape α} {given : List String} {draft : α} {name : String}
variable {rest : List (String × Json)} {result : Except ReadError (List String × α)}

/-- A field that was not given yet is stored, and reading goes on. -/
theorem foldlM_cons_of_store {slot : Slot α} {value : Json} {next : α}
    (hslot : shape.slots.find? (fun slot => slot.answers name) = some slot)
    (hname : slot.name = name) (hfresh : name ∉ given)
    (hstore : slot.store draft value = .ok next)
    (hrest : rest.foldlM shape.readMember (name :: given, next) = result) :
    ((name, value) :: rest).foldlM shape.readMember (given, draft) = result := by
  have hcontains : given.contains name = false := by simpa using hfresh
  rw [List.foldlM_cons, readMember, ← hrest]
  simp only [hslot, hname, hcontains, hstore, Bool.false_eq_true, if_false]
  rfl

/-- The fields that are given once an optional one has been read. -/
def noting (name : String) (value : Option β) (given : List String) : List String :=
  if value.isSome then name :: given else given

theorem mem_noting_iff {value : Option β} {other : String} :
    other ∈ noting name value given ↔ value.isSome = true ∧ other = name ∨ other ∈ given := by
  rw [noting]
  split <;> simp_all

variable [Codec β] [LawfulCodec β]

/-- A member with the form of a value stores the value. -/
theorem foldlM_member (value : β) (next : α) {presence : Presence} {set : α → β → α}
    (hslot : shape.slots.find? (fun slot => slot.answers name) = some (.of name presence set))
    (hfresh : name ∉ given) (hnext : set draft value = next)
    (hrest : rest.foldlM shape.readMember (name :: given, next) = result) :
    ((name, write value) :: rest).foldlM shape.readMember (given, draft) = result := by
  refine foldlM_cons_of_store hslot rfl hfresh ?_ hrest
  change (Codec.read (write value)).map (set draft) = _
  rw [read_write, Except.map, hnext]

/-- An optional member stores its value if there is one, and nothing otherwise. -/
theorem foldlM_optionalMember (value : Option β) (next : α) {presence : Presence}
    {other : Option String} {set : α → Option β → α}
    (hslot : shape.slots.find? (fun slot => slot.answers name) =
      some { Slot.of name presence set with otherName := other })
    (hfresh : name ∉ given) (hnext : set draft value = next) (hblank : set draft none = draft)
    (hrest : rest.foldlM shape.readMember (noting name value given, next) = result) :
    (optionalMember name value ++ rest).foldlM shape.readMember (given, draft) = result := by
  cases value with
  -- A value that is left out has to be blank in the draft already.
  | none => rwa [← hnext, hblank] at hrest
  | some value =>
      refine foldlM_cons_of_store hslot rfl hfresh ?_ hrest
      change (Codec.read (write value)).map (set draft) = _
      rw [read_some, Except.map, hnext]

/-- Reading ends with the draft, once no field that has to be given is missing. -/
theorem readMembers_eq_ok {members : List (String × Json)}
    (hfold : members.foldlM shape.readMember ([], shape.blank) = .ok (given, draft))
    (hgiven : ∀ slot ∈ shape.slots, slot.presence = .required → slot.name ∈ given) :
    shape.readMembers members = .ok draft := by
  have hmissing : shape.slots.find? (fun slot =>
      slot.presence == .required && !given.contains slot.name) = none := by
    rw [List.find?_eq_none]
    intro slot hslot
    have := hgiven slot hslot
    simpa using this
  simp only [readMembers, hfold, bind, Except.bind, hmissing]
  rfl

end Shape

end LittleComputer
