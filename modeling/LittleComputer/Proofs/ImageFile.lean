import LittleComputer.Image
import Mathlib.Data.List.Induction

/-!
Images as files.  The bytes of an image give back its words; the origins of its segments are lost,
and loading joins the segments into one.  Segments one right after the other are the same memory as
that one.
-/
namespace LittleComputer

namespace Word

theorem ofBytes_toBytes (word : Word) :
    Word.ofBytes (UInt8.ofNat (word.toNat / 256)) (UInt8.ofNat (word.toNat % 256)) = word := by
  have hlt := word.isLt
  apply BitVec.eq_of_toNat_eq
  rw [Word.ofBytes, BitVec.toNat_ofNat, UInt8.toNat_ofNat', UInt8.toNat_ofNat']
  omega

theorem toNat_ofBytes (high low : UInt8) :
    (Word.ofBytes high low).toNat = 256 * high.toNat + low.toNat := by
  have hhigh := high.toNat_lt
  have hlow := low.toNat_lt
  rw [Word.ofBytes, BitVec.toNat_ofNat]
  omega

theorem toBytes_ofBytes (high low : UInt8) :
    (Word.ofBytes high low).toBytes = [high, low] := by
  have hlow := low.toNat_lt
  have hdiv : (256 * high.toNat + low.toNat) / 256 = high.toNat := by omega
  have hmod : (256 * high.toNat + low.toNat) % 256 = low.toNat := by omega
  rw [Word.toBytes, toNat_ofBytes, hdiv, hmod, UInt8.ofNat_toNat, UInt8.ofNat_toNat]

end Word

namespace Segment

theorem read?_eq (segment : Segment) (address : Address) :
    segment.read? address =
      if segment.origin.toNat ≤ address.toNat then
        segment.words[address.toNat - segment.origin.toNat]?
      else none := by
  rw [read?, contains]
  by_cases hafter : segment.origin.toNat ≤ address.toNat
  · by_cases hbefore : address.toNat - segment.origin.toNat < segment.words.length
    · simp [hafter, hbefore]
    · simp [hafter, hbefore]
  · simp [hafter]

/-- The second segment starts where the first one ends. -/
def Precedes (first second : Segment) : Prop :=
  second.origin.toNat = first.origin.toNat + first.words.length

/-- Words that go on right after a segment are read like a segment of their own. -/
theorem read?_append {first second : Segment} (hnext : first.Precedes second)
    (address : Address) :
    (⟨first.origin, first.words ++ second.words⟩ : Segment).read? address =
      (first.read? address).or (second.read? address) := by
  rw [Precedes] at hnext
  simp only [read?_eq, hnext]
  by_cases hafter : first.origin.toNat ≤ address.toNat
  · rw [if_pos hafter, if_pos hafter]
    by_cases hfirst : address.toNat - first.origin.toNat < first.words.length
    · rw [if_neg (by omega), Option.or_none, List.getElem?_append_left hfirst]
    · rw [if_pos (by omega), List.getElem?_append_right (by omega),
        List.getElem?_eq_none (by omega : first.words.length ≤ _), Option.none_or, Nat.sub_sub]
  · rw [if_neg hafter, if_neg hafter, if_neg (by omega), Option.none_or]

/-- Segments one right after the other are read like one. -/
theorem findSome?_read?_of_isChain {first : Segment} {rest : List Segment}
    (hmeet : (first :: rest).IsChain Precedes) (address : Address) :
    ((first :: rest).findSome? fun segment => segment.read? address) =
      (⟨first.origin, (first :: rest).flatMap words⟩ : Segment).read? address := by
  induction rest generalizing first with
  | nil => simp
  | cons second rest ih =>
      obtain ⟨hnext, hrest⟩ := List.isChain_cons_cons.mp hmeet
      have happend := @read?_append first
        ⟨second.origin, (second :: rest).flatMap words⟩ hnext address
      rw [List.flatMap_cons, happend, ← ih hrest, List.findSome?_cons]
      cases first.read? address <;> rfl

/-- The last of several segments one right after the other ends where all of them as one end. -/
theorem stop_getLast?_of_isChain {first last : Segment} {rest : List Segment}
    (hmeet : (first :: rest).IsChain Precedes)
    (hlast : (first :: rest).getLast? = some last) :
    last.origin.toNat + last.words.length =
      first.origin.toNat + ((first :: rest).flatMap words).length := by
  induction rest generalizing first with
  | nil =>
      obtain rfl : first = last := by simpa using hlast
      simp
  | cons second rest ih =>
      obtain ⟨hnext, hrest⟩ := List.isChain_cons_cons.mp hmeet
      rw [List.getLast?_cons_cons] at hlast
      have hstop := ih hrest hlast
      rw [Precedes] at hnext
      rw [List.flatMap_cons, List.length_append]
      omega

end Segment

namespace Image

theorem pairBytes_flatMap_toBytes (done words : List Word) :
    pairBytes done (words.flatMap Word.toBytes) = done.reverse ++ words := by
  induction words generalizing done with
  | nil => simp [pairBytes]
  | cons word rest ih =>
      change pairBytes (_ :: done) (rest.flatMap Word.toBytes) = _
      rw [ih, Word.ofBytes_toBytes, List.reverse_cons, List.append_assoc, List.singleton_append]

theorem length_flatMap_toBytes (words : List Word) :
    (words.flatMap Word.toBytes).length = 2 * words.length := by
  simp [List.length_flatMap, Word.toBytes, List.map_const', Nat.mul_comm]

theorem length_toBytes (image : Image) : image.toBytes.length = 2 * image.size :=
  length_flatMap_toBytes image.words

/-- An even number of bytes are the bytes of words. -/
theorem exists_words_of_even {bytes : List UInt8} (heven : bytes.length % 2 = 0) :
    ∃ words : List Word, bytes = words.flatMap Word.toBytes := by
  induction bytes using List.twoStepInduction with
  | nil => exact ⟨[], rfl⟩
  | singleton byte => simp at heven
  | cons_cons high low rest ih =>
      simp only [List.length_cons] at heven
      obtain ⟨words, hwords⟩ := ih (by omega)
      refine ⟨Word.ofBytes high low :: words, ?_⟩
      rw [List.flatMap_cons, Word.toBytes_ofBytes, ← hwords]
      rfl

theorem bytes_of_word {words : List Word} {index : Nat} {word : Word}
    (hword : words[index]? = some word) :
    ∃ high low, (words.flatMap Word.toBytes)[2 * index]? = some high ∧
      (words.flatMap Word.toBytes)[2 * index + 1]? = some low ∧
      word.toNat = 256 * high.toNat + low.toNat := by
  induction words generalizing index with
  | nil => simp at hword
  | cons head rest ih =>
      cases index with
      | zero =>
          obtain rfl := Option.some.inj hword
          refine ⟨_, _, rfl, rfl, ?_⟩
          rw [← Word.toNat_ofBytes, Word.ofBytes_toBytes]
      | succ index =>
          obtain ⟨high, low, hhigh, hlow, hvalue⟩ := ih hword
          exact ⟨high, low, hhigh, hlow, hvalue⟩

theorem ofBytes_of_odd {bytes : List UInt8} (hodd : bytes.length % 2 = 1) (origin : Address) :
    ofBytes origin bytes = .error (.oddLength bytes.length) := by
  rw [ofBytes, if_pos (by omega)]

/-- The bytes of words are loaded as one segment, if it ends inside memory. -/
theorem ofBytes_flatMap_toBytes (origin : Address) (words : List Word) :
    ofBytes origin (words.flatMap Word.toBytes) =
      if memorySize < origin.toNat + words.length then .error (.overflow origin words.length)
      else .ok ⟨[⟨origin, words⟩]⟩ := by
  have hlength := length_flatMap_toBytes words
  rw [ofBytes, if_neg (by omega), pairBytes_flatMap_toBytes]
  rfl

theorem ofBytes_toBytes {image : Image} {origin : Address}
    (hinside : origin.toNat + image.size ≤ memorySize) :
    ofBytes origin image.toBytes = .ok ⟨[⟨origin, image.words⟩]⟩ := by
  rw [toBytes, ofBytes_flatMap_toBytes]
  exact if_neg (Nat.not_lt.mpr hinside)

theorem read?_singleton (segment : Segment) (address : Address) :
    (⟨[segment]⟩ : Image).read? address = segment.read? address := by
  rw [read?, List.findSome?_singleton]

theorem read?_of_word {origin : Address} {words : List Word} {index : Nat} {word : Word}
    (hinside : origin.toNat + words.length ≤ memorySize) (hword : words[index]? = some word) :
    (origin.advance index).toNat = origin.toNat + index ∧
      (⟨[⟨origin, words⟩]⟩ : Image).read? (origin.advance index) = some word := by
  obtain ⟨hindex, -⟩ := List.getElem?_eq_some_iff.mp hword
  have hnumber : (origin.advance index).toNat = origin.toNat + index :=
    Address.toNat_advance (by omega)
  refine ⟨hnumber, ?_⟩
  rw [read?_singleton, Segment.read?_eq, hnumber, if_pos (Nat.le_add_right _ _),
    Nat.add_sub_cancel_left, hword]

theorem read?_eq_none {origin address : Address} {words : List Word}
    (hoff : ∀ index, index < words.length → address ≠ origin.advance index) :
    (⟨[⟨origin, words⟩]⟩ : Image).read? address = none := by
  rw [read?_singleton, Segment.read?_eq]
  split
  · rename_i hafter
    apply List.getElem?_eq_none
    by_contra hlt
    exact hoff _ (Nat.lt_of_not_le hlt) (Address.advance_sub hafter).symm
  · rfl

/-- Segments one right after the other, the last of which ends inside memory. -/
structure Adjacent (image : Image) : Prop where
  meet : image.segments.IsChain Segment.Precedes
  inside : ∀ last, image.segments.getLast? = some last →
    last.origin.toNat + last.words.length ≤ memorySize

/-- The bytes of adjacent segments, loaded where the first one starts, are the same memory. -/
theorem Adjacent.exists_ofBytes {image : Image} (hadjacent : image.Adjacent) {first : Segment}
    (hfirst : image.segments.head? = some first) :
    ∃ loaded, ofBytes first.origin image.toBytes = .ok loaded ∧
      ∀ address, loaded.read? address = image.read? address := by
  obtain ⟨segments⟩ := image
  obtain ⟨rest, rfl⟩ := List.head?_eq_some_iff.mp hfirst
  have hlast : (first :: rest).getLast? = some _ := List.getLast?_cons
  have hinside := hadjacent.inside _ hlast
  rw [Segment.stop_getLast?_of_isChain hadjacent.meet hlast] at hinside
  refine ⟨_, ofBytes_toBytes hinside, fun address => ?_⟩
  rw [read?_singleton, read?, Segment.findSome?_read?_of_isChain hadjacent.meet]
  rfl

/-- Bytes and images.  Bytes are refused if their number is odd, or else if they go on over the end
of memory; otherwise they are loaded as an image with the same bytes, in which each pair of bytes is
the word at its address, and nothing else is mapped.  The other way round, the bytes of adjacent
segments are loaded as the same memory. -/
theorem bytes_and_images_agree :
    (∀ (origin : Address) (bytes : List UInt8),
      (∀ count, ofBytes origin bytes = .error (.oddLength count) ↔
        bytes.length % 2 = 1 ∧ count = bytes.length) ∧
      (∀ start count, ofBytes origin bytes = .error (.overflow start count) ↔
        bytes.length % 2 = 0 ∧ memorySize < origin.toNat + bytes.length / 2 ∧
          start = origin ∧ count = bytes.length / 2) ∧
      (bytes.length % 2 = 0 → origin.toNat + bytes.length / 2 ≤ memorySize →
        ∃ image, ofBytes origin bytes = .ok image ∧ image.toBytes = bytes ∧
          (∀ index, index < bytes.length / 2 → ∃ high low word,
            bytes[2 * index]? = some high ∧ bytes[2 * index + 1]? = some low ∧
            (origin.advance index).toNat = origin.toNat + index ∧
            image.read? (origin.advance index) = some word ∧
            word.toNat = 256 * high.toNat + low.toNat) ∧
          ∀ address, (∀ index, index < bytes.length / 2 → address ≠ origin.advance index) →
            image.read? address = none)) ∧
    ∀ image : Image, image.Adjacent →
      image.toBytes.length = 2 * image.size ∧
      ∀ first, image.segments.head? = some first →
        ∃ loaded, ofBytes first.origin image.toBytes = .ok loaded ∧
          ∀ address, loaded.read? address = image.read? address := by
  constructor
  · intro origin bytes
    rcases Nat.mod_two_eq_zero_or_one bytes.length with heven | hodd
    · obtain ⟨words, rfl⟩ := exists_words_of_even heven
      have hlength : (words.flatMap Word.toBytes).length / 2 = words.length := by
        rw [length_flatMap_toBytes]
        omega
      rw [ofBytes_flatMap_toBytes, hlength, heven]
      refine ⟨fun count => ?_, fun start count => ?_, fun _ hinside => ?_⟩
      · split <;> simp
      · split
        · rename_i hover
          simp [hover, eq_comm]
        · rename_i hinside
          simp [hinside]
      · rw [if_neg (Nat.not_lt.mpr hinside)]
        refine ⟨_, rfl, ?_, fun index hindex => ?_, fun address => read?_eq_none⟩
        · simp [toBytes, Image.words]
        · have hword := List.getElem?_eq_getElem hindex
          obtain ⟨high, low, hhigh, hlow, hvalue⟩ := bytes_of_word hword
          obtain ⟨hnumber, hread⟩ := read?_of_word hinside hword
          exact ⟨high, low, _, hhigh, hlow, hnumber, hread, hvalue⟩
    · rw [ofBytes_of_odd hodd, hodd]
      simp [eq_comm]
  · intro image hadjacent
    exact ⟨image.length_toBytes, fun first hfirst => hadjacent.exists_ofBytes hfirst⟩

/-- Two segments that end exactly where memory ends are loaded from their bytes; one word more is
refused. -/
theorem segments_before_memory_end :
    let image : Image := ⟨[⟨0xFFFD, [0x1234, 0xF025]⟩, ⟨0xFFFF, [0x00FF]⟩]⟩
    image.Adjacent ∧ image.toBytes = [0x12, 0x34, 0xF0, 0x25, 0x00, 0xFF] ∧
      (∃ loaded, ofBytes 0xFFFD image.toBytes = .ok loaded ∧
        loaded.read? 0xFFFF = some 0x00FF) ∧
      ofBytes 0xFFFE image.toBytes = .error (.overflow 0xFFFE 3) := by
  intro image
  have hadjacent : image.Adjacent := by
    refine ⟨?_, fun last hlast => ?_⟩
    · simp [image, Segment.Precedes]
    · obtain rfl : _ = last := Option.some.inj hlast
      decide
  obtain ⟨hbytes, hloads⟩ := bytes_and_images_agree
  obtain ⟨-, hloaded⟩ := hloads image hadjacent
  obtain ⟨loaded, hofBytes, hread⟩ := hloaded ⟨0xFFFD, [0x1234, 0xF025]⟩ rfl
  refine ⟨hadjacent, by decide, ⟨loaded, hofBytes, (hread 0xFFFF).trans (by decide)⟩, ?_⟩
  exact ((hbytes 0xFFFE image.toBytes).2.1 0xFFFE 3).mpr (by decide)

end Image

end LittleComputer
