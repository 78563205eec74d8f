import LittleComputer.Proofs.Instruction.Canonical
import LittleComputer.Proofs.Listing
import Mathlib.Data.Set.Card

/-!
Runs of the decode cache.  Whatever it was asked before, a cache knows the words that were decoded
with success since it was last cleared, each with the instruction that the decoder has for it, and
no others.  So what it answers is what the decoder answers, and only an event tells which words were
known.
-/
namespace LittleComputer.DecodeCache

inductive Call
  | decode (word : Word)
  | clear
deriving DecidableEq, Repr

/-- Answers a request.  There is no answer to a clear. -/
def answer (decoder : Word → Except DecodeError Instruction) (cache : DecodeCache) :
    Call → Option (Logged (Except DecodeError Instruction)) × DecodeCache
  | .decode word =>
      let (result, cache) := cache.decode decoder word
      (some result, cache)
  | .clear => (none, cache.clear)

def run (decoder : Word → Except DecodeError Instruction) (cache : DecodeCache) :
    List Call → List (Option (Logged (Except DecodeError Instruction))) × DecodeCache
  | [] => ([], cache)
  | call :: rest =>
      let (first, cache) := cache.answer decoder call
      let (others, cache) := run decoder cache rest
      (first :: others, cache)

/-- The word was asked for, and the cache was not cleared after that. -/
def AskedSince (calls : List Call) (word : Word) : Prop :=
  ∃ before after, calls = before ++ .decode word :: after ∧ .clear ∉ after

/-- The word was decoded with success since the cache was last cleared. -/
def DecodedSince (decoder : Word → Except DecodeError Instruction) (calls : List Call)
    (word : Word) : Prop :=
  AskedSince calls word ∧ ∃ instruction, decoder word = .ok instruction

theorem not_askedSince_nil (word : Word) : ¬ AskedSince [] word := by
  rintro ⟨before, after, hcalls, -⟩
  cases before <;> cases hcalls

/-- A request is asked for by itself, and before a clear nothing else was asked for. -/
theorem askedSince_concat (calls : List Call) (call : Call) (word : Word) :
    AskedSince (calls ++ [call]) word ↔
      call = .decode word ∨ call ≠ .clear ∧ AskedSince calls word := by
  constructor
  · rintro ⟨before, after, hcalls, hkept⟩
    rcases List.eq_nil_or_concat after with rfl | ⟨rest, last, rfl⟩
    · obtain ⟨-, hlast⟩ := List.append_inj' hcalls rfl
      exact .inl (List.singleton_inj.mp hlast)
    · rw [List.concat_eq_append] at hcalls hkept
      rw [← List.cons_append, ← List.append_assoc] at hcalls
      obtain ⟨rfl, hlast⟩ := List.append_inj' hcalls rfl
      obtain rfl := List.singleton_inj.mp hlast
      simp only [List.mem_append, List.mem_singleton, not_or] at hkept
      exact .inr ⟨Ne.symm hkept.2, before, rest, rfl, hkept.1⟩
  · rintro (rfl | ⟨hcall, before, after, rfl, hkept⟩)
    · exact ⟨calls, [], rfl, by simp⟩
    · refine ⟨before, after ++ [call], by simp, ?_⟩
      simp only [List.mem_append, List.mem_singleton, not_or]
      exact ⟨hkept, Ne.symm hcall⟩

variable {decoder : Word → Except DecodeError Instruction} {before : List Call}
variable {cache : DecodeCache}

/-- What a cache knows after the requests `calls`. -/
def Remembers (decoder : Word → Except DecodeError Instruction) (calls : List Call)
    (cache : DecodeCache) : Prop :=
  ∀ word instruction, cache.known[word]? = some instruction ↔
    AskedSince calls word ∧ decoder word = .ok instruction

theorem remembers_empty (hnone : ∀ word, ¬ AskedSince before word) :
    Remembers decoder before empty := by
  intro word instruction
  simp [empty, hnone word]

namespace Remembers

theorem known_iff_decodedSince (hremembers : Remembers decoder before cache) {word : Word} :
    (∃ instruction, cache.known[word]? = some instruction) ↔
      DecodedSince decoder before word := by
  simp only [hremembers word, DecodedSince, exists_and_left]

/-- A word that is known is answered at once and with the event. -/
theorem decode_of_known (hremembers : Remembers decoder before cache) {word : Word}
    (hdecoded : DecodedSince decoder before word) :
    cache.decode decoder word = (⟨decoder word, [.cacheHit word]⟩, cache) := by
  obtain ⟨instruction, hknown⟩ := hremembers.known_iff_decodedSince.mpr hdecoded
  rw [DecodeCache.decode, hknown, ((hremembers word instruction).mp hknown).2]

theorem known_eq_none (hremembers : Remembers decoder before cache) {word : Word}
    (hdecoded : ¬ DecodedSince decoder before word) : cache.known[word]? = none := by
  rw [← Option.not_isSome_iff_eq_none, Option.isSome_iff_exists,
    hremembers.known_iff_decodedSince]
  exact hdecoded

theorem decode_of_unknown (hremembers : Remembers decoder before cache) {word : Word}
    (hdecoded : ¬ DecodedSince decoder before word) :
    (cache.decode decoder word).1 = ⟨decoder word, []⟩ := by
  rw [DecodeCache.decode, hremembers.known_eq_none hdecoded]
  cases decoder word <;> rfl

/-- After a word was decoded, that word is known if it is an instruction, and all others are as
they were. -/
theorem known_decode (hremembers : Remembers decoder before cache) (word other : Word) :
    (cache.decode decoder word).2.known[other]? =
      if other = word then (decoder word).toOption else cache.known[other]? := by
  by_cases hdecoded : DecodedSince decoder before word
  -- A known word is not stored again; what is stored for it is what the decoder says.
  · obtain ⟨instruction, hknown⟩ := hremembers.known_iff_decodedSince.mpr hdecoded
    have hanswer := ((hremembers word instruction).mp hknown).2
    rw [hremembers.decode_of_known hdecoded]
    split
    · rename_i hsame
      rw [hsame, hknown, hanswer]
      rfl
    · rfl
  · have hunknown := hremembers.known_eq_none hdecoded
    rw [DecodeCache.decode, hunknown]
    by_cases hsame : other = word
    · subst hsame
      cases decoder other with
      | ok instruction => simp [Except.toOption]
      | error error => simpa [Except.toOption] using hunknown
    · cases decoder word with
      | ok instruction => simp [Std.HashMap.getElem?_insert, hsame, Ne.symm hsame]
      | error error => simp [hsame]

theorem answer (hremembers : Remembers decoder before cache) (call : Call) :
    Remembers decoder (before ++ [call]) (cache.answer decoder call).2 := by
  cases call with
  | clear =>
      apply remembers_empty
      intro word
      simp [askedSince_concat]
  | decode word =>
      intro other instruction
      change (cache.decode decoder word).2.known[other]? = some instruction ↔ _
      rw [hremembers.known_decode, askedSince_concat]
      split
      · rename_i hsame
        subst hsame
        cases decoder other <;> simp [Except.toOption]
      · rename_i hother
        rw [hremembers other instruction]
        simp [Ne.symm hother]

/-- The answer for a word is the decoder's own, with the event if the word is known. -/
theorem decode_answers (hremembers : Remembers decoder before cache) (word : Word) :
    (cache.decode decoder word).1.value = decoder word ∧
      (DecodedSince decoder before word →
        (cache.decode decoder word).1.events = [.cacheHit word]) ∧
      (¬ DecodedSince decoder before word → (cache.decode decoder word).1.events = []) := by
  by_cases hdecoded : DecodedSince decoder before word
  · simp [hremembers.decode_of_known hdecoded, hdecoded]
  · simp [hremembers.decode_of_unknown hdecoded, hdecoded]

theorem run (hremembers : Remembers decoder before cache) (calls : List Call) :
    Remembers decoder (before ++ calls) (cache.run decoder calls).2 := by
  induction calls generalizing before cache with
  | nil => simpa [DecodeCache.run] using hremembers
  | cons call rest ih =>
      have hlast := ih (hremembers.answer call)
      rwa [List.append_assoc] at hlast

/-- Every request of a run to decode is answered with the decoder's own answer, and with the event
if the word is known by then. -/
theorem run_answers (hremembers : Remembers decoder before cache) {calls : List Call}
    {index : Nat} {word : Word} (hcall : calls[index]? = some (.decode word)) :
    ∃ result, (cache.run decoder calls).1[index]? = some (some result) ∧
      result.value = decoder word ∧
      (DecodedSince decoder (before ++ calls.take index) word →
        result.events = [.cacheHit word]) ∧
      (¬ DecodedSince decoder (before ++ calls.take index) word → result.events = []) := by
  induction calls generalizing before cache index with
  | nil => cases hcall
  | cons call rest ih =>
      cases index with
      | zero =>
          obtain rfl := Option.some.inj hcall
          refine ⟨(cache.decode decoder word).1, rfl, ?_⟩
          simpa using hremembers.decode_answers word
      | succ index =>
          obtain ⟨result, hresult, hspec⟩ := ih (hremembers.answer call) hcall
          refine ⟨result, hresult, ?_⟩
          rwa [List.append_assoc] at hspec

/-- A cache has as many entries as there are words that were decoded with success. -/
theorem size_eq_ncard (hremembers : Remembers decoder before cache) :
    cache.size = {word | DecodedSince decoder before word}.ncard := by
  have hkeys : {word | DecodedSince decoder before word} =
      (cache.known.keys.toFinset : Set Word) := by
    ext word
    rw [Set.mem_ofPred_eq, ← hremembers.known_iff_decodedSince, List.coe_toFinset,
      Set.mem_ofPred_eq, Std.HashMap.mem_keys, Std.HashMap.mem_iff_isSome_getElem?,
      Option.isSome_iff_exists]
  rw [hkeys, Set.ncard_coe_finset, List.toFinset_card_of_nodup Std.HashMap.nodup_keys,
    Std.HashMap.length_keys, size]

theorem decodeFrom (hremembers : Remembers decoder before cache) (words : List Word)
    (done : List (Word × Logged (Except DecodeError Instruction))) :
    ((DecodeCache.decodeFrom decoder done cache words).1.map fun entry =>
        (entry.1, entry.2.value)) =
      (done.reverse.map fun entry => (entry.1, entry.2.value)) ++
        words.map (fun word => (word, decoder word)) ∧
    Remembers decoder (before ++ words.map .decode)
      (DecodeCache.decodeFrom decoder done cache words).2 := by
  induction words generalizing before cache done with
  | nil => simpa [DecodeCache.decodeFrom] using hremembers
  | cons word rest ih =>
      have hnext := hremembers.answer (.decode word)
      obtain ⟨hvalues, hlast⟩ := ih hnext ((word, (cache.decode decoder word).1) :: done)
      constructor
      · refine hvalues.trans ?_
        simp [(hremembers.decode_answers word).1]
      · rwa [List.append_assoc] at hlast

theorem value_disassembleWith (hremembers : Remembers decoder before cache)
    (symbols : Option SymbolTable) (origin : Address) (words : List Word) :
    (cache.disassembleWith decoder symbols origin words).1.value =
      (LittleComputer.disassembleWith decoder symbols origin words).value := by
  obtain ⟨hvalues, -⟩ := hremembers.decodeFrom words []
  rw [DecodeCache.disassembleWith, LittleComputer.disassembleWith, value_listing,
    value_listing, decodeAll, hvalues, List.map_map]
  rfl

/-- The same for segments one after the other, each decoded through what the cache knows by then. -/
theorem value_disassembleSegments (hremembers : Remembers LittleComputer.decode before cache)
    (symbols : Option SymbolTable) (segments : List Segment) :
    (cache.disassembleSegments symbols segments).1.value =
      segments.flatMap fun segment =>
        (LittleComputer.disassemble symbols segment.origin segment.words).value := by
  induction segments generalizing before cache with
  | nil => rfl
  | cons segment rest ih =>
      obtain ⟨-, hnext⟩ := hremembers.decodeFrom segment.words []
      have hlines := hremembers.value_disassembleWith symbols segment.origin segment.words
      rw [List.flatMap_cons, LittleComputer.disassemble, ← hlines, ← ih hnext]
      rfl

end Remembers

/-- The operation fields of the instructions that are supported. -/
def supportedOperations : Finset Nat :=
  ((Opcode.all.filter Opcode.isSupported).map Opcode.bits).toFinset

theorem bits_mem_supportedOperations {opcode : Opcode} (hsupported : opcode.isSupported = true) :
    opcode.bits ∈ supportedOperations := by
  revert hsupported
  cases opcode <;> decide

theorem isSupported_opcode (instruction : Instruction) :
    instruction.opcode.isSupported = true := by
  cases instruction with
  | alu op _ _ _ => cases op <;> rfl
  | relative op _ _ => cases op <;> rfl
  | indexed op _ _ _ => cases op <;> rfl
  | _ => rfl

/-- The operation field of a word that is an instruction is that of a supported opcode. -/
theorem operation_mem_of_decode {word : Word} {instruction : Instruction}
    (hdecode : LittleComputer.decode word = .ok instruction) :
    word.toNat / 4096 ∈ supportedOperations := by
  have hopcode := Word.opcode_of_holds (operation_of_decode hdecode)
  have hbits := Opcode.bits_of_ofBits? hopcode
  rw [Bits.toNat_extract] at hbits
  have hoperation : word.toNat / 4096 = instruction.opcode.bits := by omega
  rw [hoperation]
  exact bits_mem_supportedOperations (isSupported_opcode instruction)

/-- Words are no more than their operation fields with the 4096 values of the other bits each. -/
theorem ncard_le_of_operations {words : Set Word} {operations : Finset Nat}
    (hoperation : ∀ word ∈ words, word.toNat / 4096 ∈ operations) :
    words.ncard ≤ operations.card * 4096 := by
  have hinto : ∀ word ∈ words, (word.toNat / 4096, word.toNat % 4096) ∈
      ((operations ×ˢ Finset.range 4096 : Finset (Nat × Nat)) : Set (Nat × Nat)) := by
    intro word hword
    have hrest : word.toNat % 4096 < 4096 := Nat.mod_lt _ (by decide)
    simpa [hrest] using hoperation word hword
  have hle := Set.ncard_le_ncard_of_injOn _ hinto fun first _ second _ hsame => by
    obtain ⟨hdiv, hmod⟩ := Prod.mk.inj hsame
    apply BitVec.eq_of_toNat_eq
    omega
  rwa [Set.ncard_coe_finset, Finset.card_product, Finset.card_range] at hle

/-- The cache cannot be told from its decoder.  In every run each word is answered as the decoder
answers it, with an event exactly if it was decoded with success since the last clear; these words
are the ones that are stored, and lines that are decoded through the cache are the decoder's. -/
theorem cache_is_transparent_over_runs (decoder : Word → Except DecodeError Instruction)
    (calls : List Call) :
    (∀ index word, calls[index]? = some (.decode word) →
      ∃ result, (empty.run decoder calls).1[index]? = some (some result) ∧
        result.value = decoder word ∧
        (DecodedSince decoder (calls.take index) word → result.events = [.cacheHit word]) ∧
        (¬ DecodedSince decoder (calls.take index) word → result.events = [])) ∧
    (empty.run decoder calls).2.size = {word | DecodedSince decoder calls word}.ncard ∧
    (empty.run decoder calls).2.size ≤ 65536 ∧
    (decoder = LittleComputer.decode → (empty.run decoder calls).2.size ≤ 13 * 4096) ∧
    (∀ word error, decoder word = .error error →
      (empty.run decoder calls).2.known[word]? = none) ∧
    ∀ symbols origin words,
      ((empty.run decoder calls).2.disassembleWith decoder symbols origin words).1.value =
        (LittleComputer.disassembleWith decoder symbols origin words).value := by
  have hstart : Remembers decoder [] empty := remembers_empty not_askedSince_nil
  have hlast := hstart.run calls
  rw [List.nil_append] at hlast
  have hsize := hlast.size_eq_ncard
  refine ⟨fun index word hcall => hstart.run_answers hcall, hsize, ?_, ?_, ?_,
    hlast.value_disassembleWith⟩
  · rw [hsize]
    have hle := @ncard_le_of_operations {word | DecodedSince decoder calls word}
      (Finset.range 16) fun word _ => Finset.mem_range.mpr (by omega)
    rwa [Finset.card_range] at hle
  · rintro rfl
    rw [hsize]
    exact @ncard_le_of_operations _ supportedOperations
      fun word ⟨_, instruction, hdecode⟩ => operation_mem_of_decode hdecode
  · intro word error herror
    apply hlast.known_eq_none
    rintro ⟨-, instruction, hdecode⟩
    rw [herror] at hdecode
    cases hdecode

/-- A word is known when it is asked for again, but not after a clear. -/
theorem cache_hit_until_clear :
    let calls : List Call :=
      [.decode 0x1042, .decode 0xD000, .decode 0x1042, .clear, .decode 0x1042]
    (∃ result, (empty.run LittleComputer.decode calls).1[2]? = some (some result) ∧
      result.events = [.cacheHit 0x1042]) ∧
    ∃ result, (empty.run LittleComputer.decode calls).1[4]? = some (some result) ∧
      result.events = [] := by
  intro calls
  obtain ⟨hanswers, -⟩ := cache_is_transparent_over_runs LittleComputer.decode calls
  obtain ⟨again, hagain, -, hknown, -⟩ := hanswers 2 0x1042 rfl
  obtain ⟨cleared, hcleared, -, -, hunknown⟩ := hanswers 4 0x1042 rfl
  refine ⟨⟨again, hagain, hknown ⟨⟨[], [.decode 0xD000], rfl, by decide⟩, _, rfl⟩⟩,
    cleared, hcleared, hunknown ?_⟩
  rintro ⟨hasked, -⟩
  have hlast := (askedSince_concat (calls.take 3) .clear 0x1042).mp hasked
  simp at hlast

end LittleComputer.DecodeCache
