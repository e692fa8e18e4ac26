import DspAsm.Mnemonic
import DspAsm.Proofs.Outcome

namespace DspAsm

/-! ## The grammar -/

/-- Operands that belong to a mnemonic: not too few and not too many, and none that it may do without is a
mnemonic itself. -/
structure Mnemonic.Takes (mnemonic : Mnemonic) (operands : List String) : Prop where
  least : mnemonic.least ≤ operands.length
  most : operands.length ≤ mnemonic.most
  optional : ∀ operand ∈ operands.drop mnemonic.least, find? operand = none

def Phrase.WellFormed : Phrase → Prop
  | [] => False
  | token :: operands => ∃ mnemonic, Mnemonic.find? token = some mnemonic ∧ mnemonic.Takes operands

theorem Phrase.WellFormed.exists_cons {phrase : Phrase} (wellFormed : phrase.WellFormed) :
    ∃ token operands mnemonic, phrase = token :: operands ∧ Mnemonic.find? token = some mnemonic ∧
      mnemonic.Takes operands := by
  cases phrase with
  | nil => exact wellFormed.elim
  | cons token operands =>
    obtain ⟨mnemonic, found, taken⟩ := wellFormed
    exact ⟨token, operands, mnemonic, rfl, found, taken⟩

namespace Mnemonic

theorem read_eq_ok {token : String} {mnemonic : Mnemonic} :
    read token = .ok mnemonic ↔ find? token = some mnemonic := by
  cases found : find? token <;> simp [read, found]

theorem name_of_find? {token : String} {mnemonic : Mnemonic} (found : find? token = some mnemonic) :
    mnemonic.name = token := by
  simpa using List.find?_some found

theorem find?_eq_none {token : String} : find? token = none ↔ ∀ mnemonic ∈ all, mnemonic.name ≠ token := by
  simp only [find?, List.find?_eq_none, beq_iff_eq, ne_eq]

theorem exists_find?_name {mnemonic : Mnemonic} (listed : mnemonic ∈ all) :
    ∃ found, find? mnemonic.name = some found := by
  rw [← Option.ne_none_iff_exists', ne_eq, find?_eq_none]
  exact fun unlisted => unlisted mnemonic listed rfl

theorem least_le_most {token : String} {mnemonic : Mnemonic} (found : find? token = some mnemonic) :
    mnemonic.least ≤ mnemonic.most := by
  have ordered : ∀ mnemonic ∈ all, mnemonic.least ≤ mnemonic.most := by decide
  exact ordered mnemonic (List.mem_of_find?_eq_some found)

theorem takes_of_fixed {mnemonic : Mnemonic} {operands : List String} (fixed : mnemonic.least = mnemonic.most)
    (count : operands.length = mnemonic.least) : mnemonic.Takes operands where
  least := count.ge
  most := (count.trans fixed).le
  optional := by simp [← count]

end Mnemonic

/-! ## Grouping -/

namespace OpenPhrase

theorem accepts_operand {phrase : OpenPhrase} {token : String} {later : List String}
    (taken : phrase.mnemonic.Takes (phrase.operands ++ token :: later)) : phrase.accepts token = true := by
  have most := taken.most
  rw [List.length_append, List.length_cons] at most
  rw [accepts, Bool.or_eq_true, decide_eq_true_eq, Bool.and_eq_true, decide_eq_true_eq]
  by_cases needed : phrase.operands.length < phrase.mnemonic.least
  · exact .inl needed
  · refine .inr ⟨by omega, ?_⟩
    have spare : token ∈ (phrase.operands ++ token :: later).drop phrase.mnemonic.least := by
      rw [List.drop_append_of_le_length (by omega)]
      simp
    rw [taken.optional token spare]
    rfl

theorem phrasesFrom_operands {phrase : OpenPhrase} {operands : List String}
    (taken : phrase.mnemonic.Takes (phrase.operands ++ operands)) (later : List String) :
    phrase.phrasesFrom (operands ++ later) = phrasesFrom ⟨phrase.mnemonic, phrase.operands ++ operands⟩ later := by
  induction operands generalizing phrase with
  | nil => simp
  | cons token operands ih =>
    -- The open phrase takes its operands one by one; what it has and what is left stay together.
    have taken' : (phrase.add token).mnemonic.Takes ((phrase.add token).operands ++ operands) := by
      simpa [add] using taken
    rw [List.cons_append, phrasesFrom, if_pos (accepts_operand taken), ih taken']
    simp [add]

theorem accepts_mnemonic {phrase : OpenPhrase} {token : String} {mnemonic : Mnemonic}
    (complete : phrase.mnemonic.least ≤ phrase.operands.length) (found : Mnemonic.find? token = some mnemonic) :
    phrase.accepts token = false := by
  simp [accepts, found, complete]

theorem phrasesFrom_mnemonic {phrase : OpenPhrase} {token : String} {mnemonic : Mnemonic}
    (complete : phrase.mnemonic.least ≤ phrase.operands.length) (found : Mnemonic.find? token = some mnemonic)
    (tokens : List String) :
    phrase.phrasesFrom (token :: tokens) =
      (phrasesFrom ⟨mnemonic, []⟩ tokens >>= fun later => return phrase.close :: later) := by
  rw [phrasesFrom, if_neg (by simp [accepts_mnemonic complete found]), Mnemonic.read_eq_ok.mpr found, ok_bind]

theorem phrasesFrom_flatten {phrase : OpenPhrase} (taken : phrase.mnemonic.Takes phrase.operands)
    {later : List Phrase} (wellFormed : ∀ next ∈ later, next.WellFormed) :
    phrase.phrasesFrom later.flatten = .ok (phrase.close :: later) := by
  induction later generalizing phrase with
  | nil => rw [List.flatten_nil, phrasesFrom, if_neg (Nat.not_lt.mpr taken.least)]
  | cons next later ih =>
    obtain ⟨token, operands, mnemonic, rfl, found, taken'⟩ := (wellFormed next List.mem_cons_self).exists_cons
    rw [List.flatten_cons, List.cons_append, phrasesFrom_mnemonic taken.least found,
      phrasesFrom_operands (by simpa using taken'),
      ih (by simpa using taken') fun next member => wellFormed next (List.mem_cons_of_mem _ member)]
    simp [close, Mnemonic.name_of_find? found, pure, Except.pure]

end OpenPhrase

theorem phrases_flatten {written : List Phrase} (wellFormed : ∀ phrase ∈ written, phrase.WellFormed) :
    phrases written.flatten = .ok written := by
  cases written with
  | nil => rfl
  | cons first later =>
    obtain ⟨token, operands, mnemonic, rfl, found, taken⟩ := (wellFormed first List.mem_cons_self).exists_cons
    rw [List.flatten_cons, List.cons_append, phrases, Mnemonic.read_eq_ok.mpr found, ok_bind,
      OpenPhrase.phrasesFrom_operands (by simpa using taken),
      OpenPhrase.phrasesFrom_flatten (by simpa using taken)
        fun next member => wellFormed next (List.mem_cons_of_mem _ member)]
    simp [OpenPhrase.close, Mnemonic.name_of_find? found]

/-! ## What tokens are grouped into -/

namespace OpenPhrase

variable {phrase : OpenPhrase} {token : String} {mnemonic : Mnemonic}

/-- The operands taken so far belong to the mnemonic, though some that it needs may be missing. -/
structure Sound (phrase : OpenPhrase) : Prop where
  found : Mnemonic.find? phrase.mnemonic.name = some phrase.mnemonic
  most : phrase.operands.length ≤ phrase.mnemonic.most
  optional : ∀ operand ∈ phrase.operands.drop phrase.mnemonic.least, Mnemonic.find? operand = none

theorem close_start (found : Mnemonic.find? token = some mnemonic) : close ⟨mnemonic, []⟩ = [token] := by
  rw [close, Mnemonic.name_of_find? found]

theorem sound_start (found : Mnemonic.find? token = some mnemonic) : Sound ⟨mnemonic, []⟩ := by
  refine ⟨?_, Nat.zero_le _, by simp⟩
  rw [Mnemonic.name_of_find? found]
  exact found

theorem Sound.add (sound : phrase.Sound) (accepted : phrase.accepts token = true) : (phrase.add token).Sound := by
  have ordered := Mnemonic.least_le_most sound.found
  simp only [accepts, Bool.or_eq_true, Bool.and_eq_true, decide_eq_true_eq, Option.isNone_iff_eq_none] at accepted
  refine ⟨sound.found, ?_, ?_⟩ <;> simp only [OpenPhrase.add]
  · rw [List.length_append, List.length_singleton]
    omega
  · intro operand spare
    rw [List.drop_append, List.mem_append] at spare
    rcases spare with spare | spare
    · exact sound.optional operand spare
    · -- The new operand is spare only if all that the mnemonic needs were there before it.
      rcases accepted with needed | ⟨-, plain⟩
      · rw [List.drop_eq_nil_of_le (by rw [List.length_singleton]; omega)] at spare
        cases spare
      · rw [List.mem_singleton.mp (List.mem_of_mem_drop spare)]
        exact plain

theorem Sound.wellFormed (sound : phrase.Sound) (complete : phrase.mnemonic.least ≤ phrase.operands.length) :
    phrase.close.WellFormed :=
  ⟨phrase.mnemonic, sound.found, complete, sound.most, sound.optional⟩

theorem phrasesFrom_sound {tokens : List String} {written : List Phrase} (sound : phrase.Sound)
    (divided : phrase.phrasesFrom tokens = .ok written) :
    written.flatten = phrase.close ++ tokens ∧ ∀ next ∈ written, next.WellFormed := by
  induction tokens generalizing phrase written with
  | nil =>
    rw [phrasesFrom] at divided
    split at divided
    · cases divided
    · rename_i complete
      cases divided
      simpa using sound.wellFormed (Nat.not_lt.mp complete)
  | cons token tokens ih =>
    rw [phrasesFrom] at divided
    split at divided
    · rename_i accepted
      obtain ⟨whole, wellFormed⟩ := ih (sound.add accepted) divided
      exact ⟨by simpa [close, add] using whole, wellFormed⟩
    · rename_i refused
      obtain ⟨mnemonic, read, divided⟩ := bind_eq_ok.mp divided
      obtain ⟨later, divided, same⟩ := bind_eq_ok.mp divided
      have found := Mnemonic.read_eq_ok.mp read
      obtain ⟨whole, wellFormed⟩ := ih (sound_start found) divided
      have complete : phrase.mnemonic.least ≤ phrase.operands.length := by
        simp only [accepts, Bool.or_eq_true, decide_eq_true_eq, not_or] at refused
        exact Nat.not_lt.mp refused.1
      rw [← pure_eq_ok.mp same]
      refine ⟨?_, List.forall_mem_cons.mpr ⟨sound.wellFormed complete, wellFormed⟩⟩
      rw [List.flatten_cons, whole, close_start found, List.singleton_append]

end OpenPhrase

theorem phrases_eq_ok {tokens : List String} {written : List Phrase} :
    phrases tokens = .ok written ↔ written.flatten = tokens ∧ ∀ phrase ∈ written, phrase.WellFormed := by
  constructor
  · intro divided
    cases tokens with
    | nil =>
      cases divided
      simp
    | cons token tokens =>
      obtain ⟨mnemonic, read, divided⟩ := bind_eq_ok.mp divided
      have found := Mnemonic.read_eq_ok.mp read
      obtain ⟨whole, wellFormed⟩ := OpenPhrase.phrasesFrom_sound (OpenPhrase.sound_start found) divided
      refine ⟨?_, wellFormed⟩
      rw [whole, OpenPhrase.close_start found, List.singleton_append]
  · rintro ⟨rfl, wellFormed⟩
    exact phrases_flatten wellFormed

end DspAsm
