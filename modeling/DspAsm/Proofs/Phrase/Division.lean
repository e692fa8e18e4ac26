import DspAsm.Proofs.Phrase.Grouping

namespace DspAsm

structure Divides (written : List Phrase) (tokens : List String) : Prop where
  whole : written.flatten = tokens
  wellFormed : ∀ phrase ∈ written, phrase.WellFormed

/-- The tokens begin with the phrases `placed`, and with no run of phrases that goes further. The tokens `rest` are left. -/
structure LongestRun (placed : List Phrase) (rest tokens : List String) : Prop where
  whole : placed.flatten ++ rest = tokens
  wellFormed : ∀ phrase ∈ placed, phrase.WellFormed
  longest : ∀ other : List Phrase, (∀ phrase ∈ other, phrase.WellFormed) → other.flatten <+: tokens →
    other.flatten.length ≤ placed.flatten.length

inductive Unplaceable (token : String) (rest : List String) : Fault → Prop
  | unknown (unlisted : Mnemonic.find? token = none) : Unplaceable token rest (.unknownMnemonic token)
  | short {mnemonic : Mnemonic} (found : Mnemonic.find? token = some mnemonic) (few : rest.length < mnemonic.least) :
      Unplaceable token rest (.malformed token (.tooFewOperands mnemonic.least rest.length))

section

variable {token : String} {rest tokens : List String} {placed other : List Phrase} {fault : Fault}

theorem Unplaceable.fault_unique {fault' : Fault} (first : Unplaceable token rest fault)
    (second : Unplaceable token rest fault') : fault = fault' := by
  cases first with
  | unknown unlisted =>
    cases second with
    | unknown => rfl
    | short found =>
      rw [unlisted] at found
      cases found
  | short found few =>
    cases second with
    | unknown unlisted =>
      rw [unlisted] at found
      cases found
    | short found' =>
      rw [found] at found'
      cases found'
      rfl

theorem Unplaceable.run_eq_nil (stuck : Unplaceable token rest fault)
    (wellFormed : ∀ phrase ∈ other, phrase.WellFormed) (begins : other.flatten <+: token :: rest) : other = [] := by
  cases other with
  | nil => rfl
  | cons next later =>
    obtain ⟨first, operands, mnemonic, rfl, found, taken⟩ := (wellFormed next List.mem_cons_self).exists_cons
    rw [List.flatten_cons, List.cons_append, List.cons_prefix_cons] at begins
    obtain ⟨rfl, begins⟩ := begins
    cases stuck with
    | unknown unlisted =>
      rw [unlisted] at found
      cases found
    | short found' few =>
      rw [found] at found'
      cases found'
      have room := begins.length_le
      have least := taken.least
      rw [List.length_append] at room
      omega

theorem Unplaceable.longestRun (stuck : Unplaceable token rest fault) :
    LongestRun [] (token :: rest) (token :: rest) where
  whole := rfl
  wellFormed := by simp
  longest other wellFormed begins := by rw [stuck.run_eq_nil wellFormed begins]

end

/-! ## The end of a phrase -/

namespace OpenPhrase

variable {phrase : OpenPhrase} {token : String} {rest tokens : List String} {placed other : List Phrase} {fault : Fault}

theorem complete_of_refused (refused : phrase.accepts token = false) :
    phrase.mnemonic.least ≤ phrase.operands.length := by
  simp only [accepts, Bool.or_eq_false_iff, decide_eq_false_iff_not] at refused
  exact Nat.not_lt.mp refused.1

theorem run_cases (sound : phrase.Sound) (refused : phrase.accepts token = false)
    (wellFormed : ∀ next ∈ other, next.WellFormed) (begins : other.flatten <+: phrase.close ++ token :: tokens) :
    other.flatten.length ≤ phrase.close.length ∨
      ∃ later, other = phrase.close :: later ∧ later.flatten <+: token :: tokens := by
  cases other with
  | nil => exact .inl (Nat.zero_le _)
  | cons next later =>
    obtain ⟨first, operands, mnemonic, rfl, found, taken⟩ := (wellFormed next List.mem_cons_self).exists_cons
    obtain ⟨rest, split⟩ := begins
    rw [List.flatten_cons, close, List.cons_append, List.cons_append, List.cons_append, List.cons.injEq,
      List.append_assoc] at split
    obtain ⟨rfl, split⟩ := split
    rw [sound.found, Option.some.injEq] at found
    subst found
    rcases List.append_eq_append_iff.mp split with ⟨missed, all, behind⟩ | ⟨more, all, ahead⟩
    · cases missed with
      | nil =>
        rw [List.append_nil] at all
        exact .inr ⟨later, by rw [close, all], rest, behind⟩
      | cons operand missed =>
        -- The run has ended the phrase before an operand, with which no phrase begins.
        have spare : operand ∈ phrase.operands.drop phrase.mnemonic.least := by
          rw [all, List.drop_append_of_le_length taken.least]
          simp
        have unlisted := sound.optional operand spare
        cases later with
        | nil =>
          left
          rw [close, all]
          simp
        | cons next later =>
          obtain ⟨first, operands, mnemonic, rfl, found, -⟩ := (wellFormed next (by simp)).exists_cons
          rw [List.flatten_cons, List.cons_append, List.cons_append, List.cons_append, List.cons.injEq] at behind
          rw [behind.1, unlisted] at found
          cases found
    · cases more with
      | nil =>
        rw [List.append_nil] at all
        exact .inr ⟨later, by rw [close, all], rest, ahead.symm⟩
      | cons operand more =>
        rw [List.cons_append, List.cons.injEq] at ahead
        rw [all, ← ahead.1] at taken
        rw [accepts_operand taken] at refused
        cases refused

theorem longestRun_cons (sound : phrase.Sound) (refused : phrase.accepts token = false)
    (run : LongestRun placed rest (token :: tokens)) :
    LongestRun (phrase.close :: placed) rest (phrase.close ++ token :: tokens) where
  whole := by rw [List.flatten_cons, List.append_assoc, run.whole]
  wellFormed := List.forall_mem_cons.mpr ⟨sound.wellFormed (complete_of_refused refused), run.wellFormed⟩
  longest other wellFormed begins := by
    rw [List.flatten_cons, List.length_append]
    rcases run_cases sound refused wellFormed begins with short | ⟨later, rfl, follows⟩
    · omega
    · have further := run.longest later (List.forall_mem_cons.mp wellFormed).2 follows
      rw [List.flatten_cons, List.length_append]
      omega

theorem phrasesFrom_stalls (sound : phrase.Sound) (failed : phrase.phrasesFrom tokens = .error fault) :
    ∃ placed token rest, LongestRun placed (token :: rest) (phrase.close ++ tokens) ∧ Unplaceable token rest fault := by
  induction tokens generalizing phrase with
  | nil =>
    rw [phrasesFrom] at failed
    split at failed
    · rename_i few
      cases failed
      have stuck := Unplaceable.short sound.found few
      refine ⟨[], phrase.mnemonic.name, phrase.operands, ?_, stuck⟩
      rw [List.append_nil]
      exact stuck.longestRun
    · cases failed
  | cons token tokens ih =>
    rw [phrasesFrom] at failed
    split at failed
    · rename_i accepted
      have found := ih (sound.add accepted) failed
      simpa [close, add] using found
    · rename_i refused
      rw [Bool.not_eq_true] at refused
      cases listed : Mnemonic.find? token with
      | none =>
        rw [Mnemonic.read, listed] at failed
        cases failed
        have stuck : Unplaceable token tokens _ := .unknown listed
        exact ⟨[phrase.close], token, tokens, longestRun_cons sound refused stuck.longestRun, stuck⟩
      | some mnemonic =>
        rw [Mnemonic.read_eq_ok.mpr listed, ok_bind, bind_eq_error] at failed
        rcases failed with failed | ⟨later, -, made⟩
        · obtain ⟨placed, stop, rest, run, stuck⟩ := ih (sound_start listed) failed
          rw [close_start listed, List.singleton_append] at run
          exact ⟨phrase.close :: placed, stop, rest, longestRun_cons sound refused run, stuck⟩
        · cases made

end OpenPhrase

/-! ## Grouping -/

section

variable {tokens : List String} {fault : Fault}

theorem phrases_stalls (failed : phrases tokens = .error fault) :
    ∃ placed token rest, LongestRun placed (token :: rest) tokens ∧ Unplaceable token rest fault := by
  cases tokens with
  | nil => cases failed
  | cons token tokens =>
    cases listed : Mnemonic.find? token with
    | none =>
      rw [phrases, Mnemonic.read, listed] at failed
      cases failed
      have stuck : Unplaceable token tokens _ := .unknown listed
      exact ⟨[], token, tokens, stuck.longestRun, stuck⟩
    | some mnemonic =>
      rw [phrases, Mnemonic.read_eq_ok.mpr listed, ok_bind] at failed
      have found := OpenPhrase.phrasesFrom_stalls (OpenPhrase.sound_start listed) failed
      rwa [OpenPhrase.close_start listed, List.singleton_append] at found

theorem LongestRun.rest_unique {placed placed' : List Phrase} {rest rest' : List String}
    (first : LongestRun placed rest tokens) (second : LongestRun placed' rest' tokens) : rest = rest' := by
  have begins : placed.flatten <+: tokens := ⟨rest, first.whole⟩
  have begins' : placed'.flatten <+: tokens := ⟨rest', second.whole⟩
  have same : placed.flatten.length = placed'.flatten.length :=
    le_antisymm (second.longest placed first.wellFormed begins) (first.longest placed' second.wellFormed begins')
  exact (List.append_inj (first.whole.trans second.whole.symm) same).2

theorem phrases_eq_error :
    phrases tokens = .error fault ↔
      ∃ placed token rest, LongestRun placed (token :: rest) tokens ∧ Unplaceable token rest fault := by
  constructor
  · exact phrases_stalls
  · rintro ⟨placed, token, rest, run, stuck⟩
    cases divided : phrases tokens with
    | ok written =>
      -- A division would be a run of phrases that goes to the end.
      obtain ⟨whole, wellFormed⟩ := phrases_eq_ok.mp divided
      have further := run.longest written wellFormed (by rw [whole])
      rw [whole, ← run.whole, List.length_append, List.length_cons] at further
      omega
    | error fault' =>
      obtain ⟨placed', token', rest', run', stuck'⟩ := phrases_stalls divided
      obtain ⟨rfl, rfl⟩ := List.cons.inj (run.rest_unique run')
      rw [stuck'.fault_unique stuck]

/-- Grouping accepts exactly the tokens that divide into phrases, with the one division they have. Otherwise it stops
behind the longest run of phrases, at a token that is no mnemonic or has too few tokens behind it. -/
theorem phrases_grammatical (tokens : List String) :
    (∀ written, phrases tokens = .ok written ↔ Divides written tokens) ∧
      (∀ first second, Divides first tokens → Divides second tokens → first = second) ∧
      ((∃ fault, phrases tokens = .error fault) ↔ ¬ ∃ written, Divides written tokens) ∧
      ∀ fault, phrases tokens = .error fault ↔
        ∃ placed token rest, LongestRun placed (token :: rest) tokens ∧ Unplaceable token rest fault := by
  have accepts (written : List Phrase) : phrases tokens = .ok written ↔ Divides written tokens := by
    rw [phrases_eq_ok]
    exact ⟨fun divided => ⟨divided.1, divided.2⟩, fun divided => ⟨divided.whole, divided.wellFormed⟩⟩
  refine ⟨accepts, ?_, ?_, fun fault => phrases_eq_error⟩
  · intro first second divided divided'
    rw [← accepts] at divided divided'
    exact Except.ok.inj (divided.symm.trans divided')
  · simp only [exists_error_iff, accepts]

example : phrases ["MOV", "MOV", "END", "JMP", "END", "END"] = .ok [["MOV", "MOV", "END"], ["JMP", "END"], ["END"]] :=
  rfl

end

end DspAsm
