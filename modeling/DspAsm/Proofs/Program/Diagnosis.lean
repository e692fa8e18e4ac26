import DspAsm.Proofs.Instruction.Fault
import DspAsm.Proofs.Program.Source

namespace DspAsm
open Text

namespace SourceLine

variable {rows : List SourceLine} {known : Scope}

def Readable (known : Scope) (row : SourceLine) : Prop :=
  ∀ tokens, row.instruction? = some tokens → ∃ made, Instruction.ofTokens known tokens = .ok made

theorem exists_mapM_places_iff :
    (∃ made, (places rows).mapM (fun place =>
      locate place.line place.tokens (Instruction.ofTokens known place.tokens)) = .ok made) ↔
      ∀ row ∈ rows, row.Readable known := by
  have carried (tokens : List String) : tokens ∈ (places rows).map Place.tokens ↔
      ∃ row ∈ rows, row.instruction? = some tokens := by rw [map_tokens_places, List.mem_filterMap]
  simp only [exists_mapM_eq_ok, locate_eq_ok, Readable]
  constructor
  · intro readable row member tokens given
    obtain ⟨place, among, rfl⟩ := List.mem_map.mp ((carried tokens).mpr ⟨row, member, given⟩)
    exact readable place among
  · intro readable place among
    obtain ⟨row, member, given⟩ := (carried place.tokens).mp (List.mem_map_of_mem among)
    exact readable row member place.tokens given

theorem mapM_places_eq_error {fault : Fault} :
    (places rows).mapM (fun place =>
        locate place.line place.tokens (Instruction.ofTokens known place.tokens)) = .error fault ↔
      ∃ before row after, rows = before ++ row :: after ∧ (∀ earlier ∈ before, earlier.Readable known) ∧
        ∃ tokens source, row.instruction? = some tokens ∧ Instruction.ofTokens known tokens = .error source ∧
          fault = source.atLine (before.length + 1) tokens := by
  induction rows using List.reverseRecOn with
  | nil => simp [places, pure, Except.pure]
  | append_singleton rows row ih =>
    rw [exists_split_append_singleton fun before row => (∀ earlier ∈ before, Readable known earlier) ∧
      ∃ tokens source, row.instruction? = some tokens ∧ Instruction.ofTokens known tokens = .error source ∧
        fault = source.atLine (before.length + 1) tokens, ← ih, ← exists_mapM_places_iff, places_append_singleton]
    cases given : row.instruction? with
    | none => simp
    | some tokens => simp [bind_eq_error, locate_eq_error, pure, Except.pure]

end SourceLine

theorem Survey.run_eq_error {texts : List (List Char)} {fault : Fault} :
    (texts.zipIdx 1).foldlM add {} = .error fault ↔ ∃ before text after, texts = before ++ text :: after ∧
      SourceLine.Consistent (before.map SourceLine.read) ∧
        ∃ cause, SourceLine.Refused (before.map SourceLine.read) (SourceLine.read text) cause ∧
          fault = cause.atLine (before.length + 1) (tokens text) := by
  induction texts using List.reverseRecOn with
  | nil => simp [pure, Except.pure]
  | append_singleton texts text ih =>
    rw [exists_split_append_singleton fun before text => SourceLine.Consistent (before.map SourceLine.read) ∧
      ∃ cause, SourceLine.Refused (before.map SourceLine.read) (SourceLine.read text) cause ∧
        fault = cause.atLine (before.length + 1) (tokens text), ← ih, zipIdx_append_singleton, List.foldlM_append,
      bind_eq_error, ← exists_run_iff]
    simp only [List.foldlM_cons, List.foldlM_nil, bind_pure]
    refine or_congr_right ?_
    constructor
    · rintro ⟨survey, run, failed⟩
      exact ⟨⟨survey, run⟩, (covers_of_run run).add_eq_error.mp failed⟩
    · rintro ⟨⟨survey, run⟩, refused⟩
      exact ⟨survey, run, (covers_of_run run).add_eq_error.mpr refused⟩

/-! ## Reports -/

theorem Fault.kind_eq_self {fault : Fault} (bare : fault.line? = none) : fault.kind = fault := by
  cases fault with
  | line => cases bare
  | _ => rfl

theorem SourceLine.Refused.line?_eq_none {before : List SourceLine} {row : SourceLine} {fault : Fault}
    (refused : SourceLine.Refused before row fault) : fault.line? = none := by
  cases refused with
  | far | redeclared | redefined => rfl
  | undefined undefined => cases undefined <;> rfl

/-- What is reported about a source, given as the texts of its lines and what they are for. A fault of a symbol comes
with all tokens of its line, and a fault of an instruction with those behind the label. -/
inductive Reports (texts : List (List Char)) (rows : List SourceLine) : Fault → Prop
  | symbol {before after : List SourceLine} {row : SourceLine} {text : List Char} {fault : Fault}
      (split : rows = before ++ row :: after) (written : texts[before.length]? = some text)
      (first : SourceLine.Consistent before) (refused : SourceLine.Refused before row fault) :
      Reports texts rows (.line (before.length + 1) (" ".intercalate (tokens text)) fault)
  | size {count : Nat} (bound : SourceLine.Consistent rows)
      (counted : (rows.filterMap SourceLine.instruction?).length = count) (large : programCapacity < count) :
      Reports texts rows (.programTooLarge count)
  | instruction {before after : List SourceLine} {row : SourceLine} {known : Scope} {later : List String}
      {fault : Fault} (bound : SourceLine.Consistent rows)
      (fits : (rows.filterMap SourceLine.instruction?).length ≤ programCapacity)
      (knows : SourceLine.Knows rows known) (split : rows = before ++ row :: after)
      (first : ∀ earlier ∈ before, earlier.Readable known) (carried : row.instruction? = some later)
      (unread : Instruction.ofTokens known later = .error fault) :
      Reports texts rows (.line (before.length + 1) (" ".intercalate later) fault)

namespace Program

variable {source : String} {fault : Fault}

theorem assemble_eq_error :
    assemble source = .error fault ↔
      Survey.ofText source = .error fault ∨ ∃ survey, Survey.ofText source = .ok survey ∧
        (programCapacity < survey.pending.size ∧ fault = .programTooLarge survey.pending.size ∨
          survey.pending.size ≤ programCapacity ∧ survey.pending.toList.mapM (fun place =>
            locate place.line place.tokens (Instruction.ofTokens survey.scope place.tokens)) = .error fault) := by
  simp only [assemble, bind_eq_error, check_eq_error, Nat.not_lt, pure, Except.pure, reduceCtorEq, and_false,
    exists_false, or_false, @eq_comm _ fault]

theorem reports_symbol_iff {texts : List (List Char)} :
    (∃ before text after, texts = before ++ text :: after ∧ SourceLine.Consistent (before.map SourceLine.read) ∧
        ∃ cause, SourceLine.Refused (before.map SourceLine.read) (SourceLine.read text) cause ∧
          fault = cause.atLine (before.length + 1) (tokens text)) ↔
      ∃ before row after, texts.map SourceLine.read = before ++ row :: after ∧ SourceLine.Consistent before ∧
        ∃ cause, SourceLine.Refused before row cause ∧ ∃ text, texts[before.length]? = some text ∧
          fault = cause.atLine (before.length + 1) (tokens text) := by
  constructor
  · rintro ⟨before, text, after, rfl, first, cause, refused, reported⟩
    refine ⟨_, _, _, by rw [List.map_append, List.map_cons], first, cause, refused, text, by simp, ?_⟩
    rwa [List.length_map]
  · rintro ⟨_, _, _, split, first, cause, refused, text, written, reported⟩
    obtain ⟨before, rest, rfl, rfl, here⟩ := List.map_eq_append_iff.mp split
    obtain ⟨text', after, rfl, rfl, rfl⟩ := List.map_eq_cons_iff.mp here
    rw [List.length_map] at written reported
    cases (by simpa using written : text' = text)
    exact ⟨before, text, after, rfl, first, cause, refused, reported⟩

theorem assemble_eq_error_iff_reports :
    assemble source = .error fault ↔ Reports (lines source.toList) (SourceLine.ofText source) fault := by
  rw [assemble_eq_error, Survey.ofText, Survey.run_eq_error, reports_symbol_iff, ← SourceLine.ofText]
  constructor
  · rintro (⟨before, row, after, split, first, cause, refused, text, written, rfl⟩ | ⟨survey, surveyed, failed⟩)
    · exact .symbol split written first refused
    · have covers := Survey.covers_ofText surveyed
      have bound := Survey.exists_ofText_iff.mp ⟨survey, surveyed⟩
      rw [covers.size_eq, covers.pending_eq, SourceLine.mapM_places_eq_error] at failed
      rcases failed with ⟨large, rfl⟩ | ⟨fits, before, row, after, split, first, later, cause, carried, unread, rfl⟩
      · exact .size bound rfl large
      · exact .instruction bound fits covers.toKnows split first carried unread
  · intro reported
    cases reported with
    | symbol split written first refused => exact .inl ⟨_, _, _, split, first, _, refused, _, written, rfl⟩
    | size bound counted large =>
      obtain ⟨survey, surveyed⟩ := Survey.exists_ofText_iff.mpr bound
      rw [← counted, ← (Survey.covers_ofText surveyed).size_eq] at large ⊢
      exact .inr ⟨survey, surveyed, .inl ⟨large, rfl⟩⟩
    | instruction bound fits knows split first carried unread =>
      obtain ⟨survey, surveyed⟩ := Survey.exists_ofText_iff.mpr bound
      have covers := Survey.covers_ofText surveyed
      refine .inr ⟨survey, surveyed, .inr ⟨covers.size_eq ▸ fits, ?_⟩⟩
      rw [covers.pending_eq, covers.toKnows.unique knows, SourceLine.mapM_places_eq_error]
      exact ⟨_, _, _, split, first, _, _, carried, unread, rfl⟩

theorem IsAssemblyOf.readable {program : Program} {rows : List SourceLine} (spelled : program.IsAssemblyOf rows) :
    ∀ row ∈ rows, row.Readable program.scope := by
  intro row member tokens carried
  have among : tokens ∈ rows.filterMap SourceLine.instruction? := List.mem_filterMap.mpr ⟨row, member, carried⟩
  exact exists_mapM_eq_ok.mp ⟨_, mapM_eq_ok.mpr spelled.instructions⟩ tokens among

theorem exists_assemble_error_iff :
    (∃ fault, assemble source = .error fault) ↔
      (∃ before row after, SourceLine.ofText source = before ++ row :: after ∧
        ∃ fault, SourceLine.Refused before row fault) ∨
      programCapacity < ((SourceLine.ofText source).filterMap SourceLine.instruction?).length ∨
      ∃ known, SourceLine.Knows (SourceLine.ofText source) known ∧
        ∃ row ∈ SourceLine.ofText source, ¬ row.Readable known := by
  constructor
  · rintro ⟨fault, failed⟩
    cases assemble_eq_error_iff_reports.mp failed with
    | symbol split _ _ refused => exact .inl ⟨_, _, _, split, _, refused⟩
    | size _ counted large => exact .inr (.inl (counted ▸ large))
    | @instruction before after row known later fault _ _ knows split _ carried unread =>
      refine .inr (.inr ⟨known, knows, row, by simp [split], ?_⟩)
      intro readable
      obtain ⟨made, read⟩ := readable later carried
      cases unread.symm.trans read
  · intro cause
    rw [exists_error_iff]
    rintro ⟨program, assembled⟩
    -- What has been assembled has none of the three.
    have spelled := isAssemblyOf_of_assemble assembled
    rcases cause with refused | large | ⟨known, knows, row, member, unreadable⟩
    · exact SourceLine.not_consistent_iff.mpr refused spelled.consistent
    · rw [← spelled.length_eq] at large
      exact absurd spelled.length_le (Nat.not_le.mpr large)
    · rw [knows.unique ⟨spelled.mem_labels, spelled.mem_constants⟩] at unreadable
      exact unreadable (spelled.readable row member)

/-- A source is refused exactly when the symbol of a line cannot be bound, there are too many instructions, or an
instruction cannot be read. Faults of symbols come before the count and the count before faults of instructions,
wherever in the source they are. What is reported is such a fault, on one line if it belongs to a line. -/
theorem assemble_diagnostic (source : String) :
    ∃ rows, List.Forall₂ SourceLine.Spells (lines source.toList) rows ∧
      (∀ fault, assemble source = .error fault ↔ Reports (lines source.toList) rows fault) ∧
      ((∃ fault, assemble source = .error fault) ↔
        (∃ before row after, rows = before ++ row :: after ∧ ∃ fault, SourceLine.Refused before row fault) ∨
        programCapacity < (rows.filterMap SourceLine.instruction?).length ∨
        ∃ known, SourceLine.Knows rows known ∧ ∃ row ∈ rows, ¬ row.Readable known) ∧
      ∀ fault, assemble source = .error fault →
        fault.kind.line? = none ∧ (fault = fault.kind ∨ ∃ line tokens, fault = .line line tokens fault.kind) := by
  refine ⟨SourceLine.ofText source, SourceLine.forall₂_spells.mpr rfl, fun _ => assemble_eq_error_iff_reports,
    exists_assemble_error_iff, ?_⟩
  intro fault failed
  have located {line : Nat} {tokens : String} {cause : Fault} (bare : cause.line? = none) :
      (Fault.line line tokens cause).kind = cause := Fault.kind_eq_self bare
  cases assemble_eq_error_iff_reports.mp failed with
  | symbol _ _ _ refused =>
    have bare := refused.line?_eq_none
    rw [located bare]
    exact ⟨bare, .inr ⟨_, _, rfl⟩⟩
  | size => exact ⟨rfl, .inl rfl⟩
  | instruction _ _ _ _ _ _ unread =>
    have bare := lineless_ofTokens _ _ _ unread
    rw [located bare]
    exact ⟨bare, .inr ⟨_, _, rfl⟩⟩

/-- The second declaration of `A` is reported, although a line before it has no instruction that can be read. -/
theorem assemble_diagnostic_late_label :
    assemble "FOO\nA:\n\n" = .error (.line 1 "FOO" (.unknownMnemonic "FOO")) ∧
      assemble "FOO\nA:\n\na: NOP ; again\n" = .error (.line 4 "A: NOP" (.duplicateSymbol "A")) := by
  refine ⟨by decide +kernel, ?_⟩
  obtain ⟨rows, spelled, reports, -, -⟩ := assemble_diagnostic "FOO\nA:\n\na: NOP ; again\n"
  have told : SourceLine.ofText "FOO\nA:\n\na: NOP ; again\n" =
      [.instruction ["FOO"], .label "A:" [], .blank] ++ [.label "A:" ["NOP"]] := by decide +kernel
  rw [SourceLine.forall₂_spells, told] at spelled
  have first : SourceLine.Consistent [.instruction ["FOO"], .label "A:" [], .blank] := by
    refine ⟨by decide, ?_, by simp, by decide⟩
    intro name index declared
    exact declared.le.trans_lt (by decide)
  exact (reports _).mpr (@Reports.symbol _ _ _ [] _ "a: NOP ; again".toList _ spelled.symm (by decide +kernel) first
    (.redeclared rfl (by decide) (by decide)))

end Program

end DspAsm
