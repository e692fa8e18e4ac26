import DspAsm.Proofs.Listing.ReadBack
import DspAsm.Proofs.Program.Image

namespace DspAsm
open Text

/-! ## Surveying a listing -/

def Surveys (before : Survey → Prop) (lines : List (List Char)) (after : Survey → Prop) : Prop :=
  ∀ survey, before survey → ∀ numbered : List (List Char × Nat), numbered.map Prod.fst = lines →
    ∃ next, numbered.foldlM Survey.add survey = .ok next ∧ after next

namespace Surveys

variable {before between after : Survey → Prop}

theorem nil : Surveys before [] before := by
  intro survey holds numbered none
  rw [List.map_eq_nil_iff.mp none]
  exact ⟨survey, rfl, holds⟩

theorem single {text : List Char}
    (step : ∀ survey, before survey → ∀ line, ∃ next, survey.add (text, line) = .ok next ∧ after next) :
    Surveys before [text] after := by
  intro survey holds numbered one
  obtain ⟨⟨text', line⟩, rfl, rfl⟩ := List.map_eq_singleton_iff.mp one
  obtain ⟨next, added, holds⟩ := step survey holds line
  exact ⟨next, by rw [List.foldlM_cons, added]; rfl, holds⟩

theorem append {lines later : List (List Char)} (first : Surveys before lines between)
    (second : Surveys between later after) : Surveys before (lines ++ later) after := by
  intro survey holds numbered both
  obtain ⟨numbered, numbered', rfl, left, right⟩ := List.map_eq_append_iff.mp both
  obtain ⟨next, run, holds⟩ := first survey holds numbered left
  obtain ⟨last, run', holds⟩ := second next holds numbered' right
  exact ⟨last, by rw [List.foldlM_append, run, ok_bind, run'], holds⟩

end Surveys

/-- A listing of a program with these labels, read up to some row: all labels of earlier rows are bound, and those of
this row that are `done`. -/
structure Surveyed (labels : SymbolTable Nat) (done : List String) (rows : List (List String)) (survey : Survey) :
    Prop where
  mem_labels : ∀ name index, (name, index) ∈ survey.scope.labels.entries ↔
    (name, index) ∈ labels.entries ∧ (index < rows.length ∨ index = rows.length ∧ name ∈ done)
  constants : survey.scope.constants = .empty
  rows_eq : survey.pending.toList.map Place.tokens = rows

namespace Surveyed

variable {labels : SymbolTable Nat} {done : List String} {rows : List (List String)}

theorem size_eq {survey : Survey} (surveyed : Surveyed labels done rows survey) :
    survey.pending.size = rows.length := by
  rw [← surveyed.rows_eq, List.length_map, Array.length_toList]

theorem declaration {name : String} (inked : IsInked name) (bound : (name, rows.length) ∈ labels.entries)
    (fresh : name ∉ done) (fits : rows.length < programCapacity) :
    Surveys (Surveyed labels done rows) [(name ++ ":").toList] (Surveyed labels (done ++ [name]) rows) := by
  refine Surveys.single fun survey surveyed line => ?_
  -- A name that is bound already belongs to an earlier row or was declared just before.
  have free (other : Nat) : (name, other) ∉ survey.scope.labels.entries := by
    intro taken
    obtain ⟨among, below | ⟨-, stale⟩⟩ := (surveyed.mem_labels _ _).mp taken
    · exact absurd (SymbolTable.value_unique among bound) below.ne
    · exact fresh stale
  have added : survey.scope.addLabel (name ++ ":") survey.pending.size =
      .ok { survey.scope with labels := survey.scope.labels.insert name rows.length } := by
    rw [Scope.addLabel_eq_ok, labelKey_declaration inked, surveyed.size_eq]
    exact ⟨fits, free, rfl⟩
  refine ⟨{ survey with scope := { survey.scope with labels := survey.scope.labels.insert name rows.length } },
    ?_, fun other index => ?_, surveyed.constants, surveyed.rows_eq⟩
  · rw [Survey.add_eq_ok, SourceLine.read_declaration inked]
    exact ⟨_, added, rfl⟩
  · rw [SymbolTable.mem_insert, surveyed.mem_labels, Prod.mk.injEq, List.mem_append, List.mem_singleton]
    constructor
    · rintro (⟨rfl, rfl⟩ | ⟨⟨among, place⟩, -⟩)
      · exact ⟨bound, .inr ⟨rfl, .inr rfl⟩⟩
      · exact ⟨among, place.imp_right fun here => ⟨here.1, .inl here.2⟩⟩
    · rintro ⟨among, below | ⟨rfl, listed | rfl⟩⟩
      · exact .inr ⟨⟨among, .inl below⟩, fun same =>
          absurd (SymbolTable.value_unique (same ▸ among) bound) below.ne⟩
      · exact .inr ⟨⟨among, .inr ⟨rfl, listed⟩⟩, fun same => fresh (same ▸ listed)⟩
      · exact .inl ⟨rfl, rfl⟩

theorem declarations {names : List String} (inked : ∀ name ∈ names, IsInked name)
    (bound : ∀ name ∈ names, (name, rows.length) ∈ labels.entries) (distinct : (done ++ names).Nodup)
    (fits : names ≠ [] → rows.length < programCapacity) :
    Surveys (Surveyed labels done rows) (names.map fun name => (name ++ ":").toList)
      (Surveyed labels (done ++ names) rows) := by
  induction names generalizing done with
  | nil => simpa using Surveys.nil
  | cons name names ih =>
    have fresh : name ∉ done := fun stale =>
      (List.nodup_append.mp distinct).2.2 name stale name List.mem_cons_self rfl
    have first := declaration (inked name List.mem_cons_self) (bound name List.mem_cons_self) fresh (fits (by simp))
    have distinct' : ((done ++ [name]) ++ names).Nodup := by simpa using distinct
    have rest := ih (fun name member => inked name (List.mem_cons_of_mem _ member))
      (fun name member => bound name (List.mem_cons_of_mem _ member)) distinct' (fun _ => fits (by simp))
    simpa using first.append rest

theorem row {text : List Char} (row : IsRow text) {first : String} {later : List String}
    (read : tokens text = first :: later) (inked : IsInked first)
    (complete : ∀ name, (name, rows.length) ∈ labels.entries → name ∈ done) :
    Surveys (Surveyed labels done rows) [text] (Surveyed labels [] (rows ++ [tokens text])) := by
  refine Surveys.single fun survey surveyed line => ⟨survey.setAside line (tokens text), ?_, ?_⟩
  · rw [Survey.add_eq_ok, SourceLine.read_row row read inked, read]
  · refine ⟨fun name index => ?_, surveyed.constants, by simp [Survey.setAside, surveyed.rows_eq]⟩
    change (name, index) ∈ survey.scope.labels.entries ↔ _
    rw [surveyed.mem_labels, List.length_append, List.length_singleton]
    refine and_congr_right fun among => ?_
    constructor
    · rintro (below | ⟨rfl, -⟩) <;> exact .inl (by omega)
    · rintro (below | ⟨-, none⟩)
      · rcases Nat.lt_succ_iff_lt_or_eq.mp below with below | rfl
        · exact .inl below
        · exact .inr ⟨rfl, complete name among⟩
      · cases none

theorem labelLines {scope : Scope} (legible : scope.Legible) (rows : List (List String))
    (fits : scope.labelsAt rows.length ≠ [] → rows.length < programCapacity) :
    Surveys (Surveyed scope.labels [] rows) ((scope.labelLines rows.length).map String.toList)
      (Surveyed scope.labels (scope.labelsAt rows.length) rows) := by
  have distinct : ([] ++ scope.labelsAt rows.length).Nodup := (scope.labelsAt_sorted rows.length).imp ne_of_lt
  have run := declarations (fun name member => (legible _ (Scope.mem_labelsAt.mp member)).isInked)
    (fun name member => Scope.mem_labelsAt.mp member) distinct fits
  rw [Scope.labelLines, List.map_map]
  exact run

theorem instructions {scope : Scope} (legible : scope.Legible) (layout : Layout) {instructions : List Instruction}
    (fits : rows.length + instructions.length ≤ programCapacity) :
    Surveys (Surveyed scope.labels [] rows)
      (((instructions.zipIdx rows.length).flatMap fun (instruction, index) =>
        scope.labelLines index ++ [instruction.row scope layout]).map String.toList)
      (Surveyed scope.labels [] (rows ++ instructions.map (Instruction.rowTokens scope))) := by
  -- The rows read so far count the instructions, so the next one has their number as its index.
  induction instructions generalizing rows with
  | nil => simpa using Surveys.nil
  | cons instruction instructions ih =>
    rw [List.length_cons] at fits
    obtain ⟨isRow, read⟩ := instruction.tokens_row legible layout
    obtain ⟨first, later, written, inked⟩ := instruction.rowTokens_eq_cons legible
    have declared := labelLines legible rows fun _ => by omega
    have complete : ∀ name, (name, rows.length) ∈ scope.labels.entries → name ∈ scope.labelsAt rows.length :=
      fun _ => Scope.mem_labelsAt.mpr
    have set := row isRow (read.trans written) inked complete
    have shorter : (rows ++ [instruction.rowTokens scope]).length + instructions.length ≤ programCapacity := by
      rw [List.length_append, List.length_singleton]
      omega
    rw [read] at set
    simpa using (declared.append set).append (ih shorter)

end Surveyed

namespace Program

variable {program : Program}

theorem lines_listing (legible : program.scope.Legible) (layout : Layout) :
    lines (program.listing layout).toList = (program.listingLines layout).map String.toList := by
  have declared {mark : Char} (foreign : isInk mark = false) (other : mark ≠ ':') (index : Nat) (line : String)
      (member : line ∈ program.scope.labelLines index) : mark ∉ line.toList := by
    obtain ⟨name, bound, rfl⟩ := List.mem_map.mp member
    have inked := (legible _ (Scope.mem_labelsAt.mp bound)).isInked
    simpa [other] using inked.not_mem foreign
  have whole {mark : Char} (foreign : isInk mark = false) (other : mark ≠ ':') (wide : isGap mark = false) :
      ∀ line ∈ (program.listingLines layout).map String.toList, mark ∉ line := by
    intro text member
    obtain ⟨line, listed, rfl⟩ := List.mem_map.mp member
    simp only [listingLines, List.mem_append, List.mem_flatMap, List.mem_singleton] at listed
    rcases listed with ⟨⟨instruction, index⟩, -, before | rfl⟩ | after
    · exact declared foreign other index line before
    · exact (instruction.tokens_row legible layout).1.not_mem foreign wide
    · exact declared foreign other program.length line after
  have kept := lines_flatMap (whole (by decide) (by decide) (by decide)) (whole (by decide) (by decide) (by decide))
  rw [← kept, listing, String.toList_join, List.flatMap_map, List.flatMap_map]
  simp only [String.toList_append]
  rfl

theorem ofText_listing (sound : program.Sound) (legible : program.scope.Legible) (layout : Layout) :
    ∃ survey, Survey.ofText (program.listing layout) = .ok survey ∧
      survey.scope = { labels := program.scope.labels } ∧
      survey.pending.toList.map Place.tokens = program.instructions.map (Instruction.rowTokens program.scope) := by
  have start : Surveyed program.scope.labels [] [] {} := ⟨by simp [SymbolTable.empty], rfl, rfl⟩
  have count : (program.instructions.map (Instruction.rowTokens program.scope)).length = program.length :=
    List.length_map _
  have fits : ([] : List (List String)).length + program.instructions.length ≤ programCapacity := by
    rw [List.length_nil, Nat.zero_add]
    exact sound.length_le
  have body := Surveyed.instructions legible layout fits
  have tail := Surveyed.labelLines legible (program.instructions.map (Instruction.rowTokens program.scope))
    fun some => by
      obtain ⟨name, labelled⟩ := List.exists_mem_of_ne_nil _ some
      exact (sound.labels name _ (Scope.mem_labelsAt.mp labelled)).2
  have text := (List.zipIdx_map_fst 1 _).trans (lines_listing legible layout)
  rw [listingLines, List.map_append, ← count] at text
  obtain ⟨survey, run, finished⟩ := body.append tail {} start _ text
  have labels : survey.scope.labels = program.scope.labels := by
    apply SymbolTable.eq_of_mem_iff
    rintro ⟨name, index⟩
    rw [finished.mem_labels, and_iff_left_iff_imp, count, Scope.mem_labelsAt]
    intro bound
    rcases Nat.lt_or_eq_of_le (sound.labels name index bound).1 with below | rfl
    · exact .inl below
    · exact .inr ⟨rfl, bound⟩
  refine ⟨survey, run, ?_, finished.rows_eq⟩
  rw [← labels, ← finished.constants]

theorem assemble_legible_eq_ok (sound : program.Sound) (legible : program.scope.Legible) (layout : Layout)
    {again : Program} :
    assemble (program.listing layout) = .ok again ↔ again.scope = { labels := program.scope.labels } ∧
      List.Forall₂ (fun instruction result =>
        Instruction.ofTokens { labels := program.scope.labels } (instruction.rowTokens program.scope) = .ok result)
        program.instructions again.instructions := by
  obtain ⟨survey, surveyed, scope, rows⟩ := ofText_listing sound legible layout
  have size : survey.pending.size = program.length := by
    rw [← Array.length_toList, ← List.length_map Place.tokens, rows, List.length_map, length]
  have reread : survey.pending.toList.mapM (fun place => Instruction.ofTokens survey.scope place.tokens) =
      program.instructions.mapM fun instruction =>
        Instruction.ofTokens { labels := program.scope.labels } (instruction.rowTokens program.scope) := by
    have reread := congrArg (List.mapM (Instruction.ofTokens { labels := program.scope.labels })) rows
    rw [List.mapM_map, List.mapM_map] at reread
    rw [scope]
    exact reread
  rw [assemble_eq_ok, ← mapM_eq_ok]
  constructor
  · rintro ⟨survey', surveyed', -, run, same⟩
    cases surveyed.symm.trans surveyed'
    exact ⟨same.symm.trans scope, reread.symm.trans run⟩
  · rintro ⟨same, run⟩
    exact ⟨survey, surveyed, size ▸ sound.length_le, reread.trans run, scope.trans same.symm⟩

theorem assemble_listing_eq_ok (sound : program.Sound) (named : program.scope.Named) (layout : Layout)
    {again : Program} :
    assemble (program.listing layout) = .ok again ↔ again.scope = { labels := program.scope.labels } ∧
      List.Forall₂ (fun instruction result =>
        Instruction.ofTokens { labels := program.scope.labels } (instruction.rowTokens program.scope) = .ok result)
        program.instructions again.instructions :=
  assemble_legible_eq_ok sound named.legible layout

theorem assemble_legible (sound : program.Sound) (legible : program.scope.Legible)
    (plain : ∀ instruction ∈ program.instructions, ¬ instruction.Ambiguous program.scope) (layout : Layout) :
    assemble (program.listing layout) = .ok { program with scope := { labels := program.scope.labels } } ↔
      ∀ instruction ∈ program.instructions, instruction.Faithful program.scope := by
  rw [assemble_legible_eq_ok sound legible layout, List.forall₂_same, and_iff_right rfl]
  refine forall₂_congr fun instruction member => ?_
  exact Instruction.ofTokens_rowTokens { labels := program.scope.labels } rfl legible (sound.legal instruction member)
    (plain instruction member)

theorem assemble_listing (sound : program.Sound) (named : program.scope.Named)
    (plain : ∀ instruction ∈ program.instructions, ¬ instruction.Ambiguous program.scope) (layout : Layout) :
    assemble (program.listing layout) = .ok { program with scope := { labels := program.scope.labels } } :=
  (assemble_legible sound named.legible plain layout).mpr fun instruction _ => instruction.faithful_of_named named

theorem listing_congr {other : Program} (instructions : other.instructions = program.instructions)
    (labels : other.scope.labels = program.scope.labels) (layout : Layout) :
    other.listing layout = program.listing layout := by
  obtain ⟨_, _, _⟩ := program
  obtain ⟨_, _, _⟩ := other
  cases instructions
  cases labels
  rfl

/-! ## Listings of assembled programs -/

theorem instructions_eq_of_assemble_listing (sound : program.Sound) {layout : Layout} {again : Program}
    (assembled : assemble (program.listing layout) = .ok again) (words : again.words = program.words) :
    again.instructions = program.instructions := by
  have read := (assemble_sound assembled).mapM_words
  rw [words, sound.mapM_words] at read
  exact (Except.ok.inj read).symm

theorem exists_assemble_legible_iff (sound : program.Sound) (legible : program.scope.Legible)
    (plain : ∀ instruction ∈ program.instructions, ¬ instruction.Ambiguous program.scope) (layout : Layout) :
    (∃ again, assemble (program.listing layout) = .ok again ∧ again.words = program.words) ↔
      ∀ instruction ∈ program.instructions, instruction.Faithful program.scope := by
  rw [← assemble_legible sound legible plain layout]
  constructor
  · rintro ⟨⟨instructions, scope⟩, assembled, words⟩
    have labels := ((assemble_legible_eq_ok sound legible layout).mp assembled).1
    have same := instructions_eq_of_assemble_listing sound assembled words
    cases labels
    cases same
    exact assembled
  · intro assembled
    exact ⟨_, assembled, rfl⟩

theorem not_ambiguous_of_assemble_listing (sound : program.Sound) (named : program.scope.Named) {layout : Layout}
    {again : Program} (assembled : assemble (program.listing layout) = .ok again) (words : again.words = program.words)
    {instruction : Instruction} (member : instruction ∈ program.instructions) :
    ¬ instruction.Ambiguous program.scope := by
  intro ambiguous
  have rows := ((assemble_listing_eq_ok sound named layout).mp assembled).2
  rw [instructions_eq_of_assemble_listing sound assembled words, List.forall₂_same] at rows
  exact Instruction.ofTokens_ambiguous ambiguous (rows instruction member) rfl

/-- The listing of an assembled program whose labels are identifiers assembles to the same words exactly when no
conditional jump goes to an index whose first label is a mnemonic. The labels are then the same too, and so is the
listing of what it assembles to. -/
theorem assemble_listing_iff_of_assemble {source : String} (assembled : assemble source = .ok program)
    (named : ∀ entry ∈ program.scope.labels.entries, IsIdentifier entry.1) (layout : Layout) :
    ((∃ again, assemble (program.listing layout) = .ok again ∧ again.words = program.words) ↔
      ¬ ∃ instruction ∈ program.instructions, instruction.Ambiguous program.scope) ∧
    ∀ again, assemble (program.listing layout) = .ok again → again.words = program.words →
      again.scope.labels = program.scope.labels ∧ again.listing layout = program.listing layout := by
  have sound := assemble_sound assembled
  refine ⟨⟨?_, fun plain => ?_⟩, fun again reassembled words => ?_⟩
  · rintro ⟨again, reassembled, words⟩ ⟨instruction, member, ambiguous⟩
    exact not_ambiguous_of_assemble_listing sound named reassembled words member ambiguous
  · exact ⟨_, assemble_listing sound named
      (fun instruction member ambiguous => plain ⟨instruction, member, ambiguous⟩) layout, rfl⟩
  · have labels : again.scope.labels = program.scope.labels := by
      rw [((assemble_listing_eq_ok sound named layout).mp reassembled).1]
    exact ⟨labels, listing_congr (instructions_eq_of_assemble_listing sound reassembled words) labels layout⟩

/-- A label named `NOP` is cut off from its jump, which is then read as one to the label `NZ`. -/
theorem not_assemble_listing_of_label_nop :
    ∃ program, assemble "NOP: JMP NZ,0\nNZ: ADD" = .ok program ∧
      (∃ again, assemble (program.listing {}) = .ok again) ∧
      ¬ ∃ again, assemble (program.listing {}) = .ok again ∧ again.words = program.words := by
  have assembled : assemble "NOP: JMP NZ,0\nNZ: ADD" = .ok
      ⟨[.special (.jump ⟨some .nz, 0⟩), .compound { alu := .add }],
        { labels := (SymbolTable.empty.insert "NOP" 0).insert "NZ" 1 }⟩ := by rfl
  refine ⟨_, assembled, ⟨⟨[.special (.jump ⟨none, 1⟩), .compound { alu := .add }],
    { labels := (SymbolTable.empty.insert "NOP" 0).insert "NZ" 1 }⟩, by decide +kernel⟩, ?_⟩
  rw [(assemble_listing_iff_of_assemble assembled (by decide) {}).1, not_not]
  exact ⟨_, List.mem_cons_self, .nz, 0, "NOP", rfl, Scope.head?_labelsAt.mp rfl, ⟨"NOP", .nop, 0, 0⟩, by decide, rfl⟩

end Program

/-! ## Listings of disassembled programs -/

def IsStem (stem : String) : Prop :=
  (stem.toList.head?.any fun c => c.isAlpha || c == '_') = true ∧
    (stem.toList.all fun c => c.isAlphanum || c == '_') = true

instance (stem : String) : Decidable (IsStem stem) :=
  inferInstanceAs (Decidable (_ ∧ _))

theorem spelled_toUpper {c : Char} (spelled : (c.isAlphanum || c == '_') = true) :
    (c.toUpper.isUpper || c.toUpper.isDigit || c.toUpper == '_') = true := by
  simp only [Char.isAlphanum, Bool.or_eq_true, beq_iff_eq] at spelled
  rcases spelled with (alpha | digit) | rfl
  · simp [alpha]
  · have kept : c.toUpper = c := toUpper_eq_self (by rw [isDigit_iff] at digit; omega)
    simp [kept, digit]
  · decide

theorem spelled_of_mem_upper {stem : List Char} (spelled : (stem.all fun c => c.isAlphanum || c == '_') = true)
    {c : Char} (member : c ∈ upper stem) : (c.isUpper || c.isDigit || c == '_') = true := by
  obtain ⟨letter, written, rfl⟩ := List.mem_map.mp member
  exact spelled_toUpper (List.all_eq_true.mp spelled letter written)

theorem IsStem.isIdentifier_upper {stem : String} (plain : IsStem stem) :
    IsIdentifier (String.ofList (upper stem.toList)) := by
  obtain ⟨start, all⟩ := plain
  constructor
  · cases letters : stem.toList with
    | nil => simp [letters] at start
    | cons first rest =>
      simp only [letters, List.head?_cons, Option.any_some, Bool.or_eq_true, beq_iff_eq] at start
      have underscore : first = '_' → first.toUpper = '_' := by
        rintro rfl
        rfl
      simpa [upper] using start.imp_right underscore
  · rw [String.toList_ofList, List.all_eq_true]
    exact fun c => spelled_of_mem_upper all

namespace Program

theorem isIdentifier_targetName {stem : String} (plain : IsStem stem) (target : Nat) :
    IsIdentifier (targetName stem target) := by
  have identifier := plain.isIdentifier_upper
  have unblank := identifier.isInked.trimStart_eq
  rw [String.toList_ofList] at unblank
  rw [targetName, unblank]
  exact identifier.append fun c member => Numeral.isUpper_or_isDigit_of_mem_upperHex member

theorem isName_targetName {stem : String} (spelled : (stem.toList.all fun c => c.isAlphanum || c == '_') = true)
    (target : Nat) : IsName (targetName stem target) := by
  rw [IsName, targetName, String.toList_append, String.toList_ofList, List.all_eq_true]
  constructor
  · simp [Numeral.upperHex, List.leftpad]
  · intro c member
    rcases List.mem_append.mp member with stem | digit
    · exact spelled_of_mem_upper spelled ((List.dropWhile_sublist _).mem stem)
    · rw [Numeral.isUpper_or_isDigit_of_mem_upperHex digit, Bool.true_or]

theorem name_ne_targetName {stem : String} {target : Nat} (near : target ≤ 127) :
    ∀ mnemonic ∈ Mnemonic.all, mnemonic.name ≠ targetName stem target := by
  -- The last two characters of a mnemonic, taken as hexadecimal digits, are always beyond the reach of a jump.
  have far : ∀ mnemonic ∈ Mnemonic.all,
      127 < Numeral.ofDigits 16 (mnemonic.name.toList.drop (mnemonic.name.toList.length - 2)) := by decide
  intro mnemonic listed same
  have digits := far mnemonic listed
  have two : (Numeral.upperHex 2 target).toList.length = 2 := Numeral.length_upperHex (by omega)
  rw [same, targetName, String.toList_append, List.length_append, two, Nat.add_sub_cancel, List.drop_left,
    Numeral.ofDigits_upperHex] at digits
  omega

theorem not_ambiguous_of_labelled {stem : String} {length : Nat} {targets : List Nat} {scope : Scope}
    (labelled : Labelled stem length targets scope) {instruction : Instruction} (legal : instruction.Legal) :
    ¬ instruction.Ambiguous scope := by
  rintro ⟨condition, target, label, rfl, ⟨bound, -⟩, mnemonic, listed, rfl⟩
  have near : target.toNat ≤ 127 := UInt8.le_iff_toNat_le.mp legal
  exact name_ne_targetName near mnemonic listed ((labelled.mem_labels _ _).mp bound).2

/-- Disassembling and assembling is lossless: the listing of a disassembled program assembles, to the words, the
labels and the listing that it was made from. -/
theorem assemble_listing_of_ofBytes {layout : Layout} (plain : IsStem layout.labelStem) {bytes : List UInt8}
    {program : Program} (read : ofBytes layout bytes = .ok program) :
    ∃ again, assemble (program.listing layout) = .ok again ∧ again.words = program.words ∧
      again.scope.labels = program.scope.labels ∧ again.scope.constants = .empty ∧
      again.listing layout = program.listing layout := by
  obtain ⟨targets, labelled⟩ := exists_labelled_of_ofBytes read
  have sound := ofBytes_sound read
  have named : program.scope.Named := by
    rintro ⟨name, index⟩ bound
    rw [((labelled.mem_labels name index).mp bound).2]
    exact isIdentifier_targetName plain index
  have assembled := assemble_listing sound named
    (fun instruction member => not_ambiguous_of_labelled labelled (sound.legal instruction member)) layout
  exact ⟨_, assembled, rfl, rfl, rfl, listing_congr rfl rfl layout⟩

theorem assemble_listing_of_jump :
    ∃ program, ofBytes { labelStem := "to_" } [0xd2, 0x08, 0x00, 0x01, 0xf8, 0x00, 0x00, 0x00] = .ok program ∧
      program.scope.labels = SymbolTable.empty.insert "TO_01" 1 ∧
      ∃ again, assemble (program.listing { labelStem := "to_" }) = .ok again ∧ again.words = program.words ∧
        again.scope.labels = program.scope.labels ∧ again.scope.constants = .empty ∧
        again.listing { labelStem := "to_" } = program.listing { labelStem := "to_" } := by
  have read : ofBytes { labelStem := "to_" } [0xd2, 0x08, 0x00, 0x01, 0xf8, 0x00, 0x00, 0x00] = .ok
      ⟨[.special (.jump ⟨some .nz, 1⟩), .special (.stop .stopInterrupt)],
        { labels := SymbolTable.empty.insert "TO_01" 1 }⟩ := by rfl
  exact ⟨_, read, rfl, assemble_listing_of_ofBytes (by decide) read⟩

end Program

end DspAsm
