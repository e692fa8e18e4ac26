import DspAsm.Program.Image
import DspAsm.Proofs.Instruction.Binary
import DspAsm.Proofs.Program.Source
import DspAsm.Proofs.Word.Stream

namespace DspAsm
open Text

namespace Program

/-! ## Labels of branch targets -/

def targetName (stem : String) (target : Nat) : String :=
  String.ofList (trimStart (upper stem.toList)) ++ Numeral.upperHex 2 target

theorem labelKey_targetLabel (stem : String) (target : Nat) :
    labelKey (targetLabel stem target) = targetName stem target := by
  have isInk_of_mem (c : Char) (member : c ∈ (Numeral.upperHex 2 target).toList) : isInk c = true := by
    have := Numeral.isUpper_or_isDigit_of_mem_upperHex member
    simp only [isInk, this, Bool.true_or]
  have solid (c : Char) (member : c ∈ (Numeral.upperHex 2 target).toList) : isBlank c = false :=
    isBlank_of_isInk (isInk_of_mem c member)
  have written : (Numeral.upperHex 2 target).toList ≠ [] := by
    simp [Numeral.upperHex, List.leftpad]
  have uncoloned : (trimStart (upper stem.toList) ++ (Numeral.upperHex 2 target).toList).getLast? ≠ some ':' := by
    rw [List.getLast?_append_of_ne_nil _ written]
    intro last
    exact ne_of_isInk (isInk_of_mem ':' (List.mem_of_getLast? last)) (by decide) rfl
  rw [labelKey, targetLabel, String.toList_append, String.toList_ofList, trim_append written solid, dropColon,
    if_neg uncoloned, trim_append written solid, trimStart, trimStart, List.dropWhile_idempotent, targetName,
    String.ofList_append, String.ofList_toList, trimStart]

theorem target_eq_of_targetName_eq {stem : String} {first second : Nat} (small : first < programCapacity)
    (small' : second < programCapacity) (same : targetName stem first = targetName stem second) : first = second := by
  have lists := congrArg String.toList same
  rw [targetName, targetName, String.toList_append, String.toList_append] at lists
  have digits := (List.append_inj' lists
    ((Numeral.length_upperHex small).trans (Numeral.length_upperHex small').symm)).2
  rw [← Numeral.ofDigits_upperHex 2 first, digits, Numeral.ofDigits_upperHex]

/-- A scope with a label for each of some branch targets that lie inside a program, and nothing else. -/
structure Labelled (stem : String) (length : Nat) (targets : List Nat) (scope : Scope) : Prop where
  mem_labels : ∀ name index, (name, index) ∈ scope.labels.entries ↔
    (index ∈ targets ∧ index < length) ∧ name = targetName stem index
  constants : scope.constants = .empty

theorem labelTarget_step {stem : String} {length : Nat} {targets : List Nat} {scope : Scope}
    (fits : length ≤ programCapacity) (labelled : Labelled stem length targets scope) (target : Nat) :
    ∃ after, labelTarget stem length scope target = .ok after ∧ Labelled stem length (targets ++ [target]) after := by
  unfold labelTarget
  split
  · rename_i fresh
    obtain ⟨inside, unlabelled⟩ := fresh
    rw [Bool.not_eq_true', ← Bool.not_eq_true, Scope.hasLabelAt_iff, not_exists] at unlabelled
    -- Indices of program RAM have two hexadecimal digits, so a label of the same name is one of the same target.
    have free (other : Nat) : (labelKey (targetLabel stem target), other) ∉ scope.labels.entries := by
      rw [labelKey_targetLabel]
      intro bound
      obtain ⟨⟨-, other_lt⟩, same⟩ := (labelled.mem_labels _ _).mp bound
      rw [← target_eq_of_targetName_eq (by omega) (by omega) same] at bound
      exact unlabelled _ bound
    refine ⟨_, Scope.addLabel_eq_ok.mpr ⟨by omega, free, rfl⟩, fun name index => ?_, labelled.constants⟩
    rw [SymbolTable.mem_insert, labelKey_targetLabel, labelled.mem_labels, Prod.mk.injEq, List.mem_append,
      List.mem_singleton]
    constructor
    · rintro (⟨rfl, rfl⟩ | ⟨⟨⟨member, small⟩, named⟩, -⟩)
      · exact ⟨⟨.inr rfl, inside⟩, rfl⟩
      · exact ⟨⟨.inl member, small⟩, named⟩
    · rintro ⟨⟨member, small⟩, rfl⟩
      by_cases same : index = target
      · exact .inl ⟨by rw [same], same⟩
      · exact .inr ⟨⟨⟨member.resolve_right same, small⟩, rfl⟩,
          fun equal => same (target_eq_of_targetName_eq (by omega) (by omega) equal)⟩
  · rename_i stale
    refine ⟨scope, rfl, fun name index => ?_, labelled.constants⟩
    rw [labelled.mem_labels, List.mem_append, List.mem_singleton]
    constructor
    · rintro ⟨⟨member, small⟩, named⟩
      exact ⟨⟨.inl member, small⟩, named⟩
    · rintro ⟨⟨member | rfl, small⟩, rfl⟩
      · exact ⟨⟨member, small⟩, rfl⟩
      · simp only [small, true_and, Bool.not_eq_true', Bool.not_eq_false, Scope.hasLabelAt_iff] at stale
        obtain ⟨name, bound⟩ := stale
        exact ⟨((labelled.mem_labels _ _).mp bound).1, rfl⟩

theorem labelTarget_run {stem : String} {length : Nat} {targets later : List Nat} {scope : Scope}
    (fits : length ≤ programCapacity) (labelled : Labelled stem length targets scope) :
    ∃ after, later.foldlM (labelTarget stem length) scope = .ok after ∧
      Labelled stem length (targets ++ later) after := by
  induction later generalizing targets scope with
  | nil => exact ⟨scope, rfl, by rwa [List.append_nil]⟩
  | cons target later ih =>
    obtain ⟨next, step, labelled⟩ := labelTarget_step fits labelled target
    obtain ⟨after, run, labelled⟩ := ih labelled
    refine ⟨after, ?_, by simpa using labelled⟩
    rw [List.foldlM_cons, step, ok_bind, run]

theorem exists_labelTargets (stem : String) {instructions : List Instruction}
    (fits : instructions.length ≤ programCapacity) :
    ∃ scope, labelTargets stem instructions = .ok scope ∧
      Labelled stem instructions.length (instructions.filterMap Instruction.target?) scope := by
  have start : Labelled stem instructions.length [] {} := by
    refine ⟨fun name index => ?_, rfl⟩
    simp [SymbolTable.empty]
  exact labelTarget_run fits start

/-! ## Disassembling -/

theorem ofBits_eq_ok {layout : Layout} {bits : List Bool} {program : Program} :
    ofBits layout bits = .ok program ↔ bits.length % 32 = 0 ∧ bits.length / 32 ≤ programCapacity ∧
      (Word.takeStream (bits.length / 32) bits).mapM Instruction.ofWord = .ok program.instructions ∧
      (if layout.autoLabels then labelTargets layout.labelStem program.instructions else pure {}) =
        .ok program.scope := by
  simp only [ofBits, bind_eq_ok, check_eq_ok, choice_bind_eq_ok, pure_eq_ok, not_not, Nat.not_lt]
  constructor
  · rintro ⟨whole, fits, instructions, read, scope, labelled, rfl⟩
    exact ⟨whole, fits, read, labelled⟩
  · rintro ⟨whole, fits, read, labelled⟩
    exact ⟨whole, fits, _, read, _, labelled, rfl⟩

theorem length_le_of_mapM {bits : List Bool} {instructions : List Instruction}
    (fits : bits.length / 32 ≤ programCapacity)
    (decoded : (Word.takeStream (bits.length / 32) bits).mapM Instruction.ofWord = .ok instructions) :
    instructions.length ≤ programCapacity := by
  rwa [← (mapM_eq_ok.mp decoded).length_eq, Word.length_takeStream]

theorem exists_ofBits {layout : Layout} {bits : List Bool} {instructions : List Instruction}
    (whole : bits.length % 32 = 0) (fits : bits.length / 32 ≤ programCapacity)
    (decoded : (Word.takeStream (bits.length / 32) bits).mapM Instruction.ofWord = .ok instructions) :
    ∃ scope, ofBits layout bits = .ok ⟨instructions, scope⟩ := by
  obtain ⟨scope, labelled, -⟩ := exists_labelTargets layout.labelStem (length_le_of_mapM fits decoded)
  refine ⟨if layout.autoLabels then scope else {}, ofBits_eq_ok.mpr ⟨whole, fits, decoded, ?_⟩⟩
  rw [labelled]
  split <;> rfl

theorem length_le_of_ofBits {layout : Layout} {bits : List Bool} {program : Program}
    (read : ofBits layout bits = .ok program) : program.length ≤ programCapacity := by
  obtain ⟨-, fits, decoded, -⟩ := ofBits_eq_ok.mp read
  exact length_le_of_mapM fits decoded

theorem labelled_of_ofBytes {layout : Layout} (marks : layout.autoLabels = true) {bytes : List UInt8}
    {program : Program} (read : ofBytes layout bytes = .ok program) :
    Labelled layout.labelStem program.length (program.instructions.filterMap Instruction.target?) program.scope := by
  obtain ⟨-, -, -, known⟩ := ofBits_eq_ok.mp read
  obtain ⟨scope, made, labelled⟩ := exists_labelTargets layout.labelStem (length_le_of_ofBits read)
  rw [if_pos marks, made] at known
  cases known
  exact labelled

theorem scope_eq_of_ofBytes {layout : Layout} (plain : layout.autoLabels = false) {bytes : List UInt8}
    {program : Program} (read : ofBytes layout bytes = .ok program) : program.scope = {} := by
  obtain ⟨-, -, -, known⟩ := ofBits_eq_ok.mp read
  rw [plain, if_neg Bool.false_ne_true] at known
  exact (pure_eq_ok.mp known).symm

theorem exists_labelled_of_ofBytes {layout : Layout} {bytes : List UInt8} {program : Program}
    (read : ofBytes layout bytes = .ok program) :
    ∃ targets, Labelled layout.labelStem program.length targets program.scope := by
  cases marks : layout.autoLabels with
  | true => exact ⟨_, labelled_of_ofBytes marks read⟩
  | false =>
    rw [scope_eq_of_ofBytes marks read]
    exact ⟨[], by simp [SymbolTable.empty], rfl⟩

theorem ofBits_eq_bind (layout : Layout) (bits : List Bool) :
    ofBits { layout with autoLabels := true } bits =
      ofBits { layout with autoLabels := false } bits >>= fun plain =>
        (labelTargets layout.labelStem plain.instructions).map fun scope => { plain with scope } := by
  simp only [ofBits]
  by_cases whole : bits.length % 32 ≠ 0
  · simp only [if_pos whole]
    rfl
  · by_cases fits : programCapacity < bits.length / 32
    · simp only [if_neg whole, if_pos fits]
      rfl
    · simp only [if_neg whole, if_neg fits]
      cases (Word.takeStream (bits.length / 32) bits).mapM Instruction.ofWord with
      | error fault => rfl
      | ok instructions => cases labelTargets layout.labelStem instructions <;> rfl

theorem eq_targetName_iff {stem name : String} {target : Nat} (small : target < programCapacity) :
    name = targetName stem target ↔ name.toList =
      trimStart (upper stem.toList) ++ [(target / 16).digitChar.toUpper, (target % 16).digitChar.toUpper] := by
  rw [← String.toList_inj, targetName, String.toList_append, String.toList_ofList, Numeral.toList_upperHex small]

/-- Labelling the branch targets is total and exact. Whether an image can be disassembled, to which instructions and
with which fault, does not depend on it; and the labels are those of the branch targets inside the program, each spelled
as the stem in upper case, without blanks in front, and two hexadecimal digits. -/
theorem ofBits_autoLabels (layout : Layout) (bits : List Bool) :
    match ofBits { layout with autoLabels := false } bits with
    | .error fault => ofBits { layout with autoLabels := true } bits = .error fault
    | .ok plain => ∃ scope, ofBits { layout with autoLabels := true } bits = .ok { plain with scope } ∧
        scope.constants = .empty ∧ ∀ name target, (name, target) ∈ scope.labels.entries ↔
          (∃ instruction ∈ plain.instructions, instruction.BranchesTo target) ∧ target < plain.length ∧
            name.toList = trimStart (upper layout.labelStem.toList) ++
              [(target / 16).digitChar.toUpper, (target % 16).digitChar.toUpper] := by
  rw [ofBits_eq_bind]
  cases read : ofBits { layout with autoLabels := false } bits with
  | error fault => rfl
  | ok plain =>
    have fits := length_le_of_ofBits read
    obtain ⟨scope, made, labelled⟩ := exists_labelTargets layout.labelStem fits
    refine ⟨scope, ?_, labelled.constants, ?_⟩
    · rw [ok_bind, made]
      rfl
    · intro name target
      rw [labelled.mem_labels, and_assoc, List.mem_filterMap]
      simp only [Instruction.target?_eq_some]
      refine and_congr_right fun _ => and_congr_right fun inside => ?_
      exact eq_targetName_iff (Nat.lt_of_lt_of_le inside fits)

theorem ofBytes_sound {layout : Layout} {bytes : List UInt8} {program : Program}
    (read : ofBytes layout bytes = .ok program) : program.Sound := by
  obtain ⟨targets, labelled⟩ := exists_labelled_of_ofBytes read
  obtain ⟨-, -, decoded, -⟩ := ofBits_eq_ok.mp read
  have count := length_le_of_ofBits read
  refine ⟨fun instruction member => ?_, count, fun name index bound => ?_⟩
  · obtain ⟨word, -, decoded⟩ := exists_of_mem_mapM decoded member
    exact Instruction.ofWord_legal decoded
  · have inside := ((labelled.mem_labels name index).mp bound).1.2
    omega

theorem Sound.mapM_words {program : Program} (sound : program.Sound) :
    program.words.mapM Instruction.ofWord = .ok program.instructions := by
  rw [mapM_eq_ok, words, List.forall₂_map_left_iff, List.forall₂_same]
  exact fun instruction member => Instruction.ofWord_toWord (sound.legal instruction member)

theorem exists_ofBytes {program : Program} (sound : program.Sound) (layout : Layout) :
    ∃ scope, ofBytes layout program.toBytes = .ok ⟨program.instructions, scope⟩ := by
  have stream : bytesToBits program.toBytes = program.words.flatMap Word.toBits :=
    bytesToBits_flatMap_toBytes program.words
  have count : (program.words.flatMap Word.toBits).length / 32 = program.length := by
    simp [List.length_flatMap, words, length, Function.comp_def]
  have taken : Word.takeStream program.length (program.words.flatMap Word.toBits) = program.words := by
    have := Word.takeStream_flatMap_toBits program.words
    rwa [words, List.length_map] at this
  rw [ofBytes, stream]
  apply exists_ofBits
  · simp [List.length_flatMap]
  · rw [count]
    exact sound.length_le
  · rw [count, taken]
    exact sound.mapM_words

/-- Assembling and disassembling is lossless: the image of an assembled program is always an image of its
instructions, however it is disassembled. -/
theorem ofBytes_toBytes_of_assemble {source : String} {program : Program} (assembled : assemble source = .ok program)
    (layout : Layout) :
    ∃ image, ofBytes layout program.toBytes = .ok image ∧ image.instructions = program.instructions ∧
      image.toBytes = program.toBytes := by
  obtain ⟨scope, read⟩ := exists_ofBytes (assemble_sound assembled) layout
  exact ⟨_, read, rfl, rfl⟩

theorem ofBytes_toBytes_of_range_ends :
    ∃ program, assemble "N: MVI #-262144,PL,NZS\nJMP T0,#127" = .ok program ∧
      program.instructions = [.special (.mvi ⟨.pl, -262144, some .nzs⟩), .special (.jump ⟨some .t0, 127⟩)] ∧
      ∃ image, ofBytes {} program.toBytes = .ok image ∧ image.instructions = program.instructions ∧
        image.toBytes = program.toBytes := by
  have assembled : assemble "N: MVI #-262144,PL,NZS\nJMP T0,#127" =
      .ok ⟨[.special (.mvi ⟨.pl, -262144, some .nzs⟩), .special (.jump ⟨some .t0, 127⟩)],
        { labels := SymbolTable.empty.insert "N" 0 }⟩ := by rfl
  exact ⟨_, assembled, rfl, ofBytes_toBytes_of_assemble assembled {}⟩

end Program

end DspAsm
