import DspAsm.Proofs.Program.Image

namespace DspAsm

namespace Program

variable {layout : Layout} {bits : List Bool} {bytes : List UInt8} {program : Program} {fault : Fault}

inductive Refuses (bytes : List UInt8) : Fault → Prop
  | ragged (broken : ¬ 4 ∣ bytes.length) : Refuses bytes (.imageLength (8 * bytes.length))
  | tooLarge (whole : 4 ∣ bytes.length) (large : 1024 < bytes.length) :
      Refuses bytes (.programTooLarge (bytes.length / 4))
  | undecodable (whole : 4 ∣ bytes.length) (fits : bytes.length ≤ 1024) {before after : List Word} {word : Word}
      (stream : Word.bigEndian bytes = before ++ word :: after)
      (decoded : ∀ earlier ∈ before, ∃ instruction, Instruction.ofWord earlier = .ok instruction) {fault : Fault}
      (refused : Instruction.ofWord word = .error fault) : Refuses bytes fault

structure StoredIn (layout : Layout) (bytes : List UInt8) (program : Program) : Prop where
  instructions : List.Forall₂ (fun word instruction => Instruction.ofWord word = .ok instruction)
    (Word.bigEndian bytes) program.instructions
  toBytes_eq : program.toBytes = program.words.flatMap Word.toBytes
  words_eq : Word.bigEndian program.toBytes = program.words
  length_eq : program.toBytes.length = 4 * program.length
  length_kept : program.toBytes.length = bytes.length
  restored : ofBytes layout program.toBytes = .ok program

/-! ## Bit streams -/

theorem ofBits_eq_error :
    ofBits layout bits = .error fault ↔
      bits.length % 32 ≠ 0 ∧ .imageLength bits.length = fault ∨
      bits.length % 32 = 0 ∧ (programCapacity < bits.length / 32 ∧ .programTooLarge (bits.length / 32) = fault ∨
        bits.length / 32 ≤ programCapacity ∧
          (Word.takeStream (bits.length / 32) bits).mapM Instruction.ofWord = .error fault) := by
  simp only [ofBits, check_eq_error, bind_eq_error, ne_eq, not_not, Nat.not_lt]
  refine or_congr_right (and_congr_right fun _ => or_congr_right (and_congr_right fun fits => or_iff_left ?_))
  -- What is left is a fault of the labels of a program that has been decoded.
  rintro ⟨instructions, decoded, unlabelled⟩
  obtain ⟨scope, labelled, -⟩ := exists_labelTargets layout.labelStem (length_le_of_mapM fits decoded)
  rw [labelled] at unlabelled
  split at unlabelled <;> cases unlabelled

/-! ## Byte streams -/

theorem ofBytes_eq_error : ofBytes layout bytes = .error fault ↔ Refuses bytes fault := by
  have count : 8 * bytes.length / 32 = bytes.length / 4 := by omega
  rw [ofBytes, ofBits_eq_error, length_bytesToBits, count, Word.takeStream_bytesToBits, mapM_eq_error, programCapacity]
  constructor
  · rintro (⟨broken, rfl⟩ | ⟨whole, ⟨large, rfl⟩ | ⟨fits, before, word, after, stream, decoded, refused⟩⟩)
    · exact .ragged (by omega)
    · exact .tooLarge (by omega) (by omega)
    · exact .undecodable (by omega) (by omega) stream decoded refused
  · intro cause
    cases cause with
    | ragged broken => exact .inl ⟨by omega, rfl⟩
    | tooLarge whole large => exact .inr ⟨by omega, .inl ⟨by omega, rfl⟩⟩
    | undecodable whole fits stream decoded refused =>
      exact .inr ⟨by omega, .inr ⟨by omega, _, _, _, stream, decoded, refused⟩⟩

theorem ofBytes_eq_ok :
    ofBytes layout bytes = .ok program ↔ 4 ∣ bytes.length ∧ bytes.length ≤ 1024 ∧
      (Word.bigEndian bytes).mapM Instruction.ofWord = .ok program.instructions ∧
      (if layout.autoLabels then labelTargets layout.labelStem program.instructions else pure {}) =
        .ok program.scope := by
  have count : 8 * bytes.length / 32 = bytes.length / 4 := by omega
  rw [ofBytes, ofBits_eq_ok, length_bytesToBits, count, Word.takeStream_bytesToBits, programCapacity]
  constructor
  · rintro ⟨whole, fits, read⟩
    exact ⟨by omega, by omega, read⟩
  · rintro ⟨whole, fits, read⟩
    exact ⟨by omega, by omega, read⟩

theorem exists_ofBytes_iff :
    (∃ program, ofBytes layout bytes = .ok program) ↔ 4 ∣ bytes.length ∧ bytes.length ≤ 1024 ∧
      ∀ word ∈ Word.bigEndian bytes, ∃ instruction, Instruction.ofWord word = .ok instruction := by
  constructor
  · rintro ⟨program, read⟩
    obtain ⟨whole, fits, decoded, -⟩ := ofBytes_eq_ok.mp read
    exact ⟨whole, fits, exists_mapM_eq_ok.mp ⟨_, decoded⟩⟩
  · rintro ⟨whole, fits, decoded⟩
    by_contra unread
    obtain ⟨fault, refused⟩ := exists_error_iff.mpr unread
    cases ofBytes_eq_error.mp refused with
    | ragged broken => exact broken whole
    | tooLarge _ large => omega
    | undecodable _ _ stream _ refused =>
      exact exists_error_iff.mp ⟨fault, refused⟩ (decoded _ (by simp [stream]))

/-! ## The image of a disassembled program -/

theorem ofBytes_toBytes (read : ofBytes layout bytes = .ok program) : ofBytes layout program.toBytes = .ok program := by
  obtain ⟨scope, again⟩ := exists_ofBytes (ofBytes_sound read) layout
  obtain ⟨-, -, -, labelled⟩ := ofBytes_eq_ok.mp read
  obtain ⟨-, -, -, relabelled⟩ := ofBytes_eq_ok.mp again
  have same : program.scope = scope := Except.ok.inj (labelled.symm.trans relabelled)
  rw [again, ← same]

theorem storedIn_of_ofBytes (read : ofBytes layout bytes = .ok program) : program.StoredIn layout bytes := by
  obtain ⟨whole, -, decoded, -⟩ := ofBytes_eq_ok.mp read
  have paired := mapM_eq_ok.mp decoded
  have count : program.toBytes.length = 4 * program.length := by
    rw [toBytes, Word.length_flatMap_toBytes, words, List.length_map, length]
  have kept : program.length = bytes.length / 4 := by
    rw [length, ← paired.length_eq, Word.length_bigEndian]
  exact ⟨paired, rfl, Word.bigEndian_flatMap_toBytes _, count, by omega, ofBytes_toBytes read⟩

/-- What an image is. A byte stream can be disassembled exactly when it is a whole number of words, no more than program
RAM holds, that all are instructions, and else the first of these that fails is the fault. The image of the program
is as long and disassembles to the program again, labels included. And it makes no difference whether the
stream is given by its bytes or by its bits. -/
theorem ofBytes_format (layout : Layout) (bytes : List UInt8) :
    ((∃ program, ofBytes layout bytes = .ok program) ↔ 4 ∣ bytes.length ∧ bytes.length ≤ 1024 ∧
      ∀ word ∈ Word.bigEndian bytes, ∃ instruction, Instruction.ofWord word = .ok instruction) ∧
    (∀ fault, ofBytes layout bytes = .error fault ↔ Refuses bytes fault) ∧
    (∀ program, ofBytes layout bytes = .ok program → program.StoredIn layout bytes) ∧
    (∀ bits, MostSignificantFirst bytes bits → ofBits layout bits = ofBytes layout bytes) := by
  refine ⟨exists_ofBytes_iff, fun _ => ofBytes_eq_error, fun _ => storedIn_of_ofBytes, ?_⟩
  intro bits ordered
  rw [ordered.eq_bytesToBits, ofBytes]

/-- A jump to itself and an end with one of its unused bits set, which the image of the program has not. -/
theorem storedIn_of_unused_bit :
    ∃ program, ofBytes {} [0xd0, 0, 0, 0, 0xf0, 0, 0, 1] = .ok program ∧
      program.scope.labels.entries = [("L00", 0)] ∧ program.toBytes = [0xd0, 0, 0, 0, 0xf0, 0, 0, 0] ∧
      program.StoredIn {} [0xd0, 0, 0, 0, 0xf0, 0, 0, 1] := by
  have read : ofBytes {} [0xd0, 0, 0, 0, 0xf0, 0, 0, 1] = .ok
      ⟨[.special (.jump ⟨none, 0⟩), .special (.stop .stop)], { labels := SymbolTable.empty.insert "L00" 0 }⟩ := by rfl
  exact ⟨_, read, rfl, rfl, (ofBytes_format _ _).2.2.1 _ read⟩

end Program

end DspAsm
