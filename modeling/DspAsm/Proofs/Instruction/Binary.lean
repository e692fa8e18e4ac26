import DspAsm.Proofs.Command.Binary

namespace DspAsm
open CodeTable (bits)

/-! ## Ignored fields -/

def Slots.ignoredFields (word : Nat) : List Field :=
  (if (⟨23, 3⟩ : Field).get word ∈ [0b000, 0b010] then [⟨20, 3⟩] else []) ++
  (if (⟨17, 3⟩ : Field).get word ∈ [0b000, 0b001, 0b010] then [⟨14, 3⟩] else []) ++
  (if (⟨12, 2⟩ : Field).get word = 0b00 then [⟨0, 12⟩]
    else if (⟨12, 2⟩ : Field).get word = 0b11 then [⟨4, 4⟩] else [])

def ignoredFields (word : Nat) : List Field :=
  if (⟨29, 3⟩ : Field).get word = 0b111 then [⟨0, 27⟩]
  else if (⟨28, 4⟩ : Field).get word = 0b1100 then Dma.ignoredFields word
  else if (⟨30, 2⟩ : Field).get word = 0b00 then Slots.ignoredFields word
  else []

def clearIgnored (word : Nat) : Nat :=
  (ignoredFields word).foldr Field.clear word

theorem testBit_foldr_clear (fields : List Field) (word i : Nat) :
    (fields.foldr Field.clear word).testBit i =
      (word.testBit i && fields.all fun field => !decide (field.low ≤ i ∧ i < field.low + field.width)) := by
  induction fields with
  | nil => simp
  | cons field fields ih =>
    rw [List.foldr_cons, Field.testBit_clear, ih, List.all_cons, Bool.and_assoc, Bool.and_comm (List.all _ _)]

theorem testBit_clearIgnored (word i : Nat) :
    (clearIgnored word).testBit i = (word.testBit i &&
      (ignoredFields word).all fun field => !decide (field.low ≤ i ∧ i < field.low + field.width)) :=
  testBit_foldr_clear (ignoredFields word) word i

/-! ## Compound words -/

namespace Slots

theorem clear_source {idle : List Nat} {place high slot rest : Nat} (slot_lt : slot < 2 ^ 6)
    (rest_lt : rest < 2 ^ place) :
    (if Move.opField.get slot ∈ idle then [(⟨place, 3⟩ : Field)] else []).foldr Field.clear
        ((high * 2 ^ 6 + slot) * 2 ^ place + rest) =
      (high * 2 ^ 6 + Move.clearIgnored idle slot) * 2 ^ place + rest := by
  have below : (⟨0 + place, 3⟩ : Field).clear ((high * 2 ^ 6 + slot) * 2 ^ place + rest) =
      (⟨0, 3⟩ : Field).clear (high * 2 ^ 6 + slot) * 2 ^ place + rest := Field.clear_below rest_lt
  rw [Nat.zero_add, Field.clear_above (by decide) slot_lt] at below
  unfold Move.clearIgnored
  split
  · exact below
  · rfl

theorem clear_operands {high slot : Nat} (slot_lt : slot < 2 ^ 14) :
    (if D1Bus.opField.get slot = 0b00 then [(⟨0, 12⟩ : Field)]
      else if D1Bus.opField.get slot = 0b11 then [⟨4, 4⟩] else []).foldr Field.clear (high * 2 ^ 14 + slot) =
      high * 2 ^ 14 + D1Bus.clearIgnored slot := by
  unfold D1Bus.clearIgnored
  split_ifs
  · exact Field.clear_above (by decide) slot_lt
  · exact Field.clear_above (by decide) slot_lt
  · rfl

theorem clear_ignoredFields (word : Nat) :
    (ignoredFields word).foldr Field.clear word =
      (word / 2 ^ 26 * 2 ^ 6 + Move.clearIgnored [0b000, 0b010] (xBusField.get word)) * 2 ^ 20 +
        (Move.clearIgnored [0b000, 0b001, 0b010] (yBusField.get word) * 2 ^ 14 +
          D1Bus.clearIgnored (d1BusField.get word)) := by
  -- The operation fields are those of the slots, so each slot clears what the word clears in its place.
  have xOp : (⟨23, 3⟩ : Field).get word = Move.opField.get (xBusField.get word) := by
    simp only [Move.opField, xBusField, Field.get_mk]
    omega
  have yOp : (⟨17, 3⟩ : Field).get word = Move.opField.get (yBusField.get word) := by
    simp only [Move.opField, yBusField, Field.get_mk]
    omega
  have d1Op : (⟨12, 2⟩ : Field).get word = D1Bus.opField.get (d1BusField.get word) := by
    simp only [D1Bus.opField, d1BusField, Field.get_mk]
    omega
  have x_lt : xBusField.get word < 2 ^ 6 := Nat.mod_lt _ (by decide)
  have y_lt : yBusField.get word < 2 ^ 6 := Nat.mod_lt _ (by decide)
  have d1_lt : d1BusField.get word < 2 ^ 14 := Nat.mod_lt _ (by decide)
  have word_eq : word = ((word / 2 ^ 26 * 2 ^ 6 + xBusField.get word) * 2 ^ 6 + yBusField.get word) * 2 ^ 14 +
      d1BusField.get word := by
    simp only [xBusField, yBusField, d1BusField, Field.get_mk]
    omega
  simp only [ignoredFields, xOp, yOp, d1Op, List.foldr_append]
  generalize word / 2 ^ 26 = alu, xBusField.get word = x, yBusField.get word = y, d1BusField.get word = d1 at *
  have y_le := Move.clearIgnored_le [0b000, 0b001, 0b010] y
  have d1_le := D1Bus.clearIgnored_le d1
  rw [word_eq, clear_operands d1_lt, clear_source y_lt (d1_le.trans_lt d1_lt)]
  rw [show ((alu * 2 ^ 6 + x) * 2 ^ 6 + Move.clearIgnored [0b000, 0b001, 0b010] y) * 2 ^ 14 + D1Bus.clearIgnored d1 =
    (alu * 2 ^ 6 + x) * 2 ^ 20 + (Move.clearIgnored [0b000, 0b001, 0b010] y * 2 ^ 14 + D1Bus.clearIgnored d1) by omega]
  exact clear_source x_lt (by omega)

theorem encode_lt (slots : Slots) : slots.encode < 2 ^ 30 := by
  have alu_lt : bits slots.alu < 16 := CodeTable.bits_lt slots.alu
  have x_lt := slots.xBus.encode_lt
  have y_lt := slots.yBus.encode_lt
  have d1_lt := slots.d1Bus.encode_lt
  simp only [encode, aluField, xBusField, yBusField, d1BusField, Field.put_mk]
  omega

theorem decode_eq_ok {word : Nat} (fits : word < 2 ^ 30) {slots : Slots} :
    decode word = .ok slots ↔ slots.encode = (ignoredFields word).foldr Field.clear word := by
  have x_lt : xBusField.get word < 64 := Nat.mod_lt _ (by decide)
  have y_lt : yBusField.get word < 64 := Nat.mod_lt _ (by decide)
  have d1_lt : d1BusField.get word < 16384 := Nat.mod_lt _ (by decide)
  have alu_eq : aluField.get word = word / 2 ^ 26 := by
    simp only [aluField, Field.get_mk]
    omega
  simp only [decode, bind_eq_ok, CodeTable.decode_eq_ok, XBus.decode_eq_ok x_lt, YBus.decode_eq_ok y_lt,
    D1Bus.decode_eq_ok d1_lt, pure_eq_ok, clear_ignoredFields, alu_eq]
  have x_le := (Move.clearIgnored_le [0b000, 0b010] (xBusField.get word)).trans_lt x_lt
  have y_le := (Move.clearIgnored_le [0b000, 0b001, 0b010] (yBusField.get word)).trans_lt y_lt
  have d1_le := (D1Bus.clearIgnored_le (d1BusField.get word)).trans_lt d1_lt
  generalize Move.clearIgnored _ (xBusField.get word) = x at x_le
  generalize Move.clearIgnored _ (yBusField.get word) = y at y_le
  generalize D1Bus.clearIgnored (d1BusField.get word) = d1 at d1_le
  have x_fits := slots.xBus.encode_lt
  have y_fits := slots.yBus.encode_lt
  have d1_fits := slots.d1Bus.encode_lt
  simp only [encode, aluField, xBusField, yBusField, d1BusField, Field.put_mk]
  constructor
  · rintro ⟨alu, halu, xBus, rfl, yBus, rfl, d1Bus, rfl, rfl⟩
    simp only [halu]
    omega
  · intro equal
    exact ⟨slots.alu, by omega, slots.xBus, by omega, slots.yBus, by omega, slots.d1Bus, by omega, rfl⟩

theorem decode_encode (slots : Slots) : decode slots.encode = .ok slots := by
  have alu_lt : bits slots.alu < 16 := CodeTable.bits_lt slots.alu
  have x_lt := slots.xBus.encode_lt
  have y_lt := slots.yBus.encode_lt
  have d1_lt := slots.d1Bus.encode_lt
  have alu_eq : aluField.get slots.encode = bits slots.alu := by
    simp only [encode, aluField, xBusField, yBusField, d1BusField, Field.get_mk, Field.put_mk]
    omega
  have x_eq : xBusField.get slots.encode = slots.xBus.encode := by
    simp only [encode, aluField, xBusField, yBusField, d1BusField, Field.get_mk, Field.put_mk]
    omega
  have y_eq : yBusField.get slots.encode = slots.yBus.encode := by
    simp only [encode, aluField, xBusField, yBusField, d1BusField, Field.get_mk, Field.put_mk]
    omega
  have d1_eq : d1BusField.get slots.encode = slots.d1Bus.encode := by
    simp only [encode, aluField, xBusField, yBusField, d1BusField, Field.get_mk, Field.put_mk]
    omega
  rw [decode, alu_eq, x_eq, y_eq, d1_eq, CodeTable.decode_eq_ok.mpr rfl, XBus.decode_encode, YBus.decode_encode,
    D1Bus.decode_encode]
  rfl

end Slots

/-! ## Formats -/

inductive Format where
  | compound | stop | loop | dma | mvi | jump
  deriving DecidableEq

/-- The format that the five highest bits of a word tell. No instruction starts with `01`. -/
def Format.ofWord? (word : Nat) : Option Format :=
  let top := (⟨27, 5⟩ : Field).get word
  if top < 0b01000 then some compound
  else if top < 0b10000 then none
  else if top < 0b11000 then some mvi
  else if top < 0b11010 then some dma
  else if top < 0b11100 then some jump
  else if top < 0b11110 then some loop
  else some stop

theorem Format.ofWord?_eq_some {word : Nat} {format : Format} :
    ofWord? word = some format ↔
      match format with
      | compound => (⟨27, 5⟩ : Field).get word < 0b01000
      | mvi => 0b10000 ≤ (⟨27, 5⟩ : Field).get word ∧ (⟨27, 5⟩ : Field).get word < 0b11000
      | dma => 0b11000 ≤ (⟨27, 5⟩ : Field).get word ∧ (⟨27, 5⟩ : Field).get word < 0b11010
      | jump => 0b11010 ≤ (⟨27, 5⟩ : Field).get word ∧ (⟨27, 5⟩ : Field).get word < 0b11100
      | loop => 0b11100 ≤ (⟨27, 5⟩ : Field).get word ∧ (⟨27, 5⟩ : Field).get word < 0b11110
      | stop => 0b11110 ≤ (⟨27, 5⟩ : Field).get word := by
  have top_lt : (⟨27, 5⟩ : Field).get word < 32 := Nat.mod_lt _ (by decide)
  simp only [ofWord?]
  generalize (⟨27, 5⟩ : Field).get word = top at top_lt
  cases format <;> interval_cases top <;> decide

def Instruction.format : Instruction → Format
  | compound _ => .compound
  | special (.stop _) => .stop
  | special (.loop _) => .loop
  | special (.dma _) => .dma
  | special (.mvi _) => .mvi
  | special (.jump _) => .jump

namespace Instruction

theorem decode_eq_format (word : Nat) : decode word =
    match Format.ofWord? word with
    | none => .error (.unknownFormat word)
    | some .compound => (Slots.decode word).map compound
    | some .stop => (Lone.decode word).map fun op => special (.stop op)
    | some .loop => (Lone.decode word).map fun op => special (.loop op)
    | some .dma => (Dma.decode word).map fun command => special (.dma command)
    | some .mvi => (Mvi.decode word).map fun command => special (.mvi command)
    | some .jump => (Jump.decode word).map fun command => special (.jump command) := by
  have top2 : (⟨30, 2⟩ : Field).get word = (⟨27, 5⟩ : Field).get word / 8 := by
    simp only [Field.get_mk]
    omega
  have top4 : (⟨28, 4⟩ : Field).get word = (⟨27, 5⟩ : Field).get word / 2 := by
    simp only [Field.get_mk]
    omega
  have top_lt : (⟨27, 5⟩ : Field).get word < 32 := Nat.mod_lt _ (by decide)
  simp only [decode, Format.ofWord?, top2, top4, Dma.opcode, Mvi.opcode, Jump.opcode]
  generalize (⟨27, 5⟩ : Field).get word = top at top_lt
  interval_cases top <;> rfl

theorem encode_lt (instruction : Instruction) : instruction.encode < 2 ^ 32 := by
  match instruction with
  | compound slots =>
    have := slots.encode_lt
    simp only [encode]
    omega
  | special (.stop op) => cases op <;> decide
  | special (.loop op) => cases op <;> decide
  | special (.dma command) =>
    have := command.encode_div
    simp only [encode, Special.encode, Dma.opcode] at *
    omega
  | special (.mvi command) =>
    have := command.encode_div
    simp only [encode, Special.encode, Mvi.opcode] at *
    omega
  | special (.jump command) =>
    have := command.encode_div
    simp only [encode, Special.encode, Jump.opcode] at *
    omega

theorem ofWord?_encode (instruction : Instruction) : Format.ofWord? instruction.encode = some instruction.format := by
  match instruction with
  | compound slots =>
    have top : (⟨27, 5⟩ : Field).get slots.encode < 8 := by
      have := slots.encode_lt
      simp only [Field.get_mk]
      omega
    exact if_pos top
  | special (.stop op) => cases op <;> decide
  | special (.loop op) => cases op <;> decide
  | special (.dma command) =>
    have top : 24 ≤ (⟨27, 5⟩ : Field).get command.encode ∧ (⟨27, 5⟩ : Field).get command.encode < 26 := by
      have := command.encode_div
      simp only [Field.get_mk, Dma.opcode] at *
      omega
    change Format.ofWord? command.encode = some .dma
    dsimp only [Format.ofWord?]
    rw [if_neg (by omega), if_neg (by omega), if_neg (by omega), if_pos top.2]
  | special (.mvi command) =>
    have top : 16 ≤ (⟨27, 5⟩ : Field).get command.encode ∧ (⟨27, 5⟩ : Field).get command.encode < 24 := by
      have := command.encode_div
      simp only [Field.get_mk, Mvi.opcode] at *
      omega
    change Format.ofWord? command.encode = some .mvi
    dsimp only [Format.ofWord?]
    rw [if_neg (by omega), if_neg (by omega), if_pos top.2]
  | special (.jump command) =>
    have top : 26 ≤ (⟨27, 5⟩ : Field).get command.encode ∧ (⟨27, 5⟩ : Field).get command.encode < 28 := by
      have := command.encode_div
      simp only [Field.get_mk, Jump.opcode] at *
      omega
    change Format.ofWord? command.encode = some .jump
    dsimp only [Format.ofWord?]
    rw [if_neg (by omega), if_neg (by omega), if_neg (by omega), if_neg (by omega), if_pos top.2]

theorem format_of_decode {word : Nat} {instruction : Instruction} (read : decode word = .ok instruction) :
    Format.ofWord? word = some instruction.format := by
  rw [decode_eq_format] at read
  split at read
  · cases read
  all_goals
    obtain ⟨command, -, rfl⟩ := map_eq_ok.mp read
    assumption

end Instruction

theorem ignoredFields_below {word : Nat} {field : Field} (member : field ∈ ignoredFields word) :
    field.low + field.width ≤ 27 := by
  have listed : ∀ choice ∈ [(⟨0, 27⟩ : Field), ⟨11, 1⟩, ⟨0, 5⟩, ⟨20, 3⟩, ⟨14, 3⟩, ⟨0, 12⟩, ⟨4, 4⟩],
      choice.low + choice.width ≤ 27 := by simp
  refine listed field ?_
  simp only [ignoredFields, Dma.ignoredFields, Slots.ignoredFields] at member
  grind

theorem clearIgnored_div (word : Nat) : clearIgnored word / 2 ^ 27 = word / 2 ^ 27 := by
  refine Nat.eq_of_testBit_eq fun i => ?_
  rw [Nat.testBit_div_two_pow, Nat.testBit_div_two_pow, testBit_clearIgnored, Bool.and_eq_left_iff_imp]
  intro _
  rw [List.all_eq_true]
  intro field member
  have below := ignoredFields_below member
  simp only [Bool.not_eq_true', decide_eq_false_iff_not]
  omega

theorem Format.ofWord?_clearIgnored (word : Nat) : ofWord? (clearIgnored word) = ofWord? word := by
  have top : (⟨27, 5⟩ : Field).get (clearIgnored word) = (⟨27, 5⟩ : Field).get word := by
    rw [Field.get_mk, Field.get_mk, clearIgnored_div]
  rw [ofWord?, ofWord?, top]

theorem ignoredFields_eq_format (word : Nat) : ignoredFields word =
    match Format.ofWord? word with
    | some .stop | some .loop => [⟨0, 27⟩]
    | some .dma => Dma.ignoredFields word
    | some .compound => Slots.ignoredFields word
    | some .mvi | some .jump | none => [] := by
  have top2 : (⟨30, 2⟩ : Field).get word = (⟨27, 5⟩ : Field).get word / 8 := by
    simp only [Field.get_mk]
    omega
  have top3 : (⟨29, 3⟩ : Field).get word = (⟨27, 5⟩ : Field).get word / 4 := by
    simp only [Field.get_mk]
    omega
  have top4 : (⟨28, 4⟩ : Field).get word = (⟨27, 5⟩ : Field).get word / 2 := by
    simp only [Field.get_mk]
    omega
  have top_lt : (⟨27, 5⟩ : Field).get word < 32 := Nat.mod_lt _ (by decide)
  simp only [ignoredFields, Format.ofWord?, top2, top3, top4]
  generalize (⟨27, 5⟩ : Field).get word = top at top_lt
  interval_cases top <;> rfl

/-! ## Decoding -/

namespace Instruction

theorem decode_eq_ok {word : Nat} (fits : word < 2 ^ 32) {instruction : Instruction} :
    decode word = .ok instruction ↔ instruction.Legal ∧ instruction.encode = clearIgnored word := by
  -- Both sides determine the format of the word, and a format has only one kind of command.
  by_cases same : Format.ofWord? word = some instruction.format
  · have top := Format.ofWord?_eq_some.mp same
    rw [decode_eq_format, clearIgnored, ignoredFields_eq_format, same]
    match instruction with
    | compound slots =>
      have small : word < 2 ^ 30 := by
        simp only [format, Field.get_mk] at top
        omega
      simp [format, map_eq_ok, Slots.decode_eq_ok small, Legal, encode]
    | special (.stop op) =>
      simp [format, map_eq_ok, Lone.decode_eq_ok (CodeTable.bits_lt op) fits, Legal, Special.Legal, encode,
        Special.encode]
    | special (.loop op) =>
      simp [format, map_eq_ok, Lone.decode_eq_ok (CodeTable.bits_lt op) fits, Legal, Special.Legal, encode,
        Special.encode]
    | special (.dma command) =>
      have opcode : Dma.opcodeField.get word = Dma.opcode := by
        simp only [format, Dma.opcodeField, Dma.opcode, Field.get_mk] at top ⊢
        omega
      simp [format, map_eq_ok, Dma.decode_eq_ok fits opcode, Legal, Special.Legal, encode, Special.encode]
    | special (.mvi command) =>
      have opcode : Mvi.opcodeField.get word = Mvi.opcode := by
        simp only [format, Mvi.opcodeField, Mvi.opcode, Field.get_mk] at top ⊢
        omega
      simp [format, map_eq_ok, Mvi.decode_eq_ok fits opcode, Legal, Special.Legal, encode, Special.encode]
    | special (.jump command) =>
      have opcode : Jump.opcodeField.get word = Jump.opcode := by
        simp only [format, Jump.opcodeField, Jump.opcode, Field.get_mk] at top ⊢
        omega
      simp [format, map_eq_ok, Jump.decode_eq_ok fits opcode, Legal, Special.Legal, encode, Special.encode]
  · constructor
    · intro read
      exact absurd (format_of_decode read) same
    · rintro ⟨-, equal⟩
      rw [← Format.ofWord?_clearIgnored, ← equal] at same
      exact absurd (ofWord?_encode instruction) same

theorem decode_encode {instruction : Instruction} (legal : instruction.Legal) :
    decode instruction.encode = .ok instruction := by
  rw [decode_eq_format, ofWord?_encode]
  match instruction with
  | compound slots => exact map_eq_ok.mpr ⟨slots, slots.decode_encode, rfl⟩
  | special (.stop op) =>
    refine map_eq_ok.mpr ⟨op, ?_, rfl⟩
    cases op <;> decide
  | special (.loop op) =>
    refine map_eq_ok.mpr ⟨op, ?_, rfl⟩
    cases op <;> decide
  | special (.dma command) => exact map_eq_ok.mpr ⟨command, Dma.decode_encode legal, rfl⟩
  | special (.mvi command) => exact map_eq_ok.mpr ⟨command, Mvi.decode_encode legal, rfl⟩
  | special (.jump command) => exact map_eq_ok.mpr ⟨command, Jump.decode_encode legal, rfl⟩

theorem ofWord_toWord {instruction : Instruction} (legal : instruction.Legal) :
    ofWord instruction.toWord = .ok instruction := by
  rw [ofWord, toWord, UInt32.toNat_ofNat_of_lt' instruction.encode_lt, decode_encode legal]

theorem ofWord_legal {word : Word} {instruction : Instruction} (read : ofWord word = .ok instruction) :
    instruction.Legal :=
  ((decode_eq_ok word.toNat_lt).mp read).1

theorem ofWord?_toWord (instruction : Instruction) :
    Format.ofWord? instruction.toWord.toNat = some instruction.format := by
  rw [toWord, UInt32.toNat_ofNat_of_lt' instruction.encode_lt, ofWord?_encode]

theorem format_of_ofWord_toWord {instruction decoded : Instruction} (read : ofWord instruction.toWord = .ok decoded) :
    decoded.format = instruction.format := by
  have told : Format.ofWord? instruction.toWord.toNat = some decoded.format := format_of_decode read
  rw [ofWord?_toWord, Option.some.injEq] at told
  exact told.symm

end Instruction

def Word.clearIgnored (word : Word) : Word :=
  UInt32.ofNat (DspAsm.clearIgnored word.toNat)

theorem clearIgnored_le (word : Nat) : clearIgnored word ≤ word := by
  refine Nat.le_of_testBit fun i set => ?_
  rw [testBit_clearIgnored, Bool.and_eq_true] at set
  exact set.1

theorem Instruction.ofWord_eq_ok_iff (word : Word) (instruction : Instruction) :
    ofWord word = .ok instruction ↔ instruction.Legal ∧ instruction.toWord = word.clearIgnored := by
  have fits : word.toNat < 2 ^ 32 := word.toNat_lt
  have cleared := (clearIgnored_le word.toNat).trans_lt fits
  rw [ofWord, decode_eq_ok fits, toWord, Word.clearIgnored, ← UInt32.toNat_inj,
    UInt32.toNat_ofNat_of_lt' instruction.encode_lt, UInt32.toNat_ofNat_of_lt' cleared]

/-- The legal instructions are exactly those that decoding gives back. The word of any other is still one of its own
format, so that it decodes to an instruction of that format or not at all. -/
theorem Instruction.ofWord_toWord_iff (instruction : Instruction) :
    (ofWord instruction.toWord = .ok instruction ↔ instruction.Legal) ∧
      Format.ofWord? instruction.toWord.toNat = some instruction.format ∧
      ∀ decoded, ofWord instruction.toWord = .ok decoded → decoded.format = instruction.format := by
  refine ⟨⟨?_, ?_⟩, instruction.ofWord?_toWord, ?_⟩
  · intro read
    exact ofWord_legal read
  · intro legal
    exact ofWord_toWord legal
  · intro decoded read
    exact format_of_ofWord_toWord read

-- The immediate is one too large, so its highest bit is taken for a sign.
example : Instruction.ofWord (Instruction.special (.mvi ⟨.pc, 0x1000000, none⟩)).toWord =
    .ok (.special (.mvi ⟨.pc, -0x1000000, none⟩)) := by decide +kernel

end DspAsm
