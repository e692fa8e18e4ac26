import DspAsm.Proofs.Code.Lookup
import DspAsm.Proofs.Command.Legal
import DspAsm.Proofs.Word.Field

namespace DspAsm
open CodeTable (bits)

/-! ## Slots of a compound instruction -/

namespace Move

def clearIgnored (idle : List Nat) (pattern : Nat) : Nat :=
  if opField.get pattern ∈ idle then sourceField.clear pattern else pattern

theorem clearIgnored_le (idle : List Nat) (pattern : Nat) : clearIgnored idle pattern ≤ pattern := by
  unfold clearIgnored
  split
  · exact Field.clear_le _ _
  · exact le_rfl

variable {Op α : Type} [CodeTable Op]

/-- `ofOp` makes each command from its operation and its source, and the operations without a source are the idle
ones. -/
structure Made (op : α → Op) (source? : α → Option XySource) (ofOp : Op → α ⊕ (XySource → α)) (idle : List Nat) :
    Prop where
  plain : ∀ code command, ofOp code = .inl command ↔ op command = code ∧ source? command = none
  moving : ∀ code source command,
    (∃ move, ofOp code = .inr move ∧ move source = command) ↔ op command = code ∧ source? command = some source
  idle_iff : ∀ command, source? command = none ↔ bits (op command) ∈ idle
  small : ∀ code : Op, bits code < 8

variable {op : α → Op} {source? : α → Option XySource} {ofOp : Op → α ⊕ (XySource → α)} {idle : List Nat}
  {pattern : Nat} {command : α}

theorem sourceBits_lt (source? : Option XySource) : source?.elim 0 bits < 8 := by
  cases source? with
  | none => decide
  | some source => exact CodeTable.bits_lt source

theorem encode_lt (made : Made op source? ofOp idle) (command : α) : encode (op command) (source? command) < 64 := by
  have op_lt := made.small (op command)
  have source_lt := sourceBits_lt (source? command)
  simp only [encode, opField, sourceField, Field.put_mk]
  omega

variable [LawfulCodeTable Op]

theorem decode_eq_ok_fields (made : Made op source? ofOp idle) :
    decode ofOp pattern = .ok command ↔ bits (op command) = opField.get pattern ∧
      ∀ source ∈ source? command, bits source = sourceField.get pattern := by
  simp only [decode, bind_eq_ok, CodeTable.decode_eq_ok]
  constructor
  · rintro ⟨code, hop, read⟩
    cases found : ofOp code with
    | inl plain =>
      rw [found] at read
      obtain rfl := pure_eq_ok.mp read
      obtain ⟨rfl, none⟩ := (made.plain _ _).mp found
      exact ⟨hop, by simp [none]⟩
    | inr move =>
      simp only [found, bind_eq_ok, CodeTable.decode_eq_ok, pure_eq_ok] at read
      obtain ⟨source, hsource, moved⟩ := read
      obtain ⟨rfl, some⟩ := (made.moving _ _ _).mp ⟨move, found, moved⟩
      exact ⟨hop, by simpa [some] using hsource⟩
  · rintro ⟨hop, hsource⟩
    refine ⟨op command, hop, ?_⟩
    cases has : source? command with
    | none =>
      rw [(made.plain _ _).mpr ⟨rfl, has⟩]
      rfl
    | some source =>
      obtain ⟨move, found, moved⟩ := (made.moving _ _ _).mpr ⟨rfl, has⟩
      simp only [found, bind_eq_ok, CodeTable.decode_eq_ok, pure_eq_ok]
      exact ⟨source, hsource source has, moved⟩

theorem decode_eq_ok (made : Made op source? ofOp idle) (fits : pattern < 64) :
    decode ofOp pattern = .ok command ↔ encode (op command) (source? command) = clearIgnored idle pattern := by
  have op_lt := made.small (op command)
  have idle_iff := made.idle_iff command
  rw [decode_eq_ok_fields made]
  simp only [encode, clearIgnored, opField, sourceField, Field.get_mk, Field.put_mk, Field.clear_mk]
  cases has : source? command with
  | none =>
    -- With the operation of the pattern, the command has no source to compare.
    have among : bits (op command) ∈ idle := idle_iff.mp has
    simp only [Option.elim, Option.mem_def, reduceCtorEq, false_implies, implies_true, and_true]
    split
    · omega
    · rename_i used
      have other : bits (op command) ≠ pattern / 2 ^ 3 % 2 ^ 3 := fun same => used (same ▸ among)
      omega
  | some source =>
    have source_lt : bits source < 8 := CodeTable.bits_lt source
    have used : bits (op command) ∉ idle := fun among => by simp [idle_iff.mpr among] at has
    simp only [Option.elim, Option.mem_def, Option.some.injEq, forall_eq']
    split
    · rename_i among
      have other : bits (op command) ≠ pattern / 2 ^ 3 % 2 ^ 3 := fun same => used (same ▸ among)
      omega
    · omega

theorem decode_encode (made : Made op source? ofOp idle) (command : α) :
    decode ofOp (encode (op command) (source? command)) = .ok command := by
  have op_lt := made.small (op command)
  have source_lt := sourceBits_lt (source? command)
  rw [decode_eq_ok_fields made]
  simp only [encode, opField, sourceField, Field.get_mk, Field.put_mk]
  constructor
  · omega
  · intro source has
    rw [Option.mem_def.mp has] at source_lt ⊢
    simp only [Option.elim] at source_lt ⊢
    omega

end Move

namespace XBus

theorem made : Move.Made op source? ofOp [0b000, 0b010] where
  plain code command := by cases code <;> cases command <;> simp [ofOp, op, source?]
  moving code source command := by cases code <;> cases command <;> simp [ofOp, op, source?, eq_comm]
  idle_iff command := by cases command <;> simp [op, source?, bits]
  small := CodeTable.bits_lt

theorem encode_lt (command : XBus) : command.encode < 64 :=
  Move.encode_lt made command

theorem decode_eq_ok {pattern : Nat} (fits : pattern < 64) {command : XBus} :
    decode pattern = .ok command ↔ command.encode = Move.clearIgnored [0b000, 0b010] pattern :=
  Move.decode_eq_ok made fits

theorem decode_encode (command : XBus) : decode command.encode = .ok command :=
  Move.decode_encode made command

end XBus

namespace YBus

theorem made : Move.Made op source? ofOp [0b000, 0b001, 0b010] where
  plain code command := by cases code <;> cases command <;> simp [ofOp, op, source?]
  moving code source command := by cases code <;> cases command <;> simp [ofOp, op, source?, eq_comm]
  idle_iff command := by cases command <;> simp [op, source?, bits]
  small := CodeTable.bits_lt

theorem encode_lt (command : YBus) : command.encode < 64 :=
  Move.encode_lt made command

theorem decode_eq_ok {pattern : Nat} (fits : pattern < 64) {command : YBus} :
    decode pattern = .ok command ↔ command.encode = Move.clearIgnored [0b000, 0b001, 0b010] pattern :=
  Move.decode_eq_ok made fits

theorem decode_encode (command : YBus) : decode command.encode = .ok command :=
  Move.decode_encode made command

end YBus

namespace D1Bus

/-- The pattern without the operands of an idle bus, and without what stands between a source and the destination. -/
def clearIgnored (pattern : Nat) : Nat :=
  if opField.get pattern = 0b00 then (⟨0, 12⟩ : Field).clear pattern
  else if opField.get pattern = 0b11 then (⟨4, 4⟩ : Field).clear pattern
  else pattern

theorem clearIgnored_le (pattern : Nat) : clearIgnored pattern ≤ pattern := by
  unfold clearIgnored
  split_ifs
  · exact Field.clear_le _ _
  · exact Field.clear_le _ _
  · exact le_rfl

theorem encode_lt (command : D1Bus) : command.encode < 16384 := by
  simp only [encode, opField, destinationField, immediateField, sourceField, Field.put_mk]
  cases command with
  | nop => decide
  | movImm immediate destination =>
    have hop : bits (movImm immediate destination).op = 1 := rfl
    have hdestination : bits destination < 16 := CodeTable.bits_lt destination
    have himmediate := immediate.toNat_lt
    simp only [hop]
    omega
  | movSrc source destination =>
    have hop : bits (movSrc source destination).op = 3 := rfl
    have hdestination : bits destination < 16 := CodeTable.bits_lt destination
    have hsource : bits source < 16 := CodeTable.bits_lt source
    simp only [hop]
    omega

def HeldIn (pattern : Nat) : D1Bus → Prop
  | nop => opField.get pattern = 0b00
  | movImm immediate destination =>
    opField.get pattern = 0b01 ∧ destinationField.get pattern = bits destination ∧
      immediateField.get pattern = immediate.toNat
  | movSrc source destination =>
    opField.get pattern = 0b11 ∧ destinationField.get pattern = bits destination ∧
      sourceField.get pattern = bits source

theorem decode_eq_ok_fields {pattern : Nat} {command : D1Bus} :
    decode pattern = .ok command ↔ HeldIn pattern command := by
  simp only [decode, bind_eq_ok, CodeTable.decode_eq_ok]
  constructor
  · rintro ⟨op, hop, h⟩
    cases op <;> simp only [bind_eq_ok, CodeTable.decode_eq_ok, pure_eq_ok] at h
    case nop =>
      subst h
      exact hop.symm
    case movImmDst =>
      obtain ⟨destination, hdestination, rfl⟩ := h
      refine ⟨hop.symm, hdestination.symm, ?_⟩
      have small : immediateField.get pattern < 256 := Nat.mod_lt _ (by decide)
      exact (Nat.mod_eq_of_lt small).symm
    case movSrcDst =>
      obtain ⟨source, hsource, destination, hdestination, rfl⟩ := h
      exact ⟨hop.symm, hdestination.symm, hsource.symm⟩
  · intro reads
    cases command with
    | nop => exact ⟨.nop, reads.symm, rfl⟩
    | movImm immediate destination =>
      obtain ⟨hop, hdestination, himmediate⟩ := reads
      refine ⟨.movImmDst, hop.symm, ?_⟩
      simp only [bind_eq_ok, CodeTable.decode_eq_ok, pure_eq_ok]
      exact ⟨destination, hdestination.symm, by rw [himmediate, UInt8.ofNat_toNat]⟩
    | movSrc source destination =>
      obtain ⟨hop, hdestination, hsource⟩ := reads
      refine ⟨.movSrcDst, hop.symm, ?_⟩
      simp only [bind_eq_ok, CodeTable.decode_eq_ok, pure_eq_ok]
      exact ⟨source, hsource.symm, destination, hdestination.symm, rfl⟩

theorem decode_eq_ok {pattern : Nat} (fits : pattern < 16384) {command : D1Bus} :
    decode pattern = .ok command ↔ command.encode = clearIgnored pattern := by
  rw [decode_eq_ok_fields]
  cases command <;>
    simp only [HeldIn, encode, op, clearIgnored, opField, destinationField, immediateField, sourceField,
      Field.get_mk, Field.put_mk, Field.clear_mk]
  case nop =>
    have hop : bits D1Op.nop = 0 := rfl
    rw [hop]
    split_ifs <;> omega
  case movImm immediate destination =>
    have hdestination : bits destination < 16 := CodeTable.bits_lt destination
    have himmediate := immediate.toNat_lt
    have hop : bits D1Op.movImmDst = 1 := rfl
    rw [hop]
    split_ifs <;> omega
  case movSrc source destination =>
    have hdestination : bits destination < 16 := CodeTable.bits_lt destination
    have hsource : bits source < 16 := CodeTable.bits_lt source
    have hop : bits D1Op.movSrcDst = 3 := rfl
    rw [hop]
    split_ifs <;> omega

theorem decode_encode (command : D1Bus) : decode command.encode = .ok command := by
  rw [decode_eq_ok_fields]
  cases command <;>
    simp only [HeldIn, encode, op, opField, destinationField, immediateField, sourceField, Field.get_mk, Field.put_mk]
  case nop => rfl
  case movImm immediate destination =>
    have hdestination : bits destination < 16 := CodeTable.bits_lt destination
    have himmediate := immediate.toNat_lt
    have hop : bits D1Op.movImmDst = 1 := rfl
    rw [hop]
    omega
  case movSrc source destination =>
    have hdestination : bits destination < 16 := CodeTable.bits_lt destination
    have hsource : bits source < 16 := CodeTable.bits_lt source
    have hop : bits D1Op.movSrcDst = 3 := rfl
    rw [hop]
    omega

end D1Bus

/-! ## Special commands -/

theorem Lone.decode_eq_ok {Op : Type} [CodeTable Op] [LawfulCodeTable Op] {op : Op} (small : bits op < 32) {word : Nat}
    (fits : word < 2 ^ 32) : decode word = .ok op ↔ encode op = (⟨0, 27⟩ : Field).clear word := by
  rw [decode, CodeTable.decode_eq_ok]
  simp only [encode, opField, Field.get_mk, Field.put_mk, Field.clear_mk]
  omega

theorem Field.get_top (width : Nat) {low high word : Nat} (whole : low + width = 32) (small : high < 2 ^ width)
    (top : word / 2 ^ low = high) : word < 2 ^ 32 ∧ (⟨low, width⟩ : Field).get word = high := by
  constructor
  · rw [← whole, pow_add, mul_comm]
    exact Nat.lt_mul_of_div_lt (top ▸ small) (Nat.two_pow_pos low)
  · rw [get_mk, top, Nat.mod_eq_of_lt small]

namespace Dma

theorem encode_div (command : Dma) : command.encode / 2 ^ 28 = opcode := by
  have hold_lt : command.hold.toNat < 2 := command.hold.toNat_lt
  have mode_lt : bits command.countMode < 2 := CodeTable.bits_lt command.countMode
  have direction_lt : bits command.direction < 2 := CodeTable.bits_lt command.direction
  have pointer_lt : bits command.pointer < 8 := CodeTable.bits_lt command.pointer
  have count_lt : encodeCount command.count < 256 := by
    cases command.count with
    | immediate length => simpa [encodeCount, lengthField, Field.put_mk] using length.toNat_lt
    | referenced counter =>
      have counter_lt : bits counter < 8 := CodeTable.bits_lt counter
      simp only [encodeCount, counterField, Field.put_mk]
      omega
  simp only [encode, opcode, opcodeField, addModeField, holdField, countModeField, directionField, pointerField,
    Field.put_mk]
  omega

def ignoredFields (word : Nat) : List Field :=
  ⟨11, 1⟩ :: if (⟨13, 1⟩ : Field).get word = 1 then [⟨0, 5⟩] else []

theorem decodeCount_eq_ok {word : Nat} {count : DmaCount} :
    decodeCount word = .ok count ↔
      match count with
      | .immediate length => countModeField.get word = 0 ∧ lengthField.get word = length.toNat
      | .referenced counter => countModeField.get word = 1 ∧ counterField.get word = bits counter := by
  simp only [decodeCount, bind_eq_ok, CodeTable.decode_eq_ok]
  constructor
  · rintro ⟨mode, hmode, h⟩
    cases mode <;> simp only [bind_eq_ok, CodeTable.decode_eq_ok, pure_eq_ok] at h
    case immediate =>
      subst h
      have small : lengthField.get word < 256 := Nat.mod_lt _ (by decide)
      exact ⟨hmode.symm, (Nat.mod_eq_of_lt small).symm⟩
    case referenced =>
      obtain ⟨counter, hcounter, rfl⟩ := h
      exact ⟨hmode.symm, hcounter.symm⟩
  · intro reads
    cases count with
    | immediate length =>
      refine ⟨.immediate, reads.1.symm, ?_⟩
      rw [pure_eq_ok, reads.2, UInt8.ofNat_toNat]
    | referenced counter =>
      refine ⟨.referenced, reads.1.symm, ?_⟩
      simp only [bind_eq_ok, CodeTable.decode_eq_ok, pure_eq_ok]
      exact ⟨counter, reads.2.symm, rfl⟩

theorem decode_eq_ok_fields {word : Nat} {command : Dma} :
    decode word = .ok command ↔ command.Legal ∧ opcodeField.get word = opcode ∧ paddingField.get word = 0 ∧
      addModeField.get word = 1 ∧ holdField.get word = command.hold.toNat ∧
      directionField.get word = bits command.direction ∧ pointerField.get word = bits command.pointer ∧
      decodeCount word = .ok command.count := by
  simp only [decode, check_eq_ok, bind_eq_ok, CodeTable.decode_eq_ok, pure_eq_ok, not_not]
  constructor
  · rintro ⟨hopcode, hpadding, hmode, direction, hdirection, pointer, hpointer, allowed, count, hcount, rfl⟩
    have hold_lt : holdField.get word < 2 := Nat.mod_lt _ (by decide)
    refine ⟨⟨rfl, allowed⟩, hopcode, hpadding, hmode, ?_, hdirection.symm, hpointer.symm, hcount⟩
    by_cases held : holdField.get word = 1
    · simp [held]
    · simp [held]
      omega
  · rintro ⟨⟨mode, allowed⟩, hopcode, hpadding, hmode, hhold, hdirection, hpointer, hcount⟩
    refine ⟨hopcode, hpadding, hmode, command.direction, hdirection.symm, command.pointer, hpointer.symm, allowed,
      command.count, hcount, ?_⟩
    obtain ⟨hold, addMode, direction, pointer, count⟩ := command
    subst mode
    cases hold <;> simp_all [plainAddMode]

theorem decode_eq_ok {word : Nat} (fits : word < 2 ^ 32) (format : opcodeField.get word = opcode)
    {command : Dma} :
    decode word = .ok command ↔
      command.Legal ∧ command.encode = (ignoredFields word).foldr Field.clear word := by
  have hold_lt : command.hold.toNat < 2 := command.hold.toNat_lt
  have direction_lt : bits command.direction < 2 := CodeTable.bits_lt command.direction
  have pointer_lt : bits command.pointer < 8 := CodeTable.bits_lt command.pointer
  rw [decode_eq_ok_fields, decodeCount_eq_ok]
  refine and_congr_right fun legal => ?_
  have hmode : command.addMode.toNat % 8 = 1 := by rw [legal.1]; rfl
  simp only [encode, hmode, encodeCount, countMode, ignoredFields, opcode, opcodeField, paddingField, addModeField,
    holdField, countModeField, directionField, pointerField, lengthField, counterField, Field.get_mk,
    Field.put_mk] at format ⊢
  cases command.count with
  | immediate length =>
    have length_lt := length.toNat_lt
    have himmediate : bits DmaCountMode.immediate = 0 := rfl
    simp only [himmediate]
    split_ifs
    · simp only [List.foldr, Field.clear_mk]
      omega
    · simp only [List.foldr, Field.clear_mk]
      omega
  | referenced counter =>
    have counter_lt : bits counter < 8 := CodeTable.bits_lt counter
    have hreferenced : bits DmaCountMode.referenced = 1 := rfl
    simp only [hreferenced]
    split_ifs
    · simp only [List.foldr, Field.clear_mk]
      omega
    · simp only [List.foldr, Field.clear_mk]
      omega

theorem decode_encode {command : Dma} (legal : command.Legal) : decode command.encode = .ok command := by
  have hold_lt : command.hold.toNat < 2 := command.hold.toNat_lt
  have direction_lt : bits command.direction < 2 := CodeTable.bits_lt command.direction
  have pointer_lt : bits command.pointer < 8 := CodeTable.bits_lt command.pointer
  have hmode : command.addMode.toNat % 8 = 1 := by rw [legal.1]; rfl
  rw [decode_eq_ok_fields, decodeCount_eq_ok]
  refine ⟨legal, ?_⟩
  simp only [encode, hmode, encodeCount, countMode, opcode, opcodeField, paddingField, addModeField, holdField,
    countModeField, directionField, pointerField, lengthField, counterField, Field.get_mk, Field.put_mk]
  cases command.count with
  | immediate length =>
    have length_lt := length.toNat_lt
    have himmediate : bits DmaCountMode.immediate = 0 := rfl
    simp only [himmediate]
    omega
  | referenced counter =>
    have counter_lt : bits counter < 8 := CodeTable.bits_lt counter
    have hreferenced : bits DmaCountMode.referenced = 1 := rfl
    simp only [hreferenced]
    omega

end Dma

namespace Mvi

/-- The operands of a load leave its opcode alone, also an immediate that does not fit. -/
theorem encode_div (command : Mvi) : command.encode / 2 ^ 30 = opcode := by
  have destination_lt : bits command.destination < 16 := CodeTable.bits_lt command.destination
  have long_lt := lowBits_lt 25 command.immediate
  have short_lt := lowBits_lt 19 command.immediate
  simp only [encode, opcode, opcodeField, destinationField, conditionalField, conditionField, longField, shortField,
    Field.put_mk]
  cases command.condition with
  | none =>
    simp only
    omega
  | some condition =>
    have condition_lt : bits condition < 64 := CodeTable.bits_lt condition
    simp only
    omega

theorem decode_eq_ok_fields {word : Nat} {command : Mvi} :
    decode word = .ok command ↔ command.Legal ∧ opcodeField.get word = opcode ∧
      destinationField.get word = bits command.destination ∧
      match command.condition with
      | none => conditionalField.get word = 0 ∧ longField.get word = lowBits 25 command.immediate
      | some condition =>
        conditionalField.get word = 1 ∧ conditionField.get word = bits condition ∧
          shortField.get word = lowBits 19 command.immediate := by
  have flag_lt : conditionalField.get word < 2 := Nat.mod_lt _ (by decide)
  have long_lt : longField.get word < 2 ^ 25 := Nat.mod_lt _ (by decide)
  have short_lt : shortField.get word < 2 ^ 19 := Nat.mod_lt _ (by decide)
  simp only [decode, check_eq_ok, bind_eq_ok, CodeTable.decode_eq_ok, not_not]
  constructor
  · rintro ⟨hopcode, destination, hdestination, h⟩
    split at h
    · rename_i conditional
      simp only [bind_eq_ok, CodeTable.decode_eq_ok, pure_eq_ok] at h
      obtain ⟨condition, hcondition, rfl⟩ := h
      have signed := (signedValue_eq_iff (by decide) short_lt).mp rfl
      refine ⟨by simpa [Legal] using signed.1, hopcode, hdestination.symm, ?_⟩
      simp only [signed.2]
      exact ⟨conditional, hcondition.symm, trivial⟩
    · rename_i plain
      rw [pure_eq_ok] at h
      subst h
      have signed := (signedValue_eq_iff (by decide) long_lt).mp rfl
      refine ⟨by simpa [Legal] using signed.1, hopcode, hdestination.symm, ?_⟩
      simp only [signed.2]
      exact ⟨by omega, trivial⟩
  · obtain ⟨destination, immediate, condition⟩ := command
    rintro ⟨legal, hopcode, hdestination, reads⟩
    refine ⟨hopcode, destination, hdestination.symm, ?_⟩
    cases condition with
    | none =>
      have signed := (signedValue_eq_iff (by decide) long_lt).mpr ⟨by simpa [Legal] using legal, reads.2.symm⟩
      rw [if_neg (by omega), pure_eq_ok, signed]
    | some condition =>
      have signed := (signedValue_eq_iff (by decide) short_lt).mpr ⟨by simpa [Legal] using legal, reads.2.2.symm⟩
      simp only [if_pos reads.1, bind_eq_ok, CodeTable.decode_eq_ok, pure_eq_ok]
      exact ⟨condition, reads.2.1.symm, by rw [signed]⟩

theorem decode_eq_ok {word : Nat} (fits : word < 2 ^ 32) (format : opcodeField.get word = opcode)
    {command : Mvi} : decode word = .ok command ↔ command.Legal ∧ command.encode = word := by
  have destination_lt : bits command.destination < 16 := CodeTable.bits_lt command.destination
  rw [decode_eq_ok_fields]
  refine and_congr_right fun legal => ?_
  simp only [encode, opcode, opcodeField, destinationField, conditionalField, conditionField, longField, shortField,
    Field.get_mk, Field.put_mk] at format ⊢
  cases command.condition with
  | none =>
    have immediate_lt := lowBits_lt 25 command.immediate
    simp only
    omega
  | some condition =>
    have condition_lt : bits condition < 64 := CodeTable.bits_lt condition
    have immediate_lt := lowBits_lt 19 command.immediate
    simp only
    omega

theorem decode_encode {command : Mvi} (legal : command.Legal) : decode command.encode = .ok command := by
  obtain ⟨fits, format⟩ := Field.get_top 2 rfl (by decide) command.encode_div
  exact (decode_eq_ok fits format).mpr ⟨legal, rfl⟩

end Mvi

theorem Condition.decodeJump_eq_ok {pattern : Nat} (fits : pattern < 128) {condition : Condition} :
    decodeJump pattern = .ok condition ↔ pattern = condition.jumpBits := by
  have condition_lt : bits condition < 64 := CodeTable.bits_lt condition
  have found : ofJumpBits? pattern = some condition ↔ pattern = condition.jumpBits := by
    simp only [ofJumpBits?, jumpBits, ite_eq_iff, CodeTable.ofBits?_eq_some, reduceCtorEq, and_false, or_false]
    omega
  rw [← found, decodeJump]
  cases ofJumpBits? pattern <;> simp

namespace Jump

theorem decodeCondition_eq_ok {pattern : Nat} (fits : pattern < 128) {condition : Option Condition} :
    decodeCondition pattern = .ok condition ↔ pattern = condition.elim 0 Condition.jumpBits := by
  unfold decodeCondition
  cases condition with
  | none =>
    split
    · simp_all
    · simp_all [map_eq_ok]
  | some condition =>
    have nonzero : condition.jumpBits ≠ 0 := by simp [Condition.jumpBits]
    split
    · simp_all
      omega
    · simp [map_eq_ok, Condition.decodeJump_eq_ok fits]

theorem decode_eq_ok_fields {word : Nat} {command : Jump} :
    decode word = .ok command ↔ command.Legal ∧ opcodeField.get word = opcode ∧
      highPaddingField.get word = 0 ∧ lowPaddingField.get word = 0 ∧
      conditionField.get word = command.condition.elim 0 Condition.jumpBits ∧
      targetField.get word = command.target.toNat := by
  have condition_lt : conditionField.get word < 128 := Nat.mod_lt _ (by decide)
  have target_lt : targetField.get word < 128 := Nat.mod_lt _ (by decide)
  have target_eq : (UInt8.ofNat (targetField.get word)).toNat = targetField.get word :=
    Nat.mod_eq_of_lt (by omega)
  simp only [decode, check_eq_ok, bind_eq_ok, pure_eq_ok, decodeCondition_eq_ok condition_lt, not_not, not_or]
  constructor
  · rintro ⟨hopcode, padding, condition, hcondition, rfl⟩
    refine ⟨?_, hopcode, padding.1, padding.2, hcondition, target_eq.symm⟩
    rw [Legal, UInt8.le_iff_toNat_le, target_eq]
    exact Nat.le_of_lt_succ target_lt
  · rintro ⟨-, hopcode, high, low, hcondition, htarget⟩
    exact ⟨hopcode, ⟨high, low⟩, command.condition, hcondition, by rw [htarget, UInt8.ofNat_toNat]⟩

theorem conditionBits_lt (condition : Option Condition) : condition.elim 0 Condition.jumpBits < 128 := by
  cases condition with
  | none => decide
  | some condition =>
    have condition_lt : bits condition < 64 := CodeTable.bits_lt condition
    simp only [Option.elim, Condition.jumpBits]
    omega

theorem encode_div (command : Jump) : command.encode / 2 ^ 28 = opcode := by
  have condition_lt := conditionBits_lt command.condition
  have target_lt := command.target.toNat_lt
  simp only [encode, opcode, opcodeField, conditionField, targetField, Field.put_mk]
  omega

theorem decode_eq_ok {word : Nat} (fits : word < 2 ^ 32) (format : opcodeField.get word = opcode)
    {command : Jump} : decode word = .ok command ↔ command.Legal ∧ command.encode = word := by
  have condition_lt := conditionBits_lt command.condition
  rw [decode_eq_ok_fields]
  refine and_congr_right fun legal => ?_
  have target_lt : command.target.toNat ≤ 127 := UInt8.le_iff_toNat_le.mp legal
  simp only [encode, opcode, opcodeField, highPaddingField, lowPaddingField, conditionField, targetField,
    Field.get_mk, Field.put_mk] at format ⊢
  omega

theorem decode_encode {command : Jump} (legal : command.Legal) : decode command.encode = .ok command := by
  obtain ⟨fits, format⟩ := Field.get_top 4 rfl (by decide) command.encode_div
  exact (decode_eq_ok fits format).mpr ⟨legal, rfl⟩

end Jump

end DspAsm
