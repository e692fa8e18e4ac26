import DspAsm.Code.Condition
import DspAsm.Code.Operation
import DspAsm.Code.Register
import DspAsm.Command.Binary
import DspAsm.Proofs.Text.Name

namespace DspAsm

class LawfulCodeTable (α : Type) [CodeTable α] : Prop where
  mem_all : ∀ value : α, value ∈ (CodeTable.all : List α)
  nodup_bits : ((CodeTable.all : List α).map CodeTable.bits).Nodup := by decide
  nodup_names : ((CodeTable.all : List α).map CodeTable.name).Nodup := by decide
  bits_lt_of_mem : ∀ value ∈ (CodeTable.all : List α), CodeTable.bits value < 1 <<< CodeTable.width α := by decide
  identifier_of_mem : ∀ value ∈ (CodeTable.all : List α), IsIdentifier (CodeTable.name value) := by decide

namespace CodeTable

variable {α : Type} [CodeTable α] [LawfulCodeTable α]

theorem bits_lt (value : α) : bits value < 1 <<< width α :=
  LawfulCodeTable.bits_lt_of_mem value (LawfulCodeTable.mem_all value)

theorem bits_injective : Function.Injective (bits : α → Nat) := by
  intro first second equal
  exact List.inj_on_of_nodup_map LawfulCodeTable.nodup_bits (LawfulCodeTable.mem_all first)
    (LawfulCodeTable.mem_all second) equal

theorem name_injective : Function.Injective (name : α → String) := by
  intro first second equal
  exact List.inj_on_of_nodup_map LawfulCodeTable.nodup_names (LawfulCodeTable.mem_all first)
    (LawfulCodeTable.mem_all second) equal

theorem isIdentifier_name (value : α) : IsIdentifier (name value) :=
  LawfulCodeTable.identifier_of_mem value (LawfulCodeTable.mem_all value)

theorem find?_key_eq_some {κ : Type} [BEq κ] [LawfulBEq κ] {key : α → κ} (distinct : Function.Injective key)
    {sought : κ} {value : α} :
    ((all : List α).find? fun candidate => key candidate == sought) = some value ↔ key value = sought := by
  constructor
  · intro found
    simpa using List.find?_some found
  · intro equal
    cases found : (all : List α).find? fun candidate => key candidate == sought with
    | none =>
        have absent := List.find?_eq_none.mp found value (LawfulCodeTable.mem_all value)
        simp [equal] at absent
    | some candidate =>
        have same : key candidate = sought := by simpa using List.find?_some found
        rw [distinct (same.trans equal.symm)]

theorem ofBits?_eq_some {pattern : Nat} {value : α} : ofBits? pattern = some value ↔ bits value = pattern :=
  find?_key_eq_some bits_injective

theorem ofName?_eq_some {text : String} {value : α} : ofName? text = some value ↔ name value = text :=
  find?_key_eq_some name_injective

@[simp] theorem ofName?_name (value : α) : ofName? (name value) = some value :=
  ofName?_eq_some.mpr rfl

theorem decode_eq_ok {pattern : Nat} {value : α} : decode pattern = .ok value ↔ bits value = pattern := by
  rw [← ofBits?_eq_some]
  unfold decode
  cases ofBits? (α := α) pattern <;> simp

end CodeTable

instance : LawfulCodeTable D1Op where
  mem_all value := by cases value <;> decide

instance : LawfulCodeTable XOp where
  mem_all value := by cases value <;> decide

instance : LawfulCodeTable YOp where
  mem_all value := by cases value <;> decide

instance : LawfulCodeTable AluOp where
  mem_all value := by cases value <;> decide

instance : LawfulCodeTable EndOp where
  mem_all value := by cases value <;> decide

instance : LawfulCodeTable LoopOp where
  mem_all value := by cases value <;> decide

instance : LawfulCodeTable DmaCountMode where
  mem_all value := by cases value <;> decide

instance : LawfulCodeTable DmaDirection where
  mem_all value := by cases value <;> decide

instance : LawfulCodeTable XySource where
  mem_all value := by cases value <;> decide

instance : LawfulCodeTable D1Source where
  mem_all value := by cases value <;> decide

instance : LawfulCodeTable D1Destination where
  mem_all value := by cases value <;> decide

instance : LawfulCodeTable DmaPointer where
  mem_all value := by cases value <;> decide

instance : LawfulCodeTable DmaCounter where
  mem_all value := by cases value <;> decide

instance : LawfulCodeTable MviDestination where
  mem_all value := by cases value <;> decide

instance : LawfulCodeTable Condition where
  mem_all value := by cases value <;> decide

end DspAsm
