import DspAsm.Proofs.Outcome
import DspAsm.Word.Field

namespace DspAsm

namespace Field

theorem get_mk (low width word : Nat) : (⟨low, width⟩ : Field).get word = word / 2 ^ low % 2 ^ width := by
  simp only [get, Nat.shiftRight_eq_div_pow, Nat.shiftLeft_eq, one_mul]

theorem put_mk (low width value : Nat) : (⟨low, width⟩ : Field).put value = value * 2 ^ low := by
  simp only [put, Nat.shiftLeft_eq]

def clear (field : Field) (word : Nat) : Nat :=
  (word >>> (field.low + field.width)) <<< (field.low + field.width) + word % (1 <<< field.low)

theorem clear_mk (low width word : Nat) :
    (⟨low, width⟩ : Field).clear word = word / 2 ^ (low + width) * 2 ^ (low + width) + word % 2 ^ low := by
  simp only [clear, Nat.shiftRight_eq_div_pow, Nat.shiftLeft_eq, one_mul]

theorem testBit_clear (field : Field) (word i : Nat) :
    (field.clear word).testBit i =
      (word.testBit i && !decide (field.low ≤ i ∧ i < field.low + field.width)) := by
  obtain ⟨low, width⟩ := field
  have small : word % 2 ^ low < 2 ^ (low + width) :=
    (Nat.mod_lt _ (Nat.two_pow_pos low)).trans_le (Nat.pow_le_pow_right (by decide) (by omega))
  rw [clear_mk, mul_comm, Nat.testBit_two_pow_mul_add _ small]
  by_cases above : i < low + width
  · by_cases below : i < low
    · have : ¬ low ≤ i := by omega
      simp [above, below, this]
    · have : low ≤ i := by omega
      simp [above, below, this]
  · have place : low + width + (i - (low + width)) = i := by omega
    simp [above, ← Nat.shiftRight_eq_div_pow, Nat.testBit_shiftRight, place]

theorem clear_le (field : Field) (word : Nat) : field.clear word ≤ word := by
  refine Nat.le_of_testBit fun i set => ?_
  rw [testBit_clear, Bool.and_eq_true] at set
  exact set.1

theorem clear_above {low width size high word : Nat} (inside : low + width ≤ size) (fits : word < 2 ^ size) :
    (⟨low, width⟩ : Field).clear (high * 2 ^ size + word) = high * 2 ^ size + (⟨low, width⟩ : Field).clear word := by
  have cleared := ((⟨low, width⟩ : Field).clear_le word).trans_lt fits
  refine Nat.eq_of_testBit_eq fun i => ?_
  rw [testBit_clear, mul_comm, Nat.testBit_two_pow_mul_add _ fits, Nat.testBit_two_pow_mul_add _ cleared, testBit_clear]
  by_cases below : i < size
  · simp [below]
  · have outside : ¬ i < low + width := by omega
    simp [below, outside]

theorem clear_below {low width size word rest : Nat} (fits : rest < 2 ^ size) :
    (⟨low + size, width⟩ : Field).clear (word * 2 ^ size + rest) =
      (⟨low, width⟩ : Field).clear word * 2 ^ size + rest := by
  refine Nat.eq_of_testBit_eq fun i => ?_
  rw [testBit_clear, mul_comm, mul_comm (clear _ _), Nat.testBit_two_pow_mul_add _ fits,
    Nat.testBit_two_pow_mul_add _ fits, testBit_clear]
  by_cases below : i < size
  · have outside : ¬ low + size ≤ i := by omega
    simp [below, outside]
  · have same : (low + size ≤ i ∧ i < low + size + width) ↔ (low ≤ i - size ∧ i - size < low + width) := by omega
    simp only [below, if_false, same]

end Field

theorem lowBits_lt (width : Nat) (value : Int) : lowBits width value < 2 ^ width := by
  rw [lowBits, Nat.shiftLeft_eq, one_mul]
  have positive : 0 < 2 ^ width := Nat.two_pow_pos width
  have bound := Int.emod_lt_of_pos value (b := (2 ^ width : Nat)) (by omega)
  omega

theorem signedValue_eq_iff {width bits : Nat} {value : Int} (positive : 0 < width) (fits : bits < 2 ^ width) :
    signedValue width bits = value ↔
      (-(2 ^ (width - 1) : Int) ≤ value ∧ value < 2 ^ (width - 1)) ∧ lowBits width value = bits := by
  obtain ⟨width, rfl⟩ : ∃ smaller, width = smaller + 1 := ⟨width - 1, by omega⟩
  rw [Nat.add_sub_cancel]
  have modulus : 1 <<< (width + 1) = 2 * 2 ^ width := by rw [Nat.shiftLeft_eq, one_mul, pow_succ, mul_comm]
  have half_pos : 0 < 2 ^ width := Nat.two_pow_pos width
  rw [signedValue, lowBits, modulus, Int.bmod_eq_iff (by omega)]
  rw [pow_succ, mul_comm] at fits
  generalize half_eq : 2 ^ width = half at fits half_pos
  have half_cast : (2 : Int) ^ width = half := by rw [← half_eq]; push_cast; rfl
  have same_bits : ((2 * half : Nat) : Int) ∣ value - bits ↔ (value % (2 * half : Nat)).toNat = bits := by
    have nonneg := Int.emod_nonneg value (b := (2 * half : Nat)) (by omega)
    have small : (bits : Int) % (2 * half : Nat) = bits := Int.emod_eq_of_lt (by omega) (by omega)
    rw [Int.dvd_iff_emod_eq_zero, ← Int.emod_eq_emod_iff_emod_sub_eq_zero, small]
    omega
  rw [same_bits, half_cast]
  push_cast
  omega

end DspAsm
