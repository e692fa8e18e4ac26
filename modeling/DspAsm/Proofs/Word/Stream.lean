import DspAsm.Proofs.Outcome
import DspAsm.Word.Bits

namespace DspAsm

@[simp] theorem length_toBits (width value : Nat) : (toBits width value).length = width := by
  induction width with
  | zero => rfl
  | succ width ih => rw [toBits, List.length_cons, ih]

theorem toBits_add (high low value : Nat) :
    toBits (high + low) value = toBits high (value >>> low) ++ toBits low value := by
  induction high with
  | zero => rw [Nat.zero_add, toBits, List.nil_append]
  | succ high ih =>
    rw [Nat.add_right_comm, toBits, ih, toBits, List.cons_append, Nat.testBit_shiftRight, Nat.add_comm low]

theorem toBits_mod {width size : Nat} (inside : width ≤ size) (value : Nat) :
    toBits width (value % 2 ^ size) = toBits width value := by
  induction width with
  | zero => rfl
  | succ width ih =>
    have below : width < size := by omega
    rw [toBits, toBits, ih (by omega), Nat.testBit_mod_two_pow, decide_eq_true below, Bool.true_and]

theorem ofBits_cons (bit : Bool) (bits : List Bool) :
    ofBits (bit :: bits) = bit.toNat * 2 ^ bits.length + ofBits bits := by
  have accumulate (start : Nat) : bits.foldl (fun value bit => 2 * value + bit.toNat) start =
      start * 2 ^ bits.length + ofBits bits := by
    induction bits generalizing start with
    | nil => simp [ofBits]
    | cons first rest ih =>
      rw [ofBits, List.foldl_cons, List.foldl_cons, ih, ih (2 * 0 + first.toNat), List.length_cons, pow_succ]
      ring
  simp only [ofBits, List.foldl_cons, mul_zero, zero_add]
  exact accumulate bit.toNat

theorem ofBits_toBits (width value : Nat) : ofBits (toBits width value) = value % 2 ^ width := by
  induction width with
  | zero => rw [pow_zero, Nat.mod_one]; rfl
  | succ width ih =>
    rw [toBits, ofBits_cons, ih, length_toBits, Nat.mod_pow_succ, Nat.toNat_testBit]
    ring

namespace Word

theorem bytesToBits_toBytes (word : Word) : bytesToBits word.toBytes = word.toBits := by
  have byte (low : Nat) :
      DspAsm.toBits 8 (UInt8.ofNat (word.toNat >>> low)).toNat = DspAsm.toBits 8 (word.toNat >>> low) :=
    toBits_mod le_rfl _
  simp only [bytesToBits, toBytes, List.map_cons, List.map_nil, List.flatMap_cons, List.flatMap_nil, byte, toBits]
  rw [show (32 : Nat) = 8 + (8 + (8 + 8)) from rfl, toBits_add, toBits_add, toBits_add]
  simp

theorem ofBits_toBits (word : Word) : ofBits word.toBits = word := by
  rw [ofBits, toBits, DspAsm.ofBits_toBits, Nat.mod_eq_of_lt word.toNat_lt, UInt32.ofNat_toNat]

@[simp] theorem length_toBits (word : Word) : word.toBits.length = 32 :=
  DspAsm.length_toBits 32 word.toNat

end Word

theorem bytesToBits_flatMap_toBytes (words : List Word) :
    bytesToBits (words.flatMap Word.toBytes) = words.flatMap Word.toBits := by
  rw [bytesToBits, List.flatMap_assoc]
  exact List.flatMap_congr fun word _ => word.bytesToBits_toBytes

theorem Word.length_takeStream (count : Nat) (bits : List Bool) : (takeStream count bits).length = count := by
  induction count generalizing bits with
  | zero => rfl
  | succ count ih => rw [takeStream, List.length_cons, ih]

theorem Word.takeStream_flatMap_toBits (words : List Word) :
    takeStream words.length (words.flatMap toBits) = words := by
  induction words with
  | nil => rfl
  | cons word words ih =>
    rw [List.length_cons, takeStream, List.flatMap_cons, List.take_left' word.length_toBits,
      List.drop_left' word.length_toBits, ofBits_toBits, ih]

/-! ## Byte streams -/

/-- The bit stream goes through the bytes in order, and through each byte from its highest bit to its lowest. -/
def MostSignificantFirst (bytes : List UInt8) (bits : List Bool) : Prop :=
  ∀ index, bits[index]? = bytes[index / 8]?.map fun byte => byte.toNat.testBit (7 - index % 8)

theorem bytesToBits_cons (byte : UInt8) (bytes : List UInt8) :
    bytesToBits (byte :: bytes) = toBits 8 byte.toNat ++ bytesToBits bytes :=
  List.flatMap_cons

@[simp] theorem length_bytesToBits (bytes : List UInt8) : (bytesToBits bytes).length = 8 * bytes.length := by
  induction bytes with
  | nil => rfl
  | cons byte bytes ih =>
    rw [bytesToBits_cons, List.length_append, length_toBits, ih, List.length_cons]
    omega

theorem getElem?_toBits {width place : Nat} (inside : place < width) (value : Nat) :
    (toBits width value)[place]? = some (value.testBit (width - 1 - place)) := by
  induction width generalizing place with
  | zero => omega
  | succ width ih =>
    cases place with
    | zero => rfl
    | succ place =>
      rw [toBits, List.getElem?_cons_succ, ih (by omega)]
      congr 2
      omega

theorem mostSignificantFirst_bytesToBits (bytes : List UInt8) : MostSignificantFirst bytes (bytesToBits bytes) := by
  induction bytes with
  | nil =>
    intro index
    rfl
  | cons byte bytes ih =>
    intro index
    rw [bytesToBits_cons]
    by_cases first : index < 8
    · rw [List.getElem?_append_left (by rwa [length_toBits]), getElem?_toBits first, Nat.div_eq_of_lt first,
        Nat.mod_eq_of_lt first]
      rfl
    · obtain ⟨later, rfl⟩ := Nat.exists_eq_add_of_le (Nat.not_lt.mp first)
      rw [List.getElem?_append_right (by rw [length_toBits]; omega), length_toBits, Nat.add_sub_cancel_left, ih later,
        Nat.add_div_left later (by decide), Nat.add_mod_left, List.getElem?_cons_succ]

theorem MostSignificantFirst.eq_bytesToBits {bytes : List UInt8} {bits : List Bool}
    (ordered : MostSignificantFirst bytes bits) : bits = bytesToBits bytes := by
  apply List.ext_getElem?
  intro index
  rw [ordered index, mostSignificantFirst_bytesToBits bytes index]

theorem ofBits_append (high low : List Bool) : ofBits (high ++ low) = ofBits high * 2 ^ low.length + ofBits low := by
  induction high with
  | nil => simp [ofBits]
  | cons bit high ih =>
    rw [List.cons_append, ofBits_cons, ih, ofBits_cons, List.length_append, pow_add]
    ring

theorem ofBits_byte (byte : UInt8) : ofBits (toBits 8 byte.toNat) = byte.toNat := by
  rw [ofBits_toBits, Nat.mod_eq_of_lt byte.toNat_lt]

namespace Word

/-- The words of a byte stream, each the number that four bytes denote, the first of them the most significant. Bytes
after the last whole word belong to none. -/
def bigEndian : List UInt8 → List Word
  | first :: second :: third :: fourth :: later =>
    UInt32.ofNat (((first.toNat * 256 + second.toNat) * 256 + third.toNat) * 256 + fourth.toNat) :: bigEndian later
  | _ => []

theorem ofBits_four_bytes (first second third fourth : UInt8) :
    DspAsm.ofBits (bytesToBits [first, second, third, fourth]) =
      ((first.toNat * 256 + second.toNat) * 256 + third.toNat) * 256 + fourth.toNat := by
  have none : bytesToBits [] = [] := rfl
  rw [bytesToBits_cons, bytesToBits_cons, bytesToBits_cons, bytesToBits_cons, none, List.append_nil]
  simp only [ofBits_append, ofBits_byte, List.length_append, DspAsm.length_toBits]
  ring

theorem takeStream_bytesToBits (bytes : List UInt8) :
    takeStream (bytes.length / 4) (bytesToBits bytes) = bigEndian bytes := by
  fun_induction bigEndian bytes with
  | case1 first second third fourth later ih =>
    have count : (first :: second :: third :: fourth :: later).length / 4 = later.length / 4 + 1 := by
      simp only [List.length_cons]
      omega
    have parted : bytesToBits (first :: second :: third :: fourth :: later) =
        bytesToBits [first, second, third, fourth] ++ bytesToBits later := by
      simp [bytesToBits]
    have size : (bytesToBits [first, second, third, fourth]).length = 32 := length_bytesToBits _
    rw [count, takeStream, parted, List.take_left' size, List.drop_left' size, ih, ofBits, ofBits_four_bytes]
  | case2 rest short =>
    have few : rest.length < 4 := by
      match rest, short with
      | [], _ | [_], _ | [_, _], _ | [_, _, _], _ => simp
      | first :: second :: third :: fourth :: later, short => exact absurd rfl (short first second third fourth later)
    rw [Nat.div_eq_of_lt few, takeStream]

theorem length_bigEndian (bytes : List UInt8) : (bigEndian bytes).length = bytes.length / 4 := by
  rw [← takeStream_bytesToBits, length_takeStream]

theorem length_flatMap_toBytes (words : List Word) : (words.flatMap toBytes).length = 4 * words.length := by
  simp [List.length_flatMap, toBytes, mul_comm]

theorem bigEndian_flatMap_toBytes (words : List Word) : bigEndian (words.flatMap toBytes) = words := by
  rw [← takeStream_bytesToBits, length_flatMap_toBytes, Nat.mul_div_cancel_left _ (by decide),
    bytesToBits_flatMap_toBytes, takeStream_flatMap_toBits]

end Word

end DspAsm
