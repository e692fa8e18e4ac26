import DspAsm.Proofs.Text.Literal

namespace DspAsm.Numeral
open Text

/-! ## Digits -/

section

variable {base value : Nat} {digits : List Char}

theorem denotes_upper (small : base ≤ 16) : Denotes base (upper digits) value ↔ Denotes base digits value := by
  have same : ofDigits base (upper digits) = ofDigits base digits := by
    simp only [ofDigits, upper, List.foldl_map, digitValue_toUpper]
  rw [denotes_iff small, denotes_iff small, same]
  simp [upper, isDigit_toUpper]

theorem Denotes.zero_cons (denotes : Denotes base digits value) : Denotes base ('0' :: digits) value := by
  induction denotes with
  | single last =>
    have zero : Denotes base ['0'] 0 := .single ⟨Nat.zero_lt_of_lt last.1, .inl rfl⟩
    simpa using zero.append last
  | append front last ih => exact ih.append last

theorem Denotes.zeros_append (denotes : Denotes base digits value) (zeros : Nat) :
    Denotes base (List.replicate zeros '0' ++ digits) value := by
  induction zeros with
  | zero => exact denotes
  | succ zeros ih => exact ih.zero_cons

theorem denotes_toDigits (base_gt : 1 < base) (value : Nat) : Denotes base (Nat.toDigits base value) value := by
  induction value using Nat.strong_induction_on with
  | _ value ih =>
    by_cases small : value < base
    · rw [Nat.toDigits_of_lt_base small]
      exact .single ⟨small, .inl rfl⟩
    · have front : Denotes base (Nat.toDigits base (value / base)) (value / base) :=
        ih _ (Nat.div_lt_self (by omega) base_gt)
      have last : IsDigitOf base (value % base).digitChar (value % base) := ⟨Nat.mod_lt _ (by omega), .inl rfl⟩
      rw [Nat.toDigits_of_base_le base_gt (by omega)]
      simpa [Nat.div_add_mod] using front.append last

end

/-! ## Hexadecimal indices -/

theorem ofDigits_upperHex (width value : Nat) : ofDigits 16 (upperHex width value).toList = value := by
  have digits : Denotes 16 (upper (Nat.toDigits 16 value)) value :=
    (denotes_upper (by decide)).mpr (denotes_toDigits (by decide) value)
  have padded : Denotes 16 (upperHex width value).toList value := by
    rw [upperHex, String.toList_ofList]
    exact digits.zeros_append _
  exact ((denotes_iff (by decide)).mp padded).2.2

theorem toList_upperHex {value : Nat} (small : value < 256) :
    (upperHex 2 value).toList = [(value / 16).digitChar.toUpper, (value % 16).digitChar.toUpper] := by
  rw [upperHex, String.toList_ofList]
  by_cases single : value < 16
  · rw [Nat.toDigits_of_lt_base single, Nat.div_eq_of_lt single, Nat.mod_eq_of_lt single]
    rfl
  · rw [Nat.toDigits_of_base_le (by decide) (by omega), Nat.toDigits_of_lt_base (by omega)]
    rfl

theorem length_upperHex {value : Nat} (small : value < 256) : (upperHex 2 value).toList.length = 2 := by
  rw [toList_upperHex small]
  rfl

theorem isUpper_or_isDigit_of_mem_upperHex {width value : Nat} {c : Char} (member : c ∈ (upperHex width value).toList) :
    (c.isUpper || c.isDigit) = true := by
  rw [upperHex, String.toList_ofList, List.leftpad] at member
  rcases List.mem_append.mp member with padding | member
  · rw [List.eq_of_mem_replicate padding]
    rfl
  · obtain ⟨digit, written, rfl⟩ := List.mem_map.mp member
    rw [Char.isUpper_toUpper_eq_isAlpha, Text.isDigit_toUpper]
    exact (denotes_toDigits (by decide) value).isAlphanum (by decide) written

/-! ## Hexadecimal words -/

inductive IsHexWord (value : Nat) (text : String) : Prop
  | intro {digits : List Char} (written : text.toList = '0' :: 'x' :: digits) (length : digits.length = 8)
      (lower : ∀ c ∈ digits, c.isUpper = false) (denotes : Denotes 16 digits value)

theorem IsDigitOf.eq_digitChar {base digit : Nat} {c : Char} (figure : IsDigitOf base c digit) (small : base ≤ 16)
    (lower : c.isUpper = false) : c = digit.digitChar := by
  have letters : ∀ digit < 16, digit.digitChar.toUpper.isUpper = false → digit.digitChar.toUpper = digit.digitChar := by
    decide
  obtain ⟨below, rfl | rfl⟩ := figure
  · rfl
  · exact letters digit (by omega) lower

theorem eq_of_ofDigits_eq {digits digits' : List Char} (length : digits.length = digits'.length)
    (hex : ∀ c ∈ digits, isDigit 16 c = true ∧ c.isUpper = false)
    (hex' : ∀ c ∈ digits', isDigit 16 c = true ∧ c.isUpper = false)
    (same : ofDigits 16 digits = ofDigits 16 digits') : digits = digits' := by
  induction digits using List.reverseRecOn generalizing digits' with
  | nil => exact (List.length_eq_zero_iff.mp length.symm).symm
  | append_singleton digits c ih =>
    cases digits' using List.reverseRecOn with
    | nil => simp at length
    | append_singleton digits' c' =>
      rw [List.forall_mem_append, List.forall_mem_singleton] at hex hex'
      rw [ofDigits_append_singleton, ofDigits_append_singleton] at same
      have figure := (@isDigitOf_iff 16 c _ (by decide)).mpr ⟨hex.2.1, rfl⟩
      have figure' := (@isDigitOf_iff 16 c' _ (by decide)).mpr ⟨hex'.2.1, rfl⟩
      have below := figure.1
      have below' := figure'.1
      have last : digitValue c = digitValue c' := by omega
      have front : digits = digits' := ih (by simpa using length) hex.1 hex'.1 (by omega)
      rw [front, figure.eq_digitChar (by decide) hex.2.2, last, ← figure'.eq_digitChar (by decide) hex'.2.2]

theorem exists_of_mem_toDigits {base value : Nat} (base_gt : 1 < base) {c : Char}
    (member : c ∈ Nat.toDigits base value) : ∃ digit < base, c = digit.digitChar := by
  induction value using Nat.strong_induction_on with
  | _ value ih =>
    by_cases small : value < base
    · rw [Nat.toDigits_of_lt_base small, List.mem_singleton] at member
      exact ⟨value, small, member⟩
    · rw [Nat.toDigits_of_base_le base_gt (by omega), List.mem_append, List.mem_singleton] at member
      rcases member with member | member
      · exact ih _ (Nat.div_lt_self (by omega) base_gt) member
      · exact ⟨value % base, Nat.mod_lt _ (by omega), member⟩

theorem isHexWord_hexWord {value : Nat} (small : value < 2 ^ 32) : IsHexWord value (hexWord value) := by
  have length : (Nat.toDigits 16 value).length ≤ 8 := Nat.toDigits_length 16 value 8 (by decide) small
  have letters : ∀ digit < 16, digit.digitChar.isUpper = false := by decide
  refine @IsHexWord.intro _ _ ((Nat.toDigits 16 value).leftpad 8 '0') ?_ ?_ ?_ ?_
  · rw [hexWord, hex, String.toList_append, String.toList_ofList, String.toList_ofList]
    rfl
  · rw [List.length_leftpad]
    omega
  · intro c member
    rw [List.leftpad, List.mem_append] at member
    rcases member with padding | member
    · rw [List.eq_of_mem_replicate padding]
      rfl
    · obtain ⟨digit, below, rfl⟩ := exists_of_mem_toDigits (by decide) member
      exact letters digit below
  · exact (denotes_toDigits (by decide) value).zeros_append _

theorem isHexWord_iff {value : Nat} (small : value < 2 ^ 32) {text : String} :
    IsHexWord value text ↔ text = hexWord value := by
  constructor
  · intro spelled
    obtain ⟨written, length, lower, denotes⟩ := spelled
    obtain ⟨written', length', lower', denotes'⟩ := isHexWord_hexWord small
    rw [denotes_iff (by decide)] at denotes denotes'
    rw [← String.toList_inj, written, written', eq_of_ofDigits_eq (length.trans length'.symm)
      (fun c member => ⟨denotes.2.1 c member, lower c member⟩)
      (fun c member => ⟨denotes'.2.1 c member, lower' c member⟩) (denotes.2.2.trans denotes'.2.2.symm)]
  · rintro rfl
    exact isHexWord_hexWord small

/-! ## Printed numbers -/

/-- The texts that a number is printed as: its decimal text, or its sign and then the digits of its magnitude in decimal
or behind a mark, with any number of zeros in front and each letter small or large. -/
inductive Prints (value : Int) : List Char → Prop
  | decimal : Prints value (toString value).toList
  | inBase {mark digits : List Char} {base : Nat} (zeros : Nat) (listed : (mark, base) ∈ ([], 10) :: marks)
      (written : upper digits = upper (List.replicate zeros '0' ++ Nat.toDigits base value.natAbs)) :
      Prints value (sign (value < 0) ++ (mark ++ digits))

theorem toList_toString (value : Int) :
    (toString value).toList = sign (value < 0) ++ Nat.toDigits 10 value.natAbs := by
  rw [Int.toString_eq_repr, Int.repr_eq_if]
  by_cases negative : value < 0
  · have magnitude : (-value).toNat = value.natAbs := by omega
    rw [if_neg (by omega), String.toList_append, Nat.toList_repr, magnitude, decide_eq_true negative]
    rfl
  · have magnitude : value.toNat = value.natAbs := by omega
    rw [if_pos (by omega), Nat.toList_repr, magnitude, decide_eq_false negative]
    rfl

theorem magnitude_toDigits (value : Nat) : Magnitude (Nat.toDigits 10 value) value :=
  .decimal (denotes_toDigits (by decide) value)

section

variable {text : String} {value : Int} {printed body : List Char}

theorem Prints.exists_magnitude (prints : Prints value printed) :
    ∃ body, printed = sign (value < 0) ++ body ∧ Magnitude body value.natAbs := by
  cases prints with
  | decimal => exact ⟨_, toList_toString value, magnitude_toDigits _⟩
  | @inBase mark digits base zeros listed written =>
    refine ⟨mark ++ digits, rfl, ?_⟩
    have bounds : ∀ entry ∈ ([], 10) :: marks, 1 < entry.2 ∧ entry.2 ≤ 16 := by decide
    obtain ⟨base_gt, small⟩ := bounds _ listed
    have denotes : Denotes base digits value.natAbs := by
      rw [← denotes_upper small, written, denotes_upper small]
      exact (denotes_toDigits base_gt _).zeros_append zeros
    rcases List.mem_cons.mp listed with unmarked | listed
    · cases unmarked
      exact .decimal denotes
    · exact .marked listed denotes

theorem Spelled.read?_value (spelled : Spelled text (value < 0) body) (denoted : Magnitude body value.natAbs) :
    Numeral.read? text = if value.natAbs ≤ 2 ^ 63 - 1 then some value else none := by
  have signed : (if decide (value < 0) = true then -(value.natAbs : Int) else value.natAbs) = value := by
    simp only [decide_eq_true_eq]
    split_ifs <;> omega
  rw [spelled.read?_magnitude denoted, signed]

theorem read?_decimal {hash : List Char} (hashed : hash = [] ∨ hash = ['#'])
    (whole : text.toList = hash ++ (toString value).toList) (fits : value.natAbs < 0x8000000000000000) :
    read? text = some value := by
  have spelled : Spelled text (value < 0) (Nat.toDigits 10 value.natAbs) := by
    refine ⟨[], hash, [], List.forall_mem_nil _, hashed, ?_⟩
    rw [whole, toList_toString, List.nil_append, List.append_nil]
  rw [spelled.read?_value (magnitude_toDigits _), if_pos (by omega)]

theorem read?_immediate (fits : value.natAbs < 0x8000000000000000) : read? ("#" ++ toString value) = some value :=
  read?_decimal (.inr rfl) String.toList_append fits

theorem read?_toString {value : Nat} (fits : value < 0x8000000000000000) :
    read? (toString value) = some (value : Int) :=
  read?_decimal (.inl rfl) rfl fits

end

/-- However a number is printed, with blanks around it and a `#` in front at will, it is read back if its magnitude has
at most 63 bits, and nothing is read if it has more. -/
theorem read_printed {value : Int} {printed before hash after : List Char} (prints : Prints value printed)
    (blank : ∀ c ∈ before ++ after, isBlank c = true) (hashed : hash = [] ∨ hash = ['#']) :
    read? (String.ofList (before ++ (hash ++ printed) ++ after)) =
      if value.natAbs ≤ 2 ^ 63 - 1 then some value else none := by
  obtain ⟨body, rfl, denoted⟩ := prints.exists_magnitude
  have spelled : Spelled (String.ofList (before ++ (hash ++ (sign (value < 0) ++ body)) ++ after)) (value < 0) body :=
    ⟨before, hash, after, blank, hashed, String.toList_ofList⟩
  exact spelled.read?_value denoted

theorem read_printed_limits :
    (Prints (-9223372036854775807) "-0X007fffFFFFffffFFFF".toList ∧
        read? "\t#-0X007fffFFFFffffFFFF\u3000" = some (-9223372036854775807)) ∧
      Prints (-9223372036854775808) "-9223372036854775808".toList ∧ read? "-9223372036854775808" = none := by
  have greatest : Prints (-9223372036854775807) "-0X007fffFFFFffffFFFF".toList :=
    @Prints.inBase _ ['0', 'X'] "007fffFFFFffffFFFF".toList 16 2 (by decide) (by decide)
  have next : Prints (-9223372036854775808) "-9223372036854775808".toList := .decimal
  have blank : ∀ c ∈ ['\t'] ++ ['\u3000'], isBlank c = true := by simp [isBlank, blankRanges]
  have read := read_printed greatest blank (.inr rfl)
  have unread := @read_printed _ _ [] [] [] next (List.forall_mem_nil _) (.inl rfl)
  rw [if_pos (by decide)] at read
  rw [if_neg (by decide)] at unread
  exact ⟨⟨greatest, read⟩, next, unread⟩

/-! ## Tokens -/

theorem isInk_of_mem_toDigits {value : Nat} {c : Char} (member : c ∈ Nat.toDigits 10 value) : isInk c = true := by
  have decimal := Nat.isDigit_of_mem_toDigits (by decide) (by decide) member
  simp [isInk, decimal]

theorem isInked_toString (value : Nat) : IsInked (toString value) := by
  rw [Nat.toString_eq_repr]
  exact IsInked.of_mem (by simp) fun c member => isInk_of_mem_toDigits (by simpa using member)

theorem isInked_immediate (value : Int) : IsInked ("#" ++ toString value) := by
  refine IsInked.of_mem (by simp) fun c member => ?_
  rw [String.toList_append, toList_toString, List.mem_append, List.mem_append] at member
  rcases member with hash | minus | digit
  · rw [List.mem_singleton.mp hash]
    rfl
  · have signs (negative : Bool) : (sign negative).all isInk = true := by cases negative <;> rfl
    exact List.all_eq_true.mp (signs _) c minus
  · exact isInk_of_mem_toDigits digit

theorem trim_of_inked {text : String} (inked : IsInked text) : trim text.toList = text.toList :=
  trim_eq_self (.of_solid fun _ member => isBlank_of_isInk (inked.isInk_of_mem member))

theorem read?_identifier {name : String} (identifier : IsIdentifier name) : read? name = none := by
  obtain ⟨first, rest, letters, start⟩ := identifier.exists_head
  have differs (mark : Char) (other : ¬ ((65 ≤ mark.toNat ∧ mark.toNat ≤ 90) ∨ mark.toNat = 95)) : first ≠ mark := by
    rintro rfl
    exact other start
  -- The first character tells: it is neither a mark nor a digit.
  have undigit : isDigit 10 first = false := by
    simp only [isDigit, Bool.and_eq_false_iff, decide_eq_false_iff_not]
    right
    have notDigit : first.isDigit = false := by
      rw [← Bool.not_eq_true, isDigit_iff]
      omega
    rw [digitValue, if_neg (by simp [notDigit]), toUpper_eq_self (by omega)]
    omega
  have unread : magnitude? 10 (first :: rest) = none := by
    rw [magnitude?, if_neg]
    simp [undigit]
  have unmarked : dropHash (trim name.toList) = first :: rest := by
    rw [trim_of_inked identifier.isInked, letters]
    unfold dropHash
    split
    · rename_i written
      exact absurd (List.cons.inj written).1 (differs '#' (by decide))
    · rfl
  rw [read?, unmarked]
  split
  · rename_i written
    exact absurd (List.cons.inj written).1 (differs '-' (by decide))
  · unfold unmarked?
    split
    case h_6 => rw [unread]; rfl
    case h_3 written => exact absurd (List.cons.inj written).1 (differs '$' (by decide))
    all_goals
      rename_i written
      exact absurd (List.cons.inj written).1 (differs '0' (by decide))

end DspAsm.Numeral
