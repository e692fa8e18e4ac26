import DspAsm.Proofs.Text.Case

namespace DspAsm.Numeral
open Text

/-! ## The grammar -/

def IsDigitOf (base : Nat) (c : Char) (digit : Nat) : Prop :=
  digit < base ∧ (c = digit.digitChar ∨ c = digit.digitChar.toUpper)

inductive Denotes (base : Nat) : List Char → Nat → Prop
  | single {c : Char} {digit : Nat} (last : IsDigitOf base c digit) : Denotes base [c] digit
  | append {digits : List Char} {value : Nat} {c : Char} {digit : Nat} (front : Denotes base digits value)
      (last : IsDigitOf base c digit) : Denotes base (digits ++ [c]) (base * value + digit)

def marks : List (List Char × Nat) :=
  [(['0', 'x'], 16), (['0', 'X'], 16), (['$'], 16), (['0', 'b'], 2), (['0', 'B'], 2)]

inductive Magnitude : List Char → Nat → Prop
  | decimal {digits : List Char} {value : Nat} (denotes : Denotes 10 digits value) : Magnitude digits value
  | marked {mark : List Char} {base : Nat} {digits : List Char} {value : Nat} (listed : (mark, base) ∈ marks)
      (denotes : Denotes base digits value) : Magnitude (mark ++ digits) value

inductive InnerSigned : List Char → Int → Prop
  | plus {mark : List Char} {base : Nat} {digits : List Char} {value : Nat} (listed : (mark, base) ∈ marks)
      (denotes : Denotes base digits value) : InnerSigned (mark ++ '+' :: digits) value
  | minus {mark : List Char} {base : Nat} {digits : List Char} {value : Nat} (listed : (mark, base) ∈ marks)
      (denotes : Denotes base digits value) : InnerSigned (mark ++ '-' :: digits) (-value)

def sign : Bool → List Char
  | true => ['-']
  | false => []

/-- How a text is put together: one `#` at will, a minus sign if the number is negative, and a body, with blanks
around them at will. -/
def Spelled (text : String) (negative : Bool) (body : List Char) : Prop :=
  ∃ before hash after, (∀ c ∈ before ++ after, isBlank c = true) ∧ (hash = [] ∨ hash = ['#']) ∧
    text.toList = before ++ (hash ++ (sign negative ++ body)) ++ after

inductive IsLiteral (text : String) : Int → Prop
  | intro {negative : Bool} {body : List Char} {magnitude : Nat} (spelled : Spelled text negative body)
      (denoted : Magnitude body magnitude) (fits : magnitude ≤ 2 ^ 63 - 1) :
      IsLiteral text (if negative then -magnitude else magnitude)

/-- Like a numeral, but with a further sign behind the mark. The least number is its own opposite. -/
inductive HasInnerSign (text : String) : Int → Prop
  | intro {negative : Bool} {body : List Char} {inner : Int} (spelled : Spelled text negative body)
      (signed : InnerSigned body inner) (least : -2 ^ 63 ≤ inner) (most : inner ≤ 2 ^ 63 - 1) :
      HasInnerSign text (if negative ∧ inner ≠ -2 ^ 63 then -inner else inner)

/-! ## Digits -/

theorem digitValue_digitChar {digit : Nat} (small : digit < 16) : digitValue digit.digitChar = digit := by
  interval_cases digit <;> rfl

theorem digitValue_toUpper (c : Char) : digitValue c.toUpper = digitValue c := by
  rw [digitValue, digitValue, Text.isDigit_toUpper, Char.toUpper_toUpper_eq_toUpper]
  by_cases figure : c.isDigit = true
  · have capital : c.toUpper = c := toUpper_eq_self (by rw [isDigit_iff] at figure; omega)
    rw [capital]
  · rw [if_neg figure, if_neg figure]

theorem isDigit_toUpper (base : Nat) (c : Char) : isDigit base c.toUpper = isDigit base c := by
  rw [isDigit, isDigit, digitValue_toUpper, Char.isAlphanum, Char.isAlphanum, Char.isAlpha_toUpper_eq_isAlpha,
    Text.isDigit_toUpper]

section

variable {base value : Nat} {c : Char} {digits : List Char}

theorem eq_digitChar_of_isDigit (figure : c.isDigit = true) : c = (digitValue c).digitChar := by
  have figures : ∀ digit < 10, digit.digitChar.toNat = 48 + digit := by decide
  have denoted : digitValue c = c.toNat - 48 := if_pos figure
  rw [isDigit_iff] at figure
  rw [char_eq_iff, figures _ (by omega)]
  omega

theorem eq_digitChar_of_isAlpha (letter : c.isAlpha = true) (plain : c.isDigit = false) (small : digitValue c < 16) :
    c = (digitValue c).digitChar ∨ c = (digitValue c).digitChar.toUpper := by
  have letters : ∀ digit < 16, 10 ≤ digit → digit.digitChar.toUpper.toNat = 55 + digit ∧
      digit.digitChar.toLower = digit.digitChar := by decide
  have denoted : digitValue c = c.toUpper.toNat - 65 + 10 := if_neg (by simp [plain])
  rw [← Char.isUpper_toUpper_eq_isAlpha, isUpper_iff] at letter
  obtain ⟨code, lowered⟩ := letters (digitValue c) small (by omega)
  have same : c.toUpper = (digitValue c).digitChar.toUpper := by
    rw [char_eq_iff, code]
    omega
  by_cases lower : c.isLower = true
  · left
    calc
      c = c.toLower := (Char.toLower_eq_of_not_isUpper (Char.not_isUpper_of_isLower lower)).symm
      _ = c.toUpper.toLower := (Char.toLower_toUpper_eq_toLower c).symm
      _ = (digitValue c).digitChar.toUpper.toLower := by rw [same]
      _ = (digitValue c).digitChar := by rw [Char.toLower_toUpper_eq_toLower, lowered]
  · right
    rw [← same, Char.toUpper_eq_of_not_isLower lower]

theorem isDigitOf_iff {digit : Nat} (small : base ≤ 16) :
    IsDigitOf base c digit ↔ isDigit base c = true ∧ digitValue c = digit := by
  constructor
  · rintro ⟨below, spelled⟩
    have alphanumeric : ∀ digit < 16, digit.digitChar.isAlphanum = true := by decide
    have denoted : digitValue digit.digitChar = digit := digitValue_digitChar (by omega)
    have digital : isDigit base digit.digitChar = true := by
      simp [isDigit, denoted, below, alphanumeric digit (by omega)]
    rcases spelled with rfl | rfl
    · exact ⟨digital, denoted⟩
    · rw [isDigit_toUpper, digitValue_toUpper]
      exact ⟨digital, denoted⟩
  · rintro ⟨digital, rfl⟩
    rw [isDigit, Bool.and_eq_true, decide_eq_true_eq] at digital
    refine ⟨digital.2, ?_⟩
    cases figure : c.isDigit with
    | true => exact .inl (eq_digitChar_of_isDigit figure)
    | false =>
      have letter : c.isAlpha = true := by simpa [Char.isAlphanum, figure] using digital.1
      exact eq_digitChar_of_isAlpha letter figure (by omega)

theorem ofDigits_append_singleton (base : Nat) (digits : List Char) (c : Char) :
    ofDigits base (digits ++ [c]) = base * ofDigits base digits + digitValue c := by
  rw [ofDigits, List.foldl_append, List.foldl_cons, List.foldl_nil, ofDigits]

theorem denotes_iff (small : base ≤ 16) : Denotes base digits value ↔
    digits ≠ [] ∧ (∀ c ∈ digits, isDigit base c = true) ∧ ofDigits base digits = value := by
  constructor
  · intro denotes
    induction denotes with
    | single last =>
      obtain ⟨digital, denoted⟩ := (isDigitOf_iff small).mp last
      simp [ofDigits, digital, denoted]
    | append front last ih =>
      obtain ⟨digital, denoted⟩ := (isDigitOf_iff small).mp last
      obtain ⟨-, front_digital, front_denoted⟩ := ih
      refine ⟨by simp, ?_, ?_⟩
      · rw [List.forall_mem_append]
        exact ⟨front_digital, by simpa using digital⟩
      · rw [ofDigits_append_singleton, front_denoted, denoted]
  · rintro ⟨written, digital, rfl⟩
    induction digits using List.reverseRecOn with
    | nil => exact absurd rfl written
    | append_singleton digits c ih =>
      rw [List.forall_mem_append] at digital
      have last : IsDigitOf base c (digitValue c) := (isDigitOf_iff small).mpr ⟨digital.2 c List.mem_cons_self, rfl⟩
      rw [ofDigits_append_singleton]
      by_cases single : digits = []
      · rw [single, List.nil_append]
        simpa [ofDigits] using Denotes.single last
      · exact .append (ih single digital.1) last

theorem magnitude?_eq_some (small : base ≤ 16) :
    magnitude? base digits = some value ↔ Denotes base digits value := by
  simp only [magnitude?, denotes_iff small, Option.ite_none_right_eq_some, Option.some.injEq, List.all_eq_true,
    and_assoc]

theorem Denotes.isAlphanum (denotes : Denotes base digits value) (small : base ≤ 16) (member : c ∈ digits) :
    c.isAlphanum = true := by
  have digital := ((denotes_iff small).mp denotes).2.1 c member
  rw [isDigit, Bool.and_eq_true] at digital
  exact digital.1

end

/-! ## Bodies -/

section

variable {mark body digits : List Char} {base magnitude : Nat} {value : Int} {c : Char}

theorem base_le_of_mem_marks (listed : (mark, base) ∈ marks) : base ≤ 16 := by
  have bounded : ∀ entry ∈ marks, entry.2 ≤ 16 := by decide
  exact bounded _ listed

theorem map_magnitude?_eq_some (small : base ≤ 16) {sign : Int → Int} :
    Option.map sign (magnitude? base digits >>= fun magnitude => pure (magnitude : Int)) = some value ↔
      ∃ magnitude : Nat, Denotes base digits magnitude ∧ sign magnitude = value := by
  rw [Option.map_eq_some_iff]
  constructor
  · rintro ⟨_, read, rfl⟩
    obtain ⟨magnitude, found, same⟩ := Option.bind_eq_some_iff.mp read
    cases same
    exact ⟨magnitude, (magnitude?_eq_some small).mp found, rfl⟩
  · rintro ⟨magnitude, denotes, rfl⟩
    rw [(magnitude?_eq_some small).mpr denotes]
    exact ⟨magnitude, rfl, rfl⟩

theorem unmarked?_cases (body : List Char) :
    (∃ mark base digits, (mark, base) ∈ marks ∧ body = mark ++ digits ∧ unmarked? body = signed? base digits) ∨
      unmarked? body = (magnitude? 10 body).map fun value => (value : Int) := by
  unfold unmarked?
  split
  case h_1 digits => exact .inl ⟨['0', 'x'], 16, digits, by decide, rfl, rfl⟩
  case h_2 digits => exact .inl ⟨['0', 'X'], 16, digits, by decide, rfl, rfl⟩
  case h_3 digits => exact .inl ⟨['$'], 16, digits, by decide, rfl, rfl⟩
  case h_4 digits => exact .inl ⟨['0', 'b'], 2, digits, by decide, rfl, rfl⟩
  case h_5 digits => exact .inl ⟨['0', 'B'], 2, digits, by decide, rfl, rfl⟩
  case h_6 => exact .inr rfl

theorem unmarked?_mark_append (listed : (mark, base) ∈ marks) (digits : List Char) :
    unmarked? (mark ++ digits) = signed? base digits := by
  simp only [marks, List.mem_cons, Prod.mk.injEq, List.not_mem_nil, or_false] at listed
  rcases listed with ⟨rfl, rfl⟩ | ⟨rfl, rfl⟩ | ⟨rfl, rfl⟩ | ⟨rfl, rfl⟩ | ⟨rfl, rfl⟩ <;> rfl

theorem unmarked?_of_denotes (denotes : Denotes 10 digits magnitude) :
    unmarked? digits = some (magnitude : Int) := by
  rcases unmarked?_cases digits with ⟨mark, base, rest, listed, rfl, -⟩ | decimal
  · -- Each mark has a character that is no decimal digit.
    have undecimal : ∀ entry ∈ marks, entry.1.all (isDigit 10) = false := by decide
    have digital := ((denotes_iff (by decide)).mp denotes).2.1
    rw [List.forall_mem_append, ← List.all_eq_true, undecimal _ listed] at digital
    cases digital.1
  · rw [decimal, map_magnitude?_eq_some (by decide)]
    exact ⟨magnitude, denotes, rfl⟩

theorem signed?_of_denotes (small : base ≤ 16) (denotes : Denotes base digits magnitude) :
    signed? base digits = some (magnitude : Int) := by
  unfold signed?
  split
  case h_1 => exact absurd (denotes.isAlphanum small List.mem_cons_self) (by decide)
  case h_2 => exact absurd (denotes.isAlphanum small List.mem_cons_self) (by decide)
  case h_3 => exact (map_magnitude?_eq_some small).mpr ⟨magnitude, denotes, rfl⟩

theorem unmarked?_eq_some :
    unmarked? body = some value ↔ (∃ magnitude : Nat, Magnitude body magnitude ∧ magnitude = value) ∨
      InnerSigned body value := by
  constructor
  · intro read
    rcases unmarked?_cases body with ⟨mark, base, digits, listed, rfl, marked⟩ | decimal
    · have small := base_le_of_mem_marks listed
      rw [marked] at read
      unfold signed? at read
      split at read
      case h_1 =>
        obtain ⟨magnitude, denotes, rfl⟩ := (map_magnitude?_eq_some small).mp read
        exact .inr (.minus listed denotes)
      case h_2 =>
        obtain ⟨magnitude, denotes, rfl⟩ := (map_magnitude?_eq_some small).mp read
        exact .inr (.plus listed denotes)
      case h_3 =>
        obtain ⟨magnitude, denotes, rfl⟩ := (map_magnitude?_eq_some small).mp read
        exact .inl ⟨magnitude, .marked listed denotes, rfl⟩
    · rw [decimal] at read
      obtain ⟨magnitude, denotes, rfl⟩ := (map_magnitude?_eq_some (show 10 ≤ 16 by decide)).mp read
      exact .inl ⟨magnitude, .decimal denotes, rfl⟩
  · rintro (⟨magnitude, denoted, rfl⟩ | signed)
    · cases denoted with
      | decimal denotes => exact unmarked?_of_denotes denotes
      | marked listed denotes =>
        rw [unmarked?_mark_append listed]
        exact signed?_of_denotes (base_le_of_mem_marks listed) denotes
    · cases signed with
      | plus listed denotes =>
        rw [unmarked?_mark_append listed, signed?, map_magnitude?_eq_some (base_le_of_mem_marks listed)]
        exact ⟨_, denotes, rfl⟩
      | minus listed denotes =>
        rw [unmarked?_mark_append listed, signed?, map_magnitude?_eq_some (base_le_of_mem_marks listed)]
        exact ⟨_, denotes, rfl⟩

theorem Magnitude.written (denoted : Magnitude body magnitude) : body ≠ [] := by
  cases denoted with
  | decimal denotes => exact ((denotes_iff (by decide)).mp denotes).1
  | marked listed denotes =>
    exact List.append_ne_nil_of_right_ne_nil _ ((denotes_iff (base_le_of_mem_marks listed)).mp denotes).1

theorem Magnitude.spelled (denoted : Magnitude body magnitude) (member : c ∈ body) :
    (c.isAlphanum || c == '$') = true := by
  have marked : ∀ entry ∈ marks, entry.1.all (fun c => c.isAlphanum || c == '$') = true := by decide
  cases denoted with
  | decimal denotes => rw [denotes.isAlphanum (by decide) member, Bool.true_or]
  | marked listed denotes =>
    rcases List.mem_append.mp member with member | member
    · exact List.all_eq_true.mp (marked _ listed) c member
    · rw [denotes.isAlphanum (base_le_of_mem_marks listed) member, Bool.true_or]

theorem Magnitude.not_mem (denoted : Magnitude body magnitude) {other : Char}
    (foreign : (other.isAlphanum || other == '$') = false) : other ∉ body := by
  intro member
  rw [denoted.spelled member] at foreign
  cases foreign

theorem Magnitude.solid (denoted : Magnitude body magnitude) (member : c ∈ body) : isBlank c = false := by
  have spelled := denoted.spelled member
  rw [Bool.or_eq_true, Char.isAlphanum, Bool.or_eq_true, isAlpha_iff, isDigit_iff, beq_iff_eq, char_eq_iff] at spelled
  have dollar : '$'.toNat = 36 := rfl
  exact isBlank_eq_false (by omega)

theorem InnerSigned.exists_sign (signed : InnerSigned body value) :
    ∃ first mark own digits magnitude, body = first :: mark ++ own :: digits ∧ (own = '+' ∨ own = '-') ∧
      Magnitude (first :: mark ++ digits) magnitude := by
  have written : ∀ entry ∈ marks, entry.1 ≠ [] := by decide
  cases signed with
  | plus listed denotes =>
    obtain ⟨first, mark, rfl⟩ := List.exists_cons_of_ne_nil (written _ listed)
    exact ⟨first, mark, '+', _, _, rfl, .inl rfl, .marked listed denotes⟩
  | minus listed denotes =>
    obtain ⟨first, mark, rfl⟩ := List.exists_cons_of_ne_nil (written _ listed)
    exact ⟨first, mark, '-', _, _, rfl, .inr rfl, .marked listed denotes⟩

theorem InnerSigned.not_magnitude (signed : InnerSigned body value) : ¬ Magnitude body magnitude := by
  obtain ⟨first, mark, own, digits, _, rfl, signs, -⟩ := signed.exists_sign
  intro denoted
  have foreign : (own.isAlphanum || own == '$') = false := by rcases signs with rfl | rfl <;> rfl
  exact denoted.not_mem foreign (by simp)

structure Bare (body : List Char) : Prop where
  solid : ∀ c ∈ body, isBlank c = false
  start : ∃ first rest, body = first :: rest ∧ first ≠ '#' ∧ first ≠ '-'

theorem Magnitude.bare (denoted : Magnitude body magnitude) : Bare body := by
  refine ⟨fun c member => denoted.solid member, ?_⟩
  obtain ⟨first, rest, rfl⟩ := List.exists_cons_of_ne_nil denoted.written
  refine ⟨first, rest, rfl, ?_, ?_⟩
  · rintro rfl
    exact denoted.not_mem rfl List.mem_cons_self
  · rintro rfl
    exact denoted.not_mem rfl List.mem_cons_self

theorem InnerSigned.bare (signed : InnerSigned body value) : Bare body := by
  obtain ⟨first, mark, own, digits, _, rfl, signs, denoted⟩ := signed.exists_sign
  obtain ⟨solid, start⟩ := denoted.bare
  refine ⟨?_, ?_⟩
  · have blank : isBlank own = false := by rcases signs with rfl | rfl <;> rfl
    simp only [List.forall_mem_append, List.forall_mem_cons] at solid ⊢
    exact ⟨solid.1, blank, solid.2⟩
  · obtain ⟨_, rest, same, plain⟩ := start
    cases same
    exact ⟨_, _, rfl, plain⟩

end

/-! ## Texts -/

section

variable {text : String} {negative : Bool} {body : List Char}

theorem exists_spelled (text : String) : ∃ negative body, Spelled text negative body ∧
    read? text = ((unmarked? body).filter inRange).map (if negative then opposite else id) := by
  obtain ⟨before, after, blank, whole⟩ := exists_blanks_trim text.toList
  obtain ⟨hash, hashed, trimmed⟩ : ∃ hash, (hash = [] ∨ hash = ['#']) ∧
      trim text.toList = hash ++ dropHash (trim text.toList) := by
    unfold dropHash
    split
    case h_1 => exact ⟨['#'], .inr rfl, by assumption⟩
    case h_2 => exact ⟨[], .inl rfl, rfl⟩
  rw [trimmed] at whole
  unfold read?
  split
  case h_1 digits signed =>
    rw [signed] at whole
    exact ⟨true, digits, ⟨before, hash, after, blank, hashed, whole⟩, rfl⟩
  case h_2 =>
    refine ⟨false, dropHash (trim text.toList), ⟨before, hash, after, blank, hashed, whole⟩, ?_⟩
    rw [if_neg Bool.false_ne_true, Option.map_id, id]

theorem Spelled.dropHash_trim (spelled : Spelled text negative body) (bare : Bare body) :
    dropHash (trim text.toList) = sign negative ++ body := by
  obtain ⟨before, hash, after, blank, hashed, whole⟩ := spelled
  obtain ⟨first, rest, rfl, unhashed, -⟩ := bare.start
  have solid : ∀ c ∈ hash ++ (sign negative ++ first :: rest), isBlank c = false := by
    have hash_solid : ∀ c ∈ hash, isBlank c = false := by
      rcases hashed with rfl | rfl
      · exact List.forall_mem_nil _
      · exact List.forall_mem_singleton.mpr rfl
    have sign_solid : ∀ c ∈ sign negative, isBlank c = false := by
      cases negative with
      | true => exact List.forall_mem_singleton.mpr rfl
      | false => exact List.forall_mem_nil _
    rw [List.forall_mem_append, List.forall_mem_append]
    exact ⟨hash_solid, sign_solid, bare.solid⟩
  rw [whole, trim_blanks_append blank (.of_solid solid)]
  rcases hashed with rfl | rfl
  · -- Such a text begins with the sign or with the body, and neither begins with `#`.
    cases negative <;> simp [dropHash, sign, unhashed]
  · rfl

theorem Spelled.read? (spelled : Spelled text negative body) (bare : Bare body) :
    Numeral.read? text = ((unmarked? body).filter inRange).map (if negative then opposite else id) := by
  obtain ⟨first, rest, rfl, -, unsigned⟩ := bare.start
  rw [Numeral.read?, spelled.dropHash_trim bare]
  cases negative with
  | true => rfl
  | false => simp [sign, unsigned]

theorem Spelled.unique {negative' : Bool} {body' : List Char} (spelled : Spelled text negative body) (bare : Bare body)
    (spelled' : Spelled text negative' body') (bare' : Bare body') : body = body' := by
  have same : sign negative ++ body = sign negative' ++ body' := by
    rw [← spelled.dropHash_trim bare, spelled'.dropHash_trim bare']
  obtain ⟨first, rest, rfl, -, unsigned⟩ := bare.start
  obtain ⟨first', rest', rfl, -, unsigned'⟩ := bare'.start
  cases negative <;> cases negative' <;> simp only [sign, List.nil_append, List.cons_append, List.cons.injEq] at same
  · rw [same.1, same.2]
  · exact absurd same.1 unsigned
  · exact absurd same.1.symm unsigned'
  · rw [same.2.1, same.2.2]

end

theorem inRange_iff {value : Int} : inRange value = true ↔ -2 ^ 63 ≤ value ∧ value ≤ 2 ^ 63 - 1 := by
  simp only [inRange, Bool.and_eq_true, decide_eq_true_eq]
  omega

theorem opposite_eq {value : Int} (least : -2 ^ 63 ≤ value) (most : value ≤ 2 ^ 63 - 1) :
    opposite value = if value = -2 ^ 63 then value else -value := by
  rw [opposite, Int.bmod]
  split_ifs <;> omega

theorem Spelled.read?_magnitude {text : String} {negative : Bool} {body : List Char} {magnitude : Nat}
    (spelled : Spelled text negative body) (denoted : Magnitude body magnitude) :
    Numeral.read? text =
      if magnitude ≤ 2 ^ 63 - 1 then some (if negative then -(magnitude : Int) else magnitude) else none := by
  have recognised : unmarked? body = some (magnitude : Int) := unmarked?_eq_some.mpr (.inl ⟨magnitude, denoted, rfl⟩)
  rw [spelled.read? denoted.bare, recognised]
  by_cases fits : magnitude ≤ 2 ^ 63 - 1
  · have inside : inRange magnitude = true := inRange_iff.mpr (by omega)
    rw [if_pos fits, Option.filter_some_pos inside, Option.map_some]
    cases negative with
    | true =>
      have opposed : opposite magnitude = -magnitude := by
        rw [opposite_eq (by omega) (by omega), if_neg (by omega)]
      rw [if_pos rfl, if_pos rfl, opposed]
    | false => rfl
  · have outside : inRange magnitude = false := by
      rw [← Bool.not_eq_true, inRange_iff]
      omega
    rw [if_neg fits, Option.filter_some_neg outside, Option.map_none]

section

variable {text : String} {value other : Int}

theorem IsLiteral.read? (literal : IsLiteral text value) : Numeral.read? text = some value := by
  cases literal with
  | intro spelled denoted fits => rw [spelled.read?_magnitude denoted, if_pos fits]

theorem HasInnerSign.read? (signed : HasInnerSign text value) : Numeral.read? text = some value := by
  cases signed with
  | @intro negative body inner spelled signed least most =>
    have inside : inRange inner = true := inRange_iff.mpr ⟨least, most⟩
    rw [spelled.read? signed.bare, unmarked?_eq_some.mpr (.inr signed), Option.filter_some_pos inside, Option.map_some]
    cases negative with
    | true =>
      rw [if_pos rfl, opposite_eq least most]
      by_cases extreme : inner = -2 ^ 63 <;> simp [extreme]
    | false => simp

theorem isLiteral_or_hasInnerSign (read : Numeral.read? text = some value) :
    IsLiteral text value ∨ HasInnerSign text value := by
  obtain ⟨negative, body, spelled, found⟩ := exists_spelled text
  obtain ⟨inner, kept, -⟩ := Option.map_eq_some_iff.mp (found.symm.trans read)
  obtain ⟨recognised, inside⟩ := Option.filter_eq_some_iff.mp kept
  obtain ⟨least, most⟩ := inRange_iff.mp inside
  -- The text denotes a number by one of the rules, and what it denotes is what was read.
  rcases unmarked?_eq_some.mp recognised with ⟨magnitude, denoted, rfl⟩ | signed
  · have literal := IsLiteral.intro spelled denoted (by omega)
    rw [literal.read?, Option.some.injEq] at read
    exact .inl (read ▸ literal)
  · have literal := HasInnerSign.intro spelled signed least most
    rw [literal.read?, Option.some.injEq] at read
    exact .inr (read ▸ literal)

theorem IsLiteral.not_hasInnerSign (literal : IsLiteral text value) : ¬ HasInnerSign text other := by
  rintro ⟨spelled', signed, -, -⟩
  obtain ⟨spelled, denoted, -⟩ := literal
  have same := spelled.unique denoted.bare spelled' signed.bare
  subst same
  exact signed.not_magnitude denoted

end

/-- A text is read as a number exactly if it is a numeral of this number, or is like one but has a further sign behind
its mark, and then it is no numeral. -/
theorem read_iff_literal (text : String) :
    (∀ value, read? text = some value ↔ IsLiteral text value ∨ HasInnerSign text value) ∧
      ∀ value other, IsLiteral text value → ¬ HasInnerSign text other := by
  refine ⟨fun value => ?_, fun value other literal => literal.not_hasInnerSign⟩
  constructor
  · exact isLiteral_or_hasInnerSign
  · rintro (literal | signed)
    · exact literal.read?
    · exact signed.read?

theorem read_inner_sign : read? "0x-5" = some (-5) ∧ ¬ ∃ value, IsLiteral "0x-5" value := by
  have five : Denotes 16 ['5'] 5 := .single ⟨by decide, .inl rfl⟩
  have listed : (['0', 'x'], 16) ∈ marks := by decide
  have spelled : Spelled "0x-5" false ['0', 'x', '-', '5'] := ⟨[], [], [], by simp, .inl rfl, rfl⟩
  have signed : HasInnerSign "0x-5" (-5) := .intro spelled (.minus listed five) (by decide) (by decide)
  refine ⟨signed.read?, ?_⟩
  rintro ⟨value, literal⟩
  exact literal.not_hasInnerSign signed

end DspAsm.Numeral
