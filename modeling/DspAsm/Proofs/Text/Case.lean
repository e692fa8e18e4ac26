import DspAsm.Proofs.Text.Name

namespace DspAsm.Text

theorem isAlpha_iff {c : Char} :
    c.isAlpha = true ↔ (65 ≤ c.toNat ∧ c.toNat ≤ 90) ∨ (97 ≤ c.toNat ∧ c.toNat ≤ 122) := by
  have lower : c.isLower = true ↔ 97 ≤ c.toNat ∧ c.toNat ≤ 122 := by
    simp only [Char.isLower, Bool.and_eq_true, decide_eq_true_eq, ge_iff_le, UInt32.le_iff_toNat_le, ← Char.toNat_val]
    rfl
  rw [Char.isAlpha, Bool.or_eq_true, isUpper_iff, lower]

/-- What holds of no letter holds of a character in upper case exactly if it holds of the character. -/
theorem apply_toUpper {holds : Char → Bool} (letters : ∀ c, c.isAlpha = true → holds c = false) (c : Char) :
    holds c.toUpper = holds c := by
  by_cases lower : c.isLower = true
  · rw [letters c (by simp [Char.isAlpha, lower]), letters c.toUpper (by simp [Char.isAlpha, lower])]
  · rw [Char.toUpper_eq_of_not_isLower lower]

theorem beq_of_isAlpha {mark c : Char} (plain : mark.isAlpha = false) (letter : c.isAlpha = true) :
    (c == mark) = false := by
  rw [beq_eq_false_iff_ne]
  rintro rfl
  rw [letter] at plain
  cases plain

theorem toUpper_beq {mark : Char} (plain : mark.isAlpha = false) (c : Char) : (c.toUpper == mark) = (c == mark) :=
  @apply_toUpper (· == mark) (fun _ letter => beq_of_isAlpha plain letter) c

theorem isDigit_toUpper (c : Char) : c.toUpper.isDigit = c.isDigit := by
  apply apply_toUpper
  intro c letter
  rw [isAlpha_iff] at letter
  rw [← Bool.not_eq_true, isDigit_iff]
  omega

theorem isSeparator_toUpper (c : Char) : isSeparator c.toUpper = isSeparator c := by
  apply apply_toUpper
  intro c letter
  have comma : (c == ',') = false := beq_of_isAlpha (by decide) letter
  rw [isAlpha_iff] at letter
  rw [isSeparator, comma, Bool.or_false]
  exact isBlank_eq_false (by omega)

theorem mem_upper {mark : Char} (plain : mark.isAlpha = false) {text : List Char} :
    mark ∈ upper text ↔ mark ∈ text := by
  have same (c : Char) : c.toUpper = mark ↔ c = mark := by
    rw [← beq_iff_eq, toUpper_beq plain, beq_iff_eq]
  simp [upper, same]

theorem upper_upper (text : List Char) : upper (upper text) = upper text := by
  simp [upper]

theorem pieces_map {cut : Char → Bool} {f : Char → Char} (same : ∀ c, cut (f c) = cut c) (text : List Char) :
    pieces cut (text.map f) = (pieces cut text).map (List.map f) := by
  induction text with
  | nil => rfl
  | cons c text ih =>
    rw [List.map_cons, pieces, List.foldr_cons, ← pieces, ih, same]
    conv_rhs => rw [pieces, List.foldr_cons, ← pieces]
    cases pieces cut text <;> split_ifs <;> rfl

theorem dropReturn_upper (line : List Char) : dropReturn (upper line) = upper (dropReturn line) := by
  have ends : (upper line).getLast? = some '\r' ↔ line.getLast? = some '\r' := by
    have same (c : Char) : c.toUpper = '\r' ↔ c = '\r' := by
      rw [← beq_iff_eq, toUpper_beq (by decide), beq_iff_eq]
    simp [upper, same]
  simp only [dropReturn, ends]
  split_ifs
  · exact List.map_dropLast.symm
  · rfl

theorem lines_upper (text : List Char) : lines (upper text) = (lines text).map upper := by
  have found : pieces (· == '\n') (upper text) = (pieces (· == '\n') text).map upper :=
    pieces_map (toUpper_beq (by decide)) text
  have returns : dropReturn ∘ upper = upper ∘ dropReturn := funext dropReturn_upper
  -- Only an empty piece is empty in upper case, so both texts end with a line feed or neither does.
  have ends (last : Option (List Char)) : (last.map upper).filter (· ≠ []) = (last.filter (· ≠ [])).map upper := by
    cases last with
    | none => rfl
    | some piece => cases piece <;> rfl
  simp only [lines, found, ← List.map_dropLast, List.getLast?_map, ends, List.map_append, List.map_map, returns,
    Option.toList_map]

theorem stripComment_upper (line : List Char) : stripComment (upper line) = upper (stripComment line) := by
  have kept (c : Char) : decide (c.toUpper ≠ ';') = decide (c ≠ ';') := by
    have same := toUpper_beq (show ';'.isAlpha = false by decide) c
    rw [decide_not, decide_not, ← beq_eq_decide, ← beq_eq_decide, same]
  rw [stripComment, upper, List.takeWhile_map]
  simp only [Function.comp_def, kept]
  rfl

theorem tokens_upper (line : List Char) : tokens (upper line) = tokens line := by
  rw [tokens, stripComment_upper, upper, pieces_map isSeparator_toUpper, List.filter_map, List.map_map]
  simp [tokens, upper, Function.comp_def]

end DspAsm.Text
