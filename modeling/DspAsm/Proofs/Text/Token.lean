import DspAsm.Proofs.Outcome
import DspAsm.Text.Token

namespace DspAsm.Text

/-! ## Pieces -/

@[simp] theorem pieces_nil (cut : Char → Bool) : pieces cut [] = [[]] := rfl

theorem pieces_cons_cut {cut : Char → Bool} {c : Char} (cuts : cut c = true) (text : List Char) :
    pieces cut (c :: text) = [] :: pieces cut text := by
  rw [pieces, List.foldr_cons, if_pos cuts, pieces]

theorem pieces_ne_nil (cut : Char → Bool) (text : List Char) : pieces cut text ≠ [] := by
  cases text with
  | nil => simp
  | cons c text =>
    rw [pieces, List.foldr_cons]
    split
    · simp
    · split <;> simp

theorem pieces_append_cut {cut : Char → Bool} {c : Char} (cuts : cut c = true) (before after : List Char) :
    pieces cut (before ++ c :: after) = pieces cut before ++ pieces cut after := by
  induction before with
  | nil => rw [List.nil_append, pieces_cons_cut cuts, pieces_nil, List.singleton_append]
  | cons first rest ih =>
    rw [List.cons_append, pieces, List.foldr_cons, ← pieces, ih]
    conv_rhs => rw [pieces, List.foldr_cons, ← pieces]
    cases found : pieces cut rest with
    | nil => exact absurd found (pieces_ne_nil cut rest)
    | cons piece later => by_cases h : cut first = true <;> simp [h]

theorem pieces_of_no_cut {cut : Char → Bool} {text : List Char} (whole : ∀ c ∈ text, cut c = false) :
    pieces cut text = [text] := by
  induction text with
  | nil => rfl
  | cons c text ih =>
    rw [pieces, List.foldr_cons, ← pieces, ih fun c member => whole c (List.mem_cons_of_mem _ member)]
    simp [whole c List.mem_cons_self]

theorem pieces_of_not_mem {mark : Char} {text : List Char} (plain : mark ∉ text) :
    pieces (· == mark) text = [text] := by
  apply pieces_of_no_cut
  intro c member
  rw [beq_eq_false_iff_ne]
  intro same
  exact plain (same ▸ member)

theorem pieces_eq_pair {mark : Char} {text left right : List Char} :
    pieces (· == mark) text = [left, right] ↔ text = left ++ mark :: right ∧ mark ∉ left ∧ mark ∉ right := by
  have cut (before after : List Char) (plain : mark ∉ before) :
      pieces (· == mark) (before ++ mark :: after) = before :: pieces (· == mark) after := by
    rw [@pieces_append_cut (· == mark) mark (beq_self_eq_true mark), pieces_of_not_mem plain, List.singleton_append]
  constructor
  · intro pair
    by_cases marked : mark ∈ text
    · obtain ⟨before, after, rfl, plain⟩ := List.eq_append_cons_of_mem marked
      rw [cut before after plain, List.cons.injEq] at pair
      obtain ⟨rfl, pair⟩ := pair
      by_cases again : mark ∈ after
      · obtain ⟨middle, last, rfl, plain'⟩ := List.eq_append_cons_of_mem again
        rw [cut middle last plain', List.cons.injEq] at pair
        exact absurd pair.2 (pieces_ne_nil _ last)
      · rw [pieces_of_not_mem again, List.singleton_inj] at pair
        exact ⟨by rw [pair], plain, pair ▸ again⟩
    · rw [pieces_of_not_mem marked] at pair
      simp at pair
  · rintro ⟨rfl, plain, plain'⟩
    rw [cut left right plain, pieces_of_not_mem plain']

theorem of_mem_pieces {cut : Char → Bool} {text piece : List Char} (member : piece ∈ pieces cut text) {c : Char}
    (inside : c ∈ piece) : cut c = false ∧ c ∈ text := by
  induction text generalizing piece with
  | nil =>
    rw [List.mem_singleton.mp member] at inside
    cases inside
  | cons first rest ih =>
    by_cases cuts : cut first = true
    · rw [pieces_cons_cut cuts, List.mem_cons] at member
      rcases member with rfl | member
      · cases inside
      · exact (ih member inside).imp_right (List.mem_cons_of_mem _)
    · obtain ⟨piece', later, found⟩ := List.exists_cons_of_ne_nil (pieces_ne_nil cut rest)
      rw [pieces, List.foldr_cons, ← pieces, if_neg cuts, found, List.mem_cons] at member
      rw [found] at ih
      rcases member with rfl | member
      · rcases List.mem_cons.mp inside with rfl | inside
        · exact ⟨Bool.eq_false_of_not_eq_true cuts, List.mem_cons_self⟩
        · exact (ih List.mem_cons_self inside).imp_right (List.mem_cons_of_mem _)
      · exact (ih (List.mem_cons_of_mem _ member) inside).imp_right (List.mem_cons_of_mem _)

/-! ## Lines -/

theorem dropReturn_of_not_mem {line : List Char} (plain : '\r' ∉ line) : dropReturn line = line := by
  apply if_neg
  intro last
  exact plain (List.mem_of_getLast? last)

theorem lines_flatMap {rows : List (List Char)} (whole : ∀ row ∈ rows, '\n' ∉ row) (plain : ∀ row ∈ rows, '\r' ∉ row) :
    lines (rows.flatMap fun row => row ++ ['\n']) = rows := by
  have cut : pieces (· == '\n') (rows.flatMap fun row => row ++ ['\n']) = rows ++ [[]] := by
    clear plain
    induction rows with
    | nil => rfl
    | cons row rows ih =>
      rw [List.flatMap_cons, List.append_assoc, List.singleton_append, pieces_append_cut (by simp),
        pieces_of_not_mem (whole row List.mem_cons_self),
        ih fun row member => whole row (List.mem_cons_of_mem _ member)]
      rfl
  have kept : rows.map dropReturn = rows := by
    rw [List.map_congr_left fun row member => dropReturn_of_not_mem (plain row member), List.map_id']
  rw [lines, cut]
  simp [kept]

/-! ## Tokens -/

structure IsToken (token : String) : Prop where
  nonempty : token.toList ≠ []
  unbroken : ∀ c ∈ token.toList, isSeparator c = false
  uncommented : ';' ∉ token.toList
  upper_eq : upper token.toList = token.toList

theorem stripComment_append {before : List Char} (plain : ';' ∉ before) (after : List Char) :
    stripComment (before ++ after) = before ++ stripComment after := by
  rw [stripComment, List.takeWhile_append_of_pos]
  · rfl
  · intro c member
    have : c ≠ ';' := fun equal => plain (equal ▸ member)
    simp [this]

theorem stripComment_eq_self {text : List Char} (plain : ';' ∉ text) : stripComment text = text := by
  have := stripComment_append plain []
  simpa [stripComment] using this

theorem stripComment_stripComment (line : List Char) : stripComment (stripComment line) = stripComment line :=
  List.takeWhile_idem

theorem tokens_stripComment (line : List Char) : tokens (stripComment line) = tokens line := by
  rw [tokens, stripComment_stripComment, tokens]

theorem tokens_append_separator {before : List Char} (plain : ';' ∉ before) {c : Char}
    (separates : isSeparator c = true) (after : List Char) :
    tokens (before ++ c :: after) = tokens before ++ tokens after := by
  have kept : c ≠ ';' := by
    rintro rfl
    exact absurd separates (by decide)
  have strip : stripComment (c :: after) = c :: stripComment after := by
    rw [stripComment, List.takeWhile_cons_of_pos (by simp [kept]), stripComment]
  simp only [tokens]
  rw [stripComment_append plain, strip, pieces_append_cut separates, stripComment_eq_self plain, List.filter_append,
    List.map_append]

theorem tokens_gap_append {gap : List Char} (separates : ∀ c ∈ gap, isSeparator c = true) (after : List Char) :
    tokens (gap ++ after) = tokens after := by
  induction gap with
  | nil => rfl
  | cons c gap ih =>
    have cut : tokens ([] ++ c :: (gap ++ after)) = tokens [] ++ tokens (gap ++ after) :=
      tokens_append_separator (by simp) (separates c List.mem_cons_self) (gap ++ after)
    rw [ih fun c member => separates c (List.mem_cons_of_mem _ member)] at cut
    exact cut

theorem tokens_append_gap {before : List Char} (plain : ';' ∉ before) {gap : List Char} (written : gap ≠ [])
    (separates : ∀ c ∈ gap, isSeparator c = true) (after : List Char) :
    tokens (before ++ (gap ++ after)) = tokens before ++ tokens after := by
  cases gap with
  | nil => exact absurd rfl written
  | cons c gap =>
    rw [List.cons_append, tokens_append_separator plain (separates c List.mem_cons_self),
      tokens_gap_append fun c member => separates c (List.mem_cons_of_mem _ member)]

theorem tokens_token {token : String} (valid : IsToken token) : tokens token.toList = [token] := by
  rw [tokens, stripComment_eq_self valid.uncommented, pieces_of_no_cut valid.unbroken]
  simp [valid.nonempty, valid.upper_eq]

end DspAsm.Text
