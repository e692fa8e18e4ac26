import DspAsm.Proofs.Listing.Row

namespace DspAsm
open Text

/-! ## Screens -/

/-- The text as it is seen from a column on: a tab is blank up to the next tab stop. -/
def expandTabs (column : Nat) : List Char → List Char
  | [] => []
  | c :: text =>
    if c = '\t' then
      List.replicate ((column / 8 + 1) * 8 - column) ' ' ++ expandTabs ((column / 8 + 1) * 8) text
    else c :: expandTabs (column + 1) text

def drawn (column : Nat) : List (Nat × String) → List Char
  | [] => []
  | (start, cell) :: later =>
    List.replicate (start - column) ' ' ++ (cell.toList ++ drawn (start + cell.length) later)

theorem expandTabs_append {text : List Char} (untabbed : '\t' ∉ text) (column : Nat) (rest : List Char) :
    expandTabs column (text ++ rest) = text ++ expandTabs (column + text.length) rest := by
  induction text generalizing column with
  | nil => rfl
  | cons c text ih =>
    rw [List.mem_cons, not_or] at untabbed
    rw [List.cons_append, expandTabs, if_neg (Ne.symm untabbed.1), ih untabbed.2, List.length_cons, List.cons_append,
      Nat.add_right_comm, Nat.add_assoc]

theorem expandTabs_tabs (count column : Nat) (rest : List Char) :
    expandTabs column (List.replicate (count + 1) '\t' ++ rest) =
      List.replicate ((column / 8 + (count + 1)) * 8 - column) ' ' ++
        expandTabs ((column / 8 + (count + 1)) * 8) rest := by
  induction count generalizing column with
  | zero => rfl
  | succ count ih =>
    have reached : (column / 8 + 1) * 8 / 8 + (count + 1) = column / 8 + (count + 1 + 1) := by omega
    have onward : (column / 8 + 1) * 8 - column + ((column / 8 + (count + 1 + 1)) * 8 - (column / 8 + 1) * 8) =
        (column / 8 + (count + 1 + 1)) * 8 - column := by omega
    rw [List.replicate_succ, List.cons_append, expandTabs, if_pos rfl, ih, reached, ← List.append_assoc,
      List.replicate_append_replicate, onward]

/-! ## Columns -/

def stopsAcross (width length : Nat) : Nat :=
  length / 8 + tabsAfter width length

theorem stopsAcross_eq_max (width length : Nat) :
    stopsAcross width length = max (length / 8 + 1) ((width + 7) / 8) := by
  rw [stopsAcross, tabsAfter_eq]
  omega

def placed (width column : Nat) : List String → List (Nat × String)
  | [] => []
  | cell :: cells => (column, cell) :: placed width (column + stopsAcross width cell.length * 8) cells

theorem map_snd_placed (width column : Nat) (cells : List String) :
    (placed width column cells).map Prod.snd = cells := by
  induction cells generalizing column with
  | nil => rfl
  | cons cell cells ih => rw [placed, List.map_cons, ih]

theorem columns_eq (width : Nat) (cell next : String) (cells : List String) :
    (columns width (cell :: next :: cells)).toList =
      cell.toList ++ (List.replicate (tabsAfter width cell.length) '\t' ++ (columns width (next :: cells)).toList) := by
  rw [columns, String.toList_append, String.toList_append, String.toList_ofList, List.append_assoc]
  simp

theorem expandTabs_columns (width stops : Nat) {cells : List String} (untabbed : ∀ cell ∈ cells, '\t' ∉ cell.toList) :
    expandTabs (stops * 8) (columns width cells).toList = drawn (stops * 8) (placed width (stops * 8) cells) := by
  induction cells generalizing stops with
  | nil => rfl
  | cons cell cells ih =>
    rw [List.forall_mem_cons] at untabbed
    rw [placed, drawn, Nat.sub_self, List.replicate_zero, List.nil_append]
    cases cells with
    | nil =>
      have seen := expandTabs_append untabbed.1 (stops * 8) []
      rw [List.append_nil] at seen
      exact seen
    | cons next cells =>
      have tabbed : tabsAfter width cell.length = tabsAfter width cell.length - 1 + 1 := by
        rw [tabsAfter_eq]
        omega
      have across : stops * 8 + stopsAcross width cell.length * 8 = (stops + stopsAcross width cell.length) * 8 := by
        omega
      have reached : (stops * 8 + cell.length) / 8 + tabsAfter width cell.length =
          stops + stopsAcross width cell.length := by
        rw [stopsAcross]
        omega
      rw [columns_eq, expandTabs_append untabbed.1, String.length_toList, tabbed, expandTabs_tabs, ← tabbed, reached,
        ih (stops + stopsAcross width cell.length) untabbed.2, across]
      simp [placed, drawn]

theorem dvd_of_mem_placed {width column : Nat} (stop : 8 ∣ column) {cells : List String} {cell : Nat × String}
    (member : cell ∈ placed width column cells) : 8 ∣ cell.1 := by
  induction cells generalizing column with
  | nil => cases member
  | cons first cells ih =>
    rw [placed, List.mem_cons] at member
    rcases member with rfl | member
    · exact stop
    · exact ih (by omega) member

theorem isChain_placed (width column : Nat) (cells : List String) :
    (placed width column cells).IsChain fun cell next => cell.1 + cell.2.length < next.1 := by
  induction cells generalizing column with
  | nil => exact List.isChain_nil
  | cons cell cells ih =>
    cases cells with
    | nil => exact List.isChain_singleton _
    | cons next cells =>
      have apart : column + cell.length < column + stopsAcross width cell.length * 8 := by
        rw [stopsAcross_eq_max]
        omega
      rw [placed, placed, List.isChain_cons_cons]
      exact ⟨apart, ih _⟩

theorem start_of_placed {width column : Nat} {cells : List String}
    (fits : ∀ cell ∈ cells.dropLast, cell.length < 8 * ((width + 7) / 8)) {index : Nat} {cell : Nat × String}
    (found : (placed width column cells)[index]? = some cell) :
    cell.1 = column + index * (8 * ((width + 7) / 8)) := by
  induction cells generalizing column index with
  | nil => cases found
  | cons first cells ih =>
    rw [placed] at found
    cases index with
    | zero =>
      cases found
      omega
    | succ index =>
      cases cells with
      | nil => cases found
      | cons next cells =>
        rw [List.dropLast_cons_cons, List.forall_mem_cons] at fits
        have start := ih fits.2 found
        have across : stopsAcross width first.length = (width + 7) / 8 := by
          rw [stopsAcross_eq_max]
          omega
        rw [start, across]
        ring

/-! ## Cells -/

theorem not_mem_operands {mark : Char} (comma : mark ≠ ',') {operands : List String}
    (absent : ∀ operand ∈ operands, mark ∉ operand.toList) : mark ∉ (",".intercalate operands).toList := by
  induction operands with
  | nil => exact List.not_mem_nil
  | cons operand operands ih =>
    rw [List.forall_mem_cons] at absent
    cases operands with
    | nil =>
      rw [String.intercalate_singleton]
      exact absent.1
    | cons next operands =>
      rw [String.intercalate_cons_cons, String.toList_append, String.toList_append, List.mem_append, List.mem_append,
        not_or, not_or]
      exact ⟨⟨absent.1, by simpa using comma⟩, ih absent.2⟩

theorem Phrase.not_mem_text {phrase : Phrase} {mark : Char} (absent : ∀ token ∈ phrase, mark ∉ token.toList)
    (space : mark ≠ ' ') (comma : mark ≠ ',') : mark ∉ phrase.text.toList := by
  match phrase with
  | [] => exact List.not_mem_nil
  | [mnemonic] => exact absent mnemonic List.mem_cons_self
  | mnemonic :: operand :: operands =>
    rw [List.forall_mem_cons] at absent
    rw [text, String.toList_append, String.toList_append, List.mem_append, List.mem_append, not_or, not_or]
    · exact ⟨⟨absent.1, by simpa using space⟩, not_mem_operands comma absent.2⟩
    · simp

namespace Slots

theorem untabbed (slots : Slots) : ∀ cell ∈ slots.phrases.map Phrase.text, '\t' ∉ cell.toList := by
  rw [List.forall_mem_map]
  intro phrase member
  apply Phrase.not_mem_text
  · intro token among
    exact ((printable member).inked token among).not_mem (by decide)
  · decide
  · decide

theorem length_cell_lt (slots : Slots) : ∀ cell ∈ (slots.phrases.map Phrase.text).dropLast, cell.length < 16 := by
  have alu : (Phrase.text [CodeTable.name slots.alu]).length < 16 := by
    cases slots.alu <;> decide
  have xBus : ∀ phrase ∈ slots.xBus.phrases, phrase.text.length < 16 := by
    cases slots.xBus with
    | nop | movMulP => decide
    | movSrcP source | movSrcX source | movSrcXMulP source => cases source <;> decide
  have yBus : ∀ phrase ∈ slots.yBus.phrases, phrase.text.length < 16 := by
    cases slots.yBus with
    | nop | clrA | movAluA => decide
    | movSrcA source | movSrcY source | movSrcYAluA source => cases source <;> decide
  rw [phrases, ← List.map_dropLast, List.dropLast_concat, List.forall_mem_map, List.forall_mem_append,
    List.forall_mem_append, List.forall_mem_singleton]
  exact ⟨⟨alu, xBus⟩, yBus⟩

/-- On a screen the row of a compound instruction shows its cells in order. Each begins at a tab stop, beyond the end of the
one before. From a width of nine on, which leaves room for every cell, they begin at the multiples of the width rounded up
to a tab stop. -/
theorem row_aligned (scope : Scope) (layout : Layout) (slots : Slots) :
    ∃ cells : List (Nat × String), cells.map Prod.snd = slots.phrases.map Phrase.text ∧
      expandTabs 0 ((Instruction.compound slots).row scope layout).toList = drawn 0 cells ∧
      (∀ cell ∈ cells, 8 ∣ cell.1) ∧ (cells.IsChain fun cell next => cell.1 + cell.2.length < next.1) ∧
      (9 ≤ layout.columnWidth → ∀ index cell, cells[index]? = some cell →
        cell.1 = index * (8 * ((layout.columnWidth + 7) / 8))) := by
  refine ⟨placed layout.columnWidth 0 (slots.phrases.map Phrase.text), map_snd_placed _ _ _,
    expandTabs_columns layout.columnWidth 0 slots.untabbed, fun cell => dvd_of_mem_placed (Nat.dvd_zero 8),
    isChain_placed _ _ _, ?_⟩
  intro wide index cell found
  have fits : ∀ cell ∈ (slots.phrases.map Phrase.text).dropLast, cell.length < 8 * ((layout.columnWidth + 7) / 8) := by
    intro cell member
    have short := slots.length_cell_lt cell member
    omega
  rw [start_of_placed fits found, Nat.zero_add]

theorem row_aligned_six_cells :
    ∃ cells : List (Nat × String),
      cells.map Prod.snd = ["AD2", "MOV MC0,X", "MOV MUL,P", "MOV RAM1,Y", "MOV ALU,A", "MOV #255,CT0"] ∧
      expandTabs 0 ((Instruction.compound ⟨.ad2, .movSrcXMulP .mc0, .movSrcYAluA .ram1, .movImm 255 .ct0⟩).row {}
        { columnWidth := 20 }).toList = drawn 0 cells ∧
      ∀ index cell, cells[index]? = some cell → cell.1 = index * 24 := by
  obtain ⟨cells, texts, seen, -, -, aligned⟩ :=
    row_aligned {} { columnWidth := 20 } ⟨.ad2, .movSrcXMulP .mc0, .movSrcYAluA .ram1, .movImm 255 .ct0⟩
  exact ⟨cells, texts, seen, aligned (by decide)⟩

end Slots

end DspAsm
