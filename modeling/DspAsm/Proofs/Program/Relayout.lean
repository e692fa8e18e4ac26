import DspAsm.Proofs.Program.Source
import DspAsm.Proofs.Text.Case

namespace DspAsm
open Text

inductive LayoutEdit : List (List Char) → List (List Char) → Prop
  | case {texts texts' : List (List Char)} (same : texts.map upper = texts'.map upper) : LayoutEdit texts texts'
  | comment {texts texts' : List (List Char)} (same : texts.map stripComment = texts'.map stripComment) :
      LayoutEdit texts texts'
  | blank (before after : List (List Char)) {text : List Char} (empty : tokens text = []) :
      LayoutEdit (before ++ after) (before ++ text :: after)
  | definition (before between after : List (List Char)) {text : List Char} {written : String}
      (spelled : SourceLine.Spells text (.constant written)) :
      LayoutEdit (before ++ text :: (between ++ after)) (before ++ (between ++ text :: after))

def Relayout (source source' : String) : Prop :=
  Relation.EqvGen LayoutEdit (lines source.toList) (lines source'.toList)

namespace SourceLine

variable {rows rows' : List SourceLine} {row : SourceLine}

theorem read_upper (text : List Char) : read (upper text) = read text := by
  simp only [read, tokens_upper, stripComment_upper, mem_upper (show '='.isAlpha = false by decide), upper_upper]

theorem read_stripComment (text : List Char) : read (stripComment text) = read text := by
  simp only [read, tokens_stripComment, stripComment_stripComment]

/-- The line has a place in program RAM: it carries an instruction or names one. -/
def isCode : SourceLine → Bool
  | label _ _ | instruction _ => true
  | blank | constant _ => false

def isConstant : SourceLine → Bool
  | constant _ => true
  | blank | label _ _ | instruction _ => false

structure SameContent (rows rows' : List SourceLine) : Prop where
  code_eq : rows.filter isCode = rows'.filter isCode
  constants_perm : (rows.filter isConstant).Perm (rows'.filter isConstant)

namespace SameContent

theorem refl (rows : List SourceLine) : SameContent rows rows :=
  ⟨rfl, .refl _⟩

theorem symm (same : SameContent rows rows') : SameContent rows' rows :=
  ⟨same.code_eq.symm, same.constants_perm.symm⟩

theorem trans {rows'' : List SourceLine} (same : SameContent rows rows') (same' : SameContent rows' rows'') :
    SameContent rows rows'' :=
  ⟨same.code_eq.trans same'.code_eq, same.constants_perm.trans same'.constants_perm⟩

end SameContent

theorem filterMap_filter_eq {α : Type} {part : SourceLine → Bool} {says? : SourceLine → Option α}
    (silent : ∀ row, part row = false → says? row = none) (rows : List SourceLine) :
    (rows.filter part).filterMap says? = rows.filterMap says? := by
  rw [List.filterMap_filter]
  congr 1
  funext row
  cases kept : part row with
  | true => rfl
  | false => simp [silent row kept]

theorem silent_of_not_isCode (row : SourceLine) (aside : row.isCode = false) :
    row.instruction? = none ∧ row.label? = none := by
  cases row with
  | blank | constant => exact ⟨rfl, rfl⟩
  | label | instruction => cases aside

theorem constant?_of_not_isConstant (row : SourceLine) (other : row.isConstant = false) : row.constant? = none := by
  cases row with
  | blank | label | instruction => rfl
  | constant => cases other

theorem instructions_code (rows : List SourceLine) :
    (rows.filter isCode).filterMap instruction? = rows.filterMap instruction? :=
  filterMap_filter_eq (fun row aside => (silent_of_not_isCode row aside).1) rows

theorem labels_code (rows : List SourceLine) : (rows.filter isCode).filterMap label? = rows.filterMap label? :=
  filterMap_filter_eq (fun row aside => (silent_of_not_isCode row aside).2) rows

theorem declares_code {name : String} {index : Nat} :
    Declares (rows.filter isCode) name index ↔ Declares rows name index := by
  induction rows using List.reverseRecOn with
  | nil => rfl
  | append_singleton rows row ih =>
    rw [List.filter_append, declares_append_singleton, ← ih]
    cases code : row.isCode with
    | true => rw [List.filter_cons_of_pos code, List.filter_nil, declares_append_singleton, instructions_code]
    | false => simp [code, silent_of_not_isCode row code]

namespace SameContent

variable (same : SameContent rows rows')

include same

theorem instructions_eq : rows.filterMap instruction? = rows'.filterMap instruction? := by
  rw [← instructions_code, same.code_eq, instructions_code]

theorem labels_eq : rows.filterMap label? = rows'.filterMap label? := by
  rw [← labels_code, same.code_eq, labels_code]

theorem declares_iff {name : String} {index : Nat} : Declares rows name index ↔ Declares rows' name index := by
  rw [← declares_code, same.code_eq, declares_code]

theorem values_perm : (rows.filterMap constant?).Perm (rows'.filterMap constant?) := by
  have perm := same.constants_perm.filterMap constant?
  rwa [filterMap_filter_eq constant?_of_not_isConstant, filterMap_filter_eq constant?_of_not_isConstant] at perm

theorem mem_constant_iff {definition : String} : constant definition ∈ rows ↔ constant definition ∈ rows' := by
  have kept (rows : List SourceLine) : constant definition ∈ rows.filter isConstant ↔ constant definition ∈ rows := by
    simp [isConstant]
  rw [← kept rows, same.constants_perm.mem_iff, kept rows']

end SameContent

end SourceLine

open SourceLine (SameContent)

theorem LayoutEdit.sameContent {texts texts' : List (List Char)} (edit : LayoutEdit texts texts') :
    SameContent (texts.map SourceLine.read) (texts'.map SourceLine.read) := by
  cases edit with
  | case same =>
    have rows := congrArg (List.map SourceLine.read) same
    simp only [List.map_map, Function.comp_def, SourceLine.read_upper] at rows
    rw [rows]
    exact .refl _
  | comment same =>
    have rows := congrArg (List.map SourceLine.read) same
    simp only [List.map_map, Function.comp_def, SourceLine.read_stripComment] at rows
    rw [rows]
    exact .refl _
  | blank before after empty =>
    have told := SourceLine.spells_iff.mp (.blank empty)
    constructor <;> simp [told, SourceLine.isCode, SourceLine.isConstant]
  | definition before between after spelled =>
    have told := SourceLine.spells_iff.mp spelled
    constructor
    · simp [told, SourceLine.isCode]
    · simp only [List.map_append, List.map_cons, told, List.filter_append, List.filter_cons, SourceLine.isConstant,
        if_true]
      exact List.perm_middle.symm.append_left _

theorem sameContent_of_edits {texts texts' : List (List Char)} (edits : Relation.EqvGen LayoutEdit texts texts') :
    SameContent (texts.map SourceLine.read) (texts'.map SourceLine.read) := by
  induction edits with
  | rel _ _ edit => exact edit.sameContent
  | refl => exact .refl _
  | symm _ _ _ ih => exact ih.symm
  | trans _ _ _ _ _ first second => exact first.trans second

namespace Survey

theorem add_upper (survey : Survey) (text : List Char) (line : Nat) :
    survey.add (upper text, line) = survey.add (text, line) := by
  simp only [add, SourceLine.read_upper, tokens_upper]

theorem ofText_congr {source source' : String} (same : upper source.toList = upper source'.toList) :
    ofText source = ofText source' := by
  have folded (source : String) : ((lines (upper source.toList)).zipIdx 1).foldlM add {} = ofText source := by
    rw [lines_upper, List.zipIdx_map, List.foldlM_map, ofText]
    simp only [Prod.map, add_upper, id]
  rw [← folded source, ← folded source', same]

end Survey

namespace Program

variable {source source' : String} {program : Program} {rows rows' : List SourceLine}

theorem IsAssemblyOf.congr (same : SameContent rows rows') (spelled : program.IsAssemblyOf rows) :
    program.IsAssemblyOf rows' := by
  refine ⟨?_, spelled.length_le, ?_, ?_, spelled.labels_inside, ?_, ?_, ?_, ?_⟩
  · rw [← same.instructions_eq]
    exact spelled.length_eq
  · rw [← same.labels_eq]
    exact spelled.declared_once
  · intro name index
    rw [← same.declares_iff]
    exact spelled.mem_labels name index
  · intro definition member
    exact spelled.defined definition (same.mem_constant_iff.mpr member)
  · exact (same.values_perm.map Prod.fst).nodup_iff.mp spelled.defined_once
  · intro name value
    rw [spelled.mem_constants, ← List.mem_filterMap, ← List.mem_filterMap]
    exact same.values_perm.mem_iff
  · rw [← same.instructions_eq]
    exact spelled.instructions

theorem assemble_of_relayout (relayout : Relayout source source') (assembled : assemble source = .ok program) :
    assemble source' = .ok program :=
  assemble_of_isAssemblyOf ((isAssemblyOf_of_assemble assembled).congr (sameContent_of_edits relayout))

/-- Whatever is done to the layout of a source, it assembles to the same program or to none. Where only the case of
letters changes, the fault is the same too. -/
theorem assemble_layout (source source' : String) :
    (Relayout source source' → ∀ program, assemble source = .ok program ↔ assemble source' = .ok program) ∧
    (upper source.toList = upper source'.toList → assemble source = assemble source') := by
  constructor
  · intro relayout program
    constructor
    · exact assemble_of_relayout relayout
    · exact assemble_of_relayout (.symm _ _ relayout)
  · intro same
    rw [assemble, Survey.ofText_congr same, assemble]

theorem assemble_layout_loop :
    Relayout "one=1\r\nloop: mvi one,rx\r\njmp loop\r\n" "LOOP: MVI one,RX;two=2\r\n;\r\njmp loop\r\nONE=1" ∧
      assemble "LOOP: MVI one,RX;two=2\r\n;\r\njmp loop\r\nONE=1" = .ok
        ⟨[.special (.mvi ⟨.rx, 1, none⟩), .special (.jump ⟨none, 0⟩)],
          ⟨SymbolTable.empty.insert "LOOP" 0, SymbolTable.empty.insert "ONE" 1⟩⟩ ∧
      assemble "jmp loop" = assemble "JMP Loop" := by
  have relayout : Relayout "one=1\r\nloop: mvi one,rx\r\njmp loop\r\n"
      "LOOP: MVI one,RX;two=2\r\n;\r\njmp loop\r\nONE=1" := by
    have definition : SourceLine.Spells "one=1".toList (.constant "ONE=1") := SourceLine.spells_iff.mpr (by decide)
    have moved := LayoutEdit.definition [] ["loop: mvi one,rx".toList, "jmp loop".toList] [] definition
    have parted := LayoutEdit.blank ["loop: mvi one,rx".toList] ["jmp loop".toList, "one=1".toList]
      (show tokens ";".toList = [] by decide)
    have noted : LayoutEdit ["loop: mvi one,rx".toList, ";".toList, "jmp loop".toList, "one=1".toList]
      ["loop: mvi one,rx;two=2".toList, ";".toList, "jmp loop".toList, "one=1".toList] := .comment (by decide)
    have raised : LayoutEdit ["loop: mvi one,rx;two=2".toList, ";".toList, "jmp loop".toList, "one=1".toList]
      ["LOOP: MVI one,RX;two=2".toList, ";".toList, "jmp loop".toList, "ONE=1".toList] := .case (by decide)
    have spaced := Relation.EqvGen.trans _ _ _ (.rel _ _ moved) (.rel _ _ parted)
    exact .trans _ _ _ spaced (.trans _ _ _ (.rel _ _ noted) (.rel _ _ raised))
  have assembled : assemble "one=1\r\nloop: mvi one,rx\r\njmp loop\r\n" = .ok
      ⟨[.special (.mvi ⟨.rx, 1, none⟩), .special (.jump ⟨none, 0⟩)],
        ⟨SymbolTable.empty.insert "LOOP" 0, SymbolTable.empty.insert "ONE" 1⟩⟩ := by decide +kernel
  exact ⟨relayout, ((assemble_layout _ _).1 relayout _).mp assembled, (assemble_layout _ _).2 (by decide)⟩

end Program

end DspAsm
