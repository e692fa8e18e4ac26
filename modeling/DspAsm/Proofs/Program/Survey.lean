import DspAsm.Program.Source
import DspAsm.Proofs.Symbol.Scope

namespace DspAsm
open Text

/-! ## What lines say -/

namespace SourceLine

def instruction? : SourceLine → Option (List String)
  | label _ tokens => if tokens = [] then none else some tokens
  | instruction tokens => some tokens
  | blank | constant _ => none

def label? : SourceLine → Option String
  | label token _ => some (String.ofList token.toList.dropLast)
  | blank | constant _ | instruction _ => none

def constant? : SourceLine → Option (String × Int)
  | constant definition => definition? definition.toList
  | blank | label _ _ | instruction _ => none

inductive Spells (text : List Char) : SourceLine → Prop
  | blank (empty : tokens text = []) : Spells text blank
  | label {name : String} {later : List String} (written : tokens text = (name ++ ":") :: later) :
      Spells text (label (name ++ ":") later)
  | constant {first : String} {later : List String} (written : tokens text = first :: later)
      (unlabelled : ∀ name, first ≠ name ++ ":") (defines : '=' ∈ stripComment text) :
      Spells text (constant (String.ofList (upper (stripComment text))))
  | instruction {first : String} {later : List String} (written : tokens text = first :: later)
      (unlabelled : ∀ name, first ≠ name ++ ":") (plain : '=' ∉ stripComment text) :
      Spells text (instruction (first :: later))

/-- Among the lines is a declaration of `name`, after `index` lines that carry an instruction. -/
def Declares (lines : List SourceLine) (name : String) (index : Nat) : Prop :=
  ∃ before line after, lines = before ++ line :: after ∧ line.label? = some name ∧
    (before.filterMap instruction?).length = index

theorem getLast?_eq_colon {token : String} : token.toList.getLast? = some ':' ↔ ∃ name, token = name ++ ":" := by
  constructor
  · intro last
    obtain ⟨text, written⟩ := List.getLast?_eq_some_iff.mp last
    refine ⟨String.ofList text, ?_⟩
    rw [← String.toList_inj, String.toList_append, String.toList_ofList, written]
    rfl
  · rintro ⟨name, rfl⟩
    rw [String.toList_append]
    exact List.getLast?_concat ..

theorem spells_read (text : List Char) : Spells text (read text) := by
  rw [read]
  split
  · rename_i empty
    exact .blank empty
  · rename_i first later written
    split_ifs with labelled defines
    · obtain ⟨name, rfl⟩ := getLast?_eq_colon.mp labelled
      exact .label written
    · exact .constant written (fun name same => labelled (getLast?_eq_colon.mpr ⟨name, same⟩)) defines
    · exact .instruction written (fun name same => labelled (getLast?_eq_colon.mpr ⟨name, same⟩)) defines

theorem spells_iff {text : List Char} {line : SourceLine} : Spells text line ↔ read text = line := by
  constructor
  · intro spelled
    cases spelled with
    | blank empty => rw [read, empty]
    | label written =>
      rw [read, written]
      exact if_pos (getLast?_eq_colon.mpr ⟨_, rfl⟩)
    | constant written unlabelled defines =>
      rw [read, written]
      simp [getLast?_eq_colon, unlabelled, defines]
    | instruction written unlabelled plain =>
      rw [read, written]
      simp [getLast?_eq_colon, unlabelled, plain]
  · intro told
    exact told ▸ spells_read text

theorem label?_of_read {text : List Char} {token : String} {later : List String}
    (told : read text = label token later) : (label token later).label? = some (labelKey token) := by
  have key : labelKey token = String.ofList token.toList.dropLast := by
    cases spells_iff.mpr told with
    | label written =>
      apply labelKey_of_isToken
      · apply isToken_of_mem_tokens
        rw [written]
        exact List.mem_cons_self
      · exact getLast?_eq_colon.mpr ⟨_, rfl⟩
  rw [key, label?]

variable {lines : List SourceLine} {line : SourceLine} {name : String}

theorem declares_append_singleton {index : Nat} :
    Declares (lines ++ [line]) name index ↔
      Declares lines name index ∨ line.label? = some name ∧ (lines.filterMap instruction?).length = index :=
  exists_split_append_singleton fun before (line : SourceLine) =>
    line.label? = some name ∧ (before.filterMap instruction?).length = index

theorem mem_labels : name ∈ lines.filterMap label? ↔ ∃ index, Declares lines name index := by
  rw [List.mem_filterMap]
  constructor
  · intro declared
    obtain ⟨line, member, named⟩ := declared
    obtain ⟨before, after, split⟩ := List.append_of_mem member
    exact ⟨_, before, line, after, split, named, rfl⟩
  · intro declared
    obtain ⟨_, before, line, after, rfl, named, _⟩ := declared
    exact ⟨line, by simp, named⟩

theorem mem_constants :
    name ∈ (lines.filterMap constant?).map Prod.fst ↔ ∃ value, ∃ line ∈ lines, line.constant? = some (name, value) := by
  simp [List.mem_filterMap]

theorem Declares.le {index : Nat} (declared : Declares lines name index) :
    index ≤ (lines.filterMap instruction?).length := by
  obtain ⟨before, line, after, rfl, _, rfl⟩ := declared
  rw [List.filterMap_append, List.length_append]
  exact Nat.le_add_right ..

structure Consistent (lines : List SourceLine) : Prop where
  declared_once : (lines.filterMap label?).Nodup
  declared_inside : ∀ name index, Declares lines name index → index < programCapacity
  defined : ∀ definition, constant definition ∈ lines → (constant definition).constant? ≠ none
  defined_once : ((lines.filterMap constant?).map Prod.fst).Nodup

structure Admits (lines : List SourceLine) (line : SourceLine) : Prop where
  undeclared : ∀ name, line.label? = some name → name ∉ lines.filterMap label?
  inside : line.label? ≠ none → (lines.filterMap instruction?).length < programCapacity
  defined : ∀ definition, line = constant definition → line.constant? ≠ none
  undefined : ∀ name value, line.constant? = some (name, value) → name ∉ (lines.filterMap constant?).map Prod.fst

theorem Consistent.nil : Consistent [] := by
  refine ⟨List.nodup_nil, ?_, ?_, List.nodup_nil⟩
  · intro name index declared
    obtain ⟨before, line, after, split, _⟩ := declared
    simp at split
  · intro definition member
    cases member

theorem nodup_filterMap_append_singleton {α : Type} {says? : SourceLine → Option α} :
    ((lines ++ [line]).filterMap says?).Nodup ↔
      (lines.filterMap says?).Nodup ∧ ∀ said, says? line = some said → said ∉ lines.filterMap says? := by
  rw [List.filterMap_append, List.nodup_append_comm]
  cases said : says? line with
  | none => simp [said]
  | some value =>
    rw [List.filterMap_cons_some said, List.filterMap_nil, List.singleton_append, List.nodup_cons, and_comm]
    simp

theorem consistent_append_singleton : Consistent (lines ++ [line]) ↔ Consistent lines ∧ Admits lines line := by
  constructor
  · intro consistent
    obtain ⟨declared_once, undeclared⟩ := nodup_filterMap_append_singleton.mp consistent.declared_once
    have names := consistent.defined_once
    rw [List.map_filterMap, nodup_filterMap_append_singleton, ← List.map_filterMap] at names
    obtain ⟨defined_once, undefined⟩ := names
    constructor
    · refine ⟨declared_once, ?_, ?_, defined_once⟩
      · intro name index declared
        exact consistent.declared_inside name index (declares_append_singleton.mpr (.inl declared))
      · intro definition member
        exact consistent.defined definition (List.mem_append_left _ member)
    · refine ⟨undeclared, ?_, ?_, ?_⟩
      · intro labelled
        obtain ⟨name, named⟩ := Option.ne_none_iff_exists'.mp labelled
        exact consistent.declared_inside name _ (declares_append_singleton.mpr (.inr ⟨named, rfl⟩))
      · rintro definition rfl
        exact consistent.defined definition (by simp)
      · intro name value given
        exact undefined name (by rw [given, Option.map_some])
  · intro admitted
    obtain ⟨consistent, admits⟩ := admitted
    refine ⟨nodup_filterMap_append_singleton.mpr ⟨consistent.declared_once, admits.undeclared⟩, ?_, ?_, ?_⟩
    · intro name index declared
      rcases declares_append_singleton.mp declared with declared | ⟨named, rfl⟩
      · exact consistent.declared_inside name index declared
      · exact admits.inside (by simp [named])
    · intro definition member
      rcases List.mem_append.mp member with member | member
      · exact consistent.defined definition member
      · have same := List.mem_singleton.mp member
        rw [same]
        exact admits.defined definition same.symm
    · rw [List.map_filterMap, nodup_filterMap_append_singleton, ← List.map_filterMap]
      refine ⟨consistent.defined_once, ?_⟩
      intro name given
      obtain ⟨⟨key, value⟩, defines, rfl⟩ := Option.map_eq_some_iff.mp given
      exact admits.undefined key value defines

inductive Refused (before : List SourceLine) : SourceLine → Fault → Prop
  | far {line : SourceLine} {name : String} (declares : line.label? = some name)
      (full : programCapacity ≤ (before.filterMap instruction?).length) :
      Refused before line (.labelOutOfRange name (before.filterMap instruction?).length)
  | redeclared {line : SourceLine} {name : String} (declares : line.label? = some name)
      (inside : (before.filterMap instruction?).length < programCapacity)
      (declared : name ∈ before.filterMap label?) : Refused before line (.duplicateSymbol name)
  | undefined {definition : String} {fault : Fault} (undefined : Scope.Undefined definition fault) :
      Refused before (constant definition) fault
  | redefined {definition name : String} {value : Int} (given : definition? definition.toList = some (name, value))
      (defined : name ∈ (before.filterMap constant?).map Prod.fst) :
      Refused before (constant definition) (.duplicateSymbol name)

theorem refused_label_iff {token : String} {later : List String} {fault : Fault}
    (declares : (label token later).label? = some name) :
    Refused lines (label token later) fault ↔
      programCapacity ≤ (lines.filterMap instruction?).length ∧
          fault = .labelOutOfRange name (lines.filterMap instruction?).length ∨
        (lines.filterMap instruction?).length < programCapacity ∧ name ∈ lines.filterMap label? ∧
          fault = .duplicateSymbol name := by
  constructor
  · intro refused
    cases refused with
    | far declares' full =>
      cases declares.symm.trans declares'
      exact .inl ⟨full, rfl⟩
    | redeclared declares' inside declared =>
      cases declares.symm.trans declares'
      exact .inr ⟨inside, declared, rfl⟩
  · rintro (⟨full, rfl⟩ | ⟨inside, declared, rfl⟩)
    · exact .far declares full
    · exact .redeclared declares inside declared

theorem refused_constant_iff {definition : String} {fault : Fault} :
    Refused lines (constant definition) fault ↔ Scope.Undefined definition fault ∨
      ∃ name value, definition? definition.toList = some (name, value) ∧
        name ∈ (lines.filterMap constant?).map Prod.fst ∧ fault = .duplicateSymbol name := by
  constructor
  · intro refused
    cases refused with
    | far declares | redeclared declares => cases declares
    | undefined undefined => exact .inl undefined
    | redefined given defined => exact .inr ⟨_, _, given, defined, rfl⟩
  · rintro (undefined | ⟨name, value, given, defined, rfl⟩)
    · exact .undefined undefined
    · exact .redefined given defined

theorem admits_iff_not_refused : Admits lines line ↔ ¬ ∃ fault, Refused lines line fault := by
  constructor
  · rintro admits ⟨fault, refused⟩
    cases refused with
    | far declares full => exact absurd (admits.inside (by simp [declares])) (Nat.not_lt.mpr full)
    | redeclared declares _ declared => exact admits.undeclared _ declares declared
    | undefined undefined => exact admits.defined _ rfl (Scope.exists_undefined_iff.mp ⟨_, undefined⟩)
    | redefined given defined => exact admits.undefined _ _ given defined
  · intro unrefused
    have inside (labelled : line.label? ≠ none) : (lines.filterMap instruction?).length < programCapacity := by
      obtain ⟨name, declares⟩ := Option.ne_none_iff_exists'.mp labelled
      by_contra full
      exact unrefused ⟨_, .far declares (Nat.not_lt.mp full)⟩
    refine ⟨?_, inside, ?_, ?_⟩
    · intro name declares declared
      exact unrefused ⟨_, .redeclared declares (inside (by simp [declares])) declared⟩
    · rintro definition rfl undefined
      obtain ⟨fault, undefined⟩ := Scope.exists_undefined_iff.mpr undefined
      exact unrefused ⟨fault, .undefined undefined⟩
    · intro name value given defined
      cases line with
      | constant definition => exact unrefused ⟨_, .redefined given defined⟩
      | blank | label | instruction => cases given

theorem not_consistent_iff : ¬ Consistent lines ↔
    ∃ before line after, lines = before ++ line :: after ∧ ∃ fault, Refused before line fault := by
  induction lines using List.reverseRecOn with
  | nil => simpa using Consistent.nil
  | append_singleton lines line ih =>
    rw [consistent_append_singleton,
      exists_split_append_singleton fun before line => ∃ fault, Refused before line fault, ← ih,
      admits_iff_not_refused, not_and_or, not_not]

structure Knows (lines : List SourceLine) (known : Scope) : Prop where
  mem_labels : ∀ name index, (name, index) ∈ known.labels.entries ↔ Declares lines name index
  mem_constants : ∀ name value, (name, value) ∈ known.constants.entries ↔
    ∃ line ∈ lines, line.constant? = some (name, value)

theorem Knows.unique {known other : Scope} (knows : Knows lines known) (knows' : Knows lines other) :
    known = other := by
  apply Scope.eq_of_mem_iff
  · intro entry
    rw [knows.mem_labels, knows'.mem_labels]
  · intro entry
    rw [knows.mem_constants, knows'.mem_constants]

def places (lines : List SourceLine) : List Place :=
  (lines.zipIdx 1).filterMap fun entry => entry.1.instruction?.map (Place.mk entry.2)

theorem places_append_singleton :
    places (lines ++ [line]) = places lines ++ (line.instruction?.map (Place.mk (lines.length + 1))).toList := by
  rw [places, List.zipIdx_append, List.filterMap_append, ← places, Nat.add_comm 1]
  cases given : line.instruction? <;> simp [given]

theorem map_tokens_places (lines : List SourceLine) :
    (places lines).map Place.tokens = lines.filterMap instruction? := by
  induction lines using List.reverseRecOn with
  | nil => rfl
  | append_singleton lines line ih =>
    rw [places_append_singleton, List.map_append, ih, List.filterMap_append]
    cases given : line.instruction? <;> simp [given]

end SourceLine

/-! ## Surveys -/

theorem locate_eq_ok {α : Type} {line : Nat} {tokens : List String} {result : Except Fault α} {value : α} :
    locate line tokens result = .ok value ↔ result = .ok value := by
  cases result <;> simp [locate, Except.mapError]

theorem locate_eq_error {α : Type} {line : Nat} {tokens : List String} {result : Except Fault α} {fault : Fault} :
    locate line tokens result = .error fault ↔
      ∃ source, result = .error source ∧ fault = source.atLine line tokens := by
  cases result <;> simp [locate, Except.mapError, eq_comm]

namespace Survey

variable {lines : List SourceLine} {survey after : Survey} {text : List Char} {line : Nat}

theorem add_eq_ok :
    survey.add (text, line) = .ok after ↔
      match SourceLine.read text with
      | .blank => survey = after
      | .label name later => ∃ scope, survey.scope.addLabel name survey.pending.size = .ok scope ∧
          (if later = [] then { survey with scope } else { survey with scope }.setAside line later) = after
      | .constant definition => ∃ scope, survey.scope.define definition = .ok scope ∧ { survey with scope } = after
      | .instruction tokens => survey.setAside line tokens = after := by
  simp only [add]
  cases SourceLine.read text <;> simp only [bind_eq_ok, locate_eq_ok, pure_eq_ok, Except.ok.injEq]

theorem add_eq_error {fault : Fault} :
    survey.add (text, line) = .error fault ↔ ∃ source, fault = source.atLine line (tokens text) ∧
      match SourceLine.read text with
      | .blank | .instruction _ => False
      | .label name _ => survey.scope.addLabel name survey.pending.size = .error source
      | .constant definition => survey.scope.define definition = .error source := by
  simp only [add]
  cases SourceLine.read text <;>
    simp [bind_eq_error, locate_eq_error, pure, Except.pure, and_comm]

structure Adds (row : SourceLine) (line : Nat) (survey after : Survey) : Prop where
  mem_labels : ∀ name index, (name, index) ∈ after.scope.labels.entries ↔
    (name, index) ∈ survey.scope.labels.entries ∨ row.label? = some name ∧ survey.pending.size = index
  mem_constants : ∀ name value, (name, value) ∈ after.scope.constants.entries ↔
    (name, value) ∈ survey.scope.constants.entries ∨ row.constant? = some (name, value)
  pending_eq : after.pending.toList = survey.pending.toList ++ (row.instruction?.map (Place.mk line)).toList

theorem adds_of_add (added : survey.add (text, line) = .ok after) : Adds (SourceLine.read text) line survey after := by
  rw [add_eq_ok] at added
  cases read : SourceLine.read text with
  | blank =>
    rw [read] at added
    subst added
    constructor <;> simp [SourceLine.label?, SourceLine.constant?, SourceLine.instruction?]
  | label token later =>
    rw [read] at added
    obtain ⟨scope, bound, rfl⟩ := added
    obtain ⟨-, free, rfl⟩ := Scope.addLabel_eq_ok.mp bound
    have declares := SourceLine.label?_of_read read
    -- The instruction behind the label, if there is one, leaves the symbols alone.
    by_cases alone : later = []
    · subst alone
      constructor <;>
        simp [SymbolTable.mem_insert_of_free free, declares, SourceLine.constant?, SourceLine.instruction?]
    · constructor <;>
        simp [alone, setAside, SymbolTable.mem_insert_of_free free, declares, SourceLine.constant?,
          SourceLine.instruction?]
  | constant definition =>
    rw [read] at added
    obtain ⟨scope, bound, rfl⟩ := added
    obtain ⟨name, value, given, free, rfl⟩ := Scope.define_eq_ok.mp bound
    constructor <;>
      simp [SymbolTable.mem_insert_of_free free, given, SourceLine.label?, SourceLine.constant?,
        SourceLine.instruction?]
  | instruction tokens =>
    rw [read] at added
    subst added
    constructor <;> simp [setAside, SourceLine.label?, SourceLine.constant?, SourceLine.instruction?]

structure Covers (lines : List SourceLine) (survey : Survey) : Prop extends SourceLine.Knows lines survey.scope where
  pending_eq : survey.pending.toList = SourceLine.places lines

namespace Covers

theorem nil : Covers [] {} := by
  refine ⟨⟨fun name index => ?_, ?_⟩, rfl⟩
  · simp [SymbolTable.empty, SourceLine.Declares]
  · simp [SymbolTable.empty]

theorem tokens_eq (covers : Covers lines survey) :
    survey.pending.toList.map Place.tokens = lines.filterMap SourceLine.instruction? := by
  rw [covers.pending_eq, SourceLine.map_tokens_places]

theorem size_eq (covers : Covers lines survey) :
    survey.pending.size = (lines.filterMap SourceLine.instruction?).length := by
  rw [← covers.tokens_eq, List.length_map, Array.length_toList]

theorem append_singleton (covers : Covers lines survey) {row : SourceLine}
    (adds : Adds row (lines.length + 1) survey after) : Covers (lines ++ [row]) after := by
  refine ⟨⟨fun name index => ?_, fun name value => ?_⟩, ?_⟩
  · rw [adds.mem_labels, covers.mem_labels, covers.size_eq, SourceLine.declares_append_singleton]
  · rw [adds.mem_constants, covers.mem_constants]
    simp [or_and_right, exists_or]
  · rw [adds.pending_eq, covers.pending_eq, SourceLine.places_append_singleton]

theorem label_bound (covers : Covers lines survey) {name : String} :
    (∃ index, (name, index) ∈ survey.scope.labels.entries) ↔ name ∈ lines.filterMap SourceLine.label? := by
  simp only [SourceLine.mem_labels, covers.mem_labels]

theorem constant_bound (covers : Covers lines survey) {name : String} :
    (∃ value, (name, value) ∈ survey.scope.constants.entries) ↔
      name ∈ (lines.filterMap SourceLine.constant?).map Prod.fst := by
  simp only [SourceLine.mem_constants, covers.mem_constants]

theorem add_eq_error (covers : Covers lines survey) {fault : Fault} :
    survey.add (text, line) = .error fault ↔
      ∃ source, SourceLine.Refused lines (SourceLine.read text) source ∧ fault = source.atLine line (tokens text) := by
  rw [Survey.add_eq_error]
  refine exists_congr fun source => ?_
  rw [and_comm]
  refine and_congr_left fun _ => ?_
  cases read : SourceLine.read text with
  | blank | instruction =>
    refine iff_of_false id ?_
    intro refused
    cases refused with
    | far declares | redeclared declares => cases declares
  | label token later =>
    dsimp only
    rw [Scope.addLabel_eq_error, covers.size_eq, covers.label_bound,
      SourceLine.refused_label_iff (SourceLine.label?_of_read read)]
  | constant definition =>
    dsimp only
    rw [Scope.define_eq_error, SourceLine.refused_constant_iff]
    simp only [covers.constant_bound]

theorem exists_add_iff (covers : Covers lines survey) :
    (∃ after, survey.add (text, line) = .ok after) ↔ SourceLine.Admits lines (SourceLine.read text) := by
  rw [SourceLine.admits_iff_not_refused, ← not_iff_not, not_not, ← exists_error_iff]
  simp only [covers.add_eq_error]
  constructor
  · rintro ⟨_, source, refused, -⟩
    exact ⟨source, refused⟩
  · rintro ⟨source, refused⟩
    exact ⟨_, source, refused, rfl⟩

end Covers

theorem zipIdx_append_singleton (texts : List (List Char)) (text : List Char) :
    (texts ++ [text]).zipIdx 1 = texts.zipIdx 1 ++ [(text, texts.length + 1)] := by
  rw [List.zipIdx_append, Nat.add_comm 1]
  rfl

theorem covers_of_run {texts : List (List Char)} (run : (texts.zipIdx 1).foldlM add {} = .ok survey) :
    Covers (texts.map SourceLine.read) survey := by
  induction texts using List.reverseRecOn generalizing survey with
  | nil => exact pure_eq_ok.mp run ▸ Covers.nil
  | append_singleton texts text ih =>
    rw [zipIdx_append_singleton] at run
    obtain ⟨before, run, last⟩ := foldlM_append_singleton_eq_ok.mp run
    rw [List.map_append]
    apply (ih run).append_singleton
    rw [List.length_map]
    exact adds_of_add last

/-- Surveying succeeds exactly on lines that can stand together. -/
theorem exists_run_iff {texts : List (List Char)} :
    (∃ survey, (texts.zipIdx 1).foldlM add {} = .ok survey) ↔ SourceLine.Consistent (texts.map SourceLine.read) := by
  induction texts using List.reverseRecOn with
  | nil => exact iff_of_true ⟨{}, rfl⟩ SourceLine.Consistent.nil
  | append_singleton texts text ih =>
    simp only [zipIdx_append_singleton, foldlM_append_singleton_eq_ok, List.map_append, List.map_singleton,
      SourceLine.consistent_append_singleton, ← ih]
    constructor
    · intro taken
      obtain ⟨after, before, run, last⟩ := taken
      exact ⟨⟨before, run⟩, (covers_of_run run).exists_add_iff.mp ⟨after, last⟩⟩
    · intro taken
      obtain ⟨⟨before, run⟩, admits⟩ := taken
      obtain ⟨after, last⟩ := (covers_of_run run).exists_add_iff.mpr admits
      exact ⟨after, before, run, last⟩

end Survey

def SourceLine.ofText (source : String) : List SourceLine :=
  (lines source.toList).map SourceLine.read

theorem SourceLine.forall₂_spells {source : String} {rows : List SourceLine} :
    List.Forall₂ Spells (lines source.toList) rows ↔ SourceLine.ofText source = rows := by
  have told : Spells = fun text row => read text = row := by
    funext text row
    exact propext spells_iff
  rw [told, SourceLine.ofText, ← List.forall₂_eq_eq_eq, List.forall₂_map_left_iff]

namespace Survey

variable {survey : Survey} {source : String}

theorem covers_ofText (surveyed : Survey.ofText source = .ok survey) : Covers (SourceLine.ofText source) survey :=
  covers_of_run surveyed

theorem exists_ofText_iff :
    (∃ survey, Survey.ofText source = .ok survey) ↔ SourceLine.Consistent (SourceLine.ofText source) :=
  exists_run_iff

end Survey

end DspAsm
