import DspAsm.Proofs.Outcome
import DspAsm.Proofs.Symbol.Table
import DspAsm.Proofs.Text.Numeral

namespace DspAsm
open Text

/-! ## Changes -/

namespace Scope

namespace Change

variable {α β : Type} {scope : Scope}

theorem run_throw (fault : Fault) : (throw fault : Change α).run scope = (.error fault, scope) := rfl

theorem run_get : (get : Change Scope).run scope = (.ok scope, scope) := rfl

theorem run_modify (update : Scope → Scope) : (modify update : Change Unit).run scope = (.ok (), update scope) := rfl

theorem run_bind (first : Change α) (next : α → Change β) : (first >>= next).run scope =
    match first.run scope with
    | (.ok value, changed) => (next value).run changed
    | (.error fault, changed) => (.error fault, changed) := by
  simp only [run, ExceptT.run_bind, StateT.run_bind]
  rcases StateT.run (ExceptT.run first) scope with ⟨_ | _, _⟩ <;> rfl

theorem run_ite {choice : Prop} [Decidable choice] (yes no : Change α) :
    (if choice then yes else no).run scope = if choice then yes.run scope else no.run scope := by
  split_ifs <;> rfl

end Change

variable {scope : Scope} {name : String} {index : Nat}

theorem run_registerLabel : (registerLabel name index).run scope =
    if programCapacity ≤ index then (.error (.labelOutOfRange (labelKey name) index), scope)
    else if (scope.labels.find? (labelKey name)).isSome then (.error (.duplicateSymbol (labelKey name)), scope)
    else (.ok (), { scope with labels := scope.labels.insert (labelKey name) index }) := by
  simp only [registerLabel, Change.run_ite, Change.run_bind, Change.run_throw, Change.run_get, Change.run_modify]

theorem run_registerConstant {value : Int} : (registerConstant name value).run scope =
    if constantKey name = "" then (.error (.malformed "=" .namelessConstant), scope)
    else if (scope.constants.find? (constantKey name)).isSome then (.error (.duplicateSymbol (constantKey name)), scope)
    else (.ok (), { scope with constants := scope.constants.insert (constantKey name) value }) := by
  simp only [registerConstant, Change.run_ite, Change.run_bind, Change.run_throw, Change.run_get, Change.run_modify]

theorem after_eq_ok {change : Change Unit} {changed : Scope} :
    scope.after change = .ok changed ↔ change.run scope = (.ok (), changed) := by
  rw [after]
  rcases change.run scope with ⟨_ | _, _⟩ <;> simp

/-! ## Labels -/

theorem addLabel_eq : scope.addLabel name index =
    if programCapacity ≤ index then .error (.labelOutOfRange (labelKey name) index)
    else if (scope.labels.find? (labelKey name)).isSome then .error (.duplicateSymbol (labelKey name))
    else .ok { scope with labels := scope.labels.insert (labelKey name) index } := by
  rw [addLabel, after, run_registerLabel]
  split_ifs <;> rfl

theorem addLabel_eq_ok {after : Scope} :
    scope.addLabel name index = .ok after ↔ index < programCapacity ∧
      (∀ other, (labelKey name, other) ∉ scope.labels.entries) ∧
      after = { scope with labels := scope.labels.insert (labelKey name) index } := by
  rw [addLabel_eq, guards_eq_ok, Nat.not_le, SymbolTable.not_isSome_find?]

theorem addLabel_eq_error {fault : Fault} :
    scope.addLabel name index = .error fault ↔
      programCapacity ≤ index ∧ fault = .labelOutOfRange (labelKey name) index ∨
      index < programCapacity ∧ (∃ other, (labelKey name, other) ∈ scope.labels.entries) ∧
        fault = .duplicateSymbol (labelKey name) := by
  rw [addLabel_eq, guards_eq_error, Nat.not_le, SymbolTable.find?_isSome]

theorem label_eq_ok : scope.label name = .ok index ↔ (labelKey name, index) ∈ scope.labels.entries := by
  rw [← SymbolTable.find?_eq_some, label]
  cases scope.labels.find? (labelKey name) <;> simp

/-- The name of a label stands for its index, unless it is a numeral for another number. -/
theorem labelValue_eq_index_iff (valid : IsName name) (bound : (name, index) ∈ scope.labels.entries) :
    scope.labelValue name = .ok (index : Int) ↔ ∀ number, Numeral.read? name = some number → number = index := by
  rw [← labelKey_of_inked valid.isInked, ← label_eq_ok] at bound
  cases read : Numeral.read? name with
  | none =>
    simp only [labelValue, read, valid.dropHashes_eq, bound]
    exact iff_of_true rfl fun number absent => nomatch absent
  | some number => simp [labelValue, read]

theorem mem_labelsAt : name ∈ scope.labelsAt index ↔ (name, index) ∈ scope.labels.entries := by
  simp [labelsAt, SymbolTable.namesOf]

theorem hasLabelAt_iff : scope.hasLabelAt index = true ↔ ∃ name, (name, index) ∈ scope.labels.entries := by
  simp [hasLabelAt]

theorem labelsAt_sorted (scope : Scope) (index : Nat) : (scope.labelsAt index).Pairwise (· < ·) := by
  rw [labelsAt, SymbolTable.namesOf, List.pairwise_map]
  exact scope.labels.sorted.filter _

def IsFirstLabel (scope : Scope) (index : Nat) (name : String) : Prop :=
  (name, index) ∈ scope.labels.entries ∧ ∀ other, (other, index) ∈ scope.labels.entries → name ≤ other

theorem head?_labelsAt : (scope.labelsAt index).head? = some name ↔ scope.IsFirstLabel index name := by
  have sorted := scope.labelsAt_sorted index
  simp only [IsFirstLabel, ← mem_labelsAt]
  cases found : scope.labelsAt index with
  | nil => simp
  | cons first later =>
    rw [found] at sorted
    have before := (List.pairwise_cons.mp sorted).1
    rw [List.head?_cons, Option.some.injEq]
    constructor
    · rintro rfl
      refine ⟨List.mem_cons_self, fun other member => ?_⟩
      rcases List.mem_cons.mp member with rfl | member
      · exact le_rfl
      · exact (before other member).le
    · rintro ⟨member, least⟩
      rcases List.mem_cons.mp member with same | member
      · exact same.symm
      · exact absurd (before name member) (not_lt.mpr (least first List.mem_cons_self))

end Scope

/-! ## Constants -/

/-- The name and the value that a definition gives: it has one equals sign, with a name before it and a numeral after
it. -/
def definition? (text : List Char) : Option (String × Int) :=
  let name := trim (text.takeWhile (· ≠ '='))
  let numeral := (text.dropWhile (· ≠ '=')).drop 1
  if name = [] ∨ '=' ∈ numeral then none
  else (Numeral.read? (String.ofList numeral)).map fun value => (String.ofList name, value)

theorem definition?_append {left : List Char} (plain : '=' ∉ left) (right : List Char) :
    definition? (left ++ '=' :: right) = if trim left = [] ∨ '=' ∈ right then none
      else (Numeral.read? (String.ofList right)).map fun value => (String.ofList (trim left), value) := by
  have passed : ∀ c ∈ left, decide (c ≠ '=') = true := by
    intro c member
    rw [decide_eq_true_eq]
    intro same
    exact plain (same ▸ member)
  have taken : (left ++ '=' :: right).takeWhile (· ≠ '=') = left := by
    rw [List.takeWhile_append_of_pos passed, List.takeWhile_cons_of_neg (by simp), List.append_nil]
  have dropped : ((left ++ '=' :: right).dropWhile (· ≠ '=')).drop 1 = right := by
    rw [List.dropWhile_append_of_pos passed, List.dropWhile_cons_of_neg (by simp), List.drop_one, List.tail_cons]
  simp only [definition?, taken, dropped]

theorem definition?_of_not_mem {text : List Char} (plain : '=' ∉ text) : definition? text = none := by
  have dropped : text.dropWhile (· ≠ '=') = [] := by
    rw [List.dropWhile_eq_nil_iff]
    intro c member
    rw [decide_eq_true_eq]
    intro same
    exact plain (same ▸ member)
  have unread : Numeral.read? (String.ofList []) = none := by rfl
  simp only [definition?, dropped, List.drop_nil, unread, Option.map_none, ite_self]

theorem definition?_eq_some {text : List Char} {name : String} {value : Int} :
    definition? text = some (name, value) ↔ ∃ left right, pieces (· == '=') text = [left, right] ∧
      trim left ≠ [] ∧ String.ofList (trim left) = name ∧ Numeral.read? (String.ofList right) = some value := by
  constructor
  · intro defined
    by_cases marked : '=' ∈ text
    · obtain ⟨left, right, rfl, plain⟩ := List.eq_append_cons_of_mem marked
      rw [definition?_append plain, Option.ite_none_left_eq_some, not_or, Option.map_eq_some_iff] at defined
      obtain ⟨⟨named, plain'⟩, number, read, same⟩ := defined
      obtain ⟨rfl, rfl⟩ := Prod.mk.inj same
      exact ⟨left, right, pieces_eq_pair.mpr ⟨rfl, plain, plain'⟩, named, rfl, read⟩
    · rw [definition?_of_not_mem marked] at defined
      cases defined
  · rintro ⟨left, right, cut, named, rfl, read⟩
    obtain ⟨rfl, plain, plain'⟩ := pieces_eq_pair.mp cut
    rw [definition?_append plain, if_neg (not_or.mpr ⟨named, plain'⟩), read, Option.map_some]

namespace Scope

variable {scope : Scope} {name : String}

theorem addConstant_eq {value : Int} : scope.addConstant name value =
    if constantKey name = "" then .error (.malformed "=" .namelessConstant)
    else if (scope.constants.find? (constantKey name)).isSome then .error (.duplicateSymbol (constantKey name))
    else .ok { scope with constants := scope.constants.insert (constantKey name) value } := by
  rw [addConstant, after, run_registerConstant]
  split_ifs <;> rfl

theorem addConstant_eq_ok {value : Int} {after : Scope} :
    scope.addConstant name value = .ok after ↔ constantKey name ≠ "" ∧
      (∀ other, (constantKey name, other) ∉ scope.constants.entries) ∧
      after = { scope with constants := scope.constants.insert (constantKey name) value } := by
  rw [addConstant_eq, guards_eq_ok, SymbolTable.not_isSome_find?]

section

variable {definition : String} {left right : List Char}

theorem defineConstant_of_read {value : Int} (cut : pieces (· == '=') definition.toList = [left, right])
    (read : Numeral.read? (String.ofList right) = some value) :
    defineConstant definition = registerConstant (String.ofList left) value := by
  simp only [defineConstant, cut, read]

theorem defineConstant_of_unread (cut : pieces (· == '=') definition.toList = [left, right])
    (unread : Numeral.read? (String.ofList right) = none) :
    defineConstant definition =
      throw (.malformed (constantKey definition) (.isNot (String.ofList (trim right)) .number)) := by
  simp only [defineConstant, cut, unread]

theorem defineConstant_of_ne_pair (uncut : ∀ left right, pieces (· == '=') definition.toList ≠ [left, right]) :
    defineConstant definition = throw (.malformed (constantKey definition) .equalsSigns) := by
  rw [defineConstant]
  split
  · rename_i cut
    exact absurd cut (uncut _ _)
  · rfl

theorem define_of_read {value : Int} (cut : pieces (· == '=') definition.toList = [left, right])
    (read : Numeral.read? (String.ofList right) = some value) :
    scope.define definition = scope.addConstant (String.ofList left) value := by
  rw [define, defineConstant_of_read cut read, addConstant]

theorem define_of_unread (cut : pieces (· == '=') definition.toList = [left, right])
    (unread : Numeral.read? (String.ofList right) = none) :
    scope.define definition =
      .error (.malformed (constantKey definition) (.isNot (String.ofList (trim right)) .number)) := by
  rw [define, defineConstant_of_unread cut unread, after, Change.run_throw]

theorem define_of_ne_pair (uncut : ∀ left right, pieces (· == '=') definition.toList ≠ [left, right]) :
    scope.define definition = .error (.malformed (constantKey definition) .equalsSigns) := by
  rw [define, defineConstant_of_ne_pair uncut, after, Change.run_throw]

theorem define_eq_ok {after : Scope} :
    scope.define definition = .ok after ↔ ∃ name value, definition? definition.toList = some (name, value) ∧
      (∀ other, (name, other) ∉ scope.constants.entries) ∧
      after = { scope with constants := scope.constants.insert name value } := by
  have nameless (left : List Char) : String.ofList (trim left) ≠ "" ↔ trim left ≠ [] := by simp
  simp only [definition?_eq_some]
  constructor
  · intro defined
    by_cases single : ∃ left right, pieces (· == '=') definition.toList = [left, right]
    · obtain ⟨left, right, cut⟩ := single
      cases read : Numeral.read? (String.ofList right) with
      | none =>
        rw [define_of_unread cut read] at defined
        cases defined
      | some value =>
        rw [define_of_read cut read, addConstant_eq_ok, constantKey_ofList, nameless] at defined
        exact ⟨_, value, ⟨left, right, cut, defined.1, rfl, read⟩, defined.2⟩
    · rw [define_of_ne_pair (by simpa using single)] at defined
      cases defined
  · rintro ⟨name, value, ⟨left, right, cut, named, rfl, read⟩, free, rfl⟩
    rw [define_of_read cut read, addConstant_eq_ok, constantKey_ofList, nameless]
    exact ⟨named, free, rfl⟩

end

inductive Undefined (text : String) : Fault → Prop
  | equalsSigns {subject : String} (trims : SpellsConstant subject text) (several : text.toList.count '=' ≠ 1) :
      Undefined text (.malformed subject .equalsSigns)
  | number {subject numeral : String} {left right : List Char} (trims : SpellsConstant subject text)
      (written : text.toList = left ++ '=' :: right) (plain : '=' ∉ left) (plain' : '=' ∉ right)
      (unread : Numeral.read? (String.ofList right) = none) (told : TrimsTo numeral.toList right) :
      Undefined text (.malformed subject (.isNot numeral .number))
  | nameless {left right : List Char} {value : Int} (written : text.toList = left ++ '=' :: right)
      (blank : ∀ c ∈ left, isBlank c = true) (plain : '=' ∉ right)
      (read : Numeral.read? (String.ofList right) = some value) : Undefined text (.malformed "=" .namelessConstant)

theorem count_eq_one_iff {text : List Char} :
    text.count '=' = 1 ↔ ∃ left right, pieces (· == '=') text = [left, right] := by
  simp only [pieces_eq_pair]
  constructor
  · intro single
    obtain ⟨left, right, rfl, plain⟩ := List.eq_append_cons_of_mem (List.count_pos_iff.mp (single ▸ Nat.one_pos))
    rw [List.count_append, List.count_eq_zero.mpr plain, List.count_cons_self, Nat.zero_add, Nat.add_eq_right,
      List.count_eq_zero] at single
    exact ⟨left, right, rfl, plain, single⟩
  · rintro ⟨left, right, rfl, plain, plain'⟩
    rw [List.count_append, List.count_eq_zero.mpr plain, List.count_cons_self, List.count_eq_zero.mpr plain']

theorem define_eq_error {definition : String} {fault : Fault} :
    scope.define definition = .error fault ↔ Undefined definition fault ∨
      ∃ name value, definition? definition.toList = some (name, value) ∧
        (∃ other, (name, other) ∈ scope.constants.entries) ∧ fault = .duplicateSymbol name := by
  have subject : SpellsConstant (constantKey definition) definition := constantKey_eq_iff.mp rfl
  have nameless (left : List Char) : constantKey (String.ofList left) = "" ↔ trim left = [] := by
    rw [constantKey_ofList]
    simp
  constructor
  · intro refused
    by_cases single : definition.toList.count '=' = 1
    · obtain ⟨left, right, cut⟩ := count_eq_one_iff.mp single
      obtain ⟨written, plain, plain'⟩ := pieces_eq_pair.mp cut
      cases read : Numeral.read? (String.ofList right) with
      | none =>
        rw [define_of_unread cut read] at refused
        cases refused
        exact .inl (.number subject written plain plain' read (by simp [← trim_eq_iff]))
      | some value =>
        rw [define_of_read cut read, addConstant_eq] at refused
        split_ifs at refused with blank bound
        · cases refused
          exact .inl (.nameless written (trim_eq_nil_iff.mp ((nameless left).mp blank)) plain' read)
        · cases refused
          have given := definition?_eq_some.mpr ⟨left, right, cut, mt (nameless left).mpr blank, rfl, read⟩
          rw [constantKey_ofList] at bound ⊢
          exact .inr ⟨_, value, given, SymbolTable.find?_isSome.mp bound, rfl⟩
    · have uncut := not_exists.mp (mt count_eq_one_iff.mpr single)
      rw [define_of_ne_pair fun left => not_exists.mp (uncut left)] at refused
      cases refused
      exact .inl (.equalsSigns subject single)
  · rintro (undefined | ⟨name, value, given, bound, rfl⟩)
    · cases undefined with
      | equalsSigns trims several =>
        have uncut := not_exists.mp (mt count_eq_one_iff.mpr several)
        rw [define_of_ne_pair fun left => not_exists.mp (uncut left), constantKey_eq_iff.mpr trims]
      | number trims written plain plain' unread told =>
        rw [define_of_unread (pieces_eq_pair.mpr ⟨written, plain, plain'⟩) unread, constantKey_eq_iff.mpr trims,
          trim_eq_iff.mpr told, String.ofList_toList]
      | nameless written blank plain read =>
        have unmarked := mt (blank '=') (by decide)
        rw [define_of_read (pieces_eq_pair.mpr ⟨written, unmarked, plain⟩) read, addConstant_eq,
          if_pos ((nameless _).mpr (trim_eq_nil_iff.mpr blank))]
    · obtain ⟨left, right, cut, named, rfl, read⟩ := definition?_eq_some.mp given
      rw [define_of_read cut read, addConstant_eq, if_neg (mt (nameless left).mp named), constantKey_ofList,
        if_pos (SymbolTable.find?_isSome.mpr bound)]

theorem exists_undefined_iff {text : String} : (∃ fault, Undefined text fault) ↔ definition? text.toList = none := by
  -- Nothing is taken in the empty scope, so a definition fails there only if it gives no constant.
  have taken : ∀ name other, (name, other) ∉ ({} : Scope).constants.entries := by simp [SymbolTable.empty]
  have refused : (∃ fault, define {} text = .error fault) ↔ ∃ fault, Undefined text fault := by
    simp only [define_eq_error, taken, exists_false, false_and, and_false, or_false]
  rw [← refused, exists_error_iff, ← not_iff_not, not_not, ← ne_eq, Option.ne_none_iff_exists']
  constructor
  · rintro ⟨_, defined⟩
    obtain ⟨name, value, given, -⟩ := define_eq_ok.mp defined
    exact ⟨_, given⟩
  · rintro ⟨⟨name, value⟩, given⟩
    exact ⟨_, define_eq_ok.mpr ⟨name, value, given, taken name, rfl⟩⟩

theorem eq_of_mem_iff {first second : Scope}
    (same_labels : ∀ entry, entry ∈ first.labels.entries ↔ entry ∈ second.labels.entries)
    (same_constants : ∀ entry, entry ∈ first.constants.entries ↔ entry ∈ second.constants.entries) :
    first = second := by
  obtain ⟨labels, constants⟩ := first
  obtain ⟨labels', constants'⟩ := second
  rw [Scope.mk.injEq]
  exact ⟨SymbolTable.eq_of_mem_iff same_labels, SymbolTable.eq_of_mem_iff same_constants⟩

end Scope
end DspAsm
