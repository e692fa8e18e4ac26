import DspAsm.Proofs.Outcome
import DspAsm.Symbol.Table

namespace DspAsm

theorem mem_insertEntry {α : Type} {name : String} {value : α} {entries : List (String × α)}
    (sorted : entries.Pairwise fun first second => first.1 < second.1) {entry : String × α} :
    entry ∈ insertEntry name value entries ↔ entry = (name, value) ∨ entry ∈ entries ∧ entry.1 ≠ name := by
  fun_induction insertEntry name value entries with
  | case1 => simp
  | case2 head later before =>
    have apart : ∀ other ∈ head :: later, other.1 ≠ name := by
      intro other member equal
      rcases List.mem_cons.mp member with rfl | member
      · exact String.lt_irrefl _ (equal ▸ before)
      · exact String.lt_irrefl _ (equal ▸ String.lt_trans before ((List.pairwise_cons.mp sorted).1 other member))
    rw [List.mem_cons]
    exact or_congr_right ⟨fun member => ⟨member, apart entry member⟩, And.left⟩
  | case3 head later _ after ih =>
    have apart : head.1 ≠ name := fun equal => String.lt_irrefl _ (equal ▸ after)
    rw [List.mem_cons, ih (List.pairwise_cons.mp sorted).2, List.mem_cons]
    constructor
    · rintro (rfl | rfl | member)
      · exact .inr ⟨.inl rfl, apart⟩
      · exact .inl rfl
      · exact .inr ⟨.inr member.1, member.2⟩
    · rintro (rfl | ⟨rfl | member, other⟩)
      · exact .inr (.inl rfl)
      · exact .inl rfl
      · exact .inr (.inr ⟨member, other⟩)
  | case4 head later not_before not_after =>
    have same : head.1 = name := String.le_antisymm (String.not_lt.mp not_before) (String.not_lt.mp not_after)
    have apart : ∀ other ∈ later, other.1 ≠ name := by
      intro other member equal
      have after := (List.pairwise_cons.mp sorted).1 other member
      rw [equal, same] at after
      exact String.lt_irrefl _ after
    rw [List.mem_cons, List.mem_cons, same]
    constructor
    · rintro (rfl | member)
      · exact .inl rfl
      · exact .inr ⟨.inr member, apart entry member⟩
    · rintro (rfl | ⟨rfl | member, other⟩)
      · exact .inl rfl
      · exact absurd same other
      · exact .inr member

theorem lookup_eq_some {α : Type} {name : String} {value : α} {entries : List (String × α)}
    (sorted : entries.Pairwise fun first second => first.1 < second.1) :
    entries.lookup name = some value ↔ (name, value) ∈ entries := by
  induction entries with
  | nil => simp
  | cons head later ih =>
    obtain ⟨key, held⟩ := head
    obtain ⟨first, rest⟩ := List.pairwise_cons.mp sorted
    by_cases equal : name = key
    · subst equal
      have absent : (name, value) ∉ later := fun member => String.lt_irrefl name (first (name, value) member)
      simp [absent, eq_comm]
    · have unequal : (name == key) = false := by simp [equal]
      simp [List.lookup_cons, unequal, equal, ih rest]

namespace SymbolTable

variable {α : Type}

theorem eq_of_mem_iff {first second : SymbolTable α}
    (same : ∀ entry, entry ∈ first.entries ↔ entry ∈ second.entries) : first = second := by
  obtain ⟨entries, sorted⟩ := first
  obtain ⟨entries', sorted'⟩ := second
  have irreflexive : Std.Irrefl fun first second : String × α => first.1 < second.1 :=
    ⟨fun entry => String.lt_irrefl entry.1⟩
  have antisymmetric : Std.Antisymm fun first second : String × α => first.1 < second.1 :=
    ⟨fun _ _ before after => absurd (String.lt_trans before after) (String.lt_irrefl _)⟩
  have equal : entries = entries' := List.Pairwise.eq_of_mem_iff sorted sorted' same
  subst equal
  rfl

theorem find?_eq_some {table : SymbolTable α} {name : String} {value : α} :
    table.find? name = some value ↔ (name, value) ∈ table.entries :=
  lookup_eq_some table.sorted

theorem value_unique {table : SymbolTable α} {name : String} {first second : α}
    (hfirst : (name, first) ∈ table.entries) (hsecond : (name, second) ∈ table.entries) : first = second := by
  rw [← find?_eq_some] at hfirst hsecond
  exact Option.some.inj (hfirst.symm.trans hsecond)

theorem find?_isSome {table : SymbolTable α} {name : String} :
    (table.find? name).isSome ↔ ∃ value, (name, value) ∈ table.entries := by
  simp only [Option.isSome_iff_exists, find?_eq_some]

theorem find?_eq_none {table : SymbolTable α} {name : String} :
    table.find? name = none ↔ ∀ value, (name, value) ∉ table.entries := by
  simp only [Option.eq_none_iff_forall_ne_some, ne_eq, find?_eq_some]

theorem not_isSome_find? {table : SymbolTable α} {name : String} :
    ¬ (table.find? name).isSome = true ↔ ∀ value, (name, value) ∉ table.entries := by
  rw [find?_isSome, not_exists]

theorem mem_insert {table : SymbolTable α} {name : String} {value : α} {entry : String × α} :
    entry ∈ (table.insert name value).entries ↔
      entry = (name, value) ∨ entry ∈ table.entries ∧ entry.1 ≠ name :=
  mem_insertEntry table.sorted

theorem mem_insert_of_free {table : SymbolTable α} {name : String} (free : ∀ value, (name, value) ∉ table.entries)
    {value : α} {entry : String × α} :
    entry ∈ (table.insert name value).entries ↔ entry ∈ table.entries ∨ (name, value) = entry := by
  rw [mem_insert, or_comm, eq_comm]
  refine or_congr_left (and_iff_left_of_imp ?_)
  rintro member rfl
  exact free entry.2 member

theorem find?_insert_of_free {table : SymbolTable α} {name : String} (free : table.find? name = none) {value : α}
    {other : String} {found : α} :
    (table.insert name value).find? other = some found ↔
      table.find? other = some found ∨ other = name ∧ found = value := by
  rw [find?_eq_some, find?_eq_some, mem_insert_of_free (find?_eq_none.mp free), Prod.mk.injEq, eq_comm,
    @eq_comm _ value]

end SymbolTable

end DspAsm
