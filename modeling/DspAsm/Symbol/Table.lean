namespace DspAsm

def insertEntry {α : Type} (name : String) (value : α) : List (String × α) → List (String × α)
  | [] => [(name, value)]
  | entry :: later =>
    if name < entry.1 then (name, value) :: entry :: later
    else if entry.1 < name then entry :: insertEntry name value later
    else (entry.1, value) :: later

theorem insertEntry_names {α : Type} {name other : String} {value : α} {entries : List (String × α)}
    (bound : ∀ entry ∈ entries, other < entry.1) (below : other < name) :
    ∀ entry ∈ insertEntry name value entries, other < entry.1 := by
  fun_induction insertEntry name value entries <;> grind

theorem insertEntry_sorted {α : Type} (name : String) (value : α) {entries : List (String × α)}
    (sorted : entries.Pairwise fun first second => first.1 < second.1) :
    (insertEntry name value entries).Pairwise fun first second => first.1 < second.1 := by
  fun_induction insertEntry name value entries with
  | case1 => simp
  | case2 entry later before =>
    refine List.pairwise_cons.2 ⟨fun other member => ?_, sorted⟩
    rcases List.mem_cons.1 member with rfl | member
    · exact before
    · exact String.lt_trans before ((List.pairwise_cons.1 sorted).1 other member)
  | case3 entry later _ after ih =>
    have rest := List.pairwise_cons.1 sorted
    exact List.pairwise_cons.2 ⟨insertEntry_names rest.1 after, ih rest.2⟩
  | case4 entry later => exact List.pairwise_cons.2 (List.pairwise_cons.1 sorted)

structure SymbolTable (α : Type) where
  entries : List (String × α)
  sorted : entries.Pairwise fun first second => first.1 < second.1
  deriving DecidableEq

namespace SymbolTable

variable {α : Type}

def empty : SymbolTable α :=
  ⟨[], .nil⟩

instance : Inhabited (SymbolTable α) := ⟨empty⟩

def find? (table : SymbolTable α) (name : String) : Option α :=
  table.entries.lookup name

def insert (table : SymbolTable α) (name : String) (value : α) : SymbolTable α :=
  ⟨insertEntry name value table.entries, insertEntry_sorted name value table.sorted⟩

def size (table : SymbolTable α) : Nat :=
  table.entries.length

def namesOf [DecidableEq α] (table : SymbolTable α) (value : α) : List String :=
  (table.entries.filter fun entry => entry.2 = value).map fun entry => entry.1

end SymbolTable

end DspAsm
