import DspAsm.Proofs.Text.Token
import DspAsm.Symbol.Scope

namespace DspAsm
namespace Text

/-! ## Characters by their codes -/

theorem isUpper_iff {c : Char} : c.isUpper = true ↔ 65 ≤ c.toNat ∧ c.toNat ≤ 90 := by
  simp only [Char.isUpper, decide_eq_true_eq, ge_iff_le, UInt32.le_iff_toNat_le, ← Char.toNat_val]
  rfl

theorem isDigit_iff {c : Char} : c.isDigit = true ↔ 48 ≤ c.toNat ∧ c.toNat ≤ 57 := by
  simp only [Char.isDigit, Bool.and_eq_true, decide_eq_true_eq, ge_iff_le, UInt32.le_iff_toNat_le, ← Char.toNat_val]
  rfl

theorem toUpper_eq_self {c : Char} (capital : c.toNat < 97) : c.toUpper = c := by
  have outside : ¬ ('a'.val ≤ c.val ∧ c.val ≤ 'z'.val) := by
    rw [UInt32.le_iff_toNat_le]
    intro lower
    exact absurd capital (Nat.not_lt.mpr lower.1)
  rw [Char.toUpper, dif_neg outside]

theorem isBlank_eq_false {c : Char} (solid : 33 ≤ c.toNat ∧ c.toNat < 128) : isBlank c = false := by
  simp only [isBlank, blankRanges, List.any_cons, List.any_nil, Bool.or_false, Bool.or_eq_false_iff,
    Bool.and_eq_false_iff, decide_eq_false_iff_not]
  omega

theorem char_eq_iff {c d : Char} : c = d ↔ c.toNat = d.toNat :=
  Char.toNat_inj.symm

/-! ## Ink -/

def isInk (c : Char) : Bool :=
  c.isUpper || c.isDigit || c == '_' || c == '#' || c == '-'

def IsInked (token : String) : Prop :=
  token.toList ≠ [] ∧ token.toList.all isInk = true

instance (token : String) : Decidable (IsInked token) :=
  inferInstanceAs (Decidable (_ ∧ _))

theorem isInk_iff {c : Char} : isInk c = true ↔
    (65 ≤ c.toNat ∧ c.toNat ≤ 90) ∨ (48 ≤ c.toNat ∧ c.toNat ≤ 57) ∨ c.toNat = 95 ∨ c.toNat = 35 ∨ c.toNat = 45 := by
  simp only [isInk, Bool.or_eq_true, isUpper_iff, isDigit_iff, beq_iff_eq, char_eq_iff, or_assoc]
  rfl

theorem isBlank_of_isInk {c : Char} (ink : isInk c = true) : isBlank c = false := by
  rw [isInk_iff] at ink
  exact isBlank_eq_false (by omega)

theorem ne_of_isInk {c : Char} (ink : isInk c = true) {mark : Char} (blot : isInk mark = false) : c ≠ mark := by
  rintro rfl
  rw [ink] at blot
  cases blot

theorem isSeparator_of_isInk {c : Char} (ink : isInk c = true) : isSeparator c = false := by
  rw [isSeparator, isBlank_of_isInk ink, Bool.false_or, beq_eq_false_iff_ne]
  exact ne_of_isInk ink (by decide)

theorem toUpper_of_isInk {c : Char} (ink : isInk c = true) : c.toUpper = c := by
  rw [isInk_iff] at ink
  exact toUpper_eq_self (by omega)

namespace IsInked

variable {token : String}

theorem of_mem (written : token.toList ≠ []) (ink : ∀ c ∈ token.toList, isInk c = true) : IsInked token :=
  ⟨written, List.all_eq_true.mpr ink⟩

theorem isInk_of_mem (inked : IsInked token) {c : Char} (member : c ∈ token.toList) : isInk c = true :=
  List.all_eq_true.mp inked.2 c member

theorem not_mem (inked : IsInked token) {mark : Char} (blot : isInk mark = false) : mark ∉ token.toList :=
  fun member => ne_of_isInk (inked.isInk_of_mem member) blot rfl

theorem upper_eq (inked : IsInked token) : upper token.toList = token.toList := by
  rw [upper]
  exact (List.map_congr_left fun c member => toUpper_of_isInk (inked.isInk_of_mem member)).trans (List.map_id _)

theorem isToken (inked : IsInked token) : IsToken token where
  nonempty := inked.1
  unbroken _ member := isSeparator_of_isInk (inked.isInk_of_mem member)
  uncommented := inked.not_mem (by decide)
  upper_eq := inked.upper_eq

theorem trimStart_eq (inked : IsInked token) : trimStart token.toList = token.toList := by
  obtain ⟨c, text, letters⟩ := List.exists_cons_of_ne_nil inked.1
  have solid := isBlank_of_isInk (inked.isInk_of_mem (by simp [letters] : c ∈ token.toList))
  rw [letters, trimStart, List.dropWhile_cons_of_neg (by simp [solid])]

end IsInked

/-! ## Tokens of a line -/

theorem toUpper_eq_or_isInk (c : Char) : c.toUpper = c ∨ isInk c.toUpper = true := by
  by_cases lower : c.isLower = true
  · right
    simp [isInk, Char.isAlpha, lower]
  · left
    exact Char.toUpper_eq_of_not_isLower lower

theorem isToken_of_mem_tokens {line : List Char} {token : String} (member : token ∈ tokens line) : IsToken token := by
  obtain ⟨piece, kept, rfl⟩ := List.mem_map.mp member
  obtain ⟨cut, nonempty⟩ := List.mem_filter.mp kept
  have letter {c : Char} (inside : c ∈ (String.ofList (upper piece)).toList) :
      isInk c = true ∨ isSeparator c = false ∧ c ∈ stripComment line := by
    rw [String.toList_ofList] at inside
    obtain ⟨original, written, rfl⟩ := List.mem_map.mp inside
    rcases toUpper_eq_or_isInk original with same | ink
    · right
      rw [same]
      exact of_mem_pieces cut written
    · exact .inl ink
  refine ⟨?_, ?_, ?_, ?_⟩
  · simpa [upper] using nonempty
  · intro c inside
    rcases letter inside with ink | solid
    · exact isSeparator_of_isInk ink
    · exact solid.1
  · intro inside
    rcases letter inside with ink | solid
    · exact absurd ink (by decide)
    · exact absurd (List.mem_takeWhile_imp solid.2) (by decide)
  · simp [upper]

/-! ## Trimming -/

theorem dropWhile_solid_append {part : List Char} (written : part ≠ []) (solid : ∀ c ∈ part, isBlank c = false)
    (rest : List Char) : (part ++ rest).dropWhile isBlank = part ++ rest := by
  cases part with
  | nil => exact absurd rfl written
  | cons c part => rw [List.cons_append, List.dropWhile_cons_of_neg (by simp [solid c List.mem_cons_self])]

theorem trim_append {after : List Char} (written : after ≠ []) (solid : ∀ c ∈ after, isBlank c = false)
    (before : List Char) : trim (before ++ after) = trimStart before ++ after := by
  have start : trimStart (before ++ after) = trimStart before ++ after := by
    rw [trimStart, trimStart]
    induction before with
    | nil => simpa using dropWhile_solid_append written solid []
    | cons c before ih =>
      by_cases blank : isBlank c = true
      · rw [List.cons_append, List.dropWhile_cons_of_pos blank, List.dropWhile_cons_of_pos blank, ih]
      · rw [List.cons_append, List.dropWhile_cons_of_neg blank, List.dropWhile_cons_of_neg blank, List.cons_append]
  rw [trim, start, trimEnd, List.reverse_append, dropWhile_solid_append (by simpa using written)
    fun c member => solid c (List.mem_reverse.mp member), List.reverse_append, List.reverse_reverse,
    List.reverse_reverse]

theorem exists_trim_append (text : List Char) :
    ∃ after, (∀ c ∈ after, isBlank c = true) ∧ trimStart text = trim text ++ after := by
  refine ⟨((trimStart text).reverse.takeWhile isBlank).reverse, ?_, ?_⟩
  · intro c member
    exact List.mem_takeWhile_imp (List.mem_reverse.mp member)
  · rw [trim, trimEnd, ← List.reverse_append, List.takeWhile_append_dropWhile, List.reverse_reverse]

theorem exists_blanks_trim (text : List Char) :
    ∃ before after, (∀ c ∈ before ++ after, isBlank c = true) ∧ text = before ++ trim text ++ after := by
  obtain ⟨after, blank, rest⟩ := exists_trim_append text
  refine ⟨text.takeWhile isBlank, after, ?_, ?_⟩
  · rw [List.forall_mem_append]
    exact ⟨fun c member => List.mem_takeWhile_imp member, blank⟩
  · rw [List.append_assoc, ← rest]
    exact List.takeWhile_append_dropWhile.symm

structure IsTrimmed (text : List Char) : Prop where
  start : ∀ c, text.head? = some c → isBlank c = false
  stop : ∀ c, text.getLast? = some c → isBlank c = false

theorem IsTrimmed.of_solid {text : List Char} (solid : ∀ c ∈ text, isBlank c = false) : IsTrimmed text where
  start c first := solid c (List.mem_of_head? first)
  stop c last := solid c (List.mem_of_getLast? last)

theorem isTrimmed_trim (text : List Char) : IsTrimmed (trim text) := by
  have solid {text : List Char} {c : Char} (first : (text.dropWhile isBlank).head? = some c) : isBlank c = false := by
    have kept := List.head?_dropWhile_not isBlank text
    rwa [first] at kept
  constructor
  · intro c first
    obtain ⟨after, -, rest⟩ := exists_trim_append text
    apply @solid text
    rw [← trimStart, rest, List.head?_append, first, Option.some_or]
  · intro c last
    rw [trim, trimEnd, List.getLast?_reverse] at last
    exact solid last

inductive TrimsTo (core : List Char) : List Char → Prop
  | intro {before after : List Char} (blank : ∀ c ∈ before ++ after, isBlank c = true) (trimmed : IsTrimmed core) :
      TrimsTo core (before ++ core ++ after)

theorem dropWhile_blank_append {before rest : List Char} (blank : ∀ c ∈ before, isBlank c = true)
    (start : ∀ c, rest.head? = some c → isBlank c = false) : (before ++ rest).dropWhile isBlank = rest := by
  rw [List.dropWhile_append_of_pos blank]
  cases rest with
  | nil => rfl
  | cons c rest => rw [List.dropWhile_cons_of_neg (by simp [start c rfl])]

theorem trim_blanks_append {before core after : List Char} (blank : ∀ c ∈ before ++ after, isBlank c = true)
    (trimmed : IsTrimmed core) : trim (before ++ core ++ after) = core := by
  cases core with
  | nil =>
    -- All of it is blank.
    have start : trimStart (before ++ [] ++ after) = [] := by
      rw [List.append_nil, trimStart, List.dropWhile_eq_nil_iff]
      exact blank
    rw [trim, start]
    rfl
  | cons c core =>
    rw [List.forall_mem_append] at blank
    have start : trimStart (before ++ c :: core ++ after) = c :: core ++ after := by
      rw [trimStart, List.append_assoc, dropWhile_blank_append blank.1]
      intro first same
      exact trimmed.start first same
    rw [trim, start, trimEnd, List.reverse_append, dropWhile_blank_append, List.reverse_reverse]
    · intro c member
      exact blank.2 c (List.mem_reverse.mp member)
    · intro last same
      rw [List.head?_reverse] at same
      exact trimmed.stop last same

theorem trim_eq_self {text : List Char} (trimmed : IsTrimmed text) : trim text = text := by
  have trims := @trim_blanks_append [] text [] (List.forall_mem_nil _) trimmed
  rwa [List.nil_append, List.append_nil] at trims

theorem trim_eq_iff {text core : List Char} : trim text = core ↔ TrimsTo core text := by
  constructor
  · rintro rfl
    obtain ⟨before, after, blank, whole⟩ := exists_blanks_trim text
    have trims := TrimsTo.intro blank (isTrimmed_trim text)
    rwa [← whole] at trims
  · rintro ⟨blank, trimmed⟩
    exact trim_blanks_append blank trimmed

theorem trim_eq_nil_iff {text : List Char} : trim text = [] ↔ ∀ c ∈ text, isBlank c = true := by
  rw [trim_eq_iff]
  constructor
  · rintro ⟨blank, -⟩
    rwa [List.append_nil]
  · intro blank
    exact @TrimsTo.intro [] [] text blank ⟨nofun, nofun⟩

end Text

open Text

/-! ## Names and identifiers -/

/-- Letters, digits and underscores, in upper case. A name may be a numeral as well. -/
def IsName (name : String) : Prop :=
  name.toList ≠ [] ∧ (name.toList.all fun c => c.isUpper || c.isDigit || c == '_') = true

namespace IsName

variable {name : String}

theorem isInked (valid : IsName name) : IsInked name := by
  apply IsInked.of_mem valid.1
  intro c member
  have spelled := List.all_eq_true.mp valid.2 c member
  simp only [isInk, Bool.or_eq_true] at spelled ⊢
  tauto

theorem dropHashes_eq (valid : IsName name) : Scope.dropHashes name = name := by
  obtain ⟨first, rest, letters⟩ := List.exists_cons_of_ne_nil valid.1
  have unmarked : (first == '#') = false := by
    rw [beq_eq_false_iff_ne]
    rintro rfl
    have spelled := List.all_eq_true.mp valid.2 '#' (by simp [letters])
    exact absurd spelled (by decide)
  rw [Scope.dropHashes, letters, List.dropWhile_cons_of_neg (by simp [unmarked]), ← letters, String.ofList_toList]

end IsName

def IsIdentifier (name : String) : Prop :=
  (name.toList.head?.any fun c => c.isUpper || c == '_') = true ∧
    (name.toList.all fun c => c.isUpper || c.isDigit || c == '_') = true

instance (name : String) : Decidable (IsIdentifier name) :=
  inferInstanceAs (Decidable (_ ∧ _))

namespace IsIdentifier

variable {name : String}

theorem exists_head (identifier : IsIdentifier name) :
    ∃ first rest, name.toList = first :: rest ∧ ((65 ≤ first.toNat ∧ first.toNat ≤ 90) ∨ first.toNat = 95) := by
  have start := identifier.1
  cases letters : name.toList with
  | nil => simp [letters] at start
  | cons first rest =>
    simp only [letters, List.head?_cons, Option.any_some, Bool.or_eq_true, isUpper_iff, beq_iff_eq,
      char_eq_iff] at start
    exact ⟨first, rest, rfl, start⟩

theorem isName (identifier : IsIdentifier name) : IsName name := by
  refine ⟨?_, identifier.2⟩
  intro empty
  have start := identifier.1
  simp [empty] at start

theorem isInked (identifier : IsIdentifier name) : IsInked name :=
  identifier.isName.isInked

theorem append (identifier : IsIdentifier name) {suffix : String}
    (spelled : ∀ c ∈ suffix.toList, (c.isUpper || c.isDigit) = true) : IsIdentifier (name ++ suffix) := by
  obtain ⟨start, all⟩ := identifier
  obtain ⟨first, rest, letters, -⟩ := exists_head ⟨start, all⟩
  constructor
  · rw [String.toList_append, letters, List.cons_append]
    rwa [letters] at start
  · rw [String.toList_append, List.all_append, all, Bool.true_and, List.all_eq_true]
    intro c member
    rw [spelled c member, Bool.true_or]

end IsIdentifier

/-! ## Keys -/

theorem dropColon_append (text : List Char) : dropColon (text ++ [':']) = text := by
  rw [dropColon, if_pos (List.getLast?_concat ..), List.dropLast_concat]

theorem dropColon_eq_self {text : List Char} (plain : ':' ∉ text) : dropColon text = text := by
  rw [dropColon, if_neg]
  intro last
  exact plain (List.mem_of_getLast? last)

theorem labelKey_of_inked {name : String} (inked : IsInked name) : labelKey name = name := by
  have solid : ∀ c ∈ name.toList, isBlank c = false := fun c member => isBlank_of_isInk (inked.isInk_of_mem member)
  rw [labelKey, trim_eq_self (.of_solid solid), dropColon_eq_self (inked.not_mem (by decide)),
    trim_eq_self (.of_solid solid), String.ofList_toList]

theorem labelKey_of_isToken {token : String} (valid : IsToken token) (colon : token.toList.getLast? = some ':') :
    labelKey token = String.ofList token.toList.dropLast := by
  have solid : ∀ c ∈ token.toList, isBlank c = false := by
    intro c member
    exact (Bool.or_eq_false_iff.mp (valid.unbroken c member)).1
  rw [labelKey, trim_eq_self (.of_solid solid), dropColon, if_pos colon,
    trim_eq_self (.of_solid fun c member => solid c (List.mem_of_mem_dropLast member))]

theorem labelKey_declaration {name : String} (inked : IsInked name) : labelKey (name ++ ":") = name := by
  have solid : ∀ c ∈ name.toList, isBlank c = false := fun c member => isBlank_of_isInk (inked.isInk_of_mem member)
  have solid_colon : ∀ c ∈ name.toList ++ [':'], isBlank c = false := by
    intro c member
    rcases List.mem_append.mp member with member | member
    · exact solid c member
    · rw [List.mem_singleton.mp member]
      decide
  rw [labelKey, String.toList_append, show ":".toList = [':'] from rfl, trim_eq_self (.of_solid solid_colon),
    dropColon_append, trim_eq_self (.of_solid solid), String.ofList_toList]

/-- How the label of a name can be spelled: with blanks around the name, and with a colon behind it that has blanks
around it as well. A name that itself ends in a colon needs one more. -/
inductive SpellsLabel (name spelling : String) : Prop
  | bare (trims : TrimsTo name.toList spelling.toList) (plain : name.toList.getLast? ≠ some ':')
  | colon {before gap after : List Char} (blank : ∀ c ∈ before ++ gap ++ after, isBlank c = true)
      (trimmed : IsTrimmed name.toList) (written : spelling.toList = before ++ name.toList ++ gap ++ ':' :: after)

def SpellsConstant (name spelling : String) : Prop :=
  TrimsTo name.toList spelling.toList

theorem constantKey_ofList (name : List Char) : constantKey (String.ofList name) = String.ofList (trim name) := by
  rw [constantKey, String.toList_ofList]

theorem constantKey_eq_iff {name spelling : String} : constantKey spelling = name ↔ SpellsConstant name spelling := by
  rw [SpellsConstant, ← trim_eq_iff, constantKey, ← String.toList_inj, String.toList_ofList]

theorem labelKey_eq_iff {name spelling : String} : labelKey spelling = name ↔ SpellsLabel name spelling := by
  rw [labelKey, ← String.toList_inj, String.toList_ofList]
  constructor
  · intro key
    obtain ⟨before, after, blank, whole⟩ := exists_blanks_trim spelling.toList
    by_cases last : (trim spelling.toList).getLast? = some ':'
    · obtain ⟨body, declared⟩ := List.getLast?_eq_some_iff.mp last
      rw [declared, dropColon_append] at key
      rw [declared] at whole
      obtain ⟨before', gap, blank', inner⟩ := exists_blanks_trim body
      rw [key] at inner
      refine @SpellsLabel.colon _ _ (before ++ before') gap after ?_ ?_ ?_
      · simp only [List.forall_mem_append] at blank blank' ⊢
        exact ⟨⟨⟨blank.1, blank'.1⟩, blank'.2⟩, blank.2⟩
      · rw [← key]
        exact isTrimmed_trim body
      · rw [whole, inner]
        simp
    · rw [dropColon, if_neg last, trim_eq_self (isTrimmed_trim _)] at key
      rw [key] at last
      exact .bare (trim_eq_iff.mp key) last
  · intro spelled
    cases spelled with
    | bare trims plain =>
      have outer := trim_eq_iff.mpr trims
      rw [outer, dropColon, if_neg plain, ← outer]
      exact trim_eq_self (isTrimmed_trim _)
    | @colon before gap after blank trimmed written =>
      simp only [List.forall_mem_append] at blank
      obtain ⟨⟨before_blank, gap_blank⟩, after_blank⟩ := blank
      have colon_solid : ∀ c, some ':' = some c → isBlank c = false := by
        rintro _ ⟨⟩
        decide
      -- A name in front keeps the gap before the colon; without one the gap is trimmed away as well.
      by_cases nameless : name.toList = []
      · have outer : trim spelling.toList = [':'] := by
          rw [trim_eq_iff, written, nameless, List.append_nil, List.append_cons]
          refine .intro (List.forall_mem_append.mpr ⟨?_, after_blank⟩) ⟨colon_solid, colon_solid⟩
          exact List.forall_mem_append.mpr ⟨before_blank, gap_blank⟩
        rw [outer, nameless]
        rfl
      · have outer : trim spelling.toList = name.toList ++ gap ++ [':'] := by
          have split : spelling.toList = before ++ (name.toList ++ gap ++ [':']) ++ after := by simp [written]
          rw [trim_eq_iff, split]
          refine .intro (List.forall_mem_append.mpr ⟨before_blank, after_blank⟩) ⟨?_, ?_⟩
          · intro c first
            rw [List.append_assoc, List.head?_append_of_ne_nil _ nameless] at first
            exact trimmed.start c first
          · rw [List.getLast?_concat]
            exact colon_solid
        rw [outer, dropColon_append, trim_eq_iff]
        exact @TrimsTo.intro _ [] gap gap_blank trimmed

end DspAsm
