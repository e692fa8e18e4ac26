import DspAsm.Proofs.Text.Case

namespace DspAsm.Text

/-! ## Tokens by their characters -/

def IsSolid (c : Char) : Prop :=
  isBlank c = false ∧ c ≠ ',' ∧ c ≠ ';' ∧ c.isLower = false

def IsPlain (token : String) : Prop :=
  token.toList ≠ [] ∧ ∀ c ∈ token.toList, IsSolid c

theorem toUpper_eq_self_iff {c : Char} : c.toUpper = c ↔ c.isLower = false := by
  constructor
  · intro same
    have capital : c.toUpper.isLower = false := by simp
    rwa [same] at capital
  · intro capital
    exact Char.toUpper_eq_of_not_isLower (by simp [capital])

theorem upper_eq_self_iff {text : List Char} : upper text = text ↔ ∀ c ∈ text, c.isLower = false := by
  have pointwise := @List.map_inj_left Char Char text Char.toUpper id
  rw [List.map_id] at pointwise
  simp only [← toUpper_eq_self_iff]
  exact pointwise

theorem isSeparator_eq_false_iff {c : Char} : isSeparator c = false ↔ isBlank c = false ∧ c ≠ ',' := by
  rw [isSeparator, Bool.or_eq_false_iff, beq_eq_false_iff_ne]

theorem isToken_iff_isPlain {token : String} : IsToken token ↔ IsPlain token := by
  constructor
  · intro valid
    refine ⟨valid.nonempty, ?_⟩
    intro c member
    obtain ⟨solid, comma⟩ := isSeparator_eq_false_iff.mp (valid.unbroken c member)
    refine ⟨solid, comma, ?_, upper_eq_self_iff.mp valid.upper_eq c member⟩
    intro mark
    exact valid.uncommented (mark ▸ member)
  · intro plain
    refine ⟨plain.1, ?_, ?_, upper_eq_self_iff.mpr fun c member => (plain.2 c member).2.2.2⟩
    · intro c member
      exact isSeparator_eq_false_iff.mpr ⟨(plain.2 c member).1, (plain.2 c member).2.1⟩
    · intro member
      exact (plain.2 ';' member).2.2.1 rfl

/-! ## Layouts -/

def IsSpacing (text : List Char) : Prop :=
  ∀ c ∈ text, isSeparator c = true

def IsComment (text : List Char) : Prop :=
  text = [] ∨ text.head? = some ';'

/-- The line consists of the tokens in order. Separators stand between any two of them; there may be some before the
first and after the last, and then a comment. -/
inductive LaidOut : List String → List Char → Prop
  | ending {gap comment : List Char} (spaced : IsSpacing gap) (closed : IsComment comment) :
      LaidOut [] (gap ++ comment)
  | token {token : String} {later : List String} {gap rest : List Char} (spaced : IsSpacing gap)
      (parted : later ≠ [] → rest.head?.any isSeparator = true) (follow : LaidOut later rest) :
      LaidOut (token :: later) (gap ++ (token.toList ++ rest))

namespace LaidOut

theorem cons_separator {written : List String} {line : List Char} (laid : LaidOut written line) {c : Char}
    (separates : isSeparator c = true) : LaidOut written (c :: line) := by
  have widen {gap : List Char} (spaced : IsSpacing gap) : IsSpacing (c :: gap) :=
    List.forall_mem_cons.mpr ⟨separates, spaced⟩
  cases laid with
  | @ending gap comment spaced closed => exact ending (widen spaced) closed
  | @token token later gap rest spaced parted follow => exact .token (widen spaced) parted follow

theorem intercalate (written : List String) : LaidOut written (" ".intercalate written).toList := by
  induction written with
  | nil => exact @ending [] [] nofun (.inl rfl)
  | cons token later ih =>
    cases later with
    | nil =>
      rw [String.intercalate_singleton, ← List.append_nil token.toList]
      exact @LaidOut.token token [] [] [] nofun (absurd rfl) ih
    | cons next later =>
      have blank : " ".toList = [' '] := rfl
      rw [String.intercalate_cons_cons, String.toList_append, String.toList_append, List.append_assoc, blank]
      have separates : isSeparator ' ' = true := by decide
      exact @LaidOut.token token (next :: later) [] _ nofun (fun _ => separates) (ih.cons_separator separates)

theorem exists_cons_solid {written : List String} {line : List Char} (laid : LaidOut written line)
    (plain : ∀ token ∈ written, IsPlain token) {c : Char} (solid : IsSolid c) :
    ∃ written', (∀ token ∈ written', IsPlain token) ∧ LaidOut written' (c :: line) := by
  -- A token that begins with the character, before what is laid out already.
  have start {text rest : List Char} {later : List String} (ink : ∀ d ∈ text, IsSolid d)
      (others : ∀ token ∈ later, IsPlain token) (parted : later ≠ [] → rest.head?.any isSeparator = true)
      (follow : LaidOut later rest) :
      ∃ written', (∀ token ∈ written', IsPlain token) ∧ LaidOut written' (c :: (text ++ rest)) := by
    have letters : (String.ofList (c :: text)).toList = c :: text := String.toList_ofList
    have whole : IsPlain (String.ofList (c :: text)) := by
      rw [IsPlain, letters]
      exact ⟨List.cons_ne_nil _ _, List.forall_mem_cons.mpr ⟨solid, ink⟩⟩
    refine ⟨String.ofList (c :: text) :: later, List.forall_mem_cons.mpr ⟨whole, others⟩, ?_⟩
    have laid := @LaidOut.token (String.ofList (c :: text)) later [] rest nofun parted follow
    rwa [letters] at laid
  cases laid with
  | @ending gap comment spaced closed => exact @start [] _ [] nofun nofun (absurd rfl) (ending spaced closed)
  | @token token later gap rest spaced parted follow =>
    rw [List.forall_mem_cons] at plain
    cases gap with
    | nil => exact @start token.toList rest later plain.1.2 plain.2 parted follow
    | cons d gap =>
      have separates := spaced d List.mem_cons_self
      exact @start [] _ (token :: later) nofun (List.forall_mem_cons.mpr plain) (fun _ => separates)
        (.token spaced parted follow)

end LaidOut

theorem exists_laidOut {line : List Char} (capital : ∀ c ∈ line, c.isLower = false) :
    ∃ written, (∀ token ∈ written, IsPlain token) ∧ LaidOut written line := by
  -- The line is built from its end: a separator widens the first gap, any other character begins or extends a token.
  induction line with
  | nil => exact ⟨[], nofun, @LaidOut.ending [] [] nofun (.inl rfl)⟩
  | cons c line ih =>
    rw [List.forall_mem_cons] at capital
    obtain ⟨written, plain, laid⟩ := ih capital.2
    by_cases comment : c = ';'
    · exact ⟨[], nofun, @LaidOut.ending [] (c :: line) nofun (.inr (by rw [comment]; rfl))⟩
    by_cases separates : isSeparator c = true
    · exact ⟨written, plain, laid.cons_separator separates⟩
    obtain ⟨unblank, comma⟩ := isSeparator_eq_false_iff.mp (Bool.eq_false_of_not_eq_true separates)
    exact laid.exists_cons_solid plain ⟨unblank, comma, comment, capital.1⟩

/-! ## Reading a layout -/

theorem tokens_comment {comment : List Char} (closed : IsComment comment) : tokens comment = [] := by
  rcases closed with rfl | mark
  · rfl
  · obtain ⟨rest, rfl⟩ := List.head?_eq_some_iff.mp mark
    rfl

theorem tokens_append_of_boundary {before rest : List Char} (uncommented : ';' ∉ before)
    (boundary : IsComment rest ∨ rest.head?.any isSeparator = true) :
    tokens (before ++ rest) = tokens before ++ tokens rest := by
  rcases boundary with closed | parted
  · rw [tokens_comment closed, List.append_nil]
    rcases closed with rfl | mark
    · rw [List.append_nil]
    · obtain ⟨rest, rfl⟩ := List.head?_eq_some_iff.mp mark
      have cut : stripComment (';' :: rest) = [] := rfl
      rw [← tokens_stripComment, stripComment_append uncommented, cut, List.append_nil]
  · cases rest with
    | nil => cases parted
    | cons c rest =>
      have gap : tokens (c :: rest) = tokens rest := tokens_gap_append (List.forall_mem_singleton.mpr parted) rest
      rw [tokens_append_separator uncommented parted, gap]

theorem LaidOut.boundary {later : List String} {rest : List Char} (follow : LaidOut later rest)
    (parted : later ≠ [] → rest.head?.any isSeparator = true) :
    IsComment rest ∨ rest.head?.any isSeparator = true := by
  cases follow with
  | @ending gap comment spaced closed =>
    cases gap with
    | nil => exact .inl closed
    | cons c gap => exact .inr (spaced c List.mem_cons_self)
  | token => exact .inr (parted (List.cons_ne_nil _ _))

theorem LaidOut.tokens_eq {written : List String} {line : List Char} (laid : LaidOut written line)
    (plain : ∀ token ∈ written, IsPlain token) : tokens line = written := by
  induction laid with
  | ending spaced closed => rw [tokens_gap_append spaced, tokens_comment closed]
  | @token token later gap rest spaced parted follow ih =>
    rw [List.forall_mem_cons] at plain
    have valid := isToken_iff_isPlain.mpr plain.1
    rw [tokens_gap_append spaced, tokens_append_of_boundary valid.uncommented (follow.boundary parted),
      tokens_token valid, ih plain.2, List.singleton_append]

theorem isPlain_of_mem_tokens {line : List Char} {token : String} (member : token ∈ tokens line) : IsPlain token :=
  isToken_iff_isPlain.mp (isToken_of_mem_tokens member)

theorem laidOut_tokens (line : List Char) : LaidOut (tokens line) (upper line) := by
  have capital := upper_eq_self_iff.mp (upper_upper line)
  obtain ⟨written, plain, laid⟩ := exists_laidOut capital
  -- A line lays out one list of tokens only, namely those that are read from it.
  have read := laid.tokens_eq plain
  rw [tokens_upper] at read
  rwa [read]

/-- Reading a line gives the tokens that are laid out on it. What is read from any line is such a list of tokens, which
the line lays out but for the case of letters, so that reading them again changes nothing. -/
theorem tokens_inverts_laidOut (line : List Char) :
    (∀ written, (∀ token ∈ written, IsPlain token) → LaidOut written line → tokens line = written) ∧
      (∀ token ∈ tokens line, IsPlain token) ∧ LaidOut (tokens line) (upper line) ∧
      tokens (" ".intercalate (tokens line)).toList = tokens line := by
  have plain : ∀ token ∈ tokens line, IsPlain token := fun _ => isPlain_of_mem_tokens
  refine ⟨?_, plain, laidOut_tokens line, (LaidOut.intercalate _).tokens_eq plain⟩
  intro written whole laid
  exact laid.tokens_eq whole

theorem tokens_inverts_laidOut_mixed :
    LaidOut ["MOV", "ß", "X:"] ", MOV\t,ß\u3000X:;mov y".toList ∧
      tokens ", MOV\t,ß\u3000X:;mov y".toList = ["MOV", "ß", "X:"] := by
  have plain : ∀ token ∈ ["MOV", "ß", "X:"], IsPlain token := by
    simp [IsPlain, IsSolid, isBlank, blankRanges]
  have parted : [',', ' ', '\t', '\u3000'].all isSeparator = true := by simp [isSeparator, isBlank, blankRanges]
  have laid : LaidOut ["MOV", "ß", "X:"] ", MOV\t,ß\u3000X:;mov y".toList := by
    simp only [List.all_cons, List.all_nil, Bool.and_true, Bool.and_eq_true] at parted
    obtain ⟨comma, blank, tab, wide⟩ := parted
    apply @LaidOut.token "MOV" _ [',', ' '] "\t,ß\u3000X:;mov y".toList (by simp [IsSpacing, *]) (fun _ => tab)
    apply @LaidOut.token "ß" _ ['\t', ','] "\u3000X:;mov y".toList (by simp [IsSpacing, *]) (fun _ => wide)
    apply @LaidOut.token "X:" _ ['\u3000'] ";mov y".toList (by simp [IsSpacing, *]) (absurd rfl)
    exact @LaidOut.ending [] _ (List.forall_mem_nil _) (.inr rfl)
  exact ⟨laid, (tokens_inverts_laidOut _).1 _ plain laid⟩

end DspAsm.Text
