import PatternText.Proofs.Pattern.ListScan

/-! Opening parentheses as a scanner finds them. A parenthesis opens a group unless a backslash stands before
it, or it stands in a list or between braces, where it is a character among others. A list is over at the
first closing bracket without a backslash before it, braces at the first closing brace. The scanner knows
no more of the syntax; atoms and quantifiers leave it where it was and open nothing. -/

namespace PatternText

/-! ### The scanner -/

/-- Where the scanner is in a pattern. -/
inductive Region where
  | outside
  /-- Behind a backslash. -/
  | escaped
  /-- In a list, behind a backslash or not. -/
  | list (backslash : Bool)
  | braces
  deriving DecidableEq, Repr

namespace Region

/-- Where the scanner is behind one more character. -/
def next : Region → Char → Region
  | outside, c =>
    if c = '\\' then escaped else if c = '[' then list false else if c = '{' then braces else outside
  | escaped, _ => outside
  | list backslash, c => if c = ']' ∧ backslash = false then outside else list (c == '\\')
  | braces, c => if c = '}' then outside else braces

/-- The places of the opening parentheses in a text that begins at this place. -/
def openings (place : Nat) : Region → List Char → List Nat
  | _, [] => []
  | region, c :: cs =>
    (if region = outside ∧ c = '(' then [place] else []) ++ openings (place + 1) (region.next c) cs

end Region

/-- The places of the parentheses that open a group of the pattern. -/
def openParentheses (pattern : String) : List Nat :=
  Region.outside.openings 0 pattern.toList

namespace Region

theorem openings_inside (region : Region) (h : region ≠ outside) (place : Nat) (c : Char)
    (cs : List Char) :
    region.openings place (c :: cs) = (region.next c).openings (place + 1) cs := by
  rw [openings, if_neg fun hopen => h hopen.1, List.nil_append]

theorem openings_outside {c : Char} (h : c ≠ '(') (place : Nat) (cs : List Char) :
    outside.openings place (c :: cs) = (outside.next c).openings (place + 1) cs := by
  rw [openings, if_neg fun hopen => h hopen.2, List.nil_append]

theorem openings_parenthesis (place : Nat) (cs : List Char) :
    outside.openings place ('(' :: cs) = place :: outside.openings (place + 1) cs := by
  rw [openings, if_pos ⟨rfl, rfl⟩]
  rfl

/-- A row of list characters is scanned up to the bracket that closes the list. -/
theorem openings_list {ts : List ListChar} {rest : List Char} (h : ListChar.Clean ts (']' :: rest))
    {backslash : Bool}
    (hfirst : backslash = true → (ListChar.textAll ts ++ ']' :: rest).head? ≠ some ']') (place : Nat) :
    (list backslash).openings place (ListChar.textAll ts ++ ']' :: rest) =
      outside.openings (place + (ListChar.textAll ts).length + 1) rest := by
  induction ts generalizing backslash place with
  | nil =>
    have hclosed : backslash = false := by
      cases backslash with
      | false => rfl
      | true => exact absurd rfl (hfirst rfl)
    rw [hclosed]
    show (list false).openings place (']' :: rest) = _
    rw [openings_inside (list false) (by simp)]
    rfl
  | cons t ts ih =>
    have hlength : (ListChar.textAll (t :: ts)).length =
        t.text.length + (ListChar.textAll ts).length := by
      rw [ListChar.textAll, List.flatMap_cons, List.length_append, ← ListChar.textAll]
    rw [ListChar.textAll_cons, hlength]
    cases t with
    | plain c other =>
      have hbehind : (c == '\\') = true → (ListChar.textAll ts ++ ']' :: rest).head? ≠ some ']' := by
        intro hc
        obtain rfl := eq_of_beq hc
        exact h.1 rfl
      rw [ListChar.text, List.singleton_append, openings_inside (list backslash) (by simp), next,
        if_neg fun hc => other hc.1, ih h.2 hbehind, List.length_singleton]
      congr 1
      omega
    | bracket =>
      show (list backslash).openings place ('\\' :: ']' :: (ListChar.textAll ts ++ ']' :: rest)) = _
      rw [openings_inside (list backslash) (by simp), next, if_neg (by simp),
        openings_inside (list _) (by simp), next, if_neg (by simp), ih h.2 (by simp)]
      congr 1
      show place + 1 + 1 + _ + 1 = place + (2 + _) + 1
      omega

theorem openings_braces {cs : List Char} (h : '}' ∉ cs) (place : Nat) (rest : List Char) :
    braces.openings place (cs ++ '}' :: rest) = outside.openings (place + cs.length + 1) rest := by
  induction cs generalizing place with
  | nil =>
    rw [List.nil_append, openings_inside braces (by simp)]
    rfl
  | cons c cs ih =>
    rw [List.mem_cons, not_or] at h
    rw [List.cons_append, openings_inside braces (by simp), next, if_neg (Ne.symm h.1), ih h.2,
      List.length_cons]
    congr 1
    omega

end Region

/-! ### Texts without opening parentheses -/

/-- The scanner passes over the text: it is outside before and after, and nothing opens. -/
def Quiet (text : List Char) : Prop :=
  ∀ place rest, Region.outside.openings place (text ++ rest) =
    Region.outside.openings (place + text.length) rest

namespace Quiet

theorem nil : Quiet [] :=
  fun _ _ => rfl

theorem append {text text' : List Char} (h : Quiet text) (h' : Quiet text') : Quiet (text ++ text') := by
  intro place rest
  rw [List.append_assoc, h, h', List.length_append, Nat.add_assoc]

theorem singleton {c : Char} (h : c ∉ ['\\', '[', '{', '(']) : Quiet [c] := by
  intro place rest
  simp only [List.mem_cons, List.not_mem_nil, or_false, not_or] at h
  obtain ⟨hbackslash, hbracket, hbrace, hparenthesis⟩ := h
  rw [List.singleton_append, Region.openings_outside hparenthesis, Region.next,
    if_neg hbackslash, if_neg hbracket, if_neg hbrace]
  rfl

theorem escape (c : Char) : Quiet ['\\', c] := by
  intro place rest
  show Region.outside.openings place ('\\' :: c :: rest) = _
  rw [Region.openings_outside (by decide)]
  show Region.escaped.openings (place + 1) (c :: rest) = _
  rw [Region.openings_inside .escaped (by simp)]
  rfl

theorem braced {cs : List Char} (h : '}' ∉ cs) : Quiet ('{' :: (cs ++ ['}'])) := by
  intro place rest
  rw [List.cons_append, List.append_assoc, List.singleton_append,
    Region.openings_outside (by decide)]
  show Region.braces.openings (place + 1) (cs ++ '}' :: rest) = _
  rw [Region.openings_braces h, List.length_cons, List.length_append, List.length_singleton]
  congr 1
  omega

theorem list (l : CharList) : Quiet l.text := by
  intro place rest
  have hlength : (l.text ++ rest).length = (l.body ++ ']' :: rest).length + 1 := by
    rw [l.text_append, List.length_cons]
  simp only [List.length_append, List.length_cons] at hlength
  rw [l.text_append, Region.openings_outside (by decide), ← l.textAll_row]
  show (Region.list false).openings (place + 1) _ = _
  rw [Region.openings_list (l.clean_row rest) (by simp), l.textAll_row]
  congr 1
  omega

end Quiet

theorem ExprText.brace_notMem (e : ExprText) : '}' ∉ e.chars :=
  fun h => absurd (e.allowed _ h) (by decide)

theorem FirstModifier.brace_notMem (m : Option FirstModifier) : '}' ∉ optText m := by
  rcases m with _ | _ | _ <;> decide

theorem NumberModifier.brace_notMem (ms : List NumberModifier) : '}' ∉ textAll ms := by
  intro h
  obtain ⟨m, -, hm⟩ := List.mem_flatMap.1 h
  cases m with
  | simplify => exact absurd hm (by decide)
  | fixed places =>
    have hdigits : '}' ∉ places.chars := fun h => absurd (places.allowed _ h) (by decide)
    simp [text, fixedWord, hdigits] at hm

theorem Atom.quiet (a : Atom) : Quiet a.text := by
  cases a with
  | plain c other =>
    have hspecial : ∀ c ∈ ['\\', '[', '{', '('], c ∈ metaChars := by simp [metaChars]
    exact .singleton fun h => other (hspecial c h)
  | escaped c _ | named _ c _ | backref c _ => exact .escape c
  | list l => exact .list l
  | dot => exact .singleton (by decide)
  | source e m =>
    have hbraced : Quiet ('{' :: (('{' :: (e.chars ++ FirstModifier.optText m)) ++ ['}'])) :=
      .braced (by simp [e.brace_notMem, FirstModifier.brace_notMem m])
    have hquiet := hbraced.append (.singleton (by decide) : Quiet ['}'])
    simpa [text] using hquiet
  | numeric e ms =>
    have hbraced : Quiet ('{' :: (('{' :: '=' :: (e.chars ++ NumberModifier.textAll ms)) ++ ['}'])) :=
      .braced (by simp [e.brace_notMem, NumberModifier.brace_notMem ms])
    have hquiet := hbraced.append (.singleton (by decide) : Quiet ['}'])
    simpa [text] using hquiet

theorem Quantifier.quiet (x : Quantifier) : Quiet x.text := by
  cases x with
  | zeroOrMore | zeroOrOne | oneOrMore => exact .singleton (by decide)
  | exactly e => exact .braced e.brace_notMem
  | atLeast e =>
    have hbraced : Quiet ('{' :: ((e.chars ++ [',']) ++ ['}'])) := .braced (by simp [e.brace_notMem])
    simpa [text] using hbraced
  | between e f =>
    have hbraced : Quiet ('{' :: ((e.chars ++ ',' :: f.chars) ++ ['}'])) :=
      .braced (by simp [e.brace_notMem, f.brace_notMem])
    simpa [text] using hbraced

theorem Quantifier.quiet_textAll (xs : List Quantifier) : Quiet (textAll xs) := by
  induction xs with
  | nil => exact .nil
  | cons x xs ih => exact x.quiet.append ih

end PatternText
