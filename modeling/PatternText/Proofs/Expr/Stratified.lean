import PatternText.Expr.Reading

/-! The grammar of expressions in layers. A sum is a product, or a sum and one more product with an
operator of sums between them; a product is made of operands in the same way; an operand is a term with
signs before it; a term is a number token, a variable or a sum in brackets. The reader has no layers: it
climbs the operators by precedence. What it reads derives from the grammar all the same. While it takes
operators, what it has read so far belongs to some layer, and the next operator binds no more tightly than
those on which that layer is built, so it can go on from there. And all of a text that derives an
expression is read as that expression: one character of look-ahead is enough to see where a row ends. -/

namespace PatternText

namespace Expr

/-- The layers of the grammar. -/
inductive Level where
  | sum
  | product
  | operand
  | term
  deriving DecidableEq, Repr

/-- A digit or a point. -/
def NumberChar (c : Char) : Prop := '0' ≤ c ∧ c ≤ '9' ∨ c = '.'

instance (c : Char) : Decidable (NumberChar c) :=
  inferInstanceAs (Decidable ('0' ≤ c ∧ c ≤ '9' ∨ c = '.'))

/-- Digits with at most one point among or around them. -/
structure IsNumberToken (token : List Char) : Prop where
  numberChars : ∀ c ∈ token, NumberChar c
  digit : ∃ c ∈ token, '0' ≤ c ∧ c ≤ '9'
  point : token.count '.' ≤ 1

/-- The text spells the expression at the level, where `rest` follows it. What follows bears on number
tokens only, which reach as far as digits and points do. -/
inductive Derives : Level → List Char → Expr → List Char → Prop where
  | number {token rest : List Char} {x : Float} (htoken : IsNumberToken token)
      (hvalue : readFloat? token = some x) (hmaximal : ∀ c ∈ rest.head?, ¬NumberChar c) :
      Derives .term token (number x) rest
  | counter {rest : List Char} : Derives .term ['i'] counter rest
  | sourceCount {rest : List Char} : Derives .term ['N'] sourceCount rest
  | outerCounter {cs rest : List Char} {e : Expr} (h : Derives .sum cs e (']' :: rest)) :
      Derives .term ('j' :: '[' :: (cs ++ [']'])) (outerCounter e) rest
  | sourceValue {cs rest : List Char} {e : Expr} (h : Derives .sum cs e (']' :: rest)) :
      Derives .term ('S' :: '[' :: (cs ++ [']'])) (sourceValue e) rest
  | parens {cs rest : List Char} {e : Expr} (h : Derives .sum cs e (')' :: rest)) :
      Derives .term ('(' :: (cs ++ [')'])) e rest
  | unsigned {cs rest : List Char} {e : Expr} (h : Derives .term cs e rest) :
      Derives .operand cs e rest
  | minus {cs rest : List Char} {e : Expr} (h : Derives .operand cs e rest) :
      Derives .operand ('-' :: cs) (negate e) rest
  | plus {cs rest : List Char} {e : Expr} (h : Derives .operand cs e rest) :
      Derives .operand ('+' :: cs) e rest
  | factor {cs rest : List Char} {e : Expr} (h : Derives .operand cs e rest) :
      Derives .product cs e rest
  | multiplied {left right rest : List Char} {l r : Expr} {c : Char} {op : Operator}
      (hleft : Derives .product left l (c :: (right ++ rest)))
      (hop : (c, op) ∈ [('*', .mul), ('/', .div), ('%', .rem)]) (hright : Derives .operand right r rest) :
      Derives .product (left ++ c :: right) (binary op l r) rest
  | summand {cs rest : List Char} {e : Expr} (h : Derives .product cs e rest) : Derives .sum cs e rest
  | added {left right rest : List Char} {l r : Expr} {c : Char} {op : Operator}
      (hleft : Derives .sum left l (c :: (right ++ rest))) (hop : (c, op) ∈ [('+', .add), ('-', .sub)])
      (hright : Derives .product right r rest) :
      Derives .sum (left ++ c :: right) (binary op l r) rest

/-! ### Layers -/

/-- How tightly the texts of a layer bind. -/
def Level.rank : Level → Nat
  | sum => 0
  | product => 1
  | operand => 2
  | term => 3

/-- A layer has every text of the tighter layers. -/
theorem Derives.mono {want level : Level} {cs rest : List Char} {e : Expr}
    (h : Derives level cs e rest) (hrank : want.rank ≤ level.rank) : Derives want cs e rest := by
  have hproduct (h : Derives .operand cs e rest) : Derives .sum cs e rest := .summand (.factor h)
  cases level with
  | sum =>
    cases want with
    | sum => exact h
    | product | operand | term => exact absurd hrank (by decide)
  | product =>
    cases want with
    | sum => exact .summand h
    | product => exact h
    | operand | term => exact absurd hrank (by decide)
  | operand =>
    cases want with
    | sum => exact hproduct h
    | product => exact .factor h
    | operand => exact h
    | term => exact absurd hrank (by decide)
  | term =>
    cases want with
    | sum => exact hproduct (.unsigned h)
    | product => exact .factor (.unsigned h)
    | operand => exact .unsigned h
    | term => exact h

/-- The layer without operators that bind as loosely as `least` or more loosely. -/
def layer : Nat → Level
  | 0 => .sum
  | 1 => .product
  | _ + 2 => .operand

theorem rank_layer (least : Nat) : (layer least).rank = min least 2 := by
  unfold layer
  split <;> simp [Level.rank]

theorem Derives.loosen {k least : Nat} {cs rest : List Char} {e : Expr}
    (h : Derives (layer k) cs e rest) (hle : least ≤ k) : Derives (layer least) cs e rest :=
  h.mono (by rw [rank_layer, rank_layer]; omega)

/-- What an operator joins is on its left in its own layer, and on its right in the next one. -/
theorem Derives.joined {left right rest : List Char} {l r : Expr} {c : Char} {op : Operator}
    (hop : Operator.ofChar? c = some op)
    (hleft : Derives (layer (op.precedence - 1)) left l (c :: (right ++ rest)))
    (hright : Derives (layer op.precedence) right r rest) :
    Derives (layer (op.precedence - 1)) (left ++ c :: right) (binary op l r) rest := by
  obtain rfl := Operator.eq_symbol_of_ofChar? hop
  cases op with
  | add | sub => exact .added hleft (by decide) hright
  | mul | div | rem => exact .multiplied hleft (by decide) hright

/-! ### Number tokens -/

theorem isDigit_iff {c : Char} : c.isDigit = true ↔ '0' ≤ c ∧ c ≤ '9' := by
  simp [Char.isDigit, Char.le_def]

theorem isNumberChar_iff {c : Char} : isNumberChar c = true ↔ NumberChar c := by
  rw [NumberChar, ← isDigit_iff, isNumberChar, Bool.or_eq_true, beq_iff_eq]

theorem isNumberChar_eq_false_iff {c : Char} : isNumberChar c = false ↔ ¬NumberChar c := by
  rw [← isNumberChar_iff, Bool.not_eq_true]

theorem eq_point_of_isNumberChar {c : Char} (h : isNumberChar c = true) (hdigit : c.isDigit = false) :
    c = '.' := by
  rw [isNumberChar, hdigit, Bool.false_or] at h
  exact eq_of_beq h

/-- A row of digits and points is digits alone, or goes on with a point after its first digits. -/
theorem exists_digits_of_numberChars {cs : List Char} (hchars : ∀ c ∈ cs, isNumberChar c = true) :
    ∃ digits rest, cs = digits ++ rest ∧ (∀ c ∈ digits, c.isDigit = true) ∧
      cs.takeWhile Char.isDigit = digits ∧ cs.dropWhile Char.isDigit = rest ∧
      (rest = [] ∨ ∃ after, rest = '.' :: after ∧ ∀ c ∈ after, isNumberChar c = true) := by
  refine ⟨cs.takeWhile Char.isDigit, cs.dropWhile Char.isDigit, List.takeWhile_append_dropWhile.symm,
    List.all_eq_true.1 List.all_takeWhile, rfl, rfl, ?_⟩
  cases hdrop : cs.dropWhile Char.isDigit with
  | nil => exact .inl rfl
  | cons c after =>
    right
    have hmem (d : Char) (hd : d ∈ c :: after) : isNumberChar d = true :=
      hchars d ((List.dropWhile_suffix _).subset (hdrop ▸ hd))
    have hdigit : c.isDigit = false := by
      have hhead := List.head?_dropWhile_not Char.isDigit cs
      rw [hdrop] at hhead
      exact hhead
    obtain rfl : c = '.' := eq_point_of_isNumberChar (hmem c List.mem_cons_self) hdigit
    exact ⟨after, rfl, fun d hd => hmem d (List.mem_cons_of_mem _ hd)⟩

theorem count_point_of_digits {digits : List Char} (h : ∀ c ∈ digits, c.isDigit = true) :
    digits.count '.' = 0 := by
  rw [List.count_eq_zero]
  intro hmem
  exact absurd (h '.' hmem) (by decide)

theorem readMagnitude?_isSome_iff {token : List Char} (hchars : ∀ c ∈ token, isNumberChar c = true) :
    (readMagnitude? false token).isSome = true ↔
      (∃ c ∈ token, c.isDigit = true) ∧ token.count '.' ≤ 1 := by
  obtain ⟨whole, tail, rfl, hwhole, htake, hdrop, htail⟩ := exists_digits_of_numberChars hchars
  have hcount := count_point_of_digits hwhole
  have hsome (digits : List Char) (hdigits : ∀ c ∈ digits, c.isDigit = true) :
      (∃ c ∈ digits, c.isDigit = true) ↔ digits ≠ [] :=
    ⟨fun ⟨c, hc, _⟩ => List.ne_nil_of_mem hc, fun hne =>
      ⟨digits.head hne, List.head_mem hne, hdigits _ (List.head_mem hne)⟩⟩
  rw [readMagnitude?, htake, hdrop]
  rcases htail with rfl | ⟨after, rfl, hafter⟩
  · rw [List.append_nil, hsome whole hwhole, hcount]
    cases whole <;> simp [readExponent?]
  · obtain ⟨fraction, tail, rfl, hfraction, htake', hdrop', htail⟩ :=
      exists_digits_of_numberChars hafter
    have hcount' := count_point_of_digits hfraction
    have hdigits : (∃ c ∈ whole ++ '.' :: (fraction ++ tail), c.isDigit = true) ↔
        whole ≠ [] ∨ (∃ c ∈ fraction ++ tail, c.isDigit = true) := by
      rw [← hsome whole hwhole]
      simp [or_and_right, exists_or]
    simp only [htake', hdrop']
    rw [hdigits, List.count_append, List.count_cons_self, List.count_append, hcount, hcount']
    rcases htail with rfl | ⟨after, rfl, -⟩
    · rw [List.append_nil, hsome fraction hfraction]
      cases whole <;> cases fraction <;> simp [readExponent?]
    · -- no exponent begins with a point
      have hnone : readExponent? ('.' :: after) = none := rfl
      rw [hnone, List.count_cons_self, Option.map_none]
      split
      · simp
      · simp

theorem IsNumberToken.isNumberChar {token : List Char} (h : IsNumberToken token) :
    ∀ c ∈ token, Expr.isNumberChar c = true :=
  fun c hc => isNumberChar_iff.2 (h.numberChars c hc)

/-- Of the rows of digits and points the number tokens are those that have a value. -/
theorem readFloat?_isSome_iff {token : List Char} (hchars : ∀ c ∈ token, isNumberChar c = true) :
    (readFloat? token).isSome = true ↔ IsNumberToken token := by
  have hunsigned : readFloat? token = readMagnitude? false token := by
    unfold readFloat?
    split
    next => exact absurd (hchars '-' List.mem_cons_self) (by decide)
    next => exact absurd (hchars '+' List.mem_cons_self) (by decide)
    next => rfl
  rw [hunsigned, readMagnitude?_isSome_iff hchars]
  simp only [isDigit_iff]
  exact ⟨fun ⟨hdigit, hpoint⟩ => ⟨fun c hc => isNumberChar_iff.1 (hchars c hc), hdigit, hpoint⟩,
    fun h => ⟨h.digit, h.point⟩⟩

/-! ### What is read derives -/

/-- The reader takes a part of the text that derives what it reads. -/
def Sound (level : Level) (read : List Char → Reading) : Prop :=
  ∀ cs e rest, read cs = .ok (e, rest) → ∃ taken, cs = taken ++ rest ∧ Derives level taken e rest

theorem eq_of_close {want : Char} {e : Expr} {cs : List Char} {m : Expr × List Char}
    (h : close want (e, cs) = .ok m) : cs = want :: m.2 ∧ m.1 = e := by
  cases cs with
  | nil => cases h
  | cons c cs =>
    rw [close] at h
    split at h
    next heq =>
      cases h
      exact ⟨by rw [heq], rfl⟩
    next => cases h

theorem bind_eq_ok {α β : Type} {r : Except SyntaxError α} {f : α → Except SyntaxError β} {b : β} :
    r >>= f = .ok b ↔ ∃ a, r = .ok a ∧ f a = .ok b := by
  cases r with
  | error e => exact ⟨nofun, fun ⟨_, h, _⟩ => nomatch h⟩
  | ok a => exact ⟨fun h => ⟨a, rfl, h⟩, fun ⟨_, h, h'⟩ => by cases h; exact h'⟩

theorem exists_of_map_eq_ok {r : Reading} {f : Expr × List Char → Expr × List Char}
    {m : Expr × List Char} (h : r.map f = .ok m) : ∃ m', r = .ok m' ∧ f m' = m := by
  cases r with
  | error e => cases h
  | ok m' =>
    cases h
    exact ⟨m', rfl, rfl⟩

section

variable {inner : List Char → Reading}

/-- A sum in brackets, of which the first was taken. -/
theorem exists_of_bracketed (hinner : Sound .sum inner) {want : Char} {cs : List Char}
    {m : Expr × List Char} (h : inner cs >>= close want = .ok m) :
    ∃ taken, cs = taken ++ want :: m.2 ∧ Derives .sum taken m.1 (want :: m.2) := by
  obtain ⟨⟨e, rest⟩, hread, hclose⟩ := bind_eq_ok.1 h
  obtain ⟨rfl, rfl⟩ := eq_of_close hclose
  exact hinner cs _ _ hread

theorem exists_of_readIndex (hinner : Sound .sum inner) {name : Char} {cs : List Char}
    {m : Expr × List Char} (h : readIndex inner name cs = .ok m) :
    ∃ taken, cs = '[' :: (taken ++ ']' :: m.2) ∧ Derives .sum taken m.1 (']' :: m.2) := by
  cases cs with
  | nil => cases h
  | cons c cs =>
    rw [readIndex] at h
    split at h
    next heq =>
      obtain ⟨taken, rfl, hderives⟩ := exists_of_bracketed hinner h
      exact ⟨taken, by rw [heq], hderives⟩
    next => cases h

theorem sound_readNumber {cs rest : List Char} {e : Expr} (h : readNumber cs = .ok (e, rest)) :
    ∃ taken, cs = taken ++ rest ∧ Derives .term taken e rest := by
  rw [readNumber] at h
  split at h
  next x hvalue =>
    cases h
    have hchars : ∀ c ∈ cs.takeWhile isNumberChar, isNumberChar c = true :=
      List.all_eq_true.1 List.all_takeWhile
    refine ⟨cs.takeWhile isNumberChar, List.takeWhile_append_dropWhile.symm, ?_⟩
    refine .number ((readFloat?_isSome_iff hchars).1 (by rw [hvalue]; rfl)) hvalue fun c hc => ?_
    have hhead := List.head?_dropWhile_not isNumberChar cs
    rw [hc] at hhead
    exact isNumberChar_eq_false_iff.1 hhead
  next => cases h

theorem sound_readTerm (hinner : Sound .sum inner) : Sound .term (readTerm inner) := by
  intro cs e rest h
  cases cs with
  | nil => cases h
  | cons c cs =>
    rw [readTerm] at h
    split at h
    next hopen =>
      obtain ⟨taken, rfl, hderives⟩ := exists_of_bracketed hinner h
      exact ⟨'(' :: (taken ++ [')']), by simp [hopen], .parens hderives⟩
    split at h
    next hname =>
      cases h
      exact ⟨['i'], by rw [hname]; rfl, .counter⟩
    split at h
    next hname =>
      cases h
      exact ⟨['N'], by rw [hname]; rfl, .sourceCount⟩
    split at h
    next hname =>
      obtain ⟨⟨e', rest'⟩, hindex, heq⟩ := exists_of_map_eq_ok h
      cases heq
      obtain ⟨taken, rfl, hderives⟩ := exists_of_readIndex hinner hindex
      exact ⟨'j' :: '[' :: (taken ++ [']']), by simp [hname], .outerCounter hderives⟩
    split at h
    next hname =>
      obtain ⟨⟨e', rest'⟩, hindex, heq⟩ := exists_of_map_eq_ok h
      cases heq
      obtain ⟨taken, rfl, hderives⟩ := exists_of_readIndex hinner hindex
      exact ⟨'S' :: '[' :: (taken ++ [']']), by simp [hname], .sourceValue hderives⟩
    split at h
    next => exact sound_readNumber h
    next => cases h

theorem sound_readOperand (hinner : Sound .sum inner) : Sound .operand (readOperand inner) := by
  intro cs
  induction cs with
  | nil =>
    intro e rest h
    cases h
  | cons c cs ih =>
    intro e rest h
    rw [readOperand] at h
    split at h
    next hsign =>
      obtain ⟨⟨e', rest'⟩, hread, heq⟩ := exists_of_map_eq_ok h
      cases heq
      obtain ⟨taken, rfl, hderives⟩ := ih _ _ hread
      exact ⟨'-' :: taken, by rw [hsign]; rfl, .minus hderives⟩
    split at h
    next hsign =>
      obtain ⟨taken, rfl, hderives⟩ := ih _ _ h
      exact ⟨'+' :: taken, by rw [hsign]; rfl, .plus hderives⟩
    next =>
      obtain ⟨taken, htaken, hderives⟩ := sound_readTerm hinner _ _ _ h
      exact ⟨taken, htaken, .unsigned hderives⟩

end

/-! ### What is climbed derives -/

/-- No operator that binds more tightly comes next. -/
def Ends (least : Nat) (rest : List Char) : Prop :=
  ∀ c ∈ rest.head?, ∀ op, Operator.ofChar? c = some op → op.precedence ≤ least

theorem ends_nil {least : Nat} : Ends least [] :=
  fun _ hc => nomatch hc

theorem ends_cons {least : Nat} {c : Char} {cs : List Char}
    (h : ∀ op, Operator.ofChar? c = some op → op.precedence ≤ least) : Ends least (c :: cs) := by
  intro d hd
  cases hd
  exact h

theorem ends_of_two_le {least : Nat} (h : 2 ≤ least) (rest : List Char) : Ends least rest :=
  fun _ _ op _ => Nat.le_trans op.precedence_le_two h

/-- What is read above a precedence derives from its layer and leaves no operator of that layer. -/
def SoundAbove (right : Nat → List Char → Reading) : Prop :=
  ∀ least cs e rest, right least cs = .ok (e, rest) →
    (∃ taken, cs = taken ++ rest ∧ Derives (layer least) taken e rest) ∧ Ends least rest

/-- The text on the left derives from the layer above `k`, and an operator of precedence `k + 1` at most
comes next, if one does. Taking it leads to its own layer, and its right side is read up to an operator
that binds no more tightly. -/
theorem sound_climb {right : Nat → List Char → Reading} (hright : SoundAbove right) {least k fuel : Nat}
    {left cs : List Char} {l : Expr} (hleft : Derives (layer k) left l cs) (hleast : least ≤ k)
    (hends : Ends (k + 1) cs) {e : Expr} {rest : List Char}
    (h : climb right least fuel (l, cs) = .ok (e, rest)) :
    (∃ taken, cs = taken ++ rest ∧ Derives (layer least) (left ++ taken) e rest) ∧ Ends least rest := by
  induction fuel generalizing left cs l k with
  | zero => cases h
  | succ fuel ih =>
    have hdone : Derives (layer least) (left ++ []) l cs := by
      rw [List.append_nil]
      exact hleft.loosen hleast
    cases cs with
    | nil =>
      cases h
      exact ⟨⟨[], rfl, hdone⟩, ends_nil⟩
    | cons c cs =>
      rw [climb] at h
      split at h
      next op hop =>
        split at h
        next hloose =>
          cases h
          refine ⟨⟨[], rfl, hdone⟩, ends_cons fun op' hop' => ?_⟩
          cases hop.symm.trans hop'
          exact hloose
        next htight =>
          obtain ⟨⟨r, rest'⟩, hread, hclimb⟩ := bind_eq_ok.1 h
          obtain ⟨⟨taken, rfl, hderives⟩, hnext⟩ := hright _ _ _ _ hread
          have hle : op.precedence ≤ k + 1 := hends c rfl op hop
          have hjoined := Derives.joined hop (hleft.loosen (by omega)) hderives
          have hprecedence : op.precedence - 1 + 1 = op.precedence := by omega
          obtain ⟨⟨more, rfl, hmore⟩, hlast⟩ := ih hjoined (by omega) (hprecedence ▸ hnext) hclimb
          refine ⟨⟨c :: (taken ++ more), by simp, ?_⟩, hlast⟩
          simpa using hmore
      next hnone =>
        cases h
        refine ⟨⟨[], rfl, hdone⟩, ends_cons fun op hop => ?_⟩
        cases hnone.symm.trans hop

theorem sound_readBinary (fuel : Nat) : SoundAbove (readBinary fuel) := by
  induction fuel with
  | zero =>
    intro least cs e rest h
    cases h
  | succ fuel ih =>
    intro least cs e rest h
    obtain ⟨⟨l, rest'⟩, hread, hclimb⟩ := bind_eq_ok.1 h
    have hinner : Sound .sum (readBinary fuel 0) := fun cs e rest h => (ih 0 cs e rest h).1
    obtain ⟨left, rfl, hleft⟩ := sound_readOperand hinner _ _ _ hread
    -- an operand is in every layer that has operators, and in those above
    have hlayer : Derives (layer (least + 2)) left l rest' := hleft
    obtain ⟨⟨taken, rfl, hderives⟩, hends⟩ := sound_climb ih hlayer (Nat.le_add_right least 2)
      (ends_of_two_le (by omega) _) hclimb
    exact ⟨⟨left ++ taken, by rw [List.append_assoc], hderives⟩, hends⟩

/-! ### What derives is read -/

/-- Where no operator that binds more tightly comes next, climbing is at its end. -/
theorem climb_of_ends {right : Nat → List Char → Reading} {least fuel : Nat} {rest : List Char}
    (h : Ends least rest) (hfuel : rest.length < fuel) (e : Expr) :
    climb right least fuel (e, rest) = .ok (e, rest) := by
  obtain ⟨fuel, rfl⟩ : ∃ fuel', fuel = fuel' + 1 := Nat.exists_eq_add_one.2 (by omega)
  cases rest with
  | nil => rfl
  | cons c rest =>
    rw [climb]
    split
    next op hop => rw [if_pos (h c rfl op hop)]
    next => rfl

/-- An operator that binds tightly enough is taken with what is on its right. -/
theorem climb_operator {right : Nat → List Char → Reading} {least fuel : Nat} {c : Char} {op : Operator}
    {l r : Expr} {cs rest : List Char} (hop : Operator.ofChar? c = some op) (hleast : least < op.precedence)
    (hread : right op.precedence cs = .ok (r, rest)) :
    climb right least (fuel + 1) (l, c :: cs) = climb right least fuel (binary op l r, rest) := by
  rw [climb, hop]
  dsimp only
  rw [if_neg (Nat.not_le.2 hleast), hread]
  rfl

theorem readBinary_of_readOperand {fuel least : Nat} {cs rest : List Char} {e : Expr}
    (h : readOperand (readBinary fuel 0) cs = .ok (e, rest)) :
    readBinary (fuel + 1) least cs = climb (readBinary fuel) least (fuel + 1) (e, rest) := by
  rw [readBinary, h]
  rfl

theorem ofChar?_of_mem_products {c : Char} {op : Operator}
    (h : (c, op) ∈ [('*', Operator.mul), ('/', .div), ('%', .rem)]) :
    Operator.ofChar? c = some op ∧ op.precedence = 2 := by
  simp only [List.mem_cons, Prod.mk.injEq, List.not_mem_nil, or_false] at h
  rcases h with ⟨rfl, rfl⟩ | ⟨rfl, rfl⟩ | ⟨rfl, rfl⟩ <;> exact ⟨rfl, rfl⟩

theorem ofChar?_of_mem_sums {c : Char} {op : Operator}
    (h : (c, op) ∈ [('+', Operator.add), ('-', .sub)]) :
    Operator.ofChar? c = some op ∧ op.precedence = 1 := by
  simp only [List.mem_cons, Prod.mk.injEq, List.not_mem_nil, or_false] at h
  rcases h with ⟨rfl, rfl⟩ | ⟨rfl, rfl⟩ <;> exact ⟨rfl, rfl⟩

/-- No term begins with a sign. -/
theorem Derives.exists_head {level : Level} {cs rest : List Char} {e : Expr}
    (h : Derives level cs e rest) (hlevel : level = .term) :
    ∃ c tail, cs = c :: tail ∧ c ≠ '-' ∧ c ≠ '+' := by
  cases h with
  | number htoken hvalue hmaximal =>
    obtain ⟨d, hd, -⟩ := htoken.digit
    cases cs with
    | nil => cases hd
    | cons c tail =>
      have hc := htoken.numberChars c List.mem_cons_self
      exact ⟨c, tail, rfl, fun h => absurd (h ▸ hc) (by decide), fun h => absurd (h ▸ hc) (by decide)⟩
  | counter => exact ⟨'i', [], rfl, by decide, by decide⟩
  | sourceCount => exact ⟨'N', [], rfl, by decide, by decide⟩
  | outerCounter => exact ⟨'j', _, rfl, by decide, by decide⟩
  | sourceValue => exact ⟨'S', _, rfl, by decide, by decide⟩
  | parens => exact ⟨'(', _, rfl, by decide, by decide⟩
  | unsigned | minus | plus | factor | multiplied | summand | added => cases hlevel

/-- A token is taken as a whole in front of what does not go on with it. -/
theorem readNumber_append {token rest : List Char} {x : Float} (htoken : IsNumberToken token)
    (hvalue : readFloat? token = some x) (hmaximal : ∀ c ∈ rest.head?, ¬NumberChar c) :
    readNumber (token ++ rest) = .ok (number x, rest) := by
  have htake : (token ++ rest).takeWhile isNumberChar = token ∧
      (token ++ rest).dropWhile isNumberChar = rest := by
    rw [List.takeWhile_append_of_pos htoken.isNumberChar, List.dropWhile_append_of_pos htoken.isNumberChar]
    cases rest with
    | nil => simp
    | cons c cs => simp [isNumberChar_eq_false_iff.2 (hmaximal c rfl)]
  rw [readNumber]
  simp only [htake.1, htake.2, hvalue]

/-- The readers take the text in front of `rest` as a whole, given enough fuel. A product and a sum may
have to go on with what follows, a sum where no operator of products does. -/
def Completes : Level → List Char → Expr → List Char → Nat → Prop
  | .term, cs, e, rest, fuel => readTerm (readBinary fuel 0) (cs ++ rest) = .ok (e, rest)
  | .operand, cs, e, rest, fuel => readOperand (readBinary fuel 0) (cs ++ rest) = .ok (e, rest)
  | .product, cs, e, rest, fuel => ∀ least ≤ 1, ∃ k, rest.length < k ∧
      readBinary (fuel + 1) least (cs ++ rest) = climb (readBinary fuel) least k (e, rest)
  | .sum, cs, e, rest, fuel => Ends 1 rest → ∃ k, rest.length < k ∧
      readBinary (fuel + 1) 0 (cs ++ rest) = climb (readBinary fuel) 0 k (e, rest)

/-- What stands in brackets is read with one unit of fuel less than the text around it. -/
theorem close_readBinary {cs rest : List Char} {e : Expr} {want : Char} {fuel : Nat}
    (ih : ∀ fuel, (cs ++ want :: rest).length ≤ fuel → Completes .sum cs e (want :: rest) fuel)
    (hwant : Operator.ofChar? want = none) (hfuel : (cs ++ want :: rest).length < fuel) :
    readBinary fuel 0 (cs ++ want :: rest) >>= close want = .ok (e, rest) := by
  have hends (least : Nat) : Ends least (want :: rest) := by
    refine ends_cons fun op hop => ?_
    cases hwant.symm.trans hop
  obtain ⟨fuel, rfl⟩ : ∃ fuel', fuel = fuel' + 1 := Nat.exists_eq_add_one.2 (by omega)
  obtain ⟨k, hk, hread⟩ := ih fuel (by omega) (hends 1)
  rw [hread, climb_of_ends (hends 0) hk]
  exact if_pos rfl

theorem readIndex_readBinary {cs rest : List Char} {e : Expr} {fuel : Nat}
    (ih : ∀ fuel, (cs ++ ']' :: rest).length ≤ fuel → Completes .sum cs e (']' :: rest) fuel)
    (hfuel : (cs ++ ']' :: rest).length < fuel) (name : Char) :
    readIndex (readBinary fuel 0) name ('[' :: (cs ++ [']'] ++ rest)) = .ok (e, rest) := by
  rw [List.append_assoc, readIndex, if_pos rfl]
  exact close_readBinary ih rfl hfuel

theorem Derives.completes {level : Level} {cs rest : List Char} {e : Expr}
    (h : Derives level cs e rest) :
    ∀ fuel, (cs ++ rest).length ≤ fuel → Completes level cs e rest fuel := by
  induction h with
  | @number token rest x htoken hvalue hmaximal =>
    intro fuel _
    have hread := readNumber_append htoken hvalue hmaximal
    obtain ⟨d, hd, -⟩ := htoken.digit
    cases token with
    | nil => cases hd
    | cons c tail =>
      have hc := htoken.isNumberChar c List.mem_cons_self
      have hne (d : Char) (hd : isNumberChar d = false) : c ≠ d := by
        rintro rfl
        rw [hd] at hc
        cases hc
      show readTerm (readBinary fuel 0) (c :: (tail ++ rest)) = _
      rw [readTerm, if_neg (hne '(' rfl), if_neg (hne 'i' rfl), if_neg (hne 'N' rfl),
        if_neg (hne 'j' rfl), if_neg (hne 'S' rfl), if_pos hc]
      exact hread
  | counter =>
    intro fuel _
    rfl
  | sourceCount =>
    intro fuel _
    rfl
  | @outerCounter cs rest e h ih =>
    intro fuel hfuel
    show (readIndex (readBinary fuel 0) 'j' ('[' :: (cs ++ [']'] ++ rest))).map _ = _
    rw [readIndex_readBinary ih (by simp at hfuel ⊢; omega)]
    rfl
  | @sourceValue cs rest e h ih =>
    intro fuel hfuel
    show (readIndex (readBinary fuel 0) 'S' ('[' :: (cs ++ [']'] ++ rest))).map _ = _
    rw [readIndex_readBinary ih (by simp at hfuel ⊢; omega)]
    rfl
  | @parens cs rest e h ih =>
    intro fuel hfuel
    have hclose : readBinary fuel 0 (cs ++ ')' :: rest) >>= close ')' = .ok (e, rest) :=
      close_readBinary ih rfl (by simp at hfuel ⊢; omega)
    show readTerm (readBinary fuel 0) ('(' :: ((cs ++ [')']) ++ rest)) = _
    rw [List.append_assoc]
    exact hclose
  | @unsigned cs rest e h ih =>
    intro fuel hfuel
    obtain ⟨c, tail, rfl, hminus, hplus⟩ := h.exists_head rfl
    have hread : readTerm (readBinary fuel 0) (c :: (tail ++ rest)) = .ok (e, rest) := ih fuel hfuel
    show readOperand (readBinary fuel 0) (c :: (tail ++ rest)) = _
    rw [readOperand, if_neg hminus, if_neg hplus, hread]
  | @minus cs rest e h ih =>
    intro fuel hfuel
    have hread : readOperand (readBinary fuel 0) (cs ++ rest) = .ok (e, rest) :=
      ih fuel (by simp at hfuel ⊢; omega)
    show readOperand (readBinary fuel 0) ('-' :: (cs ++ rest)) = _
    rw [readOperand, if_pos rfl, hread]
    rfl
  | @plus cs rest e h ih =>
    intro fuel hfuel
    have hread : readOperand (readBinary fuel 0) (cs ++ rest) = .ok (e, rest) :=
      ih fuel (by simp at hfuel ⊢; omega)
    show readOperand (readBinary fuel 0) ('+' :: (cs ++ rest)) = _
    rw [readOperand, if_neg (by decide), if_pos rfl, hread]
  | @factor cs rest e h ih =>
    intro fuel hfuel least _
    refine ⟨fuel + 1, by simp at hfuel; omega, ?_⟩
    exact readBinary_of_readOperand (ih fuel hfuel)
  | @multiplied left right rest l r c op hleft hop hright ihleft ihright =>
    intro fuel hfuel least hleast
    obtain ⟨hchar, hprecedence⟩ := ofChar?_of_mem_products hop
    have hlength : (left ++ c :: (right ++ rest)).length ≤ fuel := by simp at hfuel ⊢; omega
    obtain ⟨fuel, rfl⟩ : ∃ fuel', fuel = fuel' + 1 :=
      Nat.exists_eq_add_one.2 (by simp at hlength; omega)
    obtain ⟨k, hk, hread⟩ := ihleft (fuel + 1) hlength least hleast
    have hoperand : readBinary (fuel + 1) op.precedence (right ++ rest) = .ok (r, rest) := by
      rw [readBinary_of_readOperand (ihright fuel (by simp at hlength ⊢; omega)), hprecedence]
      exact climb_of_ends (ends_of_two_le (Nat.le_refl _) rest) (by simp at hlength; omega) r
    obtain ⟨k, rfl⟩ : ∃ k', k = k' + 1 := Nat.exists_eq_add_one.2 (by omega)
    refine ⟨k, by simp at hk; omega, ?_⟩
    rw [List.append_assoc, List.cons_append, hread]
    exact climb_operator hchar (by omega) hoperand
  | @summand cs rest e h ih =>
    intro fuel hfuel _
    exact ih fuel hfuel 0 (Nat.zero_le 1)
  | @added left right rest l r c op hleft hop hright ihleft ihright =>
    intro fuel hfuel hends
    obtain ⟨hchar, hprecedence⟩ := ofChar?_of_mem_sums hop
    have hlength : (left ++ c :: (right ++ rest)).length ≤ fuel := by simp at hfuel ⊢; omega
    obtain ⟨fuel, rfl⟩ : ∃ fuel', fuel = fuel' + 1 :=
      Nat.exists_eq_add_one.2 (by simp at hlength; omega)
    have hnext : Ends 1 (c :: (right ++ rest)) := by
      refine ends_cons fun op' hop' => ?_
      cases hchar.symm.trans hop'
      exact Nat.le_of_eq hprecedence
    obtain ⟨k, hk, hread⟩ := ihleft (fuel + 1) hlength hnext
    obtain ⟨k', hk', hproduct⟩ := ihright fuel (by simp at hlength ⊢; omega) 1 (Nat.le_refl _)
    have hoperand : readBinary (fuel + 1) op.precedence (right ++ rest) = .ok (r, rest) := by
      rw [hprecedence, hproduct]
      exact climb_of_ends hends hk' r
    obtain ⟨k, rfl⟩ : ∃ k', k = k' + 1 := Nat.exists_eq_add_one.2 (by omega)
    refine ⟨k, by simp at hk; omega, ?_⟩
    rw [List.append_assoc, List.cons_append, hread]
    exact climb_operator hchar (by omega) hoperand

/-- A text that derives an expression as a whole is read as it. -/
theorem readBinary_of_derives {cs : List Char} {e : Expr} (h : Derives .sum cs e []) :
    readBinary (cs.length + 1) 0 cs = .ok (e, []) := by
  obtain ⟨k, hk, hread⟩ := h.completes cs.length (by simp) ends_nil
  rw [List.append_nil] at hread
  rw [hread]
  exact climb_of_ends ends_nil hk e

/-- Each text derives one expression at most. -/
theorem derives_unique {cs : List Char} {e e' : Expr} (h : Derives .sum cs e [])
    (h' : Derives .sum cs e' []) : e = e' := by
  have heq := (readBinary_of_derives h).symm.trans (readBinary_of_derives h')
  exact (Prod.mk.inj (Except.ok.inj heq)).1

/-- An expression is parsed from exactly the texts that derive it, if it is not too deep. -/
theorem parse_eq_ok_iff {text : String} {e : Expr} :
    parse text = .ok e ↔ Derives .sum text.toList e [] ∧ e.depth ≤ depthLimit := by
  rw [parse]
  constructor
  · intro h
    obtain ⟨⟨e', _ | ⟨c, cs⟩⟩, hread, hend⟩ := bind_eq_ok.1 h
    · by_cases hdepth : e'.depth ≤ depthLimit
      · obtain rfl : e' = e := Except.ok.inj ((if_pos hdepth).symm.trans hend)
        obtain ⟨taken, htaken, hderives⟩ := (sound_readBinary _ _ _ _ _ hread).1
        rw [List.append_nil] at htaken
        exact ⟨htaken ▸ hderives, hdepth⟩
      · cases (if_neg hdepth).symm.trans hend
    · cases hend
  · rintro ⟨hderives, hdepth⟩
    refine bind_eq_ok.2 ⟨(e, []), readBinary_of_derives hderives, ?_⟩
    exact if_pos hdepth

end Expr

end PatternText
