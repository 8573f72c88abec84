import PatternText.Proofs.Expr.Stratified

/-! Expressions written with as few parentheses as the layers of the grammar allow. Reading such a text
gives the expression that was written, and of all texts those are read that derive an expression of
bounded depth. -/

namespace PatternText

/-- The layer of the operator's left operand, and of what it makes. -/
def Operator.leftLevel : Operator → Expr.Level
  | add | sub => .sum
  | mul | div | rem => .product

/-- The layer of the operator's right operand, which binds tighter than the operator. -/
def Operator.rightLevel : Operator → Expr.Level
  | add | sub => .product
  | mul | div | rem => .operand

namespace Expr

/-- An expression whose numbers are given as they are written. -/
inductive Written where
  | number (token : List Char) (htoken : IsNumberToken token)
  | counter
  | outerCounter (levels : Written)
  | sourceCount
  | sourceValue (place : Written)
  | negate (operand : Written)
  | binary (operator : Operator) (left right : Written)

/-- The text where a text of the layer `want` is asked for: in parentheses if it binds less tightly. -/
def enclosed (want level : Level) (text : List Char) : List Char :=
  if want.rank ≤ level.rank then text else '(' :: (text ++ [')'])

namespace Written

/-- The expression that is written. -/
def expr : Written → Expr
  | number token htoken =>
    .number ((readFloat? token).get ((readFloat?_isSome_iff htoken.isNumberChar).2 htoken))
  | counter => .counter
  | outerCounter w => .outerCounter w.expr
  | sourceCount => .sourceCount
  | sourceValue w => .sourceValue w.expr
  | negate w => .negate w.expr
  | binary op l r => .binary op l.expr r.expr

/-- The tightest layer that has the text. -/
def level : Written → Level
  | number .. | counter | outerCounter _ | sourceCount | sourceValue _ => .term
  | negate _ => .operand
  | binary op .. => op.leftLevel

def text : Written → List Char
  | number token _ => token
  | counter => ['i']
  | outerCounter w => 'j' :: '[' :: (w.text ++ [']'])
  | sourceCount => ['N']
  | sourceValue w => 'S' :: '[' :: (w.text ++ [']'])
  | negate w => '-' :: enclosed .operand w.level w.text
  | binary op l r =>
    enclosed op.leftLevel l.level l.text ++ op.symbol :: enclosed op.rightLevel r.level r.text

end Written

/-! ### What is written derives -/

/-- What follows does not go on with a number token. -/
def EndsToken (rest : List Char) : Prop := ∀ c ∈ rest.head?, ¬NumberChar c

theorem endsToken_nil : EndsToken [] :=
  fun _ hc => nomatch hc

theorem endsToken_cons {c : Char} {cs : List Char} (h : ¬NumberChar c) :
    EndsToken (c :: cs) := by
  intro d hd
  cases hd
  exact h

theorem not_numberChar_symbol (op : Operator) : ¬NumberChar op.symbol := by
  cases op <;> decide

theorem derives_enclosed {want level : Level} {cs rest : List Char} {e : Expr} (hrest : EndsToken rest)
    (h : ∀ rest, EndsToken rest → Derives level cs e rest) :
    Derives want (enclosed want level cs) e rest := by
  unfold enclosed
  split
  next hrank => exact (h rest hrest).mono hrank
  next =>
    have hsum : Derives .sum cs e (')' :: rest) :=
      (h (')' :: rest) (endsToken_cons (by decide))).mono (Nat.zero_le _)
    exact (Derives.parens hsum).mono (by cases want <;> decide)

/-- Two operands with an operator between them. -/
theorem derives_binary {left right rest : List Char} {l r : Expr} (op : Operator)
    (hleft : Derives op.leftLevel left l (op.symbol :: (right ++ rest)))
    (hright : Derives op.rightLevel right r rest) :
    Derives op.leftLevel (left ++ op.symbol :: right) (binary op l r) rest := by
  cases op with
  | add | sub => exact .added hleft (by decide) hright
  | mul | div | rem => exact .multiplied hleft (by decide) hright

theorem Written.derives (w : Written) (rest : List Char) (hrest : EndsToken rest) :
    Derives w.level w.text w.expr rest := by
  induction w generalizing rest with
  | number token htoken => exact .number htoken (Option.some_get _).symm hrest
  | counter => exact .counter
  | sourceCount => exact .sourceCount
  | outerCounter w ih =>
    exact .outerCounter ((ih (']' :: rest) (endsToken_cons (by decide))).mono (Nat.zero_le _))
  | sourceValue w ih =>
    exact .sourceValue ((ih (']' :: rest) (endsToken_cons (by decide))).mono (Nat.zero_le _))
  | negate w ih => exact .minus (derives_enclosed hrest ih)
  | binary op l r ihl ihr =>
    have hright : Derives op.rightLevel (enclosed op.rightLevel r.level r.text) r.expr rest :=
      derives_enclosed hrest ihr
    exact derives_binary op (derives_enclosed (endsToken_cons (not_numberChar_symbol op)) ihl) hright

/-- What is refused has no value in any scope. -/
theorem exists_cause_of_refused {text : String} (h : ∀ e, parse text ≠ .ok e) :
    ∃ cause, parse text = .error cause ∧
      ∀ scope, (Expression.ofText text).eval scope = .error (.syntaxError cause) := by
  cases hparse : parse text with
  | ok e => exact absurd hparse (h e)
  | error cause =>
    refine ⟨cause, rfl, fun scope => ?_⟩
    simp only [Expression.eval, Expression.ofText, hparse]

/-- A text is read as an expression exactly if it derives it as a sum and the expression is not too
deep; it derives one expression at most; every other text is a syntax error. What is written with
parentheses only where operators need them is read as the expression that was written. -/
theorem parse_stratified :
    (∀ text : String,
      (∀ e, parse text = .ok e ↔ Derives .sum text.toList e [] ∧ e.depth ≤ depthLimit) ∧
      (∀ e e', Derives .sum text.toList e [] → Derives .sum text.toList e' [] → e = e') ∧
      ((¬ ∃ e, Derives .sum text.toList e [] ∧ e.depth ≤ depthLimit) →
        ∃ cause, parse text = .error cause ∧
          ∀ scope, (Expression.ofText text).eval scope = .error (.syntaxError cause))) ∧
    ∀ w : Written, w.expr.depth ≤ depthLimit → parse (String.ofList w.text) = .ok w.expr := by
  refine ⟨fun text => ⟨fun e => parse_eq_ok_iff, fun e e' h h' => derives_unique h h', ?_⟩, ?_⟩
  · intro hnone
    exact exists_cause_of_refused fun e h => hnone ⟨e, parse_eq_ok_iff.1 h⟩
  · intro w hdepth
    have hderives : Derives .sum w.text w.expr [] :=
      (w.derives [] endsToken_nil).mono (Nat.zero_le _)
    exact parse_eq_ok_iff.2 ⟨by rwa [String.toList_ofList], hdepth⟩

theorem isNumberToken_singleton {c : Char} (h : '0' ≤ c ∧ c ≤ '9') : IsNumberToken [c] where
  numberChars := List.forall_mem_singleton.2 (.inl h)
  digit := ⟨c, List.mem_singleton_self c, h⟩
  point := List.count_le_length

/-- A difference taken from a number, as `1-(N-i)` writes it. -/
def nestedDifference : Written :=
  .binary .sub (.number ['1'] (isNumberToken_singleton (by decide))) (.binary .sub .sourceCount .counter)

theorem nestedDifference_parses :
    nestedDifference.text = "1-(N-i)".toList ∧ nestedDifference.expr.depth ≤ depthLimit ∧
      parse "1-(N-i)" = .ok nestedDifference.expr ∧
      (∀ e, Derives .sum "1-(N-i)".toList e [] → nestedDifference.expr = e) ∧
      ∃ cause, parse "1-" = .error cause ∧
        ∀ scope, (Expression.ofText "1-").eval scope = .error (.syntaxError cause) := by
  have hdepth : nestedDifference.expr.depth ≤ depthLimit := by decide
  have hparse : parse "1-(N-i)" = .ok nestedDifference.expr :=
    parse_stratified.2 nestedDifference hdepth
  have hderives : Derives .sum "1-(N-i)".toList nestedDifference.expr [] :=
    (((parse_stratified.1 "1-(N-i)").1 nestedDifference.expr).1 hparse).1
  have herror : parse "1-" = .error .incomplete := by rfl
  have hnone : ¬ ∃ e, Derives .sum "1-".toList e [] ∧ e.depth ≤ depthLimit := by
    rintro ⟨e, he⟩
    cases herror.symm.trans (((parse_stratified.1 "1-").1 e).2 he)
  exact ⟨by decide, hdepth, hparse,
    fun e he => (parse_stratified.1 "1-(N-i)").2.1 nestedDifference.expr e hderives he,
    (parse_stratified.1 "1-").2.2 hnone⟩

end Expr

end PatternText
