import CornerPoint.Proofs.Source.Cutting

/-!
# Reading what was written

The text of an expression shows the parentheses of its tree and no others. It is read with the
grouping that operators have in texts, and where the tree groups otherwise another tree comes
back. `regrouped` computes that tree, with the stacks that the reader of expressions uses but
without any tokens, and the text is related to it in two steps:

> `cuts_text`: the scanner cuts the text of an expression into the tokens that `Written` lists,
> if its numbers and names are written as one token each.
> `Written.derives`: those tokens derive from the grammar and stand for the regrouped tree.

Trees that come back are compared without the spans of their variables (`unspanned`), since
these say where a variable stood.
-/

namespace CornerPoint.Source

open ExprReader

variable {K : Type}

/-! ## Regrouping -/

namespace Operator

/-- The operator stands between the terms of a sum. -/
def isAdditive : Operator → Bool
  | .add => true
  | .sub => true
  | _ => false

/-- The token that the operator is written as. -/
def kind : Operator → Token.Kind
  | .add => .plus
  | .sub => .minus
  | .mul => .star
  | .div => .slash

theorem additive?_kind {op : Operator} (h : op.isAdditive = true) :
    op.kind.additive? = some op := by
  cases op <;> first | rfl | cases h

theorem multiplicative?_kind {op : Operator} (h : op.isAdditive = false) :
    op.kind.multiplicative? = some op := by
  cases op <;> first | rfl | cases h

theorem isAdditive_of_additive? {op : Operator} {k : Token.Kind} (h : k.additive? = some op) :
    op.isAdditive = true := by
  cases k <;> cases h <;> rfl

theorem isAdditive_of_multiplicative? {op : Operator} {k : Token.Kind}
    (h : k.multiplicative? = some op) : op.isAdditive = false := by
  cases k <;> cases h <;> rfl

end Operator

namespace Expr

/-- The terms so far and the last one, when the text of the expression has been read behind
what is pending. -/
def regroup : Pending K → Expr K → Awaiting K × Expr K
  | p, number n => (p.sum, p.term (number n))
  | p, var span name => (p.sum, p.term (var span name))
  | p, neg e => regroup { p with negations := p.negations + 1 } e
  | p, paren e =>
    (p.sum, p.term (paren ((regroup .start e).1.apply (regroup .start e).2)))
  | p, binary left op right =>
    let (sum, term) := regroup p left
    if op.isAdditive then regroup ⟨some (sum.apply term, op), none, 0⟩ right
    else regroup ⟨sum, some (term, op), 0⟩ right

/-- The tree that the text of the expression is read as. -/
def regrouped (e : Expr K) : Expr K := (regroup .start e).1.apply (regroup .start e).2

section Regrouping

variable {p : Pending K} {e left right : Expr K} {op : Operator}

@[simp] theorem regroup_number (n : K) :
    regroup p (number n) = (p.sum, p.term (number n)) := rfl

@[simp] theorem regroup_var (span : Span) (name : String) :
    regroup p (var span name) = (p.sum, p.term (var span name)) := rfl

@[simp] theorem regroup_neg :
    regroup p (neg e) = regroup { p with negations := p.negations + 1 } e := rfl

@[simp] theorem regroup_paren :
    regroup p (paren e) = (p.sum, p.term (paren e.regrouped)) := rfl

/-- What waits is applied when a sum goes on. -/
theorem regroup_additive (h : op.isAdditive = true) : regroup p (binary left op right)
    = regroup ⟨some ((regroup p left).1.apply (regroup p left).2, op), none, 0⟩ right := by
  rw [regroup]
  exact if_pos h

theorem regrouped_additive (h : op.isAdditive = true) : (binary left op right).regrouped
    = (regroup ⟨some (left.regrouped, op), none, 0⟩ right).1.apply
        (regroup ⟨some (left.regrouped, op), none, 0⟩ right).2 := by
  rw [regrouped, regroup_additive h]
  rfl

/-- What waits keeps waiting when a product goes on. -/
theorem regroup_multiplicative (h : op.isAdditive = false) : regroup p (binary left op right)
    = regroup ⟨(regroup p left).1, some ((regroup p left).2, op), 0⟩ right := by
  rw [regroup]
  exact if_neg (Bool.eq_false_iff.mp h)

end Regrouping

end Expr

/-! ## Spans -/

/-- The expression without the places of its variables. -/
def Expr.unspanned : Expr K → Expr K
  | number n => number n
  | var _ name => var ⟨0, 0⟩ name
  | neg e => neg e.unspanned
  | paren e => paren e.unspanned
  | binary left op right => binary left.unspanned op right.unspanned

/-- The waiting operand without the places of its variables. -/
def Awaiting.unspanned (a : Awaiting K) : Awaiting K := a.map fun x => (x.1.unspanned, x.2)

/-- What is pending without the places of its variables. -/
def Pending.unspanned (p : Pending K) : Pending K :=
  ⟨p.sum.unspanned, p.product.unspanned, p.negations⟩

theorem Awaiting.unspanned_apply (a : Awaiting K) (e : Expr K) :
    (a.apply e).unspanned = a.unspanned.apply e.unspanned := by
  cases a <;> rfl

theorem Pending.unspanned_term (p : Pending K) (e : Expr K) :
    (p.term e).unspanned = p.unspanned.term e.unspanned := by
  have hnegate : ∀ n, (negate n e).unspanned = negate n e.unspanned := fun n => by
    induction n with
    | zero => rfl
    | succ n ih => exact congrArg Expr.neg ih
  rw [term, Awaiting.unspanned_apply, hnegate]
  rfl

theorem Expr.regrouped_unspanned_of {e : Expr K} (h : regroup .start e.unspanned
    = ((regroup .start e).1.unspanned, (regroup .start e).2.unspanned)) :
    e.unspanned.regrouped = e.regrouped.unspanned := by
  rw [regrouped, regrouped, Awaiting.unspanned_apply, h]

/-- Where variables stand does not matter to the grouping. -/
theorem Expr.regroup_unspanned (e : Expr K) : ∀ p : Pending K, regroup p.unspanned e.unspanned
    = ((regroup p e).1.unspanned, (regroup p e).2.unspanned) := by
  induction e with
  | number n =>
    intro p
    rw [regroup_number, Pending.unspanned_term]
    rfl
  | var span name =>
    intro p
    rw [regroup_var, Pending.unspanned_term]
    rfl
  | neg e ih => exact fun p => ih { p with negations := p.negations + 1 }
  | paren e ih =>
    intro p
    rw [regroup_paren, Pending.unspanned_term, unspanned, unspanned, regroup_paren,
      regrouped_unspanned_of (ih .start)]
    rfl
  | binary left op right ihl ihr =>
    intro p
    -- a sum starts anew behind its operator, a product goes on waiting
    cases hop : op.isAdditive with
    | true =>
      rw [unspanned, regroup_additive hop, regroup_additive hop, ihl, ← Awaiting.unspanned_apply,
        ← ihr]
      rfl
    | false =>
      rw [unspanned, regroup_multiplicative hop, regroup_multiplicative hop, ihl, ← ihr]
      rfl

/-- Where variables stand does not matter to the grouping of a whole expression. -/
theorem Expr.regrouped_unspanned (e : Expr K) :
    e.unspanned.regrouped = e.regrouped.unspanned :=
  regrouped_unspanned_of (e.regroup_unspanned .start)

/-! ## The tokens of an expression -/

/-- Every number and every name in the expression is written as one token. -/
def Expr.Printable [Scalar K] : Expr K → Prop
  | number n => Legible n
  | var _ name => IsName name.toList
  | neg e => e.Printable
  | paren e => e.Printable
  | binary left _ right => left.Printable ∧ right.Printable

/-- `Written ts e`: the tokens `ts` are those of the text of `e`, with its variables where they
stand in it. -/
inductive Written [Scalar K] : List Token → Expr K → Prop
  | number {t n} : t.kind = .number → Scalar.ofText? t.text = some n → Written [t] (.number n)
  | var {t} : t.kind = .name → Written [t] (.var t.span t.text)
  | neg {t ts e} : t.kind = .minus → Written ts e → Written (t :: ts) (.neg e)
  | paren {o ts e c} : o.kind = .openParen → Written ts e → c.kind = .closeParen →
      Written (o :: ts ++ [c]) (.paren e)
  | binary {ts left t op us right} : Written ts left → t.kind = op.kind → Written us right →
      Written (ts ++ t :: us) (.binary left op right)

section Tokens

variable [Scalar K] {ts : List Token} {e : Expr K}

/-- The text behind what is pending spells the regrouped tree. -/
theorem Written.spells (h : Written ts e) : ∀ {i : Bool} {p : Pending K} {us : List Token},
    Open i p us → Spells i (e.regroup p).1 (e.regroup p).2 (us ++ ts) := by
  -- what is pending varies: each part of the text is read behind the parts in front of it
  induction h with
  | number ht htext =>
    intro i p us ho
    have hnumber := Derives.number (K := K) (i := i) ht
    rw [Token.number_eq htext] at hnumber
    exact ho.operand hnumber
  | var ht => exact fun ho => ho.operand (.name ht)
  | neg ht _ ih =>
    intro i p us ho
    simpa using ih (ho.minus ht)
  | paren ho' _ hc ih =>
    intro i p us ho
    have hsum := (ih (i := true) open_start).derives
    have hparen := Derives.enclosed (i := i) (g := []) ho' hsum .nil hc
    simpa [Expr.regrouped] using ho.operand (.paren hparen)
  | @binary ts left t op us right _ ht _ ihl ihr =>
    intro i p vs ho
    have hleft := ihl ho
    cases hop : op.isAdditive with
    | true =>
      have hopen := hleft.additive (g := []) .nil (ht ▸ op.additive?_kind hop)
      simpa [Expr.regroup_additive hop] using ihr hopen
    | false =>
      have hopen := hleft.multiplicative (g := []) .nil (ht ▸ op.multiplicative?_kind hop)
      simpa [Expr.regroup_multiplicative hop] using ihr hopen

/-- The text of an expression stands for the regrouped tree. -/
theorem Written.derives (h : Written ts e) : Derives .sum false ts e.regrouped :=
  (h.spells open_start).derives

/-- Operators are written as one token, whatever stands behind the space that follows them. -/
theorem lexes_symbol (op : Operator) (rest : List Char) :
    Lexes op.kind op.symbol.toList (' ' :: rest) := by
  cases op <;> exact ⟨_, [], rfl, rfl, rfl⟩

/-- The scanner cuts the text of an expression into the tokens that it is written with. -/
theorem cuts_text (h : e.Printable) : ∀ rest : List Char, Delimited rest →
    Cuts K (Makes Written fun e' => e'.unspanned = e.unspanned) e.text.toList rest := by
  -- the rest varies, since every part but the last is delimited by what is written next
  induction e with
  | number n =>
    intro rest hrest
    refine (Cuts.numeral h hrest.endsNumeral).imp fun ts hts => ?_
    obtain ⟨t, rfl, ht, hread⟩ := hts
    exact ⟨.number n, .number ht hread, rfl⟩
  | var span name =>
    intro rest hrest
    refine (Cuts.token (lexes_name h hrest.endsName) (by decide)).imp fun ts hts => ?_
    obtain ⟨t, _, rfl, ht, htext, rfl⟩ := hts
    rw [String.ofList_toList] at htext
    exact ⟨.var t.span t.text, .var ht, by rw [htext]; rfl⟩
  | neg e ih =>
    intro rest hrest
    have hminus : ∀ rest, Lexes .minus ['-'] rest := fun _ => ⟨_, [], rfl, rfl, rfl⟩
    have htext : (Expr.neg e).text.toList = ['-'] ++ e.text.toList := by simp [Expr.text]
    rw [htext]
    refine (Cuts.starts (hminus _) (by decide) (ih h rest hrest)).imp fun ts hts => ?_
    obtain ⟨t, us, rfl, ht, _, e', hus, he⟩ := hts
    exact ⟨.neg e', .neg ht hus, congrArg Expr.neg he⟩
  | paren e ih =>
    intro rest hrest
    have hopen : ∀ rest, Lexes .openParen ['('] rest := fun _ => ⟨_, [], rfl, rfl, rfl⟩
    have hclose : ∀ rest, Lexes .closeParen [')'] rest := fun _ => ⟨_, [], rfl, rfl, rfl⟩
    have htext : (Expr.paren e).text.toList = ['('] ++ (e.text.toList ++ [')']) := by
      simp [Expr.text]
    have hinside := (ih h (')' :: rest) (delimited_close rest)).append
      (Cuts.token (hclose rest) (by decide)) (R := fun ts => ∃ us c, ts = us ++ [c] ∧
        c.kind = .closeParen ∧ Makes Written (fun e' => e'.unspanned = e.unspanned) us)
      fun us vs hus hvs => by
        obtain ⟨c, _, rfl, hc, _, rfl⟩ := hvs
        exact ⟨us, c, rfl, hc, hus⟩
    rw [htext]
    refine (Cuts.starts (hopen _) (by decide) hinside).imp fun ts hts => ?_
    obtain ⟨o, _, rfl, ho, _, us, c, rfl, hc, e', hus, he⟩ := hts
    exact ⟨.paren e', .paren ho hus hc, congrArg Expr.paren he⟩
  | binary left op right ihl ihr =>
    intro rest hrest
    have hkind : op.kind ≠ .number := by cases op <;> decide
    have htext : (Expr.binary left op right).text.toList
        = left.text.toList ++ ' ' :: (op.symbol.toList ++ ' ' :: right.text.toList) := by
      simp [Expr.text]
    have hright := Cuts.starts (lexes_symbol op _) hkind (ihr h.2 rest hrest).space
    rw [htext]
    refine (ihl h.1 _ (delimited_space _)).append hright.space fun us vs hus hvs => ?_
    obtain ⟨l, hl, hleft⟩ := hus
    obtain ⟨t, vs, rfl, ht, _, r, hr, hright⟩ := hvs
    exact ⟨.binary l op r, .binary hl ht hr, congrArg₂ (Expr.binary · op ·) hleft hright⟩

end Tokens

/-! ## The text as an objective -/

/-- A source text whose only declaration is an objective with the given text. -/
def objectiveSource (text : String) : String := "problem p \x7b\nmax " ++ text ++ "\n\x7d"

/-- The text is read as the expression `e` where it stands as an objective. -/
def ReadsAs [Scalar K] (text : String) (e : Expr K) : Prop :=
  ∃ whole line, Program.ofString (objectiveSource text)
    = .ok ⟨[.ofItems whole "p" [.objective ⟨line, .maximize, e⟩]]⟩

section Objective

variable [Scalar K] {e : Expr K}

/-- The line with the objective. -/
theorem cuts_objectiveLine (h : e.Printable) {rest : List Char} (hrest : Delimited rest) :
    Cuts K (Makes IsItem fun item : Item K => ∃ span e', item = .objective ⟨span, .maximize, e'⟩ ∧
      e'.unspanned = e.regrouped.unspanned) (['m', 'a', 'x'] ++ ' ' :: e.text.toList) rest := by
  have hmax : ∀ rest, Lexes .maximize ['m', 'a', 'x'] (' ' :: rest) :=
    fun _ => ⟨_, _, rfl, rfl, rfl⟩
  refine (Cuts.starts (hmax _) (by decide) (cuts_text h rest hrest).space).imp fun ts hts => ?_
  obtain ⟨t, us, rfl, ht, _, e', hus, he⟩ := hts
  have hobjective := isObjective_cons (by rw [ht]; rfl) hus.derives
  refine ⟨_, .objective hobjective, _, e'.regrouped, rfl, ?_⟩
  rw [← Expr.regrouped_unspanned, he, Expr.regrouped_unspanned]

/-- The text of a printable expression is read, and as the regrouped tree. -/
theorem readsAs_regrouped (h : e.Printable) :
    ∃ e', ReadsAs e.text e' ∧ e'.unspanned = e.regrouped.unspanned := by
  have hbody := cuts_lines_cons (cuts_objectiveLine h (delimited_newline _)) (cuts_items_nil [])
    (S := fun items => ∃ span e', items = [.objective ⟨span, .maximize, e'⟩] ∧
      e'.unspanned = e.regrouped.unspanned) fun item items hitem hitems => by
    obtain ⟨span, e', rfl, he⟩ := hitem
    exact ⟨span, e', by rw [hitems], he⟩
  have hsource : (objectiveSource e.text).toList
      = ['p', 'r', 'o', 'b', 'l', 'e', 'm'] ++ ' ' :: (['p'] ++ ' ' :: (['\x7b'] ++ (['\n'] ++
        ((['m', 'a', 'x'] ++ ' ' :: e.text.toList) ++ (['\n'] ++ ['\x7d']))))) := by
    simp [objectiveSource]
  obtain ⟨whole, _, hread, span, e', rfl, he⟩ := ofString_problem hbody hsource
  exact ⟨e', ⟨whole, span, hread⟩, he⟩

end Objective

end CornerPoint.Source
