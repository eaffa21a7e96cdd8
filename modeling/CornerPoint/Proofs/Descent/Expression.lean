import CornerPoint.Proofs.Descent.Following

/-!
# Expressions by recursive descent

What the reader of expressions keeps on its stack, the calls that read an expression keep in the
calls that have not returned yet: `c.depth = outer.length` is what connects the two. Each call
starts where an operand must follow, behind some `pending`, and ends where the reader has read that
operand, that product or that sum.

The only call that leads back to where it came from is the one of a sum in parentheses, which begins
behind the parenthesis. So what is known of sums is assumed for all cursors that are closer to the
end (`SumReturns`), and proved of the others, one function after another (`sum_returns`).
-/

namespace CornerPoint.Source

open ExprReader hiding step start

variable {K : Type} [Scalar K]

/-- Where an expression stands: the problems in front of it, the one around it, and what it is read
for. -/
structure Context (K : Type) where
  problems : List (Problem K)
  problem : Problem K
  purpose : Purpose K

namespace Cursor

variable {x : Context K} {lines : Bool} {c c' : Cursor} {t : Token} {r s : ExprReader K}
  {p : Pending K} {outer : List (Outer K)}

/-! ## Reading an expression from a cursor -/

/-- The outcome from the cursor on when `r` has been read of an expression. -/
def reads (c : Cursor) (x : Context K) (r : ExprReader K) : Except SyntaxError (Program K) :=
  c.run x.problems (.inside x.problem (.expr x.purpose r))

/-- The reader and the cursor take the same token. -/
theorem reads_more (h : c.current? = some t) (hstep : r.step t = .more s) :
    c.reads x r = c.advance.reads x s :=
  run_step h (step_more_kind hstep).2
    (by simp only [Reader.stepPhase, Reader.stepInside, Reader.stepExpr, hstep])

/-- What has been read on the way from one cursor to another need not be read again. -/
theorem reads_between (hmoves : Moves lines c c') (h : Reads r (between c c') s) :
    c.reads x r = c'.reads x s := by
  rw [reads, run, hmoves.drop_eq]
  refine (run_reads h c.stop _).trans ?_
  rw [← hmoves.stop_eq]
  rfl

/-- What the reader refuses is unexpected at the cursor. -/
theorem reads_wrong {expected : Expectation}
    (h : ∀ t, c.current? = some t → r.step t = .wrong expected) :
    c.reads x r = .error (c.unexpected expected) :=
  run_refused rfl fun t ht _ => by
    simp only [Reader.stepPhase, Reader.stepInside, Reader.stepExpr, h t ht, Token.refuse]

theorem reads_badNumber (h : c.current? = some t) (ht : t.kind ≠ .endOfInput)
    (hstep : r.step t = .badNumber) : c.reads x r = .error (.badNumber t.text) :=
  run_error h ht (by simp only [Reader.stepPhase, Reader.stepInside, Reader.stepExpr, hstep])

/-- Two readers that do the same with the next token have the same outcome. -/
theorem reads_alike (h : ∀ t, c.current? = some t → r.step t = s.step t) :
    c.reads x r = c.reads x s :=
  run_alike (fun t ht _ => by
    simp only [Reader.step, Reader.stepPhase, Reader.stepInside, Reader.stepExpr, h t ht]) rfl

/-! ## Blanks -/

omit [Scalar K] in
theorem blank_between (hdepth : c.depth = outer.length) (hs : Skips (isBlankAt c.depth) c c') :
    Blank (inside outer) (between c c') := fun t ht => by
  have hpass := hs.passes t ht
  rw [hdepth] at hpass
  cases outer <;> simpa [isBlankAt, and_comm] using hpass

theorem reads_blank_operand (hdepth : c.depth = outer.length)
    (hs : Skips (isBlankAt c.depth) c c') :
    c.reads x (.operand p outer) = c'.reads x (.operand p outer) :=
  reads_between hs.moves (.operand_blank (blank_between hdepth hs))

theorem reads_blank_operator {sum : Awaiting K} {term : Expr K} (hdepth : c.depth = outer.length)
    (hs : Skips (isBlankAt c.depth) c c') :
    c.reads x (.operator sum term outer) = c'.reads x (.operator sum term outer) :=
  reads_between hs.moves (.operator_blank (blank_between hdepth hs))

variable {x : Context K} {c c' : Cursor} {t : Token} {m : Option K} {p : Pending K}
  {outer : List (Outer K)} {e : Expr K} {outcome : Except SyntaxError (Program K)}

/-! ## Numbers, names and parentheses -/

/-- What follows in front of an operand, or in front of what a number multiplies. -/
def before : Option K → Pending K → List (Outer K) → ExprReader K
  | none, p, outer => .operand p outer
  | some n, p, outer => .number n p outer

/-- The operand `e`, multiplied by the number in front of it. -/
def scaled : Option K → Expr K → Expr K
  | none, e => e
  | some n, e => .binary (.number n) .mul e

/-- Behind the operand `e`. A number still waits for what it multiplies. -/
def behind : Option K → Pending K → List (Outer K) → Expr K → ExprReader K
  | none, p, outer, .number n => .number n p outer
  | m, p, outer, e => afterOperand p (scaled m e) outer

/-- The sum `e` is complete: nothing at the cursor goes on with it. -/
structure Complete (x : Context K) (outer : List (Outer K)) (e : Expr K)
    (outcome : Except SyntaxError (Program K)) (c : Cursor) : Prop where
  blank : isBlankAt c.depth c.kind = false
  multiplicative : c.kind.multiplicative? = none
  additive : c.kind.additive? = none
  reads : ∃ sum term, sum.apply term = e ∧ c.reads x (.operator sum term outer) = outcome

/-- A sum is read from here as the reader reads it, wherever it stands. -/
def SumReturns (K : Type) [Scalar K] (c : Cursor) : Prop :=
  ∀ (x : Context K) (outer : List (Outer K)) (outcome : Except SyntaxError (Program K)),
    c.depth = outer.length → c.reads x (.operand .start outer) = outcome →
      Returns false c (sum c) (fun e c' => c.pos < c'.pos ∧ Complete x outer e outcome c')
        (fun err => outcome = .error err)

/-- So are all sums that begin closer to the end. -/
def SumsBelow (K : Type) [Scalar K] (c : Cursor) : Prop := ∀ c', c'.left < c.left → SumReturns K c'

theorem SumsBelow.of_moves {lines : Bool} (h : SumsBelow K c) (hmoves : Moves lines c c') :
    SumsBelow K c' := fun c'' hlt => h c'' (Nat.lt_of_lt_of_le hlt hmoves.left_le)

/-- Where an operand must follow nothing else is right. -/
theorem stepOperand_wrong (hblank : isBlankAt outer.length t.kind = false)
    (hminus : t.kind ≠ .minus) (hplus : t.kind ≠ .plus) (hnumber : t.kind ≠ .number)
    (hname : t.kind ≠ .name) (hparen : t.kind ≠ .openParen) :
    stepOperand p outer t = .wrong .operand := by
  unfold stepOperand
  split <;> simp_all [isBlankAt, List.length_pos_iff]

omit [Scalar K] in
/-- Behind a sum in parentheses only the parenthesis that closes them is right. -/
theorem stepOperator_wrong {sum : Awaiting K} {term : Expr K} {o : Outer K}
    (hblank : isBlankAt (o :: outer).length t.kind = false)
    (hmul : t.kind.multiplicative? = none) (hadd : t.kind.additive? = none)
    (hclose : t.kind ≠ .closeParen) :
    stepOperator sum term (o :: outer) t = .wrong (.kind .closeParen) := by
  unfold stepOperator
  split <;> simp_all [isBlankAt, Token.Kind.multiplicative?, Token.Kind.additive?]

omit [Scalar K] in
/-- Behind a sum outside all parentheses everything ends it. -/
theorem stepOperator_complete {sum : Awaiting K} {term : Expr K}
    (hblank : isBlankAt 0 t.kind = false) (hmul : t.kind.multiplicative? = none)
    (hadd : t.kind.additive? = none) : stepOperator sum term [] t = .ended (sum.apply term) := by
  unfold stepOperator
  split <;> simp_all [isBlankAt, Token.Kind.multiplicative?, Token.Kind.additive?]

/-- Behind what has been read in it, the parenthesis can be closed, and the depth is the outer
one. -/
theorem closed?_of_moves (h : Moves false c.opened c') :
    c'.closed? = some { c' with depth := c.depth } := by
  have hdepth : c'.depth = c.depth + 1 := h.depth
  rw [closed?, if_neg (hdepth ▸ Nat.succ_ne_zero _), hdepth, Nat.add_sub_cancel]

/-- Behind a complete sum in parentheses the one that closes them is read as by the reader. -/
theorem Complete.expect_close (h : Complete x (⟨m, p⟩ :: outer) e outcome c')
    (hdepth : c.depth = outer.length) (hmoves : Moves false c.opened c') (hlt : c.pos < c'.pos) :
    Returns false c ({ c' with depth := c.depth }.expect .closeParen)
      (fun _ c'' => c.pos < c''.pos ∧ c''.reads x (behind m p outer (.paren e)) = outcome)
      (fun err => outcome = .error err) := by
  obtain ⟨sum, term, rfl, hreads⟩ := h.reads
  have hblank : isBlankAt (⟨m, p⟩ :: outer : List (Outer K)).length c'.kind = false := by
    rw [List.length_cons, ← hdepth, ← show c'.depth = c.depth + 1 from hmoves.depth]
    exact h.blank
  -- inside parentheses line ends are blanks too
  have htrivia : c'.kind.isTrivia = false := by
    simpa [isBlankAt, Token.Kind.isTrivia, and_comm] using hblank
  refine .behind hmoves.enclosed (.mono (expect_here (by decide) ?_) ?_ ?_)
  · exact htrivia
  · rintro t _ - ⟨ht, hk, rfl⟩
    refine ⟨Nat.lt_succ_of_lt hlt, ?_⟩
    have hstep : (ExprReader.operator sum term (⟨m, p⟩ :: outer)).step t =
        .more (behind m p outer (.paren (sum.apply term))) := by
      cases m <;> simp [ExprReader.step, stepOperator, hk, behind, scaled]
    exact (reads_more ht hstep).symm.trans hreads
  · rintro err ⟨hne, rfl⟩
    refine hreads.symm.trans (reads_wrong fun t ht => ?_)
    have hk : c'.kind = t.kind := kind_of_current ht
    exact stepOperator_wrong (hk ▸ hblank) (hk ▸ h.multiplicative) (hk ▸ h.additive) (hk ▸ hne)

/-- A sum in parentheses has been read, and they are closed behind it. -/
theorem close_returns {r : Except SyntaxError (Expr K)} (hdepth : c.depth = outer.length)
    (hmoves : Moves false c.opened c')
    (hok : ∀ e, r = .ok e → c.pos < c'.pos ∧ Complete x (⟨m, p⟩ :: outer) e outcome c')
    (herror : ∀ err, r = .error err → outcome = .error err) :
    Returns false c (close r c')
      (fun e c'' => c.pos < c''.pos ∧ c''.reads x (behind m p outer e) = outcome)
      (fun err => outcome = .error err) := by
  obtain ⟨c₁, hs⟩ := exists_skips (isBlank_isBlankAt c'.depth) c'
  have hmoves₁ : Moves false c.opened c₁ := hmoves.trans hs.moves
  rw [close, skipBlanks, hs.eq, Option.bind_eq_bind, Option.bind_some, closed?_of_moves hmoves₁,
    Option.bind_some]
  cases r with
  | error err => exact .error hmoves₁.enclosed (herror err rfl)
  | ok e =>
    obtain ⟨hlt, hcomplete⟩ := hok e rfl
    obtain rfl := hs.eq_of_stop hcomplete.blank
    exact (hcomplete.expect_close hdepth hmoves₁ hlt).andThen fun _ _ _ h => .ok (.refl _) h

/-- What may stand where a number, a name or a parenthesis must: no blank, and no sign. -/
structure Operand (c : Cursor) : Prop where
  blank : isBlankAt c.depth c.kind = false
  minus : c.kind ≠ .minus
  plus : c.kind ≠ .plus

/-- From where an operand may stand, a number, a name or a bracketed sum is read as the reader reads
it. With a number in front (`m`) it is what that number multiplies. -/
theorem primary_returns (hsum : SumsBelow K c) (hdepth : c.depth = outer.length) (hc : Operand c)
    (hm : m = none ∨ c.kind = .name ∨ c.kind = .openParen)
    (h : c.reads x (before m p outer) = outcome) :
    Returns false c (primary c)
      (fun e c' => c.pos < c'.pos ∧ c'.reads x (behind m p outer e) = outcome)
      (fun err => outcome = .error err) := by
  rw [primary, skipBlanks, skip_of_stop hc.blank, Option.bind_eq_bind, Option.bind_some]
  cases ht : c.current? with
  | none =>
    refine .error (.refl _) (h.symm.trans (reads_wrong fun t ht' => ?_))
    rw [ht] at ht'
    cases ht'
  | some t =>
    have hk : c.kind = t.kind := kind_of_current ht
    rw [hk] at hm
    simp only []
    split
    next hnumber =>
      -- a number multiplies names and parentheses only
      obtain rfl : m = none := by simpa [hnumber] using hm
      have hmay : MayPass false c.kind := by simp [MayPass, hk, hnumber]
      split
      next n hn =>
        refine .ok (.advance hmay) ⟨Nat.lt_succ_self _, ?_⟩
        refine (reads_more ht ?_).symm.trans h
        simp [before, behind, ExprReader.step, stepOperand, hnumber, hn]
      next hn =>
        refine .error (.advance hmay) (h.symm.trans (reads_badNumber ht (hk ▸ hmay.1) ?_))
        simp [before, ExprReader.step, stepOperand, hnumber, hn]
    next hname =>
      refine .ok (.advance (by simp [MayPass, hk, hname])) ⟨Nat.lt_succ_self _, ?_⟩
      refine (reads_more ht ?_).symm.trans h
      cases m <;> simp [before, behind, scaled, ExprReader.step, stepOperand, hname]
    -- behind the bracket a sum begins closer to the end, so the induction gives its outcome
    next hparen =>
      have hmay : MayPass false c.kind := by simp [MayPass, hk, hparen]
      have hstep : (before m p outer).step t = .more (.operand .start (⟨m, p⟩ :: outer)) := by
        cases m <;> simp [before, ExprReader.step, stepOperand, hparen]
      have hnext : Moves false c c.advance := .advance hmay
      have hleft : c.advance.opened.left < c.left := hnext.left_lt (Nat.lt_succ_self _)
      obtain ⟨r, c', heq, hmoves, hok, herror⟩ :=
        hsum c.advance.opened hleft x (⟨m, p⟩ :: outer) outcome
          (congrArg Nat.succ hdepth) ((reads_more ht hstep).symm.trans h)
      rw [heq, Option.bind_eq_bind, Option.bind_some]
      exact .behind hnext (.further (Nat.le_succ _)
        (close_returns (c := c.advance) hdepth hmoves hok herror))
    -- nothing else begins an operand, and then the reader refuses the same token
    next hnumber hname hparen =>
      obtain rfl : m = none := hm.resolve_right fun hm => hm.elim hname hparen
      refine .error (.refl _) (h.symm.trans (reads_wrong fun t' ht' => ?_))
      obtain rfl := Option.some.inj (ht.symm.trans ht')
      exact stepOperand_wrong (hdepth ▸ hk ▸ hc.blank) (hk ▸ hc.minus) (hk ▸ hc.plus) hnumber hname
        hparen

/-! ## Operands and signs -/

/-- A number that multiplies nothing is a complete operand. -/
theorem reads_number {n : K} (hname : c.kind ≠ .name) (hparen : c.kind ≠ .openParen) :
    c.reads x (.number n p outer) = c.reads x (afterOperand p (.number n) outer) :=
  reads_alike fun t ht => by
    have hk : c.kind = t.kind := kind_of_current ht
    exact settled_number n p outer t (hk ▸ hname) (hk ▸ hparen)

/-- A number, a name or a bracketed sum, and behind a number what it multiplies. -/
theorem operand_returns (hsum : SumsBelow K c) (hdepth : c.depth = outer.length) (hc : Operand c)
    (h : c.reads x (.operand p outer) = outcome) :
    Returns false c (operand c)
      (fun e c' => c.pos < c'.pos ∧ c'.reads x (afterOperand p e outer) = outcome)
      (fun err => outcome = .error err) := by
  rw [operand]
  refine (primary_returns (m := none) hsum hdepth hc (.inl rfl) h).bind
    (fun e c' hmoves hread => ?_) fun _ _ => rfl
  cases e with
  | number n =>
    simp only []
    split
    next hmul =>
      have hc' : Operand c' := by
        constructor <;> rcases hmul with hk | hk <;> simp [hk, isBlankAt]
      refine (primary_returns (m := some n) (hsum.of_moves hmoves) (hmoves.depth.trans hdepth) hc'
        (.inr hmul) hread.2).bind (fun e c'' _ hread' => ?_) fun _ _ => rfl
      exact .ok (.refl _) (hread'.imp_left hread.1.trans)
    next hmul =>
      rw [not_or] at hmul
      exact .ok (.refl _) ⟨hread.1, (reads_number hmul.1 hmul.2).symm.trans hread.2⟩
  | var _ _ => exact .ok (.refl _) hread
  | neg _ => exact .ok (.refl _) hread
  | paren _ => exact .ok (.refl _) hread
  | binary _ _ _ => exact .ok (.refl _) hread

/-- Signs and blanks before an operand. The reader counts the signs, the calls put one negation
around the result for each. -/
theorem factor_returns (hsum : SumsBelow K c) (hdepth : c.depth = outer.length)
    (h : c.reads x (.operand p outer) = outcome) :
    Returns false c (factor c)
      (fun e c' => c.pos < c'.pos ∧ c'.reads x (afterOperand p e outer) = outcome)
      (fun err => outcome = .error err) := by
  induction hn : c.left using Nat.strong_induction_on generalizing c p with
  | h n ih =>
    subst hn
    rw [factor, skipBlanks]
    refine .skip (isBlank_isBlankAt c.depth) fun c₁ hs => .further hs.moves.le ?_
    have hdepth₁ : c₁.depth = outer.length := hs.moves.depth.trans hdepth
    have hreads₁ : c₁.reads x (.operand p outer) = outcome :=
      (reads_blank_operand hdepth hs).symm.trans h
    -- a sign is passed, and what is behind it is closer to the end
    have hsign : ∀ {q : Pending K}, MayPass false c₁.kind →
        (∀ t : Token, t.kind = c₁.kind →
          (ExprReader.operand p outer).step t = .more (.operand q outer)) →
        Returns false c₁ (factor c₁.advance)
          (fun e c' => c₁.pos < c'.pos ∧ c'.reads x (afterOperand q e outer) = outcome)
          (fun err => outcome = .error err) := by
      intro q hmay hstep
      obtain ⟨t, ht, hk⟩ := exists_current hmay.1
      have hmoves : Moves false c₁ c₁.advance := .advance hmay
      have hlt : c₁.advance.left < c.left :=
        Nat.lt_of_lt_of_le (hmoves.left_lt (Nat.lt_succ_self _)) hs.moves.left_le
      exact .behind hmoves (.further (Nat.le_succ _)
        (ih _ hlt (hsum.of_moves (hs.moves.trans hmoves)) hdepth₁
          ((reads_more ht (hstep t hk)).symm.trans hreads₁) rfl))
    split
    next hminus =>
      -- the negation is put on when the inner call returns: one sign less to be counted
      refine (hsign (q := { p with negations := p.negations + 1 }) (by simp [MayPass, hminus])
        fun t hk => ?_).bind (fun e c' _ hread => ?_) fun _ _ => rfl
      · simp [ExprReader.step, stepOperand, hk, hminus]
      · rw [afterOperand, Pending.term_negations_succ] at hread
        exact .ok (.refl _) hread
    next hplus =>
      refine hsign (q := p) (by simp [MayPass, hplus]) fun t hk => ?_
      simp [ExprReader.step, stepOperand, hk, hplus]
    next hminus hplus =>
      have hoperand : Operand c₁ := ⟨hs.moves.depth ▸ hs.stops, hminus, hplus⟩
      exact operand_returns (hsum.of_moves hs.moves) hdepth₁ hoperand hreads₁

/-! ## Products and sums -/

/-- From behind a factor the loop goes on with further factors. It ends at what is no blank and
multiplies nothing. -/
theorem productFrom_returns {sum : Awaiting K} {left : Expr K} (hsum : SumsBelow K c)
    (hdepth : c.depth = outer.length) (h : c.reads x (.operator sum left outer) = outcome) :
    Returns false c (productFrom left c)
      (fun e c' => isBlankAt c'.depth c'.kind = false ∧ c'.kind.multiplicative? = none ∧
        c'.reads x (.operator sum e outer) = outcome)
      (fun err => outcome = .error err) := by
  induction hn : c.left using Nat.strong_induction_on generalizing c left with
  | h n ih =>
    subst hn
    rw [productFrom, skipBlanks]
    refine .skip (isBlank_isBlankAt c.depth) fun c₁ hs => ?_
    have hdepth₁ : c₁.depth = outer.length := hs.moves.depth.trans hdepth
    have hreads₁ : c₁.reads x (.operator sum left outer) = outcome :=
      (reads_blank_operator hdepth hs).symm.trans h
    split
    next hnone => exact .ok (.refl _) ⟨hs.moves.depth ▸ hs.stops, hnone, hreads₁⟩
    next op hop =>
      have hmay : MayPass false c₁.kind := .of_eq_some rfl rfl hop
      obtain ⟨t, ht, hk⟩ := exists_current hmay.1
      have hmoves : Moves false c c₁.advance := hs.moves.trans (.advance hmay)
      have hstep : (ExprReader.operator sum left outer).step t =
          .more (.operand ⟨sum, some (left, op), 0⟩ outer) :=
        stepOperator_multiplicative (hk ▸ hop)
      refine .behind (.advance hmay) ((factor_returns (hsum.of_moves hmoves) hdepth₁
        ((reads_more ht hstep).symm.trans hreads₁)).bind (fun right c' hmoves' hread => ?_)
        fun _ _ => rfl)
      -- a factor has been read, so the loop begins anew closer to the end
      have hlt : c'.left < c.left := (hmoves.trans hmoves').left_lt
        (Nat.lt_of_le_of_lt hmoves.le hread.1)
      exact ih _ hlt (hsum.of_moves (hmoves.trans hmoves')) (hmoves'.depth.trans hdepth₁) hread.2
        rfl

/-- A factor and all that it is multiplied with or divided by. -/
theorem product_returns {sum : Awaiting K} (hsum : SumsBelow K c) (hdepth : c.depth = outer.length)
    (h : c.reads x (.operand ⟨sum, none, 0⟩ outer) = outcome) :
    Returns false c (product c)
      (fun e c' => c.pos < c'.pos ∧ isBlankAt c'.depth c'.kind = false ∧
        c'.kind.multiplicative? = none ∧ c'.reads x (.operator sum e outer) = outcome)
      (fun err => outcome = .error err) := by
  rw [product]
  refine (factor_returns hsum hdepth h).bind (fun left c' hmoves hread => ?_) fun _ _ => rfl
  refine (productFrom_returns (hsum.of_moves hmoves) (hmoves.depth.trans hdepth) hread.2).mono ?_
    fun _ hE => hE
  exact fun _ _ hmoves' hQ => ⟨Nat.lt_of_lt_of_le hread.1 hmoves'.le, hQ⟩

/-- From behind a term the loop goes on with further terms, until the sum is complete. -/
theorem sumFrom_returns (sum : Awaiting K) {term : Expr K} (hsum : SumsBelow K c)
    (hdepth : c.depth = outer.length) (hblank : isBlankAt c.depth c.kind = false)
    (hmul : c.kind.multiplicative? = none) (h : c.reads x (.operator sum term outer) = outcome) :
    Returns false c (sumFrom (sum.apply term) c) (fun e c' => Complete x outer e outcome c')
      (fun err => outcome = .error err) := by
  induction hn : c.left using Nat.strong_induction_on generalizing c sum term with
  | h n ih =>
    subst hn
    rw [sumFrom, skipBlanks, skip_of_stop hblank, Option.bind_eq_bind, Option.bind_some]
    split
    -- no blank is left over: the product has passed them all
    next hnone => exact .ok (.refl _) ⟨hblank, hmul, hnone, sum, term, rfl, h⟩
    next op hop =>
      have hmay : MayPass false c.kind := .of_eq_some rfl rfl hop
      obtain ⟨t, ht, hk⟩ := exists_current hmay.1
      have hmoves : Moves false c c.advance := .advance hmay
      have hstep : (ExprReader.operator sum term outer).step t =
          .more (.operand ⟨some (sum.apply term, op), none, 0⟩ outer) :=
        stepOperator_additive (hk ▸ hop)
      refine .behind hmoves ((product_returns (hsum.of_moves hmoves) hdepth
        ((reads_more ht hstep).symm.trans h)).bind (fun right c' hmoves' hread => ?_)
        fun _ _ => rfl)
      -- the next round begins behind one more term, whose product has ended in the same way
      obtain ⟨hlt, hblank', hmul', hread⟩ := hread
      have hlt : c'.left < c.left := (hmoves.trans hmoves').left_lt (Nat.lt_of_succ_lt hlt)
      exact ih _ hlt (some (sum.apply term, op)) (hsum.of_moves (hmoves.trans hmoves'))
        (hmoves'.depth.trans hdepth) hblank' hmul' hread rfl

/-- A sum is read from any cursor as the reader reads it. -/
theorem sum_returns (c : Cursor) : SumReturns K c := by
  induction hn : c.left using Nat.strong_induction_on generalizing c with
  | h n ih =>
    subst hn
    intro x outer outcome hdepth h
    have hsum : SumsBelow K c := fun c' hlt => ih _ hlt c' rfl
    rw [sum]
    refine (product_returns hsum hdepth h).bind (fun left c' hmoves hread => ?_) fun _ _ => rfl
    obtain ⟨hlt, hblank, hmul, hread⟩ := hread
    refine (sumFrom_returns none (hsum.of_moves hmoves) (hmoves.depth.trans hdepth) hblank
      hmul hread).mono ?_ fun _ hE => hE
    exact fun _ _ hmoves' hQ => ⟨Nat.lt_of_lt_of_le hlt hmoves'.le, hQ⟩

end Cursor

end CornerPoint.Source
