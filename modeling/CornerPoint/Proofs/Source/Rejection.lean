import CornerPoint.Proofs.Source.Acceptance

/-!
# A text is rejected at its first hopeless token

The reader never looks ahead, so an error at a token does not depend on what follows it. It is
also never too late: from every state some tokens lead to the end of the program
(`canFinish`), so as long as there has been no error an accepted text may still come of what
has been read. Hence the tokens that an error message points at are exactly the first ones
that no accepted text has in their place (`rejected_at_first_hopeless`).
-/

namespace CornerPoint.Source

variable {K : Type} [Scalar K]

/-! ## Errors name the token they are about -/

/-- The error `e` says that the token `t` is out of place. -/
def SyntaxError.Blames (e : SyntaxError) (t : Token) : Prop :=
  ∃ expected, e = .unexpected expected t.kind t.span

/-- The error `e` is about the token `t`: it is out of place, or it is a number that denotes
none. -/
def SyntaxError.Concerns (K : Type) [Scalar K] (e : SyntaxError) (t : Token) : Prop :=
  e.Blames t ∨ e = .badNumber t.text ∧ ¬ t.Valid K

theorem Token.refuse_blames {α : Type} {t : Token} {expected : Expectation} {e : SyntaxError}
    (h : (t.refuse expected : Except SyntaxError α) = .error e) : e.Blames t := by
  cases h
  exact ⟨expected, rfl⟩

section Blame

variable {p : Problem K} {t : Token} {e : SyntaxError} {last : Nat}

/-- A number that denotes something is never refused for what it says. -/
theorem ExprReader.step_ne_badNumber {r : ExprReader K} (hv : t.Valid K) :
    r.step t ≠ .badNumber := by
  -- no number is read where an operator may follow
  have hoperator : ∀ sum term outer,
      (stepOperator sum term outer t : ExprStep K) ≠ .badNumber := by
    intro sum term outer
    unfold stepOperator
    split
    case h_6 =>
      split
      · simp
      · split
        · simp
        · split <;> simp
    all_goals simp
  cases r with
  | operator sum term outer => exact hoperator sum term outer
  | number value p outer =>
    simp only [step]
    split
    next => simp
    next => simp
    next => exact hoperator _ _ _
  | operand p outer =>
    simp only [step, stepOperand]
    split
    case h_2 => split <;> simp
    case h_5 ht => simp [hv.ofText?_eq ht]
    all_goals simp

omit [Scalar K] in
/-- Where a line must end, a token is refused for being there. -/
theorem Reader.endLine_blames {inside : Place K} {outside : Option (Place K)}
    (h : endLine t p inside outside = .error e) : e.Blames t := by
  unfold endLine at h
  split at h
  next => cases h
  next => cases h
  next => exact Token.refuse_blames h

/-- What a property cannot be set to is refused by its kind, or as a number without a value. -/
theorem Reader.stepProperty_concerns {start : Nat} {name : String} {colon : Bool}
    (h : stepProperty p start name colon t = .error e) : e.Concerns K t := by
  unfold stepProperty at h
  split at h
  next => cases h
  next ht =>
    split at h
    next => cases h
    next hnone =>
      cases h
      exact .inr ⟨rfl, fun hv => by simp [hv.ofText?_eq ht] at hnone⟩
  next => cases h
  next =>
    split at h
    next => exact .inl (Token.refuse_blames h)
    next => cases h
  next => exact .inl (Token.refuse_blames h)

omit [Scalar K] in
/-- Behind an expression a token is refused for being there. -/
theorem Reader.stepAfterExpr_blames {purpose : Purpose K} {expr : Expr K}
    (h : stepAfterExpr p last purpose expr t = .error e) : e.Blames t := by
  cases purpose with
  | objective => exact endLine_blames h
  | right => exact endLine_blames h
  | left =>
    simp only [stepAfterExpr] at h
    split at h
    next => cases h
    next => cases h
    next => cases h
    next => exact Token.refuse_blames h

/-- In an expression a token is refused for being there, or as a number without a value. -/
theorem Reader.stepExpr_concerns {purpose : Purpose K} {r : ExprReader K}
    (h : stepExpr p last purpose r t = .error e) : e.Concerns K t := by
  unfold stepExpr at h
  split at h
  next => cases h
  next => exact .inl (stepAfterExpr_blames h)
  next => exact .inl (Token.refuse_blames h)
  next hbad =>
    cases h
    exact .inr ⟨rfl, fun hv => ExprReader.step_ne_badNumber hv hbad⟩

/-- Inside a problem every error is about the token at hand. -/
theorem Reader.stepInside_concerns {place : Place K}
    (h : stepInside p last place t = .error e) : e.Concerns K t := by
  cases place with
  | body =>
    simp only [stepInside, stepBody] at h
    split at h
    case h_9 => exact .inl (Token.refuse_blames h)
    all_goals cases h
  | property => exact stepProperty_concerns h
  | varName =>
    simp only [stepInside] at h
    split at h
    next => cases h
    next =>
      split at h
      next => cases h
      next => exact .inl (Token.refuse_blames h)
  | afterVariable =>
    simp only [stepInside, stepAfterVariable] at h
    split at h
    next =>
      split at h
      next => cases h
      next => exact .inl (Token.refuse_blames h)
    next => cases h
    next => exact .inl (endLine_blames h)
  | blockBrace =>
    simp only [stepInside] at h
    split at h
    next => cases h
    next =>
      split at h
      next => cases h
      next => exact .inl (Token.refuse_blames h)
  | block =>
    simp only [stepInside] at h
    split at h
    case h_5 => exact stepExpr_concerns h
    all_goals cases h
  | labelOrOperand =>
    simp only [stepInside] at h
    split at h
    next => cases h
    next => exact stepExpr_concerns h
  | expr => exact stepExpr_concerns h

/-- Whatever the reader rejects a token for, the error is about this token. -/
theorem Reader.step_concerns {r : Reader K} (h : r.step t = .error e) : e.Concerns K t := by
  simp only [step] at h
  split at h
  next => cases h
  next e' hphase =>
    cases h
    unfold stepPhase at hphase
    split at hphase
    -- inside a problem; the other phases wait for one kind of token each
    case h_4 =>
      split at hphase
      next => cases hphase
      next => cases hphase
      next hinside => cases hphase; exact stepInside_concerns hinside
    all_goals
      split at hphase
      next => cases hphase
      next =>
        split at hphase
        next => cases hphase
        next => exact .inl (Token.refuse_blames hphase)

/-- A token that is no number without a value is only ever out of place. -/
theorem Reader.step_blames {r : Reader K} (hv : t.Valid K) (h : r.step t = .error e) :
    e.Blames t :=
  (step_concerns h).resolve_right fun hbad => hbad.2 hv

end Blame

/-! ## Every state can be brought to an end -/

/-- Some token of a kind. -/
def Token.ofKind (kind : Token.Kind) : Token := ⟨kind, ⟨0, 0⟩, ""⟩

/-- Neither the end nor a number. -/
def Token.Kind.IsPlain (k : Token.Kind) : Prop := k ≠ .endOfInput ∧ k ≠ .number

namespace ExprReader

/-- Some tokens complete the expression, so that everything that cannot go on with it
ends it. -/
def CanEnd (r : ExprReader K) : Prop :=
  ∃ us s e, (∀ t ∈ us, t.kind.IsPlain) ∧ r.Reads us s ∧ ∀ t, Ends t.kind → s.step t = .ended e

theorem CanEnd.step {r s : ExprReader K} {t : Token} (h : r.step t = .more s)
    (ht : t.kind.IsPlain) (hs : s.CanEnd) : r.CanEnd := by
  obtain ⟨us, u, e, hus, hread, hend⟩ := hs
  exact ⟨t :: us, u, e, List.forall_mem_cons.mpr ⟨ht, hus⟩, .cons h hread, hend⟩

/-- Behind a complete operand the open parentheses are closed one after another. -/
theorem canEnd_operator (sum : Awaiting K) (term : Expr K) (outer : List (Outer K)) :
    (operator sum term outer).CanEnd := by
  induction outer generalizing sum term with
  | nil => exact ⟨[], _, _, by simp, .refl, fun t ht => stepOperator_ended ht⟩
  | cons o outer ih =>
    have hstep : (operator sum term (o :: outer)).step (.ofKind .closeParen) =
        .more (afterOperand o.pending (enclosed o.multiplier (sum.apply term)) outer) := rfl
    exact .step hstep (by simp [Token.ofKind, Token.Kind.IsPlain]) (ih _ _)

/-- From everywhere some plain tokens bring an expression to its end. -/
theorem canEnd (r : ExprReader K) : r.CanEnd := by
  cases r with
  | operator sum term outer => exact canEnd_operator sum term outer
  -- one name is enough to be behind an operand
  | operand p outer =>
    have hstep : (operand p outer).step (.ofKind .name) =
        .more (afterOperand p (.var ⟨0, 0⟩ "") outer) := rfl
    exact .step hstep (by simp [Token.ofKind, Token.Kind.IsPlain]) (canEnd_operator _ _ _)
  -- a comment is enough to leave the number alone
  | number value p outer =>
    have hstep : (number value p outer).step (.ofKind .comment) =
        .more (.operator p.sum (p.term (.number value)) outer) := rfl
    exact .step hstep (by simp [Token.ofKind, Token.Kind.IsPlain]) (canEnd_operator _ _ _)

end ExprReader

namespace Reader

/-- Some tokens lead from the reader to the end of a program. -/
def CanFinish (r : Reader K) : Prop :=
  ∃ us s p, (∀ t ∈ us, t.kind.IsPlain) ∧ r.advance us = .ok s ∧ s.finish = .ok p

/-- What leads to where the program can be finished can be finished. -/
theorem CanFinish.advance {r s : Reader K} {us : List Token} (h : r.advance us = .ok s)
    (hus : ∀ t ∈ us, t.kind.IsPlain) (hs : s.CanFinish) : r.CanFinish := by
  obtain ⟨vs, u, p, hvs, hread, hfinish⟩ := hs
  exact ⟨us ++ vs, u, p, List.forall_mem_append.mpr ⟨hus, hvs⟩,
    (advance_append h vs).trans hread, hfinish⟩

/-- A token of the kind `k` leads on. -/
theorem CanFinish.step {r s : Reader K} (k : Token.Kind) (h : r.step (.ofKind k) = .ok s)
    (hk : k.IsPlain) (hs : s.CanFinish) : r.CanFinish := by
  have hone : r.advance [.ofKind k] = .ok s := by simp only [Reader.advance, h]
  exact .advance hone (by simpa [Token.ofKind]) hs

section Places

variable (ps : List (Problem K)) (p : Problem K) (last : Nat)

theorem canFinish_outside : (⟨ps, .outside, last⟩ : Reader K).CanFinish :=
  ⟨[], _, _, by simp, rfl, rfl⟩

theorem canFinish_body : (within ps p .body last).CanFinish :=
  .step .closeBrace rfl (by simp [Token.Kind.IsPlain]) (canFinish_outside _ _)

theorem canFinish_block : (within ps p .block last).CanFinish :=
  .step .closeBrace rfl (by simp [Token.Kind.IsPlain]) (canFinish_body _ _ _)

theorem canFinish_afterVariable (start : Nat) (names : List String) (comma : Bool) :
    (within ps p (.afterVariable start names comma) last).CanFinish :=
  .step .newline rfl (by simp [Token.Kind.IsPlain]) (canFinish_body _ _ _)

/-- Once the expression is complete, `kind` leads on. -/
theorem canFinish_expr {purpose : Purpose K} (r : ExprReader K) (kind : Token.Kind)
    (hkind : kind.IsPlain ∧ ExprReader.Ends kind)
    (h : ∀ last e, ∃ q place, stepAfterExpr p last purpose e (.ofKind kind) =
      .ok (q, some place) ∧ ∀ last, (within ps q place last).CanFinish) :
    (within ps p (.expr purpose r) last).CanFinish := by
  obtain ⟨us, s, e, hus, hread, hend⟩ := r.canEnd
  obtain ⟨q, place, hstep, hq⟩ := h (stopAfter last us) e
  have hinside : stepInside p (stopAfter last us) (.expr purpose s) (.ofKind kind) =
      .ok (q, some place) := by
    simp only [stepInside, stepExpr, hend (.ofKind kind) hkind.2, hstep]
  exact .advance (advance_reads hread ps p purpose last) hus
    (.step kind (step_within hinside) hkind.1 (hq _))

/-- From every place in a problem some tokens bring the program to its end. -/
theorem canFinish_place (place : Place K) : (within ps p place last).CanFinish := by
  have hend : ∀ k : Token.Kind, k = .newline ∨ k = .le → k.IsPlain ∧ ExprReader.Ends k := by
    rintro k (rfl | rfl) <;> simp [Token.Kind.IsPlain, ExprReader.Ends]
  -- a row ends with its line; its left-hand side first needs a relation
  have hright : ∀ start label lhs relation r last,
      (within ps p (.expr (.right start label lhs relation) r) last).CanFinish :=
    fun _ _ _ _ r last => canFinish_expr ps p last r .newline (hend _ (.inl rfl))
      fun _ _ => ⟨_, _, rfl, canFinish_block ps _⟩
  have hleft : ∀ start label r last,
      (within ps p (.expr (.left start label) r) last).CanFinish :=
    fun _ _ r last => canFinish_expr ps p last r .le (hend _ (.inr rfl))
      fun _ _ => ⟨_, _, rfl, hright _ _ _ _ _⟩
  cases place with
  | body => exact canFinish_body ps p last
  | property =>
    exact .step .name rfl (by simp [Token.Kind.IsPlain]) (canFinish_body _ _ _)
  | varName =>
    exact .step .name rfl (by simp [Token.Kind.IsPlain]) (canFinish_afterVariable _ _ _ _ _ _)
  | afterVariable => exact canFinish_afterVariable ps p last _ _ _
  | blockBrace =>
    exact .step .openBrace rfl (by simp [Token.Kind.IsPlain]) (canFinish_block _ _ _)
  | block => exact canFinish_block ps p last
  | labelOrOperand => exact .step .colon rfl (by simp [Token.Kind.IsPlain]) (hleft _ _ _ _)
  | expr purpose r =>
    cases purpose with
    | objective =>
      exact canFinish_expr ps p last r .newline (hend _ (.inl rfl))
        fun _ _ => ⟨_, _, rfl, canFinish_body ps _⟩
    | left => exact hleft _ _ _ _
    | right => exact hright _ _ _ _ _ _

end Places

/-- Whatever has been read without an error can be completed. -/
theorem canFinish (r : Reader K) : r.CanFinish := by
  have hbrace : ∀ ps start name last,
      (⟨ps, .brace start name, last⟩ : Reader K).CanFinish := fun ps start name last =>
    .step .openBrace rfl (by simp [Token.Kind.IsPlain]) (canFinish_body ps _ _)
  obtain ⟨ps, phase, last⟩ := r
  cases phase with
  | outside => exact canFinish_outside ps last
  | name => exact .step .name rfl (by simp [Token.Kind.IsPlain]) (hbrace _ _ _ _)
  | brace => exact hbrace _ _ _ _
  | inside p place => exact canFinish_place ps p last place

/-- An error is an error at some token, behind tokens without one. -/
theorem exists_rejected {r : Reader K} {ts : List Token} {e : SyntaxError}
    (h : r.advance ts = .error e) :
    ∃ front t back s, ts = front ++ t :: back ∧ r.advance front = .ok s ∧
      s.step t = .error e := by
  induction ts generalizing r with
  | nil => cases h
  | cons t ts ih =>
    simp only [Reader.advance] at h
    cases hstep : r.step t with
    | error e' =>
      rw [hstep] at h
      cases h
      exact ⟨[], t, ts, r, rfl, rfl, hstep⟩
    | ok r' =>
      rw [hstep] at h
      obtain ⟨front, t', back, s, rfl, hfront, hs⟩ := ih h
      exact ⟨t :: front, t', back, s, rfl, by simp only [Reader.advance, hstep, hfront], hs⟩

/-- What has been read without an error has been so at each earlier point. -/
theorem advance_prefix {r s : Reader K} {front ts : List Token} (h : r.advance ts = .ok s)
    (hp : front <+: ts) : ∃ s', r.advance front = .ok s' := by
  obtain ⟨back, rfl⟩ := hp
  cases hf : r.advance front with
  | ok s' => exact ⟨s', rfl⟩
  | error e => rw [advance_append_error hf] at h; cases h

end Reader

/-! ## Hopeless beginnings -/

/-- The tokens are accepted. -/
def Accepted (K : Type) [Scalar K] (ts : List Token) : Prop :=
  ∃ p : Program K, Program.ofTokens ts = .ok p

/-- No accepted list of tokens begins with `front`. -/
def Hopeless (K : Type) [Scalar K] (front : List Token) : Prop :=
  ∀ ts, Tidy K ts → front <+: ts → ¬ Accepted K ts

section Beginnings

variable {ts body front : List Token} {c : Token} {e : SyntaxError} {r : Reader K}

/-- The outcome for a list with the end token behind `body`. -/
theorem ofTokens_concat (hbody : ∀ t ∈ body, t.kind ≠ .endOfInput) (hc : c.kind = .endOfInput) :
    Program.ofTokens (K := K) (body ++ [c]) =
      match (Reader.start : Reader K).advance body with
      | .ok s => s.finish
      | .error e => .error e :=
  Reader.run_append_end _ hbody hc

/-- A beginning without an error is the beginning of an accepted list. -/
theorem exists_accepted (hend : ∀ t ∈ front, t.kind ≠ .endOfInput)
    (hv : ∀ t ∈ front, t.Valid K) (h : (Reader.start : Reader K).advance front = .ok r) :
    ∃ ts, Tidy K ts ∧ front <+: ts ∧ Accepted K ts := by
  obtain ⟨us, s, p, hus, hread, hfinish⟩ := r.canFinish
  have hbody : ∀ t ∈ front ++ us, t.kind ≠ .endOfInput :=
    List.forall_mem_append.mpr ⟨hend, fun t ht => (hus t ht).1⟩
  have hplain : ∀ t : Token, t.kind ≠ .number → t.Valid K := fun t ht hk => absurd hk ht
  refine ⟨front ++ us ++ [.endAt 0], ⟨⟨_, _, rfl, rfl, hbody⟩, ?_⟩, ⟨us ++ [.endAt 0], by simp⟩,
    p, ?_⟩
  · simp only [List.forall_mem_append, List.forall_mem_singleton]
    exact ⟨⟨hv, fun t ht => hplain t (hus t ht).2⟩, hplain _ (by simp [Token.endAt])⟩
  · rw [ofTokens_concat hbody rfl, Reader.advance_append h, hread]
    exact hfinish

/-- A beginning with an error is rejected with this error, whatever follows. -/
theorem ofTokens_eq_error (hend : ∀ t ∈ front, t.kind ≠ .endOfInput)
    (h : (Reader.start : Reader K).advance front = .error e) (hts : Tidy K ts)
    (hp : front <+: ts) : Program.ofTokens (K := K) ts = .error e := by
  obtain ⟨body, c, rfl, hc, hbody⟩ := hts.ends
  have hp' : front <+: body := by
    refine (List.prefix_concat_iff.mp hp).resolve_left ?_
    rintro rfl
    exact hend c (by simp) hc
  obtain ⟨back, rfl⟩ := hp'
  rw [ofTokens_concat hbody hc, Reader.advance_append_error h]

/-- Tokens that have been read can be finished, so they are not hopeless. -/
theorem not_hopeless_of_ok (hend : ∀ t ∈ front, t.kind ≠ .endOfInput)
    (hv : ∀ t ∈ front, t.Valid K) (h : (Reader.start : Reader K).advance front = .ok r) :
    ¬ Hopeless K front := fun hless => by
  obtain ⟨ts, hts, hp, hacc⟩ := exists_accepted hend hv h
  exact hless ts hts hp hacc

/-- Tokens that have been refused are refused whatever follows. -/
theorem hopeless_of_error (hend : ∀ t ∈ front, t.kind ≠ .endOfInput)
    (h : (Reader.start : Reader K).advance front = .error e) : Hopeless K front := by
  rintro ts hts hp ⟨p, hok⟩
  rw [ofTokens_eq_error hend h hts hp] at hok
  cases hok

/-- Without an error in front of the end no beginning is hopeless. -/
theorem not_hopeless_take (hend : ∀ t ∈ body, t.kind ≠ .endOfInput)
    (hv : ∀ t ∈ body, t.Valid K) (h : (Reader.start : Reader K).advance body = .ok r) {k : Nat}
    (hk : k < (body ++ [c]).length) : ¬ Hopeless K ((body ++ [c]).take k) := by
  have hlen : k ≤ body.length := by simpa [Nat.lt_succ_iff] using hk
  rw [List.take_append_of_le_length hlen]
  obtain ⟨s, hs⟩ := Reader.advance_prefix h (List.take_prefix k body)
  exact not_hopeless_of_ok (fun t ht => hend t (List.mem_of_mem_take ht))
    (fun t ht => hv t (List.mem_of_mem_take ht)) hs

/-- If the token `t` is the first one to be rejected, the hopeless beginnings are those that
reach it. -/
theorem hopeless_take_iff {t : Token} {back : List Token}
    (hend : ∀ x ∈ front ++ t :: back, x.kind ≠ .endOfInput)
    (hv : ∀ x ∈ front ++ t :: back, x.Valid K)
    (hfront : (Reader.start : Reader K).advance front = .ok r) (hstep : r.step t = .error e)
    {k : Nat} (hk : k < (front ++ t :: back ++ [c]).length) :
    Hopeless K ((front ++ t :: back ++ [c]).take k) ↔ front.length < k := by
  have hlen : k ≤ (front ++ t :: back).length := by
    simp only [List.length_append, List.length_cons, List.length_nil] at hk ⊢
    omega
  have hends : ∀ x ∈ (front ++ t :: back).take k, x.kind ≠ .endOfInput :=
    fun x hx => hend x (List.mem_of_mem_take hx)
  rw [List.take_append_of_le_length hlen]
  constructor
  · intro hless
    by_contra hle
    have hp : (front ++ t :: back).take k <+: front := by
      rw [List.take_append_of_le_length (by omega)]
      exact List.take_prefix k front
    -- a beginning of what has been read can be finished, so it is not hopeless
    obtain ⟨s, hs⟩ := Reader.advance_prefix hfront hp
    exact not_hopeless_of_ok hends (fun x hx => hv x (List.mem_of_mem_take hx)) hs hless
  · intro hlt
    -- a beginning that reaches the rejected token is rejected there, whatever follows
    obtain ⟨j, rfl⟩ : ∃ j, k = front.length + (j + 1) := ⟨k - front.length - 1, by omega⟩
    refine hopeless_of_error hends (e := e) ?_
    rw [List.take_length_add_append, Reader.advance_append hfront, List.take_succ_cons]
    simp only [Reader.advance, hstep]

/-- The two ways in which a list of tokens can fare. Either every token in front of its end is
read, and then some accepted list begins with all of them; or the token `t` is the first one to
be refused, and then it is refused in every list that begins in this way. -/
inductive Verdict (K : Type) [Scalar K] (ts : List Token) : Prop
  | read : (∀ k, k + 1 < ts.length → ¬ Hopeless K (ts.take (k + 1))) →
      Accepted K ts ∨ Program.ofTokens (K := K) ts = .error .endOfInput →
      (∃ us, Tidy K us ∧ ts.dropLast <+: us ∧ Accepted K us) → Verdict K ts
  | refused {k t expected} : k + 1 < ts.length → ts[k]? = some t →
      (∀ j, j + 1 < ts.length → (Hopeless K (ts.take (j + 1)) ↔ k ≤ j)) →
      (∀ us, Tidy K us → ts.take (k + 1) <+: us →
        Program.ofTokens (K := K) us = .error (.unexpected expected t.kind t.span)) →
      Verdict K ts

/-- Tokens that have all been read: no beginning is hopeless, and at worst the end comes too
early. -/
theorem verdict_of_ok (hend : ∀ t ∈ body, t.kind ≠ .endOfInput) (hv : ∀ t ∈ body, t.Valid K)
    (hc : c.kind = .endOfInput) (h : (Reader.start : Reader K).advance body = .ok r) :
    Verdict K (body ++ [c]) := by
  have houtcome : Program.ofTokens (body ++ [c]) = r.finish := by
    rw [ofTokens_concat hend hc, h]
  refine .read (fun k hk => not_hopeless_take hend hv h hk) ?_ ?_
  · rw [Accepted, houtcome]
    unfold Reader.finish
    split
    · exact .inl ⟨_, rfl⟩
    · exact .inr rfl
  · rw [List.dropLast_concat]
    exact exists_accepted hend hv h

/-- Tokens of which one has been rejected: it is the first that makes a beginning hopeless. -/
theorem verdict_of_error (hend : ∀ t ∈ body, t.kind ≠ .endOfInput) (hv : ∀ t ∈ body, t.Valid K)
    (h : (Reader.start : Reader K).advance body = .error e) : Verdict K (body ++ [c]) := by
  obtain ⟨front, t, back, s, rfl, hfront, hstep⟩ := Reader.exists_rejected h
  obtain ⟨expected, rfl⟩ := Reader.step_blames (hv t (by simp)) hstep
  have htake : (front ++ t :: back ++ [c]).take (front.length + 1) = front ++ [t] := by
    simp [List.take_length_add_append]
  have herror : (Reader.start : Reader K).advance (front ++ [t]) =
      .error (.unexpected expected t.kind t.span) := by
    rw [Reader.advance_append hfront]
    simp only [Reader.advance, hstep]
  -- whoever begins with the same tokens is refused with the same error
  have hrefused : ∀ us, Tidy K us →
      (front ++ t :: back ++ [c]).take (front.length + 1) <+: us →
      Program.ofTokens (K := K) us = .error (.unexpected expected t.kind t.span) :=
    fun us hus hp => ofTokens_eq_error (fun x hx => hend x (List.Sublist.subset (by simp) hx))
      herror hus (htake ▸ hp)
  refine .refused (by simp) (by simp) (fun j hj => ?_) hrefused
  rw [hopeless_take_iff hend hv hfront hstep hj, Nat.lt_succ_iff]

/-- Either all tokens but the end are read, or one of them is refused. -/
theorem verdict (h : Tidy K ts) : Verdict K ts := by
  obtain ⟨body, c, rfl, hc, hend⟩ := h.ends
  have hv : ∀ t ∈ body, t.Valid K := fun t ht => h.valid t (List.mem_append_left _ ht)
  cases hr : (Reader.start : Reader K).advance body with
  | ok r => exact verdict_of_ok hend hv hc hr
  | error e => exact verdict_of_error hend hv hr

end Beginnings

/-- A list of tokens is accepted if it derives from the grammar. It is rejected as unexpected
exactly if some beginning in front of its end is hopeless, and then at the last token of the
shortest such beginning; all lists that begin in this way are rejected with the same error. The
end is what is wrong exactly if the list is not accepted although an accepted list begins with
all tokens in front of its end. -/
theorem rejected_at_first_hopeless {ts : List Token} (h : Tidy K ts) :
    (Accepted K ts ↔ ∃ p : Program K, IsProgram ts p) ∧
    ((∃ expected found span,
        Program.ofTokens (K := K) ts = .error (.unexpected expected found span)) ↔
      ∃ k, k + 1 < ts.length ∧ Hopeless K (ts.take (k + 1))) ∧
    (∀ k t, k + 1 < ts.length → ts[k]? = some t → Hopeless K (ts.take (k + 1)) →
      (∀ j < k, ¬ Hopeless K (ts.take (j + 1))) →
      ∃ expected, Program.ofTokens (K := K) ts = .error (.unexpected expected t.kind t.span) ∧
        ∀ us, Tidy K us → ts.take (k + 1) <+: us →
          Program.ofTokens (K := K) us = Program.ofTokens ts) ∧
    (Program.ofTokens (K := K) ts = .error .endOfInput ↔
      ¬ Accepted K ts ∧ ∃ us, Tidy K us ∧ ts.dropLast <+: us ∧ Accepted K us) := by
  have hrejected : ∀ {e}, Program.ofTokens (K := K) ts = .error e → ¬ Accepted K ts := by
    rintro e he ⟨p, hp⟩
    rw [he] at hp
    cases hp
  refine ⟨⟨fun ⟨p, hp⟩ => ⟨p, isProgram_of_ofTokens h hp⟩,
    fun ⟨p, hp⟩ => ⟨p, hp.ofTokens_eq h.valid⟩⟩, ?_⟩
  cases verdict h with
  | read hnone hout hext =>
    refine ⟨⟨?_, fun ⟨k, hk, hless⟩ => absurd hless (hnone k hk)⟩,
      fun k t hk _ hless _ => absurd hless (hnone k hk),
      fun he => ⟨hrejected he, hext⟩, fun ⟨hnot, _⟩ => hout.resolve_left hnot⟩
    rintro ⟨expected, found, span, he⟩
    have hend := hout.resolve_left (hrejected he)
    rw [he] at hend
    cases hend
  | @refused k t expected hk ht hless herror =>
    have hts := herror ts h (List.take_prefix _ _)
    refine ⟨⟨fun _ => ⟨k, hk, (hless k hk).mpr (Nat.le_refl k)⟩, fun _ => ⟨_, _, _, hts⟩⟩, ?_, ?_, ?_⟩
    · intro k' t' hk' ht' hless' hleast
      -- the least hopeless beginning ends with the refused token
      have hle : k ≤ k' := (hless k' hk').mp hless'
      have hge : ¬ k < k' := fun hlt => hleast k hlt ((hless k hk).mpr (Nat.le_refl k))
      obtain rfl : k' = k := by omega
      obtain rfl : t' = t := Option.some.inj (ht'.symm.trans ht)
      exact ⟨expected, hts, fun us hus hp => (herror us hus hp).trans hts.symm⟩
    · intro he
      rw [hts] at he
      cases he
    · rintro ⟨-, us, hus, hp, p, hok⟩
      have hdrop : ts.take (k + 1) <+: ts.dropLast := by
        rw [List.dropLast_eq_take]
        exact List.take_prefix_take_left (by omega)
      rw [herror us hus (hdrop.trans hp)] at hok
      cases hok

/-- A problem with an equals sign where its brace must follow. -/
def strayTokens : List Token :=
  [⟨.problem, ⟨0, 7⟩, "problem"⟩, ⟨.name, ⟨8, 9⟩, "p"⟩, ⟨.eq, ⟨10, 11⟩, "="⟩,
    ⟨.number, ⟨12, 13⟩, "1"⟩, .endAt 13]

/-- The sign `=` stands where the brace of the problem must. -/
theorem rejected_at_first_hopeless_stray :
    Tidy Rat strayTokens ∧
      Program.ofTokens (K := Rat) strayTokens =
        .error (.unexpected (.kind .openBrace) .eq ⟨10, 11⟩) ∧
      ∃ k, k + 1 < strayTokens.length ∧ Hopeless Rat (strayTokens.take (k + 1)) := by
  have htidy : Tidy Rat strayTokens := by
    refine ⟨⟨strayTokens.dropLast, .endAt 13, rfl, rfl, by decide⟩, ?_⟩
    unfold Token.Valid
    decide
  have herror : Program.ofTokens (K := Rat) strayTokens =
      .error (.unexpected (.kind .openBrace) .eq ⟨10, 11⟩) := rfl
  exact ⟨htidy, herror, (rejected_at_first_hopeless htidy).2.1.mp ⟨_, _, _, herror⟩⟩

end CornerPoint.Source
