import Mathlib
import CornerPoint.Proofs.Source.Acceptance
import CornerPoint.Proofs.Source.Relocation

/-!
# Comments mean nothing

The reader takes a comment by forgetting that the tokens around it touch. That matters to a
token only if it binds to what is right in front of it (`Place.Binds`): what a property is set
to, the comma behind a variable, the colon behind a label, and what a number multiplies. Every
other token is taken as if the comment were not there (`stepInside_comment`), so a run through a
comment succeeds exactly if the run without it does and the next token does not bind
(`run_comment`). Likewise a line end behind a line end changes nothing (`run_newlines`).

> `accepted_withoutComments`: a text stays a text, with the same tree, when its comments are
> taken away and when its blank lines are as well.

Trees are compared without their spans. A run does not depend on offsets, so the comparison is
made on tokens that all stand at offset 0 (`ofTokens_unspanned`).
-/

namespace CornerPoint.Source

open ExprReader hiding step start
open Reader

variable {K : Type}

/-! ## Without spans -/

/-- The program without its spans. -/
def Program.unspanned (p : Program K) : Program K := p.relocate fun _ => 0

/-- The token without its span. -/
def Token.unspanned (t : Token) : Token := t.relocate fun _ => 0

/-- The tokens `ts` spell out the program `p`, up to spans. -/
def Program.SpelledBy [Scalar K] (p : Program K) (ts : List Token) : Prop :=
  ∃ q, Program.ofTokens ts = .ok q ∧ q.unspanned = p.unspanned

/-- What tokens spell out without spans is what they spell out at offset 0. -/
theorem ofTokens_unspanned [Scalar K] {ts : List Token} {p : Program K} :
    Program.ofTokens (ts.map Token.unspanned) = .ok p ↔
      ∃ q, Program.ofTokens ts = .ok q ∧ q.unspanned = p := by
  have hrun : Program.ofTokens (ts.map Token.unspanned) =
      SyntaxError.relocated (fun _ => 0) (Program.unspanned (K := K)) (Program.ofTokens ts) :=
    run_relocate monotone_const Reader.start ts
  rw [hrun]
  cases Program.ofTokens (K := K) ts with
  | ok q => simp [SyntaxError.relocated]
  | error e => simp [SyntaxError.relocated]

/-! ## One comment -/

/-- A token of the kind `k` binds to the token in front of it. -/
def Place.Binds : Place K → Token.Kind → Prop
  | .property _ _ _, _ => True
  | .afterVariable _ _ comma, k => comma = true ∧ k = .comma
  | .labelOrOperand _, k => k = .colon
  | .expr _ (.number _ _ _), k => k = .name ∨ k = .openParen
  | _, _ => False

/-- The next token, if it is of the kind `k`, binds to the one that has just been read. -/
def Reader.Binds (r : Reader K) (k : Token.Kind) : Prop :=
  match r.phase with
  | .inside _ place => place.Binds k
  | _ => False

section Comment

variable [Scalar K] {p : Problem K} {last : Nat} {c : Token}

/-- What a reader at `place` makes of the comment `c`. -/
inductive TakesComment (p : Problem K) (last : Nat) (place : Place K) (c : Token) : Prop
  /-- The comment is refused where every token binds. -/
  | refused {e} (error : stepInside p last place c = .error e) (binds : ∀ k, place.Binds k)
  /-- The comment is passed over: only tokens that bind can tell. -/
  | passed (place' : Place K) (ok : stepInside p last place c = .ok (p, some place'))
      (other : ∀ t : Token, ¬ place.Binds t.kind →
        stepInside p last place' t = stepInside p last place t)
      (binding : ∀ t : Token, place.Binds t.kind → ∃ e, stepInside p last place' t = .error e)

/-- A reader that stays where it is passes over the comment. -/
theorem TakesComment.stays {place : Place K} (h : stepInside p last place c = .ok (p, some place))
    (hbinds : ∀ k, ¬ place.Binds k) : TakesComment p last place c :=
  .passed place h (fun _ _ => rfl) fun t ht => absurd ht (hbinds t.kind)

/-- What neither goes on with a complete operand nor ends the expression. -/
def Token.Kind.isForeign (k : Token.Kind) : Bool :=
  k = .name || k = .openParen || k = .colon || k = .comma || k = .string

/-- Behind a complete operand such a token is refused. -/
theorem stepExpr_operator_refused {purpose : Purpose K} {sum : Awaiting K} {term : Expr K}
    {outer : List (Outer K)} {t : Token} (ht : t.kind.isForeign = true) :
    ∃ e, stepExpr p last purpose (.operator sum term outer) t = .error e := by
  have hkinds : t.kind = .name ∨ t.kind = .openParen ∨ t.kind = .colon ∨ t.kind = .comma ∨
      t.kind = .string := by
    simpa [Token.Kind.isForeign, or_assoc] using ht
  cases outer with
  | cons o outer =>
    obtain hk | hk | hk | hk | hk := hkinds <;>
      simp [stepExpr, ExprReader.step, stepOperator, hk, Token.refuse]
  | nil =>
    cases purpose <;> obtain hk | hk | hk | hk | hk := hkinds <;>
      simp [stepExpr, ExprReader.step, stepOperator, stepAfterExpr, endLine, hk, Token.refuse]

/-- A comment in an expression. -/
theorem takesComment_expr (hc : c.kind = .comment) (purpose : Purpose K) (r : ExprReader K) :
    TakesComment p last (.expr purpose r) c := by
  have hblank : ∀ lines, Blank lines [c] := fun _ => blank_singleton.mpr (.inl hc)
  cases r with
  | operand pending outer =>
    refine .stays ?_ fun _ h => h
    simp [stepInside, stepExpr, ExprReader.step, stepOperand_blank (hblank _)]
  | operator sum term outer =>
    refine .stays ?_ fun _ h => h
    simp [stepInside, stepExpr, ExprReader.step, stepOperator_blank (hblank _)]
  | number value pending outer =>
    -- the number becomes an operand like any other
    refine .passed (.expr purpose (.operator pending.sum (pending.term (.number value)) outer))
      ?_ ?_ ?_
    · simp [stepInside, stepExpr, ExprReader.step, hc, stepOperator_blank (hblank _)]
    · intro t ht
      obtain ⟨hname, hparen⟩ := not_or.mp ht
      simp only [stepInside, stepExpr, ExprReader.step]
    · rintro t (ht | ht)
      · exact stepExpr_operator_refused (by rw [ht]; rfl)
      · exact stepExpr_operator_refused (by rw [ht]; rfl)

/-- **A comment is passed over**, and only tokens that bind can tell. -/
theorem takesComment (hc : c.kind = .comment) (p : Problem K) (last : Nat) (place : Place K) :
    TakesComment p last place c := by
  have htrivia : c.kind.isTrivia = true := isTrivia_iff.mpr (.inr hc)
  cases place with
  | body => exact .stays (by simp [stepInside, stepBody, hc]) fun _ h => h
  | varName => exact .stays (by simp [stepInside, htrivia]) fun _ h => h
  | blockBrace => exact .stays (by simp [stepInside, htrivia]) fun _ h => h
  | block => exact .stays (by simp [stepInside, hc]) fun _ h => h
  | property start name colon =>
    refine .refused (e := .unexpected .value c.kind c.span) ?_ fun _ => trivial
    simp [stepInside, stepProperty, hc, Token.refuse]
  -- a comma must follow its name directly; any other token may come behind the comment
  | afterVariable start names comma =>
    refine .passed (.afterVariable start names false) ?_ ?_ ?_
    · simp [stepInside, stepAfterVariable, hc]
    · intro t ht
      have hcomma : t.kind = .comma → comma = false := fun hk =>
        Bool.eq_false_iff.mpr fun h => ht ⟨h, hk⟩
      simp only [stepInside, stepAfterVariable]
      split
      next hk => simp [hcomma hk]
      all_goals rfl
    · rintro t ⟨-, ht⟩
      simp [stepInside, stepAfterVariable, ht, Token.refuse]
  -- a colon must follow the name directly; without one the name is a variable
  | labelOrOperand name =>
    refine .passed (.expr (.left name.span.start none)
      (ExprReader.afterOperand .start (.var name.span name.text) [])) ?_ ?_ ?_
    · simp [stepInside, stepExpr, ExprReader.afterOperand, ExprReader.step, stepOperator, hc]
    · intro t ht
      have hcolon : t.kind ≠ .colon := ht
      simp only [stepInside, if_neg hcolon]
    · intro t ht
      have hcolon : t.kind = .colon := ht
      exact stepExpr_operator_refused (by rw [hcolon]; rfl)
  | expr purpose r => exact takesComment_expr hc purpose r

/-- What a reader makes of a comment that ends where the last token did. -/
theorem step_comment (hc : c.kind = .comment) (r : Reader K) (hlast : c.span.stop = r.last) :
    ((∃ e, r.step c = .error e) ∧ ∀ k, r.Binds k) ∨
      ∃ s, r.step c = .ok s ∧ s.finish = r.finish ∧
        (∀ t : Token, ¬ r.Binds t.kind → s.step t = r.step t) ∧
        ∀ t : Token, r.Binds t.kind → ∃ e, s.step t = .error e := by
  obtain ⟨ps, phase, last⟩ := r
  have htrivia : c.kind.isTrivia = true := isTrivia_iff.mpr (.inr hc)
  cases phase with
  | outside | name | brace =>
    refine .inr ⟨_, ?_, rfl, fun _ _ => rfl, fun _ h => h.elim⟩
    simp [Reader.step, stepPhase, htrivia, hlast]
  | inside p place =>
    -- either the comment is refused, and then everything binds here, or it is passed
    cases takesComment hc p last place with
    | @refused e herror hbinds =>
      exact .inl ⟨⟨e, by simp [Reader.step, stepPhase, herror]⟩, hbinds⟩
    | passed place' hok hother hbinding =>
      refine .inr ⟨within ps p place' last, ?_, rfl, fun t ht => ?_, fun t ht => ?_⟩
      · simp [Reader.step, stepPhase, hok, hlast]
      · simp only [Reader.step, stepPhase, hother t ht]
      · obtain ⟨e, he⟩ := hbinding t ht
        exact ⟨e, by simp [Reader.step, stepPhase, he]⟩

omit [Scalar K] in
/-- A reader that awaits what binds has not come to an end. -/
theorem Reader.Binds.finish_ne {r : Reader K} {k : Token.Kind} (h : r.Binds k) (p : Program K) :
    r.finish ≠ .ok p := by
  obtain ⟨ps, phase, last⟩ := r
  cases phase with
  | outside | name | brace => exact h.elim
  | inside q place => intro h; cases h

/-- **A run through a comment** succeeds exactly if the run without the comment does and the
token behind it does not bind. -/
theorem run_comment (hc : c.kind = .comment) (r : Reader K) (hlast : c.span.stop = r.last)
    (ts : List Token) (p : Program K) : r.run (c :: ts) = .ok p ↔
      r.run ts = .ok p ∧ ∀ t ∈ ts.head?, ¬ r.Binds t.kind := by
  have hend : c.kind ≠ .endOfInput := by simp [hc]
  obtain ⟨⟨e, he⟩, hbinds⟩ | ⟨s, hs, hfinish, hother, hbinding⟩ := step_comment hc r hlast
  -- where a comment is refused every token binds, and the text cannot end either
  · have hrun : r.run (c :: ts) = .error e := by rw [run, if_neg hend, he]
    rw [hrun]
    refine iff_of_false (by simp) fun h => ?_
    obtain ⟨hok, ht⟩ := h
    cases ts with
    | nil => exact (hbinds .name).finish_ne p hok
    | cons t ts => exact ht t rfl (hbinds t.kind)
  · rw [run_cons hs hend]
    by_cases ht : ∀ t ∈ ts.head?, ¬ r.Binds t.kind
    -- the token behind the comment does not bind, so both runs go on alike
    · rw [run_congr (fun t hmem _ => hother t (ht t hmem)) hfinish, and_iff_left ht]
    · refine iff_of_false (fun hok => ht fun t hmem hbind => ?_) fun h => ht h.2
      obtain ⟨ts, rfl⟩ : ∃ us, ts = t :: us := List.head?_eq_some_iff.mp hmem
      obtain ⟨e, he⟩ := hbinding t hbind
      rw [run, he, hfinish] at hok
      split at hok
      · exact hbind.finish_ne p hok
      · cases hok

end Comment

/-! ## Line ends in a row -/

section Newlines

variable [Scalar K] {p q : Problem K} {n m : Token} {last : Nat}

/-- A line end inside parentheses leaves the reader where a second one does. -/
theorem ExprReader.step_newlines {r s : ExprReader K} (hn : n.kind = .newline)
    (hm : m.kind = .newline) (h : r.step n = .more s) : s.step m = .more s := by
  have hblank : ∀ {lines}, Blank lines [n] → Blank lines [m] := fun hlines => by
    simpa [blank_singleton, hn, hm] using hlines
  -- only as a blank is a line end taken, and then the place stays the same
  have hoperator : ∀ {sum term outer}, stepOperator sum term outer n = .more s →
      s.step m = .more s := fun h => by
    obtain ⟨hb, rfl⟩ | ⟨op, hop, -⟩ | ⟨op, hop, -⟩ | ⟨o, os, -, hk, -⟩ := stepOperator_more h
    · exact stepOperator_blank (hblank hb)
    · simp [hn, Token.Kind.multiplicative?] at hop
    · simp [hn, Token.Kind.additive?] at hop
    · simp [hn] at hk
  cases r with
  | operand pending outer =>
    obtain ⟨hb, rfl⟩ | ⟨hk, -⟩ | ⟨hk, -⟩ | ⟨hk, -⟩ | ⟨hk, -⟩ | ⟨hk, -⟩ := stepOperand_more h
    · exact stepOperand_blank (hblank hb)
    all_goals simp [hn] at hk
  | number value pending outer =>
    simp only [ExprReader.step, hn] at h
    exact hoperator h
  | operator sum term outer => exact hoperator h

/-- At the place `place` a line end changes nothing. -/
def Rests (p : Problem K) (place : Place K) : Prop :=
  ∀ (t : Token) (last : Nat), t.kind = .newline → stepInside p last place t = .ok (p, some place)

theorem rests_body : Rests p .body := fun t last ht => by simp [stepInside, stepBody, ht]

theorem rests_block : Rests p .block := fun t last ht => by simp [stepInside, ht]

/-- A line end that is the end of a declaration. -/
theorem rests_endLine {inside : Place K} {outside : Option (Place K)}
    {out : Option (Place K)} (hn : n.kind = .newline) (hrests : Rests p inside)
    (h : endLine n p inside outside = .ok (q, out)) :
    ∃ place, out = some place ∧ Rests q place := by
  obtain ⟨-, hout⟩ | ⟨hk, -⟩ := endLine_ok h
  · cases hout
    exact ⟨inside, rfl, hrests⟩
  · simp [hn] at hk

/-- A line end in an expression, or behind it. -/
theorem rests_expr {purpose : Purpose K} {r : ExprReader K} {out : Option (Place K)}
    (hn : n.kind = .newline) (h : stepExpr p last purpose r n = .ok (q, out)) :
    ∃ place, out = some place ∧ Rests q place := by
  unfold stepExpr at h
  split at h
  next s hs =>
    cases h
    refine ⟨.expr purpose s, rfl, fun t last ht => ?_⟩
    simp only [stepInside, stepExpr, ExprReader.step_newlines hn ht hs]
  next e _ =>
    cases purpose with
    | objective => exact rests_endLine hn rests_body h
    | left => simp [stepAfterExpr, hn, Token.refuse] at h
    | right => exact rests_endLine hn rests_block h
  next => cases h
  next => cases h

/-- Behind a line end another one changes nothing. -/
theorem rests_newline {place : Place K} {out : Option (Place K)} (hn : n.kind = .newline)
    (h : stepInside p last place n = .ok (q, out)) :
    ∃ place', out = some place' ∧ Rests q place' := by
  have htrivia : n.kind.isTrivia = true := isTrivia_iff.mpr (.inl hn)
  cases place with
  | body =>
    simp only [stepInside, stepBody, hn] at h
    cases h
    exact ⟨.body, rfl, rests_body⟩
  | property => simp [stepInside, stepProperty, hn, Token.refuse] at h
  | varName start names =>
    simp only [stepInside, htrivia, if_true] at h
    cases h
    exact ⟨_, rfl, fun t last ht => by simp [stepInside, isTrivia_iff, ht]⟩
  -- the list has ended here, so the next line end finds no declaration open
  | afterVariable =>
    simp only [stepInside, stepAfterVariable, hn] at h
    exact rests_endLine hn rests_body h
  | blockBrace =>
    simp only [stepInside, htrivia, if_true] at h
    cases h
    exact ⟨_, rfl, fun t last ht => by simp [stepInside, isTrivia_iff, ht]⟩
  | block =>
    simp only [stepInside, hn] at h
    cases h
    exact ⟨.block, rfl, rests_block⟩
  | labelOrOperand =>
    simp only [stepInside, hn] at h
    exact rests_expr hn h
  | expr => exact rests_expr hn h

/-- **A line end behind a line end** that ends at the same offset can be left out. -/
theorem run_newlines (r : Reader K) (hn : n.kind = .newline) (hm : m.kind = .newline)
    (hstop : m.span.stop = n.span.stop) (ts : List Token) :
    r.run (n :: m :: ts) = r.run (n :: ts) := by
  have hend : n.kind ≠ .endOfInput ∧ m.kind ≠ .endOfInput := by simp [hn, hm]
  cases hs : r.step n with
  | error e => simp only [run, if_neg hend.1, hs]
  | ok s =>
    rw [run_cons hs hend.1, run_cons hs hend.1]
    refine run_cons ?_ hend.2 ts
    -- the reader behind the first line end takes the second one without a change
    obtain ⟨ps, phase, last⟩ := r
    have htrivia : ∀ {t : Token}, t.kind = .newline → t.kind.isTrivia = true := fun ht =>
      isTrivia_iff.mpr (.inl ht)
    cases phase with
    | outside | name | brace =>
      simp only [Reader.step, stepPhase, htrivia hn, if_true] at hs
      cases hs
      simp [Reader.step, stepPhase, htrivia hm, hstop]
    | inside p place =>
      simp only [Reader.step, stepPhase] at hs
      cases hout : stepInside p last place n with
      | error e => rw [hout] at hs; cases hs
      | ok x =>
        obtain ⟨q, out⟩ := x
        obtain ⟨place', rfl, hrests⟩ := rests_newline hn hout
        rw [hout] at hs
        cases hs
        rw [step_within (hrests m n.span.stop hm), hstop]

end Newlines

/-! ## All comments, all blank lines -/

/-- The tokens that are no comments. -/
def withoutComments (ts : List Token) : List Token := ts.filter (·.kind ≠ .comment)

/-- Of line ends in a row only the first one. -/
def withoutBlankLines (ts : List Token) : List Token :=
  ts.destutter fun t u => ¬(t.kind = .newline ∧ u.kind = .newline)

theorem map_withoutComments (f : Nat → Nat) (ts : List Token) :
    withoutComments (ts.map (Token.relocate f)) = (withoutComments ts).map (Token.relocate f) :=
  List.filter_map

theorem map_withoutBlankLines (f : Nat → Nat) (ts : List Token) :
    withoutBlankLines (ts.map (Token.relocate f)) =
      (withoutBlankLines ts).map (Token.relocate f) :=
  (List.map_destutter (f := Token.relocate f) fun _ _ _ _ => Iff.rfl).symm

section Lists

variable [Scalar K] {ts : List Token} {r s : Reader K} {t : Token} {p : Program K}

/-- A step ends where its token does. -/
theorem step_last (h : r.step t = .ok s) : s.last = t.span.stop := by
  have hadvance : r.advance [t] = .ok s := by simp only [advance, h]
  exact advance_last hadvance

/-- A run that succeeds also succeeds without the comments. -/
theorem run_withoutComments (hts : ∀ t ∈ ts, t.span.stop = 0) (hr : r.last = 0)
    (h : r.run ts = .ok p) : r.run (withoutComments ts) = .ok p := by
  induction ts generalizing r with
  | nil => exact h
  | cons t ts ih =>
    obtain ⟨ht, hts⟩ := List.forall_mem_cons.mp hts
    -- spans are all zero here, so passing a comment leaves no trace of where it ended
    by_cases hc : t.kind = .comment
    · rw [withoutComments, List.filter_cons_of_neg (by simp [hc])]
      exact ih hts hr ((run_comment hc r (ht.trans hr.symm) ts p).mp h).1
    · rw [withoutComments, List.filter_cons_of_pos (by simp [hc])]
      by_cases hend : t.kind = .endOfInput
      · rw [run, if_pos hend] at h ⊢
        exact h
      · rw [run, if_neg hend] at h ⊢
        cases hs : r.step t with
        | error e => rw [hs] at h; cases h
        | ok s =>
          rw [hs] at h
          exact ih hts ((step_last hs).trans ht) h

/-- A run does the same without the blank lines. -/
theorem run_withoutBlankLines (hts : ∀ t ∈ ts, t.span.stop = 0) :
    r.run (withoutBlankLines ts) = r.run ts := by
  cases ts with
  | nil => rfl
  | cons t ts =>
    -- `t` is the last token that has been kept, and the reader has still to read it
    rw [withoutBlankLines, List.destutter_cons']
    induction ts generalizing r t with
    | nil => rfl
    | cons u ts ih =>
      simp only [List.forall_mem_cons] at hts ih
      obtain ⟨ht, hu, hts⟩ := hts
      by_cases hlines : t.kind = .newline ∧ u.kind = .newline
      · rw [List.destutter'_cons_neg _ (not_not.mpr hlines), ih _ ⟨ht, hts⟩,
          run_newlines r hlines.1 hlines.2 (hu.trans ht.symm)]
      · rw [List.destutter'_cons_pos _ hlines]
        by_cases hend : t.kind = .endOfInput
        · rw [run, run, if_pos hend, if_pos hend]
        · cases hs : r.step t with
          | error e => rw [run, run, if_neg hend, if_neg hend, hs]
          | ok s => rw [run_cons hs hend, run_cons hs hend, ih _ ⟨hu, hts⟩]

/-- **Comments and blank lines never change the meaning of a text.** The tokens that spell out a
program spell it out, up to spans, without the comments, and without the blank lines as well. -/
theorem accepted_withoutComments (h : Program.ofTokens ts = .ok p) :
    p.SpelledBy (withoutComments ts) ∧ p.SpelledBy (withoutBlankLines (withoutComments ts)) := by
  have hzero : ∀ us : List Token, ∀ t ∈ us.map Token.unspanned, t.span.stop = 0 := fun us => by
    simp [Token.unspanned, Span.relocate]
  have hbare : Program.ofTokens (ts.map Token.unspanned) = .ok p.unspanned :=
    ofTokens_unspanned.mpr ⟨p, h, rfl⟩
  have hcomments : Program.ofTokens ((withoutComments ts).map Token.unspanned) =
      .ok p.unspanned := by
    have hrun := run_withoutComments (hzero ts) rfl hbare
    rwa [show withoutComments (ts.map Token.unspanned) = _ from map_withoutComments _ ts] at hrun
  refine ⟨ofTokens_unspanned.mp hcomments, ofTokens_unspanned.mp ?_⟩
  have hlines := map_withoutBlankLines (fun _ => 0) (withoutComments ts)
  rw [show (withoutBlankLines (withoutComments ts)).map Token.unspanned = _ from hlines.symm]
  exact (run_withoutBlankLines (hzero _)).trans hcomments

end Lists

/-- Comments in front of a problem, behind its brace, in parentheses and behind an objective. -/
def scattered : String :=
  "// a\n\n\nproblem p \x7b // b\nmax 2 (x // c\n\n + y) / 3 // d\n\x7d\n"

/-- The quotient that it maximizes. -/
def scatteredProgram : Program ℚ :=
  ⟨[.ofItems ⟨7, 55⟩ "p" [.objective ⟨⟨24, 53⟩, .maximize,
    .binary
      (.binary (.number 2) .mul (.paren (.binary (.var ⟨31, 32⟩ "x") .add (.var ⟨42, 43⟩ "y"))))
      .div (.number 3)⟩]]⟩

/-- Comments and blank lines wherever there may be some. -/
theorem accepted_withoutComments_scattered :
    Program.ofTokens (tokenize scattered) = .ok scatteredProgram ∧
      scatteredProgram.SpelledBy (withoutComments (tokenize scattered)) ∧
      scatteredProgram.SpelledBy (withoutBlankLines (withoutComments (tokenize scattered))) := by
  have hread : Program.ofTokens (tokenize scattered) = .ok scatteredProgram := by cbv
  exact ⟨hread, accepted_withoutComments hread⟩

end CornerPoint.Source
