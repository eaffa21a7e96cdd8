import CornerPoint.Proofs.Descent.Parser

/-!
# Two readers side by side

The reader that takes one token at a time has no cursor, and the calls that have one know nothing of
that reader. They are compared at cursors: `c.run ps phase` is what the reader makes of the tokens
from `c` on when it has come as far as `phase`. This outcome is what stays the same: a call is
followed by the reader when the outcome from where the call begins is the outcome from where it
ends, or the error that the call returns.

Here this is done for what all calls are made of: passing over blanks, expecting a token, repeating
a call, and looking for the end of a line.
-/

namespace CornerPoint.Source

open Reader hiding start run step

namespace Cursor

variable {K : Type} [Scalar K] {lines : Bool} {c c' : Cursor} {t : Token}

/-! ## Tokens that have been passed -/

/-- The tokens between two cursors. -/
def between (c c' : Cursor) : List Token := (c.tokens.drop c.pos).take (c'.pos - c.pos)

/-- Where the token in front of the cursor ends. -/
def stop (c : Cursor) : Nat := stopAfter 0 (c.tokens.take c.pos)

/-- Behind a token, the end of what has been passed is its end. -/
theorem stop_advance (h : c.current? = some t) : c.advance.stop = t.span.stop := by
  have htake : c.tokens.take c.advance.pos = c.tokens.take c.pos ++ [t] := by
    rw [advance, List.take_add_one, show c.tokens[c.pos]? = some t from h]
    rfl
  change stopAfter 0 (c.tokens.take c.advance.pos) = _
  rw [htake, stopAfter_append]
  rfl

/-- What is left at `c` is what lies on the way to `c'` and what is left there. -/
theorem Moves.drop_eq (h : Moves lines c c') :
    c.tokens.drop c.pos = between c c' ++ c'.tokens.drop c'.pos := by
  rw [between, h.tokens, show c'.pos = c.pos + (c'.pos - c.pos) by have := h.le; omega,
    ← List.drop_drop, Nat.add_sub_cancel_left, List.take_append_drop]

/-- Where nothing has been passed the token at the cursor is the same. -/
theorem Moves.current_eq (h : Moves lines c c') (hnil : between c c' = []) :
    c'.current? = c.current? := by
  have hdrop := h.drop_eq
  rw [hnil, List.nil_append] at hdrop
  rw [current?, current?, ← List.head?_drop, ← List.head?_drop, hdrop]

/-- A cursor stops where the last token on the way did. -/
theorem Moves.stop_eq (h : Moves lines c c') : c'.stop = stopAfter c.stop (between c c') := by
  rw [stop, stop, h.tokens, between, ← stopAfter_append, ← List.take_add,
    Nat.add_sub_cancel' h.le]

/-- The lists of variables that begin between two cursors. -/
theorem Moves.lists_eq (h : Moves lines c c') :
    c'.lists = c.lists + listCount (between c c') := by
  rw [lists, lists, h.tokens, between, listCount, listCount, listCount, ← List.countP_append,
    ← List.take_add, Nat.add_sub_cancel' h.le]

/-- A cursor at the next end has passed all tokens in front of it. -/
theorem Moves.between_eq_ahead (h : Moves lines c c') (hend : c'.kind = .endOfInput) :
    between c c' = c.ahead := by
  have hleft : c'.left = 0 := by
    rw [left, ahead, List.length_eq_zero_iff]
    cases ht : c'.current? with
    | none => rw [drop_pos_of_none ht, List.takeWhile_nil]
    | some t =>
      rw [drop_pos ht, List.takeWhile_cons, if_neg]
      simpa using (kind_of_current ht).symm.trans hend
  have hlength : c'.pos - c.pos = c.ahead.length := by
    have hwithin := h.within
    rw [hleft] at hwithin
    exact Nat.sub_eq_of_eq_add' hwithin
  rw [between, hlength]
  exact (List.prefix_iff_eq_take.mp (List.takeWhile_prefix _)).symm

/-- A cursor that has gone on stands behind a token. -/
theorem Moves.lastStop_eq (h : Moves lines c c') (hlt : c.pos < c'.pos) (fallback : Nat) :
    c'.lastStop fallback = c'.stop := by
  have hlength : c'.pos ≤ c'.tokens.length := by
    have hwithin := h.within
    have hahead : c.left ≤ c.tokens.length - c.pos := by
      rw [left, ahead, ← List.length_drop]
      exact (List.takeWhile_sublist _).length_le
    rw [h.tokens]
    omega
  obtain ⟨n, hn⟩ := Nat.exists_eq_succ_of_ne_zero (Nat.ne_of_gt (Nat.zero_lt_of_lt hlt))
  have hget : c'.tokens[n]? = some c'.tokens[n] := List.getElem?_eq_getElem (by omega)
  rw [lastStop, stop, hn, List.take_add_one, Nat.succ_sub_one, hget, stopAfter_append]
  rfl

/-! ## Runs from a cursor -/

/-- What the reader makes of the tokens from the cursor on. -/
def run (c : Cursor) (ps : List (Problem K)) (phase : Phase K) : Except SyntaxError (Program K) :=
  (Reader.mk ps phase c.stop).run (c.tokens.drop c.pos)

section Runs

variable {ps ps' : List (Problem K)} {phase phase' : Phase K} {p q : Problem K}
  {place place' : Place K}

/-- A step of the reader is one token of the cursor. -/
theorem run_step (h : c.current? = some t) (ht : t.kind ≠ .endOfInput)
    (hstep : stepPhase ps c.stop phase t = .ok (ps', phase')) :
    c.run ps phase = c.advance.run ps' phase' := by
  rw [run, drop_pos h, Reader.run_cons (by simp only [Reader.step, hstep]; rfl) ht, run,
    stop_advance h]
  rfl

theorem run_error {e : SyntaxError} (h : c.current? = some t) (ht : t.kind ≠ .endOfInput)
    (hstep : stepPhase ps c.stop phase t = .error e) : c.run ps phase = .error e := by
  rw [run, drop_pos h, Reader.run, if_neg ht]
  simp only [Reader.step, hstep]

/-- At the end the reader stops. -/
theorem run_end (h : c.kind = .endOfInput) :
    c.run ps phase = (Reader.mk ps phase c.stop).finish := by
  rw [run]
  cases ht : c.current? with
  | none => rw [drop_pos_of_none ht, Reader.run]
  | some t => rw [drop_pos ht, Reader.run, if_pos ((kind_of_current ht).symm.trans h)]

/-- Two readers go on alike when they do the same with the next token. -/
theorem run_alike
    (h : ∀ t, c.current? = some t → t.kind ≠ .endOfInput →
      (Reader.mk ps phase c.stop).step t = (Reader.mk ps' phase' c.stop).step t)
    (hfinish : (Reader.mk ps phase c.stop).finish = (Reader.mk ps' phase' c.stop).finish) :
    c.run ps phase = c.run ps' phase' := by
  refine Reader.run_congr (fun t ht hend => h t ?_ hend) hfinish
  rwa [List.head?_drop] at ht

/-- What is unexpected at the cursor is rejected by the reader. -/
theorem run_refused {expected : Expectation}
    (hfinish : (Reader.mk ps phase c.stop).finish = .error .endOfInput)
    (h : ∀ t, c.current? = some t → t.kind ≠ .endOfInput →
      stepPhase ps c.stop phase t = t.refuse expected) :
    c.run ps phase = .error (c.unexpected expected) := by
  by_cases hend : c.kind = .endOfInput
  · rw [run_end hend, unexpected_of_end hend, hfinish]
  · obtain ⟨t, ht, hk⟩ := exists_current hend
    have hne : t.kind ≠ .endOfInput := hk ▸ hend
    rw [unexpected_of_current ht hne]
    exact run_error ht hne (h t ht hne)

theorem run_inside (h : c.current? = some t) (ht : t.kind ≠ .endOfInput)
    (hstep : stepInside p c.stop place t = .ok (q, some place')) :
    c.run ps (.inside p place) = c.advance.run ps (.inside q place') :=
  run_step h ht (by simp only [stepPhase, hstep])

/-- Where the reader refuses the token at the cursor, or there is none, the outcome is that it is
unexpected. -/
theorem run_inside_refused {expected : Expectation}
    (h : ∀ t, c.current? = some t → t.kind ≠ .endOfInput →
      stepInside p c.stop place t = t.refuse expected) :
    c.run ps (.inside p place) = .error (c.unexpected expected) :=
  run_refused rfl fun t ht hend => by simp only [stepPhase, h t ht hend, Token.refuse]

end Runs

/-! ## Passing over blanks -/

/-- From `c` the cursor passes over tokens of the kinds `p`, to where there are no more. -/
structure Skips (p : Token.Kind → Bool) (c c' : Cursor) : Prop where
  eq : c.skip p = some c'
  moves : Moves false c c'
  stops : p c'.kind = false
  passes : ∀ t ∈ between c c', p t.kind = true

theorem skip_of_stop {p : Token.Kind → Bool} (h : p c.kind = false) : c.skip p = some c := by
  rw [skip, if_neg (by simp [h])]

theorem Skips.eq_of_stop {p : Token.Kind → Bool} (h : Skips p c c') (hp : p c.kind = false) :
    c' = c := by
  have heq := h.eq
  rw [skip_of_stop hp] at heq
  exact (Option.some.inj heq).symm

/-- Blanks are neither the end nor the beginning of a list of variables. -/
def IsBlank (p : Token.Kind → Bool) : Prop := p .endOfInput = false ∧ p .vars = false

theorem IsBlank.mayPass {p : Token.Kind → Bool} (h : IsBlank p) {k : Token.Kind}
    (hk : p k = true) : MayPass lines k :=
  ⟨fun hend => by simp [hend, h.1] at hk, fun _ hvars => by simp [hvars, h.2] at hk⟩

theorem isBlank_isTrivia : IsBlank Token.Kind.isTrivia := ⟨rfl, rfl⟩

theorem isBlank_isBlankAt (depth : Nat) : IsBlank (isBlankAt depth) := ⟨rfl, rfl⟩

/-- Passing over tokens comes to an end, at the latest where the tokens do. -/
theorem exists_skips {p : Token.Kind → Bool} (hp : IsBlank p) (c : Cursor) :
    ∃ c', Skips p c c' := by
  induction hn : c.left generalizing c with
  | zero =>
    have hend : c.kind = .endOfInput := by
      by_contra hne
      rw [left_advance hne] at hn
      exact absurd hn (Nat.succ_ne_zero _)
    have hstop : p c.kind = false := hend ▸ hp.1
    exact ⟨c, skip_of_stop hstop, .refl c, hstop, by simp [between]⟩
  | succ n ih =>
    by_cases hpass : p c.kind = true
    -- a blank is a token, so one less is left
    · have hmay : MayPass false c.kind := hp.mayPass hpass
      obtain ⟨t, ht, hk⟩ := exists_current hmay.1
      rw [left_advance hmay.1] at hn
      obtain ⟨c', hskips⟩ := ih c.advance (Nat.succ.inj hn)
      refine ⟨c', ?_, (Moves.advance hmay).trans hskips.moves, hskips.stops, ?_⟩
      · rw [skip, if_pos hpass, hskips.eq]
      · have hle : c.pos + 1 ≤ c'.pos := hskips.moves.le
        have hcons : between c c' = t :: between c.advance c' := by
          rw [between, drop_pos ht, show c'.pos - c.pos = (c'.pos - (c.pos + 1)) + 1 by omega]
          rfl
        rw [hcons]
        exact List.forall_mem_cons.mpr ⟨hk ▸ hpass, hskips.passes⟩
    · have hstop := Bool.eq_false_iff.mpr hpass
      exact ⟨c, skip_of_stop hstop, .refl c, hstop, by simp [between]⟩

/-- A call behind blanks. -/
theorem Returns.skip {α : Type} {p : Token.Kind → Bool} (hp : IsBlank p)
    {f : Cursor → Option (Returned α)} {Q : α → Cursor → Prop} {E : SyntaxError → Prop}
    (h : ∀ c', Skips p c c' → Returns lines c' (f c') Q E) :
    Returns lines c (c.skip p >>= f) Q E := by
  obtain ⟨c', hskips⟩ := exists_skips hp c
  rw [hskips.eq, Option.bind_eq_bind, Option.bind_some]
  exact .behind hskips.moves.weaken (h c' hskips)

/-- A reader that does not care for line ends and comments passes over them. -/
theorem run_skipLines {ps : List (Problem K)} {phase : Phase K}
    (h : Idle (Reader.mk ps phase)) (hs : Skips Token.Kind.isTrivia c c') :
    c.run ps phase = c'.run ps phase := by
  have hblank : Blank true (between c c') := fun t ht =>
    (isTrivia_iff.mp (hs.passes t ht)).symm.imp_right fun hk => ⟨rfl, hk⟩
  rw [run, hs.moves.drop_eq, h.run_blank hblank c.stop c'.stop, run]

/-! ## Expecting a token -/

/-- A token is expected behind line ends and comments. -/
theorem expect_returns {kind : Token.Kind} (hkind : MayPass lines kind) (c : Cursor) :
    Returns lines c (c.expect kind)
      (fun t c' => ∃ c₁, Skips Token.Kind.isTrivia c c₁ ∧ c₁.current? = some t ∧ t.kind = kind ∧
        c' = c₁.advance)
      (fun e => ∃ c₁, Skips Token.Kind.isTrivia c c₁ ∧ c₁.kind ≠ kind ∧
        e = c₁.unexpected (.kind kind)) := by
  refine .skip isBlank_isTrivia fun c₁ hs => ?_
  cases ht : c₁.current? with
  | none =>
    have hne : c₁.kind ≠ kind := fun hk => hkind.1 (by rw [← hk, kind_eq, ht]; rfl)
    exact .error (.refl _) ⟨c₁, hs, hne, rfl⟩
  | some t =>
    have hk := kind_of_current ht
    simp only []
    split
    next heq => exact .ok (.advance (by rw [hk, heq]; exact hkind)) ⟨c₁, hs, ht, heq, rfl⟩
    next hne => exact .error (.refl _) ⟨c₁, hs, hk ▸ hne, rfl⟩

/-- The reader follows where it expects the same token. -/
theorem expect_follows {kind : Token.Kind} {ps : List (Problem K)} {phase : Phase K}
    (phase' : Token → Phase K) {outcome : Except SyntaxError (Program K)}
    (hkind : MayPass lines kind) (hidle : Idle (Reader.mk ps phase))
    (hfinish : ∀ last, (Reader.mk ps phase last).finish = .error .endOfInput)
    (hok : ∀ t last, t.kind = kind → stepPhase ps last phase t = .ok (ps, phase' t))
    (hwrong : ∀ t last, t.kind.isTrivia = false → t.kind ≠ kind →
      stepPhase ps last phase t = t.refuse (.kind kind))
    (h : c.run ps phase = outcome) :
    Returns lines c (c.expect kind)
      (fun t c' => c.pos < c'.pos ∧ t.kind = kind ∧ c'.run ps (phase' t) = outcome)
      (fun e => outcome = .error e) := by
  subst h
  refine (expect_returns hkind c).mono ?_ ?_
  · rintro t _ - ⟨c₁, hs, ht, hk, rfl⟩
    refine ⟨Nat.lt_succ_of_le hs.moves.le, hk, ?_⟩
    rw [run_skipLines hidle hs, run_step ht (hk ▸ hkind.1) (hok t _ hk)]
  -- line ends and comments are passed before the refusal, by both of them
  · rintro e ⟨c₁, hs, hne, rfl⟩
    rw [run_skipLines hidle hs]
    refine run_refused (hfinish _) fun t ht _ => hwrong t _ ?_ ?_
    · exact kind_of_current ht ▸ hs.stops
    · exact kind_of_current ht ▸ hne

/-- Where there are no blanks the token at the cursor is the one that counts. -/
theorem expect_here {kind : Token.Kind} (hkind : MayPass lines kind)
    (htrivia : c.kind.isTrivia = false) :
    Returns lines c (c.expect kind)
      (fun t c' => c.current? = some t ∧ t.kind = kind ∧ c' = c.advance)
      (fun e => c.kind ≠ kind ∧ e = c.unexpected (.kind kind)) := by
  refine (expect_returns hkind c).mono ?_ ?_
  · rintro t _ - ⟨c₁, hs, ht, hk, rfl⟩
    obtain rfl := hs.eq_of_stop htrivia
    exact ⟨ht, hk, rfl⟩
  · rintro e ⟨c₁, hs, hne, rfl⟩
    obtain rfl := hs.eq_of_stop htrivia
    exact ⟨hne, rfl⟩

/-- What is known to stand at the cursor is found there. -/
theorem expect_known {kind : Token.Kind} {E : SyntaxError → Prop} (hkind : MayPass lines kind)
    (htrivia : kind.isTrivia = false) (h : c.kind = kind) :
    Returns lines c (c.expect kind)
      (fun t c' => c.current? = some t ∧ t.kind = kind ∧ c' = c.advance) E :=
  (expect_here hkind (h ▸ htrivia)).mono (fun _ _ _ hQ => hQ) fun _ he => absurd h he.1

/-! ## Loops -/

/-- A loop whose body always consumes something comes to an end. `I` holds wherever it begins anew,
`J` wherever the body is called. -/
theorem loop_returns {σ : Type} {front : Cursor → Option Cursor} {more : Token.Kind → Bool}
    {body : σ → Cursor → Option (Returned σ)} {I J : σ → Cursor → Prop} {E : SyntaxError → Prop}
    (hfront : ∀ s c, I s c → ∃ c', front c = some c' ∧ Moves lines c c' ∧ J s c')
    (hbody : ∀ s c, J s c → more c.kind = true →
      Returns lines c (body s c) (fun s' c' => c.pos < c'.pos ∧ I s' c') E)
    (s : σ) (c : Cursor) (h : I s c) :
    Returns lines c (loop front more body s c) (fun s' c' => J s' c' ∧ more c'.kind = false) E := by
  induction hn : c.left using Nat.strong_induction_on generalizing s c with
  | h n ih =>
    obtain ⟨c₁, heq, hmoves, hJ⟩ := hfront s c h
    rw [loop, heq, Option.bind_eq_bind, Option.bind_some]
    refine .behind hmoves ?_
    by_cases hmore : more c₁.kind = true
    · rw [if_pos hmore]
      refine (hbody s c₁ hJ hmore).bind (fun s' c' hmoves' hnext => ?_) fun _ _ => rfl
      -- the front may stay where it is, the body may not
      have hlt : c'.left < n := hn ▸ Nat.lt_of_lt_of_le (hmoves'.left_lt hnext.1) hmoves.left_le
      exact ih c'.left hlt s' c' hnext.2 rfl
    · rw [if_neg hmore]
      exact .ok (.refl _) ⟨hJ, Bool.eq_false_iff.mpr hmore⟩

/-! ## The end of a line -/

/-- What may stand behind a declaration that takes up a line. -/
def EndsDeclaration (k : Token.Kind) : Prop := k = .newline ∨ k = .closeBrace ∨ k = .endOfInput

instance : DecidablePred EndsDeclaration := fun _ => inferInstanceAs (Decidable (_ ∨ _ ∨ _))

/-- Only blanks are passed in front of the end of a line, whether it is there or not. -/
theorem lineEnd_eq (hs : Skips (isBlankAt c.depth) c.checked c') :
    c.lineEnd = some (if EndsDeclaration c'.kind then .ok () else .error (c'.unexpected .lineEnd),
      c') := by
  rw [lineEnd, skipBlanks, show c.checked.depth = c.depth from rfl, hs.eq, Option.bind_eq_bind,
    Option.bind_some]
  split
  next hk => rw [if_pos (.inl hk)]; rfl
  next hk => rw [if_pos (.inr (.inl hk))]; rfl
  next hk => rw [if_pos (.inr (.inr hk))]; rfl
  next h₁ h₂ h₃ =>
    rw [if_neg fun hends => hends.elim h₁ fun hends => hends.elim h₂ h₃]
    rfl

/-- The end of a line is logged once and comments are passed; then something that ends a declaration
must follow. -/
theorem lineEnd_returns (c : Cursor) :
    Returns true c c.lineEnd
      (fun _ c' => EndsDeclaration c'.kind ∧ Skips (isBlankAt c.depth) c.checked c')
      (fun e => ∃ c', ¬ EndsDeclaration c'.kind ∧ e = c'.unexpected .lineEnd ∧
        Skips (isBlankAt c.depth) c.checked c') := by
  obtain ⟨c', hs⟩ := exists_skips (isBlank_isBlankAt c.depth) c.checked
  -- the entry of the log is the only change
  have hchecked : Moves true c c.checked := {
    tokens := rfl
    le := Nat.le_refl _
    within := rfl
    depth := rfl
    checks := ⟨1, rfl⟩
    quiet := fun hlines => by cases hlines }
  have hmoves : Moves true c c' := hchecked.trans hs.moves.weaken
  rw [lineEnd_eq hs]
  by_cases hends : EndsDeclaration c'.kind
  · rw [if_pos hends]
    exact .ok hmoves ⟨hends, hs⟩
  · rw [if_neg hends]
    exact .error hmoves ⟨c', hends, rfl, hs⟩

section EndOfLine

variable {ps : List (Problem K)} {p : Problem K} {inside : Place K} {outside : Option (Place K)}

/-- From `inside`, where declarations take up a line each, a closing brace leads to `outside`. -/
def BraceLeads (inside : Place K) (outside : Option (Place K)) : Prop :=
  inside = .body ∧ outside = none ∨ inside = .block ∧ outside = some .body

/-- What stands behind a declaration that takes up a line, once it has been recorded. -/
theorem run_endLine {place : Place K} {q : Problem K}
    (hplace : BraceLeads inside outside)
    (h : ∀ t, c.current? = some t → stepInside p c.stop place t = endLine t q inside outside)
    (hends : EndsDeclaration c.kind) :
    c.run ps (.inside p place) = c.run ps (.inside q inside) := by
  refine run_alike (fun t ht hne => ?_) rfl
  rw [EndsDeclaration, kind_of_current ht] at hends
  have hstep : stepInside q c.stop inside t = endLine t q inside outside := by
    obtain hk | hk | hk := hends
    · obtain ⟨rfl, rfl⟩ | ⟨rfl, rfl⟩ := hplace <;> simp [stepInside, stepBody, endLine, hk]
    · obtain ⟨rfl, rfl⟩ | ⟨rfl, rfl⟩ := hplace <;> simp [stepInside, stepBody, endLine, hk]
    · exact absurd hk hne
  simp only [Reader.step, stepPhase, h t ht, hstep]

/-- The end of a line, outside all parentheses: behind comments there is a place where the
declaration only waits for it. -/
theorem lineEnd_follows {q : Nat → Problem K} {outcome : Except SyntaxError (Program K)}
    (hdepth : c.depth = 0)
    (hplace : BraceLeads inside outside)
    (h : ∀ c', c'.depth = 0 → Skips (isBlankAt 0) c.checked c' →
      ∃ place, c'.run ps (.inside p place) = outcome ∧
        ∀ t, c'.current? = some t →
          stepInside p c'.stop place t = endLine t (q c'.stop) inside outside) :
    Returns true c c.lineEnd (fun _ c' => c'.run ps (.inside (q c'.stop) inside) = outcome)
      (fun e => outcome = .error e) := by
  refine (lineEnd_returns c).mono ?_ ?_
  · rintro ⟨⟩ c' hmoves ⟨hends, hs⟩
    obtain ⟨place, hrun, hstep⟩ := h c' (hmoves.depth.trans hdepth) (hdepth ▸ hs)
    exact (run_endLine hplace hstep hends).symm.trans hrun
  -- neither an end of line nor a brace: both blame this token, and for the same reason
  · rintro e ⟨c', hends, rfl, hs⟩
    obtain ⟨place, hrun, hstep⟩ := h c' (hs.moves.depth.trans hdepth) (hdepth ▸ hs)
    refine hrun.symm.trans (run_inside_refused fun t ht hne => ?_)
    rw [EndsDeclaration, kind_of_current ht, not_or, not_or] at hends
    rw [hstep t ht, endLine]
    split
    next hk => exact absurd hk hends.1
    next hk => exact absurd hk hends.2.1
    next => rfl

end EndOfLine

end Cursor

end CornerPoint.Source
