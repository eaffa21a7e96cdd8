import CornerPoint.Proofs.Descent.Halting

/-!
# Both readers agree

The reader that takes one token at a time follows the calls that read declarations, outside all
parentheses and where the first token of the declaration stands. So it makes the same of every list
of tokens, whether that is a program or not.

The calls log every end of a line that they look for. Of a program the log is complete: it has one
entry for each list of variables, objective and constraint of the text, and no other.
-/

namespace CornerPoint.Source

open ExprReader hiding step start
open Reader hiding start run step

variable {K : Type} [Scalar K]

namespace Cursor

variable {lines : Bool} {c c' : Cursor} {t : Token} {ps : List (Problem K)} {p : Problem K}
  {outcome : Except SyntaxError (Program K)}

/-! ## Properties -/

/-- A token that is a value ends its property, for the reader as well. -/
theorem value_set {start : Nat} {name : String} {colon : Bool} {v : Value K}
    (ht : c.current? = some t) (hmay : MayPass lines t.kind)
    (hstep : stepInside p c.stop (.property start name colon) t =
      .ok (p.addProperty ⟨⟨start, t.span.stop⟩, name, v⟩, some .body))
    (h : c.run ps (.inside p (.property start name colon)) = outcome) :
    Returns lines c (some ((.ok v, c.advance) : Returned (Value K)))
      (fun v c' => c.pos < c'.pos ∧
        c'.run ps (.inside (p.addProperty ⟨⟨start, c'.stop⟩, name, v⟩) .body) = outcome)
      (fun e => outcome = .error e) := by
  refine .ok (.advance (kind_of_current ht ▸ hmay)) ⟨Nat.lt_succ_self _, ?_⟩
  rw [stop_advance ht]
  exact (run_inside ht hmay.1 hstep).symm.trans h

/-- Behind the name of a property, and a colon if there is one, a string, a number or a word must
follow. -/
theorem value_follows {start : Nat} {name : String} {colon : Bool}
    (hcolon : colon = false → c.kind ≠ .colon)
    (h : c.run ps (.inside p (.property start name colon)) = outcome) :
    Returns lines c (some (value c))
      (fun v c' => c.pos < c'.pos ∧
        c'.run ps (.inside (p.addProperty ⟨⟨start, c'.stop⟩, name, v⟩) .body) = outcome)
      (fun e => outcome = .error e) := by
  rw [value]
  split
  next hnone =>
    refine .error (.refl _) (h.symm.trans (run_inside_refused fun t ht _ => ?_))
    rw [hnone] at ht
    cases ht
  next t ht =>
    have hk : c.kind = t.kind := kind_of_current ht
    split
    next hstring =>
      exact value_set ht (by simp [MayPass, hstring]) (by simp [stepInside, stepProperty, hstring]) h
    next hnumber =>
      have hmay : MayPass lines t.kind := by simp [MayPass, hnumber]
      split
      next n hn => exact value_set ht hmay (by simp [stepInside, stepProperty, hnumber, hn]) h
      next hn =>
        refine .error (.advance (hk ▸ hmay)) (h.symm.trans (run_error ht hmay.1 ?_))
        simp [stepPhase, stepInside, stepProperty, hnumber, hn]
    next hname =>
      exact value_set ht (by simp [MayPass, hname]) (by simp [stepInside, stepProperty, hname]) h
    -- the colon must not come twice: `hcolon` says that none is left
    next hstring hnumber hname =>
      refine .error (.refl _) (h.symm.trans (run_inside_refused fun t' ht' _ => ?_))
      obtain rfl := Option.some.inj (ht.symm.trans ht')
      rw [hk] at hcolon
      change stepProperty p start name colon t = _
      unfold stepProperty
      cases colon <;> split <;> simp_all

/-- The reader takes one colon, and remembers it. -/
theorem pastColon_follows {start : Nat} {name : String}
    (h : c.run ps (.inside p (.property start name false)) = outcome) :
    ∃ colon, (colon = false → c.pastColon.kind ≠ .colon) ∧
      c.pastColon.run ps (.inside p (.property start name colon)) = outcome := by
  rw [pastColon]
  split
  next hcolon =>
    obtain ⟨t, ht, hk⟩ := exists_current (c := c) (by simp [hcolon])
    refine ⟨true, Bool.noConfusion, (run_inside ht ?_ ?_).symm.trans h⟩
    · simp [hk, hcolon]
    · simp [stepInside, stepProperty, hk, hcolon]
  next hcolon => exact ⟨false, fun _ => hcolon, h⟩

/-- A property that the reader adds is the one that the call returns. -/
theorem property_follows (hname : c.kind = .name) (h : c.run ps (.inside p .body) = outcome) :
    Returns true c (property c)
      (fun x c' => c'.run ps (.inside (p.addProperty x) .body) = outcome)
      (fun e => outcome = .error e) := by
  refine (expect_known (by decide) rfl hname).andThen fun name c₁ _ hname => ?_
  obtain ⟨ht, hk, rfl⟩ := hname
  have hfirst : c.advance.run ps (.inside p (.property name.span.start name.text false)) =
      outcome :=
    (run_inside ht (by simp [hk]) (by simp [stepInside, stepBody, hk])).symm.trans h
  obtain ⟨colon, hcolon, hrun⟩ := pastColon_follows hfirst
  refine .behind (pastColon_moves c.advance) ?_
  refine (value_follows hcolon hrun).andThen fun v c₂ hmoves hvalue => .ok (.refl _) ?_
  -- its span ends with the value, the last token that has been passed
  rw [hmoves.lastStop_eq hvalue.1]
  exact hvalue.2

/-! ## Lists of variables -/

/-- One name of a list of variables. -/
theorem varName_follows {start : Nat} {names : List String}
    (h : c.run ps (.inside p (.varName start names)) = outcome) :
    Returns lines c (c.expect .name)
      (fun t c' => c.pos < c'.pos ∧
        c'.run ps (.inside p (.afterVariable start (names ++ [t.text]) true)) = outcome)
      (fun e => outcome = .error e) := by
  refine (expect_follows (fun t => .inside p (.afterVariable start (names ++ [t.text]) true))
    (by simp [MayPass]) (idle_varName ps p start names) (fun _ => rfl) (fun t _ hk => ?_)
    (fun t _ htrivia hk => ?_) h).mono (fun _ _ _ hQ => ⟨hQ.1, hQ.2.2⟩) fun _ hE => hE
  · simp [stepPhase, stepInside, hk, Token.Kind.isTrivia]
  · simp [stepPhase, stepInside, htrivia, hk, Token.refuse]

/-- A comma and the name behind it. -/
theorem nextName_follows {start : Nat} {names : List String} (hcomma : c.kind = .comma)
    (h : c.run ps (.inside p (.afterVariable start names true)) = outcome) :
    Returns lines c (nextName names c)
      (fun names' c' => c.pos < c'.pos ∧
        c'.run ps (.inside p (.afterVariable start names' true)) = outcome)
      (fun e => outcome = .error e) := by
  obtain ⟨t, ht, hk⟩ := exists_current (c := c) (by simp [hcomma])
  have hnext : c.advance.run ps (.inside p (.varName start names)) = outcome :=
    (run_inside ht (by simp [hk, hcomma])
      (by simp [stepInside, stepAfterVariable, hk, hcomma])).symm.trans h
  exact .behind (.advance (by simp [MayPass, hcomma])) (.further (Nat.le_succ _)
    ((varName_follows hnext).andThen fun _ _ _ hQ => .ok (.refl _) hQ))

/-- Names are read as long as a comma follows the last one directly. -/
theorem moreNames_follows {start : Nat} {names : List String}
    (h : c.run ps (.inside p (.afterVariable start names true)) = outcome) :
    Returns lines c (loop some (· = .comma) nextName names c)
      (fun names' c' => c'.run ps (.inside p (.afterVariable start names' true)) = outcome ∧
        c'.kind ≠ .comma)
      (fun e => outcome = .error e) :=
  (loop_returns
    (I := fun names c => c.run ps (.inside p (.afterVariable start names true)) = outcome)
    (J := fun names c => c.run ps (.inside p (.afterVariable start names true)) = outcome)
    (fun _ c hI => ⟨c, rfl, .refl c, hI⟩)
    (fun _ _ hJ hmore => nextName_follows (of_decide_eq_true hmore) hJ) names c h).mono
    (fun _ _ _ hQ => hQ.imp_right of_decide_eq_false) fun _ hE => hE

/-- Behind a comment no comma may follow any more. -/
theorem run_comments (ps : List (Problem K)) (p : Problem K) {g : List Token} (hg : Blank false g)
    (start last : Nat) (names : List String) (comma : Bool) (rest : List Token) :
    (within ps p (.afterVariable start names comma) last).run (g ++ rest) =
      (within ps p (.afterVariable start names (comma && g.isEmpty)) (stopAfter last g)).run
        rest := by
  induction g generalizing last comma with
  | nil => simp [stopAfter]
  | cons t g ih =>
    obtain ⟨ht, hg⟩ := blank_cons.mp hg
    have hk : t.kind = .comment := by simpa [blank_singleton] using ht
    have hstep : stepInside p last (.afterVariable start names comma) t =
        .ok (p, some (.afterVariable start names false)) := by
      simp [stepInside, stepAfterVariable, hk]
    rw [List.cons_append, run_within hstep (by simp [hk]), ih hg, stopAfter]
    simp

/-- The end of a list of variables: the last name has no comma behind it. -/
theorem afterVariable_follows {start : Nat} {names : List String} (hdepth : c.depth = 0)
    (hcomma : c.kind ≠ .comma)
    (h : c.run ps (.inside p (.afterVariable start names true)) = outcome) :
    Returns true c c.lineEnd
      (fun _ c' => c'.run ps (.inside (p.setVariables ⟨⟨start, c'.stop⟩, names⟩) .body) = outcome)
      (fun e => outcome = .error e) := by
  refine lineEnd_follows (p := p) (q := fun stop => p.setVariables ⟨⟨start, stop⟩, names⟩) hdepth
    (.inl ⟨rfl, rfl⟩) fun c' _ hs => ?_
  have hg : Blank (inside ([] : List (Outer K))) (between c.checked c') :=
    blank_between hdepth (hdepth ▸ hs)
  refine ⟨.afterVariable start names (between c.checked c').isEmpty, ?_, fun t ht => ?_⟩
  · have hrun := run_comments ps p hg start c.checked.stop names true
      (c'.tokens.drop c'.pos)
    rw [← hs.moves.drop_eq, ← hs.moves.stop_eq] at hrun
    exact hrun.symm.trans h
  · -- the list goes on behind every comma, so none stands at its end unless behind a comment
    have hk : c'.kind = t.kind := kind_of_current ht
    have hcomment : t.kind ≠ .comment := fun hcomment => by
      simpa [hk, hcomment, isBlankAt] using hs.stops
    have hnil : (between c.checked c').isEmpty = true → t.kind ≠ .comma := fun hnil => by
      have hcurrent : c'.current? = c.current? := hs.moves.current_eq (List.isEmpty_iff.mp hnil)
      rwa [← kind_of_current (hcurrent.symm.trans ht)]
    change stepAfterVariable p c'.stop start names _ t = _
    unfold stepAfterVariable
    split
    next hcomma =>
      rw [if_neg fun hempty => hnil hempty hcomma]
      simp [endLine, hcomma]
    next hk => exact absurd hk hcomment
    next => rfl

/-- A list of variables that the reader sets is the one that the call returns. -/
theorem varList_follows (hdepth : c.depth = 0) (hvars : c.kind = .vars)
    (h : c.run ps (.inside p .body) = outcome) :
    Returns true c (varList c)
      (fun x c' => c'.run ps (.inside (p.setVariables x) .body) = outcome)
      (fun e => outcome = .error e) := by
  refine (expect_known (by decide) rfl hvars).andThen fun word c₁ hmoves₁ hword => ?_
  obtain ⟨ht, hk, rfl⟩ := hword
  have hfirst : c.advance.run ps (.inside p (.varName word.span.start [])) = outcome :=
    (run_inside ht (by simp [hk]) (by simp [stepInside, stepBody, hk])).symm.trans h
  refine (varName_follows hfirst).andThen fun name c₂ hmoves₂ hname => ?_
  refine (moreNames_follows hname.2).andThen fun names c₃ hmoves₃ hnames => ?_
  have hmoves : Moves true c.advance c₃ := hmoves₂.trans hmoves₃
  refine (afterVariable_follows (hmoves.depth.trans hdepth) hnames.2 hnames.1).andThen
    fun _ c₄ hmoves₄ hrun => .ok (.refl _) ?_
  -- its span ends where the comments behind it do
  rw [(hmoves.trans hmoves₄).lastStop_eq]
  · exact hrun
  · exact Nat.lt_of_lt_of_le hname.1 (hmoves₃.trans hmoves₄).le

/-! ## Objectives and constraints -/

/-- A sum that is complete outside all parentheses is what the next token is taken for. -/
theorem Complete.stepInside_eq {x : Context K} {e : Expr K} (h : Complete x [] e outcome c)
    (hdepth : c.depth = 0) :
    ∃ r, c.run x.problems (.inside x.problem (.expr x.purpose r)) = outcome ∧
      ∀ t, c.current? = some t →
        stepInside x.problem c.stop (.expr x.purpose r) t =
          stepAfterExpr x.problem c.stop x.purpose e t := by
  obtain ⟨sum, term, rfl, hreads⟩ := h.reads
  refine ⟨.operator sum term [], hreads, fun t ht => ?_⟩
  have hk : c.kind = t.kind := kind_of_current ht
  have hstep : (ExprReader.operator sum term []).step t = .ended (sum.apply term) :=
    stepOperator_complete (hk ▸ hdepth ▸ h.blank) (hk ▸ h.multiplicative) (hk ▸ h.additive)
  simp only [stepInside, stepExpr, hstep]

/-- An expression with which a declaration ends. -/
theorem Complete.lineEnd_follows {x : Context K} {e : Expr K} {q : Nat → Problem K}
    {inside : Place K} {outside : Option (Place K)} (h : Complete x [] e outcome c)
    (hdepth : c.depth = 0) (hplace : BraceLeads inside outside)
    (hq : ∀ t last,
      stepAfterExpr x.problem last x.purpose e t = endLine t (q last) inside outside) :
    Returns true c c.lineEnd
      (fun _ c' => c'.run x.problems (.inside (q c'.stop) inside) = outcome)
      (fun e => outcome = .error e) := by
  refine Cursor.lineEnd_follows (p := x.problem) hdepth hplace fun c' _ hs => ?_
  obtain rfl : c' = c.checked := hs.eq_of_stop (hdepth ▸ h.blank)
  obtain ⟨r, hrun, hstep⟩ := h.stepInside_eq hdepth
  exact ⟨_, hrun, fun t ht => (hstep t ht).trans (hq t _)⟩

theorem stepInside_sense {sense : Sense} (h : t.kind.sense? = some sense) (last : Nat) :
    stepInside p last .body t =
      .ok (p, some (.expr (.objective t.span.start sense) .start)) := by
  unfold Token.Kind.sense? at h
  split at h <;> simp_all [stepInside, stepBody]

/-- An objective that the reader adds is the one that the call returns. -/
theorem objective_follows {sense : Sense} (hdepth : c.depth = 0)
    (hsense : c.kind.sense? = some sense) (h : c.run ps (.inside p .body) = outcome) :
    Returns true c (objective c)
      (fun x c' => c'.run ps (.inside (p.addObjective x) .body) = outcome)
      (fun e => outcome = .error e) := by
  have htrivia : c.kind.isTrivia = false := by
    unfold Token.Kind.sense? at hsense
    split at hsense <;> simp_all [Token.Kind.isTrivia]
  have hmay : MayPass true c.kind := .of_eq_some rfl rfl hsense
  obtain ⟨t, ht, hk⟩ := exists_current hmay.1
  rw [objective, skipLines, skip_of_stop htrivia, Option.bind_eq_bind, Option.bind_some]
  -- the word has been seen before the call, so nothing is passed in front of it
  simp only [hsense, firstSpan, ht, Option.map_some, Option.getD_some]
  have hfirst := (run_inside ht (hk ▸ hmay.1) (stepInside_sense (hk ▸ hsense) _)).symm.trans h
  refine .behind (.advance hmay) ?_
  refine (sum_returns c.advance ⟨ps, p, .objective t.span.start sense⟩ [] outcome hdepth
    hfirst).weaken.andThen fun e c₁ hmoves hsum => ?_
  refine (hsum.2.lineEnd_follows (q := fun stop => p.addObjective ⟨⟨t.span.start, stop⟩, sense, e⟩)
    (hmoves.depth.trans hdepth) (.inl ⟨rfl, rfl⟩) fun _ _ => rfl).andThen
    fun _ c₂ hmoves₂ hrun => .ok (.refl _) ?_
  rw [(hmoves.trans hmoves₂).lastStop_eq (Nat.lt_of_lt_of_le hsum.1 hmoves₂.le)]
  exact hrun

/-- A name at the beginning of a row is kept back until the token behind it has been seen. -/
theorem run_name (ht : c.current? = some t) (hname : t.kind = .name) :
    c.run ps (.inside p .block) = c.advance.run ps (.inside p (.labelOrOperand t)) :=
  run_inside ht (by simp [hname]) (by simp [stepInside, hname])

/-- A row without a label begins with its left-hand side. -/
theorem run_unlabelled (hclose : t.kind ≠ .closeBrace) (htrivia : t.kind.isTrivia = false)
    (ht : c.current? = some t) (hlabel : ¬ (t.kind = .name ∧ c.advance.kind = .colon)) :
    c.run ps (.inside p .block) = c.reads ⟨ps, p, .left t.span.start none⟩ .start := by
  by_cases hname : t.kind = .name
  · have hstep : (ExprReader.start : ExprReader K).step t =
        .more (afterOperand .start (.var t.span t.text) []) := by
      simp [ExprReader.start, ExprReader.step, stepOperand, hname]
    -- a name might be a label: the reader has kept it back, and now takes it for a variable
    rw [run_name ht hname, reads_more ht hstep, reads]
    refine run_alike (fun t' ht' _ => ?_) rfl
    have hcolon : t'.kind ≠ .colon := fun hcolon =>
      hlabel ⟨hname, (kind_of_current ht').trans hcolon⟩
    simp only [Reader.step, stepPhase, stepInside, if_neg hcolon]
  · rw [reads]
    refine run_alike (fun t' ht' _ => ?_) rfl
    obtain rfl := Option.some.inj (ht.symm.trans ht')
    have hstep : stepInside p c.stop .block t =
        stepInside p c.stop (.expr (.left t.span.start none) .start) t := by
      simp only [stepInside]
      split <;> simp_all [Token.Kind.isTrivia]
    simp only [Reader.step, stepPhase, hstep]

/-- A row begins with its label, or with its left-hand side. -/
theorem label_follows (hclose : c.kind ≠ .closeBrace) (htrivia : c.kind.isTrivia = false)
    (h : c.run ps (.inside p .block) = outcome) :
    (label c).2.reads (⟨ps, p, .left (firstSpan c).start (label c).1⟩ : Context K) .start =
      outcome := by
  subst h
  rw [label]
  split
  next hnone =>
    rw [reads]
    refine run_alike (fun t ht _ => ?_) rfl
    rw [hnone] at ht
    cases ht
  next t ht =>
    have hk : c.kind = t.kind := kind_of_current ht
    have hfirst : (firstSpan c).start = t.span.start := by simp [firstSpan, ht]
    rw [hfirst]
    split
    next hlabel =>
      -- a name and a colon: the reader has decided one token later
      obtain ⟨t', ht', hk'⟩ := exists_current (c := c.advance)
        (by simp [show c.advance.kind = .colon from hlabel.2])
      have hcolon : t'.kind = .colon := hk'.trans hlabel.2
      rw [run_name ht hlabel.1]
      exact (run_inside ht' (by simp [hcolon]) (by simp [stepInside, hcolon])).symm
    next hlabel => exact (run_unlabelled (hk ▸ hclose) (hk ▸ htrivia) ht hlabel).symm

omit [Scalar K] in
/-- Behind the left-hand side of a row, a relation begins the other side. -/
theorem stepAfterExpr_left {start last : Nat} {label : Option String} {e : Expr K}
    {relation : Relation} (h : t.kind.relation? = some relation) :
    stepAfterExpr p last (.left start label) e t =
      .ok (p, some (.expr (.right start label e relation) .start)) := by
  unfold Token.Kind.relation? at h
  split at h <;> simp_all [stepAfterExpr]

omit [Scalar K] in
theorem stepAfterExpr_left_refused {start last : Nat} {label : Option String} {e : Expr K}
    (h : t.kind.relation? = none) :
    stepAfterExpr p last (.left start label) e t = t.refuse .relation := by
  unfold Token.Kind.relation? at h
  split at h <;> simp_all [stepAfterExpr]

/-- A constraint from its left-hand side on, with the label and the place it began at. -/
theorem sides_follows {first : Span} {label : Option String} (hdepth : c.depth = 0)
    (h : c.reads ⟨ps, p, .left first.start label⟩ .start = outcome) :
    Returns true c (sides first label c)
      (fun x c' => c'.run ps (.inside (p.addConstraint x) .block) = outcome)
      (fun e => outcome = .error e) := by
  refine (sum_returns c ⟨ps, p, .left first.start label⟩ [] outcome hdepth h).weaken.andThen
    fun lhs c₁ hmoves₁ hlhs => ?_
  have hdepth₁ : c₁.depth = 0 := hmoves₁.depth.trans hdepth
  -- outside all parentheses a complete sum leaves the relation to the declaration
  obtain ⟨r, hrun, hstep⟩ := hlhs.2.stepInside_eq hdepth₁
  rw [skipBlanks, skip_of_stop hlhs.2.blank, Option.bind_eq_bind, Option.bind_some]
  split
  next hnone =>
    refine .error (.refl _) (hrun.symm.trans (run_inside_refused fun t ht _ => ?_))
    rw [kind_of_current ht] at hnone
    exact (hstep t ht).trans (stepAfterExpr_left_refused hnone)
  next relation hrelation =>
    have hmay : MayPass true c₁.kind := .of_eq_some rfl rfl hrelation
    obtain ⟨t, ht, hk⟩ := exists_current hmay.1
    have hrhs := (run_inside ht (hk ▸ hmay.1) ((hstep t ht).trans
      (stepAfterExpr_left (hk ▸ hrelation)))).symm.trans hrun
    refine .behind (.advance hmay) ?_
    refine (sum_returns c₁.advance ⟨ps, p, .right first.start label lhs relation⟩ [] outcome
      hdepth₁ hrhs).weaken.andThen fun rhs c₂ hmoves₂ hrhs => ?_
    refine (hrhs.2.lineEnd_follows
      (q := fun stop => p.addConstraint ⟨⟨first.start, stop⟩, label, lhs, relation, rhs⟩)
      (hmoves₂.depth.trans hdepth₁) (.inr ⟨rfl, rfl⟩) fun _ _ => rfl).andThen
      fun _ c₃ hmoves₃ hrun => .ok (.refl _) ?_
    rw [(hmoves₂.trans hmoves₃).lastStop_eq (Nat.lt_of_lt_of_le hrhs.1 hmoves₃.le)]
    exact hrun

/-- A constraint that the reader adds is the one that the call returns. -/
theorem row_follows (hdepth : c.depth = 0) (hclose : c.kind ≠ .closeBrace)
    (htrivia : c.kind.isTrivia = false) (h : c.run ps (.inside p .block) = outcome) :
    Returns true c (row c)
      (fun x c' => c'.run ps (.inside (p.addConstraint x) .block) = outcome)
      (fun e => outcome = .error e) := by
  rw [row, skipLines, skip_of_stop htrivia, Option.bind_eq_bind, Option.bind_some]
  have hmoves : Moves true c (label c).2 := label_moves c
  exact .behind hmoves (sides_follows (hmoves.depth.trans hdepth)
    (label_follows hclose htrivia h))

/-! ## Blocks -/

/-- One more row: the rows read so far are in the problem already. -/
theorem nextRow_follows {rows : List (ConstraintLine K)} (hdepth : c.depth = 0)
    (hclose : c.kind ≠ .closeBrace) (htrivia : c.kind.isTrivia = false)
    (h : c.run ps (.inside (p.addRows rows) .block) = outcome) :
    Returns true c (nextRow rows c)
      (fun rows' c' => c'.run ps (.inside (p.addRows rows') .block) = outcome)
      (fun e => outcome = .error e) :=
  (row_follows hdepth hclose htrivia h).andThen fun x _ _ hrun => .ok (.refl _) <| by
    rwa [Problem.addRows_concat]

/-- A loop behind line ends and comments, outside all parentheses, that the reader follows. -/
theorem loop_follows {σ : Type} {more : Token.Kind → Bool} {body : σ → Cursor → Option (Returned σ)}
    {size : σ → Nat} (phases : σ → List (Problem K) × Phase K)
    (hidle : ∀ s, Idle (Reader.mk (phases s).1 (phases s).2))
    (hgrows : ∀ s c, Grows size s c (body s c))
    (hbody : ∀ s c, c.depth = 0 → c.kind.isTrivia = false → more c.kind = true →
      c.run (phases s).1 (phases s).2 = outcome →
      Returns true c (body s c) (fun s' c' => c'.run (phases s').1 (phases s').2 = outcome)
        (fun e => outcome = .error e))
    (s : σ) (hdepth : c.depth = 0) (h : c.run (phases s).1 (phases s).2 = outcome) :
    Returns true c (loop skipLines more body s c)
      (fun s' c' => c'.depth = 0 ∧ more c'.kind = false ∧
        c'.run (phases s').1 (phases s').2 = outcome)
      (fun e => outcome = .error e) := by
  refine (loop_returns (I := fun s c => c.depth = 0 ∧ c.run (phases s).1 (phases s).2 = outcome)
    (J := fun s c => c.depth = 0 ∧ c.kind.isTrivia = false ∧
      c.run (phases s).1 (phases s).2 = outcome)
    (fun s c hI => ?_) (fun s c hJ hmore => ?_) s c ⟨hdepth, h⟩).mono
    (fun _ _ _ hQ => ⟨hQ.1.1, hQ.2, hQ.1.2.2⟩) fun _ hE => hE
  · obtain ⟨c', hs⟩ := exists_skips isBlank_isTrivia c
    exact ⟨c', hs.eq, hs.moves.weaken, hs.moves.depth.trans hI.1, hs.stops,
      (run_skipLines (hidle s) hs).symm.trans hI.2⟩
  -- that the body consumes something is `hgrows`, that the reader follows it `hbody`
  · refine ((hgrows s c).and (hbody s c hJ.1 hJ.2.1 hmore hJ.2.2)).mono
      (fun _ _ hmoves hQ => ?_) fun _ hE => hE.2
    exact ⟨hQ.1.1, hmoves.depth.trans hJ.1, hQ.2⟩

/-- A block of constraints, from its word to its closing brace. -/
theorem block_follows (hdepth : c.depth = 0) (hword : c.kind = .constraints)
    (h : c.run ps (.inside p .body) = outcome) :
    Returns true c (block c) (fun rows c' => c'.run ps (.inside (p.addRows rows) .body) = outcome)
      (fun e => outcome = .error e) := by
  refine (expect_known (by decide) rfl hword).andThen fun word c₁ _ hfound => ?_
  obtain ⟨ht, hk, rfl⟩ := hfound
  have hbrace : c.advance.run ps (.inside p .blockBrace) = outcome :=
    (run_inside ht (by simp [hk]) (by simp [stepInside, stepBody, hk])).symm.trans h
  refine (expect_follows (fun _ => .inside p .block) (by decide) (idle_blockBrace ps p)
    (fun _ => rfl) (fun t _ hk => ?_) (fun t _ htrivia hk => ?_) hbrace).andThen
    fun _ c₂ hmoves₂ hopen => ?_
  · simp [stepPhase, stepInside, hk, Token.Kind.isTrivia]
  · simp [stepPhase, stepInside, htrivia, hk, Token.refuse]
  refine (loop_follows (fun rows => (ps, .inside (p.addRows rows) .block))
    (fun rows => idle_block ps (p.addRows rows)) nextRow_grows
    (fun rows c hdepth htrivia hmore hrun => nextRow_follows hdepth (of_decide_eq_true hmore)
      htrivia hrun) [] (hmoves₂.depth.trans hdepth) (p.addRows_nil.symm ▸ hopen.2.2)).andThen
    fun rows c₃ _ hrows => ?_
  obtain ⟨-, hmore, hrun⟩ := hrows
  -- the loop over the rows ends at the brace only
  have hclose : c₃.kind = .closeBrace := by simpa using hmore
  refine (expect_known (by decide) rfl hclose).andThen fun _ c₄ _ hfound => ?_
  obtain ⟨ht, hk, rfl⟩ := hfound
  exact .ok (.refl _)
    ((run_inside ht (by simp [hk]) (by simp [stepInside, hk])).symm.trans hrun)

/-! ## Problems and programs -/

/-- One declaration of a problem, told by its first token. -/
theorem nextItem_follows (hdepth : c.depth = 0) (hclose : c.kind ≠ .closeBrace)
    (htrivia : c.kind.isTrivia = false) (h : c.run ps (.inside p .body) = outcome) :
    Returns true c (nextItem p c) (fun q c' => c'.run ps (.inside q .body) = outcome)
      (fun e => outcome = .error e) := by
  rw [nextItem]
  split
  next hk =>
    have hsense : c.kind.sense? = some .maximize := by rw [hk]; rfl
    exact (objective_follows hdepth hsense h).andThen fun _ _ _ hrun => .ok (.refl _) hrun
  next hk =>
    have hsense : c.kind.sense? = some .minimize := by rw [hk]; rfl
    exact (objective_follows hdepth hsense h).andThen fun _ _ _ hrun => .ok (.refl _) hrun
  next hk => exact (varList_follows hdepth hk h).andThen fun _ _ _ hrun => .ok (.refl _) hrun
  next hk => exact (block_follows hdepth hk h).andThen fun _ _ _ hrun => .ok (.refl _) hrun
  next hk => exact (property_follows hk h).andThen fun _ _ _ hrun => .ok (.refl _) hrun
  -- the calls and the reader know the same five beginnings
  next h₁ h₂ h₃ h₄ h₅ =>
    refine .error (.refl _) (h.symm.trans (run_inside_refused fun t ht _ => ?_))
    rw [kind_of_current ht] at *
    change stepBody p t = _
    unfold stepBody
    split <;> simp_all [Token.Kind.isTrivia]

/-- A problem, from its word to its closing brace. -/
theorem problem_follows (hdepth : c.depth = 0) (hword : c.kind = .problem)
    (h : c.run ps .outside = outcome) :
    Returns true c (problem c) (fun p c' => c'.run (ps ++ [p]) .outside = outcome)
      (fun e => outcome = .error e) := by
  refine (expect_known (by decide) rfl hword).andThen fun word c₁ _ hfound => ?_
  obtain ⟨ht, hk, rfl⟩ := hfound
  have hname : c.advance.run ps (.name word.span) = outcome :=
    (run_step ht (by simp [hk]) (by simp [stepPhase, hk, Token.Kind.isTrivia])).symm.trans h
  refine (expect_follows (fun t => .brace word.span t.text) (by decide)
    (idle_name ps word.span) (fun _ => rfl) (fun t _ hk => ?_) (fun t _ htrivia hk => ?_)
    hname).andThen fun name c₂ hmoves₂ hbrace => ?_
  · simp [stepPhase, hk, Token.Kind.isTrivia]
  · simp [stepPhase, htrivia, hk, Token.refuse]
  refine (expect_follows (fun _ => .inside (.empty word.span name.text) .body) (by decide)
    (idle_brace ps word.span name.text) (fun _ => rfl) (fun t _ hk => ?_)
    (fun t _ htrivia hk => ?_) hbrace.2.2).andThen fun _ c₃ hmoves₃ hopen => ?_
  · simp [stepPhase, hk, Token.Kind.isTrivia]
  · simp [stepPhase, htrivia, hk, Token.refuse]
  refine (loop_follows (fun p => (ps, .inside p .body)) (fun p => idle_body ps p)
    nextItem_grows (fun p c hdepth htrivia hmore hrun => nextItem_follows hdepth
      (of_decide_eq_true hmore) htrivia hrun) _ ((hmoves₂.trans hmoves₃).depth.trans hdepth)
    hopen.2.2).andThen fun p c₄ _ hitems => ?_
  obtain ⟨-, hmore, hrun⟩ := hitems
  -- the loop over the declarations ends at the brace only
  have hclose : c₄.kind = .closeBrace := by simpa using hmore
  refine (expect_known (by decide) rfl hclose).andThen fun brace c₅ _ hfound => ?_
  obtain ⟨ht, hk, rfl⟩ := hfound
  refine .ok (.refl _) ((run_step ht (by simp [hk]) ?_).symm.trans hrun)
  simp [stepPhase, stepInside, stepBody, hk]

/-- One more problem behind those that have been read. -/
theorem nextProblem_follows (hdepth : c.depth = 0) (hend : c.kind ≠ .endOfInput)
    (htrivia : c.kind.isTrivia = false) (h : c.run ps .outside = outcome) :
    Returns true c (nextProblem ps c) (fun ps' c' => c'.run ps' .outside = outcome)
      (fun e => outcome = .error e) := by
  rw [nextProblem]
  split
  next hk => exact (problem_follows hdepth hk h).andThen fun _ _ _ hrun => .ok (.refl _) hrun
  next hne =>
    obtain ⟨t, ht, hk⟩ := exists_current hend
    rw [← hk] at hend htrivia hne
    rw [unexpected_of_current ht hend]
    refine .error (.refl _) (h.symm.trans (run_error ht hend ?_))
    rw [stepPhase, if_neg (by simp [htrivia]), if_neg hne, Token.refuse]

/-- A whole text is read from its beginning. -/
theorem program_follows (ts : List Token) :
    Returns true (start ts) (program (K := K) (start ts))
      (fun x _ => Program.ofTokens ts = .ok x)
      (fun e => Program.ofTokens (K := K) ts = .error e) := by
  refine (loop_follows (fun ps => (ps, .outside)) idle_outside nextProblem_grows
    (fun ps c hdepth htrivia hmore hrun => nextProblem_follows hdepth (of_decide_eq_true hmore)
      htrivia hrun) [] rfl rfl).andThen fun ps c _ hproblems => .ok (.refl _) ?_
  obtain ⟨-, hmore, hrun⟩ := hproblems
  have hend : c.kind = .endOfInput := by simpa using hmore
  exact hrun.symm.trans (run_end hend)

/-! ## Every call is safe -/

/-- From every cursor the call returns, with a result or an error. It has not gone back, nor behind
the next end or the last token, and as many parentheses are open as before. A result stands for at
least one token, and the end of a line has been looked for as often as `lines` says of the result
and the tokens that it stands for. -/
def Safe {α : Type} (call : Cursor → Option (Returned α)) (lines : α → List Token → Nat) : Prop :=
  ∀ c, ∃ r c', call c = some (r, c') ∧ c.pos ≤ c'.pos ∧ c'.pos ≤ c.pos + c.left ∧
    c'.depth = c.depth ∧ ∀ a, r = .ok a →
      c.pos < c'.pos ∧ c'.checks = c.checks ++ List.replicate (lines a (between c c')) c.depth

/-- A call with a fixed number of ends of lines. -/
theorem safe_of_consumes {α : Type} {call : Cursor → Option (Returned α)} {n k : Nat}
    (h : ∀ c, Consumes lines n k c (call c)) : Safe call fun _ _ => n := fun c => by
  obtain ⟨r, c', heq, hmoves, hok, -⟩ := h c
  refine ⟨r, c', heq, hmoves.le, hmoves.within ▸ Nat.le_add_right _ _, hmoves.depth, fun a ha => ?_⟩
  exact ⟨(hok a ha).1, hmoves.checks_eq (hok a ha).2.checks⟩

theorem Tallies.length_checks {n : Nat} (h : Tallies n c c') (hmoves : Moves lines c c') :
    c'.checks.length = c.checks.length + (n + listCount (between c c')) := by
  obtain ⟨k, hadds⟩ := h
  obtain rfl : listCount (between c c') = k :=
    Nat.add_left_cancel (hmoves.lists_eq.symm.trans hadds.lists)
  exact hadds.checks

/-- A call whose ends of lines are counted by its result. -/
theorem safe_of_reckons {α : Type} {call : Cursor → Option (Returned α)} {count : α → Nat}
    (h : ∀ c, Reckons count c (call c)) : Safe call fun a ts => count a + listCount ts :=
  fun c => by
    obtain ⟨r, c', heq, hmoves, hok, -⟩ := h c
    refine ⟨r, c', heq, hmoves.le, hmoves.within ▸ Nat.le_add_right _ _, hmoves.depth,
      fun a ha => ?_⟩
    exact ⟨(hok a ha).1, hmoves.checks_eq ((hok a ha).2.length_checks hmoves)⟩

/-- Outside all parentheses nothing but comments is passed in front of the end of a line, which a
line end ends as well as a closing brace and the end of the text do. -/
theorem lineEnd_outside (hdepth : c.depth = 0) :
    ∃ r c', c.lineEnd = some (r, c') ∧ (∀ t ∈ between c c', t.kind = .comment) ∧
      (r = .ok () ↔ EndsDeclaration c'.kind) := by
  obtain ⟨c', hs⟩ := exists_skips (isBlank_isBlankAt c.depth) c.checked
  refine ⟨_, c', lineEnd_eq hs, fun t ht => ?_, ?_⟩
  · have hblank := hs.passes t ht
    rw [hdepth] at hblank
    simpa [isBlankAt] using hblank
  · by_cases hends : EndsDeclaration c'.kind <;> simp [hends]

/-- A whole text is read to the first end, and the end of a line has been looked for outside all
parentheses only: once for each objective and each constraint of a program, and once for each list
of variables in its text. -/
theorem program_checks (ts : List Token) : ∃ c,
    program (start ts) = some (Program.ofTokens (K := K) ts, c) ∧
    c.pos ≤ (ts.takeWhile (·.kind ≠ .endOfInput)).length ∧ c.depth = 0 ∧
    (∀ d ∈ c.checks, d = 0) ∧ ∀ p, Program.ofTokens (K := K) ts = .ok p → c.checks =
      List.replicate (p.lineCount + listCount (ts.takeWhile (·.kind ≠ .endOfInput))) 0 := by
  obtain ⟨r, c, heq, hmoves, hok, herror⟩ :=
    (program_follows (K := K) ts).and (program_tallies (start ts))
  have hresult : r = Program.ofTokens ts := by
    cases r with
    | ok x => exact (hok x rfl).1.symm
    | error e => exact (herror e rfl).1.symm
  refine ⟨c, hresult ▸ heq, ?_, hmoves.depth, fun d hd => ?_, fun p hp => ?_⟩
  · calc c.pos ≤ c.pos + c.left := Nat.le_add_right _ _
      _ = 0 + (start ts).left := hmoves.within
      _ = (ts.takeWhile (·.kind ≠ .endOfInput)).length := Nat.zero_add _
  · obtain ⟨n, hn⟩ := hmoves.checks
    rw [hn] at hd
    exact List.eq_of_mem_replicate hd
  -- at the end of the text the way that has been made is the whole text
  · obtain ⟨-, htallies, hend⟩ := hok p (hresult.trans hp)
    have hcount := htallies.length_checks hmoves
    rw [hmoves.between_eq_ahead hend] at hcount
    exact hmoves.checks_eq hcount

/-- Reading by recursive descent comes to an end on every list of tokens, and there with what the
reader makes of the list: not behind the first end or the last token, and with no parenthesis left
open, there or where the end of a line has been looked for. The log of these places is complete: all
that is read on the way is safe, and the end of a line has been looked for once for each list of
variables, each objective and each constraint. No line end outside parentheses is passed in front of
the end of a line. -/
theorem program_safe :
    (∀ ts : List Token, ∃ c, program (start ts) = some (Program.ofTokens (K := K) ts, c) ∧
      c.pos ≤ (ts.takeWhile (·.kind ≠ .endOfInput)).length ∧ c.depth = 0 ∧
      (∀ d ∈ c.checks, d = 0) ∧ ∀ p, Program.ofTokens (K := K) ts = .ok p → c.checks =
        List.replicate (p.lineCount + listCount (ts.takeWhile (·.kind ≠ .endOfInput))) 0) ∧
    Safe (problem (K := K)) (fun p ts => p.lineCount + listCount ts) ∧
    Safe (property (K := K)) (fun _ _ => 0) ∧ Safe varList (fun _ _ => 1) ∧
    Safe (objective (K := K)) (fun _ _ => 1) ∧ Safe (row (K := K)) (fun _ _ => 1) ∧
    Safe (sum (K := K)) (fun _ _ => 0) ∧
    ∀ c : Cursor, c.depth = 0 →
      ∃ r c', c.lineEnd = some (r, c') ∧ (∀ t ∈ between c c', t.kind = .comment) ∧
        (r = .ok () ↔ EndsDeclaration c'.kind) :=
  ⟨program_checks, safe_of_reckons problem_reckons, safe_of_consumes property_consumes,
    safe_of_consumes varList_consumes, safe_of_consumes objective_consumes,
    safe_of_consumes row_consumes, safe_of_consumes sum_consumes, fun _ => lineEnd_outside⟩

/-- Two objectives, the first of which has a line end inside its parentheses. -/
def brokenLine : List Token :=
  [⟨.problem, ⟨0, 7⟩, "problem"⟩, ⟨.name, ⟨8, 9⟩, "p"⟩, ⟨.openBrace, ⟨10, 11⟩, "\x7b"⟩,
    ⟨.maximize, ⟨12, 15⟩, "max"⟩, ⟨.openParen, ⟨16, 17⟩, "("⟩, ⟨.newline, ⟨17, 18⟩, "\n"⟩,
    ⟨.name, ⟨18, 19⟩, "x"⟩, ⟨.closeParen, ⟨19, 20⟩, ")"⟩, ⟨.newline, ⟨20, 21⟩, "\n"⟩,
    ⟨.minimize, ⟨21, 24⟩, "min"⟩, ⟨.name, ⟨25, 26⟩, "y"⟩, ⟨.newline, ⟨26, 27⟩, "\n"⟩,
    ⟨.closeBrace, ⟨27, 28⟩, "\x7d"⟩, .endAt 28]

/-- What it is read as. -/
def brokenLineProgram : Program ℚ :=
  ⟨[⟨⟨0, 28⟩, "p", [], none,
    [⟨⟨12, 20⟩, .maximize, .paren (.var ⟨18, 19⟩ "x")⟩,
      ⟨⟨21, 26⟩, .minimize, .var ⟨25, 26⟩ "y"⟩], []⟩]⟩

/-- The end of a line is looked for behind each of the two objectives, and nowhere else. -/
theorem program_safe_brokenLine :
    (∃ c, program (start brokenLine) = some (.ok brokenLineProgram, c) ∧ c.pos ≤ 13 ∧
      c.depth = 0 ∧ c.checks = [0, 0]) ∧
    ∃ r c', (⟨brokenLine, 8, 0, []⟩ : Cursor).lineEnd = some (r, c') ∧
      (∀ t ∈ between ⟨brokenLine, 8, 0, []⟩ c', t.kind = .comment) ∧
      (r = .ok () ↔ EndsDeclaration c'.kind) := by
  have hsafe := program_safe (K := ℚ)
  have hprogram : Program.ofTokens brokenLine = .ok brokenLineProgram := by rfl
  obtain ⟨c, heq, hpos, hdepth, -, hchecks⟩ := hsafe.1 brokenLine
  rw [hprogram] at heq
  exact ⟨⟨c, heq, hpos, hdepth, hchecks _ hprogram⟩,
    hsafe.2.2.2.2.2.2.2 ⟨brokenLine, 8, 0, []⟩ rfl⟩

end Cursor

end CornerPoint.Source
