import CornerPoint.Proofs.Source.Advance
import CornerPoint.Proofs.Source.Expression

/-!
# Reading what derives from the grammar

Every lemma here follows the reader through the tokens of one nonterminal, in front of tokens
`rest` that are left to be read: behind a declaration the run goes on as if the declaration had
been in the problem from the start. Where a declaration takes up a line the reader has not yet
recorded it at the end of its tokens; `EndsLine rest` is what lets the two runs agree.
-/

namespace CornerPoint.Source

open ExprReader hiding step start
open Reader

variable {K : Type} [Scalar K]

/-! ## Steps inside a problem -/

section Steps

variable {ps : List (Problem K)} {p q : Problem K} {place place' : Place K} {last : Nat}
  {t : Token}

theorem run_within (h : stepInside p last place t = .ok (q, some place'))
    (ht : t.kind ≠ .endOfInput) (rest : List Token) :
    (within ps p place last).run (t :: rest) = (within ps q place' t.span.stop).run rest :=
  run_cons (step_within h) ht rest

theorem EndsLine.append {ts : List Token} (h : EndsLine ts) (us : List Token) :
    EndsLine (ts ++ us) := by
  obtain ⟨t, ht, hk⟩ := h
  cases ts with
  | nil => cases ht
  | cons t ts => exact ⟨t, rfl, Option.some.inj ht ▸ hk⟩

/-- At the end of a line two readers agree that agree on line ends and closing braces. -/
theorem run_endsLine {r s : Reader K} {rest : List Token} (hrest : EndsLine rest)
    (h : ∀ t : Token, t.kind = .newline ∨ t.kind = .closeBrace → r.step t = s.step t)
    (hfinish : r.finish = s.finish) : r.run rest = s.run rest := by
  refine run_congr (fun t ht hend => h t ?_) hfinish
  obtain ⟨t', ht', hk⟩ := hrest
  obtain rfl : t' = t := Option.some.inj (ht'.symm.trans ht)
  exact hk.imp_right fun hk => hk.resolve_right hend

/-- The reader does not care where the last token ended, and passes over line ends and
comments. -/
structure Idle (state : Nat → Reader K) : Prop where
  step_eq : ∀ last last' t, (state last).step t = (state last').step t
  finish_eq : ∀ last last', (state last).finish = (state last').finish
  blank : ∀ last t, t.kind.isTrivia = true → (state last).step t = .ok (state t.span.stop)

/-- Where nothing is begun, it does not matter where the last token ended. -/
theorem Idle.run_eq {state : Nat → Reader K} (h : Idle state) (last last' : Nat)
    (ts : List Token) : (state last).run ts = (state last').run ts :=
  run_congr (fun t _ _ => h.step_eq last last' t) (h.finish_eq last last')

/-- Where line ends and comments are skipped, a run through some of them is the run behind them. -/
theorem Idle.run_blank {state : Nat → Reader K} (h : Idle state) {g : List Token}
    (hg : Blank true g) (last last' : Nat) (ts : List Token) :
    (state last).run (g ++ ts) = (state last').run ts := by
  induction g generalizing last with
  | nil => exact h.run_eq last last' ts
  | cons t g ih =>
    obtain ⟨ht, hg⟩ := blank_cons.mp hg
    have hend : t.kind ≠ .endOfInput := fun hk => by simp [hk, blank_singleton] at ht
    rw [List.cons_append, run_cons (h.blank last t (blank_true_singleton.mp ht)) hend, ih hg]

/-- Between declarations, between rows, and wherever a name or a brace must follow. -/
theorem idle_within (ps : List (Problem K)) (p : Problem K) (place : Place K)
    (hplace : ∀ last last' t, stepInside p last place t = stepInside p last' place t)
    (hblank : ∀ t : Token, t.kind.isTrivia = true →
      stepInside p 0 place t = .ok (p, some place)) :
    Idle (within ps p place) where
  step_eq last last' t := by simp only [step, stepPhase, hplace last last' t]
  finish_eq _ _ := rfl
  blank last t ht := by simp only [step, stepPhase, hplace last 0 t, hblank t ht]

theorem isTrivia_iff {k : Token.Kind} : k.isTrivia = true ↔ k = .newline ∨ k = .comment := by
  simp [Token.Kind.isTrivia]

theorem idle_body (ps : List (Problem K)) (p : Problem K) : Idle (within ps p .body) :=
  idle_within ps p .body (fun _ _ _ => rfl) fun t ht => by
    obtain h | h := isTrivia_iff.mp ht <;> simp [stepInside, stepBody, h]

theorem idle_block (ps : List (Problem K)) (p : Problem K) : Idle (within ps p .block) :=
  idle_within ps p .block (fun _ _ _ => rfl) fun t ht => by
    obtain h | h := isTrivia_iff.mp ht <;> simp [stepInside, h]

theorem idle_varName (ps : List (Problem K)) (p : Problem K) (start : Nat)
    (names : List String) : Idle (within ps p (.varName start names)) :=
  idle_within ps p _ (fun _ _ _ => rfl) fun t ht => by simp [stepInside, ht]

theorem idle_blockBrace (ps : List (Problem K)) (p : Problem K) :
    Idle (within ps p .blockBrace) :=
  idle_within ps p _ (fun _ _ _ => rfl) fun t ht => by simp [stepInside, ht]

theorem idle_outside (ps : List (Problem K)) : Idle (Reader.mk ps .outside) :=
  ⟨fun _ _ _ => rfl, fun _ _ => rfl, fun last t ht => by simp [step, stepPhase, ht]⟩

theorem idle_name (ps : List (Problem K)) (start : Span) : Idle (Reader.mk ps (.name start)) :=
  ⟨fun _ _ _ => rfl, fun _ _ => rfl, fun last t ht => by simp [step, stepPhase, ht]⟩

theorem idle_brace (ps : List (Problem K)) (start : Span) (name : String) :
    Idle (Reader.mk ps (.brace start name)) :=
  ⟨fun _ _ _ => rfl, fun _ _ => rfl, fun last t ht => by simp [step, stepPhase, ht]⟩

end Steps

/-! ## Expressions in their places -/

section Lines

variable {ps : List (Problem K)} {p : Problem K} {purpose : Purpose K} {r s : ExprReader K}
  {us vs g rest : List Token} {t : Token} {e : Expr K}

/-- An expression is read token by token, in whatever declaration it stands. -/
theorem run_reads (h : Reads r us s) (last : Nat) (rest : List Token) :
    (within ps p (.expr purpose r) last).run (us ++ rest) =
      (within ps p (.expr purpose s) (stopAfter last us)).run rest :=
  run_append (advance_reads h ps p purpose last) h.ne_end rest

/-- A name at the beginning of a row that is not followed by a colon is an operand. -/
theorem run_labelOrOperand {n : Token} (last : Nat) (h : ∀ t ∈ us.head?, t.kind ≠ .colon) :
    (within ps p (.labelOrOperand n) last).run us =
      (within ps p (.expr (.left n.span.start none)
        (ExprReader.afterOperand .start (.var n.span n.text) [])) last).run us := by
  refine run_congr (fun t ht _ => ?_) rfl
  simp only [Reader.step, stepPhase, stepInside, if_neg (h t ht)]

/-- Every other first token of an expression begins the left-hand side. -/
theorem stepInside_block (h : ExprReader.start.step t = .more r) (hblank : t.kind.isTrivia = false)
    (hname : t.kind ≠ .name) (last : Nat) :
    stepInside p last .block t = .ok (p, some (.expr (.left t.span.start none) r)) := by
  simp only [stepInside]
  split
  next hk => simp [hk, Token.Kind.isTrivia] at hblank
  next hk => simp [hk, Token.Kind.isTrivia] at hblank
  next hk => simp [ExprReader.start, ExprReader.step, stepOperand, hk] at h
  next hk => exact absurd hk hname
  next => simp [stepExpr, h]

/-- The left-hand side of a row without a label. Its first token only shows behind comments,
and a name may still turn out to be a label. -/
theorem run_left (h : Reads .start us r) (he : r.step t = .ended e) (ht : t.kind ≠ .colon)
    (last : Nat) (rest : List Token) :
    (within ps p .block last).run (us ++ t :: rest) =
      (within ps p (.expr (.left (extent (us ++ vs)).start none) r) (stopAfter last us)).run
        (t :: rest) := by
  induction us generalizing last with
  | nil =>
    rw [h.eq_of_nil] at he
    exact absurd he stepOperand_ne_ended
  | cons u us ih =>
    obtain ⟨r', hu, hread⟩ := h.of_cons
    have hend : u.kind ≠ .endOfInput := (step_more_kind hu).2
    cases hblank : u.kind.isTrivia with
    | true =>
      have hcomment : u.kind = .comment := by
        refine (isTrivia_iff.mp hblank).resolve_left fun hk => ?_
        simp [ExprReader.start, ExprReader.step, stepOperand, hk] at hu
      have hr' : r' = .start := by
        simpa [ExprReader.start, ExprReader.step, stepOperand, hcomment] using hu.symm
      have hstep : stepInside p last .block u = .ok (p, some .block) := by
        simp [stepInside, hcomment]
      rw [List.cons_append, run_within hstep hend, ih (hr' ▸ hread), List.cons_append,
        extent_start_cons hblank, stopAfter]
    | false =>
      rw [List.cons_append, List.cons_append, extent_cons hblank, stopAfter]
      by_cases hname : u.kind = .name
      · have hstep : stepInside p last .block u = .ok (p, some (.labelOrOperand u)) := by
          simp [stepInside, hname]
        have hr' : r' = ExprReader.afterOperand .start (.var u.span u.text) [] := by
          simpa [ExprReader.start, ExprReader.step, stepOperand, hname] using hu.symm
        -- the next token belongs to the expression or ends it, so it is no colon
        have hcolon : ∀ x ∈ (us ++ t :: rest).head?, x.kind ≠ .colon := by
          intro x hx
          cases us with
          | nil => exact Option.some.inj hx ▸ ht
          | cons x' us =>
            obtain ⟨_, hx', _⟩ := hread.of_cons
            exact Option.some.inj hx ▸ (step_more_kind hx').1
        rw [run_within hstep hend, run_labelOrOperand _ hcolon, ← hr', run_reads hread]
      · rw [run_within (stepInside_block hu hblank hname last) hend, run_reads hread]

/-! ## Declarations -/

/-- A value of its kind is what a property is set to. -/
theorem stepProperty_value {v : Value K} (h : t.value? = some v) (hv : t.Valid K) (start : Nat)
    (name : String) (colon : Bool) :
    stepProperty p start name colon t =
      .ok (p.addProperty ⟨⟨start, t.span.stop⟩, name, v⟩, some .body) := by
  unfold Token.value? at h
  unfold stepProperty
  split at h <;> cases h
  next hk => simp only [hk]
  next hk => simp only [hk, hv.ofText?_eq hk]
  next hk => simp only [hk]

/-- The reader adds the property that its tokens make. -/
theorem run_property {x : Property K} (h : IsProperty us x) (hv : ∀ t ∈ us, t.Valid K)
    (rest : List Token) :
    (within ps p .body 0).run (us ++ rest) = (within ps (p.addProperty x) .body 0).run rest := by
  have hname : ∀ {n : Token}, n.kind = .name → stepInside p 0 .body n =
      .ok (p, some (.property n.span.start n.text false)) := fun hn => by
    simp [stepInside, stepBody, hn]
  have hend : ∀ {t : Token} {v : Value K}, t.value? = some v → t.kind ≠ .endOfInput :=
    fun h hk => by simp [Token.value?, hk] at h
  cases h with
  | @plain n t v hn hval =>
    have ht : stepInside p n.span.stop (.property n.span.start n.text false) t = _ :=
      stepProperty_value hval (hv t (by simp)) n.span.start n.text false
    rw [extent_cons (by simp [hn, Token.Kind.isTrivia])]
    simp only [List.cons_append, List.nil_append]
    rw [run_within (hname hn) (by simp [hn]), run_within ht (hend hval)]
    exact (idle_body ps _).run_eq _ _ _
  | @colon n c t v hn hc hval =>
    have ht : stepInside p c.span.stop (.property n.span.start n.text true) t = _ :=
      stepProperty_value hval (hv t (by simp)) n.span.start n.text true
    have hcolon : stepInside p n.span.stop (.property n.span.start n.text false) c =
        .ok (p, some (.property n.span.start n.text true)) := by
      simp [stepInside, stepProperty, hc]
    rw [extent_cons (by simp [hn, Token.Kind.isTrivia])]
    simp only [List.cons_append, List.nil_append]
    rw [run_within (hname hn) (by simp [hn]), run_within hcolon (by simp [hc]),
      run_within ht (hend hval)]
    exact (idle_body ps _).run_eq _ _ _

/-- The reader collects the names of a list, one behind each comma. -/
theorem run_names {xs : List String} (h : IsNames us xs) (start last : Nat)
    (names : List String) (rest : List Token) :
    (within ps p (.varName start names) last).run (us ++ rest) =
      (within ps p (.afterVariable start (names ++ xs) true) (stopAfter last us)).run rest := by
  have hname : ∀ {n : Token} (last : Nat) (names : List String), n.kind = .name →
      stepInside p last (.varName start names) n =
        .ok (p, some (.afterVariable start (names ++ [n.text]) true)) := fun _ _ hn => by
    simp [stepInside, hn, Token.Kind.isTrivia]
  induction h generalizing rest with
  | @first g n hg hn =>
    rw [List.append_assoc, (idle_varName ps p start names).run_blank hg last 0,
      List.singleton_append, run_within (hname 0 names hn) (by simp [hn])]
    simp [stopAfter]
  | @next us xs c g n _ hc hg hn ih =>
    have hcomma : ∀ last, stepInside p last (.afterVariable start (names ++ xs) true) c =
        .ok (p, some (.varName start (names ++ xs))) := fun last => by
      simp [stepInside, stepAfterVariable, hc]
    rw [show us ++ c :: g ++ [n] ++ rest = us ++ c :: (g ++ n :: rest) by simp, ih,
      run_within (hcomma _) (by simp [hc]),
      (idle_varName ps p start _).run_blank hg _ 0, run_within (hname 0 _ hn) (by simp [hn])]
    simp [stopAfter]

/-- Comments behind the last name are passed, and the list reaches over them. -/
theorem run_afterVariable (hg : Blank false g) (hrest : EndsLine rest) (start last : Nat)
    (names : List String) (comma : Bool) :
    (within ps p (.afterVariable start names comma) last).run (g ++ rest) =
      (within ps (p.setVariables ⟨⟨start, stopAfter last g⟩, names⟩) .body 0).run rest := by
  induction g generalizing last comma with
  | nil =>
    refine run_endsLine hrest (fun t ht => ?_) rfl
    obtain ht | ht := ht <;>
      simp [Reader.step, stepPhase, stepInside, stepAfterVariable, endLine, stepBody, ht,
        stopAfter]
  | cons t g ih =>
    obtain ⟨ht, hg⟩ := blank_cons.mp hg
    have hk : t.kind = .comment := by simpa [blank_singleton] using ht
    -- behind a comment no comma is taken, which does not matter: none follows
    have hstep : stepInside p last (.afterVariable start names comma) t =
        .ok (p, some (.afterVariable start names false)) := by
      simp [stepInside, stepAfterVariable, hk]
    rw [List.cons_append, run_within hstep (by simp [hk]), ih hg, stopAfter]

/-- The reader sets the list of variables that its tokens make. -/
theorem run_variables {x : VariableList} (h : IsVariables us x) (hrest : EndsLine rest) :
    (within ps p .body 0).run (us ++ rest) = (within ps (p.setVariables x) .body 0).run rest := by
  cases h with
  | @intro v us xs g hk hnames hg =>
    have hstep : stepInside p 0 .body v = .ok (p, some (.varName v.span.start [])) := by
      simp [stepInside, stepBody, hk]
    rw [List.cons_append, extent_cons (by simp [hk, Token.Kind.isTrivia]), List.cons_append,
      List.append_assoc, run_within hstep (by simp [hk]), run_names hnames,
      run_afterVariable hg hrest, stopAfter_append, List.nil_append]

/-- The reader adds the objective that its tokens make. -/
theorem run_objective {x : ObjectiveLine K} (h : IsObjective us x) (hv : ∀ t ∈ us, t.Valid K)
    (hrest : EndsLine rest) :
    (within ps p .body 0).run (us ++ rest) = (within ps (p.addObjective x) .body 0).run rest := by
  cases h with
  | @intro t sense us e g hk he hg =>
    simp only [List.forall_mem_append, List.forall_mem_cons] at hv
    obtain ⟨r, hread, hend⟩ := he.reads hv.1.2 hg
    have hstep : stepInside p 0 .body t =
        .ok (p, some (.expr (.objective t.span.start sense) .start)) := by
      unfold Token.Kind.sense? at hk
      split at hk <;> simp_all [stepInside, stepBody]
    have htrivia : t.kind.isTrivia = false ∧ t.kind ≠ .endOfInput := by
      unfold Token.Kind.sense? at hk
      split at hk <;> simp_all [Token.Kind.isTrivia]
    rw [List.cons_append, extent_cons htrivia.1, List.cons_append, run_within hstep htrivia.2,
      run_reads hread]
    refine run_endsLine hrest (fun x hx => ?_) rfl
    have hended := hend x (by obtain hx | hx := hx <;> simp [Ends, hx])
    obtain hx | hx := hx <;>
      simp [Reader.step, stepPhase, stepInside, stepExpr, hended, stepAfterExpr, endLine,
        stepBody, hx]

/-- A row up to its relation. -/
theorem run_label {ls : List Token} {label : Option String} (hl : IsLabel ls label)
    (h : Reads .start us r) (he : r.step t = .ended e) (ht : t.kind ≠ .colon)
    (rest : List Token) :
    ∃ last, (within ps p .block 0).run (ls ++ us ++ t :: rest) =
      (within ps p (.expr (.left (extent (ls ++ us ++ vs)).start label) r) last).run
        (t :: rest) := by
  cases hl with
  | none => exact ⟨_, run_left h he ht 0 rest⟩
  | @some n c hn hc =>
    have hname : stepInside p 0 .block n = .ok (p, some (.labelOrOperand n)) := by
      simp [stepInside, hn]
    have hcolon : stepInside p n.span.stop (.labelOrOperand n) c =
        .ok (p, some (.expr (.left n.span.start (some n.text)) .start)) := by
      simp [stepInside, hc]
    -- the row begins with its label, not with its first operand
    refine ⟨stopAfter c.span.stop us, ?_⟩
    simp only [List.cons_append, List.nil_append,
      extent_cons (show n.kind.isTrivia = false by simp [hn, Token.Kind.isTrivia])]
    rw [run_within hname (by simp [hn]), run_within hcolon (by simp [hc]), run_reads h]

/-- The reader adds the row that its tokens make: label, left-hand side, relation, right-hand
side. -/
theorem run_row {x : ConstraintLine K} (h : IsRow us x) (hv : ∀ t ∈ us, t.Valid K)
    (hrest : EndsLine rest) :
    (within ps p .block 0).run (us ++ rest) =
      (within ps (p.addConstraint x) .block 0).run rest := by
  cases h with
  | @intro ls label us lhs g t relation vs rhs h hlabel hl hg ht hr hh =>
    simp only [List.forall_mem_append, List.forall_mem_cons] at hv
    obtain ⟨r, hread, hend⟩ := hl.reads hv.1.1.1.2 hg
    obtain ⟨s, hread', hend'⟩ := hr.reads hv.1.2.2 hh
    have hkind : Ends t.kind ∧ t.kind ≠ .colon ∧ t.kind ≠ .endOfInput := by
      unfold Token.Kind.relation? at ht
      split at ht <;> simp_all [Ends]
    rw [show ls ++ us ++ g ++ t :: vs ++ h = ls ++ (us ++ g) ++ (t :: (vs ++ h)) by simp]
    -- the span is completed last but begun first, so it is given a name before any step is made
    generalize hrow : extent (ls ++ (us ++ g) ++ (t :: (vs ++ h))) = row
    obtain ⟨last, hleft⟩ : ∃ last,
        (within ps p .block 0).run (ls ++ (us ++ g) ++ t :: (vs ++ h ++ rest)) =
          (within ps p (.expr (.left row.start label) r) last).run (t :: (vs ++ h ++ rest)) :=
      hrow ▸ run_label hlabel hread (hend t hkind.1) hkind.2.1 _
    have hrel : stepInside p last (.expr (.left row.start label) r) t =
        .ok (p, some (.expr (.right row.start label lhs relation) .start)) := by
      simp only [stepInside, stepExpr, hend t hkind.1, stepAfterExpr]
      unfold Token.Kind.relation? at ht
      split at ht <;> simp_all
    have hstop : stopAfter t.span.stop (vs ++ h) = row.stop := by
      rw [← hrow, extent_stop]
      simp [stopAfter]
    rw [List.append_assoc, List.cons_append, hleft, run_within hrel hkind.2.2, run_reads hread',
      hstop]
    refine run_endsLine hrest (fun x hx => ?_) rfl
    have hended := hend' x (by obtain hx | hx := hx <;> simp [Ends, hx])
    obtain hx | hx := hx <;>
      simp [Reader.step, stepPhase, stepInside, stepExpr, hended, stepAfterExpr, endLine, hx]

end Lines

/-! ## Lists of members -/

/-- A series is closed by its closing token. -/
theorem Series.closer_kind {α : Type} {closer : Token.Kind} {item : List Token → α → Prop}
    {line : α → Bool} {us : List Token} {c : Token} {ys : List α}
    (h : Series closer item line us c ys) : c.kind = closer := by
  induction h with
  | nil _ hc => exact hc
  | cons _ _ _ _ ih => exact ih

/-- A reader that passes over blanks and records each member passes over a list of members. -/
theorem Series.run {α : Type} {closer : Token.Kind} {item : List Token → α → Prop}
    {line : α → Bool} (state : List α → Nat → Reader K) (hidle : ∀ xs, Idle (state xs))
    (hitem : ∀ us x, item us x → (∀ t ∈ us, t.Valid K) → ∀ xs rest,
      (line x = true → EndsLine rest) →
      (state xs 0).run (us ++ rest) = (state (xs ++ [x]) 0).run rest)
    {us : List Token} {c : Token} {ys : List α} (h : Series closer item line us c ys)
    (hv : ∀ t ∈ us, t.Valid K) (xs : List α) (rest : List Token) :
    (state xs 0).run (us ++ c :: rest) = (state (xs ++ ys) 0).run (c :: rest) := by
  induction h generalizing xs with
  | nil hg _ => rw [(hidle xs).run_blank hg 0 0, List.append_nil]
  | @cons g us x vs c ys hg hx hline _ ih =>
    simp only [List.forall_mem_append] at hv
    have hrest : line x = true → EndsLine (vs ++ c :: rest) := fun hl => by
      simpa using (hline hl).append rest
    rw [List.append_assoc, List.append_assoc, (hidle xs).run_blank hg 0 0,
      hitem us x hx hv.1.2 xs _ hrest, ih hv.2, List.append_assoc, List.singleton_append]

/-! ## Problems from their declarations -/

namespace Problem

omit [Scalar K]

variable (span : Span) (name : String) (items : List (Item K))

theorem ofItems_nil : ofItems span name ([] : List (Item K)) = empty span name := rfl

theorem ofItems_property (x : Property K) :
    ofItems span name (items ++ [.property x]) = (ofItems span name items).addProperty x := by
  simp [ofItems, addProperty, Item.property?, Item.vars?, Item.objective?, Item.rows]

/-- One more list of variables takes the place of the one before. -/
theorem ofItems_vars (x : VariableList) :
    ofItems span name (items ++ [.vars x]) = (ofItems span name items).setVariables x := by
  simp [ofItems, setVariables, Item.property?, Item.vars?, Item.objective?, Item.rows]

theorem ofItems_objective (x : ObjectiveLine K) :
    ofItems span name (items ++ [.objective x]) = (ofItems span name items).addObjective x := by
  simp [ofItems, addObjective, Item.property?, Item.vars?, Item.objective?, Item.rows]

/-- A block that has just been opened adds nothing. -/
theorem ofItems_block_nil :
    ofItems span name (items ++ [.block []]) = ofItems span name items := by
  simp [ofItems, Item.property?, Item.vars?, Item.objective?, Item.rows]

theorem ofItems_block_concat (rows : List (ConstraintLine K)) (x : ConstraintLine K) :
    ofItems span name (items ++ [.block (rows ++ [x])]) =
      (ofItems span name (items ++ [.block rows])).addConstraint x := by
  simp [ofItems, addConstraint, List.filterMap_cons, Item.property?, Item.vars?,
    Item.objective?, Item.rows]

end Problem

/-! ## Items, problems, programs -/

/-- The reader adds the declaration that its tokens make. -/
theorem run_item {us : List Token} {x : Item K} (h : IsItem us x) (hv : ∀ t ∈ us, t.Valid K)
    (ps : List (Problem K)) (span : Span) (name : String) (items : List (Item K))
    {rest : List Token} (hrest : x.takesLine = true → EndsLine rest) :
    (within ps (.ofItems span name items) .body 0).run (us ++ rest) =
      (within ps (.ofItems span name (items ++ [x])) .body 0).run rest := by
  cases h with
  | property hx => rw [Problem.ofItems_property, run_property hx hv]
  | vars hx => rw [Problem.ofItems_vars, run_variables hx (hrest rfl)]
  | objective hx => rw [Problem.ofItems_objective, run_objective hx hv (hrest rfl)]
  | @block t g o us c rows ht hg ho hrows =>
    simp only [List.forall_mem_append, List.forall_mem_cons] at hv
    have hword : stepInside (.ofItems span name items) 0 .body t =
        .ok (.ofItems span name items, some .blockBrace) := by simp [stepInside, stepBody, ht]
    have hopen : stepInside (.ofItems span name items) 0 .blockBrace o =
        .ok (.ofItems span name items, some .block) := by
      simp [stepInside, ho, Token.Kind.isTrivia]
    have hclose : ∀ rows : List (ConstraintLine K),
        stepInside (.ofItems span name (items ++ [.block rows])) 0 .block c =
          .ok (.ofItems span name (items ++ [.block rows]), some .body) := fun rows => by
      simp [stepInside, hrows.closer_kind]
    -- row by row, each one added to the block that is the last declaration
    have hrun := hrows.run
      (fun rows => within ps (.ofItems span name (items ++ [.block rows])) .block)
      (fun _ => idle_block _ _)
      (fun us x hx hv rows rest hrest => by
        rw [Problem.ofItems_block_concat, run_row hx hv (hrest rfl)]) hv.1.2.2 [] rest
    rw [show t :: g ++ o :: us ++ [c] ++ rest = t :: (g ++ o :: (us ++ c :: rest)) by simp,
      run_within hword (by simp [ht]), (idle_blockBrace ps _).run_blank hg _ 0,
      run_within hopen (by simp [ho]), (idle_block ps _).run_eq _ 0,
      ← Problem.ofItems_block_nil, hrun, run_within (hclose _) (by simp [hrows.closer_kind])]
    exact (idle_body ps _).run_eq _ _ _

/-- The reader adds the problem that its tokens make: its word, its name, and the declarations
between its braces. -/
theorem run_problem {us : List Token} {p : Problem K} (h : IsProblem us p)
    (hv : ∀ t ∈ us, t.Valid K) (ps : List (Problem K)) (rest : List Token) :
    (⟨ps, .outside, 0⟩ : Reader K).run (us ++ rest) =
      (⟨ps ++ [p], .outside, 0⟩ : Reader K).run rest := by
  cases h with
  | @intro t g n h o us c items ht hg hn hh ho hitems =>
    simp only [List.forall_mem_append, List.forall_mem_cons] at hv
    have hword : (⟨ps, .outside, 0⟩ : Reader K).step t =
        .ok ⟨ps, .name t.span, t.span.stop⟩ := by
      simp [step, stepPhase, ht, Token.Kind.isTrivia]
    have hname : (⟨ps, .name t.span, 0⟩ : Reader K).step n =
        .ok ⟨ps, .brace t.span n.text, n.span.stop⟩ := by
      simp [step, stepPhase, hn, Token.Kind.isTrivia]
    have hopen : (⟨ps, .brace t.span n.text, 0⟩ : Reader K).step o =
        .ok (within ps (.ofItems t.span n.text []) .body o.span.stop) := by
      simp [step, stepPhase, ho, Token.Kind.isTrivia, Problem.ofItems_nil]
    have hclose : (within ps (.ofItems t.span n.text items) .body 0).step c =
        .ok ⟨ps ++ [.ofItems (t.span.merge c.span) n.text items], .outside, c.span.stop⟩ := by
      simp [step, stepPhase, stepInside, stepBody, hitems.closer_kind, Problem.ofItems]
    have hrun := hitems.run (fun items => within ps (.ofItems t.span n.text items) .body)
      (fun _ => idle_body _ _)
      (fun us x hx hv items rest hrest => run_item hx hv ps _ _ items hrest) hv.1.2.2 [] rest
    rw [show t :: g ++ n :: h ++ o :: us ++ [c] ++ rest =
        t :: (g ++ n :: (h ++ o :: (us ++ c :: rest))) by simp,
      run_cons hword (by simp [ht]), (idle_name ps _).run_blank hg _ 0,
      run_cons hname (by simp [hn]), (idle_brace ps _ _).run_blank hh _ 0,
      run_cons hopen (by simp [ho]), (idle_body ps _).run_eq _ 0, hrun,
      List.nil_append, run_cons hclose (by simp [hitems.closer_kind])]
    exact (idle_outside _).run_eq _ _ _

/-- Everything that derives from the grammar is read as the tree of its derivation. -/
theorem IsProgram.ofTokens_eq {ts : List Token} {p : Program K} (h : IsProgram ts p)
    (hv : ∀ t ∈ ts, t.Valid K) : Program.ofTokens ts = .ok p := by
  cases h with
  | @intro us c ps hps =>
    have hrun := hps.run (fun ps => Reader.mk ps .outside) (fun _ => idle_outside _)
      (fun us x hx hv ps rest _ => run_problem hx hv ps rest)
      (fun t ht => hv t (List.mem_append_left _ ht)) [] []
    rw [Program.ofTokens, Reader.start, hrun, run, if_pos hps.closer_kind, finish,
      List.nil_append]

end CornerPoint.Source
