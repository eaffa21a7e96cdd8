import Mathlib
import CornerPoint.Proofs.Source.Layout
import CornerPoint.Proofs.Source.Slicing

/-!
# Spans locate what they name

The spans of an accepted text are not only in order; the text can be sliced at them. The tokens
of a problem are those of its slice, moved (`tokenize_slice`), and the reader does the same with
moved tokens (`Reader.run_relocate`), so the slice alone is read as the problem, moved.

> `ofString_located`: problems stand one behind the other, and each is `Located`: it can be read
> from its own slice, its declarations stand apart from each other inside it, in order, and the
> variables in its expressions stand inside their declarations and slice to their names.
-/

namespace CornerPoint.Source

variable {K : Type} [Scalar K]

/-! ## Accepted numbers -/

section Valid

variable {t : Token} {p : Problem K} {last : Nat} {x : Problem K × Option (Place K)}

omit [Scalar K] in
/-- Where an operator may follow no number does. -/
theorem ExprReader.stepOperator_number (hk : t.kind = .number) (sum : Awaiting K) (term : Expr K)
    (outer : List (Outer K)) (s : ExprReader K) : stepOperator sum term outer t ≠ .more s := by
  simp only [stepOperator, hk]
  intro h
  cases outer with
  | nil => cases h
  | cons o outer => simp at h

/-- A number that goes on with an expression denotes one. -/
theorem ExprReader.step_valid {r s : ExprReader K} (h : r.step t = .more s) : t.Valid K := by
  intro hk
  cases r with
  | operand pending outer =>
    simp only [step, stepOperand, hk] at h
    split at h
    next value hvalue => rw [hvalue]; rfl
    next => cases h
  | number value pending outer =>
    simp only [step, hk] at h
    exact absurd h (stepOperator_number hk _ _ _ _)
  | operator sum term outer => exact absurd h (stepOperator_number hk _ _ _ _)

omit [Scalar K] in
/-- Right behind an expression stands no number. -/
theorem Reader.stepAfterExpr_number (hk : t.kind = .number) (purpose : Purpose K) (e : Expr K) :
    stepAfterExpr p last purpose e t ≠ .ok x := by
  cases purpose <;> simp [stepAfterExpr, endLine, hk, Token.refuse]

/-- Every number that is read in an expression denotes one. -/
theorem Reader.stepExpr_valid {purpose : Purpose K} {r : ExprReader K}
    (h : stepExpr p last purpose r t = .ok x) : t.Valid K := by
  unfold stepExpr at h
  split at h
  next hmore => exact ExprReader.step_valid hmore
  next => exact fun hk => absurd h (stepAfterExpr_number hk _ _)
  next => cases h
  next => cases h

/-- Every number that the reader takes in a problem denotes one. -/
theorem Reader.stepInside_valid {place : Place K} (h : stepInside p last place t = .ok x) :
    t.Valid K := by
  intro hk
  cases place with
  | expr purpose r => exact stepExpr_valid h hk
  | block =>
    simp only [stepInside, hk] at h
    exact stepExpr_valid h hk
  | labelOrOperand name =>
    simp only [stepInside, hk] at h
    exact stepExpr_valid h hk
  -- a number is a value here too; elsewhere it is refused
  | property start name colon =>
    simp only [stepInside, stepProperty, hk] at h
    split at h
    next value hvalue => rw [hvalue]; rfl
    next => cases h
  | body => simp [stepInside, stepBody, hk, Token.refuse] at h
  | varName start names => simp [stepInside, hk, Token.refuse, Token.Kind.isTrivia] at h
  | afterVariable start names comma =>
    simp [stepInside, stepAfterVariable, endLine, hk, Token.refuse] at h
  | blockBrace => simp [stepInside, hk, Token.refuse, Token.Kind.isTrivia] at h

/-- Every number that the reader takes denotes one. -/
theorem Reader.step_valid {r s : Reader K} (h : r.step t = .ok s) : t.Valid K := by
  intro hk
  obtain ⟨ps, phase, last⟩ := r
  cases phase with
  | inside p place =>
    simp only [step, stepPhase] at h
    cases hinside : stepInside p last place t with
    | ok x => exact stepInside_valid hinside hk
    | error e => rw [hinside] at h; cases h
  | outside | name | brace =>
    simp [step, stepPhase, hk, Token.refuse, Token.Kind.isTrivia] at h

/-- Every number that has been read denotes one. -/
theorem Reader.advance_valid {r s : Reader K} {ts : List Token} (h : r.advance ts = .ok s) :
    ∀ t ∈ ts, t.Valid K := by
  induction ts generalizing r with
  | nil => exact fun _ ht => absurd ht List.not_mem_nil
  | cons t ts ih =>
    simp only [advance] at h
    cases hstep : r.step t with
    | error e => rw [hstep] at h; cases h
    | ok r' =>
      rw [hstep] at h
      exact List.forall_mem_cons.mpr ⟨step_valid hstep, ih h⟩

end Valid

/-! ## The tokens of an accepted text -/

/-- The text is accepted as the program `p`, which is made of the tokens `ts`. -/
structure AcceptedFrom (source : String) (ts : List Token) (p : Program K) : Prop where
  tokens : tokenize source = ts ++ [.endAt source.utf8ByteSize]
  inOrder : InOrder ts
  kinds : ∀ t ∈ ts, t.kind ≠ .endOfInput
  valid : ∀ t ∈ ts, t.Valid K
  problems : ∃ c, IsProblems ts c p.problems

/-- An accepted text is cut into tokens that stand in order, and its problems are made of them. -/
theorem exists_acceptedFrom {source : String} {p : Program K} (h : Program.ofString source = .ok p) :
    ∃ ts, AcceptedFrom source ts p := by
  obtain ⟨ts, hts, hkinds⟩ := tokenize_ends source
  have hlossless := (tiles_tokens (.ofString source)).lossless
  have hmem : ∀ t ∈ ts, t ∈ tokenize source := fun t ht => hts ▸ List.mem_append_left _ ht
  -- the reader has taken every token but the end
  have hvalid : ∀ t ∈ ts, t.Valid K := by
    rw [Program.ofString, Program.ofTokens, hts, Reader.run_append_end _ hkinds rfl] at h
    cases hr : (Reader.start : Reader K).advance ts with
    | ok r => exact Reader.advance_valid hr
    | error e => rw [hr] at h; cases h
  have hprogram := isProgram_of_ofString h
  rw [hts] at hprogram
  generalize hall : ts ++ [Token.endAt source.utf8ByteSize] = us at hprogram
  obtain ⟨hproblems⟩ := hprogram
  obtain ⟨rfl, -⟩ := List.append_inj' hall rfl
  refine ⟨ts, hts, ⟨?_, fun t ht => ?_⟩, hkinds, hvalid, _, hproblems⟩
  · have hordered := hlossless.ordered
    rw [← tokenize, hts] at hordered
    exact (List.pairwise_append.mp hordered).1
  · exact hlossless.nonempty t (hmem t ht) (hkinds t ht)

/-! ## A problem alone -/

/-- A problem in front of the end is a program. -/
theorem IsProblem.isProgram {ts : List Token} {q : Problem K} (h : IsProblem ts q) {c : Token}
    (hc : c.kind = .endOfInput) : IsProgram (ts ++ [c]) ⟨[q]⟩ := by
  have hseries : IsProblems ([] ++ ts ++ []) c [q] :=
    .cons .nil h (fun hline => absurd hline (by simp)) (.nil .nil hc)
  rw [List.nil_append, List.append_nil] at hseries
  exact .intro hseries

/-- **A problem is read from its slice alone** as it is read in the whole text. -/
theorem IsProblem.alone {source : String} {front mid back : List Token} {q : Problem K}
    (h : IsProblem mid q) (htokens : tokenize source = front ++ mid ++ back)
    (hkinds : ∀ t ∈ front ++ mid, t.kind ≠ .endOfInput) (hmid : InOrder mid)
    (hvalid : ∀ t ∈ mid, t.Valid K) : q.span.Legal source ∧
      Program.ofString (q.span.slice source) = .ok ⟨[q.relocate (· - q.span.start)]⟩ := by
  have hread : Program.ofTokens (mid ++ [.endAt q.span.stop]) = .ok ⟨[q]⟩ := by
    refine (h.isProgram rfl).ofTokens_eq (List.forall_mem_append.mpr ⟨hvalid, ?_⟩)
    exact List.forall_mem_singleton.mpr (Token.valid_of_ne (by simp [Token.endAt]))
  have hspan := h.span_eq hmid
  obtain ⟨t, us, rfl, ht⟩ := h.exists_head
  rw [extent_cons ht] at hspan
  obtain ⟨hlegal, hslice⟩ := tokenize_slice htokens hkinds hspan
  refine ⟨hlegal, ?_⟩
  -- the slice is lexed to the same tokens, moved to the front, and reading does not mind that
  have hmono : Monotone (· - q.span.start) := fun _ _ hle => Nat.sub_le_sub_right hle _
  have hstart : (Reader.start : Reader K).relocate (· - q.span.start) = Reader.start := by
    simp [Reader.start, Reader.relocate, Phase.relocate]
  rw [Program.ofString, Program.ofTokens, hslice, ← hstart, Reader.run_relocate hmono,
    ← Program.ofTokens, hread]
  rfl

/-! ## Variables in expressions -/

/-- The variable in an expression is one of its tokens. -/
theorem Derives.exists_token {level : Level} {i : Bool} {ts : List Token} {e : Expr K}
    (h : Derives level i ts e) {s : Span} {name : String} (he : e = .var s name) :
    ∃ t ∈ ts, t.kind = .name ∧ t.span = s ∧ t.text = name := by
  induction h with
  | product _ ih => exact ih he
  | factor _ ih => exact ih he
  | operand _ _ ih =>
    obtain ⟨t, ht, hname⟩ := ih he
    exact ⟨t, List.mem_append_right _ ht, hname⟩
  | plus _ _ ih =>
    obtain ⟨t, ht, hname⟩ := ih he
    exact ⟨t, List.mem_cons_of_mem _ ht, hname⟩
  | name ht =>
    obtain ⟨rfl, rfl⟩ := Expr.var.inj he
    exact ⟨_, List.mem_cons_self, ht, rfl, rfl⟩
  | paren _ ih => exact ih he
  | additive | multiplicative | minus | number | numberName | numberParen | enclosed => cases he

/-- The expressions of a problem, with the spans of their declarations. -/
def Problem.sides (p : Problem K) : List (Span × Expr K) :=
  p.objectives.map (fun o => (o.span, o.expr))
    ++ p.constraints.flatMap fun c => [(c.span, c.lhs), (c.span, c.rhs)]

/-- The expression is spelled in some tokens in a row, where the declaration stands. -/
def DeclaredIn (ts : List Token) (d : Span × Expr K) : Prop :=
  ∃ us, us <:+: ts ∧ d.1 = extent us ∧ SpelledIn us d.2

theorem DeclaredIn.mono {ts us : List Token} {d : Span × Expr K} (h : DeclaredIn ts d)
    (hsub : ts <:+: us) : DeclaredIn us d := by
  obtain ⟨vs, hvs, hd⟩ := h
  exact ⟨vs, hvs.trans hsub, hd⟩

theorem IsObjective.declaredIn {ts : List Token} {o : ObjectiveLine K} (h : IsObjective ts o) :
    DeclaredIn ts (o.span, o.expr) := by
  have hspelled := h.spelledIn
  obtain ⟨_, _, _⟩ := h
  exact ⟨_, List.infix_refl _, rfl, hspelled⟩

theorem IsRow.declaredIn {ts : List Token} {c : ConstraintLine K} (h : IsRow ts c) :
    DeclaredIn ts (c.span, c.lhs) ∧ DeclaredIn ts (c.span, c.rhs) := by
  have hspelled := h.spelledIn
  obtain ⟨_, _, _, _, _, _⟩ := h
  exact ⟨⟨_, List.infix_refl _, rfl, hspelled.1⟩, ⟨_, List.infix_refl _, rfl, hspelled.2⟩⟩

/-- Every declaration of a problem makes its expressions of its own tokens. -/
theorem IsProblem.declaredIn {ts : List Token} {q : Problem K} (h : IsProblem ts q) :
    ∀ d ∈ q.sides, DeclaredIn ts d := by
  obtain @⟨t, g, n, h, o, us, c, items, _, _, _, _, _, hitems⟩ := h
  have hbody : us <:+: t :: g ++ n :: h ++ o :: us ++ [c] := ⟨t :: g ++ n :: h ++ [o], [c], by simp⟩
  intro d hd
  -- the sides of a problem are its objectives and both sides of its rows
  rcases List.mem_append.mp hd with hd | hd
  · obtain ⟨line, hline, rfl⟩ := List.mem_map.mp hd
    obtain ⟨x, hx, hobjective⟩ := List.mem_filterMap.mp hline
    obtain ⟨vs, hvs, hitem⟩ := Series.exists_infix hitems x hx
    cases hitem with
    | objective ho =>
      obtain rfl := Option.some.inj hobjective
      exact ho.declaredIn.mono (hvs.trans hbody)
    | property | vars | block => cases hobjective
  · obtain ⟨row, hrow, hd⟩ := List.mem_flatMap.mp hd
    obtain ⟨x, hx, hrow⟩ := List.mem_flatMap.mp hrow
    obtain ⟨vs, hvs, hitem⟩ := Series.exists_infix hitems x hx
    cases hitem with
    | @block k g' o' ws c' rows _ _ _ hrows =>
      have hblock : ws <:+: k :: g' ++ o' :: ws ++ [c'] := ⟨k :: g' ++ [o'], [c'], by simp⟩
      obtain ⟨rs, hrs, hr⟩ := Series.exists_infix hrows row hrow
      have hsub := hrs.trans (hblock.trans (hvs.trans hbody))
      rcases List.mem_pair.mp hd with rfl | rfl
      · exact hr.declaredIn.1.mono hsub
      · exact hr.declaredIn.2.mono hsub
    | property | vars | objective => cases hrow

/-! ## Located problems -/

/-- What it means that the spans of the problem locate what they name. -/
structure Problem.Located (source : String) (p : Problem K) : Prop where
  /-- The text can be sliced where the problem stands. -/
  legal : p.span.Legal source
  /-- The slice alone is read as the problem, every span of which is lowered by its start. -/
  alone : Program.ofString (p.span.slice source) = .ok ⟨[p.relocate (· - p.span.start)]⟩
  /-- Declarations stand inside the problem. -/
  inside : ∀ s ∈ p.spans, s.Inside p.span
  /-- No two declarations overlap, whatever their kinds. -/
  apart : p.spans.Pairwise Span.Apart
  /-- Declarations of one kind are listed as they stand. -/
  properties : p.properties.Pairwise fun x y => x.span.Before y.span
  objectives : p.objectives.Pairwise fun x y => x.span.Before y.span
  constraints : p.constraints.Pairwise fun x y => x.span.Before y.span
  /-- A variable stands inside the declaration in whose expression it occurs, and is named by
  its slice. -/
  names : ∀ d ∈ p.sides, ∀ s name, .var s name ∈ d.2.parts →
    s.Inside d.1 ∧ s.slice source = name

/-- Where the declarations of a problem stand. -/
theorem IsProblem.spans {ts : List Token} {q : Problem K} (h : IsProblem ts q) (hts : InOrder ts) :
    (∀ s ∈ q.spans, s.Inside q.span) ∧ q.spans.Pairwise Span.Apart ∧
      (q.properties.Pairwise fun x y => x.span.Before y.span) ∧
      (q.objectives.Pairwise fun x y => x.span.Before y.span) ∧
      q.constraints.Pairwise fun x y => x.span.Before y.span := by
  have hinside := h.inside hts
  obtain ⟨head, o, body, c, items, rfl, -, -, hitems, hq⟩ := h.exists_body
  have hbody : InOrder body := hts.of_append.1.of_append.2.1.sublist (List.sublist_cons_self _ _)
  have hholds : Holds body (items.flatMap Item.spans) :=
    Series.holds (fun hus hx => IsItem.holds hx hus) hitems hbody
  have hordered := hholds.pairwise hbody
  -- the kept spans are some of those that the tokens hold, in another order
  have hkept : q.spans.Subperm (items.flatMap Item.spans) := by
    rw [hq]
    exact (List.sublist_append_left _ _).subperm.trans (Problem.spans_perm ..).subperm
  refine ⟨fun s hs => ?_, ?_, ?_, ?_, ?_⟩
  · refine hholds.inside hbody (fun t ht => hinside t ?_) s (hkept.subset hs)
    simp [ht]
  · obtain ⟨spans, hperm, hsub⟩ := hkept
    have hapart : spans.Pairwise Span.Apart := (hordered.sublist hsub).imp Or.inl
    exact (List.Perm.pairwise_iff Span.Apart.symm hperm).mp hapart
  · have hproperties : q.properties = items.filterMap Item.property? := by rw [hq]; rfl
    rw [hproperties]
    refine pairwise_kind? hordered fun x => ?_
    cases x <;> simp [Item.property?, Item.spans]
  · have hobjectives : q.objectives = items.filterMap Item.objective? := by rw [hq]; rfl
    rw [hobjectives]
    refine pairwise_kind? hordered fun x => ?_
    cases x <;> simp [Item.objective?, Item.spans]
  · have hconstraints : q.constraints = items.flatMap Item.rows := by rw [hq]; rfl
    rw [hconstraints]
    refine pairwise_kind hordered fun x => ?_
    cases x <;> simp [Item.rows, Item.spans]

/-- **Spans locate what they name.** The problems of an accepted text stand one behind the
other, and each of them is located. -/
theorem ofString_located {source : String} {p : Program K} (h : Program.ofString source = .ok p) :
    (p.problems.Pairwise fun q r => q.span.Before r.span) ∧
      ∀ q ∈ p.problems, q.Located source := by
  obtain ⟨ts, htokens, hts, hkinds, hvalid, c, hproblems⟩ := exists_acceptedFrom h
  constructor
  · have hholds : Holds ts (p.problems.flatMap fun q => [q.span]) :=
      Series.holds (fun hus hq => IsProblem.holds hq hus) hproblems hts
    rw [← List.map_eq_flatMap] at hholds
    exact List.pairwise_map.mp (hholds.pairwise hts)
  · intro q hq
    obtain ⟨mid, ⟨front, back, rfl⟩, hproblem⟩ := Series.exists_infix hproblems q hq
    have hmid : InOrder mid := hts.of_append.1.of_append.2.1
    have hvalid' : ∀ t ∈ mid, t.Valid K := fun t ht => hvalid t (by simp [ht])
    have hkinds' : ∀ t ∈ front ++ mid, t.kind ≠ .endOfInput := fun t ht =>
      hkinds t (List.mem_append_left _ ht)
    rw [List.append_assoc] at htokens
    obtain ⟨hlegal, halone⟩ := hproblem.alone htokens hkinds' hmid hvalid'
    obtain ⟨hinside, hapart, hproperties, hobjectives, hconstraints⟩ := hproblem.spans hmid
    refine ⟨hlegal, halone, hinside, hapart, hproperties, hobjectives, hconstraints, ?_⟩
    -- a variable is a name token of the declaration it stands in
    intro d hd s name hpart
    obtain ⟨us, hus, hspan, hspelled⟩ := hproblem.declaredIn d hd
    obtain ⟨i, vs, hvs, hderives⟩ := hspelled.parts _ hpart
    obtain ⟨t, ht, hk, rfl, rfl⟩ := hderives.exists_token rfl
    have hmem : t ∈ tokenize source := by
      rw [htokens]
      simp [hus.subset (hvs ht)]
    rw [hspan]
    refine ⟨(hmid.sublist hus.sublist).inside_extent (hvs ht) (by rw [hk]; rfl), ?_⟩
    exact (tiles_tokens (.ofString source)).lossless.slice t hmem

/-- Two problems, with comments and a letter of two bytes in the first. -/
def commentedSource : String :=
  "problem a \x7b // ≥\n vars ö, y\n max ö + (y // eins\n )\n constraints \x7b k: ö <= y \x7d\n\x7d\n"
    ++ "problem b \x7b min z \x7d"

/-- The first problem in `commentedSource`. -/
def commented : Problem ℚ where
  span := ⟨0, 84⟩
  name := "a"
  properties := []
  vars := some ⟨⟨20, 30⟩, ["ö", "y"]⟩
  objectives :=
    [⟨⟨32, 54⟩, .maximize, .binary (.var ⟨36, 38⟩ "ö") .add (.paren (.var ⟨42, 43⟩ "y"))⟩]
  constraints := [⟨⟨70, 80⟩, some "k", .var ⟨73, 75⟩ "ö", .le, .var ⟨79, 80⟩ "y"⟩]

/-- The second problem in `commentedSource`. -/
def commentless : Problem ℚ where
  span := ⟨85, 104⟩
  name := "b"
  properties := []
  vars := none
  objectives := [⟨⟨97, 102⟩, .minimize, .var ⟨101, 102⟩ "z"⟩]
  constraints := []

set_option maxRecDepth 2000 in -- the text is read character by character
/-- Comments between the tokens, and letters of two and three bytes, move every span behind them. -/
theorem ofString_located_commented :
    Program.ofString commentedSource = .ok ⟨[commented, commentless]⟩ ∧
    commented.span.Before commentless.span ∧
    commented.Located commentedSource ∧ commentless.Located commentedSource := by
  have hread : Program.ofString commentedSource = .ok ⟨[commented, commentless]⟩ := by cbv
  obtain ⟨hordered, hlocated⟩ := ofString_located hread
  exact ⟨hread, (List.pairwise_cons.mp hordered).1 _ (by simp), hlocated _ (by simp),
    hlocated _ (by simp)⟩

end CornerPoint.Source
