import CornerPoint.Proofs.Descent.Expression

/-!
# Every call returns

The calls that read declarations are made at one depth only, but nothing about them depends on it:
from every cursor they return, and a result has consumed something.

What a result has consumed is counted on the way. The log of a cursor gets one entry for each list
of variables, each objective and each constraint, and no other (`Adds`). A problem keeps one list of
variables only, so the lists are counted by the words `vars` that have been passed, and the
objectives and constraints by those that are kept (`Tallies`).
-/

namespace CornerPoint.Source

namespace Cursor

variable {K : Type} [Scalar K] {α : Type} {lines : Bool} {m n j k : Nat} {c c' c'' : Cursor}

/-! ## Counting ends of lines -/

/-- On the way from `c` to `c'` the end of a line has been looked for `n` times, and `k` lists of
variables have begun. -/
structure Adds (n k : Nat) (c c' : Cursor) : Prop where
  le : c.pos ≤ c'.pos
  checks : c'.checks.length = c.checks.length + n
  lists : c'.lists = c.lists + k

theorem Adds.trans (h : Adds m j c c') (h' : Adds n k c' c'') : Adds (m + n) (j + k) c c'' where
  le := h.le.trans h'.le
  checks := by rw [h'.checks, h.checks, Nat.add_assoc]
  lists := by rw [h'.lists, h.lists, Nat.add_assoc]

theorem Moves.adds (h : Moves false c c') : Adds 0 0 c c' where
  le := h.le
  checks := congrArg List.length (h.quiet rfl).1
  lists := (h.quiet rfl).2

/-- All entries are made at one depth, so it is enough to know how many there are. -/
theorem Moves.checks_eq (h : Moves lines c c') (hn : c'.checks.length = c.checks.length + n) :
    c'.checks = c.checks ++ List.replicate n c.depth := by
  obtain ⟨m, hm⟩ := h.checks
  rw [hm, List.length_append, List.length_replicate] at hn
  obtain rfl : m = n := Nat.add_left_cancel hn
  exact hm

/-- The end of a line has been looked for once for each list of variables that has begun, and `n`
times more. -/
def Tallies (n : Nat) (c c' : Cursor) : Prop := ∃ k, Adds (n + k) k c c'

theorem Adds.tallies (h : Adds 0 0 c c') : Tallies 0 c c' := ⟨0, h⟩

/-- What is counted on two ways adds up. -/
theorem Tallies.trans (h : Tallies m c c') (h' : Tallies n c' c'') : Tallies (m + n) c c'' := by
  obtain ⟨j, hj⟩ := h
  obtain ⟨k, hk⟩ := h'
  have hadds := hj.trans hk
  rw [Nat.add_add_add_comm] at hadds
  exact ⟨j + k, hadds⟩

/-- What is passed in front of lines and behind them changes nothing about their number. -/
theorem Tallies.around {b b' : Cursor} (h : Tallies n c c') (hfront : Adds 0 0 b c)
    (hback : Adds 0 0 c' b') : Tallies n b b' := by
  have hall := hfront.tallies.trans (h.trans hback.tallies)
  rwa [Nat.zero_add] at hall

/-! ## Calls that return -/

/-- From the cursor the call returns, and what leads to a result has been counted. -/
abbrev Halts (lines : Bool) (n k : Nat) (c : Cursor) (x : Option (Returned α)) : Prop :=
  Returns lines c x (fun _ c' => Adds n k c c') fun _ => True

/-- From the cursor the call returns, behind it if there is a result. -/
abbrev Consumes (lines : Bool) (n k : Nat) (c : Cursor) (x : Option (Returned α)) : Prop :=
  Returns lines c x (fun _ c' => c.pos < c'.pos ∧ Adds n k c c') fun _ => True

/-- Likewise where `count` says how many objectives and constraints a result has. -/
abbrev Reckons (count : α → Nat) (c : Cursor) (x : Option (Returned α)) : Prop :=
  Returns true c x (fun a c' => c.pos < c'.pos ∧ Tallies (count a) c c') fun _ => True

/-- Likewise where a result goes on with what has been read in front of the cursor. -/
abbrev Grows (size : α → Nat) (s : α) (c : Cursor) (x : Option (Returned α)) : Prop :=
  Returns true c x
    (fun s' c' => c.pos < c'.pos ∧ ∃ n, size s' = size s + n ∧ Tallies n c c') fun _ => True

/-- A call that reads no declaration has nothing to count. -/
theorem Returns.halts {x : Option (Returned α)} {Q : α → Cursor → Prop} {E : SyntaxError → Prop}
    (h : Returns false c x Q E) : Halts lines 0 0 c x :=
  (h.mono (fun _ _ hmoves _ => hmoves.adds) fun _ _ => trivial).weaken

theorem Consumes.reckons {x : Option (Returned α)} (n k : Nat)
    (h : Consumes true (n + k) k c x) : Reckons (fun _ => n) c x :=
  h.mono (fun _ _ _ hQ => ⟨hQ.1, k, hQ.2⟩) fun _ hE => hE

/-- What has been read is put behind `s` by `add`. -/
theorem Reckons.grows {β : Type} {x : Option (Returned α)} {count : α → Nat} {size : β → Nat}
    {s : β} {add : α → β} (h : Reckons count c x) (hadd : ∀ a, size (add a) = size s + count a) :
    Grows size s c (andThen x fun a c => some (.ok (add a), c)) :=
  h.andThen fun a _ _ hQ => .ok (.refl _) ⟨hQ.1, count a, hadd a, hQ.2⟩

/-! ## Single tokens and lines -/

/-- Only the word `vars` begins a list of variables. -/
theorem expect_consumes {kind : Token.Kind} (hkind : MayPass lines kind) (c : Cursor) :
    Consumes lines 0 (if kind = .vars then 1 else 0) c (c.expect kind) := by
  refine (expect_returns hkind c).mono ?_ fun _ _ => trivial
  rintro t _ - ⟨c₁, hs, ht, rfl, rfl⟩
  have hadds : Adds 0 0 c c₁ := hs.moves.adds
  refine ⟨Nat.lt_succ_of_le hadds.le, Nat.le_succ_of_le hadds.le, hadds.checks, ?_⟩
  rw [lists_advance, kind_of_current ht, hadds.lists]
  rfl

theorem lineEnd_halts (c : Cursor) : Halts true 1 0 c c.lineEnd := by
  refine (lineEnd_returns c).mono (fun _ c' _ hQ => ?_) fun _ _ => trivial
  have hadds : Adds 0 0 c.checked c' := hQ.2.moves.adds
  exact ⟨hadds.le, hadds.checks.trans List.length_append, hadds.lists⟩

/-- The value of a property is one token; nothing is logged for it. -/
theorem value_halts (c : Cursor) : Halts lines 0 0 c (some (value (K := K) c)) := by
  refine Returns.halts (Q := fun _ _ => True) (E := fun _ => True) ?_
  rw [value]
  split
  next => exact .error (.refl _) trivial
  next t ht =>
    have hadvance : MayPass false t.kind → Moves false c c.advance := fun hmay =>
      .advance (kind_of_current ht ▸ hmay)
    split
    next hk => exact .ok (hadvance (by simp [MayPass, hk])) trivial
    next hk =>
      split
      next => exact .ok (hadvance (by simp [MayPass, hk])) trivial
      next => exact .error (hadvance (by simp [MayPass, hk])) trivial
    next hk => exact .ok (hadvance (by simp [MayPass, hk])) trivial
    next => exact .error (.refl _) trivial

/-- A sum is read at any depth. -/
theorem sum_consumes (c : Cursor) : Consumes false 0 0 c (sum (K := K) c) :=
  (sum_returns c ⟨[], .empty ⟨0, 0⟩ "", .objective 0 .maximize⟩
    (List.replicate c.depth ⟨none, .start⟩) _ (List.length_replicate).symm rfl).mono
    (fun _ _ hmoves hQ => ⟨hQ.1, hmoves.adds⟩) fun _ _ => trivial

theorem skipLines_moves (c : Cursor) : ∃ c', c.skipLines = some c' ∧ Moves false c c' :=
  (exists_skips isBlank_isTrivia c).imp fun _ hs => ⟨hs.eq, hs.moves⟩

/-- A loop over declarations halts, since each of them consumes something. -/
theorem loop_grows {more : Token.Kind → Bool} {body : α → Cursor → Option (Returned α)}
    {size : α → Nat} (hbody : ∀ s c, Grows size s c (body s c)) (s : α) (c : Cursor) :
    Returns true c (loop skipLines more body s c)
      (fun s' c' => (∃ n, size s' = size s + n ∧ Tallies n c c') ∧ more c'.kind = false)
      fun _ => True := by
  refine loop_returns (I := fun s' c' => ∃ n, size s' = size s + n ∧ Tallies n c c')
    (J := fun s' c' => ∃ n, size s' = size s + n ∧ Tallies n c c') (fun s' c' hI => ?_)
    (fun s' c' hJ _ => ?_) s c ⟨0, rfl, (Moves.refl c).adds.tallies⟩
  · obtain ⟨n, hsize, htallies⟩ := hI
    obtain ⟨c₁, heq, hmoves⟩ := skipLines_moves c'
    exact ⟨c₁, heq, hmoves.weaken, n, hsize, htallies.trans hmoves.adds.tallies⟩
  · obtain ⟨m, hsize, htallies⟩ := hJ
    refine (hbody s' c').mono (fun s'' c'' _ hQ => ⟨hQ.1, ?_⟩) fun _ hE => hE
    obtain ⟨n, hsize', htallies'⟩ := hQ.2
    exact ⟨m + n, by rw [hsize', hsize, Nat.add_assoc], htallies.trans htallies'⟩

/-! ## Declarations -/

theorem pastColon_moves (c : Cursor) : Moves lines c c.pastColon := by
  rw [pastColon]
  split
  next hk => exact .advance (by simp [MayPass, hk])
  next => exact .refl c

theorem property_consumes (c : Cursor) : Consumes true 0 0 c (property (K := K) c) := by
  refine (expect_consumes (by decide) c).andThen fun name c₁ _ hname => ?_
  have hcolon : Moves false c₁ c₁.pastColon := pastColon_moves c₁
  refine .behind hcolon.weaken ((value_halts _).andThen fun _ c₂ _ hvalue => .ok (.refl _) ?_)
  have hrest : Adds 0 0 c₁ c₂ := hcolon.adds.trans hvalue
  exact ⟨Nat.lt_of_lt_of_le hname.1 hrest.le, hname.2.trans hrest⟩

theorem nextName_consumes {names : List String} (h : c.kind = .comma) :
    Consumes lines 0 0 c (nextName names c) := by
  have hcomma : Moves false c c.advance := .advance (by simp [MayPass, h])
  refine .behind hcomma.weaken ((expect_consumes (by simp [MayPass]) c.advance).andThen
    fun _ c₁ _ hname => .ok (.refl _) ?_)
  exact ⟨Nat.lt_of_succ_lt hname.1, hcomma.adds.trans hname.2⟩

/-- Behind the first name of a list nothing begins another list. -/
theorem moreNames_halts (names : List String) (c : Cursor) :
    Halts lines 0 0 c (loop some (· = .comma) nextName names c) :=
  (loop_returns (I := fun _ _ => True) (J := fun _ _ => True) (E := fun _ => True)
    (fun _ c _ => ⟨c, rfl, .refl c, trivial⟩)
    (fun _ _ _ hmore => (nextName_consumes (of_decide_eq_true hmore)).mono
      (fun _ _ _ hQ => ⟨hQ.1, trivial⟩) fun _ hE => hE) names c trivial).halts

/-- A list of variables is logged once, and its word counted. -/
theorem varList_consumes (c : Cursor) : Consumes true 1 1 c (varList c) := by
  refine (expect_consumes (by decide) c).andThen fun _ c₁ _ hword => ?_
  refine (expect_consumes (by decide) c₁).andThen fun _ c₂ _ hname => ?_
  refine (moreNames_halts _ c₂).andThen fun _ c₃ _ hnames => ?_
  refine (lineEnd_halts c₃).andThen fun _ c₄ _ hend => .ok (.refl _) ?_
  have hrest : Adds 1 0 c₁ c₄ := hname.2.trans (hnames.trans hend)
  exact ⟨Nat.lt_of_lt_of_le hword.1 hrest.le, hword.2.trans hrest⟩

/-- An objective is logged once, at the end of its line. -/
theorem objective_consumes (c : Cursor) : Consumes true 1 0 c (objective (K := K) c) := by
  refine .skip isBlank_isTrivia fun c₁ hs => ?_
  simp only []
  split
  next => exact .error (.refl _) trivial
  next sense hsense =>
    have hnext : Moves false c₁ c₁.advance := .advance (.of_eq_some rfl rfl hsense)
    have hword : Adds 0 0 c c₁.advance := (hs.moves.trans hnext).adds
    refine .behind hnext.weaken ((sum_consumes c₁.advance).weaken.andThen fun _ c₂ _ hsum => ?_)
    refine (lineEnd_halts c₂).andThen fun _ c₃ _ hend => .ok (.refl _) ?_
    have hrest : Adds 1 0 c₁.advance c₃ := hsum.2.trans hend
    exact ⟨Nat.lt_of_le_of_lt hword.le (Nat.lt_of_lt_of_le hsum.1 hend.le), hword.trans hrest⟩

/-- A label is a name and a colon, passed together or not at all. -/
theorem label_moves (c : Cursor) : Moves lines c (label c).2 := by
  rw [label]
  split
  next => exact .refl c
  next t ht =>
    split
    next hk =>
      have hname : Moves lines c c.advance := .advance (by simp [MayPass, kind_of_current ht, hk.1])
      have hcolon : c.advance.kind = .colon := hk.2
      exact hname.trans (.advance (by simp [MayPass, hcolon]))
    next => exact .refl c

/-- A constraint is logged once, behind its right-hand side. -/
theorem sides_consumes (first : Span) (label : Option String) (c : Cursor) :
    Consumes true 1 0 c (sides (K := K) first label c) := by
  refine (sum_consumes c).weaken.andThen fun _ c₁ _ hlhs => .skip (isBlank_isBlankAt _) fun c₂ hs =>
    ?_
  split
  next => exact .error (.refl _) trivial
  next relation hrelation =>
    have hnext : Moves false c₂ c₂.advance := .advance (.of_eq_some rfl rfl hrelation)
    refine .behind hnext.weaken ((sum_consumes c₂.advance).weaken.andThen fun _ c₃ _ hrhs => ?_)
    refine (lineEnd_halts c₃).andThen fun _ c₄ _ hend => .ok (.refl _) ?_
    have hrest : Adds 1 0 c₁ c₄ := (hs.moves.trans hnext).adds.trans (hrhs.2.trans hend)
    exact ⟨Nat.lt_of_lt_of_le hlhs.1 hrest.le, hlhs.2.trans hrest⟩

/-- A constraint with its label. -/
theorem row_consumes (c : Cursor) : Consumes true 1 0 c (row (K := K) c) := by
  refine .skip isBlank_isTrivia fun c₁ hs => .behind (label_moves c₁) ?_
  have hfront : Adds 0 0 c (label c₁).2 := (hs.moves.trans (label_moves c₁)).adds
  refine (sides_consumes (firstSpan c₁) (label c₁).1 (label c₁).2).mono ?_ fun _ hE => hE
  exact fun _ _ _ hQ => ⟨Nat.lt_of_le_of_lt hfront.le hQ.1, hfront.trans hQ.2⟩

theorem nextRow_grows (rows : List (ConstraintLine K)) (c : Cursor) :
    Grows List.length rows c (nextRow rows c) :=
  ((row_consumes c).reckons 1 0).grows fun _ => List.length_append

/-- A block has been logged once for each of its rows. -/
theorem block_reckons (c : Cursor) : Reckons List.length c (block (K := K) c) := by
  refine (expect_consumes (by decide) c).andThen fun _ c₁ _ hword => ?_
  refine (expect_consumes (by decide) c₁).andThen fun _ c₂ _ hopen => ?_
  refine (loop_grows nextRow_grows [] c₂).andThen fun rows c₃ hmoves₃ hrows => ?_
  refine (expect_consumes (by decide) c₃).andThen fun _ c₄ _ hclose => .ok (.refl _) ?_
  -- the loop began with no rows, so all that it counted are there
  obtain ⟨n, hlength, htallies⟩ := hrows.1
  obtain rfl : rows.length = n := hlength.trans (Nat.zero_add n)
  refine ⟨?_, htallies.around (hword.2.trans hopen.2) hclose.2⟩
  exact Nat.lt_of_lt_of_le hword.1 ((hopen.2.le.trans hmoves₃.le).trans hclose.2.le)

/-! ## Problems -/

/-- An objective and the rows of a block are kept. A list of variables is not counted among them,
and of a property there is no end of a line. -/
theorem nextItem_grows (p : Problem K) (c : Cursor) :
    Grows Problem.lineCount p c (nextItem p c) := by
  have hobjective : ∀ x, (p.addObjective x).lineCount = p.lineCount + 1 := fun x => by
    rw [Problem.lineCount, Problem.addObjective, List.length_append, Nat.add_right_comm]
    rfl
  have hrows : ∀ rows, (p.addRows rows).lineCount = p.lineCount + rows.length := fun rows => by
    rw [Problem.lineCount, Problem.addRows, List.length_append, ← Nat.add_assoc]
    rfl
  rw [nextItem]
  split
  next => exact ((objective_consumes c).reckons 1 0).grows hobjective
  next => exact ((objective_consumes c).reckons 1 0).grows hobjective
  next => exact ((varList_consumes c).reckons 0 1).grows fun _ => rfl
  next => exact (block_reckons c).grows hrows
  next => exact ((property_consumes c).reckons 0 0).grows fun _ => rfl
  next => exact .error (.refl _) trivial

/-- A problem has been logged once for each objective and row that it keeps, besides its lists of
variables. -/
theorem problem_reckons (c : Cursor) : Reckons Problem.lineCount c (problem (K := K) c) := by
  refine (expect_consumes (by decide) c).andThen fun word c₁ _ hword => ?_
  refine (expect_consumes (by decide) c₁).andThen fun name c₂ _ hname => ?_
  refine (expect_consumes (by decide) c₂).andThen fun _ c₃ _ hopen => ?_
  refine (loop_grows nextItem_grows _ c₃).andThen fun p c₄ hmoves₄ hitems => ?_
  refine (expect_consumes (by decide) c₄).andThen fun brace c₅ _ hclose => .ok (.refl _) ?_
  -- a problem without declarations counts no lines
  obtain ⟨n, hcount, htallies⟩ := hitems.1
  obtain rfl : p.lineCount = n := hcount.trans (Nat.zero_add n)
  have hfront : Adds 0 0 c₁ c₃ := hname.2.trans hopen.2
  refine ⟨?_, htallies.around (hword.2.trans hfront) hclose.2⟩
  exact Nat.lt_of_lt_of_le hword.1 ((hfront.le.trans hmoves₄.le).trans hclose.2.le)

/-- A problem more, with all that it has been logged for. -/
theorem nextProblem_grows (ps : List (Problem K)) (c : Cursor) :
    Grows (fun ps => (ps.map Problem.lineCount).sum) ps c (nextProblem ps c) := by
  rw [nextProblem]
  split
  next => exact (problem_reckons c).grows fun p => by simp
  next => exact .error (.refl _) trivial

/-- All that has been kept is counted where the text ends. -/
theorem program_tallies (c : Cursor) : Returns true c (program (K := K) c)
    (fun x c' => Tallies x.lineCount c c' ∧ c'.kind = .endOfInput) fun _ => True := by
  refine (loop_grows nextProblem_grows [] c).andThen fun ps c₁ _ hproblems => .ok (.refl _) ?_
  obtain ⟨n, hcount, htallies⟩ := hproblems.1
  obtain rfl : (ps.map Problem.lineCount).sum = n := hcount.trans (Nat.zero_add n)
  exact ⟨htallies, by simpa using hproblems.2⟩

end Cursor

end CornerPoint.Source
