import CornerPoint.Proofs.Compile.Meaning
import CornerPoint.Proofs.Number.Decimal
import CornerPoint.Proofs.Source.Acceptance
import CornerPoint.Proofs.Source.Writing

/-!
# The expressions of an accepted source text

Every expression in an accepted text, and every part of one, is derived from tokens of the text.
So its names are names and its numbers are decimals, and all of it can be written again.

> `exists_derives`: a part of an expression of an accepted text derives from some of its tokens.
> `Derives.printable`: what derives from tokens of a text is printable.
-/

namespace CornerPoint.Source

/-- The expressions of a program: its objectives and the sides of its constraints. -/
def Program.exprs {K : Type} (p : Program K) : List (Expr K) :=
  p.problems.flatMap fun q =>
    q.objectives.map (·.expr) ++ q.constraints.flatMap fun c => [c.lhs, c.rhs]

section Members

variable {K : Type} [Scalar K]

/-- What is accepted derives from the grammar. -/
theorem isProgram_of_ofString {source : String} {p : Program K}
    (h : Program.ofString source = .ok p) : IsProgram (tokenize source) p := by
  obtain ⟨front, hts, hfront⟩ := tokenize_ends source
  rw [Program.ofString, Program.ofTokens, hts, Reader.run_append_end _ hfront rfl] at h
  rw [hts]
  cases hr : (Reader.start : Reader K).advance front with
  | error e => rw [hr] at h; cases h
  | ok r => rw [hr] at h; exact isProgram_of_finish hr h rfl

omit [Scalar K] in
/-- The tokens of a member of a series stand in a row in those of the series. -/
theorem Series.exists_infix {α : Type} {closer : Token.Kind} {item : List Token → α → Prop}
    {line : α → Bool} {ts : List Token} {c : Token} {xs : List α}
    (h : Series closer item line ts c xs) : ∀ x ∈ xs, ∃ us, us <:+: ts ∧ item us x := by
  induction h with
  | nil => exact fun _ hx => absurd hx List.not_mem_nil
  | @cons g us x vs c xs _ hx _ _ ih =>
    refine List.forall_mem_cons.mpr ⟨⟨us, ⟨g, vs, rfl⟩, hx⟩, fun y hy => ?_⟩
    obtain ⟨ws, hws, hitem⟩ := ih y hy
    exact ⟨ws, hws.trans (List.suffix_append _ _).isInfix, hitem⟩

omit [Scalar K] in
/-- Every member of a series has its tokens among those of the series. -/
theorem Series.exists_item {α : Type} {closer : Token.Kind} {item : List Token → α → Prop}
    {line : α → Bool} {ts : List Token} {c : Token} {xs : List α}
    (h : Series closer item line ts c xs) : ∀ x ∈ xs, ∃ us, us ⊆ ts ∧ item us x := by
  intro x hx
  obtain ⟨us, hus, hitem⟩ := h.exists_infix x hx
  exact ⟨us, hus.subset, hitem⟩

/-- The expression derives from some of the tokens, outside parentheses or inside some. -/
def SpelledIn (ts : List Token) (e : Expr K) : Prop :=
  ∃ i us, us ⊆ ts ∧ Derives .sum i us e

theorem SpelledIn.mono {ts us : List Token} {e : Expr K} (h : SpelledIn ts e) (hsub : ts ⊆ us) :
    SpelledIn us e := by
  obtain ⟨i, vs, hvs, hd⟩ := h
  exact ⟨i, vs, fun t ht => hsub (hvs ht), hd⟩

theorem IsObjective.spelledIn {ts : List Token} {o : ObjectiveLine K} (h : IsObjective ts o) :
    SpelledIn ts o.expr := by
  obtain ⟨_, hd, _⟩ := h
  exact ⟨false, _, fun t ht => by simp [ht], hd⟩

theorem IsRow.spelledIn {ts : List Token} {c : ConstraintLine K} (h : IsRow ts c) :
    SpelledIn ts c.lhs ∧ SpelledIn ts c.rhs := by
  obtain ⟨_, hl, _, _, hr, _⟩ := h
  exact ⟨⟨false, _, fun t ht => by simp [ht], hl⟩, ⟨false, _, fun t ht => by simp [ht], hr⟩⟩

/-- The expressions of a declaration. -/
theorem IsItem.spelledIn {ts : List Token} {x : Item K} (h : IsItem ts x) :
    (∀ o ∈ x.objective?, SpelledIn ts o.expr) ∧
      ∀ c ∈ x.rows, SpelledIn ts c.lhs ∧ SpelledIn ts c.rhs := by
  cases h with
  | property => exact ⟨by simp [Item.objective?], by simp [Item.rows]⟩
  | vars => exact ⟨by simp [Item.objective?], by simp [Item.rows]⟩
  | objective ho => exact ⟨fun o hx => Option.some.inj hx ▸ ho.spelledIn, by simp [Item.rows]⟩
  | @block t g o us c rows _ _ _ hrows =>
    refine ⟨by simp [Item.objective?], fun r hr => ?_⟩
    obtain ⟨vs, hvs, hrow⟩ := Series.exists_item hrows r hr
    have hsub : vs ⊆ t :: g ++ o :: us ++ [c] := fun t ht => by simp [hvs ht]
    exact ⟨hrow.spelledIn.1.mono hsub, hrow.spelledIn.2.mono hsub⟩

/-- Every problem of a program is made of declarations, with their tokens among those of the
program. -/
theorem IsProgram.exists_items {ts : List Token} {p : Program K} (h : IsProgram ts p) :
    ∀ q ∈ p.problems, ∃ span name items, q = .ofItems span name items ∧
      ∀ x ∈ items, ∃ us, us ⊆ ts ∧ IsItem us x := by
  obtain @⟨ts, z, ps, hproblems⟩ := h
  intro q hq
  obtain ⟨us, hus, hproblem⟩ := Series.exists_item hproblems q hq
  obtain @⟨t, g, n, h, o, vs, c, items, _, _, _, _, _, hitems⟩ := hproblem
  have hsub : vs ⊆ t :: g ++ n :: h ++ o :: vs ++ [c] := fun t ht => by simp [ht]
  refine ⟨_, _, items, rfl, fun x hx => ?_⟩
  obtain ⟨ws, hws, hx⟩ := Series.exists_item hitems x hx
  exact ⟨ws, fun t ht => List.mem_append_left _ (hus (hsub (hws ht))), hx⟩

/-- The expressions of a program. -/
theorem IsProgram.spelledIn {ts : List Token} {p : Program K} (h : IsProgram ts p) :
    ∀ e ∈ p.exprs, SpelledIn ts e := by
  intro e he
  obtain ⟨q, hq, he⟩ := List.mem_flatMap.mp he
  obtain ⟨span, name, items, rfl, hitem⟩ := h.exists_items q hq
  rcases List.mem_append.mp he with he | he
  · obtain ⟨line, hline, rfl⟩ := List.mem_map.mp he
    obtain ⟨x, hx, hobjective⟩ := List.mem_filterMap.mp hline
    obtain ⟨ws, hws, hx⟩ := hitem x hx
    exact (hx.spelledIn.1 line hobjective).mono hws
  · obtain ⟨row, hrow, he⟩ := List.mem_flatMap.mp he
    obtain ⟨x, hx, hrow⟩ := List.mem_flatMap.mp hrow
    obtain ⟨ws, hws, hx⟩ := hitem x hx
    have hsides := hx.spelledIn.2 row hrow
    rcases List.mem_pair.mp he with rfl | rfl
    · exact hsides.1.mono hws
    · exact hsides.2.mono hws

/-! ## Names of variables -/

omit [Scalar K] in
/-- Listed names are the texts of name tokens. -/
theorem IsNames.exists_token {ts : List Token} {names : List String} (h : IsNames ts names) :
    ∀ name ∈ names, ∃ t ∈ ts, t.kind = .name ∧ t.text = name := by
  induction h with
  | @first g n _ hn =>
    exact List.forall_mem_singleton.mpr ⟨n, by simp, hn, rfl⟩
  | @next us xs c g n _ _ _ hn ih =>
    rw [List.forall_mem_append, List.forall_mem_singleton]
    refine ⟨fun name hname => ?_, n, by simp, hn, rfl⟩
    obtain ⟨t, ht, hkind, htext⟩ := ih name hname
    exact ⟨t, by simp [ht], hkind, htext⟩

/-- The names of a list are name tokens of the list. -/
theorem IsItem.exists_token {ts : List Token} {list : VariableList}
    (h : IsItem (K := K) ts (.vars list)) :
    ∀ name ∈ list.names, ∃ t ∈ ts, t.kind = .name ∧ t.text = name := by
  obtain _ | @⟨us, x, hvars⟩ := h
  obtain @⟨v, us, xs, g, _, hnames, _⟩ := hvars
  intro name hname
  obtain ⟨t, ht, hkind, htext⟩ := hnames.exists_token name hname
  exact ⟨t, by simp [ht], hkind, htext⟩

/-- The variables that a problem of an accepted text lists are names. -/
theorem isName_of_mem_vars {source : String} {p : Program K} (h : Program.ofString source = .ok p)
    {q : Problem K} (hq : q ∈ p.problems) {list : VariableList} (hlist : q.vars = some list) :
    ∀ name ∈ list.names, IsName name.toList := by
  obtain ⟨span, name, items, rfl, hitem⟩ := (isProgram_of_ofString h).exists_items q hq
  obtain ⟨x, hx, hvars⟩ := List.mem_filterMap.mp (List.mem_of_getLast? hlist)
  obtain ⟨ws, hws, hx⟩ := hitem x hx
  obtain rfl : x = .vars list := by
    cases x <;> simp_all [Item.vars?]
  intro name hname
  obtain ⟨t, ht, hkind, rfl⟩ := hx.exists_token name hname
  exact isName_of_mem_tokens (hws ht) hkind

end Members

/-! ## Parts of expressions -/

section Parts

variable {K : Type} [Scalar K] {level : Level} {i : Bool} {ts : List Token} {e : Expr K}

/-- Every nonterminal of expressions is a sum. -/
theorem Derives.sum (h : Derives level i ts e) : Derives .sum i ts e := by
  have hoperand : ∀ {us : List Token} {e : Expr K}, Derives .operand i us e →
      Derives .sum i us e := fun h => .product (.factor (.operand (g := []) .nil h))
  cases level with
  | sum => exact h
  | product => exact .product h
  | factor => exact .product (.factor h)
  | operand => exact hoperand h
  | paren => exact hoperand (.paren h)

theorem Derives.spelledIn (h : Derives level i ts e) : SpelledIn ts e :=
  ⟨i, ts, List.Subset.refl _, h.sum⟩

omit [Scalar K] in
theorem Expr.forall_mem_parts_binary {P : Expr K → Prop} {left right : Expr K} {op : Operator}
    (h : P (.binary left op right)) (hl : ∀ part ∈ left.parts, P part)
    (hr : ∀ part ∈ right.parts, P part) : ∀ part ∈ (binary left op right).parts, P part :=
  List.forall_mem_cons.mpr ⟨h, List.forall_mem_append.mpr ⟨hl, hr⟩⟩

/-- The parts of an expression that derives from tokens derive from some of them. -/
theorem Derives.parts (h : Derives level i ts e) : ∀ part ∈ e.parts, SpelledIn ts part := by
  -- the number of an implicit product is a part that no derivation inside it yields
  have hnumber : ∀ {n : Token} {us : List Token}, n.kind = .number →
      SpelledIn (n :: us) (.number (n.number : K)) := fun hn =>
    (Derives.number (i := i) hn).spelledIn.mono fun t ht => by simp_all
  induction h with
  | product _ ih => exact ih
  | factor _ ih => exact ih
  | paren _ ih => exact ih
  | operand _ _ ih => exact fun part hp => (ih part hp).mono (List.subset_append_right _ _)
  | plus _ _ ih => exact fun part hp => (ih part hp).mono (List.subset_cons_self _ _)
  | additive hl hg ht hr ihl ihr =>
    exact Expr.forall_mem_parts_binary (Derives.additive hl hg ht hr).spelledIn
      (fun part hp => (ihl part hp).mono fun t ht => by simp [ht])
      fun part hp => (ihr part hp).mono fun t ht => by simp [ht]
  | multiplicative hl hg ht hr ihl ihr =>
    exact Expr.forall_mem_parts_binary (Derives.multiplicative hl hg ht hr).spelledIn
      (fun part hp => (ihl part hp).mono fun t ht => by simp [ht])
      fun part hp => (ihr part hp).mono fun t ht => by simp [ht]
  | minus ht hf ih =>
    exact List.forall_mem_cons.mpr ⟨(Derives.minus ht hf).spelledIn,
      fun part hp => (ih part hp).mono (List.subset_cons_self _ _)⟩
  | number hn => exact List.forall_mem_singleton.mpr (hnumber hn)
  | name ht => exact List.forall_mem_singleton.mpr (Derives.name (i := i) ht).spelledIn
  | numberName hn ht =>
    exact Expr.forall_mem_parts_binary (Derives.numberName (i := i) hn ht).spelledIn
      (List.forall_mem_singleton.mpr (hnumber hn))
      (List.forall_mem_singleton.mpr ((Derives.name (i := i) ht).spelledIn.mono
        (List.subset_cons_self _ _)))
  | numberParen hn hp ih =>
    exact Expr.forall_mem_parts_binary (Derives.numberParen hn hp).spelledIn
      (List.forall_mem_singleton.mpr (hnumber hn))
      fun part hp => (ih part hp).mono (List.subset_cons_self _ _)
  | enclosed ho hs hg hc ih =>
    exact List.forall_mem_cons.mpr ⟨(Derives.enclosed (i := i) ho hs hg hc).spelledIn,
      fun part hp => (ih part hp).mono fun t ht => by simp [ht]⟩

/-- The parts of an expression are spelled in the same tokens. -/
theorem SpelledIn.parts (h : SpelledIn ts e) : ∀ part ∈ e.parts, SpelledIn ts part := by
  obtain ⟨i, us, hus, hd⟩ := h
  exact fun part hp => (hd.parts part hp).mono hus

/-- If the token is a name or a number, it can be written again. -/
def Token.Printable (K : Type) [Scalar K] (t : Token) : Prop :=
  (t.kind = .name → IsName t.text.toList) ∧ (t.kind = .number → Legible (t.number : K))

/-- What derives from tokens that can be written again can be written again. -/
theorem Derives.printable (h : Derives level i ts e) (hts : ∀ t ∈ ts, t.Printable K) :
    e.Printable := by
  induction h with
  | product _ ih => exact ih hts
  | factor _ ih => exact ih hts
  | paren _ ih => exact ih hts
  | operand _ _ ih => exact ih (List.forall_mem_append.mp hts).2
  | plus _ _ ih => exact ih (List.forall_mem_cons.mp hts).2
  | minus _ _ ih => exact ih (List.forall_mem_cons.mp hts).2
  -- the blanks and the operator between the operands are of no account
  | additive _ _ _ _ ihl ihr =>
    simp only [List.forall_mem_append, List.forall_mem_cons] at hts
    exact ⟨ihl hts.1.1, ihr hts.2.2⟩
  | multiplicative _ _ _ _ ihl ihr =>
    simp only [List.forall_mem_append, List.forall_mem_cons] at hts
    exact ⟨ihl hts.1.1, ihr hts.2.2⟩
  | number hn => exact (List.forall_mem_singleton.mp hts).2 hn
  | name ht => exact (List.forall_mem_singleton.mp hts).1 ht
  | numberName hn ht =>
    simp only [List.forall_mem_cons] at hts
    exact ⟨hts.1.2 hn, hts.2.1.1 ht⟩
  | numberParen hn _ ih =>
    rw [List.forall_mem_cons] at hts
    exact ⟨hts.1.2 hn, ih hts.2⟩
  | enclosed _ _ _ _ ih =>
    simp only [List.forall_mem_append, List.forall_mem_cons] at hts
    exact ih hts.1.1.2

end Parts

/-! ## Rational numbers -/

/-- A token without a sign has a decimal for its value, which is zero if it is no numeral. -/
theorem Token.exists_decimal {t : Token} {c : Char} {cs : List Char}
    (htext : t.text.toList = c :: cs) (hc : c.isDigit = true ∨ c = '.') :
    ∃ d : Decimal, (t.number : ℚ) = d.toRat := by
  have hread : (Scalar.ofText? t.text : Option ℚ)
      = (Decimal.ofChars? (c :: cs)).map Decimal.toRat := by
    show Decimal.signed? _ _ = _
    rw [Decimal.signed?, htext]
    split
    next heq => exact absurd hc (by rw [(List.cons.inj heq).1]; decide)
    next heq => exact absurd hc (by rw [(List.cons.inj heq).1]; decide)
    next => rfl
  rw [Token.number, hread]
  cases Decimal.ofChars? (c :: cs) with
  | none => exact ⟨⟨0, 0⟩, by cbv⟩
  | some d => exact ⟨d, rfl⟩

/-- The names and numbers among the tokens of a text can be written again. -/
theorem printable_of_mem_tokenize {source : String} :
    ∀ t ∈ tokenize source, t.Printable ℚ := by
  refine fun t ht => ⟨isName_of_mem_tokens ht, fun hk => ?_⟩
  obtain ⟨c, cs, htext, hc⟩ := number_head_of_mem_tokens ht hk
  obtain ⟨d, hd⟩ := Token.exists_decimal htext hc
  exact hd ▸ d.legible_toRat

/-- Every part of an expression of an accepted text derives from tokens that can be written
again. -/
theorem exists_derives {source : String} {p : Program ℚ} (h : Program.ofString source = .ok p)
    {e part : Expr ℚ} (he : e ∈ p.exprs) (hpart : part ∈ e.parts) :
    ∃ i ts, Derives .sum i ts part ∧ part.Printable := by
  obtain ⟨i, ts, hts, hd⟩ := ((isProgram_of_ofString h).spelledIn e he).parts part hpart
  exact ⟨i, ts, hd, hd.printable fun t ht => printable_of_mem_tokenize t (hts ht)⟩

end CornerPoint.Source
