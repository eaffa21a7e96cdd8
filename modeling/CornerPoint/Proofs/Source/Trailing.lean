import Mathlib
import CornerPoint.Proofs.Source.Placement

/-!
# Comments at the end of a declaration

The span of a declaration ends where the last token ended that was read before the declaration
was complete. A property is complete with its value. Variables, objectives and rows are
complete at the end of their line, and the comments in front of it have been read by then: such
a declaration begins with its first token, but reaches over the comments behind its last one.

> `ofString_trailing`: properties stand exactly where their tokens stand; every other
> declaration does so exactly if no comment stands between it and the end of its line.

The rules of the grammar are split into what means something and the comments behind it
(`Ending`), and what follows a member of a list is read off the list (`Series.exists_line`).
-/

namespace CornerPoint.Source

variable {K : Type}

/-! ## Tokens that begin and end with something -/

/-- The first token means something. -/
def BeginsMeant (ts : List Token) : Prop := ∃ t us, ts = t :: us ∧ t.kind.isTrivia = false

/-- The last token means something. -/
def EndsMeant (ts : List Token) : Prop := ∃ us t, ts = us ++ [t] ∧ t.kind.isTrivia = false

/-- The first token and the last one are neither line ends nor comments. -/
structure Trimmed (ts : List Token) : Prop where
  begins : BeginsMeant ts
  ends : EndsMeant ts

section Ends

variable {ts us g : List Token} {t : Token}

theorem BeginsMeant.append (h : BeginsMeant ts) (us : List Token) : BeginsMeant (ts ++ us) := by
  obtain ⟨t, vs, rfl, ht⟩ := h
  exact ⟨t, vs ++ us, rfl, ht⟩

theorem EndsMeant.append (h : EndsMeant us) (ts : List Token) : EndsMeant (ts ++ us) := by
  obtain ⟨vs, t, rfl, ht⟩ := h
  exact ⟨ts ++ vs, t, (List.append_assoc _ _ _).symm, ht⟩

theorem EndsMeant.cons (h : EndsMeant us) (t : Token) : EndsMeant (t :: us) := h.append [t]

theorem endsMeant_concat (ts : List Token) (ht : t.kind.isTrivia = false) :
    EndsMeant (ts ++ [t]) := ⟨ts, t, rfl, ht⟩

theorem Trimmed.meant (h : Trimmed ts) : Token.Meant ts := by
  obtain ⟨us, t, rfl, ht⟩ := h.ends
  exact ⟨t, by simp, ht⟩

/-- Blanks in front do not move a declaration. -/
theorem extent_append_blank {lines : Bool} (hg : Blank lines g) (h : BeginsMeant ts) :
    extent (g ++ ts) = extent ts := by
  obtain ⟨t, us, rfl, -⟩ := h
  have hstart : (extent (g ++ t :: us)).start = (extent (t :: us)).start := by
    induction g with
    | nil => rfl
    | cons b g ih =>
      obtain ⟨hb, hg⟩ := blank_cons.mp hg
      have htrivia : b.kind.isTrivia = true := isTrivia_iff.mpr <| by
        obtain hk | ⟨-, hk⟩ := blank_singleton.mp hb
        · exact .inr hk
        · exact .inl hk
      rw [List.cons_append, extent_start_cons htrivia, ih hg]
  have hstop : (extent (g ++ t :: us)).stop = (extent (t :: us)).stop := by
    rw [extent_stop, extent_stop, stopAfter_append]
    rfl
  exact congrArg₂ Span.mk hstart hstop

/-- Whatever stands behind a declaration makes it longer. -/
theorem extent_append_eq_iff (hts : InOrder (ts ++ g)) (h : Token.Meant ts) :
    extent (ts ++ g) = extent ts ↔ g = [] := by
  refine ⟨fun heq => ?_, fun hg => by rw [hg, List.append_nil]⟩
  by_contra hne
  obtain ⟨c, hc⟩ := List.exists_mem_of_ne_nil g hne
  obtain ⟨a, -, b, hb, hextent⟩ := exists_extent h
  have hbefore : b.span.stop ≤ c.span.start := hts.of_append.2.2 b hb c hc
  have hsize := hts.nonempty c (List.mem_append_right _ hc)
  have hstop : c.span.stop ≤ b.span.stop := by
    have hle := hts.le_extent_stop (List.mem_append_right ts hc)
    rwa [heq, hextent] at hle
  omega

end Ends

/-! ## The rules of the grammar -/

section Rules

variable [Scalar K] {level : Level} {i : Bool} {us : List Token}

/-- An expression ends with something. -/
theorem Derives.endsMeant {e : Expr K} (h : Derives level i us e) : EndsMeant us := by
  have hsingle : ∀ {t : Token}, t.kind.isTrivia = false → EndsMeant [t] := fun ht =>
    endsMeant_concat [] ht
  induction h with
  | product _ ih => exact ih
  | factor _ ih => exact ih
  | paren _ ih => exact ih
  | additive _ _ _ _ _ ih => exact (ih.cons _).append _
  | multiplicative _ _ _ _ _ ih => exact (ih.cons _).append _
  | operand _ _ ih => exact ih.append _
  | minus _ _ ih => exact ih.cons _
  | plus _ _ ih => exact ih.cons _
  | number ht => exact hsingle (by rw [ht]; rfl)
  | name ht => exact hsingle (by rw [ht]; rfl)
  | numberName _ ht => exact (hsingle (by rw [ht]; rfl)).cons _
  | numberParen _ _ ih => exact ih.cons _
  | enclosed _ _ _ hc _ => exact endsMeant_concat _ (by rw [hc]; rfl)

/-- Blanks in front of an expression can be taken away. -/
theorem Derives.exists_begins {e : Expr K} (h : Derives level i us e) :
    ∃ g vs, us = g ++ vs ∧ Blank i g ∧ BeginsMeant vs ∧ Derives level i vs e := by
  -- the rules whose first token means something
  have hself : ∀ {level : Level} {i : Bool} {t : Token} {us : List Token} {e : Expr K},
      Derives level i (t :: us) e → t.kind.isTrivia = false →
      ∃ g vs, t :: us = g ++ vs ∧ Blank i g ∧ BeginsMeant vs ∧ Derives level i vs e :=
    fun h ht => ⟨[], _, rfl, .nil, ⟨_, _, rfl, ht⟩, h⟩
  induction h with
  | product _ ih =>
    obtain ⟨g, vs, rfl, hg, hm, hd⟩ := ih
    exact ⟨g, vs, rfl, hg, hm, .product hd⟩
  | factor _ ih =>
    obtain ⟨g, vs, rfl, hg, hm, hd⟩ := ih
    exact ⟨g, vs, rfl, hg, hm, .factor hd⟩
  | paren _ ih =>
    obtain ⟨g, vs, rfl, hg, hm, hd⟩ := ih
    exact ⟨g, vs, rfl, hg, hm, .paren hd⟩
  | @additive i ts l g' t op us r _ hg' hop hr ihl =>
    obtain ⟨g, vs, rfl, hg, hm, hd⟩ := ihl
    exact ⟨g, vs ++ g' ++ t :: us, by simp, hg, (hm.append _).append _, .additive hd hg' hop hr⟩
  | @multiplicative i ts l g' t op us r _ hg' hop hr ihl =>
    obtain ⟨g, vs, rfl, hg, hm, hd⟩ := ihl
    exact ⟨g, vs ++ g' ++ t :: us, by simp, hg, (hm.append _).append _,
      .multiplicative hd hg' hop hr⟩
  | @operand i g' ts e hg' _ ih =>
    obtain ⟨g, vs, rfl, hg, hm, hd⟩ := ih
    exact ⟨g' ++ g, vs, by simp, hg'.append hg, hm, .operand .nil hd⟩
  | minus ht h => exact hself (.minus ht h) (by rw [ht]; rfl)
  | plus ht h => exact hself (.plus ht h) (by rw [ht]; rfl)
  | number ht => exact hself (.number ht) (by rw [ht]; rfl)
  | name ht => exact hself (.name ht) (by rw [ht]; rfl)
  | numberName hn ht => exact hself (.numberName hn ht) (by rw [hn]; rfl)
  | numberParen hn h => exact hself (.numberParen hn h) (by rw [hn]; rfl)
  | enclosed ho h hg hc => exact hself (.enclosed ho h hg hc) (by rw [ho]; rfl)

/-- `Ending declares ts x`: the tokens `ts` are comments, the tokens of the declaration `x`, and
again comments; those behind it count to where it stands. -/
def Ending {α : Type} (declares : List Token → α → Prop) (span : α → Span) (ts : List Token)
    (x : α) : Prop :=
  ∃ front us g, ts = front ++ (us ++ g) ∧ Trimmed us ∧ Blank false g ∧ declares (us ++ g) x ∧
    span x = extent (us ++ g)

theorem IsNames.endsMeant {us : List Token} {names : List String} (h : IsNames us names) :
    EndsMeant us := by
  cases h with
  | first _ hn => exact endsMeant_concat _ (by rw [hn]; rfl)
  | next _ _ _ hn => exact endsMeant_concat _ (by rw [hn]; rfl)

/-- A list of variables reaches over the comments behind its last name. -/
theorem IsVariables.ending {x : VariableList} (h : IsVariables us x) :
    Ending IsVariables (·.span) us x := by
  cases h with
  | @intro v us xs g hv hnames hg =>
    exact ⟨[], v :: us, g, rfl, ⟨⟨v, us, rfl, by rw [hv]; rfl⟩, hnames.endsMeant.cons v⟩, hg,
      .intro hv hnames hg, rfl⟩

/-- An objective reaches over the comments behind its expression. -/
theorem IsObjective.ending {x : ObjectiveLine K} (h : IsObjective us x) :
    Ending IsObjective (·.span) us x := by
  cases h with
  | @intro t sense us e g ht hd hg =>
    exact ⟨[], t :: us, g, rfl, ⟨⟨t, us, rfl, isTrivia_eq_false rfl rfl ht⟩,
      hd.endsMeant.cons t⟩, hg, .intro ht hd hg, rfl⟩

/-- A row reaches over the comments behind its right-hand side, and over nothing in front of it. -/
theorem IsRow.ending {x : ConstraintLine K} (h : IsRow us x) :
    Ending IsRow (·.span) us x := by
  cases h with
  | @intro ls label us lhs g t relation vs rhs h hl hlhs hg ht hrhs hh =>
    have hends : ∀ us, EndsMeant (us ++ g ++ t :: vs) := fun us =>
      (hrhs.endsMeant.cons t).append _
    cases hl with
    | @some n c hn hc =>
      refine ⟨[], [n, c] ++ us ++ g ++ t :: vs, h, rfl, ⟨⟨n, _, rfl, by rw [hn]; rfl⟩, hends _⟩, hh,
        .intro (.some hn hc) hlhs hg ht hrhs hh, rfl⟩
    | none =>
      -- comments in front of the first operand are no part of the row
      obtain ⟨front, ws, rfl, hfront, hm, hd⟩ := hlhs.exists_begins
      have hrow : IsRow (ws ++ g ++ t :: vs ++ h)
          ⟨extent (ws ++ g ++ t :: vs ++ h), Option.none, lhs, relation, rhs⟩ :=
        .intro .none hd hg ht hrhs hh
      have hbegins : BeginsMeant (ws ++ g ++ t :: vs) := (hm.append _).append _
      have hextent : extent ([] ++ (front ++ ws) ++ g ++ t :: vs ++ h) =
          extent (ws ++ g ++ t :: vs ++ h) := by
        rw [← extent_append_blank hfront (hbegins.append h)]
        simp
      rw [hextent]
      exact ⟨front, ws ++ g ++ t :: vs, h, by simp, ⟨hbegins, hends ws⟩, hh, hrow, rfl⟩

/-- A property stands exactly where its tokens stand. -/
theorem IsProperty.trimmed {x : Property K} (h : IsProperty us x) :
    Trimmed us ∧ x.span = extent us := by
  have hvalue : ∀ {t : Token} {v : Value K}, t.value? = some v → t.kind.isTrivia = false :=
    fun {t v} hv => by
      unfold Token.value? at hv
      split at hv
      next ht => rw [ht]; rfl
      next ht => rw [ht]; rfl
      next ht => rw [ht]; rfl
      next => cases hv
  cases h with
  | @plain n t v hn ht =>
    exact ⟨⟨⟨n, [t], rfl, by rw [hn]; rfl⟩, endsMeant_concat [n] (hvalue ht)⟩, rfl⟩
  | @colon n c t v hn hc ht =>
    exact ⟨⟨⟨n, [c, t], rfl, by rw [hn]; rfl⟩, endsMeant_concat [n, c] (hvalue ht)⟩, rfl⟩

end Rules

/-! ## Lines -/

/-- The tokens `us` stand in a row in the tokens `ts`, and the end of a line follows. -/
def LineIn (ts us : List Token) : Prop := ∃ front back, ts = front ++ us ++ back ∧ EndsLine back

section Lines

variable {ts us vs : List Token}

theorem LineIn.mono (h : LineIn us vs) (hsub : us <:+: ts) : LineIn ts vs := by
  obtain ⟨front, back, rfl, hend⟩ := h
  obtain ⟨front', back', rfl⟩ := hsub
  exact ⟨front' ++ front, back ++ back', by simp, hend.append back'⟩

/-- A line without what stands in front of a declaration on it. -/
theorem LineIn.right {front : List Token} (h : LineIn ts (front ++ us)) : LineIn ts us := by
  obtain ⟨front', back, rfl, hend⟩ := h
  exact ⟨front' ++ front, back, by simp, hend⟩

theorem LineIn.isInfix (h : LineIn ts us) : us <:+: ts := by
  obtain ⟨front, back, rfl, -⟩ := h
  exact ⟨front, back, rfl⟩

/-- Members of a list that take up a line are lines. -/
theorem Series.exists_line {α : Type} {closer : Token.Kind} {item : List Token → α → Prop}
    {line : α → Bool} {c : Token} {xs : List α} (h : Series closer item line ts c xs) :
    ∀ x ∈ xs, line x = true → ∃ us, LineIn (ts ++ [c]) us ∧ item us x := by
  induction h with
  | nil => exact fun _ hx => absurd hx List.not_mem_nil
  | @cons g us x vs c xs _ hx hline _ ih =>
    refine List.forall_mem_cons.mpr ⟨fun hl => ⟨us, ⟨g, vs ++ [c], by simp, hline hl⟩, hx⟩, ?_⟩
    intro y hy hl
    obtain ⟨ws, hws, hitem⟩ := ih y hy hl
    exact ⟨ws, hws.mono ⟨g ++ us, [], by simp⟩, hitem⟩

end Lines

/-! ## Accepted texts -/

/-- The declaration `x` is made of the tokens `us` of the text, which begin and end with
something, and of the comments between them and the end of their line. -/
structure Trails {α : Type} (tokens : List Token) (declares : List Token → α → Prop) (x : α)
    (us g : List Token) : Prop where
  line : LineIn tokens (us ++ g)
  trimmed : Trimmed us
  comments : ∀ t ∈ g, t.kind = .comment
  declares : declares (us ++ g) x

/-- The declaration `x`, which stands at `s`, reaches from its first token to the last comment
behind it: it stands exactly where its tokens stand if and only if there is no such comment. -/
def ReachesOver {α : Type} (tokens : List Token) (declares : List Token → α → Prop) (x : α)
    (s : Span) : Prop :=
  ∃ us g, Trails tokens declares x us g ∧ s = extent (us ++ g) ∧ (s = extent us ↔ g = [])

/-- In its line there is nothing behind a declaration but comments. -/
theorem Ending.reachesOver {α : Type} {declares : List Token → α → Prop} {span : α → Span}
    {tokens ts : List Token} {x : α} (h : Ending declares span ts x) (hline : LineIn tokens ts)
    (htokens : InOrder ts) : ReachesOver tokens declares x (span x) := by
  obtain ⟨front, us, g, rfl, htrimmed, hg, hx, hspan⟩ := h
  refine ⟨us, g, ⟨hline.right, htrimmed, fun t ht => ?_, hx⟩, hspan, ?_⟩
  · exact (hg t ht).resolve_right fun hline => Bool.noConfusion hline.1
  · rw [hspan]
    exact extent_append_eq_iff htokens.of_append.2.1 htrimmed.meant

section Accepted

variable [Scalar K] {tokens body : List Token} {c : Token} {items : List (Item K)}
  (h : IsItems body c items) (hsub : body ++ [c] <:+: tokens) (hbody : InOrder (body ++ [c]))

include h hsub hbody

/-- The lists of variables among declarations. -/
theorem IsItems.variables_reachesOver :
    ∀ x ∈ items.filterMap Item.vars?, ReachesOver tokens IsVariables x x.span := by
  intro x hx
  obtain ⟨item, hitem, hvars⟩ := List.mem_filterMap.mp hx
  obtain rfl : item = .vars x := by
    cases item <;> simp_all [Item.vars?]
  obtain ⟨us, hus, hdeclared⟩ := Series.exists_line h _ hitem rfl
  obtain _ | hx := hdeclared
  exact hx.ending.reachesOver (hus.mono hsub) (hbody.sublist hus.isInfix.sublist)

/-- The objectives among declarations. -/
theorem IsItems.objectives_reachesOver :
    ∀ x ∈ items.filterMap Item.objective?, ReachesOver tokens IsObjective x x.span := by
  intro x hx
  obtain ⟨item, hitem, hobjective⟩ := List.mem_filterMap.mp hx
  obtain rfl : item = .objective x := by
    cases item <;> simp_all [Item.objective?]
  obtain ⟨us, hus, hdeclared⟩ := Series.exists_line h _ hitem rfl
  obtain _ | _ | hx := hdeclared
  exact hx.ending.reachesOver (hus.mono hsub) (hbody.sublist hus.isInfix.sublist)

/-- The rows of the blocks among declarations. -/
theorem IsItems.rows_reachesOver :
    ∀ x ∈ items.flatMap Item.rows, ReachesOver tokens IsRow x x.span := by
  intro x hx
  obtain ⟨item, hitem, hrow⟩ := List.mem_flatMap.mp hx
  obtain ⟨us, hus, hdeclared⟩ := Series.exists_infix h item hitem
  cases hdeclared with
  | @block t g o ws z rows _ _ _ hrows =>
    obtain ⟨vs, hvs, hrow⟩ := Series.exists_line hrows x hrow rfl
    have hblock : ws ++ [z] <:+: body ++ [c] :=
      List.IsInfix.trans ⟨t :: g ++ [o], [], by simp⟩ (hus.trans ⟨[], [c], by simp⟩)
    have hline := hvs.mono hblock
    exact hrow.ending.reachesOver (hline.mono hsub) (hbody.sublist hline.isInfix.sublist)
  | property | vars | objective => cases hrow

omit hbody in
/-- The properties among declarations. -/
theorem IsItems.properties_trimmed : ∀ x ∈ items.filterMap Item.property?,
    ∃ us, us <:+: tokens ∧ IsProperty us x ∧ Trimmed us ∧ x.span = extent us := by
  intro x hx
  obtain ⟨item, hitem, hproperty⟩ := List.mem_filterMap.mp hx
  obtain rfl : item = .property x := by
    cases item <;> simp_all [Item.property?]
  obtain ⟨us, hus, hdeclared⟩ := Series.exists_infix h _ hitem
  obtain hx | _ := hdeclared
  obtain ⟨htrimmed, hspan⟩ := hx.trimmed
  exact ⟨us, (hus.trans ⟨[], [c], by simp⟩).trans hsub, hx, htrimmed, hspan⟩

end Accepted

/-- **Where the declarations of a text end.** A property stands exactly where its tokens stand. A
list of variables, an objective or a row begins with its first token and reaches over the
comments behind its last one, up to the end of its line; so it stands exactly where its tokens
stand if and only if there are no such comments. -/
theorem ofString_trailing [Scalar K] {source : String} {p : Program K}
    (h : Program.ofString source = .ok p) : ∀ q ∈ p.problems,
      (∀ x ∈ q.properties, ∃ us, us <:+: tokenize source ∧ IsProperty us x ∧ Trimmed us ∧
        x.span = extent us) ∧
      (∀ x ∈ q.vars, ReachesOver (tokenize source) IsVariables x x.span) ∧
      (∀ x ∈ q.objectives, ReachesOver (tokenize source) IsObjective x x.span) ∧
      ∀ x ∈ q.constraints, ReachesOver (tokenize source) IsRow x x.span := by
  obtain ⟨ts, htokens, hts, -, -, z, hproblems⟩ := exists_acceptedFrom h
  intro q hq
  obtain ⟨mid, hmid, hproblem⟩ := Series.exists_infix hproblems q hq
  -- all declarations of a problem stand between its braces
  obtain ⟨head, o, body, c, items, rfl, -, -, hitems, hq'⟩ := hproblem.exists_body
  have hinfix : body ++ [c] <:+: ts :=
    List.IsInfix.trans ⟨head ++ [o], [], by simp⟩ hmid
  have hsub : body ++ [c] <:+: tokenize source := by
    rw [htokens]
    exact hinfix.trans (List.prefix_append _ _).isInfix
  have hbody : InOrder (body ++ [c]) := hts.sublist hinfix.sublist
  rw [hq']
  exact ⟨hitems.properties_trimmed hsub,
    fun x hx => hitems.variables_reachesOver hsub hbody x (List.mem_of_getLast? hx),
    hitems.objectives_reachesOver hsub hbody, hitems.rows_reachesOver hsub hbody⟩

/-- A list of variables without a comment behind it, and an objective with one. -/
def remarkSource : String := "problem p \x7b\n vars a, b\n max a // goal\n\x7d"

/-- The problem in `remarkSource`: the objective reaches over the comment. -/
def remark : Problem ℚ where
  span := ⟨0, 39⟩
  name := "p"
  properties := []
  vars := some ⟨⟨13, 22⟩, ["a", "b"]⟩
  objectives := [⟨⟨24, 37⟩, .maximize, .var ⟨28, 29⟩ "a"⟩]
  constraints := []

theorem ofString_remark : Program.ofString remarkSource = .ok ⟨[remark]⟩ := by cbv

/-- The objective has a remark behind it, and its span is longer by it. -/
theorem ofString_trailing_remark : Program.ofString remarkSource = .ok ⟨[remark]⟩ ∧
    ReachesOver (tokenize remarkSource) IsVariables ⟨⟨13, 22⟩, ["a", "b"]⟩ ⟨13, 22⟩ ∧
    ReachesOver (tokenize remarkSource) IsObjective
      (⟨⟨24, 37⟩, .maximize, .var ⟨28, 29⟩ "a"⟩ : ObjectiveLine ℚ) ⟨24, 37⟩ := by
  obtain ⟨-, hvars, hobjectives, -⟩ :=
    ofString_trailing ofString_remark remark (List.mem_singleton_self _)
  exact ⟨ofString_remark, hvars _ rfl, hobjectives _ (List.mem_singleton_self _)⟩

/-- **A declaration can reach over a comment.** The objective of an accepted text ends where no
token ends but a comment. -/
theorem remark_reachesOver : ¬ ∀ (source : String) (p : Program ℚ),
    Program.ofString source = .ok p → ∀ q ∈ p.problems, ∀ x ∈ q.objectives,
      ∃ t ∈ tokenize source, t.kind.isTrivia = false ∧ x.span.stop = t.span.stop := by
  intro h
  obtain ⟨t, ht, hk, hstop⟩ := h remarkSource ⟨[remark]⟩ ofString_remark remark
    (List.mem_singleton_self _) _ (List.mem_singleton_self _)
  have hends : ((tokenize remarkSource).filter (¬ ·.kind.isTrivia)).map (·.span.stop) =
      [7, 9, 11, 17, 19, 20, 22, 27, 29, 39, 39] := by cbv
  have hmem : t.span.stop ∈
      ((tokenize remarkSource).filter (¬ ·.kind.isTrivia)).map (·.span.stop) :=
    List.mem_map_of_mem (List.mem_filter.mpr ⟨ht, by simp [hk]⟩)
  rw [hends, ← hstop] at hmem
  exact absurd hmem (by decide)

end CornerPoint.Source
