import Mathlib
import CornerPoint.Proofs.Source.Placement

/-!
# What a problem keeps of its declarations

Properties, objectives and rows are collected, but for a list of variables there is one place
only: a later list takes it from an earlier one, and nothing is said about the earlier one. So a
declaration of an accepted text can be lost (`vars_lost`), and this file says which are:

> `ofString_keeps`: what stands between the braces of a problem and belongs to a declaration is
> kept, unless it belongs to a list of variables with another list behind it.

The tokens between the braces hold declarations (`Holds`), each token in the span of one. The
kept spans and the dropped ones together are all of these (`Problem.spans_perm`), and as they are
apart, no token stands in a kept and in a dropped one.
-/

namespace CornerPoint.Source

section Braces

variable {K : Type} {tokens front head body back : List Token} {o c t : Token} {q : Problem K}

/-- The token stands strictly between the opening and the closing brace of the problem. -/
def Problem.Encloses (q : Problem K) (tokens : List Token) (t : Token) : Prop :=
  (∃ o ∈ tokens, o.kind = .openBrace ∧ q.span.start ≤ o.span.start ∧ o.span.stop ≤ t.span.start) ∧
    t.span.stop < q.span.stop

/-- The token stands in a declaration that the problem keeps. -/
def Problem.Keeps (q : Problem K) (t : Token) : Prop := ∃ s ∈ q.spans, t.span.Inside s

/-- Whatever belongs to a declaration between the braces of the problem is kept. -/
def Problem.KeepsAll (source : String) (q : Problem K) : Prop :=
  ∀ t ∈ tokenize source, q.Encloses (tokenize source) t → t.kind.isFrame = false → q.Keeps t

theorem Lossless.le {source : String} (h : Lossless source tokens) (ht : t ∈ tokens) :
    t.span.start ≤ t.span.stop := by
  by_cases hk : t.kind = .endOfInput
  · obtain ⟨ts, rfl, hts⟩ := h.ends
    rcases List.mem_append.mp ht with ht | ht
    · exact absurd hk (hts t ht)
    · rw [List.mem_singleton.mp ht]
  · exact (h.nonempty t ht hk).le

/-- The tokens between two others are known by where they stand. -/
theorem mem_between_iff {source : String} (hlossless : Lossless source tokens)
    (htokens : tokens = front ++ o :: (body ++ c :: back)) (ho : o.span.start < o.span.stop)
    (hc : c.span.start < c.span.stop) (ht : t ∈ tokens) :
    t ∈ body ↔ o.span.stop ≤ t.span.start ∧ t.span.stop < c.span.stop := by
  have hsize := hlossless.le ht
  have hordered := hlossless.ordered
  rw [htokens] at hordered ht
  obtain ⟨-, hlater, hfront⟩ := List.pairwise_append.mp hordered
  obtain ⟨hopen, hrest⟩ := List.pairwise_cons.mp hlater
  obtain ⟨-, hclosing, hbody⟩ := List.pairwise_append.mp hrest
  obtain ⟨hclose, -⟩ := List.pairwise_cons.mp hclosing
  constructor
  · intro hmem
    have hbefore := hbody t hmem c List.mem_cons_self
    exact ⟨hopen t (List.mem_append_left _ hmem), by omega⟩
  · intro h
    obtain ⟨hleft, hright⟩ := h
    -- before the first, the first itself, between the two, the second itself, or behind it
    rcases List.mem_append.mp ht with hmem | hmem
    · have hbefore := hfront t hmem o List.mem_cons_self
      omega
    rcases List.mem_cons.mp hmem with rfl | hmem
    · omega
    rcases List.mem_append.mp hmem with hmem | hmem
    · exact hmem
    rcases List.mem_cons.mp hmem with rfl | hmem
    · omega
    · have hbefore := hclose t hmem
      omega

/-- No opening brace of a problem stands in front of the one that opens it. -/
theorem le_openBrace {source : String} {a o' : Token} (hlossless : Lossless source tokens)
    (htokens : tokens = front ++ (head ++ o :: back)) (ha : a ∈ head ++ o :: back)
    (hhead : ∀ t ∈ head, t.kind ≠ .openBrace) (ho' : o' ∈ tokens) (hk : o'.kind = .openBrace)
    (hle : a.span.start ≤ o'.span.start) : o.span.stop ≤ o'.span.stop := by
  have hsize := hlossless.nonempty o' ho' (by rw [hk]; exact nofun)
  have hordered := hlossless.ordered
  rw [htokens] at hordered ho'
  obtain ⟨-, hproblem, hfront⟩ := List.pairwise_append.mp hordered
  obtain ⟨-, hlater, -⟩ := List.pairwise_append.mp hproblem
  obtain ⟨hopen, -⟩ := List.pairwise_cons.mp hlater
  -- not in front of the problem, because of `hle`, and not in its head, because of `hhead`
  rcases List.mem_append.mp ho' with hmem | hmem
  · have hbefore := hfront o' hmem a ha
    omega
  rcases List.mem_append.mp hmem with hmem | hmem
  · exact absurd hk (hhead o' hmem)
  rcases List.mem_cons.mp hmem with rfl | hmem
  · exact Nat.le_refl _
  · have hbefore := hopen o' hmem
    omega

/-- **What is enclosed is what stands between the braces.** Here the problem is some of the
tokens of a text, and `body` is what its braces enclose. -/
theorem encloses_iff [Scalar K] {source : String} (hlossless : Lossless source tokens)
    (htokens : tokens = front ++ (head ++ o :: body ++ [c]) ++ back)
    (hmid : InOrder (head ++ o :: body ++ [c])) (hproblem : IsProblem (head ++ o :: body ++ [c]) q)
    (hhead : ∀ t ∈ head, t.kind ≠ .openBrace) (ho : o.kind = .openBrace) (ht : t ∈ tokens) :
    q.Encloses tokens t ↔ t ∈ body := by
  obtain ⟨a, ha, _, _, hextent⟩ := exists_extent hproblem.meant
  have hstart : q.span.start = a.span.start := by rw [hproblem.span_eq hmid, hextent]
  have hstop : q.span.stop = c.span.stop := by
    rw [hproblem.span_eq hmid, extent_stop, stopAfter_append]
    rfl
  have hflat : tokens = (front ++ head) ++ o :: (body ++ c :: back) := by simp [htokens]
  have hbetween := mem_between_iff hlossless hflat (hmid.nonempty o (by simp))
    (hmid.nonempty c (by simp)) ht
  rw [hbetween, Problem.Encloses, hstop]
  -- the end is the same on both sides; what is left is that the brace in question is `o`
  refine and_congr_left fun _ => ⟨fun h => ?_, fun hopen => ?_⟩
  · obtain ⟨o', ho', hk, hlow, hhigh⟩ := h
    rw [List.append_assoc] at hflat
    have hproblem' : head ++ o :: body ++ [c] <+: head ++ o :: (body ++ c :: back) :=
      ⟨back, by simp⟩
    rw [hstart] at hlow
    exact (le_openBrace hlossless hflat (hproblem'.subset ha) hhead ho' hk hlow).trans hhigh
  · exact ⟨o, by simp [htokens], ho, (hproblem.inside hmid o (by simp)).start, hopen⟩

end Braces

/-! ## Lists of variables -/

section Lists

variable {K : Type} [Scalar K] {us body : List Token} {c : Token} {items : List (Item K)}

/-- A list of variables has its word in its span. -/
theorem IsVariables.exists_keyword {x : VariableList} (h : IsVariables us x) (hus : InOrder us) :
    ∃ v ∈ us, v.kind = .vars ∧ v.span.Inside x.span := by
  obtain ⟨hv, _, _⟩ := h
  exact ⟨_, by simp, hv, hus.inside_extent (by simp) (by rw [hv]; rfl)⟩

/-- A list of variables among the declarations has tokens of its own between the braces. -/
theorem IsItems.exists_variables (h : IsItems body c items) {x : VariableList}
    (hx : x ∈ items.filterMap Item.vars?) : ∃ us, us <:+: body ∧ IsVariables us x := by
  obtain ⟨item, hitem, hvars⟩ := List.mem_filterMap.mp hx
  obtain ⟨us, hus, hitem⟩ := Series.exists_infix h item hitem
  cases hitem with
  | vars hv =>
    obtain rfl := Option.some.inj hvars
    exact ⟨us, hus, hv⟩
  | property | objective | block => cases hvars

omit [Scalar K] in
/-- The lists of variables that a problem has dropped stand in front of the one that it keeps. -/
theorem before_of_mem_droppedVars {x : VariableList} (hx : x ∈ droppedVars items)
    (hordered : (items.flatMap Item.spans).Pairwise Span.Before) :
    ∃ kept, (items.filterMap Item.vars?).getLast? = some kept ∧ x.span.Before kept.span := by
  have hlists : (items.filterMap Item.vars?).Pairwise fun x y => x.span.Before y.span := by
    refine pairwise_kind? hordered fun x => ?_
    cases x <;> simp [Item.vars?, Item.spans]
  have hsplit := droppedVars_append items
  cases hlast : (items.filterMap Item.vars?).getLast? with
  | none =>
    rw [droppedVars, List.getLast?_eq_none_iff.mp hlast] at hx
    exact absurd hx List.not_mem_nil
  | some kept =>
    rw [hlast] at hsplit
    rw [← hsplit] at hlists
    exact ⟨kept, rfl, (List.pairwise_append.mp hlists).2.2 x hx kept (by simp)⟩

end Lists

/-! ## What stands between the braces -/

/-- The braces of the problem enclose the tokens `body`, which hold the declarations `items`. -/
structure Problem.Body {K : Type} [Scalar K] (source : String) (q : Problem K) (body : List Token)
    (items : List (Item K)) : Prop where
  encloses : ∀ t ∈ tokenize source, (q.Encloses (tokenize source) t ↔ t ∈ body)
  isInfix : body <:+: tokenize source
  inOrder : InOrder body
  inside : ∀ t ∈ body, t.span.Inside q.span
  derives : ∃ c, IsItems body c items
  eq : q = .ofItems q.span q.name items

section Bodies

variable {K : Type} [Scalar K] {source : String} {q : Problem K} {body : List Token}
  {items : List (Item K)}

/-- Every problem of an accepted text has a body. -/
theorem exists_body {p : Program K} (h : Program.ofString source = .ok p) (hq : q ∈ p.problems) :
    ∃ body items, q.Body source body items := by
  obtain ⟨ts, htokens, hts, -, -, z, hproblems⟩ := exists_acceptedFrom h
  have hlossless : Lossless source (tokenize source) := (tiles_tokens (.ofString source)).lossless
  obtain ⟨mid, ⟨front, back, rfl⟩, hproblem⟩ := Series.exists_infix hproblems q hq
  have hmid : InOrder mid := hts.of_append.1.of_append.2.1
  have hinside := hproblem.inside hmid
  obtain ⟨head, o, body, c, items, rfl, hhead, ho, hitems, hq'⟩ := hproblem.exists_body
  have hbody : body <:+: head ++ o :: body ++ [c] := ⟨head ++ [o], [c], by simp⟩
  rw [List.append_assoc _ back] at htokens
  refine ⟨body, items, ?_, ?_, hmid.sublist hbody.sublist, ?_, ⟨c, hitems⟩, hq'⟩
  · exact fun t ht => encloses_iff hlossless htokens hmid hproblem hhead ho ht
  · rw [htokens]
    exact hbody.trans ⟨front, _, rfl⟩
  · exact fun t ht => hinside t (hbody.subset ht)

namespace Problem.Body

variable (h : q.Body source body items)

include h

theorem holds : Holds body (items.flatMap Item.spans) := by
  obtain ⟨c, hitems⟩ := h.derives
  exact Series.holds (fun hus hx => IsItem.holds hx hus) hitems h.inOrder

/-- The spans of what is kept and of what is dropped are all that the body holds. -/
theorem perm :
    (q.spans ++ (droppedVars items).map (·.span)).Perm (items.flatMap Item.spans) := by
  rw [h.eq]
  exact spans_perm ..

/-- Of several lists of variables the last one is kept. -/
theorem vars_eq : q.vars = (items.filterMap Item.vars?).getLast? := by
  rw [h.eq]
  rfl

/-- A list of variables in the body derives from tokens of the text and begins with a keyword
between the braces. -/
theorem lists {x : VariableList} (hx : x ∈ items.filterMap Item.vars?) :
    (∃ us, us <:+: tokenize source ∧ IsVariables us x) ∧
      ∃ v ∈ tokenize source, q.Encloses (tokenize source) v ∧ v.kind = .vars ∧
        v.span.Inside x.span := by
  obtain ⟨c, hitems⟩ := h.derives
  obtain ⟨us, hus, hvars⟩ := hitems.exists_variables hx
  obtain ⟨v, hv, hk, hinside⟩ := hvars.exists_keyword (h.inOrder.sublist hus.sublist)
  have hmem : v ∈ tokenize source := h.isInfix.subset (hus.subset hv)
  exact ⟨⟨us, hus.trans h.isInfix, hvars⟩, v, hmem,
    (h.encloses v hmem).mpr (hus.subset hv), hk, hinside⟩

/-- **What belongs to a declaration is kept or dropped,** and not both. -/
theorem keeps_iff {t : Token} (ht : t ∈ body) (hk : t.kind.isFrame = false) :
    q.Keeps t ↔ ¬∃ x ∈ droppedVars items, t.span.Inside x.span := by
  constructor
  · intro hkept hdropped
    obtain ⟨s, hs, hin⟩ := hkept
    obtain ⟨x, hx, hin'⟩ := hdropped
    have hapart : (q.spans ++ (droppedVars items).map (·.span)).Pairwise Span.Apart :=
      (List.Perm.pairwise_iff Span.Apart.symm h.perm).mpr
        ((h.holds.pairwise h.inOrder).imp Or.inl)
    have hsx := (List.pairwise_append.mp hapart).2.2 s hs x.span (List.mem_map_of_mem hx)
    exact hsx.not_inside hin hin'
  · intro hnot
    obtain ⟨s, hs, hin⟩ := h.holds.covers h.inOrder t ht hk
    rcases List.mem_append.mp (h.perm.mem_iff.mpr hs) with hs | hs
    · exact ⟨s, hs, hin⟩
    · obtain ⟨x, hx, rfl⟩ := List.mem_map.mp hs
      exact absurd ⟨x, hx, hin⟩ hnot

/-- A list of variables that is dropped stands in front of the one that is kept. -/
theorem before_kept {x : VariableList} (hx : x ∈ droppedVars items) :
    ∃ kept, q.vars = some kept ∧ x.span.Before kept.span := by
  rw [h.vars_eq]
  exact before_of_mem_droppedVars hx (h.holds.pairwise h.inOrder)

/-- With one list of variables nothing is dropped. -/
theorem droppedVars_eq_nil (hone : ∀ t ∈ tokenize source, ∀ u ∈ tokenize source,
    q.Encloses (tokenize source) t → q.Encloses (tokenize source) u → t.kind = .vars →
      u.kind = .vars → t = u) : droppedVars items = [] := by
  by_contra hne
  obtain ⟨x, hx⟩ := List.exists_mem_of_ne_nil _ hne
  obtain ⟨kept, hkept, hbefore⟩ := h.before_kept hx
  rw [h.vars_eq] at hkept
  obtain ⟨-, v, hv, hvin, hvk, hvx⟩ := h.lists (List.dropLast_subset _ hx)
  obtain ⟨-, w, hw, hwin, hwk, hwx⟩ := h.lists (List.mem_of_getLast? hkept)
  -- two lists begin with two keywords, as they are apart
  obtain rfl := hone v hv w hw hvin hwin hvk hwk
  exact Span.Apart.not_inside (.inl hbefore) hvx hwx

end Problem.Body

end Bodies

/-- **What a problem keeps.** Of an accepted text, a problem loses nothing but lists of variables
with another list behind them: what stands between its braces and belongs to a declaration is
kept if and only if it stands in none of these. So nothing is lost when only one list of
variables begins between the braces. -/
theorem ofString_keeps {K : Type} [Scalar K] {source : String} {p : Program K}
    (h : Program.ofString source = .ok p) : ∀ q ∈ p.problems, ∃ dropped : List VariableList,
      (∀ x ∈ dropped, (∃ us, us <:+: tokenize source ∧ IsVariables us x) ∧
        x.span.Inside q.span ∧ ∃ kept, q.vars = some kept ∧ x.span.Before kept.span) ∧
      (∀ t ∈ tokenize source, q.Encloses (tokenize source) t → t.kind.isFrame = false →
        (q.Keeps t ↔ ¬∃ x ∈ dropped, t.span.Inside x.span)) ∧
      ((∀ t ∈ tokenize source, ∀ u ∈ tokenize source, q.Encloses (tokenize source) t →
        q.Encloses (tokenize source) u → t.kind = .vars → u.kind = .vars → t = u) →
        q.KeepsAll source) := by
  intro q hq
  obtain ⟨body, items, hbody⟩ := exists_body h hq
  refine ⟨droppedVars items, fun x hx => ⟨?_, ?_, hbody.before_kept hx⟩, ?_, ?_⟩
  · exact (hbody.lists (List.dropLast_subset _ hx)).1
  · have hmem : x.span ∈ items.flatMap Item.spans :=
      hbody.perm.subset (List.mem_append_right _ (List.mem_map_of_mem hx))
    exact hbody.holds.inside hbody.inOrder hbody.inside x.span hmem
  · intro t ht hin hk
    exact hbody.keeps_iff ((hbody.encloses t ht).mp hin) hk
  · intro hone t ht hin hk
    -- one word `vars` is one list, which is the one that is kept
    have hnone := hbody.droppedVars_eq_nil hone
    rw [hbody.keeps_iff ((hbody.encloses t ht).mp hin) hk, hnone]
    simp

/-- A problem with two lists of variables. -/
def overruledSource : String := "problem p \x7b\nvars a, b\nvars c, d\nmax c\n\x7d"

/-- The problem in `overruledSource`: the second list has taken the place of the first. -/
def overruled : Problem ℚ where
  span := ⟨0, 39⟩
  name := "p"
  properties := []
  vars := some ⟨⟨22, 31⟩, ["c", "d"]⟩
  objectives := [⟨⟨32, 37⟩, .maximize, .var ⟨36, 37⟩ "c"⟩]
  constraints := []

theorem ofString_overruled : Program.ofString overruledSource = .ok ⟨[overruled]⟩ := by cbv

/-- The objective of `overruledSource` is kept, as it stands behind both lists of variables. -/
theorem ofString_keeps_overruled :
    Program.ofString overruledSource = .ok ⟨[overruled]⟩ ∧
    ∃ dropped : List VariableList,
      (∀ x ∈ dropped, x.span.Before ⟨22, 31⟩) ∧
      (∀ t ∈ tokenize overruledSource, overruled.Encloses (tokenize overruledSource) t →
        t.kind.isFrame = false →
        (overruled.Keeps t ↔ ¬∃ x ∈ dropped, t.span.Inside x.span)) := by
  obtain ⟨dropped, hlists, hkept, -⟩ :=
    ofString_keeps ofString_overruled overruled (List.mem_singleton_self _)
  refine ⟨ofString_overruled, dropped, fun x hx => ?_, hkept⟩
  obtain ⟨-, -, kept, hvars, hbefore⟩ := hlists x hx
  obtain rfl := Option.some.inj hvars
  exact hbefore

/-- **A declaration is lost.** The first list of variables is between the braces of the problem,
and nothing that the problem keeps covers its first name. -/
theorem vars_lost :
    Program.ofString overruledSource = .ok ⟨[overruled]⟩ ∧ ¬overruled.KeepsAll overruledSource := by
  refine ⟨ofString_overruled, fun hall => ?_⟩
  have hopen : (⟨.openBrace, ⟨10, 11⟩, "\x7b"⟩ : Token) ∈ tokenize overruledSource :=
    List.mem_of_getElem? (show (tokenize overruledSource)[2]? = _ by cbv)
  have hname : (⟨.name, ⟨17, 18⟩, "a"⟩ : Token) ∈ tokenize overruledSource :=
    List.mem_of_getElem? (show (tokenize overruledSource)[5]? = _ by cbv)
  obtain ⟨s, hs, hstart, -⟩ :=
    hall _ hname ⟨⟨_, hopen, rfl, by decide, by decide⟩, by decide⟩ (by decide)
  have hkept : overruled.spans = [⟨22, 31⟩, ⟨32, 37⟩] := rfl
  rw [hkept] at hs
  rcases List.mem_pair.mp hs with rfl | rfl
  · exact absurd hstart (by decide)
  · exact absurd hstart (by decide)

end CornerPoint.Source
