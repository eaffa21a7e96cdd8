import Mathlib
import CornerPoint.Proofs.Source.Accepted

/-!
# Where declarations stand

A declaration stands from its first token that means something to its last token (`extent`). As
tokens come one behind the other, so do the declarations that they make up. `Holds ts spans` says
this of a list of tokens: they are declarations, which stand at `spans` in this order, and
between them nothing but line ends, comments and the frames of blocks. Each rule of the grammar
yields it (`IsItem.holds`), lists of declarations included (`Series.holds`), and two facts are
read off it by induction:

> `Holds.pairwise`: the declarations stand one behind the other.
> `Holds.covers`: every token that is part of a declaration stands in one of the spans.

A problem keeps its declarations kind by kind, and of its lists of variables only the last.
`Problem.spans_perm` compares the spans that it keeps with those that its tokens hold.
-/

namespace CornerPoint.Source

/-! ## Spans -/

namespace Span

/-- The span is not empty and lies in another one. -/
structure Inside (s o : Span) : Prop where
  start : o.start ≤ s.start
  nonempty : s.start < s.stop
  stop : s.stop ≤ o.stop

/-- The span ends before the other one begins. -/
def Before (s o : Span) : Prop := s.stop ≤ o.start

/-- The spans have no byte in common. -/
def Apart (s o : Span) : Prop := s.Before o ∨ o.Before s

theorem Inside.trans {s o u : Span} (h : s.Inside o) (h' : o.Inside u) : s.Inside u :=
  ⟨h'.start.trans h.start, h.nonempty, h.stop.trans h'.stop⟩

theorem Apart.symm {s o : Span} (h : s.Apart o) : o.Apart s := Or.symm h

/-- Nothing lies in two spans that are apart. -/
theorem Apart.not_inside {s o u : Span} (h : s.Apart o) (hs : u.Inside s) : ¬u.Inside o := by
  intro ho
  have hs₁ := hs.start
  have hs₂ := hs.stop
  have ho₁ := ho.start
  have ho₂ := ho.stop
  have hu := hs.nonempty
  rcases h with h | h
  · rw [Before] at h
    omega
  · rw [Before] at h
    omega

end Span

/-! ## Tokens in order -/

/-- Tokens one behind the other, none of them empty. -/
structure InOrder (ts : List Token) : Prop where
  ordered : ts.Pairwise fun t u => t.span.Before u.span
  nonempty : ∀ t ∈ ts, t.span.start < t.span.stop

section Extents

variable {ts us : List Token} {t : Token}

theorem InOrder.sublist (h : InOrder ts) (hsub : us.Sublist ts) : InOrder us :=
  ⟨h.ordered.sublist hsub, fun t ht => h.nonempty t (hsub.subset ht)⟩

theorem InOrder.of_append (h : InOrder (ts ++ us)) : InOrder ts ∧ InOrder us ∧
    ∀ t ∈ ts, ∀ u ∈ us, t.span.Before u.span :=
  ⟨h.sublist (List.sublist_append_left _ _), h.sublist (List.sublist_append_right _ _),
    (List.pairwise_append.mp h.ordered).2.2⟩

/-- The tokens mean something. -/
def Token.Meant (ts : List Token) : Prop := ∃ t ∈ ts, t.kind.isTrivia = false

/-- Where a declaration starts and where it ends are token boundaries. -/
theorem exists_extent (h : Token.Meant ts) :
    ∃ a ∈ ts, ∃ b ∈ ts, extent ts = ⟨a.span.start, b.span.stop⟩ := by
  obtain ⟨t, ht, hk⟩ := h
  have hmeant : ts.dropWhile (·.kind.isTrivia) ≠ [] := by
    intro hnil
    rw [List.dropWhile_eq_nil_iff.mp hnil t ht] at hk
    exact Bool.noConfusion hk
  obtain ⟨a, rest, ha⟩ := List.exists_cons_of_ne_nil hmeant
  have hmem : a ∈ ts := (List.dropWhile_suffix _).subset (ha ▸ List.mem_cons_self)
  refine ⟨a, hmem, ts.getLast (List.ne_nil_of_mem ht), List.getLast_mem _, ?_⟩
  rw [extent, ha, List.getLast?_eq_some_getLast (List.ne_nil_of_mem ht)]
  rfl

/-- The extent of some tokens begins in front of each of them, comments and line ends apart. -/
theorem InOrder.extent_start_le (h : InOrder ts) (ht : t ∈ ts) (hk : t.kind.isTrivia = false) :
    (extent ts).start ≤ t.span.start := by
  induction ts with
  | nil => exact absurd ht List.not_mem_nil
  | cons u ts ih =>
    obtain ⟨hlater, hrest⟩ := List.pairwise_cons.mp h.ordered
    cases hu : u.kind.isTrivia with
    -- comments and line ends at the front do not count for the start
    | true =>
      rw [extent_start_cons hu]
      rcases List.mem_cons.mp ht with rfl | ht
      · exact absurd (hu.symm.trans hk) Bool.noConfusion
      · exact ih (h.sublist (List.sublist_cons_self _ _)) ht
    | false =>
      rw [extent_cons hu]
      rcases List.mem_cons.mp ht with rfl | ht
      · exact Nat.le_refl _
      · have hbefore : u.span.stop ≤ t.span.start := hlater t ht
        have hu := h.nonempty u List.mem_cons_self
        show u.span.start ≤ t.span.start
        omega

/-- The extent of some tokens ends behind each of them. -/
theorem InOrder.le_extent_stop (h : InOrder ts) (ht : t ∈ ts) :
    t.span.stop ≤ (extent ts).stop := by
  -- it ends with the last token, whatever kind that is
  rcases List.eq_nil_or_concat ts with rfl | ⟨init, b, rfl⟩
  · exact absurd ht List.not_mem_nil
  · rw [List.concat_eq_append] at h ht ⊢
    rw [extent_stop, stopAfter_append]
    show t.span.stop ≤ b.span.stop
    rcases List.mem_append.mp ht with ht | ht
    · have hbefore : t.span.stop ≤ b.span.start := h.of_append.2.2 t ht b List.mem_cons_self
      have hb := h.nonempty b (List.mem_append_right _ List.mem_cons_self)
      omega
    · rw [List.mem_singleton.mp ht]

/-- What means something in a declaration stands where the declaration stands. -/
theorem InOrder.inside_extent (h : InOrder ts) (ht : t ∈ ts) (hk : t.kind.isTrivia = false) :
    t.span.Inside (extent ts) :=
  ⟨h.extent_start_le ht hk, h.nonempty t ht, h.le_extent_stop ht⟩

/-- A declaration takes up at least one byte. -/
theorem InOrder.extent_nonempty (h : InOrder ts) (hm : Token.Meant ts) :
    (extent ts).start < (extent ts).stop := by
  obtain ⟨t, ht, hk⟩ := hm
  have hinside := h.inside_extent ht hk
  exact hinside.start.trans_lt (hinside.nonempty.trans_le hinside.stop)

end Extents

/-! ## Declarations in order -/

/-- Tokens between declarations: line ends, comments, and the frames of blocks. -/
def Token.Kind.isFrame (k : Token.Kind) : Bool :=
  k.isTrivia || k = .constraints || k = .openBrace || k = .closeBrace

/-- `Holds ts spans`: the tokens `ts` are declarations, which stand at `spans` in this order,
with tokens between them that belong to none. -/
inductive Holds : List Token → List Span → Prop
  | nil : Holds [] []
  | frame {t ts spans} : t.kind.isFrame = true → Holds ts spans → Holds (t :: ts) spans
  | declaration {us ts spans} : Token.Meant us → Holds ts spans →
      Holds (us ++ ts) (extent us :: spans)

namespace Holds

variable {ts us : List Token} {spans spans' : List Span}

/-- What two groups of tokens hold, they hold together. -/
theorem append (h : Holds ts spans) (h' : Holds us spans') : Holds (ts ++ us) (spans ++ spans') := by
  induction h with
  | nil => exact h'
  | frame ht _ ih => exact .frame ht ih
  | declaration hm _ ih =>
    rw [List.append_assoc]
    exact .declaration hm ih

/-- What only frames declarations holds none. -/
theorem of_frames (h : ∀ t ∈ ts, t.kind.isFrame = true) : Holds ts [] := by
  induction ts with
  | nil => exact .nil
  | cons t ts ih =>
    rw [List.forall_mem_cons] at h
    exact .frame h.1 (ih h.2)

theorem of_blank {lines : Bool} (h : Blank lines ts) : Holds ts [] := by
  refine of_frames fun t ht => ?_
  rcases h t ht with hk | ⟨-, hk⟩
  · rw [hk]; rfl
  · rw [hk]; rfl

/-- A declaration with tokens of its own is held by them. -/
theorem single (h : Token.Meant us) : Holds us [extent us] := by
  have hone := declaration h .nil
  rwa [List.append_nil] at hone

/-- Declarations lie where their tokens lie. -/
theorem inside (h : Holds ts spans) (hts : InOrder ts) {o : Span}
    (ho : ∀ t ∈ ts, t.span.Inside o) : ∀ s ∈ spans, s.Inside o := by
  induction h with
  | nil => exact fun _ hs => absurd hs List.not_mem_nil
  | frame _ _ ih =>
    rw [List.forall_mem_cons] at ho
    exact ih (hts.sublist (List.sublist_cons_self _ _)) ho.2
  | declaration hm _ ih =>
    rw [List.forall_mem_append] at ho
    obtain ⟨hus, hrest, -⟩ := hts.of_append
    refine List.forall_mem_cons.mpr ⟨?_, ih hrest ho.2⟩
    have hne := hus.extent_nonempty hm
    obtain ⟨a, ha, b, hb, hextent⟩ := exists_extent hm
    rw [hextent] at hne ⊢
    exact ⟨(ho.1 a ha).start, hne, (ho.1 b hb).stop⟩

/-- Where declarations start is a token boundary. -/
theorem exists_start (h : Holds ts spans) : ∀ s ∈ spans, ∃ t ∈ ts, s.start = t.span.start := by
  induction h with
  | nil => exact fun _ hs => absurd hs List.not_mem_nil
  | frame _ _ ih =>
    intro s hs
    obtain ⟨t, ht, hstart⟩ := ih s hs
    exact ⟨t, List.mem_cons_of_mem _ ht, hstart⟩
  | declaration hm _ ih =>
    refine List.forall_mem_cons.mpr ⟨?_, fun s hs => ?_⟩
    · obtain ⟨a, ha, b, _, hextent⟩ := exists_extent hm
      exact ⟨a, List.mem_append_left _ ha, by rw [hextent]⟩
    · obtain ⟨t, ht, hstart⟩ := ih s hs
      exact ⟨t, List.mem_append_right _ ht, hstart⟩

/-- **Declarations stand one behind the other.** -/
theorem pairwise (h : Holds ts spans) (hts : InOrder ts) : spans.Pairwise Span.Before := by
  induction h with
  | nil => exact List.Pairwise.nil
  | frame _ _ ih => exact ih (hts.sublist (List.sublist_cons_self _ _))
  | declaration hm hrest ih =>
    obtain ⟨-, hts', hbefore⟩ := hts.of_append
    refine List.pairwise_cons.mpr ⟨fun s hs => ?_, ih hts'⟩
    obtain ⟨a, _, b, hb, hextent⟩ := exists_extent hm
    obtain ⟨t, ht, hstart⟩ := hrest.exists_start s hs
    show (extent _).stop ≤ s.start
    rw [hextent, hstart]
    exact hbefore b hb t ht

/-- **Every token that is part of a declaration stands in one of the spans.** -/
theorem covers (h : Holds ts spans) (hts : InOrder ts) :
    ∀ t ∈ ts, t.kind.isFrame = false → ∃ s ∈ spans, t.span.Inside s := by
  induction h with
  | nil => exact fun _ ht => absurd ht List.not_mem_nil
  | frame hframe _ ih =>
    refine List.forall_mem_cons.mpr ⟨fun hk => ?_, ih (hts.sublist (List.sublist_cons_self _ _))⟩
    exact absurd (hframe.symm.trans hk) Bool.noConfusion
  | declaration hm _ ih =>
    obtain ⟨hus, hrest, -⟩ := hts.of_append
    refine List.forall_mem_append.mpr ⟨fun t ht hk => ?_, fun t ht hk => ?_⟩
    · have hmeant : t.kind.isTrivia = false := by
        simp only [Token.Kind.isFrame, Bool.or_eq_false_iff] at hk
        exact hk.1.1.1
      exact ⟨_, List.mem_cons_self, hus.inside_extent ht hmeant⟩
    · obtain ⟨s, hs, hinside⟩ := ih hrest t ht hk
      exact ⟨s, List.mem_cons_of_mem _ hs, hinside⟩

end Holds

/-! ## The rules of the grammar -/

section Rules

variable {K : Type} {ts us : List Token}

/-- Members hold what each of them holds. -/
theorem Series.holds {α : Type} {closer : Token.Kind} {item : List Token → α → Prop}
    {line : α → Bool} {c : Token} {xs : List α} {spans : α → List Span}
    (hitem : ∀ {us x}, InOrder us → item us x → Holds us (spans x))
    (h : Series closer item line ts c xs) (hts : InOrder ts) : Holds ts (xs.flatMap spans) := by
  induction h with
  | nil hg => exact .of_blank hg
  | cons hg hx _ _ ih =>
    obtain ⟨hfront, hrest, -⟩ := hts.of_append
    have hmember := (Holds.of_blank hg).append (hitem hfront.of_append.2.1 hx)
    exact hmember.append (ih hrest)

/-- Line ends and comments have no meaning of any sort. -/
theorem isTrivia_eq_false {α : Type} {sort : Token.Kind → Option α} (hline : sort .newline = none)
    (hcomment : sort .comment = none) {k : Token.Kind} {x : α} (h : sort k = some x) :
    k.isTrivia = false := by
  rw [← Bool.not_eq_true, isTrivia_iff]
  rintro (rfl | rfl)
  · rw [hline] at h
    cases h
  · rw [hcomment] at h
    cases h

/-- Where the declarations of an item stand. -/
def Item.spans : Item K → List Span
  | property x => [x.span]
  | vars x => [x.span]
  | objective x => [x.span]
  | block rows => rows.map (·.span)

variable [Scalar K]

theorem IsRow.holds {x : ConstraintLine K} (h : IsRow us x) : Holds us [x.span] := by
  obtain ⟨_, _, _, ht, _, _⟩ := h
  exact Holds.single ⟨_, by simp, isTrivia_eq_false rfl rfl ht⟩

/-- The spans of a declaration lie in its tokens, one behind the other. -/
theorem IsItem.holds {x : Item K} (h : IsItem us x) (hus : InOrder us) : Holds us x.spans := by
  cases h with
  | property h =>
    cases h with
    | plain hn _ => exact Holds.single ⟨_, List.mem_cons_self, by rw [hn]; rfl⟩
    | colon hn _ _ => exact Holds.single ⟨_, List.mem_cons_self, by rw [hn]; rfl⟩
  | vars h =>
    obtain ⟨hv, _, _⟩ := h
    exact Holds.single ⟨_, List.mem_cons_self, by rw [hv]; rfl⟩
  | objective h =>
    obtain ⟨ht, _, _⟩ := h
    exact Holds.single ⟨_, List.mem_cons_self, isTrivia_eq_false rfl rfl ht⟩
  -- a block has no span itself: its rows lie between its braces
  | @block t g o us c rows ht hg ho hrows =>
    have hbody : InOrder us :=
      hus.of_append.1.of_append.2.1.sublist (List.sublist_cons_self _ _)
    have hc : c.kind = .closeBrace := Series.closer_kind hrows
    have hopen : Holds (t :: g ++ [o]) [] :=
      (Holds.frame (by rw [ht]; rfl) (.of_blank hg)).append (.frame (by rw [ho]; rfl) .nil)
    have hheld := Series.holds (fun _ hx => IsRow.holds hx) hrows hbody
    have hclose : Holds [c] [] := .frame (by rw [hc]; rfl) .nil
    rw [← List.map_eq_flatMap] at hheld
    have hall := (hopen.append hheld).append hclose
    rw [List.nil_append, List.append_nil] at hall
    rwa [← List.append_cons] at hall

/-- A problem stands where its tokens stand. -/
theorem IsProblem.span_eq {p : Problem K} (h : IsProblem us p) (hus : InOrder us) :
    p.span = extent us := by
  obtain @⟨t, g, n, h, o, us, c, items, ht, _, _, _, _, _⟩ := h
  have hextent : extent (t :: g ++ n :: h ++ o :: us ++ [c]) = ⟨t.span.start, c.span.stop⟩ := by
    simp only [List.cons_append]
    rw [extent_cons (by rw [ht]; rfl), stopAfter_append]
    rfl
  have hbefore : t.span.stop ≤ c.span.start :=
    hus.of_append.2.2 t (by simp) c List.mem_cons_self
  have ht := hus.nonempty t (by simp)
  have hc := hus.nonempty c (by simp)
  rw [hextent]
  show t.span.merge c.span = ⟨t.span.start, c.span.stop⟩
  rw [Span.merge, Nat.min_eq_left (by omega), Nat.max_eq_right (by omega)]

/-- A problem begins with its keyword. -/
theorem IsProblem.exists_head {p : Problem K} (h : IsProblem us p) :
    ∃ t ts, us = t :: ts ∧ t.kind.isTrivia = false := by
  obtain ⟨ht, _, _, _, _, _⟩ := h
  exact ⟨_, _, rfl, by rw [ht]; rfl⟩

theorem IsProblem.meant {p : Problem K} (h : IsProblem us p) : Token.Meant us := by
  obtain ⟨t, ts, rfl, ht⟩ := h.exists_head
  exact ⟨t, List.mem_cons_self, ht⟩

/-- A problem is a declaration of the text that it stands in. -/
theorem IsProblem.holds {p : Problem K} (h : IsProblem us p) (hus : InOrder us) :
    Holds us [p.span] := by
  rw [h.span_eq hus]
  exact Holds.single h.meant

/-- All tokens of a problem lie where it stands, line ends and comments included. -/
theorem IsProblem.inside {p : Problem K} (h : IsProblem us p) (hus : InOrder us) :
    ∀ u ∈ us, u.span.Inside p.span := by
  intro u hu
  have hstart : p.span.start ≤ u.span.start := by
    rw [h.span_eq hus]
    obtain ⟨t, ts, rfl, ht⟩ := h.exists_head
    rw [extent_cons ht]
    show t.span.start ≤ u.span.start
    rcases List.mem_cons.mp hu with rfl | hu
    · exact Nat.le_refl _
    · have hbefore : t.span.stop ≤ u.span.start := (List.pairwise_cons.mp hus.ordered).1 u hu
      have ht := hus.nonempty t List.mem_cons_self
      omega
  have hstop : u.span.stop ≤ p.span.stop := by
    rw [h.span_eq hus]
    exact hus.le_extent_stop hu
  exact ⟨hstart, hus.nonempty u hu, hstop⟩

/-- A problem is its declarations between two braces, the first of which is its first brace. -/
theorem IsProblem.exists_body {p : Problem K} (h : IsProblem us p) :
    ∃ head o body c items, us = head ++ o :: body ++ [c] ∧
      (∀ t ∈ head, t.kind ≠ .openBrace) ∧ o.kind = .openBrace ∧ IsItems body c items ∧
      p = .ofItems p.span p.name items := by
  obtain @⟨t, g, n, h, o, us, c, items, ht, hg, hn, hh, ho, hitems⟩ := h
  -- between the word, the name and the brace there are only line ends and comments
  have hblank : ∀ {g : List Token}, Blank true g → ∀ x ∈ g, x.kind ≠ .openBrace := by
    intro g hg x hx hk
    rcases hg x hx with hx | ⟨-, hx⟩
    · rw [hk] at hx
      cases hx
    · rw [hk] at hx
      cases hx
  refine ⟨t :: g ++ n :: h, o, us, c, items, rfl, ?_, ho, hitems, rfl⟩
  refine List.forall_mem_append.mpr ⟨List.forall_mem_cons.mpr ⟨?_, hblank hg⟩,
    List.forall_mem_cons.mpr ⟨?_, hblank hh⟩⟩
  · rw [ht]
    exact nofun
  · rw [hn]
    exact nofun

end Rules

/-! ## The spans that a problem keeps -/

section Spans

variable {K : Type}

/-- Where the declarations of a problem stand, kind by kind. -/
def Problem.spans (p : Problem K) : List Span :=
  p.properties.map (·.span) ++ p.vars.toList.map (·.span) ++ p.objectives.map (·.span)
    ++ p.constraints.map (·.span)

/-- The lists of variables that a later one has taken the place of. -/
def droppedVars (items : List (Item K)) : List VariableList :=
  (items.filterMap Item.vars?).dropLast

/-- The last one is kept, and all others are dropped. -/
theorem droppedVars_append (items : List (Item K)) :
    droppedVars items ++ (items.filterMap Item.vars?).getLast?.toList
      = items.filterMap Item.vars? := by
  unfold droppedVars
  rcases List.eq_nil_or_concat (items.filterMap Item.vars?) with hnil | ⟨init, x, hconcat⟩
  · rw [hnil]
    rfl
  · rw [hconcat]
    simp

/-- Sorting declarations by kind loses none of their spans. -/
theorem count_spans (s : Span) (items : List (Item K)) :
    List.count s ((items.filterMap Item.property?).map (·.span))
      + List.count s ((items.filterMap Item.vars?).map (·.span))
      + List.count s ((items.filterMap Item.objective?).map (·.span))
      + List.count s ((items.flatMap Item.rows).map (·.span))
      = List.count s (items.flatMap Item.spans) := by
  induction items with
  | nil => rfl
  | cons x items ih =>
    cases x <;>
      simp only [List.filterMap_cons, List.flatMap_cons, Item.property?, Item.vars?,
        Item.objective?, Item.rows, Item.spans, List.map_cons, List.map_append, List.nil_append,
        List.count_cons, List.count_append, List.count_nil, ← ih] <;>
      omega

/-- What a problem keeps and what it has dropped is all that there was. -/
theorem Problem.spans_perm (span : Span) (name : String) (items : List (Item K)) :
    ((ofItems span name items).spans ++ (droppedVars items).map (·.span)).Perm
      (items.flatMap Item.spans) := by
  refine List.perm_iff_count.mpr fun s => ?_
  have hvars := congrArg (List.count s ∘ List.map (·.span)) (droppedVars_append items)
  simp only [Function.comp_apply, List.map_append, List.count_append] at hvars
  rw [← count_spans]
  simp only [spans, ofItems, List.count_append]
  omega

/-- The declarations of one kind are some of all declarations. -/
theorem map_span_sublist {α : Type} {kind : Item K → List α} {span : α → Span}
    (hkind : ∀ x, ((kind x).map span).Sublist x.spans) (items : List (Item K)) :
    ((items.flatMap kind).map span).Sublist (items.flatMap Item.spans) := by
  induction items with
  | nil => exact List.Sublist.refl _
  | cons x items ih =>
    rw [List.flatMap_cons, List.flatMap_cons, List.map_append]
    exact (hkind x).append ih

/-- The declarations of one kind stand in the order in which all of them stand. -/
theorem pairwise_kind {α : Type} {kind : Item K → List α} {span : α → Span}
    {items : List (Item K)} (hordered : (items.flatMap Item.spans).Pairwise Span.Before)
    (hkind : ∀ x, ((kind x).map span).Sublist x.spans) :
    (items.flatMap kind).Pairwise fun a b => (span a).Before (span b) :=
  List.pairwise_map.mp (hordered.sublist (map_span_sublist hkind items))

/-- Declarations of one kind stand in order, because all of them do. -/
theorem pairwise_kind? {α : Type} {kind? : Item K → Option α} {span : α → Span}
    {items : List (Item K)} (hordered : (items.flatMap Item.spans).Pairwise Span.Before)
    (hkind : ∀ x, ((kind? x).toList.map span).Sublist x.spans) :
    (items.filterMap kind?).Pairwise fun a b => (span a).Before (span b) := by
  rw [List.filterMap_eq_flatMap_toList]
  exact pairwise_kind hordered hkind

end Spans

end CornerPoint.Source
