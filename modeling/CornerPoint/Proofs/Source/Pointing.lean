import Mathlib
import CornerPoint.Proofs.Source.Keeping
import CornerPoint.Proofs.Source.Rejection

/-!
# What can be pointed at in a text

An error of the reader points at the token that it refuses, if it points anywhere. Declarations
and problems stand where tokens start and stop. So whatever is pointed at in a text is a slice
of it.

> `exists_offends`: a text that cannot be read has an error without a place, or one at the first
> token that no accepted text has in its place.
> `spans_legal`: problems and their declarations lie in the problem and can be sliced.
-/

namespace CornerPoint.Source

/-! ## Errors -/

section Errors

variable {K : Type} [Scalar K] {t : Token} {e : SyntaxError}

open Reader

/-- The token `t` is the first one of the text that no accepted text has in its place, and the
error `e` is about it. -/
structure Offends (K : Type) [Scalar K] (source : String) (e : SyntaxError) (t : Token) : Prop where
  blames : e.Blames t
  first : ∃ front back, tokenize source = front ++ t :: back ∧ ¬ Hopeless K front ∧
    Hopeless K (front ++ [t])

theorem Offends.mem {source : String} (h : Offends K source e t) : t ∈ tokenize source := by
  obtain ⟨front, back, hts, -, -⟩ := h.first
  simp [hts]

/-- A text that cannot be read has an offending token, or an error without a place. -/
theorem exists_offends {source : String}
    (h : (Program.ofString source : Except SyntaxError (Program K)) = .error e) :
    (∃ t, Offends K source e t) ∨ e.span? = none := by
  obtain ⟨ts, hts, hend⟩ := tokenize_ends source
  rw [Program.ofString, hts, ofTokens_concat hend rfl] at h
  cases hr : (Reader.start : Reader K).advance ts with
  | ok r =>
    rw [hr] at h
    simp only [finish] at h
    split at h
    next => cases h
    next => cases h; exact .inr rfl
  | error e' =>
    rw [hr] at h
    cases h
    obtain ⟨front, t, back, r, rfl, hfront, hstep⟩ := exists_rejected hr
    rw [List.forall_mem_append, List.forall_mem_cons] at hend
    -- a token is blamed by its span; a number without a value is an error that has none
    obtain hblames | ⟨rfl, -⟩ := step_concerns hstep
    · refine .inl ⟨t, hblames, front, back ++ [.endAt source.utf8ByteSize], by simp [hts],
        not_hopeless_of_ok hend.1 (advance_valid hfront) hfront, ?_⟩
      have herror : (Reader.start : Reader K).advance (front ++ [t]) = .error e := by
        rw [advance_append hfront]
        simp only [advance, hstep]
      exact hopeless_of_error
        (List.forall_mem_append.mpr ⟨hend.1, List.forall_mem_singleton.mpr hend.2.1⟩) herror
    · exact .inr rfl

end Errors

/-! ## Legal spans -/

section Spans

variable {source : String}

/-- The text can be sliced from the start of a token to the end of one that is not before it. -/
theorem legal_of_tokens {a b : Token} (ha : a ∈ tokenize source) (hb : b ∈ tokenize source)
    (h : a.span.start ≤ b.span.stop) : Span.Legal ⟨a.span.start, b.span.stop⟩ source := by
  have hboundary := (tiles_tokens (.ofString source)).lossless.boundary
  exact ⟨(hboundary a ha).1, (hboundary b hb).2, h⟩

/-- At a token the text can be cut. -/
theorem legal_of_mem {t : Token} (ht : t ∈ tokenize source) : t.span.Legal source :=
  legal_of_tokens ht ht ((tiles_tokens (.ofString source)).lossless.le ht)

/-- A text is a slice of itself. -/
theorem legal_whole (source : String) : Span.Legal ⟨0, source.utf8ByteSize⟩ source := by
  refine ⟨?_, ?_, Nat.zero_le _⟩
  · have hall : source.toList = [] ++ source.toList := rfl
    exact isValid_byteSize hall
  · rw [← byteSize_toList]
    exact isValid_byteSize (List.append_nil _).symm

theorem Span.Legal.stop_le {s : Span} (h : s.Legal source) : s.stop ≤ source.utf8ByteSize :=
  h.stop.le_utf8ByteSize

/-- Where a declaration stands is where one of the tokens starts and one of them stops. -/
theorem Holds.exists_tokens {ts : List Token} {spans : List Span} (h : Holds ts spans) :
    ∀ s ∈ spans, ∃ a ∈ ts, ∃ b ∈ ts, s = ⟨a.span.start, b.span.stop⟩ := by
  induction h with
  | nil => exact fun _ hs => absurd hs List.not_mem_nil
  | frame _ _ ih =>
    intro s hs
    obtain ⟨a, ha, b, hb, hspan⟩ := ih s hs
    exact ⟨a, List.mem_cons_of_mem _ ha, b, List.mem_cons_of_mem _ hb, hspan⟩
  | declaration hm _ ih =>
    refine List.forall_mem_cons.mpr ⟨?_, fun s hs => ?_⟩
    · obtain ⟨a, ha, b, hb, hspan⟩ := exists_extent hm
      exact ⟨a, List.mem_append_left _ ha, b, List.mem_append_left _ hb, hspan⟩
    · obtain ⟨a, ha, b, hb, hspan⟩ := ih s hs
      exact ⟨a, List.mem_append_right _ ha, b, List.mem_append_right _ hb, hspan⟩

/-- Problems and their declarations lie in the problem, and the text can be sliced there. -/
theorem spans_legal {K : Type} [Scalar K] {p : Program K} (h : Program.ofString source = .ok p)
    {q : Problem K} (hq : q ∈ p.problems) :
    ∀ s ∈ q.span :: q.spans, s.Legal source ∧ s.Inside q.span := by
  obtain ⟨body, items, hbody⟩ := exists_body h hq
  refine List.forall_mem_cons.mpr ⟨?_, fun s hs => ?_⟩
  · obtain ⟨ts, htokens, hts, -, -, c, hproblems⟩ := exists_acceptedFrom h
    obtain ⟨mid, hmid, hproblem⟩ := Series.exists_infix hproblems q hq
    have hmid' := hts.sublist hmid.sublist
    have hsub : ∀ t ∈ mid, t ∈ tokenize source := fun t ht => by
      rw [htokens]
      exact List.mem_append_left _ (hmid.subset ht)
    have hsize := hmid'.extent_nonempty hproblem.meant
    -- a span begins with one token and ends with another, and at tokens the text can be cut
    obtain ⟨a, ha, b, hb, hextent⟩ := exists_extent hproblem.meant
    rw [hextent] at hsize
    rw [hproblem.span_eq hmid', hextent]
    exact ⟨legal_of_tokens (hsub a ha) (hsub b hb) hsize.le, le_rfl, hsize, le_rfl⟩
  · have hmem : s ∈ items.flatMap Item.spans := hbody.perm.subset (List.mem_append_left _ hs)
    have hinside := hbody.holds.inside hbody.inOrder hbody.inside s hmem
    obtain ⟨a, ha, b, hb, rfl⟩ := hbody.holds.exists_tokens s hmem
    exact ⟨legal_of_tokens (hbody.isInfix.subset ha) (hbody.isInfix.subset hb)
      hinside.nonempty.le, hinside⟩

end Spans

end CornerPoint.Source
