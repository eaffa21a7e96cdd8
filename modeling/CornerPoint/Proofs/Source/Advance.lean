import Mathlib.Data.List.Induction
import CornerPoint.Proofs.Source.Reads

/-!
# Running the reader

A run goes through the tokens in front of the end (`run_append_end`), and what a reader does
with a list of tokens depends on its state only through its first step (`run_congr`). Spans are
computed from the offset where the last token ended, which `stopAfter` follows.
-/

namespace CornerPoint.Source

variable {K : Type}

/-! ## Spans -/

/-- Where the last of the tokens `ts` ends, or `last` if there are none. -/
def stopAfter (last : Nat) : List Token → Nat
  | [] => last
  | t :: ts => stopAfter t.span.stop ts

@[simp] theorem stopAfter_append (last : Nat) (ts us : List Token) :
    stopAfter last (ts ++ us) = stopAfter (stopAfter last ts) us := by
  induction ts generalizing last with
  | nil => rfl
  | cons t ts ih => exact ih t.span.stop

theorem stopAfter_eq_getD (last : Nat) (ts : List Token) :
    stopAfter last ts = (ts.getLast?.map (·.span.stop)).getD last := by
  induction ts using List.reverseRecOn with
  | nil => rfl
  | append_singleton ts t => simp [stopAfter]

theorem extent_stop (ts : List Token) : (extent ts).stop = stopAfter 0 ts :=
  (stopAfter_eq_getD 0 ts).symm

/-- A declaration starts with its first token if that is neither a line end nor a comment. -/
theorem extent_cons {t : Token} (h : t.kind.isTrivia = false) (ts : List Token) :
    extent (t :: ts) = ⟨t.span.start, stopAfter t.span.stop ts⟩ := by
  have hstart : (extent (t :: ts)).start = t.span.start := by simp [extent, h]
  have hstop : (extent (t :: ts)).stop = stopAfter t.span.stop ts := extent_stop (t :: ts)
  rw [← hstart, ← hstop]

/-- Blanks in front do not move the start of a declaration. -/
theorem extent_start_cons {t : Token} (h : t.kind.isTrivia = true) (ts : List Token) :
    (extent (t :: ts)).start = (extent ts).start := by
  simp [extent, h]

/-! ## Lists of tokens -/

/-- Lists of tokens as a scanner makes them: the end token is the last one and no other, and
number tokens denote numbers. -/
structure Tidy (K : Type) [Scalar K] (ts : List Token) : Prop where
  ends : ∃ body c, ts = body ++ [c] ∧ c.kind = .endOfInput ∧ ∀ t ∈ body, t.kind ≠ .endOfInput
  valid : ∀ t ∈ ts, t.Valid K

namespace Reader

variable [Scalar K]

/-! ## Steps and runs -/

/-- A run makes one step for each token. -/
theorem run_cons {r s : Reader K} {t : Token} (h : r.step t = .ok s)
    (ht : t.kind ≠ .endOfInput) (ts : List Token) : r.run (t :: ts) = s.run ts := by
  rw [run, if_neg ht, h]

/-- Two readers that do the same with the next token do the same from there on. -/
theorem run_congr {r s : Reader K} {ts : List Token}
    (h : ∀ t ∈ ts.head?, t.kind ≠ .endOfInput → r.step t = s.step t)
    (hfinish : r.finish = s.finish) : r.run ts = s.run ts := by
  cases ts with
  | nil => exact hfinish
  | cons t ts =>
    simp only [run, hfinish]
    split
    next => rfl
    next ht => rw [h t rfl ht]

/-- The reader after all the tokens `ts`. -/
def advance (r : Reader K) : List Token → Except SyntaxError (Reader K)
  | [] => .ok r
  | t :: ts =>
    match r.step t with
    | .ok s => s.advance ts
    | .error e => .error e

/-- Reading one list behind another, when the first has been read. -/
theorem advance_append {r s : Reader K} {ts : List Token} (h : r.advance ts = .ok s)
    (us : List Token) : r.advance (ts ++ us) = s.advance us := by
  induction ts generalizing r with
  | nil => cases h; rfl
  | cons t ts ih =>
    simp only [advance, List.cons_append] at h ⊢
    cases hstep : r.step t with
    | ok r' => rw [hstep] at h; exact ih h
    | error e => rw [hstep] at h; cases h

/-- A token that is rejected is rejected whatever follows it. -/
theorem advance_append_error {r : Reader K} {ts : List Token} {e : SyntaxError}
    (h : r.advance ts = .error e) (us : List Token) : r.advance (ts ++ us) = .error e := by
  induction ts generalizing r with
  | nil => cases h
  | cons t ts ih =>
    simp only [advance, List.cons_append] at h ⊢
    cases hstep : r.step t with
    | ok r' => rw [hstep] at h; exact ih h
    | error e' => rw [hstep] at h; exact h

/-- The last token is read after all others. -/
theorem advance_concat {r s : Reader K} {ts : List Token} {t : Token} :
    r.advance (ts ++ [t]) = .ok s ↔ ∃ r', r.advance ts = .ok r' ∧ r'.step t = .ok s := by
  have hone : ∀ r' : Reader K, r'.advance [t] = r'.step t := fun r' => by
    simp only [advance]
    split <;> simp_all
  cases h : r.advance ts with
  | ok r' => simp [advance_append h, hone]
  | error e => simp [advance_append_error h]

/-- A run goes on with the reader that the first tokens have led to. -/
theorem run_append {r s : Reader K} {ts : List Token} (h : r.advance ts = .ok s)
    (hts : ∀ t ∈ ts, t.kind ≠ .endOfInput) (us : List Token) : r.run (ts ++ us) = s.run us := by
  induction ts generalizing r with
  | nil => cases h; rfl
  | cons t ts ih =>
    simp only [advance] at h
    cases hstep : r.step t with
    | error e => rw [hstep] at h; cases h
    | ok r' =>
      rw [hstep] at h
      rw [List.cons_append, run_cons hstep (hts t List.mem_cons_self),
        ih h fun t ht => hts t (List.mem_cons_of_mem _ ht)]

/-- A run stops at the first error, whatever follows. -/
theorem run_append_error {r : Reader K} {ts : List Token} {e : SyntaxError}
    (h : r.advance ts = .error e) (hts : ∀ t ∈ ts, t.kind ≠ .endOfInput) (us : List Token) :
    r.run (ts ++ us) = .error e := by
  induction ts generalizing r with
  | nil => cases h
  | cons t ts ih =>
    simp only [advance] at h
    rw [List.cons_append, run, if_neg (hts t List.mem_cons_self)]
    cases hstep : r.step t with
    | ok r' =>
      rw [hstep] at h
      exact ih h fun t ht => hts t (List.mem_cons_of_mem _ ht)
    | error e' => rw [hstep] at h; cases h; rfl

/-- A run up to the end token reads what is in front of it. -/
theorem run_append_end (r : Reader K) {ts : List Token} (hts : ∀ t ∈ ts, t.kind ≠ .endOfInput)
    {c : Token} (hc : c.kind = .endOfInput) :
    r.run (ts ++ [c]) =
      match r.advance ts with
      | .ok s => s.finish
      | .error e => .error e := by
  induction ts generalizing r with
  | nil => simp [run, hc, advance]
  | cons t ts ih =>
    simp only [List.cons_append, run, if_neg (hts t List.mem_cons_self), advance]
    cases r.step t with
    | ok s => exact ih s fun t ht => hts t (List.mem_cons_of_mem _ ht)
    | error e => rfl

/-- The reader knows where the last token ended. -/
theorem advance_last {r s : Reader K} {ts : List Token} (h : r.advance ts = .ok s) :
    s.last = stopAfter r.last ts := by
  induction ts generalizing r with
  | nil => cases h; rfl
  | cons t ts ih =>
    simp only [advance] at h
    cases hstep : r.step t with
    | error e => rw [hstep] at h; cases h
    | ok r' =>
      rw [hstep] at h
      have hlast : r'.last = t.span.stop := by
        simp only [step] at hstep
        split at hstep
        · cases hstep; rfl
        · cases hstep
      rw [ih h, hlast, stopAfter]

/-! ## Inside a problem -/

/-- The reader at a place in the problem `p`. -/
abbrev within (ps : List (Problem K)) (p : Problem K) (place : Place K) (last : Nat) :
    Reader K := ⟨ps, .inside p place, last⟩

theorem step_within {ps : List (Problem K)} {p q : Problem K} {place place' : Place K}
    {last : Nat} {t : Token} (h : stepInside p last place t = .ok (q, some place')) :
    (within ps p place last).step t = .ok (within ps q place' t.span.stop) := by
  simp only [step, stepPhase, h]

/-- The tokens of an expression lead from one of its readers to another. -/
theorem advance_reads {r s : ExprReader K} {ts : List Token} (h : r.Reads ts s)
    (ps : List (Problem K)) (p : Problem K) (purpose : Purpose K) (last : Nat) :
    (within ps p (.expr purpose r) last).advance ts =
      .ok (within ps p (.expr purpose s) (stopAfter last ts)) := by
  induction h with
  | refl => rfl
  | @snoc ts t s u _ hstep ih =>
    refine advance_concat.mpr ⟨_, ih, ?_⟩
    rw [stopAfter_append]
    exact step_within (by simp only [stepInside, stepExpr, hstep])

end Reader

end CornerPoint.Source
