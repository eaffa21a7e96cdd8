import Mathlib
import CornerPoint.Proofs.Compile.Degenerate
import CornerPoint.Proofs.Editor.Diagnostic
import CornerPoint.Proofs.Source.Pointing

/-!
# Where diagnostics point

What an editor underlines is a token, a declaration, a problem, or the whole text. This file
says which of them it is for each kind of fault:

> `diagnostics_placed`: a text that cannot be read is underlined at the first token that no
> accepted text has in its place, or as a whole. In a text that can be read, a fault of a problem
> is underlined inside the problem, and a constraint without variables is underlined itself.
-/

namespace CornerPoint.Editor

open Source Compile

variable {K : Type} [Scalar K] {source : String} {before : List (Problem K)} {p : Problem K}
  {d : Diagnostic}

omit [Scalar K] in
/-- What a compile error of a problem is placed at is the problem or one of its declarations. -/
theorem faultSpan_mem (p : Problem K) (e : CompileError) : faultSpan p e ∈ p.span :: p.spans := by
  have hspan : ∀ s? : Option Span, (∀ s ∈ s?, s ∈ p.spans) →
      s?.getD p.span ∈ p.span :: p.spans := by
    intro s? hs
    cases s? with
    | none => exact List.mem_cons_self
    | some s => exact List.mem_cons_of_mem _ (hs s rfl)
  have hvars : ∀ s ∈ p.vars.map (·.span), s ∈ p.spans := fun s hs => by
    simp_all [Problem.spans]
  have hobjective : ∀ s ∈ p.objectives.getLast?.map (·.span), s ∈ p.spans := fun s hs => by
    obtain ⟨x, hx, rfl⟩ := Option.map_eq_some_iff.mp hs
    simp [Problem.spans, List.mem_map_of_mem (List.mem_of_getLast? hx)]
  -- the variables, the objective, a row by its index, or else the whole problem
  unfold faultSpan
  split
  · exact hspan _ hvars
  · exact hspan _ hvars
  · exact hspan _ hobjective
  · exact hspan _ hobjective
  · refine hspan _ fun s hs => ?_
    obtain ⟨x, hx, rfl⟩ := Option.map_eq_some_iff.mp hs
    simp [Problem.spans, List.mem_map_of_mem (List.mem_of_getElem? hx)]
  · exact List.mem_cons_self

/-- Where the diagnostic for the problem `p` behind the problems `before` points: into the
problem, and if a constraint without variables is at fault, at the first such constraint. -/
structure Placed (before : List (Problem K)) (p : Problem K) (d : Diagnostic) : Prop where
  reports : Reports before p d
  inside : d.span.Inside p.span
  degenerate : ∀ name index label, p.name ∉ before.map (·.name) →
    (Catalog.alone p).compile p.name = .error (.invalid name (.degenerate index label)) →
    ∃ v line, Declares p v ∧ FirstVanishing v p index line ∧ d.span = line.span

theorem Reports.span_mem (h : Reports before p d) : d.span ∈ p.span :: p.spans := by
  cases h with
  | taken => exact List.mem_cons_self
  | broken => exact faultSpan_mem p _

/-- A fault that is reported of a problem is placed inside it, and a row without variables at the
first constraint that vanishes. -/
theorem Reports.placed (hzero : ((0 : K) == 0) = true) (h : Reports before p d)
    (hspans : ∀ s ∈ p.span :: p.spans, s.Legal source ∧ s.Inside p.span) : Placed before p d := by
  refine ⟨h, (hspans _ h.span_mem).2, fun name index label hnew hcompile => ?_⟩
  have hprogram : programOf p = .error (.invalid name (.degenerate index label)) := by
    rw [Catalog.compile_alone, Compile.compile] at hcompile
    split at hcompile
    next e he => cases hcompile; exact he
    next => cases hcompile
  obtain ⟨v, line, hv, hline⟩ := exists_firstVanishing hzero hprogram
  refine ⟨v, line, hv, hline, ?_⟩
  -- a name that is taken is another fault than a degenerate row
  cases h with
  | taken htaken => exact absurd htaken hnew
  | broken _ hbroken =>
    obtain rfl := Except.error.inj (hbroken.symm.trans hcompile)
    simp [faultSpan, hline.1]

/-- The problems that diagnostics are about are problems of the text. -/
theorem mem_of_mem_faulty {ps : List (Problem K)} {x : List (Problem K) × Problem K}
    (h : x ∈ faulty ps) : x.2 ∈ ps :=
  (List.of_mem_zip (List.mem_of_mem_filter h)).2

/-- Each diagnostic for a text that can be read reports a problem of the text. -/
theorem diagnostics_reported {program : Program K} (h : Program.ofString source = .ok program) :
    List.Forall₂ (fun x d => x.2 ∈ program.problems ∧ Reports x.1 x.2 d)
      (faulty program.problems) (diagnostics K source) := by
  refine (List.forall₂_and_left _ _).mpr ⟨fun x hx => mem_of_mem_faulty hx, ?_⟩
  rw [diagnostics_of_ok h, ← faultyBehind_nil]
  exact problemFaults_reported _ _ _ .empty fun _ => Iff.rfl

/-- Diagnostics for a text that can be read lie where the text can be sliced. -/
theorem legal_of_ok {program : Program K} (h : Program.ofString source = .ok program) :
    ∀ d ∈ diagnostics K source, d.span.Legal source := by
  have hlegal : List.Forall₂ (fun d _ => d.span.Legal source ∧ True) (diagnostics K source)
      (faulty program.problems) := (diagnostics_reported h).flip.imp fun d x hx =>
    ⟨(spans_legal h hx.1 _ hx.2.span_mem).1, trivial⟩
  exact ((List.forall₂_and_left _ _).mp hlegal).1

/-- **Diagnostics point into the right place.** Whatever is underlined is a slice of the text. A
text that cannot be read has one diagnostic, at the offending token or, if the error has no
place, at the whole text. In a text that can be read every diagnostic points into the problem
that it is about, and for a row without variables at the first constraint that has none. -/
theorem diagnostics_placed (hzero : ((0 : K) == 0) = true) (source : String) :
    (∀ d ∈ diagnostics K source, d.span.Legal source ∧ d.span.stop ≤ source.utf8ByteSize) ∧
    (∀ e, (Program.ofString source : Except SyntaxError (Program K)) = .error e →
      ∃ d, diagnostics K source = [d] ∧ d.message = e.message ∧
        ((∃ t, Offends K source e t ∧ d.span = t.span) ∨
          e.span? = none ∧ d.span = ⟨0, source.utf8ByteSize⟩)) ∧
    ∀ program : Program K, Program.ofString source = .ok program →
      List.Forall₂ (fun x d => Placed x.1 x.2 d) (faulty program.problems)
        (diagnostics K source) := by
  have herror : ∀ e, (Program.ofString source : Except SyntaxError (Program K)) = .error e →
      ∃ d, diagnostics K source = [d] ∧ d.message = e.message ∧
        ((∃ t, Offends K source e t ∧ d.span = t.span) ∨
          e.span? = none ∧ d.span = ⟨0, source.utf8ByteSize⟩) := by
    intro e he
    refine ⟨_, by rw [diagnostics, he], rfl, ?_⟩
    obtain ⟨t, ht⟩ | hnone := exists_offends he
    · obtain ⟨expected, rfl⟩ := ht.blames
      exact .inl ⟨t, ht, rfl⟩
    · exact .inr ⟨hnone, by rw [hnone]; rfl⟩
  refine ⟨fun d hd => ?_, herror, fun program h => ?_⟩
  -- a text that can be read and one that cannot have their spans from different sources
  · suffices hlegal : d.span.Legal source from ⟨hlegal, hlegal.stop_le⟩
    cases hread : (Program.ofString source : Except SyntaxError (Program K)) with
    | ok program => exact legal_of_ok hread d hd
    | error e =>
      obtain ⟨d', hsingle, -, hspan⟩ := herror e hread
      obtain rfl := List.mem_singleton.mp (hsingle ▸ hd)
      obtain ⟨t, ht, hspan⟩ | ⟨-, hspan⟩ := hspan
      · rw [hspan]
        exact legal_of_mem ht.mem
      · rw [hspan]
        exact legal_whole source
  · exact (diagnostics_reported h).imp fun x d hx => hx.2.placed hzero (spans_legal h hx.1)

/-- The second constraint says nothing about the variables. -/
def emptySource : String :=
  "problem p \x7b\n max x1\n constraints \x7b\n x1 <= x2\n x1 <= x1\n \x7d\n\x7d"

/-- What `emptySource` is read as. -/
def emptyProgram : Program Float :=
  ⟨[⟨⟨0, 59⟩, "p", [], none, [⟨⟨13, 19⟩, .maximize, .var ⟨17, 19⟩ "x1"⟩],
    [⟨⟨36, 44⟩, none, .var ⟨36, 38⟩ "x1", .le, .var ⟨42, 44⟩ "x2"⟩,
      ⟨⟨46, 54⟩, none, .var ⟨46, 48⟩ "x1", .le, .var ⟨52, 54⟩ "x1"⟩]⟩]⟩

/-- The two sides of the second row are the same, so nothing is left of its variables. -/
theorem diagnostics_placed_empty : ((0 : Float) == 0) = true ∧
    Program.ofString emptySource = .ok emptyProgram ∧
    (faulty emptyProgram.problems).map (·.2.name) = ["p"] ∧
    (diagnostics Float emptySource).map (·.span) = [⟨46, 54⟩] ∧
    (∀ d ∈ diagnostics Float emptySource, d.span.Legal emptySource) ∧
    List.Forall₂ (fun x d => Placed x.1 x.2 d) (faulty emptyProgram.problems)
      (diagnostics Float emptySource) := by
  have hzero : ((0 : Float) == 0) = true := rfl
  have hread : Program.ofString emptySource = .ok emptyProgram := by cbv
  obtain ⟨hlegal, -, hplaced⟩ := diagnostics_placed hzero emptySource
  refine ⟨hzero, hread, rfl, ?_, fun d hd => (hlegal d hd).1, hplaced emptyProgram hread⟩
  rw [diagnostics_of_ok hread]
  rfl

end CornerPoint.Editor
