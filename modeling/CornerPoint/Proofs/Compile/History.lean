import Mathlib
import CornerPoint.Proofs.Compile.Catalog

/-!
# Catalogs over time

A catalog is filled by any number of programs, of which some may be added only in part. This file
says what can be relied on over its whole history:

> `load_cases`: a load adds the problems in front of the first one whose name is taken.
> `problems_loadAll_extends`: what has been added stays where it is.
> `compile_stable`: so the outcome of compiling a problem never changes, and it is the outcome of
> compiling the problem alone.
> `mapM_eq_error_iff`: compiling all problems fails as the first of them that fails.

A name is taken if the catalog has it or a problem further to the front of the same program; both
are read off one definition (`Taken`), which knows nothing of the order in which problems are
added.
-/

namespace CornerPoint.Compile.Catalog

open Source

variable {K : Type} {c : Catalog K}

/-! ## One load -/

/-- The name of `p`, which stands behind the problems `front` of its program, is taken: the
catalog has it, or a problem of `front`. -/
def Taken (c : Catalog K) (front : List (Problem K)) (p : Problem K) : Prop :=
  p.name ∈ c.names ∨ p.name ∈ front.map (·.name)

/-- No problem of the list has a name that is taken. -/
def Fresh (c : Catalog K) (ps : List (Problem K)) : Prop :=
  ∀ front p rest, ps = front ++ p :: rest → ¬c.Taken front p

/-- `p` is the first problem of the list whose name is taken, and `front` stands in front of it. -/
structure FirstTaken (c : Catalog K) (ps front : List (Problem K)) (p : Problem K) : Prop where
  split : ∃ rest, ps = front ++ p :: rest
  taken : c.Taken front p
  fresh : c.Fresh front

/-- The catalog with one more problem. -/
def push (c : Catalog K) (p : Problem K) : Catalog K := ⟨c.problems ++ [p]⟩

/-- One more problem is one more name. -/
theorem mem_names_push {p : Problem K} {name : String} :
    name ∈ (c.push p).names ↔ name ∈ c.names ∨ name = p.name := by
  rw [names, push, List.map_append, List.mem_append, List.map_singleton, List.mem_singleton]
  rfl

/-- Behind a problem a name is taken if it is once the problem has been added. -/
theorem taken_cons {p q : Problem K} {front : List (Problem K)} :
    c.Taken (p :: front) q ↔ (c.push p).Taken front q := by
  rw [Taken, Taken, mem_names_push, List.map_cons, List.mem_cons, or_assoc]

theorem fresh_nil : c.Fresh [] := fun _ _ _ h => absurd h (by simp)

/-- Names are fresh one after the other: the first is new, and the others are new once it is
there. -/
theorem fresh_cons {p : Problem K} {ps : List (Problem K)} :
    c.Fresh (p :: ps) ↔ p.name ∉ c.names ∧ (c.push p).Fresh ps := by
  constructor
  · intro h
    refine ⟨fun hmem => h [] p ps rfl (Or.inl hmem), fun front q rest hps => ?_⟩
    rw [← taken_cons]
    exact h (p :: front) q rest (by rw [hps, List.cons_append])
  · intro h front q rest hps
    -- the problem asked about is the first one or a later one
    cases front with
    | nil =>
      obtain ⟨rfl, -⟩ := List.cons.inj hps
      exact fun htaken => htaken.elim h.1 (by simp)
    | cons r front =>
      obtain ⟨rfl, htail⟩ := List.cons.inj hps
      rw [taken_cons]
      exact h.2 front q rest htail

/-- Problems with new names are added one by one. -/
theorem addAll_append :
    ∀ (front rest : List (Problem K)) {c : Catalog K}, c.Fresh front →
      c.addAll (front ++ rest) = addAll ⟨c.problems ++ front⟩ rest
  | [], rest, c, _ => by rw [List.nil_append, List.append_nil]
  | p :: front, rest, c, h => by
    obtain ⟨hp, hfront⟩ := fresh_cons.mp h
    rw [List.cons_append, addAll_of_not_mem hp]
    show (c.push p).addAll (front ++ rest) = _
    rw [addAll_append front rest hfront, push, List.append_assoc, List.singleton_append]

/-- In a list of problems either all names are new, or there is a first one that is taken. -/
theorem fresh_or_firstTaken :
    ∀ (ps : List (Problem K)) (c : Catalog K), c.Fresh ps ∨ ∃ front p, c.FirstTaken ps front p
  | [], _ => Or.inl fresh_nil
  | p :: ps, c => by
    by_cases hp : p.name ∈ c.names
    · exact Or.inr ⟨[], p, ⟨ps, rfl⟩, Or.inl hp, fresh_nil⟩
    · rcases fresh_or_firstTaken ps (c.push p) with hps | ⟨front, q, ⟨rest, hsplit⟩, htaken, hfront⟩
      · exact Or.inl (fresh_cons.mpr ⟨hp, hps⟩)
      · exact Or.inr ⟨p :: front, q, ⟨rest, by rw [hsplit, List.cons_append]⟩,
          taken_cons.mpr htaken, fresh_cons.mpr ⟨hp, hfront⟩⟩

/-- Problems with fresh names are all added. -/
theorem load_of_fresh {program : Program K} (h : c.Fresh program.problems) :
    c.load program = (⟨c.problems ++ program.problems⟩, none) := by
  have hadd := addAll_append program.problems [] h
  rwa [List.append_nil] at hadd

/-- The problems in front of the first one whose name is taken are added, and the load stops
there. -/
theorem load_of_firstTaken {program : Program K} {front : List (Problem K)} {p : Problem K}
    (h : c.FirstTaken program.problems front p) :
    c.load program = (⟨c.problems ++ front⟩, some (.duplicateProblem p.name)) := by
  obtain ⟨rest, hsplit⟩ := h.split
  have hmem : p.name ∈ (⟨c.problems ++ front⟩ : Catalog K).names := by
    rw [names, List.map_append, List.mem_append]
    exact h.taken
  rw [load, hsplit, addAll_append front _ h.fresh, addAll_of_mem hmem]

/-- What a load does: it adds all problems if no name is taken, and otherwise those in front of
the first problem whose name is, which the failure names. -/
theorem load_cases (c : Catalog K) (program : Program K) :
    (c.Fresh program.problems ∧ c.load program = (⟨c.problems ++ program.problems⟩, none)) ∨
      ∃ front p, c.FirstTaken program.problems front p ∧
        c.load program = (⟨c.problems ++ front⟩, some (.duplicateProblem p.name)) := by
  rcases fresh_or_firstTaken program.problems c with h | ⟨front, p, h⟩
  · exact Or.inl ⟨h, load_of_fresh h⟩
  · exact Or.inr ⟨front, p, h, load_of_firstTaken h⟩

/-! ## All loads -/

/-- The catalog after programs have been added in turn, each as far as possible. -/
def loadAll (c : Catalog K) : List (Program K) → Catalog K
  | [] => c
  | program :: later => (c.load program).1.loadAll later

/-- Loading keeps a catalog loaded. -/
theorem Loaded.loadAll (h : c.Loaded) (programs : List (Program K)) :
    (c.loadAll programs).Loaded := by
  induction programs generalizing c with
  | nil => exact h
  | cons program later ih => exact ih (h.load program)

/-- A load adds to the catalog and takes nothing away. -/
theorem problems_load_extends (c : Catalog K) (program : Program K) :
    c.problems <+: (c.load program).1.problems := by
  rcases load_cases c program with ⟨_, h⟩ | ⟨front, p, _, h⟩
  · rw [h]
    exact List.prefix_append _ _
  · rw [h]
    exact List.prefix_append _ _

/-- **What has been added stays where it is,** and what is added later stands behind it. -/
theorem problems_loadAll_extends (c : Catalog K) (programs : List (Program K)) :
    c.problems <+: (c.loadAll programs).problems := by
  induction programs generalizing c with
  | nil => exact List.prefix_refl _
  | cons program later ih => exact (problems_load_extends c program).trans (ih _)

theorem exists_mem_of_name {name : String} (h : name ∈ c.names) :
    ∃ p ∈ c.problems, p.name = name := List.mem_map.mp h

/-- **Compiling a problem always has the same outcome,** from the moment at which it has been
added, and this is the outcome for the problem alone. -/
theorem compile_stable [Scalar K] (hc : c.Loaded) {p : Problem K} (hp : p ∈ c.problems)
    (later : List (Program K)) :
    (c.loadAll later).compile p.name = (alone p).compile p.name := by
  rw [(hc.loadAll later).compile_name ((problems_loadAll_extends c later).subset hp), compile_alone]

/-! ## Compiling all problems -/

section Traversal

variable {α β ε : Type} {f : α → Except ε β}

/-- The step of `mapM_eq_ok_iff`. -/
theorem mapM_cons_eq_ok_iff {a : α} {l : List α} {bs : List β} :
    (a :: l).mapM f = .ok bs ↔ ∃ b cs, f a = .ok b ∧ l.mapM f = .ok cs ∧ b :: cs = bs := by
  rw [List.mapM_cons]
  cases f a with
  | error e => simp [bind, Except.bind]
  | ok b =>
    cases l.mapM f with
    | error e => simp [bind, Except.bind]
    | ok cs => simp [bind, Except.bind, pure, Except.pure]

/-- The step of `mapM_eq_error_iff`: the rest is only tried when the head succeeds. -/
theorem mapM_cons_eq_error_iff {a : α} {l : List α} {e : ε} :
    (a :: l).mapM f = .error e ↔ f a = .error e ∨ (∃ b, f a = .ok b) ∧ l.mapM f = .error e := by
  rw [List.mapM_cons]
  cases f a with
  | error e' => simp [bind, Except.bind]
  | ok b =>
    cases l.mapM f with
    | error e' => simp [bind, Except.bind]
    | ok cs => simp [bind, Except.bind, pure, Except.pure]

/-- Going through a list gives the results for its elements, in order. -/
theorem mapM_eq_ok_iff {l : List α} {bs : List β} :
    l.mapM f = .ok bs ↔ List.Forall₂ (fun a b => f a = .ok b) l bs := by
  induction l generalizing bs with
  | nil => simp [pure, Except.pure, eq_comm]
  | cons a l ih =>
    rw [mapM_cons_eq_ok_iff, List.forall₂_cons_left_iff]
    simp only [ih, eq_comm (a := bs), ← and_assoc]

/-- Going through a list stops at the first element that fails, and fails as it does. -/
theorem mapM_eq_error_iff {l : List α} {e : ε} :
    l.mapM f = .error e ↔ ∃ front a rest, l = front ++ a :: rest ∧
      (∀ b ∈ front, ∃ r, f b = .ok r) ∧ f a = .error e := by
  induction l with
  | nil => simp [pure, Except.pure]
  | cons a l ih =>
    rw [mapM_cons_eq_error_iff, ih]
    constructor
    · intro h
      rcases h with ha | ⟨ha, front, b, rest, rfl, hfront, hb⟩
      · exact ⟨[], a, l, rfl, by simp, ha⟩
      · exact ⟨a :: front, b, rest, rfl, List.forall_mem_cons.mpr ⟨ha, hfront⟩, hb⟩
    · intro h
      obtain ⟨front, b, rest, hsplit, hfront, hb⟩ := h
      -- an empty front: the head is the one that fails
      cases front with
      | nil =>
        obtain ⟨rfl, -⟩ := List.cons.inj hsplit
        exact Or.inl hb
      | cons a' front =>
        obtain ⟨rfl, htail⟩ := List.cons.inj hsplit
        obtain ⟨ha, hrest⟩ := List.forall_mem_cons.mp hfront
        exact Or.inr ⟨ha, front, b, rest, htail, hrest, hb⟩

end Traversal

/-! ## The whole history -/

/-- What can be relied on in a catalog at one moment of its history. -/
structure Reliable [Scalar K] (c : Catalog K) : Prop where
  /-- No two problems have the same name. -/
  nodup : c.names.Nodup
  /-- Later loads leave all problems in their places and add others behind them, so that names
  stand in the order in which they were added first. -/
  stays : ∀ later, c.problems <+: (c.loadAll later).problems
  /-- A load fails if some name is taken, and only then. -/
  load_fails_iff : ∀ program, (∃ e, (c.load program).2 = some e) ↔
    ∃ front p rest, program.problems = front ++ p :: rest ∧ c.Taken front p
  /-- A load that succeeds adds the problems of the program in their order. -/
  load_succeeds : ∀ program, (c.load program).2 = none →
    (c.load program).1.problems = c.problems ++ program.problems
  /-- A load that fails adds those in front of the first name that is taken, and reports it. -/
  load_fails : ∀ program e, (c.load program).2 = some e →
    ∃ front p, c.FirstTaken program.problems front p ∧ e = .duplicateProblem p.name ∧
      (c.load program).1.problems = c.problems ++ front
  /-- Whatever is added later, a problem compiles, or fails to, as it does now. -/
  compile_later : ∀ name ∈ c.names, ∀ later, (c.loadAll later).compile name = c.compile name
  /-- And as it does in a new catalog without any other problem. -/
  compile_alone : ∀ p ∈ c.problems, c.compile p.name = (alone p).compile p.name
  /-- All problems compile together when each of them does. -/
  compileAll_isOk_iff : (∃ all, c.compileAll = .ok all) ↔
    ∀ name ∈ c.names, ∃ r, c.compile name = .ok r
  /-- The results are those for the problems, in their order. -/
  compileAll_ok : ∀ all, c.compileAll = .ok all →
    List.Forall₂ (fun name r => c.compile name = .ok r) c.names all
  /-- Otherwise the failure is that of the first problem that does not compile. -/
  compileAll_error : ∀ e, c.compileAll = .error e ↔
    ∃ front name rest, c.names = front ++ name :: rest ∧
      (∀ n ∈ front, ∃ r, c.compile n = .ok r) ∧ c.compile name = .error e

/-- A load fails when some problem has a name that the catalog or an earlier problem has. -/
theorem load_fails_iff (c : Catalog K) (program : Program K) :
    (∃ e, (c.load program).2 = some e) ↔
      ∃ front p rest, program.problems = front ++ p :: rest ∧ c.Taken front p := by
  rcases load_cases c program with ⟨hfresh, hload⟩ | ⟨front, p, ⟨⟨rest, hsplit⟩, htaken, _⟩, hload⟩
  · rw [hload]
    refine ⟨fun h => absurd h (by simp), fun h => ?_⟩
    obtain ⟨front, p, rest, hsplit, htaken⟩ := h
    exact absurd htaken (hfresh front p rest hsplit)
  · rw [hload]
    exact ⟨fun _ => ⟨front, p, rest, hsplit, htaken⟩, fun _ => ⟨_, rfl⟩⟩

/-- However a catalog has been loaded, it can be relied on. -/
theorem Loaded.reliable [Scalar K] (hc : c.Loaded) : c.Reliable where
  nodup := hc.nodup
  stays := problems_loadAll_extends c
  load_fails_iff := load_fails_iff c
  load_succeeds program h := by
    rcases load_cases c program with ⟨_, hload⟩ | ⟨front, p, _, hload⟩
    · rw [hload]
    · rw [hload] at h
      exact absurd h (by simp)
  load_fails program e h := by
    rcases load_cases c program with ⟨_, hload⟩ | ⟨front, p, hfirst, hload⟩
    · rw [hload] at h
      exact absurd h (by simp)
    · rw [hload] at h ⊢
      exact ⟨front, p, hfirst, (Option.some.inj h).symm, rfl⟩
  -- both sides are what the problem compiles to on its own
  compile_later name hname later := by
    obtain ⟨p, hp, rfl⟩ := exists_mem_of_name hname
    exact (compile_stable hc hp later).trans (compile_stable hc hp []).symm
  compile_alone p hp := compile_stable hc hp []
  compileAll_isOk_iff := mapM_isOk_iff
  compileAll_ok all h := mapM_eq_ok_iff.mp h
  compileAll_error e := mapM_eq_error_iff

/-- **A catalog is reliable over its whole history,** whatever programs have been added to it and
whether or not each of them was added completely. -/
theorem reliable_loadAll [Scalar K] (programs : List (Program K)) :
    ((empty : Catalog K).loadAll programs).Reliable :=
  (Loaded.empty.loadAll programs).reliable

/-- A problem without constraints that wants the given variable large. -/
def wish (name var : String) : Problem ℚ where
  span := ⟨0, 0⟩
  name := name
  properties := []
  vars := none
  objectives := [⟨⟨0, 0⟩, .maximize, .var ⟨0, 0⟩ var⟩]
  constraints := []

/-- Three programs. The second repeats a name of the first, and the third one of its own. -/
def wishes : List (Program ℚ) :=
  [⟨[wish "a" "x1", wish "b" "x2"]⟩, ⟨[wish "c" "x3", wish "a" "x2", wish "e" "x1"]⟩,
    ⟨[wish "e" "x2", wish "e" "x1"]⟩]

/-- The name `e` is not yet taken by the third program, because the second one was added only in
front of the name that it repeats. -/
theorem reliable_loadAll_wishes :
    (empty.loadAll wishes).names = ["a", "b", "c", "e"] ∧
    (empty.loadAll wishes).compile "b" = (alone (wish "b" "x2")).compile "b" ∧
    (empty.loadAll wishes).compileAll
      = .error (.expression "c" (.unknownVariable "x3")) ∧
    (empty.loadAll wishes).Reliable :=
  ⟨by rfl, by rfl, by rfl, reliable_loadAll wishes⟩

end CornerPoint.Compile.Catalog
