import Mathlib
import CornerPoint.Proofs.Source.Comments
import CornerPoint.Proofs.Source.Placement
import CornerPoint.Proofs.Source.Rejection

/-!
# Where a comment may stand

A comment may be put between any two tokens of a text that are not `Joined`: what a property is
set to, or its colon, is joined to what is in front of it, and so are every colon, every comma,
and what a number multiplies. Between joined tokens a comment makes the text wrong.

> `spelledBy_comment`: with one more comment a text is the same up to spans, unless the comment
> stands between joined tokens, and then it is rejected.

`Joined` looks at derivations, `Place.Binds` at the state of the reader; they are the same at
every token of a text that is accepted (`binds_iff_joined`). What a property is set to is the
hard part: a string may stand nowhere else, so a string tells where a property is
(`inProperty_iff`).
-/

namespace CornerPoint.Source

open ExprReader hiding step start
open Reader

variable {K : Type} [Scalar K]

/-! ## Joined tokens -/

/-- The tokens `ts` end in a property, in front of what it is set to, or of its colon. -/
inductive InProperty (K : Type) [Scalar K] : List Token → Prop
  | intro {ps : List (Problem K)} {start name items ts n cs} : Within ps start name ts items →
      n.kind = .name → (∀ c ∈ cs, c.kind = .colon) → cs.length ≤ 1 →
      InProperty K (ts ++ n :: cs)

/-- Behind the tokens `us` the token `t` is joined to the last one. -/
inductive Joined (K : Type) [Scalar K] (us : List Token) (t : Token) : Prop
  /-- What a property is set to, or its colon. -/
  | property (h : InProperty K us)
  /-- The colon behind a label. -/
  | colon (h : t.kind = .colon)
  /-- The comma behind a variable. -/
  | comma (h : t.kind = .comma)
  /-- What a number multiplies; a property that is set to a number ends there. -/
  | factor {ts : List Token} {n : Token} (h : us = ts ++ [n]) (hn : n.kind = .number)
      (hts : ¬ InProperty K ts) (ht : t.kind = .name ∨ t.kind = .openParen)

/-! ## Tokens that stand in few places -/

section Inversion

variable {p q : Problem K} {place : Place K} {out : Option (Place K)} {last : Nat} {t : Token}
  {r s : Reader K}

/-- An expression does not go on with a string, a colon or a comma, and does not end there. -/
theorem stepExpr_ne_ok {purpose : Purpose K} {e : ExprReader K} {x : Problem K × Option (Place K)}
    (ht : t.kind = .string ∨ t.kind = .colon ∨ t.kind = .comma) :
    stepExpr p last purpose e t ≠ .ok x := by
  -- behind a number the step is the one of an operator, so this serves twice
  have hoperator : ∀ sum term outer,
      stepExpr p last purpose (.operator sum term outer) t ≠ .ok x := fun sum term outer => by
    have hforeign : t.kind.isForeign = true := by
      obtain ht | ht | ht := ht <;> rw [ht] <;> rfl
    obtain ⟨e, he⟩ := stepExpr_operator_refused (p := p) hforeign
    rw [he]
    simp
  cases e with
  | operator sum term outer => exact hoperator sum term outer
  | number value pending outer =>
    have hsame : (ExprReader.number value pending outer).step t =
        (ExprReader.operator pending.sum (pending.term (.number value)) outer).step t := by
      obtain ht | ht | ht := ht <;> simp [ExprReader.step, ht]
    rw [stepExpr, hsame]
    exact hoperator _ _ _
  | operand pending outer =>
    obtain ht | ht | ht := ht <;>
      simp [stepExpr, ExprReader.step, stepOperand, ht, Token.refuse]

/-- A string, a colon or a comma binds to the token in front of it. -/
theorem binds_of_step (ht : t.kind = .string ∨ t.kind = .colon ∨ t.kind = .comma)
    (h : r.step t = .ok s) : r.Binds t.kind := by
  obtain ⟨ps, phase, last⟩ := r
  cases phase with
  | outside | name | brace =>
    obtain ht | ht | ht := ht <;>
      simp [Reader.step, stepPhase, ht, Token.Kind.isTrivia, Token.refuse] at h
  | inside p place =>
    have hinside : ∃ x, stepInside p last place t = .ok x := by
      cases hx : stepInside p last place t with
      | ok x => exact ⟨x, rfl⟩
      | error e => simp [Reader.step, stepPhase, hx] at h
    -- three places take a string, a colon or a comma: a property, a list behind a name, a row
    -- behind one
    obtain ⟨x, hx⟩ := hinside
    show place.Binds t.kind
    cases place with
    | property => trivial
    | afterVariable start names comma =>
      obtain ht | ht | ht := ht
      · simp [stepInside, stepAfterVariable, endLine, ht, Token.refuse] at hx
      · simp [stepInside, stepAfterVariable, endLine, ht, Token.refuse] at hx
      · cases comma with
        | true => exact ⟨rfl, ht⟩
        | false => simp [stepInside, stepAfterVariable, ht, Token.refuse] at hx
    | labelOrOperand name =>
      by_cases hk : t.kind = .colon
      · exact hk
      · simp only [stepInside, if_neg hk] at hx
        exact absurd hx (stepExpr_ne_ok ht)
    | body | varName | blockBrace =>
      obtain ht | ht | ht := ht <;>
        simp [stepInside, stepBody, ht, Token.Kind.isTrivia, Token.refuse] at hx
    | block =>
      have hrow : stepInside p last .block t =
          stepExpr p last (.left t.span.start none) .start t := by
        obtain ht | ht | ht := ht <;> simp only [stepInside, ht]
      exact absurd (hrow ▸ hx) (stepExpr_ne_ok ht)
    | expr => exact absurd hx (stepExpr_ne_ok ht)

/-- What a property is set to must follow, or its colon. -/
def Reader.AwaitsValue (r : Reader K) : Prop :=
  ∃ p start name colon, r.phase = .inside p (.property start name colon)

/-- Only properties are set to strings. -/
theorem awaitsValue_of_step (ht : t.kind = .string) (h : r.step t = .ok s) : r.AwaitsValue := by
  have hbinds := binds_of_step (.inl ht) h
  obtain ⟨ps, phase, last⟩ := r
  cases phase with
  | outside | name | brace => exact hbinds.elim
  | inside p place =>
    rw [ht] at hbinds
    cases place with
    | property start name colon => exact ⟨p, start, name, colon, rfl⟩
    | afterVariable => exact absurd hbinds.2 (by decide)
    | labelOrOperand => exact absurd (show Token.Kind.string = .colon from hbinds) (by decide)
    | expr purpose e =>
      cases e with
      | number => exact absurd hbinds (by simp [Reader.Binds, Place.Binds])
      | operand | operator => exact hbinds.elim
    | body | varName | blockBrace | block => exact hbinds.elim

/-- Only a number leads to where a number has just been read. -/
theorem ExprReader.step_number_iff {e e' : ExprReader K} (h : e.step t = .more e') :
    (∃ value pending outer, e' = .number value pending outer) ↔ t.kind = .number := by
  -- no operator, blank or bracket leaves a number waiting for what it multiplies
  have hoperator : ∀ {sum term outer}, stepOperator sum term outer t = .more e' →
      ((∃ value pending outer, e' = .number value pending outer) ↔ t.kind = .number) := fun h => by
    obtain ⟨hb, rfl⟩ | ⟨op, hop, rfl⟩ | ⟨op, hop, rfl⟩ | ⟨o, os, -, hk, rfl⟩ := stepOperator_more h
    · obtain hk | ⟨-, hk⟩ := blank_singleton.mp hb <;> simp [hk]
    · exact iff_of_false (by simp) fun hk => by simp [hk, Token.Kind.multiplicative?] at hop
    · exact iff_of_false (by simp) fun hk => by simp [hk, Token.Kind.additive?] at hop
    · simp [hk, ExprReader.afterOperand]
  cases e with
  | operator => exact hoperator h
  | number value pending outer =>
    simp only [ExprReader.step] at h
    split at h
    next hk => cases h; simp [hk, ExprReader.afterOperand]
    next hk => cases h; simp [hk]
    next => exact hoperator h
  | operand =>
    obtain ⟨hb, rfl⟩ | ⟨hk, rfl⟩ | ⟨hk, rfl⟩ | ⟨hk, rfl⟩ | ⟨hk, rfl⟩ | ⟨hk, rfl⟩ :=
      stepOperand_more h
    · obtain hk | ⟨-, hk⟩ := blank_singleton.mp hb <;> simp [hk]
    all_goals simp [hk, ExprReader.afterOperand]

/-- The reader is at a number of an expression. -/
def Place.IsNumber (place : Place K) : Prop :=
  ∃ purpose value pending outer, place = .expr purpose (.number value pending outer)

omit [Scalar K] in
/-- A line end and a brace are no numbers, and do not lead to one. -/
theorem endLine_number_iff {inside : Place K} {outside : Option (Place K)}
    {x : Problem K × Option (Place K)} (hinside : ¬ inside.IsNumber)
    (houtside : ∀ place ∈ outside, ¬ place.IsNumber) (h : endLine t p inside outside = .ok x) :
    (∃ place ∈ x.2, place.IsNumber) ↔ t.kind = .number := by
  obtain ⟨hk, rfl⟩ | ⟨hk, rfl⟩ := endLine_ok h
  · simpa [hk] using hinside
  · simpa [hk] using houtside

/-- In an expression only a number leads to where a number has just been read. -/
theorem stepExpr_number_iff {purpose : Purpose K} {e : ExprReader K}
    {x : Problem K × Option (Place K)} (h : stepExpr p last purpose e t = .ok x) :
    (∃ place ∈ x.2, place.IsNumber) ↔ t.kind = .number := by
  have hbody : ¬ (Place.body : Place K).IsNumber := by simp [Place.IsNumber]
  have hblock : ¬ (Place.block : Place K).IsNumber := by simp [Place.IsNumber]
  unfold stepExpr at h
  split at h
  next e' he =>
    cases h
    rw [← ExprReader.step_number_iff he]
    simp [Place.IsNumber]
  next =>
    -- the expression has ended, and what comes next is no operand
    cases purpose with
    | objective => exact endLine_number_iff hbody (by simp) h
    | right => exact endLine_number_iff hblock (by simpa using hbody) h
    | left =>
      simp only [stepAfterExpr] at h
      split at h <;> cases h <;> simp_all [Place.IsNumber, ExprReader.start]
  next => cases h
  next => cases h

/-- A number that is read in an expression leads to where a number has just been read, and
nothing else does. -/
theorem stepInside_number_iff {x : Problem K × Option (Place K)}
    (h : stepInside p last place t = .ok x) : (∃ place' ∈ x.2, place'.IsNumber) ↔
      t.kind = .number ∧ ∀ start name colon, place ≠ .property start name colon := by
  cases place with
  | expr => simpa using stepExpr_number_iff h
  | labelOrOperand name =>
    simp only [stepInside] at h
    split at h
    next hk => cases h; simp [hk, Place.IsNumber, ExprReader.start]
    next => simpa using stepExpr_number_iff h
  | block =>
    simp only [stepInside] at h
    split at h
    case h_5 => simpa using stepExpr_number_iff h
    all_goals cases h; simp_all [Place.IsNumber]
  | body =>
    simp only [stepInside, stepBody] at h
    split at h <;> cases h <;> simp_all [Place.IsNumber, ExprReader.start]
  | property start name colon =>
    -- a number can be what a property is set to, and then it ends the property
    refine iff_of_false ?_ fun hk => hk.2 start name colon rfl
    simp only [stepInside, stepProperty] at h
    split at h
    case h_2 => split at h <;> cases h; simp [Place.IsNumber]
    case h_4 => split at h <;> cases h; simp [Place.IsNumber]
    all_goals cases h <;> simp [Place.IsNumber]
  | varName start names =>
    simp only [stepInside] at h
    split at h
    next hk =>
      cases h
      obtain hk | hk := isTrivia_iff.mp hk <;> simp [hk, Place.IsNumber]
    next =>
      split at h
      next hk => cases h; simp [hk, Place.IsNumber]
      next => cases h
  | afterVariable start names comma =>
    simp only [stepInside, stepAfterVariable] at h
    split at h
    next hk =>
      split at h <;> cases h
      simp [hk, Place.IsNumber]
    next hk => cases h; simp [hk, Place.IsNumber]
    next => simpa using endLine_number_iff (by simp [Place.IsNumber]) (by simp) h
  | blockBrace =>
    simp only [stepInside] at h
    split at h
    next hk =>
      cases h
      obtain hk | hk := isTrivia_iff.mp hk <;> simp [hk, Place.IsNumber]
    next =>
      split at h
      next hk => cases h; simp [hk, Place.IsNumber]
      next => cases h

/-- A number of an expression has just been read. -/
def Reader.AfterNumber (r : Reader K) : Prop :=
  ∃ p place, r.phase = .inside p place ∧ place.IsNumber

/-- The reader stands behind a number of an expression exactly when the last token was one, unless
it was what a property is set to. -/
theorem step_number_iff (h : r.step t = .ok s) :
    s.AfterNumber ↔ t.kind = .number ∧ ¬ r.AwaitsValue := by
  obtain ⟨ps, phase, last⟩ := r
  simp only [Reader.step] at h
  cases phase with
  | outside | name | brace =>
    simp only [stepPhase] at h
    split_ifs at h with htrivia hk
    · cases h
      obtain hk | hk := isTrivia_iff.mp htrivia <;> simp [Reader.AfterNumber, hk]
    · cases h
      simp [Reader.AfterNumber, Place.IsNumber, hk]
    · cases h
  | inside p place =>
    have hplace : Reader.AwaitsValue (⟨ps, .inside p place, last⟩ : Reader K) ↔
        ∃ start name colon, place = .property start name colon := by
      simp [Reader.AwaitsValue]
    cases hx : stepInside p last place t with
    | error e => simp [stepPhase, hx] at h
    | ok x =>
      have hnumber := stepInside_number_iff hx
      obtain ⟨q, out⟩ := x
      rw [hplace]
      cases out with
      | none =>
        simp only [stepPhase, hx] at h
        cases h
        simpa [Reader.AfterNumber] using hnumber
      | some place' =>
        simp only [stepPhase, hx] at h
        cases h
        simpa [Reader.AfterNumber] using hnumber

end Inversion

/-! ## Joined tokens bind -/

section Reached

variable {us vs : List Token} {r : Reader K} {t : Token} {p : Program K}

/-- The tokens in front of the end of an accepted text have been read. -/
theorem exists_advance (hus : ∀ u ∈ us, u.kind ≠ .endOfInput)
    (h : Program.ofTokens (us ++ vs) = .ok p) :
    ∃ r : Reader K, Reader.start.advance us = .ok r ∧ r.run vs = .ok p := by
  rw [Program.ofTokens] at h
  cases hr : (Reader.start : Reader K).advance us with
  | error e => rw [run_append_error hr hus] at h; cases h
  | ok r => exact ⟨r, rfl, run_append hr hus vs ▸ h⟩

/-- A run that succeeds has taken its first token. -/
theorem exists_step (ht : t.kind ≠ .endOfInput) (h : r.run (t :: vs) = .ok p) :
    ∃ s, r.step t = .ok s := by
  rw [run, if_neg ht] at h
  cases hs : r.step t with
  | ok s => exact ⟨s, rfl⟩
  | error e => rw [hs] at h; cases h

/-- Behind a property that wants a value, a string, a brace and the end complete a program. -/
theorem InProperty.exists_isProgram (h : InProperty K us) : ∃ p : Program K,
    IsProgram (us ++ [.ofKind .string, .ofKind .closeBrace, .ofKind .endOfInput]) p := by
  cases h with
  | @intro ps start name items ts n cs hw hn hcs hlen =>
    obtain ⟨x, hx⟩ : ∃ x : Property K, IsProperty (n :: cs ++ [.ofKind .string]) x := by
      cases cs with
      | nil => exact ⟨_, .plain hn rfl⟩
      | cons c cs =>
        obtain rfl : cs = [] := by simpa using hlen
        exact ⟨_, .colon hn (hcs c (List.mem_singleton_self c)) rfl⟩
    have hbetween : Between (ts ++ (n :: cs ++ [.ofKind .string]) ++ [.ofKind .closeBrace]) _ :=
      Pends.close (Pends.member hw (.property hx) rfl) rfl
    have hprogram := Pends.close hbetween (c := .ofKind .endOfInput) rfl
    exact ⟨_, by simpa using hprogram⟩

/-- Behind the tokens `us` the reader awaits what a property is set to exactly if they end in a
property. -/
theorem inProperty_iff (hus : ∀ u ∈ us, u.kind ≠ .endOfInput)
    (h : (Reader.start : Reader K).advance us = .ok r) : InProperty K us ↔ r.AwaitsValue := by
  constructor
  · intro hin
    obtain ⟨p, hp⟩ := hin.exists_isProgram
    have hvalid : ∀ t ∈ us ++ [.ofKind .string, .ofKind .closeBrace, .ofKind .endOfInput],
        t.Valid K := List.forall_mem_append.mpr
      ⟨advance_valid h, by simp [Token.ofKind, Token.valid_of_ne]⟩
    -- a string cannot follow anything else, so that it is accepted here tells where the reader is
    have hrun := hp.ofTokens_eq hvalid
    rw [Program.ofTokens, run_append h hus] at hrun
    obtain ⟨s, hs⟩ := exists_step (by simp [Token.ofKind]) hrun
    exact awaitsValue_of_step rfl hs
  · rintro ⟨p, start, name, colon, hphase⟩
    have hreached := reached_advance h
    rw [hphase] at hreached
    cases hreached with
    | inside hat =>
      cases hat with
      | property hw hn => exact .intro hw hn (by simp) (by simp)
      | propertyColon hw hn hc => exact .intro hw hn (by simpa using hc) (by simp)

/-- A number of an expression has just been read exactly if the last token is a number that no
property is set to. -/
theorem afterNumber_iff (hus : ∀ u ∈ us, u.kind ≠ .endOfInput)
    (h : (Reader.start : Reader K).advance us = .ok r) : r.AfterNumber ↔
      ∃ ts n, us = ts ++ [n] ∧ n.kind = .number ∧ ¬ InProperty K ts := by
  obtain rfl | ⟨ts, n, rfl⟩ := us.eq_nil_or_concat'
  · cases h
    exact iff_of_false (fun ⟨_, _, hphase, _⟩ => by cases hphase) (by simp)
  · obtain ⟨r', hr', hstep⟩ := advance_concat.mp h
    have hts : ∀ u ∈ ts, u.kind ≠ .endOfInput := fun u hu => hus u (List.mem_append_left _ hu)
    rw [step_number_iff hstep, ← inProperty_iff hts hr']
    constructor
    · exact fun ⟨hn, hin⟩ => ⟨ts, n, rfl, hn, hin⟩
    · rintro ⟨ts', n', heq, hn, hin⟩
      obtain ⟨rfl, hn'⟩ := List.append_inj' heq rfl
      obtain rfl := List.singleton_inj.mp hn'
      exact ⟨hn, hin⟩

/-- **The tokens that bind are the joined ones.** -/
theorem binds_iff_joined (hus : ∀ u ∈ us, u.kind ≠ .endOfInput)
    (hr : (Reader.start : Reader K).advance us = .ok r) (h : r.run (t :: vs) = .ok p) :
    r.Binds t.kind ↔ Joined K us t := by
  constructor
  · intro hbinds
    unfold Reader.Binds at hbinds
    split at hbinds
    case h_2 => exact hbinds.elim
    case h_1 q place hphase =>
      -- place by place: what binds there is what the grammar joins
      cases place with
      | property start name colon =>
        exact .property ((inProperty_iff hus hr).mpr ⟨q, start, name, colon, hphase⟩)
      | afterVariable => exact .comma hbinds.2
      | labelOrOperand => exact .colon hbinds
      | expr purpose e =>
        cases e with
        | operand | operator => exact hbinds.elim
        | number =>
          obtain ⟨ts, n, hus, hn, hts⟩ :=
            (afterNumber_iff hus hr).mp ⟨q, _, hphase, _, _, _, _, rfl⟩
          exact .factor hus hn hts hbinds
      | body | varName | blockBrace | block => exact hbinds.elim
  · intro hjoined
    -- a token that is joined has been accepted, and nothing else accepts it
    cases hjoined with
    | property hin =>
      obtain ⟨q, start, name, colon, hphase⟩ := (inProperty_iff hus hr).mp hin
      rw [Reader.Binds, hphase]
      trivial
    | colon ht =>
      obtain ⟨s, hs⟩ := exists_step (by simp [ht]) h
      exact binds_of_step (.inr (.inl ht)) hs
    | comma ht =>
      obtain ⟨s, hs⟩ := exists_step (by simp [ht]) h
      exact binds_of_step (.inr (.inr ht)) hs
    | factor heq hn hts ht =>
      obtain ⟨q, place, hphase, purpose, value, pending, outer, rfl⟩ :=
        (afterNumber_iff hus hr).mpr ⟨_, _, heq, hn, hts⟩
      rw [Reader.Binds, hphase]
      exact ht

omit [Scalar K] in
/-- Whether tokens bind does not depend on offsets. -/
theorem binds_relocate (f : Nat → Nat) (r : Reader K) (k : Token.Kind) :
    (r.relocate f).Binds k ↔ r.Binds k := by
  obtain ⟨ps, phase, last⟩ := r
  cases phase with
  | outside | name | brace => exact Iff.rfl
  | inside q place =>
    cases place with
    | expr purpose e => cases e <;> exact Iff.rfl
    | _ => exact Iff.rfl

/-- A reader goes through the same tokens at other offsets. -/
theorem advance_relocate {f : Nat → Nat} (hf : Monotone f) {s : Reader K} {ts : List Token}
    (h : r.advance ts = .ok s) :
    (r.relocate f).advance (ts.map (Token.relocate f)) = .ok (s.relocate f) := by
  induction ts generalizing r with
  | nil => cases h; rfl
  | cons t ts ih =>
    simp only [advance, List.map_cons] at h ⊢
    rw [step_relocate hf]
    cases hs : r.step t with
    | error e => rw [hs] at h; cases h
    | ok r' => rw [hs] at h; exact ih h

/-- **A comment may stand between any two tokens that are not joined.** When a comment is put in
front of some token of a text, the text is the same up to spans, unless the token is joined to
what is in front of it, and then the text is rejected. -/
theorem spelledBy_comment {c : Token} (h : Program.ofTokens (us ++ t :: vs) = .ok p)
    (hus : ∀ u ∈ us, u.kind ≠ .endOfInput) (hc : c.kind = .comment) :
    (¬ Joined K us t → p.SpelledBy (us ++ c :: t :: vs)) ∧
      (Joined K us t → ∃ e, Program.ofTokens (K := K) (us ++ c :: t :: vs) = .error e) := by
  obtain ⟨r, hr, hrun⟩ := exists_advance hus h
  have hjoined := binds_iff_joined hus hr hrun
  -- at offset 0 the reader goes through the comment without seeing it
  have hzero : ∀ q : Program K,
      Program.ofTokens ((us ++ c :: t :: vs).map Token.unspanned) = .ok q ↔
      Program.ofTokens ((us ++ t :: vs).map Token.unspanned) = .ok q ∧ ¬ Joined K us t := by
    intro q
    have hr' : (Reader.start : Reader K).advance (us.map Token.unspanned) =
        .ok (r.relocate fun _ => 0) := advance_relocate monotone_const hr
    have hus' : ∀ u ∈ us.map Token.unspanned, u.kind ≠ .endOfInput := by
      simpa [Token.unspanned] using hus
    rw [Program.ofTokens, Program.ofTokens, List.map_append, List.map_append,
      run_append hr' hus', run_append hr' hus', List.map_cons,
      run_comment (show c.unspanned.kind = .comment from hc) _ rfl, List.map_cons, ← hjoined]
    simp [Token.unspanned, binds_relocate]
  have hread : Program.ofTokens ((us ++ t :: vs).map Token.unspanned) = .ok p.unspanned :=
    ofTokens_unspanned.mpr ⟨p, h, rfl⟩
  refine ⟨fun hn => ofTokens_unspanned.mp ((hzero _).mpr ⟨hread, hn⟩), fun hj => ?_⟩
  cases hq : Program.ofTokens (K := K) (us ++ c :: t :: vs) with
  | error e => exact ⟨e, rfl⟩
  | ok q => exact absurd hj ((hzero _).mp (ofTokens_unspanned.mpr ⟨q, hq, rfl⟩)).2

end Reached

/-- A list of variables up to its first name, in a problem. -/
def firstVariable : List Token :=
  [⟨.problem, ⟨0, 7⟩, "problem"⟩, ⟨.name, ⟨8, 9⟩, "p"⟩, ⟨.openBrace, ⟨10, 11⟩, "\x7b"⟩,
    ⟨.newline, ⟨11, 12⟩, "\n"⟩, ⟨.vars, ⟨12, 16⟩, "vars"⟩, ⟨.name, ⟨17, 18⟩, "a"⟩]

/-- A second name, and the rest of the problem. -/
def secondVariable : List Token :=
  [⟨.name, ⟨32, 33⟩, "b"⟩, ⟨.newline, ⟨33, 34⟩, "\n"⟩, ⟨.maximize, ⟨34, 37⟩, "max"⟩,
    ⟨.name, ⟨38, 39⟩, "a"⟩, ⟨.newline, ⟨39, 40⟩, "\n"⟩, ⟨.closeBrace, ⟨40, 41⟩, "\x7d"⟩,
    .endAt 41]

/-- The comma between the names. -/
def variableComma : Token := ⟨.comma, ⟨30, 31⟩, ","⟩

/-- A comment between the first name and the comma. -/
def variableComment : Token := ⟨.comment, ⟨19, 30⟩, "/* first */"⟩

/-- The problem that the tokens without the comment spell out. -/
def twoVariables : Program ℚ :=
  ⟨[⟨⟨0, 41⟩, "p", [], some ⟨⟨12, 33⟩, ["a", "b"]⟩,
    [⟨⟨34, 39⟩, .maximize, .var ⟨38, 39⟩ "a"⟩], []⟩]⟩

/-- Behind the comma the comment may stand. -/
theorem spelledBy_comment_variables :
    Program.ofTokens (firstVariable ++ variableComma :: secondVariable) = .ok twoVariables ∧
      twoVariables.SpelledBy
        (firstVariable ++ variableComma :: variableComment :: secondVariable) := by
  have hread : Program.ofTokens ((firstVariable ++ [variableComma]) ++ secondVariable) =
      .ok twoVariables := rfl
  have hend : ∀ u ∈ firstVariable ++ [variableComma], u.kind ≠ .endOfInput := by decide
  -- a name is awaited there
  have hr : (Reader.start : Reader ℚ).advance (firstVariable ++ [variableComma]) =
      .ok (within [] (.empty ⟨0, 7⟩ "p") (.varName 12 ["a"]) 31) := rfl
  have hrun : (within [] (.empty ⟨0, 7⟩ "p") (.varName 12 ["a"]) 31).run
      (⟨.name, ⟨32, 33⟩, "b"⟩ :: secondVariable.tail) = .ok twoVariables := rfl
  have hjoined := (binds_iff_joined hend hr hrun).not.mp not_false
  exact ⟨hread, (spelledBy_comment hread hend rfl).1 hjoined⟩

/-- **A comment may not stand anywhere.** In front of the comma between two variables it makes an
accepted text wrong. -/
theorem comment_refused : ¬ ∀ (us vs : List Token) (t c : Token) (p : Program ℚ),
    Tidy ℚ (us ++ t :: vs) → Program.ofTokens (us ++ t :: vs) = .ok p → c.kind = .comment →
    (¬ ∃ ts n, us = ts ++ [n] ∧ n.kind = .number ∧ (t.kind = .name ∨ t.kind = .openParen)) →
    p.SpelledBy (us ++ c :: t :: vs) := by
  intro h
  have htidy : Tidy ℚ (firstVariable ++ variableComma :: secondVariable) := by
    refine ⟨⟨firstVariable ++ variableComma :: secondVariable.dropLast, .endAt 41, rfl, rfl,
      by decide⟩, ?_⟩
    unfold Token.Valid
    decide
  obtain ⟨q, hq, -⟩ := h firstVariable secondVariable variableComma variableComment twoVariables
    htidy rfl rfl fun ⟨_, _, _, _, ht⟩ => by cases ht <;> contradiction
  have herror : Program.ofTokens (K := ℚ)
      (firstVariable ++ variableComment :: variableComma :: secondVariable) =
        .error (.unexpected .lineEnd .comma ⟨30, 31⟩) := rfl
  rw [herror] at hq
  cases hq

end CornerPoint.Source
