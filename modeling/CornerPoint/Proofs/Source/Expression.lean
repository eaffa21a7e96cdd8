import CornerPoint.Proofs.Source.Reads

/-!
# The reader of expressions and the grammar

The reader never goes back, so it has to know at every token what the tokens in front of it
amount to. `Leads r ts` says what they amount to for each of its states: the part behind the
last open parenthesis spells a sum whose last term or operand is still open, and each part
between two open parentheses does so as well. A step preserves this (`Leads.step`), so what the
reader takes for an expression derives from the grammar (`ExprReader.Reads.sound`).

For the converse the reader is followed through a derivation: from any state that awaits an
operand it reads a factor, a product or a sum to the end (`Derives.reaches`).
-/

namespace CornerPoint.Source

open ExprReader

variable {K : Type}

/-! ## Signs and waiting operators -/

/-- The sign nearest to the operand applies first. -/
theorem Pending.negate_succ (n : Nat) (e : Expr K) :
    Pending.negate (n + 1) e = Pending.negate n (.neg e) := by
  induction n with
  | zero => rfl
  | succ n ih => exact congrArg Expr.neg ih

/-- A further sign in front of the operand applies to the operand first. -/
theorem Pending.term_negations_succ (p : Pending K) (e : Expr K) :
    ({ p with negations := p.negations + 1 } : Pending K).term e = p.term (.neg e) :=
  congrArg p.product.apply (negate_succ p.negations e)

@[simp] theorem Pending.term_first (sum : Awaiting K) (e : Expr K) :
    (⟨sum, none, 0⟩ : Pending K).term e = e := rfl

@[simp] theorem Pending.term_next (sum : Awaiting K) (l e : Expr K) (op : Operator) :
    (⟨sum, some (l, op), 0⟩ : Pending K).term e = .binary l op e := rfl

@[simp] theorem ExprReader.enclosed_none (e : Expr K) : enclosed none e = .paren e := rfl

@[simp] theorem ExprReader.enclosed_some (n : K) (e : Expr K) :
    enclosed (some n) e = .binary (.number n) .mul (.paren e) := rfl

/-- Blanks in front of a factor belong to it. -/
theorem Derives.blank [Scalar K] {i : Bool} {g ts : List Token} {e : Expr K} (hg : Blank i g)
    (h : Derives .factor i ts e) : Derives .factor i (g ++ ts) e := by
  cases h with
  | operand hb hop => simpa using Derives.operand (hg.append hb) hop

/-! ## What the tokens in front of a state amount to -/

/-- `Spells i sum term ts`: the tokens `ts` are the terms of `sum` and the operator behind
them, if there are any, and then `term`, as far as it goes. -/
inductive Spells [Scalar K] (i : Bool) : Awaiting K → Expr K → List Token → Prop
  | first {ts term} : Derives .product i ts term → Spells i none term ts
  | next {ts left g t op us term} : Derives .sum i ts left → Blank i g →
      t.kind.additive? = some op → Derives .product i us term →
      Spells i (some (left, op)) term (ts ++ g ++ t :: us)

/-- `Open i p ts`: whatever factor follows the tokens `ts` completes the term that `p` is in
front of. -/
def Open [Scalar K] (i : Bool) (p : Pending K) (ts : List Token) : Prop :=
  ∀ us e, Derives .factor i us e → Spells i p.sum (p.term e) (ts ++ us)

section Spelling

variable [Scalar K] {i : Bool} {sum : Awaiting K} {term : Expr K} {p : Pending K}
  {ts g : List Token} {t : Token} {op : Operator}

/-- All terms together are a sum. -/
theorem Spells.derives (h : Spells i sum term ts) : Derives .sum i ts (sum.apply term) := by
  cases h with
  | first hp => exact .product hp
  | next hs hg ht hp => exact .additive hs hg ht hp

theorem open_start : Open i (.start : Pending K) [] := fun _ _ h => .first (.factor h)

/-- Blanks in front of an operand are of no account. -/
theorem Open.blank (h : Open i p ts) (hg : Blank i g) : Open i p (ts ++ g) := by
  intro us e he
  simpa using h (g ++ us) e (he.blank hg)

theorem Open.minus (h : Open i p ts) (ht : t.kind = .minus) :
    Open i { p with negations := p.negations + 1 } (ts ++ [t]) := by
  intro us e he
  rw [Pending.term_negations_succ]
  simpa using h (t :: us) (.neg e) (.operand (g := []) .nil (.minus ht he))

theorem Open.plus (h : Open i p ts) (ht : t.kind = .plus) : Open i p (ts ++ [t]) := by
  intro us e he
  simpa using h (t :: us) e (.operand (g := []) .nil (.plus ht he))

/-- An operand without blanks or signs completes the term. -/
theorem Open.operand (h : Open i p ts) {us : List Token} {e : Expr K}
    (he : Derives .operand i us e) : Spells i p.sum (p.term e) (ts ++ us) :=
  h us e (.operand (g := []) .nil he)

/-- A factor waits for what it is multiplied with. -/
theorem Spells.multiplicative (h : Spells i sum term ts) (hg : Blank i g)
    (ht : t.kind.multiplicative? = some op) :
    Open i ⟨sum, some (term, op), 0⟩ (ts ++ g ++ [t]) := by
  intro us e he
  cases h with
  | first hp => simpa using Spells.first (.multiplicative hp hg ht he)
  | next hs hg' ht' hp => simpa using Spells.next hs hg' ht' (.multiplicative hp hg ht he)

/-- A term is put into the sum when another one follows. -/
theorem Spells.additive (h : Spells i sum term ts) (hg : Blank i g)
    (ht : t.kind.additive? = some op) :
    Open i ⟨some (sum.apply term, op), none, 0⟩ (ts ++ g ++ [t]) := by
  intro us e he
  simpa using Spells.next h.derives hg ht (.factor he)

end Spelling

/-- `Around outer ts`: the tokens `ts` lead up to the last of the open parentheses, whose
surroundings are `outer`. -/
inductive Around [Scalar K] : List (Outer K) → List Token → Prop
  | nil : Around [] []
  | paren {outer p ts us o} : Around outer ts → Open (inside outer) p us →
      o.kind = .openParen → Around (⟨none, p⟩ :: outer) (ts ++ us ++ [o])
  | product {outer p ts us n o} : Around outer ts → Open (inside outer) p us →
      n.kind = .number → o.kind = .openParen →
      Around (⟨some n.number, p⟩ :: outer) (ts ++ us ++ [n, o])

/-- `Leads r ts`: what the tokens `ts` amount to when they have led to the reader `r`. -/
inductive Leads [Scalar K] : ExprReader K → List Token → Prop
  | operand {outer p ts us} : Around outer ts → Open (inside outer) p us →
      Leads (.operand p outer) (ts ++ us)
  | number {outer p ts us n} : Around outer ts → Open (inside outer) p us → n.kind = .number →
      Leads (.number n.number p outer) (ts ++ us ++ [n])
  | operator {outer sum term ts us g} : Around outer ts → Spells (inside outer) sum term us →
      Blank (inside outer) g → Leads (.operator sum term outer) (ts ++ us ++ g)

section Soundness

variable [Scalar K] {outer : List (Outer K)} {p : Pending K} {sum : Awaiting K}
  {term e : Expr K} {ts us g : List Token} {t : Token} {r s : ExprReader K}

theorem leads_start : Leads (.start : ExprReader K) [] := .operand .nil open_start

/-- An operand has just been completed. -/
theorem Leads.afterOperand {vs : List Token} (ha : Around outer ts)
    (ho : Open (inside outer) p us) (he : Derives .operand (inside outer) vs e) :
    Leads (ExprReader.afterOperand p e outer) (ts ++ us ++ vs) := by
  simpa [ExprReader.afterOperand] using Leads.operator ha (ho.operand he) .nil

/-- A closing parenthesis completes the operand that its parentheses enclose. -/
theorem Around.close {o : Outer K} (ha : Around (o :: outer) ts)
    (hs : Spells true sum term us) (hg : Blank true g) (ht : t.kind = .closeParen) :
    Leads (ExprReader.afterOperand o.pending (enclosed o.multiplier (sum.apply term)) outer)
      (ts ++ us ++ g ++ [t]) := by
  cases ha with
  | paren ha ho hp =>
    simpa using Leads.afterOperand ha ho (.paren (.enclosed hp hs.derives hg ht))
  | product ha ho hn hp =>
    simpa using Leads.afterOperand ha ho (.numberParen hn (.enclosed hp hs.derives hg ht))

/-- A token behind a complete operand. -/
theorem Leads.stepOperator (ha : Around outer ts) (hs : Spells (inside outer) sum term us)
    (hg : Blank (inside outer) g) (h : stepOperator sum term outer t = .more r) :
    Leads r (ts ++ us ++ g ++ [t]) := by
  obtain ⟨ht, rfl⟩ | ⟨op, ht, rfl⟩ | ⟨op, ht, rfl⟩ | ⟨o, os, rfl, ht, rfl⟩ :=
    stepOperator_more h
  · simpa using Leads.operator ha hs (hg.append ht)
  · simpa using Leads.operand ha (hs.multiplicative hg ht)
  · simpa using Leads.operand ha (hs.additive hg ht)
  · exact ha.close hs hg ht

/-- A token where an operand must follow. -/
theorem Leads.stepOperand (ha : Around outer ts) (ho : Open (inside outer) p us)
    (h : stepOperand p outer t = .more r) : Leads r (ts ++ us ++ [t]) := by
  obtain ⟨ht, rfl⟩ | ⟨ht, rfl⟩ | ⟨ht, rfl⟩ | ⟨ht, rfl⟩ | ⟨ht, rfl⟩ | ⟨ht, rfl⟩ :=
    stepOperand_more h
  · simpa using Leads.operand ha (ho.blank ht)
  · simpa using Leads.operand ha (ho.minus ht)
  · simpa using Leads.operand ha (ho.plus ht)
  · exact .number ha ho ht
  · exact .afterOperand ha ho (.name ht)
  · simpa using Leads.operand (Around.paren ha ho ht) open_start

/-- What has been read still amounts to the state of the reader after one more token. -/
theorem Leads.step (hl : Leads r ts) (h : r.step t = .more s) : Leads s (ts ++ [t]) := by
  cases hl with
  | operand ha ho => exact .stepOperand ha ho h
  | operator ha hs hg => exact .stepOperator ha hs hg h
  | number ha ho hn =>
    simp only [ExprReader.step] at h
    split at h
    next ht =>
      cases h
      simpa using Leads.afterOperand ha ho (.numberName hn ht)
    next ht =>
      cases h
      simpa using Leads.operand (Around.product ha ho hn ht) open_start
    next => simpa using Leads.stepOperator ha (ho.operand (.number hn)) .nil h

theorem Leads.reads (h : Reads .start ts r) : Leads r ts := by
  induction h with
  | refl => exact leads_start
  | snoc _ hstep ih => exact ih.step hstep

/-- An expression that ends is a sum outside all parentheses, perhaps with comments behind. -/
theorem Leads.ended (hl : Leads r ts) (h : r.step t = .ended e) :
    ∃ us g, ts = us ++ g ∧ Derives .sum false us e ∧ Blank false g := by
  cases hl with
  | operand => exact absurd h stepOperand_ne_ended
  | operator ha hs hg =>
    obtain ⟨rfl, rfl⟩ := stepOperator_eq_ended h
    cases ha
    exact ⟨_, _, by simp, hs.derives, hg⟩
  | number ha ho hn =>
    simp only [ExprReader.step] at h
    split at h
    next => cases h
    next => cases h
    next =>
      obtain ⟨rfl, rfl⟩ := stepOperator_eq_ended h
      cases ha
      exact ⟨_, [], by simp, (ho.operand (.number hn)).derives, .nil⟩

/-- What the reader takes for an expression derives from the grammar, with the same tree. -/
theorem ExprReader.Reads.sound (h : Reads .start ts r) (he : r.step t = .ended e) :
    ∃ us g, ts = us ++ g ∧ Derives .sum false us e ∧ Blank false g :=
  (Leads.reads h).ended he

end Soundness

/-! ## Reading what derives -/

/-- From wherever `level` may follow the reader reads `ts` to the end and then has `e`. -/
def Reaches [Scalar K] (level : Level) (i : Bool) (ts : List Token) (e : Expr K) : Prop :=
  match level with
  | .sum => ∀ outer, inside outer = i → ∃ r sum term,
      Reads (.operand .start outer) ts r ∧ Settled r sum term outer ∧ sum.apply term = e
  | .product => ∀ sum outer, inside outer = i → ∃ r,
      Reads (.operand ⟨sum, none, 0⟩ outer) ts r ∧ Settled r sum e outer
  | .factor | .operand => ∀ p outer, inside outer = i → ∃ r,
      Reads (.operand p outer) ts r ∧ Settled r p.sum (p.term e) outer
  | .paren => ∃ o us e', ts = o :: us ∧ e = .paren e' ∧ o.kind = .openParen ∧
      ∀ m p outer,
        Reads (.operand .start (⟨m, p⟩ :: outer)) us (afterOperand p (enclosed m e') outer)

section Completeness

variable [Scalar K] {i : Bool} {ts us g : List Token} {t : Token} {e l r : Expr K}
  {op : Operator}

/-- One token that is an operand of its own. -/
theorem reaches_single {value : Expr K}
    (h : ∀ p outer, ∃ r, (.operand p outer : ExprReader K).step t = .more r ∧
      Settled r p.sum (p.term value) outer) :
    Reaches .operand i [t] value := by
  intro p outer _
  obtain ⟨r, hstep, hr⟩ := h p outer
  exact ⟨r, .single hstep, hr⟩

/-- A sum and a product behind an additive operator. -/
theorem reaches_additive (hl : Reaches .sum i ts l) (hg : Blank i g)
    (ht : t.kind.additive? = some op) (hr : Reaches .product i us r) :
    Reaches .sum i (ts ++ g ++ t :: us) (.binary l op r) := by
  intro outer ho
  obtain ⟨r₁, sum, term, hread₁, hset₁, rfl⟩ := hl outer ho
  obtain ⟨r₂, hread₂, hset₂⟩ := hset₁.blank (ho ▸ hg)
  obtain ⟨r₃, hread₃, hset₃⟩ := hr (some (sum.apply term, op)) outer ho
  exact ⟨r₃, _, _, (hread₁.trans hread₂).trans (.cons (hset₂.additive ht) hread₃), hset₃, rfl⟩

/-- A product and a factor behind a multiplicative operator. -/
theorem reaches_multiplicative (hl : Reaches .product i ts l) (hg : Blank i g)
    (ht : t.kind.multiplicative? = some op) (hr : Reaches .factor i us r) :
    Reaches .product i (ts ++ g ++ t :: us) (.binary l op r) := by
  intro sum outer ho
  obtain ⟨r₁, hread₁, hset₁⟩ := hl sum outer ho
  obtain ⟨r₂, hread₂, hset₂⟩ := hset₁.blank (ho ▸ hg)
  obtain ⟨r₃, hread₃, hset₃⟩ := hr ⟨sum, some (l, op), 0⟩ outer ho
  exact ⟨r₃, (hread₁.trans hread₂).trans (.cons (hset₂.multiplicative ht) hread₃), hset₃⟩

/-- A sum between parentheses is read as one operand, for whatever waits outside. -/
theorem reaches_enclosed {o c : Token} (ho : o.kind = .openParen) (hs : Reaches .sum true ts e)
    (hg : Blank true g) (hc : c.kind = .closeParen) :
    Reaches .paren i (o :: ts ++ g ++ [c]) (.paren e) := by
  refine ⟨o, ts ++ g ++ [c], e, rfl, rfl, ho, fun m p outer => ?_⟩
  obtain ⟨r₁, sum, term, hread₁, hset₁, rfl⟩ := hs (⟨m, p⟩ :: outer) rfl
  obtain ⟨r₂, hread₂, hset₂⟩ := hset₁.blank hg
  refine .snoc (hread₁.trans hread₂) ?_
  rw [hset₂ c (by simp [hc]) (by simp [hc])]
  simp [stepOperator, hc]

/-- A number waits for what it may multiply. -/
theorem step_operand_number {n : Token} (hn : n.kind = .number) (hv : n.Valid K) (p : Pending K)
    (outer : List (Outer K)) :
    (ExprReader.operand p outer).step n = .more (.number n.number p outer) := by
  simp [ExprReader.step, stepOperand, hn, hv.ofText?_eq hn]

/-- A number and the name that it multiplies. -/
theorem reaches_numberName {n : Token} (hn : n.kind = .number) (ht : t.kind = .name)
    (hv : n.Valid K) :
    Reaches .operand i [n, t] (.binary (.number (n.number : K)) .mul (.var t.span t.text)) := by
  intro p outer _
  refine ⟨_, .cons (step_operand_number hn hv p outer) (.single ?_), settled_operator _ _ _⟩
  simp only [ExprReader.step, ht, afterOperand]

/-- A number and the parentheses that it multiplies. -/
theorem reaches_numberParen {n : Token} (hn : n.kind = .number) (hv : n.Valid K)
    (h : Reaches .paren i ts e) :
    Reaches .operand i (n :: ts) (.binary (.number (n.number : K)) .mul e) := by
  intro p outer _
  obtain ⟨o, us, e, rfl, rfl, ho, hread⟩ := h
  refine ⟨_, .cons (step_operand_number hn hv p outer)
    (.cons ?_ (hread (some n.number) p outer)), settled_operator _ _ _⟩
  simp only [ExprReader.step, ho]

theorem reaches_paren (h : Reaches .paren i ts e) : Reaches .operand i ts e := by
  intro p outer _
  obtain ⟨o, us, e, rfl, rfl, ho, hread⟩ := h
  refine ⟨_, .cons ?_ (hread none p outer), settled_operator _ _ _⟩
  simp only [ExprReader.step, stepOperand, ho]

/-- Everything that derives is read to the end. -/
theorem Derives.reaches {level : Level} (h : Derives level i ts e) (hv : ∀ t ∈ ts, t.Valid K) :
    Reaches level i ts e := by
  induction h with
  | product _ ih =>
    intro outer ho
    obtain ⟨r, hread, hset⟩ := ih hv none outer ho
    exact ⟨r, none, _, hread, hset, rfl⟩
  | additive _ hg ht _ ihl ihr =>
    simp only [List.forall_mem_append, List.forall_mem_cons] at hv
    exact reaches_additive (ihl hv.1.1) hg ht (ihr hv.2.2)
  | factor _ ih =>
    intro sum outer ho
    exact ih hv ⟨sum, none, 0⟩ outer ho
  | multiplicative _ hg ht _ ihl ihr =>
    simp only [List.forall_mem_append, List.forall_mem_cons] at hv
    exact reaches_multiplicative (ihl hv.1.1) hg ht (ihr hv.2.2)
  -- blanks before an operand leave the reader where it is
  | operand hg _ ih =>
    intro p outer ho
    obtain ⟨r, hread, hset⟩ := ih (List.forall_mem_append.mp hv).2 p outer ho
    exact ⟨r, (Reads.operand_blank (ho ▸ hg)).trans hread, hset⟩
  -- the sign is counted, and put on when the operand is complete
  | minus ht _ ih =>
    intro p outer ho
    obtain ⟨r, hread, hset⟩ :=
      ih (List.forall_mem_cons.mp hv).2 { p with negations := p.negations + 1 } outer ho
    rw [Pending.term_negations_succ] at hset
    exact ⟨r, .cons (by simp [ExprReader.step, stepOperand, ht]) hread, hset⟩
  | plus ht _ ih =>
    intro p outer ho
    obtain ⟨r, hread, hset⟩ := ih (List.forall_mem_cons.mp hv).2 p outer ho
    exact ⟨r, .cons (by simp [ExprReader.step, stepOperand, ht]) hread, hset⟩
  | number ht =>
    exact reaches_single fun p outer =>
      ⟨_, step_operand_number ht (hv _ (List.mem_singleton_self _)) p outer, settled_number _ p outer⟩
  | name ht =>
    refine reaches_single fun p outer => ⟨_, ?_, settled_operator _ _ _⟩
    simp only [ExprReader.step, stepOperand, ht, afterOperand]
  | paren _ ih => exact reaches_paren (ih hv)
  -- an implicit product binds closer than the signs and factors in front of it
  | numberName hn ht => exact reaches_numberName hn ht (List.forall_mem_cons.mp hv).1
  | numberParen hn _ ih =>
    exact reaches_numberParen hn (List.forall_mem_cons.mp hv).1 (ih (List.forall_mem_cons.mp hv).2)
  | enclosed ho _ hg hc ih =>
    simp only [List.forall_mem_append, List.forall_mem_cons] at hv
    exact reaches_enclosed ho (ih hv.1.1.2) hg hc

/-- What derives from the grammar, with comments behind it, is read as its tree, whatever
ends it. -/
theorem Derives.reads (h : Derives .sum false ts e) (hv : ∀ t ∈ ts, t.Valid K)
    (hg : Blank false g) :
    ∃ r, Reads .start (ts ++ g) r ∧ ∀ t : Token, Ends t.kind → r.step t = .ended e := by
  obtain ⟨r₁, sum, term, hread₁, hset₁, rfl⟩ := h.reaches hv [] rfl
  obtain ⟨r₂, hread₂, hset₂⟩ := hset₁.blank hg
  exact ⟨r₂, hread₁.trans hread₂, fun t ht => hset₂.ended ht⟩

end Completeness

end CornerPoint.Source
