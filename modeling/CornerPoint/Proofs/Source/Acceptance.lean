import CornerPoint.Proofs.Source.Declaration

/-!
# The reader accepts exactly what derives from the grammar

`Declaration` follows the reader through a derivation. For the converse this file says what
the tokens read so far amount to in every state of the reader: `Pends` for the lists that are
still growing, `At` for the places inside a problem and `Reached` for the reader as a whole. One
token preserves it (`Reached.step`), hence so does a whole run, and at the end token it is a
derivation of the program. Together they give `ofTokens_eq_ok_iff`.
-/

namespace CornerPoint.Source

open ExprReader hiding step start
open Reader

variable {K : Type}

/-! ## Lists that are still growing -/

/-- The tokens `ts` end inside a list whose members so far are `xs`: whatever completes the
list satisfies `done`. -/
def Pends {α : Type} (closer : Token.Kind) (item : List Token → α → Prop) (line : α → Bool)
    (done : List Token → Token → List α → Prop) (ts : List Token) (xs : List α) : Prop :=
  ∀ us c ys, Series closer item line us c ys → done (ts ++ us) c (xs ++ ys)

section Growing

variable {α : Type} {closer : Token.Kind} {item : List Token → α → Prop} {line : α → Bool}
  {done : List Token → Token → List α → Prop} {ts us g : List Token} {t c : Token} {x : α}
  {xs ys : List α}

theorem Series.blank (hg : Blank true g) (h : Series closer item line us c ys) :
    Series closer item line (g ++ us) c ys := by
  cases h with
  | nil hg' hc => exact .nil (hg.append hg') hc
  | cons hg' hx hline h => simpa using Series.cons (hg.append hg') hx hline h

/-- Blanks may come anywhere before the next part. -/
theorem Pends.blank (h : Pends closer item line done ts xs) (ht : t.kind.isTrivia = true) :
    Pends closer item line done (ts ++ [t]) xs := fun us c ys hs => by
  simpa using h _ _ _ (hs.blank (blank_true_singleton.mpr ht))

/-- A member that does not take up a line. -/
theorem Pends.member (h : Pends closer item line done ts xs) (hx : item us x)
    (hl : line x = false) : Pends closer item line done (ts ++ us) (xs ++ [x]) :=
  fun vs c ys hs => by
    simpa using h _ _ _ (.cons .nil hx (fun hl' => by simp [hl] at hl') hs)

/-- A member and the end of its line. -/
theorem Pends.endLine (h : Pends closer item line done ts xs) (hx : item us x)
    (ht : t.kind = .newline) : Pends closer item line done (ts ++ us ++ [t]) (xs ++ [x]) :=
  fun vs c ys hs => by
    have hblank : Blank true [t] := blank_singleton.mpr (.inr ⟨rfl, ht⟩)
    have hend : EndsLine ([t] ++ vs ++ [c]) := ⟨t, rfl, .inl ht⟩
    simpa using h _ _ _ (.cons .nil hx (fun _ => hend) (hs.blank hblank))

/-- The closing token completes a series. -/
theorem Pends.close (h : Pends closer item line done ts xs) (hc : c.kind = closer) :
    done ts c xs := by
  simpa using h _ _ _ (.nil .nil hc)

/-- A member whose line is ended by the brace that closes the list. -/
theorem Pends.closeLine (h : Pends .closeBrace item line done ts xs) (hx : item us x)
    (hc : c.kind = .closeBrace) : done (ts ++ us) c (xs ++ [x]) := by
  simpa using h _ _ _ (.cons .nil hx (fun _ => ⟨c, rfl, .inr (.inl hc)⟩) (.nil .nil hc))

end Growing

variable [Scalar K]

/-- The tokens `ts` end between problems, and `ps` are the problems so far. -/
abbrev Between : List Token → List (Problem K) → Prop :=
  Pends .endOfInput IsProblem (fun _ => false) fun us c ps => IsProgram (us ++ [c]) ⟨ps⟩

/-- The tokens `ts` end between declarations of a problem behind the problems `ps`; its
declarations so far are `items`. -/
abbrev Within (ps : List (Problem K)) (start : Span) (name : String) :
    List Token → List (Item K) → Prop :=
  Pends .closeBrace IsItem Item.takesLine fun us c items =>
    Between (us ++ [c]) (ps ++ [.ofItems (start.merge c.span) name items])

/-- The tokens `ts` end between rows of a block behind the declarations `items`; its rows so
far are `rows`. -/
abbrev InBlock (ps : List (Problem K)) (start : Span) (name : String) (items : List (Item K)) :
    List Token → List (ConstraintLine K) → Prop :=
  Pends .closeBrace IsRow (fun _ => true) fun us c rows =>
    Within ps start name (us ++ [c]) (items ++ [.block rows])

section Opening

variable {ps : List (Problem K)} {start : Span} {name : String} {items : List (Item K)}
  {ts g h : List Token} {t n o : Token}

theorem between_nil : Between [] ([] : List (Problem K)) := fun _ _ _ hs => .intro hs

/-- The brace of a problem opens its declarations. -/
theorem Between.openBrace (hb : Between ts ps) (ht : t.kind = .problem) (hg : Blank true g)
    (hn : n.kind = .name) (hh : Blank true h) (ho : o.kind = .openBrace) :
    Within ps t.span n.text (ts ++ (t :: g ++ n :: h) ++ [o]) [] := fun us c items hs => by
  simpa using Pends.member hb (.intro ht hg hn hh ho hs) rfl

/-- The brace of a block opens its rows. -/
theorem Within.openBrace (hw : Within ps start name ts items) (ht : t.kind = .constraints)
    (hg : Blank true g) (ho : o.kind = .openBrace) :
    InBlock ps start name items (ts ++ t :: g ++ [o]) [] := fun us c rows hs => by
  simpa using Pends.member hw (.block ht hg ho hs) rfl

end Opening

/-! ## Places -/

/-- The name that must follow completes the list of names. -/
def AwaitsName (us : List Token) (names : List String) : Prop :=
  ∀ g n, Blank true g → n.kind = .name → IsNames (us ++ g ++ [n]) (names ++ [n.text])

/-- The tokens `ts` begin at `start`, with a token that is neither a line end nor a comment. -/
def BeginsAt (start : Nat) (ts : List Token) : Prop :=
  ∃ t us, ts = t :: us ∧ t.kind.isTrivia = false ∧ t.span.start = start

theorem BeginsAt.append {start : Nat} {ts : List Token} (h : BeginsAt start ts)
    (us : List Token) : BeginsAt start (ts ++ us) := by
  obtain ⟨t, vs, rfl, ht, hs⟩ := h
  exact ⟨t, vs ++ us, rfl, ht, hs⟩

/-- Such tokens reach from `start` to wherever the last of them ends. -/
theorem BeginsAt.extent_eq {start : Nat} {us : List Token} (h : BeginsAt start us) (last : Nat) :
    extent us = ⟨start, stopAfter last us⟩ := by
  obtain ⟨t, us, rfl, ht, rfl⟩ := h
  exact extent_cons ht us

/-- `At ps start name ts p place`: what the tokens `ts` amount to when they have led to `place`
in the problem `p`, which began at `start` behind the problems `ps`. -/
inductive At (ps : List (Problem K)) (start : Span) (name : String) :
    List Token → Problem K → Place K → Prop
  | body {ts items} : Within ps start name ts items →
      At ps start name ts (.ofItems start name items) .body
  | property {ts items n} : Within ps start name ts items → n.kind = .name →
      At ps start name (ts ++ [n]) (.ofItems start name items)
        (.property n.span.start n.text false)
  | propertyColon {ts items n c} : Within ps start name ts items → n.kind = .name →
      c.kind = .colon →
      At ps start name (ts ++ [n, c]) (.ofItems start name items)
        (.property n.span.start n.text true)
  | varName {ts items v us names} : Within ps start name ts items → v.kind = .vars →
      AwaitsName us names →
      At ps start name (ts ++ v :: us) (.ofItems start name items)
        (.varName v.span.start names)
  | afterVariable {ts items v us g names comma} : Within ps start name ts items →
      v.kind = .vars → IsNames us names → Blank false g → (comma = true → g = []) →
      At ps start name (ts ++ (v :: us ++ g)) (.ofItems start name items)
        (.afterVariable v.span.start names comma)
  | objective {ts items t sense us r} : Within ps start name ts items →
      t.kind.sense? = some sense → Reads .start us r →
      At ps start name (ts ++ t :: us) (.ofItems start name items)
        (.expr (.objective t.span.start sense) r)
  | blockBrace {ts items t g} : Within ps start name ts items → t.kind = .constraints →
      Blank true g → At ps start name (ts ++ t :: g) (.ofItems start name items) .blockBrace
  | block {ts items rows} : InBlock ps start name items ts rows →
      At ps start name ts (.ofItems start name (items ++ [.block rows])) .block
  | labelOrOperand {ts items rows n} : InBlock ps start name items ts rows → n.kind = .name →
      At ps start name (ts ++ [n]) (.ofItems start name (items ++ [.block rows]))
        (.labelOrOperand n)
  | left {ts items rows ls label us r first} : InBlock ps start name items ts rows →
      IsLabel ls label → Reads .start us r → BeginsAt first (ls ++ us) →
      At ps start name (ts ++ (ls ++ us)) (.ofItems start name (items ++ [.block rows]))
        (.expr (.left first label) r)
  | right {ts items rows ls label us lhs g t relation vs r first} :
      InBlock ps start name items ts rows → IsLabel ls label → Derives .sum false us lhs →
      Blank false g → t.kind.relation? = some relation → Reads .start vs r →
      BeginsAt first (ls ++ us ++ g) →
      At ps start name (ts ++ (ls ++ us ++ g ++ t :: vs))
        (.ofItems start name (items ++ [.block rows]))
        (.expr (.right first label lhs relation) r)

/-- What a token `t` behind the tokens `ts` leads to: a place in the problem, or its end. -/
def Leaves (ps : List (Problem K)) (start : Span) (name : String) (ts : List Token) (t : Token) :
    Problem K × Option (Place K) → Prop
  | (p, some place) => At ps start name (ts ++ [t]) p place
  | (p, none) => Between (ts ++ [t]) (ps ++ [{ p with span := p.span.merge t.span }])

section Steps

variable {ps : List (Problem K)} {start : Span} {name : String} {items : List (Item K)}
  {rows : List (ConstraintLine K)} {ts us g : List Token} {t n : Token} {last first : Nat}
  {p : Problem K} {out : Problem K × Option (Place K)}

omit [Scalar K] in
/-- A line is ended by a line end or a closing brace. -/
theorem endLine_ok {inside : Place K} {outside : Option (Place K)}
    (h : Reader.endLine t p inside outside = .ok out) :
    t.kind = .newline ∧ out = (p, some inside) ∨ t.kind = .closeBrace ∧ out = (p, outside) := by
  unfold Reader.endLine at h
  split at h
  next ht => exact .inl ⟨ht, (Except.ok.inj h).symm⟩
  next ht => exact .inr ⟨ht, (Except.ok.inj h).symm⟩
  next => cases h

/-- The line of a declaration ends. -/
theorem Within.endLine {x : Item K} (hw : Within ps start name ts items) (hx : IsItem us x)
    (h : Reader.endLine t (.ofItems start name (items ++ [x])) .body none = .ok out) :
    Leaves ps start name (ts ++ us) t out := by
  obtain ⟨ht, rfl⟩ | ⟨ht, rfl⟩ := endLine_ok h
  · exact .body (Pends.endLine hw hx ht)
  · exact Pends.closeLine hw hx ht

/-- The line of a row ends. -/
theorem InBlock.endLine {x : ConstraintLine K} (hb : InBlock ps start name items ts rows)
    (hx : IsRow us x)
    (h : Reader.endLine t (.ofItems start name (items ++ [.block (rows ++ [x])])) .block
      (some .body) = .ok out) :
    Leaves ps start name (ts ++ us) t out := by
  obtain ⟨ht, rfl⟩ | ⟨ht, rfl⟩ := endLine_ok h
  · exact .block (Pends.endLine hb hx ht)
  · exact .body (Pends.closeLine hb hx ht)

/-- The first token of a declaration, or the brace behind the last one. -/
theorem Within.stepBody (hw : Within ps start name ts items)
    (h : Reader.stepBody (.ofItems start name items) t = .ok out) :
    Leaves ps start name ts t out := by
  unfold Reader.stepBody at h
  split at h <;> cases h
  next ht => exact .body (Pends.blank hw (by simp [ht, Token.Kind.isTrivia]))
  next ht => exact .body (Pends.blank hw (by simp [ht, Token.Kind.isTrivia]))
  next ht => exact Pends.close hw ht
  next ht => exact .objective hw (by simp [ht, Token.Kind.sense?]) .refl
  next ht => exact .objective hw (by simp [ht, Token.Kind.sense?]) .refl
  next ht => exact .varName hw ht fun g n hg hn => .first hg hn
  next ht => exact .blockBrace hw ht .nil
  next ht => exact .property hw ht

/-- The token behind the name of a property, or behind its colon. -/
theorem Within.stepProperty {colon : Bool} {cs : List Token} (hw : Within ps start name ts items)
    (hn : n.kind = .name)
    (hcs : cs = [] ∧ colon = false ∨ ∃ c, cs = [c] ∧ c.kind = .colon ∧ colon = true)
    (h : Reader.stepProperty (.ofItems start name items) n.span.start n.text colon t = .ok out) :
    Leaves ps start name (ts ++ n :: cs) t out := by
  have hset : ∀ v, t.value? = some v →
      Leaves ps start name (ts ++ n :: cs) t
        ((Problem.ofItems start name items).addProperty
          ⟨⟨n.span.start, t.span.stop⟩, n.text, v⟩, some .body) := by
    intro v hv
    have hextent : extent (n :: cs ++ [t]) = ⟨n.span.start, t.span.stop⟩ := by
      rw [List.cons_append, extent_cons (by simp [hn, Token.Kind.isTrivia])]
      simp [stopAfter]
    -- a value completes the property, with or without the colon
    have hx : IsProperty (n :: cs ++ [t]) ⟨⟨n.span.start, t.span.stop⟩, n.text, v⟩ := by
      rw [← hextent]
      obtain ⟨rfl, -⟩ | ⟨c, rfl, hc, -⟩ := hcs
      · exact .plain hn hv
      · exact .colon hn hc hv
    simpa [Leaves, Problem.ofItems_property] using At.body (Pends.member hw (.property hx) rfl)
  unfold Reader.stepProperty at h
  split at h
  next ht => cases h; exact hset _ (by simp [Token.value?, ht])
  next ht =>
    split at h
    next value hv => cases h; exact hset _ (by simp [Token.value?, ht, Token.number, hv])
    next => cases h
  next ht => cases h; exact hset _ (by simp [Token.value?, ht])
  next ht =>
    obtain ⟨rfl, rfl⟩ | ⟨c, rfl, hc, rfl⟩ := hcs
    · cases h
      -- the first colon is waited behind, a second one is refused
      simpa [Leaves] using At.propertyColon hw hn ht
    · cases h
  next => cases h

theorem AwaitsName.blank {names : List String} (h : AwaitsName us names)
    (ht : t.kind.isTrivia = true) : AwaitsName (us ++ [t]) names := fun g n hg hn => by
  simpa using h ([t] ++ g) n ((blank_true_singleton.mpr ht).append hg) hn

/-- The token behind the name of a variable. -/
theorem Within.stepAfterVariable {v : Token} {names : List String} {comma : Bool}
    (hw : Within ps start name ts items) (hv : v.kind = .vars) (hnames : IsNames us names)
    (hg : Blank false g) (hcomma : comma = true → g = [])
    (hlast : last = stopAfter 0 (ts ++ (v :: us ++ g)))
    (h : Reader.stepAfterVariable (.ofItems start name items) last v.span.start names comma t =
      .ok out) :
    Leaves ps start name (ts ++ (v :: us ++ g)) t out := by
  unfold Reader.stepAfterVariable at h
  split at h
  next ht =>
    split at h
    next hc =>
      -- a comma counts only directly behind the name, when no comment has been passed
      obtain rfl := hcomma hc
      cases h
      have hawaits : AwaitsName (us ++ [t]) names := fun g n hg hn => by
        simpa using hnames.next ht hg hn
      simpa [Leaves] using At.varName hw hv hawaits
    next => cases h
  next ht =>
    cases h
    have hg' : Blank false (g ++ [t]) := hg.append (blank_singleton.mpr (.inl ht))
    have hcomma' : false = true → g ++ [t] = [] := fun h => by cases h
    simpa [Leaves] using At.afterVariable hw hv hnames hg' hcomma'
  next =>
    have hextent : extent (v :: us ++ g) = ⟨v.span.start, last⟩ := by
      rw [List.cons_append, extent_cons (by simp [hv, Token.Kind.isTrivia]), hlast]
      simp [stopAfter]
    rw [← hextent, ← Problem.ofItems_vars] at h
    exact Within.endLine hw (.vars (.intro hv hnames hg)) h

/-- The token right behind an expression. -/
theorem At.ended {purpose : Purpose K} {r : ExprReader K} {e : Expr K}
    (hat : At ps start name ts p (.expr purpose r)) (hlast : last = stopAfter 0 ts)
    (he : r.step t = .ended e) (h : stepAfterExpr p last purpose e t = .ok out) :
    Leaves ps start name ts t out := by
  cases hat with
  -- behind the word of the objective: what follows must end the line
  | @objective ts items t' sense us _ hw ht hr =>
    obtain ⟨us, g, rfl, hd, hg⟩ := hr.sound he
    have hbegin : BeginsAt t'.span.start (t' :: us ++ g) := by
      refine ⟨t', us ++ g, rfl, ?_, rfl⟩
      unfold Token.Kind.sense? at ht
      split at ht <;> simp_all [Token.Kind.isTrivia]
    have hx : IsObjective (t' :: us ++ g) ⟨⟨t'.span.start, last⟩, sense, e⟩ := by
      rw [hlast, stopAfter_append, ← List.cons_append, ← hbegin.extent_eq]
      exact .intro ht hd hg
    rw [stepAfterExpr, ← Problem.ofItems_objective] at h
    exact Within.endLine hw (.objective hx) h
  -- on the left of a row: what follows must be its relation
  | @left ts items rows ls label us _ first hb hl hr hf =>
    obtain ⟨us, g, rfl, hd, hg⟩ := hr.sound he
    have hright : ∀ relation, t.kind.relation? = some relation →
        Leaves ps start name (ts ++ (ls ++ (us ++ g))) t
          (.ofItems start name (items ++ [.block rows]),
            some (.expr (.right first label e relation) .start)) := fun relation ht => by
      simpa [Leaves] using At.right hb hl hd hg ht .refl (by simpa using hf)
    simp only [stepAfterExpr] at h
    split at h <;> cases h
    all_goals exact hright _ (by simp [Token.Kind.relation?, *])
  -- on the right of a row: what follows must end the line
  | @right ts items rows ls label us lhs g t' relation vs _ first hb hl hd hg hrel hr hf =>
    obtain ⟨vs, g', rfl, hd', hg'⟩ := hr.sound he
    have hbegin : BeginsAt first (ls ++ us ++ g ++ t' :: vs ++ g') := by
      simpa using hf.append (t' :: vs ++ g')
    have hx : IsRow (ls ++ us ++ g ++ t' :: vs ++ g')
        ⟨⟨first, last⟩, label, lhs, relation, e⟩ := by
      rw [hlast, stopAfter_append, ← List.cons_append, ← List.append_assoc,
        ← hbegin.extent_eq]
      exact .intro hl hd hg hrel hd' hg'
    rw [stepAfterExpr, ← Problem.ofItems_block_concat] at h
    simpa using InBlock.endLine hb hx h

/-- A token in an expression, or right behind it. -/
theorem At.stepExpr {purpose : Purpose K} {r : ExprReader K}
    (hat : At ps start name ts p (.expr purpose r)) (hlast : last = stopAfter 0 ts)
    (h : Reader.stepExpr p last purpose r t = .ok out) : Leaves ps start name ts t out := by
  unfold Reader.stepExpr at h
  split at h
  next s hs =>
    cases h
    cases hat with
    | objective hw ht hr => simpa [Leaves] using At.objective hw ht (hr.snoc hs)
    | left hb hl hr hf =>
      simpa [Leaves] using At.left hb hl (hr.snoc hs) (by simpa using hf.append [t])
    | right hb hl he hg hrel hr hf =>
      simpa [Leaves] using At.right hb hl he hg hrel (hr.snoc hs) hf
  next e he => exact hat.ended hlast he h
  next => cases h
  next => cases h

/-- The token where the name of a variable must follow. -/
theorem Within.stepVarName {v : Token} {names : List String} (hw : Within ps start name ts items)
    (hv : v.kind = .vars) (hnames : AwaitsName us names)
    (h : stepInside (.ofItems start name items) last (.varName v.span.start names) t =
      .ok out) :
    Leaves ps start name (ts ++ v :: us) t out := by
  simp only [stepInside] at h
  split at h
  next ht =>
    cases h
    simpa [Leaves] using At.varName hw hv (hnames.blank ht)
  next =>
    split at h
    next ht =>
      cases h
      have hn := hnames [] t .nil ht
      simpa [Leaves] using At.afterVariable hw hv hn .nil fun _ => rfl
    next => cases h

/-- The token where the brace of a block must follow. -/
theorem Within.stepBlockBrace {k : Token} (hw : Within ps start name ts items)
    (hk : k.kind = .constraints) (hg : Blank true g)
    (h : stepInside (.ofItems start name items) last .blockBrace t = .ok out) :
    Leaves ps start name (ts ++ k :: g) t out := by
  simp only [stepInside] at h
  split at h
  next ht =>
    cases h
    simpa [Leaves] using At.blockBrace hw hk (hg.append (blank_true_singleton.mpr ht))
  next =>
    split at h
    next ht =>
      cases h
      have hblock := At.block (Within.openBrace hw hk hg ht)
      simpa [Leaves, Problem.ofItems_block_nil] using hblock
    next => cases h

/-- The token between rows. -/
theorem InBlock.step (hb : InBlock ps start name items ts rows)
    (h : stepInside (.ofItems start name (items ++ [.block rows])) last .block t = .ok out) :
    Leaves ps start name ts t out := by
  simp only [stepInside] at h
  split at h
  next ht => cases h; exact .block (Pends.blank hb (by simp [ht, Token.Kind.isTrivia]))
  next ht => cases h; exact .block (Pends.blank hb (by simp [ht, Token.Kind.isTrivia]))
  next ht => cases h; exact .body (Pends.close hb ht)
  next ht => cases h; exact .labelOrOperand hb ht
  next hline hcomment _ _ =>
    -- the first token of a row that does not start with a name
    have htrivia : t.kind.isTrivia = false :=
      Bool.eq_false_iff.mpr (isTrivia_iff.not.mpr (not_or.mpr ⟨hline, hcomment⟩))
    unfold Reader.stepExpr at h
    split at h
    next hs =>
      cases h
      simpa [Leaves] using At.left hb .none (.single hs) ⟨t, [], rfl, htrivia, rfl⟩
    next he => exact absurd he stepOperand_ne_ended
    next => cases h
    next => cases h

/-- The token behind a name at the beginning of a row. -/
theorem InBlock.stepLabelOrOperand (hb : InBlock ps start name items ts rows)
    (hn : n.kind = .name) (hlast : last = stopAfter 0 (ts ++ [n]))
    (h : stepInside (.ofItems start name (items ++ [.block rows])) last (.labelOrOperand n) t =
      .ok out) :
    Leaves ps start name (ts ++ [n]) t out := by
  have htrivia : n.kind.isTrivia = false := by simp [hn, Token.Kind.isTrivia]
  simp only [stepInside] at h
  split at h
  next ht =>
    cases h
    have hl : IsLabel [n, t] (some n.text) := .some hn ht
    simpa [Leaves] using At.left hb hl .refl ⟨n, [t], rfl, htrivia, rfl⟩
  next =>
    -- the name was an operand all along
    have hread : Reads (.start : ExprReader K) [n]
        (ExprReader.afterOperand .start (.var n.span n.text) []) :=
      .single (by simp [ExprReader.start, ExprReader.step, stepOperand, hn])
    exact (At.left hb .none hread ⟨n, [], rfl, htrivia, rfl⟩).stepExpr hlast h

/-- What the tokens amount to after one more token inside a problem. -/
theorem At.step {place : Place K} (hat : At ps start name ts p place)
    (hlast : last = stopAfter 0 ts) (h : stepInside p last place t = .ok out) :
    Leaves ps start name ts t out := by
  cases hat with
  | body hw => exact Within.stepBody hw h
  | property hw hn => exact Within.stepProperty hw hn (.inl ⟨rfl, rfl⟩) h
  | propertyColon hw hn hc => exact Within.stepProperty hw hn (.inr ⟨_, rfl, hc, rfl⟩) h
  | varName hw hv hnames => exact Within.stepVarName hw hv hnames h
  | afterVariable hw hv hnames hg hcomma =>
    exact Within.stepAfterVariable hw hv hnames hg hcomma hlast h
  | objective hw ht hr => exact (At.objective hw ht hr).stepExpr hlast h
  | blockBrace hw hk hg => exact Within.stepBlockBrace hw hk hg h
  | block hb => exact InBlock.step hb h
  | labelOrOperand hb hn => exact InBlock.stepLabelOrOperand hb hn hlast h
  | left hb hl hr hf => exact (At.left hb hl hr hf).stepExpr hlast h
  | right hb hl he hg hrel hr hf => exact (At.right hb hl he hg hrel hr hf).stepExpr hlast h

end Steps

/-! ## The reader as a whole -/

/-- `Reached ts ps phase`: what the tokens `ts` amount to when they have led to `phase` behind
the problems `ps`. -/
inductive Reached : List Token → List (Problem K) → Phase K → Prop
  | outside {ts ps} : Between ts ps → Reached ts ps .outside
  | name {ts ps t g} : Between ts ps → t.kind = .problem → Blank true g →
      Reached (ts ++ t :: g) ps (.name t.span)
  | brace {ts ps t g n h} : Between ts ps → t.kind = .problem → Blank true g →
      n.kind = .name → Blank true h →
      Reached (ts ++ (t :: g ++ n :: h)) ps (.brace t.span n.text)
  | inside {ts ps start name p place} : At ps start name ts p place →
      Reached ts ps (.inside p place)

/-- **One step keeps the tokens read a beginning of a program**: the phase it leads to says what has
been read of the grammar, up to this token. -/
theorem Reached.step {ts : List Token} {r s : Reader K} {t : Token}
    (hr : Reached ts r.problems r.phase) (hlast : r.last = stopAfter 0 ts)
    (h : r.step t = .ok s) : Reached (ts ++ [t]) s.problems s.phase := by
  obtain ⟨ps, phase, last⟩ := r
  simp only [Reader.step] at h
  split at h
  next ps' phase' hstep =>
    cases h
    show Reached (ts ++ [t]) ps' phase'
    cases hr with
    | outside hb =>
      simp only [stepPhase] at hstep
      split at hstep
      next ht => cases hstep; exact .outside (Pends.blank hb ht)
      next =>
        split at hstep
        next ht => cases hstep; exact .name hb ht .nil
        next => cases hstep
    | name hb hk hg =>
      simp only [stepPhase] at hstep
      split at hstep
      next ht =>
        cases hstep
        simpa using Reached.name hb hk (hg.append (blank_true_singleton.mpr ht))
      next =>
        split at hstep
        next ht =>
          cases hstep
          simpa using Reached.brace hb hk hg ht .nil
        next => cases hstep
    | brace hb hk hg hn hh =>
      simp only [stepPhase] at hstep
      split at hstep
      next ht =>
        cases hstep
        simpa using Reached.brace hb hk hg hn (hh.append (blank_true_singleton.mpr ht))
      next =>
        split at hstep
        next ht =>
          cases hstep
          exact .inside (.body (Between.openBrace hb hk hg hn hh ht))
        next => cases hstep
    | inside hat =>
      simp only [stepPhase] at hstep
      split at hstep
      next h => cases hstep; exact .inside (hat.step hlast h)
      next h => cases hstep; exact .outside (hat.step hlast h)
      next => cases hstep
  next => cases h

/-- All that has been read is a beginning of a program: by induction on the tokens, from
`Reached.step`. -/
theorem reached_advance {ts : List Token} {r : Reader K}
    (h : (Reader.start : Reader K).advance ts = .ok r) : Reached ts r.problems r.phase := by
  induction ts using List.reverseRecOn generalizing r with
  | nil => cases h; exact .outside between_nil
  | append_singleton ts t ih =>
    obtain ⟨r', hr', hstep⟩ := advance_concat.mp h
    exact (ih hr').step (advance_last hr') hstep

/-- A reader that stops between problems has read a program. -/
theorem isProgram_of_finish {ts : List Token} {r : Reader K} {c : Token} {p : Program K}
    (h : (Reader.start : Reader K).advance ts = .ok r) (hfinish : r.finish = .ok p)
    (hc : c.kind = .endOfInput) : IsProgram (ts ++ [c]) p := by
  have hreached := reached_advance h
  obtain ⟨ps, phase, last⟩ := r
  cases hreached with
  | outside hb => cases hfinish; exact Pends.close hb hc
  | name => cases hfinish
  | brace => cases hfinish
  | inside => cases hfinish

/-- What is accepted derives from the grammar, with the program as the tree of the derivation. -/
theorem isProgram_of_ofTokens {ts : List Token} (h : Tidy K ts) {p : Program K}
    (hok : Program.ofTokens ts = .ok p) : IsProgram ts p := by
  obtain ⟨body, c, rfl, hc, hbody⟩ := h.ends
  rw [Program.ofTokens, run_append_end _ hbody hc] at hok
  cases hr : (Reader.start : Reader K).advance body with
  | error e => rw [hr] at hok; cases hok
  | ok r => rw [hr] at hok; exact isProgram_of_finish hr hok hc

/-- Tokens are accepted, and then as the program `p`, exactly if they derive from the grammar
with `p` as the tree of the derivation. -/
theorem ofTokens_eq_ok_iff {ts : List Token} (h : Tidy K ts) (p : Program K) :
    Program.ofTokens ts = .ok p ↔ IsProgram ts p :=
  ⟨isProgram_of_ofTokens h, fun hp => hp.ofTokens_eq h.valid⟩

/-- A problem that maximizes `2 x - (y) - 3`, with a line end and a comment in the
parentheses. -/
def differenceTokens : List Token :=
  [⟨.problem, ⟨0, 7⟩, "problem"⟩, ⟨.name, ⟨8, 9⟩, "p"⟩, ⟨.openBrace, ⟨10, 11⟩, ""⟩,
    ⟨.maximize, ⟨12, 15⟩, "max"⟩, ⟨.number, ⟨16, 17⟩, "2"⟩, ⟨.name, ⟨18, 19⟩, "x"⟩,
    ⟨.minus, ⟨20, 21⟩, "-"⟩, ⟨.openParen, ⟨22, 23⟩, "("⟩, ⟨.name, ⟨23, 24⟩, "y"⟩,
    ⟨.comment, ⟨25, 29⟩, "// a"⟩, ⟨.newline, ⟨29, 30⟩, ""⟩, ⟨.closeParen, ⟨30, 31⟩, ")"⟩,
    ⟨.minus, ⟨32, 33⟩, "-"⟩, ⟨.number, ⟨34, 35⟩, "3"⟩, ⟨.closeBrace, ⟨36, 37⟩, ""⟩, .endAt 37]

/-- Its differences group to the left. -/
def differenceProgram : Program Rat :=
  ⟨[.ofItems ⟨0, 37⟩ "p" [.objective ⟨⟨12, 35⟩, .maximize,
    .binary
      (.binary (.binary (.number 2) .mul (.var ⟨18, 19⟩ "x")) .sub (.paren (.var ⟨23, 24⟩ "y")))
      .sub (.number 3)⟩]]⟩

theorem ofTokens_eq_ok_iff_difference :
    Tidy Rat differenceTokens ∧ IsProgram differenceTokens differenceProgram := by
  have htidy : Tidy Rat differenceTokens := by
    refine ⟨⟨differenceTokens.dropLast, .endAt 37, rfl, rfl, by decide⟩, ?_⟩
    unfold Token.Valid
    decide
  exact ⟨htidy, (ofTokens_eq_ok_iff htidy differenceProgram).mp rfl⟩

end CornerPoint.Source
