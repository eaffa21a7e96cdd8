import Mathlib
import CornerPoint.Proofs.Source.Declaration

/-!
# Cursors in lists of tokens

A `Cursor` is a place in a list of tokens, together with the number of parentheses that are open
there. A call that reads from a cursor may fail to return: it may run forever, or close a
parenthesis that is not open. Calls are therefore optional, `none` standing for a call that does
not return, and loops are least fixed points: nothing about them says that they end.

What is proved of a call is `Returns c x Q E`: from the cursor `c` the call `x` does return, it has
gone on from `c` only as `Moves` allows, and `Q` holds of a result, `E` of an error.
-/

namespace CornerPoint.Source

/-- A place in a list of tokens. -/
structure Cursor where
  tokens : List Token
  pos : Nat
  /-- The number of open parentheses. -/
  depth : Nat
  /-- The depths at which the end of a line has been looked for so far. Nothing depends on them. -/
  checks : List Nat

/-- A result or an error, and the cursor behind what has been read. -/
abbrev Returned (α : Type) := Except SyntaxError α × Cursor

namespace Cursor

/-! ## Looking and going on -/

/-- In front of the first token. -/
def start (ts : List Token) : Cursor := ⟨ts, 0, 0, []⟩

/-- The token at the cursor. -/
def current? (c : Cursor) : Option Token := c.tokens[c.pos]?

/-- The kind of the token some places further on. Behind the last token everything is the end. -/
def kindAt (c : Cursor) (offset : Nat) : Token.Kind :=
  (c.tokens[c.pos + offset]?.map (·.kind)).getD .endOfInput

/-- The kind of the token at the cursor. -/
def kind (c : Cursor) : Token.Kind := c.kindAt 0

/-- Behind the token at the cursor, whether there is one or not. -/
def advance (c : Cursor) : Cursor := { c with pos := c.pos + 1 }

/-- Where the token in front of the cursor ends. -/
def lastStop (c : Cursor) (fallback : Nat) : Nat :=
  (c.tokens[c.pos - 1]?.map (·.span.stop)).getD fallback

/-- One more parenthesis is open. -/
def opened (c : Cursor) : Cursor := { c with depth := c.depth + 1 }

/-- One less is open. None can be closed where none is open. -/
def closed? (c : Cursor) : Option Cursor :=
  if c.depth = 0 then none else some { c with depth := c.depth - 1 }

/-- The end of a line is looked for here. -/
def checked (c : Cursor) : Cursor := { c with checks := c.checks ++ [c.depth] }

/-- Passes over tokens of the kinds `p`. -/
def skip (p : Token.Kind → Bool) (c : Cursor) : Option Cursor :=
  if p c.kind then c.advance |>.skip p else some c
partial_fixpoint

/-- Passes over line ends and comments. -/
def skipLines (c : Cursor) : Option Cursor := c.skip Token.Kind.isTrivia

/-- What means nothing in an expression: comments and, inside parentheses, line ends. -/
def isBlankAt (depth : Nat) (k : Token.Kind) : Bool :=
  k = .comment || (k = .newline && 0 < depth)

/-- Passes over what means nothing in an expression. -/
def skipBlanks (c : Cursor) : Option Cursor := c.skip (isBlankAt c.depth)

/-- The error that the token at the cursor is none of what could stand there. -/
def unexpected (c : Cursor) (expected : Expectation) : SyntaxError :=
  match c.current? with
  | some t =>
    if t.kind = .endOfInput then .endOfInput else .unexpected expected t.kind t.span
  | none => .endOfInput

/-- A token of the given kind, perhaps behind line ends and comments. -/
def expect (c : Cursor) (kind : Token.Kind) : Option (Returned Token) := do
  let c ← c.skipLines
  match c.current? with
  | some t =>
    if t.kind = kind then return (.ok t, c.advance)
    else return (.error (c.unexpected (.kind kind)), c)
  | none => return (.error (c.unexpected (.kind kind)), c)

/-- The end of a declaration that takes up a line. -/
def lineEnd (c : Cursor) : Option (Returned Unit) := do
  let c ← c.checked.skipBlanks
  match c.kind with
  | .newline | .closeBrace | .endOfInput => return (.ok (), c)
  | _ => return (.error (c.unexpected .lineEnd), c)

/-- Goes on behind a call that returns a result. An error is passed on. -/
def andThen {α β : Type} (x : Option (Returned α)) (f : α → Cursor → Option (Returned β)) :
    Option (Returned β) := do
  match ← x with
  | (.ok a, c) => f a c
  | (.error e, c) => return (.error e, c)

/-- Calls `body` again and again, each time behind what `front` passes over, for as long as the
kind of the token there is among `more`. -/
def loop {σ : Type} (front : Cursor → Option Cursor) (more : Token.Kind → Bool)
    (body : σ → Cursor → Option (Returned σ)) (s : σ) (c : Cursor) : Option (Returned σ) := do
  let c ← front c
  if more c.kind then
    match ← body s c with
    | (.ok s, c) => c |>.loop front more body s
    | (.error e, c) => return (.error e, c)
  else return (.ok s, c)
partial_fixpoint

/-! ## The token at a cursor -/

section Current

variable {c : Cursor} {t : Token}

theorem kind_eq (c : Cursor) : c.kind = (c.current?.map (·.kind)).getD .endOfInput := rfl

theorem kind_of_current (h : c.current? = some t) : c.kind = t.kind := by
  rw [kind_eq, h]
  rfl

/-- A token that is not the end is there. -/
theorem exists_current (h : c.kind ≠ .endOfInput) : ∃ t, c.current? = some t ∧ t.kind = c.kind := by
  cases ht : c.current? with
  | none => exact absurd (by rw [kind_eq, ht]; rfl) h
  | some t => exact ⟨t, rfl, (kind_of_current ht).symm⟩

theorem unexpected_of_current (h : c.current? = some t) (ht : t.kind ≠ .endOfInput)
    (expected : Expectation) : c.unexpected expected = .unexpected expected t.kind t.span := by
  rw [unexpected, h]
  exact if_neg ht

theorem unexpected_of_end (h : c.kind = .endOfInput) (expected : Expectation) :
    c.unexpected expected = .endOfInput := by
  rw [unexpected]
  split
  next t ht => rw [if_pos ((kind_of_current ht).symm.trans h)]
  next => rfl

/-- The tokens from the cursor on, with the first one taken apart. -/
theorem drop_pos (h : c.current? = some t) :
    c.tokens.drop c.pos = t :: c.tokens.drop c.advance.pos := by
  obtain ⟨hlt, rfl⟩ := List.getElem?_eq_some_iff.mp h
  exact List.drop_eq_getElem_cons hlt

theorem drop_pos_of_none (h : c.current? = none) : c.tokens.drop c.pos = [] :=
  List.drop_eq_nil_of_le (List.getElem?_eq_none_iff.mp h)

end Current

/-! ## Ways -/

/-- The tokens in front of the next end. -/
def ahead (c : Cursor) : List Token := (c.tokens.drop c.pos).takeWhile (·.kind ≠ .endOfInput)

/-- How far the cursor is from the next end. -/
def left (c : Cursor) : Nat := c.ahead.length

/-- How many lists of variables begin among the tokens. -/
def listCount (ts : List Token) : Nat := ts.countP (·.kind = .vars)

/-- How many lists of variables have begun in front of the cursor. -/
def lists (c : Cursor) : Nat := listCount (c.tokens.take c.pos)

/-- What a call may do to the cursor: it goes on, but neither behind the next end nor behind the
last token, and closes all parentheses that it opens. A call that reads declarations (`lines`) also
looks for ends of lines, at the depth where the call begins; any other call does not, and leaves
lists of variables alone. -/
structure Moves (lines : Bool) (c c' : Cursor) : Prop where
  tokens : c'.tokens = c.tokens
  le : c.pos ≤ c'.pos
  within : c'.pos + c'.left = c.pos + c.left
  depth : c'.depth = c.depth
  checks : ∃ n, c'.checks = c.checks ++ List.replicate n c.depth
  quiet : lines = false → c'.checks = c.checks ∧ c'.lists = c.lists

/-- What a single token that is passed may be: never the end, and the word `vars` only where
declarations are read. -/
def MayPass (lines : Bool) (k : Token.Kind) : Prop :=
  k ≠ .endOfInput ∧ (lines = false → k ≠ .vars)

instance (lines : Bool) (k : Token.Kind) : Decidable (MayPass lines k) :=
  inferInstanceAs (Decidable (_ ∧ (_ → _)))

/-- What is looked up among some kinds only may be passed if neither of the two is one of them. -/
theorem MayPass.of_eq_some {α : Type} {f : Token.Kind → Option α} {lines : Bool} {k : Token.Kind}
    {a : α} (hend : f .endOfInput = none) (hvars : f .vars = none) (h : f k = some a) :
    MayPass lines k := by
  refine ⟨fun hk => ?_, fun _ hk => ?_⟩
  · rw [hk, hend] at h
    cases h
  · rw [hk, hvars] at h
    cases h

/-- What is ahead begins with the token at the cursor. -/
theorem ahead_of_current {c : Cursor} {t : Token} (h : c.current? = some t)
    (ht : t.kind ≠ .endOfInput) : c.ahead = t :: c.advance.ahead := by
  rw [ahead, drop_pos h, List.takeWhile_cons, if_pos (by simpa using ht)]
  rfl

/-- A token less is left behind the one at the cursor. -/
theorem left_advance {c : Cursor} (h : c.kind ≠ .endOfInput) : c.left = c.advance.left + 1 := by
  obtain ⟨t, ht, hk⟩ := exists_current h
  rw [left, ahead_of_current ht (hk ▸ h)]
  rfl

/-- One more list of variables has begun where the word `vars` has been passed. -/
theorem lists_advance (c : Cursor) :
    c.advance.lists = c.lists + if c.kind = .vars then 1 else 0 := by
  have htake : c.tokens.take c.advance.pos = c.tokens.take c.pos ++ c.current?.toList :=
    List.take_add_one
  change listCount (c.tokens.take c.advance.pos) = _
  rw [htake, listCount, List.countP_append, kind_eq, lists, listCount]
  cases c.current? with
  | none => rfl
  | some t => simp [List.countP_cons]

namespace Moves

variable {lines : Bool} {c c' c'' : Cursor}

theorem refl (c : Cursor) : Moves lines c c where
  tokens := rfl
  le := Nat.le_refl _
  within := rfl
  depth := rfl
  checks := ⟨0, (List.append_nil _).symm⟩
  quiet _ := ⟨rfl, rfl⟩

/-- One way after another. Nothing is logged at two depths, because the first way ends at the depth
it began at. -/
theorem trans (h : Moves lines c c') (h' : Moves lines c' c'') : Moves lines c c'' where
  tokens := h'.tokens.trans h.tokens
  le := h.le.trans h'.le
  within := h'.within.trans h.within
  depth := h'.depth.trans h.depth
  checks := by
    obtain ⟨m, hm⟩ := h.checks
    obtain ⟨n, hn⟩ := h'.checks
    refine ⟨m + n, ?_⟩
    rw [hn, hm, h.depth, List.append_assoc, List.replicate_append_replicate]
  quiet hlines := by
    obtain ⟨hchecks, hlists⟩ := h.quiet hlines
    obtain ⟨hchecks', hlists'⟩ := h'.quiet hlines
    exact ⟨hchecks'.trans hchecks, hlists'.trans hlists⟩

/-- What looks for no end of a line looks for none at another depth. -/
theorem weaken (h : Moves false c c') : Moves lines c c' where
  tokens := h.tokens
  le := h.le
  within := h.within
  depth := h.depth
  checks := h.checks
  quiet _ := h.quiet rfl

/-- A token that may be passed brings the cursor one token on, and nothing is logged. -/
theorem advance (h : MayPass lines c.kind) : Moves lines c c.advance where
  tokens := rfl
  le := Nat.le_succ _
  within := by
    rw [left_advance h.1, Cursor.advance, Nat.add_right_comm]
    rfl
  depth := rfl
  checks := ⟨0, (List.append_nil _).symm⟩
  quiet hlines := ⟨rfl, by rw [lists_advance, if_neg (h.2 hlines)]; rfl⟩

/-- What is read inside parentheses stays inside them. -/
theorem enclosed (h : Moves false c.opened c') : Moves false c { c' with depth := c.depth } where
  tokens := h.tokens
  le := h.le
  within := h.within
  depth := rfl
  -- no end of a line has been looked for inside, where the depth was another one
  checks := ⟨0, (h.quiet rfl).1.trans (List.append_nil _).symm⟩
  quiet _ := h.quiet rfl

theorem left_le (h : Moves lines c c') : c'.left ≤ c.left := by
  have hle := h.le
  have hwithin := h.within
  omega

/-- Whoever has moved on has less left. -/
theorem left_lt (h : Moves lines c c') (hlt : c.pos < c'.pos) : c'.left < c.left := by
  have hwithin := h.within
  omega

end Moves

/-! ## Calls that return -/

/-- From `c` the call `x` returns, having gone on as it may: with a result for which `Q` holds, or
with an error for which `E` holds. -/
def Returns {α : Type} (lines : Bool) (c : Cursor) (x : Option (Returned α))
    (Q : α → Cursor → Prop) (E : SyntaxError → Prop) : Prop :=
  ∃ r c', x = some (r, c') ∧ Moves lines c c' ∧ (∀ a, r = .ok a → Q a c') ∧ ∀ e, r = .error e → E e

namespace Returns

variable {α β : Type} {lines : Bool} {c c' : Cursor} {x : Option (Returned α)}
  {Q : α → Cursor → Prop} {R : β → Cursor → Prop} {E : SyntaxError → Prop}

theorem ok {a : α} (hmoves : Moves lines c c') (h : Q a c') :
    Returns lines c (some (.ok a, c')) Q E :=
  ⟨_, _, rfl, hmoves, fun _ heq => Except.ok.inj heq ▸ h, fun _ heq => by cases heq⟩

theorem error {e : SyntaxError} (hmoves : Moves lines c c') (h : E e) :
    Returns lines c (some (.error e, c')) Q E :=
  ⟨_, _, rfl, hmoves, fun _ heq => (by cases heq), fun _ heq => Except.error.inj heq ▸ h⟩

/-- A call from further on, which has been come to as is allowed. -/
theorem behind (hmoves : Moves lines c c') (h : Returns lines c' x Q E) :
    Returns lines c x Q E := by
  obtain ⟨r, c'', hx, hmoves', hQ, hE⟩ := h
  exact ⟨r, c'', hx, hmoves.trans hmoves', hQ, hE⟩

/-- What is known of a call may be said more weakly. -/
theorem mono {Q' : α → Cursor → Prop} {E' : SyntaxError → Prop} (h : Returns lines c x Q E)
    (hQ : ∀ a c', Moves lines c c' → Q a c' → Q' a c') (hE : ∀ e, E e → E' e) :
    Returns lines c x Q' E' := by
  obtain ⟨r, c', hx, hmoves, hok, herror⟩ := h
  exact ⟨r, c', hx, hmoves, fun a ha => hQ a c' hmoves (hok a ha), fun e he => hE e (herror e he)⟩

/-- What ends behind its beginning ends behind what is in front of that. -/
theorem further {n : Nat} (hn : n ≤ c.pos)
    (h : Returns lines c x (fun a c' => c.pos < c'.pos ∧ Q a c') E) :
    Returns lines c x (fun a c' => n < c'.pos ∧ Q a c') E :=
  h.mono (fun _ _ _ hQ => hQ.imp_left (Nat.lt_of_le_of_lt hn)) fun _ hE => hE

theorem weaken (h : Returns false c x Q E) : Returns lines c x Q E := by
  obtain ⟨r, c', hx, hmoves, hok, herror⟩ := h
  exact ⟨r, c', hx, hmoves.weaken, hok, herror⟩

/-- What is known of one call in two ways is known together. -/
theorem and {Q' : α → Cursor → Prop} {E' : SyntaxError → Prop} (h : Returns lines c x Q E)
    (h' : Returns lines c x Q' E') :
    Returns lines c x (fun a c' => Q a c' ∧ Q' a c') (fun e => E e ∧ E' e) := by
  obtain ⟨r, c', rfl, hmoves, hQ, hE⟩ := h
  obtain ⟨r', c'', heq, -, hQ', hE'⟩ := h'
  obtain ⟨rfl, rfl⟩ := Prod.mk.inj (Option.some.inj heq)
  exact ⟨r, c', rfl, hmoves, fun a ha => ⟨hQ a ha, hQ' a ha⟩, fun e he => ⟨hE e he, hE' e he⟩⟩

/-- One call behind another: an error is passed on. -/
theorem bind {g : Returned α → Option (Returned β)} (h : Returns lines c x Q E)
    (hok : ∀ a c', Moves lines c c' → Q a c' → Returns lines c' (g (.ok a, c')) R E)
    (herror : ∀ e c', g (.error e, c') = some (.error e, c')) : Returns lines c (x >>= g) R E := by
  obtain ⟨r, c', rfl, hmoves, hQ, hE⟩ := h
  rw [Option.bind_eq_bind, Option.bind_some]
  cases r with
  | ok a => exact .behind hmoves (hok a c' hmoves (hQ a rfl))
  | error e => exact herror e c' ▸ .error hmoves (hE e rfl)

theorem andThen {f : α → Cursor → Option (Returned β)} (h : Returns lines c x Q E)
    (hf : ∀ a c', Moves lines c c' → Q a c' → Returns lines c' (f a c') R E) :
    Returns lines c (Cursor.andThen x f) R E := h.bind hf fun _ _ => rfl

end Returns

end Cursor

end CornerPoint.Source
