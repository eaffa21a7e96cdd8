import CornerPoint.Proofs.Source.Declaration
import CornerPoint.Proofs.Source.Lexing

/-!
# Cutting a text piece by piece

What a text is read as is said here for one piece after another, without naming a single offset:
`Cuts K P text rest` says that the scanner cuts `text`, in front of `rest`, into tokens for which
`P` holds. Pieces are put together (`Cuts.append`, `Cuts.starts`), and `P` grows from single
tokens to what the grammar makes of them.

> `ofString_problem`: a source text with one problem is read as that problem when its
> declarations are cut into the tokens of declarations.
> `ofString_problemSource`: the same for a problem with variables, an objective and rows.
-/

namespace CornerPoint.Source

/-! ## Pieces -/

/-- In front of `rest` the scanner cuts the text into tokens for which `P` holds, and every
number among them denotes something. -/
def Cuts (K : Type) [Scalar K] (P : List Token → Prop) (text rest : List Char) : Prop :=
  ∀ pos, ∃ ts stop, P ts ∧ (∀ t ∈ ts, t.Valid K) ∧
    (Scanner.mk (text ++ rest) pos).tokens = ts ++ (Scanner.mk rest stop).tokens

/-- The tokens begin with one of the given kind and text, and `P` holds for the others. -/
def Starts (kind : Token.Kind) (text : List Char) (P : List Token → Prop) (ts : List Token) :
    Prop :=
  ∃ t us, ts = t :: us ∧ t.kind = kind ∧ t.text = String.ofList text ∧ P us

/-- The tokens are an item for which `Q` holds. -/
def Makes {α : Type} (item : List Token → α → Prop) (Q : α → Prop) (ts : List Token) : Prop :=
  ∃ x, item ts x ∧ Q x

namespace Cuts

variable {K : Type} [Scalar K] {P Q R : List Token → Prop} {kind : Token.Kind}
  {text text' rest : List Char}

theorem imp (h : Cuts K P text rest) (hPQ : ∀ ts, P ts → Q ts) : Cuts K Q text rest := by
  intro pos
  obtain ⟨ts, stop, hts, hvalid, htokens⟩ := h pos
  exact ⟨ts, stop, hPQ ts hts, hvalid, htokens⟩

theorem nil (rest : List Char) : Cuts K (· = []) [] rest :=
  fun pos => ⟨[], pos, rfl, fun _ ht => absurd ht List.not_mem_nil, rfl⟩

/-- One piece behind another. -/
theorem append (h : Cuts K P text (text' ++ rest)) (h' : Cuts K Q text' rest)
    (hR : ∀ us vs, P us → Q vs → R (us ++ vs)) : Cuts K R (text ++ text') rest := by
  intro pos
  obtain ⟨us, mid, hus, hvalid, htokens⟩ := h pos
  obtain ⟨vs, stop, hvs, hvalid', htokens'⟩ := h' mid
  refine ⟨us ++ vs, stop, hR us vs hus hvs, List.forall_mem_append.mpr ⟨hvalid, hvalid'⟩, ?_⟩
  rw [List.append_assoc, htokens, htokens', List.append_assoc]

/-- Spaces in front of a piece belong to no token. -/
theorem space (h : Cuts K P text rest) : Cuts K P (' ' :: text) rest := by
  intro pos
  obtain ⟨ts, stop, hts, hvalid, htokens⟩ := h (pos + ' '.utf8Size)
  refine ⟨ts, stop, hts, hvalid, ?_⟩
  rw [List.cons_append, tokens_blank rfl, htokens]

/-- A token that is no number, in front of a piece. -/
theorem starts (h : Lexes kind text (text' ++ rest)) (hk : kind ≠ .number)
    (h' : Cuts K P text' rest) : Cuts K (Starts kind text P) (text ++ text') rest := by
  intro pos
  obtain ⟨t, mid, hkind, htext, htokens⟩ := h.cut pos
  obtain ⟨us, stop, hus, hvalid, htokens'⟩ := h' mid
  refine ⟨t :: us, stop, ⟨t, us, rfl, hkind, htext, hus⟩,
    List.forall_mem_cons.mpr ⟨Token.valid_of_ne (hkind ▸ hk), hvalid⟩, ?_⟩
  rw [List.append_assoc, htokens, htokens', List.cons_append]

/-- A token that is no number. -/
theorem token (h : Lexes kind text rest) (hk : kind ≠ .number) :
    Cuts K (Starts kind text (· = [])) text rest := by
  have hlexes : Lexes kind text ([] ++ rest) := h
  have hstarts := starts hlexes hk (nil (K := K) rest)
  rwa [List.append_nil] at hstarts

/-- A legible number. -/
theorem numeral {n : K} (h : Legible n) (hrest : EndsNumeral rest) :
    Cuts K (fun ts => ∃ t, ts = [t] ∧ t.kind = .number ∧ Scalar.ofText? t.text = some n)
      (Scalar.text n).toList rest := by
  intro pos
  obtain ⟨t, stop, hkind, htext, htokens⟩ := (lexes_numeral h.1 hrest).cut pos
  rw [String.ofList_toList] at htext
  have hread : (Scalar.ofText? t.text : Option K) = some n := htext ▸ h.2
  refine ⟨[t], stop, ⟨t, rfl, hkind, hread⟩, ?_, htokens⟩
  simp only [List.forall_mem_singleton, Token.Valid, hread, Option.isSome_some, implies_true]

/-- The tokens of a text that is cut as a whole. -/
theorem tokenize {source : String} (h : Cuts K P text []) (hsource : source.toList = text) :
    ∃ ts stop, P ts ∧ (∀ t ∈ ts, t.Valid K) ∧
      Source.tokenize source = ts ++ [Token.endAt stop] := by
  obtain ⟨ts, stop, hts, hvalid, htokens⟩ := h 0
  refine ⟨ts, stop, hts, hvalid, ?_⟩
  rw [List.append_nil, Scanner.tokens.eq_1, ← hsource] at htokens
  exact htokens

end Cuts

/-! ## Members on lines of their own -/

theorem lexes_newline (rest : List Char) : Lexes .newline ['\n'] rest := ⟨_, _, rfl, rfl, rfl⟩

theorem lexes_openBrace (rest : List Char) : Lexes .openBrace ['\x7b'] rest :=
  ⟨_, _, rfl, rfl, rfl⟩

theorem lexes_closeBrace (rest : List Char) : Lexes .closeBrace ['\x7d'] rest :=
  ⟨_, _, rfl, rfl, rfl⟩

/-- The tokens are a line end, members and a closing brace, and `R` holds for the members. -/
def Lines {α : Type} (item : List Token → α → Prop) (line : α → Bool) (R : List α → Prop)
    (ts : List Token) : Prop :=
  ∃ us c xs, ts = us ++ [c] ∧ Series .closeBrace item line us c xs ∧ R xs ∧ EndsLine ts

section Lines

variable {K : Type} [Scalar K] {α : Type} {item : List Token → α → Prop} {line : α → Bool}
  {text text' rest : List Char}

/-- No further line: the end of this one and the closing brace. -/
theorem cuts_lines_nil {R : List α → Prop} (h : R []) :
    Cuts K (Lines item line R) (['\n'] ++ ['\x7d']) rest := by
  have hbrace := Cuts.token (K := K) (lexes_closeBrace rest) (by decide)
  refine (Cuts.starts (lexes_newline _) (by decide) hbrace).imp fun ts hts => ?_
  obtain ⟨l, _, rfl, hl, _, c, _, rfl, hc, _, rfl⟩ := hts
  have hblank : Blank true [l] := blank_singleton.mpr (.inr ⟨rfl, hl⟩)
  exact ⟨[l], c, [], rfl, .nil hblank hc, h, l, rfl, .inl hl⟩

/-- One more member, on a line in front of the others. -/
theorem cuts_lines_cons {Q : α → Prop} {R S : List α → Prop}
    (h : Cuts K (Makes item Q) text (text' ++ rest)) (h' : Cuts K (Lines item line R) text' rest)
    (hS : ∀ x xs, Q x → R xs → S (x :: xs)) :
    Cuts K (Lines item line S) (['\n'] ++ (text ++ text')) rest := by
  have hmembers := h.append h' (R := fun ts => ∃ us vs, ts = us ++ vs ∧ Makes item Q us ∧
    Lines item line R vs) fun us vs hus hvs => ⟨us, vs, rfl, hus, hvs⟩
  refine (Cuts.starts (lexes_newline _) (by decide) hmembers).imp fun ts hts => ?_
  obtain ⟨l, _, rfl, hl, _, us, _, rfl, ⟨x, hx, hQ⟩, vs, c, xs, rfl, hxs, hR, hends⟩ := hts
  have hblank : Blank true [l] := blank_singleton.mpr (.inr ⟨rfl, hl⟩)
  exact ⟨[l] ++ us ++ vs, c, x :: xs, by simp, .cons hblank hx (fun _ => hends) hxs, hS x xs hQ hR,
    l, rfl, .inl hl⟩

end Lines

/-! ## A source text with one problem -/

section Problem

variable {K : Type} [Scalar K] {R : List (Item K) → Prop}

/-- The end of the declarations. -/
theorem cuts_items_nil (rest : List Char) :
    Cuts K (Lines IsItem Item.takesLine fun items : List (Item K) => items = [])
      (['\n'] ++ ['\x7d']) rest := cuts_lines_nil rfl

/-- An objective with no comment behind it. -/
theorem isObjective_cons {t : Token} {us : List Token} {sense : Sense} {e : Expr K}
    (ht : t.kind.sense? = some sense) (he : Derives .sum false us e) :
    IsObjective (t :: us) ⟨extent (t :: us), sense, e⟩ := by
  simpa using IsObjective.intro (g := []) ht he .nil

/-- The tokens of a problem in front of the end are a program. -/
theorem isProgram_of_lines {k n o z : Token} {ts : List Token} (hk : k.kind = .problem)
    (hn : n.kind = .name) (ho : o.kind = .openBrace) (hts : Lines IsItem Item.takesLine R ts)
    (hz : z.kind = .endOfInput) :
    ∃ span items, IsProgram (k :: n :: o :: ts ++ [z]) ⟨[.ofItems span n.text items]⟩ ∧
      R items := by
  obtain ⟨us, c, items, rfl, hitems, hR, _⟩ := hts
  have hproblem := IsProblem.intro (g := []) (h := []) hk .nil hn .nil ho hitems
  have hproblems : IsProblems _ z [_] :=
    .cons (g := []) .nil hproblem (fun h => by cases h) (.nil (g := []) .nil hz)
  have hprogram := IsProgram.intro hproblems
  exact ⟨_, items, by simpa using hprogram, hR⟩

/-- **A source text with one problem is read as the declarations that it is cut into.** -/
theorem ofString_problem {source : String} {body : List Char}
    (hbody : Cuts K (Lines IsItem Item.takesLine R) body [])
    (hsource : source.toList
      = ['p', 'r', 'o', 'b', 'l', 'e', 'm'] ++ ' ' :: (['p'] ++ ' ' :: (['\x7b'] ++ body))) :
    ∃ span items, Program.ofString source = .ok ⟨[.ofItems span "p" items]⟩ ∧ R items := by
  have hproblem : ∀ rest, Lexes .problem ['p', 'r', 'o', 'b', 'l', 'e', 'm'] (' ' :: rest) :=
    fun _ => ⟨_, _, rfl, rfl, rfl⟩
  have hname : ∀ rest, Lexes .name ['p'] (' ' :: rest) := fun _ => ⟨_, _, rfl, rfl, rfl⟩
  -- word by word from the end to the front, because a token is cut by what follows it
  have hnamed := Cuts.starts (hname _) (by decide)
    (Cuts.starts (lexes_openBrace _) (by decide) hbody).space
  have hwhole := Cuts.starts (hproblem _) (by decide) hnamed.space
  obtain ⟨_, stop, hts, hvalid, htokens⟩ := hwhole.tokenize hsource
  obtain ⟨k, _, rfl, hk, _, n, _, rfl, hn, htext, o, ts, rfl, ho, _, hts⟩ := hts
  obtain ⟨span, items, hprogram, hR⟩ :=
    isProgram_of_lines hk hn ho hts (rfl : (Token.endAt stop).kind = .endOfInput)
  have hread := hprogram.ofTokens_eq (List.forall_mem_append.mpr ⟨hvalid,
    List.forall_mem_singleton.mpr (Token.valid_of_ne (by simp [Token.endAt]))⟩)
  rw [← htokens, htext] at hread
  exact ⟨span, items, hread, hR⟩

end Problem

/-! ## A problem with variables, an objective and rows -/

/-- The rows of a block, each on a line of its own, and the brace behind them. -/
def rowLines : List String → String
  | [] => "\n\x7d"
  | row :: rows => "\n" ++ (row ++ rowLines rows)

/-- A source text with one problem: its two variables, its objective and its rows. -/
def problemSource (v : Variables) (objective : String) (rows : List String) : String :=
  "problem p \x7b\nvars " ++ (v.x ++ (", " ++ (v.y ++ ("\n" ++ (objective ++
    ("\nconstraints \x7b" ++ (rowLines rows ++ "\n\x7d")))))))

/-- What is declared: variables, an objective for which `Q` holds, and rows for which `R` does. -/
def Declared {K : Type} (names : List String) (Q : ObjectiveLine K → Prop)
    (R : List (ConstraintLine K) → Prop) (items : List (Item K)) : Prop :=
  ∃ list line lines, items = [.vars list, .objective line, .block lines] ∧
    list.names = names ∧ Q line ∧ R lines

section Declarations

variable {K : Type} [Scalar K] {rest : List Char} {Q : ObjectiveLine K → Prop}
  {R : List (ConstraintLine K) → Prop}

/-- The characters of the line with the variables. -/
def variablesText (x y : List Char) : List Char :=
  ['v', 'a', 'r', 's'] ++ ' ' :: (x ++ ([','] ++ ' ' :: y))

/-- The text of a list of two names is cut into a list of these names. -/
theorem cuts_variables {x y : List Char} (hx : IsName x) (hy : IsName y)
    (hrest : Delimited rest) :
    Cuts K (Makes IsItem fun item : Item K => ∃ list, item = .vars list ∧
      list.names = [String.ofList x, String.ofList y]) (variablesText x y) rest := by
  have hvars : ∀ rest, Lexes .vars ['v', 'a', 'r', 's'] (' ' :: rest) :=
    fun _ => ⟨_, _, rfl, rfl, rfl⟩
  have hcomma : ∀ rest, Lexes .comma [','] rest := fun _ => ⟨_, _, rfl, rfl, rfl⟩
  have hends : ∀ rest, EndsName (',' :: rest) := fun rest d hd => by
    obtain rfl : ',' = d := Option.some.inj hd
    decide
  have hlast := Cuts.token (K := K) (lexes_name hy hrest.endsName) (by decide)
  have hnames := Cuts.starts (lexes_name hx (hends _)) (by decide)
    (Cuts.starts (hcomma _) (by decide) hlast.space)
  refine (Cuts.starts (hvars _) (by decide) hnames.space).imp fun ts hts => ?_
  obtain ⟨t, _, rfl, ht, _, m, _, rfl, hm, hmtext, c, _, rfl, hc, _, n, _, rfl, hn, hntext, rfl⟩ :=
    hts
  have hvariables := IsVariables.intro ht
    (.next (.first (g := []) .nil hm) hc (g := []) .nil hn) (g := []) .nil
  exact ⟨_, .vars hvariables, _, rfl, by rw [hmtext, hntext]; rfl⟩

/-- An objective is a declaration. -/
theorem cuts_objective {objective : List Char} (h : Cuts K (Makes IsObjective Q) objective rest) :
    Cuts K (Makes IsItem fun item : Item K => ∃ line, item = .objective line ∧ Q line)
      objective rest := by
  refine h.imp fun ts hts => ?_
  obtain ⟨line, hline, hQ⟩ := hts
  exact ⟨.objective line, .objective hline, line, rfl, hQ⟩

/-- The rows of a block. -/
theorem cuts_rows {α : Type} {text : α → String} {R : α → ConstraintLine K → Prop} :
    ∀ (xs : List α), (∀ x ∈ xs, ∀ rest, Delimited rest →
        Cuts K (Makes IsRow (R x)) (text x).toList rest) →
      Cuts K (Lines IsRow (fun _ => true) (List.Forall₂ R xs)) (rowLines (xs.map text)).toList rest
  | [], _ => by
    have hnil : Cuts K (Lines IsRow (fun _ => true) (List.Forall₂ R [])) (['\n'] ++ ['\x7d'])
      rest := cuts_lines_nil .nil
    simpa [rowLines] using hnil
  | x :: xs, h => by
    rw [List.forall_mem_cons] at h
    have hdelimited : Delimited ((rowLines (xs.map text)).toList ++ rest) := by
      cases xs <;> simp [rowLines, Delimited]
    have hcons := cuts_lines_cons (h.1 _ hdelimited) (cuts_rows xs h.2)
      fun line lines hline hlines => List.Forall₂.cons hline hlines
    simpa [rowLines] using hcons

/-- The characters of a block with the given rows. -/
def blockText (rows : List Char) : List Char :=
  ['c', 'o', 'n', 's', 't', 'r', 'a', 'i', 'n', 't', 's'] ++ ' ' :: (['\x7b'] ++ rows)

/-- The text of a block is cut into a block of the rows that its lines are cut into. -/
theorem cuts_block {rows : List Char} (h : Cuts K (Lines IsRow (fun _ => true) R) rows rest) :
    Cuts K (Makes IsItem fun item : Item K => ∃ lines, item = .block lines ∧ R lines)
      (blockText rows) rest := by
  have hconstraints : ∀ rest, Lexes .constraints
      ['c', 'o', 'n', 's', 't', 'r', 'a', 'i', 'n', 't', 's'] (' ' :: rest) :=
    fun _ => ⟨_, _, rfl, rfl, rfl⟩
  have hbraced := Cuts.starts (lexes_openBrace _) (by decide) h
  refine (Cuts.starts (hconstraints _) (by decide) hbraced.space).imp fun ts hts => ?_
  obtain ⟨t, _, rfl, ht, _, o, _, rfl, ho, _, us, c, lines, rfl, hlines, hR, _⟩ := hts
  exact ⟨_, .block (g := []) ht .nil ho hlines, lines, rfl, hR⟩

/-- The characters of the declarations, each on a line of its own, and of the brace behind them. -/
def declaredText (x y objective rows : List Char) : List Char :=
  ['\n'] ++ (variablesText x y ++ (['\n'] ++ (objective ++ (['\n'] ++ (blockText rows ++
    (['\n'] ++ ['\x7d']))))))

/-- The declarations of a problem, one behind the other: the variables, the objective and the
block. -/
theorem cuts_declared {x y objective rows : List Char} (hx : IsName x) (hy : IsName y)
    (hobjective : ∀ rest, Delimited rest → Cuts K (Makes IsObjective Q) objective rest)
    (hrows : ∀ rest, Cuts K (Lines IsRow (fun _ => true) R) rows rest) :
    Cuts K (Lines IsItem Item.takesLine (Declared [String.ofList x, String.ofList y] Q R))
      (declaredText x y objective rows) rest := by
  -- from the last declaration to the first
  have hblock := cuts_lines_cons (cuts_block (hrows _)) (cuts_items_nil rest)
    (S := fun items => ∃ lines, items = [.block lines] ∧ R lines) fun item items hitem hitems => by
    obtain ⟨lines, rfl, hR⟩ := hitem
    exact ⟨lines, by rw [hitems], hR⟩
  have hgoal := cuts_lines_cons (cuts_objective (hobjective _ (delimited_newline _))) hblock
    (S := fun items => ∃ line lines, items = [.objective line, .block lines] ∧ Q line ∧ R lines)
    fun item items hitem hitems => by
    obtain ⟨line, rfl, hQ⟩ := hitem
    obtain ⟨lines, rfl, hR⟩ := hitems
    exact ⟨line, lines, rfl, hQ, hR⟩
  refine cuts_lines_cons (cuts_variables hx hy (delimited_newline _)) hgoal
    fun item items hitem hitems => ?_
  obtain ⟨list, rfl, hnames⟩ := hitem
  obtain ⟨line, lines, rfl, hQ, hR⟩ := hitems
  exact ⟨list, line, lines, rfl, hnames, hQ, hR⟩

/-- **The source text is read as what its pieces are read as.** -/
theorem ofString_problemSource {α : Type} {v : Variables} {objective : String} {text : α → String}
    {xs : List α} {R : α → ConstraintLine K → Prop} (hx : IsName v.x.toList)
    (hy : IsName v.y.toList)
    (hobjective : ∀ rest, Delimited rest → Cuts K (Makes IsObjective Q) objective.toList rest)
    (hrows : ∀ x ∈ xs, ∀ rest, Delimited rest →
      Cuts K (Makes IsRow (R x)) (text x).toList rest) :
    ∃ span items, Program.ofString (problemSource v objective (xs.map text))
      = .ok ⟨[.ofItems span "p" items]⟩ ∧ Declared [v.x, v.y] Q (List.Forall₂ R xs) items := by
  have hnames : [v.x, v.y] = [String.ofList v.x.toList, String.ofList v.y.toList] := by
    rw [String.ofList_toList, String.ofList_toList]
  rw [hnames]
  refine ofString_problem (cuts_declared hx hy hobjective fun rest => cuts_rows xs hrows) ?_
  simp [problemSource, declaredText, variablesText, blockText]

end Declarations

end CornerPoint.Source
