import Mathlib
import CornerPoint.Proofs.Source.Lexing
import CornerPoint.Proofs.Source.Relocation

/-!
# Texts one below the other

The scanner looks ahead by whole runs of characters, yet no token but a block comment goes on
behind the end of a line: what follows a line end does not change the length of a lexeme
(`StopsAtLine`), for each kind of lexeme in turn. A block comment goes on only while it is open,
and then it takes up the rest of the text (`Lexeme.of_line`). So the scanner cuts a text in front
of a line end as it cuts it alone (`Scanner.tokens_line`), unless the last token is an open block
comment, and then starts anew.

The reader is back between problems at the end of an accepted text, where it knows nothing but
the problems that are complete. What it reads below is what it reads at the start of a text, at
other offsets (`ofString_below`).
-/

namespace CornerPoint.Source

/-! ## Open comments -/

/-- A block comment whose closing is missing. The star of its opening closes nothing. -/
def Token.IsOpenBlock (t : Token) : Prop :=
  t.kind = .comment ∧
    ∃ body, t.text.toList = '/' :: '*' :: body ∧ ¬ ['*', '/'] <:+: body

/-- The last token in front of the end is an open block comment. -/
def EndsOpen (ts : List Token) : Prop := ∃ t ∈ ts.dropLast.getLast?, t.IsOpenBlock

/-- What is open behind further tokens is open. -/
theorem EndsOpen.cons {ts : List Token} (h : EndsOpen ts) (t : Token) : EndsOpen (t :: ts) := by
  obtain ⟨u, hu, hopen⟩ := h
  refine ⟨u, ?_, hopen⟩
  cases ts with
  | nil => cases hu
  | cons v ts =>
    rw [List.dropLast_cons_cons, List.getLast?_cons, Option.mem_def.mp hu]
    rfl

namespace Lexeme

/-! ## Lexemes end with their line -/

/-- A line end hides what is behind it. -/
def StopsAtLine {α : Type} (g : List Char → α) : Prop :=
  ∀ cs ds, g (cs ++ '\n' :: ds) = g cs

theorem run_le (p : Char → Bool) (cs : List Char) : run p cs ≤ cs.length :=
  (List.takeWhile_prefix p).length_le

/-- A run that takes no line end stops at one. -/
theorem run_line {p : Char → Bool} (hp : p '\n' = false) : StopsAtLine (run p) := fun cs ds => by
  have hstop : ('\n' :: ds).takeWhile p = [] := by rw [List.takeWhile_cons, hp]; rfl
  rw [run, run, List.takeWhile_append, hstop, List.append_nil]
  split
  next hall => exact hall.symm
  next => rfl

theorem fraction_le (cs : List Char) : fraction cs ≤ cs.length := by
  unfold fraction
  split
  next cs =>
    have hrun := run_le Char.isDigit cs
    rw [List.length_cons]
    split <;> omega
  next => exact Nat.zero_le _

theorem fraction_line : StopsAtLine fraction := fun cs ds => by
  cases cs with
  | nil => rfl
  | cons c cs =>
    by_cases hc : c = '.'
    · subst hc
      simp only [List.cons_append, fraction, run_line (p := Char.isDigit) rfl cs ds]
    · simp [fraction, hc]

theorem sign_le (cs : List Char) : sign cs ≤ cs.length := by
  unfold sign
  split <;> simp

theorem sign_line : StopsAtLine sign := fun cs ds => by
  cases cs with
  | nil => rfl
  | cons c cs =>
    rw [List.cons_append]
    unfold sign
    split <;> simp_all

/-- An exponent takes no more than there is. -/
theorem exponent_le (cs : List Char) : exponent cs ≤ cs.length := by
  cases cs with
  | nil => exact Nat.le_refl 0
  | cons e cs =>
    have hsign := sign_le cs
    have hrun := run_le Char.isDigit (cs.drop (sign cs))
    rw [List.length_drop] at hrun
    simp only [exponent, List.length_cons]
    split <;> omega

theorem exponent_line : StopsAtLine exponent := fun cs ds => by
  cases cs with
  | nil => rfl
  | cons e cs =>
    simp only [List.cons_append, exponent, sign_line cs ds,
      List.drop_append_of_le_length (sign_le cs), run_line (p := Char.isDigit) rfl _ ds]

theorem places_le (cs : List Char) :
    run Char.isDigit cs + fraction (cs.drop (run Char.isDigit cs)) ≤ cs.length := by
  have hwhole := run_le Char.isDigit cs
  have hplaces := fraction_le (cs.drop (run Char.isDigit cs))
  rw [List.length_drop] at hplaces
  omega

/-- A number takes no more than there is. -/
theorem number_le (cs : List Char) : number cs ≤ cs.length := by
  have hplaces := places_le cs
  have hexponent := exponent_le
    (cs.drop (run Char.isDigit cs + fraction (cs.drop (run Char.isDigit cs))))
  rw [List.length_drop] at hexponent
  rw [number]
  omega

theorem number_line : StopsAtLine number := fun cs ds => by
  simp only [number, run_line (p := Char.isDigit) rfl cs ds,
    List.drop_append_of_le_length (run_le Char.isDigit cs), fraction_line _ ds,
    List.drop_append_of_le_length (places_le cs), exponent_line _ ds]

theorem string_le (cs : List Char) : string cs ≤ cs.length := by
  induction cs with
  | nil => exact Nat.le_refl 0
  | cons c cs ih =>
    simp only [string, List.length_cons]
    split
    · omega
    · split <;> omega

theorem string_line : StopsAtLine string := fun cs ds => by
  induction cs with
  | nil => rfl
  | cons c cs ih => rw [List.cons_append, string, string, ih]

theorem relation_line (alone withEq : Token.Kind) : StopsAtLine (relation alone withEq) :=
  fun cs ds => by
    cases cs with
    | nil => rfl
    | cons c cs =>
      rw [List.cons_append]
      unfold relation
      split <;> simp_all

/-- Numbers, words and single characters stay in their line. -/
theorem word_line (c : Char) : StopsAtLine (word c) := fun cs ds => by
  have hfraction := fraction_line (c :: cs) ds
  have hnumber := number_line (c :: cs) ds
  rw [List.cons_append] at hfraction hnumber
  have hname : run isNamePart (cs ++ '\n' :: ds) = run isNamePart cs :=
    run_line (by decide) cs ds
  simp only [word, hfraction, hnumber, hname,
    List.take_append_of_le_length (run_le isNamePart cs)]

/-! ## Block comments -/

theorem block_le (cs : List Char) : block cs ≤ cs.length := by
  fun_induction block cs with
  | case1 => exact Nat.le_refl 0
  | case2 => simp
  | case3 c cs _ ih => rw [List.length_cons]; omega

/-- An open comment takes up the whole text. -/
theorem block_of_open {cs : List Char} (h : ¬ ['*', '/'] <:+: cs) : block cs = cs.length := by
  fun_induction block cs with
  | case1 => rfl
  | case2 cs => exact absurd ⟨[], cs, rfl⟩ h
  | case3 c cs _ ih =>
    rw [ih fun hcs => h (List.infix_cons hcs), List.length_cons, Nat.add_comm]

/-- A closed comment ends at its closing, whatever follows. -/
theorem block_append {cs : List Char} (h : ['*', '/'] <:+: cs) (ds : List Char) :
    block (cs ++ ds) = block cs := by
  fun_induction block cs with
  | case1 => exact absurd (List.infix_nil.mp h) (by simp)
  | case2 cs => rfl
  | case3 c cs hne ih =>
    -- the closing does not begin here, so all of it stands further on
    have hcs : ['*', '/'] <:+: cs := by
      refine (List.infix_cons_iff.mp h).resolve_left fun ⟨rest, hrest⟩ => ?_
      obtain ⟨hc, hcs⟩ := List.cons.inj hrest
      exact hne rest hc.symm hcs.symm
    rw [List.cons_append, block, ih hcs]
    intro rest hc heq
    cases cs with
    | nil => exact absurd (List.infix_nil.mp hcs) (by simp)
    | cons d cs =>
      obtain ⟨rfl, -⟩ := List.cons.inj heq
      exact hne cs hc rfl

/-- The token that begins with `c` is a block comment that the characters `cs` leave open. -/
def Opens (c : Char) (cs : List Char) : Prop :=
  c = '/' ∧ ∃ body, cs = '*' :: body ∧ ¬ ['*', '/'] <:+: body

/-- Unless it opens a block comment, what a slash begins ends in its line. -/
theorem slash_line {cs : List Char} (h : ¬ Opens '/' cs) (ds : List Char) :
    slash (cs ++ '\n' :: ds) = slash cs := by
  cases cs with
  | nil => rfl
  | cons c cs =>
    rw [List.cons_append]
    by_cases hslash : c = '/'
    · subst hslash
      rw [slash, slash, run_line (by decide) cs ds]
    by_cases hstar : c = '*'
    · subst hstar
      -- a block comment that opens here is closed in the same line
      have hclosed : ['*', '/'] <:+: cs := by
        by_contra hopen
        exact h ⟨rfl, cs, rfl, hopen⟩
      rw [slash, slash, block_append hclosed]
    · simp [slash, hslash, hstar]

/-! ## Tokens end with their line -/

/-- A lexeme takes no more than there is. -/
theorem more_le (c : Char) (cs : List Char) : (of c cs).more ≤ cs.length := by
  unfold of
  split
  -- comments, strings, relations, numbers and words; all other lexemes are one character
  case h_2 =>
    unfold slash
    split
    next cs =>
      rw [List.length_cons, Nat.add_comm]
      exact Nat.succ_le_succ (run_le _ cs)
    next cs =>
      rw [List.length_cons, Nat.add_comm]
      exact Nat.succ_le_succ (block_le cs)
    next => exact Nat.zero_le _
  case h_3 => exact string_le cs
  case h_7 | h_8 | h_9 =>
    unfold relation
    split <;> simp
  case h_18 =>
    have hnumber := number_le (c :: cs)
    rw [List.length_cons] at hnumber
    unfold word
    split
    · exact Nat.sub_le_of_le_add hnumber
    · split
      · exact run_le isNamePart cs
      · exact Nat.zero_le _
  all_goals exact Nat.zero_le _

/-- **No token but an open block comment goes on behind the end of a line.** -/
theorem of_line {c : Char} {cs : List Char} (h : ¬ Opens c cs) (ds : List Char) :
    of c (cs ++ '\n' :: ds) = of c cs := by
  unfold of
  split
  case h_2 => exact slash_line h ds
  case h_3 => rw [string_line cs ds]
  case h_7 | h_8 | h_9 => exact relation_line _ _ cs ds
  case h_18 => exact word_line c cs ds
  all_goals rfl

end Lexeme

namespace Scanner

/-- An open block comment is the last token. -/
theorem endsOpen_of_opens {c : Char} {cs : List Char} (h : Lexeme.Opens c cs) (pos : Nat) :
    EndsOpen (token pos c cs :: (after pos c cs).tokens) := by
  obtain ⟨rfl, body, rfl, hopen⟩ := h
  have hmore : (Lexeme.of '/' ('*' :: body)).more = ('*' :: body).length := by
    rw [Lexeme.of, Lexeme.slash, Lexeme.block_of_open hopen, List.length_cons, Nat.add_comm]
  have hlast : (after pos '/' ('*' :: body)).tokens
      = [.endAt (token pos '/' ('*' :: body)).span.stop] := by
    rw [after, hmore, List.drop_length, Scanner.tokens]
  refine ⟨token pos '/' ('*' :: body), by rw [hlast]; rfl, rfl, body, ?_, hopen⟩
  rw [token, hmore, List.take_length, String.toList_ofList]

/-- **A text is cut in front of a line end as it is cut alone.** -/
theorem tokens_line (s : Scanner) (h : ¬ EndsOpen s.tokens) (ds : List Char) :
    (Scanner.mk (s.rest ++ '\n' :: ds) s.pos).tokens
      = s.tokens.dropLast ++ (Scanner.mk ('\n' :: ds) (s.pos + byteSize s.rest)).tokens := by
  fun_induction Scanner.tokens s with
  | case1 pos => rfl
  | case2 c cs pos hc ih =>
    rw [List.cons_append, tokens_blank hc, ih h, byteSize, Nat.add_assoc]
  | case3 c cs pos hc ih =>
    -- a comment that is open here would be the last token
    have hof : Lexeme.of c (cs ++ '\n' :: ds) = Lexeme.of c cs :=
      Lexeme.of_line (fun hopens => h (endsOpen_of_opens hopens pos)) ds
    have hmore := Lexeme.more_le c cs
    have htoken : token pos c (cs ++ '\n' :: ds) = token pos c cs := by
      rw [token, hof, List.take_append_of_le_length hmore, token]
    have hafter : after pos c (cs ++ '\n' :: ds)
        = ⟨(after pos c cs).rest ++ '\n' :: ds, (after pos c cs).pos⟩ := by
      rw [after, hof, htoken, List.drop_append_of_le_length hmore, after]
    have hne : (after pos c cs).tokens ≠ [] := by
      obtain ⟨front, heq, _⟩ := (tiles_tokens (after pos c cs)).ends
      rw [heq]
      simp
    rw [List.cons_append, Scanner.tokens, if_neg hc, htoken, hafter,
      ih fun hrest => h (hrest.cons _), List.dropLast_cons_of_ne_nil hne, List.cons_append,
      after_stop]

end Scanner

/-! ## The tokens of two texts -/

/-- The line end at an offset. -/
def Token.lineEnd (pos : Nat) : Token := ⟨.newline, ⟨pos, pos + 1⟩, "\n"⟩

theorem Scanner.tokens_newline (ds : List Char) (pos : Nat) :
    (Scanner.mk ('\n' :: ds) pos).tokens = .lineEnd pos :: (Scanner.mk ds (pos + 1)).tokens :=
  Lexes.tokens ⟨'\n', [], rfl, rfl, rfl⟩ pos

section Texts

variable {s₁ : String}

/-- **Texts are cut line by line.** -/
theorem tokenize_line (h : ¬ EndsOpen (tokenize s₁)) (s₂ : String) :
    tokenize (s₁ ++ "\n" ++ s₂) = (tokenize s₁).dropLast ++ .lineEnd s₁.utf8ByteSize ::
      (tokenize s₂).map (Token.relocate (· + (s₁.utf8ByteSize + 1))) := by
  have hlist : (s₁ ++ "\n" ++ s₂).toList = s₁.toList ++ '\n' :: s₂.toList := by simp
  have hcut := (Scanner.ofString s₁).tokens_line h s₂.toList
  have hmoved := (Scanner.ofString s₂).tokens_add (s₁.utf8ByteSize + 1)
  simp only [Scanner.ofString, Nat.zero_add, byteSize_toList] at hcut hmoved
  rw [tokenize, Scanner.ofString, hlist, hcut, Scanner.tokens_newline, hmoved]
  rfl

/-- An open comment takes in what stands below it. -/
example : tokenize ("/*/" ++ "\n" ++ "x") = [⟨.comment, ⟨0, 5⟩, "/*/\nx"⟩, .endAt 5] := by cbv

/-! ## The problems of two texts -/

variable {K : Type}

/-- A text may only end between problems. -/
theorem Reader.finish_eq_ok {r : Reader K} {p : Program K} (h : r.finish = .ok p) :
    r = ⟨p.problems, .outside, r.last⟩ := by
  obtain ⟨problems, phase, last⟩ := r
  cases phase with
  | outside => cases h; rfl
  | name | brace | inside => cases h

variable [Scalar K]

/-- **Below an accepted text** a text is read as it is alone, at other offsets. -/
theorem ofString_below (h : ¬ EndsOpen (tokenize s₁)) {p₁ : Program K}
    (h₁ : Program.ofString s₁ = .ok p₁) (s₂ : String) :
    Program.ofString (s₁ ++ "\n" ++ s₂) =
      (SyntaxError.relocated (· + (s₁.utf8ByteSize + 1))
        (Program.relocate (· + (s₁.utf8ByteSize + 1))) (Program.ofString s₂)).map
          fun p₂ => ⟨p₁.problems ++ p₂.problems⟩ := by
  obtain ⟨front, hts, hfront⟩ := tokenize_ends s₁
  rw [Program.ofString, Program.ofTokens, hts, Reader.run_append_end _ hfront rfl] at h₁
  cases hr : (Reader.start : Reader K).advance front with
  | error e => rw [hr] at h₁; cases h₁
  | ok r =>
    rw [hr] at h₁
    -- behind the line end the reader is a new one, but for where it stands
    have hstep : r.step (.lineEnd s₁.utf8ByteSize) = .ok
        ((Reader.start.relocate (· + (s₁.utf8ByteSize + 1))).behind p₁.problems) := by
      rw [Reader.finish_eq_ok h₁, Reader.behind, Reader.relocate, Reader.start, List.map_nil,
        List.append_nil, Nat.zero_add]
      rfl
    have hmono : Monotone (· + (s₁.utf8ByteSize + 1)) := fun _ _ hle => Nat.add_le_add_right hle _
    rw [Program.ofString, Program.ofTokens, tokenize_line h, hts, List.dropLast_concat,
      Reader.run_append hr hfront, Reader.run_cons hstep (by simp [Token.lineEnd]),
      Reader.run_behind, Reader.run_relocate hmono]
    rfl

/-- **A token that is refused is refused whatever stands below.** -/
theorem ofString_refused (h : ¬ EndsOpen (tokenize s₁)) {expected : Expectation}
    {found : Token.Kind} {span : Span}
    (h₁ : Program.ofString (K := K) s₁ = .error (.unexpected expected found span)) (s₂ : String) :
    Program.ofString (K := K) (s₁ ++ "\n" ++ s₂) = .error (.unexpected expected found span) := by
  obtain ⟨front, hts, hfront⟩ := tokenize_ends s₁
  rw [Program.ofString, Program.ofTokens, hts, Reader.run_append_end _ hfront rfl] at h₁
  have hr : (Reader.start : Reader K).advance front = .error (.unexpected expected found span) := by
    cases hr : (Reader.start : Reader K).advance front with
    | error e => rw [hr] at h₁; cases h₁; rfl
    | ok r =>
      -- the end of the text is no token that could be refused
      rw [hr] at h₁
      obtain ⟨problems, phase, last⟩ := r
      cases phase <;> cases h₁
  rw [Program.ofString, Program.ofTokens, tokenize_line h, hts, List.dropLast_concat,
    Reader.run_append_error hr hfront]

end Texts

/-- **Texts compose line by line.** Unless the first text ends in an open block comment, its
tokens without the end, a line end and the tokens of the second text, moved behind it, are the
tokens of both. If both are accepted, then so are both together, with the problems of the first in
front of those of the second, which are moved likewise. A token of the first text that is refused
is refused in the same way. -/
theorem lines_compose (K : Type) [Scalar K] {s₁ : String} (h : ¬ EndsOpen (tokenize s₁))
    (s₂ : String) :
    tokenize (s₁ ++ "\n" ++ s₂) = (tokenize s₁).dropLast ++
      ⟨.newline, ⟨s₁.utf8ByteSize, s₁.utf8ByteSize + 1⟩, "\n"⟩ ::
        (tokenize s₂).map (Token.relocate (· + (s₁.utf8ByteSize + 1))) ∧
    (∀ p₁ p₂ : Program K, Program.ofString s₁ = .ok p₁ → Program.ofString s₂ = .ok p₂ →
      Program.ofString (s₁ ++ "\n" ++ s₂) =
        .ok ⟨p₁.problems ++ p₂.problems.map (Problem.relocate (· + (s₁.utf8ByteSize + 1)))⟩) ∧
    (∀ expected found span,
      Program.ofString (K := K) s₁ = .error (.unexpected expected found span) →
        Program.ofString (K := K) (s₁ ++ "\n" ++ s₂) =
          .error (.unexpected expected found span)) := by
  refine ⟨tokenize_line h s₂, fun p₁ p₂ h₁ h₂ => ?_, fun _ _ _ h₁ => ofString_refused h h₁ s₂⟩
  rw [ofString_below h h₁, h₂]
  rfl

/-- A problem and a comment that goes on to the end of the line. -/
def notedSource : String := "problem p \x7b max x - y \x7d // /* ≥"

/-- The problem in `notedSource`. -/
def noted : Problem ℚ where
  span := ⟨0, 23⟩
  name := "p"
  properties := []
  vars := none
  objectives :=
    [⟨⟨12, 21⟩, .maximize, .binary (.var ⟨16, 17⟩ "x") .sub (.var ⟨20, 21⟩ "y")⟩]
  constraints := []

/-- A problem on one line. -/
def shortSource : String := "problem q \x7b min y \x7d"

/-- The problem in `shortSource`. -/
def short : Problem ℚ where
  span := ⟨0, 19⟩
  name := "q"
  properties := []
  vars := none
  objectives := [⟨⟨12, 17⟩, .minimize, .var ⟨16, 17⟩ "y"⟩]
  constraints := []

/-- A sign where the name of a problem must stand, and a string without its closing quote. -/
def signSource : String := "problem = \"p"

/-- What opens a block comment opens nothing inside another comment. -/
theorem not_endsOpen_noted : ¬ EndsOpen (tokenize notedSource) := by
  have hlast : (tokenize notedSource).dropLast.getLast?
      = some ⟨.comment, ⟨24, 33⟩, "// /* ≥"⟩ := by cbv
  rintro ⟨t, ht, -, body, htext, -⟩
  rw [hlast] at ht
  cases ht
  simp at htext

/-- The text ends in a string that nothing closes, which is no comment. -/
theorem not_endsOpen_sign : ¬ EndsOpen (tokenize signSource) := by
  have hlast : (tokenize signSource).dropLast.getLast?
      = some ⟨.string, ⟨10, 12⟩, "\"p"⟩ := by cbv
  rintro ⟨t, ht, hkind, -⟩
  rw [hlast] at ht
  cases ht
  cases hkind

/-- The second problem starts 34 bytes behind the first: the sign `≥` takes up three. -/
theorem lines_compose_noted :
    ¬ EndsOpen (tokenize notedSource) ∧ ¬ EndsOpen (tokenize signSource) ∧
    Program.ofString notedSource = .ok ⟨[noted]⟩ ∧
    Program.ofString shortSource = .ok ⟨[short]⟩ ∧
    Program.ofString (notedSource ++ "\n" ++ shortSource)
      = .ok ⟨[noted, short.relocate (· + 34)]⟩ ∧
    Program.ofString (K := ℚ) (signSource ++ "\n" ++ shortSource)
      = .error (.unexpected (.kind .name) .eq ⟨8, 9⟩) := by
  have hnoted : Program.ofString notedSource = .ok ⟨[noted]⟩ := by cbv
  have hshort : Program.ofString shortSource = .ok ⟨[short]⟩ := by cbv
  have hsign : Program.ofString (K := ℚ) signSource
      = .error (.unexpected (.kind .name) .eq ⟨8, 9⟩) := by cbv
  exact ⟨not_endsOpen_noted, not_endsOpen_sign, hnoted, hshort,
    (lines_compose ℚ not_endsOpen_noted shortSource).2.1 _ _ hnoted hshort,
    (lines_compose ℚ not_endsOpen_sign shortSource).2.2 _ _ _ hsign⟩

end CornerPoint.Source
