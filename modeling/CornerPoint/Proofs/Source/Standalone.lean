import Mathlib
import CornerPoint.Proofs.Source.Literal
import CornerPoint.Proofs.Source.Slicing

/-!
# Tokens stand for themselves

The scanner looks ahead to find where a token ends, so what follows a token has been seen when the
token is cut off. It has no say in it: the text of a token, with nothing around it, is the same
token (`Scanner.tokens_single`). It could only have made the token longer, and for numbers and
words it has not: their lengths do not shrink when the text goes on (`Lexeme.Grows`), so a longer
slice from the same start that is one number, or one word, would have been cut off as a whole.

> `tokenize_standalone`: every token but the end is alone what it is in its text, and there is no
> longer number where a number is found and no longer word where a word is.
-/

namespace CornerPoint.Source

/-- The kinds of words: names and keywords. -/
def Token.Kind.IsWord (k : Token.Kind) : Prop :=
  k = .name ∨ k = .problem ∨ k = .maximize ∨ k = .minimize ∨ k = .vars ∨ k = .constraints

/-! ## Lexemes that grow with their text -/

namespace Lexeme

/-- A length that stops at cuts does not shrink when the text goes on: it is the same, or it
reaches over the cut. -/
theorem StopsAtCut.le_append {g : List Char → Nat} (h : StopsAtCut g)
    (hle : ∀ cs, g cs ≤ cs.length) (cs ds : List Char) : g cs ≤ g (cs ++ ds) := by
  by_cases hcut : g (cs ++ ds) ≤ cs.length
  · exact Nat.le_of_eq (h cs ds hcut)
  · exact (hle cs).trans (Nat.le_of_not_le hcut)

/-- Lexemes of the kinds `P` do not get shorter when the text goes on. -/
def Grows (P : Token.Kind → Prop) : Prop :=
  ∀ c cs ds, P (of c cs).kind → P (of c (cs ++ ds)).kind → (of c cs).more ≤ (of c (cs ++ ds)).more

/-- What is read as a word begins like one. -/
theorem of_eq_word_of_isWord {c : Char} {cs : List Char} :
    (of c cs).kind.IsWord → of c cs = word c cs := by
  unfold of
  split
  case h_2 => unfold slash; split <;> simp [Token.Kind.IsWord]
  case h_7 | h_8 | h_9 => unfold relation; split <;> simp [Token.Kind.IsWord]
  case h_18 => exact fun _ => rfl
  all_goals simp [Token.Kind.IsWord]

/-- What is read as a word is as long as the run of its characters. -/
theorem more_of_isWord {c : Char} {cs : List Char} (h : (of c cs).kind.IsWord) :
    (of c cs).more = run isNamePart cs := by
  have hof := of_eq_word_of_isWord h
  rw [hof] at h ⊢
  unfold word at h ⊢
  split
  next hnum =>
    rw [if_pos hnum] at h
    simp [Token.Kind.IsWord] at h
  next hnum =>
    split
    next => rfl
    next hname =>
      rw [if_neg hnum, if_neg hname] at h
      simp [Token.Kind.IsWord] at h

/-- A number does not get shorter when the text goes on. -/
theorem grows_number : Grows (· = .number) := fun c cs ds h h' => by
  have hle := StopsAtCut.le_append number_cut number_le (c :: cs) ds
  rw [(number_of_kind h).2, (number_of_kind h').2]
  exact Nat.sub_le_sub_right hle 1

theorem grows_isWord : Grows Token.Kind.IsWord := fun c cs ds h h' => by
  rw [more_of_isWord h, more_of_isWord h']
  exact run_le_append isNamePart cs ds

end Lexeme

/-! ## Where a token is cut off -/

namespace Scanner

/-- Every token but the end is cut off where its first character stands. -/
theorem exists_token_of_mem (s : Scanner) : ∀ t ∈ s.tokens, t.kind ≠ .endOfInput →
    ∃ before c cs, s.rest = before ++ c :: cs ∧ isBlank c = false ∧
      t = token (s.pos + byteSize before) c cs := by
  fun_induction Scanner.tokens s with
  | case1 pos => exact List.forall_mem_singleton.mpr fun hk => absurd rfl hk
  | case2 c cs pos hc ih =>
    intro t ht hk
    obtain ⟨before, d, ds, rfl, hd, rfl⟩ := ih t ht hk
    exact ⟨c :: before, d, ds, rfl, hd, by rw [byteSize, ← Nat.add_assoc]⟩
  | case3 c cs pos hc ih =>
    intro t ht hk
    rcases List.mem_cons.mp ht with rfl | ht
    · exact ⟨[], c, cs, rfl, Bool.eq_false_iff.mpr hc, rfl⟩
    · obtain ⟨before, d, ds, hrest, hd, rfl⟩ := ih t ht hk
      refine ⟨c :: (cs.take (Lexeme.of c cs).more ++ before), d, ds, ?_, hd, ?_⟩
      -- what stands in front of a later token begins with the lexeme that is cut off here
      · have hafter : cs.drop (Lexeme.of c cs).more = before ++ d :: ds := hrest
        rw [List.cons_append, List.append_assoc, ← hafter, List.take_append_drop]
      · rw [← List.cons_append, byteSize_append, ← Nat.add_assoc]
        rfl

/-- **The text of a token is one token.** -/
theorem tokens_single {c : Char} (hc : isBlank c = false) (cs : List Char) (pos : Nat) :
    (Scanner.mk (c :: cs.take (Lexeme.of c cs).more) pos).tokens
      = [token pos c cs, .endAt (token pos c cs).span.stop] := by
  have hcut : (Scanner.mk (c :: cs.take (Lexeme.of c cs).more ++ []) pos).tokens
      = token pos c cs :: (Scanner.mk [] (token pos c cs).span.stop).tokens := tokens_cut hc rfl pos
  rw [List.append_nil] at hcut
  rw [hcut, Scanner.tokens]

/-- A first token that takes up all bytes takes up all characters. -/
theorem length_le_more {c : Char} {cs : List Char} {pos : Nat}
    (h : (token pos c cs).span.stop = pos + byteSize (c :: cs)) :
    cs.length ≤ (Lexeme.of c cs).more := by
  have hsize : byteSize cs = byteSize (cs.take (Lexeme.of c cs).more)
      + byteSize (cs.drop (Lexeme.of c cs).more) := by
    rw [← byteSize_append, List.take_append_drop]
  have hstop : pos + (c.utf8Size + byteSize (cs.take (Lexeme.of c cs).more))
      = pos + (c.utf8Size + byteSize cs) := h
  by_contra hlt
  have hpos := byteSize_pos (mt List.drop_eq_nil_iff.mp hlt)
  omega

end Scanner

/-! ## Slices from the start of a token -/

/-- The text is a single token of the kinds `P` that takes up all of it. -/
def IsSingle (P : Token.Kind → Prop) (text : String) : Prop :=
  ∃ t e, tokenize text = [t, e] ∧ P t.kind ∧ t.span = ⟨0, text.utf8ByteSize⟩

/-- No slice of the source from the start of `t` to behind its end is a single token of the
kinds `P`. -/
def Longest (P : Token.Kind → Prop) (source : String) (t : Token) : Prop :=
  ∀ stop, t.span.stop < stop → Span.Legal ⟨t.span.start, stop⟩ source →
    ¬ IsSingle P (Span.slice ⟨t.span.start, stop⟩ source)

/-- A slice from a place behind `before` is what follows there, up to some point. -/
theorem exists_slice {source : String} {before rest : List Char} {stop : Nat}
    (hsource : source.toList = before ++ rest)
    (h : Span.Legal ⟨byteSize before, stop⟩ source) : ∃ text after, rest = text ++ after ∧
      stop = byteSize before + byteSize text ∧
      Span.slice ⟨byteSize before, stop⟩ source = String.ofList text := by
  obtain ⟨front, back, hsplit, hstop⟩ := String.Pos.Raw.isValid_iff_exists_append.mp h.stop
  have hsize : stop = byteSize front.toList := by
    rw [byteSize_toList]
    exact congrArg String.Pos.Raw.byteIdx hstop
  have hboth : before ++ rest = front.toList ++ back.toList := by
    rw [← hsource, hsplit, String.toList_append]
  have hle : byteSize before ≤ stop := h.le
  rcases List.append_eq_append_iff.mp hboth with ⟨text, hfront, hrest⟩ | ⟨text, hbefore, hback⟩
  · have hsum : stop = byteSize before + byteSize text := by
      rw [hsize, hfront, byteSize_append]
    have hfound : source.toList = before ++ text ++ back.toList := by
      rw [hsource, hrest, List.append_assoc]
    exact ⟨text, back.toList, hrest, hsum, by rw [Span.slice, hsum, extract_byteSize hfound]⟩
  · -- the slice ends where it begins
    have htext : text = [] := by
      by_contra hne
      have hpos := byteSize_pos hne
      rw [hbefore, byteSize_append] at hle
      omega
    have hsum : stop = byteSize before + byteSize [] := by
      rw [hsize, hbefore, htext, List.append_nil]
      rfl
    have hnone : source.toList = before ++ [] ++ rest := by rw [hsource, List.append_nil]
    exact ⟨[], rest, rfl, hsum, by rw [Span.slice, hsum, extract_byteSize hnone]⟩

/-- **Tokens that grow with their text are the longest of their kinds.** -/
theorem longest_of_grows {P : Token.Kind → Prop} (hP : Lexeme.Grows P) {source : String}
    {t : Token} (ht : t ∈ tokenize source) (hend : t.kind ≠ .endOfInput) (hk : P t.kind) :
    Longest P source t := by
  obtain ⟨before, c, cs, hsource, hc, rfl⟩ := Scanner.exists_token_of_mem _ t ht hend
  simp only [Scanner.ofString, Nat.zero_add] at hsource hk ⊢
  rintro stop hlonger hlegal ⟨u, e, htokens, hu, hspan⟩
  obtain ⟨text, after, hrest, hsize, hslice⟩ := exists_slice hsource hlegal
  have hshort : byteSize (c :: cs.take (Lexeme.of c cs).more) < byteSize text := by
    have hlt : byteSize before + byteSize (c :: cs.take (Lexeme.of c cs).more)
        < byteSize before + byteSize text := hsize ▸ hlonger
    omega
  -- the slice begins with the character that the token begins with
  cases text with
  | nil => exact absurd hshort (Nat.not_lt_zero _)
  | cons d ds =>
    obtain ⟨rfl, hcs⟩ : c = d ∧ cs = ds ++ after := List.cons.inj hrest
    subst hcs
    change tokenize (Span.slice ⟨byteSize before, stop⟩ source) = _ at htokens
    change u.span = ⟨0, (Span.slice ⟨byteSize before, stop⟩ source).utf8ByteSize⟩ at hspan
    rw [hslice, tokenize, Scanner.ofString, String.toList_ofList, Scanner.tokens,
      if_neg (Bool.eq_false_iff.mp hc)] at htokens
    obtain ⟨rfl, -⟩ := List.cons.inj htokens
    have hstop : (Scanner.token 0 c ds).span.stop = 0 + byteSize (c :: ds) := by
      rw [hspan, hslice, ← byteSize_toList, String.toList_ofList, Nat.zero_add]
    have hlength := Scanner.length_le_more hstop
    have hgrows := hP c ds after hu hk
    have htake : (ds ++ after).take (Lexeme.of c (ds ++ after)).more
        = ds ++ after.take ((Lexeme.of c (ds ++ after)).more - ds.length) := by
      rw [List.take_append, List.take_of_length_le (hlength.trans hgrows)]
    rw [htake, ← List.cons_append, byteSize_append] at hshort
    omega

/-! ## Tokens of a text -/

/-- What it means that the token `t` of `source` does not depend on what stands around it. -/
structure Standalone (source : String) (t : Token) : Prop where
  /-- Alone, its text is cut into the same token and the end. -/
  alone : tokenize t.text
    = [⟨t.kind, ⟨0, t.text.utf8ByteSize⟩, t.text⟩, .endAt t.text.utf8ByteSize]
  /-- There is no longer number where a number is found. -/
  number : t.kind = .number → Longest (· = .number) source t
  /-- There is no longer word where a word is found. -/
  word : t.kind.IsWord → Longest Token.Kind.IsWord source t

/-- **Tokens do not depend on what stands around them.** Every token but the end is alone what it
is in its text, and numbers and words are the longest that begin where they do. -/
theorem tokenize_standalone (source : String) {t : Token} (ht : t ∈ tokenize source)
    (hend : t.kind ≠ .endOfInput) : Standalone source t where
  alone := by
    obtain ⟨before, c, cs, -, hc, rfl⟩ := Scanner.exists_token_of_mem _ t ht hend
    have hsingle := Scanner.tokens_single hc cs 0
    simp only [Scanner.token, Nat.zero_add] at hsingle ⊢
    rw [tokenize, Scanner.ofString, String.toList_ofList, hsingle, ← byteSize_toList,
      String.toList_ofList]
  number := longest_of_grows Lexeme.grows_number ht hend
  word := longest_of_grows Lexeme.grows_isWord ht hend

/-- A number in front of what looks like an exponent, half a sign, a name that begins with a
keyword, a sign of three bytes, and a comment that the text leaves open. -/
def glued : String := "2.5e+<.5e-1max_x)≤/*y"

/-- A number and a word of a text without blanks. -/
theorem tokenize_standalone_glued :
    ⟨.number, ⟨0, 3⟩, "2.5"⟩ ∈ tokenize glued ∧ ⟨.name, ⟨11, 16⟩, "max_x"⟩ ∈ tokenize glued ∧
    Standalone glued ⟨.number, ⟨0, 3⟩, "2.5"⟩ ∧ Standalone glued ⟨.name, ⟨11, 16⟩, "max_x"⟩ := by
  have hnumber := List.mem_of_getElem?
    (show (tokenize glued)[0]? = some ⟨.number, ⟨0, 3⟩, "2.5"⟩ by cbv)
  have hword := List.mem_of_getElem?
    (show (tokenize glued)[5]? = some ⟨.name, ⟨11, 16⟩, "max_x"⟩ by cbv)
  exact ⟨hnumber, hword, tokenize_standalone glued hnumber (by simp),
    tokenize_standalone glued hword (by simp)⟩

end CornerPoint.Source
