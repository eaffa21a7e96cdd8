import Mathlib
import CornerPoint.Proofs.Source.Lines

/-!
# Texts cut out of a text

The scanner looks ahead to find where a token ends. A token that ends in front of some point is
found all the same when the text behind that point is gone (`Lexeme.of_cut`): each length is that
of the longest lexeme, and the characters that would have made it longer have been seen. So the
scanner cuts a text at the end of a token into two texts that it cuts alone as it cuts them
together (`Scanner.tokens_split`), and some tokens in a row are the tokens of the slice that they
stand in:

> `tokenize_slice`: from the start of a token to the end of a later one, a text is cut alone as it
> is cut within the whole.
-/

namespace CornerPoint.Source

namespace Lexeme

/-! ## Lengths -/

/-- A length that ends in front of a cut is the same without what is behind the cut. -/
def StopsAtCut (g : List Char → Nat) : Prop :=
  ∀ cs ds, g (cs ++ ds) ≤ cs.length → g cs = g (cs ++ ds)

/-- The first character that does not belong to a run stops it, cut or not. -/
theorem run_cut (p : Char → Bool) : StopsAtCut (run p) := by
  intro cs ds h
  rw [run, List.takeWhile_append] at h
  rw [run, run, List.takeWhile_append]
  split at h
  next hall =>
    rw [List.length_append] at h
    rw [if_pos hall, List.length_append]
    omega
  next hall => rw [if_neg hall]

/-- A run does not get longer when the text gets shorter. -/
theorem run_le_append (p : Char → Bool) (cs ds : List Char) : run p cs ≤ run p (cs ++ ds) := by
  have hshort := run_le p cs
  rw [run] at hshort
  rw [run, run, List.takeWhile_append]
  split
  next =>
    rw [List.length_append]
    omega
  next => exact Nat.le_refl _

/-- A point and its digits. -/
theorem fraction_cut : StopsAtCut fraction := by
  intro cs ds h
  cases cs with
  | nil => exact (Nat.le_zero.mp h).symm
  | cons c cs =>
    by_cases hc : c = '.'
    · subst hc
      have hshort := run_le_append Char.isDigit cs ds
      simp only [List.cons_append, fraction, List.length_cons] at h ⊢
      -- a point without digits is no fraction, and has none in front of the cut either
      by_cases hzero : run Char.isDigit (cs ++ ds) = 0
      · rw [if_pos hzero, if_pos (by omega)]
      · rw [if_neg hzero] at h
        rw [run_cut Char.isDigit cs ds (by omega)]
    · simp [fraction, hc]

/-- A sign is known by its first character. -/
theorem sign_cut {cs : List Char} (hne : cs ≠ []) (ds : List Char) : sign (cs ++ ds) = sign cs := by
  cases cs with
  | nil => exact absurd rfl hne
  | cons c cs =>
    rw [List.cons_append]
    unfold sign
    split <;> simp_all

/-- An exponent, its sign and its digits. -/
theorem exponent_cut : StopsAtCut exponent := by
  intro cs ds h
  cases cs with
  | nil => exact (Nat.le_zero.mp h).symm
  | cons e cs =>
    simp only [List.cons_append, exponent, List.length_cons] at h ⊢
    by_cases hne : cs = []
    · -- a lone `e` is no exponent, and one with a digit would end behind the cut
      subst hne
      split at h
      next hexp =>
        simp only [Bool.and_eq_true, bne_iff_ne, List.nil_append] at hexp
        simp only [List.nil_append, List.length_nil] at h
        omega
      next hexp =>
        rw [if_neg hexp]
        simp [run, sign]
    · rw [sign_cut hne, List.drop_append_of_le_length (sign_le cs)] at h ⊢
      have hshort := run_le_append Char.isDigit (cs.drop (sign cs)) ds
      split at h
      next hexp =>
        have hdigits : run Char.isDigit (cs.drop (sign cs))
            = run Char.isDigit (cs.drop (sign cs) ++ ds) := by
          apply run_cut
          rw [List.length_drop]
          omega
        rw [hdigits]
      next hexp =>
        rw [if_neg hexp, if_neg]
        intro hexp'
        apply hexp
        simp only [Bool.and_eq_true, bne_iff_ne] at hexp' ⊢
        exact ⟨hexp'.1, by omega⟩

/-- A number: its digits, its fraction and its exponent, each of them cut off in turn. -/
theorem number_cut : StopsAtCut number := by
  intro cs ds h
  simp only [number] at h ⊢
  have hwhole : run Char.isDigit cs = run Char.isDigit (cs ++ ds) := run_cut _ cs ds (by omega)
  rw [← hwhole] at h ⊢
  have hle := run_le Char.isDigit cs
  rw [List.drop_append_of_le_length hle] at h ⊢
  have hplaces : fraction (cs.drop (run Char.isDigit cs))
      = fraction (cs.drop (run Char.isDigit cs) ++ ds) := by
    apply fraction_cut
    rw [List.length_drop]
    omega
  rw [← hplaces] at h ⊢
  rw [List.drop_append_of_le_length (places_le cs)] at h ⊢
  rw [← exponent_cut]
  rw [List.length_drop]
  omega

/-- A string, up to its quote or the end of its line. -/
theorem string_cut : StopsAtCut string := by
  intro cs ds h
  induction cs with
  | nil => exact (Nat.le_zero.mp h).symm
  | cons c cs ih =>
    simp only [List.cons_append, string, List.length_cons] at h ⊢
    split
    next => rfl
    next hquote =>
      rw [if_neg hquote] at h
      split
      next => rfl
      next hline =>
        rw [if_neg hline] at h
        rw [ih (by omega)]

/-- A block comment, up to where it is closed. -/
theorem block_cut : StopsAtCut block := by
  intro cs ds h
  induction cs with
  | nil => exact (Nat.le_zero.mp h).symm
  | cons c cs ih =>
    by_cases hclose : ∃ rest, c = '*' ∧ cs ++ ds = '/' :: rest
    · obtain ⟨rest, rfl, hrest⟩ := hclose
      cases cs with
      | nil =>
        -- the closing straddles the cut
        rw [List.cons_append, hrest, block] at h
        exact absurd h (by simp)
      | cons d cs =>
        obtain ⟨rfl, -⟩ := List.cons.inj hrest
        rfl
    · have hopen : ∀ rest, c = '*' → cs ++ ds = '/' :: rest → False :=
        fun rest hc hrest => hclose ⟨rest, hc, hrest⟩
      have hopen' : ∀ rest, c = '*' → cs = '/' :: rest → False := by
        intro rest hc hrest
        exact hopen (rest ++ ds) hc (by rw [hrest, List.cons_append])
      rw [List.cons_append, block.eq_3 c (cs ++ ds) hopen, List.length_cons] at h
      rw [List.cons_append, block.eq_3 c (cs ++ ds) hopen, block.eq_3 c cs hopen', ih (by omega)]

/-! ## Kinds -/

/-- A relation of one or two characters. -/
theorem relation_cut (alone withEq : Token.Kind) {cs ds : List Char}
    (h : (relation alone withEq (cs ++ ds)).more ≤ cs.length) :
    relation alone withEq cs = relation alone withEq (cs ++ ds) := by
  cases cs with
  | nil =>
    rw [List.nil_append] at h ⊢
    unfold relation at h ⊢
    split at h
    next => exact absurd h (by simp)
    next => rfl
  | cons c cs =>
    rw [List.cons_append]
    unfold relation
    split <;> simp_all

/-- A slash, or the comment that it begins. -/
theorem slash_cut {cs ds : List Char} (h : (slash (cs ++ ds)).more ≤ cs.length) :
    slash cs = slash (cs ++ ds) := by
  cases cs with
  | nil =>
    rw [List.nil_append] at h ⊢
    unfold slash at h ⊢
    split at h
    next => exact absurd h (by simp)
    next => exact absurd h (by simp)
    next => rfl
  | cons c cs =>
    rw [List.cons_append] at h ⊢
    by_cases hline : c = '/'
    · subst hline
      simp only [slash, List.length_cons] at h ⊢
      rw [run_cut _ cs ds (by omega)]
    · by_cases hblock : c = '*'
      · subst hblock
        simp only [slash, List.length_cons] at h ⊢
        rw [block_cut cs ds (by omega)]
      · simp [slash, hline, hblock]

/-- A fraction is no longer than the number that begins with it. -/
theorem fraction_le_number {cs : List Char} (h : cs.head? = some '.') :
    fraction cs ≤ number cs := by
  cases cs with
  | nil => cases h
  | cons c cs =>
    obtain rfl : c = '.' := Option.some.inj h
    have hwhole : run Char.isDigit ('.' :: cs) = 0 := rfl
    rw [number, hwhole, List.drop_zero]
    omega

/-- A number, a word or a single character that is neither. -/
theorem word_cut {c : Char} {cs ds : List Char} (h : (word c (cs ++ ds)).more ≤ cs.length) :
    word c cs = word c (cs ++ ds) := by
  unfold word at h ⊢
  by_cases hnum : (c.isDigit || (c == '.' && fraction (c :: (cs ++ ds)) != 0)) = true
  · rw [if_pos hnum] at h
    have hlength : number (c :: cs ++ ds) ≤ (c :: cs).length := by
      rw [List.cons_append, List.length_cons]
      exact Nat.le_add_of_sub_le h
    have hnum' : (c.isDigit || (c == '.' && fraction (c :: cs) != 0)) = true := by
      by_cases hpoint : c = '.'
      · have hplaces : fraction (c :: cs ++ ds) ≤ number (c :: cs ++ ds) :=
          fraction_le_number (by rw [hpoint]; rfl)
        rw [fraction_cut (c :: cs) ds (hplaces.trans hlength)]
        exact hnum
      · simpa [hpoint] using hnum
    rw [if_pos hnum', if_pos hnum, number_cut (c :: cs) ds hlength, List.cons_append]
  · have hnum' : ¬(c.isDigit || (c == '.' && fraction (c :: cs) != 0)) = true := by
      by_cases hpoint : c = '.'
      · subst hpoint
        have hplaces : fraction ('.' :: cs ++ ds) = 0 := by simpa using hnum
        rw [fraction_cut ('.' :: cs) ds (by omega), List.cons_append]
        exact hnum
      · simpa [hpoint] using hnum
    rw [if_neg hnum] at h
    rw [if_neg hnum, if_neg hnum']
    by_cases hname : (Text.isAlphabetic c || c == '_') = true
    · rw [if_pos hname] at h
      rw [if_pos hname, if_pos hname]
      simp only [run_cut isNamePart cs ds h, List.take_append_of_le_length h]
    · rw [if_neg hname, if_neg hname]

/-- **A token that ends in front of a cut is found without what is behind the cut.** -/
theorem of_cut {c : Char} {cs ds : List Char} (h : (of c (cs ++ ds)).more ≤ cs.length) :
    of c cs = of c (cs ++ ds) := by
  unfold of at h ⊢
  split at h
  case h_2 => exact slash_cut h
  case h_3 => rw [string_cut cs ds h]
  case h_7 | h_8 | h_9 => exact relation_cut _ _ h
  case h_18 => exact word_cut h
  all_goals rfl

end Lexeme

namespace Scanner

/-- Between tokens a text may be cut anywhere: here, right in front of the next token. -/
theorem tokens_gap (s : Scanner) {t : Token} {us : List Token} (h : s.tokens = t :: us)
    (ht : t.kind ≠ .endOfInput) : ∃ gap rest, s.rest = gap ++ rest ∧
      t.span.start = s.pos + byteSize gap ∧ (Scanner.mk rest t.span.start).tokens = t :: us := by
  fun_induction Scanner.tokens s with
  | case1 pos =>
    obtain ⟨rfl, -⟩ := List.cons.inj h
    exact absurd rfl ht
  | case2 c cs pos hc ih =>
    obtain ⟨gap, rest, hcs, hstart, htokens⟩ := ih h
    refine ⟨c :: gap, rest, congrArg (c :: ·) hcs, ?_, htokens⟩
    rw [hstart, byteSize, Nat.add_assoc]
  | case3 c cs pos hc ih =>
    obtain ⟨rfl, rfl⟩ := List.cons.inj h
    refine ⟨[], c :: cs, rfl, rfl, ?_⟩
    rw [token, Scanner.tokens, if_neg hc, token]

/-- A token in front of a cut is cut off the same way without what is behind the cut. -/
theorem tokens_cut {c : Char} {cs text rest : List Char} (hc : isBlank c = false)
    (h : cs.drop (Lexeme.of c cs).more = text ++ rest) (pos : Nat) :
    (Scanner.mk (c :: cs.take (Lexeme.of c cs).more ++ text) pos).tokens
      = token pos c cs :: (Scanner.mk text (token pos c cs).span.stop).tokens := by
  have hmore := Lexeme.more_le c cs
  have hlength : (cs.take (Lexeme.of c cs).more).length = (Lexeme.of c cs).more := by
    rw [List.length_take, Nat.min_eq_left hmore]
  have hcs : cs.take (Lexeme.of c cs).more ++ text ++ rest = cs := by
    rw [List.append_assoc, ← h, List.take_append_drop]
  have hof : Lexeme.of c (cs.take (Lexeme.of c cs).more ++ text) = Lexeme.of c cs := by
    rw [Lexeme.of_cut, hcs]
    rw [hcs, List.length_append]
    omega
  have htoken : token pos c (cs.take (Lexeme.of c cs).more ++ text) = token pos c cs := by
    rw [token, hof, List.take_left' hlength, token]
  rw [List.cons_append, Scanner.tokens, if_neg (Bool.eq_false_iff.mp hc), after, htoken, hof,
    List.drop_left' hlength]

/-- **A text may be cut at the end of a token.** Both parts are cut as they are cut together. -/
theorem tokens_split (s : Scanner) {ts us : List Token} (h : s.tokens = ts ++ us)
    (hts : ∀ t ∈ ts, t.kind ≠ .endOfInput) : ∃ text rest, s.rest = text ++ rest ∧
      s.pos + byteSize text = stopAfter s.pos ts ∧
      (Scanner.mk text s.pos).tokens = ts ++ [.endAt (stopAfter s.pos ts)] ∧
      (Scanner.mk rest (stopAfter s.pos ts)).tokens = us := by
  cases ts with
  | nil => exact ⟨[], s.rest, rfl, rfl, by rw [Scanner.tokens]; rfl, h⟩
  | cons t ts =>
    fun_induction Scanner.tokens s generalizing t ts with
    | case1 pos =>
      obtain ⟨rfl, -⟩ := List.cons.inj h
      exact absurd rfl (hts _ List.mem_cons_self)
    | case2 c cs pos hc ih =>
      obtain ⟨text, rest, hcs, hstop, htext, hrest⟩ := ih t ts h hts
      refine ⟨c :: text, rest, congrArg (c :: ·) hcs, ?_, ?_, hrest⟩
      · rw [byteSize, ← Nat.add_assoc]
        exact hstop
      · rw [tokens_blank hc]
        exact htext
    | case3 c cs pos hc ih =>
      obtain ⟨rfl, hafter⟩ := List.cons.inj h
      rw [List.forall_mem_cons] at hts
      -- what is behind the first token may be nothing, and then there is no more to be cut
      have hcut : ∃ text rest, cs.drop (Lexeme.of c cs).more = text ++ rest ∧
          (token pos c cs).span.stop + byteSize text = stopAfter (token pos c cs).span.stop ts ∧
          (Scanner.mk text (token pos c cs).span.stop).tokens
            = ts ++ [.endAt (stopAfter (token pos c cs).span.stop ts)] ∧
          (Scanner.mk rest (stopAfter (token pos c cs).span.stop ts)).tokens = us := by
        cases ts with
        | nil => exact ⟨[], _, rfl, rfl, by rw [Scanner.tokens]; rfl, hafter⟩
        | cons u ts => exact ih u ts hafter hts.2
      obtain ⟨text, rest, hcs, hstop, htext, hrest⟩ := hcut
      refine ⟨c :: cs.take (Lexeme.of c cs).more ++ text, rest, ?_, ?_, ?_, hrest⟩
      · rw [List.append_assoc, ← hcs, List.cons_append, List.take_append_drop]
      · rw [byteSize_append, ← Nat.add_assoc]
        exact hstop
      · rw [tokens_cut (Bool.eq_false_iff.mpr hc) hcs, htext]
        rfl

end Scanner

/-! ## Slices of a text -/

/-- The slice of a text at a span. -/
def Span.slice (s : Span) (source : String) : String :=
  String.Pos.Raw.extract source ⟨s.start⟩ ⟨s.stop⟩

/-- The span is one at which a text can be sliced. -/
structure Span.Legal (s : Span) (source : String) : Prop where
  start : String.Pos.Raw.IsValid source ⟨s.start⟩
  stop : String.Pos.Raw.IsValid source ⟨s.stop⟩
  le : s.start ≤ s.stop

/-- What has been moved up can be moved back. -/
theorem Token.relocate_sub_add (n : Nat) (ts : List Token) :
    (ts.map (Token.relocate (· + n))).map (Token.relocate (· - n)) = ts := by
  rw [List.map_map]
  refine (List.map_congr_left fun t _ => ?_).trans (List.map_id ts)
  simp [Token.relocate, Span.relocate]

/-- **Some tokens in a row are the tokens of their slice,** up to where the slice stands. -/
theorem tokenize_slice {source : String} {front mid back : List Token} {t : Token}
    (h : tokenize source = front ++ (t :: mid) ++ back)
    (hend : ∀ u ∈ front ++ (t :: mid), u.kind ≠ .endOfInput) {s : Span}
    (hs : s = ⟨t.span.start, stopAfter t.span.stop mid⟩) :
    s.Legal source ∧ tokenize (s.slice source)
      = (t :: mid ++ [Token.endAt s.stop]).map (Token.relocate (· - s.start)) := by
  subst hs
  rw [List.forall_mem_append] at hend
  -- cut behind the tokens in front, pass over the gap, and cut behind the tokens of the slice
  rw [tokenize, List.append_assoc] at h
  obtain ⟨before, rest, hsource, hstop, -, hrest⟩ := Scanner.tokens_split _ h hend.1
  obtain ⟨gap, rest', hgap, hstart, hrest'⟩ :=
    (Scanner.mk rest _).tokens_gap hrest (hend.2 t List.mem_cons_self)
  obtain ⟨text, after, htext, hstop', htokens, -⟩ := Scanner.tokens_split _ hrest' hend.2
  dsimp only [Scanner.ofString] at hsource hstop hgap hstart htext hstop' htokens
  rw [Nat.zero_add] at hstop
  have hwhole : source.toList = (before ++ gap) ++ text ++ after := by
    rw [hsource, hgap, htext, List.append_assoc, List.append_assoc]
  have hlow : t.span.start = byteSize (before ++ gap) := by
    rw [hstart, byteSize_append, hstop]
  have hhigh : stopAfter t.span.stop mid = byteSize (before ++ gap) + byteSize text := by
    rw [← hlow]
    exact hstop'.symm
  have hslice : Span.slice ⟨t.span.start, stopAfter t.span.stop mid⟩ source = String.ofList text := by
    rw [Span.slice, hlow, hhigh, extract_byteSize hwhole]
  refine ⟨⟨?_, ?_, ?_⟩, ?_⟩
  · rw [hlow]
    exact isValid_byteSize (by rw [hwhole, List.append_assoc])
  · rw [hhigh, ← byteSize_append]
    exact isValid_byteSize hwhole
  · show t.span.start ≤ stopAfter t.span.stop mid
    omega
  · have hmoved := (Scanner.ofString (String.ofList text)).tokens_add t.span.start
    rw [Scanner.ofString, String.toList_ofList, Nat.zero_add, htokens] at hmoved
    rw [hslice, ← Token.relocate_sub_add t.span.start (tokenize _), tokenize, Scanner.ofString,
      String.toList_ofList, ← hmoved]
    rfl

end CornerPoint.Source
