import Mathlib.Data.String.Basic
import CornerPoint.Source.Scanner

/-!
# Nothing is lost between the source text and its tokens

The scanner walks over the characters once and keeps its own count of the bytes behind it.
`Tiles pos cs ts` says that this goes well from the offset `pos` on: the characters `cs` are
the texts of the tokens `ts` in order, with blanks in front of each, and every span is where its
text stands. `tiles_tokens` is the run, and everything that is said of all tokens is read off the
tiling by one induction each.

> `tokenize_lossless`: the end token is last and unique; every other token is a non-empty slice
> of the source between character boundaries; spans do not overlap and leave only blanks
> uncovered; and the source is its gaps and texts put together in order.
-/

namespace CornerPoint.Source

/-! ## Bytes -/

/-- Offsets count bytes as the library does. -/
theorem byteSize_eq_utf8Len (cs : List Char) : byteSize cs = String.utf8Len cs := by
  induction cs with
  | nil => rfl
  | cons c cs ih => rw [byteSize, String.utf8Len_cons, ih, Nat.add_comm]

@[simp] theorem byteSize_append (cs ds : List Char) :
    byteSize (cs ++ ds) = byteSize cs + byteSize ds := by
  simp only [byteSize_eq_utf8Len, String.utf8Len_append]

theorem byteSize_toList (s : String) : byteSize s.toList = s.utf8ByteSize := by
  rw [byteSize_eq_utf8Len, ← String.utf8ByteSize_ofList, String.ofList_toList]

/-- A character has at least one byte. -/
theorem byteSize_pos {cs : List Char} (h : cs ≠ []) : 0 < byteSize cs := by
  cases cs with
  | nil => exact absurd rfl h
  | cons c cs =>
    have hc := c.utf8Size_pos
    rw [byteSize]
    omega

/-- An offset behind whole characters is a character boundary. -/
theorem isValid_byteSize {s : String} {before after : List Char}
    (h : s.toList = before ++ after) : String.Pos.Raw.IsValid s ⟨byteSize before⟩ := by
  refine String.Pos.Raw.isValid_iff_exists_append.mpr
    ⟨String.ofList before, String.ofList after, ?_, ?_⟩
  · rw [← String.ofList_append, ← h, String.ofList_toList]
  · rw [byteSize_eq_utf8Len, ← String.utf8ByteSize_ofList]
    rfl

/-- The slice between two such offsets is what stands between them. -/
theorem extract_byteSize {s : String} {before text after : List Char}
    (h : s.toList = before ++ text ++ after) :
    String.Pos.Raw.extract s ⟨byteSize before⟩ ⟨byteSize before + byteSize text⟩
      = String.ofList text := by
  rw [byteSize_eq_utf8Len, byteSize_eq_utf8Len, ← String.extract_of_valid before text after, ← h,
    String.ofList_toList]

/-! ## Tilings -/

/-- Only spaces, tabs and carriage returns. -/
def IsGap (g : List Char) : Prop := ∀ c ∈ g, isBlank c = true

/-- `Tiles pos cs ts`: the characters `cs`, the first of which stands at `pos`, are gaps and
the texts of the tokens `ts` in turn; the last token is the end. -/
inductive Tiles : Nat → List Char → List Token → Prop
  | done {pos g} : IsGap g → Tiles pos g [.endAt (pos + byteSize g)]
  | token {pos g text rest kind ts} : IsGap g → text ≠ [] → kind ≠ .endOfInput →
      Tiles (pos + byteSize g + byteSize text) rest ts →
      Tiles pos (g ++ text ++ rest)
        (⟨kind, ⟨pos + byteSize g, pos + byteSize g + byteSize text⟩, String.ofList text⟩ :: ts)

/-- A blank in front belongs to the first gap. -/
theorem Tiles.blank {pos : Nat} {c : Char} {cs : List Char} {ts : List Token}
    (hc : isBlank c = true) (h : Tiles (pos + c.utf8Size) cs ts) : Tiles pos (c :: cs) ts := by
  have hgap : ∀ {g}, IsGap g → IsGap (c :: g) := fun hg => List.forall_mem_cons.mpr ⟨hc, hg⟩
  cases h with
  | done hg =>
    have hdone : Tiles pos (c :: cs) [.endAt (pos + byteSize (c :: cs))] := .done (hgap hg)
    rwa [byteSize, ← Nat.add_assoc] at hdone
  | @token _ g text rest kind ts hg htext hkind hrest =>
    have hsize : pos + byteSize (c :: g) = pos + c.utf8Size + byteSize g := by
      rw [byteSize, Nat.add_assoc]
    rw [← hsize] at hrest ⊢
    exact .token (hgap hg) htext hkind hrest

/-- No character starts an end token. -/
theorem Lexeme.of_kind_ne_end (c : Char) (cs : List Char) :
    (Lexeme.of c cs).kind ≠ .endOfInput := by
  have hname : ∀ cs, nameKind cs ≠ .endOfInput := fun cs => by
    unfold nameKind
    split <;> simp
  have hrelation : ∀ {alone withEq}, alone ≠ .endOfInput → withEq ≠ .endOfInput →
      (relation alone withEq cs).kind ≠ .endOfInput := fun h h' => by
    unfold relation
    split
    · exact h'
    · exact h
  unfold Lexeme.of
  split
  case h_2 =>
    unfold slash
    split <;> simp
  case h_7 => exact hrelation (by simp) (by simp)
  case h_8 => exact hrelation (by simp) (by simp)
  case h_9 => exact hrelation (by simp) (by simp)
  -- a number, a word, or a character that means nothing
  case h_18 =>
    unfold word
    split
    · simp
    · split
      · exact hname _
      · simp
  all_goals simp

/-- **The scanner tiles.** Wherever it stands, its tokens tile the characters in front of
it. -/
theorem tiles_tokens (s : Scanner) : Tiles s.pos s.rest s.tokens := by
  fun_induction Scanner.tokens s with
  | case1 pos => exact .done (g := []) (fun _ h => absurd h List.not_mem_nil)
  | case2 c cs pos hc ih => exact ih.blank hc
  | case3 c cs pos hc ih =>
    have hgap : IsGap [] := fun _ h => absurd h List.not_mem_nil
    have htoken := Tiles.token hgap (List.cons_ne_nil c (cs.take (Lexeme.of c cs).more))
      (Lexeme.of_kind_ne_end c cs) ih
    rwa [List.nil_append, List.cons_append, Scanner.after, List.take_append_drop] at htoken

section Tiling

variable {pos : Nat} {cs : List Char} {ts : List Token}

/-- The end token is the last one and no other. -/
theorem Tiles.ends (h : Tiles pos cs ts) : ∃ front,
    ts = front ++ [.endAt (pos + byteSize cs)] ∧ ∀ t ∈ front, t.kind ≠ .endOfInput := by
  induction h with
  | done => exact ⟨[], rfl, by simp⟩
  | @token pos g text rest kind ts _ _ hkind _ ih =>
    obtain ⟨front, rfl, hfront⟩ := ih
    refine ⟨⟨kind, ⟨pos + byteSize g, pos + byteSize g + byteSize text⟩, String.ofList text⟩
      :: front, ?_, List.forall_mem_cons.mpr ⟨hkind, hfront⟩⟩
    simp only [byteSize_append, List.cons_append, Nat.add_assoc]

/-- Every token stands where its span says. Only the end is empty. -/
theorem Tiles.slice (h : Tiles pos cs ts) : ∀ t ∈ ts, ∃ before text after,
    cs = before ++ text ++ after ∧ t.text = String.ofList text ∧
      t.span = ⟨pos + byteSize before, pos + byteSize before + byteSize text⟩ ∧
      (t.kind ≠ .endOfInput → text ≠ []) := by
  induction h with
  | @done pos g _ =>
    intro t ht
    rw [List.mem_singleton.mp ht]
    exact ⟨g, [], [], by simp, rfl, rfl, fun hk => absurd rfl hk⟩
  | @token pos g text rest kind ts _ htext _ _ ih =>
    intro t ht
    rcases List.mem_cons.mp ht with rfl | ht
    · exact ⟨g, text, rest, rfl, rfl, rfl, fun _ => htext⟩
    · obtain ⟨before, text', after, rfl, htext', hspan, hne⟩ := ih t ht
      refine ⟨g ++ text ++ before, text', after, by simp, htext', ?_, hne⟩
      rw [hspan]
      simp only [byteSize_append, Nat.add_assoc]

/-- Spans come one behind the other. -/
theorem Tiles.ordered (h : Tiles pos cs ts) :
    ts.Pairwise fun t u => t.span.stop ≤ u.span.start := by
  induction h with
  | done => exact List.pairwise_singleton _ _
  | @token pos g text rest kind ts _ _ _ hrest ih =>
    refine List.pairwise_cons.mpr ⟨fun u hu => ?_, ih⟩
    obtain ⟨before, _, _, _, _, hspan, _⟩ := hrest.slice u hu
    rw [hspan]
    exact Nat.le_add_right _ _

/-- A character of two lists in a row stands in the first or behind it. -/
theorem split_append {xs ys before after : List Char} {c : Char}
    (h : xs ++ ys = before ++ c :: after) :
    (∃ mid, xs = before ++ c :: mid) ∨ ∃ mid, before = xs ++ mid ∧ ys = mid ++ c :: after := by
  rcases List.append_eq_append_iff.mp h with ⟨mid, hbefore, hys⟩ | ⟨mid, hxs, hmid⟩
  · exact .inr ⟨mid, hbefore, hys⟩
  · cases mid with
    | nil => exact .inr ⟨[], by simpa using hxs.symm, hmid.symm⟩
    | cons d mid =>
      obtain ⟨rfl, -⟩ := List.cons.inj hmid
      exact .inl ⟨mid, hxs⟩

/-- A character that is no blank belongs to a token. -/
theorem Tiles.covers (h : Tiles pos cs ts) {before after : List Char} {c : Char}
    (hc : cs = before ++ c :: after) (hblank : isBlank c = false) :
    ∃ t ∈ ts, t.span.start ≤ pos + byteSize before
      ∧ pos + byteSize before + c.utf8Size ≤ t.span.stop := by
  have hgap : ∀ {g before mid}, IsGap g → g ≠ before ++ c :: mid := fun hg heq => by
    rw [hg c (by simp [heq])] at hblank
    exact Bool.noConfusion hblank
  -- the character stands in the gap, in the text behind it, or further on
  induction h generalizing before with
  | done hg => exact absurd hc (hgap hg)
  | @token pos g text rest kind ts hg _ _ _ ih =>
    rcases split_append hc with ⟨mid, hfront⟩ | ⟨mid, rfl, hrest⟩
    · rcases split_append hfront with ⟨_, hg'⟩ | ⟨mid', rfl, rfl⟩
      · exact absurd hg' (hgap hg)
      · refine ⟨_, List.mem_cons_self, ?_, ?_⟩ <;>
          simp only [byteSize_append, byteSize] <;> omega
    · obtain ⟨t, ht, hstart, hstop⟩ := ih hrest
      refine ⟨t, List.mem_cons_of_mem _ ht, ?_, ?_⟩ <;> simp only [byteSize_append] <;> omega

/-- The characters are the gaps and the texts in turn. -/
theorem Tiles.whole (h : Tiles pos cs ts) : ∃ gaps : List (List Char),
    gaps.length = ts.length ∧ (∀ g ∈ gaps, IsGap g) ∧
      cs = (List.zipWith (fun g t => g ++ t.text.toList) gaps ts).flatten := by
  induction h with
  | @done pos g hg => exact ⟨[g], rfl, by simpa using hg, by simp [Token.endAt]⟩
  | @token pos g text rest kind ts hg _ _ _ ih =>
    obtain ⟨gaps, hlength, hgaps, rfl⟩ := ih
    exact ⟨g :: gaps, by simp [hlength], List.forall_mem_cons.mpr ⟨hg, hgaps⟩, by simp⟩

end Tiling

/-! ## The end again and again -/

theorem Scanner.take_blank {c : Char} (hc : isBlank c = true) (cs : List Char) (pos n : Nat) :
    Scanner.take n ⟨c :: cs, pos⟩ = Scanner.take n ⟨cs, pos + c.utf8Size⟩ := by
  cases n with
  | zero => rfl
  | succ n => rw [take, take, next, if_pos hc]

theorem Scanner.take_end (pos k : Nat) :
    Scanner.take k ⟨[], pos⟩ = List.replicate k (Token.endAt pos) := by
  induction k with
  | zero => rfl
  | succ k ih => rw [take, next, ih, List.replicate_succ]

/-- The end of the text does not move when a token is cut off. -/
theorem Scanner.after_stop (pos : Nat) (c : Char) (cs : List Char) :
    (after pos c cs).pos + byteSize (after pos c cs).rest = pos + byteSize (c :: cs) := by
  rw [after, token, Nat.add_assoc, ← byteSize_append, List.cons_append, List.take_append_drop]

/-- A scanner that is asked for more tokens than there are repeats the end. -/
theorem Scanner.take_tokens (s : Scanner) (k : Nat) :
    s.take (s.tokens.length + k)
      = s.tokens ++ List.replicate k (Token.endAt (s.pos + byteSize s.rest)) := by
  fun_induction Scanner.tokens s with
  | case1 pos =>
    rw [List.length_singleton, Nat.add_comm, take_end, List.replicate_succ]
    rfl
  | case2 c cs pos hc ih =>
    rw [take_blank hc, ih, byteSize, Nat.add_assoc]
  | case3 c cs pos hc ih =>
    rw [List.length_cons, Nat.add_right_comm, take, next, if_neg hc, ih, after_stop,
      List.cons_append]

/-! ## The source text -/

/-- What it means that the tokens `ts` cut the text `source` without loss. -/
structure Lossless (source : String) (ts : List Token) : Prop where
  /-- The end token is the last one and no other: empty, at the end of the text. -/
  ends : ∃ front, ts = front ++ [⟨.endOfInput, ⟨source.utf8ByteSize, source.utf8ByteSize⟩, ""⟩]
    ∧ ∀ t ∈ front, t.kind ≠ .endOfInput
  /-- Every other token takes up at least one byte. -/
  nonempty : ∀ t ∈ ts, t.kind ≠ .endOfInput → t.span.start < t.span.stop
  /-- Spans end at character boundaries. -/
  boundary : ∀ t ∈ ts, String.Pos.Raw.IsValid source ⟨t.span.start⟩
    ∧ String.Pos.Raw.IsValid source ⟨t.span.stop⟩
  /-- The text of a token is what its span cuts out of the source. -/
  slice : ∀ t ∈ ts, String.Pos.Raw.extract source ⟨t.span.start⟩ ⟨t.span.stop⟩ = t.text
  /-- Spans come in order and do not overlap. -/
  ordered : ts.Pairwise fun t u => t.span.stop ≤ u.span.start
  /-- A character outside all spans is a blank. -/
  covered : ∀ before c after, source = before ++ String.singleton c ++ after →
    isBlank c = true ∨ ∃ t ∈ ts, t.span.start ≤ before.utf8ByteSize
      ∧ before.utf8ByteSize + c.utf8Size ≤ t.span.stop
  /-- Gaps of blanks and the texts of the tokens in turn are the whole source. -/
  whole : ∃ gaps : List String, gaps.length = ts.length
    ∧ (∀ g ∈ gaps, ∀ c ∈ g.toList, isBlank c = true)
    ∧ source = String.join (List.zipWith (fun g t => g ++ t.text) gaps ts)

/-- A tiling of a whole text loses nothing. -/
theorem Tiles.lossless {source : String} {ts : List Token} (h : Tiles 0 source.toList ts) :
    Lossless source ts where
  ends := by
    have hends := h.ends
    rwa [Nat.zero_add, byteSize_toList] at hends
  nonempty t ht hk := by
    obtain ⟨before, text, after, _, _, hspan, hne⟩ := h.slice t ht
    rw [hspan]
    exact Nat.lt_add_of_pos_right (byteSize_pos (hne hk))
  boundary t ht := by
    obtain ⟨before, text, after, hsource, _, hspan, _⟩ := h.slice t ht
    rw [hspan, Nat.zero_add, ← byteSize_append]
    exact ⟨isValid_byteSize (by rw [hsource, List.append_assoc]), isValid_byteSize hsource⟩
  slice t ht := by
    obtain ⟨before, text, after, hsource, htext, hspan, _⟩ := h.slice t ht
    rw [hspan, htext, Nat.zero_add, extract_byteSize hsource]
  ordered := h.ordered
  -- a character that no token covers is a blank
  covered before c after hsource := by
    cases hblank : isBlank c with
    | true => exact .inl rfl
    | false =>
      have hlist : source.toList = before.toList ++ c :: after.toList := by simp [hsource]
      have hcovers := h.covers hlist hblank
      rw [Nat.zero_add, byteSize_toList] at hcovers
      exact .inr hcovers
  whole := by
    obtain ⟨gaps, hlength, hgaps, hsource⟩ := h.whole
    refine ⟨gaps.map String.ofList, by simpa using hlength,
      by simpa [IsGap] using hgaps, ?_⟩
    rw [← String.toList_inj, hsource, String.toList_join, List.flatMap, List.map_zipWith,
      List.zipWith_map_left]
    simp

/-- The end token is the last one of a text and no other. -/
theorem tokenize_ends (source : String) : ∃ front,
    tokenize source = front ++ [.endAt source.utf8ByteSize] ∧
      ∀ t ∈ front, t.kind ≠ .endOfInput :=
  (tiles_tokens (.ofString source)).lossless.ends

/-- **Tokenizing is lossless**, and a scanner at the end of the text hands out the same end
token again and again. -/
theorem tokenize_lossless (source : String) : Lossless source (tokenize source) ∧
    ∀ k, (Scanner.ofString source).take ((tokenize source).length + k)
      = tokenize source ++ List.replicate k (Token.endAt source.utf8ByteSize) := by
  refine ⟨(tiles_tokens (Scanner.ofString source)).lossless, fun k => ?_⟩
  rw [tokenize, Scanner.take_tokens, Scanner.ofString, Nat.zero_add, byteSize_toList]

end CornerPoint.Source
