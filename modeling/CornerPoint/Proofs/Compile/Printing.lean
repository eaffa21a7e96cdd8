import Mathlib
import CornerPoint.Proofs.Compile.WellFormed
import CornerPoint.Proofs.Source.Accepted
import CornerPoint.Proofs.Source.Cutting

/-!
# Programs that are printed can be compiled again

Objectives and rows are printed with a coefficient in front of each variable, whether it is zero
or one, and with the sign of the second coefficient in front of its magnitude. Printed text is
source text: put where it belongs, it is compiled to what it was printed from.

> `cuts_form`: a printed form is read as an expression that is lowered to that form. A minus that
> is printed with a number, or between the terms, is undone when the expression is lowered.
> `compile_printed`: so printed objectives and rows come back as they were.

Numbers are exact here (`Reading`), and they are printed as numerals, perhaps with a sign, that
denote them (`Shown`).
-/

namespace CornerPoint

/-- The numbers are read as exact rational numbers. -/
structure Reading {K : Type} [Scalar K] (value : K → ℚ) : Prop where
  injective : Function.Injective value
  zero : value 0 = 0
  one : value 1 = 1
  add : ∀ k l, value (k + l) = value k + value l
  sub : ∀ k l, value (k - l) = value k - value l
  mul : ∀ k l, value (k * l) = value k * value l
  neg : ∀ k, value (-k) = -value k
  abs : ∀ k, value (Scalar.abs k) = |value k|
  lt : ∀ k l, k < l ↔ value k < value l
  beq : ∀ k l : K, (k == l) = true ↔ k = l
  isFinite : ∀ k : K, Scalar.isFinite k = true

/-- The numbers that the texts of the objective and the rows show. -/
def LinearProgram.printed {K : Type} [Scalar K] (lp : LinearProgram K) : List K :=
  [lp.objective.a, Scalar.abs lp.objective.b]
    ++ lp.constraints.flatMap fun c => [c.a, Scalar.abs c.b, c.rhs]

namespace Compile

open Source

variable {K : Type} [Scalar K]

/-- The number is printed as a numeral that denotes it, or as a minus and a numeral that denotes
its negation. -/
inductive Shown (n : K) : Prop
  | numeral (h : Legible n)
  | minus {m : K} (h : Legible m) (htext : Scalar.text n = "-" ++ Scalar.text m) (hn : n = -m)

/-! ## Forms of expressions, read exactly -/

/-- The form with its numbers read as rational numbers. -/
def Linear.read (value : K → ℚ) (l : Linear K) : Linear ℚ := ⟨value l.a, value l.b, value l.c⟩

/-- The expression has a linear form, which is read as `m`. -/
def Lowers (value : K → ℚ) (v : Variables) (e : Expr K) (m : Linear ℚ) : Prop :=
  ∃ l, lower v e = .ok l ∧ l.read value = m

section Lowering

variable {value : K → ℚ} {v : Variables} {e e' : Expr K} {m m' : Linear ℚ}

theorem read_constant (hv : Reading value) (k : K) :
    (Linear.constant k).read value = .constant (value k) := by
  simp only [Linear.read, Linear.constant, hv.zero]

/-- Reading a form and scaling it can be done in either order. -/
theorem read_scale (hv : Reading value) (l : Linear K) (k : K) :
    (l.scale k).read value = (l.read value).scale (value k) := by
  simp only [Linear.read, Linear.scale, hv.mul]

theorem read_negate (hv : Reading value) (l : Linear K) :
    (l.scale (-1)).read value = (l.read value).scale (-1) := by
  rw [read_scale hv, hv.neg, hv.one]

theorem read_add (hv : Reading value) (l r : Linear K) :
    (l.add r).read value = (l.read value).add (r.read value) := by
  simp only [Linear.read, Linear.add, hv.add]

theorem read_sub (hv : Reading value) (l r : Linear K) :
    (l.sub r).read value = (l.read value).sub (r.read value) := by
  rw [Linear.sub, read_add hv, read_negate hv, Linear.sub]

theorem lowers_number (hv : Reading value) (k : K) :
    Lowers value v (.number k) (.constant (value k)) := ⟨_, rfl, read_constant hv k⟩

theorem lowers_x (hv : Reading value) (span : Span) : Lowers value v (.var span v.x) .x := by
  refine ⟨.x, by rw [lower, if_pos rfl], ?_⟩
  simp only [Linear.read, Linear.x, hv.zero, hv.one]

theorem lowers_y (hv : Reading value) (hne : v.x ≠ v.y) (span : Span) :
    Lowers value v (.var span v.y) .y := by
  refine ⟨.y, by rw [lower, if_neg hne.symm, if_pos rfl], ?_⟩
  simp only [Linear.read, Linear.y, hv.zero, hv.one]

theorem lowers_neg (hv : Reading value) (h : Lowers value v e m) :
    Lowers value v (.neg e) (m.scale (-1)) := by
  obtain ⟨l, hl, rfl⟩ := h
  exact ⟨l.scale (-1), by simp only [lower, hl], read_negate hv l⟩

/-- A number in front of an expression is a factor. -/
theorem lowers_times (hv : Reading value) (h : Lowers value v e m) (k : K) :
    Lowers value v (.binary (.number k) .mul e) (m.scale (value k)) := by
  obtain ⟨l, hl, rfl⟩ := h
  have hconstant : (Linear.constant k).isConstant = true := by
    rw [Linear.isConstant, Bool.and_eq_true]
    exact ⟨(hv.beq _ _).mpr rfl, (hv.beq _ _).mpr rfl⟩
  refine ⟨l.scale k, ?_, read_scale hv l k⟩
  simp only [lower, hl, hconstant, if_pos]
  rfl

/-- A sum is lowered to the sum of the two forms. -/
theorem lowers_add (hv : Reading value) (h : Lowers value v e m) (h' : Lowers value v e' m') :
    Lowers value v (.binary e .add e') (m.add m') := by
  obtain ⟨l, hl, rfl⟩ := h
  obtain ⟨r, hr, rfl⟩ := h'
  exact ⟨l.add r, by simp only [lower, hl, hr], read_add hv l r⟩

theorem lowers_sub (hv : Reading value) (h : Lowers value v e m) (h' : Lowers value v e' m') :
    Lowers value v (.binary e .sub e') (m.sub m') := by
  obtain ⟨l, hl, rfl⟩ := h
  obtain ⟨r, hr, rfl⟩ := h'
  exact ⟨l.sub r, by simp only [lower, hl, hr], read_sub hv l r⟩

end Lowering

/-! ## Printed numbers and terms -/

section Terms

variable {value : K → ℚ} {v : Variables} {n : K} {name tail rest : List Char}

/-- The tokens are an expression that is lowered to `m`. -/
def Means (value : K → ℚ) (v : Variables) (level : Level) (m : Linear ℚ) : List Token → Prop :=
  Makes (Derives level false) fun e => Lowers value v e m

theorem lexes_minus (rest : List Char) : Lexes .minus ['-'] rest := ⟨_, _, rfl, rfl, rfl⟩

/-- What is right for legible numbers in front of some text is right for all numbers that are
shown, since the minus of the others scales the form by minus one. -/
theorem cuts_signed (hv : Reading value) {form : ℚ → Linear ℚ}
    (hform : ∀ q, (form q).scale (-1) = form (-q))
    (h : ∀ k, Legible k → Cuts K (Means value v .operand (form (value k)))
      ((Scalar.text k).toList ++ tail) rest) (hn : Shown n) :
    Cuts K (Means value v .operand (form (value n))) ((Scalar.text n).toList ++ tail) rest := by
  cases hn with
  | numeral hn => exact h n hn
  | @minus k hk htext hn =>
    have hminus : (Scalar.text n).toList ++ tail = ['-'] ++ ((Scalar.text k).toList ++ tail) := by
      rw [htext]
      simp
    rw [hminus]
    refine (Cuts.starts (lexes_minus _) (by decide) (h k hk)).imp fun ts hts => ?_
    obtain ⟨t, us, rfl, ht, _, e, he, hlowers⟩ := hts
    refine ⟨.neg e, .minus ht (.operand (g := []) .nil he), ?_⟩
    rw [hn, hv.neg, ← hform]
    exact lowers_neg hv hlowers

/-- A number is read as a constant form. -/
theorem cuts_number (hv : Reading value) (hn : Shown n) (hrest : Delimited rest) :
    Cuts K (Means value v .operand (.constant (value n))) (Scalar.text n).toList rest := by
  have hform : ∀ q : ℚ, (Linear.constant q).scale (-1) = .constant (-q) := fun q => by
    simp only [Linear.scale, Linear.constant]
    ext <;> ring
  have hlegible : ∀ k, Legible k → Cuts K (Means value v .operand (.constant (value k)))
      ((Scalar.text k).toList ++ []) rest := fun k hk => by
    rw [List.append_nil]
    refine (Cuts.numeral hk hrest.endsNumeral).imp fun ts hts => ?_
    obtain ⟨t, rfl, ht, hread⟩ := hts
    exact ⟨_, .number ht, Token.number_eq hread ▸ lowers_number hv _⟩
  have hsigned := cuts_signed hv hform hlegible hn
  rwa [List.append_nil] at hsigned

/-- A number in front of a name is read as a product. -/
theorem cuts_term (hv : Reading value) {m : Linear ℚ} (hn : Shown n) (hname : IsName name)
    (hexponent : ¬BeginsExponent name)
    (hm : ∀ span, Lowers value v (.var span (String.ofList name) : Expr K) m)
    (hrest : Delimited rest) :
    Cuts K (Means value v .operand (m.scale (value n))) ((Scalar.text n).toList ++ name) rest := by
  have hform : ∀ q : ℚ, (m.scale q).scale (-1) = m.scale (-q) := fun q => by
    simp only [Linear.scale]
    ext <;> ring
  refine cuts_signed hv hform (fun k hk => ?_) hn
  have hnumeral := Cuts.numeral hk (endsNumeral_name hname.1 hexponent hrest)
  have htoken := Cuts.token (K := K) (lexes_name hname hrest.endsName) (by decide)
  refine hnumeral.append htoken fun us vs hus hvs => ?_
  obtain ⟨t, rfl, ht, hread⟩ := hus
  obtain ⟨u, _, rfl, hu, htext, rfl⟩ := hvs
  refine ⟨_, .numberName ht hu, ?_⟩
  rw [Token.number_eq hread, htext]
  exact lowers_times hv (hm u.span) k

/-- Two terms with an operator between them. -/
theorem cuts_sum {text text' sign : List Char} {kind : Token.Kind} {op : Operator}
    {m m' : Linear ℚ}
    (h : Cuts K (Means value v .operand m) text (' ' :: (sign ++ ' ' :: text') ++ rest))
    (hsign : Lexes kind sign (' ' :: text' ++ rest)) (hk : kind ≠ .number)
    (hop : kind.additive? = some op) (h' : Cuts K (Means value v .operand m') text' rest) :
    Cuts K (Makes (Derives .sum false) fun e => ∃ l r, e = .binary l op r ∧
      Lowers value v l m ∧ Lowers value v r m') (text ++ ' ' :: (sign ++ ' ' :: text')) rest := by
  refine h.append (Cuts.starts hsign hk h'.space).space fun us vs hus hvs => ?_
  obtain ⟨l, hl, hlowers⟩ := hus
  obtain ⟨t, vs, rfl, rfl, _, r, hr, hlowers'⟩ := hvs
  have hsum := Derives.additive (g := []) hl.sum .nil hop
    (.factor (.operand (g := []) .nil hr))
  rw [List.append_nil] at hsum
  exact ⟨_, hsum, l, r, rfl, hlowers, hlowers'⟩

end Terms

/-! ## Printed forms -/

section Forms

variable {value : K → ℚ} {v : Variables} {rest : List Char}

/-- The variables are two different names, neither of which begins like an exponent. -/
structure Variables.Printable (v : Variables) : Prop where
  x : IsName v.x.toList
  y : IsName v.y.toList
  ne : v.x ≠ v.y
  exponent_x : ¬BeginsExponent v.x.toList
  exponent_y : ¬BeginsExponent v.y.toList

/-- The sign between the terms is one token, and adding or subtracting the magnitude of the
second coefficient is adding the coefficient. -/
theorem exists_sign (hv : Reading value) (v : Variables) (a b : K) :
    ∃ (sign : List Char) (kind : Token.Kind) (op : Operator),
      (v.form a b).toList = ((Scalar.text a).toList ++ v.x.toList) ++
        ' ' :: (sign ++ ' ' :: ((Scalar.text (Scalar.abs b)).toList ++ v.y.toList)) ∧
      (∀ rest, Lexes kind sign rest) ∧ kind ≠ .number ∧ kind.additive? = some op ∧
      ∀ l r : Expr K, Lowers value v l (Linear.x.scale (value a)) →
        Lowers value v r (Linear.y.scale |value b|) →
          Lowers value v (.binary l op r) ⟨value a, value b, 0⟩ := by
  -- the sign that is printed is the sign of the coefficient
  by_cases hneg : b < 0
  · have hvalue : value b < 0 := by rwa [hv.lt, hv.zero] at hneg
    refine ⟨['-'], .minus, .sub, by simp [Variables.form, hneg], lexes_minus, by decide, rfl,
      fun l r hl hr => ?_⟩
    have hform : (Linear.x.scale (value a)).sub (Linear.y.scale |value b|)
        = ⟨value a, value b, 0⟩ := by
      rw [abs_of_neg hvalue]
      simp only [Linear.sub, Linear.add, Linear.scale, Linear.x, Linear.y]
      ext <;> ring
    rw [← hform]
    exact lowers_sub hv hl hr
  · have hvalue : 0 ≤ value b := by rwa [hv.lt, hv.zero, not_lt] at hneg
    refine ⟨['+'], .plus, .add, by simp [Variables.form, hneg], fun _ => ⟨_, _, rfl, rfl, rfl⟩,
      by decide, rfl, fun l r hl hr => ?_⟩
    have hform : (Linear.x.scale (value a)).add (Linear.y.scale |value b|)
        = ⟨value a, value b, 0⟩ := by
      rw [abs_of_nonneg hvalue]
      simp only [Linear.add, Linear.scale, Linear.x, Linear.y]
      ext <;> ring
    rw [← hform]
    exact lowers_add hv hl hr

/-- **A printed form is read as an expression that is lowered to it.** -/
theorem cuts_form (hv : Reading value) (hvars : Variables.Printable v) {a b : K} (ha : Shown a)
    (hb : Shown (Scalar.abs b)) (hrest : Delimited rest) :
    Cuts K (Means value v .sum ⟨value a, value b, 0⟩) (v.form a b).toList rest := by
  obtain ⟨sign, kind, op, htext, hsign, hk, hop, hlowers⟩ := exists_sign hv v a b
  have hx : ∀ rest, Delimited rest → Cuts K (Means value v .operand (Linear.x.scale (value a)))
      ((Scalar.text a).toList ++ v.x.toList) rest := fun rest hrest =>
    cuts_term hv ha hvars.x hvars.exponent_x
      (fun span => by rw [String.ofList_toList]; exact lowers_x hv span) hrest
  have hy := cuts_term (m := .y) hv hb hvars.y hvars.exponent_y
    (fun span => by rw [String.ofList_toList]; exact lowers_y hv hvars.ne span) hrest
  rw [hv.abs] at hy
  rw [htext]
  refine (cuts_sum (hx _ (delimited_space _)) (hsign _) hk hop hy).imp fun ts hts => ?_
  obtain ⟨_, he, l, r, rfl, hl, hr⟩ := hts
  exact ⟨_, he, hlowers l r hl hr⟩

/-- The line says what the objective says. -/
def ObjectiveStates (value : K → ℚ) (v : Variables) (o : Objective K) (line : ObjectiveLine K) :
    Prop :=
  line.sense = o.sense ∧ Lowers value v line.expr ⟨value o.a, value o.b, 0⟩

/-- The line has no label and says what the row says. -/
def RowStates (value : K → ℚ) (v : Variables) (c : Constraint K) (line : ConstraintLine K) :
    Prop :=
  line.label = none ∧ line.relation = c.relation ∧
    Lowers value v line.lhs ⟨value c.a, value c.b, 0⟩ ∧
    Lowers value v line.rhs (.constant (value c.rhs))

/-- The word of a sense is lexed to the token that says it. -/
theorem exists_sense_kind (sense : Sense) : ∃ kind : Token.Kind, kind.sense? = some sense ∧
    kind ≠ .number ∧ ∀ rest, Lexes kind sense.word.toList (' ' :: rest) := by
  cases sense with
  | maximize => exact ⟨.maximize, rfl, by decide, fun _ => ⟨_, _, rfl, rfl, rfl⟩⟩
  | minimize => exact ⟨.minimize, rfl, by decide, fun _ => ⟨_, _, rfl, rfl, rfl⟩⟩

/-- The symbol of a relation is lexed to the token that says it. -/
theorem exists_relation_kind (relation : Relation) :
    ∃ kind : Token.Kind, kind.relation? = some relation ∧ kind ≠ .number ∧
      ∀ rest, Lexes kind relation.symbol.toList (' ' :: rest) := by
  cases relation with
  | le => exact ⟨.le, rfl, by decide, fun _ => ⟨_, _, rfl, rfl, rfl⟩⟩
  | ge => exact ⟨.ge, rfl, by decide, fun _ => ⟨_, _, rfl, rfl, rfl⟩⟩
  | eq => exact ⟨.eq, rfl, by decide, fun _ => ⟨_, _, rfl, rfl, rfl⟩⟩

/-- A printed objective is read as a line that says the same. -/
theorem cuts_objectiveText (hv : Reading value) (hvars : Variables.Printable v) {o : Objective K}
    (ha : Shown o.a) (hb : Shown (Scalar.abs o.b)) (hrest : Delimited rest) :
    Cuts K (Makes IsObjective (ObjectiveStates value v o)) (o.text v).toList rest := by
  obtain ⟨kind, hsense, hk, hlexes⟩ := exists_sense_kind o.sense
  have htext : (o.text v).toList = o.sense.word.toList ++ ' ' :: (v.form o.a o.b).toList := by
    simp [Objective.text]
  rw [htext]
  refine (Cuts.starts (hlexes _) hk (cuts_form hv hvars ha hb hrest).space).imp fun ts hts => ?_
  obtain ⟨t, us, rfl, rfl, _, e, he, hlowers⟩ := hts
  exact ⟨_, isObjective_cons hsense he, rfl, hlowers⟩

/-- A printed row is read as a line that says the same. -/
theorem cuts_rowText (hv : Reading value) (hvars : Variables.Printable v) {c : Constraint K}
    (ha : Shown c.a) (hb : Shown (Scalar.abs c.b)) (hrhs : Shown c.rhs) (hrest : Delimited rest) :
    Cuts K (Makes IsRow (RowStates value v c)) (c.text v).toList rest := by
  obtain ⟨kind, hrelation, hk, hlexes⟩ := exists_relation_kind c.relation
  have htext : (c.text v).toList = (v.form c.a c.b).toList ++
      ' ' :: (c.relation.symbol.toList ++ ' ' :: (Scalar.text c.rhs).toList) := by
    simp [Constraint.text]
  have hright := Cuts.starts (hlexes _) hk (cuts_number (v := v) hv hrhs hrest).space
  rw [htext]
  refine (cuts_form hv hvars ha hb (delimited_space _)).append hright.space fun us vs hus hvs => ?_
  obtain ⟨lhs, hl, hlowers⟩ := hus
  obtain ⟨t, vs, rfl, rfl, _, rhs, hr, hlowers'⟩ := hvs
  have hrow := IsRow.intro (g := []) (h := []) .none hl .nil hrelation hr.sum .nil
  rw [List.nil_append, List.append_nil, List.append_nil] at hrow
  exact ⟨_, hrow, rfl, rfl, hlowers, hlowers'⟩

end Forms

/-! ## Compiling what was printed -/

section Compiling

variable {value : K → ℚ} {v : Variables}

/-- A number with a reading has only one zero, so `plain` does nothing to it. -/
theorem plain_eq (hv : Reading value) (k : K) : plain k = k := by
  unfold plain
  split
  next h => exact ((hv.beq _ _).mp h).symm
  next => rfl

/-- The objective of a line that says what the objective says. -/
theorem objectiveOf_of_states (hv : Reading value) {p : Problem K} {o : Objective K}
    {line : ObjectiveLine K} (hp : p.objectives = [line]) (h : ObjectiveStates value v o line) :
    objectiveOf p v = .ok o := by
  obtain ⟨hsense, l, hl, hread⟩ := h
  have ha : l.a = o.a := hv.injective (congrArg Linear.a hread)
  have hb : l.b = o.b := hv.injective (congrArg Linear.b hread)
  have hc : l.c = 0 := hv.injective ((congrArg Linear.c hread).trans hv.zero.symm)
  refine objectiveOf_eq_ok_iff.mpr ⟨line, l, hp, hl, ?_, (hv.beq _ _).mpr hc, ?_⟩
  · simp only [Linear.isFinite, hv.isFinite, Bool.and_self]
  · rw [plain_eq hv, plain_eq hv, ha, hb, hsense]

/-- The row of a line that says what the row says. -/
theorem rowOf_of_states (hv : Reading value) {c : Constraint K} {line : ConstraintLine K}
    (h : RowStates value v c line) (label : String) :
    rowOf v label line = .ok { c with name := label } := by
  obtain ⟨_, hrelation, ⟨l, hl, hleft⟩, ⟨r, hr, hright⟩⟩ := h
  have hread : (l.sub r).read value
      = (⟨value c.a, value c.b, 0⟩ : Linear ℚ).sub (.constant (value c.rhs)) := by
    rw [read_sub hv, hleft, hright]
  simp only [Linear.sub, Linear.add, Linear.scale, Linear.constant] at hread
  have ha : (l.sub r).a = c.a := hv.injective (by
    rw [show value (l.sub r).a = _ from congrArg Linear.a hread]; ring)
  have hb : (l.sub r).b = c.b := hv.injective (by
    rw [show value (l.sub r).b = _ from congrArg Linear.b hread]; ring)
  have hc : 0 - (l.sub r).c = c.rhs := hv.injective (by
    rw [hv.sub, hv.zero, show value (l.sub r).c = _ from congrArg Linear.c hread]; ring)
  simp only [rowOf, hl, hr, plain_eq hv]
  rw [ha, hb, hc, hrelation]

/-- The rows under the labels that are made from their places, the first of which has the given
index. -/
def relabelFrom (index : Nat) (rows : List (Constraint K)) : List (Constraint K) :=
  rows.mapIdx fun i c => { c with name := "c" ++ toString (index + i + 1) }

/-- Lines that state the rows are lowered to them, labelled by place: no line has a label of its
own. -/
theorem loweredFrom_of_states (hv : Reading value) {rows : List (Constraint K)}
    {lines : List (ConstraintLine K)} (h : List.Forall₂ (RowStates value v) rows lines) :
    ∀ index, loweredFrom v index lines = (relabelFrom index rows).map .ok := by
  induction h with
  | nil => exact fun _ => rfl
  | @cons c line rows lines hline _ ih =>
    intro index
    -- a line without a label gets one from its place
    have hlabel : labelOf index line = "c" ++ toString (index + 1) := by
      rw [labelOf, hline.1, Option.getD_none]
    rw [loweredFrom_cons, ih, rowOf_of_states hv hline, hlabel]
    simp only [relabelFrom, List.mapIdx_cons, List.map_cons, Nat.add_assoc, Nat.add_comm 1]

omit [Scalar K] in
/-- Labels made from different places are different. -/
theorem nodup_relabelFrom (rows : List (Constraint K)) :
    ((relabelFrom 0 rows).map (·.name)).Nodup := by
  have hinjective : Function.Injective fun i : Nat => "c" ++ toString (i + 1) := fun i j h => by
    have hdigits : Nat.toDigits 10 (i + 1) = Nat.toDigits 10 (j + 1) := by
      simpa using congrArg String.toList h
    have hvalue := congrArg (Nat.ofDigitChars 10 · 0) hdigits
    simpa only [Nat.ofDigitChars_ten_toDigits, Nat.add_right_cancel_iff] using hvalue
  have hrange : (relabelFrom 0 rows).map (·.name)
      = (List.range rows.length).map fun i => "c" ++ toString (i + 1) := by
    refine List.ext_getElem (by simp [relabelFrom]) fun i hi hi' => ?_
    simp [relabelFrom]
  rw [hrange]
  exact List.nodup_range.map hinjective

/-- All numbers being finite, only a row without coefficients is a defect. -/
theorem defect?_eq_none_iff_of_reading (hv : Reading value) {lp : LinearProgram K} :
    lp.defect? = none ↔ ∀ c ∈ lp.constraints, c.isDegenerate = false := by
  rw [LinearProgram.defect?_of_objective (by simp only [hv.isFinite, Bool.and_self]),
    Constraint.firstDefect?_eq_none_iff]
  have hfinite : ∀ c : Constraint K, c.isFinite = true := fun c => by
    simp only [Constraint.isFinite, hv.isFinite, Bool.and_self]
  exact forall₂_congr fun c _ => and_iff_right (hfinite c)

/-- A problem with these variables, and with lines that say what the objective and the rows say,
is compiled to them. -/
theorem programOf_of_states (hv : Reading value) {p : Problem K} {lp : LinearProgram K}
    {line : ObjectiveLine K} (hvars : variablesOf p = .ok lp.vars) (hp : p.objectives = [line])
    (hobjective : ObjectiveStates value lp.vars lp.objective line) {rows : List (Constraint K)}
    (hrows : List.Forall₂ (RowStates value lp.vars) rows p.constraints)
    (hconstraints : lp.constraints = relabelFrom 0 rows)
    (hsound : ∀ c ∈ rows, c.isDegenerate = false) : programOf p = .ok lp := by
  have hlowered : loweredRows lp.vars p = lp.constraints.map .ok := by
    rw [hconstraints, ← loweredFrom_of_states hv hrows]
    simp only [loweredRows, loweredFrom, Nat.zero_add]
  -- labels made from places differ, so none is used twice
  have hnodup : (labels p).Nodup := by
    rw [← names_of_loweredRows hlowered, hconstraints]
    exact nodup_relabelFrom rows
  have hdefect : lp.defect? = none := by
    rw [defect?_eq_none_iff_of_reading hv, hconstraints]
    intro c hc
    obtain ⟨i, hi, rfl⟩ := List.mem_mapIdx.mp hc
    exact hsound rows[i] (List.getElem_mem hi)
  exact programOf_eq_ok_iff.mpr ⟨hvars, objectiveOf_of_states hv hp hobjective,
    rowsFrom_start.mpr ⟨hlowered, hnodup⟩, hdefect⟩

theorem isName_standard : IsName ['x', '1'] ∧ IsName ['x', '2'] :=
  ⟨⟨⟨rfl, List.forall_mem_singleton.mpr rfl⟩, rfl⟩, ⟨⟨rfl, List.forall_mem_singleton.mpr rfl⟩, rfl⟩⟩

/-- The variables of a problem of an accepted text are names. -/
theorem isName_vars {source : String} {program : Program K} {p : Problem K} {v : Variables}
    (hread : Program.ofString source = .ok program) (hp : p ∈ program.problems)
    (hv : Declares p v) : IsName v.x.toList ∧ IsName v.y.toList := by
  rcases hv with ⟨_, rfl⟩ | ⟨list, hlist, hnames, _⟩
  · exact isName_standard
  · have hname := isName_of_mem_vars hread hp hlist
    rw [hnames, List.forall_mem_cons, List.forall_mem_singleton] at hname
    exact hname

/-- **What is printed of a compiled program is source text for the same program.** The objective
and any of its rows, put into a source text over the same variables, are accepted and compiled to
the same objective and the same rows, under the labels that are made from their places. -/
theorem compile_printed (hv : Reading value) {source : String} {program : Program K}
    (hread : Program.ofString source = .ok program) {p : Problem K} (hp : p ∈ program.problems)
    {compiled : Compiled K} (hcompile : compile p = .ok compiled)
    (hx : ¬BeginsExponent compiled.program.vars.x.toList)
    (hy : ¬BeginsExponent compiled.program.vars.y.toList)
    (hshown : ∀ n ∈ compiled.program.printed, Shown n) {rows : List (Constraint K)}
    (hrows : rows ⊆ compiled.program.constraints) :
    ∃ q again, Program.ofString (problemSource compiled.program.vars
        (compiled.program.objective.text compiled.program.vars)
        (rows.map (·.text compiled.program.vars))) = .ok ⟨[q]⟩ ∧
      compile q = .ok again ∧ again.program
        = ⟨compiled.program.vars, compiled.program.objective, relabelFrom 0 rows⟩ := by
  obtain ⟨hvars, _, _, hdefect⟩ := programOf_eq_ok_iff.mp (programOf_of_compile hcompile)
  have hdeclares := variablesOf_eq_ok_iff.mp hvars
  -- the names were words of a source text, so they can be printed and read as words
  obtain ⟨hnamex, hnamey⟩ := isName_vars hread hp hdeclares
  have hprintable : Variables.Printable compiled.program.vars :=
    ⟨hnamex, hnamey, hdeclares.ne, hx, hy⟩
  have hsound : ∀ c ∈ rows, c.isDegenerate = false := fun c hc =>
    (defect?_eq_none_iff_of_reading hv).mp hdefect c (hrows hc)
  rw [LinearProgram.printed, List.forall_mem_append, List.forall_mem_cons,
    List.forall_mem_singleton] at hshown
  have hrow : ∀ c ∈ rows, ∀ rest, Delimited rest →
      Cuts K (Makes IsRow (RowStates value compiled.program.vars c))
        (c.text compiled.program.vars).toList rest := by
    intro c hc rest hrest
    have hc' := fun n hn => hshown.2 n (List.mem_flatMap.mpr ⟨c, hrows hc, hn⟩)
    exact cuts_rowText hv hprintable (hc' _ (by simp)) (hc' _ (by simp)) (hc' _ (by simp)) hrest
  obtain ⟨span, items, hagain, list, line, lines, rfl, hnames, hline, hlines⟩ :=
    ofString_problemSource hnamex hnamey
      (fun rest hrest => cuts_objectiveText hv hprintable hshown.1.1 hshown.1.2 hrest) hrow
  -- the text is accepted; what is left is that its problem compiles to the same numbers
  have hvars' : variablesOf (.ofItems span "p" [.vars list, .objective line, .block lines])
      = .ok compiled.program.vars :=
    variablesOf_eq_ok_iff.mpr (.inr ⟨list, rfl, hnames, hdeclares.ne⟩)
  have hlines' : List.Forall₂ (RowStates value compiled.program.vars) rows
      (Problem.ofItems span "p" [.vars list, .objective line, .block lines]).constraints := by
    simpa [Problem.ofItems, Item.rows] using hlines
  have hprogram : programOf (.ofItems span "p" [.vars list, .objective line, .block lines])
      = .ok ⟨compiled.program.vars, compiled.program.objective, relabelFrom 0 rows⟩ :=
    programOf_of_states hv hvars' rfl hline hlines' rfl hsound
  exact ⟨_, ⟨_, _, _, _⟩, hagain, by simp only [compile, hprogram]; rfl, rfl⟩

end Compiling

/-! ## Rational numbers -/

/-- Rational numbers read themselves. -/
theorem reading_rat : Reading (id : ℚ → ℚ) where
  injective := Function.injective_id
  zero := rfl
  one := rfl
  add _ _ := rfl
  sub _ _ := rfl
  mul _ _ := rfl
  neg _ := rfl
  abs := Scalar.abs_rat
  lt _ _ := Iff.rfl
  beq _ _ := beq_iff_eq
  isFinite _ := rfl

/-- A negative number is written with a sign in front. -/
theorem ratText_neg {q : ℚ} (h : 0 < q) :
    Decimal.ratText (-q) = "-" ++ Decimal.ratText q := by
  have hneg : decide ((-q).num < 0) = true :=
    decide_eq_true (Rat.num_neg.mpr (neg_neg_of_pos h))
  have hpos : decide (q.num < 0) = false := decide_eq_false (not_lt.mpr (Rat.num_pos.mpr h).le)
  rw [Decimal.ratText, Decimal.ratText, hneg, hpos, Rat.neg_num, Rat.neg_den, Int.natAbs_neg]
  simp [Double.signed]

theorem shown_toRat (d : Decimal) : Shown d.toRat := .numeral d.legible_toRat

/-- Decimals are shown with either sign. -/
theorem shown_neg_toRat (d : Decimal) : Shown (-d.toRat) := by
  rcases d.toRat_nonneg.eq_or_lt with hzero | hpos
  · rw [← hzero, neg_zero, hzero]
    exact shown_toRat d
  · exact .minus d.legible_toRat (ratText_neg hpos) rfl

/-- A problem with names that begin like exponents but for the digit. -/
def tariffSource : String :=
  "problem tariff \x7b\nvars e, exp\nmin 2exp - 3e/2\nconstraints \x7b\ngap: e - exp <= 0.25\n"
    ++ "0.5exp >= 1 + e\n\x7d\n\x7d\n"

/-- What is printed of it, put into a source text. -/
def tariffPrinted : String :=
  "problem p \x7b\nvars e, exp\nminimize -1.5e + 2exp\nconstraints \x7b\n1e - 1exp <= 0.25\n"
    ++ "-1e + 0.5exp >= 1\n\x7d\n\x7d"

/-- What `tariffSource` is read as. -/
def tariff : Problem ℚ where
  span := ⟨0, 99⟩
  name := "tariff"
  properties := []
  vars := some ⟨⟨17, 28⟩, ["e", "exp"]⟩
  objectives := [⟨⟨29, 44⟩, .minimize,
    .binary (.binary (.number 2) .mul (.var ⟨34, 37⟩ "exp")) .sub
      (.binary (.binary (.number 3) .mul (.var ⟨41, 42⟩ "e")) .div (.number 2))⟩]
  constraints := [
    ⟨⟨59, 79⟩, some "gap", .binary (.var ⟨64, 65⟩ "e") .sub (.var ⟨68, 71⟩ "exp"), .le,
      .number (1 / 4)⟩,
    ⟨⟨80, 95⟩, none, .binary (.number (1 / 2)) .mul (.var ⟨83, 86⟩ "exp"), .ge,
      .binary (.number 1) .add (.var ⟨94, 95⟩ "e")⟩]

/-- What `tariff` is compiled to. -/
def tariffProgram : LinearProgram ℚ where
  vars := ⟨"e", "exp"⟩
  objective := ⟨-3 / 2, 2, .minimize⟩
  constraints := [⟨"gap", 1, -1, .le, 1 / 4⟩, ⟨"c2", -1, 1 / 2, .ge, 1⟩]

/-- Each number of the tariff is a decimal or the negative of one. -/
theorem tariff_shown : ∀ n ∈ tariffProgram.printed, Shown n := by
  have hprinted : tariffProgram.printed
      = [-Decimal.toRat ⟨15, -1⟩, Decimal.toRat ⟨2, 0⟩, Decimal.toRat ⟨1, 0⟩, Decimal.toRat ⟨1, 0⟩,
        Decimal.toRat ⟨25, -2⟩, -Decimal.toRat ⟨1, 0⟩, Decimal.toRat ⟨5, -1⟩,
        Decimal.toRat ⟨1, 0⟩] := by
    decide +kernel
  rw [hprinted]
  simp only [List.forall_mem_cons, shown_toRat, shown_neg_toRat, true_and]
  exact fun _ hn => absurd hn List.not_mem_nil

/-- The names `e` and `exp` could run into the digits before them: neither begins an exponent. -/
theorem compile_printed_tariff :
    Reading (id : ℚ → ℚ) ∧ Program.ofString tariffSource = .ok ⟨[tariff]⟩ ∧
    compile tariff = .ok ⟨"tariff", none, none, tariffProgram⟩ ∧
    ¬BeginsExponent ['e'] ∧ ¬BeginsExponent ['e', 'x', 'p'] ∧
    (∀ n ∈ tariffProgram.printed, Shown n) ∧
    ∃ (q : Problem ℚ) (again : Compiled ℚ), Program.ofString tariffPrinted = .ok ⟨[q]⟩ ∧
      compile q = .ok again ∧ again.program = ⟨⟨"e", "exp"⟩, ⟨-3 / 2, 2, .minimize⟩,
        [⟨"c1", 1, -1, .le, 1 / 4⟩, ⟨"c2", -1, 1 / 2, .ge, 1⟩]⟩ := by
  have hread : Program.ofString tariffSource = .ok ⟨[tariff]⟩ := by cbv
  have hcompile : compile tariff = .ok ⟨"tariff", none, none, tariffProgram⟩ := by cbv
  have he : ¬BeginsExponent ['e'] := by
    rintro ⟨_, _, _, h, _⟩
    exact absurd (List.cons.inj h).2 (by simp)
  have hexp : ¬BeginsExponent ['e', 'x', 'p'] := by
    rintro ⟨_, d, _, h, _, hd⟩
    obtain rfl : 'x' = d := (List.cons.inj (List.cons.inj h).2).1
    exact absurd hd (by decide)
  obtain ⟨q, again, hsource, hagain, hprogram⟩ := compile_printed reading_rat hread
    (List.mem_singleton_self tariff) hcompile he hexp tariff_shown
    (List.Subset.refl tariffProgram.constraints)
  refine ⟨reading_rat, hread, hcompile, he, hexp, tariff_shown, q, again, ?_, hagain, hprogram⟩
  rw [← hsource]
  refine congrArg Program.ofString ?_
  decide +kernel

end Compile

end CornerPoint
