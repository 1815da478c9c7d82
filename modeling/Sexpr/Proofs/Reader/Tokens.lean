import Sexpr.Proofs.Datum.Rendering
import Sexpr.Proofs.Number.Rounding
import Sexpr.Proofs.Reader.Progress
import Sexpr.Proofs.Text.Quoted

/-!
# Written tokens

What is written for an atom is read as that atom, wherever it stands, if it ends before what
follows. The end of the text, white space and a closing parenthesis end every atom, and nothing
else follows one in the written form of a datum.

> `Reads`: what a step yields from here on, and what it leaves.
> `Ends.endsBefore`: what ends every atom.
> `reads_number`, `reads_symbol`, `reads_string`: one statement for each kind of token.
-/

namespace Sexpr

open Place

/-- From here on the step yields `a` and leaves `rest`. -/
def Reads {σ α : Type} [Place σ] (m : EStateM Cause σ α) (r : σ) (a : α) (rest : List Char) :
    Prop :=
  ∃ r', m r = .ok a r' ∧ ahead r' = rest

section

variable {σ α β : Type} [Place σ] {r : σ} {rest rest' : List Char}

/-- A result that is given takes nothing of the text. -/
theorem reads_pure (a : α) (h : ahead r = rest) : Reads (pure a : EStateM Cause σ α) r a rest :=
  ⟨r, rfl, h⟩

/-- Steps in sequence read one behind the other. -/
theorem reads_bind {x : EStateM Cause σ α} {f : α → EStateM Cause σ β} {a : α} {b : β}
    (hx : Reads x r a rest) (hf : ∀ r₁, ahead r₁ = rest → Reads (f a) r₁ b rest') :
    Reads (x >>= f) r b rest' := by
  obtain ⟨r₁, h₁, hrest⟩ := hx
  obtain ⟨r₂, h₂, hrest'⟩ := hf r₁ hrest
  exact ⟨r₂, (bind_of_ok h₁).trans h₂, hrest'⟩

end

/-- In a reading a scanner reads what it reads on the cursor. -/
theorem Reader.reads_scan {α : Type} {step : Scan α} {r : Reading} {a : α} {rest : List Char}
    (h : Reads step r.cursor a rest) : Reads (Reader.scan step) r a rest := by
  obtain ⟨c, hc, hrest⟩ := h
  exact ⟨_, Reader.scan_of_ok hc, hrest⟩

/-- What stands behind an atom: nothing, white space or a closing parenthesis. -/
def Ends (rest : List Char) : Prop :=
  ∀ x ∈ rest.head?, isBlank x = true ∨ x = ')'

/-- Only white space and a closing parenthesis may stand behind an atom. -/
theorem Ends.ne {rest : List Char} (h : Ends rest) {x : Char} (hblank : isBlank x = false)
    (hclose : x ≠ ')') : rest.head? ≠ some x := by
  intro hx
  rcases h x hx with hb | rfl
  · exact absurd (hblank.symm.trans hb) (by decide)
  · exact hclose rfl

/-- A number does not go on behind its end. -/
theorem Ends.isDigit {rest : List Char} (h : Ends rest) :
    ∀ x ∈ rest.head?, x.isDigit = false := by
  intro x hx
  rcases h x hx with hb | rfl
  · exact isDigit_of_isBlank x hb
  · decide

/-- Neither does a symbol. -/
theorem Ends.continuesSymbol {rest : List Char} (h : Ends rest) :
    ∀ x ∈ rest.head?, continuesSymbol x = false := by
  intro x hx
  rcases h x hx with hb | rfl
  · rw [Sexpr.continuesSymbol, hb, Bool.true_or, Bool.not_true]
  · decide

/-- Nothing, white space and a closing parenthesis end every atom. -/
theorem Ends.endsBefore {rest : List Char} (h : Ends rest) (a : Atom) : a.EndsBefore rest := by
  have hmark : ∀ (marks : List Char), marks.all (fun x => !isBlank x && x != ')') = true →
      ∀ x ∈ rest.head?, x.isDigit = false ∧ x ∉ marks := by
    intro marks hmarks x hx
    refine ⟨h.isDigit x hx, fun hmem => ?_⟩
    have hsolid := List.all_eq_true.mp hmarks x hmem
    rw [Bool.and_eq_true, Bool.not_eq_true', bne_iff_ne] at hsolid
    exact h.ne hsolid.1 hsolid.2 hx
  cases a with
  | bool b => trivial
  | string text => trivial
  | symbol name => exact h.continuesSymbol
  | number n =>
    cases n with
    | integer n => exact hmark ['.', '/', '+', '-'] (by decide)
    | real x => exact hmark ['/', '+', '-'] (by decide)
    | complex re im => trivial

namespace Scan

variable {c : Cursor} {rest : List Char}

/-- The expected character is read. -/
theorem reads_accept {x : Char} (h : c.ahead = x :: rest) : Reads (accept x) c true rest :=
  ⟨_, accept_of_head h, by rw [Place.ahead]; exact (Cursor.ahead_advance c).trans (by rw [h]; rfl)⟩

/-- Any other character is left. -/
theorem reads_accept_not {x : Char} (h : c.ahead = rest) (hx : rest.head? ≠ some x) :
    Reads (accept x) c false rest :=
  ⟨_, accept_of_ne (by rw [h]; exact hx), h⟩

/-- A run is read to its end, where a character of another kind follows. -/
theorem reads_takeWhile {p : Char → Bool} {run : List Char} (h : c.ahead = run ++ rest)
    (hrun : ∀ x ∈ run, p x = true) (hrest : ∀ x ∈ rest.head?, p x = false) :
    Reads (takeWhile p) c run rest := by
  have htake : c.ahead.takeWhile p = run := by
    rw [h, List.takeWhile_append_of_pos hrun, Cursor.takeWhile_eq_nil hrest, List.append_nil]
  refine ⟨(c.takeWhile p).2, ?_, ?_⟩
  · rw [takeWhile_run, Cursor.takeWhile_fst, htake]
  · show (c.takeWhile p).2.ahead = rest
    rw [Cursor.takeWhile_snd, Cursor.ahead_advanceBy, htake, h, List.drop_left]

/-! ## Numbers without a sign -/

/-- Digits without a point behind them are an integer. -/
theorem reads_unsigned_integer {digits : List Char} (h : c.ahead = digits ++ rest)
    (hne : digits ≠ []) (hdigits : ∀ x ∈ digits, x.isDigit = true)
    (hrest : ∀ x ∈ rest.head?, x.isDigit = false) (hpoint : rest.head? ≠ some '.') :
    Reads unsigned c (some (.integer (Nat.ofDigitChars 10 digits 0))) rest := by
  unfold unsigned
  refine reads_bind (reads_takeWhile h hdigits hrest) fun c₁ h₁ => ?_
  refine reads_bind (reads_accept_not h₁ hpoint) fun c₂ h₂ => ?_
  rw [if_neg Bool.false_ne_true, if_neg (by simpa using hne)]
  exact reads_pure _ h₂

/-- Digits around a point are a decimal fraction, and on one side of it there may be none. -/
theorem reads_unsigned_decimal {whole fraction : List Char}
    (h : c.ahead = whole ++ '.' :: (fraction ++ rest)) (hne : whole ≠ [] ∨ fraction ≠ [])
    (hwhole : ∀ x ∈ whole, x.isDigit = true) (hfraction : ∀ x ∈ fraction, x.isDigit = true)
    (hrest : ∀ x ∈ rest.head?, x.isDigit = false) :
    Reads unsigned c (some (.real (Decimal.ofDigits whole fraction).toFloat)) rest := by
  unfold unsigned
  refine reads_bind (reads_takeWhile h hwhole ?_) fun c₁ h₁ => ?_
  · intro x hx
    rw [List.head?_cons, Option.mem_some_iff] at hx
    rw [← hx]
    decide
  · refine reads_bind (reads_accept h₁) fun c₂ h₂ => ?_
    rw [if_pos rfl]
    refine reads_bind (reads_takeWhile h₂ hfraction hrest) fun c₃ h₃ => ?_
    rw [if_neg (by simpa [Classical.or_iff_not_imp_left] using hne)]
    exact reads_pure _ h₃

/-- The digits of a decimal are digits. -/
theorem isDigit_digits (d : Decimal) :
    (∀ x ∈ d.digits.1, x.isDigit = true) ∧ ∀ x ∈ d.digits.2, x.isDigit = true := by
  have hall : ∀ x ∈ (Nat.toDigits 10 d.coefficient).leftpad (d.places + 1) '0',
      x.isDigit = true := by
    intro x hx
    rw [List.leftpad, List.mem_append] at hx
    rcases hx with hx | hx
    · rw [(List.mem_replicate.mp hx).2]
      decide
    · exact Nat.isDigit_of_mem_toDigits (by decide) (by decide) hx
  simp only [Decimal.digits, List.splitAt_eq]
  exact ⟨fun x hx => hall x (List.mem_of_mem_take hx), fun x hx => hall x (List.mem_of_mem_drop hx)⟩

/-- In front of the point there is always a digit, if only a zero. -/
theorem whole_ne_nil (d : Decimal) : d.digits.1 ≠ [] := by
  rw [← List.length_pos_iff]
  simp only [Decimal.digits, List.splitAt_eq, List.length_take, List.leftpad, List.length_append,
    List.length_replicate]
  omega

/-- A finite double is written as its shortest decimal. -/
theorem magnitudeWritten_of_isFinite {x : Float} (hfin : x.isFinite = true) :
    Number.magnitudeWritten x = (Decimal.shortest x).written := by
  obtain ⟨hnan, hinf⟩ := isNaN_isInf_of_isFinite hfin
  rw [Number.magnitudeWritten, hnan, hinf, if_neg Bool.false_ne_true, if_neg Bool.false_ne_true]

/-- A double without a sign. -/
theorem reads_unsigned_magnitude {x : Float} (hfin : x.isFinite = true)
    (hsign : Number.isSigned x = false) (h : c.ahead = Number.magnitudeWritten x ++ rest)
    (hrest : ∀ y ∈ rest.head?, y.isDigit = false) :
    Reads unsigned c (some (.real x)) rest := by
  have hvalue : (Decimal.ofDigits (Decimal.shortest x).digits.1
      (Decimal.shortest x).digits.2).toFloat = x := by
    rw [Decimal.ofDigits_digits, toFloat_shortest hfin hsign]
  obtain ⟨hwhole, hfraction⟩ := isDigit_digits (Decimal.shortest x)
  rw [magnitudeWritten_of_isFinite hfin, Decimal.written, List.append_assoc, List.cons_append] at h
  have hreads := reads_unsigned_decimal h (Or.inl (whole_ne_nil _)) hwhole hfraction hrest
  rwa [hvalue] at hreads

/-! ## Numbers -/

theorem head_ne_of_isDigit {d x : Char} {run : List Char} (hd : d.isDigit = true)
    (hx : x.isDigit = false) : (d :: run).head? ≠ some x :=
  fun hhead => isDigit_ne hd hx (Option.some.inj hhead)

/-- Without a sign nothing is passed. -/
theorem reads_sign_none {d : Char} {run : List Char} (h : c.ahead = d :: run)
    (hd : d.isDigit = true) : Reads sign c false (d :: run) :=
  ⟨c, sign_of_digit h hd, h⟩

/-- A minus negates, unless a plus comes behind it, which would be passed as well. -/
theorem reads_sign_minus {run : List Char} (h : c.ahead = '-' :: run)
    (hplus : run.head? ≠ some '+') : Reads sign c true run :=
  ⟨c.advance, sign_of_minus h hplus, Cursor.ahead_advance_of_head h⟩

/-- A plus is passed and changes nothing. -/
theorem reads_sign_plus {run : List Char} (h : c.ahead = '+' :: run) :
    Reads sign c false run :=
  ⟨c.advance, sign_of_plus h, Cursor.ahead_advance_of_head h⟩

/-- Without a slash the number is no quotient. -/
theorem reads_quotient (base : Number) (h : c.ahead = rest) (hslash : rest.head? ≠ some '/') :
    Reads (quotient base) c base rest := by
  unfold quotient
  refine reads_bind (reads_accept_not h hslash) fun c₁ h₁ => ?_
  rw [if_neg Bool.false_ne_true]
  exact reads_pure _ h₁

/-- The parts of a number in the order in which they are read. -/
theorem reads_numeral_parts {negative : Bool} {base ratio value : Number}
    {run mid mid' : List Char} (hsign : Reads sign c negative run)
    (hunsigned : ∀ c₁ : Cursor, c₁.ahead = run → Reads unsigned c₁ (some base) mid)
    (hquotient : ∀ c₂ : Cursor, c₂.ahead = mid → Reads (quotient base) c₂ ratio mid')
    (himaginary : ∀ c₃ : Cursor, c₃.ahead = mid' →
      Reads (imaginaryIfSigned ratio) c₃ value rest) :
    Reads numeral c (if negative then -value else value) rest := by
  unfold numeral
  refine reads_bind hsign fun c₁ h₁ => ?_
  refine reads_bind (hunsigned c₁ h₁) fun c₂ h₂ => ?_
  refine reads_bind (hquotient c₂ h₂) fun c₃ h₃ => ?_
  exact reads_bind (himaginary c₃ h₃) fun c₄ h₄ => reads_pure _ h₄

/-- Without a divisor. -/
theorem reads_numeral {negative : Bool} {base value : Number} {run mid : List Char}
    (hsign : Reads sign c negative run)
    (hunsigned : ∀ c₁ : Cursor, c₁.ahead = run → Reads unsigned c₁ (some base) mid)
    (hslash : mid.head? ≠ some '/')
    (himaginary : ∀ c₂ : Cursor, c₂.ahead = mid → Reads (imaginaryIfSigned base) c₂ value rest) :
    Reads numeral c (if negative then -value else value) rest :=
  reads_numeral_parts hsign hunsigned (fun _ h₂ => reads_quotient base h₂ hslash) himaginary

/-- Without a sign there is no imaginary part. -/
theorem reads_imaginary_none (base : Number) (h : c.ahead = rest) (hplus : rest.head? ≠ some '+')
    (hminus : rest.head? ≠ some '-') : Reads (imaginaryIfSigned base) c base rest := by
  refine ⟨c, imaginaryIfSigned_of_head ?_ ?_, h⟩
  · rw [h]
    exact hplus
  · rw [h]
    exact hminus

/-- What is written for a finite double begins with a digit. -/
theorem exists_digit {x : Float} (hfin : x.isFinite = true) :
    ∃ d run, Number.magnitudeWritten x = d :: run ∧ d.isDigit = true := by
  obtain ⟨hwhole, _⟩ := isDigit_digits (Decimal.shortest x)
  cases hdigits : (Decimal.shortest x).digits.1 with
  | nil => exact absurd hdigits (whole_ne_nil _)
  | cons d run =>
    refine ⟨d, run ++ '.' :: (Decimal.shortest x).digits.2, ?_, hwhole d ?_⟩
    · rw [magnitudeWritten_of_isFinite hfin, Decimal.written, hdigits, List.cons_append]
    · rw [hdigits]
      exact List.mem_cons_self

/-- The imaginary part, which its unit ends whatever follows. -/
theorem reads_imaginary {re im : Float} (hfin : im.isFinite = true) (hzero : (im == 0.0) = false)
    (h : c.ahead = (if Number.isSigned im then '-' else '+')
      :: (Number.magnitudeWritten im.abs ++ 'i' :: rest)) :
    Reads (imaginaryIfSigned (.real re)) c (.complex re im) rest := by
  have habs : im.abs.isFinite = true := (Number.isFinite_abs im).trans hfin
  obtain ⟨d, run, hwritten, hd⟩ := exists_digit habs
  have hunsigned : ∀ c₁ : Cursor, c₁.ahead = Number.magnitudeWritten im.abs ++ 'i' :: rest →
      Reads unsigned c₁ (some (.real im.abs)) ('i' :: rest) := by
    intro c₁ h₁
    refine reads_unsigned_magnitude habs (Number.isSigned_abs hfin) h₁ fun y hy => ?_
    rw [List.head?_cons, Option.mem_some_iff] at hy
    rw [← hy]
    decide
  have hmagnitude : Number.isZero (.real im.abs) = false := (Number.beq_zero_abs im).trans hzero
  have hvalue : (Number.real re).withImaginary (Number.isSigned im) (.real im.abs)
      = .complex re im := by
    rw [Number.withImaginary, hmagnitude, if_neg Bool.false_ne_true]
    show Number.complex re (if Number.isSigned im then -im.abs else im.abs) = _
    rw [Number.abs_of_isSigned hfin]
  have hsign : Reads sign c (Number.isSigned im)
      (Number.magnitudeWritten im.abs ++ 'i' :: rest) := by
    cases hsigned : Number.isSigned im with
    | true =>
      rw [hsigned, if_pos rfl, hwritten] at h
      rw [hwritten]
      exact reads_sign_minus h (head_ne_of_isDigit hd (by decide))
    | false =>
      rw [hsigned, if_neg Bool.false_ne_true] at h
      exact reads_sign_plus h
  have hreads : Reads (imaginary (.real re)) c (.complex re im) rest := by
    unfold imaginary
    refine reads_bind hsign fun c₁ h₁ => ?_
    refine reads_bind (hunsigned c₁ h₁) fun c₂ h₂ => ?_
    refine reads_bind (reads_accept h₂) fun c₃ h₃ => ?_
    rw [if_pos rfl, ← hvalue]
    exact reads_pure _ h₃
  obtain ⟨c', hc, hrest⟩ := hreads
  refine ⟨c', (imaginaryIfSigned_of_sign h ?_).trans hc, hrest⟩
  cases Number.isSigned im with
  | true => exact Or.inr rfl
  | false => exact Or.inl rfl

end Scan

/-- The numbers that are written so that they read back. -/
def Number.Readable : Number → Prop
  | integer _ => True
  | real x => x.isFinite = true
  | complex re im => re.isFinite = true ∧ im.isFinite = true ∧ (im == 0.0) = false

/-- An integer is written with its digits, and a minus in front if it is negative. -/
theorem Number.written_integer (n : Int) :
    (Number.integer n).written
      = if n < 0 then '-' :: Nat.toDigits 10 n.natAbs else Nat.toDigits 10 n.natAbs := by
  rw [Number.written, Int.toString_eq_repr, Int.repr_eq_if]
  by_cases hn : n < 0
  · rw [if_neg (by omega), if_pos hn, String.toList_append, Nat.toList_repr,
      show (-n).toNat = n.natAbs by omega]
    rfl
  · rw [if_pos (by omega), if_neg hn, Nat.toList_repr, show n.toNat = n.natAbs by omega]

namespace Scan

variable {c : Cursor} {rest : List Char}

/-- An integer is read back from what is written for it. -/
theorem reads_integer (n : Int) (h : c.ahead = (Number.integer n).written ++ rest)
    (hrest : (Number.integer n).EndsBefore rest) : Reads numeral c (.integer n) rest := by
  have hne : ∀ x ∈ ['.', '/', '+', '-'], rest.head? ≠ some x :=
    fun x hmem hx => (hrest x hx).2 hmem
  have hdigits : ∀ x ∈ Nat.toDigits 10 n.natAbs, x.isDigit = true :=
    fun x hx => Nat.isDigit_of_mem_toDigits (by decide) (by decide) hx
  have hunsigned : ∀ c₁ : Cursor, c₁.ahead = Nat.toDigits 10 n.natAbs ++ rest →
      Reads unsigned c₁ (some (.integer n.natAbs)) rest := by
    intro c₁ h₁
    have hreads := reads_unsigned_integer h₁ Nat.toDigits_ne_nil hdigits
      (fun x hx => (hrest x hx).1) (hne '.' (by decide))
    rwa [Nat.ofDigitChars_ten_toDigits] at hreads
  have hnumeral : ∀ {negative : Bool}, Reads sign c negative (Nat.toDigits 10 n.natAbs ++ rest) →
      Reads numeral c (if negative then -Number.integer n.natAbs else .integer n.natAbs) rest :=
    fun hsign => reads_numeral hsign hunsigned (hne '/' (by decide))
      fun c₂ h₂ => reads_imaginary_none _ h₂ (hne '+' (by decide)) (hne '-' (by decide))
  obtain ⟨d, run, hwritten⟩ :=
    List.exists_cons_of_ne_nil (Nat.toDigits_ne_nil (b := 10) (n := n.natAbs))
  have hd : d.isDigit = true := hdigits d (by rw [hwritten]; exact List.mem_cons_self)
  rw [Number.written_integer] at h
  by_cases hn : n < 0
  · rw [if_pos hn, hwritten] at h
    have hreads := hnumeral (by
      rw [hwritten]
      exact reads_sign_minus h (head_ne_of_isDigit hd (by decide)))
    have hvalue : -Number.integer n.natAbs = .integer n := by
      show Number.integer (-n.natAbs) = _
      congr 1
      omega
    rwa [if_pos rfl, hvalue] at hreads
  · rw [if_neg hn, hwritten] at h
    have hreads := hnumeral (by rw [hwritten]; exact reads_sign_none h hd)
    rwa [if_neg Bool.false_ne_true, show (n.natAbs : Int) = n by omega] at hreads

/-- So is a finite double: its shortest decimal is rounded to it. -/
theorem reads_real {x : Float} (hfin : x.isFinite = true)
    (h : c.ahead = (Number.real x).written ++ rest) (hrest : (Number.real x).EndsBefore rest) :
    Reads numeral c (.real x) rest := by
  have hne : ∀ y ∈ ['/', '+', '-'], rest.head? ≠ some y := fun y hmem hy => (hrest y hy).2 hmem
  obtain ⟨hnan, hinf⟩ := isNaN_isInf_of_isFinite hfin
  have hnumeral : ∀ {negative : Bool} {y : Float}, y.isFinite = true → Number.isSigned y = false →
      Reads sign c negative (Number.magnitudeWritten y ++ rest) →
      Reads numeral c (if negative then -Number.real y else .real y) rest :=
    fun hy hsigned hsign => reads_numeral hsign
      (fun c₁ h₁ => reads_unsigned_magnitude hy hsigned h₁ fun z hz => (hrest z hz).1)
      (hne '/' (by decide))
      fun c₂ h₂ => reads_imaginary_none _ h₂ (hne '+' (by decide)) (hne '-' (by decide))
  rw [Number.written, Number.realWritten, hnan, hinf, if_neg Bool.false_ne_true] at h
  cases hsigned : Number.isSigned x with
  | true =>
    rw [hsigned, if_pos rfl] at h
    have hneg : (-x).isFinite = true := (Number.isFinite_neg x).trans hfin
    obtain ⟨d, run, hwritten, hd⟩ := exists_digit hneg
    rw [hwritten] at h
    have hreads := hnumeral hneg (by rw [Number.isSigned_neg hfin, hsigned]; rfl)
      (by rw [hwritten]; exact reads_sign_minus h (head_ne_of_isDigit hd (by decide)))
    rw [if_pos rfl] at hreads
    change Reads numeral c (.real (- -x)) rest at hreads
    rwa [Number.neg_neg] at hreads
  | false =>
    rw [hsigned, if_neg Bool.false_ne_true, if_neg Bool.false_ne_true] at h
    obtain ⟨d, run, hwritten, hd⟩ := exists_digit hfin
    rw [hwritten] at h
    exact hnumeral hfin hsigned (by rw [hwritten]; exact reads_sign_none h hd)

/-- The minus in front of a complex number applies to both parts, so they are written with
their signs changed. -/
theorem reads_complex {re im : Float} (hre : re.isFinite = true) (him : im.isFinite = true)
    (hzero : (im == 0.0) = false) (h : c.ahead = (Number.complex re im).written ++ rest) :
    Reads numeral c (.complex re im) rest := by
  have hnumeral : ∀ {negative : Bool} {x y : Float}, x.isFinite = true → Number.isSigned x = false →
      y.isFinite = true → (y == 0.0) = false →
      Reads sign c negative (Number.complexWritten x y ++ rest) →
      Reads numeral c (if negative then -Number.complex x y else .complex x y) rest := by
    intro negative x y hx hsigned hy hzero hsign
    rw [Number.complexWritten, List.append_assoc, List.cons_append, List.append_assoc,
      List.singleton_append] at hsign
    refine reads_numeral hsign (fun c₁ h₁ => reads_unsigned_magnitude hx hsigned h₁ ?_) ?_
      fun c₂ h₂ => reads_imaginary hy hzero h₂
    · intro z hz
      rw [List.head?_cons, Option.mem_some_iff] at hz
      rw [← hz]
      cases Number.isSigned y with
      | true => rfl
      | false => rfl
    · cases Number.isSigned y with
      | true => simp
      | false => simp
  have hstart : ∀ {x : Float} (y : Float), x.isFinite = true →
      ∃ d run, Number.complexWritten x y ++ rest = d :: run ∧ d.isDigit = true := by
    intro x y hx
    obtain ⟨d, run, hwritten, hd⟩ := exists_digit hx
    exact ⟨d, _, by rw [Number.complexWritten, hwritten]; rfl, hd⟩
  rw [Number.written] at h
  cases hsigned : Number.isSigned re with
  | true =>
    rw [hsigned, if_pos rfl, List.cons_append] at h
    have hre' : (-re).isFinite = true := (Number.isFinite_neg re).trans hre
    obtain ⟨d, run, hrun, hd⟩ := hstart (-im) hre'
    rw [hrun] at h
    have hreads := hnumeral hre' (by rw [Number.isSigned_neg hre, hsigned]; rfl)
      ((Number.isFinite_neg im).trans him) ((Number.beq_zero_neg im).trans hzero)
      (by rw [hrun]; exact reads_sign_minus h (head_ne_of_isDigit hd (by decide)))
    rw [if_pos rfl] at hreads
    change Reads numeral c (.complex (- -re) (- -im)) rest at hreads
    rwa [Number.neg_neg, Number.neg_neg] at hreads
  | false =>
    rw [hsigned, if_neg Bool.false_ne_true] at h
    obtain ⟨d, run, hrun, hd⟩ := hstart im hre
    rw [hrun] at h
    exact hnumeral hre hsigned him hzero (by rw [hrun]; exact reads_sign_none h hd)

/-- Every number that can be read is read back from what is written for it. -/
theorem reads_number {n : Number} (hn : n.Readable) (h : c.ahead = n.written ++ rest)
    (hrest : n.EndsBefore rest) : Reads numeral c n rest := by
  cases n with
  | integer n => exact reads_integer n h hrest
  | real x => exact reads_real hn h hrest
  | complex re im => exact reads_complex hn.1 hn.2.1 hn.2.2 h

/-- A number is written with a digit in front, or with a minus and a digit. -/
theorem written_number_start {n : Number} (hn : n.Readable) :
    ∃ d run, d.isDigit = true ∧ (n.written = d :: run ∨ n.written = '-' :: d :: run) := by
  have hmagnitude : ∀ {x : Float} (more : List Char), x.isFinite = true →
      ∃ d run, Number.magnitudeWritten x ++ more = d :: run ∧ d.isDigit = true := by
    intro x more hx
    obtain ⟨d, run, hwritten, hd⟩ := exists_digit hx
    exact ⟨d, run ++ more, by rw [hwritten, List.cons_append], hd⟩
  cases n with
  | integer n =>
    obtain ⟨d, run, hwritten⟩ :=
      List.exists_cons_of_ne_nil (Nat.toDigits_ne_nil (b := 10) (n := n.natAbs))
    have hd : d.isDigit = true := Nat.isDigit_of_mem_toDigits (n := n.natAbs) (b := 10) (by decide)
      (by decide) (by rw [hwritten]; exact List.mem_cons_self)
    refine ⟨d, run, hd, ?_⟩
    rw [Number.written_integer, hwritten]
    split
    · exact Or.inr rfl
    · exact Or.inl rfl
  | real x =>
    obtain ⟨hnan, hinf⟩ := isNaN_isInf_of_isFinite hn
    rw [Number.written, Number.realWritten, hnan, hinf, if_neg Bool.false_ne_true]
    split
    · obtain ⟨d, run, hwritten, hd⟩ := exists_digit ((Number.isFinite_neg x).trans hn)
      exact ⟨d, run, hd, Or.inr (by rw [hwritten])⟩
    · obtain ⟨d, run, hwritten, hd⟩ := exists_digit hn
      exact ⟨d, run, hd, Or.inl (by rw [if_neg Bool.false_ne_true, hwritten])⟩
  | complex re im =>
    rw [Number.written]
    split
    · obtain ⟨d, run, hwritten, hd⟩ := hmagnitude _ ((Number.isFinite_neg re).trans hn.1)
      exact ⟨d, run, hd, Or.inr (by rw [Number.complexWritten, hwritten])⟩
    · obtain ⟨d, run, hwritten, hd⟩ := hmagnitude _ hn.1
      exact ⟨d, run, hd, Or.inl (by rw [Number.complexWritten, hwritten])⟩

/-! ## Symbols, strings and truth values -/

/-- A symbol is read up to where no character goes on with it. -/
theorem reads_symbol {first : Char} {more : List Char} (h : c.ahead = first :: (more ++ rest))
    (hmore : ∀ x ∈ more, continuesSymbol x = true)
    (hrest : ∀ x ∈ rest.head?, continuesSymbol x = false) :
    Reads symbolToken c (.symbol (String.ofList (first :: more))) rest := by
  have htake : Reads (takeWhile continuesSymbol) c.advance more rest :=
    reads_takeWhile (Cursor.ahead_advance_of_head h) hmore hrest
  obtain ⟨c', hc, hrest'⟩ := htake
  rw [takeWhile_run, Cursor.takeWhile_fst, Cursor.ahead_advance, h, List.tail_cons] at hc
  injection hc with hrun hc'
  refine ⟨c', ?_, hrest'⟩
  rw [symbolToken_ok, h, List.tail_cons, hrun, hc']
  rfl

/-- A string is read back from its escaped form between quotes. -/
theorem reads_string (text : String) (h : c.ahead = Quoted.written text ++ rest) :
    Reads stringToken c (.string text) rest := by
  have hdecode : Quoted.decode c.ahead.tail = some (text.toList, rest) := by
    rw [h, Quoted.written, List.cons_append, List.tail_cons, List.append_assoc,
      List.singleton_append]
    exact Quoted.decode_encode text.toList rest
  obtain ⟨hrun, hrest⟩ := stringToken_of_decode hdecode
  rw [String.ofList_toList] at hrun
  exact ⟨_, hrun, hrest⟩

/-- A truth value is read back from its letter behind the number sign. -/
theorem reads_bool (b : Bool) (h : c.ahead = (Atom.bool b).written ++ rest) :
    Reads hashToken c (.bool b) rest := by
  have hahead : (c.advanceBy 2).ahead = rest := by
    rw [Cursor.ahead_advanceBy, h]
    cases b with
    | true => rfl
    | false => rfl
  refine ⟨c.advanceBy 2, ?_, hahead⟩
  unfold hashToken
  rw [bind_of_ok (peekAt_run 1 c), Cursor.peekAt?, h]
  cases b with
  | true => rfl
  | false => rfl

end Scan

end Sexpr
