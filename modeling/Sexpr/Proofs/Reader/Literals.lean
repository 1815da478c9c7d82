import Sexpr.Proofs.Reader.Numerals
import Sexpr.Proofs.Reader.Roundtrip

/-!
# Numeric literals

The literals of the grammar of numerals as data, with the characters they are written with and
the number they denote. Wherever a literal stands, the reader passes its characters and no more,
and returns what it denotes, if the text ends behind it or goes on with white space or with a
mark that ends a symbol.

The parts of a literal have no fixed length, and where one ends is found only by what comes
next. So each part is read against whatever may follow it in a literal:

> `Scan.reads_unsignedLiteral`: digits and a point, up to what goes on with neither.
> `Scan.reads_divisor`, `Scan.reads_imaginaryLiteral`: the parts that may be missing.
> `Literal.read_value`: the whole of it.
-/

namespace Sexpr

/-! ## The literals and what they denote -/

/-- A sign as it is written. -/
inductive SignMark where
  | plus
  | minus
deriving DecidableEq

namespace SignMark

def char : SignMark → Char
  | plus => '+'
  | minus => '-'

/-- The double with this sign in front. -/
def apply : SignMark → Float → Float
  | plus, x => x
  | minus, x => -x

end SignMark

/-- Digits, and perhaps a point with digits behind it; at least one digit in all. -/
structure UnsignedLiteral where
  whole : List Char
  /-- What stands behind the point, if there is one. -/
  fraction : Option (List Char)
  isDigit_whole : ∀ x ∈ whole, x.isDigit = true
  isDigit_fraction : ∀ x ∈ fraction.getD [], x.isDigit = true
  has_digit : whole ≠ [] ∨ fraction.getD [] ≠ []

namespace UnsignedLiteral

def chars (u : UnsignedLiteral) : List Char :=
  match u.fraction with
  | none => u.whole
  | some digits => u.whole ++ '.' :: digits

/-- The point decides on the kind, and not whether there are digits behind it. -/
def value (u : UnsignedLiteral) : Number :=
  match u.fraction with
  | none => .integer (Nat.ofDigitChars 10 u.whole 0)
  | some digits => .real (Decimal.ofDigits u.whole digits).toFloat

/-- The characters of an unsigned literal are those of an unsigned number with its value. -/
theorem unsigned (u : UnsignedLiteral) : Unsigned u.chars u.value := by
  obtain ⟨whole, fraction, hwhole, hfraction, hdigit⟩ := u
  cases fraction with
  | none => exact .integer (hdigit.resolve_right fun h => h rfl) hwhole
  | some digits => exact .decimal hdigit hwhole hfraction

end UnsignedLiteral

/-- A sign, perhaps a magnitude, and the imaginary unit. -/
structure ImaginaryLiteral where
  sign : SignMark
  magnitude : Option UnsignedLiteral

namespace ImaginaryLiteral

def chars (i : ImaginaryLiteral) : List Char :=
  i.sign.char :: ((i.magnitude.map UnsignedLiteral.chars).getD [] ++ ['i'])

/-- The magnitude, which is one if none is written. -/
def size (i : ImaginaryLiteral) : Number :=
  (i.magnitude.map UnsignedLiteral.value).getD (.integer 1)

/-- The number with this imaginary part. It stays as it is, its kind included, if the part is
zero. -/
def onto (i : ImaginaryLiteral) (base : Number) : Number :=
  if i.size.isZero then base else .complex base.toFloat (i.sign.apply i.size.toFloat)

/-- An imaginary part that is not zero makes the number complex. -/
theorem onto_of_ne_zero (i : ImaginaryLiteral) (base : Number) (h : i.size.isZero = false) :
    i.onto base = .complex base.toFloat (i.sign.apply i.size.toFloat) := by
  rw [onto, h, if_neg Bool.false_ne_true]

end ImaginaryLiteral

/-- A number as it may be written: `sign? base ('/' divisor)? imaginary?`, where the base begins
with a digit and the divisor is not zero. -/
structure Literal where
  sign : Option SignMark
  base : UnsignedLiteral
  starts : base.whole ≠ []
  divisor : Option UnsignedLiteral
  divides : ∀ d ∈ divisor, d.value.isZero = false
  imaginary : Option ImaginaryLiteral

namespace Literal

def divisorChars (l : Literal) : List Char :=
  match l.divisor with
  | none => []
  | some d => '/' :: d.chars

def imaginaryChars (l : Literal) : List Char :=
  (l.imaginary.map ImaginaryLiteral.chars).getD []

def chars (l : Literal) : List Char :=
  (l.sign.map SignMark.char).toList ++ (l.base.chars ++ (l.divisorChars ++ l.imaginaryChars))

/-- The base, or with a divisor the quotient of the two as doubles. -/
def ratio (l : Literal) : Number :=
  match l.divisor with
  | none => l.base.value
  | some d => .real (l.base.value.toFloat / d.value.toFloat)

/-- What the literal denotes without the sign in front. -/
def unsignedValue (l : Literal) : Number :=
  match l.imaginary with
  | none => l.ratio
  | some i => i.onto l.ratio

/-- A minus in front stands for the whole, the imaginary part included. -/
def value (l : Literal) : Number :=
  if l.sign = some .minus then -l.unsignedValue else l.unsignedValue

end Literal

/-! ## Where a part ends -/

/-- No unsigned number goes on with what follows. -/
def EndsUnsigned (rest : List Char) : Prop :=
  ∀ x ∈ rest.head?, x.isDigit = false ∧ x ≠ '.'

/-- It is the first character that ends a number. -/
theorem endsUnsigned_cons {x : Char} (rest : List Char) (hdigit : x.isDigit = false)
    (hpoint : x ≠ '.') : EndsUnsigned (x :: rest) := by
  intro y hy
  rw [← Option.some.inj hy]
  exact ⟨hdigit, hpoint⟩

/-- What does not go on with a symbol is none of the characters that do. -/
theorem head_ne_of_continues {rest : List Char} {x : Char}
    (hrest : ∀ y ∈ rest.head?, continuesSymbol y = false) (hx : continuesSymbol x = true) :
    rest.head? ≠ some x :=
  fun hhead => absurd (hx.symm.trans (hrest x hhead)) (by decide)

/-- What ends a symbol ends a number. -/
theorem EndsUnsigned.of_not_continues {rest : List Char}
    (hrest : ∀ x ∈ rest.head?, continuesSymbol x = false) : EndsUnsigned rest := by
  intro x hx
  refine ⟨isDigit_of_not_continues (hrest x hx), ?_⟩
  rintro rfl
  exact head_ne_of_continues hrest (by decide) hx

theorem EndsUnsigned.ne_point {rest : List Char} (h : EndsUnsigned rest) :
    rest.head? ≠ some '.' :=
  fun hhead => (h '.' hhead).2 rfl

namespace SignMark

/-- A sign is a plus or a minus. -/
theorem char_eq (s : SignMark) : s.char = '+' ∨ s.char = '-' := by
  cases s with
  | plus => exact Or.inl rfl
  | minus => exact Or.inr rfl

/-- A sign ends the number in front of it. -/
theorem endsUnsigned (s : SignMark) (rest : List Char) : EndsUnsigned (s.char :: rest) := by
  cases s with
  | plus => exact endsUnsigned_cons rest (by decide) (by decide)
  | minus => exact endsUnsigned_cons rest (by decide) (by decide)

end SignMark

namespace UnsignedLiteral

/-- An unsigned literal is made of digits and a point. -/
theorem of_mem_chars (u : UnsignedLiteral) : ∀ x ∈ u.chars, x.isDigit = true ∨ x = '.' := by
  obtain ⟨whole, fraction, hwhole, hfraction, _⟩ := u
  intro x hx
  cases fraction with
  | none => exact Or.inl (hwhole x hx)
  | some digits =>
    rcases List.mem_append.mp hx with hx | hx
    · exact Or.inl (hwhole x hx)
    · rcases List.mem_cons.mp hx with hx | hx
      · exact Or.inr hx
      · exact Or.inl (hfraction x hx)

/-- It does not begin with a plus, so a minus in front of it stands alone. -/
theorem head_ne_plus (u : UnsignedLiteral) (rest : List Char) :
    (u.chars ++ rest).head? ≠ some '+' := by
  obtain ⟨x, run, hrun⟩ := List.exists_cons_of_ne_nil u.unsigned.ne_nil
  have hx := u.of_mem_chars x (by rw [hrun]; exact List.mem_cons_self)
  rw [hrun, List.cons_append, List.head?_cons]
  intro hplus
  rw [Option.some.inj hplus] at hx
  exact absurd hx (by decide)

end UnsignedLiteral

namespace Literal

variable (l : Literal) {rest : List Char}

/-- Behind the base and its divisor. -/
theorem head_imaginary_ne_slash (hrest : ∀ x ∈ rest.head?, continuesSymbol x = false) :
    (l.imaginaryChars ++ rest).head? ≠ some '/' := by
  unfold imaginaryChars
  cases l.imaginary with
  | none => exact head_ne_of_continues hrest (by decide)
  | some i =>
    intro hslash
    have hchar : i.sign.char = '/' := Option.some.inj hslash
    rcases i.sign.char_eq with h | h
    · exact absurd (h.symm.trans hchar) (by decide)
    · exact absurd (h.symm.trans hchar) (by decide)

/-- The imaginary part ends the number in front of it, or is not there. -/
theorem endsUnsigned_imaginary (hrest : EndsUnsigned rest) :
    EndsUnsigned (l.imaginaryChars ++ rest) := by
  unfold imaginaryChars
  cases l.imaginary with
  | none => exact hrest
  | some i => exact i.sign.endsUnsigned _

/-- Behind the base. -/
theorem endsUnsigned_divisor (hrest : EndsUnsigned rest) :
    EndsUnsigned (l.divisorChars ++ (l.imaginaryChars ++ rest)) := by
  unfold divisorChars
  cases l.divisor with
  | none => exact l.endsUnsigned_imaginary hrest
  | some d => exact endsUnsigned_cons _ (by decide) (by decide)

/-- A literal has a digit before everything but its sign. -/
theorem base_start : ∃ d more, l.base.chars = d :: more ∧ d.isDigit = true := by
  obtain ⟨d, more, hwhole⟩ := List.exists_cons_of_ne_nil l.starts
  have hd := l.base.isDigit_whole d (by rw [hwhole]; exact List.mem_cons_self)
  unfold UnsignedLiteral.chars
  cases l.base.fraction with
  | none => exact ⟨d, more, hwhole, hd⟩
  | some digits => exact ⟨d, more ++ '.' :: digits, by rw [hwhole]; rfl, hd⟩

/-- So it is read as a number, with a sign in front or without. -/
theorem startsNumber (rest : List Char) : Reader.StartsNumber (l.chars ++ rest) := by
  obtain ⟨d, more, hbase, hd⟩ := l.base_start
  unfold chars
  rw [hbase]
  cases l.sign with
  | none => exact ⟨d, _, hd, Or.inl rfl⟩
  | some s => exact ⟨d, _, hd, Or.inr ⟨s.char, s.char_eq.symm, rfl⟩⟩

end Literal

/-! ## Reading the parts -/

namespace Scan

variable {c : Cursor} {rest : List Char}

/-- An unsigned literal is read up to what goes on with neither digits nor a point. -/
theorem reads_unsignedLiteral (u : UnsignedLiteral) (h : c.ahead = u.chars ++ rest)
    (hrest : EndsUnsigned rest) : Reads Scan.unsigned c (some u.value) rest := by
  have hdigit : ∀ x ∈ rest.head?, x.isDigit = false := fun x hx => (hrest x hx).1
  obtain ⟨whole, fraction, hwhole, hfraction, hne⟩ := u
  cases fraction with
  | none =>
    exact reads_unsigned_integer h (hne.resolve_right fun h => h rfl) hwhole hdigit hrest.ne_point
  | some digits =>
    refine reads_unsigned_decimal ?_ hne hwhole hfraction hdigit
    rw [h]
    exact List.append_assoc whole ('.' :: digits) rest

/-- Where a number would end there is none. -/
theorem reads_unsigned_none (h : c.ahead = rest) (hrest : EndsUnsigned rest) :
    Reads Scan.unsigned c none rest := by
  have hdigits : Reads (takeWhile Char.isDigit) c [] rest :=
    reads_takeWhile h (by simp) fun x hx => (hrest x hx).1
  unfold unsigned
  refine reads_bind hdigits fun c₁ h₁ => ?_
  refine reads_bind (reads_accept_not h₁ hrest.ne_point) fun c₂ h₂ => ?_
  exact reads_pure _ h₂

/-- A magnitude, or none, up to the imaginary unit. -/
theorem reads_magnitude (m : Option UnsignedLiteral)
    (h : c.ahead = (m.map UnsignedLiteral.chars).getD [] ++ 'i' :: rest) :
    Reads Scan.unsigned c (m.map UnsignedLiteral.value) ('i' :: rest) := by
  have hunit : EndsUnsigned ('i' :: rest) := endsUnsigned_cons rest (by decide) (by decide)
  cases m with
  | none => exact reads_unsigned_none h hunit
  | some u => exact reads_unsignedLiteral u h hunit

/-- A sign is read if no plus stands right behind a minus. -/
theorem reads_signMark (s : SignMark) {run : List Char} (h : c.ahead = s.char :: run)
    (hplus : run.head? ≠ some '+') : Reads sign c (s == .minus) run := by
  cases s with
  | plus => exact reads_sign_plus h
  | minus => exact reads_sign_minus h hplus

/-- The imaginary part is put onto the number as the literal says. -/
theorem withImaginary_eq_onto (i : ImaginaryLiteral) (base : Number) :
    base.withImaginary (i.sign == .minus) i.size = i.onto base := by
  unfold Number.withImaginary ImaginaryLiteral.onto
  cases i.sign with
  | plus => rfl
  | minus => rfl

theorem reads_imaginaryLiteral (i : ImaginaryLiteral) (base : Number)
    (h : c.ahead = i.chars ++ rest) :
    Reads (imaginaryIfSigned base) c (i.onto base) rest := by
  have hahead : c.ahead
      = i.sign.char :: ((i.magnitude.map UnsignedLiteral.chars).getD [] ++ 'i' :: rest) := by
    rw [h, ImaginaryLiteral.chars, List.cons_append, List.append_assoc]
    rfl
  have hplus : ((i.magnitude.map UnsignedLiteral.chars).getD [] ++ 'i' :: rest).head?
      ≠ some '+' := by
    cases i.magnitude with
    | none => simp
    | some u => exact u.head_ne_plus _
  have hreads : Reads (imaginary base) c (i.onto base) rest := by
    unfold imaginary
    refine reads_bind (reads_signMark i.sign hahead hplus) fun c₁ h₁ => ?_
    refine reads_bind (reads_magnitude i.magnitude h₁) fun c₂ h₂ => ?_
    refine reads_bind (reads_accept h₂) fun c₃ h₃ => ?_
    rw [if_pos rfl, ← withImaginary_eq_onto]
    exact reads_pure _ h₃
  obtain ⟨c', hc, hrest⟩ := hreads
  exact ⟨c', (imaginaryIfSigned_of_sign hahead i.sign.char_eq).trans hc, hrest⟩

variable (l : Literal)

/-- With a divisor the quotient is read, and without one the base stays. -/
theorem reads_divisor (h : c.ahead = l.divisorChars ++ (l.imaginaryChars ++ rest))
    (hrest : ∀ x ∈ rest.head?, continuesSymbol x = false) :
    Reads (quotient l.base.value) c l.ratio (l.imaginaryChars ++ rest) := by
  unfold Literal.divisorChars at h
  unfold Literal.ratio
  cases hdivisor : l.divisor with
  | none =>
    rw [hdivisor] at h
    exact reads_quotient _ h (l.head_imaginary_ne_slash hrest)
  | some d =>
    rw [hdivisor] at h
    have hends := l.endsUnsigned_imaginary (EndsUnsigned.of_not_continues hrest)
    unfold quotient
    refine reads_bind (reads_accept h) fun c₁ h₁ => ?_
    rw [if_pos rfl]
    refine reads_bind (reads_unsignedLiteral d h₁ hends) fun c₂ h₂ => ?_
    show Reads (if d.value.isZero then throw .divisionByZero else _ : Scan Number) c₂ _ _
    rw [l.divides d hdivisor, if_neg Bool.false_ne_true]
    exact reads_pure _ h₂

/-- With an imaginary part it is read onto the quotient, and without one the quotient stays. -/
theorem reads_imaginaryPart (h : c.ahead = l.imaginaryChars ++ rest)
    (hrest : ∀ x ∈ rest.head?, continuesSymbol x = false) :
    Reads (imaginaryIfSigned l.ratio) c l.unsignedValue rest := by
  unfold Literal.imaginaryChars at h
  unfold Literal.unsignedValue
  cases himaginary : l.imaginary with
  | none =>
    rw [himaginary] at h
    exact reads_imaginary_none _ h (head_ne_of_continues hrest (by decide))
      (head_ne_of_continues hrest (by decide))
  | some i =>
    rw [himaginary] at h
    exact reads_imaginaryLiteral i l.ratio h

/-- The sign in front of a base, which begins with a digit. -/
theorem reads_leadingSign {run : List Char}
    (h : c.ahead = (l.sign.map SignMark.char).toList ++ (l.base.chars ++ run)) :
    Reads sign c (l.sign == some .minus) (l.base.chars ++ run) := by
  obtain ⟨d, more, hbase, hd⟩ := l.base_start
  cases hsign : l.sign with
  | none =>
    rw [hsign, hbase] at h
    rw [hbase]
    exact reads_sign_none h hd
  | some s =>
    rw [hsign] at h
    exact reads_signMark s h (l.base.head_ne_plus run)

/-- A literal is read part by part, and a minus in front negates what its parts make. -/
theorem reads_literal (h : c.ahead = l.chars ++ rest)
    (hrest : ∀ x ∈ rest.head?, continuesSymbol x = false) : Reads numeral c l.value rest := by
  have hends := l.endsUnsigned_divisor (EndsUnsigned.of_not_continues hrest)
  have hahead : c.ahead = (l.sign.map SignMark.char).toList
      ++ (l.base.chars ++ (l.divisorChars ++ (l.imaginaryChars ++ rest))) := by
    rw [h, Literal.chars, List.append_assoc, List.append_assoc, List.append_assoc]
  have hreads := reads_numeral_parts (reads_leadingSign l hahead)
    (fun _ h₁ => reads_unsignedLiteral l.base h₁ hends) (fun _ h₂ => reads_divisor l h₂ hrest)
    (fun _ h₃ => reads_imaginaryPart l h₃ hrest)
  rw [Literal.value]
  simpa only [beq_iff_eq] using hreads

end Scan

namespace Literal

/-- Wherever a literal stands, the reader passes exactly its characters and returns the number
it denotes. -/
theorem read_value (l : Literal) (depth : Nat) (r : Reading) {rest : List Char}
    (h : r.cursor.ahead = l.chars ++ rest)
    (hrest : ∀ x ∈ rest.head?, isBlank x = true ∨ isDelimiter x = true) :
    ∃ r', Reader.datum depth r = .ok (.number l.value) r' ∧
      r'.cursor = r.cursor.advanceBy l.chars.length ∧ r'.cursor.ahead = rest := by
  have hstops : ∀ x ∈ rest.head?, continuesSymbol x = false := by
    intro x hx
    rw [continuesSymbol, Bool.not_eq_false', Bool.or_eq_true]
    exact hrest x hx
  have hreads : Reads (Reader.datum depth) r (.number l.value) rest := by
    obtain ⟨inner, hinner⟩ := Reader.exists_datumWith depth
    rw [hinner]
    exact Reader.reads_startsNumber (l.startsNumber rest) h
      fun c hc => Scan.reads_literal l hc hstops
  obtain ⟨r', hr', hahead⟩ := hreads
  have hpass : r.cursor.Passes r'.cursor := (Reader.forward_datum depth).ok hr'
  exact ⟨r', hr', hpass.eq_advanceBy (h.trans (congrArg (l.chars ++ ·) hahead.symm)), hahead⟩

/-- An imaginary part that begins with a point. -/
def sampleImaginary : ImaginaryLiteral where
  sign := .plus
  magnitude := some
    ⟨[], some ['5'], by simp, List.all_eq_true.mp (by decide), Or.inr (by decide)⟩

/-- A minus in front of a quotient and of an imaginary part. -/
def sample : Literal where
  sign := some .minus
  base := ⟨['1'], none, List.all_eq_true.mp (by decide), by simp, Or.inl (by decide)⟩
  starts := by decide
  divisor := some ⟨['2'], none, List.all_eq_true.mp (by decide), by simp, Or.inl (by decide)⟩
  divides := by
    intro d hd
    rw [← Option.some.inj hd]
    rfl
  imaginary := some sampleImaginary

/-- Behind the literal a list ends. -/
theorem read_value_sample :
    (∃ r', Reader.datum 0 (Datum.start "-1/2+.5i)") = .ok (.number sample.value) r' ∧
      r'.cursor.ahead = [')']) ∧
    sample.value = .complex (-(floatOfInt 1 / floatOfInt 2)) (-(Decimal.mk 5 1).toFloat) := by
  refine ⟨?_, ?_⟩
  · have hclose : ∀ x ∈ [')'].head?, isBlank x = true ∨ isDelimiter x = true := by
      intro x hx
      rw [← Option.some.inj hx]
      exact Or.inr rfl
    have hahead : (Datum.start "-1/2+.5i)").cursor.ahead = sample.chars ++ [')'] := by decide
    obtain ⟨r', hr', _, hrest⟩ := sample.read_value 0 _ hahead hclose
    exact ⟨r', hr', hrest⟩
  · have hsize : sampleImaginary.size.isZero = false := by decide +kernel
    have hvalue : sample.value = -sampleImaginary.onto sample.ratio := rfl
    rw [hvalue, sampleImaginary.onto_of_ne_zero _ hsize]
    rfl

end Literal

end Sexpr
