import Sexpr.Proofs.Reader.Step

/-!
# What tokens fail with

The readers of atoms raise a few of the causes only: a number or a token behind a number sign
is not formed as it has to be, or a string is not ended. Whatever else goes wrong in a text is
up to the readers that descend into it.

> `FailsWith`: a step fails with such causes only.
> `failsWith_numeral`, `failsWith_hashToken`, `failsWith_symbolToken`, `failsWith_stringToken`:
> the causes of each kind of token.
-/

namespace Sexpr

/-- Whether a number, or a token behind a number sign, is not formed as it has to be. -/
def Cause.isMalformed : Cause → Bool
  | invalidNumber => true
  | missingDenominator => true
  | divisionByZero => true
  | missingImaginaryUnit _ => true
  | vectorUnsupported => true
  | invalidHashToken _ => true
  | _ => false

/-- The step fails with such causes only. -/
def FailsWith {σ α : Type} (p : Cause → Prop) (m : EStateM Cause σ α) : Prop :=
  ∀ r e r', m r = .error e r' → p e

section

variable {σ α β : Type} {p : Cause → Prop}

/-- A result is no failure. -/
theorem failsWith_pure (a : α) : FailsWith p (pure a : EStateM Cause σ α) :=
  fun _ _ _ h => (error_of_pure h).elim

/-- Raising one of the causes is failing with one of them. -/
theorem failsWith_throw {e : Cause} (he : p e) : FailsWith p (throw e : EStateM Cause σ α) := by
  intro r e' r' h
  rw [← (error_of_throw h).1]
  exact he

/-- Steps in sequence fail with what one of them fails with. -/
theorem failsWith_bind {m : EStateM Cause σ α} {f : α → EStateM Cause σ β}
    (hm : FailsWith p m) (hf : ∀ a, FailsWith p (f a)) : FailsWith p (m >>= f) := by
  intro r e r' h
  rcases error_of_bind h with h | ⟨a, r₁, _, h⟩
  · exact hm r e r' h
  · exact hf a r₁ e r' h

/-- A step that never fails. -/
theorem failsWith_of_ok {m : EStateM Cause σ α} (hm : ∀ r, ∃ a r', m r = .ok a r') :
    FailsWith p m := by
  intro r e r' h
  obtain ⟨a, r₁, hok⟩ := hm r
  exact absurd (hok.symm.trans h) (by simp)

end

namespace Scan

section

variable {p : Cause → Prop}

theorem failsWith_accept (x : Char) : FailsWith p (accept x) :=
  failsWith_of_ok fun c => ⟨_, _, accept_run x c⟩

theorem failsWith_peek : FailsWith p peek :=
  failsWith_of_ok fun c => ⟨_, _, peek_run c⟩

theorem failsWith_takeWhile (q : Char → Bool) : FailsWith p (takeWhile q) :=
  failsWith_of_ok fun c => ⟨_, _, takeWhile_run q c⟩

/-- A symbol ends wherever it does, so there is nothing to fail with. -/
theorem failsWith_symbolToken : FailsWith p symbolToken :=
  failsWith_of_ok fun c => ⟨_, _, symbolToken_ok c⟩

/-- There may be no sign, so looking for one never fails. -/
theorem failsWith_sign : FailsWith p sign := by
  unfold sign
  refine failsWith_bind (failsWith_accept _) fun negative => ?_
  exact failsWith_bind (failsWith_accept _) fun _ => failsWith_pure _

end

/-- A point without a digit on either side is no number. -/
theorem failsWith_unsigned : FailsWith (·.isMalformed) unsigned := by
  unfold unsigned
  refine failsWith_bind (failsWith_takeWhile _) fun whole => ?_
  refine failsWith_bind (failsWith_accept _) fun point => ?_
  split
  · refine failsWith_bind (failsWith_takeWhile _) fun fraction => ?_
    split
    · exact failsWith_throw rfl
    · exact failsWith_pure _
  · split
    · exact failsWith_pure _
    · exact failsWith_pure _

/-- There may be no number behind a slash, or a zero. -/
theorem failsWith_quotient (base : Number) : FailsWith (·.isMalformed) (quotient base) := by
  unfold quotient
  refine failsWith_bind (failsWith_accept _) fun slash => ?_
  split
  · refine failsWith_bind failsWith_unsigned fun divisor => ?_
    split
    · exact failsWith_throw rfl
    · split
      · exact failsWith_throw rfl
      · exact failsWith_pure _
  · exact failsWith_pure _

/-- There may be no unit behind an imaginary part. -/
theorem failsWith_imaginary (base : Number) : FailsWith (·.isMalformed) (imaginary base) := by
  unfold imaginary
  refine failsWith_bind failsWith_sign fun negative => ?_
  refine failsWith_bind failsWith_unsigned fun magnitude => ?_
  refine failsWith_bind (failsWith_accept _) fun unit => ?_
  split
  · exact failsWith_pure _
  · exact failsWith_bind failsWith_peek fun found => failsWith_throw rfl

/-- Only behind a sign can an imaginary part go wrong. -/
theorem failsWith_imaginaryIfSigned (base : Number) :
    FailsWith (·.isMalformed) (imaginaryIfSigned base) := by
  unfold imaginaryIfSigned
  refine failsWith_bind failsWith_peek fun found => ?_
  split
  · exact failsWith_imaginary base
  · exact failsWith_imaginary base
  · exact failsWith_pure _

/-- A number fails with what its parts fail with. -/
theorem failsWith_numeral : FailsWith (·.isMalformed) numeral := by
  unfold numeral
  refine failsWith_bind failsWith_sign fun negative => ?_
  refine failsWith_bind failsWith_unsigned fun base => ?_
  split
  · exact failsWith_throw rfl
  · refine failsWith_bind (failsWith_quotient _) fun value => ?_
    exact failsWith_bind (failsWith_imaginaryIfSigned _) fun _ => failsWith_pure _

/-- Behind a number sign there may be a vector, or no token at all. -/
theorem failsWith_hashToken : FailsWith (·.isMalformed) hashToken := by
  unfold hashToken
  refine failsWith_bind (failsWith_of_ok fun c => ⟨_, _, peekAt_run 1 c⟩) fun found => ?_
  split
  · exact failsWith_of_ok fun c => ⟨_, _, rfl⟩
  · exact failsWith_of_ok fun c => ⟨_, _, rfl⟩
  · exact failsWith_throw rfl
  · exact failsWith_throw rfl

/-- A string can only be left without an end. -/
theorem failsWith_stringToken : FailsWith (· = .unterminatedString) stringToken := by
  intro c e c' h
  cases hdecode : Quoted.decode c.ahead.tail with
  | some found => exact absurd ((stringToken_of_decode hdecode).1.symm.trans h) (by simp)
  | none =>
    injection (stringToken_of_open hdecode).symm.trans h with he _
    exact he.symm

end Scan

namespace Reader

variable {p : Cause → Prop}

/-- In a reading a scanner fails with what it fails with. -/
theorem failsWith_scan {α : Type} {step : Scan α} (h : FailsWith p step) :
    FailsWith p (scan step) :=
  fun r e r' hr => h r.cursor e r'.cursor (error_of_scan hr).1

/-- An atom fails with what its token fails with. -/
theorem failsWith_atom {token : Scan Atom} (h : FailsWith p token) : FailsWith p (atom token) := by
  unfold atom
  exact failsWith_bind (failsWith_scan h) fun _ => failsWith_pure _

/-- A number that is read fails with what scanning it fails with. -/
theorem failsWith_number : FailsWith (·.isMalformed) (number Scan.numeral) := by
  unfold number
  exact failsWith_bind (failsWith_scan Scan.failsWith_numeral) fun _ => failsWith_pure _

end Reader

end Sexpr
