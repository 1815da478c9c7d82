import Mathlib.Computability.Language
import Mathlib.Data.List.Chain
import Sexpr.Proofs.Reader.Placement

/-!
# What is read as a number

The grammar of numerals as a language, and what the reader has passed when it has read a number.
That is a word of the grammar, with one exception: an imaginary part may have a plus behind its
minus, and the plus does not count. The grammar has no such word, as a plus never stands behind a
minus in it.

> `Grammar.numeral`: the grammar, for any choice of the signs of an imaginary part.
> `Scan.ok_of_numeral`: what is passed for a number, put together from what its parts pass.
> `Grammar.mem_numeral_iff`: the words of the looser grammar that are words of the grammar.
> `Reader.number_passes_word`: what is passed wherever a number begins.
-/

namespace Sexpr

/-! ## The grammar -/

namespace Grammar

/-- The words of digits only. -/
def digits : Language Char :=
  {w | ∀ x ∈ w, x.isDigit = true}

/-- `digit* ('.' digit*)?`, with at least one digit. -/
def unsigned : Language Char :=
  {w ∈ digits * (1 + {['.']} * digits) | ∃ x ∈ w, x.isDigit = true}

/-- A plus or a minus. -/
def sign : Language Char :=
  {['+'], ['-']}

/-- A sign, or a minus and a plus behind it. -/
def looseSign : Language Char :=
  sign + {['-', '+']}

/-- `sign unsigned? 'i'`. -/
def imaginary (signs : Language Char) : Language Char :=
  signs * ((1 + unsigned) * {['i']})

/-- `sign? unsigned ('/' unsigned)? (sign unsigned? 'i')?`, where an imaginary part has one of
these signs. -/
def numeral (signs : Language Char) : Language Char :=
  (1 + sign) * (unsigned * ((1 + {['/']} * unsigned) * (1 + imaginary signs)))

end Grammar

/-- What is an unsigned number is one of the grammar. -/
theorem Unsigned.mem_unsigned {w : List Char} {n : Number} (h : Unsigned w n) :
    w ∈ Grammar.unsigned := by
  cases h with
  | integer hne hdigits =>
    obtain ⟨x, hx⟩ := List.exists_mem_of_ne_nil w hne
    exact ⟨⟨w, hdigits, [], Or.inl rfl, List.append_nil w⟩, x, hx, hdigits x hx⟩
  | @decimal whole fraction hne hwhole hfraction =>
    refine ⟨⟨whole, hwhole, _, Or.inr ⟨['.'], rfl, fraction, hfraction, rfl⟩, rfl⟩, ?_⟩
    rcases hne with hne | hne
    · obtain ⟨x, hx⟩ := List.exists_mem_of_ne_nil whole hne
      exact ⟨x, List.mem_append_left _ hx, hwhole x hx⟩
    · obtain ⟨x, hx⟩ := List.exists_mem_of_ne_nil fraction hne
      exact ⟨x, List.mem_append_right _ (List.mem_cons_of_mem _ hx), hfraction x hx⟩

/-! ## What the parts of a number pass -/

namespace Scan

variable {c c' : Cursor}

/-- What was accepted is between the two places. -/
theorem ok_of_accept {x : Char} {found : Bool} (h : accept x c = .ok found c') :
    c.Between (if found then [x] else []) c' := by
  rcases accept_cases x c with ⟨c₁, hok, hpass⟩ | ⟨hok, _⟩
  · obtain ⟨rfl, rfl⟩ := EStateM.Result.ok.inj (hok.symm.trans h)
    exact hpass
  · obtain ⟨rfl, rfl⟩ := EStateM.Result.ok.inj (hok.symm.trans h)
    exact Cursor.between_refl c

/-- Between the two places there is an unsigned number of the grammar, or nothing. -/
theorem ok_of_unsigned {found : Option Number} (h : unsigned c = .ok found c') :
    ∃ w, c.Between w c' ∧ (if found.isSome then w ∈ Grammar.unsigned else w = []) := by
  have hrun := unsigned_run c
  rw [h] at hrun
  cases hrun with
  | some hn hpass _ _ => exact ⟨_, hpass, hn.mem_unsigned⟩
  | none hpass _ _ => exact ⟨[], hpass, rfl⟩

/-- A slash and an unsigned number were passed, or nothing was. -/
theorem ok_of_quotient {base value : Number} (h : quotient base c = .ok value c') :
    ∃ w ∈ 1 + {['/']} * Grammar.unsigned, c.Between w c' := by
  obtain ⟨slash, c₁, hslash, h⟩ := ok_of_bind h
  have hpass₁ := ok_of_accept hslash
  cases slash with
  | false =>
    obtain ⟨_, rfl⟩ := ok_of_pure h
    exact ⟨[], Or.inl rfl, hpass₁⟩
  | true =>
    obtain ⟨divisor, c₂, hunsigned, h⟩ := ok_of_bind h
    obtain ⟨w, hpass₂, hw⟩ := ok_of_unsigned hunsigned
    cases divisor with
    | none => exact (ok_of_throw h).elim
    | some divisor =>
      have hend : c₂ = c' := by
        dsimp only at h
        split at h
        · exact (ok_of_throw h).elim
        · exact (ok_of_pure h).2
      subst hend
      exact ⟨_, Or.inr (Language.append_mem_mul rfl hw), hpass₁.trans hpass₂⟩

/-- A sign, perhaps a number, and the unit were passed, where the sign may be a minus and a plus. -/
theorem ok_of_imaginary {base value : Number}
    (hmark : c.ahead.head? = some '+' ∨ c.ahead.head? = some '-')
    (h : imaginary base c = .ok value c') :
    ∃ w ∈ Grammar.imaginary Grammar.looseSign, c.Between w c' := by
  obtain ⟨s, c₁, hsign, hpass₁, hmem, hnone⟩ := sign_run c
  have hs : s ∈ Grammar.looseSign := by
    simp only [List.mem_cons, List.not_mem_nil, or_false] at hmem
    rcases hmem with hs | hs | hs | hs
    · obtain ⟨hplus, hminus⟩ := hnone hs
      rcases hmark with h | h
      · exact absurd h hplus
      · exact absurd h hminus
    · exact Or.inl (Or.inl hs)
    · exact Or.inl (Or.inr hs)
    · exact Or.inr hs
  unfold imaginary at h
  rw [bind_of_ok hsign] at h
  obtain ⟨magnitude, c₂, hunsigned, h⟩ := ok_of_bind h
  obtain ⟨w, hpass₂, hw⟩ := ok_of_unsigned hunsigned
  have hw : w ∈ 1 + Grammar.unsigned := by
    cases magnitude with
    | none => exact Or.inl hw
    | some n => exact Or.inr hw
  obtain ⟨unit, c₃, hunit, h⟩ := ok_of_bind h
  have hpass₃ := ok_of_accept hunit
  cases unit with
  | false =>
    obtain ⟨_, _, _, h⟩ := ok_of_bind h
    exact (ok_of_throw h).elim
  | true =>
    obtain ⟨_, rfl⟩ := ok_of_pure h
    refine ⟨_, ?_, hpass₁.trans (hpass₂.trans hpass₃)⟩
    exact Language.append_mem_mul hs (Language.append_mem_mul hw rfl)

/-- An imaginary part was passed, or nothing was. -/
theorem ok_of_imaginaryIfSigned {base value : Number}
    (h : imaginaryIfSigned base c = .ok value c') :
    ∃ w ∈ 1 + Grammar.imaginary Grammar.looseSign, c.Between w c' := by
  by_cases hmark : c.ahead.head? = some '+' ∨ c.ahead.head? = some '-'
  · have hrun : imaginaryIfSigned base c = imaginary base c := by
      rcases hmark with hhead | hhead
      · obtain ⟨rest, hahead⟩ := List.head?_eq_some_iff.mp hhead
        exact imaginaryIfSigned_of_sign hahead (Or.inl rfl)
      · obtain ⟨rest, hahead⟩ := List.head?_eq_some_iff.mp hhead
        exact imaginaryIfSigned_of_sign hahead (Or.inr rfl)
    obtain ⟨w, hw, hpass⟩ := ok_of_imaginary hmark (hrun.symm.trans h)
    exact ⟨w, Or.inr hw, hpass⟩
  · rw [not_or] at hmark
    rw [imaginaryIfSigned_of_head hmark.1 hmark.2] at h
    obtain ⟨_, rfl⟩ := EStateM.Result.ok.inj h
    exact ⟨[], Or.inl rfl, Cursor.between_refl c⟩

/-- In front of a number there is one sign at most, as a digit follows it. -/
theorem sign_of_begins (h : AtNumeral c) :
    ∃ negative w c₁, sign c = .ok negative c₁ ∧ w ∈ 1 + Grammar.sign ∧ c.Between w c₁ := by
  obtain ⟨_, _, d, rest, hsign, hahead, hd⟩ := sign_of_atNumeral h
  obtain ⟨s, c₁, hrun, hpass, hmem, _⟩ := sign_run c
  obtain ⟨_, rfl⟩ := EStateM.Result.ok.inj (hrun.symm.trans hsign)
  refine ⟨_, s, c₁, hrun, ?_, hpass⟩
  simp only [List.mem_cons, List.not_mem_nil, or_false] at hmem
  rcases hmem with rfl | rfl | rfl | rfl
  · exact Or.inl rfl
  · exact Or.inr (Or.inl rfl)
  · exact Or.inr (Or.inr rfl)
  · -- the plus would be the digit behind the minus
    obtain ⟨d', rest', hd', hstart⟩ := h
    have hpassed := hpass.ahead
    rcases hstart with hstart | hstart | hstart
    all_goals
      rw [hstart] at hpassed
      simp only [List.cons_append, List.cons.injEq] at hpassed
    · rw [hpassed.1] at hd'
      exact absurd hd' (by decide)
    · exact absurd hpassed.1 (by decide)
    · rw [hpassed.2.1] at hd'
      exact absurd hd' (by decide)

/-- A number that was read is a word of the grammar, up to the sign of its imaginary part. -/
theorem ok_of_numeral (hstart : AtNumeral c) {n : Number} (h : numeral c = .ok n c') :
    ∃ w ∈ Grammar.numeral Grammar.looseSign, c.Between w c' := by
  obtain ⟨negative, s, c₁, hsign, hs, hpass₁⟩ := sign_of_begins hstart
  unfold numeral at h
  rw [bind_of_ok hsign] at h
  obtain ⟨base, c₂, hunsigned, h⟩ := ok_of_bind h
  obtain ⟨u, hpass₂, hu⟩ := ok_of_unsigned hunsigned
  cases base with
  | none => exact (ok_of_throw h).elim
  | some base =>
    obtain ⟨ratio, c₃, hquotient, h⟩ := ok_of_bind h
    obtain ⟨q, hq, hpass₃⟩ := ok_of_quotient hquotient
    obtain ⟨value, c₄, himaginary, h⟩ := ok_of_bind h
    obtain ⟨i, hi, hpass₄⟩ := ok_of_imaginaryIfSigned himaginary
    obtain ⟨_, rfl⟩ := ok_of_pure h
    refine ⟨s ++ (u ++ (q ++ i)), ?_, hpass₁.trans (hpass₂.trans (hpass₃.trans hpass₄))⟩
    refine Language.append_mem_mul hs (Language.append_mem_mul hu ?_)
    exact Language.append_mem_mul hq hi

end Scan

/-! ## A plus behind a minus -/

/-- No plus stands right behind a minus. -/
def NoDoubledSign : List Char → Prop :=
  List.IsChain fun x y => ¬ (x = '-' ∧ y = '+')

/-- No plus stands right behind a minus if the two of them are nowhere in the word. -/
theorem noDoubledSign_iff {w : List Char} : NoDoubledSign w ↔ ¬ ['-', '+'] <:+: w := by
  constructor
  · intro h hinfix
    have hpair : NoDoubledSign ['-', '+'] := h.infix hinfix
    exact List.rel_of_isChain_cons_cons hpair ⟨rfl, rfl⟩
  · intro h
    refine (List.isChain_isInfix w).imp fun x y hinfix => ?_
    rintro ⟨rfl, rfl⟩
    exact h hinfix

/-- Neither a plus nor a minus. -/
def Unmarked (w : List Char) : Prop :=
  ∀ x ∈ w, x ≠ '+' ∧ x ≠ '-'

/-- Without signs in front a word has no more doubled signs than the rest of it. -/
theorem Unmarked.noDoubledSign_append {u w : List Char} (hu : Unmarked u) (hw : NoDoubledSign w) :
    NoDoubledSign (u ++ w) := by
  induction u with
  | nil => exact hw
  | cons x u ih =>
    refine List.isChain_cons.mpr ⟨?_, ih fun y hy => hu y (List.mem_cons_of_mem x hy)⟩
    rintro y _ ⟨rfl, _⟩
    exact (hu '-' List.mem_cons_self).2 rfl

/-- One sign in front makes no doubled sign if no plus follows. -/
theorem NoDoubledSign.sign_append {s w : List Char} (hs : s ∈ Grammar.sign)
    (hw : NoDoubledSign w) (hplus : w.head? ≠ some '+') : NoDoubledSign (s ++ w) := by
  have hmark : ∀ mark, NoDoubledSign (mark :: w) := by
    intro mark
    refine List.isChain_cons.mpr ⟨?_, hw⟩
    rintro y hy ⟨_, rfl⟩
    exact hplus hy
  rcases hs with rfl | rfl
  · exact hmark '+'
  · exact hmark '-'

namespace Grammar

variable {w : List Char}

theorem unmarked_digits (h : w ∈ digits) : Unmarked w := by
  intro x hx
  have hd : x.isDigit = true := h x hx
  exact ⟨isDigit_ne hd (by decide), isDigit_ne hd (by decide)⟩

/-- Unsigned numbers are made of digits and a point. -/
theorem unmarked_unsigned (h : w ∈ unsigned) : Unmarked w := by
  obtain ⟨⟨whole, hwhole, more, hmore, rfl⟩, _⟩ := h
  intro x hx
  rcases List.mem_append.mp hx with hx | hx
  · exact unmarked_digits hwhole x hx
  · rcases hmore with rfl | ⟨point, rfl, fraction, hfraction, rfl⟩
    · exact absurd hx List.not_mem_nil
    · rcases List.mem_cons.mp hx with rfl | hx
      · decide
      · exact unmarked_digits hfraction x hx

/-- An unsigned number does not begin with a sign. -/
theorem head_unsigned (h : w ∈ unsigned) (rest : List Char) : (w ++ rest).head? ≠ some '+' := by
  obtain ⟨x, hx, _⟩ := h.2
  obtain ⟨y, more, rfl⟩ := List.exists_cons_of_ne_nil (List.ne_nil_of_mem hx)
  intro hhead
  exact (unmarked_unsigned h y List.mem_cons_self).1 (Option.some.inj hhead)

theorem unmarked_optional_unsigned (h : w ∈ 1 + unsigned) : Unmarked w := by
  rcases h with rfl | h
  · exact fun x hx => absurd hx List.not_mem_nil
  · exact unmarked_unsigned h

/-- A divisor has a slash besides. -/
theorem unmarked_divisor (h : w ∈ 1 + {['/']} * unsigned) : Unmarked w := by
  rcases h with rfl | ⟨slash, rfl, u, hu, rfl⟩
  · exact fun x hx => absurd hx List.not_mem_nil
  · intro x hx
    rcases List.mem_cons.mp hx with rfl | hx
    · decide
    · exact unmarked_unsigned hu x hx

/-- An imaginary part of the grammar has one sign, and no other follows. -/
theorem noDoubledSign_imaginary (h : w ∈ 1 + imaginary sign) : NoDoubledSign w := by
  rcases h with rfl | ⟨s, hs, _, ⟨m, hm, unit, rfl, rfl⟩, rfl⟩
  · exact .nil
  · have hunit : NoDoubledSign (m ++ ['i']) :=
      (unmarked_optional_unsigned hm).noDoubledSign_append (.singleton 'i')
    refine hunit.sign_append hs ?_
    rcases hm with rfl | hm
    · simp
    · exact head_unsigned hm ['i']

/-- A number of the grammar has a sign at its beginning and one before its imaginary part. -/
theorem noDoubledSign_numeral (h : w ∈ numeral sign) : NoDoubledSign w := by
  obtain ⟨s, hs, _, ⟨u, hu, _, ⟨q, hq, i, hi, rfl⟩, rfl⟩, rfl⟩ := h
  have hbehind : NoDoubledSign (u ++ (q ++ i)) :=
    (unmarked_unsigned hu).noDoubledSign_append
      ((unmarked_divisor hq).noDoubledSign_append (noDoubledSign_imaginary hi))
  rcases hs with rfl | hs
  · exact hbehind
  · exact hbehind.sign_append hs (head_unsigned hu _)

/-- A word of the looser grammar is a word of the grammar if no plus stands behind a minus. -/
theorem mem_numeral_iff (h : w ∈ numeral looseSign) :
    w ∈ numeral sign ↔ ¬ ['-', '+'] <:+: w := by
  refine ⟨fun h => noDoubledSign_iff.mp (noDoubledSign_numeral h), fun hfree => ?_⟩
  obtain ⟨s, hs, _, ⟨u, hu, _, ⟨q, hq, i, hi, rfl⟩, rfl⟩, rfl⟩ := h
  have hi : i ∈ 1 + imaginary sign := by
    rcases hi with hi | ⟨mark, hmark | hmark, m, hm, rfl⟩
    · exact Or.inl hi
    · exact Or.inr (Language.append_mem_mul hmark hm)
    · -- here is the plus behind the minus
      rw [Set.mem_singleton_iff.mp hmark] at hfree
      refine absurd ⟨s ++ (u ++ q), m, ?_⟩ hfree
      simp only [List.append_assoc]
  refine Language.append_mem_mul hs (Language.append_mem_mul hu ?_)
  exact Language.append_mem_mul hq hi

end Grammar

/-! ## Wherever a number begins -/

namespace Reader

variable {depth : Nat} {r r' : Reading} {d : Datum}

/-- Where a number begins, what is read is a number, and what is passed for it is a word of the
grammar up to the sign of an imaginary part. It is a word of the grammar itself exactly if that
sign is no minus with a plus behind it. -/
theorem number_passes_word (hstart : Scan.AtNumeral r.skipFiller.cursor)
    (h : datum depth r = .ok d r') :
    (∃ n, d = .number n) ∧
    ∃ w, r.skipFiller.cursor.Between w r'.cursor ∧ w ∈ Grammar.numeral Grammar.looseSign ∧
      (w ∈ Grammar.numeral Grammar.sign ↔ ¬ ['-', '+'] <:+: w) := by
  obtain ⟨n, hd, hnumeral⟩ := ok_of_datum_number hstart h
  obtain ⟨w, hw, hpass⟩ := Scan.ok_of_numeral hstart hnumeral
  exact ⟨⟨n, hd⟩, w, hpass, hw, Grammar.mem_numeral_iff hw⟩

/-- A quotient behind a comment, and with it a plus behind a minus. -/
theorem number_passes_word_sample :
    Scan.AtNumeral (Datum.start ";\n -1/.5-+i)").skipFiller.cursor ∧
    ∃ d r', datum 0 (Datum.start ";\n -1/.5-+i)") = .ok d r' ∧
      (∃ n, d = .number n) ∧
      ∃ w, (Datum.start ";\n -1/.5-+i)").skipFiller.cursor.Between w r'.cursor ∧
        w ∈ Grammar.numeral Grammar.looseSign ∧
        (w ∈ Grammar.numeral Grammar.sign ↔ ¬ ['-', '+'] <:+: w) := by
  have hstart : Scan.AtNumeral (Datum.start ";\n -1/.5-+i)").skipFiller.cursor :=
    ⟨'1', "/.5-+i)".toList, by decide, Or.inr (Or.inr (by decide))⟩
  have hread : ∃ d r', datum 0 (Datum.start ";\n -1/.5-+i)") = .ok d r' := ⟨_, _, by rfl⟩
  obtain ⟨d, r', h⟩ := hread
  exact ⟨hstart, d, r', h, number_passes_word hstart h⟩

/-- The reader takes the whole of this text for a number, and the grammar does not have it. -/
theorem doubled_sign_passes :
    Scan.AtNumeral (Datum.start "1-+2i").skipFiller.cursor ∧
    ∃ n r', datum 0 (Datum.start "1-+2i") = .ok (.number n) r' ∧
      (Datum.start "1-+2i").skipFiller.cursor.Between "1-+2i".toList r'.cursor ∧
      "1-+2i".toList ∉ Grammar.numeral Grammar.sign := by
  refine ⟨⟨'1', "-+2i".toList, by decide, Or.inl (by decide)⟩, _, _, by rfl, ⟨rfl, rfl⟩, ?_⟩
  intro h
  exact noDoubledSign_iff.mp (Grammar.noDoubledSign_numeral h) ⟨['1'], ['2', 'i'], rfl⟩

end Reader

end Sexpr
