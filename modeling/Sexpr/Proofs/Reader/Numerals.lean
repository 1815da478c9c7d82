import Sexpr.Proofs.Reader.Step

/-!
# Parts of a numeral

What the scanners of a numeral pass, in the terms of its grammar. An unsigned number has
digits, and perhaps a point and digits behind it, with at least one digit in all. What is passed
is the longest one there is. In front of a number there is a minus, a plus, one of each in this
order, or neither.

> `Unsigned`: the unsigned numbers as they are written, and what they stand for.
> `unsigned_run`: what comes of reading one, with what is passed and what is left.
> `sign_run`: the same for a sign.
> `sign_of_digit`, `sign_of_plus`, `sign_of_minus`: what the next characters make of it.
-/

namespace Sexpr

/-- The characters are an unsigned number, and this is its value. -/
inductive Unsigned : List Char → Number → Prop where
  | integer {digits : List Char} (hne : digits ≠ []) (hdigits : ∀ x ∈ digits, x.isDigit = true) :
      Unsigned digits (.integer (Nat.ofDigitChars 10 digits 0))
  | decimal {whole fraction : List Char} (hne : whole ≠ [] ∨ fraction ≠ [])
      (hwhole : ∀ x ∈ whole, x.isDigit = true) (hfraction : ∀ x ∈ fraction, x.isDigit = true) :
      Unsigned (whole ++ '.' :: fraction)
        (.real (Decimal.ofDigits whole fraction).toFloat)

/-- A number without a sign has at least one digit. -/
theorem Unsigned.ne_nil {run : List Char} {n : Number} (h : Unsigned run n) : run ≠ [] := by
  cases h with
  | integer hne _ => exact hne
  | decimal _ _ _ => exact List.append_ne_nil_of_right_ne_nil _ (List.cons_ne_nil _ _)

namespace Scan

/-- What reading an unsigned number at a place comes to. It ends before a character that does
not go on with it; a second point would go on with none. -/
inductive UnsignedRun (c : Cursor) : EStateM.Result Cause Cursor (Option Number) → Prop where
  | some {run : List Char} {n : Number} {c' : Cursor} (hrun : Unsigned run n)
      (h : c.Between run c') (hdigit : ∀ x ∈ c'.ahead.head?, x.isDigit = false)
      (hpoint : '.' ∈ run ∨ c'.ahead.head? ≠ some '.') :
      UnsignedRun c (.ok (some n) c')
  | none {c' : Cursor} (h : c.Between [] c') (hdigit : ∀ x ∈ c'.ahead.head?, x.isDigit = false)
      (hpoint : c'.ahead.head? ≠ some '.') :
      UnsignedRun c (.ok none c')
  | point {c' : Cursor} (h : c.Between ['.'] c')
      (hdigit : ∀ x ∈ c'.ahead.head?, x.isDigit = false) :
      UnsignedRun c (.error .invalidNumber c')

/-- All digits that come next are passed, and nothing else. -/
theorem takeDigits_run (c : Cursor) :
    ∃ run c', takeWhile Char.isDigit c = .ok run c' ∧ c.Between run c' ∧
      (∀ x ∈ run, x.isDigit = true) ∧ ∀ x ∈ c'.ahead.head?, x.isDigit = false := by
  refine ⟨_, _, takeWhile_run _ c, Cursor.between_takeWhile c _, ?_, Cursor.head_takeWhile c _⟩
  intro x hx
  exact List.all_eq_true.mp List.all_takeWhile x hx

/-- The number without a sign is read as the grammar has it. -/
theorem unsigned_run (c : Cursor) : UnsignedRun c (unsigned c) := by
  obtain ⟨whole, c₁, hrun, hpass, hwhole, hnext⟩ := takeDigits_run c
  unfold unsigned
  rw [bind_of_ok hrun]
  by_cases hpoint : c₁.ahead.head? = some '.'
  · obtain ⟨rest, hahead⟩ := List.head?_eq_some_iff.mp hpoint
    obtain ⟨fraction, c₂, hrun₂, hpass₂, hfraction, hnext₂⟩ := takeDigits_run c₁.advance
    have hall := hpass.trans ((Cursor.between_advance hahead).trans hpass₂)
    rw [bind_of_ok (accept_of_head hahead), if_pos rfl, bind_of_ok hrun₂]
    by_cases hempty : whole = [] ∧ fraction = []
    · obtain ⟨rfl, rfl⟩ := hempty
      exact .point hall hnext₂
    · rw [Classical.not_and_iff_not_or_not] at hempty
      have hne : (whole.isEmpty && fraction.isEmpty) = false := by
        rcases hempty with h | h
        · rw [List.isEmpty_eq_false_iff.mpr h, Bool.false_and]
        · rw [List.isEmpty_eq_false_iff.mpr h, Bool.and_false]
      rw [hne, if_neg Bool.false_ne_true]
      exact .some (.decimal hempty hwhole hfraction) hall hnext₂ (Or.inl (by simp))
  · rw [bind_of_ok (accept_of_ne hpoint), if_neg Bool.false_ne_true]
    by_cases hempty : whole = []
    · subst hempty
      exact .none hpass hnext hpoint
    · rw [List.isEmpty_eq_false_iff.mpr hempty, if_neg Bool.false_ne_true]
      exact .some (.integer hempty hwhole) hpass hnext (Or.inr hpoint)

/-- The expected character is passed, or another one is next. -/
theorem accept_cases (x : Char) (c : Cursor) :
    (∃ c', accept x c = .ok true c' ∧ c.Between [x] c') ∨
      accept x c = .ok false c ∧ c.ahead.head? ≠ some x := by
  by_cases h : c.ahead.head? = some x
  · obtain ⟨rest, hahead⟩ := List.head?_eq_some_iff.mp h
    exact Or.inl ⟨c.advance, accept_of_head hahead, Cursor.between_advance hahead⟩
  · exact Or.inr ⟨accept_of_ne h, h⟩

/-- What is passed for a sign begins with a minus exactly if it counts as one. -/
theorem sign_run (c : Cursor) :
    ∃ run c', sign c = .ok (run.head? == some '-') c' ∧ c.Between run c' ∧
      run ∈ [[], ['+'], ['-'], ['-', '+']] ∧
      (run = [] → c.ahead.head? ≠ some '+' ∧ c.ahead.head? ≠ some '-') := by
  unfold sign
  rcases accept_cases '-' c with ⟨c₁, hminus, hpass₁⟩ | ⟨hminus, hnext⟩
  · rcases accept_cases '+' c₁ with ⟨c₂, hplus, hpass₂⟩ | ⟨hplus, _⟩
    · rw [bind_of_ok hminus, bind_of_ok hplus]
      exact ⟨['-', '+'], c₂, rfl, hpass₁.trans hpass₂, by simp, by simp⟩
    · rw [bind_of_ok hminus, bind_of_ok hplus]
      exact ⟨['-'], c₁, rfl, hpass₁, by simp, by simp⟩
  · rcases accept_cases '+' c with ⟨c₂, hplus, hpass₂⟩ | ⟨hplus, hnext₂⟩
    · rw [bind_of_ok hminus, bind_of_ok hplus]
      exact ⟨['+'], c₂, rfl, hpass₂, by simp, by simp⟩
    · rw [bind_of_ok hminus, bind_of_ok hplus]
      exact ⟨[], c, rfl, Cursor.between_refl c, by simp, fun _ => ⟨hnext₂, hnext⟩⟩

/-- A digit in front is no sign. -/
theorem sign_of_digit {c : Cursor} {d : Char} {rest : List Char} (h : c.ahead = d :: rest)
    (hd : d.isDigit = true) : sign c = .ok false c := by
  have hne : ∀ x, x.isDigit = false → c.ahead.head? ≠ some x := by
    intro x hx
    rw [h, List.head?_cons, ne_eq, Option.some.injEq]
    exact isDigit_ne hd hx
  unfold sign
  rw [bind_of_ok (accept_of_ne (hne '-' (by decide))),
    bind_of_ok (accept_of_ne (hne '+' (by decide)))]
  rfl

/-- A plus sign is passed. -/
theorem sign_of_plus {c : Cursor} {rest : List Char} (h : c.ahead = '+' :: rest) :
    sign c = .ok false c.advance := by
  have hminus : c.ahead.head? ≠ some '-' := by
    rw [h, List.head?_cons]
    decide
  unfold sign
  rw [bind_of_ok (accept_of_ne hminus), bind_of_ok (accept_of_head h)]
  rfl

/-- A minus sign is passed if no plus sign follows it. -/
theorem sign_of_minus {c : Cursor} {rest : List Char} (h : c.ahead = '-' :: rest)
    (hplus : rest.head? ≠ some '+') : sign c = .ok true c.advance := by
  have hnext : c.advance.ahead.head? ≠ some '+' := by
    rw [Cursor.ahead_advance_of_head h]
    exact hplus
  unfold sign
  rw [bind_of_ok (accept_of_head h), bind_of_ok (accept_of_ne hnext)]
  rfl

end Scan

end Sexpr
