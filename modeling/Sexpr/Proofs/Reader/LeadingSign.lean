import Sexpr.Proofs.Reader.Parallel
import Sexpr.Proofs.Reader.Placement

/-!
# A sign in front of a number

A sign in front of a text that begins with a digit acts on the outcome as a whole. A plus changes
nothing. A minus changes the sign of the number that is read, of both its parts if it is complex,
and changes no error: what is wrong with the text is wrong in the same place and on the same line.

The sign is passed before anything else of the number and applied after everything else, so behind
it the two runs have the same text ahead and stay side by side up to the end of the text.

> `numeral_of_sign`: a number is what is read behind its sign, with the sign applied.
> `mirrors_datum`: two runs that differ in the sign come to the same but for it.
> `read_signed`: the texts with a sign and the text without.
-/

namespace Sexpr

namespace Scan

/-- A number without the sign in front of it. -/
def unsignedNumeral : Scan Number := do
  match ← unsigned with
  | none => throw .invalidNumber
  | some base => imaginaryIfSigned (← quotient base)

/-- A number is what stands behind its sign, negated behind a minus. -/
theorem numeral_of_sign {c c₁ : Cursor} {negative : Bool} (h : sign c = .ok negative c₁) :
    numeral c
      = (unsignedNumeral >>= fun value => pure (if negative then -value else value)) c₁ := by
  unfold numeral unsignedNumeral
  rw [bind_of_ok h]
  cases hunsigned : unsigned c₁ with
  | error e c₂ => rw [bind_of_error hunsigned, bind_of_error (bind_of_error hunsigned)]
  | ok base c₂ =>
    rw [bind_of_ok hunsigned, bind_assoc, bind_of_ok hunsigned]
    cases base with
    | none => rfl
    | some base => dsimp only; rw [bind_assoc]

/-- What stands behind a sign is read alike from places alike. -/
theorem tracks_unsignedNumeral {lines : UInt32} {stops : Cause → Prop} :
    Tracks lines stops unsignedNumeral unsignedNumeral := by
  unfold unsignedNumeral
  apply tracks_bind tracks_unsigned
  intro base
  split
  · exact tracks_throw _
  · exact tracks_bind (tracks_quotient _) fun ratio => tracks_imaginaryIfSigned ratio

end Scan

namespace Reader

/-- In a reading a number is what stands behind its sign, negated behind a minus. -/
theorem number_of_sign {r : Reading} {c₁ : Cursor} {negative : Bool}
    (h : Scan.sign r.cursor = .ok negative c₁) :
    number Scan.numeral r = (scan Scan.unsignedNumeral >>= fun value =>
      pure (.number (if negative then -value else value))) { r with cursor := c₁ } := by
  have hnumeral := Scan.numeral_of_sign h
  cases hrun : Scan.unsignedNumeral c₁ with
  | error e c₂ =>
    have hscan : scan Scan.unsignedNumeral { r with cursor := c₁ }
        = .error e { r with cursor := c₂ } := scan_of_error hrun
    rw [bind_of_error hrun] at hnumeral
    rw [bind_of_error hscan]
    exact bind_of_error (scan_of_error hnumeral)
  | ok value c₂ =>
    have hscan : scan Scan.unsignedNumeral { r with cursor := c₁ }
        = .ok value { r with cursor := c₂ } := scan_of_ok hrun
    rw [bind_of_ok hrun] at hnumeral
    rw [bind_of_ok hscan]
    exact bind_of_ok (scan_of_ok hnumeral)

/-- Two runs that begin with a number, and have the same ahead of them behind the signs in front,
mirror each other in the way of the second sign. -/
theorem mirrors_datum {depth : Nat} {r r' : Reading} {c₁ c₁' : Cursor} {negative : Bool}
    {f : Datum → Datum} (hf : ∀ n, f (.number n) = .number (if negative then -n else n))
    (hstart : Scan.AtNumeral r.skipFiller.cursor) (hstart' : Scan.AtNumeral r'.skipFiller.cursor)
    (hsign : Scan.sign r.skipFiller.cursor = .ok false c₁)
    (hsign' : Scan.sign r'.skipFiller.cursor = .ok negative c₁') (halike : c₁.Alike 0 c₁') :
    Mirrors f (datum depth r) (datum depth r') := by
  obtain ⟨x, hrun⟩ := datum_of_atNumeral depth hstart
  obtain ⟨x', hrun'⟩ := datum_of_atNumeral depth hstart'
  rw [hrun, hrun', number_of_sign (r := r.skipFiller.noted x) hsign,
    number_of_sign (r := r'.skipFiller.noted x') hsign']
  simp only [← hf]
  exact mirrors_of_agree .number f (tracks_scan Scan.tracks_unsignedNumeral _ _ halike)

end Reader

namespace Datum

/-- The number with the opposite sign. -/
def negated : Datum → Datum
  | atom (.number n) => number (-n)
  | d => d

section

variable {t : String} {d : Char} {rest : List Char}

/-- No filler stands in front of a sign or a digit. -/
theorem skipFiller_start {x : Char} (h : t.toList = x :: rest) (hblank : isBlank x = false)
    (hsemi : x ≠ ';') : (start t).skipFiller = start t :=
  Reader.skipFiller_of_solid (r := start t) h hblank hsemi

variable (h : t.toList = d :: rest) (hd : d.isDigit = true)
include h hd

/-- At a digit a number begins, and no sign is passed. -/
theorem start_digit :
    Scan.AtNumeral (start t).skipFiller.cursor ∧
      Scan.sign (start t).skipFiller.cursor = .ok false (start t).cursor := by
  obtain ⟨hblank, hsemi⟩ := isDigit_solid hd
  rw [skipFiller_start h hblank hsemi]
  exact ⟨⟨d, rest, hd, Or.inl h⟩, Scan.sign_of_digit h hd⟩

/-- Behind the plus the text is ahead as it is on its own. -/
theorem start_plus :
    Scan.AtNumeral (start ("+" ++ t)).skipFiller.cursor ∧
      ∃ c, Scan.sign (start ("+" ++ t)).skipFiller.cursor = .ok false c ∧
        (start t).cursor.Alike 0 c := by
  have htext : ("+" ++ t).toList = '+' :: d :: rest := by
    rw [String.toList_append, h]
    rfl
  rw [skipFiller_start htext (by decide) (by decide)]
  refine ⟨⟨d, rest, hd, Or.inr (Or.inl htext)⟩, _, Scan.sign_of_plus htext, ?_, ?_⟩
  · exact (Cursor.ahead_advance_of_head htext).trans h.symm
  · exact (Cursor.line_advance_of_ne htext (by decide)).trans (UInt32.add_zero _).symm

/-- Behind the minus the text goes on as it would begin without it. -/
theorem start_minus :
    Scan.AtNumeral (start ("-" ++ t)).skipFiller.cursor ∧
      ∃ c, Scan.sign (start ("-" ++ t)).skipFiller.cursor = .ok true c ∧
        (start t).cursor.Alike 0 c := by
  have htext : ("-" ++ t).toList = '-' :: d :: rest := by
    rw [String.toList_append, h]
    rfl
  have hplus : (d :: rest).head? ≠ some '+' := by
    rw [List.head?_cons, ne_eq, Option.some.injEq]
    exact isDigit_ne hd (by decide)
  rw [skipFiller_start htext (by decide) (by decide)]
  refine ⟨⟨d, rest, hd, Or.inr (Or.inr htext)⟩, _, Scan.sign_of_minus htext hplus, ?_, ?_⟩
  · exact (Cursor.ahead_advance_of_head htext).trans h.symm
  · exact (Cursor.line_advance_of_ne htext (by decide)).trans (UInt32.add_zero _).symm

/-- A plus in front makes no difference. -/
theorem read_plus (settings : Settings) : read settings ("+" ++ t) = read settings t := by
  obtain ⟨hstart, hsign⟩ := start_digit h hd
  obtain ⟨hstart', c, hsign', halike⟩ := start_plus h hd
  have hread := read_of_mirrors settings settings rfl
    (Reader.mirrors_datum (f := id) (fun _ => rfl) hstart hstart' hsign hsign' halike)
  rw [hread]
  cases read settings t with
  | ok v => rfl
  | error e => rfl

/-- A minus in front negates the number, and the errors are those without it. -/
theorem read_minus (settings : Settings) :
    read settings ("-" ++ t) = (read settings t).map negated := by
  obtain ⟨hstart, hsign⟩ := start_digit h hd
  obtain ⟨hstart', c, hsign', halike⟩ := start_minus h hd
  exact read_of_mirrors settings settings rfl
    (Reader.mirrors_datum (f := negated) (fun _ => rfl) hstart hstart' hsign hsign' halike)

/-- A text that begins with a digit reads as a number, if it is read. -/
theorem number_of_read {settings : Settings} {v : Datum} (hread : read settings t = .ok v) :
    ∃ n, v = .number n := by
  obtain ⟨_, honly⟩ := read_eq_ok_iff.mp hread
  obtain ⟨r, hrun, _⟩ := Reader.datum_of_onlyDatum honly
  obtain ⟨n, hn, _⟩ := Reader.ok_of_datum_number (start_digit h hd).1 hrun
  exact ⟨n, hn⟩

/-- In front of a text that begins with a digit a plus makes no difference. A minus makes one to
the number that is read, in both its parts if it is complex, and to no error. -/
theorem read_signed (settings : Settings) :
    read settings ("+" ++ t) = read settings t ∧
    ((∃ n, read settings t = .ok (.number n) ∧ read settings ("-" ++ t) = .ok (.number (-n))) ∨
      ∃ e, read settings t = .error e ∧ read settings ("-" ++ t) = .error e) := by
  refine ⟨read_plus h hd settings, ?_⟩
  rw [read_minus h hd]
  cases hread : read settings t with
  | ok v =>
    obtain ⟨n, rfl⟩ := number_of_read h hd hread
    exact Or.inl ⟨n, rfl, rfl⟩
  | error e => exact Or.inr ⟨e, rfl, rfl⟩

end

/-- Both parts of a complex number, and a parenthesis too many on the line below one. -/
theorem read_signed_sample :
    (∃ re im, read {} "1-2i" = .ok (.number (.complex re im)) ∧
      read {} ("+" ++ "1-2i") = .ok (.number (.complex re im)) ∧
      read {} ("-" ++ "1-2i") = .ok (.number (.complex (-re) (-im)))) ∧
    read {} ("-" ++ "7\n)") = .error ⟨.trailingContent ')', "__unknown__", 2⟩ := by
  refine ⟨?_, ?_⟩
  · have hread : ∃ re im, read {} "1-2i" = .ok (.number (.complex re im)) := ⟨_, _, by rfl⟩
    obtain ⟨re, im, hread⟩ := hread
    obtain ⟨hplus, hminus⟩ := read_signed (t := "1-2i") rfl (by decide) {}
    refine ⟨re, im, hread, hplus.trans hread, ?_⟩
    rcases hminus with ⟨n, hok, hminus⟩ | ⟨e, herror, _⟩
    · rw [hread] at hok
      injection hok with hok
      injection hok with hok
      injection hok with hok
      rw [hminus, ← hok]
      rfl
    · exact absurd (hread.symm.trans herror) (by simp)
  · have hread : read {} "7\n)" = .error ⟨.trailingContent ')', "__unknown__", 2⟩ := by rfl
    obtain ⟨_, hminus⟩ := read_signed (t := "7\n)") rfl (by decide) {}
    rcases hminus with ⟨n, hok, _⟩ | ⟨e, herror, hminus⟩
    · exact absurd (hread.symm.trans hok) (by simp)
    · rw [hminus, ← herror, hread]

end Datum

end Sexpr
