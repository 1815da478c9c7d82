import Sexpr.Proofs.Reader.Locality
import Sexpr.Proofs.Reader.Placement

/-!
# Errors that more text does not mend

An error is raised by a character that is there or by the end of the text. In the first
case nothing that follows can change it: the reader has come to it without having seen the
end. An error about a found character is of this kind, and so is every error of a text that
ends in white space, except that something is missing altogether.

> `read_append_of_final`: the same error, at the same line, whatever follows.
-/

namespace Sexpr

/-- Whether the error is that the text ends too early. -/
def Cause.isIncomplete : Cause → Bool
  | nothingToRead => true
  | unterminatedString => true
  | unclosedList none => true
  | _ => false

/-- Whether the error is about a character that was found. -/
def Cause.isAboutFound : Cause → Bool
  | trailingContent _ => true
  | unclosedList found => found.isSome
  | missingImaginaryUnit found => found.isSome
  | invalidHashToken found => found.isSome
  | vectorUnsupported => true
  | missingItemAfterDot => true
  | nestingTooDeep => true
  | _ => false

/-- The text ends in white space. -/
def EndsBlank (cs : List Char) : Prop :=
  ∃ x ∈ cs.getLast?, isBlank x = true

/-- Any last part of the text ends in white space as well. -/
theorem EndsBlank.of_suffix {cs rest : List Char} (h : EndsBlank cs) (hsuf : rest <:+ cs)
    (hne : rest ≠ []) : EndsBlank rest := by
  obtain ⟨x, hx, hblank⟩ := h
  obtain ⟨front, rfl⟩ := hsuf
  have hlast : (front ++ rest).getLast? = rest.getLast? := by
    rw [List.getLast?_append, List.getLast?_eq_some_getLast hne, Option.some_or]
  exact ⟨x, hlast ▸ hx, hblank⟩

theorem not_endsBlank_singleton {x : Char} (hx : isBlank x = false) : ¬ EndsBlank [x] := by
  rintro ⟨y, hy, hblank⟩
  rw [List.getLast?_singleton, Option.mem_some_iff] at hy
  rw [hy] at hx
  exact absurd (hx.symm.trans hblank) (by decide)

/-- The text ends in a character that is no white space. -/
def EndsSolid (cs : List Char) : Prop :=
  ∃ x ∈ cs.getLast?, isBlank x = false

/-- No text ends both in white space and in another character. -/
theorem not_endsBlank_of_endsSolid {cs : List Char} (h : EndsSolid cs) : ¬ EndsBlank cs := by
  rintro ⟨y, hy, hblank⟩
  obtain ⟨x, hx, hsolid⟩ := h
  rw [Option.mem_unique hx hy] at hsolid
  exact absurd (hsolid.symm.trans hblank) (by decide)

/-- A run without white space is at the end of the text. -/
theorem endsSolid_append {x : Char} (q : List Char) {run : List Char} (hx : isBlank x = false)
    (hrun : ∀ y ∈ run, isBlank y = false) : EndsSolid (q ++ x :: run) := by
  refine ⟨(x :: run).getLast (List.cons_ne_nil x run), ?_, ?_⟩
  · rw [List.getLast?_append, List.getLast?_eq_some_getLast (List.cons_ne_nil x run),
      Option.some_or]
    rfl
  · have hmem := List.getLast_mem (List.cons_ne_nil x run)
    rcases List.mem_cons.mp hmem with h | h
    · rw [h]
      exact hx
    · exact hrun _ h

/-- No number is written with white space in it. -/
theorem Unsigned.isBlank {run : List Char} {n : Number} (h : Unsigned run n) :
    ∀ x ∈ run, isBlank x = false := by
  intro x hx
  cases h with
  | integer _ hdigits => exact (isDigit_solid (hdigits x hx)).1
  | decimal _ hwhole hfraction =>
    rcases List.mem_append.mp hx with hx | hx
    · exact (isDigit_solid (hwhole x hx)).1
    · rcases List.mem_cons.mp hx with rfl | hx
      · decide
      · exact (isDigit_solid (hfraction x hx)).1

variable {c : Cursor} {e : Cause}

/-- A character that was found is there, so more text behind it changes nothing. -/
theorem Cause.Fits.isFinal_of_found (h : e.Fits c) (hfound : e.isAboutFound = true) :
    e.IsFinal c.ahead := by
  have hhead : ∀ {found : Option Char}, c.ahead.head? = found → found.isSome = true →
      c.ahead ≠ [] := by
    rintro found hhead hsome hnil
    rw [← hhead, hnil] at hsome
    exact absurd hsome (by decide)
  cases e with
  | trailingContent found => exact hhead h.1 rfl
  | unclosedList found => exact hhead h.1 hfound
  | missingImaginaryUnit found => exact hhead h.1.1 hfound
  | invalidHashToken found =>
    obtain ⟨rest, hahead, _⟩ := h
    cases found with
    | none => exact absurd hfound (by decide)
    | some x => exact fun hnil => absurd (hahead.symm.trans hnil) (by simp)
  | vectorUnsupported =>
    obtain ⟨rest, hahead⟩ := h
    exact fun hnil => absurd (hahead.symm.trans hnil) (by simp)
  | missingItemAfterDot =>
    obtain ⟨rest, hahead⟩ := h
    exact fun hnil => absurd (hahead.symm.trans hnil) (by simp)
  | nestingTooDeep =>
    obtain ⟨x, rest, hahead, _⟩ := h
    exact fun hnil => absurd (hahead.symm.trans hnil) (by simp)
  | _ => exact absurd hfound (by decide)

/-- Whether a number is not formed as it has to be. -/
def Cause.isNumeric : Cause → Bool
  | invalidNumber => true
  | missingDenominator => true
  | divisionByZero => true
  | missingImaginaryUnit _ => true
  | _ => false

/-- An error in a number comes right behind something of it. -/
theorem Cause.Fits.endsSolid (h : e.Fits c) (hnumeric : e.isNumeric = true) :
    EndsSolid c.passed.reverse := by
  have hmark : ∀ x ∈ ['/', '+', '-'], isBlank x = false := by
    intro x hx
    simp only [List.mem_cons, List.not_mem_nil, or_false] at hx
    rcases hx with rfl | rfl | rfl
    all_goals decide
  cases e with
  | invalidNumber =>
    obtain ⟨⟨q, mark, hp, hmem⟩, _⟩ := h
    rw [hp]
    refine endsSolid_append q (hmark mark hmem) fun y hy => ?_
    rw [List.mem_singleton.mp hy]
    decide
  | missingDenominator =>
    obtain ⟨⟨q, hp⟩, _⟩ := h
    rw [hp]
    exact endsSolid_append q (by decide) (by simp)
  | divisionByZero =>
    obtain ⟨⟨q, run, n, hp, hrun, _⟩, _⟩ := h
    rw [hp]
    exact endsSolid_append q (by decide) hrun.isBlank
  | missingImaginaryUnit found =>
    obtain ⟨_, q, mark, run, hp, hmem, hrun⟩ := h
    rw [hp]
    refine endsSolid_append q (hmark mark (List.mem_cons_of_mem '/' hmem)) ?_
    rcases hrun with rfl | ⟨n, hrun⟩
    · simp
    · exact hrun.isBlank
  | _ => exact absurd hnumeric Bool.false_ne_true

/-- An error in a number comes after something of it, and one about a mark is raised at the
mark, so neither is raised by the end of a text that ends in white space. -/
theorem Cause.Fits.isFinal_of_endsBlank (h : e.Fits c) (hblank : EndsBlank c.text)
    (hinc : e.isIncomplete = false) : e.IsFinal c.ahead := by
  have hnumber : e.isNumeric = true → c.ahead ≠ [] := by
    intro hnumeric hnil
    rw [Cursor.text, hnil, List.append_nil] at hblank
    exact not_endsBlank_of_endsSolid (h.endsSolid hnumeric) hblank
  -- a mark that is raised on its own character has white space behind it
  have hlast : ∀ x, isBlank x = false → c.ahead ≠ [x] := by
    intro x hx hahead
    have hsuf : c.ahead <:+ c.text := List.suffix_append c.passed.reverse c.ahead
    have hend := hblank.of_suffix hsuf (by rw [hahead]; exact List.cons_ne_nil x [])
    rw [hahead] at hend
    exact not_endsBlank_singleton hx hend
  cases e with
  | invalidNumber => exact hnumber rfl
  | missingDenominator => exact hnumber rfl
  | divisionByZero => exact hnumber rfl
  | missingImaginaryUnit found => exact hnumber rfl
  | dotWithoutItem =>
    obtain ⟨rest, hahead, _⟩ := h
    cases rest with
    | nil => exact absurd hahead (hlast '.' (by decide))
    | cons x rest =>
      show 2 ≤ c.ahead.length
      rw [hahead, List.length_cons, List.length_cons]
      omega
  | invalidHashToken found =>
    obtain ⟨rest, hahead, hfound, _⟩ := h
    cases found with
    | none =>
      rw [List.head?_eq_none_iff] at hfound
      rw [hfound] at hahead
      exact absurd hahead (hlast '#' (by decide))
    | some x => exact fun hnil => absurd (hahead.symm.trans hnil) (by simp)
  | unclosedList found =>
    cases found with
    | none => exact absurd hinc (by decide)
    | some x => exact h.isFinal_of_found rfl
  | nothingToRead => exact absurd hinc (by decide)
  | unterminatedString => exact absurd hinc (by decide)
  | _ => exact h.isFinal_of_found rfl

namespace Datum

/-- An error about a character that was found, or any error of a text that ends in white
space unless it is for want of more text, is the error of every longer text. -/
theorem read_append_of_final {settings : Settings} {t : String} {e : ReadError} (s : String)
    (h : read settings t = .error e)
    (hfinal : e.cause.isAboutFound = true ∨
      EndsBlank t.toList ∧ e.cause.isIncomplete = false) :
    read settings (t ++ s) = .error e := by
  obtain ⟨r, hrun, hname, hline⟩ := read_eq_error_iff.mp h
  have hfits : e.cause.Fits r.cursor := (Reader.placed_onlyDatum _ _).error _ _ hrun
  -- the place is in the text, so what the text ends in says what can be ahead of it
  have htext : r.cursor.text = t.toList := by
    exact ((Reader.forward_onlyDatum _).error hrun).text_eq
  have hend : e.cause.IsFinal r.cursor.ahead := by
    rcases hfinal with hfound | ⟨hblank, hinc⟩
    · exact hfits.isFinal_of_found hfound
    · exact hfits.isFinal_of_endsBlank (by rwa [htext]) hinc
  have hlonger := (Reader.localAt_onlyDatum (s := s.toList) _ _).error _ _ hrun hend
  rw [← start_append] at hlonger
  exact read_eq_error_iff.mpr ⟨_, hlonger, hname, hline⟩

/-- A bracket too many, and a quotient that white space cuts off. -/
theorem read_append_of_final_samples :
    read {} "a ) b" = .error ⟨.trailingContent ')', "__unknown__", 1⟩ ∧
      read {} "(1/ \n 2)" = .error ⟨.missingDenominator, "__unknown__", 1⟩ := by
  refine ⟨read_append_of_final (t := "a )") " b" (by rfl) (Or.inl rfl), ?_⟩
  exact read_append_of_final (t := "(1/ ") "\n 2)" (by rfl) (Or.inr ⟨⟨' ', rfl, by decide⟩, rfl⟩)

end Datum

end Sexpr
