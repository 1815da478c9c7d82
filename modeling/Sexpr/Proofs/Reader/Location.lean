import Mathlib
import Sexpr.Proofs.Reader.Placement

/-!
# The place of an error

An error names a line and often a character, and both are those of the place where reading
stopped: the line is counted up to there, and what is next there, or was passed last, is what
the cause speaks of. Lines are counted in 32 bits, so this holds up to the number of lines that
they can count.

> `Cursor.Counts`: a cursor is on the line that the line feeds behind it make.
> `read_error_located`: every error of a text, with the two parts of the text around its place.
-/

namespace Sexpr

namespace Cursor

/-- The line is the one that the line feeds passed so far make, as far as they can be counted. -/
def Counts (c : Cursor) : Prop :=
  c.line = UInt32.ofNat (1 + c.passed.count '\n')

theorem counts_ofText (text : String) : (ofText text).Counts := rfl

/-- Moving forward keeps count. -/
theorem Passes.counts {c c' : Cursor} (hpass : c.Passes c') (h : c.Counts) : c'.Counts := by
  obtain ⟨n, rfl⟩ := hpass
  rw [Counts, line_advanceBy, h, ← UInt32.ofNat_add, passed_advanceBy, List.count_append,
    List.count_reverse, Nat.add_assoc, Nat.add_comm (c.passed.count '\n')]

/-- With fewer line feeds than the count has room for it is exact. -/
theorem Counts.toNat {c : Cursor} (h : c.Counts) (hfew : c.text.count '\n' < 2 ^ 32 - 1) :
    c.line.toNat = 1 + c.passed.count '\n' := by
  have hle : c.passed.count '\n' ≤ c.text.count '\n' := by
    rw [text, List.count_append, List.count_reverse]
    exact Nat.le_add_right _ _
  rw [h, UInt32.toNat_ofNat']
  exact Nat.mod_eq_of_lt (by omega)

/-- On the way from the beginning of a text to what is ahead now, the line feeds between them
have been counted. -/
theorem Passes.line_toNat {text : String} {c : Cursor} (hpass : (ofText text).Passes c)
    {before : List Char} (htext : text.toList = before ++ c.ahead)
    (hfew : text.toList.count '\n' < 2 ^ 32 - 1) :
    c.line.toNat = 1 + before.count '\n' := by
  have hsame : c.passed.reverse ++ c.ahead = text.toList := hpass.text_eq
  have hpassed : c.passed.reverse = before := List.append_cancel_right (hsame.trans htext)
  rw [(hpass.counts (counts_ofText text)).toNat (by rw [hpass.text_eq]; exact hfew), ← hpassed,
    List.count_reverse]

end Cursor

namespace Datum

variable {settings : Settings} {text : String}

/-- An error has the name of the text, the line of the place where reading stopped, and a cause
that says what is at this place. -/
theorem read_error_located {e : ReadError} (h : read settings text = .error e)
    (hfew : text.toList.count '\n' < 2 ^ 32 - 1) :
    e.name = settings.name ∧
    ∃ p r : List Char, text.toList = p ++ r ∧ e.line.toNat = 1 + p.count '\n' ∧
      e.cause.Locates p r ∧
      ∃ stop : Reading, run settings text = .error e.cause stop ∧
        stop.cursor.passed = p.reverse ∧ stop.cursor.ahead = r := by
  obtain ⟨stop, hrun, hname, hline⟩ := read_eq_error_iff.mp h
  have hpass : (Cursor.ofText text).Passes stop.cursor :=
    (Reader.forward_onlyDatum _).error (r := start text) hrun
  have htext : stop.cursor.text = text.toList := hpass.text_eq
  refine ⟨hname, stop.cursor.passed.reverse, stop.cursor.ahead, htext.symm, ?_, ?_, ?_⟩
  · rw [hline, hpass.line_toNat htext.symm hfew]
  · exact (Reader.placed_onlyDatum _ _).error _ _ hrun
  · exact ⟨stop, hrun, (List.reverse_reverse _).symm, rfl⟩

/-- A quotient by zero on the second line. -/
theorem read_error_located_sample :
    ∃ p r : List Char, "(a\n 1/00.i)".toList = p ++ r ∧ 2 = 1 + p.count '\n' ∧
      Cause.divisionByZero.Locates p r := by
  have hread : read {} "(a\n 1/00.i)" = .error ⟨.divisionByZero, "__unknown__", 2⟩ := by rfl
  obtain ⟨_, p, r, htext, hline, hlocates, _⟩ := read_error_located hread (by decide)
  exact ⟨p, r, htext, hline, hlocates⟩

end Datum

end Sexpr
