/-!
# White space

`isBlank` is the Unicode property `White_Space`: the characters that separate
tokens and end a symbol. Only the line feed among them ends a line; that is the
cursor's business, not this module's.
-/

namespace Sexpr

/-- The 25 characters with the Unicode property `White_Space`. The list has not
changed since version 6.3 of the standard, so it is written out. -/
def isBlank (c : Char) : Bool :=
  let n := c.toNat
  (9 ≤ n && n ≤ 13) || n == 32 || n == 0x85 || n == 0xA0 || n == 0x1680
    || (0x2000 ≤ n && n ≤ 0x200A) || n == 0x2028 || n == 0x2029 || n == 0x202F
    || n == 0x205F || n == 0x3000

/-- The white space of ASCII that the core library knows is among it. -/
theorem isBlank_of_isWhitespace {c : Char} (h : c.isWhitespace = true) : isBlank c = true := by
  simp only [Char.isWhitespace, Bool.or_eq_true, decide_eq_true_eq] at h
  rcases h with ((rfl | rfl) | rfl) | rfl <;> decide

/-- White space is no digit. -/
theorem isDigit_of_isBlank (c : Char) (h : isBlank c = true) : c.isDigit = false := by
  have hn : c.toNat = c.val.toNat := rfl
  simp only [isBlank, Bool.or_eq_true, Bool.and_eq_true, decide_eq_true_eq, beq_iff_eq] at h
  simp only [Char.isDigit, ge_iff_le, Bool.and_eq_false_iff, decide_eq_false_iff_not,
    UInt32.le_iff_toNat_le]
  have h0 : ('0').val.toNat = 48 := rfl
  have h9 : ('9').val.toNat = 57 := rfl
  omega

/-- A digit is no other character. -/
theorem isDigit_ne {d x : Char} (hd : d.isDigit = true) (hx : x.isDigit = false) : d ≠ x := by
  intro h
  rw [h, hx] at hd
  exact Bool.false_ne_true hd

end Sexpr
