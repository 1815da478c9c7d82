/-!
# Integers as doubles

An integer becomes a double by way of its leading 64 bits. If it has no more than
that, the double is the nearest one, of two equally near the one with the even
significand. What lies below the leading bits can only break such a tie, so one bit
stands for all of it: the last of the leading bits is set if anything is found below.

Below the leading bits not every bit is looked at. The integer is taken in words of
64 bits, and of each word under the top one only as many low bits count as the top
word holds. So a tie is broken by a low bit of any word, but a high bit may leave it
as it is.

> `leading`: the integer cut down to what its double depends on.
> `floatOfInt`: the double nearest to that.
-/

namespace Sexpr

/-- The number of bits that the top one of the 64-bit words of a number holds. -/
def topWidth (n : Nat) : Nat :=
  n.log2 % 64 + 1

/-- Whether one of the low `width` bits of one of the lowest `words` words is set. -/
def anyLowBit (width : Nat) : (words : Nat) → Nat → Bool
  | 0, _ => false
  | words + 1, n => n % Nat.pow 2 width != 0 || anyLowBit width words (n >>> 64)

/-- The leading 64 bits with zeros below them. The last one is set if one of the
lower bits that count is. -/
def leading (n : Nat) : Nat :=
  let cut := n.log2 - 63
  let kept := n >>> cut
  (if anyLowBit (topWidth n) (n.log2 / 64) n then kept ||| 1 else kept) <<< cut

/-- An integer as a double, infinite beyond the largest one. -/
def floatOfInt (n : Int) : Float :=
  let magnitude := Float.ofModel (.ofNat (leading n.natAbs))
  if n < 0 then -magnitude else magnitude

/-- A number of at most 64 bits is kept as it is. -/
theorem leading_of_lt {n : Nat} (h : n < Nat.pow 2 64) : leading n = n := by
  have width : n.log2 < 64 := by
    by_cases zero : n = 0
    · subst zero
      decide
    · exact (Nat.log2_lt zero).2 h
  have cut : n.log2 - 63 = 0 := by omega
  have words : n.log2 / 64 = 0 := by omega
  simp [leading, cut, words, anyLowBit]

-- `2 ^ 128 + 2 ^ 75` lies half way between two doubles. The top word holds one bit, so
-- of each lower word only the last bit breaks the tie.
example : leading (2 ^ 128 + 2 ^ 75 + 2 ^ 32) = 2 ^ 128 + 2 ^ 75 := by decide +kernel

example : leading (2 ^ 128 + 2 ^ 75 + 1) = 2 ^ 128 + 2 ^ 75 + 2 ^ 65 := by decide +kernel

end Sexpr
