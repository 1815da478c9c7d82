import Sexpr.Output.Lines
import Sexpr.Proofs.Reader.Step

/-!
# Written data as one text

Data are written piece by piece, and any piece may be the one that does not fit. All the same
the sink ends as if the text of all lines had been written to it at once: two pieces in a row
are one piece, whatever room there is.

> `Emit.put_put`: a text written behind another one.
> `Datum.emit_eq_put`, `Datum.emitLines_eq_put`: a datum, and lines of data.
-/

namespace Sexpr

namespace Emit

variable {written : ByteArray} {n : Nat}

theorem put_of_none (text : String) :
    put text ⟨written, none⟩ = .ok () ⟨written ++ text.toUTF8, none⟩ := rfl

/-- A text that fits is written, and takes its room. -/
theorem put_of_le {text : String} (h : text.toUTF8.size ≤ n) :
    put text ⟨written, some n⟩
      = .ok () ⟨written ++ text.toUTF8, some (n - text.toUTF8.size)⟩ :=
  if_pos h

/-- Of a text that does not fit the beginning is written, and the sink is full. -/
theorem put_of_lt {text : String} (h : n < text.toUTF8.size) :
    put text ⟨written, some n⟩ = .error .full ⟨written ++ text.toUTF8.extract 0 n, some 0⟩ :=
  if_neg (Nat.not_le_of_lt h)

/-- Two texts in a row are one text. -/
theorem put_put (a b : String) : (do put a; put b) = put (a ++ b) := by
  have hbytes : (a ++ b).toUTF8 = a.toUTF8 ++ b.toUTF8 := String.toByteArray_append
  have hsize : (a ++ b).toUTF8.size = a.toUTF8.size + b.toUTF8.size := by
    rw [hbytes, ByteArray.size_append]
  funext ⟨written, room⟩
  cases room with
  | none =>
    rw [bind_of_ok (put_of_none a), put_of_none, put_of_none, hbytes, ByteArray.append_assoc]
  | some n =>
    by_cases ha : a.toUTF8.size ≤ n
    · rw [bind_of_ok (put_of_le ha)]
      by_cases hb : b.toUTF8.size ≤ n - a.toUTF8.size
      · rw [put_of_le hb, put_of_le (by omega), hsize, hbytes, ByteArray.append_assoc,
          Nat.sub_sub]
      · -- the first text fits, and the cut is inside the second one
        have hcut : (a ++ b).toUTF8.extract 0 n
            = a.toUTF8 ++ b.toUTF8.extract 0 (n - a.toUTF8.size) := by
          have hall := ByteArray.extract_zero_max_size (a := a.toUTF8) (i := n)
          rw [Nat.max_eq_left ha] at hall
          rw [hbytes, ByteArray.extract_append, Nat.zero_sub, hall]
        rw [put_of_lt (by omega), put_of_lt (by omega), hcut, ByteArray.append_assoc]
    · have hcut : (a ++ b).toUTF8.extract 0 n = a.toUTF8.extract 0 n := by
        rw [hbytes, ByteArray.extract_append, Nat.zero_sub,
          show n - a.toUTF8.size = 0 by omega, ByteArray.extract_same, ByteArray.append_empty]
      rw [bind_of_error (put_of_lt (by omega)), put_of_lt (by omega), hcut]

/-- Nothing is a text that always fits. -/
theorem put_empty : put "" = pure () := by
  funext ⟨written, room⟩
  have hwritten : written ++ "".toUTF8 = written := ByteArray.append_empty
  cases room with
  | none =>
    rw [put_of_none, hwritten]
    rfl
  | some n =>
    rw [put_of_le (Nat.zero_le n), hwritten]
    rfl

end Emit

namespace Datum

/-- Written piece by piece, a datum is written as one text. -/
theorem emit_eq_put (d : Datum) :
    d.emit = Emit.put d.text ∧ d.emitRest = Emit.put (String.ofList d.restWritten) := by
  induction d with
  | nil => exact ⟨rfl, rfl⟩
  | atom a =>
    refine ⟨rfl, ?_⟩
    rw [emitRest, Emit.put_put, Emit.put_put]
    refine congrArg Emit.put (String.toList_inj.mp ?_)
    simp [restWritten]
  | pair first rest ihfirst ihrest =>
    refine ⟨?_, ?_⟩
    · rw [emit, ihfirst.1, ihrest.2, Emit.put_put, Emit.put_put]
      refine congrArg Emit.put (String.toList_inj.mp ?_)
      simp [text, written]
    · rw [emitRest, ihfirst.1, ihrest.2, Emit.put_put, Emit.put_put]
      refine congrArg Emit.put (String.toList_inj.mp ?_)
      simp [text, restWritten]

theorem lines_cons (d : Datum) (ds : List Datum) :
    lines (d :: ds) = d.text ++ "\n" ++ lines ds := by
  simp [lines]

/-- Lines are written as one text as well. -/
theorem emitLines_eq_put (ds : List Datum) : emitLines ds = Emit.put (lines ds) := by
  induction ds with
  | nil => exact Emit.put_empty.symm
  | cons d ds ih =>
    rw [emitLines, (emit_eq_put d).1, ih, Emit.put_put, Emit.put_put, lines_cons,
      String.append_assoc]

end Datum

end Sexpr
