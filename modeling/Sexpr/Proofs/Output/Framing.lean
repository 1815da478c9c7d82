import Sexpr.Proofs.Output.Lines
import Sexpr.Proofs.Reader.Atoms

/-!
# Lines of bytes

What is written is bytes, and a sink may have room for only some of them, so the cut can be inside a
character, inside an escape, or between a datum and the end of its line. The sink then holds the
bytes up to the cut and nothing else, and the failure is reported.

A line feed in UTF-8 is the byte 10, which no other character is written with. As data that were
read have no line feed in their written form, the lines come apart again.

> `newline_of_mem_encode`: the byte 10 stands for a line feed only.
> `written_ofRoom`: what a sink with room for so many bytes holds in the end.
> `splitOn_lineBytes`: the bytes of lines without line feeds, split at the byte 10.
> `writeLines_framed`: any data, any room.
-/

namespace Sexpr

/-! ## The bytes of a text -/

/-- The bytes of a text in UTF-8. -/
def utf8Bytes (text : String) : List UInt8 :=
  text.toUTF8.data.toList

/-- The bytes of two texts in a row are those of one and then of the other. -/
theorem utf8Bytes_append (s t : String) : utf8Bytes (s ++ t) = utf8Bytes s ++ utf8Bytes t := by
  show (s ++ t).toByteArray.data.toList = _
  rw [String.toByteArray_append, ByteArray.data_append, Array.toList_append]
  rfl

/-- Each character is encoded on its own. -/
theorem utf8Bytes_eq_flatMap (text : String) :
    utf8Bytes text = text.toList.flatMap String.utf8EncodeChar := by
  show text.toByteArray.data.toList = _
  rw [← String.ofList_toList (s := text), String.toByteArray_ofList, String.toList_ofList]
  exact List.toList_data_toByteArray

theorem newline_ne_ofNat {n : Nat} (hlow : 128 ≤ n) (hhigh : n < 256) :
    (10 : UInt8) ≠ .ofNat n := by
  intro h
  have hnat : 10 = n % 256 := by
    rw [← UInt8.toNat_ofNat', ← h]
    rfl
  omega

/-- The byte 10 stands for a line feed only: in the encoding of a character that takes more than
one byte all of them are at least 128. -/
theorem newline_of_mem_encode {c : Char} (h : (10 : UInt8) ∈ String.utf8EncodeChar c) :
    c = '\n' := by
  have hval : c.toNat = c.val.toNat := rfl
  have hcode : c.toNat = 10 := by
    unfold String.utf8EncodeChar at h
    simp only at h
    split at h
    · next hascii =>
      have hnat := congrArg UInt8.toNat (List.mem_singleton.mp h)
      rw [UInt8.toNat_ofNat', Nat.mod_eq_of_lt (by omega)] at hnat
      exact hval.trans hnat.symm
    · exfalso
      split at h
      · simp only [List.mem_cons, List.not_mem_nil, or_false] at h
        rcases h with h | h <;> exact newline_ne_ofNat (by omega) (by omega) h
      · split at h
        · simp only [List.mem_cons, List.not_mem_nil, or_false] at h
          rcases h with h | h | h <;> exact newline_ne_ofNat (by omega) (by omega) h
        · simp only [List.mem_cons, List.not_mem_nil, or_false] at h
          rcases h with h | h | h | h <;> exact newline_ne_ofNat (by omega) (by omega) h
  rw [← Char.ofNat_toNat c, hcode]

/-- A text without line feeds has no such byte. -/
theorem newline_not_mem_utf8Bytes {text : String} (h : '\n' ∉ text.toList) :
    (10 : UInt8) ∉ utf8Bytes text := by
  rw [utf8Bytes_eq_flatMap]
  intro hmem
  obtain ⟨c, hc, hbyte⟩ := List.mem_flatMap.mp hmem
  rw [newline_of_mem_encode hbyte] at hc
  exact h hc

/-! ## A sink with little room -/

namespace Emit

variable {text : String} {n : Nat}

/-- A text is written if there is room for it. -/
theorem put_ofRoom_of_le (h : (utf8Bytes text).length ≤ n) :
    ∃ s, put text (Sink.ofRoom n) = .ok () s ∧ s.written.data.toList = utf8Bytes text := by
  refine ⟨_, put_of_le h, ?_⟩
  rw [ByteArray.empty_append]
  rfl

/-- Otherwise the beginning that fits is written. -/
theorem put_ofRoom_of_lt (h : n < (utf8Bytes text).length) :
    ∃ s, put text (Sink.ofRoom n) = .error .full s ∧
      s.written.data.toList = (utf8Bytes text).take n := by
  refine ⟨_, put_of_lt h, ?_⟩
  rw [ByteArray.empty_append, ByteArray.data_extract, Array.toList_extract,
    List.extract_eq_take_drop, Nat.sub_zero, List.drop_zero]
  rfl

end Emit

namespace Datum

variable {ds : List Datum} {n : Nat}

/-- The bytes of data as lines: the written form of each, and the byte of a line feed. -/
def lineBytes (ds : List Datum) : List UInt8 :=
  ds.flatMap fun d => utf8Bytes d.text ++ [10]

/-- The bytes of the lines are the lines of bytes. -/
theorem utf8Bytes_lines (ds : List Datum) : utf8Bytes (lines ds) = lineBytes ds := by
  induction ds with
  | nil => rfl
  | cons d ds ih =>
    rw [lines_cons, utf8Bytes_append, utf8Bytes_append, ih]
    rfl

/-- Writing succeeds if there is room for all lines; the sink has taken what there was room for. -/
theorem written_ofRoom (ds : List Datum) (n : Nat) :
    (writeLines ds (Sink.ofRoom n)).1
        = (if (lineBytes ds).length ≤ n then .ok () else .error .full) ∧
      (writeLines ds (Sink.ofRoom n)).2.written.data.toList = (lineBytes ds).take n := by
  unfold writeLines
  rw [emitLines_eq_put, ← utf8Bytes_lines]
  by_cases h : (utf8Bytes (lines ds)).length ≤ n
  · obtain ⟨s, hs, hwritten⟩ := Emit.put_ofRoom_of_le h
    rw [hs, if_pos h, List.take_of_length_le h]
    exact ⟨rfl, hwritten⟩
  · obtain ⟨s, hs, hwritten⟩ := Emit.put_ofRoom_of_lt (Nat.lt_of_not_le h)
    rw [hs, if_neg h]
    exact ⟨rfl, hwritten⟩

/-! ## Lines that come apart -/

/-- No written form has a line feed in it. -/
def InLines (ds : List Datum) : Prop :=
  ∀ d ∈ ds, (10 : UInt8) ∉ utf8Bytes d.text

/-- Data that were read are written without line feeds. -/
theorem inLines_of_read (h : ∀ d ∈ ds, ∃ settings text, read settings text = .ok d) :
    InLines ds := by
  intro d hd
  obtain ⟨settings, text, hread⟩ := h d hd
  exact newline_not_mem_utf8Bytes (read_atoms hread).2.2

theorem count_lineBytes (h : InLines ds) : (lineBytes ds).count 10 = ds.length := by
  induction ds with
  | nil => rfl
  | cons d ds ih =>
    rw [lineBytes, List.flatMap_cons, List.count_append, List.count_append,
      List.count_eq_zero_of_not_mem (h d List.mem_cons_self), List.length_cons]
    have hrest : (lineBytes ds).count 10 = ds.length :=
      ih fun e he => h e (List.mem_cons_of_mem d he)
    show 0 + 1 + (lineBytes ds).count 10 = ds.length + 1
    omega

/-- Behind every line there is a line feed, so behind the last one there is an empty piece. -/
theorem lineBytes_eq_intercalate (ds : List Datum) :
    lineBytes ds = [10].intercalate (ds.map (fun d => utf8Bytes d.text) ++ [[]]) := by
  induction ds with
  | nil => rfl
  | cons d ds ih =>
    rw [lineBytes, List.flatMap_cons, List.map_cons, List.cons_append,
      List.intercalate_cons_of_ne_nil (by simp), ← ih]
    rfl

/-- Cut at the line feeds, the bytes are those of the written forms, and there is nothing behind the
last line feed. -/
theorem splitOn_lineBytes (h : InLines ds) :
    (lineBytes ds).splitOn 10 = ds.map (fun d => utf8Bytes d.text) ++ [[]] := by
  rw [lineBytes_eq_intercalate]
  refine List.splitOn_intercalate 10 (fun piece hpiece => ?_) (by simp)
  rw [List.mem_append, List.mem_singleton] at hpiece
  rcases hpiece with hpiece | rfl
  · obtain ⟨d, hd, rfl⟩ := List.mem_map.mp hpiece
    exact h d hd
  · exact List.not_mem_nil

/-- Into a sink with room for `n` bytes data are written exactly if their lines take no more, and
otherwise the sink is full; what it holds is the first `n` bytes of the lines. The lines of data
that were read have one line feed each, and split there they are the written forms in order. -/
theorem writeLines_framed (ds : List Datum) (n : Nat) :
    ((writeLines ds (Sink.ofRoom n)).1 = .ok () ↔ (lineBytes ds).length ≤ n) ∧
    (n < (lineBytes ds).length → (writeLines ds (Sink.ofRoom n)).1 = .error .full) ∧
    (writeLines ds (Sink.ofRoom n)).2.written.data.toList = (lineBytes ds).take n ∧
    ((∀ d ∈ ds, ∃ settings text, read settings text = .ok d) →
      (lineBytes ds).count 10 = ds.length ∧
      (lineBytes ds).splitOn 10 = ds.map (fun d => utf8Bytes d.text) ++ [[]]) := by
  obtain ⟨hresult, hwritten⟩ := written_ofRoom ds n
  refine ⟨?_, ?_, hwritten, fun hread => ?_⟩
  · rw [hresult]
    split
    · next hroom => exact iff_of_true rfl hroom
    · next hroom => exact iff_of_false nofun hroom
  · intro hlt
    rw [hresult, if_neg (Nat.not_le_of_lt hlt)]
  · have hlines := inLines_of_read hread
    exact ⟨count_lineBytes hlines, splitOn_lineBytes hlines⟩

/-- The cut is inside a character, and the line feed of the string is not one of its line. -/
theorem writeLines_framed_sample :
    (writeLines [.symbol "é", .atom (.string "\n")] (Sink.ofRoom 1)).1 = .error .full ∧
    (writeLines [.symbol "é", .atom (.string "\n")] (Sink.ofRoom 1)).2.written.data.toList
      = [195] ∧
    (lineBytes [.symbol "é", .atom (.string "\n")]).splitOn 10
      = [[195, 169], [34, 92, 110, 34], []] := by
  obtain ⟨_, hfull, hwritten, hframed⟩ :=
    writeLines_framed [.symbol "é", .atom (.string "\n")] 1
  have hsymbol : read {} "é" = .ok (.symbol "é") := by rfl
  have hstring : read {} "\"\n\"" = .ok (.atom (.string "\n")) := by rfl
  have hread : ∀ d ∈ [Datum.symbol "é", .atom (.string "\n")],
      ∃ settings text, read settings text = .ok d := by
    intro d hd
    simp only [List.mem_cons, List.not_mem_nil, or_false] at hd
    rcases hd with rfl | rfl
    · exact ⟨_, _, hsymbol⟩
    · exact ⟨_, _, hstring⟩
  exact ⟨hfull (by decide), hwritten, (hframed hread).2⟩

end Datum

end Sexpr
