import Mathlib.Algebra.Group.Nat.Even
import Sexpr.Proofs.Reader.Step

/-!
# Strings

A string is copied in chunks, and what comes of it is what its characters are decoded to one after
the other. The reader stops right behind the closing quote, or at the end of the text if there is
none.

Which quote closes the string depends on the backslashes in front of it: two of them are an escape
of their own, so in a run of them every other one has its partner before it, and only an odd one is
left for the quote.

> `behind_backslashes`: a quote behind a run of backslashes.
> `behind_append`: up to the run nothing matters but that the string is still open.
> `stringToken_decodes`: a string, wherever it stands.
-/

namespace Sexpr

/-- As long as the count does not start over, it is exact. -/
theorem Cursor.line_toNat_advanceBy {c : Cursor} {n : Nat}
    (hfew : c.line.toNat + (c.ahead.take n).count '\n' < 2 ^ 32) :
    (c.advanceBy n).line.toNat = c.line.toNat + (c.ahead.take n).count '\n' := by
  rw [line_advanceBy, UInt32.toNat_add, UInt32.toNat_ofNat', Nat.add_mod_mod]
  exact Nat.mod_eq_of_lt hfew

namespace Quoted

/-- What stands behind the closing quote. -/
def behind (cs : List Char) : Option (List Char) :=
  (decode cs).map Prod.snd

variable {cs rest text : List Char} {c e : Char}

theorem behind_emit (c : Char) (r : Option (List Char × List Char)) :
    (emit c r).map Prod.snd = r.map Prod.snd := by
  rw [emit, Option.map_map]
  rfl

/-- An escape is inside the string. -/
theorem behind_escape (rest : List Char) (h : unescape? e = some c) :
    behind ('\\' :: e :: rest) = behind rest := by
  rw [behind, decode_escape rest h, behind_emit, behind]

/-- A character that stands for itself is inside the string. -/
theorem behind_plain (h : StandsForItself c rest) : behind (c :: rest) = behind rest := by
  rw [behind, decode_plain h, behind_emit, behind]

/-- The characters of a string end at its closing quote. -/
theorem exists_raw (h : behind cs = some rest) : ∃ raw, cs = raw ++ '\x22' :: rest := by
  induction cs using body_induction with
  | nil => exact absurd h nofun
  | quote rest' => exact ⟨[], congrArg _ (Option.some.inj h)⟩
  | escape e c more hesc ih =>
    rw [behind_escape more hesc] at h
    obtain ⟨raw, rfl⟩ := ih h
    exact ⟨'\\' :: e :: raw, rfl⟩
  | plain c more hc ih =>
    rw [behind_plain hc] at h
    obtain ⟨raw, rfl⟩ := ih h
    exact ⟨c :: raw, rfl⟩

/-- The closing quote is passed, so something is always taken. -/
theorem behind_ne_self (cs : List Char) : behind cs ≠ some cs := by
  intro h
  obtain ⟨raw, hraw⟩ := exists_raw h
  have hlen := congrArg List.length hraw
  rw [List.length_append, List.length_cons] at hlen
  omega

/-- An even run of backslashes leaves the quote to close the string. Of an odd run one is left for
the quote, and the string goes on. -/
theorem behind_backslashes (rest : List Char) (k : Nat) :
    behind (List.replicate k '\\' ++ '\x22' :: rest)
      = if Even k then some rest else behind rest := by
  -- two backslashes are one escape
  induction k using Nat.twoStepInduction with
  | zero => rfl
  | one => exact behind_escape (c := '\x22') rest rfl
  | more k ih _ =>
    have hpair : behind (List.replicate (k + 2) '\\' ++ '\x22' :: rest)
        = behind (List.replicate k '\\' ++ '\x22' :: rest) :=
      behind_escape (c := '\\') _ rfl
    have heven : Even (k + 2) ↔ Even k := by
      rw [Nat.even_add]
      exact iff_true_right ⟨1, rfl⟩
    rw [hpair, ih]
    simp only [heven]

/-- Behind an open string that does not end with a backslash, decoding goes on as from the
beginning. -/
theorem behind_append (hopen : decode cs = none) (hlast : cs.getLast? ≠ some '\\')
    (s : List Char) : behind (cs ++ s) = behind s := by
  induction cs using body_induction with
  | nil => rfl
  | quote rest => exact absurd hopen nofun
  | escape e c more hesc ih =>
    rw [decode_escape more hesc, emit_eq_none] at hopen
    rw [List.cons_append, List.cons_append, behind_escape _ hesc]
    refine ih hopen fun hmore => hlast ?_
    rw [List.getLast?_cons, List.getLast?_cons, hmore]
    rfl
  | plain c more hc ih =>
    rw [decode_plain hc, emit_eq_none] at hopen
    have hplain : StandsForItself c (more ++ s) := by
      by_cases hback : c = '\\'
      · refine hc.append (fun hnil => hlast ?_) s
        rw [hback, hnil]
        rfl
      · exact standsForItself_of_ne hc.1 hback _
    rw [List.cons_append, behind_plain hplain]
    refine ih hopen fun hmore => hlast ?_
    rw [List.getLast?_cons, hmore]
    rfl

/-- A quote behind a maximal run of backslashes in an open string closes it if the run is even,
and only then. -/
theorem behind_eq_some_iff {before : List Char} (hopen : decode before = none)
    (hlast : before.getLast? ≠ some '\\') (k : Nat) (rest : List Char) :
    behind (before ++ (List.replicate k '\\' ++ '\x22' :: rest)) = some rest ↔ Even k := by
  rw [behind_append hopen hlast, behind_backslashes]
  by_cases hk : Even k
  · rw [if_pos hk]
    exact iff_of_true rfl hk
  · rw [if_neg hk]
    exact iff_of_false (behind_ne_self rest) hk

end Quoted

namespace Scan

open Quoted

variable {c : Cursor} {body : List Char}

/-- A string is read up to its closing quote, and the line feeds in it are counted. -/
theorem stringToken_closed (hahead : c.ahead = '\x22' :: body)
    (hfew : c.line.toNat + body.count '\n' < 2 ^ 32) {text rest : List Char}
    (h : decode body = some (text, rest)) :
    ∃ raw c', body = raw ++ '\x22' :: rest ∧
      stringToken c = .ok (.string (String.ofList text)) c' ∧ c' = c.advanceBy (raw.length + 2) ∧
      c'.ahead = rest ∧ c'.line.toNat = c.line.toNat + raw.count '\n' := by
  obtain ⟨raw, rfl⟩ : ∃ raw, body = raw ++ '\x22' :: rest :=
    exists_raw (by rw [behind, h]; rfl)
  obtain ⟨hrun, hrest⟩ := stringToken_of_decode (c := c) (by rw [hahead]; exact h)
  have hwidth : c.ahead.length - rest.length = raw.length + 2 := by
    rw [hahead, List.length_cons, List.length_append, List.length_cons]
    omega
  rw [hwidth] at hrun hrest
  have htake : c.ahead.take (raw.length + 2) = '\x22' :: (raw ++ ['\x22']) := by
    rw [hahead, List.take_succ_cons, List.take_length_add_append]
    rfl
  have hcount : (c.ahead.take (raw.length + 2)).count '\n' = raw.count '\n' := by
    rw [htake, List.count_cons_of_ne (by decide), List.count_append]
    rfl
  have hle : raw.count '\n' ≤ (raw ++ '\x22' :: rest).count '\n' := by
    rw [List.count_append]
    exact Nat.le_add_right _ _
  refine ⟨raw, _, rfl, hrun, rfl, hrest, ?_⟩
  rw [Cursor.line_toNat_advanceBy (by rw [hcount]; omega), hcount]

/-- Reading a string ends right behind its closing quote. -/
theorem stringToken_ends_iff {rest : List Char} :
    (∃ a c', stringToken c = .ok a c' ∧ c'.ahead = rest) ↔ behind c.ahead.tail = some rest := by
  cases hdecode : decode c.ahead.tail with
  | none =>
    refine iff_of_false ?_ (by rw [behind, hdecode]; exact nofun)
    rintro ⟨a, c', hok, _⟩
    exact absurd ((stringToken_of_open hdecode).symm.trans hok) nofun
  | some found =>
    obtain ⟨text, rest'⟩ := found
    obtain ⟨hrun, hrest⟩ := stringToken_of_decode hdecode
    rw [behind, hdecode, Option.map_some, Option.some_inj]
    constructor
    · rintro ⟨a, c', hok, hend⟩
      injection hrun.symm.trans hok with _ hplace
      rw [← hend, ← hplace, hrest]
    · exact fun hend => ⟨_, _, hrun, hrest.trans hend⟩

/-- A string is read as its characters are decoded one after the other, up to the closing quote.
If there is none, the rest of the text is passed. Behind a run of backslashes a quote closes the
string just if the run is even. -/
theorem stringToken_decodes (hahead : c.ahead = '\x22' :: body)
    (hfew : c.line.toNat + body.count '\n' < 2 ^ 32) :
    (∀ text rest, decode body = some (text, rest) → ∃ raw c', body = raw ++ '\x22' :: rest ∧
      stringToken c = .ok (.string (String.ofList text)) c' ∧ c' = c.advanceBy (raw.length + 2) ∧
      c'.ahead = rest ∧ c'.line.toNat = c.line.toNat + raw.count '\n') ∧
    (decode body = none → ∃ c', stringToken c = .error .unterminatedString c' ∧
      c' = c.advanceBy (body.length + 1) ∧ c'.ahead = []) ∧
    (∀ before k rest, body = before ++ (List.replicate k '\\' ++ '\x22' :: rest) →
      decode before = none → before.getLast? ≠ some '\\' →
      ((∃ a c', stringToken c = .ok a c' ∧ c'.ahead = rest) ↔ Even k)) := by
  refine ⟨fun text rest h => stringToken_closed hahead hfew h, fun h => ?_, ?_⟩
  · have hrun := stringToken_of_open (c := c) (by rw [hahead]; exact h)
    have hend := Cursor.ahead_advanceBy_length c
    rw [hahead, List.length_cons] at hrun hend
    exact ⟨_, hrun, rfl, hend⟩
  · rintro before k rest rfl hopen hlast
    rw [← behind_eq_some_iff hopen hlast k rest, stringToken_ends_iff, hahead, List.tail_cons]

/-- A backslash that begins no escape, an escape and a line feed behind a character of two bytes;
an escaped quote at the end of the text; and an escaped backslash in front of a quote. -/
theorem stringToken_decodes_sample :
    (∃ c', stringToken (.ofText "\x22é\\q\\n\n\x22 x") = .ok (.string "é\\q\n\n") c' ∧
      c'.ahead = [' ', 'x'] ∧ c'.line.toNat = 2) ∧
    (∃ c', stringToken (.ofText "\x22a\\\x22") = .error .unterminatedString c' ∧ c'.ahead = []) ∧
    (∃ a c', stringToken (.ofText "\x22a\\\\\x22b") = .ok a c' ∧ c'.ahead = ['b']) := by
  refine ⟨?_, ?_, ?_⟩
  · have hbody : (Cursor.ofText "\x22é\\q\\n\n\x22 x").ahead
        = '\x22' :: "é\\q\\n\n\x22 x".toList := by rfl
    obtain ⟨raw, c', hraw, hrun, _, hahead, hline⟩ :=
      (stringToken_decodes hbody (by decide)).1 "é\\q\n\n".toList [' ', 'x'] (by rfl)
    have hlines : "é\\q\\n\n".toList = raw := List.append_cancel_right hraw
    rw [String.ofList_toList] at hrun
    refine ⟨c', hrun, hahead, hline.trans ?_⟩
    rw [← hlines]
    rfl
  · have hbody : (Cursor.ofText "\x22a\\\x22").ahead = '\x22' :: "a\\\x22".toList := by rfl
    obtain ⟨c', hrun, _, hahead⟩ := (stringToken_decodes hbody (by decide)).2.1 (by rfl)
    exact ⟨c', hrun, hahead⟩
  · have hbody : (Cursor.ofText "\x22a\\\\\x22b").ahead = '\x22' :: "a\\\\\x22b".toList := by rfl
    have hruns := (stringToken_decodes hbody (by decide)).2.2 ['a'] 2 ['b'] (by rfl)
    exact (hruns (by rfl) (by decide)).mpr (by decide)

end Scan

end Sexpr
