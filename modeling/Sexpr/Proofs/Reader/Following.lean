import Sexpr.Proofs.Reader.Walks

/-!
# Steps that follow the reader

From the place of a reading a checked step comes to what the step of the reader comes to, with a
result at the same place, or with the same cause. That holds of steps in sequence if it holds of
each of them, so it is proved along the structure of the reader. Where the two differ is how a piece
of text is come by: the reader keeps what it passes, the checked one cuts it out in the end.

> `Agrees`, `Follows`: runs that come to the same, and steps whose runs do from wherever they start.
> `follows_bind`, `follows_scan_bind`: steps in sequence.
> `follows_unsigned`, `follows_symbolToken`, `follows_stringToken`: the steps that cut out.
-/

namespace Sexpr

open Walk (Comes)

/-! ## Runs that agree -/

/-- The run ended with an error of the reading. The datum that was begun last may not have been come
upon. -/
structure Walk.Stopped (text : List Char) (most : Nat) (w : Walk) (r : Reading) : Prop where
  line : w.line = r.cursor.line
  sightings : w.sightings = r.sightings
  begun : w.begun.length ≤ r.sightings.length + 1
  sound : w.Sound text most

/-- Both runs come to the same result at the same place, or to the same cause. -/
inductive Agrees {α : Type} (text : List Char) (most active : Nat) :
    EStateM.Result Halt Walk α → EStateM.Result Cause Reading α → Prop where
  | ok {a : α} {w : Walk} {r : Reading} (place : w.At text most active 0 r) :
      Agrees text most active (.ok a w) (.ok a r)
  | error {e : Cause} {w : Walk} {r : Reading} (stopped : w.Stopped text most r) :
      Agrees text most active (.error (.cause e) w) (.error e r)

/-- From the place of the reading the checked step comes to what the step of the reader comes to. -/
def Follows {α : Type} (text : List Char) (most active : Nat) (m' : Checked α) (m : Reader α)
    (r : Reading) : Prop :=
  ∀ w : Walk, w.At text most active 0 r → Agrees text most active (m' w) (m r)

section

variable {text : List Char} {most active pending : Nat} {w : Walk} {r : Reading} {α β : Type}

/-- A walk at the place of a reading may stop there. -/
theorem Walk.At.stopped (h : w.At text most active pending r) (hpending : pending ≤ 1) :
    w.Stopped text most r :=
  ⟨h.line, h.sightings, by rw [h.begun]; omega, h.sound⟩

/-- A step that comes to a result agrees with a run that has it. -/
theorem Walk.Comes.agrees {out : EStateM.Result Halt Walk α} {a : α}
    (h : Comes text most active 0 out a r) : Agrees text most active out (.ok a r) := by
  obtain ⟨w, rfl, hw⟩ := h
  exact .ok hw

theorem follows_pure (a : α) :
    Follows text most active (pure a) (pure a : Reader α) r :=
  fun _ h => .ok h

/-- A cause is raised at the place that was reached. -/
theorem follows_fail (e : Cause) :
    Follows text most active (Checked.fail e) (throw e : Reader α) r :=
  fun _ h => .error (h.stopped (Nat.zero_le 1))

/-- Steps follow in sequence if the second one follows from the place where the first one ends. -/
theorem follows_bind {x' : Checked α} {x : Reader α} {f' : α → Checked β} {f : α → Reader β}
    (hx : Follows text most active x' x r)
    (hf : ∀ a r₁, x r = .ok a r₁ → Follows text most active (f' a) (f a) r₁) :
    Follows text most active (x' >>= f') (x >>= f) r := by
  intro w h
  have hagrees := hx w h
  cases hrun : x r with
  | ok a r₁ =>
    rw [hrun] at hagrees
    rw [bind_of_ok hrun]
    generalize hrun' : x' w = out at hagrees
    cases hagrees with
    | ok place =>
      rw [bind_of_ok hrun']
      exact hf a r₁ hrun _ place
  | error e r₁ =>
    rw [hrun] at hagrees
    rw [bind_of_error hrun]
    generalize hrun' : x' w = out at hagrees
    cases hagrees with
    | error stopped =>
      rw [bind_of_error hrun']
      exact .error stopped

end

namespace Reader

variable {α β : Type}

/-- Scanning in sequence is one scan behind the other. -/
theorem scan_bind (x : Scan α) (f : α → Scan β) :
    scan (x >>= f) = (scan x >>= fun a => scan (f a)) := by
  funext r
  cases hx : x r.cursor with
  | ok a c =>
    rw [bind_of_ok (scan_of_ok hx)]
    show scan (x >>= f) r = scan (f a) { r with cursor := c }
    rw [scan, scan, bind_of_ok hx]
  | error e c =>
    rw [bind_of_error (scan_of_error hx)]
    exact scan_of_error (bind_of_error hx)

/-- If scanning comes to the same from another place of the text, so does reading. -/
theorem scan_of_run {step step' : Scan α} {r : Reading} {c : Cursor}
    (h : step r.cursor = step' c) : scan step r = scan step' { r with cursor := c } := by
  rw [scan, scan, h]

end Reader

/-! ## Scanners -/

namespace Checked

section

variable {text : List Char} {most active : Nat} {r : Reading} {α β : Type}

theorem follows_scan_pure (a : α) :
    Follows text most active (pure a) (Reader.scan (pure a : Scan α)) r :=
  fun _ h => .ok h

theorem follows_scan_fail (e : Cause) :
    Follows text most active (fail e) (Reader.scan (throw e : Scan α)) r :=
  fun _ h => .error (h.stopped (Nat.zero_le 1))

/-- Scanning in sequence is followed as reading in sequence is. -/
theorem follows_scan_bind {x' : Checked α} {x : Scan α} {f' : α → Checked β} {f : α → Scan β}
    (hx : Follows text most active x' (Reader.scan x) r)
    (hf : ∀ a r₁, Follows text most active (f' a) (Reader.scan (f a)) r₁) :
    Follows text most active (x' >>= f') (Reader.scan (x >>= f)) r := by
  rw [Reader.scan_bind]
  exact follows_bind hx fun a r₁ _ => hf a r₁

theorem follows_peek : Follows text most active peek (Reader.scan Scan.peek) r := by
  intro w h
  rw [peek_at h, Reader.peek_run]
  exact .ok h

/-- A character further on is found from the offset as it is from the characters ahead. -/
theorem follows_peekAt (n : Nat) :
    Follows text most active (peekAt n) (Reader.scan (Scan.peekAt n)) r := by
  intro w h
  rw [peekAt_at h]
  exact .ok h

variable (hfew : text.count '\n' < 2 ^ 32 - 1)
include hfew

/-- Passing one character moves the offset by the bytes of the character. -/
theorem follows_advance : Follows text most active advance (Reader.scan (Scan.advance 1)) r :=
  fun _ h => (advance_at h hfew).agrees

theorem follows_advanceBy (n : Nat) :
    Follows text most active (advanceBy n) (Reader.scan (Scan.advance n)) r :=
  fun _ h => (advanceBy_at h hfew n).agrees

/-- The offset moves if the character is the expected one. -/
theorem follows_accept (x : Char) :
    Follows text most active (accept x) (Reader.scan (Scan.accept x)) r :=
  fun _ h => (accept_at h hfew x).agrees

/-- The loop over filler ends where the filler does. -/
theorem follows_filler : Follows text most active filler (Reader.scan Scan.filler) r :=
  fun _ h => (filler_at h hfew).agrees

/-- A mark that is known to be next is passed either way. -/
theorem follows_mark {x : Char} {rest : List Char} (hahead : r.cursor.ahead = x :: rest)
    {f' : Bool → Checked β} {f : Unit → Reader β}
    (hf : Follows text most active (f' true) (f ()) (r.advanceBy 1)) :
    Follows text most active (accept x >>= f') (Reader.scan (Scan.advance 1) >>= f) r := by
  intro w h
  have haccept : r.cursor.accept x = (true, r.cursor.advance) := by
    rw [Cursor.accept, Cursor.peek?, hahead, List.head?_cons, if_pos rfl]
  obtain ⟨w₁, hrun, h₁⟩ := accept_at h hfew x
  rw [haccept] at hrun h₁
  rw [bind_of_ok hrun, bind_of_ok (Reader.advance_run 1 r)]
  exact hf w₁ h₁

/-! ## Numbers -/

omit hfew in
/-- A spelling with a point is the decimal fraction of its digits, if there is one among them. -/
theorem spelled?_real {whole : List Char} (fraction : List Char)
    (hwhole : ∀ x ∈ whole, x.isDigit = true) :
    spelled? true (whole ++ '.' :: fraction)
      = if whole.isEmpty && fraction.isEmpty then none
        else some (.real (Decimal.ofDigits whole fraction).toFloat) := by
  have hdigits : (whole ++ '.' :: fraction).takeWhile Char.isDigit = whole := by
    rw [List.takeWhile_append_of_pos hwhole, List.takeWhile_cons_of_neg (by decide),
      List.append_nil]
  have hdrop : (whole ++ '.' :: fraction).drop (whole.length + 1) = fraction := by
    rw [← List.drop_drop, List.drop_left]
    rfl
  rw [spelled?, hdigits, hdrop, if_pos rfl]

omit hfew in
/-- A spelling without a point is the integer of its digits. -/
theorem spelled?_integer {whole : List Char} (hwhole : ∀ x ∈ whole, x.isDigit = true) :
    spelled? false whole = some (.integer (Nat.ofDigitChars 10 whole 0)) := by
  rw [spelled?, List.takeWhile_eq_self_iff.mpr hwhole, if_neg Bool.false_ne_true]

section

variable {w : Walk} {start : Nat} {whole : List Char}

omit hfew in
/-- Cut out of the text, the digits and the point between them spell the fraction that was
scanned. -/
theorem numberSince_real (h : w.At text most active 0 r) {fraction : List Char}
    (hchunk : r.cursor.HasChunk start (whole ++ '.' :: fraction))
    (hwhole : ∀ x ∈ whole, x.isDigit = true) :
    Agrees text most active (numberSince start true w)
      (Reader.scan (if whole.isEmpty && fraction.isEmpty then throw .invalidNumber
        else return some (.real (Decimal.ofDigits whole fraction).toFloat) :
          Scan (Option Number)) r) := by
  obtain ⟨w₁, hsince, h₁⟩ := since_at h hchunk
  have hne : (whole ++ '.' :: fraction).isEmpty = false :=
    List.isEmpty_eq_false_iff.mpr (List.append_ne_nil_of_right_ne_nil _ (List.cons_ne_nil _ _))
  unfold numberSince
  rw [bind_of_ok hsince, String.toList_ofList, hne, if_neg Bool.false_ne_true,
    spelled?_real fraction hwhole]
  split
  · exact follows_scan_fail _ w₁ h₁
  · exact follows_scan_pure _ w₁ h₁

omit hfew in
/-- Cut out of the text, the digits spell the integer that was scanned. -/
theorem numberSince_integer (h : w.At text most active 0 r)
    (hchunk : r.cursor.HasChunk start whole) (hwhole : ∀ x ∈ whole, x.isDigit = true) :
    Agrees text most active (numberSince start false w)
      (Reader.scan (if whole.isEmpty then return none
        else return some (.integer (Nat.ofDigitChars 10 whole 0)) : Scan (Option Number)) r) := by
  obtain ⟨w₁, hsince, h₁⟩ := since_at h hchunk
  unfold numberSince
  rw [bind_of_ok hsince, String.toList_ofList, spelled?_integer hwhole]
  split
  · exact follows_scan_pure _ w₁ h₁
  · exact follows_scan_pure _ w₁ h₁

end

/-- Digits are looked for once more behind what is no point, and there are none. -/
theorem follows_unsigned :
    Follows text most active unsigned (Reader.scan Scan.unsigned) r := by
  intro w h
  generalize hc : (r.cursor.takeWhile Char.isDigit).2 = c
  have hwhole : ∀ x ∈ r.cursor.ahead.takeWhile Char.isDigit, x.isDigit = true :=
    fun x hx => List.all_eq_true.mp List.all_takeWhile x hx
  have hchunk := (Cursor.hasChunk_nil r.cursor).takeWhile Char.isDigit
  obtain ⟨w₁, hdigits, h₁⟩ := skipWhile_at h hfew Char.isDigit
  obtain ⟨w₂, hpoint, h₂⟩ := accept_at h₁ hfew '.'
  obtain ⟨w₃, hdigits', h₃⟩ := skipWhile_at h₂ hfew Char.isDigit
  have hscan : Scan.takeWhile Char.isDigit r.cursor
      = .ok (r.cursor.ahead.takeWhile Char.isDigit) c := by
    rw [Scan.takeWhile_run, hc]
    rfl
  rw [hc, List.nil_append] at hchunk
  rw [hc] at h₁ h₂ h₃ hpoint
  have hrun : unsigned w = numberSince r.cursor.position (c.accept '.').1 w₃ := by
    rw [← h.position]
    exact (bind_of_ok hdigits).trans ((bind_of_ok hpoint).trans (bind_of_ok hdigits'))
  rw [hrun]
  by_cases hnext : c.ahead.head? = some '.'
  · obtain ⟨rest, hahead⟩ := List.head?_eq_some_iff.mp hnext
    have haccept : c.accept '.' = (true, c.advance) := if_pos hnext
    rw [haccept] at h₃ ⊢
    have hchunk₃ := (hchunk.advance hahead).takeWhile Char.isDigit
    rw [List.append_assoc, List.singleton_append] at hchunk₃
    have hreal := numberSince_real h₃ hchunk₃ hwhole
    have hstep : Reader.scan Scan.unsigned r = _ := Reader.scan_of_run (
      (bind_of_ok hscan).trans ((bind_of_ok (Scan.accept_of_head hahead)).trans
        (bind_of_ok (Scan.takeWhile_run _ _))))
    rw [hstep]
    exact hreal
  · have haccept : c.accept '.' = (false, c) := if_neg hnext
    rw [haccept] at h₃ ⊢
    have hsame : (c.takeWhile Char.isDigit).2 = c := by
      rw [← hc, Cursor.takeWhile_takeWhile]
    rw [hsame] at h₃
    have hinteger := numberSince_integer h₃ hchunk hwhole
    have hstep : Reader.scan Scan.unsigned r = _ := Reader.scan_of_run (
      (bind_of_ok hscan).trans (bind_of_ok (Scan.accept_of_ne hnext)))
    rw [hstep]
    exact hinteger

/-- The divisor is scanned behind the slash, and a zero there is the same error. -/
theorem follows_quotient (base : Number) :
    Follows text most active (quotient base) (Reader.scan (Scan.quotient base)) r := by
  unfold quotient Scan.quotient
  refine follows_scan_bind (follows_accept hfew '/') fun slash r₁ => ?_
  split
  · refine follows_scan_bind (follows_unsigned hfew) fun divisor r₂ => ?_
    cases divisor with
    | none => exact follows_scan_fail _
    | some divisor =>
      dsimp only
      split
      · exact follows_scan_fail _
      · exact follows_scan_pure _
  · exact follows_scan_pure _

theorem follows_sign : Follows text most active sign (Reader.scan Scan.sign) r := by
  refine follows_scan_bind (follows_accept hfew '-') fun negative r₁ => ?_
  exact follows_scan_bind (follows_accept hfew '+') fun _ _ => follows_scan_pure _

/-- The number behind the sign is scanned, and then the unit has to follow. -/
theorem follows_imaginary (base : Number) :
    Follows text most active (imaginary base) (Reader.scan (Scan.imaginary base)) r := by
  refine follows_scan_bind (follows_sign hfew) fun negative r₁ => ?_
  refine follows_scan_bind (follows_unsigned hfew) fun magnitude r₂ => ?_
  refine follows_scan_bind (follows_accept hfew 'i') fun unit r₃ => ?_
  split
  · exact follows_scan_pure _
  · exact follows_scan_bind follows_peek fun _ _ => follows_scan_fail _

/-- Without a sign the number is real and nothing more is passed. -/
theorem follows_imaginaryIfSigned (base : Number) :
    Follows text most active (imaginaryIfSigned base) (Reader.scan (Scan.imaginaryIfSigned base))
      r := by
  refine follows_scan_bind follows_peek fun found r₁ => ?_
  by_cases hmark : found = some '+' ∨ found = some '-'
  · rw [if_pos hmark]
    rcases hmark with rfl | rfl
    · exact follows_imaginary hfew base
    · exact follows_imaginary hfew base
  · rw [if_neg hmark]
    split
    · exact absurd (Or.inl rfl) hmark
    · exact absurd (Or.inr rfl) hmark
    · exact follows_scan_pure _

/-- A number is scanned part by part, each of which is followed. -/
theorem follows_numeral : Follows text most active numeral (Reader.scan Scan.numeral) r := by
  refine follows_scan_bind (follows_sign hfew) fun negative r₁ => ?_
  refine follows_scan_bind (follows_unsigned hfew) fun base r₂ => ?_
  cases base with
  | none => exact follows_scan_fail _
  | some base =>
    refine follows_scan_bind (follows_quotient hfew base) fun value r₃ => ?_
    exact follows_scan_bind (follows_imaginaryIfSigned hfew value) fun _ _ => follows_scan_pure _

/-! ## Other tokens -/

/-- One character behind the number sign decides. -/
theorem follows_hashToken : Follows text most active hashToken (Reader.scan Scan.hashToken) r := by
  refine follows_scan_bind (follows_peekAt 1) fun found r₁ => ?_
  by_cases htrue : found = some 't'
  · rw [if_pos htrue, htrue]
    exact follows_scan_bind (follows_advanceBy hfew 2) fun _ _ => follows_scan_pure _
  rw [if_neg htrue]
  by_cases hfalse : found = some 'f'
  · rw [if_pos hfalse, hfalse]
    exact follows_scan_bind (follows_advanceBy hfew 2) fun _ _ => follows_scan_pure _
  rw [if_neg hfalse]
  by_cases hvector : found = some '('
  · rw [if_pos hvector, hvector]
    exact follows_scan_fail _
  rw [if_neg hvector]
  split
  · exact absurd rfl htrue
  · exact absurd rfl hfalse
  · exact absurd rfl hvector
  · exact follows_scan_fail _

/-- The name that is cut out in the end is what was passed. -/
theorem follows_symbolToken :
    Follows text most active symbolToken (Reader.scan Scan.symbolToken) r := by
  intro w h
  obtain ⟨w₁, hadvance, h₁⟩ := advance_at h hfew
  obtain ⟨w₂, hskip, h₂⟩ := skipWhile_at h₁ hfew continuesSymbol
  have hchunk := ((Cursor.hasChunk_nil r.cursor).advanceBy 1).takeWhile continuesSymbol
  have hahead : (r.cursor.advanceBy 1).ahead = r.cursor.ahead.tail := Cursor.ahead_advance r.cursor
  rw [List.nil_append, List.take_one, hahead] at hchunk
  obtain ⟨w₃, hsince, h₃⟩ := since_at h₂ hchunk
  have hrun : symbolToken w = .ok (.symbol (String.ofList (r.cursor.ahead.head?.toList
      ++ r.cursor.ahead.tail.takeWhile continuesSymbol))) w₃ := by
    rw [← h.position] at hsince
    exact (bind_of_ok hadvance).trans ((bind_of_ok hskip).trans (bind_of_ok hsince))
  rw [hrun, Reader.scan_of_ok (Scan.symbolToken_ok r.cursor)]
  exact .ok h₃

/-! ## Strings -/

/-- In front of the place there is a chunk that begins at the offset. -/
def InString (copied : String × Nat) (r : Reading) : Prop :=
  ∃ chunk, r.cursor.HasChunk copied.2 chunk

/-- The loop comes to the place to which reading the string comes, with the same text, of which the
last chunk is not copied yet. -/
def EndsString (text : List Char) (most active : Nat) (copied : String × Nat) (r : Reading)
    (out : EStateM.Result Halt Walk (String × Nat)) : Prop :=
  ∃ copied' c chunk, Comes text most active 0 out copied' { r with cursor := c } ∧
    c.HasChunk copied'.2 chunk ∧
    Quoted.scanBody copied.1 copied.2 r.cursor r.cursor.ahead
      = (copied'.1 ++ String.ofList chunk, c)

section

variable {w : Walk} {copied : String × Nat}

omit hfew in
/-- The last turn stops at the quote or at the end of the text and copies what is left. -/
theorem stringTurn_last (h : w.At text most active 0 r) (hinv : InString copied r)
    (hrun : stringTurn copied w = .ok (.inr copied) w)
    (hbody : Quoted.scanBody copied.1 copied.2 r.cursor r.cursor.ahead
      = (Quoted.copyChunk copied.1 copied.2 r.cursor, r.cursor)) :
    Turn text most active 0 InString (EndsString text most active) copied r
      (stringTurn copied w) := by
  obtain ⟨chunk, hchunk⟩ := hinv
  rw [hrun]
  exact .last ⟨copied, r.cursor, chunk, ⟨w, rfl, h⟩, hchunk,
    by rw [hbody, Quoted.copyChunk_eq _ hchunk]⟩

/-- A character that stands for itself is passed, to be copied later with those around it. -/
theorem stringTurn_plain (h : w.At text most active 0 r) (hinv : InString copied r) {c : Char}
    {rest : List Char} (hahead : r.cursor.ahead = c :: rest)
    (hc : Quoted.StandsForItself c rest) :
    Turn text most active 0 InString (EndsString text most active) copied r
      (stringTurn copied w) := by
  obtain ⟨chunk, hchunk⟩ := hinv
  obtain ⟨w₁, hadvance, h₁⟩ := advance_at h hfew
  have hpeek := peek_at h
  rw [hahead, List.head?_cons] at hpeek
  have hbehind := Reader.ahead_advanceBy_one hahead
  have hrun : stringTurn copied w = .ok (.inl copied) w₁ := by
    by_cases hback : c = '\\'
    · subst hback
      have hpeek₁ := peek_at h₁
      rw [hbehind] at hpeek₁
      refine (bind_of_ok hpeek).trans ((bind_of_ok hadvance).trans ((bind_of_ok hpeek₁).trans ?_))
      rw [hc.2 rfl]
      rfl
    · refine (bind_of_ok hpeek).trans ?_
      dsimp only
      rw [if_neg hc.1, if_neg hback]
      exact bind_of_ok hadvance
  rw [hrun]
  refine .again h₁ ⟨_, hchunk.advance hahead⟩ (length_advance hahead) fun out hout => ?_
  obtain ⟨copied', place, chunk', hcomes, hchunk', hbody⟩ := hout
  refine ⟨copied', place, chunk', hcomes, hchunk', ?_⟩
  rw [hahead, Quoted.scanBody_plain hc]
  rw [hbehind] at hbody
  exact hbody

/-- Before an escape the characters that stand for themselves are copied, and then what it stands
for. -/
theorem stringTurn_escape (h : w.At text most active 0 r) (hinv : InString copied r) {e c : Char}
    {rest : List Char} (hahead : r.cursor.ahead = '\\' :: e :: rest)
    (hesc : Quoted.unescape? e = some c) :
    Turn text most active 0 InString (EndsString text most active) copied r
      (stringTurn copied w) := by
  obtain ⟨chunk, hchunk⟩ := hinv
  obtain ⟨before, after, htext, hstart, hstop⟩ := exists_chunk h hchunk
  have hbehind := Reader.ahead_advanceBy_one hahead
  obtain ⟨w₁, hadvance₁, h₁⟩ := advance_at h hfew
  obtain ⟨w₂, hslice, h₂⟩ := slice_at h₁ htext
  obtain ⟨w₃, hadvance₃, h₃⟩ := advance_at h₂ hfew
  have hpeek := peek_at h
  rw [hahead, List.head?_cons] at hpeek
  have hpeek₁ := peek_at h₁
  rw [hbehind, List.head?_cons] at hpeek₁
  rw [← hstart, ← hstop] at hslice
  have hrun : stringTurn copied w
      = .ok (.inl ((copied.1 ++ String.ofList chunk).push c, w₃.position)) w₃ := by
    refine (bind_of_ok hpeek).trans ((bind_of_ok hadvance₁).trans ((bind_of_ok hpeek₁).trans ?_))
    rw [Option.bind_some, hesc]
    exact (bind_of_ok hslice).trans (bind_of_ok hadvance₃)
  have hlast := Reader.ahead_advanceBy_one hbehind
  rw [hrun]
  refine .again h₃ ⟨[], ?_⟩ ?_ fun out hout => ?_
  · rw [h₃.position]
    exact Cursor.hasChunk_nil _
  · exact Nat.lt_trans (length_advance hbehind) (length_advance hahead)
  · obtain ⟨copied', place, chunk', hcomes, hchunk', hbody⟩ := hout
    refine ⟨copied', place, chunk', hcomes, hchunk', ?_⟩
    rw [hahead, Quoted.scanBody_escape rest hesc, Quoted.copyChunk_eq _ hchunk]
    rw [hlast, h₃.position] at hbody
    exact hbody

/-- Each turn is of one of the three kinds. -/
theorem stringTurn_at (h : w.At text most active 0 r) (hinv : InString copied r) :
    Turn text most active 0 InString (EndsString text most active) copied r
      (stringTurn copied w) := by
  have hpeek := peek_at h
  induction hahead : r.cursor.ahead using Quoted.body_induction with
  | nil =>
    rw [hahead] at hpeek
    exact stringTurn_last h hinv (bind_of_ok hpeek) (by rw [hahead]; rfl)
  | quote rest =>
    rw [hahead] at hpeek
    exact stringTurn_last h hinv (bind_of_ok hpeek) (by rw [hahead]; rfl)
  | escape e c rest hesc _ => exact stringTurn_escape hfew h hinv hahead hesc
  | plain c rest hc _ => exact stringTurn_plain hfew h hinv hahead hc

end

/-- The loop over the body copies what decoding it character by character gives. -/
theorem follows_stringToken {rest : List Char} (hahead : r.cursor.ahead = '\x22' :: rest) :
    Follows text most active stringToken (Reader.scan Scan.stringToken) r := by
  rw [Scan.stringToken, Reader.scan_bind]
  refine follows_mark hfew hahead fun w h => ?_
  have hinv : InString ("", w.position) (r.advanceBy 1) := by
    refine ⟨[], ?_⟩
    rw [h.position]
    exact Cursor.hasChunk_nil _
  obtain ⟨copied, c, chunk, ⟨w₁, hloop, h₁⟩, hchunk, hbody⟩ :=
    loop_of_turns InString (EndsString text most active) (fun _ _ _ h => stringTurn_at hfew h) h
      hinv
  obtain ⟨w₂, hsince, h₂⟩ := since_at h₁ hchunk
  have hstep : Scan.stringBody (r.advanceBy 1).cursor
      = .ok (copied.1 ++ String.ofList chunk) c := by
    rw [h.position] at hbody
    show EStateM.Result.ok (Quoted.scanBody "" _ _ _).1 (Quoted.scanBody "" _ _ _).2 = _
    rw [hbody]
  have hrun : (do
      let copied ← loop stringTurn ("", ← position)
      let chunk ← since copied.2
      if ← accept '\x22' then return .string (copied.1 ++ chunk)
      else fail .unterminatedString : Checked Atom) w = (do
      if ← accept '\x22' then return .string (copied.1 ++ String.ofList chunk)
      else fail .unterminatedString : Checked Atom) w₂ :=
    (bind_of_ok hloop).trans (bind_of_ok hsince)
  rw [hrun, Reader.scan_of_run (bind_of_ok hstep)]
  refine follows_scan_bind (follows_accept hfew _) (fun closed r₁ => ?_) w₂ h₂
  split
  · exact follows_scan_pure _
  · exact follows_scan_fail _

end

end Checked

end Sexpr
