import Sexpr.Proofs.Text.Slice
import Sexpr.Text.Quoted

/-!
# String literals character by character

What stands behind an opening quote can be decoded without any chunks: each escape stands for one
character, and every other character for itself. Reading copies chunks, but it comes to the same,
as the text copied so far and the chunk behind it are always what has been decoded.

The closing quote is found from the characters up to it only. A literal without one is never
hopeless: whatever it is in the middle of, one more character and a quote close it.

> `decode`: the text of a literal, and what stands behind it.
> `scanBody_of_decode`: reading finds the same text and stops at the same quote.
> `decode_append`: a closing quote that was found stays the closing quote.
> `decode_complete`: an unfinished literal can be finished.
> `decode_encode`: what is written between quotes is read back.
-/

namespace Sexpr.Quoted

/-- One more character in front of the text. -/
def emit (c : Char) : Option (List Char × List Char) → Option (List Char × List Char) :=
  Option.map fun (text, rest) => (c :: text, rest)

/-- The characters behind an opening quote, one after the other: the text they stand for up to the
closing quote, and what follows it. -/
def decode : List Char → Option (List Char × List Char)
  | [] => none
  | '\x22' :: rest => some ([], rest)
  | '\\' :: '\x22' :: rest => emit '\x22' (decode rest)
  | '\\' :: '\\' :: rest => emit '\\' (decode rest)
  | '\\' :: 'n' :: rest => emit '\n' (decode rest)
  | '\\' :: 't' :: rest => emit '\t' (decode rest)
  | c :: rest => emit c (decode rest)

variable {c e : Char} {cs rest : List Char} {text : List Char}

/-- What was read with one more character was read without it. -/
theorem emit_eq_some {r : Option (List Char × List Char)} :
    emit c r = some (text, rest) ↔ ∃ more, r = some (more, rest) ∧ text = c :: more := by
  cases r with
  | none => simp [emit]
  | some p =>
    obtain ⟨more, behind⟩ := p
    simp only [emit, Option.map_some, Option.some.injEq, Prod.mk.injEq]
    exact ⟨fun ⟨htext, hrest⟩ => ⟨more, ⟨rfl, hrest⟩, htext.symm⟩,
      fun ⟨_, ⟨hmore, hrest⟩, htext⟩ => ⟨by rw [htext, hmore], hrest⟩⟩

theorem emit_eq_none {r : Option (List Char × List Char)} : emit c r = none ↔ r = none :=
  Option.map_eq_none_iff

/-! ## Kinds of characters -/

/-- In front of these characters the character stands for itself: it is no quote, and if it is a
backslash, then it begins no escape. -/
def StandsForItself (c : Char) (rest : List Char) : Prop :=
  c ≠ '\x22' ∧ (c = '\\' → rest.head?.bind unescape? = none)

/-- All characters but quotes and backslashes stand for themselves. -/
theorem standsForItself_of_ne (hquote : c ≠ '\x22') (hback : c ≠ '\\') (rest : List Char) :
    StandsForItself c rest :=
  ⟨hquote, fun h => absurd h hback⟩

/-- Behind the next character nothing matters. -/
theorem StandsForItself.append (h : StandsForItself c rest) (hne : rest ≠ []) (s : List Char) :
    StandsForItself c (rest ++ s) := by
  obtain ⟨x, more, rfl⟩ := List.exists_cons_of_ne_nil hne
  exact ⟨h.1, h.2⟩

/-- An escape stands for its character. -/
theorem decode_escape (rest : List Char) (h : unescape? e = some c) :
    decode ('\\' :: e :: rest) = emit c (decode rest) := by
  unfold unescape? at h
  split at h <;> cases h <;> rfl

/-- A character that stands for itself is taken as it is. -/
theorem decode_plain (h : StandsForItself c rest) : decode (c :: rest) = emit c (decode rest) := by
  obtain ⟨hquote, hback⟩ := h
  rw [decode]
  · exact hquote
  all_goals
    rintro more rfl rfl
    exact Option.some_ne_none _ (hback rfl)

/-- Behind an opening quote there is the end, a quote, an escape, or a character that stands for
itself. -/
@[elab_as_elim]
theorem body_induction {motive : List Char → Prop} (nil : motive [])
    (quote : ∀ rest, motive ('\x22' :: rest))
    (escape : ∀ e c rest, unescape? e = some c → motive rest → motive ('\\' :: e :: rest))
    (plain : ∀ c rest, StandsForItself c rest → motive rest → motive (c :: rest)) (cs : List Char) :
    motive cs := by
  match cs with
  | [] => exact nil
  | c :: rest =>
    have hrest := body_induction nil quote escape plain rest
    by_cases hquote : c = '\x22'
    · rw [hquote]
      exact quote rest
    by_cases hback : c = '\\'
    · subst hback
      match rest with
      | [] => exact plain _ _ ⟨hquote, fun _ => rfl⟩ hrest
      | e :: more =>
        cases hesc : unescape? e with
        | none => exact plain _ _ ⟨hquote, fun _ => hesc⟩ hrest
        | some x => exact escape e x more hesc (body_induction nil quote escape plain more)
    · exact plain c rest (standsForItself_of_ne hquote hback rest) hrest

/-! ## Reading in chunks -/

section

variable {copied : String} {start : Nat} {place : Cursor} {chunk : List Char}

/-- At an escape the chunk is copied, and the next one starts behind it. -/
theorem scanBody_escape (rest : List Char) (h : unescape? e = some c) :
    scanBody copied start place ('\\' :: e :: rest)
      = scanBody ((copyChunk copied start place).push c) (place.advanceBy 2).position
          (place.advanceBy 2) rest := by
  rw [scanBody, h]

/-- A character that stands for itself makes the chunk longer. -/
theorem scanBody_plain (h : StandsForItself c rest) :
    scanBody copied start place (c :: rest) = scanBody copied start place.advance rest := by
  obtain ⟨hquote, hback⟩ := h
  by_cases hslash : c = '\\'
  · subst hslash
    cases rest with
    | nil => rfl
    | cons e more =>
      have hesc : unescape? e = none := hback rfl
      rw [scanBody, hesc]
  · rw [scanBody]
    · exact hquote
    · exact fun _ _ h _ => hslash h

/-- Reading a string only goes forward. -/
theorem passes_scanBody (copied : String) (start : Nat) (place : Cursor) (cs : List Char) :
    place.Passes (scanBody copied start place cs).2 := by
  induction cs using body_induction generalizing copied start place with
  | nil => exact Cursor.passes_refl place
  | quote rest => exact Cursor.passes_refl place
  | escape e c rest hesc ih =>
    rw [scanBody_escape rest hesc]
    exact (Cursor.passes_advanceBy place 2).trans (ih _ _ _)
  | plain c rest hc ih =>
    rw [scanBody_plain hc]
    exact (Cursor.passes_advanceBy place 1).trans (ih _ _ _)

/-- Copying appends the chunk. -/
theorem copyChunk_eq (copied : String) (h : place.HasChunk start chunk) :
    copyChunk copied start place = copied ++ String.ofList chunk := by
  rw [copyChunk, h.since?_eq, Option.getD_some]

/-- Behind the text copied so far and the chunk up to here, reading adds what the characters ahead
are decoded to, and stops at the closing quote. -/
theorem scanBody_of_decode (copied : String) (h : decode cs = some (text, rest))
    (hahead : place.ahead = cs) (hchunk : place.HasChunk start chunk) :
    (scanBody copied start place cs).1 = copied ++ String.ofList (chunk ++ text) ∧
      (scanBody copied start place cs).2.ahead = '\x22' :: rest := by
  induction cs using body_induction generalizing copied start place chunk text with
  | nil => exact absurd h nofun
  | quote rest' =>
    obtain ⟨rfl, rfl⟩ : [] = text ∧ rest' = rest := Prod.mk.inj (Option.some.inj h)
    rw [List.append_nil]
    exact ⟨copyChunk_eq copied hchunk, hahead⟩
  | escape e c more hesc ih =>
    rw [decode_escape more hesc, emit_eq_some] at h
    obtain ⟨text, htext, rfl⟩ := h
    have hbehind : (place.advanceBy 2).ahead = more := by
      rw [Cursor.ahead_advanceBy, hahead]
      rfl
    -- a new chunk begins behind the escape
    obtain ⟨hcopied, hend⟩ := ih _ htext hbehind (Cursor.hasChunk_nil _)
    rw [scanBody_escape more hesc]
    refine ⟨hcopied.trans ?_, hend⟩
    rw [copyChunk_eq copied hchunk]
    apply String.ext
    simp
  | plain c more hc ih =>
    rw [decode_plain hc, emit_eq_some] at h
    obtain ⟨text, htext, rfl⟩ := h
    have hbehind : place.advance.ahead = more := Cursor.ahead_advance_of_head hahead
    obtain ⟨hcopied, hend⟩ := ih _ htext hbehind (hchunk.advance hahead)
    rw [scanBody_plain hc]
    refine ⟨hcopied.trans ?_, hend⟩
    rw [List.append_assoc, List.singleton_append]

/-- Without a closing quote reading goes on to the end of the text. -/
theorem scanBody_of_open (h : decode cs = none) (hahead : place.ahead = cs) :
    (scanBody copied start place cs).2.ahead = [] := by
  induction cs using body_induction generalizing copied start place with
  | nil => exact hahead
  | quote rest => exact absurd h nofun
  | escape e c more hesc ih =>
    rw [decode_escape more hesc, emit_eq_none] at h
    rw [scanBody_escape more hesc]
    refine ih h ?_
    rw [Cursor.ahead_advanceBy, hahead]
    rfl
  | plain c more hc ih =>
    rw [decode_plain hc, emit_eq_none] at h
    rw [scanBody_plain hc]
    exact ih h (Cursor.ahead_advance_of_head hahead)

end

/-! ## In a longer text -/

/-- A closing quote that was found ends the string whatever follows. -/
theorem decode_append (s : List Char) (h : decode cs = some (text, rest)) :
    decode (cs ++ s) = some (text, rest ++ s) := by
  induction cs using body_induction generalizing text with
  | nil => exact absurd h nofun
  | quote rest' =>
    obtain ⟨rfl, rfl⟩ : [] = text ∧ rest' = rest := Prod.mk.inj (Option.some.inj h)
    rfl
  | escape e c more hesc ih =>
    rw [decode_escape more hesc, emit_eq_some] at h
    obtain ⟨text, htext, rfl⟩ := h
    rw [List.cons_append, List.cons_append, decode_escape _ hesc, ih htext]
    rfl
  | plain c more hc ih =>
    rw [decode_plain hc, emit_eq_some] at h
    obtain ⟨text, htext, rfl⟩ := h
    have hne : more ≠ [] := by rintro rfl; exact absurd htext nofun
    rw [List.cons_append, decode_plain (hc.append hne s), ih htext]
    rfl

/-- The letter makes an escape of a pending backslash and stands for itself otherwise, so
the quote behind it is no part of an escape. -/
theorem decode_complete (rest : List Char) (h : decode cs = none) :
    ∃ text, decode (cs ++ 'n' :: '\x22' :: rest) = some (text, rest) := by
  induction cs using body_induction with
  | nil => exact ⟨['n'], rfl⟩
  | quote rest' => exact absurd h nofun
  | escape e c more hesc ih =>
    rw [decode_escape more hesc, emit_eq_none] at h
    obtain ⟨text, htext⟩ := ih h
    exact ⟨c :: text, by
      rw [List.cons_append, List.cons_append, decode_escape _ hesc, htext]; rfl⟩
  | plain c more hc ih =>
    rw [decode_plain hc, emit_eq_none] at h
    obtain ⟨text, htext⟩ := ih h
    by_cases hpending : c = '\\' ∧ more = []
    · obtain ⟨rfl, rfl⟩ := hpending
      exact ⟨['\n'], rfl⟩
    · have hplain : StandsForItself c (more ++ 'n' :: '\x22' :: rest) := by
        by_cases hback : c = '\\'
        · exact hc.append (fun hnil => hpending ⟨hback, hnil⟩) _
        · exact standsForItself_of_ne hc.1 hback _
      exact ⟨c :: text, by rw [List.cons_append, decode_plain hplain, htext]; rfl⟩

theorem encode_cons (c : Char) (cs : List Char) :
    encode (c :: cs) = (match escape? c with
      | some e => ['\\', e]
      | none => [c]) ++ encode cs :=
  List.flatMap_cons

/-- What is written between the quotes is read back, up to the closing quote and whatever
stands behind it. -/
theorem decode_encode (cs rest : List Char) :
    decode (encode cs ++ '\x22' :: rest) = some (cs, rest) := by
  induction cs with
  | nil => rfl
  | cons c cs ih =>
    rw [encode_cons]
    cases hesc : escape? c with
    | some e =>
      show decode ('\\' :: e :: (encode cs ++ '\x22' :: rest)) = _
      rw [decode_escape _ (unescape?_of_escape? hesc), ih]
      rfl
    | none =>
      have hquote : c ≠ '\x22' := by rintro rfl; exact absurd hesc (by decide)
      have hback : c ≠ '\\' := by rintro rfl; exact absurd hesc (by decide)
      show decode (c :: (encode cs ++ '\x22' :: rest)) = _
      rw [decode_plain (standsForItself_of_ne hquote hback _), ih]
      rfl

end Sexpr.Quoted
