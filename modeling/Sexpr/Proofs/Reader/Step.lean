import Sexpr.Proofs.Text.Quoted
import Sexpr.Reader.Outcome

/-!
# Steps of reading

Scanners move a cursor, readers a cursor and what they have seen. Both are steps
over a state that holds a place in a text, and what is proved of steps in sequence is
proved once for both (`Place`).

> `ok_of_bind`, `error_of_bind`: what a sequence of steps came from.
> `stringToken_of_decode`, `stringToken_of_open`: strings, as their characters are decoded.
> `Forward`: a step leaves the cursor at a place that moving forward leads to.
-/

namespace Sexpr

/-- A state that holds a place in a text. -/
class Place (σ : Type) where
  cursor : σ → Cursor
  moveTo : σ → Cursor → σ
  cursor_moveTo : ∀ r c, cursor (moveTo r c) = c
  moveTo_moveTo : ∀ r c c', moveTo (moveTo r c) c' = moveTo r c'

instance : Place Cursor where
  cursor c := c
  moveTo _ c := c
  cursor_moveTo _ _ := rfl
  moveTo_moveTo _ _ _ := rfl

instance : Place Reading where
  cursor r := r.cursor
  moveTo r c := { r with cursor := c }
  cursor_moveTo _ _ := rfl
  moveTo_moveTo _ _ _ := rfl

namespace Place

variable {σ : Type} [Place σ]

/-- The characters after the place. -/
def ahead (r : σ) : List Char :=
  (cursor r).ahead

/-- The same place in a text that goes on with `s`. -/
def extend (r : σ) (s : List Char) : σ :=
  moveTo r ((cursor r).extend s)

end Place

/-! ## Steps in sequence -/

section

variable {σ ε α β : Type} {x : EStateM ε σ α} {f : α → EStateM ε σ β} {r r' : σ}

/-- After a success the next step goes on with the result, from the place that was reached. -/
theorem bind_of_ok {a : α} (h : x r = .ok a r') : (x >>= f) r = f a r' := by
  show EStateM.bind x f r = f a r'
  rw [EStateM.bind, h]

/-- After a failure there is no next step. -/
theorem bind_of_error {e : ε} (h : x r = .error e r') : (x >>= f) r = .error e r' := by
  show EStateM.bind x f r = .error e r'
  rw [EStateM.bind, h]

/-- A result that is given is the result, and the place stays. -/
theorem ok_of_pure {a b : α} (h : (pure a : EStateM ε σ α) r = .ok b r') : a = b ∧ r = r' := by
  injection h with ha hr
  exact ⟨ha, hr⟩

theorem error_of_pure {a : α} {e : ε} (h : (pure a : EStateM ε σ α) r = .error e r') : False := by
  injection h

theorem ok_of_throw {e : ε} {a : α} (h : (throw e : EStateM ε σ α) r = .ok a r') : False := by
  injection h

/-- What is raised is the error, and the place stays. -/
theorem error_of_throw {e e' : ε} (h : (throw e : EStateM ε σ α) r = .error e' r') :
    e = e' ∧ r = r' := by
  injection h with he hr
  exact ⟨he, hr⟩

/-- A sequence that succeeds is two steps that succeed. -/
theorem ok_of_bind {b : β} (h : (x >>= f) r = .ok b r') :
    ∃ a r₁, x r = .ok a r₁ ∧ f a r₁ = .ok b r' := by
  cases hx : x r with
  | ok a r₁ => exact ⟨a, r₁, rfl, (bind_of_ok hx).symm.trans h⟩
  | error e r₁ => exact absurd ((bind_of_error hx).symm.trans h) (by simp)

/-- A sequence fails in its first step or in its second one. -/
theorem error_of_bind {e : ε} (h : (x >>= f) r = .error e r') :
    x r = .error e r' ∨ ∃ a r₁, x r = .ok a r₁ ∧ f a r₁ = .error e r' := by
  cases hx : x r with
  | ok a r₁ => exact Or.inr ⟨a, r₁, rfl, (bind_of_ok hx).symm.trans h⟩
  | error e' r₁ =>
    have hee := (bind_of_error (f := f) hx).symm.trans h
    injection hee with he hr
    exact Or.inl (by rw [he, hr])

end

/-! ## One equation per primitive step -/

namespace Scan

/-- Looking at the next character moves nothing. -/
theorem peek_run (c : Cursor) : peek c = .ok c.peek? c := rfl

theorem peekAt_run (n : Nat) (c : Cursor) : peekAt n c = .ok (c.peekAt? n) c := rfl

/-- Passing characters cannot fail. -/
theorem advance_run (n : Nat) (c : Cursor) : advance n c = .ok () (c.advanceBy n) := rfl

/-- Accepting a character says whether it was there. -/
theorem accept_run (x : Char) (c : Cursor) :
    accept x c = .ok (c.accept x).1 (c.accept x).2 := rfl

/-- The expected character is passed if it is there. -/
theorem accept_of_head {c : Cursor} {x : Char} {rest : List Char} (h : c.ahead = x :: rest) :
    accept x c = .ok true c.advance := by
  rw [accept_run, Cursor.accept, Cursor.peek?, h, List.head?_cons, if_pos rfl]

/-- Any other character is left, and so is the end of the text. -/
theorem accept_of_ne {c : Cursor} {x : Char} (h : c.ahead.head? ≠ some x) :
    accept x c = .ok false c := by
  rw [accept_run, Cursor.accept, Cursor.peek?, if_neg h]

/-- A run of characters is given and passed, even if it is empty. -/
theorem takeWhile_run (p : Char → Bool) (c : Cursor) :
    takeWhile p c = .ok (c.takeWhile p).1 (c.takeWhile p).2 := rfl

/-- Passing filler cannot fail. -/
theorem filler_run (c : Cursor) : filler c = .ok () c.skipFiller := rfl

/-- Without a sign ahead there is no imaginary part. -/
theorem imaginaryIfSigned_of_head {c : Cursor} {base : Number}
    (hplus : c.ahead.head? ≠ some '+') (hminus : c.ahead.head? ≠ some '-') :
    imaginaryIfSigned base c = .ok base c := by
  unfold imaginaryIfSigned
  rw [bind_of_ok (peek_run c)]
  refine congrFun (g := (pure base : Scan Number)) ?_ c
  split
  · next h => exact absurd h hplus
  · next h => exact absurd h hminus
  · rfl

/-- Either sign announces an imaginary part. -/
theorem imaginaryIfSigned_of_sign {c : Cursor} {base : Number} {mark : Char} {rest : List Char}
    (h : c.ahead = mark :: rest) (hmark : mark = '+' ∨ mark = '-') :
    imaginaryIfSigned base c = imaginary base c := by
  refine (bind_of_ok (peek_run c)).trans ?_
  rw [Cursor.peek?, h, List.head?_cons]
  rcases hmark with rfl | rfl
  · rfl
  · rfl

/-- A symbol always succeeds: one character, if there is one, and those that go on with it. -/
theorem symbolToken_ok (c : Cursor) :
    symbolToken c = .ok
      (.symbol (String.ofList (c.ahead.head?.toList ++ c.ahead.tail.takeWhile continuesSymbol)))
      ((c.advance).takeWhile continuesSymbol).2 := by
  unfold symbolToken
  rw [bind_of_ok (peek_run c), bind_of_ok (advance_run 1 c), bind_of_ok (takeWhile_run _ _),
    Cursor.takeWhile_fst, Cursor.advanceBy_succ, Cursor.advanceBy_zero, Cursor.ahead_advance]
  rfl

/-- Behind the opening quote reading comes to what the characters ahead are decoded to. -/
theorem stringBody_run (c : Cursor) : ∃ text c', stringBody c = .ok text c' ∧ c.Passes c' ∧
    (∀ more rest, Quoted.decode c.ahead = some (more, rest) →
      text = String.ofList more ∧ c'.ahead = '\x22' :: rest) ∧
    (Quoted.decode c.ahead = none → c'.ahead = []) := by
  refine ⟨_, _, rfl, Quoted.passes_scanBody "" c.position c c.ahead, fun more rest h => ?_,
    fun h => Quoted.scanBody_of_open h rfl⟩
  obtain ⟨htext, hquote⟩ := Quoted.scanBody_of_decode "" h rfl (Cursor.hasChunk_nil c)
  exact ⟨htext.trans String.empty_append, hquote⟩

/-- The string is what the characters behind the opening quote are decoded to, and reading goes on
behind the closing quote. -/
theorem stringToken_of_decode {c : Cursor} {text rest : List Char}
    (h : Quoted.decode c.ahead.tail = some (text, rest)) :
    stringToken c = .ok (.string (String.ofList text))
        (c.advanceBy (c.ahead.length - rest.length)) ∧
      (c.advanceBy (c.ahead.length - rest.length)).ahead = rest := by
  have hahead : (c.advanceBy 1).ahead = c.ahead.tail := Cursor.ahead_advance c
  rw [← hahead] at h
  obtain ⟨_, c', hbody, hpass, hclosed, _⟩ := stringBody_run (c.advanceBy 1)
  obtain ⟨rfl, hquote⟩ := hclosed text rest h
  have hend : c'.advance.ahead = rest := Cursor.ahead_advance_of_head hquote
  have hplace : c'.advance = c.advanceBy (c.ahead.length - rest.length) := by
    rw [← hend]
    exact (((Cursor.passes_advanceBy c 1).trans hpass).trans
      (Cursor.passes_advanceBy c' 1)).eq_advanceBy_sub
  rw [← hplace]
  refine ⟨?_, hend⟩
  unfold stringToken
  rw [bind_of_ok (advance_run 1 c), bind_of_ok hbody, bind_of_ok (accept_of_head hquote)]
  rfl

/-- Without a closing quote the rest of the text is passed. -/
theorem stringToken_of_open {c : Cursor} (h : Quoted.decode c.ahead.tail = none) :
    stringToken c = .error .unterminatedString (c.advanceBy c.ahead.length) := by
  have hahead : (c.advanceBy 1).ahead = c.ahead.tail := Cursor.ahead_advance c
  rw [← hahead] at h
  obtain ⟨_, c', hbody, hpass, _, hopen⟩ := stringBody_run (c.advanceBy 1)
  have hend := hopen h
  have hplace : c' = c.advanceBy c.ahead.length := by
    have hsub := ((Cursor.passes_advanceBy c 1).trans hpass).eq_advanceBy_sub
    rwa [hend] at hsub
  have hquote : c'.ahead.head? ≠ some '\x22' := by rw [hend]; exact nofun
  rw [← hplace]
  unfold stringToken
  rw [bind_of_ok (advance_run 1 c), bind_of_ok hbody, bind_of_ok (accept_of_ne hquote)]
  rfl

end Scan

namespace Reader

/-- What the scanner gives is given, and only the cursor is moved. -/
theorem scan_of_ok {α : Type} {step : Scan α} {r : Reading} {a : α} {c : Cursor}
    (h : step r.cursor = .ok a c) : scan step r = .ok a { r with cursor := c } := by
  rw [scan, h]

/-- What the scanner fails with is the failure, at the place of its cursor. -/
theorem scan_of_error {α : Type} {step : Scan α} {r : Reading} {e : Cause} {c : Cursor}
    (h : step r.cursor = .error e c) : scan step r = .error e { r with cursor := c } := by
  rw [scan, h]

/-- A reading that scanned with success differs in its cursor only. -/
theorem ok_of_scan {α : Type} {step : Scan α} {r r' : Reading} {a : α}
    (h : scan step r = .ok a r') :
    step r.cursor = .ok a r'.cursor ∧ r' = { r with cursor := r'.cursor } := by
  cases hs : step r.cursor with
  | ok b c =>
    rw [scan_of_ok hs] at h
    injection h with hb hr
    subst hb hr
    exact ⟨rfl, rfl⟩
  | error e c =>
    rw [scan_of_error hs] at h
    exact absurd h (by simp)

/-- A reading whose scanner failed differs in its cursor only. -/
theorem error_of_scan {α : Type} {step : Scan α} {r r' : Reading} {e : Cause}
    (h : scan step r = .error e r') :
    step r.cursor = .error e r'.cursor ∧ r' = { r with cursor := r'.cursor } := by
  cases hs : step r.cursor with
  | ok b c =>
    rw [scan_of_ok hs] at h
    exact absurd h (by simp)
  | error e' c =>
    rw [scan_of_error hs] at h
    injection h with he hr
    subst he hr
    exact ⟨rfl, rfl⟩

end Reader

/-! ## Steps that move forward -/

/-- The state in which a step ended, with a result or with an error. -/
def endOf {ε σ α : Type} : EStateM.Result ε σ α → σ
  | .ok _ r => r
  | .error _ r => r

/-- Wherever the step ends, moving forward leads there. -/
def Forward {σ α : Type} [Place σ] (m : EStateM Cause σ α) : Prop :=
  ∀ r, (Place.cursor r).Passes (Place.cursor (endOf (m r)))

section

variable {σ α β : Type} [Place σ]

/-- A step that moves forward ends behind its beginning if it succeeds. -/
theorem Forward.ok {m : EStateM Cause σ α} (hm : Forward m) {r r' : σ} {a : α}
    (h : m r = .ok a r') : (Place.cursor r).Passes (Place.cursor r') := by
  have hp := hm r
  rwa [h] at hp

/-- So it does if it fails. -/
theorem Forward.error {m : EStateM Cause σ α} (hm : Forward m) {r r' : σ} {e : Cause}
    (h : m r = .error e r') : (Place.cursor r).Passes (Place.cursor r') := by
  have hp := hm r
  rwa [h] at hp

/-- Giving a result passes nothing. -/
theorem forward_pure (a : α) : Forward (pure a : EStateM Cause σ α) :=
  fun r => Cursor.passes_refl (Place.cursor r)

/-- Neither does raising an error. -/
theorem forward_throw (e : Cause) : Forward (throw e : EStateM Cause σ α) :=
  fun r => Cursor.passes_refl (Place.cursor r)

theorem forward_get : Forward (get : EStateM Cause σ σ) :=
  fun r => Cursor.passes_refl (Place.cursor r)

/-- Steps in sequence move forward if each of them does. -/
theorem forward_bind {x : EStateM Cause σ α} {f : α → EStateM Cause σ β}
    (hx : Forward x) (hf : ∀ a, Forward (f a)) : Forward (x >>= f) := by
  intro r
  cases h : x r with
  | ok a r₁ =>
    rw [bind_of_ok h]
    exact (hx.ok h).trans (hf a r₁)
  | error e r₁ =>
    rw [bind_of_error h]
    exact hx.error h

end

namespace Scan

theorem forward_peek : Forward peek :=
  fun c => Cursor.passes_refl c

theorem forward_peekAt (n : Nat) : Forward (peekAt n) :=
  fun c => Cursor.passes_refl c

theorem forward_advance (n : Nat) : Forward (advance n) :=
  fun c => Cursor.passes_advanceBy c n

/-- The expected character is passed, or none is. -/
theorem forward_accept (x : Char) : Forward (accept x) := by
  intro c
  rw [accept_run]
  show c.Passes (c.accept x).2
  unfold Cursor.accept
  split
  · exact Cursor.passes_advanceBy c 1
  · exact Cursor.passes_refl c

theorem forward_takeWhile (p : Char → Bool) : Forward (takeWhile p) :=
  fun c => Cursor.passes_advanceBy c _

theorem forward_stringBody : Forward stringBody :=
  fun c => Quoted.passes_scanBody "" c.position c c.ahead

theorem forward_filler : Forward filler :=
  fun c => Cursor.passes_skipFiller c

end Scan

namespace Reader

/-- In a reading a scanner moves the cursor as it does alone. -/
theorem forward_scan {α : Type} {step : Scan α} (hs : Forward step) : Forward (scan step) := by
  intro r
  cases h : step r.cursor with
  | ok a c =>
    rw [scan_of_ok h]
    exact hs.ok h
  | error e c =>
    rw [scan_of_error h]
    exact hs.error h

end Reader

/-! ## Results of whole runs -/

namespace Datum

/-- Where the reader begins with a text. -/
def start (text : String) : Reading :=
  { cursor := .ofText text, sightings := [] }

/-- The beginning of a longer text is that of the shorter one, with more ahead. -/
theorem start_append (t s : String) : start (t ++ s) = Place.extend (start t) s.toList := by
  show _ = ({ cursor := (Cursor.ofText t).extend s.toList, sightings := [] } : Reading)
  rw [Cursor.ofText_extend]
  rfl

variable {settings : Settings} {text : String}

/-- A text reads as a datum if the run of the reader succeeds with it. -/
theorem read_eq_ok_iff {d : Datum} :
    read settings text = .ok d ↔ ∃ r, Reader.onlyDatum settings.depth (start text) = .ok d r := by
  show (readReporting settings text).result = .ok d
    ↔ ∃ r, run settings text = .ok d r
  unfold readReporting
  cases run settings text with
  | ok d' r =>
    refine ⟨fun h => ⟨r, ?_⟩, fun ⟨r', h⟩ => ?_⟩
    · injection h with h
      rw [h]
    · injection h with h _
      rw [h]
  | error e r =>
    exact ⟨fun h => absurd h (by simp), fun ⟨r', h⟩ => absurd h (by simp)⟩

/-- The error of a text is that of the run, with the name of the text and the line that was
reached. -/
theorem read_eq_error_iff {e : ReadError} :
    read settings text = .error e ↔
      ∃ r, Reader.onlyDatum settings.depth (start text) = .error e.cause r
        ∧ e.name = settings.name ∧ e.line = r.cursor.line := by
  show (readReporting settings text).result = .error e
    ↔ ∃ r, run settings text = .error e.cause r ∧ e.name = settings.name ∧ e.line = r.cursor.line
  unfold readReporting
  cases run settings text with
  | ok d' r =>
    exact ⟨fun h => absurd h (by simp), fun ⟨r', h, _⟩ => absurd h (by simp)⟩
  | error cause r =>
    refine ⟨fun h => ⟨r, ?_⟩, fun ⟨r', h, hname, hline⟩ => ?_⟩
    · injection h with h
      subst h
      exact ⟨rfl, rfl, rfl⟩
    · injection h with hcause hr
      rw [← hr] at hline
      show Except.error (ReadError.mk cause settings.name r.cursor.line) = .error e
      rw [hcause, ← hname, ← hline]

end Datum

end Sexpr
