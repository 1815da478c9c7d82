import Sexpr.Proofs.Reader.Progress
import Sexpr.Proofs.Text.Quoted

/-!
# Locality

A step that stops before the end of the text has not seen the end. So it does the same,
with the same result at the same place, in every text that begins with this one: none of
its decisions depended on the text ending where it did.

A success at the very end of the text is kept as well if what follows begins with white
space, as no token goes on behind it. An error is kept if it is final: it was raised by a
character that is there and not by one that is missing.

> `LocalAt`: what a step does at a place holds in the longer text.
> `isLocal_datum`: every reader is local, filler behind the datum not included.
> `localAt_onlyDatum`: its errors are local.
-/

namespace Sexpr

/-- No token goes on with this text: it is empty or begins with white space. -/
def Breaks (s : List Char) : Prop :=
  ∀ c ∈ s.head?, isBlank c = true

/-- A line feed is white space, so no token goes on behind it. -/
theorem breaks_newline (s : List Char) : Breaks ('\n' :: s) := by
  intro x hx
  rw [List.head?_cons, Option.mem_some_iff] at hx
  rw [← hx]
  decide

/-- The error does not come from the end of the text: the characters ahead of the place
where it arose are enough to raise it. One of the errors needs two of them. -/
def Cause.IsFinal (ahead : List Char) : Cause → Prop
  | .invalidHashToken none => False
  | .dotWithoutItem => 2 ≤ ahead.length
  | _ => ahead ≠ []

/-- A final error was raised by a character that is there. -/
theorem Cause.IsFinal.ne_nil {e : Cause} {ahead : List Char} (h : e.IsFinal ahead) :
    ahead ≠ [] := by
  rintro rfl
  cases e with
  | invalidHashToken found =>
    cases found with
    | none => exact h
    | some c => exact h rfl
  | dotWithoutItem => exact absurd h (by simp [Cause.IsFinal])
  | _ => exact h rfl

open Place

/-- What the step does at `r` it does when the text goes on with `s`. A success at the end
of the text counts only if `atEnd` holds. -/
structure LocalAt {σ α : Type} [Place σ] (atEnd : Prop) (s : List Char)
    (m : EStateM Cause σ α) (r : σ) : Prop where
  forward : (cursor r).Passes (cursor (endOf (m r)))
  ok : ∀ a r', m r = .ok a r' → ahead r' ≠ [] ∨ atEnd → m (extend r s) = .ok a (extend r' s)
  error : ∀ e r', m r = .error e r' → e.IsFinal (ahead r') →
    m (extend r s) = .error e (extend r' s)

/-! ## Steps in sequence -/

section

variable {σ α β : Type} [Place σ] {atEnd : Prop} {s : List Char} {r : σ}

/-- What counts at the end of the text may be restricted. -/
theorem LocalAt.mono {m : EStateM Cause σ α} {atEnd' : Prop} (h : LocalAt atEnd s m r)
    (himp : atEnd' → atEnd) : LocalAt atEnd' s m r :=
  ⟨h.forward, fun a r' hm hne => h.ok a r' hm (hne.imp_right himp), h.error⟩

/-- If something is left behind a step, there was something in front of it. -/
theorem LocalAt.ahead_ne_nil_of_ok {m : EStateM Cause σ α} (hm : LocalAt atEnd s m r) {r' : σ}
    {a : α} (h : m r = .ok a r') (hne : ahead r' ≠ []) : ahead r ≠ [] := by
  have hp := hm.forward
  rw [h] at hp
  exact hp.ahead_ne_nil hne

/-- So it is if the step failed. -/
theorem LocalAt.ahead_ne_nil_of_error {m : EStateM Cause σ α} (hm : LocalAt atEnd s m r) {r' : σ}
    {e : Cause} (h : m r = .error e r') (hne : ahead r' ≠ []) : ahead r ≠ [] := by
  have hp := hm.forward
  rw [h] at hp
  exact hp.ahead_ne_nil hne

/-- A result that is given does not depend on the text. -/
theorem localAt_pure (a : α) : LocalAt atEnd s (pure a : EStateM Cause σ α) r := by
  refine ⟨forward_pure a r, fun b r' h _ => ?_, fun e r' h _ => (error_of_pure h).elim⟩
  obtain ⟨rfl, rfl⟩ := ok_of_pure h
  rfl

/-- Neither does an error that is raised. -/
theorem localAt_throw (e : Cause) : LocalAt atEnd s (throw e : EStateM Cause σ α) r := by
  refine ⟨forward_throw e r, fun b r' h _ => (ok_of_throw h).elim, fun e' r' h _ => ?_⟩
  obtain ⟨rfl, rfl⟩ := error_of_throw h
  rfl

/-- A step that succeeds is local if it does the same in the longer text. -/
theorem localAt_of_ok {m : EStateM Cause σ α} {a : α} {r' : σ} (hfwd : Forward m)
    (h : m r = .ok a r')
    (hext : ahead r' ≠ [] ∨ atEnd → m (extend r s) = .ok a (extend r' s)) :
    LocalAt atEnd s m r := by
  refine ⟨hfwd r, fun b r'' hb hne => ?_, fun e r'' he _ => absurd (h.symm.trans he) (by simp)⟩
  have hsame := h.symm.trans hb
  injection hsame with ha hr
  subst ha hr
  exact hext hne

/-- A step whose failure is not final is local. -/
theorem localAt_of_error {m : EStateM Cause σ α} (e : Cause) (r' : σ) (hfwd : Forward m)
    (h : m r = .error e r') (hfin : ¬ e.IsFinal (ahead r')) : LocalAt atEnd s m r := by
  refine ⟨hfwd r, fun a r'' h' _ => absurd (h.symm.trans h') (by simp), fun e' r'' h' hf => ?_⟩
  have hee := h.symm.trans h'
  injection hee with he hr
  subst he hr
  exact absurd hf hfin

/-- Steps in sequence move forward from here if the first one does and then the second. -/
theorem passes_bind {x : EStateM Cause σ α} {f : α → EStateM Cause σ β}
    (hx : (cursor r).Passes (cursor (endOf (x r))))
    (hf : ∀ a r₁, x r = .ok a r₁ → (cursor r₁).Passes (cursor (endOf (f a r₁)))) :
    (cursor r).Passes (cursor (endOf ((x >>= f) r))) := by
  cases h : x r with
  | ok a r₁ =>
    rw [bind_of_ok h]
    rw [h] at hx
    exact Cursor.Passes.trans hx (hf a r₁ h)
  | error e r₁ =>
    rw [bind_of_error h]
    rwa [h] at hx

/-- Steps in sequence are local if each of them is, at the place where it begins. -/
theorem localAt_bind {x : EStateM Cause σ α} {f : α → EStateM Cause σ β}
    (hx : LocalAt atEnd s x r) (hf : ∀ a r₁, x r = .ok a r₁ → LocalAt atEnd s (f a) r₁) :
    LocalAt atEnd s (x >>= f) r := by
  refine ⟨passes_bind hx.forward fun a r₁ h => (hf a r₁ h).forward, ?_, ?_⟩
  · intro b r₂ h hne
    obtain ⟨a, r₁, h₁, h₂⟩ := ok_of_bind h
    have hf₁ := hf a r₁ h₁
    have hx' := hx.ok a r₁ h₁ (hne.imp_left (hf₁.ahead_ne_nil_of_ok h₂))
    rw [bind_of_ok hx']
    exact hf₁.ok b r₂ h₂ hne
  · intro e r₂ h hfin
    rcases error_of_bind h with h₁ | ⟨a, r₁, h₁, h₂⟩
    · exact bind_of_error (hx.error e r₂ h₁ hfin)
    · have hf₁ := hf a r₁ h₁
      have hne := hf₁.ahead_ne_nil_of_error h₂ hfin.ne_nil
      rw [bind_of_ok (hx.ok a r₁ h₁ (Or.inl hne))]
      exact hf₁.error e r₂ h₂ hfin

/-- A first step that is local only inside the text, such as passing filler, will do if
nothing succeeds behind it at the end of the text. -/
theorem localAt_bind_inside {x : EStateM Cause σ α} {f : α → EStateM Cause σ β}
    (hx : LocalAt False s x r) (hfwd : ∀ a, Forward (f a))
    (hf : ∀ a r₁, x r = .ok a r₁ → ahead r₁ ≠ [] → LocalAt atEnd s (f a) r₁)
    (hend : ∀ a r₁, x r = .ok a r₁ → ahead r₁ = [] → ∃ e r₂, f a r₁ = .error e r₂) :
    LocalAt atEnd s (x >>= f) r := by
  refine ⟨passes_bind hx.forward fun a r₁ _ => hfwd a r₁, ?_, ?_⟩
  · intro b r₂ h hne
    obtain ⟨a, r₁, h₁, h₂⟩ := ok_of_bind h
    have hne₁ : ahead r₁ ≠ [] := by
      intro hnil
      obtain ⟨e, r₃, he⟩ := hend a r₁ h₁ hnil
      exact absurd (he.symm.trans h₂) (by simp)
    rw [bind_of_ok (hx.ok a r₁ h₁ (Or.inl hne₁))]
    exact (hf a r₁ h₁ hne₁).ok b r₂ h₂ hne
  · intro e r₂ h hfin
    rcases error_of_bind h with h₁ | ⟨a, r₁, h₁, h₂⟩
    · exact bind_of_error (hx.error e r₂ h₁ hfin)
    · have hne₁ : ahead r₁ ≠ [] := ((hfwd a).error h₂).ahead_ne_nil hfin.ne_nil
      rw [bind_of_ok (hx.ok a r₁ h₁ (Or.inl hne₁))]
      exact (hf a r₁ h₁ hne₁).error e r₂ h₂ hfin

end

/-! ## Scanners -/

namespace Scan

variable {s : List Char} {c : Cursor}

/-- The next character is the same in the longer text if there is one. -/
theorem localAt_peek (atEnd : Prop) (h : c.ahead ≠ []) : LocalAt atEnd s peek c := by
  refine localAt_of_ok forward_peek (peek_run c) fun _ => ?_
  show peek (c.extend s) = _
  rw [peek_run, Cursor.peek_extend s h]
  rfl

/-- Before the end of the text the next character is there. -/
theorem localAt_peek_inside : LocalAt False s peek c := by
  refine localAt_of_ok forward_peek (peek_run c) fun hne => ?_
  have hahead : c.ahead ≠ [] := hne.resolve_right id
  show peek (c.extend s) = _
  rw [peek_run, Cursor.peek_extend s hahead]
  rfl

/-- So is one further on that is still inside the text. -/
theorem localAt_peekAt (atEnd : Prop) {n : Nat} (h : n < c.ahead.length) :
    LocalAt atEnd s (peekAt n) c := by
  refine localAt_of_ok (forward_peekAt n) (peekAt_run n c) fun _ => ?_
  show peekAt n (c.extend s) = _
  rw [peekAt_run, Cursor.peekAt?, Cursor.ahead_extend, List.getElem?_append_left h]
  rfl

/-- Characters that are there are passed in the longer text, too. -/
theorem localAt_advance (atEnd : Prop) {n : Nat} (h : n ≤ c.ahead.length) :
    LocalAt atEnd s (advance n) c := by
  refine localAt_of_ok (forward_advance n) (advance_run n c) fun _ => ?_
  show advance n (c.extend s) = _
  rw [advance_run, Cursor.advanceBy_extend s h]
  rfl

/-- What the text goes on with begins with white space, which is never the expected character. -/
theorem localAt_accept {x : Char} (hx : isBlank x = false) :
    LocalAt (Breaks s) s (accept x) c := by
  by_cases hhead : c.ahead.head? = some x
  · obtain ⟨rest, hahead⟩ := List.head?_eq_some_iff.mp hhead
    have hne : c.ahead ≠ [] := by rw [hahead]; exact List.cons_ne_nil x rest
    refine localAt_of_ok (forward_accept x) (accept_of_head hahead) fun _ => ?_
    show accept x (c.extend s) = .ok true (c.advance.extend s)
    rw [← Cursor.advance_extend s hne]
    exact accept_of_head (by rw [Cursor.ahead_extend, hahead, List.cons_append])
  · refine localAt_of_ok (forward_accept x) (accept_of_ne hhead) fun hne => ?_
    show accept x (c.extend s) = .ok false (c.extend s)
    refine accept_of_ne ?_
    rw [Cursor.ahead_extend]
    cases hahead : c.ahead with
    | nil =>
      -- what the text goes on with begins with white space, which no scanner expects
      intro hs
      have hblank := hne.resolve_left (fun h => h hahead) x hs
      rw [hx] at hblank
      exact absurd hblank (by decide)
    | cons y rest => rwa [hahead] at hhead

/-- A run that reaches the end of the text ends there in the longer one, before the white space. -/
theorem localAt_takeWhile {p : Char → Bool} (hp : ∀ x, isBlank x = true → p x = false) :
    LocalAt (Breaks s) s (takeWhile p) c := by
  refine localAt_of_ok (forward_takeWhile p) (takeWhile_run p c) fun hne => ?_
  show takeWhile p (c.extend s) = _
  rw [takeWhile_run, Cursor.takeWhile_extend (hne.imp_right fun hs x hx => hp x (hs x hx))]
  rfl

/-- Filler that ends before the text does ends there in the longer text. -/
theorem localAt_filler_inside : LocalAt False s filler c := by
  refine localAt_of_ok forward_filler (filler_run c) fun hne => ?_
  show filler (c.extend s) = _
  rw [filler_run, Cursor.skipFiller_extend s (hne.resolve_right id)]
  rfl

/-- Digits and a point are followed by white space in the longer text, which is neither. -/
theorem localAt_unsigned : LocalAt (Breaks s) s unsigned c := by
  unfold unsigned
  refine localAt_bind (localAt_takeWhile isDigit_of_isBlank) fun whole c₁ _ => ?_
  refine localAt_bind (localAt_accept (by decide)) fun b c₂ _ => ?_
  split
  · refine localAt_bind (localAt_takeWhile isDigit_of_isBlank) fun fraction c₃ _ => ?_
    split
    · exact localAt_throw _
    · exact localAt_pure _
  · split
    · exact localAt_pure _
    · exact localAt_pure _

/-- White space is no slash. -/
theorem localAt_quotient (base : Number) : LocalAt (Breaks s) s (quotient base) c := by
  unfold quotient
  refine localAt_bind (localAt_accept (by decide)) fun b c₁ _ => ?_
  split
  · refine localAt_bind localAt_unsigned fun divisor c₂ _ => ?_
    split
    · exact localAt_throw _
    · split
      · exact localAt_throw _
      · exact localAt_pure _
  · exact localAt_pure _

theorem localAt_sign : LocalAt (Breaks s) s sign c := by
  unfold sign
  refine localAt_bind (localAt_accept (by decide)) fun negative c₁ _ => ?_
  exact localAt_bind (localAt_accept (by decide)) fun _ c₂ _ => localAt_pure _

/-- A number that lacks its unit at the end of the text lacks it in front of white space. -/
theorem localAt_imaginary (base : Number) : LocalAt (Breaks s) s (imaginary base) c := by
  unfold imaginary
  refine localAt_bind localAt_sign fun negative c₁ _ => ?_
  refine localAt_bind localAt_unsigned fun magnitude c₂ _ => ?_
  refine localAt_bind (localAt_accept (by decide)) fun b c₃ _ => ?_
  split
  · exact localAt_pure _
  · exact localAt_bind_inside localAt_peek_inside (fun _ => forward_throw _)
      (fun _ c₄ _ _ => localAt_throw _) fun found c₄ _ _ => ⟨_, c₄, rfl⟩

/-- White space is no sign. -/
theorem localAt_imaginaryIfSigned (base : Number) :
    LocalAt (Breaks s) s (imaginaryIfSigned base) c := by
  cases hahead : c.ahead with
  | nil =>
    have hrun : imaginaryIfSigned base c = .ok base c :=
      imaginaryIfSigned_of_head (by rw [hahead]; decide) (by rw [hahead]; decide)
    refine localAt_of_ok (forward_imaginaryIfSigned base) hrun fun hne => ?_
    have hbreaks := hne.resolve_left fun h => h hahead
    -- a sign would be no white space
    have hsigned : ∀ x, isBlank x = false → (c.extend s).ahead.head? ≠ some x := by
      intro x hx hs
      rw [Cursor.ahead_extend, hahead, List.nil_append] at hs
      exact absurd ((hbreaks x hs).symm.trans hx) (by decide)
    exact imaginaryIfSigned_of_head (hsigned '+' (by decide)) (hsigned '-' (by decide))
  | cons x rest =>
    have hne : c.ahead ≠ [] := by rw [hahead]; exact List.cons_ne_nil x rest
    unfold imaginaryIfSigned
    refine localAt_bind (localAt_peek _ hne) fun found c₁ _ => ?_
    split
    · exact localAt_imaginary base
    · exact localAt_imaginary base
    · exact localAt_pure _

/-- A number is local part by part. -/
theorem localAt_numeral : LocalAt (Breaks s) s numeral c := by
  unfold numeral
  refine localAt_bind localAt_sign fun negative c₁ _ => ?_
  refine localAt_bind localAt_unsigned fun base c₂ _ => ?_
  split
  · exact localAt_throw _
  · refine localAt_bind (localAt_quotient _) fun value c₃ _ => ?_
    exact localAt_bind (localAt_imaginaryIfSigned _) fun _ c₄ _ => localAt_pure _

/-- The character after the number sign decides. Without one the error is not final. -/
theorem localAt_hashToken : LocalAt (Breaks s) s hashToken c := by
  match hahead : c.ahead with
  | [] =>
    refine localAt_of_error (.invalidHashToken none) c forward_hashToken ?_ id
    unfold hashToken
    rw [bind_of_ok (peekAt_run 1 c), Cursor.peekAt?, hahead]
    rfl
  | [x] =>
    refine localAt_of_error (.invalidHashToken none) c forward_hashToken ?_ id
    unfold hashToken
    rw [bind_of_ok (peekAt_run 1 c), Cursor.peekAt?, hahead]
    rfl
  | x :: y :: rest =>
    have hlen : 2 ≤ c.ahead.length := by rw [hahead, List.length_cons, List.length_cons]; omega
    unfold hashToken
    refine localAt_bind (localAt_peekAt _ hlen) fun found c₁ h => ?_
    rw [peekAt_run] at h
    injection h with _ hc
    subst hc
    split
    · exact localAt_bind (localAt_advance _ hlen) fun _ c₂ _ => localAt_pure _
    · exact localAt_bind (localAt_advance _ hlen) fun _ c₂ _ => localAt_pure _
    · exact localAt_throw _
    · exact localAt_throw _

/-- A symbol that reaches the end of the text ends there in the longer one. -/
theorem localAt_symbolToken (hne : c.ahead ≠ []) : LocalAt (Breaks s) s symbolToken c := by
  unfold symbolToken
  refine localAt_bind (localAt_peek _ hne) fun first c₁ h => ?_
  rw [peek_run] at h
  injection h with _ hc
  subst hc
  refine localAt_bind (localAt_advance _ (List.length_pos_iff.mpr hne)) fun _ c₂ _ => ?_
  refine localAt_bind (localAt_takeWhile ?_) fun rest c₃ _ => localAt_pure _
  intro x hx
  rw [continuesSymbol, hx, Bool.true_or, Bool.not_true]

/-- A string that is closed is closed in the longer text; without its quote the error is not
final. -/
theorem localAt_stringToken (hne : c.ahead ≠ []) : LocalAt (Breaks s) s stringToken c := by
  cases hdecode : Quoted.decode c.ahead.tail with
  | none =>
    refine localAt_of_error _ _ forward_stringToken (stringToken_of_open hdecode) fun hfin => ?_
    exact hfin.ne_nil (Cursor.ahead_advanceBy_length c)
  | some found =>
    obtain ⟨text, rest⟩ := found
    refine localAt_of_ok forward_stringToken (stringToken_of_decode hdecode).1 fun _ => ?_
    -- the closing quote is in the shorter text, so the string ends there in the longer one
    have hlong : Quoted.decode (c.extend s).ahead.tail = some (text, rest ++ s) := by
      rw [Cursor.ahead_extend, List.tail_append_of_ne_nil hne]
      exact Quoted.decode_append s hdecode
    have hwidth : (c.extend s).ahead.length - (rest ++ s).length
        = c.ahead.length - rest.length := by
      rw [Cursor.ahead_extend, List.length_append, List.length_append, Nat.add_sub_add_right]
    have hrun := (stringToken_of_decode hlong).1
    rw [hwidth, Cursor.advanceBy_extend s (Nat.sub_le _ _)] at hrun
    exact hrun

end Scan

/-! ## Readers -/

namespace Reader

variable {atEnd : Prop} {s : List Char} {r : Reading}

/-- In a reading a scanner is as local as it is on the cursor. -/
theorem localAt_scan {α : Type} {step : Scan α} (h : LocalAt atEnd s step r.cursor) :
    LocalAt atEnd s (scan step) r := by
  refine ⟨?_, fun a r' hr hne => ?_, fun e r' hr hfin => ?_⟩
  · cases hs : step r.cursor with
    | ok a c =>
      have hp := h.forward
      rw [hs] at hp
      rw [scan_of_ok hs]
      exact hp
    | error e c =>
      have hp := h.forward
      rw [hs] at hp
      rw [scan_of_error hs]
      exact hp
  · obtain ⟨hs, hr'⟩ := ok_of_scan hr
    rw [hr']
    exact scan_of_ok (h.ok a r'.cursor hs hne)
  · obtain ⟨hs, hr'⟩ := error_of_scan hr
    rw [hr']
    exact scan_of_error (h.error e r'.cursor hs hfin)

/-- The parenthesis ahead closes the list in the longer text, too. -/
theorem localAt_closeList (done : List Datum) (tail : Datum) :
    LocalAt (Breaks s) s (closeList done tail) r := by
  unfold closeList
  refine localAt_bind (localAt_scan (Scan.localAt_accept (by decide))) fun b r₁ _ => ?_
  split
  · exact localAt_pure _
  · exact localAt_bind_inside (localAt_scan Scan.localAt_peek_inside) (fun _ => forward_throw _)
      (fun _ r₂ _ _ => localAt_throw _) fun found r₂ _ _ => ⟨_, r₂, rfl⟩

/-- Filler that ends before the text does is the same in the longer text. -/
theorem skipFiller_extend (h : r.skipFiller.cursor.ahead ≠ []) :
    (extend r s).skipFiller = extend r.skipFiller s := by
  show ({ r with cursor := (r.cursor.extend s).skipFiller } : Reading)
    = { r with cursor := r.cursor.skipFiller.extend s }
  rw [Cursor.skipFiller_extend s h]

/-- Filler up to the end of the text goes on behind a line feed. -/
theorem ahead_skipFiller_newline (s : List Char) (h : r.skipFiller.cursor.ahead = []) :
    (extend r ('\n' :: s)).skipFiller.cursor.ahead = dropFiller false s := by
  have hdrop : dropFiller false r.cursor.ahead = [] :=
    (Cursor.ahead_skipFiller r.cursor).symm.trans h
  show (r.cursor.extend ('\n' :: s)).skipFiller.ahead = _
  rw [Cursor.ahead_skipFiller, Cursor.ahead_extend, dropFiller_append_newline s hdrop]

/-- The character that ends the filler ends it in the longer text. -/
theorem ahead_skipFiller_extend {x : Char} {rest : List Char}
    (h : r.skipFiller.cursor.ahead = x :: rest) :
    (extend r s).skipFiller.cursor.ahead = x :: (rest ++ s) := by
  rw [skipFiller_extend (by rw [h]; exact List.cons_ne_nil x rest)]
  show r.skipFiller.cursor.ahead ++ s = _
  rw [h, List.cons_append]

/-- A step that passes filler and then does what another step does is local if that one is,
as long as something is ahead behind the filler. -/
theorem localAt_skipFiller {α : Type} {m : Reader α} (m' : Reader α) (r₁ : Reading)
    (hpass : r.cursor.Passes r₁.cursor) (hrun : m r = m' r₁)
    (hrun' : m (extend r s) = m' (extend r₁ s)) (h : LocalAt atEnd s m' r₁) :
    LocalAt atEnd s m r := by
  refine ⟨?_, fun a r' hr hne => ?_, fun e r' hr hfin => ?_⟩
  · rw [hrun]
    exact hpass.trans h.forward
  · rw [hrun']
    exact h.ok a r' (hrun.symm.trans hr) hne
  · rw [hrun']
    exact h.error e r' (hrun.symm.trans hr) hfin

/-- Two characters, or one that is no dot, decide what comes next in a list. -/
theorem ofAhead_append {ahead : List Char} (hne : ahead ≠ []) (hdot : ahead ≠ ['.']) :
    ListStep.ofAhead (ahead ++ s) = ListStep.ofAhead ahead := by
  match ahead with
  | [] => exact absurd rfl hne
  | [c] =>
    have hc : c ≠ '.' := by rintro rfl; exact hdot rfl
    by_cases hclose : c = ')'
    · subst hclose
      rfl
    · simp [ListStep.ofAhead, hc, hclose]
  | c :: d :: rest =>
    by_cases hclose : c = ')'
    · subst hclose
      rfl
    · by_cases hc : c = '.'
      · subst hc
        by_cases hd : d = '.'
        · subst hd
          rfl
        · simp [ListStep.ofAhead, hd]
      · simp [ListStep.ofAhead, hc, hclose]

/-- A reader of data that does not depend on what follows the datum. -/
structure IsLocal (item : Reader Datum) : Prop where
  forward : Forward item
  shortens : ∀ r, Shortens item r
  localAt : ∀ s r, LocalAt (Breaks s) s item r

/-- What takes a character cannot succeed where there is none. -/
theorem error_of_ahead_nil {item : Reader Datum} (hshort : Shortens item r)
    (h : r.cursor.ahead = []) : ∃ e r', item r = .error e r' := by
  cases hi : item r with
  | error e r' => exact ⟨e, r', rfl⟩
  | ok d r' =>
    have hlt : (Place.ahead r').length < r.cursor.ahead.length := hshort d r' hi
    rw [h] at hlt
    exact absurd hlt (Nat.not_lt_zero _)

/-- A dot that is the last character of the text leaves open whether it is one: it fails
for want of an item in front or of one behind, and neither is final. -/
theorem dottedTail_of_last_dot {item : Reader Datum} (hitem : IsLocal item) (done : List Datum)
    (h : r.cursor.ahead = ['.']) :
    ∃ e r', dottedTail item done r = .error e r' ∧ ¬ e.IsFinal (ahead r') := by
  unfold dottedTail
  split
  · -- the error at such a dot is final only with another character behind it
    refine ⟨.dotWithoutItem, r, rfl, fun hfin => ?_⟩
    change 2 ≤ r.cursor.ahead.length at hfin
    rw [h, List.length_singleton] at hfin
    omega
  · have hnil : (r.advanceBy 1).cursor.ahead = [] := ahead_advanceBy_one h
    obtain ⟨e, r', hi⟩ := error_of_ahead_nil (hitem.shortens (r.advanceBy 1)) hnil
    refine ⟨e, r', ?_, fun hfin => ?_⟩
    · rw [bind_of_ok (advance_run 1 r), bind_of_ok (filler_run _), skipFiller_of_ahead_nil hnil,
        bind_of_ok (peek_run _), hnil]
      exact bind_of_error hi
    · exact (hitem.forward.error hi).ahead_ne_nil hfin.ne_nil hnil

section

variable {item : Reader Datum} (hitem : IsLocal item)
include hitem

/-- From its dot on the tail of a list is local; filler behind the dot may go on in the longer
text. -/
theorem localAt_dottedTail (done : List Datum) (hne : r.cursor.ahead ≠ []) :
    LocalAt (Breaks s) s (dottedTail item done) r := by
  have hclose : ∀ tail, Forward (scan Scan.filler >>= fun _ => closeList done tail) :=
    fun tail => forward_bind (forward_scan Scan.forward_filler) fun _ => forward_closeList done tail
  unfold dottedTail
  split
  · exact localAt_throw _
  · refine localAt_bind (localAt_scan (Scan.localAt_advance _ (List.length_pos_iff.mpr hne)))
      fun _ r₁ _ => ?_
    -- filler that ends the text may go on in the longer one, but then there is no item yet
    refine localAt_bind_inside (localAt_scan Scan.localAt_filler_inside) (fun _ => ?_)
      (fun _ r₂ _ hne₂ => ?_) (fun _ r₂ _ hnil => ?_)
    · refine forward_bind (forward_scan Scan.forward_peek) fun found => ?_
      split
      · exact forward_throw _
      · exact forward_bind hitem.forward hclose
    · refine localAt_bind (localAt_scan (Scan.localAt_peek _ hne₂)) fun found r₃ _ => ?_
      split
      · exact localAt_throw _
      · refine localAt_bind (hitem.localAt s r₃) fun tail r₄ _ => ?_
        exact localAt_bind_inside (localAt_scan Scan.localAt_filler_inside)
          (fun _ => forward_closeList done tail) (fun _ r₅ _ _ => localAt_closeList done tail)
          fun _ r₅ _ hnil => ⟨_, r₅, closeList_of_ahead_nil done tail hnil⟩
    · obtain ⟨e, r₃, hi⟩ := error_of_ahead_nil (hitem.shortens r₂) hnil
      refine ⟨e, r₃, ?_⟩
      rw [bind_of_ok (peek_run r₂), show r₂.cursor.ahead = [] from hnil]
      exact bind_of_error hi

omit hitem in
/-- An item or a dot is behind the filler, not its end. -/
theorem ahead_skipFiller_ne_nil (h : ListStep.ofAhead r.skipFiller.cursor.ahead ≠ .close) :
    r.skipFiller.cursor.ahead ≠ [] := by
  intro hnil
  rw [hnil] at h
  exact h rfl

/-- An item is the next one of the longer text, too. -/
theorem restOf_item_extend {done : List Datum}
    (hstep : ListStep.ofAhead r.skipFiller.cursor.ahead = .item) :
    restOf item done (extend r s)
      = (item >>= fun d => restOf item (d :: done)) (extend r.skipFiller s) := by
  have hne := ahead_skipFiller_ne_nil (r := r) (by rw [hstep]; decide)
  rw [← skipFiller_extend hne]
  refine restOf_item hitem.shortens ?_
  rw [skipFiller_extend hne]
  show ListStep.ofAhead (r.skipFiller.cursor.ahead ++ s) = .item
  rw [ofAhead_append hne, hstep]
  rintro hdot
  rw [hdot] at hstep
  exact absurd hstep (by decide)

/-- Along the items of a list: at each of them the longer text decides the same way. -/
theorem localAt_restOf (done : List Datum) (r : Reading) :
    LocalAt (Breaks s) s (restOf item done) r := by
  have hfwdRest : ∀ done, Forward (restOf item done) :=
    fun done r => forward_listRest hitem.forward _ done r
  have hpass : ∀ r : Reading, r.cursor.Passes r.skipFiller.cursor :=
    fun r => r.cursor.passes_skipFiller
  -- along the items of the list; what comes next is decided behind the filler
  refine restOf_induct (motive := fun done r => LocalAt (Breaks s) s (restOf item done) r)
    hitem.shortens ?close ?dot ?next done r
  case close =>
    intro done r hstep
    cases hahead : r.skipFiller.cursor.ahead with
    | nil =>
      refine localAt_of_error (.unclosedList none) r.skipFiller (hfwdRest done) ?_
        fun hfin => hfin hahead
      rw [restOf_close hstep, closeList_of_ahead_nil _ _ hahead]
    | cons x rest =>
      have hne : r.skipFiller.cursor.ahead ≠ [] := by rw [hahead]; exact List.cons_ne_nil x rest
      refine localAt_skipFiller _ _ (hpass r) (restOf_close hstep) ?_ (localAt_closeList done .nil)
      rw [← skipFiller_extend hne]
      refine restOf_close ?_
      rw [skipFiller_extend hne]
      show ListStep.ofAhead (r.skipFiller.cursor.ahead ++ s) = .close
      rw [ofAhead_append hne, hstep]
      rintro hdot
      rw [hdot] at hstep
      exact absurd hstep (by decide)
  case dot =>
    intro done r hstep
    have hne := ahead_skipFiller_ne_nil (r := r) (by rw [hstep]; decide)
    -- the one dot at the end of the text may turn out to be the first of two
    by_cases hlast : r.skipFiller.cursor.ahead = ['.']
    · obtain ⟨e, r', hrun, hfin⟩ := dottedTail_of_last_dot hitem done hlast
      exact localAt_of_error _ _ (hfwdRest done) ((restOf_dot hstep).trans hrun) hfin
    · refine localAt_skipFiller _ _ (hpass r) (restOf_dot hstep) ?_
        (localAt_dottedTail hitem done hne)
      rw [← skipFiller_extend hne]
      refine restOf_dot ?_
      rw [skipFiller_extend hne]
      show ListStep.ofAhead (r.skipFiller.cursor.ahead ++ s) = .dot
      rw [ofAhead_append hne hlast, hstep]
  case next =>
    intro done r hstep ih
    exact localAt_skipFiller (item >>= fun d => restOf item (d :: done)) _ (hpass r)
      (restOf_item hitem.shortens hstep) (restOf_item_extend hitem hstep)
      (localAt_bind (hitem.localAt s _) ih)

/-- A list ends with its parenthesis, whatever follows. -/
theorem localAt_list (hne : r.cursor.ahead ≠ []) : LocalAt (Breaks s) s (list item) r := by
  refine localAt_skipFiller (restOf item []) (r.advanceBy 1)
    (Cursor.passes_advanceBy _ 1) (list_eq item r) ?_
    (localAt_restOf hitem [] _)
  rw [list_eq]
  show restOf item [] ({ r with cursor := (r.cursor.extend s).advanceBy 1 } : Reading) = _
  rw [Cursor.advanceBy_extend s (List.length_pos_iff.mpr hne)]
  rfl

/-- An abbreviation is as local as the datum behind the mark. -/
theorem localAt_abbreviated (a : Abbreviation) (hne : r.cursor.ahead ≠ []) :
    LocalAt (Breaks s) s (abbreviated a item) r := by
  unfold abbreviated
  refine localAt_bind (localAt_scan (Scan.localAt_advance _ (List.length_pos_iff.mpr hne)))
    fun _ r₁ _ => ?_
  exact localAt_bind (hitem.localAt s r₁) fun _ r₂ _ => localAt_pure _

/-- An at sign is no white space, so none follows a comma at the end of the text. -/
theorem localAt_unquoted (hne : r.cursor.ahead ≠ []) :
    LocalAt (Breaks s) s (unquoted item) r := by
  unfold unquoted
  refine localAt_bind (localAt_scan (Scan.localAt_advance _ (List.length_pos_iff.mpr hne)))
    fun _ r₁ _ => ?_
  refine localAt_bind (localAt_scan (Scan.localAt_accept (by decide))) fun b r₂ _ => ?_
  split
  · exact localAt_bind (hitem.localAt s r₂) fun _ r₃ _ => localAt_pure _
  · exact localAt_bind (hitem.localAt s r₂) fun _ r₃ _ => localAt_pure _

end

/-- An atom is as local as its token. -/
theorem localAt_atom {token : Scan Atom} (h : LocalAt atEnd s token r.cursor) :
    LocalAt atEnd s (atom token) r := by
  unfold atom
  exact localAt_bind (localAt_scan h) fun _ _ _ => localAt_pure _

theorem localAt_number : LocalAt (Breaks s) s (number Scan.numeral) r := by
  unfold number
  exact localAt_bind (localAt_scan Scan.localAt_numeral) fun _ _ _ => localAt_pure _

/-- A form with parts is local if it is so for every reader of its parts. -/
theorem localAt_nested {inner : Option (Reader Datum)} {form : Reader Datum → Reader Datum}
    (hform : ∀ item ∈ inner, LocalAt atEnd s (form item) r) :
    LocalAt atEnd s (nested inner form) r := by
  unfold nested
  split
  · exact localAt_throw _
  · next item => exact hform item rfl

/-- What follows a sign decides between a number and a symbol; at the end of the text it is a
symbol, and so it is before white space. -/
theorem localAt_sign (inner : Option (Reader Datum)) (hne : r.cursor.ahead ≠ []) :
    LocalAt (Breaks s) s (form inner .sign) r := by
  obtain ⟨x, run, hahead⟩ := List.exists_cons_of_ne_nil hne
  have hsymbol : LocalAt (Breaks s) s (atom Scan.symbolToken) r :=
    localAt_atom (Scan.localAt_symbolToken hne)
  cases run with
  | cons y run =>
    have hlen : 1 < r.cursor.ahead.length := by
      rw [hahead, List.length_cons, List.length_cons]
      omega
    refine localAt_bind (localAt_scan (Scan.localAt_peekAt _ hlen)) fun found r₁ h => ?_
    obtain ⟨h, hr₁⟩ := ok_of_scan h
    injection h with _ hc
    rw [← hc] at hr₁
    subst hr₁
    split
    · exact localAt_number
    · exact hsymbol
  | nil =>
    have hrun : form inner .sign r = atom Scan.symbolToken r := form_sign hahead
    refine ⟨?_, fun d r' h hend => ?_, fun e r' h hfin => ?_⟩
    · rw [hrun]
      exact hsymbol.forward
    · rw [hrun] at h
      -- the symbol takes the sign, so it ends where the text does
      have hshort : (ahead r').length < r.cursor.ahead.length :=
        shortens_of_bind (shortens_scan (Scan.shortens_symbolToken hne)) (fun _ => forward_pure _)
          d r' h
      rw [hahead, List.length_singleton, Nat.lt_one_iff] at hshort
      have hbreaks : Breaks s := hend.resolve_left fun h => h (List.length_eq_zero_iff.mp hshort)
      have hdigit : ¬ (s.head?.any Char.isDigit) = true := by
        rw [Option.any_eq_true]
        rintro ⟨c, hc, hd⟩
        exact absurd (isDigit_of_isBlank c (hbreaks c hc)) (by rw [hd]; decide)
      have hahead' : (extend r s).cursor.ahead = x :: s := by
        show r.cursor.ahead ++ s = x :: s
        rw [hahead, List.singleton_append]
      rw [form_sign hahead', if_neg hdigit]
      exact hsymbol.ok d r' h hend
    · rw [hrun] at h
      rcases error_of_bind h with h | ⟨a, r₁, _, h⟩
      · exact absurd (error_of_scan h).1 (by simp [Scan.symbolToken_ok])
      · exact (error_of_pure h).elim

section

variable {inner : Option (Reader Datum)} (hinner : ∀ item ∈ inner, IsLocal item)
include hinner

/-- Every form of a datum is local, from its first character on. -/
theorem localAt_form (o : Opening) (hne : r.cursor.ahead ≠ []) :
    LocalAt (Breaks s) s (form inner o) r := by
  cases o with
  | hash => exact localAt_atom Scan.localAt_hashToken
  | list => exact localAt_nested fun item hi => localAt_list (hinner item hi) hne
  | quote => exact localAt_nested fun item hi => localAt_abbreviated (hinner item hi) .quote hne
  | quasiquote =>
    exact localAt_nested fun item hi => localAt_abbreviated (hinner item hi) .quasiquote hne
  | unquote => exact localAt_nested fun item hi => localAt_unquoted (hinner item hi) hne
  | sign => exact localAt_sign inner hne
  | string => exact localAt_atom (Scan.localAt_stringToken hne)
  | digit => exact localAt_number
  | other => exact localAt_atom (Scan.localAt_symbolToken hne)

/-- A datum is local behind the filler in front of it. -/
theorem localAt_datumWith (r : Reading) : LocalAt (Breaks s) s (datumWith inner) r := by
  have hfwd : Forward (datumWith inner) := forward_datumWith fun item hi => (hinner item hi).forward
  cases hahead : r.skipFiller.cursor.ahead with
  | nil => exact localAt_of_error _ _ hfwd (datumWith_nil hahead) fun hfin => hfin hahead
  | cons c rest =>
    have hne : r.skipFiller.cursor.ahead ≠ [] := by rw [hahead]; exact List.cons_ne_nil c rest
    refine localAt_skipFiller _ (r.skipFiller.noted c) r.cursor.passes_skipFiller
      (datumWith_cons hahead) ?_ (localAt_form hinner (.ofChar c) hne)
    rw [datumWith_cons (ahead_skipFiller_extend hahead), skipFiller_extend hne]
    rfl

end

/-- Reading a datum does not depend on what follows it, as long as that does not touch it. -/
theorem isLocal_datum (depth : Nat) : IsLocal (datum depth) := by
  induction depth with
  | zero =>
    exact ⟨forward_datum 0, shortens_datum 0,
      fun s => localAt_datumWith fun item h => absurd h (by simp)⟩
  | succ depth ih =>
    refine ⟨forward_datum _, shortens_datum _, fun s => localAt_datumWith fun item h => ?_⟩
    rw [← Option.some.inj h]
    exact ih

/-- A final error of the reader is the error of every longer text. -/
theorem localAt_onlyDatum (depth : Nat) (r : Reading) :
    LocalAt False s (onlyDatum depth) r := by
  unfold onlyDatum
  refine localAt_bind (((isLocal_datum depth).localAt s r).mono False.elim) fun d r₁ _ => ?_
  refine localAt_bind (localAt_scan Scan.localAt_filler_inside) fun _ r₂ _ => ?_
  refine localAt_bind (localAt_scan Scan.localAt_peek_inside) fun found r₃ _ => ?_
  split
  · exact localAt_pure _
  · exact localAt_throw _

end Reader

end Sexpr
