import Sexpr.Proofs.Reader.Numerals
import Sexpr.Proofs.Reader.Progress
import Sexpr.Proofs.Text.Quoted

/-!
# Where errors arise

Every cause says something about the place at which reading stopped: which character is
next there, or that none is, or which part of a number has just been passed. The
place of an error and what it reports as found therefore agree.

> `Cause.Locates`: what each cause says about its place.
> `placed_onlyDatum`: every error of the reader arises where its cause says.
-/

namespace Sexpr

/-! ## Causes and places -/

/-- What comes next is a token: it is neither white space nor a comment. -/
def BeginsToken (text : List Char) : Prop :=
  ∀ x ∈ text.head?, isBlank x = false ∧ x ≠ ';'

/-- Behind filler there is a token. -/
theorem beginsToken_skipFiller (c : Cursor) : BeginsToken c.skipFiller.ahead := by
  intro x hx
  rw [Cursor.ahead_skipFiller] at hx
  cases hdrop : dropFiller false c.ahead with
  | nil =>
    rw [hdrop] at hx
    exact absurd hx (by simp)
  | cons y rest =>
    rw [hdrop] at hx
    injection hx with hx
    subst hx
    exact head_dropFiller hdrop

/-- What a cause says about the place where it arose, with the text `p` before the place and the
text `r` behind it. -/
def Cause.Locates (p r : List Char) : Cause → Prop
  | nothingToRead => r = []
  | trailingContent found => r.head? = some found ∧ BeginsToken r
  | invalidNumber =>
    (∃ q mark, p = q ++ [mark, '.'] ∧ mark ∈ ['/', '+', '-']) ∧ ∀ x ∈ r.head?, x.isDigit = false
  | missingDenominator => (∃ q, p = q ++ ['/']) ∧ ∀ x ∈ r.head?, x.isDigit = false ∧ x ≠ '.'
  | divisionByZero =>
    (∃ q run n, p = q ++ '/' :: run ∧ Unsigned run n ∧ n.isZero = true ∧
      ('.' ∈ run ∨ r.head? ≠ some '.')) ∧ ∀ x ∈ r.head?, x.isDigit = false
  | missingImaginaryUnit found =>
    (r.head? = found ∧ found ≠ some 'i') ∧ ∃ q mark run, p = q ++ mark :: run ∧
      mark ∈ ['+', '-'] ∧ (run = [] ∨ ∃ n, Unsigned run n)
  | unclosedList found => r.head? = found ∧ found ≠ some ')' ∧ BeginsToken r
  | dotWithoutItem => ∃ rest, r = '.' :: rest ∧ rest.head? ≠ some '.'
  | missingItemAfterDot => ∃ rest, r = ')' :: rest
  | unterminatedString => r = []
  | vectorUnsupported => ∃ rest, r = '#' :: '(' :: rest
  | invalidHashToken found =>
    ∃ rest, r = '#' :: rest ∧ rest.head? = found ∧ found ∉ [some 't', some 'f', some '(']
  | nestingTooDeep => ∃ x rest, r = x :: rest ∧ x ∈ ['(', '\x27', '\x60', ',']

/-- The cause arose at this place. -/
def Cause.Fits (c : Cursor) (e : Cause) : Prop :=
  e.Locates c.passed.reverse c.ahead

open Place

/-- The step leads to a place with a property, or fails at a place that fits the cause. -/
structure PlacedAt {σ α : Type} [Place σ] (P : Cursor → Prop) (m : EStateM Cause σ α)
    (r : σ) : Prop where
  ok : ∀ a r', m r = .ok a r' → P (cursor r')
  error : ∀ e r', m r = .error e r' → e.Fits (cursor r')

/-- The places with no property in particular. -/
def anywhere : Cursor → Prop := fun _ => True

section

variable {σ α β : Type} [Place σ] {P Q : Cursor → Prop} {r : σ}

/-- A result leaves the place as it is. -/
theorem placed_pure (a : α) (h : P (cursor r)) : PlacedAt P (pure a : EStateM Cause σ α) r := by
  refine ⟨fun b r' hr => ?_, fun e r' hr => (error_of_pure hr).elim⟩
  obtain ⟨rfl, rfl⟩ := ok_of_pure hr
  exact h

/-- A cause has to fit the place where it is raised. -/
theorem placed_throw {e : Cause} (h : e.Fits (cursor r)) :
    PlacedAt P (throw e : EStateM Cause σ α) r := by
  refine ⟨fun b r' hr => (ok_of_throw hr).elim, fun e' r' hr => ?_⟩
  obtain ⟨rfl, rfl⟩ := error_of_throw hr
  exact h

/-- A step that always succeeds, at a known place. -/
theorem placed_of_ok {m : EStateM Cause σ α} {a : α} {r' : σ} (hm : m r = .ok a r')
    (h : P (cursor r')) : PlacedAt P m r := by
  refine ⟨fun b r'' hr => ?_, fun e r'' hr => absurd (hm.symm.trans hr) (by simp)⟩
  have hrr := hm.symm.trans hr
  injection hrr with _ hr'
  subst hr'
  exact h

/-- A step that fails at a known place. -/
theorem placed_of_error {m : EStateM Cause σ α} {e : Cause} {r' : σ} (hm : m r = .error e r')
    (h : e.Fits (cursor r')) : PlacedAt P m r := by
  refine ⟨fun a r'' hr => absurd (hm.symm.trans hr) (by simp), fun e' r'' hr => ?_⟩
  have hee := hm.symm.trans hr
  injection hee with he hr'
  subst he hr'
  exact h

/-- A run that is the run of another step from another place. -/
theorem placed_of_run {m m' : EStateM Cause σ α} {r₁ : σ} (hrun : m r = m' r₁)
    (h : PlacedAt P m' r₁) : PlacedAt P m r :=
  ⟨fun a r' hr => h.ok a r' (hrun.symm.trans hr), fun e r' hr => h.error e r' (hrun.symm.trans hr)⟩

/-- Steps in sequence: the property of the place in between may be used about the second one. -/
theorem placed_bind {x : EStateM Cause σ α} {f : α → EStateM Cause σ β}
    (hx : PlacedAt Q x r) (hf : ∀ a r₁, x r = .ok a r₁ → Q (cursor r₁) → PlacedAt P (f a) r₁) :
    PlacedAt P (x >>= f) r := by
  refine ⟨fun b r₂ h => ?_, fun e r₂ h => ?_⟩
  · obtain ⟨a, r₁, h₁, h₂⟩ := ok_of_bind h
    exact (hf a r₁ h₁ (hx.ok a r₁ h₁)).ok b r₂ h₂
  · rcases error_of_bind h with h₁ | ⟨a, r₁, h₁, h₂⟩
    · exact hx.error e r₂ h₁
    · exact (hf a r₁ h₁ (hx.ok a r₁ h₁)).error e r₂ h₂

end

/-! ## Numerals -/

namespace Scan

variable {c : Cursor}

/-- There is a slash in front of the place where a divisor is missing, or is zero. -/
theorem placed_quotient (base : Number) (c : Cursor) : PlacedAt anywhere (quotient base) c := by
  unfold quotient
  rcases accept_cases '/' c with ⟨c₁, hslash, hpass⟩ | ⟨hslash, _⟩
  · refine placed_of_run (bind_of_ok hslash) ?_
    rw [if_pos rfl]
    have hrun := unsigned_run c₁
    generalize hunsigned : unsigned c₁ = result at hrun
    cases hrun with
    | point h hdigit =>
      exact placed_of_error (bind_of_error hunsigned)
        ⟨⟨_, '/', (hpass.trans h).passed, by decide⟩, hdigit⟩
    | none h hdigit hpoint =>
      refine placed_of_run (bind_of_ok hunsigned) (placed_throw ⟨⟨_, (hpass.trans h).passed⟩, ?_⟩)
      intro x hx
      exact ⟨hdigit x hx, fun hdot => hpoint (hdot ▸ hx)⟩
    | some hn h hdigit hpoint =>
      refine placed_of_run (bind_of_ok hunsigned) ?_
      dsimp only
      split
      · next hzero =>
        exact placed_throw ⟨⟨_, _, _, (hpass.trans h).passed, hn, hzero, hpoint⟩, hdigit⟩
      · exact placed_pure _ trivial
  · exact placed_of_run (bind_of_ok hslash) (placed_pure _ trivial)

/-- The unit has to follow a sign and what there is of a number. -/
theorem placed_unit {value : Number} (hpassed : ∃ q mark run, c.passed.reverse = q ++ mark :: run ∧
      mark ∈ ['+', '-'] ∧ (run = [] ∨ ∃ n, Unsigned run n)) :
    PlacedAt anywhere (do
      if ← accept 'i' then return value
      else throw (.missingImaginaryUnit (← peek)) : Scan Number) c := by
  rcases accept_cases 'i' c with ⟨c₁, hunit, _⟩ | ⟨hunit, hnext⟩
  · exact placed_of_run (bind_of_ok hunit) (placed_pure _ trivial)
  · refine placed_of_run (bind_of_ok hunit) ?_
    exact placed_of_run (bind_of_ok (peek_run c)) (placed_throw ⟨⟨rfl, hnext⟩, hpassed⟩)

/-- Between a sign and the place where the unit is missing there is at most a number. -/
theorem placed_imaginary (base : Number)
    (hmark : c.ahead.head? = some '+' ∨ c.ahead.head? = some '-') :
    PlacedAt anywhere (imaginary base) c := by
  obtain ⟨sign, c₁, hsign, hpass, hmem, hnone⟩ := sign_run c
  -- the last character of the sign is the mark in front of the point, or of the unit
  have hlast : ∃ q mark, sign = q ++ [mark] ∧ mark ∈ ['+', '-'] := by
    simp only [List.mem_cons, List.not_mem_nil, or_false] at hmem
    rcases hmem with rfl | rfl | rfl | rfl
    · obtain ⟨hplus, hminus⟩ := hnone rfl
      rcases hmark with h | h
      · exact absurd h hplus
      · exact absurd h hminus
    · exact ⟨[], '+', rfl, by decide⟩
    · exact ⟨[], '-', rfl, by decide⟩
    · exact ⟨['-'], '+', rfl, by decide⟩
  obtain ⟨q, mark, rfl, hmark⟩ := hlast
  have hbefore : ∀ {run : List Char} {c₂ : Cursor}, c₁.Between run c₂ →
      c₂.passed.reverse = c.passed.reverse ++ q ++ mark :: run := by
    intro run c₂ h
    rw [(hpass.trans h).passed]
    simp
  unfold imaginary
  refine placed_of_run (bind_of_ok hsign) ?_
  have hrun := unsigned_run c₁
  generalize hunsigned : unsigned c₁ = result at hrun
  cases hrun with
  | point h hdigit =>
    exact placed_of_error (bind_of_error hunsigned)
      ⟨⟨_, mark, hbefore h, List.mem_cons_of_mem '/' hmark⟩, hdigit⟩
  | none h _ _ =>
    exact placed_of_run (bind_of_ok hunsigned)
      (placed_unit ⟨_, mark, [], hbefore h, hmark, Or.inl rfl⟩)
  | some hn h _ _ =>
    exact placed_of_run (bind_of_ok hunsigned)
      (placed_unit ⟨_, mark, _, hbefore h, hmark, Or.inr ⟨_, hn⟩⟩)

/-- An imaginary part is read only where a sign is. -/
theorem placed_imaginaryIfSigned (base : Number) (c : Cursor) :
    PlacedAt anywhere (imaginaryIfSigned base) c := by
  unfold imaginaryIfSigned
  refine placed_of_run (bind_of_ok (peek_run c)) ?_
  split
  · next h => exact placed_imaginary base (Or.inl h)
  · next h => exact placed_imaginary base (Or.inr h)
  · exact placed_pure _ trivial

/-- With a digit ahead there is an unsigned number. -/
theorem unsigned_of_digit {d : Char} {rest : List Char} (hahead : c.ahead = d :: rest)
    (hd : d.isDigit = true) : ∃ n c', unsigned c = .ok (some n) c' := by
  have hrun := unsigned_run c
  generalize hunsigned : unsigned c = result at hrun
  cases hrun with
  | some => exact ⟨_, _, rfl⟩
  | none h hdigit _ =>
    have hnot := hdigit d (by rw [← List.nil_append (Cursor.ahead _), ← h.ahead, hahead]; rfl)
    exact absurd (hd.symm.trans hnot) (by decide)
  | point h _ =>
    have hdot : d = '.' := by
      have heq := hahead.symm.trans h.ahead
      injection heq
    rw [hdot] at hd
    exact absurd hd (by decide)

/-- A numeral begins here: with a digit, or with a sign and a digit. -/
def AtNumeral (c : Cursor) : Prop :=
  ∃ d rest, d.isDigit = true ∧
    (c.ahead = d :: rest ∨ c.ahead = '+' :: d :: rest ∨ c.ahead = '-' :: d :: rest)

/-- The sign of a numeral ends before a digit. -/
theorem sign_of_atNumeral (h : AtNumeral c) :
    ∃ negative c₁ d rest, sign c = .ok negative c₁ ∧ c₁.ahead = d :: rest ∧ d.isDigit = true := by
  obtain ⟨d, rest, hd, h | h | h⟩ := h
  · exact ⟨false, c, d, rest, sign_of_digit h hd, h, hd⟩
  · exact ⟨false, c.advance, d, rest, sign_of_plus h, Cursor.ahead_advance_of_head h, hd⟩
  · have hplus : (d :: rest).head? ≠ some '+' := by
      rw [List.head?_cons, ne_eq, Option.some.injEq]
      exact isDigit_ne hd (by decide)
    exact ⟨true, c.advance, d, rest, sign_of_minus h hplus, Cursor.ahead_advance_of_head h, hd⟩

/-- A numeral never fails for want of digits, as it is read only where there is one. -/
theorem placed_numeral (h : AtNumeral c) : PlacedAt anywhere numeral c := by
  obtain ⟨negative, c₁, d, rest, hsign, hahead, hd⟩ := sign_of_atNumeral h
  obtain ⟨n, c₂, hunsigned⟩ := unsigned_of_digit hahead hd
  have hnumeral : numeral c = (do
      let value ← imaginaryIfSigned (← quotient n)
      return if negative then -value else value : Scan Number) c₂ := by
    unfold numeral
    rw [bind_of_ok hsign, bind_of_ok hunsigned]
  refine placed_of_run hnumeral (placed_bind (placed_quotient n c₂) fun value c₃ _ _ => ?_)
  exact placed_bind (placed_imaginaryIfSigned value c₃) fun _ _ _ _ => placed_pure _ trivial

/-! ## Other tokens -/

/-- What is no token behind a number sign is still ahead, with the sign. -/
theorem placed_hashToken {rest : List Char} (h : c.ahead = '#' :: rest) :
    PlacedAt anywhere hashToken c := by
  have hfound : c.peekAt? 1 = rest.head? := by
    rw [Cursor.peekAt?, h, List.getElem?_cons_succ, List.head?_eq_getElem?]
  unfold hashToken
  refine placed_bind (Q := (· = c)) (placed_of_ok (peekAt_run 1 c) rfl) fun found c₁ hrun hc => ?_
  rw [peekAt_run] at hrun
  injection hrun with hfound' _
  rw [hfound] at hfound'
  subst hc
  split
  · exact placed_of_ok rfl trivial
  · exact placed_of_ok rfl trivial
  · refine placed_throw ?_
    cases rest with
    | nil => exact absurd hfound' (by simp)
    | cons x rest =>
      rw [List.head?_cons, Option.some.injEq] at hfound'
      exact ⟨rest, by rw [← hfound']; exact h⟩
  · next ht hf hopen =>
    refine placed_throw ⟨rest, h, hfound', fun hmem => ?_⟩
    simp only [List.mem_cons, List.not_mem_nil, or_false] at hmem
    rcases hmem with hfound | hfound | hfound
    · exact ht hfound
    · exact hf hfound
    · exact hopen hfound

/-- A string without its quote goes on to the end of the text. -/
theorem placed_stringToken : PlacedAt anywhere stringToken c := by
  cases hdecode : Quoted.decode c.ahead.tail with
  | none => exact placed_of_error (stringToken_of_open hdecode) (Cursor.ahead_advanceBy_length c)
  | some found => exact placed_of_ok (stringToken_of_decode hdecode).1 trivial

end Scan

/-! ## Readers -/

namespace Reader

variable {P : Cursor → Prop} {r : Reading}

/-- In a reading a scanner ends or fails at the place of its cursor. -/
theorem placed_scan {α : Type} {step : Scan α} (h : PlacedAt P step r.cursor) :
    PlacedAt P (scan step) r :=
  ⟨fun a r' hr => h.ok a r'.cursor (ok_of_scan hr).1,
    fun e r' hr => h.error e r'.cursor (error_of_scan hr).1⟩

theorem placed_advance (n : Nat) : PlacedAt anywhere (scan (Scan.advance n)) r :=
  placed_of_ok (advance_run n r) trivial

/-- Behind the filler there is a token or the end of the text. -/
theorem placed_filler : PlacedAt (BeginsToken ·.ahead) (scan Scan.filler) r :=
  placed_of_ok (filler_run r) (beginsToken_skipFiller _)

/-- What is there in place of the parenthesis begins a token. -/
theorem placed_closeList (done : List Datum) (tail : Datum) (h : BeginsToken r.cursor.ahead) :
    PlacedAt anywhere (closeList done tail) r := by
  refine ⟨fun _ _ _ => trivial, fun e r' herror => ?_⟩
  obtain ⟨rfl, rfl⟩ := error_of_closeList herror
  refine ⟨rfl, fun hclose => ?_, h⟩
  obtain ⟨rest, hahead⟩ := List.head?_eq_some_iff.mp hclose
  exact absurd ((closeList_of_close done tail hahead).symm.trans herror) (by simp)

/-- A dot is the tail of a list only if no second dot follows. -/
theorem ofAhead_dot {ahead : List Char} (h : ListStep.ofAhead ahead = .dot) :
    ∃ rest, ahead = '.' :: rest ∧ rest.head? ≠ some '.' := by
  unfold ListStep.ofAhead at h
  split at h
  · exact absurd h (by decide)
  · exact absurd h (by decide)
  · exact absurd h (by decide)
  · next rest hdots =>
    refine ⟨rest, rfl, fun hhead => ?_⟩
    obtain ⟨rest', hrest⟩ := List.head?_eq_some_iff.mp hhead
    exact hdots rest' hrest
  · exact absurd h (by decide)

section

variable {item : Reader Datum} (hitem : ∀ r, PlacedAt anywhere item r)
include hitem

/-- A dot without items is still ahead, and so is the parenthesis in place of a tail. -/
theorem placed_dottedTail (done : List Datum) {rest : List Char}
    (hahead : r.cursor.ahead = '.' :: rest) (hrest : rest.head? ≠ some '.') :
    PlacedAt anywhere (dottedTail item done) r := by
  unfold dottedTail
  split
  · exact placed_throw ⟨rest, hahead, hrest⟩
  · refine placed_bind (placed_advance 1) fun _ r₁ _ _ => ?_
    refine placed_bind placed_filler fun _ r₂ _ _ => ?_
    refine placed_bind (Q := anywhere) (placed_of_ok (peek_run r₂) trivial)
      fun found r₃ hfound _ => ?_
    rw [peek_run] at hfound
    injection hfound with hfound hr₃
    subst hr₃
    split
    · next hclose =>
      refine placed_throw ?_
      rw [hclose] at hfound
      exact List.head?_eq_some_iff.mp hfound
    · refine placed_bind (hitem r₂) fun tail r₄ _ _ => ?_
      exact placed_bind placed_filler fun _ r₅ _ h₅ => placed_closeList _ _ h₅

/-- Along the items of a list: each of them fails, if it does, at a place that fits. -/
theorem placed_restOf (hshort : ∀ r, Shortens item r) (done : List Datum) (r : Reading) :
    PlacedAt anywhere (restOf item done) r := by
  refine restOf_induct (motive := fun done r => PlacedAt anywhere (restOf item done) r) hshort
    ?close ?dot ?next done r
  case close =>
    intro done r hstep
    exact placed_of_run (restOf_close hstep)
      (placed_closeList done .nil (beginsToken_skipFiller r.cursor))
  case dot =>
    intro done r hstep
    obtain ⟨rest, hahead, hrest⟩ := ofAhead_dot hstep
    exact placed_of_run (restOf_dot hstep) (placed_dottedTail hitem done hahead hrest)
  case next =>
    intro done r hstep ih
    exact placed_of_run (restOf_item hshort hstep)
      (placed_bind (hitem _) fun d r₂ hi _ => ih d r₂ hi)

theorem placed_list (hshort : ∀ r, Shortens item r) : PlacedAt anywhere (list item) r :=
  placed_of_run (list_eq item r) (placed_restOf hitem hshort [] _)

theorem placed_abbreviated (a : Abbreviation) : PlacedAt anywhere (abbreviated a item) r := by
  unfold abbreviated
  refine placed_bind (placed_advance 1) fun _ r₁ _ _ => ?_
  exact placed_bind (hitem r₁) fun _ r₂ _ _ => placed_pure _ trivial

theorem placed_unquoted : PlacedAt anywhere (unquoted item) r := by
  unfold unquoted
  refine placed_bind (placed_advance 1) fun _ r₁ _ _ => ?_
  refine placed_bind (Q := anywhere) (placed_scan (placed_of_ok (Scan.accept_run _ _) trivial))
    fun splicing r₂ _ _ => ?_
  split
  · exact placed_bind (hitem r₂) fun _ r₃ _ _ => placed_pure _ trivial
  · exact placed_bind (hitem r₂) fun _ r₃ _ _ => placed_pure _ trivial

end

/-- An atom fails where its token does. -/
theorem placed_atom {token : Scan Atom} (h : PlacedAt P token r.cursor) :
    PlacedAt anywhere (atom token) r := by
  unfold atom
  exact placed_bind (placed_scan h) fun _ _ _ _ => placed_pure _ trivial

theorem placed_symbol : PlacedAt anywhere (atom Scan.symbolToken) r :=
  placed_atom (P := anywhere) (placed_of_ok (Scan.symbolToken_ok r.cursor) trivial)

/-- A number is read only where there is one, so it fails at a place inside it. -/
theorem placed_number (h : Scan.AtNumeral r.cursor) :
    PlacedAt anywhere (number Scan.numeral) r := by
  unfold number
  exact placed_bind (placed_scan (Scan.placed_numeral h)) fun _ _ _ _ => placed_pure _ trivial

/-- A digit, or a sign and a digit, is the beginning of a number. -/
theorem datum_of_atNumeral (depth : Nat) (h : Scan.AtNumeral r.skipFiller.cursor) :
    ∃ x, datum depth r = number Scan.numeral (r.skipFiller.noted x) := by
  obtain ⟨inner, hinner⟩ := exists_datumWith depth
  obtain ⟨d, rest, hd, h⟩ := h
  have hsigned : ∀ {mark : Char}, r.skipFiller.cursor.ahead = mark :: d :: rest →
      Opening.ofChar mark = .sign →
      datum depth r = number Scan.numeral (r.skipFiller.noted mark) := by
    intro mark hahead hmark
    have hdigit : ((d :: rest).head?.any Char.isDigit) = true := hd
    have hform : form inner .sign (r.skipFiller.noted mark)
        = number Scan.numeral (r.skipFiller.noted mark) := by
      rw [form_sign (r := r.skipFiller.noted mark) hahead, if_pos hdigit]
    rw [hinner, datumWith_cons hahead, hmark, hform]
  rcases h with h | h | h
  · refine ⟨d, ?_⟩
    rw [hinner, datumWith_cons h, ofChar_of_isDigit hd]
    rfl
  · exact ⟨'+', hsigned h rfl⟩
  · exact ⟨'-', hsigned h rfl⟩

/-- Where a number begins, a datum is what the scanner of numbers reads. -/
theorem ok_of_datum_number {depth : Nat} {r' : Reading} {d : Datum}
    (hstart : Scan.AtNumeral r.skipFiller.cursor) (h : datum depth r = .ok d r') :
    ∃ n, d = .number n ∧ Scan.numeral r.skipFiller.cursor = .ok n r'.cursor := by
  obtain ⟨x, hrun⟩ := datum_of_atNumeral depth hstart
  rw [hrun] at h
  obtain ⟨n, r₁, hnumeral, h⟩ := ok_of_bind h
  obtain ⟨hd, rfl⟩ := ok_of_pure h
  exact ⟨n, hd.symm, (ok_of_scan hnumeral).1⟩

/-- The readers of the parts of a datum that fail where their causes say. -/
def PlacedInner (inner : Option (Reader Datum)) : Prop :=
  ∀ item ∈ inner, (∀ r, Shortens item r) ∧ ∀ r, PlacedAt anywhere item r

/-- Without depth the mark of the form is still ahead. -/
theorem placed_nested {inner : Option (Reader Datum)} {form : Reader Datum → Reader Datum}
    {x : Char} {rest : List Char} (hahead : r.cursor.ahead = x :: rest)
    (hx : x ∈ ['(', '\x27', '\x60', ','])
    (hform : ∀ item ∈ inner, PlacedAt anywhere (form item) r) :
    PlacedAt anywhere (nested inner form) r := by
  unfold nested
  split
  · exact placed_throw ⟨x, rest, hahead, hx⟩
  · next item => exact hform item rfl

/-- Behind a sign there is a number or a symbol, and symbols do not fail. -/
theorem placed_sign (inner : Option (Reader Datum)) {x : Char} {rest : List Char}
    (hahead : r.cursor.ahead = x :: rest) (hx : x = '+' ∨ x = '-') :
    PlacedAt anywhere (form inner .sign) r := by
  have hfound : r.cursor.peekAt? 1 = rest.head? := by
    rw [Cursor.peekAt?, hahead, List.getElem?_cons_succ, List.head?_eq_getElem?]
  refine placed_of_run (bind_of_ok (scan_of_ok (Scan.peekAt_run 1 r.cursor))) ?_
  rw [hfound]
  show PlacedAt anywhere _ r
  split
  · next hdigit =>
    cases rest with
    | nil => exact absurd hdigit (by decide)
    | cons d rest =>
      rcases hx with rfl | rfl
      · exact placed_number ⟨d, rest, hdigit, Or.inr (Or.inl hahead)⟩
      · exact placed_number ⟨d, rest, hdigit, Or.inr (Or.inr hahead)⟩
  · exact placed_symbol

/-- Every form of a datum fails at a place that fits the cause. -/
theorem placed_form {inner : Option (Reader Datum)} (hinner : PlacedInner inner) {x : Char}
    {rest : List Char} (hahead : r.cursor.ahead = x :: rest) :
    PlacedAt anywhere (form inner (.ofChar x)) r := by
  unfold Opening.ofChar
  split
  · exact placed_atom (Scan.placed_hashToken hahead)
  · exact placed_nested hahead (by decide) fun item hi =>
      placed_list (hinner item hi).2 (hinner item hi).1
  · exact placed_nested hahead (by decide) fun item hi => placed_abbreviated (hinner item hi).2 _
  · exact placed_nested hahead (by decide) fun item hi => placed_abbreviated (hinner item hi).2 _
  · exact placed_nested hahead (by decide) fun item hi => placed_unquoted (hinner item hi).2
  · exact placed_sign inner hahead (Or.inl rfl)
  · exact placed_sign inner hahead (Or.inr rfl)
  · exact placed_atom Scan.placed_stringToken
  · split
    · next hd => exact placed_number ⟨x, rest, hd, Or.inl hahead⟩
    · exact placed_symbol

/-- At the end of the text there is nothing to read, and otherwise the form decides. -/
theorem placed_datumWith {inner : Option (Reader Datum)} (hinner : PlacedInner inner)
    (r : Reading) : PlacedAt anywhere (datumWith inner) r := by
  cases hahead : r.skipFiller.cursor.ahead with
  | nil => exact placed_of_error (datumWith_nil hahead) hahead
  | cons x rest =>
    exact placed_of_run (datumWith_cons hahead)
      (placed_form hinner (r := r.skipFiller.noted x) hahead)

/-- By induction on the depth, a datum fails at a place that fits the cause. -/
theorem placed_datum (depth : Nat) (r : Reading) : PlacedAt anywhere (datum depth) r := by
  induction depth generalizing r with
  | zero => exact placed_datumWith (fun _ h => absurd h (by simp)) r
  | succ depth ih =>
    refine placed_datumWith (fun item h => ?_) r
    rw [← Option.some.inj h]
    exact ⟨shortens_datum depth, ih⟩

/-- Every error of the reader arises at a place that fits its cause. -/
theorem placed_onlyDatum (depth : Nat) (r : Reading) : PlacedAt anywhere (onlyDatum depth) r := by
  unfold onlyDatum
  refine placed_bind (placed_datum depth r) fun d r₁ _ _ => ?_
  refine placed_bind placed_filler fun _ r₂ _ h₂ => ?_
  refine placed_bind (Q := anywhere) (placed_of_ok (peek_run r₂) trivial)
    fun found r₃ hfound _ => ?_
  rw [peek_run] at hfound
  injection hfound with hfound hr₃
  subst hr₃
  split
  · exact placed_pure _ trivial
  · exact placed_throw ⟨hfound, h₂⟩

end Reader

end Sexpr
