import Sexpr.Proofs.Datum.Readable
import Sexpr.Proofs.Reader.Causes
import Sexpr.Proofs.Reader.Parallel
import Sexpr.Proofs.Reader.Produced

/-!
# Depth as a limit

How deep a reader may go decides whether it comes to an end, and nothing else. Every text has a
depth of its own: with less than that reading stops for want of it, and from there on more
depth makes no difference. A text cannot ask for more than its marks do, as each level takes
one; and what was read is nested no deeper than the text, though it may be less so, since the
tail behind a dot takes a level and is chained onto the items before it.

> `openings`: the marks that take a level of depth.
> `spared_datum`: with a level for every mark ahead, depth is never missing.
> `nest_datum`: what a reader gives is nested no deeper than it may go.
> `read_has_depth`: the depth of a text.
-/

namespace Sexpr

open Place

/-! ## Marks that take a level -/

/-- The number of marks that begin a datum with parts. Each of them takes a level of depth. -/
def openings (cs : List Char) : Nat :=
  cs.countP (· ∈ ['(', '\x27', '\x60', ','])

/-- Each of the four marks counts. -/
theorem openings_cons {x : Char} (rest : List Char) (hx : x ∈ ['(', '\x27', '\x60', ',']) :
    openings (x :: rest) = openings rest + 1 :=
  List.countP_cons_of_pos (by simpa using hx)

/-- Moving forward leaves no more marks ahead than there were. -/
theorem Cursor.Passes.openings_le {c c' : Cursor} (h : c.Passes c') :
    openings c'.ahead ≤ openings c.ahead :=
  h.ahead_suffix.sublist.countP_le

/-! ## Enough depth -/

/-- From here on the step does not stop for want of depth. -/
def Spared {σ α : Type} (m : EStateM Cause σ α) (r : σ) : Prop :=
  ∀ r', m r ≠ .error .nestingTooDeep r'

section

variable {σ α β : Type} {r : σ}

/-- A step that fails with other causes only is spared. -/
theorem spared_of_failsWith {p : Cause → Prop} {m : EStateM Cause σ α} (hm : FailsWith p m)
    (hp : ¬ p .nestingTooDeep) (r : σ) : Spared m r :=
  fun r' h => hp (hm r _ r' h)

theorem spared_pure (a : α) : Spared (pure a : EStateM Cause σ α) r :=
  fun _ h => (error_of_pure h).elim

/-- Raising another cause is no want of depth. -/
theorem spared_throw {e : Cause} (he : e ≠ .nestingTooDeep) :
    Spared (throw e : EStateM Cause σ α) r :=
  fun _ h => he (error_of_throw h).1

/-- Steps in sequence are spared if each of them is, where it begins. -/
theorem spared_bind {m : EStateM Cause σ α} {f : α → EStateM Cause σ β} (hm : Spared m r)
    (hf : ∀ a r₁, m r = .ok a r₁ → Spared (f a) r₁) : Spared (m >>= f) r := by
  intro r' h
  rcases error_of_bind h with h | ⟨a, r₁, hok, h⟩
  · exact hm r' h
  · exact hf a r₁ hok r' h

/-- A run is spared if another step is that comes to the same. -/
theorem spared_of_run {m m' : EStateM Cause σ α} {r₁ : σ} (hrun : m r = m' r₁)
    (h : Spared m' r₁) : Spared m r := by
  intro r' hr
  exact h r' (hrun.symm.trans hr)

end

namespace Reader

variable {r : Reading}

theorem spared_scan {α : Type} {step : Scan α} (h : ∀ c, Spared step c) : Spared (scan step) r :=
  fun r' hr => h r.cursor r'.cursor (error_of_scan hr).1

/-- Closing a list takes no depth. -/
theorem spared_closeList (done : List Datum) (tail : Datum) : Spared (closeList done tail) r := by
  intro r' h
  exact absurd (error_of_closeList h).1 (by simp)

/-- A reader with a level for every mark ahead, if there are fewer than `depth` of them. -/
structure SparedBelow (depth : Nat) (item : Reader Datum) : Prop where
  forward : Forward item
  spared : ∀ r : Reading, openings r.cursor.ahead < depth → Spared item r

section

variable {depth : Nat} {item : Reader Datum} (hitem : SparedBelow depth item)
include hitem

/-- The tail of a list has no more marks ahead of it than the dot has. -/
theorem spared_dottedTail (done : List Datum) (h : openings r.cursor.ahead < depth) :
    Spared (dottedTail item done) r := by
  unfold dottedTail
  split
  · exact spared_throw (by simp)
  · apply spared_bind (spared_scan fun _ _ h => by simp [Scan.advance_run] at h)
    intro _ r₁ h₁
    apply spared_bind (spared_scan fun _ _ h => by simp [Scan.filler_run] at h)
    intro _ r₂ h₂
    apply spared_bind (spared_scan fun _ _ h => by simp [Scan.peek_run] at h)
    intro found r₃ h₃
    split
    · exact spared_throw (by simp)
    · have hpass₁ := ((forward_scan (Scan.forward_advance 1)).ok h₁).openings_le
      have hpass₂ := ((forward_scan Scan.forward_filler).ok h₂).openings_le
      have hpass₃ := ((forward_scan Scan.forward_peek).ok h₃).openings_le
      change openings r₁.cursor.ahead ≤ openings r.cursor.ahead at hpass₁
      change openings r₂.cursor.ahead ≤ openings r₁.cursor.ahead at hpass₂
      change openings r₃.cursor.ahead ≤ openings r₂.cursor.ahead at hpass₃
      apply spared_bind (hitem.spared r₃ (by omega))
      intro tail r₄ _
      apply spared_bind (spared_scan fun _ _ h => by simp [Scan.filler_run] at h)
      intro _ r₅ _
      exact spared_closeList done tail

/-- Along the characters that bound the recursion: every item has at most the marks that are still
ahead. -/
theorem spared_listRest (clock : List Char) (done : List Datum)
    (h : openings r.cursor.ahead < depth) : Spared (listRest item clock done) r := by
  induction clock generalizing done r with
  | nil => exact spared_closeList done .nil
  | cons x clock ih =>
    apply spared_of_run (listRest_turn x clock done r)
    have hpass : openings r.skipFiller.cursor.ahead ≤ openings r.cursor.ahead :=
      r.cursor.passes_skipFiller.openings_le
    cases ListStep.ofAhead r.skipFiller.cursor.ahead with
    | close => exact spared_closeList done .nil
    | dot => exact spared_dottedTail hitem done (by omega)
    | item =>
      apply spared_bind (hitem.spared _ (by omega))
      intro d r₁ hd
      have hpass₁ : openings r₁.cursor.ahead ≤ openings r.skipFiller.cursor.ahead :=
        (hitem.forward.ok hd).openings_le
      exact ih (d :: done) (by omega)

/-- Behind the parenthesis of a list there is one mark less ahead. -/
theorem spared_list (h : openings (r.advanceBy 1).cursor.ahead < depth) : Spared (list item) r :=
  spared_of_run (list_eq item r) (spared_listRest hitem _ [] h)

/-- So it is behind the mark of an abbreviation. -/
theorem spared_abbreviated (a : Abbreviation)
    (h : openings (r.advanceBy 1).cursor.ahead < depth) : Spared (abbreviated a item) r := by
  apply spared_of_run (m := abbreviated a item) (bind_of_ok (advance_run 1 r))
  apply spared_bind (hitem.spared _ h)
  intro d r₁ _
  exact spared_pure _

/-- And behind a comma, whether an at sign follows or not. -/
theorem spared_unquoted (h : openings (r.advanceBy 1).cursor.ahead < depth) :
    Spared (unquoted item) r := by
  apply spared_of_run (m := unquoted item) (bind_of_ok (advance_run 1 r))
  apply spared_bind (spared_scan fun _ _ h => by simp [Scan.accept_run] at h)
  intro splicing r₁ h₁
  have hpass : openings r₁.cursor.ahead ≤ openings (r.advanceBy 1).cursor.ahead :=
    ((forward_scan (Scan.forward_accept _)).ok h₁).openings_le
  split
  · apply spared_bind (hitem.spared _ (by omega))
    intro d r₂ _
    exact spared_pure _
  · apply spared_bind (hitem.spared _ (by omega))
    intro d r₂ _
    exact spared_pure _

end

/-- Without a reader of parts there is no level of depth left, and a mark takes one. -/
theorem spared_nested {inner : Option (Reader Datum)} {depth : Nat}
    {form : Reader Datum → Reader Datum} {x : Char} {rest : List Char}
    (hinner : ∀ item ∈ inner, SparedBelow depth item) (hnone : inner = none → depth = 0)
    (hahead : r.cursor.ahead = x :: rest) (hx : x ∈ ['(', '\x27', '\x60', ','])
    (hdepth : openings r.cursor.ahead ≤ depth)
    (hform : ∀ item, SparedBelow depth item → openings (r.advanceBy 1).cursor.ahead < depth →
      Spared (form item) r) : Spared (nested inner form) r := by
  have hmark : openings r.cursor.ahead = openings (r.advanceBy 1).cursor.ahead + 1 := by
    rw [ahead_advanceBy_one hahead, hahead, openings_cons rest hx]
  unfold nested
  split
  · have hzero := hnone rfl
    omega
  · next item => exact hform item (hinner item rfl) (by omega)

/-- Each form that takes a level begins with a mark, and so there is a level for it. -/
theorem spared_form {inner : Option (Reader Datum)} {depth : Nat} {x : Char} {rest : List Char}
    (hinner : ∀ item ∈ inner, SparedBelow depth item) (hnone : inner = none → depth = 0)
    (hahead : r.cursor.ahead = x :: rest) (hdepth : openings r.cursor.ahead ≤ depth) :
    Spared (form inner (.ofChar x)) r := by
  have hnumber : Spared (number Scan.numeral) r :=
    spared_of_failsWith failsWith_number (by decide) r
  have hsymbol : Spared (atom Scan.symbolToken) r :=
    spared_of_failsWith (p := fun _ => False) (failsWith_atom Scan.failsWith_symbolToken) id r
  have hsign : Spared (form inner .sign) r := by
    apply spared_of_run (form_sign hahead)
    split
    · exact hnumber
    · exact hsymbol
  unfold Opening.ofChar
  split
  · exact spared_of_failsWith (failsWith_atom Scan.failsWith_hashToken) (by decide) r
  · exact spared_nested hinner hnone hahead (by decide) hdepth fun _ hi h => spared_list hi h
  · exact spared_nested hinner hnone hahead (by decide) hdepth fun _ hi h =>
      spared_abbreviated hi .quote h
  · exact spared_nested hinner hnone hahead (by decide) hdepth fun _ hi h =>
      spared_abbreviated hi .quasiquote h
  · exact spared_nested hinner hnone hahead (by decide) hdepth fun _ hi h => spared_unquoted hi h
  · exact hsign
  · exact hsign
  · exact spared_of_failsWith (failsWith_atom Scan.failsWith_stringToken) (by decide) r
  · split
    · exact hnumber
    · exact hsymbol

/-- In front of a datum there may be marks in comments, which do no harm. -/
theorem spared_datumWith {inner : Option (Reader Datum)} {depth : Nat}
    (hinner : ∀ item ∈ inner, SparedBelow depth item) (hnone : inner = none → depth = 0)
    (hdepth : openings r.cursor.ahead ≤ depth) : Spared (datumWith inner) r := by
  have hpass : openings r.skipFiller.cursor.ahead ≤ openings r.cursor.ahead :=
    r.cursor.passes_skipFiller.openings_le
  cases hahead : r.skipFiller.cursor.ahead with
  | nil => exact fun r' h => absurd ((datumWith_nil hahead).symm.trans h) (by simp)
  | cons x rest =>
    apply spared_of_run (datumWith_cons hahead)
    exact spared_form (r := r.skipFiller.noted x) hinner hnone hahead (Nat.le_trans hpass hdepth)

/-- With a level of depth for every mark ahead there is enough of it. -/
theorem spared_datum (depth : Nat) (r : Reading) (h : openings r.cursor.ahead ≤ depth) :
    Spared (datum depth) r := by
  induction depth generalizing r with
  | zero => exact spared_datumWith (fun _ hi => absurd hi (by simp)) (fun _ => rfl) h
  | succ depth ih =>
    refine spared_datumWith (fun item hi => ?_) (fun hnone => absurd hnone (by simp)) h
    rw [← Option.some.inj hi]
    exact ⟨forward_datum depth, fun r hr => ih r (Nat.lt_succ_iff.mp hr)⟩

/-- With a level for every mark of the text, reading it never stops for want of depth. -/
theorem spared_onlyDatum {depth : Nat} (h : openings r.cursor.ahead ≤ depth) :
    Spared (onlyDatum depth) r := by
  unfold onlyDatum
  apply spared_bind (spared_datum depth r h)
  intro d r₁ _
  apply spared_bind (spared_scan fun _ _ h => by simp [Scan.filler_run] at h)
  intro _ r₂ _
  apply spared_bind (spared_scan fun _ _ h => by simp [Scan.peek_run] at h)
  intro found r₃ _
  split
  · exact spared_pure _
  · exact spared_throw (by simp)

/-! ## How deep the result is nested -/

/-- Items chained onto a tail are nested as deep as the deepest of them. -/
theorem itemsNest_foldl {depth : Nat} {done : List Datum} {tail : Datum}
    (hdone : ∀ d ∈ done, d.nest ≤ depth) (htail : tail.itemsNest ≤ depth) :
    (done.foldl (fun rest first => .pair first rest) tail).itemsNest ≤ depth := by
  induction done generalizing tail with
  | nil => exact htail
  | cons d done ih =>
    apply ih fun d' hd' => hdone d' (List.mem_cons_of_mem _ hd')
    exact Nat.max_le.mpr ⟨hdone d List.mem_cons_self, htail⟩

section

variable {depth : Nat} {item : Reader Datum} (hitem : ∀ r, Yields (·.nest ≤ depth) item r)
include hitem

omit hitem in
/-- A closed list is nested one level deeper than its items and its tail. -/
theorem nest_closeList {done : List Datum} {tail : Datum} (hdone : ∀ d ∈ done, d.nest ≤ depth)
    (htail : tail.itemsNest ≤ depth) : Yields (·.nest ≤ depth + 1) (closeList done tail) r := by
  intro w r' hw
  rw [yields_closeList done tail w r' hw]
  have hle := itemsNest_foldl hdone htail
  exact Nat.le_trans (Datum.nest_le_succ _) (Nat.succ_le_succ hle)

/-- The tail behind a dot is chained onto the items, so it may be as deep as they are. -/
theorem nest_dottedTail {done : List Datum} (hdone : ∀ d ∈ done, d.nest ≤ depth) :
    Yields (·.nest ≤ depth + 1) (dottedTail item done) r := by
  unfold dottedTail
  split
  · exact yields_throw
  · refine yields_bind (yields_any _) fun _ r₁ _ => ?_
    refine yields_bind (yields_any _) fun _ r₂ _ => ?_
    refine yields_bind (yields_any _) fun found r₃ _ => ?_
    split
    · exact yields_throw
    · refine yields_bind (hitem r₃) fun tail r₄ htail => ?_
      refine yields_bind (yields_any _) fun _ r₅ _ => ?_
      exact nest_closeList hdone (Nat.le_trans tail.itemsNest_le_nest htail)

/-- Along the characters that bound the recursion: no item is nested deeper than the depth below. -/
theorem nest_listRest (clock : List Char) {done : List Datum}
    (hdone : ∀ d ∈ done, d.nest ≤ depth) :
    Yields (·.nest ≤ depth + 1) (listRest item clock done) r := by
  induction clock generalizing done r with
  | nil => exact nest_closeList hdone (Nat.zero_le _)
  | cons x clock ih =>
    refine yields_of_run (listRest_turn x clock done r) ?_
    cases ListStep.ofAhead r.skipFiller.cursor.ahead with
    | close => exact nest_closeList hdone (Nat.zero_le _)
    | dot => exact nest_dottedTail hitem hdone
    | item =>
      refine yields_bind (hitem _) fun d r₁ hd => ih fun d' hd' => ?_
      rcases List.mem_cons.mp hd' with rfl | hd'
      · exact hd
      · exact hdone d' hd'

/-- A mark stands for a list around the datum behind it, which is one level more. -/
theorem nest_expanded (a : Abbreviation) :
    Yields (·.nest ≤ depth + 1) (do return a.expand (← item) : Reader Datum) r := by
  refine yields_bind (hitem r) fun d r₁ hd => yields_pure ?_
  show 1 + max 0 (max d.nest 0) ≤ depth + 1
  omega

theorem nest_abbreviated (a : Abbreviation) :
    Yields (·.nest ≤ depth + 1) (abbreviated a item) r := by
  unfold abbreviated
  exact yields_bind (yields_any _) fun _ r₁ _ => nest_expanded hitem a

theorem nest_unquoted : Yields (·.nest ≤ depth + 1) (unquoted item) r := by
  unfold unquoted
  refine yields_bind (yields_any _) fun _ r₁ _ => ?_
  refine yields_bind (yields_any _) fun splicing r₂ _ => ?_
  split
  · exact nest_expanded hitem _
  · exact nest_expanded hitem _

end

/-- A form with parts is nested one level deeper than they are, and takes a level for that. -/
theorem nest_nested {inner : Option (Reader Datum)} {depth : Nat}
    {form : Reader Datum → Reader Datum}
    (hinner : ∀ item ∈ inner, ∃ below, depth = below + 1 ∧ ∀ r, Yields (·.nest ≤ below) item r)
    (hform : ∀ item below, (∀ r, Yields (·.nest ≤ below) item r) →
      Yields (·.nest ≤ below + 1) (form item) r) :
    Yields (·.nest ≤ depth) (nested inner form) r := by
  unfold nested
  split
  · exact yields_throw
  · next item =>
    obtain ⟨below, rfl, hitem⟩ := hinner item rfl
    exact hform item below hitem

/-- Whatever form a datum has, it is nested no deeper than the depth allows. -/
theorem nest_form {inner : Option (Reader Datum)} {depth : Nat}
    (hinner : ∀ item ∈ inner, ∃ below, depth = below + 1 ∧ ∀ r, Yields (·.nest ≤ below) item r)
    (o : Opening) : Yields (·.nest ≤ depth) (form inner o) r := by
  have hatom : ∀ token : Scan Atom, Yields (·.nest ≤ depth) (atom token) r :=
    fun token => yields_atom (yields_any token) fun _ _ => Nat.zero_le _
  have hnumber : Yields (·.nest ≤ depth) (number Scan.numeral) r := by
    unfold number
    exact yields_bind (yields_any _) fun n r₁ _ => yields_pure (Nat.zero_le _)
  cases o with
  | hash => exact hatom _
  | list =>
    refine nest_nested hinner fun item below hitem => ?_
    exact yields_of_run (list_eq item r) (nest_listRest hitem _ fun d hd => absurd hd (by simp))
  | quote => exact nest_nested hinner fun _ _ hitem => nest_abbreviated hitem .quote
  | quasiquote => exact nest_nested hinner fun _ _ hitem => nest_abbreviated hitem .quasiquote
  | unquote => exact nest_nested hinner fun _ _ hitem => nest_unquoted hitem
  | sign =>
    refine yields_bind (yields_any _) fun found r₁ _ => ?_
    split
    · unfold number
      exact yields_bind (yields_any _) fun n r₂ _ => yields_pure (Nat.zero_le _)
    · exact yields_atom (yields_any _) fun _ _ => Nat.zero_le _
  | string => exact hatom _
  | digit => exact hnumber
  | other => exact hatom _

/-- Filler adds nothing to how deep a datum is nested. -/
theorem nest_datumWith {inner : Option (Reader Datum)} {depth : Nat}
    (hinner : ∀ item ∈ inner, ∃ below, depth = below + 1 ∧ ∀ r, Yields (·.nest ≤ below) item r) :
    Yields (·.nest ≤ depth) (datumWith inner) r := by
  unfold datumWith
  refine yields_bind (yields_any _) fun _ r₁ _ => ?_
  refine yields_bind (yields_any _) fun found r₂ _ => ?_
  split
  · exact yields_throw
  · exact yields_bind (yields_any _) fun _ r₃ _ => nest_form hinner _

/-- What a reader gives is nested no deeper than the reader may go. -/
theorem nest_datum (depth : Nat) (r : Reading) : Yields (·.nest ≤ depth) (datum depth) r := by
  induction depth generalizing r with
  | zero => exact nest_datumWith fun item hi => absurd hi (by simp)
  | succ depth ih =>
    refine nest_datumWith fun item hi => ⟨depth, rfl, ?_⟩
    rw [← Option.some.inj hi]
    exact ih

end Reader

/-! ## The depth of a text -/

namespace Datum

variable {name text : String}

/-- What was read is nested no deeper than the reader was allowed to go. -/
theorem nest_le_of_read {depth : Nat} {v : Datum} (h : read ⟨name, depth⟩ text = .ok v) :
    v.nest ≤ depth := by
  obtain ⟨r, hr⟩ := read_eq_ok_iff.mp h
  obtain ⟨r₁, hd, _⟩ := Reader.datum_of_onlyDatum hr
  exact Reader.nest_datum depth _ v r₁ hd

/-- With enough depth for every mark of the text none is missing. -/
theorem read_ne_too_deep {depth : Nat} (h : openings text.toList ≤ depth) (line : UInt32) :
    read ⟨name, depth⟩ text ≠ .error ⟨.nestingTooDeep, name, line⟩ := by
  intro herror
  obtain ⟨r, hr, _⟩ := read_eq_error_iff.mp herror
  exact Reader.spared_onlyDatum (r := start text) h r hr

/-- More depth changes nothing unless there was too little. -/
theorem read_of_le (name text : String) {depth depth' : Nat} (hle : depth ≤ depth') :
    read ⟨name, depth'⟩ text = read ⟨name, depth⟩ text ∨
      ∃ line, read ⟨name, depth⟩ text = .error ⟨.nestingTooDeep, name, line⟩ := by
  have htracks : Tracks 0 (· = .nestingTooDeep) (Reader.onlyDatum depth)
      (Reader.onlyDatum depth') := Reader.tracks_onlyDatum (Or.inr ⟨hle, rfl⟩)
  have hagree := htracks (start text) (start text) (Cursor.alike_refl _)
  rcases read_of_agree ⟨name, depth⟩ ⟨name, depth'⟩ rfl hagree with h | ⟨cause, line, rfl, h⟩
  · exact Or.inl h
  · exact Or.inr ⟨line, h⟩

/-- Every text has a depth, no more than its marks ask for. With less, reading stops for want of
it; from there on the result is the same, and a datum is nested no deeper than that. -/
theorem read_has_depth (name text : String) :
    ∃ (depth : Nat) (result : Except ReadError Datum),
      depth ≤ openings text.toList ∧
      (∀ e, result = .error e → e.cause ≠ .nestingTooDeep) ∧
      (∀ fuel < depth, ∃ line,
        read ⟨name, fuel⟩ text = .error ⟨.nestingTooDeep, name, line⟩) ∧
      (∀ fuel ≥ depth, read ⟨name, fuel⟩ text = result) ∧
      (∀ v, result = .ok v → v.nest ≤ depth) ∧
      ∀ fuel v, read ⟨name, fuel⟩ text = .ok v → v.nest ≤ fuel := by
  classical
  -- the depth is the least one that is not too little
  have hexists : ∃ depth, ∀ line,
      read ⟨name, depth⟩ text ≠ .error ⟨.nestingTooDeep, name, line⟩ :=
    ⟨openings text.toList, read_ne_too_deep (Nat.le_refl _)⟩
  have henough := Nat.find_spec hexists
  refine ⟨Nat.find hexists, read ⟨name, Nat.find hexists⟩ text,
    Nat.find_min' hexists (read_ne_too_deep (Nat.le_refl _)), ?_, ?_, ?_, ?_, ?_⟩
  · rintro ⟨cause, label, line⟩ herror rfl
    obtain ⟨r, _, hname, _⟩ := read_eq_error_iff.mp herror
    obtain rfl : label = name := hname
    exact henough line herror
  · intro fuel hlt
    have hless := Nat.find_min hexists hlt
    rw [not_forall] at hless
    obtain ⟨line, h⟩ := hless
    exact ⟨line, not_not.mp h⟩
  · intro fuel hle
    rcases read_of_le name text hle with h | ⟨line, h⟩
    · exact h
    · exact absurd h (henough line)
  · exact fun v h => nest_le_of_read h
  · exact fun fuel v h => nest_le_of_read h

end Datum

end Sexpr
