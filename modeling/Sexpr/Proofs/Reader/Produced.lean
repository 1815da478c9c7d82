import Sexpr.Proofs.Datum.Readable

/-!
# What the reader makes

Not every datum can come out of the reader. Its symbols have names that it takes for symbols,
a complex number that it makes has an imaginary part, and no list is nested deeper than it was
allowed to go. An item of a list may be a symbol that begins like the end of a list, but only
behind a mark of quotation, and so it is the last one.

> `Yields`: what is true of every result of a step.
> `yields_numeral`, `yields_restOf`, `yields_datum`: numbers, lists and data.
> `made_of_read`: the datum of a text.
-/

namespace Sexpr

/-- Whatever the step gives from here on has the property. -/
def Yields {σ ε α : Type} (p : α → Prop) (m : EStateM ε σ α) (r : σ) : Prop :=
  ∀ a r', m r = .ok a r' → p a

section

variable {σ ε α β : Type} {p : α → Prop} {r : σ}

/-- A result that is given has the property if it has it. -/
theorem yields_pure {a : α} (h : p a) : Yields p (pure a : EStateM ε σ α) r := by
  intro b r' hb
  rw [← (ok_of_pure hb).1]
  exact h

/-- A step that fails gives nothing. -/
theorem yields_throw {e : ε} : Yields p (throw e : EStateM ε σ α) r :=
  fun _ _ h => (ok_of_throw h).elim

theorem yields_any (m : EStateM ε σ α) : Yields (fun _ => True) m r :=
  fun _ _ _ => trivial

/-- Steps in sequence: what the first one yields may be used about the second. -/
theorem yields_bind {q : β → Prop} {x : EStateM ε σ β} {f : β → EStateM ε σ α}
    (hx : Yields q x r) (hf : ∀ b r₁, q b → Yields p (f b) r₁) : Yields p (x >>= f) r := by
  intro a r' h
  obtain ⟨b, r₁, hb, ha⟩ := ok_of_bind h
  exact hf b r₁ (hx b r₁ hb) a r' ha

/-- A run yields what another step yields that comes to the same. -/
theorem yields_of_run {m m' : EStateM ε σ α} {r₁ : σ} (hrun : m r = m' r₁) (h : Yields p m' r₁) :
    Yields p m r := by
  intro a r' ha
  exact h a r' (hrun.symm.trans ha)

end

/-- In a reading a scanner yields what it yields on the cursor. -/
theorem Reader.yields_scan {α : Type} {p : α → Prop} {step : Scan α} {r : Reading}
    (h : Yields p step r.cursor) : Yields p (Reader.scan step) r :=
  fun a r' ha => h a r'.cursor (Reader.ok_of_scan ha).1

/-! ## Numbers -/

namespace Number

/-- The number is not complex. -/
def IsPlain : Number → Prop
  | complex _ _ => False
  | _ => True

/-- A complex number has an imaginary part. -/
def IsProper : Number → Prop
  | complex _ im => (im == 0.0) = false
  | _ => True

/-- Without a second part nothing is asked of it. -/
theorem IsPlain.isProper {n : Number} (h : n.IsPlain) : n.IsProper := by
  cases n with
  | integer n => trivial
  | real x => trivial
  | complex re im => exact h.elim

/-- Negation leaves an imaginary part that is not zero. -/
theorem isProper_neg {n : Number} (h : n.IsProper) : (-n).IsProper := by
  cases n with
  | integer n => trivial
  | real x => trivial
  | complex re im => exact (beq_zero_neg im).trans h

/-- A plain number other than zero does not become a zero as a double, however small it is. -/
theorem toFloat_ne_zero {n : Number} (hplain : n.IsPlain) (h : n.isZero = false) :
    (n.toFloat == 0.0) = false := by
  cases n with
  | integer n =>
    refine beq_zero_floatOfInt ?_
    simpa [isZero] using h
  | real x => exact h
  | complex re im => exact hplain.elim

/-- An imaginary part of zero is left out, so the number stays plain. -/
theorem isProper_withImaginary {base magnitude : Number} (negative : Bool) (hbase : base.IsPlain)
    (hmagnitude : magnitude.IsPlain) : (base.withImaginary negative magnitude).IsProper := by
  unfold withImaginary
  split
  · exact hbase.isProper
  · next hzero =>
    have hne := toFloat_ne_zero hmagnitude (Bool.eq_false_iff.mpr hzero)
    show ((if negative then -magnitude.toFloat else magnitude.toFloat) == 0.0) = false
    cases negative with
    | true => exact (beq_zero_neg _).trans hne
    | false => exact hne

end Number

namespace Scan

open Number

variable {c : Cursor}

/-- An unsigned number is an integer or a fraction, and so plain. -/
theorem yields_unsigned : Yields (fun found => ∀ n ∈ found, IsPlain n) unsigned c := by
  unfold unsigned
  refine yields_bind (yields_any _) fun whole c₁ _ => ?_
  refine yields_bind (yields_any _) fun point c₂ _ => ?_
  split
  · refine yields_bind (yields_any _) fun fraction c₃ _ => ?_
    split
    · exact yields_throw
    · exact yields_pure fun n hn => by rw [← Option.some.inj hn]; trivial
  · split
    · exact yields_pure fun n hn => absurd hn (by simp)
    · exact yields_pure fun n hn => by rw [← Option.some.inj hn]; trivial

/-- A quotient is the double of the two numbers, and so plain. -/
theorem yields_quotient {base : Number} (hbase : base.IsPlain) :
    Yields IsPlain (quotient base) c := by
  unfold quotient
  refine yields_bind (yields_any _) fun slash c₁ _ => ?_
  split
  · refine yields_bind (yields_any _) fun divisor c₂ _ => ?_
    split
    · exact yields_throw
    · split
      · exact yields_throw
      · exact yields_pure trivial
  · exact yields_pure hbase

/-- With or without its imaginary part the number is proper. -/
theorem yields_imaginary {base : Number} (hbase : base.IsPlain) :
    Yields IsProper (imaginary base) c := by
  unfold imaginary
  refine yields_bind (yields_any _) fun negative c₁ _ => ?_
  refine yields_bind yields_unsigned fun magnitude c₂ hmagnitude => ?_
  refine yields_bind (yields_any _) fun unit c₃ _ => ?_
  split
  · refine yields_pure (isProper_withImaginary negative hbase ?_)
    cases magnitude with
    | none => trivial
    | some n => exact hmagnitude n rfl
  · exact yields_bind (yields_any _) fun found c₄ _ => yields_throw

theorem yields_imaginaryIfSigned {base : Number} (hbase : base.IsPlain) :
    Yields IsProper (imaginaryIfSigned base) c := by
  unfold imaginaryIfSigned
  refine yields_bind (yields_any _) fun found c₁ _ => ?_
  split
  · exact yields_imaginary hbase
  · exact yields_imaginary hbase
  · exact yields_pure hbase.isProper

/-- Every number that is scanned is proper, and the sign in front of it does not change that. -/
theorem yields_numeral : Yields IsProper numeral c := by
  unfold numeral
  refine yields_bind (yields_any _) fun negative c₁ _ => ?_
  refine yields_bind yields_unsigned fun base c₂ hbase => ?_
  split
  · exact yields_throw
  · next base =>
    refine yields_bind (yields_quotient (hbase base rfl)) fun value c₃ hvalue => ?_
    refine yields_bind (yields_imaginaryIfSigned hvalue) fun n c₄ hn => yields_pure ?_
    split
    · exact isProper_neg hn
    · exact hn

/-- Behind a number sign there is a truth value or nothing. -/
theorem yields_hashToken : Yields (fun a => ∃ b, a = .bool b) hashToken c := by
  unfold hashToken
  refine yields_bind (yields_any _) fun found c₁ _ => ?_
  split
  · exact yields_bind (yields_any _) fun _ c₂ _ => yields_pure ⟨true, rfl⟩
  · exact yields_bind (yields_any _) fun _ c₂ _ => yields_pure ⟨false, rfl⟩
  · exact yields_throw
  · exact yields_throw

/-- Between double quotes there is a string or nothing. -/
theorem yields_stringToken : Yields (fun a => ∃ text, a = .string text) stringToken c := by
  unfold stringToken
  refine yields_bind (yields_any _) fun _ c₁ _ => ?_
  refine yields_bind (yields_any _) fun text c₂ _ => ?_
  refine yields_bind (yields_any _) fun b c₃ _ => ?_
  split
  · exact yields_pure ⟨text, rfl⟩
  · exact yields_throw

end Scan

/-! ## Data -/

/-- The parts of a number are finite. -/
def Atom.IsFinite : Atom → Prop
  | number (.real x) => x.isFinite = true
  | number (.complex re im) => re.isFinite = true ∧ im.isFinite = true
  | _ => True

/-- Nothing follows an item that is not taken for one. -/
def Datum.StraysLast : Datum → Prop
  | nil => True
  | atom _ => True
  | pair first rest => (first.IsItem ∨ rest = .nil) ∧ first.StraysLast ∧ rest.StraysLast

/-- What is true of a datum with finite numbers that was made with this depth. -/
structure Datum.Made (depth : Nat) (d : Datum) : Prop where
  readable : d.Readable
  straysLast : d.StraysLast
  nest_le : d.nest ≤ depth

/-- A datum made from this text is an item, and no end of a list, where the text is. -/
structure Datum.Follows (ahead : List Char) (d : Datum) : Prop where
  isItem : Reader.ListStep.ofAhead ahead = .item → d.IsItem
  notClose : ahead.head? ≠ some ')' → d.written.head? ≠ some ')'

/-- What the reader gives for a text that begins like this. -/
def Datum.MadeFrom (depth : Nat) (ahead : List Char) (d : Datum) : Prop :=
  d.Every Atom.IsFinite → d.Made depth ∧ d.Follows ahead

/-- What it gives for the rest of a list. -/
structure Datum.Continues (depth : Nat) (d : Datum) : Prop where
  readable : d.Readable
  straysLast : d.StraysLast
  itemsNest_le : d.itemsNest ≤ depth
  notClose : d.written.head? ≠ some ')'

namespace Datum

/-- What begins neither like the end of a list nor like its tail is an item everywhere. -/
theorem follows_of_start {d : Datum} {x : Char} {run : List Char} (h : d.written = x :: run)
    (hclose : x ≠ ')') (hdot : x ≠ '.') (ahead : List Char) : d.Follows ahead where
  isItem _ := by rw [IsItem, h]; exact ofAhead_of_ne hclose hdot
  notClose _ := by rw [h]; exact fun hhead => hclose (Option.some.inj hhead)

theorem follows_pair (first rest : Datum) (ahead : List Char) : (pair first rest).Follows ahead :=
  follows_of_start rfl (by decide) (by decide) ahead

/-- As a list of its own a chain is nested at most one level deeper than its items are. -/
theorem nest_le_succ (d : Datum) : d.nest ≤ d.itemsNest + 1 := by
  cases d with
  | nil => exact Nat.le_refl 1
  | atom a => exact Nat.zero_le _
  | pair first rest => rw [nest, itemsNest, Nat.add_comm]

/-- As the rest of a list a datum is nested no deeper than it is on its own. -/
theorem itemsNest_le_nest (d : Datum) : d.itemsNest ≤ d.nest := by
  cases d with
  | nil => exact Nat.zero_le _
  | atom a => exact Nat.zero_le _
  | pair first rest => exact Nat.le_add_left _ 1

/-- Atoms need no depth and have no items. -/
theorem made_atom {depth : Nat} {a : Atom} (ha : a.Readable) : (atom a).Made depth where
  readable := ha
  straysLast := trivial
  nest_le := Nat.zero_le depth

/-- An abbreviation is a list of a name that reads back and the datum behind the mark. -/
theorem made_expand {depth : Nat} {d : Datum} (a : Abbreviation) (hd : d.Made depth) :
    (a.expand d).Made (depth + 1) := by
  have hname : Lexeme a.name.toList := by
    cases a <;> exact ⟨by decide, by decide, List.all_eq_true.mp (by decide), Or.inl (by decide)⟩
  have hitem : (symbol a.name).IsItem := by cases a <;> rfl
  have hclose : (pair d nil).written.head? ≠ some ')' := by
    rw [written, List.head?_cons]
    decide
  refine ⟨⟨hname, ⟨hd.readable, trivial, by decide⟩, hclose⟩,
    ⟨Or.inl hitem, trivial, Or.inr rfl, hd.straysLast, trivial⟩, ?_⟩
  show 1 + max 0 (max d.nest 0) ≤ depth + 1
  have hle := hd.nest_le
  omega

end Datum

namespace Reader

open Datum

variable {r : Reading} {depth : Nat} {x : Char} {run : List Char}

theorem yields_atom {token : Scan Atom} {p : Atom → Prop} {q : Datum → Prop}
    (h : Yields p token r.cursor) (hp : ∀ a, p a → q (.atom a)) : Yields q (atom token) r := by
  unfold atom
  exact yields_bind (yields_scan h) fun a r₁ ha => yields_pure (hp a ha)

/-- A number with finite parts reads back and begins like no end of a list. -/
theorem yields_number (ahead : List Char) :
    Yields (MadeFrom depth ahead) (number Scan.numeral) r := by
  unfold number
  refine yields_bind (yields_scan Scan.yields_numeral) fun n r₁ hn => yields_pure fun hfin => ?_
  have hread : (Atom.number n).Readable := by
    cases n with
    | integer n => trivial
    | real x => exact hfin
    | complex re im => exact ⟨hfin.1, hfin.2, hn⟩
  refine ⟨made_atom hread, ?_⟩
  obtain ⟨name, hname⟩ | ⟨y, run, hrun, hclose, hdot⟩ := Atom.symbol_or_start hread
  · exact absurd hname (by simp)
  · exact follows_of_start (d := .number n) hrun hclose hdot ahead

/-- A symbol is as long as the text goes on with it. -/
theorem lexeme_of_ahead (hblank : isBlank x = false) (hsemi : x ≠ ';')
    (hclass : Opening.ofChar x = .other ∨
      Opening.ofChar x = .sign ∧ ∀ y ∈ run.head?, y.isDigit = false) :
    Lexeme (x :: run.takeWhile continuesSymbol) := by
  refine ⟨hblank, hsemi, fun y hy => List.mem_takeWhile_imp hy, ?_⟩
  rcases hclass with hother | ⟨hsign, hdigit⟩
  · exact Or.inl hother
  · -- a sign stands before no digit in the text, and so in the name
    refine Or.inr ⟨hsign, fun y hy => hdigit y ?_⟩
    cases run with
    | nil => exact absurd hy (by simp)
    | cons z run =>
      rw [List.takeWhile_cons] at hy
      split at hy
      · exact hy
      · exact absurd hy (by simp)

/-- A sign that begins no number begins a symbol. -/
theorem lexeme_of_sign (hblank : isBlank x = false) (hsemi : x ≠ ';')
    (hclass : Opening.ofChar x = .sign) (hdigit : ¬ run.head?.any Char.isDigit = true) :
    Lexeme (x :: run.takeWhile continuesSymbol) := by
  refine lexeme_of_ahead hblank hsemi (Or.inr ⟨hclass, fun y hy => ?_⟩)
  rw [Option.mem_def.mp hy] at hdigit
  exact Bool.eq_false_iff.mpr hdigit

/-- Two dots in the text are two dots in the name, since a dot goes on with a symbol. -/
theorem ofAhead_takeWhile (h : ListStep.ofAhead (x :: run) = .item) :
    ListStep.ofAhead (x :: run.takeWhile continuesSymbol) = .item := by
  by_cases hclose : x = ')'
  · rw [hclose] at h
    exact absurd h (by simp [ListStep.ofAhead])
  · by_cases hdot : x = '.'
    · rw [hdot] at h ⊢
      cases run with
      | nil => exact absurd h (by decide)
      | cons y run =>
        by_cases hy : y = '.'
        · rw [hy, List.takeWhile_cons, if_pos (by decide)]
          rfl
        · exact absurd h (by simp [ListStep.ofAhead, hy])
    · exact ofAhead_of_ne hclose hdot

/-- Only a dot or a closing parenthesis as the first character makes a symbol a stray. -/
theorem madeFrom_symbol {name : String} (hname : name.toList = x :: run.takeWhile continuesSymbol)
    (hlexeme : Lexeme name.toList) : MadeFrom depth (x :: run) (.symbol name) := by
  intro _
  refine ⟨made_atom hlexeme, fun hitem => ?_, fun hne => ?_⟩
  · show ListStep.ofAhead name.toList = .item
    rw [hname]
    exact ofAhead_takeWhile hitem
  · show name.toList.head? ≠ some ')'
    rw [hname]
    exact hne

/-- The name is the first character and all that go on with the symbol. -/
theorem yields_symbolToken (h : r.cursor.ahead = x :: run) :
    Yields (fun a => a = .symbol (String.ofList (x :: run.takeWhile continuesSymbol)))
      Scan.symbolToken r.cursor := by
  intro a c' ha
  rw [Scan.symbolToken_ok, h] at ha
  injection ha with ha _
  exact ha.symm

/-- A symbol that begins with no mark of its own reads back. -/
theorem yields_symbol (h : r.cursor.ahead = x :: run)
    (hlexeme : Lexeme (x :: run.takeWhile continuesSymbol)) :
    Yields (MadeFrom depth (x :: run)) (atom Scan.symbolToken) r := by
  refine yields_atom (yields_symbolToken h) ?_
  rintro a rfl
  have hname : (String.ofList (x :: run.takeWhile continuesSymbol)).toList
      = x :: run.takeWhile continuesSymbol := String.toList_ofList
  exact madeFrom_symbol hname (by rw [hname]; exact hlexeme)

/-! ## Lists -/

/-- A list that is closed has the items that were read in front of its tail. -/
theorem yields_closeList (done : List Datum) (tail : Datum) :
    Yields (fun w => w = done.foldl (fun rest first => .pair first rest) tail)
      (closeList done tail) r := by
  unfold closeList
  refine yields_bind (yields_any _) fun closed r₁ _ => ?_
  split
  · exact yields_pure rfl
  · exact yields_bind (yields_any _) fun found r₂ _ => yields_throw

/-- The rest of a list that was read with these items before it: the items, chained onto
what came behind them. -/
def ContinuesFrom (depth : Nat) (done : List Datum) (w : Datum) : Prop :=
  ∃ t : Datum, w = done.foldl (fun rest first => .pair first rest) t ∧
    (done = [] → t.IsItem) ∧ (t.Every Atom.IsFinite → t.Continues depth)

/-- Along the items of a list: each is made with the depth below, and a stray is the last of
them. -/
theorem yields_restOf
    (hitem : ∀ r, Yields (MadeFrom depth r.skipFiller.cursor.ahead) (datum depth) r)
    (done : List Datum) (r : Reading) :
    Yields (ContinuesFrom depth done) (restOf (datum depth) done) r := by
  -- along the items of the list, and each of them was made from what was an item
  refine restOf_induct
    (motive := fun done r => Yields (ContinuesFrom depth done) (restOf (datum depth) done) r)
    (shortens_datum depth) ?close ?dot ?next done r
  case close =>
    intro done r hstep w r' hw
    rw [restOf_close hstep] at hw
    exact ⟨.nil, yields_closeList done .nil w r' hw, fun _ => rfl,
      fun _ => ⟨trivial, trivial, Nat.zero_le depth, by decide⟩⟩
  case dot =>
    intro done r hstep
    refine yields_of_run (restOf_dot hstep) ?_
    cases hdone : done.isEmpty with
    | true =>
      unfold dottedTail
      rw [hdone, if_pos rfl]
      exact yields_throw
    | false =>
      refine yields_of_run (dottedTail_run _ hdone _) ?_
      split
      · exact yields_throw
      · next hnext =>
        refine yields_bind (hitem _) fun tail r₂ htail => ?_
        refine yields_bind (yields_any _) fun _ r₃ _ => ?_
        intro w r' hw
        refine ⟨tail, yields_closeList done tail w r' hw, ?_, fun hfin => ?_⟩
        · rintro rfl
          exact absurd hdone (by decide)
        · obtain ⟨hmade, hfollows⟩ := htail hfin
          rw [skipFiller_skipFiller] at hfollows
          exact ⟨hmade.readable, hmade.straysLast,
            Nat.le_trans tail.itemsNest_le_nest hmade.nest_le, hfollows.notClose hnext⟩
  case next =>
    intro done r hstep ih w r' hw
    rw [restOf_item (shortens_datum depth) hstep] at hw
    obtain ⟨first, r₁, hfirst, hw⟩ := ok_of_bind hw
    obtain ⟨t, hwt, _, hrest⟩ := ih first r₁ hfirst w r' hw
    refine ⟨.pair first t, hwt, fun _ => ofAhead_of_ne (by decide) (by decide), fun hfin => ?_⟩
    obtain ⟨hmade, hfollows⟩ := hitem _ first r₁ hfirst hfin.1
    rw [skipFiller_skipFiller] at hfollows
    have ht := hrest hfin.2
    refine ⟨⟨hmade.readable, ht.readable, ht.notClose⟩,
      ⟨Or.inl (hfollows.isItem hstep), hmade.straysLast, ht.straysLast⟩,
      Nat.max_le.mpr ⟨hmade.nest_le, ht.itemsNest_le⟩, ?_⟩
    rw [Datum.written, List.head?_cons]
    decide

/-! ## Data of every form -/

section

variable (hitem : ∀ r, Yields (MadeFrom depth r.skipFiller.cursor.ahead) (datum depth) r)
include hitem

/-- A list takes one level for its items. -/
theorem yields_list (ahead : List Char) :
    Yields (MadeFrom (depth + 1) ahead) (list (datum depth)) r := by
  intro w r' hw
  rw [list_eq] at hw
  obtain ⟨t, hwt, ht, hcont⟩ := yields_restOf hitem [] _ w r' hw
  obtain rfl : w = t := hwt
  intro hfin
  obtain ⟨hread, hstrays, hnest, hclose⟩ := hcont hfin
  have hmade : w.Made (depth + 1) :=
    ⟨hread, hstrays, Nat.le_trans w.nest_le_succ (Nat.succ_le_succ hnest)⟩
  exact ⟨hmade, fun _ => ht rfl, fun _ => hclose⟩

/-- A mark takes one level for what it abbreviates. -/
theorem yields_expanded (a : Abbreviation) (ahead : List Char) :
    Yields (MadeFrom (depth + 1) ahead) (do return a.expand (← datum depth) : Reader Datum) r := by
  refine yields_bind (hitem r) fun d r₁ hd => yields_pure fun hfin => ?_
  obtain ⟨hmade, _⟩ := hd hfin.2.1
  exact ⟨made_expand a hmade, follows_pair _ _ ahead⟩

theorem yields_unquoted (ahead : List Char) :
    Yields (MadeFrom (depth + 1) ahead) (unquoted (datum depth)) r := by
  unfold unquoted
  refine yields_bind (yields_any _) fun _ r₁ _ => ?_
  refine yields_bind (yields_any _) fun splicing r₂ _ => ?_
  split
  · exact yields_expanded hitem .unquoteSplicing ahead
  · exact yields_expanded hitem .unquote ahead

end

/-- What every part of a datum has to be for the datum, whatever its form. -/
def InnerMade (inner : Option (Reader Datum)) (depth : Nat) : Prop :=
  ∀ item ∈ inner, ∃ below, depth = below + 1 ∧ item = datum below ∧
    ∀ r, Yields (MadeFrom below r.skipFiller.cursor.ahead) (datum below) r

/-- Forms with parts are read only if there is a level left for the parts. -/
theorem yields_nested {inner : Option (Reader Datum)} {form : Reader Datum → Reader Datum}
    {p : Datum → Prop} (hinner : InnerMade inner depth)
    (hform : ∀ below, depth = below + 1 →
      (∀ r, Yields (MadeFrom below r.skipFiller.cursor.ahead) (datum below) r) →
      Yields p (form (datum below)) r) : Yields p (nested inner form) r := by
  unfold nested
  split
  · exact yields_throw
  · next item =>
    obtain ⟨below, hdepth, rfl, hitem⟩ := hinner item rfl
    exact hform below hdepth hitem

/-- The class of the first character decides, and each form makes what it is allowed to make. -/
theorem yields_form {inner : Option (Reader Datum)} (hinner : InnerMade inner depth)
    (h : r.cursor.ahead = x :: run) (hblank : isBlank x = false) (hsemi : x ≠ ';') :
    Yields (MadeFrom depth (x :: run)) (form inner (.ofChar x)) r := by
  have habbreviated : ∀ a : Abbreviation,
      Yields (MadeFrom depth (x :: run)) (nested inner (abbreviated a)) r := by
    refine fun a => yields_nested hinner ?_
    rintro below rfl hitem
    unfold abbreviated
    exact yields_bind (yields_any _) fun _ r₁ _ => yields_expanded hitem a _
  cases hclass : Opening.ofChar x with
  | hash =>
    refine yields_atom Scan.yields_hashToken ?_
    rintro a ⟨b, rfl⟩ _
    exact ⟨made_atom trivial, by cases b <;> exact follows_of_start rfl (by decide) (by decide) _⟩
  | list =>
    refine yields_nested hinner ?_
    rintro below rfl hitem
    exact yields_list hitem _
  | quote => exact habbreviated .quote
  | quasiquote => exact habbreviated .quasiquote
  | unquote =>
    refine yields_nested hinner ?_
    rintro below rfl hitem
    exact yields_unquoted hitem _
  | sign =>
    refine yields_of_run (form_sign h) ?_
    split
    · exact yields_number _
    · next hdigit =>
      exact yields_symbol h (lexeme_of_sign hblank hsemi hclass hdigit)
  | string =>
    refine yields_atom Scan.yields_stringToken ?_
    rintro a ⟨text, rfl⟩ _
    exact ⟨made_atom trivial, follows_of_start rfl (by decide) (by decide) _⟩
  | digit => exact yields_number _
  | other => exact yields_symbol h (lexeme_of_ahead hblank hsemi (Or.inl hclass))

/-- Filler in front of a datum makes no difference to it. -/
theorem yields_datumWith {inner : Option (Reader Datum)} (hinner : InnerMade inner depth)
    (r : Reading) : Yields (MadeFrom depth r.skipFiller.cursor.ahead) (datumWith inner) r := by
  intro d r' hd
  cases hahead : r.skipFiller.cursor.ahead with
  | nil =>
    rw [datumWith_nil hahead] at hd
    exact absurd hd (by simp)
  | cons x run =>
    obtain ⟨hblank, hsemi⟩ := solid_of_ahead hahead
    rw [datumWith_cons hahead] at hd
    exact yields_form (r := r.skipFiller.noted x) hinner hahead hblank hsemi d r' hd

/-- By induction on the depth, every datum is made with the depth that was given. -/
theorem yields_datum (depth : Nat) (r : Reading) :
    Yields (MadeFrom depth r.skipFiller.cursor.ahead) (datum depth) r := by
  induction depth generalizing r with
  | zero => exact yields_datumWith (fun item hi => absurd hi (by simp)) r
  | succ depth ih =>
    refine yields_datumWith (fun item hi => ?_) r
    exact ⟨depth, rfl, (Option.some.inj hi).symm, ih⟩

end Reader

/-- What a text gives was made with the depth that the settings allow. -/
theorem Datum.made_of_read {settings : Settings} {text : String} {v : Datum}
    (h : read settings text = .ok v) (hfin : v.Every Atom.IsFinite) : v.Made settings.depth := by
  obtain ⟨r, hr⟩ := read_eq_ok_iff.mp h
  obtain ⟨r₁, hd, _⟩ := Reader.datum_of_onlyDatum hr
  exact (Reader.yields_datum _ _ v r₁ hd hfin).1

end Sexpr
