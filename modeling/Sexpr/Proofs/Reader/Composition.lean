import Sexpr.Proofs.Datum.Rendering
import Sexpr.Proofs.Reader.Parallel
import Sexpr.Proofs.Reader.Roundtrip

/-!
# Texts put together

A text that is put together from others reads as what they read as, put together. A mark in
front of a text abbreviates what comes of it, and an error behind it is the error of the text
alone. Texts that stand below each other in a list are its items, and none of them takes from
the next one or leaves anything to it: a line feed ends whatever a text may end in, even a
comment.

> `datum_mark`: what a mark adds to a datum, and the depth that it takes.
> `datum_of_read`: a text is read anywhere as it is on its own if a line feed follows.
> `restOf_lines`: a list goes on behind the texts in it.
> `read_composes`: the three ways together.
-/

namespace Sexpr

open Place

namespace Reader

/-! ## Behind a mark -/

section

variable {a : Abbreviation} {depth : Nat} {r : Reading} {run : List Char}

/-- Without depth nothing is read behind a mark. -/
theorem datum_mark_zero (h : r.skipFiller.cursor.ahead = a.mark ++ run) :
    ∃ r', datum 0 r = .error .nestingTooDeep r' := by
  cases a with
  | quote => exact ⟨_, datumWith_cons h⟩
  | quasiquote => exact ⟨_, datumWith_cons h⟩
  | unquote => exact ⟨_, datumWith_cons h⟩
  | unquoteSplicing => exact ⟨_, datumWith_cons h⟩

/-- A comma with an at sign is the longer mark. -/
theorem unquoted_of_at {item : Reader Datum} (h : r.cursor.ahead = ',' :: '@' :: run) :
    unquoted item r = (item >>= fun d => pure (Abbreviation.unquoteSplicing.expand d))
      ((r.advanceBy 1).advanceBy 1) := by
  have haccept : scan (Scan.accept '@') (r.advanceBy 1) = .ok true ((r.advanceBy 1).advanceBy 1) :=
    scan_of_ok (Scan.accept_of_head (ahead_advanceBy_one h))
  unfold unquoted
  rw [bind_of_ok (advance_run 1 r), bind_of_ok haccept, if_pos rfl]

/-- A comma without one is a mark of its own. -/
theorem unquoted_of_ne {item : Reader Datum} (h : r.cursor.ahead = ',' :: run)
    (hat : run.head? ≠ some '@') :
    unquoted item r = (item >>= fun d => pure (Abbreviation.unquote.expand d)) (r.advanceBy 1) := by
  have haccept : scan (Scan.accept '@') (r.advanceBy 1) = .ok false (r.advanceBy 1) :=
    scan_of_ok (Scan.accept_of_ne (by rw [ahead_advanceBy_one h]; exact hat))
  unfold unquoted
  rw [bind_of_ok (advance_run 1 r), bind_of_ok haccept, if_neg Bool.false_ne_true]

theorem line_advanceBy_one {x : Char} (h : r.cursor.ahead = x :: run) (hx : x ≠ '\n') :
    (r.advanceBy 1).cursor.line = r.cursor.line :=
  Cursor.line_advance_of_ne h hx

/-- A mark takes one level of depth. What is read behind it is expanded. -/
theorem datum_mark (depth : Nat) (h : r.skipFiller.cursor.ahead = a.mark ++ run)
    (hat : a = .unquote → run.head? ≠ some '@') :
    ∃ r₁ : Reading, r₁.cursor.ahead = run ∧ r₁.cursor.line = r.skipFiller.cursor.line ∧
      datum (depth + 1) r = (datum depth >>= fun d => pure (a.expand d)) r₁ := by
  cases a with
  | quote =>
    exact ⟨(r.skipFiller.noted '\x27').advanceBy 1, ahead_advanceBy_one h,
      line_advanceBy_one h (by decide), datumWith_cons h⟩
  | quasiquote =>
    exact ⟨(r.skipFiller.noted '\x60').advanceBy 1, ahead_advanceBy_one h,
      line_advanceBy_one h (by decide), datumWith_cons h⟩
  | unquote =>
    exact ⟨(r.skipFiller.noted ',').advanceBy 1, ahead_advanceBy_one h,
      line_advanceBy_one h (by decide), (datumWith_cons h).trans (unquoted_of_ne h (hat rfl))⟩
  | unquoteSplicing =>
    have hnext := ahead_advanceBy_one (r := r.skipFiller.noted ',') h
    refine ⟨((r.skipFiller.noted ',').advanceBy 1).advanceBy 1, ahead_advanceBy_one hnext, ?_,
      (datumWith_cons h).trans (unquoted_of_at h)⟩
    rw [line_advanceBy_one hnext (by decide)]
    exact line_advanceBy_one h (by decide)

end

/-! ## Below each other -/

section

variable {depth : Nat} {name : String} {t : String} {v : Datum}

/-- A text that is read is not all filler. -/
theorem dropFiller_of_read (h : Datum.read ⟨name, depth⟩ t = .ok v) :
    dropFiller false t.toList ≠ [] := by
  obtain ⟨r, hr⟩ := Datum.read_eq_ok_iff.mp h
  obtain ⟨r₁, hrun, _⟩ := datum_of_onlyDatum hr
  intro hnil
  have hahead : (Datum.start t).skipFiller.cursor.ahead = [] :=
    (Cursor.ahead_skipFiller _).trans hnil
  rw [datum_nil hahead] at hrun
  exact absurd hrun (by simp)

/-- A text that is read on its own is read in the same way wherever it stands, and up to its
end, if a line feed follows. -/
theorem datum_of_read (h : Datum.read ⟨name, depth⟩ t = .ok v) {r : Reading} {more : List Char}
    (hr : r.skipFiller.cursor.ahead = dropFiller false (t.toList ++ '\n' :: more)) :
    ∃ r', datum depth r = .ok v r' ∧ r'.skipFiller.cursor.ahead = dropFiller false more := by
  obtain ⟨_, honly⟩ := Datum.read_eq_ok_iff.mp h
  obtain ⟨r₁, hrun, hend⟩ := datum_of_onlyDatum honly
  have hlong : datum depth (extend (Datum.start t) ('\n' :: more)).skipFiller
      = .ok v (extend r₁ ('\n' :: more)) := by
    rw [datum_skipFiller]
    exact ((isLocal_datum depth).localAt _ _).ok v r₁ hrun (Or.inr (breaks_newline more))
  have hahead : r.skipFiller.cursor.ahead
      = (extend (Datum.start t) ('\n' :: more)).skipFiller.cursor.ahead :=
    hr.trans (Cursor.ahead_skipFiller ((Datum.start t).cursor.extend ('\n' :: more))).symm
  have htracks : ∀ lines, Tracks lines (fun _ => False) (datum depth) (datum depth) :=
    fun _ => tracks_datum (Or.inl rfl)
  obtain ⟨r', hr', halike⟩ := (htracks _).ok (Cursor.alike_of_ahead hahead) hlong
  rw [datum_skipFiller] at hr'
  have hsame : r'.cursor.ahead = (extend r₁ ('\n' :: more)).cursor.ahead := halike.ahead
  refine ⟨r', hr', ?_⟩
  calc r'.skipFiller.cursor.ahead
      = dropFiller false r'.cursor.ahead := Cursor.ahead_skipFiller _
    _ = dropFiller false (extend r₁ ('\n' :: more)).cursor.ahead := by rw [hsame]
    _ = (extend r₁ ('\n' :: more)).skipFiller.cursor.ahead := (Cursor.ahead_skipFiller _).symm
    _ = dropFiller false more := ahead_skipFiller_newline more hend

end

/-- Behind the filler in front there is neither the parenthesis nor the dot that would end the
items of a list. -/
def BeginsItem (t : String) : Prop :=
  (dropFiller false t.toList).head? ≠ some ')' ∧
    ∀ run, dropFiller false t.toList = '.' :: run → run.head? = some '.'

/-- On its own the text reads as this datum, and it begins like an item of a list. -/
def ReadsAsItem (settings : Settings) (t : String) (v : Datum) : Prop :=
  Datum.read settings t = .ok v ∧ BeginsItem t

/-- What stands in a list is taken for an item. -/
theorem BeginsItem.ofAhead {t : String} (h : BeginsItem t)
    (hne : dropFiller false t.toList ≠ []) (more : List Char) :
    ListStep.ofAhead (dropFiller false t.toList ++ more) = .item := by
  obtain ⟨hclose, hdot⟩ := h
  obtain ⟨x, run, hrun⟩ := List.exists_cons_of_ne_nil hne
  rw [hrun, List.head?_cons] at hclose
  rw [hrun, List.cons_append]
  by_cases hx : x = '.'
  · subst hx
    obtain ⟨run', rfl⟩ := List.head?_eq_some_iff.mp (hdot run hrun)
    rfl
  · exact ofAhead_of_ne (fun h => hclose (by rw [h])) hx

/-- Texts below each other, with a line feed behind each of them, and what closes the list. -/
def itemLines (ts : List String) (close : List Char) : List Char :=
  ts.foldr (fun t more => t.toList ++ '\n' :: more) close

/-- The same with the line feeds between them, up to filler in a list without items. -/
theorem dropFiller_itemLines (ts : List String) (close : List Char) :
    dropFiller false (("\n".intercalate ts).toList ++ '\n' :: close)
      = dropFiller false (itemLines ts close) := by
  cases ts with
  | nil => exact dropFiller_blank close (by decide)
  | cons t ts =>
    congr 1
    induction ts generalizing t with
    | nil => rfl
    | cons u us ih =>
      rw [String.intercalate_cons_cons, String.toList_append, String.toList_append,
        List.append_assoc, List.append_assoc, ih u]
      rfl

/-- A list goes on behind the texts in it. -/
theorem restOf_lines {name : String} {depth : Nat} {ts : List String} {vs : List Datum}
    (h : List.Forall₂ (ReadsAsItem ⟨name, depth⟩) ts vs) (done : List Datum) {r : Reading}
    {close : List Char} (hr : r.skipFiller.cursor.ahead = dropFiller false (itemLines ts close)) :
    ∃ r', restOf (datum depth) done r = restOf (datum depth) (vs.reverse ++ done) r' ∧
      r'.skipFiller.cursor.ahead = dropFiller false close := by
  -- along the texts; what was read of the list so far is passed along
  induction h generalizing done r with
  | nil => exact ⟨r, rfl, hr⟩
  | @cons t v ts vs hitem _ ih =>
    obtain ⟨hread, hbegins⟩ := hitem
    have hne := dropFiller_of_read hread
    have hstep : ListStep.ofAhead r.skipFiller.cursor.ahead = .item := by
      rw [hr]
      show ListStep.ofAhead (dropFiller false (t.toList ++ '\n' :: itemLines ts close)) = .item
      rw [dropFiller_append _ hne]
      exact hbegins.ofAhead hne _
    obtain ⟨r₁, hr₁, hahead⟩ := datum_of_read hread hr
    rw [← datum_skipFiller] at hr₁
    obtain ⟨r', hr', hclose⟩ := ih (v :: done) hahead
    refine ⟨r', ?_, hclose⟩
    rw [restOf_item (shortens_datum depth) hstep, bind_of_ok hr₁, hr', List.reverse_cons,
      List.append_assoc, List.singleton_append]

/-- Closing a list puts the items in front of its tail in their order. -/
theorem closeList_of_reverse (vs : List Datum) (tail : Datum) {r : Reading}
    (h : r.cursor.ahead = [')']) :
    closeList vs.reverse tail r = .ok (.ofItems vs tail) (r.advanceBy 1) := by
  rw [closeList_of_close _ _ h, List.foldl_reverse]
  rfl

end Reader

/-! ## Whole texts -/

namespace Datum

open Reader

variable {name : String} {depth : Nat}

/-- Behind a mark a text is read as it is on its own, with the same errors on the same lines. -/
theorem read_mark (a : Abbreviation) (t : String)
    (hat : a = .unquote → t.toList.head? ≠ some '@') :
    read ⟨name, depth + 1⟩ (String.ofList a.mark ++ t) = (read ⟨name, depth⟩ t).map a.expand := by
  have hstart : (start (String.ofList a.mark ++ t)).cursor.ahead = a.mark ++ t.toList := by
    show (String.ofList a.mark ++ t).toList = _
    rw [String.toList_append, String.toList_ofList]
  have hskip : (start (String.ofList a.mark ++ t)).skipFiller
      = start (String.ofList a.mark ++ t) := by
    cases a with
    | quote => exact skipFiller_of_solid hstart (by decide) (by decide)
    | quasiquote => exact skipFiller_of_solid hstart (by decide) (by decide)
    | unquote => exact skipFiller_of_solid hstart (by decide) (by decide)
    | unquoteSplicing => exact skipFiller_of_solid hstart (by decide) (by decide)
  obtain ⟨r₁, hahead, hline, hrun⟩ := datum_mark (a := a) depth (by rw [hskip, hstart]) hat
  rw [hskip] at hline
  have halike : (start t).cursor.Alike 0 r₁.cursor :=
    ⟨hahead, hline.trans (UInt32.add_zero _).symm⟩
  refine read_of_mirrors ⟨name, depth⟩ ⟨name, depth + 1⟩ rfl ?_
  show Mirrors a.expand (datum depth (start t)) (datum (depth + 1) _)
  have hplain : datum depth (start t) = (datum depth >>= pure) (start t) := by rw [bind_pure]
  rw [hrun, hplain]
  exact mirrors_of_agree id a.expand (tracks_datum (Or.inl rfl) _ _ halike)

/-- Behind the texts in a list the rest of it is read, with their data as the items so far. -/
theorem read_lines {ts : List String} {vs : List Datum}
    (h : List.Forall₂ (ReadsAsItem ⟨name, depth⟩) ts vs) (close : String) :
    ∃ r, datum (depth + 1) (start ("(" ++ "\n".intercalate ts ++ "\n" ++ close))
        = restOf (datum depth) vs.reverse r ∧
      r.skipFiller.cursor.ahead = dropFiller false close.toList := by
  have hstart : (start ("(" ++ "\n".intercalate ts ++ "\n" ++ close)).cursor.ahead
      = '(' :: (("\n".intercalate ts).toList ++ '\n' :: close.toList) := by
    show ("(" ++ "\n".intercalate ts ++ "\n" ++ close).toList = _
    simp only [String.toList_append, List.append_assoc]
    rfl
  obtain ⟨r₁, hahead, hrun⟩ :=
    datum_open depth (ahead_skipFiller_of_solid hstart (by decide) (by decide))
  have hlines : r₁.skipFiller.cursor.ahead = dropFiller false (itemLines ts close.toList) := by
    rw [← dropFiller_itemLines, ← hahead]
    exact Cursor.ahead_skipFiller _
  obtain ⟨r, hr, hclose⟩ := restOf_lines h [] hlines
  rw [List.append_nil] at hr
  exact ⟨r, hrun.trans hr, hclose⟩

/-- A datum up to the last character of a text is the datum of the text. -/
theorem read_of_datum {text : String} {d : Datum} {r : Reading}
    (h : datum (depth + 1) (start text) = .ok d (r.advanceBy 1)) (hahead : r.cursor.ahead = [')']) :
    read ⟨name, depth + 1⟩ text = .ok d := by
  have hend := ahead_advanceBy_one hahead
  refine read_eq_ok_iff.mpr ⟨_, onlyDatum_of_end h ?_⟩
  rw [skipFiller_of_ahead_nil hend, hend]

/-- Items on lines of their own make a list. -/
theorem read_list_lines {ts : List String} {vs : List Datum}
    (h : List.Forall₂ (ReadsAsItem ⟨name, depth⟩) ts vs) :
    read ⟨name, depth + 1⟩ ("(" ++ "\n".intercalate ts ++ "\n" ++ ")") = .ok (.list vs) := by
  obtain ⟨r, hrun, hclose⟩ := read_lines h ")"
  have hahead : r.skipFiller.cursor.ahead = [')'] :=
    hclose.trans (dropFiller_of_solid [] (by decide) (by decide))
  have hend : restOf (datum depth) vs.reverse r = closeList vs.reverse .nil r.skipFiller :=
    restOf_close (by rw [hahead]; rfl)
  exact read_of_datum ((hrun.trans hend).trans (closeList_of_reverse vs .nil hahead)) hahead

/-- With a dot and a tail on the last line they make a dotted list. -/
theorem read_dotted_lines {ts : List String} {vs : List Datum} {t : String} {v : Datum}
    (h : List.Forall₂ (ReadsAsItem ⟨name, depth⟩) ts vs) (hts : ts ≠ [])
    (ht : read ⟨name, depth⟩ t = .ok v) (hclose : (dropFiller false t.toList).head? ≠ some ')') :
    read ⟨name, depth + 1⟩ ("(" ++ "\n".intercalate ts ++ "\n" ++ (". " ++ t ++ "\n)"))
      = .ok (.ofItems vs v) := by
  obtain ⟨r, hrun, hrest⟩ := read_lines h (". " ++ t ++ "\n)")
  have htext : (". " ++ t ++ "\n)").toList = '.' :: ' ' :: (t.toList ++ '\n' :: [')']) := by
    simp only [String.toList_append]
    rfl
  have hdot : r.skipFiller.cursor.ahead = '.' :: ' ' :: (t.toList ++ '\n' :: [')']) := by
    rw [hrest, htext, dropFiller_of_solid _ (by decide) (by decide)]
  have hbehind : (r.skipFiller.advanceBy 1).skipFiller.cursor.ahead
      = dropFiller false (t.toList ++ '\n' :: [')']) :=
    ahead_skipFiller_blank (ahead_advanceBy_one hdot)
  have hne := dropFiller_of_read ht
  have hnext : (r.skipFiller.advanceBy 1).skipFiller.cursor.ahead.head? ≠ some ')' := by
    rw [hbehind, dropFiller_append _ hne, List.head?_append_of_ne_nil _ hne]
    exact hclose
  have hvs : vs.reverse ≠ [] := by
    rw [Ne, List.reverse_eq_nil_iff, ← List.length_eq_zero_iff, ← h.length_eq]
    exact fun hlen => hts (List.length_eq_zero_iff.mp hlen)
  obtain ⟨r₁, hr₁, hend⟩ := datum_of_read ht hbehind
  rw [← datum_skipFiller] at hr₁
  have hahead : r₁.skipFiller.cursor.ahead = [')'] :=
    hend.trans (dropFiller_of_solid [] (by decide) (by decide))
  have htail : restOf (datum depth) vs.reverse r = closeList vs.reverse v r₁.skipFiller := by
    rw [restOf_dotted hvs (by rw [hdot]; rfl) hnext, bind_of_ok hr₁]
    exact bind_of_ok (filler_run r₁)
  exact read_of_datum ((hrun.trans htail).trans (closeList_of_reverse vs v hahead)) hahead

/-- Reading commutes with the ways to put texts together: behind a mark, as the items of a list,
and as the items and the tail of one. -/
theorem read_composes (name : String) (depth : Nat) :
    (∀ t : String, read ⟨name, depth + 1⟩ ("'" ++ t)
      = (read ⟨name, depth⟩ t).map fun d => .list [.symbol "quote", d]) ∧
    (∀ t : String, read ⟨name, depth + 1⟩ ("`" ++ t)
      = (read ⟨name, depth⟩ t).map fun d => .list [.symbol "quasiquote", d]) ∧
    (∀ t : String, t.toList.head? ≠ some '@' → read ⟨name, depth + 1⟩ ("," ++ t)
      = (read ⟨name, depth⟩ t).map fun d => .list [.symbol "unquote", d]) ∧
    (∀ t : String, read ⟨name, depth + 1⟩ (",@" ++ t)
      = (read ⟨name, depth⟩ t).map fun d => .list [.symbol "unquote-slicing", d]) ∧
    (∀ (ts : List String) (vs : List Datum),
      List.Forall₂ (ReadsAsItem ⟨name, depth⟩) ts vs →
      read ⟨name, depth + 1⟩ ("(" ++ "\n".intercalate ts ++ "\n)") = .ok (.list vs)) ∧
    (∀ (ts : List String) (vs : List Datum) (t : String) (v : Datum),
      List.Forall₂ (ReadsAsItem ⟨name, depth⟩) ts vs → ts ≠ [] →
      read ⟨name, depth⟩ t = .ok v → (dropFiller false t.toList).head? ≠ some ')' →
      read ⟨name, depth + 1⟩ ("(" ++ "\n".intercalate ts ++ "\n. " ++ t ++ "\n)")
        = .ok (.ofItems vs v)) := by
  refine ⟨fun t => read_mark .quote t nofun, fun t => read_mark .quasiquote t nofun,
    fun t hat => read_mark .unquote t fun _ => hat, fun t => read_mark .unquoteSplicing t nofun,
    ?_, ?_⟩
  · intro ts vs h
    have htext : "(" ++ "\n".intercalate ts ++ "\n)"
        = "(" ++ "\n".intercalate ts ++ "\n" ++ ")" := by
      rw [show "\n)" = "\n" ++ ")" from rfl]
      simp only [String.append_assoc]
    rw [htext]
    exact read_list_lines h
  · intro ts vs t v h hts ht hclose
    have htext : "(" ++ "\n".intercalate ts ++ "\n. " ++ t ++ "\n)"
        = "(" ++ "\n".intercalate ts ++ "\n" ++ (". " ++ t ++ "\n)") := by
      rw [show "\n. " = "\n" ++ ". " from rfl]
      simp only [String.append_assoc]
    rw [htext]
    exact read_dotted_lines h hts ht hclose

/-- To begin an item it is enough not to begin like the end of the list or like a dot. -/
theorem beginsItem_of_head {t : String} {x : Char} (h : (dropFiller false t.toList).head? = some x)
    (hclose : x ≠ ')') (hdot : x ≠ '.') : BeginsItem t := by
  rw [BeginsItem, h]
  refine ⟨fun heq => hclose (Option.some.inj heq), fun run hrun => ?_⟩
  rw [hrun, List.head?_cons] at h
  exact absurd (Option.some.inj h).symm hdot

/-- Each of the marks, an unfinished comment behind an item, and one more datum behind the dot. -/
theorem read_composes_sample :
    read ⟨"sample", 2⟩ ("'" ++ "x") = .ok (.list [.symbol "quote", .symbol "x"]) ∧
    read ⟨"sample", 2⟩ ("`" ++ "x") = .ok (.list [.symbol "quasiquote", .symbol "x"]) ∧
    read ⟨"sample", 2⟩ ("," ++ " @x") = .ok (.list [.symbol "unquote", .symbol "@x"]) ∧
    read ⟨"sample", 2⟩ (",@" ++ "x") = .ok (.list [.symbol "unquote-slicing", .symbol "x"]) ∧
    read ⟨"sample", 2⟩ ("(" ++ "\n".intercalate ["a;", "b ; )", " ()"] ++ "\n)")
      = .ok (.list [.symbol "a;", .symbol "b", .nil]) ∧
    read ⟨"sample", 2⟩ ("(" ++ "\n".intercalate ["a;", "b ; )", " ()"] ++ "\n. " ++ "#t" ++ "\n)")
      = .ok (.ofItems [.symbol "a;", .symbol "b", .nil] (.atom (.bool true))) := by
  obtain ⟨hquote, hquasiquote, hunquote, hsplicing, hlist, hdotted⟩ := read_composes "sample" 1
  have hitems : List.Forall₂ (ReadsAsItem ⟨"sample", 1⟩) ["a;", "b ; )", " ()"]
      [.symbol "a;", .symbol "b", .nil] := by
    refine .cons ⟨by rfl, ?_⟩ (.cons ⟨by rfl, ?_⟩ (.cons ⟨by rfl, ?_⟩ .nil))
    · exact beginsItem_of_head (x := 'a') (by rfl) (by decide) (by decide)
    · exact beginsItem_of_head (x := 'b') (by rfl) (by decide) (by decide)
    · exact beginsItem_of_head (x := '(') (by rfl) (by decide) (by decide)
  refine ⟨?_, ?_, ?_, ?_, hlist _ _ hitems, ?_⟩
  · rw [hquote]
    rfl
  · rw [hquasiquote]
    rfl
  · rw [hunquote " @x" (by decide)]
    rfl
  · rw [hsplicing]
    rfl
  · exact hdotted _ _ "#t" (.atom (.bool true)) hitems (by decide) (by rfl) (by decide)

end Datum

end Sexpr
