import Sexpr.Proofs.Reader.Location
import Sexpr.Proofs.Reader.Renderings

/-!
# What stands below a datum

A text holds one datum. If it is read, then nothing that is put below it goes into the datum,
not even if the text ends in a number that could go on or in the middle of a comment. All that
matters is whether there is anything but filler below: the first such character is an error, on
its own line.

> `lastFiller_or_hasContent`: a text is filler, or there is a first character that is none.
> `read_below`: the text, a line feed and whatever stands below it.
-/

namespace Sexpr

/-- The text is filler up to a first character that is none. -/
def HasContent (cs : List Char) : Prop :=
  ∃ filler x rest, cs = filler ++ x :: rest ∧ Filler filler ∧ isBlank x = false ∧ x ≠ ';'

theorem HasContent.skip {filler cs : List Char} (hfiller : Filler filler) (h : HasContent cs) :
    HasContent (filler ++ cs) := by
  obtain ⟨more, x, rest, rfl, hmore, hx⟩ := h
  exact ⟨filler ++ more, x, rest, (List.append_assoc ..).symm, hfiller.append hmore, hx⟩

/-- A text is filler up to its end, or it has content. -/
theorem lastFiller_or_hasContent (cs : List Char) : LastFiller cs ∨ HasContent cs := by
  -- by induction on the length, as a comment is taken away as a whole
  induction hlen : cs.length using Nat.strong_induction_on generalizing cs with
  | _ n ih =>
    have behind : ∀ filler more, Filler filler → cs = filler ++ more → more.length < n →
        LastFiller cs ∨ HasContent cs := by
      rintro filler more hfiller rfl hlt
      exact (ih _ hlt more rfl).imp (.skip hfiller) (.skip hfiller)
    cases cs with
    | nil => exact .inl (.ended .nil)
    | cons c rest =>
      rw [List.length_cons] at hlen
      by_cases hblank : isBlank c = true
      · exact behind [c] rest (.blank hblank .nil) rfl (by omega)
      by_cases hsemi : c = ';'
      · subst hsemi
        by_cases hfeed : '\n' ∈ rest
        · obtain ⟨comment, more, rfl, hcomment⟩ := List.eq_append_cons_of_mem hfeed
          refine behind (';' :: (comment ++ ['\n'])) more (.comment hcomment .nil) (by simp) ?_
          rw [List.length_append, List.length_cons] at hlen
          omega
        · exact .inl (.unended .nil hfeed)
      · exact .inr ⟨[], c, rest, rfl, .nil, by simpa using hblank, hsemi⟩

namespace Datum

open Reader

variable {name : String} {depth : Nat} {t : String} {v : Datum}

theorem toList_below (t s : String) :
    (t ++ "\n" ++ s).toList = t.toList ++ '\n' :: s.toList := by
  rw [String.toList_append, String.toList_append, List.append_assoc]
  rfl

/-- Behind a text that is read and a line feed there is one datum, and then what stands below. -/
theorem datum_below (h : read ⟨name, depth⟩ t = .ok v) (s : String) :
    ∃ r, datum depth (start (t ++ "\n" ++ s)) = .ok v r ∧
      r.skipFiller.cursor.ahead = dropFiller false s.toList := by
  refine datum_of_read h ?_
  rw [← toList_below]
  exact Cursor.ahead_skipFiller _

/-- Filler below a text that is read makes no difference. -/
theorem read_filler_below (h : read ⟨name, depth⟩ t = .ok v) {s : String}
    (hs : LastFiller s.toList) : read ⟨name, depth⟩ (t ++ "\n" ++ s) = .ok v := by
  obtain ⟨r, hrun, hbelow⟩ := datum_below h s
  rw [hs.dropFiller] at hbelow
  exact read_eq_ok_iff.mpr ⟨r.skipFiller, onlyDatum_of_end hrun hbelow⟩

/-- Anything else is an error at its first character, on the line of this character. -/
theorem read_trailing_below (h : read ⟨name, depth⟩ t = .ok v) {s : String} {x : Char}
    {filler rest : List Char} (hs : s.toList = filler ++ x :: rest) (hfiller : Filler filler)
    (hblank : isBlank x = false) (hsemi : x ≠ ';')
    (hfew : t.toList.count '\n' + s.toList.count '\n' < 2 ^ 32 - 2) :
    ∃ line, read ⟨name, depth⟩ (t ++ "\n" ++ s) = .error ⟨.trailingContent x, name, line⟩ ∧
      line.toNat = 1 + (t.toList ++ '\n' :: filler).count '\n' := by
  obtain ⟨r, hrun, hbelow⟩ := datum_below h s
  rw [hs, hfiller.dropFiller, dropFiller_of_solid _ hblank hsemi] at hbelow
  have hfails := onlyDatum_of_trailing hrun hbelow
  have hpass : (Cursor.ofText (t ++ "\n" ++ s)).Passes r.skipFiller.cursor :=
    (forward_onlyDatum depth).error (r := start (t ++ "\n" ++ s)) hfails
  have htext : (t ++ "\n" ++ s).toList = t.toList ++ '\n' :: s.toList := toList_below t s
  refine ⟨_, read_eq_error_iff.mpr ⟨r.skipFiller, hfails, rfl, rfl⟩, hpass.line_toNat ?_ ?_⟩
  · rw [htext, hs, hbelow, List.append_assoc, List.cons_append]
  · rw [htext, List.count_append, List.count_cons_self]
    omega

/-- Below a text that is read filler makes no difference. Anything else is an error at the first
character that is not filler. -/
theorem read_below {settings : Settings} (h : read settings t = .ok v) (s : String)
    (hfew : t.toList.count '\n' + s.toList.count '\n' < 2 ^ 32 - 2) :
    (LastFiller s.toList → read settings (t ++ "\n" ++ s) = .ok v) ∧
    (¬LastFiller s.toList → ∃ filler x rest, s.toList = filler ++ x :: rest ∧ Filler filler ∧
      isBlank x = false ∧ x ≠ ';' ∧
      ∃ line, read settings (t ++ "\n" ++ s) = .error ⟨.trailingContent x, settings.name, line⟩ ∧
        line.toNat = 1 + (t.toList ++ '\n' :: filler).count '\n') := by
  refine ⟨read_filler_below h, fun hs => ?_⟩
  obtain hlast | ⟨filler, x, rest, hsplit, hfiller, hblank, hsemi⟩ :=
    lastFiller_or_hasContent s.toList
  · exact absurd hlast hs
  · exact ⟨filler, x, rest, hsplit, hfiller, hblank, hsemi,
      read_trailing_below h hsplit hfiller hblank hsemi hfew⟩

/-- Behind an unfinished comment there may be another one, but no fraction of the number. -/
theorem read_below_sample :
    read {} ("12;" ++ "\n" ++ " ;.5") = .ok (.atom (.number (.integer 12))) ∧
    ∃ line, line.toNat = 3 ∧ read {} ("12;" ++ "\n" ++ " ; i\n.5")
      = .error ⟨.trailingContent '.', "__unknown__", line⟩ := by
  have hread : read {} "12;" = .ok (.atom (.number (.integer 12))) := by rfl
  have hfiller : LastFiller " ;.5".toList :=
    .unended (.blank (by decide) .nil : Filler [' ']) (by decide)
  refine ⟨(read_below hread " ;.5" (by decide)).1 hfiller, ?_⟩
  have hcontent : ¬LastFiller " ; i\n.5".toList :=
    fun h => absurd h.dropFiller (by decide)
  obtain ⟨filler, x, rest, hs, hfiller, hblank, hsemi, line, hfails, hline⟩ :=
    (read_below hread " ; i\n.5" (by decide)).2 hcontent
  have hdrop : ['.', '5'] = x :: rest := by
    rw [← dropFiller_of_solid rest hblank hsemi, ← hfiller.dropFiller, ← hs]
    decide
  obtain ⟨rfl, rfl⟩ := List.cons.inj hdrop
  have hfront : " ; i\n".toList = filler := List.append_cancel_right hs
  subst hfront
  exact ⟨line, hline.trans (by decide), hfails⟩

end Datum

end Sexpr
