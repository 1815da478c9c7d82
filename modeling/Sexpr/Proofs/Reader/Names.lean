import Sexpr.Proofs.Reader.Atoms

/-!
# The names of symbols

A symbol goes on up to white space or one of the five marks that end it, so neither is inside a
name. In front it is the class of the character that counts: the quote, the opening parenthesis and
the comma begin data of another form. The at sign does not; it is a mark only behind a comma, and
anywhere else a name may begin with it.

> `Lexeme.bounded`: what a name that is read as a symbol is made of.
> `names_of_read`: this is so for every symbol of what was read, wherever it stands.
> `at_sign_begins_name`: no mark at all in a name would be too much to ask.
-/

namespace Sexpr

/-- Neither white space nor the mark of another form is in the name, and no mark that ends a symbol
is behind its first character. -/
def Atom.Bounded : Atom → Prop
  | symbol name =>
    (∀ x ∈ name.toList, isBlank x = false ∧ x ∉ ['\x27', '(', ',']) ∧
      ∀ x ∈ name.toList.tail, x ∉ [')', '@']
  | _ => True

/-- What goes on with a symbol is neither white space nor a mark that ends it. -/
theorem solid_of_continues {x : Char} (h : continuesSymbol x = true) :
    isBlank x = false ∧ x ∉ ['\x27', '(', ','] ∧ x ∉ [')', '@'] := by
  simp only [continuesSymbol, isDelimiter, Bool.not_or, Bool.and_eq_true, Bool.not_eq_true',
    beq_eq_false_iff_ne] at h
  obtain ⟨hblank, ⟨⟨⟨hquote, hclose⟩, hopen⟩, hcomma⟩, hat⟩ := h
  simp [hblank, hquote, hclose, hopen, hcomma, hat]

/-- The first character of a symbol is no mark of another form. -/
theorem not_mark_of_ofChar {x : Char} (h : Opening.ofChar x = .other ∨ Opening.ofChar x = .sign) :
    x ∉ ['\x27', '(', ','] := by
  intro hmark
  simp only [List.mem_cons, List.not_mem_nil, or_false] at hmark
  rcases hmark with rfl | rfl | rfl
  · exact absurd h (by decide)
  · exact absurd h (by decide)
  · exact absurd h (by decide)

theorem Lexeme.bounded {name : String} (h : Lexeme name.toList) : (Atom.symbol name).Bounded := by
  show _ ∧ _
  cases hname : name.toList with
  | nil => exact ⟨fun x hx => absurd hx List.not_mem_nil, fun x hx => absurd hx List.not_mem_nil⟩
  | cons first more =>
    rw [hname] at h
    obtain ⟨hblank, _, hmore, hclass⟩ := h
    have hfirst : first ∉ ['\x27', '(', ','] :=
      not_mark_of_ofChar (hclass.imp id fun hsign => hsign.1)
    refine ⟨fun x hx => ?_, fun x hx => (solid_of_continues (hmore x hx)).2.2⟩
    rcases List.mem_cons.mp hx with rfl | hx
    · exact ⟨hblank, hfirst⟩
    · obtain ⟨hsolid, hmark, _⟩ := solid_of_continues (hmore x hx)
      exact ⟨hsolid, hmark⟩

namespace Datum

variable {settings : Settings} {text : String} {v : Datum}

/-- In what was read no name of a symbol has white space or the mark of another form in it, nor,
behind its first character, a mark that ends symbols. -/
theorem names_of_read (h : read settings text = .ok v) : v.Every Atom.Bounded := by
  refine (every_lexed_of_read h).mono fun a ha => ?_
  cases a with
  | symbol name => exact Lexeme.bounded ha
  | bool b => trivial
  | string text => trivial
  | number n => trivial

/-- Behind an item that begins with an at sign the comma ends a name and begins a mark. -/
theorem names_of_read_sample :
    (list [.symbol "@a", list [.symbol "unquote-slicing", .symbol "-b"]]).Every Atom.Bounded := by
  have hread : read {} "(@a,@-b)"
      = .ok (list [.symbol "@a", list [.symbol "unquote-slicing", .symbol "-b"]]) := by rfl
  exact names_of_read hread

/-- An at sign is one of the marks that end a symbol, and the first character of this one. -/
theorem at_sign_begins_name :
    ∃ v : Datum, read {} "@a" = .ok v ∧
      ¬v.Every fun a => ∀ name, a = .symbol name →
        ∀ x ∈ name.toList, isBlank x = false ∧ isDelimiter x = false := by
  refine ⟨.symbol "@a", by rfl, fun h => ?_⟩
  obtain ⟨_, hat⟩ := h "@a" rfl '@' (by decide)
  exact absurd hat (by decide)

end Datum

end Sexpr
