import Sexpr.Pipeline
import Sexpr.Proofs.Files.Agreement

/-!
# The stages of the pipeline

A compiler and a machine are any functions on states of their own, so nothing is known of what they
do. But what they are asked for can be written down: the compiler is made to keep a list of the data
and environments it is called with, and the machine one of the procedures. Nothing else about an
execution changes by that.

For a text that is read the compiler is called once, with the datum that was read, and if it
succeeds and the mode says so the machine is called once, with the procedure that was compiled. When
a stage fails, those behind it are not called and keep their states.

> `Course`: the ways an execution can go, one rule for each.
> `course_iff`: every execution goes one of these ways.
> `untraced_runText`: writing down changes nothing else.
> `runFile_of_text`, `runFile_of_error`: a file is run as its text is, if it has one.
> `stops_at_first_failure`: all of this about texts and files.
-/

namespace Sexpr

variable {S T Env P V E F : Type}

/-! ## Writing down the calls -/

/-- The compiler with a list of its calls so far, the latest first. -/
def Compiler.traced (compiler : Compiler S Env P E) :
    Compiler (S × List (Datum × Env)) Env P E where
  compile d env s :=
    let (result, s') := compiler.compile d env s.1
    (result, s', (d, env) :: s.2)

/-- The machine with a list of the procedures it ran so far, the latest first. -/
def Machine.traced (machine : Machine T Env P V F) : Machine (T × List P) Env P V F where
  environment t := machine.environment t.1
  run p t :=
    let (result, t') := machine.run p t.1
    (result, t', p :: t.2)

/-- The execution without the lists. -/
def Execution.untraced {A B : Type} (x : Execution (S × A) (T × B) E F) : Execution S T E F :=
  { report := x.report, compiler := x.compiler.1, machine := x.machine.1, events := x.events }

/-- A compiler with a list answers as before, and puts the datum and the environment in front of the
list. -/
theorem Compiler.compile_traced {compiler : Compiler S Env P E} {machine : Machine T Env P V F}
    {d : Datum} {s s' : S} {t : T} {result : Except E P}
    (h : compiler.compile d (machine.environment t) s = (result, s'))
    (asked : List (Datum × Env)) (ran : List P) :
    compiler.traced.compile d (machine.traced.environment (t, ran)) (s, asked)
      = (result, s', (d, machine.environment t) :: asked) := by
  show ((compiler.compile d (machine.environment t) s).1,
    (compiler.compile d (machine.environment t) s).2, (d, machine.environment t) :: asked) = _
  rw [h]

/-- A machine with a list does the same with the procedure. -/
theorem Machine.run_traced {machine : Machine T Env P V F} {p : P} {t t' : T}
    {result : Except F V} (h : machine.run p t = (result, t')) (ran : List P) :
    machine.traced.run p (t, ran) = (result, t', p :: ran) := by
  show ((machine.run p t).1, (machine.run p t).2, p :: ran) = _
  rw [h]

/-! ## Files without a text -/

namespace FileStore

variable {store : FileStore} {path : String}

/-- What cannot be read as bytes cannot be read as a text, for the same reason. -/
theorem readText_of_readBytes_error {e : FileError} (h : store.readBytes path = .error e) :
    store.readText path = .error e := by
  rw [readText, h]

/-- Bytes that are not those of a text are no text. -/
theorem readText_of_not_text {bytes : ByteArray} (h : store.readBytes path = .ok bytes)
    (hbytes : ∀ text : String, text.toUTF8 ≠ bytes) : store.readText path = .error .notText := by
  rw [readText, h]
  dsimp only
  rw [FileError.textOf, String.fromUTF8?]
  split
  · next text hdecode =>
    split at hdecode
    · next hvalid => exact absurd rfl (hbytes (String.fromUTF8 bytes hvalid))
    · cases hdecode
  · rfl

end FileStore

namespace Pipeline

variable [Procedure P] [ToString V]

/-! ## The ways an execution can go -/

section

variable (compiler : Compiler S Env P E) (machine : Machine T Env P V F) (mode : Mode)
  (name : String) (outcome : Outcome) (s : S) (t : T) (asked : List (Datum × Env)) (ran : List P)

/-- What an execution comes to, given what came of reading the text. The lists are those of the
calls before, with one more for each of the two that was called. -/
inductive Course : Execution (S × List (Datum × Env)) (T × List P) E F → Prop
  /-- The text is no datum. Nothing is called. -/
  | unread {e : ReadError} (hread : outcome.result = .error e) :
      Course
        { report := .error (.read e)
          compiler := (s, asked)
          machine := (t, ran)
          events := outcome.events }
  /-- The datum is not compiled. The machine is not called. -/
  | uncompiled {d : Datum} {e : E} {s' : S} (hread : outcome.result = .ok d)
      (hcompile : compiler.compile d (machine.environment t) s = (.error e, s')) :
      Course
        { report := .error (.compile name e)
          compiler := (s', (d, machine.environment t) :: asked)
          machine := (t, ran)
          events := outcome.events }
  /-- The procedure is not to be run. The machine is not called. -/
  | reported {d : Datum} {p : P} {s' : S} (hread : outcome.result = .ok d)
      (hcompile : compiler.compile d (machine.environment t) s = (.ok p, s'))
      (hmode : mode = .compileOnly) :
      Course
        { report := .ok ("Bytecode:\n" ++ Procedure.bytecode p ++ "\nDisasm run:\n"
            ++ Procedure.disassembly p ++ "\n")
          compiler := (s', (d, machine.environment t) :: asked)
          machine := (t, ran)
          events := outcome.events ++ [.compiled name] }
  /-- The procedure runs and fails. -/
  | failed {d : Datum} {p : P} {s' : S} {e : F} {t' : T} (hread : outcome.result = .ok d)
      (hcompile : compiler.compile d (machine.environment t) s = (.ok p, s'))
      (hmode : mode = .run) (hrun : machine.run p t = (.error e, t')) :
      Course
        { report := .error (.run name e)
          compiler := (s', (d, machine.environment t) :: asked)
          machine := (t', p :: ran)
          events := outcome.events ++ [.compiled name] }
  /-- The procedure runs and has a result. -/
  | finished {d : Datum} {p : P} {s' : S} {value : V} {t' : T} (hread : outcome.result = .ok d)
      (hcompile : compiler.compile d (machine.environment t) s = (.ok p, s'))
      (hmode : mode = .run) (hrun : machine.run p t = (.ok value, t')) :
      Course
        { report := .ok ("Result is " ++ toString value)
          compiler := (s', (d, machine.environment t) :: asked)
          machine := (t', p :: ran)
          events := outcome.events ++ [.compiled name] }

end

variable {compiler : Compiler S Env P E} {machine : Machine T Env P V F} {mode : Mode}
  {name text : String} {s : S} {t : T} {asked : List (Datum × Env)} {ran : List P}

/-- Every rule says what the execution is. -/
theorem runText_of_course {x : Execution (S × List (Datum × Env)) (T × List P) E F}
    (h : Course compiler machine mode name (Datum.readReporting { name := name } text) s t asked ran
      x) :
    runText compiler.traced machine.traced mode name text (s, asked) (t, ran) = x := by
  cases h with
  | unread hread => exact runText_of_read_error _ _ _ hread _ _
  | uncompiled hread hcompile =>
    rw [runText_of_read_ok _ _ _ hread, fromDatum, Compiler.compile_traced hcompile]
  | reported hread hcompile hmode =>
    rw [runText_of_read_ok _ _ _ hread, fromDatum, Compiler.compile_traced hcompile, hmode]
    rfl
  | failed hread hcompile hmode hrun =>
    rw [runText_of_read_ok _ _ _ hread, fromDatum, Compiler.compile_traced hcompile, hmode]
    dsimp only [finish]
    rw [Machine.run_traced hrun]
  | finished hread hcompile hmode hrun =>
    rw [runText_of_read_ok _ _ _ hread, fromDatum, Compiler.compile_traced hcompile, hmode]
    dsimp only [finish]
    rw [Machine.run_traced hrun]
    rfl

/-- There is a rule for everything that reading, compiling and running can come to. -/
theorem exists_course (compiler : Compiler S Env P E) (machine : Machine T Env P V F) (mode : Mode)
    (name : String) (outcome : Outcome) (s : S) (t : T) (asked : List (Datum × Env))
    (ran : List P) : ∃ x, Course compiler machine mode name outcome s t asked ran x := by
  cases hread : outcome.result with
  | error e => exact ⟨_, .unread hread⟩
  | ok d =>
    cases hcompile : compiler.compile d (machine.environment t) s with
    | mk result s' =>
      cases result with
      | error e => exact ⟨_, .uncompiled hread hcompile⟩
      | ok p =>
        cases hmode : mode with
        | compileOnly => exact ⟨_, .reported hread hcompile rfl⟩
        | run =>
          cases hrun : machine.run p t with
          | mk result t' =>
            cases result with
            | error e => exact ⟨_, .failed hread hcompile rfl hrun⟩
            | ok value => exact ⟨_, .finished hread hcompile rfl hrun⟩

/-- The rules say what every execution is, and nothing else. -/
theorem course_iff {x : Execution (S × List (Datum × Env)) (T × List P) E F} :
    Course compiler machine mode name (Datum.readReporting { name := name } text) s t asked ran x ↔
      runText compiler.traced machine.traced mode name text (s, asked) (t, ran) = x := by
  refine ⟨runText_of_course, ?_⟩
  rintro rfl
  obtain ⟨x, hx⟩ := exists_course compiler machine mode name
    (Datum.readReporting { name := name } text) s t asked ran
  rwa [runText_of_course hx]

/-! ## Without the lists -/

theorem untraced_finish {p : P} {events : List Event} :
    (finish machine.traced mode name p (s, asked) (t, ran) events).untraced
      = (finish machine mode name p s t events : Execution S T E F) := by
  cases mode with
  | compileOnly => rfl
  | run =>
    cases hrun : machine.run p t with
    | mk result t' =>
      dsimp only [finish]
      rw [hrun, Machine.run_traced hrun]
      cases result with
      | error e => rfl
      | ok value => rfl

/-- Writing down the calls changes nothing else. -/
theorem untraced_runText :
    (runText compiler.traced machine.traced mode name text (s, asked) (t, ran)).untraced
      = runText compiler machine mode name text s t := by
  cases hread : (Datum.readReporting { name := name } text).result with
  | error e =>
    rw [runText_of_read_error _ _ _ hread, runText_of_read_error _ _ _ hread]
    rfl
  | ok d =>
    rw [runText_of_read_ok _ _ _ hread, runText_of_read_ok _ _ _ hread]
    cases hcompile : compiler.compile d (machine.environment t) s with
    | mk result s' =>
      rw [fromDatum, fromDatum, hcompile, Compiler.compile_traced hcompile]
      cases result with
      | error e => rfl
      | ok p => exact untraced_finish

/-! ## Files -/

section

variable {store : FileStore} {path : String}

/-- A file that holds a text is run as this text, under the name of the path. -/
theorem runFile_of_text (h : store.readBytes path = .ok text.toUTF8) :
    runFile compiler machine mode store path s t = runText compiler machine mode path text s t := by
  rw [runFile, FileStore.readText_of_readBytes h]

theorem runFile_of_error {e : FileError} (h : store.readText path = .error e) :
    runFile compiler machine mode store path s t
      = { report := .error (.file path e), compiler := s, machine := t, events := [] } := by
  rw [runFile, h]

end

/-! ## All of it -/

/-- An execution goes the way that `Course` says, from calling nothing to calling the compiler and
the machine once each, and the lists of calls make no difference to it. A file is run as its text
is; where there is no text, nothing is called. An error says in words which stage failed. -/
theorem stops_at_first_failure [ToString E] [ToString F] (compiler : Compiler S Env P E)
    (machine : Machine T Env P V F) (mode : Mode) (s : S) (t : T) (asked : List (Datum × Env))
    (ran : List P) :
    (∀ name text x,
      runText compiler.traced machine.traced mode name text (s, asked) (t, ran) = x ↔
        Course compiler machine mode name (Datum.readReporting { name := name } text) s t asked ran
          x) ∧
    (∀ name text,
      (runText compiler.traced machine.traced mode name text (s, asked) (t, ran)).untraced
        = runText compiler machine mode name text s t) ∧
    (∀ (store : FileStore) path text, store.readBytes path = .ok text.toUTF8 →
      runFile compiler machine mode store path s t
        = runText compiler machine mode path text s t) ∧
    (∀ (store : FileStore) path e, store.readBytes path = .error e →
      runFile compiler machine mode store path s t
        = { report := .error (.file path e), compiler := s, machine := t, events := [] }) ∧
    (∀ (store : FileStore) path bytes, store.readBytes path = .ok bytes →
      (∀ text : String, text.toUTF8 ≠ bytes) →
      runFile compiler machine mode store path s t
        = { report := .error (.file path .notText), compiler := s, machine := t, events := [] }) ∧
    (∀ e : ReadError, (PipelineError.read e : PipelineError E F).chain = [e.message]) ∧
    (∀ name (e : E), (PipelineError.compile name e : PipelineError E F).chain
      = ["compiling " ++ name, toString e]) ∧
    (∀ name (e : F), (PipelineError.run name e : PipelineError E F).chain
      = ["running " ++ name, toString e]) ∧
    ∀ path e, (PipelineError.file path e : PipelineError E F).chain
      = ["reading " ++ shownPath path, e.message] := by
  refine ⟨fun name text x => course_iff.symm, fun name text => untraced_runText, ?_, ?_, ?_,
    fun e => rfl, fun name e => rfl, fun name e => rfl, fun path e => rfl⟩
  · exact fun store path text h => runFile_of_text h
  · exact fun store path e h => runFile_of_error (FileStore.readText_of_readBytes_error h)
  · exact fun store path bytes h hbytes =>
      runFile_of_error (FileStore.readText_of_not_text h hbytes)

/-- A procedure that is a text. -/
structure Listing where
  text : String

instance : Procedure Listing where
  bytecode p := p.text
  disassembly p := "0000 PUSH " ++ p.text

/-- Counts the data, and compiles all but the empty list. -/
def listingCompiler : Compiler Nat Unit Listing String where
  compile d _ s :=
    match d with
    | .nil => (.error "nothing to compile", s + 1)
    | d => (.ok { text := d.text }, s + 1)

/-- Counts the procedures. The result is the count. -/
def countingMachine : Machine Nat Unit Listing Nat String where
  environment _ := ()
  run _ t := (.ok (t + 1), t + 1)

/-- A file with the empty list, and one with a byte that starts no character. -/
def stagesStore : FileStore :=
  (FileStore.empty.put ["e"] (.file "()".toUTF8)).put ["b"] (.file ⟨#[0xff]⟩)

/-- A symbol is compiled and run. The empty list is compiled without success, and where there is no
text nothing is called. -/
theorem stops_at_first_failure_sample :
    runText listingCompiler.traced countingMachine.traced .run "text" "x" (0, []) (0, [])
      = { report := .ok "Result is 1"
          compiler := (1, [(.symbol "x", ())])
          machine := (1, [{ text := "x" }])
          events := (Datum.readReporting { name := "text" } "x").events ++ [.compiled "text"] } ∧
    runFile listingCompiler countingMachine .run stagesStore "e" 0 0
      = { report := .error (.compile "e" "nothing to compile")
          compiler := 1
          machine := 0
          events := (Datum.readReporting { name := "e" } "()").events } ∧
    runFile listingCompiler countingMachine .run stagesStore "m" 0 0
      = { report := .error (.file "m" .notFound), compiler := 0, machine := 0
          events := [] } ∧
    runFile listingCompiler countingMachine .run stagesStore "b" 0 0
      = { report := .error (.file "b" .notText), compiler := 0, machine := 0
          events := [] } := by
  obtain ⟨hcourse, huntraced, htext, herror, hbytes, -⟩ :=
    stops_at_first_failure listingCompiler countingMachine .run 0 0 [] []
  have hx : (Datum.readReporting { name := "text" } "x").result = .ok (.symbol "x") := by rfl
  have hcompile : listingCompiler.compile (.symbol "x") () 0 = (.ok { text := "x" }, 1) := by rfl
  have hrun : countingMachine.run { text := "x" } 0 = (.ok 1, 1) := rfl
  have hnil : (Datum.readReporting { name := "e" } "()").result = .ok .nil := by rfl
  refine ⟨(hcourse _ _ _).mpr (.finished hx hcompile rfl hrun), ?_, herror _ _ _ ?_,
    hbytes _ _ ⟨#[0xff]⟩ ?_ fun text h => ?_⟩
  · rw [htext stagesStore "e" "()" (by cbv), ← huntraced,
      (hcourse _ _ _).mpr (.uncompiled hnil rfl)]
    rfl
  · cbv
  · cbv
  · have hvalid : (ByteArray.mk #[0xff]).IsValidUTF8 := h ▸ text.isValidUTF8
    exact absurd hvalid (by decide +kernel)

end Pipeline

end Sexpr
