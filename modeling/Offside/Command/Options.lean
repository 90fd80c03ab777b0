import Offside.Settings

/-!
# The command line

The arguments of a run name a task and the text it is for, with options before and after the name
of the task:

* `tokens INPUT`, `ast INPUT` and `emit INPUT [-o OUTPUT]` are the tasks;
* `--indent-width N`, `--tab-width N`, `--plain`, `--json` and `-v` go with every task.

An option's value stands in the next argument, or behind an equals sign; `-o` may also have it right
behind. After `--` everything is an operand. An option given on both sides of the task's name
counts as given after it; otherwise only `-v` may be repeated.
-/

namespace Offside.Command

/-- What to do with a source text. -/
inductive Task where
  | tokens
  | tree
  | emit
  deriving DecidableEq

/-- The task with a given name. -/
def Task.ofName? (name : String) : Option Task :=
  [("tokens", Task.tokens), ("ast", .tree), ("emit", .emit)].lookup name

/-- Options that have a value. -/
inductive Setting where
  | indentWidth
  | tabWidth
  | output
  deriving DecidableEq

/-- What the arguments on one side of the task's name say. -/
structure Given where
  indentWidth : Option UInt64
  tabWidth : Option UInt64
  verbosity : Nat
  plain : Bool
  json : Bool
  input : Option String
  output : Option String

/-- No arguments. -/
def Given.nothing : Given := ⟨none, none, 0, false, false, none, none⟩

/-- Why arguments do not lead to a run. -/
inductive Stop where
  /-- They cannot be used. -/
  | misuse
  /-- They ask for the version. -/
  | version
  /-- They ask for help. -/
  | help
  deriving DecidableEq

/-- An argument that is written like an option. A single hyphen is not. -/
def isOption (arg : String) : Bool := arg.startsWith "-" && arg != "-"

/-- Set something that must not be set yet. -/
def once {α : Type} (old : Option α) (new : α) : Except Stop (Option α) :=
  if old.isSome then .error .misuse else .ok (some new)

/-- A width as an option's value. -/
def width (text : String) : Except Stop UInt64 := (Width.read text.toList).mapError fun _ => .misuse

/-- The name of a file, which is not empty. -/
def fileName (text : String) : Except Stop String :=
  if text.isEmpty then .error .misuse else .ok text

namespace Given

/-- Give an option its value. -/
def set (g : Given) (setting : Setting) (text : String) : Except Stop Given := do
  match setting with
  | .indentWidth => .ok { g with indentWidth := ← once g.indentWidth (← width text) }
  | .tabWidth => .ok { g with tabWidth := ← once g.tabWidth (← width text) }
  | .output => .ok { g with output := ← once g.output (← fileName text) }

/-- Take in an operand. -/
def operand (g : Given) (text : String) : Except Stop Given := do
  .ok { g with input := ← once g.input (← fileName text) }

/-- The result of an option: what is given now, and the option that still needs its value. -/
abbrev Next := Given × Option Setting

/-- An option that has a value, either behind an equals sign or in the next argument. -/
def valued (g : Given) (setting : Setting) : Option String → Except Stop Next
  | some text => do .ok (← g.set setting text, none)
  | none => .ok (g, some setting)

/-- An option that has no value. -/
def unvalued (value : Option String) (result : Except Stop Given) : Except Stop Next :=
  if value.isSome then .error .misuse else do .ok (← result, none)

/-- A long option by its name. `task` is the task named before it, if any. -/
def long (g : Given) (task : Option Task) (name : String) (value : Option String) :
    Except Stop Next :=
  match name with
  | "indent-width" => g.valued .indentWidth value
  | "tab-width" => g.valued .tabWidth value
  | "verbose" => unvalued value (.ok { g with verbosity := g.verbosity + 1 })
  | "plain" => unvalued value (if g.plain then .error .misuse else .ok { g with plain := true })
  | "json" => unvalued value (if g.json then .error .misuse else .ok { g with json := true })
  | "output" => if task = some .emit then g.valued .output value else .error .misuse
  -- only before the name of the task
  | "version" => if task.isNone then unvalued value (.error .version) else .error .misuse
  | "help" => unvalued value (.error .help)
  | _ => .error .misuse

/-- Short options in one argument, after its hyphen. -/
def shorts (g : Given) (task : Option Task) : List Char → Except Stop Next
  | [] => .ok (g, none)
  | 'v' :: cs => shorts { g with verbosity := g.verbosity + 1 } task cs
  | 'V' :: _ => if task.isNone then .error .version else .error .misuse
  | 'h' :: _ => .error .help
  -- whatever stands behind the letter is its value, so no other letter can follow
  | 'o' :: cs =>
    if task = some .emit then
      match cs with
      | [] => .ok (g, some .output)
      | '=' :: value => g.valued .output (some (String.ofList value))
      | value => g.valued .output (some (String.ofList value))
    else .error .misuse
  | _ => .error .misuse

/-- An argument that is written like an option. -/
def option (g : Given) (task : Option Task) (arg : String) : Except Stop Next :=
  match arg.toList with
  | '-' :: '-' :: cs =>
    -- the value begins behind the first equals sign, and may be empty
    let value := match cs.dropWhile (· != '=') with
      | _ :: value => some (String.ofList value)
      | [] => none
    g.long task (String.ofList (cs.takeWhile (· != '='))) value
  | _ :: cs => g.shorts task cs
  | [] => .error .misuse

/-- Two ways of showing output cannot both be asked for. -/
def check (g : Given) : Except Stop Unit :=
  if g.plain && g.json then .error .misuse else .ok ()

end Given

/-- The arguments before the name of the task, the task, and the arguments after it. `waiting` is
an option that needs its value. -/
def beforeTask (g : Given) (waiting : Option Setting) :
    List String → Except Stop (Given × Task × List String)
  | [] => .error .misuse
  | arg :: args =>
    match waiting with
    | some setting =>
      -- a value that looks like an option is not taken for one
      if isOption arg then .error .misuse
      else do beforeTask (← g.set setting arg) none args
    | none =>
      if arg == "--" then .error .misuse
      else if isOption arg then do
        let (g, waiting) ← g.option none arg
        beforeTask g waiting args
      else if arg == "help" then .error .help
      else
        match Task.ofName? arg with
        | some task => .ok (g, task, args)
        | none => .error .misuse

/-- The arguments after the name of the task. Those after `--` are operands. -/
def afterTask (task : Task) (g : Given) (waiting : Option Setting) (literal : Bool) :
    List String → Except Stop Given
  | [] => if waiting.isSome then .error .misuse else .ok g
  | arg :: args =>
    match waiting with
    | some setting =>
      if isOption arg then .error .misuse
      else do afterTask task (← g.set setting arg) none literal args
    | none =>
      -- behind `--` nothing is an option any more
      if literal then do afterTask task (← g.operand arg) none true args
      else if arg == "--" then afterTask task g none true args
      else if isOption arg then do
        let (g, waiting) ← g.option (some task) arg
        afterTask task g waiting false args
      else do afterTask task (← g.operand arg) none false args

/-- What a run is to do. -/
structure Invocation where
  task : Task
  input : String
  /-- Where the result goes, if not to standard output. -/
  output : Option String
  indentWidth : Option UInt64
  tabWidth : Option UInt64
  verbosity : Nat
  plain : Bool
  json : Bool
  deriving DecidableEq

/-- **The run that some arguments ask for.** -/
def parseArgs (args : List String) : Except Stop Invocation := do
  let (before, task, rest) ← beforeTask .nothing none args
  let after ← afterTask task .nothing none false rest
  match after.input with
  | none => .error .misuse
  | some input =>
    after.check
    before.check
    .ok {
      task := task
      input := input
      output := after.output
      indentWidth := after.indentWidth <|> before.indentWidth
      tabWidth := after.tabWidth <|> before.tabWidth
      -- counts are not added up
      verbosity := if after.verbosity = 0 then before.verbosity else after.verbosity
      plain := before.plain || after.plain
      json := before.json || after.json }

end Offside.Command
