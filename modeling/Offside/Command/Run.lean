import Offside.Command.FileTree
import Offside.Command.Options
import Offside.Diagnostic
import Offside.Source

/-!
# A run

From the arguments to everything a run leaves behind: how it ends, what arrives on its streams, and
the file it writes. A `Host` answers the questions that a run has about its surroundings, and
decides nothing.

The exit code is zero when the result has been delivered, one when the source text is at fault, and
two when something else is. A run breaks down, and has no exit code of its own, when the source text
is a trap and when a standard stream does not take what the run has to say.
-/

namespace Offside.Command

/-- What becomes of bytes that are written to a stream. -/
inductive Delivery where
  /-- All of them arrive. -/
  | whole
  /-- The stream breaks, and no more than these arrive. -/
  | broken (arrived : ByteArray)

/-- The bytes that arrive. -/
def Delivery.arrived (bytes : ByteArray) : Delivery → ByteArray
  | .whole => bytes
  | .broken arrived => arrived

/-- What becomes of bytes that are written to a file. The file is opened first, which empties it. -/
inductive Writing where
  /-- The file holds all of them. -/
  | whole
  /-- The file cannot be opened, and stays what it was. -/
  | refused (refusal : Refusal)
  /-- The file has been opened, and holds no more than these. -/
  | broken (refusal : Refusal) (arrived : ByteArray)

/-- The surroundings of a run. -/
structure Host where
  env : Environment
  /-- Whether standard output is a terminal. -/
  terminal : Bool
  /-- What standard input holds. -/
  stdin : Except Refusal ByteArray
  /-- What the file at a path holds. -/
  read : String → Except Refusal ByteArray
  /-- What becomes of bytes that are written to the file at a path. -/
  write : String → ByteArray → Writing
  /-- What becomes of bytes on standard output. -/
  stdout : ByteArray → Delivery
  /-- What becomes of bytes on standard error. -/
  stderr : ByteArray → Delivery

/-- How a run ends. -/
inductive Ending where
  | exit (code : Nat)
  | breakdown
  deriving DecidableEq

/-- What a run leaves behind. -/
structure Outcome where
  ending : Ending
  /-- What has arrived on standard output. -/
  stdout : ByteArray
  /-- What has arrived on standard error. -/
  stderr : ByteArray
  /-- The path of the file written, and what it holds. -/
  written : Option (String × ByteArray)

/-- The name and the version of the program. -/
def versionText : String := "pycpp 0.1.0"

/-- How the program is called. -/
def usageText : String :=
  String.join
    ["Usage: pycpp [OPTIONS] <COMMAND>\n\n",
      "Commands:\n",
      "  tokens <INPUT>              Print the token stream of a source file\n",
      "  ast <INPUT>                 Print the symbol table and syntax tree of a source file\n",
      "  emit <INPUT> [-o <OUTPUT>]  Compile a source file to C++\n\n",
      "Options:\n",
      "      --indent-width <N>      Spaces per nesting level in the emitted C++\n",
      "      --tab-width <N>         Columns a tab advances to in the source\n",
      "  -v, --verbose               Raise log verbosity\n",
      "      --plain                 Plain output, no colour\n",
      "      --json                  JSON output\n",
      "  -h, --help                  Print help\n",
      "  -V, --version               Print version\n"]

namespace Host

/-- End with a result on standard output. -/
def print (host : Host) (result : String) : Outcome :=
  match host.stdout result.toUTF8 with
  | .whole => ⟨.exit 0, result.toUTF8, .empty, none⟩
  | .broken arrived => ⟨.breakdown, arrived, .empty, none⟩

/-- End with a report on standard error. -/
def report (host : Host) (code : Nat) (report : String) : Outcome :=
  match host.stderr report.toUTF8 with
  | .whole => ⟨.exit code, .empty, report.toUTF8, none⟩
  | .broken arrived => ⟨.breakdown, .empty, arrived, none⟩

/-- End for a reason outside the source text. -/
def fail (host : Host) (reason : String) : Outcome := host.report 2 ("Error: " ++ reason ++ "\n")

end Host

/-- What a run without a task leaves behind. It ends in the same way whatever its streams take. -/
def Stop.outcome (host : Host) : Stop → Outcome
  | .version => onOutput (versionText ++ "\n")
  | .help => onOutput usageText
  | .misuse =>
    let report := ("error: the arguments cannot be used\n\n" ++ usageText).toUTF8
    ⟨.exit 2, .empty, (host.stderr report).arrived report, none⟩
where
  onOutput (text : String) : Outcome :=
    ⟨.exit 0, (host.stdout text.toUTF8).arrived text.toUTF8, .empty, none⟩

/-- The bytes as text. -/
def decode (bytes : ByteArray) : Except String String :=
  match String.fromUTF8? bytes with
  | some text => .ok text
  | none => .error "stream did not contain valid UTF-8"

/-- Read what was asked for, or say why that failed. -/
def Host.source (host : Host) (input : String) : Except String String :=
  let (name, bytes) := if input == "-" then ("stdin", host.stdin) else (input, host.read input)
  ((bytes.mapError Refusal.text).bind decode).mapError fun reason =>
    "reading " ++ name ++ ": " ++ reason

namespace Invocation

/-- The output mode: an option counts before the environment. -/
def mode (i : Invocation) (host : Host) : OutputMode :=
  if i.plain then .plain
  else if i.json then .json
  else OutputMode.detect host.env host.terminal

/-- The result of the task on a source text. What is shown ends with a line break. -/
def result (i : Invocation) (settings : Settings) (mode : OutputMode) (text : String) :
    Except (Halt Fault) String :=
  match i.task with
  | .tokens => (Source.listing settings mode text).map (· ++ "\n")
  | .tree => (Source.tree settings mode text).map (· ++ "\n")
  | .emit => Source.compile settings text

/-- Deliver a result: to the file asked for, or to standard output. A file that has been opened is
no longer what it was, even if the writing fails then. -/
def deliver (i : Invocation) (host : Host) (result : String) : Outcome :=
  match i.output with
  | none => host.print result
  | some path =>
    -- the same report, whether the file was opened or not
    let failure (refusal : Refusal) := host.fail ("writing " ++ path ++ ": " ++ refusal.text)
    match host.write path result.toUTF8 with
    | .whole => ⟨.exit 0, .empty, .empty, some (path, result.toUTF8)⟩
    | .refused refusal => failure refusal
    | .broken refusal arrived => { failure refusal with written := some (path, arrived) }

/-- A fault with what lies behind it. -/
def chain (f : Fault) : String :=
  match f.cause? with
  | some cause => f.message ++ ": " ++ cause
  | none => f.message

/-- Report a fault: one of the source text with a diagnostic, any other as a failure. -/
def report (i : Invocation) (host : Host) (text : String) (f : Fault) : Outcome :=
  if f.isOfSource then
    let d := ((Diagnostic.ofFault f).withSource text).withPath i.input
    host.report 1 (d.render (i.mode host) ++ "\n")
  else host.fail (chain f)

/-- **Run the task.** The settings are looked at first, then the text is read. -/
def run (i : Invocation) (host : Host) : Outcome :=
  match Settings.resolve host.env i.indentWidth i.tabWidth with
  | .error e => host.fail (chain (.settings e))
  | .ok settings =>
    match host.source i.input with
    | .error reason => host.fail reason
    | .ok text =>
      match i.result settings (i.mode host) text with
      | .error (.fault f) => i.report host text f
      -- nothing has been said or written by then
      | .error (.trap _) => ⟨.breakdown, .empty, .empty, none⟩
      | .ok result => i.deliver host result

end Invocation

/-- **Run with some arguments.** -/
def run (args : List String) (host : Host) : Outcome :=
  match parseArgs args with
  | .error stop => stop.outcome host
  | .ok i => i.run host

end Offside.Command
