import Offside.Command.Run

/-!
# The program

Asks the system what a run needs to know, and does what the run says.
-/

namespace Offside.Main

/-- A refusal with its number, which some calls give negated. -/
def refusal (code : UInt32) (details : String) : Refusal :=
  ⟨details, code.toInt32.toInt.natAbs⟩

/-- The reason that the system gives. -/
def refusalOf : IO.Error → Refusal
  | .noFileOrDirectory _ _ _ => .notFound
  | .alreadyExists _ code details => refusal code details
  | .otherError code details => refusal code details
  | .resourceBusy code details => refusal code details
  | .resourceVanished code details => refusal code details
  | .unsupportedOperation code details => refusal code details
  | .hardwareFault code details => refusal code details
  | .unsatisfiedConstraints code details => refusal code details
  | .illegalOperation code details => refusal code details
  | .protocolError code details => refusal code details
  | .timeExpired code details => refusal code details
  | .interrupted _ code details => refusal code details
  | .invalidArgument _ code details => refusal code details
  | .permissionDenied _ code details => refusal code details
  | .resourceExhausted _ code details => refusal code details
  | .inappropriateType _ code details => refusal code details
  | .noSuchThing _ code details => refusal code details
  | .unexpectedEof => ⟨"unexpected end of file", 0⟩
  | .userError details => ⟨details, 0⟩

/-- The variables that a run looks at. -/
def variableNames : List String :=
  [Settings.indentVariable, Settings.tabVariable, "PYCPP_PLAIN", "PYCPP_JSON", "PYCPP_RICH",
    "NO_COLOR", "CI", "TERM"] ++ OutputMode.assistantVariables

/-- The environment as it is now. The system gives its variables as texts. -/
def environment : IO Environment := do
  let mut values := []
  for name in variableNames do
    if let some value ← IO.getEnv name then
      values := (name, value) :: values
  return Environment.ofList values

/-- Do something, or say why the system refuses. -/
def attempt {α : Type} (action : IO α) : IO (Except Refusal α) := do
  try
    return .ok (← action)
  catch e => return .error (refusalOf e)

/-- Standard input up to its end. -/
def readStdin : IO ByteArray := do (← IO.getStdin).readBinToEnd

/-- The surroundings of a run before it has any effect. Only the input that the run asks for is
read. -/
def host (i : Command.Invocation) : IO Command.Host := do
  let unread : Except Refusal ByteArray := .ok .empty
  let onStdin := i.input == "-"
  let stdin ← if onStdin then attempt readStdin else pure unread
  let file ← if onStdin then pure unread else attempt (IO.FS.readBinFile i.input)
  return {
    env := ← environment
    terminal := ← (← IO.getStdout).isTty
    stdin := stdin
    read := fun _ => file
    write := fun _ _ => .whole
    stdout := fun _ => .whole
    stderr := fun _ => .whole }

/-- The surroundings of a run without a task. -/
def silentHost : Command.Host where
  env _ := .unset
  terminal := false
  stdin := .ok .empty
  read _ := .ok .empty
  write _ _ := .whole
  stdout _ := .whole
  stderr _ := .whole

/-- Write some bytes to a stream, and tell whether it takes them. -/
def put (stream : IO.FS.Stream) (bytes : ByteArray) : IO Bool := do
  match ← attempt (do stream.write bytes; stream.flush) with
  | .ok () => return true
  | .error _ => return false

/-- The code of a run that breaks down. -/
def breakdownCode : UInt32 := 101

/-- Say what a run has to say. If a stream does not take it, the run breaks down. -/
def say (o : Command.Outcome) : IO UInt32 := do
  let taken ← put (← IO.getStdout) o.stdout
  let taken' ← put (← IO.getStderr) o.stderr
  match o.ending with
  | .exit code => return if taken && taken' then UInt32.ofNat code else breakdownCode
  | .breakdown => return breakdownCode

/-- A run for its task. If its file cannot be written, the run is what it is where that file is
refused. -/
def perform (i : Command.Invocation) : IO UInt32 := do
  let host ← host i
  let outcome := i.run host
  match outcome.written with
  | none => say outcome
  | some (path, contents) =>
    match ← attempt (IO.FS.writeBinFile path contents) with
    | .ok () => say outcome
    | .error refusal => say (i.run { host with write := fun _ _ => .refused refusal })

end Offside.Main

/-- The program. -/
def main (args : List String) : IO UInt32 := do
  match Offside.Command.parseArgs args with
  | .error stop => Offside.Main.say (stop.outcome Offside.Main.silentHost)
  | .ok i => Offside.Main.perform i
