import Offside.Environment

/-!
# Output modes

Output is **plain** text, **rich** text with colours and excerpts for a terminal, or **JSON**.
Variables can force a mode; otherwise output is rich on a terminal unless something speaks against
it.
-/

namespace Offside

/-- How output is formatted. -/
inductive OutputMode where
  | plain
  | rich
  | json
  deriving DecidableEq

namespace OutputMode

/-- The name of a mode. -/
def text : OutputMode → String
  | .plain => "plain"
  | .rich => "rich"
  | .json => "json"

/-- The mode with a given name. -/
def ofText? (s : String) : Option OutputMode :=
  [OutputMode.plain, .rich, .json].find? fun mode => mode.text == s

/-- Whether colours are used. -/
def isRich : OutputMode → Bool
  | .rich => true
  | _ => false

/-- Whether output is data for another program. -/
def isJson : OutputMode → Bool
  | .json => true
  | _ => false

/-- Variables that coding assistants set, which read output rather than look at it. -/
def assistantVariables : List String :=
  ["CLAUDE_CODE", "CODEX_CLI", "CODEX_SESSION", "CURSOR_SESSION", "CURSOR_EDITOR", "AIDER_MODEL",
    "AIDER_REPO", "AGENT_MODE", "AI_AGENT", "GITHUB_COPILOT", "COPILOT_SESSION",
    "CONTINUE_SESSION", "CODY_AGENT", "WINDSURF_SESSION", "GEMINI_CLI"]

/-- Whether a coding assistant runs the program. -/
def assisted (env : Environment) : Bool := assistantVariables.any env.isSet

/-- **The mode that an environment asks for.** The first rule that applies decides. -/
def detect (env : Environment) (terminal : Bool) : OutputMode :=
  -- what is asked for by name
  if env.isOn "PYCPP_PLAIN" then .plain
  else if env.isOn "PYCPP_JSON" then .json
  else if env.isOn "PYCPP_RICH" then .rich
  -- what speaks against colours
  else if env.isSet "NO_COLOR" then .plain
  else if env.isOn "CI" then .plain
  else if env.text? "TERM" == some "dumb" then .plain
  else if assisted env then .plain
  -- nothing does, so the terminal decides
  else if terminal then .rich
  else .plain

end OutputMode

end Offside
