import Offside.Environment
import Offside.Fault
import Offside.Text.Blank

/-!
# Settings

Two widths can be set: how many spaces the emitted code is indented by for each level, and how far
apart the tab stops of a source text are. Both are between one and sixteen, which is checked when
the settings are complete and not when a width is set.
-/

namespace Offside

/-- Why a text is no width. -/
inductive WidthFault where
  | empty
  | notADigit
  | tooLarge
  deriving DecidableEq

/-- The wording of a fault in a width. -/
def WidthFault.message : WidthFault → String
  | .empty => "cannot parse integer from empty string"
  | .notADigit => "invalid digit found in string"
  | .tooLarge => "number too large to fit in target type"

namespace Width

/-- Digits read from left to right after a value already read. The first character that is no
digit, or that makes the value too large for a 64-bit word, is the fault. -/
def readDigits (value : Nat) : List Char → Except WidthFault Nat
  | [] => .ok value
  | c :: cs =>
    if !c.isDigit then .error .notADigit
    else
      let next := value * 10 + (c.toNat - '0'.toNat)
      -- checked digit by digit, so leading zeros do no harm
      if next < UInt64.size then readDigits next cs else .error .tooLarge

/-- A width: one or more digits, with a plus sign before them or not. -/
def read : List Char → Except WidthFault UInt64
  | [] => .error .empty
  -- a sign alone is not the empty text
  | ['+'] => .error .notADigit
  | '+' :: cs => (readDigits 0 cs).map UInt64.ofNat
  | cs => (readDigits 0 cs).map UInt64.ofNat

end Width

/-- The two widths. -/
structure Settings where
  /-- Spaces for each level of the emitted code. -/
  indentWidth : UInt64
  /-- Columns between two tab stops of the source text. -/
  tabWidth : UInt64
  deriving DecidableEq

namespace Settings

/-- Four spaces, and a tab stop every eight columns. -/
def standard : Settings := ⟨4, 8⟩

/-- The variable for the width of indentation. -/
def indentVariable : String := "PYCPP_INDENT_WIDTH"

/-- The variable for the distance of tab stops. -/
def tabVariable : String := "PYCPP_TAB_WIDTH"

/-- The largest width allowed. -/
def maxWidth : UInt64 := 16

/-- A width has to be between one and the largest. -/
def checkWidth (what : String) (width : UInt64) : Except SettingsError Unit :=
  if 1 ≤ width ∧ width ≤ maxWidth then .ok ()
  else
    .error ⟨what ++ " must be between 1 and " ++ toString maxWidth.toNat ++ ", got "
      ++ toString width.toNat, none⟩

/-- Both widths have to be in range; the first that is not is the error. -/
def validate (s : Settings) : Except SettingsError Unit := do
  checkWidth "indent width" s.indentWidth
  checkWidth "tab width" s.tabWidth

/-- The value of a variable as a width, white space around it apart. -/
def readVariable (key text : String) : Except SettingsError UInt64 :=
  match Width.read (Blank.trim text.toList) with
  | .ok width => .ok width
  | .error fault =>
    .error ⟨key ++ " must be a positive integer, got " ++ Quoted.text text,
      some fault.message⟩

/-- A width from its variable, if that is set to a text. -/
def widthFrom (env : Environment) (key : String) (standard : UInt64) :
    Except SettingsError UInt64 :=
  match env.text? key with
  | none => .ok standard
  | some text => readVariable key text

/-- **The settings of an environment**: the standard ones where a variable is not set. -/
def ofEnvironment (env : Environment) : Except SettingsError Settings := do
  let indentWidth ← widthFrom env indentVariable standard.indentWidth
  let tabWidth ← widthFrom env tabVariable standard.tabWidth
  -- both variables are read before either width is checked
  let s : Settings := ⟨indentWidth, tabWidth⟩
  s.validate
  .ok s

/-- **The settings of a run**: a width given with the command counts before its variable, which is
then not even looked at. -/
def resolve (env : Environment) (indentWidth tabWidth : Option UInt64) :
    Except SettingsError Settings := do
  -- hidden, so that a width that is given makes up for a variable that is no width
  let visible : Environment := fun name =>
    if name == indentVariable && indentWidth.isSome then .unset
    else if name == tabVariable && tabWidth.isSome then .unset
    else env name
  let fromEnv ← ofEnvironment visible
  let s : Settings := ⟨indentWidth.getD fromEnv.indentWidth, tabWidth.getD fromEnv.tabWidth⟩
  s.validate
  .ok s

end Settings

end Offside
