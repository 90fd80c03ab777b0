/-!
# Environment variables

An environment is what a look-up of a variable gives. Look-ups decide how output is formatted and
which widths are used. The system lets a variable be set to bytes that are no text; all rules here
go by texts, and take such a variable for one that is not set.
-/

namespace Offside

/-- What a look-up of a variable gives. -/
inductive Variable where
  | unset
  | text (value : String)
  /-- It is set, but not to a text. -/
  | undecodable
  deriving DecidableEq

/-- The text that a variable is set to. -/
def Variable.text? : Variable → Option String
  | .text value => some value
  | .unset | .undecodable => none

/-- What a look-up gives for each name. -/
abbrev Environment := String → Variable

namespace Environment

/-- The environment with the given variables set, each to a text. -/
def ofList (values : List (String × String)) : Environment := fun name =>
  match values.lookup name with
  | some value => .text value
  | none => .unset

/-- The text that a variable is set to. -/
def text? (env : Environment) (name : String) : Option String := (env name).text?

/-- Whether a variable is set to a text, whatever it is. -/
def isSet (env : Environment) (name : String) : Bool := (env.text? name).isSome

/-- The texts that switch something on, in any mixture of upper and lower case. Each is made of
ASCII characters to which no other character has its lower case, so ASCII case is enough. -/
def affirmative : List String := ["1", "true", "yes", "on"]

/-- Whether a text switches something on. -/
def affirms (text : String) : Bool :=
  affirmative.contains (String.ofList (text.toList.map Char.toLower))

/-- Whether a variable is set to something that switches on. -/
def isOn (env : Environment) (name : String) : Bool := (env.text? name).any affirms

end Environment

end Offside
