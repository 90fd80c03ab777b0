import Offside.Binary64.Text
import Offside.Span
import Offside.Token.Kind

/-!
# Tokens

A token is a kind, the value it carries if it is a literal or a name, and its position. Tokens can
also be handed in from outside, so the type lets any kind stand beside any value.
-/

namespace Offside

namespace Token

/-- What a literal or a name carries. -/
inductive Value where
  | int (value : Int64)
  | float (value : Binary64)
  | bool (value : Bool)
  | name (text : String)
  deriving DecidableEq

/-- A truth value as the source language writes it. -/
def boolText (b : Bool) : String := if b then "True" else "False"

/-- The value as the source language writes it. -/
def Value.text : Value → String
  | .int n => toString n.toInt
  | .float x => x.text
  | .bool b => boolText b
  | .name s => s

end Token

/-- A lexical unit of the source text. -/
structure Token where
  kind : Token.Kind
  value : Option Token.Value
  span : Span
  deriving DecidableEq

namespace Token

/-- A token that carries no value. -/
def plain (kind : Kind) (span : Span) : Token := ⟨kind, none, span⟩

/-- The name that the token carries, whatever its kind. -/
def name? (t : Token) : Option String :=
  match t.value with
  | some (.name s) => some s
  | _ => none

/-- The kind, and the value in parentheses if there is one. -/
def text (t : Token) : String :=
  match t.value with
  | some v => t.kind.label ++ "(" ++ v.text ++ ")"
  | none => t.kind.label

end Token

end Offside
