import Offside.Json.Basic

/-!
# Taking JSON values apart

Decoders for the exchanged structures are put together from the ones here.

* A **record** is an object; fields it does not know are ignored. It may also be written as the
  array of its fields in order, and then no field may be missing.
* A **variant** is an object with one field, whose name tells the case. A case without contents
  may be written as its name alone, or with the contents `null`.

Some values have one more way to be written inside a statement; a `Site` tells where a value stands.
-/

namespace Offside.Json

/-- Where a value stands: outside of all statements, or inside of one. -/
inductive Site where
  | outer
  | inner
  deriving DecidableEq

/-- The value of a Boolean. -/
def bool? : Json → Option Bool
  | .bool b => some b
  | _ => none

/-- The value of a string. -/
def str? : Json → Option String
  | .str s => some s
  | _ => none

/-- The value of an integer that fits an unsigned 64-bit word. -/
def nat? : Json → Option Nat
  | .int n => if 0 ≤ n ∧ n < UInt64.size then some n.toNat else none
  | _ => none

/-- The value of an integer that fits a signed 64-bit word. -/
def int64? : Json → Option Int64
  | .int n =>
    if Int64.minValue.toInt ≤ n ∧ n ≤ Int64.maxValue.toInt then some (Int64.ofInt n) else none
  | _ => none

/-- The value of any number as a floating-point one. -/
def float? : Json → Option Binary64
  | .int n => some (Binary64.ofInt n)
  | .float x => some x
  | _ => none

/-- The items of an array. -/
def items? : Json → Option (List Json)
  | .arr items => some items
  | _ => none

/-- Decode every item of an array. -/
def list? {α : Type} (decode : Json → Option α) (value : Json) : Option (List α) := do
  (← value.items?).mapM decode

/-- Decode a value that may be `null`. -/
def option? {α : Type} (decode : Json → Option α) : Json → Option (Option α)
  | .null => some none
  | value => (decode value).map some

/-- The fields of a record, in the order of the given names. -/
def record? (names : List String) : Json → Option (List (Option Json))
  | .obj fields => some (names.map fun name => fields.lookup name)
  -- without names there is no telling which field is missing
  | .arr items => if items.length = names.length then some (items.map some) else none
  | _ => none

/-- A field that must be there. -/
def need? {α : Type} (decode : Json → Option α) (field : Option Json) : Option α :=
  field.bind decode

/-- A field that is the same when missing and when `null`. -/
def may? {α : Type} (decode : Json → Option α) : Option Json → Option (Option α)
  | none => some none
  | some value => option? decode value

/-- The name of a variant and its contents, if it has any. -/
def variant? : Json → Option (String × Option Json)
  | .str name => some (name, none)
  | .obj [(name, contents)] => some (name, some contents)
  | _ => none

/-- Whether a value can be the contents of a case that has none. Inside a statement an empty object
can too. -/
def isNoContents (site : Site) : Json → Bool
  | .null => true
  | .obj [] => site = .inner
  | _ => false

/-- The name of a variant that is a case without contents. -/
def plainVariant? (site : Site) (value : Json) : Option String :=
  match variant? value with
  | some (name, none) => some name
  | some (name, some contents) => if contents.isNoContents site then some name else none
  | none => none

end Offside.Json
