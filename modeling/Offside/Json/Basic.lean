import Offside.Binary64.Basic

/-!
# JSON values

The data format in which tokens, trees and symbol tables are exchanged. An integer and a
floating-point number are different values, and the fields of an object keep their order.
-/

namespace Offside

/-- A JSON value. -/
inductive Json where
  | null
  | bool (value : Bool)
  | int (value : Int)
  | float (value : Binary64)
  | str (value : String)
  | arr (items : List Json)
  | obj (fields : List (String × Json))

namespace Json

/-- A natural number as a JSON value. -/
def nat (n : Nat) : Json := .int n

/-- The value that stands for something missing. -/
def ofOption {α : Type} (encode : α → Json) : Option α → Json
  | none => .null
  | some a => encode a

/-- A list as an array. -/
def ofList {α : Type} (encode : α → Json) (items : List α) : Json := .arr (items.map encode)

mutual

/-- The value with the fields of every object in the order of their names. -/
def sortFields : Json → Json
  | .arr items => .arr (sortItems items)
  | .obj fields => .obj ((sortMembers fields).mergeSort fun a b => a.1 ≤ b.1)
  | value => value

/-- Every item with its fields in order. -/
def sortItems : List Json → List Json
  | [] => []
  | item :: items => sortFields item :: sortItems items

/-- Every field with the fields of its value in order. -/
def sortMembers : List (String × Json) → List (String × Json)
  | [] => []
  | (name, value) :: fields => (name, sortFields value) :: sortMembers fields

end

mutual

/-- How deeply the value is nested. -/
def depth : Json → Nat
  | .arr items => depthItems items + 1
  | .obj fields => depthMembers fields + 1
  | _ => 0

/-- How deeply the items are nested. -/
def depthItems : List Json → Nat
  | [] => 0
  | item :: items => max (depth item) (depthItems items)

/-- How deeply the values of the fields are nested. -/
def depthMembers : List (String × Json) → Nat
  | [] => 0
  | (_, value) :: fields => max (depth value) (depthMembers fields)

end

end Json

end Offside
