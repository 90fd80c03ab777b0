import Offside.Token.Kind

/-!
# Types and operators

The types that an annotation can name, what a function can return, and the binary operators. Each
has a spelling in the source language and one in C++, and a tag for data exchange.
-/

namespace Offside

/-- The type of a variable or parameter. -/
inductive ValueType where
  | int
  | float
  | bool
  deriving DecidableEq

namespace ValueType

/-- Every type of a variable. -/
def all : List ValueType := [.int, .float, .bool]

/-- The type named by a token of the given kind. -/
def ofKind? : Token.Kind → Option ValueType
  | .intWord => some .int
  | .floatWord => some .float
  | .boolWord => some .bool
  | _ => none

/-- The name of the type, which is the same in the source language, in C++ and in data
exchange. -/
def text : ValueType → String
  | .int => "int"
  | .float => "float"
  | .bool => "bool"

/-- The type with a given name. -/
def ofText? (s : String) : Option ValueType := all.find? fun type => type.text == s

end ValueType

/-- What a function is declared to return: a value of some type, or nothing. -/
inductive ReturnType where
  | value (type : ValueType)
  | nothing
  deriving DecidableEq

namespace ReturnType

/-- The return type named by a token of the given kind. -/
def ofKind? : Token.Kind → Option ReturnType
  | .noneWord => some .nothing
  | kind => (ValueType.ofKind? kind).map .value

/-- The spelling in the source language. -/
def text : ReturnType → String
  | .value type => type.text
  | .nothing => "None"

/-- The spelling in C++. -/
def cpp : ReturnType → String
  | .value type => type.text
  | .nothing => "void"

end ReturnType

/-- The binary operators, arithmetic, logical and comparing alike. -/
inductive BinaryOp where
  | add
  | sub
  | mul
  | div
  | mod
  | and
  | or
  | eq
  | ne
  | lt
  | le
  | gt
  | ge
  deriving DecidableEq

namespace BinaryOp

/-- Every binary operator. -/
def all : List BinaryOp :=
  [.add, .sub, .mul, .div, .mod, .and, .or, .eq, .ne, .lt, .le, .gt, .ge]

/-- The operator that a token of the given kind stands for. -/
def ofKind? : Token.Kind → Option BinaryOp
  | .plus => some .add
  | .minus => some .sub
  | .star => some .mul
  | .slash => some .div
  | .percent => some .mod
  | .andWord => some .and
  | .orWord => some .or
  | .equal => some .eq
  | .notEqual => some .ne
  | .less => some .lt
  | .lessEqual => some .le
  | .greater => some .gt
  | .greaterEqual => some .ge
  | _ => none

/-- The spelling in C++. -/
def cpp : BinaryOp → String
  | .add => "+"
  | .sub => "-"
  | .mul => "*"
  | .div => "/"
  | .mod => "%"
  | .and => "&&"
  | .or => "||"
  | .eq => "=="
  | .ne => "!="
  | .lt => "<"
  | .le => "<="
  | .gt => ">"
  | .ge => ">="

/-- The spelling in the source language. -/
def text : BinaryOp → String
  | .and => "and"
  | .or => "or"
  | op => op.cpp

/-- The name used in data exchange. -/
def tag : BinaryOp → String
  | .add => "add"
  | .sub => "sub"
  | .mul => "mul"
  | .div => "div"
  | .mod => "mod"
  | .and => "and"
  | .or => "or"
  | .eq => "eq"
  | .ne => "ne"
  | .lt => "lt"
  | .le => "le"
  | .gt => "gt"
  | .ge => "ge"

/-- The operator with a given exchange name. -/
def ofTag? (tag : String) : Option BinaryOp := all.find? fun op => op.tag == tag

end BinaryOp

end Offside
