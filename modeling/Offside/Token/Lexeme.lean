import Offside.Token.Basic

/-!
# One lexeme

What stands at the front of the characters of a line: a number, a word, or an operator, in this
order of preference. A number takes all digits there are, a word all letters, digits and
underscores, and an operator two characters where two make one.

* `Numeral.read` — a number at the front, with its sign if a sign may stand there;
* `Lexeme.read` — the token at the front, together with the characters it is made of.
-/

namespace Offside.Token

/-- A number as it is written. -/
structure Numeral where
  negative : Bool
  whole : List Char
  /-- The digits after the point. Without a point there are none. -/
  fraction : List Char

namespace Numeral

/-- The characters of the number. -/
def chars (n : Numeral) : List Char :=
  (if n.negative then ['-'] else []) ++ n.whole
    ++ (if n.fraction.isEmpty then [] else '.' :: n.fraction)

/-- The number without its sign at the front: all digits, and a point if a digit follows it. -/
def readUnsigned (negative : Bool) (cs : List Char) : Option Numeral :=
  let whole := cs.takeWhile Char.isDigit
  if whole.isEmpty then none
  else
    match cs.dropWhile Char.isDigit with
    -- without a digit behind it the point is not part of the number, as `chars` then leaves it out
    | '.' :: rest => some ⟨negative, whole, rest.takeWhile Char.isDigit⟩
    | _ => some ⟨negative, whole, []⟩

/-- The number at the front, if there is one. A minus sign belongs to it only if `signed`. -/
def read (signed : Bool) : List Char → Option Numeral
  | '-' :: rest => if signed then readUnsigned true rest else none
  | cs => readUnsigned false cs

/-- The value of a number without a point, if it is in the range of 64-bit integers. -/
def int? (n : Numeral) : Option Int64 :=
  let magnitude : Int := Nat.ofDigitChars 10 n.whole 0
  -- the sign first: the least integer has no positive counterpart in range
  let value := if n.negative then -magnitude else magnitude
  if Int64.minValue.toInt ≤ value ∧ value ≤ Int64.maxValue.toInt then some (Int64.ofInt value)
  else none

/-- The value of a number with a point, if it is in the range of finite numbers. -/
def float? (n : Numeral) : Option Binary64 :=
  let value := Binary64.ofDecimal n.negative
    (Nat.ofDigitChars 10 (n.whole ++ n.fraction) 0) (-(n.fraction.length : Int))
  if value.isFinite then some value else none

/-- Kind and value of the number, if it is in range. -/
def value? (n : Numeral) : Option (Kind × Value) :=
  if n.fraction.isEmpty then n.int?.map fun v => (.intLiteral, .int v)
  else n.float?.map fun v => (.floatLiteral, .float v)

end Numeral

/-- Whether a character can begin a word. -/
def isWordStart (c : Char) : Bool := c.isAlpha || c == '_'

/-- Whether a character can continue a word. -/
def isWordPart (c : Char) : Bool := c.isAlphanum || c == '_'

/-- Kind and value of a word: a word of the language, a truth value, or else a name. -/
def ofWord (word : String) : Kind × Option Value :=
  match Kind.ofWord? word with
  | some .boolLiteral => (.boolLiteral, some (.bool (word == "True")))
  | some kind => (kind, none)
  | none => (.identifier, some (.name word))

/-- The operators and punctuation marks. One that begins another comes after it. -/
def operators : List (List Char × Kind) :=
  [(['-', '>'], .arrow), (['=', '='], .equal), (['!', '='], .notEqual), (['<', '='], .lessEqual),
    (['>', '='], .greaterEqual), (['<'], .less), (['>'], .greater), (['='], .assign),
    (['+'], .plus), (['-'], .minus), (['*'], .star), (['/'], .slash), (['%'], .percent),
    (['('], .leftParen), ([')'], .rightParen), ([':'], .colon), ([','], .comma)]

/-- The operator at the front. -/
def operator? (cs : List Char) : Option (List Char × Kind) :=
  operators.find? fun op => op.1.isPrefixOf cs

/-- What stands at the front of some characters. -/
inductive Lexeme where
  /-- A token, made of the given characters. -/
  | token (chars : List Char) (kind : Kind) (value : Option Value)
  /-- A number, made of the given characters, that is out of range. -/
  | outOfRange (chars : List Char)
  /-- No token begins here. -/
  | unexpected

/-- The lexeme at the front of some characters. -/
def Lexeme.read (signed : Bool) (cs : List Char) : Lexeme :=
  match Numeral.read signed cs with
  | some numeral =>
    match numeral.value? with
    | some (kind, value) => .token numeral.chars kind (some value)
    | none => .outOfRange numeral.chars
  | none =>
    -- no number begins here
    let word := if cs.head?.any isWordStart then cs.takeWhile isWordPart else []
    if word.isEmpty then
      match operator? cs with
      | some (chars, kind) => .token chars kind none
      | none => .unexpected
    else
      let (kind, value) := ofWord (String.ofList word)
      .token word kind value

end Offside.Token
