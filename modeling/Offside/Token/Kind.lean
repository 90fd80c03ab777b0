/-!
# Kinds of token

The vocabulary of the source language: words with a meaning of their own, literals and names,
punctuation and operators, and the three kinds that the layout of the lines brings in.

Each kind has a `label`, which messages and listings show, and a `tag`, which data exchange uses;
the two differ for comparisons only.
-/

namespace Offside.Token

/-- What a token is, apart from the value it may carry. -/
inductive Kind where
  | defWord
  | ifWord
  | elifWord
  | elseWord
  | whileWord
  | noneWord
  | intWord
  | floatWord
  | boolWord
  | returnWord
  | printWord
  | andWord
  | orWord
  | notWord
  | intLiteral
  | floatLiteral
  | boolLiteral
  | identifier
  | colon
  | comma
  | arrow
  | leftParen
  | rightParen
  | plus
  | minus
  | star
  | slash
  | percent
  | equal
  | notEqual
  | less
  | lessEqual
  | greater
  | greaterEqual
  | assign
  | newline
  | indent
  | dedent
  deriving DecidableEq

namespace Kind

/-- Every kind, in the order of the vocabulary. -/
def all : List Kind :=
  [.defWord, .ifWord, .elifWord, .elseWord, .whileWord, .noneWord, .intWord, .floatWord,
    .boolWord, .returnWord, .printWord, .andWord, .orWord, .notWord, .intLiteral, .floatLiteral,
    .boolLiteral, .identifier, .colon, .comma, .arrow, .leftParen, .rightParen, .plus, .minus,
    .star, .slash, .percent, .equal, .notEqual, .less, .lessEqual, .greater, .greaterEqual,
    .assign, .newline, .indent, .dedent]

/-- The name that messages and listings show. -/
def label : Kind → String
  | .defWord => "DEF"
  | .ifWord => "IF"
  | .elifWord => "ELIF"
  | .elseWord => "ELSE"
  | .whileWord => "WHILE"
  | .noneWord => "NONE"
  | .intWord => "INT"
  | .floatWord => "FLOAT"
  | .boolWord => "BOOL"
  | .returnWord => "RETURN"
  | .printWord => "PRINT"
  | .andWord => "AND"
  | .orWord => "OR"
  | .notWord => "NOT"
  | .intLiteral => "VALUE_INT"
  | .floatLiteral => "VALUE_FLOAT"
  | .boolLiteral => "VALUE_BOOL"
  | .identifier => "IDENTIFIER"
  | .colon => "COLON"
  | .comma => "COMMA"
  | .arrow => "RETURN_TYPE"
  | .leftParen => "LP"
  | .rightParen => "RP"
  | .plus => "PLUS"
  | .minus => "MINUS"
  | .star => "MULTIPLY"
  | .slash => "DIVIDE"
  | .percent => "MODULO"
  | .equal => "ISEQUAL"
  | .notEqual => "ISNOTEQUAL"
  | .less => "ISLESS"
  | .lessEqual => "ISEQUALLESS"
  | .greater => "ISMORE"
  | .greaterEqual => "ISEQUALMORE"
  | .assign => "EQUALS"
  | .newline => "NEWLINE"
  | .indent => "INDENT"
  | .dedent => "DEDENT"

/-- The name used in data exchange. -/
def tag : Kind → String
  | .equal => "IS_EQUAL"
  | .notEqual => "IS_NOT_EQUAL"
  | .less => "IS_LESS"
  | .lessEqual => "IS_EQUAL_LESS"
  | .greater => "IS_MORE"
  | .greaterEqual => "IS_EQUAL_MORE"
  | kind => kind.label

/-- The kind with a given exchange name. -/
def ofTag? (tag : String) : Option Kind := all.find? fun kind => kind.tag == tag

/-- The words of the language. The two truth values are words too. -/
def words : List (String × Kind) :=
  [("def", .defWord), ("if", .ifWord), ("elif", .elifWord), ("else", .elseWord),
    ("while", .whileWord), ("None", .noneWord), ("int", .intWord), ("float", .floatWord),
    ("bool", .boolWord), ("return", .returnWord), ("print", .printWord), ("and", .andWord),
    ("or", .orWord), ("not", .notWord), ("True", .boolLiteral), ("False", .boolLiteral)]

/-- The kind of a word of the language. Any other word is a name. -/
def ofWord? (word : String) : Option Kind := words.lookup word

/-- Whether tokens of the kind are literals. -/
def isLiteral : Kind → Bool
  | .intLiteral | .floatLiteral | .boolLiteral => true
  | _ => false

/-- Whether tokens of the kind name the type of a variable. -/
def isType : Kind → Bool
  | .intWord | .floatWord | .boolWord => true
  | _ => false

/-- Whether a token of the kind can end an operand. After such a token a minus sign is an
operator and not the sign of a literal. -/
def endsOperand : Kind → Bool
  | .identifier | .rightParen => true
  | kind => kind.isLiteral

/-- Whether tokens of the kind stand for the layout of the lines. -/
def isLayout : Kind → Bool
  | .newline | .indent | .dedent => true
  | _ => false

end Kind

end Offside.Token
