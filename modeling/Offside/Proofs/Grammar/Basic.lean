import Offside.Parser.Statement

/-!
# The grammar of token sequences

Which token sequences are programs, and of which tree. The rules are stated without any reader in
view, and nothing in them says how far a repetition goes or which alternative is tried first.

What stands on one line is derived from exactly its own tokens: `Expression`, `Printed`, `Listed`,
`Simple`. Where a statement or a block ends depends on what comes after it, so the rules from
`Ended` on relate the tokens at hand to the tokens that are left.

Spans are part of the derived tree. A statement, a call and a function stand where their first token
does, and a branch where its `if` or `elif` does.

The rules take the relation between the token at the front of a statement and the name it gives as a
parameter. `Names` is the ordinary relation. `Leads` differs from it on tokens that lack their name
only, and there it gives the empty name.
-/

namespace Offside

/-- The kind of the token that an operand is written as. -/
def Operand.kind : Operand → Token.Kind
  | .name _ => .identifier
  | .literal (.int _) => .intLiteral
  | .literal (.float _) => .floatLiteral
  | .literal (.bool _) => .boolLiteral

/-- The value of the token that an operand is written as. -/
def Operand.value : Operand → Token.Value
  | .name s => .name s
  | .literal (.int v) => .int v
  | .literal (.float v) => .float v
  | .literal (.bool v) => .bool v

/-- Identifiers carry a name and literals a value of their own type. -/
structure Token.Carries (t : Token) : Prop where
  identifier : t.kind = .identifier → ∃ s, t.value = some (.name s)
  intLiteral : t.kind = .intLiteral → ∃ v, t.value = some (.int v)
  floatLiteral : t.kind = .floatLiteral → ∃ v, t.value = some (.float v)
  boolLiteral : t.kind = .boolLiteral → ∃ v, t.value = some (.bool v)

namespace Grammar

/-! ### Tokens -/

/-- The token is an identifier with the given name. -/
def Names (t : Token) (name : String) : Prop :=
  t.kind = .identifier ∧ t.value = some (.name name)

/-- The token is an identifier with the given name, the empty one if it lacks a name. -/
def Leads (t : Token) (name : String) : Prop :=
  t.kind = .identifier ∧ t.name?.getD "" = name

/-- The token is the operand. -/
def Spells (t : Token) (x : Operand) : Prop :=
  t.kind = x.kind ∧ t.value = some x.value

/-! ### Lists in parentheses -/

/-- One or more items with commas between them. -/
inductive Separated {α : Type} (item : List Token → α → Prop) : List Token → List α → Prop
  | one {ts : List Token} {x : α} : item ts x → Separated item ts [x]
  | more {ts us : List Token} {c : Token} {x : α} {xs : List α} :
    item ts x → c.kind = .comma → Separated item us xs →
      Separated item (ts ++ c :: us) (x :: xs)

/-- Items with commas between them, or none, and the closing parenthesis. -/
inductive Listed {α : Type} (item : List Token → α → Prop) : List Token → List α → Prop
  | none {r : Token} : r.kind = .rightParen → Listed item [r] []
  | some {ts : List Token} {r : Token} {xs : List α} :
    Separated item ts xs → r.kind = .rightParen → Listed item (ts ++ [r]) xs

/-- An argument of a call. -/
inductive Argument : List Token → Operand → Prop
  | mk {t : Token} {x : Operand} : Spells t x → Argument [t] x

/-- A parameter of a function: a name, a colon and a type. -/
inductive Parameter : List Token → Param → Prop
  | mk {n c t : Token} {name : String} {type : ValueType} :
    Names n name → c.kind = .colon → ValueType.ofKind? t.kind = some type →
      Parameter [n, c, t] ⟨name, type⟩

/-! ### Expressions -/

/-- Any number of operators, each with an operand after it. -/
inductive Operations : List Token → List (BinaryOp × Operand) → Prop
  | nil : Operations [] []
  | cons {o t : Token} {ts : List Token} {op : BinaryOp} {x : Operand}
      {rest : List (BinaryOp × Operand)} :
    BinaryOp.ofKind? o.kind = some op → Spells t x → Operations ts rest →
      Operations (o :: t :: ts) ((op, x) :: rest)

/-- **An expression**: a call, or operands joined by operators with a negation before them or
not. -/
inductive Expression : List Token → Expr → Prop
  | call {n l : Token} {ts : List Token} {name : String} {args : List Operand} :
    Names n name → l.kind = .leftParen → Listed Argument ts args →
      Expression (n :: l :: ts) (.call ⟨name, args, n.span⟩)
  | plain {t : Token} {ts : List Token} {x : Operand} {rest : List (BinaryOp × Operand)} :
    Spells t x → Operations ts rest → Expression (t :: ts) (.operation ⟨false, x, rest⟩)
  | negated {n t : Token} {ts : List Token} {x : Operand} {rest : List (BinaryOp × Operand)} :
    n.kind = .notWord → Spells t x → Operations ts rest →
      Expression (n :: t :: ts) (.operation ⟨true, x, rest⟩)

/-- The values of a print statement and the closing parenthesis. A comma may stand before the
parenthesis if there is a value. -/
inductive Printed : List Token → List Expr → Prop
  | none {r : Token} : r.kind = .rightParen → Printed [r] []
  | some {ts : List Token} {r : Token} {es : List Expr} :
    Separated Expression ts es → r.kind = .rightParen → Printed (ts ++ [r]) es
  | trailing {ts : List Token} {c r : Token} {es : List Expr} :
    Separated Expression ts es → c.kind = .comma → r.kind = .rightParen →
      Printed (ts ++ [c, r]) es

/-! ### Statements -/

section Statements

variable (lead : Token → String → Prop)

/-- **A statement on one line**, without the end of the line. -/
inductive Simple : List Token → Stmt → Prop
  | declaration {n c t : Token} {name : String} {type : ValueType} :
    lead n name → c.kind = .colon → ValueType.ofKind? t.kind = some type →
      Simple [n, c, t] (.declare name type n.span)
  | annotated {n c t a : Token} {ts : List Token} {name : String} {type : ValueType} {e : Expr} :
    lead n name → c.kind = .colon → ValueType.ofKind? t.kind = some type → a.kind = .assign →
      Expression ts e → Simple (n :: c :: t :: a :: ts) (.assign name (some type) e n.span)
  | assignment {n a : Token} {ts : List Token} {name : String} {e : Expr} :
    lead n name → a.kind = .assign → Expression ts e →
      Simple (n :: a :: ts) (.assign name none e n.span)
  | call {n l : Token} {ts : List Token} {name : String} {args : List Operand} :
    lead n name → l.kind = .leftParen → Listed Argument ts args →
      Simple (n :: l :: ts) (.call ⟨name, args, n.span⟩)
  | returnNothing {r : Token} : r.kind = .returnWord → Simple [r] (.giveBack none r.span)
  | returnValue {r : Token} {ts : List Token} {e : Expr} :
    r.kind = .returnWord → Expression ts e → Simple (r :: ts) (.giveBack (some e) r.span)
  | print {p l : Token} {ts : List Token} {es : List Expr} :
    p.kind = .printWord → l.kind = .leftParen → Printed ts es →
      Simple (p :: l :: ts) (.print es p.span)

/-- **The end of a statement on one line**: a line break, which belongs to it; the end of a block,
which does not; or the end of the tokens. -/
inductive Ended : List Token → List Token → Prop
  | newline {t : Token} {rest : List Token} : t.kind = .newline → Ended (t :: rest) rest
  | dedent {t : Token} {rest : List Token} : t.kind = .dedent → Ended (t :: rest) (t :: rest)
  | endOfTokens : Ended [] []

mutual

/-- **A statement.** -/
inductive Statement : List Token → Stmt → List Token → Prop
  | simple {ts us rest : List Token} {s : Stmt} :
    Simple lead ts s → Ended us rest → Statement (ts ++ us) s rest
  | loop {w c : Token} {es ts rest : List Token} {e : Expr} {body : List Stmt} :
    w.kind = .whileWord → Expression es e → c.kind = .colon → Block ts body rest →
      Statement (w :: (es ++ c :: ts)) (.loop e body w.span) rest
  | choose {i : Token} {ts mid rest : List Token} {bs : List Branch}
      {last : Option (List Stmt)} :
    i.kind = .ifWord → Branches i.span ts bs mid → Otherwise mid last rest →
      Statement (i :: ts) (.choose bs last i.span) rest

/-- The branches of a conditional after its first word, which stands at the given place. -/
inductive Branches : Span → List Token → List Branch → List Token → Prop
  | one {span : Span} {c : Token} {es ts rest : List Token} {e : Expr} {body : List Stmt} :
    Expression es e → c.kind = .colon → Block ts body rest →
      Branches span (es ++ c :: ts) [.mk e body span] rest
  | more {span : Span} {c i : Token} {es ts us rest : List Token} {e : Expr} {body : List Stmt}
      {bs : List Branch} :
    Expression es e → c.kind = .colon → Block ts body (i :: us) → i.kind = .elifWord →
      Branches i.span us bs rest → Branches span (es ++ c :: ts) (.mk e body span :: bs) rest

/-- The last block of a conditional, or nothing. -/
inductive Otherwise : List Token → Option (List Stmt) → List Token → Prop
  | none {rest : List Token} : Otherwise rest none rest
  | some {w c : Token} {ts rest : List Token} {body : List Stmt} :
    w.kind = .elseWord → c.kind = .colon → Block ts body rest →
      Otherwise (w :: c :: ts) (some body) rest

/-- A block: a step in, and statements up to a step out or the end of the tokens. -/
inductive Block : List Token → List Stmt → List Token → Prop
  | mk {i : Token} {ts rest : List Token} {body : List Stmt} :
    i.kind = .indent → Items ts body rest → Block (i :: ts) body rest

/-- Statements and line breaks up to the end of their block. -/
inductive Items : List Token → List Stmt → List Token → Prop
  | endOfTokens : Items [] [] []
  | dedent {d : Token} {rest : List Token} : d.kind = .dedent → Items (d :: rest) [] rest
  | newline {n : Token} {ts rest : List Token} {ss : List Stmt} :
    n.kind = .newline → Items ts ss rest → Items (n :: ts) ss rest
  | statement {ts mid rest : List Token} {s : Stmt} {ss : List Stmt} :
    Statement ts s mid → Items mid ss rest → Items ts (s :: ss) rest

end

/-! ### Modules -/

/-- **A function definition.** -/
inductive FunctionDef : List Token → Function → List Token → Prop
  | mk {d n l a r c : Token} {ps ts rest : List Token} {name : String} {params : List Param}
      {type : ReturnType} {body : List Stmt} :
    d.kind = .defWord → Names n name → l.kind = .leftParen → Listed Parameter ps params →
      a.kind = .arrow → ReturnType.ofKind? r.kind = some type → c.kind = .colon →
      Block lead ts body rest →
      FunctionDef (d :: n :: l :: (ps ++ a :: r :: c :: ts)) ⟨name, params, type, body, d.span⟩
        rest

/-- What a module is made of. -/
inductive Item where
  | function (f : Function)
  | statement (s : Stmt)

/-- **A whole token sequence**: functions, statements and line breaks in any order. -/
inductive Module : List Token → List Item → Prop
  | nil : Module [] []
  | newline {n : Token} {ts : List Token} {is : List Item} :
    n.kind = .newline → Module ts is → Module (n :: ts) is
  | function {ts mid : List Token} {f : Function} {is : List Item} :
    FunctionDef lead ts f mid → Module mid is → Module ts (.function f :: is)
  | statement {ts mid : List Token} {s : Stmt} {is : List Item} :
    Statement lead ts s mid → Module mid is → Module ts (.statement s :: is)

end Statements

/-- The program with the given parts: the functions and the other statements, each in order. -/
def Item.program : List Item → Program
  | [] => .empty
  | .function f :: is => { program is with functions := f :: (program is).functions }
  | .statement s :: is => { program is with body := s :: (program is).body }

end Grammar

/-! ### Annotations -/

mutual

/-- The variables that a statement declares, in order, those of its blocks included. -/
def Stmt.annotations : Stmt → List Symbol
  | .assign target (some type) _ span => [⟨target, type, span⟩]
  | .assign _ none _ _ => []
  | .declare name type span => [⟨name, type, span⟩]
  | .giveBack _ _ => []
  | .loop _ body _ => Stmt.annotationsOfBlock body
  | .choose bs none _ => Stmt.annotationsOfBranches bs
  | .choose bs (some body) _ => Stmt.annotationsOfBranches bs ++ Stmt.annotationsOfBlock body
  | .print _ _ => []
  | .call _ => []

/-- The variables that a block declares, in order. -/
def Stmt.annotationsOfBlock : List Stmt → List Symbol
  | [] => []
  | s :: ss => s.annotations ++ Stmt.annotationsOfBlock ss

/-- The variables that the blocks of some branches declare, in order. -/
def Stmt.annotationsOfBranches : List Branch → List Symbol
  | [] => []
  | .mk _ body _ :: bs => Stmt.annotationsOfBlock body ++ Stmt.annotationsOfBranches bs

end

/-- The variables that a part of a module declares, each with its scope: the function it stands in,
or the module. -/
def Grammar.Item.annotations : Item → List (String × Symbol)
  | .function f => (Stmt.annotationsOfBlock f.body).map (f.name, ·)
  | .statement s => s.annotations.map (SymbolTable.moduleName, ·)

end Offside
