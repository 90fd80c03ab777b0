import Offside.Proofs.Placement.Parsing
import Offside.Source

/-!
# Texts whose tokens are at other positions

Emitted code shows no positions. So if the tokens of one text are those of another at other
positions, the two texts compile to the same code, or both fail with one error at two positions
(`Source.compileTokens_moved`).

* `Cpp.emit_moved` — the code of a tree at other positions;
* `Fault.moved`, `movedTokens` — faults, and what the lexer comes to, at other positions;
* `Source.compileTokens` — compiling, from the tokens on.
-/

namespace Offside

/-! ### Emitted code -/

namespace Cpp

variable (g : Span → Span)

theorem expression_moved (e : Expr) : expression (e.moved g) = expression e := by
  cases e <;> rfl

theorem printText_moved (args : List Expr) :
    printText (args.map (Expr.moved g)) = printText args := by
  have hargs : ∀ e : Expr, expression (e.moved g) ++ " << " = expression e ++ " << " := fun e => by
    rw [expression_moved]
  rw [printText, printText, List.map_map]
  simp only [Function.comp_def, hargs]

mutual

theorem statement_moved (depth : Nat) : ∀ s : Stmt, statement depth (s.moved g) = statement depth s
  | .assign _ _ value _ => by rw [Stmt.moved, statement, statement, expression_moved]
  | .declare _ _ _ => rfl
  | .giveBack none _ => rfl
  | .giveBack (some value) _ => by
    rw [Stmt.moved, Option.map_some, statement, statement, expression_moved]
  | .loop condition body _ => by
    rw [Stmt.moved, statement, statement, expression_moved, block_moved (depth + 1) body]
  | .choose bs none _ => by rw [Stmt.moved, statement, statement, branches_moved depth "if" bs]
  | .choose bs (some body) _ => by
    rw [Stmt.moved, statement, statement, branches_moved depth "if" bs,
      block_moved (depth + 1) body]
  | .print args _ => by rw [Stmt.moved, statement, statement, printText_moved]
  | .call _ => rfl

theorem block_moved (depth : Nat) : ∀ ss : List Stmt,
    block depth (Stmt.movedBlock g ss) = block depth ss
  | [] => rfl
  | s :: ss => by rw [Stmt.movedBlock, block, block, statement_moved depth s, block_moved depth ss]

theorem branches_moved (depth : Nat) (word : String) : ∀ bs : List Branch,
    branches depth word (Stmt.movedBranches g bs) = branches depth word bs
  | [] => rfl
  | .mk condition body _ :: bs => by
    rw [Stmt.movedBranches, branches, branches, expression_moved, block_moved (depth + 1) body,
      branches_moved depth "else if" bs]

end

theorem declarations_moved (table : SymbolTable) (scope : String) :
    declarations (table.moved g) scope = declarations table scope := by
  rw [declarations, declarations, SymbolTable.symbols_moved, List.map_map]
  rfl

theorem function_moved (table : SymbolTable) (f : Function) :
    function (table.moved g) (f.moved g) = function table f := by
  have hbody : block 1 (f.moved g).body = block 1 f.body := by
    rw [Function.moved, ← Stmt.movedBlock_eq, block_moved]
  have hname : (f.moved g).name = f.name := rfl
  rw [function, function, hbody, hname, declarations_moved]
  rfl

/-- **Emitted code shows no positions.** -/
theorem emit_moved (indentWidth : Nat) (table : SymbolTable) (p : Program) :
    emit indentWidth (table.moved g) (p.moved g) = emit indentWidth table p := by
  have hfunctions : (p.moved g).functions.flatMap (function (table.moved g)) =
      p.functions.flatMap (function table) := by
    rw [Program.moved, List.flatMap_map]
    simp only [function_moved]
  have hmain : mainFunction (table.moved g) (p.moved g).body = mainFunction table p.body := by
    rw [mainFunction, mainFunction, declarations_moved, Program.moved, ← Stmt.movedBlock_eq,
      block_moved]
  rw [emit, emit, lines, lines, hfunctions, hmain]

end Cpp

/-! ### Tokens and faults -/

/-- The error at another position. -/
def LexicalError.moved (g : Span → Span) (e : LexicalError) : LexicalError :=
  { e with span := g e.span }

/-- The fault at another position, if it has one. -/
def Fault.moved (g : Span → Span) : Fault → Fault
  | .lexical e => .lexical (e.moved g)
  | .grammar e => .grammar (e.moved g)
  | .settings e => .settings e
  | .system text => .system text

/-- **What the lexer comes to**, the tokens or a fault, at other positions. A trap has none. -/
def movedTokens (g : Span → Span) (x : Except (Halt LexicalError) (List Token)) :
    Except (Halt LexicalError) (List Token) :=
  (x.map (List.map (Token.moved g))).mapError (Halt.map (LexicalError.moved g))

theorem movedTokens_id (x : Except (Halt LexicalError) (List Token)) : movedTokens id x = x := by
  rcases x with (e | trap) | ts
  · rfl
  · rfl
  · exact congrArg Except.ok (List.map_id ts)

namespace Source

/-- The code of some tokens, unless the lexer or the parser finds a fault. -/
def compileTokens (indentWidth : Nat) (x : Except (Halt LexicalError) (List Token)) :
    Except (Halt Fault) String := do
  let ts ← x.mapError (Halt.map .lexical)
  let (table, p) ← (Parser.parse ts).mapError fun e => .fault (.grammar e)
  .ok (Cpp.emit indentWidth table p)

theorem compile_eq {s : Settings} (hs : s.validate = .ok ()) (text : String) :
    compile s text = compileTokens s.indentWidth.toNat (tokenize s.tabWidth text) := by
  unfold compile parse analyze
  rw [hs]
  cases tokenize s.tabWidth text with
  | error halt => rfl
  | ok ts => rfl

/-- **Tokens at other positions compile alike**: to the same code, or to the same fault at another
position, or neither is measured. -/
theorem compileTokens_moved (g : Span → Span) (indentWidth : Nat)
    (x : Except (Halt LexicalError) (List Token)) :
    compileTokens indentWidth (movedTokens g x) =
      (compileTokens indentWidth x).mapError (Halt.map (Fault.moved g)) := by
  rcases x with (e | trap) | ts
  · rfl
  · rfl
  · -- without tokens there is nothing to parse; with them the parser moves its errors too
    have hparse := Parser.parse_moved g ts
    unfold compileTokens
    cases hp : Parser.parse ts with
    | error e =>
      rw [hp] at hparse
      simp only [movedTokens, Except.map, Except.mapError, bind, Except.bind, hparse, hp]
      rfl
    | ok r =>
      rw [hp] at hparse
      simp only [movedTokens, Except.map, Except.mapError, bind, Except.bind, hparse, hp,
        Prod.map, Cpp.emit_moved]

/-- Only the tokens of a text decide. -/
theorem compile_congr {s : Settings} {text text' : String}
    (h : tokenize s.tabWidth text' = tokenize s.tabWidth text) :
    compile s text' = compile s text := by
  unfold compile parse analyze
  rw [h]

/-- Two texts whose tokens are at other positions, under the same settings. -/
theorem compile_moved {g : Span → Span} {s : Settings} {text text' : String}
    (h : tokenize s.tabWidth text' = movedTokens g (tokenize s.tabWidth text)) :
    compile s text' = (compile s text).mapError (Halt.map (Fault.moved g)) := by
  cases hs : s.validate with
  | ok _ => rw [compile_eq hs, compile_eq hs, h, compileTokens_moved]
  | error e =>
    -- the settings are refused before either text is looked at
    unfold compile parse
    rw [hs]
    rfl

end Source

end Offside
