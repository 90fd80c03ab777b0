import Offside.Program.Outline
import Offside.Proofs.Declarations
import Offside.Proofs.Grammar.Basic
import Offside.Proofs.Linewise.Reading

/-!
# Canonical text

A program written down: its functions and then its body, one statement to a line, a block so many
spaces deeper than its header, and a colon behind each header.

* `Clause` — what stands on one line, and `Clause.text` — how it is written;
* `Program.rows` — the lines of a program in order, each with the depth it stands at;
* `Program.sourceText` — the text of a program;
* `Program.WellFormed` — what a program has to be for its text to be one: its names are names, its
  blocks are not empty, its numbers are finite, and its annotations do not contradict each other;
* `Program.unplaced` — a program without its positions.
-/

namespace Offside

open Token

/-! ### Clauses -/

/-- What stands on one line: a statement that needs no block, or the header of one that does. -/
inductive Clause where
  | assign (target : String) (type : Option ValueType) (value : Expr)
  | declare (name : String) (type : ValueType)
  | giveBack (value : Option Expr)
  | print (args : List Expr)
  | call (call : Call)
  | loop (condition : Expr)
  | choose (condition : Expr)
  | chooseNext (condition : Expr)
  | otherwise
  | define (name : String) (params : List Param) (returnType : ReturnType)

/-- A parameter as it is written. -/
def Param.text (p : Param) : String := p.name ++ ": " ++ p.type.text

namespace Clause

open Outline

/-- **A clause as it is written.** -/
def text : Clause → String
  | .assign target none value => target ++ " = " ++ expression value
  | .assign target (some type) value =>
    target ++ ": " ++ type.text ++ " = " ++ expression value
  | .declare name type => name ++ ": " ++ type.text
  | .giveBack none => "return"
  | .giveBack (some value) => "return " ++ expression value
  | .print args => "print(" ++ String.intercalate ", " (args.map expression) ++ ")"
  | .call c => c.spell .source
  | .loop condition => "while " ++ expression condition ++ ":"
  | .choose condition => "if " ++ expression condition ++ ":"
  | .chooseNext condition => "elif " ++ expression condition ++ ":"
  | .otherwise => "else:"
  | .define name params returnType =>
    "def " ++ name ++ "(" ++ String.intercalate ", " (params.map Param.text) ++ ") -> "
      ++ returnType.text ++ ":"

end Clause

/-! ### Rows -/

/-- A clause, and how many blocks it stands in. -/
structure Row where
  depth : Nat
  clause : Clause

/-- A line of text, so many spaces to a block. -/
def Row.text (step : Nat) (r : Row) : String :=
  String.ofList (List.replicate (step * r.depth) ' ') ++ r.clause.text ++ "\n"

mutual

/-- The lines of a statement. -/
def Stmt.rows (depth : Nat) : Stmt → List Row
  | .assign target type value _ => [⟨depth, .assign target type value⟩]
  | .declare name type _ => [⟨depth, .declare name type⟩]
  | .giveBack value _ => [⟨depth, .giveBack value⟩]
  | .loop condition body _ => ⟨depth, .loop condition⟩ :: Stmt.rowsOfBlock (depth + 1) body
  | .choose bs none _ => Stmt.rowsOfBranches depth .choose bs
  | .choose bs (some body) _ =>
    Stmt.rowsOfBranches depth .choose bs ++
      ⟨depth, .otherwise⟩ :: Stmt.rowsOfBlock (depth + 1) body
  | .print args _ => [⟨depth, .print args⟩]
  | .call c => [⟨depth, .call c⟩]

/-- The lines of a block. -/
def Stmt.rowsOfBlock (depth : Nat) : List Stmt → List Row
  | [] => []
  | s :: ss => s.rows depth ++ Stmt.rowsOfBlock depth ss

/-- The lines of a chain of branches, of which the first has the given header. -/
def Stmt.rowsOfBranches (depth : Nat) (header : Expr → Clause) : List Branch → List Row
  | [] => []
  | .mk condition body _ :: bs =>
    ⟨depth, header condition⟩ :: (Stmt.rowsOfBlock (depth + 1) body ++
      Stmt.rowsOfBranches depth .chooseNext bs)

end

/-- The lines of a function. -/
def Function.rows (f : Function) : List Row :=
  ⟨0, .define f.name f.params f.returnType⟩ :: Stmt.rowsOfBlock 1 f.body

namespace Program

/-- The lines of a program: its functions, and then its body. -/
def rows (p : Program) : List Row := p.functions.flatMap Function.rows ++ Stmt.rowsOfBlock 0 p.body

/-- **The canonical text of a program**, with blocks so many spaces deeper than their headers. -/
def sourceText (step : Nat) (p : Program) : String := String.join (p.rows.map (Row.text step))

end Program

/-! ### Well-formed programs -/

/-- A letter or an underscore, and then letters, digits and underscores, but not a word of the
language. -/
def IsName (s : String) : Prop := Linewise.isWord s.toList = true ∧ Kind.ofWord? s = none

instance (s : String) : Decidable (IsName s) := inferInstanceAs (Decidable (_ ∧ _))

/-- A name, or a constant that is finite. -/
def Operand.WellFormed : Operand → Prop
  | .name s => IsName s
  | .literal (.float x) => x.isFinite = true
  | .literal _ => True

instance : DecidablePred Operand.WellFormed
  | .name s => inferInstanceAs (Decidable (IsName s))
  | .literal (.float x) => inferInstanceAs (Decidable (x.isFinite = true))
  | .literal (.int _) => inferInstanceAs (Decidable True)
  | .literal (.bool _) => inferInstanceAs (Decidable True)

/-- The name of a call is a name, and its arguments are in order. -/
def Call.WellFormed (c : Call) : Prop := IsName c.name ∧ ∀ x ∈ c.args, x.WellFormed

instance : DecidablePred Call.WellFormed := fun _ => inferInstanceAs (Decidable (_ ∧ _))

/-- All operands are in order. -/
def Operation.WellFormed (o : Operation) : Prop :=
  o.first.WellFormed ∧ ∀ pair ∈ o.rest, pair.2.WellFormed

instance : DecidablePred Operation.WellFormed := fun _ => inferInstanceAs (Decidable (_ ∧ _))

/-- The names of an expression are names, and its numbers finite. -/
def Expr.WellFormed : Expr → Prop
  | .call c => c.WellFormed
  | .operation o => o.WellFormed

instance : DecidablePred Expr.WellFormed
  | .call c => inferInstanceAs (Decidable c.WellFormed)
  | .operation o => inferInstanceAs (Decidable o.WellFormed)

mutual

/-- All names are names, all numbers finite, no block is empty, and a conditional has a branch. -/
def Stmt.WellFormed : Stmt → Prop
  | .assign target _ value _ => IsName target ∧ value.WellFormed
  | .declare name _ _ => IsName name
  | .giveBack none _ => True
  | .giveBack (some value) _ => value.WellFormed
  | .loop condition body _ =>
    condition.WellFormed ∧ body ≠ [] ∧ Stmt.WellFormedBlock body
  | .choose bs none _ => bs ≠ [] ∧ Stmt.WellFormedBranches bs
  | .choose bs (some body) _ =>
    bs ≠ [] ∧ Stmt.WellFormedBranches bs ∧ body ≠ [] ∧ Stmt.WellFormedBlock body
  | .print args _ => ∀ e ∈ args, e.WellFormed
  | .call c => c.WellFormed

/-- All statements of a block are in order. -/
def Stmt.WellFormedBlock : List Stmt → Prop
  | [] => True
  | s :: ss => s.WellFormed ∧ Stmt.WellFormedBlock ss

/-- All branches are in order, and none is empty. -/
def Stmt.WellFormedBranches : List Branch → Prop
  | [] => True
  | .mk condition body _ :: bs =>
    (condition.WellFormed ∧ body ≠ [] ∧ Stmt.WellFormedBlock body) ∧ Stmt.WellFormedBranches bs

end

mutual

/-- Whether a statement is well formed can be decided, along the recursion of its definition. -/
def Stmt.decideWellFormed : ∀ s : Stmt, Decidable s.WellFormed
  | .assign _ _ _ _ => inferInstanceAs (Decidable (_ ∧ _))
  | .declare name _ _ => inferInstanceAs (Decidable (IsName name))
  | .giveBack none _ => inferInstanceAs (Decidable True)
  | .giveBack (some value) _ => inferInstanceAs (Decidable value.WellFormed)
  | .loop condition body _ =>
    have := Stmt.decideWellFormedBlock body
    inferInstanceAs (Decidable (condition.WellFormed ∧ body ≠ [] ∧ Stmt.WellFormedBlock body))
  | .choose bs none _ =>
    have := Stmt.decideWellFormedBranches bs
    inferInstanceAs (Decidable (bs ≠ [] ∧ Stmt.WellFormedBranches bs))
  | .choose bs (some body) _ =>
    have := Stmt.decideWellFormedBranches bs
    have := Stmt.decideWellFormedBlock body
    inferInstanceAs (Decidable
      (bs ≠ [] ∧ Stmt.WellFormedBranches bs ∧ body ≠ [] ∧ Stmt.WellFormedBlock body))
  | .print args _ => inferInstanceAs (Decidable (∀ e ∈ args, e.WellFormed))
  | .call c => inferInstanceAs (Decidable c.WellFormed)

/-- The same for a block. -/
def Stmt.decideWellFormedBlock : ∀ ss : List Stmt, Decidable (Stmt.WellFormedBlock ss)
  | [] => inferInstanceAs (Decidable True)
  | s :: ss =>
    have := s.decideWellFormed
    have := Stmt.decideWellFormedBlock ss
    inferInstanceAs (Decidable (s.WellFormed ∧ Stmt.WellFormedBlock ss))

/-- The same for branches. -/
def Stmt.decideWellFormedBranches : ∀ bs : List Branch, Decidable (Stmt.WellFormedBranches bs)
  | [] => inferInstanceAs (Decidable True)
  | .mk condition body _ :: bs =>
    have := Stmt.decideWellFormedBlock body
    have := Stmt.decideWellFormedBranches bs
    inferInstanceAs (Decidable ((condition.WellFormed ∧ body ≠ [] ∧ Stmt.WellFormedBlock body) ∧
      Stmt.WellFormedBranches bs))

end

instance : DecidablePred Stmt.WellFormedBlock := Stmt.decideWellFormedBlock

/-- The names and numbers of a function are in order, and its block is not empty. -/
structure Function.WellFormed (f : Function) : Prop where
  name : IsName f.name
  params : ∀ p ∈ f.params, IsName p.name
  nonempty : f.body ≠ []
  body : Stmt.WellFormedBlock f.body

instance : DecidablePred Function.WellFormed := fun f =>
  decidable_of_iff (IsName f.name ∧ (∀ p ∈ f.params, IsName p.name) ∧ f.body ≠ [] ∧
    Stmt.WellFormedBlock f.body)
    ⟨fun ⟨h₁, h₂, h₃, h₄⟩ => ⟨h₁, h₂, h₃, h₄⟩, fun ⟨h₁, h₂, h₃, h₄⟩ => ⟨h₁, h₂, h₃, h₄⟩⟩

/-- The variables that a program declares, each with its scope. -/
def Program.annotations (p : Program) : List (String × Symbol) :=
  (p.functions.flatMap fun f => (Stmt.annotationsOfBlock f.body).map (f.name, ·)) ++
    (Stmt.annotationsOfBlock p.body).map (SymbolTable.moduleName, ·)

/-- **A well-formed program.** Functions of one name are one scope, and the module body is one;
within a scope a variable has one type only. -/
structure Program.WellFormed (p : Program) : Prop where
  functions : ∀ f ∈ p.functions, f.WellFormed
  body : Stmt.WellFormedBlock p.body
  consistent : Consistent p.annotations

/-! ### Programs without positions -/

/-- A call without its position. -/
def Call.unplaced (c : Call) : Call := { c with span := .start }

/-- An expression without its positions; operands have none. -/
def Expr.unplaced : Expr → Expr
  | .call c => .call c.unplaced
  | .operation o => .operation o

mutual

/-- A statement without its positions. -/
def Stmt.unplaced : Stmt → Stmt
  | .assign target type value _ => .assign target type value.unplaced .start
  | .declare name type _ => .declare name type .start
  | .giveBack value _ => .giveBack (value.map Expr.unplaced) .start
  | .loop condition body _ => .loop condition.unplaced (Stmt.unplacedBlock body) .start
  | .choose bs none _ => .choose (Stmt.unplacedBranches bs) none .start
  | .choose bs (some body) _ =>
    .choose (Stmt.unplacedBranches bs) (some (Stmt.unplacedBlock body)) .start
  | .print args _ => .print (args.map Expr.unplaced) .start
  | .call c => .call c.unplaced

/-- A block without its positions. -/
def Stmt.unplacedBlock : List Stmt → List Stmt
  | [] => []
  | s :: ss => s.unplaced :: Stmt.unplacedBlock ss

/-- Branches without their positions. -/
def Stmt.unplacedBranches : List Branch → List Branch
  | [] => []
  | .mk condition body _ :: bs =>
    .mk condition.unplaced (Stmt.unplacedBlock body) .start :: Stmt.unplacedBranches bs

end

/-- A function without its positions. -/
def Function.unplaced (f : Function) : Function :=
  { f with body := Stmt.unplacedBlock f.body, span := .start }

/-- **A program without its positions.** Two programs that differ in positions only are equal
without them. -/
def Program.unplaced (p : Program) : Program :=
  ⟨p.functions.map Function.unplaced, Stmt.unplacedBlock p.body⟩

end Offside
