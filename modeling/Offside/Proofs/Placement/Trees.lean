import Offside.Proofs.Declarations
import Offside.Proofs.Grammar.Basic

/-!
# Trees at other positions

A tree in which every position is replaced by another. What a tree says does not depend on its
positions, so all that has to be known of such a tree is where its parts and its annotations have
gone to.

* `Span.down` — so many lines further down;
* `Stmt.moved`, `Function.moved`, `Symbol.moved` — every position replaced;
* `Stmt.annotations_moved` — annotations go where their statements go.
-/

namespace Offside

/-- So many lines further down, in the same column. -/
def Span.down (count : Nat) (s : Span) : Span := ⟨s.line + count, s.column⟩

/-- A call with its position replaced. -/
def Call.moved (g : Span → Span) (c : Call) : Call := { c with span := g c.span }

/-- An expression with its positions replaced. -/
def Expr.moved (g : Span → Span) : Expr → Expr
  | .call c => .call (c.moved g)
  -- operands have no position of their own
  | .operation o => .operation o

mutual

/-- A statement with its positions replaced. -/
def Stmt.moved (g : Span → Span) : Stmt → Stmt
  | .assign target type value span => .assign target type (value.moved g) (g span)
  | .declare name type span => .declare name type (g span)
  | .giveBack value span => .giveBack (value.map (Expr.moved g)) (g span)
  | .loop condition body span => .loop (condition.moved g) (Stmt.movedBlock g body) (g span)
  | .choose bs none span => .choose (Stmt.movedBranches g bs) none (g span)
  | .choose bs (some body) span =>
    .choose (Stmt.movedBranches g bs) (some (Stmt.movedBlock g body)) (g span)
  | .print args span => .print (args.map (Expr.moved g)) (g span)
  | .call c => .call (c.moved g)

/-- A block with its positions replaced. -/
def Stmt.movedBlock (g : Span → Span) : List Stmt → List Stmt
  | [] => []
  | s :: ss => s.moved g :: Stmt.movedBlock g ss

/-- Branches with their positions replaced. -/
def Stmt.movedBranches (g : Span → Span) : List Branch → List Branch
  | [] => []
  | .mk condition body span :: bs =>
    .mk (condition.moved g) (Stmt.movedBlock g body) (g span) :: Stmt.movedBranches g bs

end

/-- A function with its positions replaced. -/
def Function.moved (g : Span → Span) (f : Function) : Function :=
  { f with body := f.body.map (Stmt.moved g), span := g f.span }

/-- A declared variable at another position. -/
def Symbol.moved (g : Span → Span) (s : Symbol) : Symbol := { s with span := g s.span }

/-- The block of the mutual recursion is the map over its statements. A map would hide from the
recursion that the statements are smaller. -/
theorem Stmt.movedBlock_eq (g : Span → Span) (ss : List Stmt) :
    Stmt.movedBlock g ss = ss.map (Stmt.moved g) := by
  induction ss with
  | nil => rfl
  | cons s ss ih => rw [Stmt.movedBlock, ih, List.map_cons]

/-- Both cases of the last block at once. -/
theorem Stmt.moved_choose (g : Span → Span) (bs : List Branch) (last : Option (List Stmt))
    (span : Span) :
    (Stmt.choose bs last span).moved g =
      .choose (Stmt.movedBranches g bs) (last.map (Stmt.movedBlock g)) (g span) := by
  cases last <;> rw [Stmt.moved] <;> rfl

/-! ### Nothing moved -/

/-- Where no position is replaced, an expression stays as it is. -/
theorem Expr.moved_id : ∀ e : Expr, e.moved id = e
  | .call _ => rfl
  | .operation _ => rfl

/-- The same for the expressions of a call of `print`. -/
theorem Expr.map_moved_id (es : List Expr) : es.map (Expr.moved id) = es := by
  rw [List.map_congr_left fun e _ => e.moved_id, List.map_id']

mutual

/-- Where no position is replaced, a statement stays as it is. The cases are those of `Stmt.moved`.
-/
theorem Stmt.moved_id : ∀ s : Stmt, s.moved id = s
  | .assign _ _ value _ => by rw [Stmt.moved, value.moved_id, id]
  | .declare _ _ _ => rfl
  | .giveBack none _ => rfl
  | .giveBack (some value) _ => by rw [Stmt.moved, Option.map_some, value.moved_id, id]
  | .loop condition body _ => by
    rw [Stmt.moved, condition.moved_id, Stmt.movedBlock_id body, id]
  | .choose bs none _ => by rw [Stmt.moved, Stmt.movedBranches_id bs, id]
  | .choose bs (some body) _ => by
    rw [Stmt.moved, Stmt.movedBranches_id bs, Stmt.movedBlock_id body, id]
  | .print args _ => by rw [Stmt.moved, Expr.map_moved_id, id]
  | .call _ => rfl

/-- The same for a block. -/
theorem Stmt.movedBlock_id : ∀ ss : List Stmt, Stmt.movedBlock id ss = ss
  | [] => rfl
  | s :: ss => by rw [Stmt.movedBlock, s.moved_id, Stmt.movedBlock_id ss]

/-- The same for branches. -/
theorem Stmt.movedBranches_id : ∀ bs : List Branch, Stmt.movedBranches id bs = bs
  | [] => rfl
  | .mk condition body _ :: bs => by
    rw [Stmt.movedBranches, condition.moved_id, Stmt.movedBlock_id body, id,
      Stmt.movedBranches_id bs]

end

/-- The same for a function, whose body is a block. -/
theorem Function.moved_id (f : Function) : f.moved id = f := by
  rw [Function.moved, ← Stmt.movedBlock_eq, Stmt.movedBlock_id, id]

/-! ### Annotations -/

mutual

/-- **Annotations go where their statements go.** No annotation is made or lost by a move. -/
theorem Stmt.annotations_moved (g : Span → Span) :
    ∀ s : Stmt, (s.moved g).annotations = s.annotations.map (Symbol.moved g)
  | .assign _ none _ _ => rfl
  | .assign _ (some _) _ _ => rfl
  | .declare _ _ _ => rfl
  | .giveBack _ _ => rfl
  | .print _ _ => rfl
  | .call _ => rfl
  | .loop _ body _ => Stmt.annotationsOfBlock_moved g body
  | .choose bs none _ => Stmt.annotationsOfBranches_moved g bs
  | .choose bs (some body) _ => by
    -- only here two lists of declarations are put together
    rw [Stmt.moved, Stmt.annotations, Stmt.annotations, List.map_append,
      Stmt.annotationsOfBranches_moved g bs, Stmt.annotationsOfBlock_moved g body]

/-- The same for a block. -/
theorem Stmt.annotationsOfBlock_moved (g : Span → Span) :
    ∀ ss : List Stmt, Stmt.annotationsOfBlock (Stmt.movedBlock g ss) =
      (Stmt.annotationsOfBlock ss).map (Symbol.moved g)
  | [] => rfl
  | s :: ss => by
    rw [Stmt.movedBlock, Stmt.annotationsOfBlock, Stmt.annotationsOfBlock, List.map_append,
      Stmt.annotations_moved g s, Stmt.annotationsOfBlock_moved g ss]

/-- The same for branches; conditions have no annotations. -/
theorem Stmt.annotationsOfBranches_moved (g : Span → Span) :
    ∀ bs : List Branch, Stmt.annotationsOfBranches (Stmt.movedBranches g bs) =
      (Stmt.annotationsOfBranches bs).map (Symbol.moved g)
  | [] => rfl
  | .mk _ body _ :: bs => by
    rw [Stmt.movedBranches, Stmt.annotationsOfBranches, Stmt.annotationsOfBranches,
      List.map_append, Stmt.annotationsOfBlock_moved g body, Stmt.annotationsOfBranches_moved g bs]

end

namespace Grammar

/-- A part of a module with its positions replaced. -/
def Item.moved (g : Span → Span) : Item → Item
  | .function f => .function (f.moved g)
  | .statement s => .statement (s.moved g)

/-- The same for a part of a module. -/
theorem Item.moved_id : ∀ i : Item, i.moved id = i
  | .function f => by rw [Item.moved, f.moved_id]
  | .statement s => by rw [Item.moved, s.moved_id]

/-- The annotations of a part keep their scope, for no name is moved. -/
theorem Item.annotations_moved (g : Span → Span) (i : Item) :
    (i.moved g).annotations = i.annotations.map fun a => (a.1, a.2.moved g) := by
  cases i with
  | function f =>
    rw [Item.moved, Item.annotations, Item.annotations, Function.moved, ← Stmt.movedBlock_eq,
      Stmt.annotationsOfBlock_moved, List.map_map, List.map_map]
    rfl
  | statement s =>
    rw [Item.moved, Item.annotations, Item.annotations, Stmt.annotations_moved, List.map_map,
      List.map_map]
    rfl

/-- Functions and statements are gathered apart, each in order. -/
theorem Item.program_append (is js : List Item) :
    Item.program (is ++ js) = ⟨(Item.program is).functions ++ (Item.program js).functions,
      (Item.program is).body ++ (Item.program js).body⟩ := by
  induction is with
  | nil => rfl
  | cons i is ih => cases i <;> rw [List.cons_append, Item.program, ih] <;> rfl

/-- Gathering and moving commute, since a part stays of its sort. -/
theorem Item.program_moved (g : Span → Span) (is : List Item) :
    Item.program (is.map (Item.moved g)) =
      ⟨(Item.program is).functions.map (Function.moved g),
        (Item.program is).body.map (Stmt.moved g)⟩ := by
  induction is with
  | nil => rfl
  | cons i is ih => cases i <;> rw [List.map_cons, Item.moved, Item.program, ih] <;> rfl

end Grammar

end Offside
