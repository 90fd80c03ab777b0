import Offside.Proofs.Cpp.Reading

/-!
# Running a block and running its text

A block and the C++ text emitted for it do the same things in the same order. What an expression,
an assignment, a call or a print statement does to the store is left open: a `Machine` says it of
their texts, and everything here holds of every machine. What is compared is what is done (the
`Event`s), the store at the end, and how the run ends.

A loop need not end. So each loop that is entered takes at most a given number of turns, and a run
in which one would take more is `unfinished` there. Two runs that agree for every bound do the same
things for as long as both go on, also if that is for ever.

* `Stmt.runBlock` — running a block: of a conditional the first branch whose condition holds, or
  else the last block, and of a declaration nothing;
* `Code.runAll` — running statements of C++;
* `Cpp.runAll_of_read?_block` — the text of a block is read as statements that run like the block.
-/

namespace Offside

/-! ### Machines -/

/-- What the texts of a program do. The value of an expression may depend on the store, and to
evaluate it may change the store. -/
structure Machine (σ V : Type) where
  evaluate : String → σ → V × σ
  truth : V → Bool
  assign : String → V → σ → σ
  call : String → σ → σ
  print : String → σ → σ

/-- Something that a run does. -/
inductive Event (V : Type) where
  | evaluated (text : String) (value : V)
  | assigned (target : String) (value : V)
  | called (text : String)
  | printed (text : String)
  deriving DecidableEq

/-- How a run ends: at the end of the statements, by a return, or in a loop that goes on. -/
inductive Ending (V : Type) where
  | onward
  | returned (value : Option V)
  | unfinished
  deriving DecidableEq

/-- What a run has done. -/
structure Outcome (σ V : Type) where
  events : List (Event V)
  store : σ
  ending : Ending V
  deriving DecidableEq

namespace Outcome

variable {σ V : Type}

/-- Nothing is done. -/
def still (store : σ) : Outcome σ V := ⟨[], store, .onward⟩

/-- Go on with another run, unless there was a return or a loop that goes on. -/
def andThen (o : Outcome σ V) (next : σ → Outcome σ V) : Outcome σ V :=
  match o.ending with
  | .onward => ⟨o.events ++ (next o.store).events, (next o.store).store, (next o.store).ending⟩
  | _ => o

@[simp] theorem andThen_still (o : Outcome σ V) : o.andThen still = o := by
  rcases o with ⟨events, store, _ | _ | _⟩ <;> simp [andThen, still]

theorem andThen_assoc (o : Outcome σ V) (f g : σ → Outcome σ V) :
    (o.andThen f).andThen g = o.andThen fun store => (f store).andThen g := by
  rcases o with ⟨events, store, _ | _ | _⟩
  · -- what is done after `f` depends on how that ends
    cases hf : (f store).ending <;> simp [andThen, hf]
  · rfl
  · rfl

end Outcome

namespace Machine

variable {σ V : Type} (m : Machine σ V)

/-- Evaluate an expression, and go on with its value. -/
def evaluating (text : String) (next : V → σ → Outcome σ V) (store : σ) : Outcome σ V :=
  let (value, store') := m.evaluate text store
  let o := next value store'
  ⟨.evaluated text value :: o.events, o.store, o.ending⟩

/-- Go one way if a condition holds, and another if not. -/
def deciding (condition : String) (yes no : σ → Outcome σ V) : σ → Outcome σ V :=
  m.evaluating condition fun value => if m.truth value then yes else no

/-- Repeat a body while a condition holds, at most so many times. -/
def repeating (condition : String) (body : σ → Outcome σ V) : Nat → σ → Outcome σ V
  | 0, store => ⟨[], store, .unfinished⟩
  | turns + 1, store =>
    m.deciding condition (fun store => (body store).andThen (repeating condition body turns))
      .still store

/-- Give a variable the value of an expression. -/
def assigning (target value : String) : σ → Outcome σ V :=
  m.evaluating value fun v store => ⟨[.assigned target v], m.assign target v store, .onward⟩

/-- Return, with the value of an expression or without. -/
def returning : Option String → σ → Outcome σ V
  | none => fun store => ⟨[], store, .returned none⟩
  | some value => m.evaluating value fun v store => ⟨[], store, .returned (some v)⟩

def printing (text : String) (store : σ) : Outcome σ V :=
  ⟨[.printed text], m.print text store, .onward⟩

def calling (text : String) (store : σ) : Outcome σ V :=
  ⟨[.called text], m.call text store, .onward⟩

end Machine

/-! ### Running a block -/

section

variable {σ V : Type} (m : Machine σ V) (turns : Nat)

mutual

/-- What a statement does. -/
def Stmt.run : Stmt → σ → Outcome σ V
  | .assign target _ value _ => m.assigning target (Cpp.expression value)
  | .declare _ _ _ => .still
  | .giveBack value _ => m.returning (value.map Cpp.expression)
  | .loop condition body _ => m.repeating (Cpp.expression condition) (Stmt.runBlock body) turns
  | .choose bs none _ => Stmt.runBranches .still bs
  | .choose bs (some body) _ => Stmt.runBranches (Stmt.runBlock body) bs
  | .print args _ => m.printing (Cpp.printText args)
  | .call c => m.calling (c.spell .cpp)

/-- **What a block does.** -/
def Stmt.runBlock : List Stmt → σ → Outcome σ V
  | [] => .still
  | s :: ss => fun store => (s.run store).andThen (Stmt.runBlock ss)

/-- What the first branch does whose condition holds, or else the last block. -/
def Stmt.runBranches (last : σ → Outcome σ V) : List Branch → σ → Outcome σ V
  | [] => last
  | .mk condition body _ :: bs =>
    m.deciding (Cpp.expression condition) (Stmt.runBlock body) (Stmt.runBranches last bs)

end

end

/-! ### Running statements of C++ -/

namespace Cpp

section

variable {σ V : Type} (m : Machine σ V) (turns : Nat)

def Action.run : Action → σ → Outcome σ V
  | .assign target value => m.assigning target value
  | .giveBack value => m.returning value
  | .print text => m.printing text
  | .call text => m.calling text
  | .declare _ _ => .still

mutual

/-- What a statement of C++ does. -/
def Code.run : Code → σ → Outcome σ V
  | .action a => a.run m
  | .skip => .still
  | .compound body => Code.runAll body
  | .loop condition body => m.repeating condition body.run turns
  | .branch condition yes no => m.deciding condition yes.run no.run

/-- **What statements of C++ do**, one after another. -/
def Code.runAll : List Code → σ → Outcome σ V
  | [] => .still
  | c :: cs => fun store => (c.run store).andThen (Code.runAll cs)

end

/-! ### They do the same -/

theorem Code.runAll_singleton (c : Code) : runAll m turns [c] = c.run m turns := by
  funext store
  rw [runAll, runAll]
  exact Outcome.andThen_still _

theorem Code.runAll_append (cs ds : List Code) (store : σ) :
    runAll m turns (cs ++ ds) store = (runAll m turns cs store).andThen (runAll m turns ds) := by
  induction cs generalizing store with
  | nil => rfl
  | cons c cs ih =>
    -- a return in the first part skips the second as well
    rw [List.cons_append, runAll, runAll, Outcome.andThen_assoc]
    exact congrArg _ (funext ih)

mutual

theorem Code.runAll_ofStmt : ∀ s : Stmt, runAll m turns (ofStmt s) = s.run m turns
  | .assign .. => runAll_singleton m turns _
  | .declare .. => rfl
  | .giveBack .. => runAll_singleton m turns _
  | .loop condition body span => by
    rw [ofStmt, runAll_singleton, run, run, Stmt.run, runAll_ofBlock body]
  | .choose bs none span => by
    -- without a last block the chain ends in a statement that does nothing
    rw [ofStmt, runAll_singleton, run_ofBranches none bs, Stmt.run]
    rfl
  | .choose bs (some body) span => by
    rw [ofStmt, runAll_singleton, run_ofBranches _ bs, Stmt.run, Option.getD_some, run,
      runAll_ofBlock body]
  | .print .. => runAll_singleton m turns _
  | .call .. => runAll_singleton m turns _

theorem Code.runAll_ofBlock : ∀ ss : List Stmt,
    runAll m turns (ofBlock ss) = Stmt.runBlock m turns ss
  | [] => rfl
  | s :: ss => by
    funext store
    rw [ofBlock, runAll_append, runAll_ofStmt s, runAll_ofBlock ss, Stmt.runBlock]

/-- A chain of branches runs like conditionals that stand in each other's `else`. -/
theorem Code.run_ofBranches (last : Option Code) : ∀ bs : List Branch,
    ((ofBranches last bs).getD .skip).run m turns =
      Stmt.runBranches m turns ((last.getD .skip).run m turns) bs
  | [] => rfl
  | .mk condition body span :: bs => by
    rw [ofBranches, Option.getD_some, run, run, run_ofBranches last bs, runAll_ofBlock body,
      Stmt.runBranches]

end

end

/-- **The text of a block runs like the block.** At every depth and with every width of
indentation, the text is read as statements that on every machine and from every store do what the
block does, leave the store that it leaves and end as it ends, however often its loops turn. What
the parser makes of a text has only such blocks (`Parser.parse_proper`). -/
theorem runAll_of_read?_block {ss : List Stmt} (hss : Stmt.ProperBlock ss) (width depth : Nat) :
    ∃ code, Code.read? (String.join ((block depth ss).map (Line.render width))) = some code ∧
      ∀ {σ V : Type} (m : Machine σ V) (turns : Nat) (store : σ),
        Code.runAll m turns code store = Stmt.runBlock m turns ss store := by
  refine ⟨Code.ofBlock ss, Code.read?_block width depth hss, ?_⟩
  intro σ V m turns store
  rw [Code.runAll_ofBlock]

/-- A loop with a chain of branches in it: count down, print on the way, and return from within. -/
def descentBlock : List Stmt :=
  let n : Expr := .operation ⟨false, .name "n", []⟩
  let compared (op : BinaryOp) (bound : Int64) : Expr :=
    .operation ⟨false, .name "n", [(op, .literal (.int bound))]⟩
  [.loop n [
    .choose [.mk (compared .gt 7) [.call ⟨"f", [.name "n"], ⟨4, 9⟩⟩] ⟨3, 5⟩,
        .mk (compared .eq 1) [.giveBack (some n) ⟨6, 9⟩] ⟨5, 5⟩]
      (some [.print [n] ⟨8, 9⟩]) ⟨3, 5⟩,
    .assign "n" none (compared .sub 1) ⟨9, 5⟩] ⟨2, 1⟩]

/-- A machine with the one variable `n`. -/
def descentMachine : Machine Nat Nat where
  evaluate text n :=
    match text with
    | "n" => (n, n)
    | "n > 7" => (if n > 7 then 1 else 0, n)
    | "n == 1" => (if n = 1 then 1 else 0, n)
    | _ => (n - 1, n)
  truth v := v ≠ 0
  assign _ v _ := v
  call _ n := n
  print _ n := n

/-- The text of the loop, run from two: it prints once, and then the branch behind the first
returns. -/
theorem runAll_descentBlock :
    ∃ code, Code.read? (String.join ((block 1 descentBlock).map (Line.render 4))) = some code ∧
      Code.runAll descentMachine 2 code 2 =
        ⟨[.evaluated "n" 2, .evaluated "n > 7" 0, .evaluated "n == 1" 0,
          .printed "std::cout << n << std::endl;", .evaluated "n - 1" 1, .assigned "n" 1,
          .evaluated "n" 1, .evaluated "n > 7" 0, .evaluated "n == 1" 1, .evaluated "n" 1],
          1, .returned (some 1)⟩ := by
  have hproper : Stmt.ProperBlock descentBlock := by decide
  obtain ⟨code, hread, hrun⟩ := runAll_of_read?_block hproper 4 1
  exact ⟨code, hread, (hrun descentMachine 2 2).trans (by decide)⟩

end Cpp

end Offside
