import Offside.Proofs.Grammar.Exact
import Offside.Proofs.RoundTrip.Lexing
import Offside.Proofs.RoundTrip.Parsing

/-!
# Programs read back from their text

A well-formed program, written canonically with any indentation step, is lexed and parsed without a
fault, and the program that comes out is the one that was written, positions apart
(`parse_sourceText`).

The text gives the tokens of the program (`tokenize_sourceText`), the tokens derive the program
(`module_of_words`), and the parser accepts whatever is derived and has consistent annotations
(`Parser.parse_eq_ok_iff`). Annotations are consistent or not whatever their positions are
(`consistent_unplaced`).
-/

namespace Offside

open Grammar

/-! ### Annotations without positions -/

/-- A declared variable without its position. -/
def Symbol.unplaced (s : Symbol) : Symbol := { s with span := .start }

mutual

theorem Stmt.annotations_unplaced :
    ∀ s : Stmt, s.unplaced.annotations = s.annotations.map Symbol.unplaced
  | .assign _ none _ _ => rfl
  | .assign _ (some _) _ _ => rfl
  | .declare _ _ _ => rfl
  | .giveBack _ _ => rfl
  | .print _ _ => rfl
  | .call _ => rfl
  | .loop _ body _ => Stmt.annotationsOfBlock_unplaced body
  | .choose bs none _ => Stmt.annotationsOfBranches_unplaced bs
  | .choose bs (some body) _ => by
    rw [Stmt.unplaced, Stmt.annotations, Stmt.annotations, List.map_append,
      Stmt.annotationsOfBranches_unplaced bs, Stmt.annotationsOfBlock_unplaced body]

theorem Stmt.annotationsOfBlock_unplaced :
    ∀ ss : List Stmt, Stmt.annotationsOfBlock (Stmt.unplacedBlock ss) =
      (Stmt.annotationsOfBlock ss).map Symbol.unplaced
  | [] => rfl
  | s :: ss => by
    rw [Stmt.unplacedBlock, Stmt.annotationsOfBlock, Stmt.annotationsOfBlock, List.map_append,
      Stmt.annotations_unplaced s, Stmt.annotationsOfBlock_unplaced ss]

theorem Stmt.annotationsOfBranches_unplaced :
    ∀ bs : List Branch, Stmt.annotationsOfBranches (Stmt.unplacedBranches bs) =
      (Stmt.annotationsOfBranches bs).map Symbol.unplaced
  | [] => rfl
  | .mk _ body _ :: bs => by
    rw [Stmt.unplacedBranches, Stmt.annotationsOfBranches, Stmt.annotationsOfBranches,
      List.map_append, Stmt.annotationsOfBlock_unplaced body,
      Stmt.annotationsOfBranches_unplaced bs]

end

theorem Program.annotations_unplaced (p : Program) :
    p.unplaced.annotations = p.annotations.map fun a => (a.1, a.2.unplaced) := by
  simp only [annotations, unplaced, Function.unplaced, List.map_append, List.map_flatMap,
    List.flatMap_map, Stmt.annotationsOfBlock_unplaced, List.map_map]
  rfl

/-- **Consistency does not depend on positions.** -/
theorem consistent_unplaced {log : List (String × Symbol)} :
    Consistent (log.map fun a => (a.1, a.2.unplaced)) ↔ Consistent log := by
  unfold Consistent
  simp only [List.forall_mem_map]
  rfl

/-! ### The parts of a program -/

theorem program_of_parts (p : Program) :
    Item.program (p.functions.map .function ++ p.body.map .statement) = p := by
  obtain ⟨fs, ss⟩ := p
  -- the body alone first, and then the functions before it
  have hbody : Item.program (ss.map .statement) = ⟨[], ss⟩ := by
    induction ss with
    | nil => rfl
    | cons s ss ih => rw [List.map_cons, Item.program, ih]
  induction fs with
  | nil => exact hbody
  | cons f fs ih => rw [List.map_cons, List.cons_append, Item.program, ih]

theorem annotations_of_parts (p : Program) :
    (p.functions.map Item.function ++ p.body.map Item.statement).flatMap Item.annotations =
      p.annotations := by
  -- the statements of the module declare in the scope of the module
  have hbody : ∀ ss : List Stmt, (ss.map Item.statement).flatMap Item.annotations =
      (Stmt.annotationsOfBlock ss).map (SymbolTable.moduleName, ·) := by
    intro ss
    induction ss with
    | nil => rfl
    | cons s ss ih =>
      rw [List.map_cons, List.flatMap_cons, ih, Stmt.annotationsOfBlock, List.map_append]
      rfl
  rw [List.flatMap_append, hbody, List.flatMap_map]
  rfl

/-! ### The round trip -/

/-- **A program is read back from its text.** Every well-formed program, written canonically with
blocks `step` spaces deeper than their headers, is lexed and parsed without a fault, whatever the
distance of tab stops, and gives the same program but for positions. The columns of an indentation
are counted in 64-bit words; that each indentation of the text is narrower than that many columns
holds of every text there is room for. -/
theorem parse_sourceText (p : Program) (hp : p.WellFormed) (step : Nat) (hstep : 1 ≤ step)
    (hfit : ∀ r ∈ p.rows, step * r.depth < 2 ^ 64) (tabWidth : UInt64) :
    ∃ ts table q, tokenize tabWidth (p.sourceText step) = .ok ts ∧
      Parser.parse ts = .ok (table, q) ∧ q.unplaced = p.unplaced := by
  obtain ⟨ts, hts, hwords⟩ := tokenize_sourceText hp hstep hfit tabWidth
  obtain ⟨q, hq, hqp⟩ := module_of_words hp hwords
  -- the annotations of what was derived differ from those written in their positions only
  have hconsistent : Consistent q.annotations := by
    rw [← consistent_unplaced, ← Program.annotations_unplaced, hqp, Program.annotations_unplaced,
      consistent_unplaced]
    exact hp.consistent
  refine ⟨ts, _, q, hts, Parser.parse_eq_ok_iff.mpr ⟨_, hq, ?_, ?_, rfl⟩, hqp⟩
  · rw [program_of_parts]
  · rw [annotations_of_parts]
    exact hconsistent

/-- A program with a function of nested blocks, with numbers of every kind, and with a body. -/
def countdownProgram : Program where
  functions := [{
    name := "countdown"
    params := [⟨"n", .int⟩, ⟨"rate", .float⟩]
    returnType := .value .float
    span := ⟨1, 1⟩
    body := [
      .assign "total" (some .float)
        (.operation ⟨false, .literal (.float ⟨4591870180066957722⟩), []⟩) ⟨2, 4⟩,
      .loop (.operation ⟨false, .name "n", [(.sub, .literal (.int (-1))), (.ge, .name "rate")]⟩) [
        .choose [
          .mk (.operation ⟨true, .name "n", [(.eq, .literal (.int 0))]⟩)
            [.assign "n" none (.operation ⟨false, .name "n", [(.sub, .literal (.int 1))]⟩) ⟨5, 10⟩]
            ⟨4, 7⟩,
          .mk (.call ⟨"done", [], ⟨6, 12⟩⟩)
            [.print
              [.operation ⟨false, .name "total", []⟩,
                .call ⟨"done", [.name "n", .literal (.float ⟨13836183955189006336⟩)], ⟨7, 25⟩⟩]
              ⟨7, 10⟩]
            ⟨6, 7⟩]
          (some [.giveBack none ⟨9, 10⟩]) ⟨4, 7⟩] ⟨3, 4⟩,
      .giveBack (some (.operation ⟨false, .name "total", [(.mul, .name "rate")]⟩)) ⟨10, 4⟩] }]
  body := [
    .declare "last" .bool ⟨11, 1⟩,
    .call ⟨"countdown", [.literal (.int 3), .literal (.float ⟨9223372036854775808⟩)], ⟨12, 1⟩⟩]

example : countdownProgram.sourceText 3 = String.join [
    "def countdown(n: int, rate: float) -> float:\n",
    "   total: float = 0.1\n",
    "   while n - -1 >= rate:\n",
    "      if not n == 0:\n",
    "         n = n - 1\n",
    "      elif done():\n",
    "         print(total, done(n, -2.5))\n",
    "      else:\n",
    "         return\n",
    "   return total * rate\n",
    "last: bool\n",
    "countdown(3, -0.0)\n"] := by
  decide +kernel

theorem wellFormed_countdownProgram : countdownProgram.WellFormed := by
  refine ⟨?_, ?_, ?_⟩
  · decide
  · decide
  · unfold Consistent
    decide

theorem parse_countdownProgram :
    countdownProgram.WellFormed ∧ (∀ r ∈ countdownProgram.rows, 3 * r.depth < 2 ^ 64) ∧
      ∃ ts table q, tokenize 8 (countdownProgram.sourceText 3) = .ok ts ∧
        Parser.parse ts = .ok (table, q) ∧ q.unplaced = countdownProgram.unplaced := by
  have hfit : ∀ r ∈ countdownProgram.rows, 3 * r.depth < 2 ^ 64 := by decide
  exact ⟨wellFormed_countdownProgram, hfit, parse_sourceText countdownProgram
    wellFormed_countdownProgram 3 (by decide) hfit 8⟩

end Offside
