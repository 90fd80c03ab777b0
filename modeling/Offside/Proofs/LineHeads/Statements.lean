import Offside.Proofs.Blocks.Nesting
import Offside.Proofs.LineHeads.Lexing
import Offside.Proofs.Scopes

/-!
# One statement to a line

Every function, every statement and every branch after the first of a conditional begins a line of
its own. Their positions, in the order in which they are written, are the `heads` of a tree.

The grammar never looks at positions, but it asks for a token of the layout before each of these
parts: a statement ends with one, and a block begins with one. So the heads of a tree are line heads
of the tokens it is derived from, in order (`Statement.heads`, `Module.heads`). The line heads of a
text ascend, and each of them begins its line (`tokenize_lineHeads`), and so do the heads of its
program (`parse_heads`).
-/

namespace Offside

open Token (Kind)
open scoped List

/-! ### The heads of a tree -/

/-- Where a branch stands: at the word in front of it. -/
def Branch.span : Branch → Span
  | .mk _ _ span => span

mutual

/-- **Where the parts of a statement stand that begin a line**, in order: the statement itself, the
branches after its first, and the statements of its blocks. -/
def Stmt.heads : Stmt → List Span
  | .assign _ _ _ span => [span]
  | .declare _ _ span => [span]
  | .giveBack _ span => [span]
  | .print _ span => [span]
  | .call c => [c.span]
  | .loop _ body span => span :: Stmt.headsOfBlock body
  | .choose bs none span => span :: (Stmt.headsOfBranches bs).tail
  | .choose bs (some body) span =>
    span :: ((Stmt.headsOfBranches bs).tail ++ Stmt.headsOfBlock body)

def Stmt.headsOfBlock : List Stmt → List Span
  | [] => []
  | s :: ss => s.heads ++ Stmt.headsOfBlock ss

/-- Where branches stand, and the statements of their blocks. -/
def Stmt.headsOfBranches : List Branch → List Span
  | [] => []
  | .mk _ body span :: bs => span :: (Stmt.headsOfBlock body ++ Stmt.headsOfBranches bs)

end

/-- Where a function stands, and the statements of its block. -/
def Function.heads (f : Function) : List Span := f.span :: Stmt.headsOfBlock f.body

/-- Where the functions, the statements and the further branches of a program stand. -/
def Program.heads (p : Program) : List Span :=
  p.functions.flatMap Function.heads ++ Stmt.headsOfBlock p.body

mutual

/-- **Each conditional stands where its first branch does.** -/
def Stmt.Aligned : Stmt → Prop
  | .loop _ body _ => Stmt.AlignedBlock body
  | .choose bs none span => bs.head?.map Branch.span = some span ∧ Stmt.AlignedBranches bs
  | .choose bs (some body) span =>
    bs.head?.map Branch.span = some span ∧ Stmt.AlignedBranches bs ∧ Stmt.AlignedBlock body
  | .assign _ _ _ _ | .declare _ _ _ | .giveBack _ _ | .print _ _ | .call _ => True

def Stmt.AlignedBlock : List Stmt → Prop
  | [] => True
  | s :: ss => s.Aligned ∧ Stmt.AlignedBlock ss

def Stmt.AlignedBranches : List Branch → Prop
  | [] => True
  | .mk _ body _ :: bs => Stmt.AlignedBlock body ∧ Stmt.AlignedBranches bs

end

/-- Each conditional of the program stands where its first branch does. -/
structure Program.Aligned (p : Program) : Prop where
  functions : ∀ f ∈ p.functions, Stmt.AlignedBlock f.body
  body : Stmt.AlignedBlock p.body

namespace Grammar

/-! ### Conditionals and their first branches -/

variable {lead : Token → String → Prop}

/-- A statement of one line has no conditional in it. -/
theorem Simple.aligned {ts : List Token} {s : Stmt} (h : Simple lead ts s) : s.Aligned := by
  cases h <;> simp only [Stmt.Aligned]

mutual

/-- A conditional and its first branch are derived with the position of the same word. -/
theorem Statement.aligned {ts rest : List Token} {s : Stmt} :
    Statement lead ts s rest → s.Aligned
  | .simple hs _ => hs.aligned
  | .loop _ _ _ hb => by
    rw [Stmt.Aligned]
    exact hb.aligned
  | .choose _ hb ho => by
    have hbs := hb.aligned
    have hlast := ho.aligned
    -- without a last block nothing is asked of it
    cases ho with
    | none =>
      rw [Stmt.Aligned]
      exact hbs
    | some _ _ _ =>
      rw [Stmt.Aligned]
      exact ⟨hbs.1, hbs.2, hlast _ rfl⟩

theorem Branches.aligned {span : Span} {ts rest : List Token} {bs : List Branch} :
    Branches lead span ts bs rest →
      bs.head?.map Branch.span = some span ∧ Stmt.AlignedBranches bs
  | .one _ _ hb => ⟨rfl, hb.aligned, trivial⟩
  | .more _ _ hb _ hm => ⟨rfl, hb.aligned, hm.aligned.2⟩

theorem Otherwise.aligned {ts rest : List Token} {last : Option (List Stmt)} :
    Otherwise lead ts last rest → ∀ body, last = some body → Stmt.AlignedBlock body
  | .none => nofun
  | .some _ _ hb => fun _ h => Option.some.inj h ▸ hb.aligned

theorem Block.aligned {ts rest : List Token} {body : List Stmt} :
    Block lead ts body rest → Stmt.AlignedBlock body
  | .mk _ h => h.aligned

theorem Items.aligned {ts rest : List Token} {ss : List Stmt} :
    Items lead ts ss rest → Stmt.AlignedBlock ss
  | .endOfTokens => trivial
  | .dedent _ => trivial
  | .newline _ h => h.aligned
  | .statement hs h => ⟨hs.aligned, h.aligned⟩

end

/-! ### Heads are line heads -/

/-- Positions of the line heads of some tokens. -/
def places (fresh : Bool) (ts : List Token) : List Span := (lineHeads fresh ts).map Token.span

/-- Tokens within a line are no line heads. -/
theorem places_inline {ts : List Token} (hts : ∀ t ∈ ts, t.kind.isLayout = false)
    (us : List Token) : places false (ts ++ us) = places false us := by
  rw [places, lineHeads_inline hts, places]

/-- The first token of a line is one. -/
theorem places_head {t : Token} {kind : Kind} (ht : t.kind = kind) (hkind : kind.isLayout = false)
    (ts : List Token) : places true (t :: ts) = t.span :: places false ts := by
  rw [places, lineHeads_fresh (inline_of_kind ht hkind), List.map_cons, places]

/-- After a token of the layout a line begins. -/
theorem places_layout {t : Token} {kind : Kind} (ht : t.kind = kind) (hkind : kind.isLayout = true)
    (fresh : Bool) (ts : List Token) : places fresh (t :: ts) = places true ts := by
  rw [places, lineHeads_layout (by rwa [ht]), places]

/-- One token within a line. -/
theorem places_cons {t : Token} {kind : Kind} (ht : t.kind = kind) (hkind : kind.isLayout = false)
    (ts : List Token) : places false (t :: ts) = places false ts :=
  places_inline (List.forall_mem_singleton.mpr (inline_of_kind ht hkind)) ts

/-- Behind a condition and a colon comes a block. -/
theorem places_header {es : List Token} {e : Expr} {c : Token} (he : Expression es e)
    (hc : c.kind = .colon) (ts : List Token) :
    places false (es ++ c :: ts) = places false ts := by
  rw [places_inline he.inline, places_cons hc rfl]

/-- A statement on one line ends where a line begins. -/
theorem Ended.places_eq {ts rest : List Token} (h : Ended ts rest) :
    places false ts = places true rest := by
  cases h with
  | newline hn => rw [places_layout hn rfl]
  | dedent hd => rw [places_layout hd rfl, places_layout hd rfl]
  | endOfTokens => rfl

/-- A statement on one line has its first token as its head. -/
theorem Simple.places_eq {ts : List Token} {s : Stmt} (h : Simple Leads ts s) (us : List Token) :
    places true (ts ++ us) = s.heads ++ places false us := by
  obtain ⟨t, ts', rfl, hspan⟩ : ∃ t ts', ts = t :: ts' ∧ s.heads = [t.span] := by
    cases h <;> exact ⟨_, _, rfl, by simp only [Stmt.heads]⟩
  obtain ⟨ht, hts⟩ := List.forall_mem_cons.mp h.inline
  rw [List.cons_append, places_head rfl ht, places_inline hts, hspan]
  rfl

/-- The heads of a last block, if there is one. -/
def headsOfLast : Option (List Stmt) → List Span
  | none => []
  | some body => Stmt.headsOfBlock body

/-- The heads of a conditional with or without a last block, in one equation. -/
theorem heads_choose (bs : List Branch) (last : Option (List Stmt)) (span : Span) :
    (Stmt.choose bs last span).heads =
      span :: ((Stmt.headsOfBranches bs).tail ++ headsOfLast last) := by
  cases last with
  | none => rw [Stmt.heads, headsOfLast, List.append_nil]
  | some body => rw [Stmt.heads, headsOfLast]

/-- The first of some branches stands where their first word does. -/
theorem Branches.headsOfBranches_eq {span : Span} {ts rest : List Token} {bs : List Branch}
    (h : Branches lead span ts bs rest) :
    Stmt.headsOfBranches bs = span :: (Stmt.headsOfBranches bs).tail := by
  cases h <;> simp only [Stmt.headsOfBranches, List.tail_cons]

mutual

/-- **The heads of a statement are line heads of its tokens**, and what is left begins a line. By
recursion on the derivation; the word `else` is a line head that no part of the tree stands for,
which is why there may be more of them. -/
theorem Statement.heads {ts rest : List Token} {s : Stmt} :
    Statement Leads ts s rest → s.heads ++ places true rest <+ places true ts
  | .simple hs he => by
    rw [hs.places_eq, he.places_eq]
  | .loop hw he hc hb => by
    rw [places_head hw rfl, places_header he hc, Stmt.heads, List.cons_append]
    exact hb.heads.cons_cons _
  | .choose hi hb ho => by
    rw [places_head hi rfl, heads_choose, List.cons_append, List.append_assoc]
    -- the heads of the last block come after those of the branches, among what these have left
    exact ((ho.heads.append_left _).trans hb.heads).cons_cons _

/-- The first word of the branches is taken already. -/
theorem Branches.heads {span : Span} {ts rest : List Token} {bs : List Branch} :
    Branches Leads span ts bs rest →
      (Stmt.headsOfBranches bs).tail ++ places true rest <+ places false ts
  | .one he hc hb => by
    rw [places_header he hc, Stmt.headsOfBranches, List.tail_cons, Stmt.headsOfBranches,
      List.append_nil]
    exact hb.heads
  | .more he hc hb hi hm => by
    -- the next branch begins with the word that stands behind the block
    have hblock := hb.heads
    rw [places_head hi rfl] at hblock
    rw [places_header he hc, Stmt.headsOfBranches, List.tail_cons, hm.headsOfBranches_eq,
      List.append_assoc, List.cons_append]
    exact ((hm.heads.cons_cons _).append_left _).trans hblock

theorem Otherwise.heads {ts rest : List Token} {last : Option (List Stmt)} :
    Otherwise Leads ts last rest → headsOfLast last ++ places true rest <+ places true ts
  | .none => List.Sublist.refl _
  | .some hw hc hb => by
    rw [places_head hw rfl, places_cons hc rfl]
    exact hb.heads.cons _

theorem Block.heads {ts rest : List Token} {body : List Stmt} :
    Block Leads ts body rest → Stmt.headsOfBlock body ++ places true rest <+ places false ts
  | .mk hi h => by
    rw [places_layout hi rfl]
    exact h.heads

theorem Items.heads {ts rest : List Token} {ss : List Stmt} :
    Items Leads ts ss rest → Stmt.headsOfBlock ss ++ places true rest <+ places true ts
  | .endOfTokens => List.Sublist.refl _
  | .dedent hd => by
    rw [places_layout hd rfl]
    exact List.Sublist.refl _
  | .newline hn h => by
    rw [places_layout hn rfl]
    exact h.heads
  | .statement hs h => by
    -- behind a statement the next token is again at the beginning of a line
    rw [Stmt.headsOfBlock, List.append_assoc]
    exact (h.heads.append_left _).trans hs.heads

end

/-- The head of a function is its first word; the rest of its first line is within the line
(`places_inline`). -/
theorem FunctionDef.heads {ts rest : List Token} {f : Function} (h : FunctionDef Leads ts f rest) :
    f.heads ++ places true rest <+ places true ts := by
  cases h with
  | mk hd hn hl hps ha hr hc hb =>
    rw [places_head hd rfl, places_cons hn.1 rfl, places_cons hl rfl,
      places_inline (hps.inline Parameter.inline), places_cons ha rfl,
      places_cons rfl (inline_of_some hr (by decide)), places_cons hc rfl, Function.heads,
      List.cons_append]
    exact hb.heads.cons_cons _

/-- The conditionals in a function. -/
theorem FunctionDef.aligned {ts rest : List Token} {f : Function}
    (h : FunctionDef lead ts f rest) : Stmt.AlignedBlock f.body := by
  cases h with
  | mk _ _ _ _ _ _ _ hb => exact hb.aligned

/-! ### Modules -/

/-- The heads of a part of a module. -/
def Item.heads : Item → List Span
  | .function f => f.heads
  | .statement s => s.heads

/-- Each conditional of this part stands where its first branch does. -/
def Item.Aligned : Item → Prop
  | .function f => Stmt.AlignedBlock f.body
  | .statement s => s.Aligned

/-- **The heads of a module are line heads of its tokens**, in the order of the text, from
`FunctionDef.heads` and `Statement.heads`. -/
theorem Module.heads {ts : List Token} {is : List Item} (h : Module Leads ts is) :
    is.flatMap Item.heads <+ places true ts := by
  induction h with
  | nil => exact List.Sublist.refl _
  -- a line break begins a line and heads nothing
  | newline hn _ ih =>
    rw [places_layout hn rfl]
    exact ih
  | function hf _ ih =>
    rw [List.flatMap_cons]
    exact (ih.append_left _).trans hf.heads
  | statement hs _ ih =>
    rw [List.flatMap_cons]
    exact (ih.append_left _).trans hs.heads

/-- The conditionals in all parts of a module. -/
theorem Module.aligned {ts : List Token} {is : List Item} (h : Module lead ts is) :
    ∀ i ∈ is, i.Aligned := by
  induction h with
  | nil => exact nofun
  | newline _ _ ih => exact ih
  | function hf _ ih => exact List.forall_mem_cons.mpr ⟨hf.aligned, ih⟩
  | statement hs _ ih => exact List.forall_mem_cons.mpr ⟨hs.aligned, ih⟩

/-- A program keeps the order among its functions and among its statements. -/
theorem Item.heads_program (is : List Item) :
    ((Item.program is).functions.flatMap Function.heads <+ is.flatMap Item.heads ∧
      Stmt.headsOfBlock (Item.program is).body <+ is.flatMap Item.heads) ∧
      (Item.program is).heads ~ is.flatMap Item.heads := by
  induction is with
  | nil => exact ⟨⟨List.Sublist.refl _, List.Sublist.refl _⟩, List.Perm.refl _⟩
  | cons i is ih =>
    obtain ⟨⟨hfunctions, hbody⟩, hperm⟩ := ih
    rw [List.flatMap_cons]
    cases i with
    -- a function comes first in the program as it does among the parts
    | function f =>
      refine ⟨⟨?_, hbody.trans (List.sublist_append_right _ _)⟩, ?_⟩
      · exact hfunctions.append_left f.heads
      · show (f.heads ++ (Item.program is).functions.flatMap Function.heads) ++ _ ~ _
        rw [List.append_assoc]
        exact hperm.append_left f.heads
    | statement s =>
      refine ⟨⟨hfunctions.trans (List.sublist_append_right _ _), ?_⟩, ?_⟩
      · exact hbody.append_left s.heads
      · -- the functions are moved before the statement
        refine List.Perm.trans ?_ (hperm.append_left s.heads)
        show (Item.program is).functions.flatMap Function.heads ++ (s.heads ++ _) ~
          s.heads ++ ((Item.program is).functions.flatMap Function.heads ++ _)
        rw [← List.append_assoc, ← List.append_assoc]
        exact List.perm_append_comm.append_right _

/-- A program is aligned if its parts are. -/
theorem Item.aligned_program {is : List Item} (h : ∀ i ∈ is, i.Aligned) :
    (Item.program is).Aligned := by
  induction is with
  | nil => exact ⟨nofun, trivial⟩
  | cons i is ih =>
    obtain ⟨hi, his⟩ := List.forall_mem_cons.mp h
    cases i with
    | function f => exact ⟨List.forall_mem_cons.mpr ⟨hi, (ih his).functions⟩, (ih his).body⟩
    | statement s => exact ⟨(ih his).functions, hi, (ih his).body⟩

end Grammar

namespace Source

open Grammar

/-- **One statement to a line, with any tab width.** The heads of the parts are among the heads of
the lines (`Module.heads`), and these begin their lines and ascend (`tokenize_lineHeads`); putting
the functions before the body keeps the order within each (`Item.heads_program`). -/
theorem analyze_heads {tabWidth : UInt64} {text : String} {table : SymbolTable} {p : Program}
    (h : analyze tabWidth text = .ok (table, p)) :
    (∀ span ∈ p.heads, BeginsLine text.toList span) ∧ (p.heads.map Span.line).Nodup ∧ p.Aligned ∧
      ((Stmt.headsOfBlock p.body).map Span.line).Pairwise (· < ·) ∧
      ∀ f ∈ p.functions, (f.heads.map Span.line).Pairwise (· < ·) := by
  obtain ⟨ts, hts, hparse⟩ := analyze_eq_ok_iff.mp h
  obtain ⟨is, his, rfl, -⟩ := Parser.parse_eq_ok_iff.mp hparse
  obtain ⟨hbegins, hascending⟩ := tokenize_lineHeads hts
  obtain ⟨⟨hfunctions, hbody⟩, hperm⟩ := Item.heads_program is
  -- in the order of the text, the heads of the parts ascend like the line heads they are among
  have hlines : ((is.flatMap Item.heads).map Span.line).Pairwise (· < ·) := by
    refine List.Pairwise.sublist (his.heads.map Span.line) ?_
    rw [places, List.map_map]
    exact hascending
  refine ⟨fun span hspan => ?_, ?_, Item.aligned_program his.aligned, ?_, fun f hf => ?_⟩
  · -- each head is a line head
    obtain ⟨t, ht, rfl⟩ := List.mem_map.mp (his.heads.subset (hperm.subset hspan))
    exact hbegins t ht
  · -- no two on one line: what ascends does not repeat
    rw [(hperm.map Span.line).nodup_iff]
    exact hlines.imp Nat.ne_of_lt
  · exact hlines.sublist (hbody.map Span.line)
  · have hsublist : f.heads <+ (Item.program is).functions.flatMap Function.heads :=
      List.sublist_flatten_of_mem (List.mem_map_of_mem hf)
    exact hlines.sublist ((hsublist.trans hfunctions).map Span.line)

/-- **One statement to a line.** Of the functions, statements and further branches of a text that is
read without a fault:

* each stands at the first character of its line that is not blank;
* no two of them stand on one line, and a conditional stands where its first branch does;
* those of the module body, in the order of the tree, stand on later and later lines, and so do
  those of each function, the function itself before its statements. -/
theorem parse_heads {s : Settings} {text : String} {table : SymbolTable} {p : Program}
    (h : parse s text = .ok (table, p)) :
    (∀ span ∈ p.heads, BeginsLine text.toList span) ∧ (p.heads.map Span.line).Nodup ∧ p.Aligned ∧
      ((Stmt.headsOfBlock p.body).map Span.line).Pairwise (· < ·) ∧
      ∀ f ∈ p.functions, (f.heads.map Span.line).Pairwise (· < ·) :=
  analyze_heads (parse_eq_ok_iff.mp h).2

/-- Statements between the parts of a function and behind it, comments, and steps out of two
blocks at once. -/
def ladderText : String := String.join [
  "x = 1 # one\n",
  "def f(a: int) -> None:\n",
  "\n",
  "  while a:\n",
  "    if a == 1:\n",
  "        g()\n",
  "    # between\n",
  "    elif a:\n",
  "        return\n",
  "if x:\n",
  "\tf(x)\n",
  "else:\n",
  "\tf(2)\n"]

/-- The heads as they are computed, functions first, with what is said of them above. -/
theorem parse_ladderText :
    ∃ table p, parse .standard ladderText = .ok (table, p) ∧
      p.heads = [⟨2, 1⟩, ⟨4, 3⟩, ⟨5, 5⟩, ⟨6, 9⟩, ⟨8, 5⟩, ⟨9, 9⟩, ⟨1, 1⟩, ⟨10, 1⟩, ⟨11, 2⟩,
        ⟨13, 2⟩] ∧
      (∀ span ∈ p.heads, BeginsLine ladderText.toList span) ∧ (p.heads.map Span.line).Nodup ∧
      p.Aligned ∧ ((Stmt.headsOfBlock p.body).map Span.line).Pairwise (· < ·) ∧
      ∀ f ∈ p.functions, (f.heads.map Span.line).Pairwise (· < ·) := by
  have hheads : ((parse .standard ladderText).toOption.map fun parsed => parsed.2.heads) = some
      [⟨2, 1⟩, ⟨4, 3⟩, ⟨5, 5⟩, ⟨6, 9⟩, ⟨8, 5⟩, ⟨9, 9⟩, ⟨1, 1⟩, ⟨10, 1⟩, ⟨11, 2⟩, ⟨13, 2⟩] := by
    decide +kernel
  -- the heads are evaluated; that they begin lines is the theorem
  cases hp : parse .standard ladderText with
  | error fault =>
    rw [hp] at hheads
    cases hheads
  | ok parsed =>
    rw [hp] at hheads
    obtain ⟨table, p⟩ := parsed
    exact ⟨table, p, rfl, Option.some.inj hheads, parse_heads hp⟩

end Source

end Offside
