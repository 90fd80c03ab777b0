import Mathlib.Data.List.Basic
import Mathlib.Tactic.SplitIfs
import Offside.Program.Types

/-!
# Grouping by precedence

An expression of C++ that has no parentheses is a sequence of operands with operators between them.
The ranks of the operators decide alone how it is grouped: an operator binds tighter the lower its
rank, and of two operators of one rank the first binds tighter, except that assignments group from
the right.

A tree is `Grouped` if each operator in it has operands that belong to it by that rule. The tree of
a sequence is built from left to right, each operator taking the place on the right edge that its
rank gives it (`Tree.attach`). It is the only grouped tree of its sequence
(`Tree.ofSequence_eq_iff`).

What becomes of a part of a sequence is settled by the operators around it. If it stands between an
operator that all its own operators bind tighter than, and another one that does not, then its tree
is an operand in the tree of the whole (`Tree.mem_operands_of_between`). If one of its operators
binds less tightly, its tree is no operand there (`Tree.not_mem_operands_of_rank`).
-/

namespace Offside.Cpp

/-! ### Operators -/

/-- The operators that stand between operands: those of the source language, and the two that the
emitted statements have of their own. -/
inductive Op where
  | insert
  | assign
  | operation (op : BinaryOp)
  deriving DecidableEq

namespace Op

/-- **The rank of an operator.** An operator of a lower rank binds tighter. -/
def rank : Op → Nat
  | .operation .mul | .operation .div | .operation .mod => 0
  | .operation .add | .operation .sub => 1
  | .insert => 2
  | .operation .lt | .operation .le | .operation .gt | .operation .ge => 3
  | .operation .eq | .operation .ne => 4
  | .operation .and => 5
  | .operation .or => 6
  | .assign => 7

/-- Whether an operator goes below another one that stands before it. -/
def under (op o : Op) : Bool := op.rank < o.rank || (op = .assign && o = .assign)

/-- The test as a proposition: a tighter rank, or two assignments. -/
theorem under_iff {op o : Op} :
    op.under o = true ↔ op.rank < o.rank ∨ (op = .assign ∧ o = .assign) := by
  simp [under]

/-- Its negation bounds the rank from below, which is what `rank_root_le` needs of a left operand.
-/
theorem not_under_iff {op o : Op} :
    op.under o = false ↔ o.rank ≤ op.rank ∧ ¬ (op = .assign ∧ o = .assign) := by
  rw [Bool.eq_false_iff, Ne, under_iff, not_or, Nat.not_lt]

/-- Two assignments are of one rank, so `under` never goes to a looser rank. -/
theorem rank_le_of_under {op o : Op} (h : op.under o = true) : op.rank ≤ o.rank := by
  rcases under_iff.mp h with h | ⟨rfl, rfl⟩
  · exact Nat.le_of_lt h
  · exact Nat.le_refl _

/-- Only assignments have the rank of an assignment. -/
theorem eq_assign_of_rank {op : Op} (h : assign.rank ≤ op.rank) : op = .assign := by
  rcases op with _ | _ | op
  · exact absurd h (by decide)
  · rfl
  · cases op <;> exact absurd h (by decide)

/-- `under` is transitive. Of two assignments the second may stand for the first. -/
theorem under_trans {a b c : Op} (hab : a.under b = true) (hbc : b.under c = true) :
    a.under c = true := by
  rcases under_iff.mp hab with hab | ⟨rfl, rfl⟩
  · exact under_iff.mpr (.inl (Nat.lt_of_lt_of_le hab (rank_le_of_under hbc)))
  · exact hbc

/-- What an operator is not under goes below whatever that operator is under. -/
theorem under_of_not_under {a b c : Op} (hab : b.under a = false) (hbc : b.under c = true) :
    a.under c = true := by
  obtain ⟨hle, hne⟩ := not_under_iff.mp hab
  rcases under_iff.mp hbc with hbc | ⟨rfl, rfl⟩
  · exact under_iff.mpr (.inl (Nat.lt_of_le_of_lt hle hbc))
  · -- below an assignment: `a` is no assignment, for then `b`, an assignment too, would go below it
    refine under_iff.mpr (.inl (Nat.lt_of_le_of_ne hle ?_))
    intro hrank
    exact hne ⟨rfl, eq_assign_of_rank (Nat.le_of_eq hrank.symm)⟩

end Op

/-! ### Trees -/

/-- Operands grouped by operators. -/
inductive Tree (α : Type) where
  | leaf (x : α)
  | node (op : Op) (left right : Tree α)
  deriving DecidableEq

namespace Tree

variable {α : Type}

/-- The operator at the root, if there is one. -/
def root? : Tree α → Option Op
  | .leaf _ => none
  | .node op _ _ => some op

/-- The first operand. -/
def first : Tree α → α
  | .leaf x => x
  | .node _ left _ => left.first

/-- The operators in order, each with the operand after it. -/
def rest : Tree α → List (Op × α)
  | .leaf _ => []
  | .node op left right => left.rest ++ (op, right.first) :: right.rest

/-- **The tree is grouped by precedence.** The operator at a root would not go below the one at the
root of its left operand, and the one at the root of its right operand goes below it. -/
def Grouped : Tree α → Prop
  | .leaf _ => True
  | .node op left right =>
    (∀ o ∈ left.root?, op.under o = false) ∧ (∀ o ∈ right.root?, o.under op = true) ∧
      left.Grouped ∧ right.Grouped

/-- Put an operator and an operand behind a tree. -/
def attach : Tree α → Op → α → Tree α
  | .leaf x, op, y => .node op (.leaf x) (.leaf y)
  | .node o left right, op, y =>
    if op.under o then .node o left (right.attach op y)
    else .node op (.node o left right) (.leaf y)

/-- Put operators behind a tree, each with the operand after it. -/
def extend (t : Tree α) (more : List (Op × α)) : Tree α :=
  more.foldl (fun t pair => t.attach pair.1 pair.2) t

/-- **The tree of a sequence**: an operand, and operators each with the operand after it. -/
def ofSequence (x : α) (more : List (Op × α)) : Tree α := (leaf x).extend more

@[simp] theorem extend_nil (t : Tree α) : t.extend [] = t := rfl

/-- Operators are put behind a tree one after another. -/
theorem extend_cons (t : Tree α) (op : Op) (y : α) (more : List (Op × α)) :
    t.extend ((op, y) :: more) = (t.attach op y).extend more := rfl

/-- `extend` is a fold, so it splits where the list does. -/
theorem extend_append (t : Tree α) (more more' : List (Op × α)) :
    t.extend (more ++ more') = (t.extend more).extend more' := List.foldl_append

/-! ### The tree of a sequence is grouped -/

/-- The first operand is on the left edge, which `attach` does not touch. -/
theorem first_attach (t : Tree α) (op : Op) (y : α) : (t.attach op y).first = t.first := by
  induction t with
  | leaf x => rfl
  | node o left right _ _ =>
    unfold attach
    split_ifs <;> rfl

/-- Wherever the operator ends up in the tree, in the sequence it stands last. -/
theorem rest_attach (t : Tree α) (op : Op) (y : α) :
    (t.attach op y).rest = t.rest ++ [(op, y)] := by
  induction t with
  | leaf x => rfl
  | node o left right _ ih =>
    unfold attach
    split_ifs
    · rw [rest, rest, ih, first_attach, List.append_assoc, List.cons_append]
    · rfl

/-- At the root stays what was there, or the new operator comes there. -/
theorem root?_attach {t : Tree α} {op o : Op} {y : α} (h : o ∈ (t.attach op y).root?) :
    o = op ∨ o ∈ t.root? := by
  cases t with
  | leaf x =>
    cases h
    exact .inl rfl
  | node o' left right =>
    unfold attach at h
    split_ifs at h
    · exact .inr h
    · cases h
      exact .inl rfl

/-- **One operator keeps a tree grouped.** The induction goes down the right edge, since `attach`
does; `root?_attach` says what may stand at the new root. -/
theorem grouped_attach {t : Tree α} (ht : t.Grouped) (op : Op) (y : α) :
    (t.attach op y).Grouped := by
  induction t with
  | leaf x => exact ⟨nofun, nofun, trivial, trivial⟩
  | node o left right _ ih =>
    obtain ⟨hleft, hright, hl, hr⟩ := ht
    unfold attach
    split_ifs with hunder
    · -- the right operand may have a new root, and then it is the new operator
      refine ⟨hleft, fun o' ho' => ?_, hl, ih hr⟩
      rcases root?_attach ho' with rfl | ho'
      · exact hunder
      · exact hright o' ho'
    · -- the whole tree becomes the left operand
      refine ⟨fun o' ho' => ?_, nofun, ⟨hleft, hright, hl, hr⟩, trivial⟩
      cases ho'
      exact Bool.eq_false_iff.mpr hunder

/-- The run of `grouped_attach`: any number of operators keep a tree grouped. -/
theorem grouped_extend {t : Tree α} (ht : t.Grouped) (more : List (Op × α)) :
    (t.extend more).Grouped := by
  induction more generalizing t with
  | nil => exact ht
  | cons pair more ih => exact ih (grouped_attach ht pair.1 pair.2)

/-- A single operand is grouped, so `grouped_extend` applies from the start. -/
theorem grouped_ofSequence (x : α) (more : List (Op × α)) : (ofSequence x more).Grouped :=
  grouped_extend (t := leaf x) trivial more

/-- The run of `rest_attach`: the sequence of the tree is the sequence that it was built from. -/
theorem rest_extend (t : Tree α) (more : List (Op × α)) :
    (t.extend more).rest = t.rest ++ more := by
  induction more generalizing t with
  | nil => simp
  | cons pair more ih =>
    rw [extend_cons, ih, rest_attach, List.append_assoc, List.singleton_append]

/-- The run of `first_attach`. -/
theorem first_extend (t : Tree α) (more : List (Op × α)) : (t.extend more).first = t.first := by
  induction more generalizing t with
  | nil => rfl
  | cons pair more ih => rw [extend_cons, ih, first_attach]

/-! ### There is no other grouped tree -/

/-- What goes below an operator with its root does so with all its operators. -/
theorem under_of_mem_rest {t : Tree α} {op : Op} (ht : t.Grouped)
    (hroot : ∀ o ∈ t.root?, o.under op = true) : ∀ pair ∈ t.rest, pair.1.under op = true := by
  induction t with
  | leaf x => exact nofun
  | node o left right ihl ihr =>
    obtain ⟨hleft, hright, hl, hr⟩ := ht
    have ho : o.under op = true := hroot o rfl
    refine List.forall_mem_append.mpr ⟨?_, List.forall_mem_cons.mpr ⟨ho, ?_⟩⟩
    · -- the left root need not go below `o`, but `o` does not go below it either, which is enough
      exact ihl hl fun o' ho' => Op.under_of_not_under (hleft o' ho') ho
    · exact ihr hr fun o' ho' => Op.under_trans (hright o' ho') ho

/-- Operators that go below a root end up in its right operand. -/
theorem extend_node {op : Op} {left right : Tree α} {more : List (Op × α)}
    (h : ∀ pair ∈ more, pair.1.under op = true) :
    (node op left right).extend more = node op left (right.extend more) := by
  induction more generalizing right with
  | nil => rfl
  | cons pair more ih =>
    obtain ⟨hpair, hmore⟩ := List.forall_mem_cons.mp h
    rw [extend_cons, attach, if_pos hpair, ih hmore]
    rfl

/-- A grouped tree is the tree of its own sequence. -/
theorem ofSequence_rest {t : Tree α} (ht : t.Grouped) : ofSequence t.first t.rest = t := by
  unfold ofSequence
  induction t with
  | leaf x => rfl
  | node op left right ihl ihr =>
    obtain ⟨hleft, hright, hl, hr⟩ := ht
    -- behind the left operand the operator comes to the root, and all of the right one goes below
    have hattach : left.attach op right.first = node op left (leaf right.first) := by
      cases left with
      | leaf x => rfl
      | node o _ _ =>
        rw [attach, if_neg]
        rw [hleft o rfl]
        exact Bool.false_ne_true
    rw [first, rest, extend_append, ihl hl, extend_cons, hattach,
      extend_node (under_of_mem_rest hr hright), ihr hr]

/-- **The tree of a sequence** is the one grouped tree with that sequence. -/
theorem ofSequence_eq_iff {x : α} {more : List (Op × α)} {t : Tree α} :
    ofSequence x more = t ↔ t.Grouped ∧ t.first = x ∧ t.rest = more := by
  constructor
  · rintro rfl
    refine ⟨grouped_ofSequence x more, first_extend _ more, ?_⟩
    rw [ofSequence, rest_extend]
    rfl
  · rintro ⟨ht, rfl, rfl⟩
    exact ofSequence_rest ht

/-! ### Operands -/

/-- The operands of an operator, wherever it stands in the tree. -/
def operands (op : Op) : Tree α → List (Tree α)
  | .leaf _ => []
  | .node o left right =>
    (if o = op then [left, right] else []) ++ (left.operands op ++ right.operands op)

/-- The operands of an operator that stay what they are whatever comes behind the tree. -/
def settled (op : Op) : Tree α → List (Tree α)
  | .leaf _ => []
  | .node _ left right => left.operands op ++ right.settled op

/-- Settled operands are operands: on the right edge the root's own two are left out, and nothing is
added. -/
theorem settled_subset_operands (op : Op) (t : Tree α) : t.settled op ⊆ t.operands op := by
  induction t with
  | leaf x => exact List.Subset.refl _
  | node o left right _ ih =>
    refine List.subset_append_of_subset_right _ (List.append_subset.mpr ⟨?_, ?_⟩)
    · exact List.subset_append_left _ _
    · exact List.subset_append_of_subset_right _ ih

/-- **One operator leaves the settled operands settled.** If it comes to the root, the whole tree
moves to the left, where all operands count. -/
theorem settled_subset_attach (op : Op) (t : Tree α) (op' : Op) (y : α) :
    t.settled op ⊆ (t.attach op' y).settled op := by
  induction t with
  | leaf x => exact List.nil_subset _
  | node o left right _ ih =>
    unfold attach
    split_ifs
    · -- the left operand is untouched, and the right one is the induction's
      exact List.append_subset.mpr
        ⟨List.subset_append_left _ _, List.subset_append_of_subset_right _ ih⟩
    · exact List.subset_append_of_subset_left _ (settled_subset_operands op _)

/-- The run of `settled_subset_attach`. -/
theorem settled_subset_extend (op : Op) (t : Tree α) (more : List (Op × α)) :
    t.settled op ⊆ (t.extend more).settled op := by
  induction more generalizing t with
  | nil => exact List.Subset.refl _
  | cons pair more ih => exact List.Subset.trans (settled_subset_attach op t pair.1 pair.2) (ih _)

/-- The tree ends with an operand of the operator: on its right edge there are operators that this
one goes below, and then the operator itself with that operand on its right. -/
inductive Ends (op : Op) (t : Tree α) : Tree α → Prop
  | here (left : Tree α) : Ends op t (.node op left t)
  | beneath {o : Op} (left : Tree α) {right : Tree α} :
    op.under o = true → Ends op t right → Ends op t (.node o left right)

/-- The operand that has just been put behind a tree is the one it ends with. -/
theorem ends_attach (t : Tree α) (op : Op) (y : α) : Ends op (leaf y) (t.attach op y) := by
  induction t with
  | leaf x => exact .here _
  | node o left right _ ih =>
    unfold attach
    split_ifs with hunder
    · exact .beneath left hunder ih
    · exact .here _

namespace Ends

variable {op : Op} {t whole : Tree α}

/-- What a tree ends with is an operand of it: the constructors of `Ends` lead down the right edge
to it. -/
theorem mem_operands (h : Ends op t whole) : t ∈ whole.operands op := by
  induction h with
  | here left => simp [operands]
  | beneath left _ _ ih => exact List.mem_append_right _ (List.mem_append_right _ ih)

/-- An operator that binds tighter goes on in the operand. -/
theorem attach (h : Ends op t whole) {op' : Op} (hunder : op'.under op = true) (y : α) :
    Ends op (t.attach op' y) (whole.attach op' y) := by
  induction h with
  | here left =>
    rw [Tree.attach, if_pos hunder]
    exact .here left
  | beneath left ho _ ih =>
    rw [Tree.attach, if_pos (Op.under_trans hunder ho)]
    exact .beneath left ho ih

/-- The run of `Ends.attach`: the operand grows as the whole does, as long as each operator binds
tighter. -/
theorem extend (h : Ends op t whole) {more : List (Op × α)}
    (hmore : ∀ pair ∈ more, pair.1.under op = true) :
    Ends op (t.extend more) (whole.extend more) := by
  induction more generalizing t whole with
  | nil => exact h
  | cons pair more ih =>
    obtain ⟨hpair, hmore⟩ := List.forall_mem_cons.mp hmore
    exact ih (h.attach hpair pair.2) hmore

/-- An operator that does not bind tighter settles the operand. -/
theorem mem_settled (h : Ends op t whole) {op' : Op} (hunder : op'.under op = false) (y : α) :
    t ∈ (whole.attach op' y).settled op := by
  induction h with
  | here left =>
    rw [Tree.attach, if_neg (by simp [hunder])]
    -- the new operator comes to the root, with all that `t` stands in on its left
    exact List.mem_append_left _ (mem_operands (.here left))
  | @beneath o left right ho h ih =>
    unfold Tree.attach
    split_ifs
    · exact List.mem_append_right _ ih
    · exact List.mem_append_left _ (mem_operands (.beneath left ho h))

end Ends

/-- **A part of a sequence is an operand in the whole** if the operator before it binds less tightly
than all its own, and the one behind it does not bind tighter than that. -/
theorem mem_operands_of_between (before : Tree α) {op op' : Op} (x y : α) {more : List (Op × α)}
    (after : List (Op × α)) (hmore : ∀ pair ∈ more, pair.1.under op = true)
    (hbehind : op'.under op = false) :
    ofSequence x more ∈
      (((before.attach op x).extend more).extend ((op', y) :: after)).operands op := by
  -- up to `op'` the operand grows, at `op'` it is settled, and from there on it stays
  have hends := (ends_attach before op x).extend hmore
  have hsettled := hends.mem_settled hbehind y
  exact settled_subset_operands _ _ (settled_subset_extend op _ after hsettled)

/-- **A part of a sequence is the last operand of the whole** if the operator before it binds less
tightly than all its own and nothing comes behind. -/
theorem mem_operands_of_last (before : Tree α) {op : Op} (x : α) {more : List (Op × α)}
    (hmore : ∀ pair ∈ more, pair.1.under op = true) :
    ofSequence x more ∈ ((before.attach op x).extend more).operands op :=
  ((ends_attach before op x).extend hmore).mem_operands

/-- The operator at the root of an operand does not bind less tightly. -/
theorem rank_root_le {whole t : Tree α} {op : Op} (hwhole : whole.Grouped)
    (ht : t ∈ whole.operands op) : ∀ o ∈ t.root?, o.rank ≤ op.rank := by
  induction whole with
  | leaf x => cases ht
  | node o' left right ihl ihr =>
    obtain ⟨hleft, hright, hl, hr⟩ := hwhole
    rcases List.mem_append.mp ht with ht | ht
    · -- an operand of the root: a left one is no tighter by `Grouped`, a right one goes below
      split_ifs at ht with hop
      · intro o ho
        rw [← hop]
        rcases List.mem_cons.mp ht with rfl | ht
        · exact (Op.not_under_iff.mp (hleft o ho)).1
        · cases List.mem_singleton.mp ht
          exact Op.rank_le_of_under (hright o ho)
      · cases ht
    · rcases List.mem_append.mp ht with ht | ht
      · exact ihl hl ht
      · exact ihr hr ht

/-- The operator at the root of a grouped tree binds less tightly than any other in it, or just as
tightly. -/
theorem exists_root_of_mem_rest {t : Tree α} (ht : t.Grouped) {pair : Op × α}
    (hpair : pair ∈ t.rest) : ∃ o ∈ t.root?, pair.1.rank ≤ o.rank := by
  induction t with
  | leaf x => cases hpair
  | node op left right ihl ihr =>
    obtain ⟨hleft, hright, hl, hr⟩ := ht
    refine ⟨op, rfl, ?_⟩
    -- in the left operand, at the root, or in the right one
    rcases List.mem_append.mp hpair with hpair | hpair
    · obtain ⟨o, ho, hle⟩ := ihl hl hpair
      exact Nat.le_trans hle (Op.not_under_iff.mp (hleft o ho)).1
    · rcases List.mem_cons.mp hpair with rfl | hpair
      · exact Nat.le_refl _
      · obtain ⟨o, ho, hle⟩ := ihr hr hpair
        exact Nat.le_trans hle (Op.rank_le_of_under (hright o ho))

/-- **A sequence with an operator that binds less tightly is no operand**, whatever stands around
it. -/
theorem not_mem_operands_of_rank {whole : Tree α} (hwhole : whole.Grouped) {op : Op} {x : α}
    {more : List (Op × α)} {pair : Op × α} (hpair : pair ∈ more) (hrank : op.rank < pair.1.rank) :
    ofSequence x more ∉ whole.operands op := by
  intro hmem
  -- the root of the part binds at most as tightly as the operator, and that is too loose for an
  -- operand
  have hrest : pair ∈ (ofSequence x more).rest := by
    rw [(ofSequence_eq_iff.mp rfl).2.2]
    exact hpair
  obtain ⟨o, ho, hle⟩ := exists_root_of_mem_rest (grouped_ofSequence x more) hrest
  have hroot := rank_root_le hwhole hmem o ho
  exact absurd (Nat.le_trans hle hroot) (Nat.not_le.mpr hrank)

end Tree

end Offside.Cpp
