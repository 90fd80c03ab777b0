import Offside.Proofs.Lexing.Steps

/-!
# Indentation along a run

Blocks are opened and closed in three places, and the tokens that close them wait in a queue before
they are handed out. What ties all this together is the **height** of a lexer: the blocks that are
open, and those that are no longer open but whose end has not been handed out. A step that opens a
block adds one to it, a step that hands out the end of a block takes one away, and no other step
changes it (`Step.height`).

The widths are a stack, and the width of the text itself is at its bottom. Two loops take widths off
the stack, one at a line that is less deep and one at the end of the text. Neither takes the last
one (`Step.grounded`): the first stops at a width that is not above that of the line, and zero is
above nothing; the second stops when one width is left.

* `Lexer.indents` — the widths of the open blocks, that of the text itself first;
* `Lexer.run` — any number of steps, which go on after faults;
* `Lexer.run_indents` — widths are in order, and blocks are in balance, after every run.

A line that is like none of the blocks around it ends the tokens, and the blocks that were open are
then never closed; balance is therefore claimed of runs without this fault. Even then no more blocks
have been closed than opened.
-/

namespace Offside.Lexer

/-- The widths of the open blocks from the outermost to the innermost. -/
def indents (l : Lexer) : List UInt64 := l.levels.reverse

/-- **So many steps**, whatever they answer: the answers, and the lexer after them. -/
def run : Nat → Lexer → List Answer × Lexer
  | 0, l => ([], l)
  | n + 1, l => (l.next.1 :: (run n l.next.2).1, (run n l.next.2).2)

/-- What each step keeps holds after any number of steps. -/
theorem run_invariant {P : Lexer → Prop} (hstep : ∀ {l a l'}, Step l a l' → P l → P l') {l : Lexer}
    (hl : P l) (n : Nat) : P (l.run n).2 := by
  induction n generalizing l with
  | zero => exact hl
  | succ n ih => exact ih (hstep l.step_next hl)

/-- A lexer that a step leaves as it is gives the answer of this step for ever. -/
theorem run_of_next_eq {l : Lexer} {a : Answer} (h : l.next = (a, l)) (n : Nat) :
    (l.run n).1 = List.replicate n a := by
  induction n with
  | zero => rfl
  | succ n ih => rw [run, h, ih, List.replicate_succ]

/-- Whether an answer is a token of a kind. -/
def gives (kind : Token.Kind) : Answer → Bool
  | some (.ok t) => t.kind = kind
  | _ => false

/-- How many of some answers are tokens of a kind. -/
def delivered (kind : Token.Kind) (answers : List Answer) : Nat := answers.countP (gives kind)

/-- How many tokens of a kind are due. -/
def due (kind : Token.Kind) (l : Lexer) : Nat := l.pending.countP fun t => t.kind = kind

/-- The answer is that a line is like none of the blocks around it. -/
def isInconsistent : Answer → Bool
  | some (.error (.fault e)) => e.fault = .inconsistentDedent
  | _ => false

/-! ### The order of the widths -/

/-- The stack has the innermost width first. -/
theorem indents_pairwise_iff {l : Lexer} :
    l.indents.Pairwise (· < ·) ↔ l.levels.Pairwise (· > ·) := List.pairwise_reverse

/-- The innermost width is the largest. -/
theorem le_level {l : Lexer} (h : l.levels.Pairwise (· > ·)) : ∀ w ∈ l.levels, w ≤ l.level := by
  unfold level
  cases hlevels : l.levels with
  | nil => simp
  | cons v vs =>
    rw [hlevels, List.pairwise_cons] at h
    exact List.forall_mem_cons.mpr ⟨UInt64.le_refl v, fun w hw => UInt64.le_of_lt (h.1 w hw)⟩

/-- **A step keeps the widths in order**, whatever it does. -/
theorem Step.ordered {l l' : Lexer} {a : Answer} (h : Step l a l')
    (hl : l.indents.Pairwise (· < ·)) : l'.indents.Pairwise (· < ·) := by
  rw [indents_pairwise_iff] at hl ⊢
  cases h with
  | finished _ _ => exact hl.sublist (List.drop_sublist _ _)
  | closing _ _ => exact hl.sublist (List.drop_sublist _ _)
  | opened _ _ _ hin =>
    refine List.pairwise_cons.mpr ⟨fun w hw => ?_, hl⟩
    exact UInt64.lt_of_le_of_lt (le_level hl w hw) hin
  | closed _ _ _ hsplit _ _ =>
    rw [hsplit] at hl
    exact (List.pairwise_append.mp hl).2.1
  | inconsistent _ _ _ hsplit _ =>
    rw [hsplit] at hl
    exact (List.pairwise_append.mp hl).2.1
  -- all other steps leave the blocks as they are
  | due _ => exact hl
  | exhausted _ _ => exact hl
  | token _ _ _ _ => exact hl
  | outOfRange _ _ _ _ => exact hl
  | unexpected _ _ _ _ => exact hl
  | indented _ _ => exact hl
  | continued _ _ _ => exact hl
  | trapped _ _ => exact hl

/-- The run of `Step.ordered`. -/
theorem run_ordered {l : Lexer} (n : Nat) (hl : l.indents.Pairwise (· < ·)) :
    (l.run n).2.indents.Pairwise (· < ·) :=
  run_invariant Step.ordered hl n

/-! ### The bottom of the stack -/

/-- The width of the text itself is at the bottom. -/
def Grounded (l : Lexer) : Prop := l.levels.getLast? = some 0

/-- A stack with a bottom is not empty. -/
theorem Grounded.ne_nil {l : Lexer} (h : l.Grounded) : l.levels ≠ [] := by
  intro hnil
  rw [Grounded, hnil] at h
  cases h

/-- The bottom is the first of the widths from the outermost on. -/
theorem Grounded.head?_indents {l : Lexer} (h : l.Grounded) : l.indents.head? = some 0 :=
  List.head?_reverse.trans h

/-- What is left when widths other than zero are taken off has the same bottom. -/
theorem Grounded.of_append {l : Lexer} {inner outer : List UInt64} (h : l.Grounded)
    (hsplit : l.levels = inner ++ outer) (hinner : ∀ level ∈ inner, level ≠ 0) :
    outer.getLast? = some 0 := by
  rw [Grounded, hsplit] at h
  cases outer with
  | nil =>
    rw [List.append_nil] at h
    exact absurd rfl (hinner 0 (List.mem_of_getLast? h))
  | cons w ws => rwa [List.getLast?_append_of_ne_nil _ (List.cons_ne_nil w ws)] at h

/-- At the end of the text all but one width are dropped, and what is left is the bottom. -/
theorem Grounded.ended {l : Lexer} (h : l.Grounded) : l.ended.Grounded := by
  have hpos := List.length_pos_of_ne_nil h.ne_nil
  have hlt : l.opened < l.levels.length := by
    unfold opened
    omega
  change (l.levels.drop l.opened).getLast? = some 0
  rw [List.getLast?_drop, if_neg (Nat.not_le.mpr hlt)]
  exact h

/-- **No step takes the width of the text itself off the stack.** -/
theorem Step.grounded {l l' : Lexer} {a : Answer} (h : Step l a l') (hl : l.Grounded) :
    l'.Grounded := by
  cases h with
  | finished _ _ => exact hl.ended
  | closing _ _ => exact hl.ended
  | opened _ _ _ _ => exact (List.getLast?_cons_of_ne_nil hl.ne_nil).trans hl
  | closed _ _ _ hsplit hinner _ => exact hl.of_append hsplit hinner
  | inconsistent _ _ _ hsplit hinner => exact hl.of_append hsplit hinner
  -- all other steps leave the blocks as they are
  | due _ => exact hl
  | exhausted _ _ => exact hl
  | token _ _ _ _ => exact hl
  | outOfRange _ _ _ _ => exact hl
  | unexpected _ _ _ _ => exact hl
  | indented _ _ => exact hl
  | continued _ _ _ => exact hl
  | trapped _ _ => exact hl

/-- The run of `Step.grounded`. -/
theorem run_grounded {l : Lexer} (n : Nat) (hl : l.Grounded) : (l.run n).2.Grounded :=
  run_invariant Step.grounded hl n

/-! ### The balance of the blocks -/

/-- Only the ends of blocks are due, the text itself is open, and after its end no other block. -/
structure Orderly (l : Lexer) : Prop where
  dedents : ∀ t ∈ l.pending, t.kind = .dedent
  grounded : l.Grounded
  done : l.phase = .done → l.opened = 0

/-- **The height**: the blocks whose end has not been handed out. -/
def height (l : Lexer) : Nat := l.pending.length + l.opened

/-- A new lexer is orderly: nothing is due and only the text is open. -/
theorem orderly_ofSource (tabWidth : UInt64) (source : String) :
    (ofSource tabWidth source).Orderly := ⟨by simp [ofSource], rfl, fun _ => rfl⟩

/-- At the end of the text nothing but the text itself is left. -/
theorem opened_ended (l : Lexer) : l.ended.opened = 0 := by
  simp only [opened, ended, List.length_drop]
  omega

/-- What is put in the queue are ends of blocks. -/
theorem dedents_replicate (n : Nat) (here : Span) :
    ∀ t ∈ List.replicate n (Token.plain .dedent here), t.kind = .dedent := by
  intro t ht
  rw [List.eq_of_mem_replicate ht]
  rfl

/-- One token counts for its own kind. -/
theorem delivered_token (kind : Token.Kind) (t : Token) :
    delivered kind [some (.ok t)] = if t.kind = kind then 1 else 0 := by
  simp [delivered, List.countP_singleton, gives]

/-- The same for a token of the layout. -/
theorem delivered_plain (kind given : Token.Kind) (here : Span) :
    delivered kind [some (.ok (.plain given here))] = if given = kind then 1 else 0 :=
  delivered_token kind (.plain given here)

section Step

variable {l l' : Lexer} {a : Answer}

/-- **A step keeps a lexer orderly**, if it does not find an inconsistent line: then the tokens end
with blocks open. -/
theorem Step.orderly (h : Step l a l') (hl : l.Orderly) (ha : isInconsistent a = false) :
    l'.Orderly := by
  have hgrounded := h.grounded hl.grounded
  cases h with
  | due hp =>
    refine ⟨fun t ht => hl.dedents t ?_, hgrounded, hl.done⟩
    rw [hp]
    exact List.mem_cons_of_mem _ ht
  | exhausted _ _ => exact hl
  | finished hends _ => exact ⟨by simp [ended, hends.idle], hgrounded, fun _ => l.opened_ended⟩
  | closing _ _ => exact ⟨dedents_replicate _ _, hgrounded, fun _ => l.opened_ended⟩
  | closed _ _ _ _ _ _ => exact ⟨dedents_replicate _ _, hgrounded, by simp [moved]⟩
  | inconsistent _ _ _ _ _ => simp [isInconsistent] at ha
  -- all other steps go on with the same tokens due
  | token _ _ _ _ => exact ⟨hl.dedents, hgrounded, by simp [moved]⟩
  | outOfRange _ _ _ _ => exact ⟨hl.dedents, hgrounded, by simp [moved]⟩
  | unexpected _ _ _ _ => exact ⟨hl.dedents, hgrounded, by simp [moved]⟩
  | indented _ _ => exact ⟨hl.dedents, hgrounded, by simp [moved]⟩
  | opened _ _ _ _ => exact ⟨hl.dedents, hgrounded, by simp [moved]⟩
  | continued _ _ _ => exact ⟨hl.dedents, hgrounded, by simp [moved]⟩
  | trapped _ _ => exact hl

/-- **What a step does to the height**: it is one more for each block opened, and one less for each
end of a block handed out. -/
theorem Step.height (h : Step l a l') (hl : l.Orderly) (ha : isInconsistent a = false) :
    l'.height + delivered .dedent [a] = l.height + delivered .indent [a] := by
  cases h with
  | @due t ts hp =>
    have ht : t.kind = .dedent := hl.dedents t (by simp [hp])
    rw [delivered_token, delivered_token, ht, if_pos rfl, if_neg (by decide)]
    simp only [Lexer.height, Lexer.opened, hp, List.length_cons]
    omega
  | exhausted _ _ => rfl
  | finished hends hopened =>
    have hend := l.opened_ended
    have hidle : l.ended.pending = [] := hends.idle
    simp only [Lexer.height, hend, hopened, hidle, hends.idle]
    rfl
  | @closing n hends hopened =>
    -- the first end is handed out and the others are due
    have hend : ({ l.ended with
        pending := List.replicate n (.plain .dedent (l.here.after l.rest))
        signed := true } : Lexer).opened = 0 := l.opened_ended
    rw [delivered_plain, delivered_plain, if_pos rfl, if_neg (by decide)]
    simp only [Lexer.height, hend, hopened, hends.idle, List.length_replicate, List.length_nil]
    omega
  | @token _ _ _ kind _ _ _ _ hm =>
    -- a lexeme is no token of the layout
    have hlayout := (Linewise.written_of_meaning? hm).isLayout
    have hindent : kind ≠ .indent := by rintro rfl; cases hlayout
    have hdedent : kind ≠ .dedent := by rintro rfl; cases hlayout
    rw [delivered_token, delivered_token, if_neg hindent, if_neg hdedent]
    rfl
  | outOfRange _ _ _ _ => rfl
  | unexpected _ _ _ _ => rfl
  | indented _ _ => rfl
  | opened _ _ _ _ =>
    rw [delivered_plain, delivered_plain, if_pos rfl, if_neg (by decide)]
    have hpos := List.length_pos_of_ne_nil hl.grounded.ne_nil
    simp only [Lexer.height, Lexer.opened, moved, List.length_cons]
    omega
  | continued _ _ _ => rfl
  | @closed _ _ _ _ outer hfinds _ _ hsplit hinner hlen =>
    -- the text itself is still open
    have hpos : 0 < outer.length :=
      List.length_pos_of_mem (List.mem_of_getLast? (hl.grounded.of_append hsplit hinner))
    rw [delivered_plain, delivered_plain, if_pos rfl, if_neg (by decide)]
    simp only [Lexer.height, Lexer.opened, hsplit, hfinds.idle, List.length_append,
      List.length_replicate, hlen, List.length_nil]
    omega
  | inconsistent _ _ _ _ _ => simp [isInconsistent] at ha
  | trapped _ _ => rfl

/-- A lexer that has nothing more to give has no end of a block to hand out. -/
theorem Step.height_of_none (h : Step l none l') (hl : l.Orderly) : l'.height = 0 := by
  generalize ha : (none : Answer) = a at h
  cases h with
  | exhausted hp hph => simp [Lexer.height, hp, hl.done hph]
  | finished hends _ =>
    have hidle : l.ended.pending = [] := hends.idle
    simp [Lexer.height, hidle, l.opened_ended]
  | _ => cases ha

/-- An inconsistent line is the last thing that is reported. -/
theorem Step.over_of_inconsistent (h : Step l a l') (ha : isInconsistent a = true) :
    l'.pending = [] ∧ l'.phase = .done := by
  cases h with
  | inconsistent hfinds _ _ _ _ => exact ⟨hfinds.idle, rfl⟩
  | _ => simp [isInconsistent] at ha

end Step

/-- After the end there are no more answers but the one that nothing comes. -/
theorem run_over {l : Lexer} (hp : l.pending = []) (hph : l.phase = .done) (n : Nat) :
    (l.run n).1 = List.replicate n none := by
  have hnext : l.next = (none, l) := by
    unfold next
    simp only [hp, hph]
  exact run_of_next_eq hnext n

/-- Tokens are counted answer by answer. -/
theorem delivered_cons (kind : Token.Kind) (a : Answer) (answers : List Answer) :
    delivered kind (a :: answers) = delivered kind [a] + delivered kind answers := by
  unfold delivered
  rw [List.countP_cons, List.countP_singleton, Nat.add_comm]

/-- No answer, no token. -/
theorem delivered_replicate_none (kind : Token.Kind) (n : Nat) :
    delivered kind (List.replicate n none) = 0 := by
  simp [delivered, List.countP_replicate, gives]

/-- **The balance of a run** that meets no inconsistent line. -/
theorem run_height {l : Lexer} (n : Nat) (hl : l.Orderly)
    (hrun : ∀ a ∈ (l.run n).1, isInconsistent a = false) :
    (l.run n).2.Orderly ∧ (l.run n).2.height + delivered .dedent (l.run n).1 =
      l.height + delivered .indent (l.run n).1 := by
  induction n generalizing l with
  | zero => exact ⟨hl, rfl⟩
  | succ n ih =>
    obtain ⟨ha, hmore⟩ := List.forall_mem_cons.mp hrun
    -- the balance of the first step, and of the run after it
    have hstep := l.step_next.height hl ha
    obtain ⟨horderly, hbalance⟩ := ih (l.step_next.orderly hl ha) hmore
    refine ⟨horderly, ?_⟩
    rw [run, delivered_cons .dedent, delivered_cons .indent]
    dsimp only
    omega

/-- In no run are more blocks closed than there were to close. -/
theorem run_dedents_le {l : Lexer} (n : Nat) (hl : l.Orderly) :
    delivered .dedent (l.run n).1 ≤ l.height + delivered .indent (l.run n).1 := by
  induction n generalizing l with
  | zero => exact Nat.zero_le _
  | succ n ih =>
    rw [run, delivered_cons .dedent, delivered_cons .indent]
    cases ha : isInconsistent l.next.1 with
    | false =>
      have hstep := l.step_next.height hl ha
      have hmore := ih (l.step_next.orderly hl ha)
      omega
    | true =>
      -- nothing is handed out any more
      obtain ⟨hp, hph⟩ := l.step_next.over_of_inconsistent ha
      have hnone : delivered .dedent [l.next.1] = 0 := by
        rcases hnext : l.next.1 with _ | halt | t <;> rw [hnext] at ha
        · cases ha
        · rfl
        · cases ha
      rw [run_over hp hph, delivered_replicate_none, hnone]
      exact Nat.zero_le _

/-- A run without an inconsistent line whose last answer is that nothing comes has handed out the
end of every block. -/
theorem height_of_run_none {l : Lexer} {n : Nat} (hl : l.Orderly)
    (hrun : ∀ a ∈ (l.run n).1, isInconsistent a = false)
    (hlast : (l.run n).1.getLast? = some none) : (l.run n).2.height = 0 := by
  induction n generalizing l with
  | zero => cases hlast
  | succ n ih =>
    obtain ⟨ha, hmore⟩ := List.forall_mem_cons.mp hrun
    cases n with
    | zero =>
      -- the last answer is that of the one step there is
      have hnone : l.next.1 = none := by simpa [run] using hlast
      have hstep := l.step_next
      rw [hnone] at hstep
      exact hstep.height_of_none hl
    | succ n =>
      refine ih (l.step_next.orderly hl ha) hmore ?_
      -- the last answer is that of the run after the first step, which is not empty
      have hcons : (l.next.2.run (n + 1)).1 ≠ [] := by simp [run]
      rwa [run, List.getLast?_cons_of_ne_nil hcons] at hlast

/-- The tokens that are due are the ends of blocks. -/
theorem Orderly.due_eq {l : Lexer} (h : l.Orderly) :
    due .dedent l = l.pending.length ∧ due .indent l = 0 := by
  constructor
  · exact List.countP_eq_length.mpr fun t ht => by simp [h.dedents t ht]
  · exact List.countP_eq_zero.mpr fun t ht => by simp [h.dedents t ht]

/-- **Indentation along every run.** After any number of steps of a lexer on any text, with faults
or without:

* the widths of the open blocks begin with zero and increase;
* if no line was inconsistent, then the blocks opened, by tokens handed out or due, are the blocks
  closed so and the blocks that are open;
* no more blocks have been closed than opened;
* if no line was inconsistent and the last step found nothing more, then all blocks that were opened
  have been closed. -/
theorem run_indents (tabWidth : UInt64) (source : String) (n : Nat) :
    let answers := ((ofSource tabWidth source).run n).1
    let l := ((ofSource tabWidth source).run n).2
    (l.indents.head? = some 0 ∧ l.indents.Pairwise (· < ·)) ∧
      ((∀ a ∈ answers, isInconsistent a = false) →
        delivered .indent answers + due .indent l =
          delivered .dedent answers + due .dedent l + (l.indents.length - 1)) ∧
      delivered .dedent answers ≤ delivered .indent answers ∧
      ((∀ a ∈ answers, isInconsistent a = false) → answers.getLast? = some none →
        delivered .dedent answers = delivered .indent answers) := by
  have hstart := orderly_ofSource tabWidth source
  have hzero : (ofSource tabWidth source).height = 0 := rfl
  have hordered : (ofSource tabWidth source).indents.Pairwise (· < ·) :=
    List.pairwise_singleton _ _
  have hgrounded := run_grounded n hstart.grounded
  refine ⟨⟨hgrounded.head?_indents, run_ordered n hordered⟩, fun hrun => ?_, ?_,
    fun hrun hlast => ?_⟩
  · obtain ⟨horderly, hbalance⟩ := run_height n hstart hrun
    obtain ⟨hdedents, hindents⟩ := horderly.due_eq
    -- in terms of the height: the queue holds ends of blocks only
    rw [hdedents, hindents, indents, List.length_reverse]
    simp only [height, opened] at hbalance hzero
    omega
  · -- here an inconsistent line is allowed, so the balance is only an inequality
    have hle := run_dedents_le n hstart
    omega
  · -- nothing more comes only if the height is zero again
    have hbalance := (run_height n hstart hrun).2
    rw [height_of_run_none hstart hrun hlast, hzero] at hbalance
    omega

/-- A text whose first line is indented and which has a number out of range, so that a lexer reports
two faults on it, and goes on. -/
def faultyText : String := "  if x:\n\tif y:\n\t\tz = 9223372036854775808\nend"

/-- Two faults on the way, and the blocks are in balance all the same. -/
theorem run_faultyText :
    let answers := ((ofSource 8 faultyText).run 20).1
    (∀ a ∈ answers, isInconsistent a = false) ∧ answers.getLast? = some none ∧
      delivered .indent answers = 2 ∧ delivered .dedent answers = 2 := by
  have hrun : ∀ a ∈ ((ofSource 8 faultyText).run 20).1, isInconsistent a = false := by
    decide +kernel
  have hlast : ((ofSource 8 faultyText).run 20).1.getLast? = some none := by decide +kernel
  have hindents : delivered .indent ((ofSource 8 faultyText).run 20).1 = 2 := by decide +kernel
  refine ⟨hrun, hlast, hindents, ?_⟩
  rw [(run_indents 8 faultyText 20).2.2.2 hrun hlast, hindents]

end Offside.Lexer
