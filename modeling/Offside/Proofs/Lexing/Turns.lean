import Mathlib.Logic.Function.Iterate
import Offside.Proofs.Lexing.Steps
import Offside.Proofs.Linewise.OnLine

/-!
# A call comes back

One step of a lexer does in a single case distinction what is naturally a loop: tokens of the layout
go into a queue, and every turn looks at the queue first, then at the layout if a line begins, and
only then at the line itself. A turn may come to nothing but a new turn, at a line feed or at the
end of the text, so that a call comes back is not seen from its turns alone.

Here the loop is written down as what one turn does with the outcome of the turns after it
(`Lexer.turn`). Unrolling so many turns leaves the turns after them open, and a call has come back
if its outcome does not depend on what is put there. That is so after four turns, and the outcome is
that of `Lexer.next` (`turn_iterate`): a line feed is followed by the layout of the next line, which
leaves something in the queue (`turn_lineLayout`), or brings the lexer to the end of the text, and
this takes two more turns, one to close the blocks and one to hand out the first end
(`turn_close`).
-/

namespace Offside.Lexer

/-! ### One turn -/

/-- Before a line with something on it: the first line must not be indented, and any other puts its
layout into the queue, unless it is like none of the blocks around it. -/
def lineLayout (l : Lexer) (width : UInt64) : Option LexicalFault × Lexer :=
  if l.phase = .fresh then
    (if width = 0 then none else some .unexpectedIndent, { l with phase := .reading })
  else if l.level < width then
    (none, { l with levels := width :: l.levels, pending := [Token.plain .indent l.here] })
  else if width < l.level then
    let kept := l.levels.dropWhile fun level => width < level
    let inner := { l with levels := kept }
    if inner.level = width then
      (none, { inner with
        pending := List.replicate (l.levels.length - kept.length) (Token.plain .dedent l.here) })
    else (some .inconsistentDedent, { inner with phase := .done })
  else (none, { l with pending := [Token.plain .newline l.here] })

/-- At the end of the text: the ends of all open blocks are put into the queue. -/
def finish (l : Lexer) : Lexer :=
  { l with
    levels := l.levels.drop l.opened
    pending := List.replicate l.opened (Token.plain .dedent l.here)
    phase := .done }

/-- **One turn of a call**, which has its outcome or leaves it to the turns after it. A trap leaves
the lexer as it was called. -/
def turn (called : Lexer) (loop : Bool → Lexer → Answer × Lexer) (atLineStart : Bool) (l : Lexer) :
    Answer × Lexer :=
  match l.pending, l.phase with
  | t :: ts, _ => { l with pending := ts }.give t
  | [], .done => (none, l)
  | [], _ =>
    if atLineStart then
      match Layout.seek l.tabWidth false 0 l.here l.rest with
      | .endOfText here => loop false { l with here := here, rest := [] }
      | .trapped trap => called.giveUp trap
      | .content width here rest =>
        match ({ l with here := here, rest := rest } : Lexer).lineLayout width with
        | (none, l) => loop false l
        | (some fault, l) => l.fail fault
    else
      match Layout.skip false l.here l.rest with
      | (here, []) => loop false ({ l with here := here, rest := [] } : Lexer).finish
      | (here, '\n' :: rest) => loop true { l with here := here.nextLine, rest := rest }
      | (here, rest) => { l with here := here, rest := rest }.scan

variable {l called : Lexer} {loop after : Bool → Lexer → Answer × Lexer}

/-! ### What the turns come to -/

/-- What is in the queue is handed out first. -/
theorem turn_due {t : Token} {ts : List Token} (hp : l.pending = t :: ts) (atLineStart : Bool) :
    turn called loop atLineStart l = { l with pending := ts }.give t := by
  unfold turn
  rw [hp]

theorem turn_done (hp : l.pending = []) (hph : l.phase = .done) (atLineStart : Bool) :
    turn called loop atLineStart l = (none, l) := by
  unfold turn
  rw [hp, hph]

/-- At the beginning of a line. -/
theorem turn_atLineStart (hp : l.pending = []) (hph : l.phase ≠ .done) :
    turn called loop true l =
      match Layout.seek l.tabWidth false 0 l.here l.rest with
      | .endOfText here => loop false { l with here := here, rest := [] }
      | .trapped trap => called.giveUp trap
      | .content width here rest =>
        match ({ l with here := here, rest := rest } : Lexer).lineLayout width with
        | (none, l) => loop false l
        | (some fault, l) => l.fail fault := by
  unfold turn
  rw [hp]
  -- the two phases are told apart only by `lineLayout`, later in the same turn
  cases hphase : l.phase with
  | done => exact absurd hphase hph
  | fresh => rfl
  | reading => rfl

/-- On a line. -/
theorem turn_onLine (hp : l.pending = []) (hph : l.phase ≠ .done) :
    turn called loop false l =
      match Layout.skip false l.here l.rest with
      | (here, []) => loop false ({ l with here := here, rest := [] } : Lexer).finish
      | (here, '\n' :: rest) => loop true { l with here := here.nextLine, rest := rest }
      | (here, rest) => ({ l with here := here, rest := rest } : Lexer).scan := by
  unfold turn
  rw [hp]
  -- fresh or reading makes no difference once the line has begun
  cases hphase : l.phase with
  | done => exact absurd hphase hph
  | fresh => rfl
  | reading => rfl

/-- With a queue of its own, a lexer has the outcome at once, or finds nothing more. -/
theorem turn_giveDue {ts : List Token} (hp : l.pending = ts) (hend : ts = [] → l.phase = .done)
    (atLineStart : Bool) : turn called loop atLineStart l = l.giveDue ts := by
  cases ts with
  | nil =>
    rw [turn_done hp (hend rfl)]
    change _ = (none, { l with pending := [] })
    rw [← hp]
  | cons t ts => exact turn_due hp atLineStart

/-- When the blocks are closed, the first end is handed out, if there is one. -/
theorem turn_finish (here : Span) :
    turn called loop false ({ l with here := here, rest := [] } : Lexer).finish = l.close here := by
  have hclose : l.close here = ({ l with here := here, rest := [] } : Lexer).finish.giveDue
      (List.replicate l.opened (.plain .dedent here)) := rfl
  rw [hclose]
  exact turn_giveDue rfl (fun _ => rfl) false

/-- **At the end of the text** two turns are left. -/
theorem turn_close (hp : l.pending = []) (hph : l.phase ≠ .done) (here : Span) :
    turn called (turn called after) false { l with here := here, rest := [] } = l.close here :=
  (turn_onLine (l := { l with here := here, rest := [] }) hp hph).trans (turn_finish here)

/-- Before something to read, a turn reads it. -/
theorem turn_scan (hp : l.pending = []) (hph : l.phase ≠ .done) {here : Span} {c : Char}
    {rest : List Char} (h : Layout.skip false l.here l.rest = (here, c :: rest)) (hc : c ≠ '\n') :
    turn called loop false l = ({ l with here := here, rest := c :: rest } : Lexer).scan := by
  rw [turn_onLine hp hph, h]
  split
  -- neither the end nor a line break: only the last branch is left
  next heq => cases heq
  next heq =>
    cases heq
    exact absurd rfl hc
  next heq =>
    cases heq
    rfl

/-- **The layout of a line** that is not the first leaves something in the queue, and the next turn
hands it out. -/
theorem turn_lineLayout (hp : l.pending = []) (hph : l.phase = .reading) (width : UInt64) :
    (match l.lineLayout width with
      | (none, l) => turn called loop false l
      | (some fault, l) => l.fail fault) = l.layOut width := by
  have hfresh : ¬ l.phase = .fresh := by simp [hph]
  unfold lineLayout layOut
  rw [if_neg hfresh]
  dsimp only
  -- deeper, less deep with a level or without, and the same
  split_ifs with hin hout heq
  · -- the queue was empty, so it is again when its only token is handed out
    dsimp only
    rw [turn_due rfl, ← hp]
  · obtain ⟨n, -, hn⟩ := exists_closed hout
    dsimp only
    rw [hn]
    exact turn_due rfl false
  · rfl
  · dsimp only
    rw [turn_due rfl, ← hp]

/-! ### Calls -/

theorem next_first (hp : l.pending = []) (hph : l.phase = .fresh) {width : UInt64} {here : Span}
    {rest : List Char}
    (hseek : Layout.seek l.tabWidth false 0 l.here l.rest = .content width here rest) :
    l.next =
      if width = 0 then ({ l with phase := .reading, here := here, rest := rest } : Lexer).scan
      else ({ l with phase := .reading, here := here, rest := rest } : Lexer).fail
        .unexpectedIndent := by
  -- the fields are needed as constructors for `next` to reduce
  obtain ⟨_, _, _, _, pending, _, phase⟩ := l
  cases hp
  cases hph
  unfold next
  dsimp only at hseek ⊢
  rw [hseek]

/-- A call before the first line. -/
theorem turns_fresh (hp : l.pending = []) (hph : l.phase = .fresh) :
    turn l (turn l (turn l after)) true l = l.next := by
  have hne : l.phase ≠ .done := by simp [hph]
  cases hseek : Layout.seek l.tabWidth false 0 l.here l.rest with
  | endOfText here =>
    have hnext : l.next = l.close here := by
      unfold next
      rw [hp, hph, hseek]
    rw [hnext, turn_atLineStart hp hne, hseek]
    exact turn_close hp hne here
  | trapped trap =>
    have hnext : l.next = l.giveUp trap := by
      unfold next
      rw [hp, hph, hseek]
    rw [hnext, turn_atLineStart hp hne, hseek]
  | content width here rest =>
    let inside : Lexer := { l with phase := .reading, here := here, rest := rest }
    have hnext : l.next = if width = 0 then inside.scan else inside.fail .unexpectedIndent :=
      next_first hp hph hseek
    -- what is found is no gap, so the turn after the layout does not pass over anything
    obtain ⟨-, -, -, ⟨c, more, rfl, hgap⟩, -⟩ := Layout.seek_eq_content hseek
    obtain ⟨hblank, hline, hhash⟩ := Linewise.not_isGap_iff.mp hgap
    have hskip : Layout.skip false here (c :: more) = (here, c :: more) := by
      rw [Layout.skip, if_neg hline, if_neg (by simp [hhash]), if_neg (by simp [hblank])]
    have hreading : inside.phase ≠ .done := by simp [inside]
    rw [hnext, turn_atLineStart hp hne, hseek]
    dsimp only
    rw [lineLayout, if_pos hph]
    split_ifs with hwidth
    · exact turn_scan (l := inside) hp hreading hskip hline
    · rfl

/-- Behind a line feed, what is found next decides. -/
def landed (l : Lexer) : Layout.Landing → Answer × Lexer
  | .endOfText here => l.close here
  | .trapped trap => l.giveUp trap
  | .content width here rest => ({ l with here := here, rest := rest } : Lexer).layOut width

theorem next_lineFeed (hp : l.pending = []) (hph : l.phase = .reading) {here : Span}
    {rest : List Char} (hskip : Layout.skip false l.here l.rest = (here, '\n' :: rest)) :
    l.next = l.landed (Layout.seek l.tabWidth false 0 here.nextLine rest) := by
  obtain ⟨_, _, _, _, pending, _, phase⟩ := l
  cases hp
  cases hph
  unfold next
  dsimp only at hskip ⊢
  rw [hskip]
  rfl

/-- A call on some line. -/
theorem turns_reading (hp : l.pending = []) (hph : l.phase = .reading) :
    turn l (turn l (turn l (turn l after))) false l = l.next := by
  have hne : l.phase ≠ .done := by simp [hph]
  rcases hskip : Layout.skip false l.here l.rest with ⟨here, _ | ⟨c, rest⟩⟩
  · have hnext : l.next = l.close here := by
      unfold next
      rw [hp, hph, hskip]
    rw [hnext, turn_onLine hp hne, hskip]
    exact turn_finish here
  by_cases hc : c = '\n'
  · subst hc
    rw [next_lineFeed hp hph hskip, turn_onLine hp hne, hskip]
    -- the second turn is at the beginning of a line
    refine (turn_atLineStart (l := { l with here := here.nextLine, rest := rest }) hp hne).trans ?_
    dsimp only
    cases Layout.seek l.tabWidth false 0 here.nextLine rest with
    | endOfText here => exact turn_close hp hne here
    | trapped trap => rfl
    | content width here rest =>
      exact turn_lineLayout (l := { l with here := here, rest := rest }) hp hph width
  · rw [turn_scan hp hne hskip hc, Linewise.next_scan hp hph hskip hc]

/-- **A call comes back after at most four turns**, with the outcome of a step. Before the first
call, and only then, the lexer stands at the beginning of a line. -/
theorem turn_iterate (l : Lexer) (after : Bool → Lexer → Answer × Lexer) {n : Nat} (hn : 4 ≤ n) :
    (turn l)^[n] after (l.phase = .fresh) l = l.next := by
  obtain ⟨k, rfl⟩ := Nat.exists_eq_add_of_le hn
  rw [Function.iterate_add_apply]
  -- the further turns are never reached, so they may be anything
  change turn l (turn l (turn l (turn l _))) _ l = _
  cases hp : l.pending with
  | cons t ts =>
    rw [turn_due hp]
    unfold next
    rw [hp]
  | nil =>
    cases hph : l.phase with
    | done =>
      rw [turn_done hp hph]
      unfold next
      rw [hp, hph]
    | fresh => exact turns_fresh hp hph
    | reading => exact turns_reading hp hph

end Offside.Lexer
