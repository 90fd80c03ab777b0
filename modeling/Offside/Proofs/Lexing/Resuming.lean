import Offside.Proofs.Lexing.Indentation
import Offside.Proofs.Lexing.Pieces
import Offside.Proofs.Linewise.OnLine

/-!
# Asking a lexer again

A lexer can be asked for a token at any time, also after it has reported a fault or found nothing
more. What it answers then depends on what the fault has left behind, and each fault leaves
something else: the end and an inconsistent line leave nothing to be read, a character that begins
no lexeme is still there, a number out of range has been passed over, and behind an indented first
line the lexer stands as on any other line.

* `Lexer.PlacedIn` — where a lexer stands in its text, which every step keeps (`Step.placedIn`);
* `Lexer.answerAt` — the answer to what stands at a place, by longest match alone;
* `Lexer.iterate` — steps of which the first fault is the last that does anything;
* `Lexer.run_after_answer` — what comes after each answer, along every run.
-/

namespace Offside.Lexer

open Linewise

variable {l l' : Lexer} {a : Answer}

/-! ### Where a lexer stands -/

/-- **The lexer stands in a text**, at the position behind what it has passed over. -/
def PlacedIn (text : List Char) (l : Lexer) : Prop :=
  ∃ passed, text = passed ++ l.rest ∧ l.here = Span.start.after passed

/-- Behind more of the text the lexer still stands in it. -/
theorem PlacedIn.moved {text gap rest : List Char} (h : l.PlacedIn text)
    (hsplit : l.rest = gap ++ rest) : (l.moved gap rest).PlacedIn text := by
  obtain ⟨passed, htext, hhere⟩ := h
  refine ⟨passed ++ gap, ?_, ?_⟩
  · rw [htext, hsplit, List.append_assoc]
    rfl
  · show l.here.after gap = _
    rw [hhere, Span.after_append]

/-- A step goes on in the same text. -/
theorem Step.placedIn {text : List Char} (h : Step l a l') (hl : l.PlacedIn text) :
    l'.PlacedIn text := by
  have hended : l.ended.PlacedIn text := hl.moved (List.append_nil l.rest).symm
  cases h with
  | due _ => exact hl
  | exhausted _ _ => exact hl
  | finished _ _ => exact hended
  | closing _ _ => exact hended
  | @token gap lexeme rest _ _ hfinds _ _ _ =>
    -- the gap and the lexeme are passed over in one go
    have hsplit : l.rest = (gap ++ lexeme) ++ rest := by rw [hfinds.split, List.append_assoc]
    exact hl.moved hsplit
  | @outOfRange gap lexeme rest hfinds _ _ _ =>
    have hsplit : l.rest = (gap ++ lexeme) ++ rest := by rw [hfinds.split, List.append_assoc]
    exact hl.moved hsplit
  | unexpected hfinds _ _ _ => exact hl.moved hfinds.split
  | indented hfinds _ => exact hl.moved hfinds.split
  | opened hfinds _ _ _ => exact hl.moved hfinds.split
  | continued hfinds _ _ => exact hl.moved hfinds.split
  | closed hfinds _ _ _ _ _ => exact hl.moved hfinds.split
  | inconsistent hfinds _ _ _ _ => exact hl.moved hfinds.split
  | trapped _ _ => exact hl

/-- A lexer that is still before the first line has not been asked yet. -/
theorem Step.eq_of_fresh {first : Lexer} (h : Step l a l') (hidle : first.pending = [])
    (hl : l.phase = .fresh → l = first) : l'.phase = .fresh → l' = first := by
  intro hfresh
  cases h with
  | due hp =>
    -- before the first line no token is due
    rw [hl hfresh, hidle] at hp
    cases hp
  | exhausted _ hph =>
    rw [hph] at hfresh
    cases hfresh
  | trapped _ _ => exact hl hfresh
  | _ => cases hfresh

/-! ### The answer at a place -/

/-- **The answer to what stands at a place**: the token or the fault of its longest lexeme, and if
no lexeme stands there, the character that does. -/
def answerAt (signed : Bool) (here : Span) (cs : List Char) : Answer :=
  match longest? signed cs with
  | some (_, .ok (kind, value)) => some (.ok ⟨kind, value, here⟩)
  | some (_, .error fault) => some (.error (.fault ⟨fault, here⟩))
  | none => cs.head?.map fun c => .error (.fault ⟨.unexpectedChar c, here⟩)

/-- What is answered at a place depends on what stands there and on the sign alone. -/
theorem scan_answer (l : Lexer) : l.scan.1 = answerAt l.signed l.here l.rest := by
  unfold scan answerAt
  rw [longest?_eq_read]
  cases Token.Lexeme.read l.signed l.rest with
  | token chars kind value => rfl
  | outOfRange chars => rfl
  | unexpected => cases l.rest <;> rfl

/-- Reading a lexeme opens and closes no block. -/
theorem scan_levels (l : Lexer) : l.scan.2.levels = l.levels := by
  unfold scan
  cases Token.Lexeme.read l.signed l.rest with
  | token chars kind value => rfl
  | outOfRange chars => rfl
  | unexpected => cases l.rest <;> rfl

/-- A lexer that stands before something to read reads it. -/
theorem next_of_content (hidle : l.pending = []) (hph : l.phase = .reading)
    (h : Layout.Content l.rest) : l.next = l.scan := by
  obtain ⟨c, rest, hrest, hgap⟩ := h
  obtain ⟨hblank, hline, hhash⟩ := not_isGap_iff.mp hgap
  have hskip : Layout.skip false l.here l.rest = (l.here, c :: rest) := by
    rw [hrest, Layout.skip, if_neg hline, if_neg (by simp [hhash]), if_neg (by simp [hblank])]
  rw [next_scan hidle hph hskip hline, ← hrest]

/-- A character that begins no lexeme is not passed over. -/
theorem scan_of_longest?_eq_none {c : Char} {rest : List Char} (hrest : l.rest = c :: rest)
    (h : longest? l.signed l.rest = none) :
    l.scan = (some (.error (.fault ⟨.unexpectedChar c, l.here⟩)), l) := by
  rw [longest?_eq_read] at h
  unfold scan
  -- whatever is read would be a longest lexeme
  cases hread : Token.Lexeme.read l.signed l.rest with
  | token chars kind value =>
    rw [hread] at h
    cases h
  | outOfRange chars =>
    rw [hread] at h
    cases h
  | unexpected =>
    rw [hrest]
    rfl

/-! ### Lexers that do not move -/

/-- After the end there is no more to come. -/
theorem Step.over_of_none (h : Step l none l') : l'.pending = [] ∧ l'.phase = .done := by
  generalize ha : (none : Answer) = a at h
  cases h with
  | exhausted hp hph => exact ⟨hp, hph⟩
  | finished hends _ => exact ⟨hends.idle, rfl⟩
  | _ => cases ha

/-- Behind a character that begins no lexeme the lexer does not come. -/
theorem Step.next_of_unexpected {c : Char} {span : Span}
    (h : Step l (some (.error (.fault ⟨.unexpectedChar c, span⟩))) l') :
    l'.next = (some (.error (.fault ⟨.unexpectedChar c, span⟩)), l') := by
  cases h with
  | @unexpected gap rest c hfinds _ _ hnone =>
    have hnext : (l.moved gap (c :: rest)).next = (l.moved gap (c :: rest)).scan :=
      next_of_content hfinds.idle rfl hfinds.content
    rw [hnext]
    exact scan_of_longest?_eq_none rfl hnone

/-! ### Stopping at a fault -/

/-- **So many steps that stop at a fault**: the answers, and the lexer after them. -/
def iterate : Nat → Lexer → List Answer × Lexer
  | 0, l => ([], l)
  | n + 1, l => (l.nextOrStop.1 :: (iterate n l.nextOrStop.2).1, (iterate n l.nextOrStop.2).2)

/-- Answers up to the first fault, and from then on the answer that nothing comes. -/
def cutOff : List Answer → List Answer
  | [] => []
  | some (.error (.fault e)) :: answers =>
    some (.error (.fault e)) :: List.replicate answers.length none
  | some (.error (.trap trap)) :: answers => some (.error (.trap trap)) :: cutOff answers
  | some (.ok t) :: answers => some (.ok t) :: cutOff answers
  | none :: answers => none :: cutOff answers

/-- There are as many answers as steps. -/
theorem length_run (n : Nat) (l : Lexer) : (l.run n).1.length = n := by
  induction n generalizing l with
  | zero => rfl
  | succ n ih => rw [run, List.length_cons, ih]

/-- After the end it makes no difference that a fault would stop the lexer. -/
theorem iterate_over (hp : l.pending = []) (hph : l.phase = .done) (n : Nat) :
    (l.iterate n).1 = List.replicate n none := by
  have hnext : l.nextOrStop = (none, l) := by
    unfold nextOrStop next
    simp only [hp, hph]
  induction n with
  | zero => rfl
  | succ n ih => rw [iterate, hnext, ih, List.replicate_succ]

/-- **Stopping at a fault** changes no answer up to the fault, and takes away all after it. -/
theorem iterate_eq_cutOff (n : Nat) (l : Lexer) : (l.iterate n).1 = cutOff (l.run n).1 := by
  induction n generalizing l with
  | zero => rfl
  | succ n ih =>
    rw [iterate, run, nextOrStop]
    rcases l.next with ⟨_ | (e | trap) | t, l'⟩
    · exact congrArg (none :: ·) (ih l')
    · dsimp only
      -- a fault leaves the lexer at its end
      rw [cutOff, length_run, iterate_over rfl rfl]
    · exact congrArg (some (.error (.trap trap)) :: ·) (ih l')
    · exact congrArg (some (.ok t) :: ·) (ih l')

/-- **All tokens of a lexer** are what it answers before it finds nothing more. -/
theorem tokens_eq_ok_iff {ts : List Token} :
    l.tokens = .ok ts ↔ (l.run (ts.length + 1)).1 = ts.map (fun t => some (.ok t)) ++ [none] := by
  induction ts generalizing l with
  | nil =>
    rw [tokens_eq, List.length_nil, run, run, List.map_nil, List.nil_append]
    rcases l.next with ⟨_ | e | t, l'⟩
    · exact ⟨fun _ => rfl, fun _ => rfl⟩
    · -- a fault is no token, and no token is the end
      constructor <;> intro h <;> cases h
    · rw [outcome]
      cases l'.tokens <;> constructor <;> intro h <;> cases h
  | cons t ts ih =>
    rw [tokens_eq, List.length_cons, run, List.map_cons, List.cons_append]
    rcases l.next with ⟨_ | e | u, l'⟩
    · constructor <;> intro h <;> cases h
    · constructor <;> intro h <;> cases h
    · -- the first answer is the first token, and the others are those of the lexer behind it
      have hcons : outcome (some (.ok u), l') = .ok (t :: ts) ↔ u = t ∧ l'.tokens = .ok ts := by
        rw [outcome]
        cases l'.tokens with
        | error e =>
          constructor
          · intro h
            cases h
          · intro h
            cases h.2
        | ok us => simp [Except.map]
      rw [hcons, ih]
      simp

/-! ### What comes after each answer -/

/-- A number out of range is a number. -/
theorem isSome_numeral? {signed : Bool} {cs : List Char} {fault : LexicalFault}
    (h : meaning? signed cs = some (.error fault)) : (numeral? signed cs).isSome := by
  unfold meaning? at h
  cases hn : numeral? signed cs with
  | some n => rfl
  | none =>
    -- words and operators always are tokens
    rw [hn] at h
    dsimp only at h
    split_ifs at h
    · cases h
    · obtain ⟨kind, -, hk⟩ := Option.map_eq_some_iff.mp h
      cases hk

section Start

variable (tabWidth : UInt64) (source : String) (n : Nat)

/-- A lexer on a text stands in it after any number of steps, by `run_invariant`. -/
theorem placedIn_run : ((ofSource tabWidth source).run n).2.PlacedIn source.toList :=
  have hstart : (ofSource tabWidth source).PlacedIn source.toList := ⟨[], rfl, rfl⟩
  run_invariant Step.placedIn hstart n

/-- A lexer that is still before the first line is the one that was started. -/
theorem eq_ofSource_of_fresh (h : ((ofSource tabWidth source).run n).2.phase = .fresh) :
    ((ofSource tabWidth source).run n).2 = ofSource tabWidth source :=
  run_invariant (P := fun l => l.phase = .fresh → l = ofSource tabWidth source)
    (fun hstep => hstep.eq_of_fresh rfl) (fun _ => rfl) n h

end Start

/-- Behind a number out of range the lexer goes on where the number ends. -/
theorem Step.behind_number {text : List Char} {span : Span}
    (h : Step l (some (.error (.fault ⟨.numberOutOfRange, span⟩))) l') (hl : l.PlacedIn text) :
    ∃ before literal after, text = before ++ (literal ++ after) ∧ span = Span.behind before ∧
      (numeral? l.signed literal).isSome ∧
      longest? l.signed (literal ++ after) = some (literal, .error .numberOutOfRange) ∧
      l' = { l with
        rest := after
        here := Span.behind (before ++ literal)
        phase := .reading } := by
  cases h with
  | @outOfRange gap literal after hfinds _ _ hlongest =>
    -- the lexer stands behind a beginning of the text, so the gap is added to it
    obtain ⟨passed, htext, hhere⟩ := hl
    refine ⟨passed ++ gap, literal, after, ?_, ?_, ?_, hlongest, ?_⟩
    · rw [htext, hfinds.split, List.append_assoc]
    · rw [hhere, ← Span.after_append, Span.after_start]
    · exact isSome_numeral? (longest?_spec hlongest).2.2
    · rw [Lexer.moved, hhere, ← Span.after_append, Span.after_start, List.append_assoc]

/-- Behind an indented first line's margin the lexer reads what stands there. -/
theorem Step.next_of_indented {span : Span}
    (h : Step l (some (.error (.fault ⟨.unexpectedIndent, span⟩))) l') :
    ∃ gap rest, l.phase = .fresh ∧ l.rest = gap ++ rest ∧ Layout.Gap gap ∧ Layout.Content rest ∧
      span = l.here.after gap ∧ l'.levels = l.levels ∧ l'.next.2.levels = l.levels ∧
      l'.next.1 = answerAt l.signed span rest := by
  cases h with
  | @indented gap rest hfinds hph =>
    -- the lexer has moved to the lexeme already, so the next step scans there
    have hnext : (l.moved gap rest).next = (l.moved gap rest).scan :=
      next_of_content hfinds.idle rfl hfinds.content
    refine ⟨gap, rest, hph, hfinds.split, hfinds.gap, hfinds.content, rfl, rfl, ?_, ?_⟩
    · rw [hnext, scan_levels]
      rfl
    · rw [hnext, scan_answer]
      rfl

/-- **What comes after each answer.** A lexer on any text that has been asked any number of times is
asked once more. Then:

* if nothing comes, or a line is inconsistent, nothing comes for ever;
* if a character begins no lexeme, this is the answer for ever;
* if a number is out of range, the lexer goes on directly behind the whole number, which is the
  longest lexeme at its place, and nothing else about the lexer has changed;
* if the first line is indented, the next answer is that to what stands first on this line, and
  before and after it no block is open.

If the lexer is made to stop at a fault, the answers are the same up to the first fault, and then
nothing comes for ever. And a text has some tokens exactly if these are the answers, without a
fault, before nothing comes. -/
theorem run_after_answer (tabWidth : UInt64) (source : String) (n : Nat) :
    let l := ((ofSource tabWidth source).run n).2
    (l.next.1 = none ∨ isInconsistent l.next.1 = true →
        ∀ m, (l.next.2.run m).1 = List.replicate m none) ∧
      (∀ c span, l.next.1 = some (.error (.fault ⟨.unexpectedChar c, span⟩)) →
        ∀ m, (l.next.2.run m).1 =
          List.replicate m (some (.error (.fault ⟨.unexpectedChar c, span⟩)))) ∧
      (∀ span, l.next.1 = some (.error (.fault ⟨.numberOutOfRange, span⟩)) →
        ∃ before literal after, source.toList = before ++ (literal ++ after) ∧
          span = Span.behind before ∧ (numeral? l.signed literal).isSome ∧
          longest? l.signed (literal ++ after) = some (literal, .error .numberOutOfRange) ∧
          l.next.2 = { l with
            rest := after
            here := Span.behind (before ++ literal)
            phase := .reading }) ∧
      (∀ span, l.next.1 = some (.error (.fault ⟨.unexpectedIndent, span⟩)) →
        ∃ before after, source.toList = before ++ after ∧ Layout.Gap before ∧
          Layout.Content after ∧ span = Span.behind before ∧ l.next.2.indents = [0] ∧
          l.next.2.next.1 = answerAt true span after ∧ l.next.2.next.2.indents = [0]) ∧
      (∀ m, (l.iterate m).1 = cutOff (l.run m).1) ∧
      ∀ ts, tokenize tabWidth source = .ok ts ↔
        ((ofSource tabWidth source).run (ts.length + 1)).1 =
          ts.map (fun t => some (.ok t)) ++ [none] := by
  intro l
  have hstep : Step l l.next.1 l.next.2 := l.step_next
  refine ⟨?_, ?_, ?_, ?_, fun m => iterate_eq_cutOff m l, fun ts => tokens_eq_ok_iff⟩
  · intro hend m
    -- either way the lexer is at its end
    have hover : l.next.2.pending = [] ∧ l.next.2.phase = .done := by
      rcases hend with hnone | hinconsistent
      · rw [hnone] at hstep
        exact hstep.over_of_none
      · exact hstep.over_of_inconsistent hinconsistent
    exact run_over hover.1 hover.2 m
  · intro c span hchar m
    rw [hchar] at hstep
    exact run_of_next_eq hstep.next_of_unexpected m
  · intro span hnumber
    rw [hnumber] at hstep
    exact hstep.behind_number (placedIn_run tabWidth source n)
  · intro span hindent
    rw [hindent] at hstep
    obtain ⟨gap, rest, hph, hsplit, hgap, hcontent, hspan, hlevels, hlevels', hanswer⟩ :=
      hstep.next_of_indented
    -- this fault is reported at the first step only
    have hfirst : l = ofSource tabWidth source := eq_ofSource_of_fresh tabWidth source n hph
    have hnone : l.levels = [0] := by rw [hfirst]; rfl
    refine ⟨gap, rest, ?_, hgap, hcontent, ?_, ?_, ?_, ?_⟩
    · rw [← hsplit, hfirst]
      rfl
    · rw [hspan, hfirst, ← Span.after_start]
      rfl
    · rw [indents, hlevels, hnone]
      rfl
    · rw [hanswer, hfirst]
      rfl
    · rw [indents, hlevels', hnone]
      rfl

/-- A text whose first line is indented, begins with a number out of range, and is followed by a
line with a character that begins no lexeme. -/
def troubledText : String := "  99999999999999999999 x\n?"

/-- A text whose last line is less deep than the one before it, but like none of the blocks. -/
def unevenText : String := "if x:\n    y\n  z"

/-- All four kinds of answers, each with what comes after it. -/
theorem run_after_troubledText :
    let l := fun n => ((ofSource 8 troubledText).run n).2
    ((l 0).next.1 = some (.error (.fault ⟨.unexpectedIndent, ⟨1, 3⟩⟩)) ∧ (l 1).indents = [0]) ∧
      ((l 1).next.1 = some (.error (.fault ⟨.numberOutOfRange, ⟨1, 3⟩⟩)) ∧
        ∃ before literal after, troubledText.toList = before ++ (literal ++ after) ∧
          Span.behind before = ⟨1, 3⟩ ∧ (l 2).rest = after ∧
          (l 2).here = Span.behind (before ++ literal)) ∧
      ((l 4).next.1 = some (.error (.fault ⟨.unexpectedChar '?', ⟨2, 1⟩⟩)) ∧
        ∀ m, ((l 5).run m).1 =
          List.replicate m (some (.error (.fault ⟨.unexpectedChar '?', ⟨2, 1⟩⟩)))) ∧
      ∀ m, (((ofSource 8 unevenText).run 6).2.run m).1 = List.replicate m none := by
  intro l
  have hindent : (l 0).next.1 = some (.error (.fault ⟨.unexpectedIndent, ⟨1, 3⟩⟩)) := by
    decide +kernel
  have hnumber : (l 1).next.1 = some (.error (.fault ⟨.numberOutOfRange, ⟨1, 3⟩⟩)) := by
    decide +kernel
  have hchar : (l 4).next.1 = some (.error (.fault ⟨.unexpectedChar '?', ⟨2, 1⟩⟩)) := by
    decide +kernel
  have huneven : isInconsistent ((ofSource 8 unevenText).run 5).2.next.1 = true := by
    decide +kernel
  -- each answer is evaluated, and the theorem tells what comes after it
  obtain ⟨_, _, -, -, -, -, hopen, -⟩ := (run_after_answer 8 troubledText 0).2.2.2.1 _ hindent
  obtain ⟨before, literal, after, htext, hspan, -, -, hnext⟩ :=
    (run_after_answer 8 troubledText 1).2.2.1 _ hnumber
  refine ⟨⟨hindent, hopen⟩, ⟨hnumber, before, literal, after, htext, hspan.symm, ?_, ?_⟩,
    ⟨hchar, (run_after_answer 8 troubledText 4).2.1 _ _ hchar⟩,
    (run_after_answer 8 unevenText 5).1 (.inr huneven)⟩
  · exact congrArg Lexer.rest hnext
  · exact congrArg Lexer.here hnext

end Offside.Lexer
