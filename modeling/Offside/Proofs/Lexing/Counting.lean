import Offside.Proofs.Lexing.Resuming
import Offside.Proofs.Lexing.Turns
import Offside.Proofs.Linewise.Agreement

/-!
# How many tokens a text has

A lexer that is asked again and again comes to its end, to a fault or to a trap, and before that it
has handed out at most one token for each character of the text, those of the layout included
(`run_length_le`).

A single step does not show this: one line feed can bring the ends of many blocks. What pays for
them is the `charge` of a lexer: the characters it has not read, the blocks that are open, and the
tokens that are due. Every token takes at least one off it (`charge_next`). A token that is written
pays with its own characters, and the first token of the layout on a line with the line feed before
it. A block that is opened adds one to the charge, for its end, and this one needs a second
character: a line that is deeper than another has a blank before it (`room_of_opened`).

That each of these steps is made at all is `turn_iterate`. That a trap is only met on a line whose
width is no word is read off the tokens line by line (`tokenize_eq_readChecked`).
-/

namespace Offside

/-- A search through the lines that has not moved has not changed the width either. -/
theorem Layout.seek_width {tabWidth width w : UInt64} {comment : Bool} {here h : Span}
    {cs rest : List Char} (heq : seek tabWidth comment width here cs = .content w h rest) :
    w = width ∨ rest.length < cs.length := by
  cases cs with
  | nil => cases heq
  | cons c cs =>
    unfold seek at heq
    -- whatever is passed over is a character less, and only then the width changes
    split_ifs at heq
    · exact .inr (Nat.lt_succ_of_le (seek_suffix heq).length_le)
    · exact .inr (Nat.lt_succ_of_le (seek_suffix heq).length_le)
    · split at heq
      · exact .inr (Nat.lt_succ_of_le (seek_suffix heq).length_le)
      · cases heq
    · cases heq
      exact .inl rfl

namespace Lexer

variable {l l' : Lexer} {t : Token}

/-- **What a lexer can pay tokens with**: the characters it has not read, and the blocks whose end
has not been handed out. -/
def charge (l : Lexer) : Nat := l.rest.length + l.height

/-! ### Opening a block -/

theorem giveDue_levels (l : Lexer) (ts : List Token) : (l.giveDue ts).2.levels = l.levels := by
  cases ts <;> rfl

/-- Only a line that is deeper than the innermost block opens one. -/
theorem level_lt_of_layOut {width : UInt64}
    (h : l.levels.length < (l.layOut width).2.levels.length) : l.level < width := by
  have hkept : (l.levels.dropWhile fun level => width < level).length ≤ l.levels.length :=
    (List.dropWhile_suffix _).length_le
  -- without a new level the levels are some of those that were there
  by_contra hin
  unfold layOut at h
  rw [if_neg hin] at h
  dsimp only at h
  split_ifs at h
  · rw [giveDue_levels] at h
    exact Nat.not_lt.mpr hkept h
  · exact Nat.not_lt.mpr hkept h
  · exact Nat.lt_irrefl _ h

theorem layOut_rest (l : Lexer) (width : UInt64) : (l.layOut width).2.rest = l.rest := by
  unfold layOut
  dsimp only
  split_ifs
  · rfl
  · cases List.replicate _ (Token.plain .dedent l.here) <;> rfl
  · rfl
  · rfl

/-- **A step that opens a block passes over two characters at least**: a line feed, and a blank. -/
theorem room_of_opened (hidle : l.pending = []) (hph : l.phase = .reading)
    (h : l.levels.length < l.next.2.levels.length) : l.next.2.rest.length + 2 ≤ l.rest.length := by
  -- at the end of the text no block is opened
  have hclose : ∀ here, ¬ l.levels.length < (l.close here).2.levels.length := by
    intro here hlt
    rw [close, giveDue_levels] at hlt
    exact Nat.not_lt.mpr (List.drop_sublist _ _).length_le hlt
  have hskip := (Layout.skip_suffix false l.here l.rest).length_le
  unfold next at h ⊢
  simp only [hidle, hph] at h ⊢
  split at h
  next here _ => exact absurd h (hclose here)
  next here rest hline =>
    split at h
    next here' _ => exact absurd h (hclose here')
    next => exact absurd h (Nat.lt_irrefl _)
    next width here' rest' hseek =>
      rw [hline, List.length_cons] at hskip
      rw [layOut_rest]
      have hlevel : l.level < width := level_lt_of_layOut
        (l := { l with rest := rest', here := here', pending := [], phase := .reading }) h
      -- a line without indentation is not deeper than any block
      rcases Layout.seek_width hseek with rfl | hshort
      · exact absurd hlevel UInt64.not_lt_zero
      · show rest'.length + 2 ≤ l.rest.length
        omega
  next here rest _ _ _ =>
    rw [scan_levels] at h
    exact absurd h (Nat.lt_irrefl _)

/-! ### The charge -/

/-- **Every token takes at least one off the charge.** -/
theorem charge_next (h : l.next = (some (.ok t), l')) : l'.charge < l.charge := by
  have hstep := l.step_next
  have hroom := l.room_of_opened
  rw [h] at hstep hroom
  -- a gap with a line break in it has a character
  have hgap : ∀ {gap rest : List Char}, l.Finds gap rest → '\n' ∈ gap →
      rest.length < l.rest.length := by
    intro gap rest hfinds hline
    rw [hfinds.split, List.length_append]
    exact Nat.lt_add_of_pos_left (List.length_pos_of_mem hline)
  cases hstep with
  | due hp =>
    simp only [charge, height, Lexer.opened, hp, List.length_cons]
    omega
  | closing hends hlen =>
    simp only [charge, height, Lexer.opened, ended, hends.idle, List.length_nil,
      List.length_replicate, List.length_drop] at hlen ⊢
    omega
  | @token gap lexeme rest _ _ hfinds _ _ hm =>
    -- a lexeme has a character at least
    have hpos : 0 < lexeme.length := by
      rw [List.length_pos_iff]
      rintro rfl
      rw [Linewise.meaning?_nil] at hm
      cases hm
    simp only [charge, height, Lexer.opened, moved, hfinds.split, List.length_append]
    omega
  | opened hfinds hph _ _ =>
    -- the line break and the indentation are two characters: one pays for this token, and the
    -- other for the end of the block
    have htwo := hroom hfinds.idle hph (Nat.lt_succ_self _)
    simp only [charge, height, Lexer.opened, moved, List.length_cons] at htwo ⊢
    omega
  | continued hfinds _ hline =>
    have hlt := hgap hfinds hline
    simp only [charge, height, Lexer.opened, moved]
    omega
  | closed hfinds _ hline hsplit _ hlen =>
    have hlt := hgap hfinds hline
    simp only [charge, height, Lexer.opened, moved, hsplit, hfinds.idle, List.length_append, hlen,
      List.length_replicate, List.length_nil]
    omega

/-! ### Runs -/

/-- Some tokens, and then an answer that is none: the answers of a lexer up to its end, to a fault
or to a trap. -/
def answersOf (ts : List Token) (last : Option (Halt LexicalError)) : List Answer :=
  ts.map (fun t => some (.ok t)) ++ [last.map .error]

/-- **A lexer comes to its end, to a fault or to a trap** within as many tokens as its charge pays
for. -/
theorem exists_answers (l : Lexer) : ∃ ts last,
    (l.run (ts.length + 1)).1 = answersOf ts last ∧ ts.length ≤ l.charge := by
  induction hn : l.charge using Nat.strong_induction_on generalizing l with
  | _ n ih =>
    -- strong induction on the charge: a token costs some of it, and every other answer is the last
    rcases hnext : l.next with ⟨_ | halt | t, l'⟩
    · exact ⟨[], none, by rw [List.length_nil, run, hnext]; rfl, Nat.zero_le _⟩
    · exact ⟨[], some halt, by rw [List.length_nil, run, hnext]; rfl, Nat.zero_le _⟩
    · have hlt := charge_next hnext
      obtain ⟨ts, last, hrun, hle⟩ := ih l'.charge (hn ▸ hlt) l' rfl
      refine ⟨t :: ts, last, ?_, ?_⟩
      · rw [List.length_cons, run, hnext]
        exact congrArg (some (.ok t) :: ·) hrun
      · rw [List.length_cons]
        omega

/-- Draining a lexer gives these answers, if its bound is above the number of tokens. -/
theorem drainWithin_eq {ts : List Token} {last : Option (Halt LexicalError)} {steps : Nat}
    (h : (l.run (ts.length + 1)).1 = answersOf ts last) (hsteps : ts.length < steps) :
    (drainWithin steps l).1 = answersOf ts last := by
  induction ts generalizing l steps with
  | nil =>
    obtain ⟨steps, rfl⟩ := Nat.exists_eq_succ_of_ne_zero (Nat.ne_of_gt hsteps)
    rw [List.length_nil, run, run] at h
    rw [drainWithin]
    rcases hnext : l.next with ⟨_ | halt | t, l'⟩ <;> rw [hnext] at h
    · exact h
    · exact h
    · cases last <;> cases h
  | cons t ts ih =>
    obtain ⟨steps, rfl⟩ := Nat.exists_eq_succ_of_ne_zero (Nat.ne_of_gt (Nat.zero_lt_of_lt hsteps))
    rw [List.length_cons, run] at h
    obtain ⟨hfirst, hmore⟩ := List.cons.inj h
    rw [drainWithin]
    rcases hnext : l.next with ⟨a, l'⟩
    rw [hnext] at hfirst hmore
    -- the bound is not reached, so both go on behind the token
    cases hfirst
    exact congrArg (some (.ok t) :: ·) (ih hmore (Nat.lt_of_succ_lt_succ hsteps))

/-- What a lexer halts with is what all its tokens come to. -/
theorem tokens_eq_error {ts : List Token} {halt : Halt LexicalError}
    (h : (l.run (ts.length + 1)).1 = answersOf ts (some halt)) : l.tokens = .error halt := by
  induction ts generalizing l with
  | nil =>
    rw [List.length_nil, run, run] at h
    rw [tokens_eq]
    rcases hnext : l.next with ⟨_ | halt' | t, l'⟩ <;> rw [hnext] at h <;> cases h
    rfl
  | cons t ts ih =>
    rw [List.length_cons, run] at h
    obtain ⟨hfirst, hmore⟩ := List.cons.inj h
    rw [tokens_eq]
    rcases hnext : l.next with ⟨a, l'⟩
    rw [hnext] at hfirst hmore
    cases hfirst
    -- a token before the end changes nothing about how it ends
    rw [outcome, ih hmore]
    rfl

/-- **A text has at most one token for each character.** A lexer on any text, with any tab width,
that is asked again and again comes to its end, to a fault or to a trap. The tokens before that,
those of the layout included, are at most as many as the characters of the text; and draining the
lexer gives these tokens and that last answer. There is a trap only if the width of some line is
`2 ^ 64` or more. And each of the calls comes back: whatever would come after four turns of its
loop, they are enough. -/
theorem run_length_le (tabWidth : UInt64) (source : String) :
    (∃ (ts : List Token) (last : Option (Halt LexicalError)),
      ((ofSource tabWidth source).run (ts.length + 1)).1 = answersOf ts last ∧
        (ofSource tabWidth source).drain.1 = answersOf ts last ∧
        ts.length ≤ source.length ∧
        ∀ kind, last = some (.trap kind) →
          kind = .overflow ∧ ∃ line ∈ Linewise.lines source.toList,
            2 ^ 64 ≤ Linewise.naturalWidth (max 1 tabWidth.toNat) line.margin) ∧
    ∀ (n : Nat) (after : Bool → Lexer → Answer × Lexer),
      let l := ((ofSource tabWidth source).run n).2
      (turn l)^[4] after (l.phase = .fresh) l = l.next := by
  refine ⟨?_, fun n after => turn_iterate _ after le_rfl⟩
  obtain ⟨ts, last, hrun, hle⟩ := (ofSource tabWidth source).exists_answers
  -- a new lexer has all characters before it and no block open
  have hcharge : (ofSource tabWidth source).charge = source.length := String.length_toList
  refine ⟨ts, last, hrun, drainWithin_eq hrun ?_, hcharge ▸ hle, fun kind hkind => ?_⟩
  · simp only [charge, height, opened, budget] at hle ⊢
    omega
  · subst hkind
    exact Linewise.exists_line_of_trap (tokens_eq_error hrun)

/-- The second call on a text with a line that is too wide neither finds the end nor a fault. -/
theorem run_overwideText :
    ((ofSource 9223372036854775808 (String.ofList Linewise.overwideText)).run 2).1 =
      [some (.ok ⟨.identifier, some (.name "x"), ⟨1, 1⟩⟩), some (.error (.trap .overflow))] := by
  unfold ofSource
  rw [String.toList_ofList]
  decide +kernel

/-- The bound is met: the four characters of this text are a name, the opening of a block, another
name, and the end of the block. -/
example : tokenize 8 "a\n b" =
    .ok [⟨.identifier, some (.name "a"), ⟨1, 1⟩⟩, .plain .indent ⟨2, 2⟩,
      ⟨.identifier, some (.name "b"), ⟨2, 2⟩⟩, .plain .dedent ⟨2, 3⟩] := by
  decide +kernel

end Lexer

end Offside
