import Mathlib.Data.List.Forall2
import Offside.Proofs.Concatenation.Lexing
import Offside.Proofs.Lexing.Pieces
import Offside.Proofs.Placement.Source

/-!
# Two texts read alike

Two texts are read **alike** if their tokens agree one by one in all but their positions, or if they
have the same fault or the same trap. The positions may differ, as a relation says: it can ask that
they are equal, that the one is the other moved, or no more than that they are on the same line.

* `Linewise.Alike` — what the lexer comes to on two texts that are read alike;
* `Linewise.Line.Alike` — two lines that have the same width and the same tokens;
* `Linewise.LinesAlike` — lines that are alike one by one, but for lines with nothing on them;
* `Linewise.readFrom_alike` — texts are read alike if their lines are alike;
* `Linewise.splitOn_around` — the line of a text around some place in it.

Whether two lines are alike is a question about these two lines only. So an edit inside one line
needs a look at that line and at none of the others. A line with nothing on it gives no tokens, but
it is measured; so of two such lines it matters whether their widths are words, and nothing else.
-/

namespace Offside

/-- Two tokens that are the same but for their positions, which are related. -/
structure Token.Alike (R : Span → Span → Prop) (t t' : Token) : Prop where
  kind : t'.kind = t.kind
  value : t'.value = t.value
  span : R t.span t'.span

namespace Linewise

open Token

/-- **What the lexer comes to on two texts that are read alike**: tokens that agree one by one, or
the same fault, at related positions, or the same trap. -/
inductive Alike (R : Span → Span → Prop) :
    Except (Halt LexicalError) (List Token) → Except (Halt LexicalError) (List Token) → Prop
  | ok {ts ts' : List Token} (h : List.Forall₂ (Token.Alike R) ts ts') : Alike R (.ok ts) (.ok ts')
  | fault {fault : LexicalFault} {here here' : Span} (h : R here here') :
    Alike R (.error (.fault ⟨fault, here⟩)) (.error (.fault ⟨fault, here'⟩))
  | trap {kind : Trap} : Alike R (.error (.trap kind)) (.error (.trap kind))

variable {R : Span → Span → Prop}

namespace Alike

/-- The first fault decides, and it is the same in both. -/
theorem append {x x' y y' : Except (Halt LexicalError) (List Token)} (hx : Alike R x x')
    (hy : Alike R y y') :
    Alike R (do let ts ← x; let more ← y; .ok (ts ++ more))
      (do let ts ← x'; let more ← y'; .ok (ts ++ more)) := by
  -- the first part decides unless both sides have tokens there
  cases hx with
  | fault h => exact .fault h
  | trap => exact .trap
  | ok hts =>
    cases hy with
    | fault h => exact .fault h
    | trap => exact .trap
    | ok hmore => exact .ok (List.rel_append hts hmore)

/-- **Related positions that become one.** -/
theorem movedTokens_eq {x x' : Except (Halt LexicalError) (List Token)} (h : Alike R x x')
    (g g' : Span → Span) (hR : ∀ s s', R s s' → g' s' = g s) :
    movedTokens g' x' = movedTokens g x := by
  cases h with
  | @fault fault here here' h =>
    have hmoved : LexicalError.moved g' ⟨fault, here'⟩ = LexicalError.moved g ⟨fault, here⟩ := by
      rw [LexicalError.moved, LexicalError.moved, hR _ _ h]
    exact congrArg (Except.error ∘ Halt.fault) hmoved
  | trap => rfl
  | ok h =>
    refine congrArg Except.ok ?_
    -- token by token: related places are moved to the same one
    induction h with
    | nil => rfl
    | @cons t t' ts ts' ht _ ih =>
      have hmoved : t'.moved g' = t.moved g := by
        rw [Token.moved, Token.moved, ht.kind, ht.value, hR _ _ ht.span]
      rw [List.map_cons, List.map_cons, hmoved, ih]

/-- Positions that are moved. -/
theorem eq_movedTokens {g : Span → Span} {x x' : Except (Halt LexicalError) (List Token)}
    (h : Alike (fun s s' => s' = g s) x x') : x' = movedTokens g x := by
  have hmoved := h.movedTokens_eq g id fun _ _ hs => hs
  rwa [movedTokens_id] at hmoved

end Alike

/-- The other way round: tokens that are moved are alike. -/
theorem alike_moved (g : Span → Span) (ts : List Token) :
    Alike (fun s s' => s' = g s) (.ok ts) (.ok (ts.map (Token.moved g))) := by
  refine .ok ?_
  rw [List.forall₂_map_right_iff, List.forall₂_same]
  exact fun t _ => ⟨rfl, rfl, rfl⟩

/-! ### Lines -/

/-- Mapping the error changes no success. -/
theorem mapError_eq_ok {ε ε' α : Type} {f : ε → ε'} {x : Except ε α} {a : α}
    (h : x.mapError f = .ok a) : x = .ok a := by
  cases x with
  | error e => cases h
  | ok b => exact congrArg Except.ok (Except.ok.inj h)

/-- A token in front, with the error mapped before or after. -/
theorem mapError_map_cons (x : Except LexicalError (List Token)) (t : Token) :
    (x.map (t :: ·)).mapError Halt.fault = (x.mapError Halt.fault).map (t :: ·) := by
  cases x <;> rfl

/-- The same characters at two places. -/
theorem tokens_alike {number number' column column' : Nat}
    (hR : ∀ i, R ⟨number, column + i⟩ ⟨number', column' + i⟩) (last : Option Kind) (skip : Nat)
    (cs : List Char) :
    Alike R ((tokens number column last skip cs).mapError .fault)
      ((tokens number' column' last skip cs).mapError .fault) := by
  induction cs generalizing column column' last skip with
  | nil => exact .ok .nil
  | cons c cs ih =>
    -- the next characters are at related places too
    have hnext : ∀ i, R ⟨number, column + 1 + i⟩ ⟨number', column' + 1 + i⟩ := fun i => by
      have hstep := hR (1 + i)
      rwa [← Nat.add_assoc, ← Nat.add_assoc] at hstep
    cases skip with
    | succ skip => exact ih hnext last skip
    | zero =>
      rw [tokens, tokens]
      split
      · exact ih hnext last 0
      · split
        · exact .fault (hR 0)
        · exact .fault (hR 0)
        · next lexeme kind value _ =>
          -- the lexeme is the same, and behind it the characters are, at related places
          have hmore := ih hnext (some kind) (lexeme.length - 1)
          have hfirst : Token.Alike R ⟨kind, value, ⟨number, column⟩⟩
              ⟨kind, value, ⟨number', column'⟩⟩ := ⟨rfl, rfl, hR 0⟩
          rw [mapError_map_cons, mapError_map_cons]
          exact Alike.append (.ok (.cons hfirst .nil)) hmore

/-- What comes before a line depends on the widths alone: the position is only written down. -/
theorem layOut_cases (levels : List Nat) (width : Nat) :
    (∀ here, layOut levels width here = .error ⟨.inconsistentDedent, here⟩) ∨
      ∃ (kinds : List Kind) (levels' : List Nat), ∀ here,
        layOut levels width here = .ok (kinds.map (Token.plain · here), levels') := by
  unfold layOut
  -- where the tokens stand is used nowhere in the decision
  split_ifs with hin hout
  · exact .inr ⟨[.indent], _, fun _ => rfl⟩
  · dsimp only
    split_ifs
    · exact .inr ⟨List.replicate _ .dedent, _, fun _ => by rw [List.map_replicate]⟩
    · exact .inl fun _ => rfl
  · exact .inr ⟨[.newline], _, fun _ => rfl⟩

/-- **Two lines that are alike**, each with its own way to measure an indentation. -/
structure Line.Alike (R : Span → Span → Prop) (width width' : List Char → Nat) (l l' : Line) :
    Prop where
  width_eq : width' l'.margin = width l.margin
  start : R l.start l'.start
  tokens : Linewise.Alike R (l.tokens.mapError .fault) (l'.tokens.mapError .fault)

/-- Lines of one width fit alike. -/
theorem Line.Alike.fits_eq {width width' : List Char → Nat} {l l' : Line}
    (h : Line.Alike R width width' l l') : l'.fits width' = l.fits width := by
  rw [Line.fits, Line.fits, h.width_eq]

/-- A line is like itself, where positions on it are related to themselves. -/
theorem Line.alike_refl {width : List Char → Nat} {l : Line}
    (hR : ∀ column, R ⟨l.number, column⟩ ⟨l.number, column⟩) : Line.Alike R width width l l :=
  ⟨rfl, hR _, tokens_alike (fun _ => hR _) _ _ _⟩

/-- A line is like itself further down. -/
theorem Line.alike_down {width : List Char → Nat} {l : Line} {count : Nat}
    (hR : ∀ column, R ⟨l.number, column⟩ ⟨l.number + count, column⟩) :
    Line.Alike R width width l (l.down count) :=
  ⟨rfl, hR _, tokens_alike (fun _ => hR _) _ _ _⟩

/-- **Lines that are alike**, one by one. Lines with nothing on them count for nothing, so one may
be added; but they are measured, so none may be too wide unless one is in its place. -/
inductive LinesAlike (R : Span → Span → Prop) (width width' : List Char → Nat) :
    List Line → List Line → Prop
  | nil : LinesAlike R width width' [] []
  | kept {l l' : Line} {ls ls' : List Line} : l.isKept = true → l'.isKept = true →
    Line.Alike R width width' l l' → LinesAlike R width width' ls ls' →
    LinesAlike R width width' (l :: ls) (l' :: ls')
  | silent {l l' : Line} {ls ls' : List Line} : l.isKept = false → l'.isKept = false →
    l'.fits width' = l.fits width → LinesAlike R width width' ls ls' →
    LinesAlike R width width' (l :: ls) (l' :: ls')
  | added {l' : Line} {ls ls' : List Line} : l'.isKept = false → l'.fits width' = true →
    LinesAlike R width width' ls ls' → LinesAlike R width width' ls (l' :: ls')

section Read

variable {width width' : List Char → Nat} {ls ls' ms ms' : List Line}

/-- Lines that are alike, and others behind them. -/
theorem LinesAlike.append (h : LinesAlike R width width' ls ls')
    (h' : LinesAlike R width width' ms ms') :
    LinesAlike R width width' (ls ++ ms) (ls' ++ ms') := by
  induction h with
  | nil => exact h'
  | kept hk hk' hl _ ih => exact .kept hk hk' hl ih
  | silent hs hs' hfits _ ih => exact .silent hs hs' hfits ih
  | added hs hfits _ ih => exact .added hs hfits ih

/-- Lines that are changed each on its own. -/
theorem linesAlike_map (f : Line → Line) (hkept : ∀ l ∈ ls, (f l).isKept = l.isKept)
    (halike : ∀ l ∈ ls, Line.Alike R width width' l (f l)) :
    LinesAlike R width width' ls (ls.map f) := by
  induction ls with
  | nil => exact .nil
  | cons l ls ih =>
    obtain ⟨hl, hls⟩ := List.forall_mem_cons.mp hkept
    obtain ⟨hlalike, hlsalike⟩ := List.forall_mem_cons.mp halike
    cases hk : l.isKept with
    | true => exact .kept hk (hl.trans hk) hlalike (ih hls hlsalike)
    | false => exact .silent hk (hl.trans hk) hlalike.fits_eq (ih hls hlsalike)

/-- Lines are like themselves, where positions on them are related to themselves. -/
theorem linesAlike_refl (h : ∀ l ∈ ls, ∀ column, R ⟨l.number, column⟩ ⟨l.number, column⟩) :
    LinesAlike R width width ls ls := by
  have hmap : LinesAlike R width width ls (ls.map id) :=
    linesAlike_map id (fun _ _ => rfl) fun l hl => Line.alike_refl (h l hl)
  rwa [List.map_id] at hmap

/-- Lines that follow others are read alike. The induction is on `LinesAlike`; each case is what
`readOn` does with one line. -/
theorem readOn_alike (h : LinesAlike R width width' ls ls') {here here' : Span}
    (hstop : R (stopAfter here ls) (stopAfter here' ls')) (levels : List Nat) :
    Alike R (readOn width here levels ls) (readOn width' here' levels ls') := by
  induction h generalizing here here' levels with
  | nil =>
    -- at the end as many blocks are closed as are open
    refine .ok ?_
    induction levels with
    | nil => exact .nil
    | cons v levels ih => exact .cons ⟨rfl, rfl, hstop⟩ ih
  | @kept l l' ls ls' hk hk' hl _ ih =>
    rw [stopAfter_cons, stopAfter_cons] at hstop
    have hsame := hl.fits_eq
    cases hfits : l.fits width with
    | false =>
      -- too wide in the one is too wide in the other
      rw [readOn_of_not_fits _ _ _ hfits, readOn_of_not_fits _ _ _ (hsame.trans hfits)]
      exact .trap
    | true =>
      rw [readOn_of_kept _ _ _ hfits hk, readOn_of_kept _ _ _ (hsame.trans hfits) hk', hl.width_eq]
      obtain herror | ⟨kinds, levels', hok⟩ := layOut_cases levels (width l.margin)
      · rw [herror, herror]
        exact .fault hl.start
      · -- the same layout, and then the line, and then all that follows
        have hlayout : List.Forall₂ (Token.Alike R) (kinds.map (Token.plain · l.start))
            (kinds.map (Token.plain · l'.start)) := by
          rw [List.forall₂_map_left_iff, List.forall₂_map_right_iff, List.forall₂_same]
          exact fun _ _ => ⟨rfl, rfl, hl.start⟩
        have hread := Alike.append (Alike.append (.ok hlayout) hl.tokens) (ih hstop levels')
        rw [hok, hok]
        cases hts : l.tokens <;> cases hts' : l'.tokens <;> rw [hts, hts'] at hread <;> exact hread
  | @silent l l' ls ls' hs hs' hsame _ ih =>
    rw [stopAfter_cons, stopAfter_cons] at hstop
    cases hfits : l.fits width with
    | false =>
      rw [readOn_of_not_fits _ _ _ hfits, readOn_of_not_fits _ _ _ (hsame.trans hfits)]
      exact .trap
    | true =>
      rw [readOn_of_silent _ _ _ hfits hs, readOn_of_silent _ _ _ (hsame.trans hfits) hs']
      exact ih hstop levels
  | added hs hfits _ ih =>
    rw [stopAfter_cons] at hstop
    rw [readOn_of_silent _ _ _ hfits hs]
    exact ih hstop levels

/-- **Texts are read alike if their lines are alike**, and the one ends where the other does. -/
theorem readFrom_alike (h : LinesAlike R width width' ls ls') {here here' : Span}
    (hstop : R (stopAfter here ls) (stopAfter here' ls')) :
    Alike R (readFrom width here ls) (readFrom width' here' ls') := by
  induction h generalizing here here' with
  | nil => exact .ok .nil
  | @kept l l' ls ls' hk hk' hl hls _ =>
    rw [stopAfter_cons, stopAfter_cons] at hstop
    have hsame := hl.fits_eq
    cases hfits : l.fits width with
    | false =>
      rw [readFrom_of_not_fits _ _ hfits, readFrom_of_not_fits _ _ (hsame.trans hfits)]
      exact .trap
    | true =>
      -- the first line with something on it: from its end on, `readOn_alike` applies
      rw [readFrom_of_kept _ _ hfits hk, readFrom_of_kept _ _ (hsame.trans hfits) hk', hl.width_eq]
      split
      · exact Alike.append hl.tokens (readOn_alike hls hstop [])
      · exact .fault hl.start
  | @silent l l' ls ls' hs hs' hsame _ ih =>
    rw [stopAfter_cons, stopAfter_cons] at hstop
    cases hfits : l.fits width with
    | false =>
      rw [readFrom_of_not_fits _ _ hfits, readFrom_of_not_fits _ _ (hsame.trans hfits)]
      exact .trap
    | true =>
      -- nothing on either line, so neither is read
      rw [readFrom_of_silent _ _ hfits hs, readFrom_of_silent _ _ (hsame.trans hfits) hs']
      exact ih hstop
  | added hs hfits _ ih =>
    rw [stopAfter_cons] at hstop
    rw [readFrom_of_silent _ _ hfits hs]
    exact ih hstop

end Read

/-! ### Texts -/

/-- On one line only the column changes. -/
theorem behind_append (text : List Char) {mid : List Char} (h : '\n' ∉ mid) :
    Span.behind (text ++ mid) = (Span.behind text).right mid.length := by
  rw [← Span.after_start, Span.after_append, Span.after_start, Span.after_of_not_mem h]

/-- Characters with no end of a line among them are put before the first line. -/
theorem splitOn_begin {mid after post : List Char} {back : List (List Char)} (hmid : '\n' ∉ mid)
    (hafter : after.splitOn '\n' = post :: back) :
    (mid ++ after).splitOn '\n' = (mid ++ post) :: back := by
  induction mid with
  | nil => exact hafter
  | cons c mid ih =>
    -- no line ends inside the first part, so its characters join the first line behind it
    have hc : c ≠ '\n' := fun hc => hmid (hc ▸ List.mem_cons_self)
    rw [List.cons_append, List.splitOn_cons_eq_if_modifyHead, if_neg (by simpa using hc),
      ih fun h => hmid (List.mem_cons_of_mem c h)]
    rfl

/-- **The line of a text around some place in it.** What is put there, if it has no end of a line in
it, lands on this line, and all other lines stay what they are. -/
theorem splitOn_around (before : List Char) :
    ∃ front pre, Span.behind before = ⟨front.length + 1, pre.length + 1⟩ ∧
      ∀ mid after post back, '\n' ∉ mid → after.splitOn '\n' = post :: back →
        (before ++ (mid ++ after)).splitOn '\n' = front ++ (pre ++ (mid ++ post)) :: back := by
  induction before using List.reverseRecOn with
  | nil => exact ⟨[], [], rfl, fun _ _ _ _ hmid hafter => (splitOn_begin hmid hafter :)⟩
  | append_singleton before c ih =>
    by_cases hc : c = '\n'
    · -- all that comes before is lines of its own
      refine ⟨before.splitOn '\n', [], ?_, fun mid after post back hmid hafter => ?_⟩
      · simp [Span.behind, hc, length_splitOn, Nat.add_comm]
      · rw [hc, List.append_assoc, List.singleton_append, List.splitOn_append_cons_self,
          splitOn_begin hmid hafter]
        rfl
    · -- one more character on the line, which then counts as part of what is put there
      obtain ⟨front, pre, hbehind, hlines⟩ := ih
      refine ⟨front, pre ++ [c], ?_, fun mid after post back hmid hafter => ?_⟩
      · rw [behind_append before (by simpa using Ne.symm hc), hbehind, List.length_append]
        rfl
      · have hmem : '\n' ∉ c :: mid := by simp [Ne.symm hc, hmid]
        rw [List.append_assoc, List.append_assoc]
        exact hlines (c :: mid) after post back hmem hafter

end Linewise

end Offside
