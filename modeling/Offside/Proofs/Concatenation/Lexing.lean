import Offside.Proofs.Linewise.Agreement
import Offside.Proofs.Placement.Trees

/-!
# The tokens of two texts, one after the other

If the first text ends with its last line, then the lines of the two texts together are the lines of
the first and then those of the second, further down. What the first text leaves to the second are
the blocks that are open, and the first line of the second closes them all, since it is not
indented.

* `Linewise.readLines_split` — some lines, apart from what comes after them;
* `Joined` — the tokens of two texts, put together;
* `tokenize_append` — these are the tokens of the two texts, one after the other.
-/

namespace Offside

/-- A token further down. -/
def Token.down (count : Nat) (t : Token) : Token := { t with span := t.span.down count }

/-- **The tokens of two texts, put together.** A token of the layout comes between them: a line
break, or, if blocks are open at the end of the first, the tokens that close them, which then stand
where the second begins. Nothing comes between them if one of them has no tokens. -/
inductive Joined : List Token → List Token → List Token → Prop
  | second {us : List Token} : Joined [] us us
  | first {ts : List Token} : Joined ts [] ts
  | newline {ts us : List Token} {here : Span} : Joined ts us (ts ++ .plain .newline here :: us)
  | dedents {ts us : List Token} {n : Nat} {here here' : Span} :
    Joined (ts ++ List.replicate (n + 1) (.plain .dedent here)) us
      (ts ++ (List.replicate (n + 1) (.plain .dedent here') ++ us))

namespace Linewise

open Token

/-! ### Lines further down -/

/-- A line further down. -/
def Line.down (count : Nat) (l : Line) : Line := { l with number := l.number + count }

/-- The lines of a second part are numbered on. -/
theorem numbered_append (first : Nat) (ls ms : List (List Char)) :
    numbered first (ls ++ ms) = numbered first ls ++ numbered (first + ls.length) ms := by
  unfold numbered
  rw [List.zipIdx_append, List.map_append]

/-- Counting from further on is counting from the start and moving down. -/
theorem numbered_down (first count : Nat) (ls : List (List Char)) :
    numbered (first + count) ls = (numbered first ls).map (Line.down count) := by
  induction ls generalizing first with
  | nil => rfl
  | cons l ls ih =>
    rw [numbered_cons, numbered_cons, List.map_cons, Nat.add_right_comm, ih]
    rfl

/-- Whether a line is kept does not depend on its number. -/
theorem filter_map_down (count : Nat) (ls : List Line) :
    (ls.map (Line.down count)).filter Line.isKept = (ls.filter Line.isKept).map (Line.down count) :=
  List.filter_map

/-- The tokens of a line further down are the same, further down. The induction is that of `tokens`.
-/
theorem tokens_down (count number : Nat) {column : Nat} {last : Option Kind} {skip : Nat}
    {cs : List Char} {ts : List Token} (h : tokens number column last skip cs = .ok ts) :
    tokens (number + count) column last skip cs = .ok (ts.map (Token.down count)) := by
  induction cs generalizing column last skip ts with
  | nil =>
    rw [tokens] at h ⊢
    cases h
    rfl
  | cons c cs ih =>
    cases skip with
    | succ skip => exact ih h
    | zero =>
      rw [tokens] at h ⊢
      split at h
      · next hblank =>
        rw [if_pos hblank]
        exact ih h
      · next hblank =>
        rw [if_neg hblank]
        split at h
        · cases h
        · cases h
        · next lexeme kind value _ =>
          -- the lexeme is found in the same column, and only its line is another
          cases hmore : tokens number (column + 1) (some kind) (lexeme.length - 1) cs with
          | error e =>
            rw [hmore] at h
            cases h
          | ok us =>
            rw [hmore] at h
            cases h
            rw [ih hmore]
            rfl

/-- The same for a whole line. -/
theorem Line.tokens_down (count : Nat) {l : Line} {ts : List Token} (h : l.tokens = .ok ts) :
    (l.down count).tokens = .ok (ts.map (Token.down count)) :=
  Linewise.tokens_down count l.number h

/-- The layout before a line further down. -/
theorem layOut_down (count : Nat) {levels levels' : List Nat} {width : Nat} {here : Span}
    {layout : List Token} (h : layOut levels width here = .ok (layout, levels')) :
    layOut levels width (here.down count) = .ok (layout.map (Token.down count), levels') := by
  -- the widths decide, and the position is only written down
  unfold layOut at h ⊢
  split_ifs at h ⊢
  · cases h
    rfl
  · dsimp only at h ⊢
    split_ifs at h ⊢
    cases h
    rw [List.map_replicate]
    rfl
  · cases h
    rfl

/-! ### Some lines, and what comes after them -/

section Read

variable {width : List Char → Nat} {stop : Span}

/-- One line, taken apart: its layout, its tokens, and the others with the widths open after it. -/
theorem readLines_cons_eq_ok {levels : List Nat} {l : Line} {ls : List Line} {ts : List Token} :
    readLines width stop levels (l :: ls) = .ok ts ↔
      ∃ layout levels' us more, layOut levels (width l.margin) l.start = .ok (layout, levels') ∧
        l.tokens = .ok us ∧ readLines width stop levels' ls = .ok more ∧
        ts = layout ++ us ++ more := by
  rw [readLines]
  constructor
  · intro h
    -- a fault in any of the three would be the outcome
    cases hlayout : layOut levels (width l.margin) l.start with
    | error e => simp [hlayout, bind, Except.bind] at h
    | ok laid =>
      obtain ⟨layout, levels'⟩ := laid
      cases hus : l.tokens with
      | error e => simp [hlayout, hus, bind, Except.bind] at h
      | ok us =>
        cases hmore : readLines width stop levels' ls with
        | error e => simp [hlayout, hus, hmore, bind, Except.bind] at h
        | ok more =>
          refine ⟨layout, levels', us, more, rfl, rfl, hmore, ?_⟩
          simpa [hlayout, hus, hmore, bind, Except.bind, eq_comm] using h
  · rintro ⟨layout, levels', us, more, hlayout, hus, hmore, rfl⟩
    simp [hlayout, hus, hmore, bind, Except.bind]

/-- The first line, taken apart: it is not indented, and there is no layout before it. -/
theorem readFirst_cons_eq_ok {l : Line} {ls : List Line} {ts : List Token} :
    readFirst width stop (l :: ls) = .ok ts ↔
      width l.margin = 0 ∧ ∃ us more, l.tokens = .ok us ∧ readLines width stop [] ls = .ok more ∧
        ts = us ++ more := by
  rw [readFirst]
  split_ifs with hwidth
  · constructor
    · intro h
      -- a fault on the line or behind it would be the outcome
      cases hus : l.tokens with
      | error e => simp [hus, bind, Except.bind] at h
      | ok us =>
        cases hmore : readLines width stop [] ls with
        | error e => simp [hus, hmore, bind, Except.bind] at h
        | ok more =>
          refine ⟨hwidth, us, more, rfl, rfl, ?_⟩
          simpa [hus, hmore, bind, Except.bind, eq_comm] using h
    · rintro ⟨-, us, more, hus, hmore, rfl⟩
      simp [hus, hmore, bind, Except.bind]
  · simp [hwidth]

/-- Lines further down, read further down. -/
theorem readLines_down (count : Nat) {levels : List Nat} {ls : List Line} {ts : List Token}
    (h : readLines width stop levels ls = .ok ts) :
    readLines width (stop.down count) levels (ls.map (Line.down count)) =
      .ok (ts.map (Token.down count)) := by
  induction ls generalizing levels ts with
  | nil =>
    cases h
    -- the blocks are closed at the end, which is further down too
    rw [List.map_replicate]
    rfl
  | cons l ls ih =>
    obtain ⟨layout, levels', us, more, hlayout, hus, hmore, rfl⟩ := readLines_cons_eq_ok.mp h
    rw [List.map_cons, readLines_cons_eq_ok]
    refine ⟨_, levels', _, _, layOut_down count hlayout, Line.tokens_down count hus, ih hmore, ?_⟩
    rw [List.map_append, List.map_append]

/-- The same from the first line on. -/
theorem readFirst_down (count : Nat) {ls : List Line} {ts : List Token}
    (h : readFirst width stop ls = .ok ts) :
    readFirst width (stop.down count) (ls.map (Line.down count)) =
      .ok (ts.map (Token.down count)) := by
  cases ls with
  | nil =>
    cases h
    rfl
  | cons l ls =>
    obtain ⟨hwidth, us, more, hus, hmore, rfl⟩ := readFirst_cons_eq_ok.mp h
    rw [List.map_cons, readFirst_cons_eq_ok]
    refine ⟨hwidth, _, _, Line.tokens_down count hus, readLines_down count hmore, ?_⟩
    rw [List.map_append]

/-- Open blocks are wider than the text itself. -/
theorem layOut_pos {levels levels' : List Nat} {w : Nat} {here : Span} {layout : List Token}
    (h : layOut levels w here = .ok (layout, levels')) (hpos : ∀ v ∈ levels, 0 < v) :
    ∀ v ∈ levels', 0 < v := by
  unfold layOut at h
  split_ifs at h with hin hout
  · cases h
    -- a width that is opened is above another one
    exact List.forall_mem_cons.mpr ⟨Nat.zero_lt_of_lt hin, hpos⟩
  · dsimp only at h
    split_ifs at h
    cases h
    exact fun v hv => hpos v ((List.dropWhile_suffix _).subset hv)
  · cases h
    exact hpos

/-- **A line that is not indented closes all blocks.** -/
theorem layOut_zero {levels : List Nat} (hpos : ∀ v ∈ levels, 0 < v) (here : Span) :
    layOut levels 0 here = .ok (if levels = [] then [.plain .newline here]
      else List.replicate levels.length (.plain .dedent here), []) := by
  unfold layOut
  cases levels with
  | nil => rfl
  | cons v levels =>
    -- every open block is deeper than the first column, so all of them are closed
    have hdrop : (v :: levels).dropWhile (0 < ·) = [] :=
      List.dropWhile_eq_nil_iff.mpr fun w hw => by simpa using hpos w hw
    rw [List.headD_cons, if_neg (Nat.not_lt_zero v), if_pos (hpos v List.mem_cons_self), hdrop]
    rfl

/-- **Some lines, apart from what comes after them.** Their tokens are the same whatever comes
after, but for those that close the blocks left open. -/
theorem readLines_split {levels : List Nat} {ls : List Line} {ts : List Token}
    (hpos : ∀ v ∈ levels, 0 < v) (h : readLines width stop levels ls = .ok ts) :
    ∃ front left, ts = front ++ List.replicate left.length (.plain .dedent stop) ∧
      (∀ v ∈ left, 0 < v) ∧ ∀ stop' ms more, readLines width stop' left ms = .ok more →
        readLines width stop' levels (ls ++ ms) = .ok (front ++ more) := by
  induction ls generalizing levels ts with
  | nil =>
    cases h
    exact ⟨[], levels, rfl, hpos, fun _ _ _ hmore => hmore⟩
  | cons l ls ih =>
    obtain ⟨layout, levels', us, more, hlayout, hus, hmore, rfl⟩ := readLines_cons_eq_ok.mp h
    -- the lines hand on nothing but the blocks that they leave open
    obtain ⟨front, left, rfl, hleft, hread⟩ := ih (layOut_pos hlayout hpos) hmore
    refine ⟨layout ++ us ++ front, left, (List.append_assoc _ _ _).symm, hleft, ?_⟩
    intro stop' ms more hms
    rw [List.cons_append, readLines_cons_eq_ok]
    exact ⟨layout, levels', us, _, hlayout, hus, hread stop' ms more hms, List.append_assoc _ _ _⟩

/-- The lines of a second text close what the first has left open. -/
theorem readLines_joined {levels : List Nat} (hpos : ∀ v ∈ levels, 0 < v) {ms : List Line}
    {us : List Token} (h : readFirst width stop ms = .ok us) (front : List Token) (here : Span) :
    ∃ more, readLines width stop levels ms = .ok more ∧
      Joined (front ++ List.replicate levels.length (.plain .dedent here)) us (front ++ more) := by
  cases ms with
  | nil =>
    cases h
    refine ⟨_, rfl, ?_⟩
    -- no line with something on it: the blocks are closed at the end instead
    cases levels with
    | nil => exact .first
    | cons v levels =>
      rw [← List.append_nil (List.replicate _ (Token.plain .dedent stop))]
      exact .dedents
  | cons m ms =>
    obtain ⟨hwidth, vs, more, hvs, hmore, rfl⟩ := readFirst_cons_eq_ok.mp h
    -- the first line of the second text is not indented, so it closes everything
    have hlayout := layOut_zero hpos m.start
    rw [← hwidth] at hlayout
    refine ⟨_, readLines_cons_eq_ok.mpr ⟨_, _, vs, more, hlayout, hvs, hmore, rfl⟩, ?_⟩
    rw [List.append_assoc]
    cases levels with
    | nil =>
      rw [if_pos rfl, List.length_nil, List.replicate_zero, List.append_nil]
      exact .newline
    | cons v levels =>
      rw [if_neg (List.cons_ne_nil v levels)]
      exact .dedents

end Read

/-! ### Whole texts -/

/-- A text has one line more than line feeds. -/
theorem length_splitOn (text : List Char) : (text.splitOn '\n').length = text.count '\n' + 1 := by
  induction text with
  | nil => rfl
  | cons c text ih =>
    rw [List.splitOn_cons_eq_if_modifyHead]
    by_cases hc : c = '\n' <;> simp [hc, ih]

/-- The end of two parts is that of the second, further down. -/
theorem stopAfter_append {ms : List Line} (hms : ms ≠ []) (ls : List Line) (count : Nat)
    (here : Span) :
    stopAfter here (ls ++ ms.map (Line.down count)) = (stopAfter here ms).down count := by
  have hlast := List.getLast?_eq_some_getLast hms
  unfold stopAfter
  rw [List.getLast?_append, List.getLast?_map, hlast]
  rfl

/-- **The lines of two texts, one after the other**: those of the first, but for the empty one at
its end, and those of the second further down. -/
theorem lines_append (text text' : List Char) :
    lines (text ++ '\n' :: text') =
      numbered 1 (text.splitOn '\n') ++ (lines text').map (Line.down (text.count '\n' + 1)) := by
  rw [lines, List.splitOn_append_cons_self, numbered_append, length_splitOn, numbered_down]
  rfl

/-- A line is as wide further down. -/
theorem forall_fits_append {width : List Char → Nat} {text text' : List Char}
    (h : ∀ line ∈ lines (text ++ ['\n']), line.fits width = true)
    (h' : ∀ line ∈ lines text', line.fits width = true) :
    ∀ line ∈ lines (text ++ '\n' :: text'), line.fits width = true := by
  intro line hmem
  -- a line of the first text, or one of the second further down
  rw [lines_append, List.mem_append] at hmem
  rcases hmem with hfront | hback
  · refine h line ?_
    rw [lines_append]
    exact List.mem_append_left _ hfront
  · obtain ⟨line', hline', rfl⟩ := List.mem_map.mp hback
    exact h' line' hline'

/-- **Reading two texts, one after the other**, if the first ends with a line feed. -/
theorem read_joined {width : List Char → Nat} {text text' : List Char} {ts us : List Token}
    (h : read width (text ++ ['\n']) = .ok ts) (h' : read width text' = .ok us) :
    ∃ vs, read width (text ++ '\n' :: text') = .ok vs ∧
      Joined ts (us.map (Token.down (text.count '\n' + 1))) vs := by
  have hempty : ((lines []).map (Line.down (text.count '\n' + 1))).filter Line.isKept = [] := rfl
  have hne : lines text' ≠ [] := by simp [lines, numbered]
  unfold read at h h' ⊢
  rw [lines_append, List.filter_append, hempty, List.append_nil] at h
  rw [lines_append, List.filter_append, filter_map_down, stopAfter_append hne]
  have hsecond := readFirst_down (text.count '\n' + 1) h'
  cases hkept : (numbered 1 (text.splitOn '\n')).filter Line.isKept with
  | nil =>
    rw [hkept] at h
    cases h
    -- nothing on any line of the first text
    exact ⟨_, hsecond, .second⟩
  | cons l ls =>
    rw [hkept] at h
    -- the first line decides that the text is not indented, and the others are split off
    obtain ⟨hwidth, front, more, hfront, hmore, rfl⟩ := readFirst_cons_eq_ok.mp h
    obtain ⟨front', left, rfl, hleft, hread⟩ := readLines_split (by simp) hmore
    obtain ⟨more, hmore, hjoined⟩ := readLines_joined hleft hsecond (front ++ front') _
    rw [List.append_assoc, List.append_assoc] at hjoined
    refine ⟨_, readFirst_cons_eq_ok.mpr ⟨hwidth, front, _, hfront, hread _ _ _ hmore, rfl⟩, ?_⟩
    exact hjoined

end Linewise

/-- **The tokens of two texts, one after the other**, if the first is empty or ends with a line
feed. -/
theorem tokenize_append {tabWidth : UInt64} {a b : String} (ha : a = "" ∨ ∃ r, a = r ++ "\n")
    {ts us : List Token} (hts : tokenize tabWidth a = .ok ts)
    (hus : tokenize tabWidth b = .ok us) :
    ∃ vs, tokenize tabWidth (a ++ b) = .ok vs ∧
      Joined ts (us.map (Token.down (a.toList.count '\n'))) vs := by
  rcases ha with rfl | ⟨r, rfl⟩
  · cases hts
    -- moved down by nothing
    have hdown : us.map (Token.down 0) = us := by
      rw [List.map_congr_left fun t _ => show Token.down 0 t = t from rfl, List.map_id']
    exact ⟨us, by rwa [String.empty_append], hdown.symm ▸ .second⟩
  · have hline : "\n".toList = ['\n'] := by decide
    rw [Linewise.tokenize_eq_ok_iff, String.toList_append, hline] at hts
    rw [Linewise.tokenize_eq_ok_iff] at hus
    -- both texts fit, so the reading without bounds is that of the lexer
    obtain ⟨vs, hvs, hjoined⟩ := Linewise.read_joined hts.2 hus.2
    refine ⟨vs, ?_, ?_⟩
    · rw [Linewise.tokenize_eq_ok_iff, String.toList_append, String.toList_append, hline,
        List.append_assoc]
      exact ⟨Linewise.forall_fits_append hts.1 hus.1, hvs⟩
    · rw [String.toList_append, hline, List.count_append]
      exact hjoined

end Offside
