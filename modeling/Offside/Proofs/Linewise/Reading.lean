import Mathlib.Algebra.Group.Nat.Defs
import Mathlib.Data.List.Infix
import Mathlib.Data.List.TakeWhile
import Offside.Fault
import Offside.Token.Layout
import Offside.Token.Lexeme

/-!
# Reading a text line by line

What the tokens of a text are, said without a place that moves through it. The text is cut into
lines; lines with nothing on them are left out; what is left of a line, up to a comment, is read
from left to right by **longest match**; and the indentation of a line, compared with the
indentations that are open, gives the tokens of the layout before it.

* `longest?` — the longest beginning of some characters that is a lexeme;
* `Line.tokens` — the tokens on one line, which depend on nothing outside the line;
* `naturalWidth` — the width of an indentation, as a natural number;
* `readLines` — all lines with their layout, and `read` — a text;
* `readChecked` — a text whose widths have to be words of 64 bits.

How wide an indentation is enters `read` as a parameter, so that the same reading can be taken with
other widths than the natural ones. Natural widths have no bound; where they are words there is one,
and `readChecked` stops at the first line that is beyond it.
-/

namespace Offside.Linewise

open Token

/-! ### Lexemes -/

/-- At least one digit, and nothing else. -/
def isDigits (cs : List Char) : Bool := !cs.isEmpty && cs.all Char.isDigit

/-- A letter or an underscore, and then letters, digits and underscores. -/
def isWord (cs : List Char) : Bool := cs.head?.any isWordStart && cs.all isWordPart

/-- Digits, or digits on both sides of a point. -/
def unsigned? (negative : Bool) (cs : List Char) : Option Numeral :=
  match cs.splitOn '.' with
  | [whole] => if isDigits whole then some ⟨negative, whole, []⟩ else none
  | [whole, fraction] =>
    if isDigits whole && isDigits fraction then some ⟨negative, whole, fraction⟩ else none
  | _ => none

/-- The number that the characters spell. A minus sign belongs to it only if `signed`. -/
def numeral? (signed : Bool) : List Char → Option Numeral
  | '-' :: cs => if signed then unsigned? true cs else none
  | cs => unsigned? false cs

/-- What a lexeme is as a token, or why it is none. -/
abbrev Meaning := Except LexicalFault (Kind × Option Value)

/-- The token that a number gives, if its value is in range. -/
def ofNumeral (n : Numeral) : Meaning :=
  match n.value? with
  | some (kind, value) => .ok (kind, some value)
  | none => .error .numberOutOfRange

/-- What some characters mean if they are a lexeme: a number, a word, or an operator. -/
def meaning? (signed : Bool) (cs : List Char) : Option Meaning :=
  match numeral? signed cs with
  | some n => some (ofNumeral n)
  | none =>
    if isWord cs then some (.ok (ofWord (String.ofList cs)))
    else (operators.lookup cs).map fun kind => .ok (kind, none)

/-- **The longest beginning that is a lexeme**, and what it means. -/
def longest? (signed : Bool) (cs : List Char) : Option (List Char × Meaning) :=
  (cs.inits.filterMap fun lexeme => (meaning? signed lexeme).map (lexeme, ·)).getLast?

/-! ### Lines -/

/-- The tokens of some characters of a line, from left to right. The kind of the token before them
decides whether a minus sign can belong to a number; `skip` counts the characters that still belong
to that token. -/
def tokens (number : Nat) :
    Nat → Option Kind → Nat → List Char → Except LexicalError (List Token)
  | _, _, _, [] => .ok []
  | column, last, skip + 1, _ :: cs => tokens number (column + 1) last skip cs
  | column, last, 0, c :: cs =>
    if Layout.isBlank c then tokens number (column + 1) last 0 cs
    else
      match longest? (!last.any Kind.endsOperand) (c :: cs) with
      | none => .error ⟨.unexpectedChar c, ⟨number, column⟩⟩
      | some (_, .error fault) => .error ⟨fault, ⟨number, column⟩⟩
      | some (lexeme, .ok (kind, value)) =>
        (tokens number (column + 1) (some kind) (lexeme.length - 1) cs).map
          (⟨kind, value, ⟨number, column⟩⟩ :: ·)

/-- A line of a text, and which one it is. -/
structure Line where
  number : Nat
  chars : List Char

namespace Line

/-- The blanks that the line begins with. -/
def margin (l : Line) : List Char := l.chars.takeWhile Layout.isBlank

/-- What comes after them. -/
def body (l : Line) : List Char := l.chars.dropWhile Layout.isBlank

/-- Whether there is something on the line other than blanks and a comment. -/
def isKept (l : Line) : Bool := l.body.head?.any (· ≠ '#')

/-- The position of the first character that is not blank. -/
def start (l : Line) : Span := ⟨l.number, l.margin.length + 1⟩

/-- The position behind the last character. -/
def stop (l : Line) : Span := ⟨l.number, l.chars.length + 1⟩

/-- **The tokens on the line**, up to a comment. -/
def tokens (l : Line) : Except LexicalError (List Token) :=
  Linewise.tokens l.number (l.margin.length + 1) none 0 (l.body.takeWhile (· ≠ '#'))

end Line

/-- Lines in order, numbered from a number on. -/
def numbered (first : Nat) (lines : List (List Char)) : List Line :=
  (lines.zipIdx first).map fun l => ⟨l.2, l.1⟩

/-- The lines of a text. There is always one. -/
def lines (text : List Char) : List Line := numbered 1 (text.splitOn '\n')

/-! ### Layout -/

/-- The width after one more blank: a space is one column, and a tab goes on to the next multiple of
the tab width. Carriage returns and form feeds take no room. -/
def widen (tabWidth width : Nat) (c : Char) : Nat :=
  if c = ' ' then width + 1
  else if c = '\t' then (width / tabWidth + 1) * tabWidth
  else width

/-- **The width of an indentation**, as a natural number. -/
def naturalWidth (tabWidth : Nat) (margin : List Char) : Nat := margin.foldl (widen tabWidth) 0

/-- The tokens of the layout before a line of some width, and the widths that are open after it.
The innermost open width comes first; below all of them is zero. -/
def layOut (levels : List Nat) (width : Nat) (here : Span) :
    Except LexicalError (List Token × List Nat) :=
  if levels.headD 0 < width then .ok ([.plain .indent here], width :: levels)
  else if width < levels.headD 0 then
    let kept := levels.dropWhile (width < ·)
    if kept.headD 0 = width then
      .ok (List.replicate (levels.length - kept.length) (.plain .dedent here), kept)
    else .error ⟨.inconsistentDedent, here⟩
  else .ok ([.plain .newline here], levels)

/-- The tokens of lines that follow another, and the end of what is open after them. -/
def readLines (width : List Char → Nat) (stop : Span) :
    List Nat → List Line → Except LexicalError (List Token)
  | levels, [] => .ok (List.replicate levels.length (.plain .dedent stop))
  | levels, l :: ls => do
    let (layout, levels) ← layOut levels (width l.margin) l.start
    let ts ← l.tokens
    let more ← readLines width stop levels ls
    .ok (layout ++ ts ++ more)

/-- The tokens of all lines of a text with something on them. The first one must not be indented,
and there is no layout before it. -/
def readFirst (width : List Char → Nat) (stop : Span) :
    List Line → Except LexicalError (List Token)
  | [] => .ok []
  | l :: ls =>
    if width l.margin = 0 then do
      let ts ← l.tokens
      let more ← readLines width stop [] ls
      .ok (ts ++ more)
    else .error ⟨.unexpectedIndent, l.start⟩

/-- The position behind the last of some lines that follow a position. -/
def stopAfter (here : Span) (ls : List Line) : Span := (ls.getLast?.map Line.stop).getD here

/-- **The tokens of a text**, or its first fault. -/
def read (width : List Char → Nat) (text : List Char) : Except LexicalError (List Token) :=
  readFirst width (stopAfter Span.start (lines text)) ((lines text).filter Line.isKept)

/-! ### Widths that are words -/

/-- Whether the width of a line is a word of 64 bits. -/
def Line.fits (width : List Char → Nat) (l : Line) : Bool := width l.margin < 2 ^ 64

/-- The lines before the first one whose width is no word. -/
def measured (width : List Char → Nat) (ls : List Line) : List Line :=
  ls.takeWhile (Line.fits width)

/-- What some lines come to if those that are measured come to `x`: the fault among these, or else a
trap unless these are all. -/
def checked (width : List Char → Nat) (ls : List Line) (x : Except LexicalError (List Token)) :
    Except (Halt LexicalError) (List Token) := do
  let ts ← x.mapError .fault
  if ls.all (Line.fits width) then .ok ts else .error (.trap .overflow)

/-- The tokens of lines that follow a position, if their widths are words. -/
def readOn (width : List Char → Nat) (here : Span) (levels : List Nat) (ls : List Line) :
    Except (Halt LexicalError) (List Token) :=
  checked width ls
    (readLines width (stopAfter here ls) levels ((measured width ls).filter Line.isKept))

/-- The tokens of the lines of a text from a position on, if their widths are words. -/
def readFrom (width : List Char → Nat) (here : Span) (ls : List Line) :
    Except (Halt LexicalError) (List Token) :=
  checked width ls (readFirst width (stopAfter here ls) ((measured width ls).filter Line.isKept))

/-- **The tokens of a text whose widths are words**, or its first fault. The first line whose width
is no word is a trap, also if there is nothing on it. -/
def readChecked (width : List Char → Nat) (text : List Char) :
    Except (Halt LexicalError) (List Token) :=
  readFrom width Span.start (lines text)

/-- The end of some lines is that of the others, if there are any, and else that of the first. -/
theorem stopAfter_cons (here : Span) (line : Line) (ls : List Line) :
    stopAfter here (line :: ls) = stopAfter line.stop ls := by
  unfold stopAfter
  rw [List.getLast?_cons]
  cases ls.getLast? <;> rfl

section Checked

variable {width : List Char → Nat} {line : Line} (here : Span) (levels : List Nat)
  (ls : List Line)

/-- A line that fits is measured, and then the others are. -/
theorem measured_of_fits (h : line.fits width = true) :
    measured width (line :: ls) = line :: measured width ls := List.takeWhile_cons_of_pos h

/-- At a line that does not fit, measuring stops. -/
theorem measured_of_not_fits (h : line.fits width = false) : measured width (line :: ls) = [] :=
  List.takeWhile_cons_of_neg (by simp [h])

/-- A line that fits makes no difference to the check. -/
theorem checked_of_fits (h : line.fits width = true) (x : Except LexicalError (List Token)) :
    checked width (line :: ls) x = checked width ls x := by
  simp only [checked, List.all_cons, h, Bool.true_and]

/-- A line that does not fit is a trap, if there is no fault. -/
theorem checked_of_not_fits (h : line.fits width = false) (ts : List Token) :
    checked width (line :: ls) (.ok ts) = .error (.trap .overflow) := by
  simp only [checked, List.all_cons, h, Bool.false_and]
  rfl

/-- There are tokens exactly if all widths are words and there is no fault. -/
theorem checked_eq_ok_iff {x : Except LexicalError (List Token)} {ts : List Token} :
    checked width ls x = .ok ts ↔ (∀ line ∈ ls, line.fits width = true) ∧ x = .ok ts := by
  -- a fault is no token on either side; without one the check alone decides
  rw [← List.all_eq_true]
  cases x with
  | error e =>
    constructor
    · intro h
      cases h
    · rintro ⟨-, h⟩
      cases h
  | ok us =>
    cases hall : ls.all (Line.fits width) with
    | true => simp [checked, hall, Except.mapError, bind, Except.bind]
    | false => simp [checked, hall, Except.mapError, bind, Except.bind]

/-- Tokens in front stay in front. -/
theorem checked_bind {α : Type} (x : Except LexicalError α)
    (f : α → Except LexicalError (List Token)) :
    checked width ls (x >>= f) = x.mapError .fault >>= fun a => checked width ls (f a) := by
  cases x <;> rfl

/-- The same for tokens that are known, put in front of the others. -/
theorem checked_append (x : Except LexicalError (List Token)) (ts : List Token) :
    checked width ls (x >>= fun more => .ok (ts ++ more)) =
      checked width ls x >>= fun more => .ok (ts ++ more) := by
  cases x with
  | error e => rfl
  | ok more =>
    cases hall : ls.all (Line.fits width) with
    | true => simp [checked, hall, Except.mapError, bind, Except.bind]
    | false => simp [checked, hall, Except.mapError, bind, Except.bind]

/-- A line that does not fit is a trap at once: nothing behind it is measured. -/
theorem readOn_of_not_fits (h : line.fits width = false) :
    readOn width here levels (line :: ls) = .error (.trap .overflow) := by
  unfold readOn
  rw [measured_of_not_fits ls h]
  exact checked_of_not_fits ls h _

/-- A line with nothing on it counts for nothing once it is measured. -/
theorem readOn_of_silent (h : line.fits width = true) (hs : line.isKept = false) :
    readOn width here levels (line :: ls) = readOn width line.stop levels ls := by
  unfold readOn
  rw [measured_of_fits ls h, checked_of_fits ls h, stopAfter_cons,
    List.filter_cons_of_neg (by simp [hs])]

/-- A line with something on it gives its layout and its tokens, and then come the others. -/
theorem readOn_of_kept (h : line.fits width = true) (hk : line.isKept = true) :
    readOn width here levels (line :: ls) = (do
      let (layout, levels) ← (layOut levels (width line.margin) line.start).mapError .fault
      let ts ← line.tokens.mapError .fault
      let more ← readOn width line.stop levels ls
      .ok (layout ++ ts ++ more)) := by
  unfold readOn
  rw [measured_of_fits ls h, checked_of_fits ls h, stopAfter_cons, List.filter_cons_of_pos hk,
    readLines, checked_bind]
  -- the layout may fault, then the tokens of the line, and then the other lines
  congr 1
  funext ⟨layout, inner⟩
  dsimp only
  rw [checked_bind]
  congr 1
  funext ts
  exact checked_append ls _ _

/-- The same at the beginning of a text. -/
theorem readFrom_of_not_fits (h : line.fits width = false) :
    readFrom width here (line :: ls) = .error (.trap .overflow) := by
  unfold readFrom
  rw [measured_of_not_fits ls h]
  exact checked_of_not_fits ls h _

/-- The same as `readOn_of_silent` at the beginning of a text. -/
theorem readFrom_of_silent (h : line.fits width = true) (hs : line.isKept = false) :
    readFrom width here (line :: ls) = readFrom width line.stop ls := by
  unfold readFrom
  rw [measured_of_fits ls h, checked_of_fits ls h, stopAfter_cons,
    List.filter_cons_of_neg (by simp [hs])]

/-- The first line with something on it has no layout before it. -/
theorem readFrom_of_kept (h : line.fits width = true) (hk : line.isKept = true) :
    readFrom width here (line :: ls) =
      if width line.margin = 0 then do
        let ts ← line.tokens.mapError .fault
        let more ← readOn width line.stop [] ls
        .ok (ts ++ more)
      else .error (.fault ⟨.unexpectedIndent, line.start⟩) := by
  unfold readFrom
  rw [measured_of_fits ls h, checked_of_fits ls h, stopAfter_cons, List.filter_cons_of_pos hk,
    readFirst]
  split_ifs
  · -- the check of the other lines is moved behind the first one
    rw [checked_bind]
    congr 1
    funext ts
    exact checked_append ls _ _
  · rfl

end Checked

/-! ### Readings that need no check -/

section Fitting

variable {width : List Char → Nat} {text : List Char}

/-- **If all widths are words, nothing is lost by checking them.** -/
theorem readChecked_of_fits (h : ∀ line ∈ lines text, line.fits width = true) :
    readChecked width text = (read width text).mapError .fault := by
  have hmeasured : measured width (lines text) = lines text := List.takeWhile_eq_self_iff.mpr h
  have hall : (lines text).all (Line.fits width) = true := List.all_eq_true.mpr h
  unfold readChecked readFrom checked read
  rw [hmeasured]
  simp only [hall, if_true]
  cases readFirst width (stopAfter Span.start (lines text)) ((lines text).filter Line.isKept) <;>
    rfl

/-- A text has tokens exactly if its widths are words and reading it gives them. -/
theorem readChecked_eq_ok_iff {ts : List Token} :
    readChecked width text = .ok ts ↔
      (∀ line ∈ lines text, line.fits width = true) ∧ read width text = .ok ts := by
  constructor
  · intro h
    -- tokens show that all widths are words, and then there is nothing to check
    have hfits := ((checked_eq_ok_iff _).mp h).1
    rw [readChecked_of_fits hfits] at h
    cases hread : read width text with
    | error e =>
      rw [hread] at h
      cases h
    | ok us =>
      rw [hread] at h
      cases h
      exact ⟨hfits, rfl⟩
  · rintro ⟨hfits, hread⟩
    rw [readChecked_of_fits hfits, hread]
    rfl

/-- A fault among the first lines is the fault of all of them, wherever they end. -/
theorem readLines_append_error {stop : Span} {levels : List Nat} {front : List Line}
    {e : LexicalError} (h : readLines width stop levels front = .error e) (stop' : Span)
    (more : List Line) : readLines width stop' levels (front ++ more) = .error e := by
  induction front generalizing levels with
  | nil => cases h
  | cons line front ih =>
    rw [readLines] at h
    rw [List.cons_append, readLines]
    -- the fault is in the layout of the first line, among its tokens, or later
    cases hlayout : layOut levels (width line.margin) line.start with
    | error e' =>
      rw [hlayout] at h
      exact h
    | ok out =>
      cases htokens : line.tokens with
      | error e' =>
        rw [hlayout, htokens] at h
        exact h
      | ok ts =>
        -- the fault is on a later line
        rw [hlayout, htokens] at h
        change (readLines width stop out.2 front >>= _) = _ at h
        change (readLines width stop' out.2 (front ++ more) >>= _) = _
        cases hfront : readLines width stop out.2 front with
        | error e' =>
          rw [hfront] at h
          rw [ih (hfront.trans h)]
          rfl
        | ok rest =>
          rw [hfront] at h
          cases h

/-- The same from the first line on, which must not be indented. -/
theorem readFirst_append_error {stop : Span} {front : List Line} {e : LexicalError}
    (h : readFirst width stop front = .error e) (stop' : Span) (more : List Line) :
    readFirst width stop' (front ++ more) = .error e := by
  cases front with
  | nil => cases h
  | cons line front =>
    rw [readFirst] at h
    rw [List.cons_append, readFirst]
    by_cases hzero : width line.margin = 0
    · rw [if_pos hzero] at h ⊢
      cases htokens : line.tokens with
      | error e' =>
        rw [htokens] at h
        exact h
      | ok ts =>
        rw [htokens] at h
        -- the fault is on a later line, and `readLines_append_error` knows it
        change (readLines width stop [] front >>= _) = _ at h
        cases hfront : readLines width stop [] front with
        | error e' =>
          rw [hfront] at h
          change (readLines width stop' [] (front ++ more) >>= _) = _
          rw [readLines_append_error hfront]
          exact h
        | ok rest =>
          rw [hfront] at h
          cases h
    · rw [if_neg hzero] at h ⊢
      exact h

/-- **Otherwise the lines before the first one that is too wide decide**: if there is a fault among
them, that is the fault, and if not, there is a trap. -/
theorem readChecked_eq_of_lines {before after : List Line} {line : Line}
    (hlines : lines text = before ++ line :: after)
    (hbefore : ∀ earlier ∈ before, earlier.fits width = true) (hline : line.fits width = false) :
    readChecked width text =
      (readFirst width (stopAfter Span.start (lines text))
        (before.filter Line.isKept)).mapError .fault >>= fun _ => .error (.trap .overflow) := by
  -- the lines are measured up to the one that does not fit
  have hmeasured : measured width (lines text) = before := by
    rw [hlines, measured, List.takeWhile_append_of_pos hbefore]
    exact (congrArg (before ++ ·) (measured_of_not_fits after hline)).trans (List.append_nil _)
  have hall : (lines text).all (Line.fits width) = false := by
    rw [hlines]
    simp [hline]
  unfold readChecked readFrom checked
  rw [hmeasured]
  simp only [hall]
  rfl

/-- A fault before the first line that is too wide is the first fault of the text. -/
theorem readChecked_of_not_fits {line : Line} (hmem : line ∈ lines text)
    (hline : line.fits width = false) :
    readChecked width text = .error (.trap .overflow) ∨
      ∃ e, readChecked width text = .error (.fault e) ∧ read width text = .error e := by
  have hall : (lines text).all (Line.fits width) = false :=
    List.all_eq_false.mpr ⟨line, hmem, by simp [hline]⟩
  -- the lines that are measured come first
  have hfront : (lines text).filter Line.isKept =
      (measured width (lines text)).filter Line.isKept ++
        ((lines text).dropWhile (Line.fits width)).filter Line.isKept := by
    rw [← List.filter_append, measured, List.takeWhile_append_dropWhile]
  unfold readChecked readFrom checked read
  rw [hfront]
  cases hread : readFirst width (stopAfter Span.start (lines text))
      ((measured width (lines text)).filter Line.isKept) with
  | error e => exact .inr ⟨e, rfl, readFirst_append_error hread _ _⟩
  | ok ts =>
    left
    simp only [hall]
    rfl

/-- The first lines are measured in the same way whatever comes behind them. -/
theorem measured_append (front rest : List Line) :
    ∃ more, measured width (front ++ rest) = measured width front ++ more := by
  unfold measured
  rw [List.takeWhile_append]
  split_ifs with hall
  · -- all of them are measured
    have hfront := (List.takeWhile_prefix (Line.fits width)).eq_of_length hall
    exact ⟨_, by rw [hfront]⟩
  · exact ⟨[], (List.append_nil _).symm⟩

/-- **Up to a line that is too wide only the lines before it matter**: there is a trap, or they have
a fault, which is then reported whatever comes behind them. -/
theorem readFrom_before_overflow (here : Span) {front : List Line} {line : Line}
    (hline : line.fits width = false) (more : List Line) :
    readFrom width here (front ++ line :: more) = .error (.trap .overflow) ∨
      ∃ e, ∀ here' rest, readFrom width here' (front ++ rest) = .error (.fault e) := by
  have hall : (front ++ line :: more).all (Line.fits width) = false :=
    List.all_eq_false.mpr ⟨line, by simp, by simp [hline]⟩
  -- what stands behind that line is not measured
  have hmeasured : measured width (front ++ line :: more) = measured width front := by
    unfold measured
    rw [List.takeWhile_append, List.takeWhile_cons_of_neg (by simp [hline])]
    split_ifs with hfront
    · rw [List.append_nil, (List.takeWhile_prefix (Line.fits width)).eq_of_length hfront]
    · rfl
  cases hread : readFirst width (stopAfter here (front ++ line :: more))
      ((measured width front).filter Line.isKept) with
  | error e =>
    -- more lines may be measured behind, but the fault comes before them
    refine .inr ⟨e, fun here' rest => ?_⟩
    obtain ⟨others, hrest⟩ := @measured_append width front rest
    unfold readFrom
    rw [hrest, List.filter_append, readFirst_append_error hread]
    rfl
  | ok ts =>
    left
    unfold readFrom checked
    rw [hmeasured, hread]
    simp only [hall]
    rfl

end Fitting

end Offside.Linewise
