import Offside.Diagnostic
import Offside.Proofs.Binary64.ReadBack
import Offside.Proofs.LineHeads.Lexing
import Offside.Proofs.Outline.Faithful
import Offside.Token.Listing

/-!
# The columns of a listing

In a listing without colours each token has a line of its own: its position, filled up with spaces
to eight characters, and then its text. Neither has a space in it, so the two are told apart by the
spaces between them, as long as there are any. A position of eight characters or more leaves no room
for one.

* `Lexer.Step.lexed`, `tokenize_lexed` — what a token of a text carries is written in the text;
* `columns_filled`, `columns_of_not_mem` — a line cut at its first run of spaces;
* `render_columns` — when the two columns of a line are found again by cutting it at its spaces;
* `render_farTokens` — a text for which they are not.
-/

namespace Offside

open Token

/-! ### Tokens of a text -/

/-- The token carries nothing, or else what is written in some lexeme. -/
def Token.Lexed (t : Token) : Prop := t.value = none ∨ ∃ cs, Written cs t.kind t.value

/-- A step gives such a token, and the tokens that are still due carry nothing. -/
theorem Lexer.Step.lexed {l l' : Lexer} {t : Token} (h : Step l (some (.ok t)) l')
    (hl : ∀ u ∈ l.pending, u.value = none) : t.Lexed ∧ ∀ u ∈ l'.pending, u.value = none := by
  have hdedents : ∀ {n : Nat} {here : Span},
      ∀ u ∈ List.replicate n (Token.plain .dedent here), u.value = none := fun u hu => by
    rw [List.eq_of_mem_replicate hu]
    rfl
  -- a token of the layout carries nothing, and any other is read from a lexeme
  cases h with
  | due hp =>
    rw [hp] at hl
    obtain ⟨ht, hts⟩ := List.forall_mem_cons.mp hl
    exact ⟨.inl ht, hts⟩
  | token _ _ _ hm => exact ⟨.inr ⟨_, Linewise.written_of_meaning? hm⟩, hl⟩
  | opened _ _ _ _ => exact ⟨.inl rfl, hl⟩
  | continued _ _ _ => exact ⟨.inl rfl, hl⟩
  | closed _ _ _ _ _ => exact ⟨.inl rfl, hdedents⟩
  | closing _ _ => exact ⟨.inl rfl, hdedents⟩

/-- The run of `Lexer.Step.lexed`, by `tokens_induction`. -/
theorem tokenize_lexed {tabWidth : UInt64} {source : String} {ts : List Token}
    (h : tokenize tabWidth source = .ok ts) : ∀ t ∈ ts, t.Lexed := by
  -- along the run the tokens that are due are layout, which has no value
  refine Lexer.tokens_induction
    (motive := fun l ts => (∀ u ∈ l.pending, u.value = none) → ∀ t ∈ ts, t.Lexed) ?_ ?_ h
    (List.forall_mem_nil _)
  · intro _ _ _ _
    exact List.forall_mem_nil _
  · intro l t l' ts hstep _ ih hl
    obtain ⟨ht, hl'⟩ := hstep.lexed hl
    exact List.forall_mem_cons.mpr ⟨ht, ih hl'⟩

/-! ### Positions -/

namespace Span

/-- The characters that positions are written with. -/
def isPlaceChar (c : Char) : Bool := c.isDigit || c == ':'

/-- A position is written with digits and a colon. -/
theorem isPlaceChar_of_mem {s : Span} : ∀ c ∈ s.text.toList, isPlaceChar c = true := by
  have hdigits : ∀ n : Nat, ∀ c ∈ (toString n).toList, isPlaceChar c = true := fun n c hc => by
    rw [isPlaceChar, isDigit_toString hc, Bool.true_or]
  rw [text, String.toList_append, String.toList_append]
  exact List.forall_mem_append.mpr ⟨List.forall_mem_append.mpr
    ⟨hdigits _, List.forall_mem_singleton.mpr (by decide)⟩, hdigits _⟩

/-- Three digits are enough for a line or a column below one thousand. -/
theorem length_text_lt {s : Span} (hline : s.line < 1000) (hcolumn : s.column < 1000) :
    s.text.length < 8 := by
  have hdigits : ∀ n : Nat, n < 1000 → (toString n).length ≤ 3 := by
    intro n hn
    -- the digits of a number are counted by its size
    have hlength : (toString n).length = (Nat.toDigits 10 n).length := by
      rw [← String.length_toList, ← Nat.toList_repr]
      rfl
    rw [hlength]
    exact (Nat.length_toDigits_le_iff (by decide) (by decide)).mpr hn
  have h₁ := hdigits s.line hline
  have h₂ := hdigits s.column hcolumn
  have hcolon : ":".length = 1 := rfl
  rw [text, String.length_append, String.length_append, hcolon]
  omega

end Span

/-! ### The text of a token -/

/-- A value is shown as it could be written, so there is no white space in it. -/
theorem Token.Written.not_isBlank_text {cs : List Char} {kind : Kind} {v : Value}
    (h : Written cs kind (some v)) : ∀ c ∈ v.text.toList, Blank.isBlank c = false := by
  cases h with
  | truth b => exact (Written.truth b).not_isBlank
  | name hword hnone => exact (Written.name hword hnone).not_isBlank
  | @int _ _ n _ _ => exact (Linewise.written_of_meaning? (meaning?_int n)).not_isBlank
  | float _ _ _ hfinite => exact (Linewise.written_of_meaning? (meaning?_float hfinite)).not_isBlank

/-- A label does not begin like a position, and there is no white space in it. -/
theorem Token.Kind.label_cases (kind : Kind) :
    ∃ c cs, kind.label.toList = c :: cs ∧ Span.isPlaceChar c = false ∧
      ∀ d ∈ c :: cs, Blank.isBlank d = false := by
  -- a test of all labels, kind by kind
  have hall : ((kind.label.toList.head?.any fun c => !Span.isPlaceChar c) &&
      kind.label.toList.all fun c => !Blank.isBlank c) = true := by
    cases kind <;> decide
  obtain ⟨hhead, hblank⟩ := Bool.and_eq_true_iff.mp hall
  cases hlabel : kind.label.toList with
  | nil =>
    rw [hlabel] at hhead
    cases hhead
  | cons c cs =>
    rw [hlabel] at hhead hblank
    exact ⟨c, cs, rfl, by simpa using hhead,
      fun d hd => by simpa using List.all_eq_true.mp hblank d hd⟩

/-- **The text of a token** does not begin like a position, and there is no white space in it. -/
theorem Token.Lexed.text_cases {t : Token} (h : t.Lexed) :
    ∃ c cs, t.text.toList = c :: cs ∧ Span.isPlaceChar c = false ∧
      ∀ d ∈ c :: cs, Blank.isBlank d = false := by
  obtain ⟨c, cs, hlabel, hc, hcs⟩ := t.kind.label_cases
  rcases hv : t.value with _ | v
  · refine ⟨c, cs, ?_, hc, hcs⟩
    rw [text, hv, ← hlabel]
  · -- a value is shown behind the label, in parentheses
    have hwritten : ∃ ds, Written ds t.kind (some v) := by
      rcases h with hnone | hwritten
      · rw [hnone] at hv
        cases hv
      · rwa [hv] at hwritten
    obtain ⟨ds, hds⟩ := hwritten
    refine ⟨c, cs ++ '(' :: (v.text.toList ++ [')']), ?_, hc, ?_⟩
    · rw [text, hv]
      simp [hlabel]
    · rw [← List.cons_append]
      refine List.forall_mem_append.mpr ⟨hcs, List.forall_mem_cons.mpr ⟨by decide, ?_⟩⟩
      exact List.forall_mem_append.mpr
        ⟨hds.not_isBlank_text, List.forall_mem_singleton.mpr (by decide)⟩

/-! ### Cutting a line at its spaces -/

namespace Listing

/-- **A line cut at its first run of spaces**: what comes before it, and what comes behind it. -/
def columns (line : List Char) : List Char × List Char :=
  (line.takeWhile (· ≠ ' '), (line.dropWhile (· ≠ ' ')).dropWhile (· = ' '))

/-- In the form that `takeWhile` asks for. -/
theorem ne_space_of_not_mem {cs : List Char} (h : ' ' ∉ cs) :
    ∀ c ∈ cs, decide (c ≠ ' ') = true := fun c hc => by
  rw [decide_eq_true_eq]
  rintro rfl
  exact h hc

/-- Two columns with at least one space between them are found again. -/
theorem columns_filled {left right : List Char} (hleft : ' ' ∉ left) {c : Char} (hc : c ≠ ' ')
    (n : Nat) :
    columns (left ++ List.replicate (n + 1) ' ' ++ c :: right) = (left, c :: right) := by
  have hleft' := ne_space_of_not_mem hleft
  have hspaces : ∀ d ∈ List.replicate (n + 1) ' ', decide (d = ' ') = true := fun d hd => by
    rw [List.eq_of_mem_replicate hd]
    rfl
  rw [columns, List.append_assoc, List.takeWhile_append_of_pos hleft',
    List.dropWhile_append_of_pos hleft']
  -- up to the first space, and behind the last one
  congr 1
  · rw [List.replicate_succ, List.cons_append, List.takeWhile_cons_of_neg (by simp),
      List.append_nil]
  · have hfirst : (List.replicate (n + 1) ' ' ++ c :: right).dropWhile (· ≠ ' ') =
        List.replicate (n + 1) ' ' ++ c :: right := by
      rw [List.replicate_succ, List.cons_append, List.dropWhile_cons_of_neg (by simp)]
    rw [hfirst, List.dropWhile_append_of_pos hspaces,
      List.dropWhile_cons_of_neg (by simpa using hc)]

/-- Without a space the whole line is its first column. -/
theorem columns_of_not_mem {line : List Char} (h : ' ' ∉ line) : columns line = (line, []) := by
  have hline := ne_space_of_not_mem h
  rw [columns, List.takeWhile_eq_self_iff.mpr hline, List.dropWhile_eq_nil_iff.mpr hline]
  rfl

/-! ### Lines of a listing -/

/-- A line of a listing: the position, spaces up to eight characters, and the token. -/
theorem toList_plainLine (t : Token) :
    (plainLine t).toList =
      t.span.text.toList ++ List.replicate (8 - t.span.text.length) ' ' ++ t.text.toList := by
  rw [plainLine, location, padRight, String.toList_append, String.toList_append,
    String.toList_ofList]

/-- There is no space in a position. -/
theorem space_not_mem_text (s : Span) : ' ' ∉ s.text.toList := fun h =>
  absurd (Span.isPlaceChar_of_mem _ h) (by decide)

/-- A long position leaves no room for a space, and so the line is taken for one column. -/
theorem columns_of_long {t : Token} (ht : t.Lexed) (hlong : 8 ≤ t.span.text.length) :
    (plainLine t).toList = t.span.text.toList ++ t.text.toList ∧
      columns (plainLine t).toList = ((plainLine t).toList, []) := by
  obtain ⟨c, cs, htext, -, hblank⟩ := ht.text_cases
  have hline : (plainLine t).toList = t.span.text.toList ++ t.text.toList := by
    rw [toList_plainLine, Nat.sub_eq_zero_of_le hlong, List.replicate_zero, List.append_nil]
  refine ⟨hline, columns_of_not_mem ?_⟩
  rw [hline, htext, List.mem_append, not_or]
  exact ⟨space_not_mem_text _, fun hmem => absurd (hblank _ hmem) (by decide)⟩

/-- The two columns of a line are found again exactly if there is a space between them. -/
theorem columns_plainLine_iff {t : Token} (ht : t.Lexed) :
    columns (plainLine t).toList = (t.span.text.toList, t.text.toList) ↔
      t.span.text.length < 8 := by
  obtain ⟨c, cs, htext, -, hblank⟩ := ht.text_cases
  constructor
  · intro h
    by_contra hlong
    -- a long position is followed by the text at once, and the second column is empty
    rw [(columns_of_long ht (Nat.le_of_not_lt hlong)).2, htext] at h
    exact List.cons_ne_nil c cs (Prod.mk.inj h).2.symm
  · intro hshort
    obtain ⟨n, hn⟩ : ∃ n, 8 - t.span.text.length = n + 1 := ⟨7 - t.span.text.length, by omega⟩
    rw [toList_plainLine, htext, hn]
    refine columns_filled (space_not_mem_text _) ?_ n
    rintro rfl
    exact absurd (hblank _ List.mem_cons_self) (by decide)

/-- The position is the longest front part of a line that is made of digits and a colon. -/
theorem takeWhile_plainLine {t : Token} (ht : t.Lexed) :
    (plainLine t).toList.takeWhile Span.isPlaceChar = t.span.text.toList := by
  obtain ⟨c, cs, htext, hc, -⟩ := ht.text_cases
  have hletter : ¬ Span.isPlaceChar c = true := by rw [hc]; exact Bool.false_ne_true
  rw [toList_plainLine, htext, List.append_assoc,
    List.takeWhile_append_of_pos Span.isPlaceChar_of_mem]
  -- behind the position comes the label, or a space
  cases 8 - t.span.text.length with
  | zero => rw [List.replicate_zero, List.nil_append, List.takeWhile_cons_of_neg hletter,
      List.append_nil]
  | succ n => rw [List.replicate_succ, List.cons_append, List.takeWhile_cons_of_neg (by decide),
      List.append_nil]

/-- The listing has one line to a token. -/
theorem linesOf_render {ts : List Token} (hts : ∀ t ∈ ts, t.Lexed) :
    Diagnostic.linesOf (render .plain ts).toList = ts.map fun t => (plainLine t).toList := by
  cases ts with
  | nil => rfl
  | cons t us =>
    have hne : ∀ line ∈ (t :: us).map (fun t => (plainLine t).toList), line ≠ [] := by
      refine List.forall_mem_map.mpr fun u hu => ?_
      obtain ⟨c, cs, htext, -⟩ := (hts u hu).text_cases
      rw [toList_plainLine, htext]
      exact List.append_ne_nil_of_right_ne_nil _ (List.cons_ne_nil c cs)
    -- neither the position, nor the spaces, nor the text has a line break in it
    have hbreak : ∀ line ∈ (t :: us).map (fun t => (plainLine t).toList), '\n' ∉ line := by
      refine List.forall_mem_map.mpr fun u hu => ?_
      obtain ⟨c, cs, htext, -, hblank⟩ := (hts u hu).text_cases
      rw [toList_plainLine, htext, List.mem_append, List.mem_append]
      rintro ((hspan | hspaces) | hmem)
      · exact absurd (Span.isPlaceChar_of_mem _ hspan) (by decide)
      · exact absurd (List.eq_of_mem_replicate hspaces) (by decide)
      · exact absurd (hblank _ hmem) (by decide)
    have hsplit : (render .plain (t :: us)).toList.splitOn '\n' =
        (t :: us).map fun t => (plainLine t).toList := by
      rw [render, String.toList_intercalate, List.map_map]
      exact List.splitOn_intercalate '\n' hbreak (List.cons_ne_nil _ _)
    -- the last line is not empty, so it is not taken for the end of the one before it
    have hlast : ((t :: us).map fun t => (plainLine t).toList).getLast? ≠ some [] := fun h =>
      hne [] (List.mem_of_getLast? h) rfl
    rw [Diagnostic.linesOf, hsplit, if_neg hlast]

/-- **The columns of a listing.** For every text whose tokens are found, the listing has one line
for each token, in order: its position, as many spaces as are missing to eight characters, and its
text.
Cutting such a line at its first run of spaces gives back the position and the text of the token
exactly if the position has less than eight characters, as all have on the first 999 columns of the
first 999 lines. A longer position stands directly before the text, and cutting finds one column;
even so the position is what the line begins with in digits and a colon. -/
theorem render_columns {tabWidth : UInt64} {source : String} {ts : List Token}
    (h : tokenize tabWidth source = .ok ts) :
    (Diagnostic.linesOf (render .plain ts).toList = ts.map fun t => (plainLine t).toList) ∧
      ∀ t ∈ ts,
        (plainLine t).toList = t.span.text.toList ++
          List.replicate (8 - t.span.text.length) ' ' ++ t.text.toList ∧
        (columns (plainLine t).toList = (t.span.text.toList, t.text.toList) ↔
          t.span.text.length < 8) ∧
        (t.span.line < 1000 → t.span.column < 1000 → t.span.text.length < 8) ∧
        (8 ≤ t.span.text.length →
          (plainLine t).toList = t.span.text.toList ++ t.text.toList ∧
            columns (plainLine t).toList = ((plainLine t).toList, [])) ∧
        (plainLine t).toList.takeWhile Span.isPlaceChar = t.span.text.toList := by
  have hts := tokenize_lexed h
  refine ⟨linesOf_render hts, fun t ht => ⟨toList_plainLine t, columns_plainLine_iff (hts t ht),
    Span.length_text_lt, columns_of_long (hts t ht), takeWhile_plainLine (hts t ht)⟩⟩

/-- A text with its last line far down, and on it a token far to the right. -/
def farChars : List Char :=
  List.replicate 999 '\n' ++ 'x' :: List.replicate 98 ' ' ++ ['=', ' ', '1']

/-- Its tokens. -/
def farTokens : List Token :=
  [⟨.identifier, some (.name "x"), ⟨1000, 1⟩⟩, .plain .assign ⟨1000, 100⟩,
    ⟨.intLiteral, some (.int 1), ⟨1000, 102⟩⟩]

/-- Evaluated once, for the two results that need it. -/
theorem tokenize_farChars : tokenize 8 (.ofList farChars) = .ok farTokens := by
  unfold tokenize Lexer.ofSource
  rw [String.toList_ofList]
  decide +kernel

/-- The name still has its two columns. The first 999 columns of the line are too far down for the
rule about them, but its position is short. -/
theorem columns_farTokens :
    tokenize 8 (.ofList farChars) = .ok farTokens ∧
      columns "1000:1  IDENTIFIER(x)".toList = ("1000:1".toList, "IDENTIFIER(x)".toList) := by
  obtain ⟨-, hcolumns⟩ := render_columns tokenize_farChars
  obtain ⟨-, hiff, -⟩ := hcolumns ⟨.identifier, some (.name "x"), ⟨1000, 1⟩⟩ List.mem_cons_self
  exact ⟨tokenize_farChars, hiff.mpr (by decide +kernel)⟩

/-- **The columns of the other tokens are not found**: there is no space in their lines. -/
theorem render_farTokens :
    tokenize 8 (.ofList farChars) = .ok farTokens ∧
      render .plain farTokens =
        "1000:1  IDENTIFIER(x)\n1000:100EQUALS\n1000:102VALUE_INT(1)" ∧
      ∃ t ∈ farTokens, columns (plainLine t).toList ≠ (t.span.text.toList, t.text.toList) := by
  refine ⟨tokenize_farChars, by decide +kernel, .plain .assign ⟨1000, 100⟩, by decide, ?_⟩
  decide +kernel

end Listing

end Offside
