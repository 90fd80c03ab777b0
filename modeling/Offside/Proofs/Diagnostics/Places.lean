import Offside.Proofs.Diagnostics.Excerpts
import Offside.Proofs.Lexing.Resuming
import Offside.Proofs.LineHeads.Lexing
import Offside.Proofs.Placement.Source
import Offside.Proofs.Prefix.Sites

/-!
# What stands at the place of a fault

A fault has a position, and a diagnostic shows the line with a caret below it. What the fault is
about begins right there (`Fault.About`): the character that begins no token, the number out of
range, the lexeme of the token that does not fit or of the last token before the end. A line that
is indented badly is shown from its first character that is not blank, and so is a token of the
layout, which has no characters of its own.

Only the end of a block that the end of the text closes stands behind everything that is written.

* `Site` — some characters stand at a position;
* `tokenize_error_about`, `tokenize_token` — the sites of lexical faults and of tokens;
* `Source.compile_error_excerpt` — a diagnostic shows what the fault is about, above the caret.
-/

namespace Offside

open Token Linewise

/-! ### Sites -/

/-- Characters that are neither blank nor the end of a line. -/
def Visible (cs : List Char) : Prop := ∀ c ∈ cs, Layout.isBlank c = false ∧ c ≠ '\n'

/-- What is no gap is neither blank nor a line break. -/
theorem Visible.of_not_isGap {cs : List Char} (h : ∀ c ∈ cs, isGap c = false) : Visible cs := by
  intro c hc
  obtain ⟨hblank, hline, -⟩ := not_isGap_iff.mp (h c hc)
  exact ⟨hblank, hline⟩

/-- What is not white space is visible. -/
theorem Visible.of_not_isBlank {cs : List Char} (h : ∀ c ∈ cs, Blank.isBlank c = false) :
    Visible cs := by
  intro c hc
  have hne : ∀ d, Blank.isBlank d = true → c ≠ d := by
    rintro d hd rfl
    rw [h c hc] at hd
    cases hd
  -- the blanks of the layout and the line feed are among the blanks that are trimmed
  have hspace := hne ' ' (by decide)
  have htab := hne '\t' (by decide)
  have hreturn := hne '\r' (by decide)
  have hfeed := hne '\x0c' (by decide)
  exact ⟨by simp [Layout.isBlank, hspace, htab, hreturn, hfeed], hne '\n' (by decide)⟩

/-- **Some characters stand at a position**, all of them visible, behind the margin of its line. -/
structure Site (text : List Char) (span : Span) (margin mid : List Char) : Prop where
  ne_nil : mid ≠ []
  visible : Visible mid
  cut : ∃ post, Cut text span margin (mid ++ post)

section Site

variable {text before mid after gap rest : List Char} {c : Char} {span : Span}

/-- What stands behind some characters has its site there. -/
theorem exists_site (htext : text = before ++ (mid ++ after)) (hne : mid ≠ [])
    (hmid : Visible mid) : ∃ margin, Site text (Span.behind before) margin mid := by
  have hline : '\n' ∉ mid := fun hmem => (hmid _ hmem).2 rfl
  -- the line that the characters are on, cut before them
  obtain ⟨pre, post, hcut, -⟩ := exists_cut before List.not_mem_nil hline after
  simp only [List.nil_append, List.append_nil, ← htext] at hcut
  exact ⟨pre, hne, hmid, post, hcut⟩

/-- **The first character of a line that is not blank** has its site behind blanks alone. -/
theorem exists_site_first (htext : text = before ++ (gap ++ c :: rest)) (hgap : Layout.Gap gap)
    (hfirst : before = [] ∨ '\n' ∈ gap) (hc : Visible [c]) :
    ∃ margin, Site text (Span.behind (before ++ gap)) margin [c] ∧
      ∀ d ∈ margin, Layout.isBlank d = true := by
  obtain ⟨front, margin, rfl, hmargin, hfront⟩ := hgap.exists_margin
  -- the line begins with the margin
  have hbegins : before ++ front = [] ∨ ∃ lines, before ++ front = lines ++ ['\n'] := by
    rcases hfront with ⟨rfl, hnone⟩ | ⟨lines, rfl⟩
    · left
      rw [hfirst.resolve_right hnone, List.append_nil]
    · exact .inr ⟨before ++ lines, (List.append_assoc _ _ _).symm⟩
  have hnone : '\n' ∉ margin := fun hmem => (ne_of_isBlank (hmargin _ hmem)).1 rfl
  have hline : '\n' ∉ [c] := fun hmem => (hc _ hmem).2 rfl
  obtain ⟨pre, post, hcut, hpre⟩ := exists_cut (before ++ front) hnone hline rest
  obtain rfl := hpre hbegins
  refine ⟨margin, ⟨List.cons_ne_nil c [], hc, post, ?_⟩, hmargin⟩
  simpa [htext] using hcut

/-- **A diagnostic shows what stands at a position**, with the rest of its line. -/
theorem Site.sourceLine {source : String} {margin : List Char}
    (h : Site source.toList span margin mid) :
    ∃ line shown, (source.toList.splitOn '\n')[span.line - 1]? = some line ∧
      span.column = margin.length + 1 ∧
      margin ++ (mid ++ shown) = line.rdropWhile (· == '\r') ∧
      Diagnostic.sourceLine? source span.line =
        some (String.ofList (margin ++ (mid ++ shown))) := by
  obtain ⟨post, hcut⟩ := h.cut
  -- only carriage returns are taken off the line, and they are not visible
  have hreturn : '\r' ∉ mid := fun hmem => absurd (h.visible _ hmem).1 (by decide)
  obtain ⟨shown, hshown, hline⟩ := hcut.sourceLine h.ne_nil hreturn
  exact ⟨_, shown, hcut.line, hcut.column, hline, hshown⟩

end Site

/-! ### What a fault is about -/

/-- **What a fault of a text is about**: the margin of its line, and what stands behind that. -/
inductive Fault.About (tabWidth : UInt64) (source : String) : Fault → List Char → List Char → Prop
  /-- A character that begins no token. -/
  | character {span : Span} {margin : List Char} {c : Char} :
    About tabWidth source (.lexical ⟨.unexpectedChar c, span⟩) margin [c]
  /-- A literal that is a number, but out of range. -/
  | number {span : Span} {margin literal : List Char} {signed : Bool} :
    meaning? signed literal = some (.error .numberOutOfRange) →
    About tabWidth source (.lexical ⟨.numberOutOfRange, span⟩) margin literal
  /-- The first character of a line that is not blank. -/
  | indentation {fault : LexicalFault} {span : Span} {margin : List Char} {c : Char} :
    fault = .unexpectedIndent ∨ fault = .inconsistentDedent →
    (∀ d ∈ margin, Layout.isBlank d = true) → Layout.isBlank c = false →
    About tabWidth source (.lexical ⟨fault, span⟩) margin [c]
  /-- The lexeme of a token of the text. -/
  | token {e : GrammarError} {ts : List Token} {t : Token} {margin lexeme : List Char} :
    tokenize tabWidth source = .ok ts → t ∈ ts → e.token = some t →
    Written lexeme t.kind t.value →
    About tabWidth source (.grammar e) margin lexeme
  /-- The first character of the line that a token of the layout begins. -/
  | layout {e : GrammarError} {ts : List Token} {t : Token} {margin : List Char} {c : Char} :
    tokenize tabWidth source = .ok ts → t ∈ ts → e.token = some t → t.kind.isLayout = true →
    (∀ d ∈ margin, Layout.isBlank d = true) → Blank.isBlank c = false →
    About tabWidth source (.grammar e) margin [c]
  /-- The lexeme of the last token, behind which more was expected. -/
  | ended {e : GrammarError} {front : List Token} {last : Token} {margin lexeme : List Char} :
    tokenize tabWidth source = .ok (front ++ [last]) → e.fault = .unexpectedEnd →
    e.token = none → Written lexeme last.kind last.value →
    About tabWidth source (.grammar e) margin lexeme

/-- The fault is the end of a block that the end of the text closes. All other ends of blocks come
before a token that is written. -/
def Fault.ClosesAtEnd (source : String) (f : Fault) : Prop :=
  ∃ e t, f = .grammar e ∧ e.token = some t ∧ t = .plain .dedent (Span.behind source.toList)

/-! ### Lexical faults -/

namespace Lexer

/-- A fault is found in some step, and so is a trap. -/
theorem exists_step_of_error {l : Lexer} {halt : Halt LexicalError} (h : l.tokens = .error halt) :
    ∃ n l', Step (l.run n).2 (some (.error halt)) l' := by
  -- every step that gives a token leaves less to be done
  induction hb : l.budget using Nat.strong_induction_on generalizing l with
  | _ budget ih =>
    have hstep := l.step_next
    rw [tokens_eq] at h
    rcases hnext : l.next with ⟨_ | halt' | t, l'⟩ <;> rw [hnext] at h hstep
    · cases h
    · cases h
      exact ⟨0, l', hstep⟩
    · rw [outcome] at h
      have hmore : l'.tokens = .error halt := by
        cases hl' : l'.tokens with
        | error halt' =>
          rw [hl'] at h
          cases h
          rfl
        | ok ts =>
          rw [hl'] at h
          cases h
      obtain ⟨n, l'', hn⟩ := ih l'.budget (hb ▸ budget_next hnext) hmore rfl
      refine ⟨n + 1, l'', ?_⟩
      rwa [run, hnext]

end Lexer

variable {tabWidth : UInt64} {source : String}

/-- **At the place of a lexical fault stands what it is about.** -/
theorem tokenize_error_about {e : LexicalError}
    (h : tokenize tabWidth source = .error (.fault e)) :
    ∃ margin mid, Site source.toList e.span margin mid ∧
      (Fault.lexical e).About tabWidth source margin mid := by
  obtain ⟨n, l', hstep⟩ := Lexer.exists_step_of_error h
  obtain ⟨passed, htext, hhere⟩ := Lexer.placedIn_run tabWidth source n
  have hfresh := Lexer.eq_ofSource_of_fresh tabWidth source n
  generalize ((Lexer.ofSource tabWidth source).run n).2 = l at hstep htext hhere hfresh
  -- a position in the text is the one behind what was passed over
  have hspan : ∀ gap, l.here.after gap = Span.behind (passed ++ gap) := by
    intro gap
    rw [hhere, ← Span.after_append, Span.after_start]
  cases hstep with
  | @outOfRange gap literal rest hfinds _ _ hlongest =>
    -- the literal is a lexeme, so there is nothing in it that is not visible
    obtain ⟨-, hlength, hm⟩ := longest?_spec hlongest
    have hsplit : source.toList = (passed ++ gap) ++ (literal ++ rest) := by
      rw [htext, hfinds.split, List.append_assoc]
    obtain ⟨margin, hsite⟩ := exists_site hsplit (List.ne_nil_of_length_pos hlength)
      (.of_not_isGap (not_isGap_of_meaning? hm))
    exact ⟨margin, literal, hspan gap ▸ hsite, .number hm⟩
  | @unexpected gap rest c hfinds _ _ _ =>
    obtain ⟨d, more, heq, hc⟩ := hfinds.content
    cases heq
    have hsplit : source.toList = (passed ++ gap) ++ ([c] ++ rest) := by
      rw [htext, hfinds.split, List.append_assoc]
      rfl
    obtain ⟨margin, hsite⟩ := exists_site hsplit (List.cons_ne_nil c [])
      (.of_not_isGap (List.forall_mem_singleton.mpr hc))
    exact ⟨margin, [c], hspan gap ▸ hsite, .character⟩
  | @indented gap rest hfinds hph =>
    obtain ⟨c, rest, rfl, hc⟩ := hfinds.content
    -- the lexer has not moved yet
    have hpassed : passed = [] := by
      have hlength := congrArg List.length htext
      rw [hfresh hph, List.length_append] at hlength
      exact List.length_eq_zero_iff.mp (Nat.right_eq_add.mp hlength)
    rw [hfinds.split] at htext
    obtain ⟨margin, hsite, hmargin⟩ := exists_site_first htext hfinds.gap (.inl hpassed)
      (.of_not_isGap (List.forall_mem_singleton.mpr hc))
    exact ⟨margin, [c], hspan gap ▸ hsite,
      .indentation (.inl rfl) hmargin (not_isGap_iff.mp hc).1⟩
  | @inconsistent gap rest inner outer hfinds _ hline _ =>
    obtain ⟨c, rest, rfl, hc⟩ := hfinds.content
    rw [hfinds.split] at htext
    obtain ⟨margin, hsite, hmargin⟩ := exists_site_first htext hfinds.gap (.inr hline)
      (.of_not_isGap (List.forall_mem_singleton.mpr hc))
    exact ⟨margin, [c], hspan gap ▸ hsite,
      .indentation (.inr rfl) hmargin (not_isGap_iff.mp hc).1⟩

/-! ### Tokens -/

section Parted

variable {text last : List Char} {pieces before after : List Piece} {p : Piece}

/-- A piece stands behind those before it, and its token behind the gap. -/
theorem Parted.placed (h : Parted Span.start text pieces last)
    (hsplit : pieces = before ++ p :: after) :
    text = before.flatMap Piece.text ++
        (p.gap ++ (p.lexeme ++ (after.flatMap Piece.text ++ last))) ∧
      p.token.span = Span.behind (before.flatMap Piece.text ++ p.gap) := by
  constructor
  · rw [h.text_eq, hsplit, List.flatMap_append, List.flatMap_cons, Piece.text]
    simp only [List.append_assoc]
  · rw [(h.stands hsplit).span, ← Span.after_append, Span.after_start]

/-- The lexeme of a token stands at its position. -/
theorem Parted.exists_site_token (h : Parted Span.start text pieces last)
    (hsplit : pieces = before ++ p :: after) :
    ∃ margin, Site text p.token.span margin p.lexeme := by
  obtain ⟨htext, hspan⟩ := h.placed hsplit
  have hwritten := (h.stands hsplit).written
  rw [hspan]
  rw [← List.append_assoc] at htext
  exact exists_site htext hwritten.ne_nil (.of_not_isBlank hwritten.not_isBlank)

/-- Where there are tokens of the layout, a line begins. -/
theorem Parted.exists_site_layout (h : Parted Span.start text pieces last)
    (hsplit : pieces = before ++ p :: after) (hlayout : p.layout ≠ []) :
    ∃ margin c, Site text p.token.span margin [c] ∧ (∀ d ∈ margin, Layout.isBlank d = true) ∧
      Blank.isBlank c = false := by
  obtain ⟨htext, hspan⟩ := h.placed hsplit
  have hp := h.stands hsplit
  -- a line begins with the first character of a lexeme
  obtain ⟨c, cs, hlexeme⟩ := List.exists_cons_of_ne_nil hp.written.ne_nil
  have hc : Blank.isBlank c = false := hp.written.not_isBlank c (hlexeme ▸ List.mem_cons_self)
  rw [hlexeme, List.cons_append] at htext
  obtain ⟨margin, hsite, hmargin⟩ := exists_site_first htext hp.gap (.inr (hp.newline hlayout))
    (.of_not_isBlank (List.forall_mem_singleton.mpr hc))
  exact ⟨margin, c, hspan ▸ hsite, hmargin, hc⟩

end Parted

/-- The tokens of a text are those of its pieces and those that its end brings. -/
theorem tokenize_parted {ts : List Token} (h : tokenize tabWidth source = .ok ts) :
    ∃ pieces last closing, Parted Span.start source.toList pieces last ∧
      ts = pieces.flatMap Piece.tokens ++ closing ∧
      ∀ t ∈ closing, t = .plain .dedent (Span.behind source.toList) := by
  obtain ⟨pieces, last, closing, hparted, hts, hclosing⟩ :=
    (Lexer.givesPieces h).between rfl (by simp [Lexer.ofSource])
  refine ⟨pieces, last, closing, hparted, hts, fun t ht => ?_⟩
  rw [hclosing t ht, ← Span.after_start]
  rfl

/-- **The place of each token**: its lexeme stands there, or it is of the layout and begins a line,
or it ends a block behind the whole text. -/
theorem tokenize_token {ts : List Token} {t : Token} (h : tokenize tabWidth source = .ok ts)
    (ht : t ∈ ts) :
    (∃ margin lexeme, Site source.toList t.span margin lexeme ∧ Written lexeme t.kind t.value) ∨
      (t.kind.isLayout = true ∧ ∃ margin c, Site source.toList t.span margin [c] ∧
        (∀ d ∈ margin, Layout.isBlank d = true) ∧ Blank.isBlank c = false) ∨
      t = .plain .dedent (Span.behind source.toList) := by
  obtain ⟨pieces, last, closing, hparted, rfl, hclosing⟩ := tokenize_parted h
  rcases List.mem_append.mp ht with hpieces | hclosed
  · obtain ⟨p, hp, htp⟩ := List.mem_flatMap.mp hpieces
    obtain ⟨before, after, hsplit⟩ := List.append_of_mem hp
    have hstands := hparted.stands hsplit
    rcases List.mem_append.mp htp with hlayout | htoken
    · -- a token of the layout stands where the token behind it does
      obtain ⟨hkind, hspan⟩ := hstands.layout t hlayout
      rw [hspan]
      exact .inr (.inl ⟨hkind, hparted.exists_site_layout hsplit (List.ne_nil_of_mem hlayout)⟩)
    · obtain rfl := List.mem_singleton.mp htoken
      obtain ⟨margin, hsite⟩ := hparted.exists_site_token hsplit
      exact .inl ⟨margin, p.lexeme, hsite, hstands.written⟩
  · exact .inr (.inr (hclosing t hclosed))

/-- **The last token is one that is written**, unless it ends a block. -/
theorem tokenize_last {front : List Token} {t : Token}
    (h : tokenize tabWidth source = .ok (front ++ [t])) (hkind : t.kind ≠ .dedent) :
    ∃ margin lexeme, Site source.toList t.span margin lexeme ∧ Written lexeme t.kind t.value := by
  obtain ⟨pieces, last, closing, hparted, hts, hclosing⟩ := tokenize_parted h
  rcases List.eq_nil_or_concat closing with rfl | ⟨closing, u, rfl⟩
  · rcases List.eq_nil_or_concat pieces with rfl | ⟨before, p, rfl⟩
    · simp at hts
    · -- nothing is closed at the end, so the last token is that of the last piece
      have hlast := congrArg List.getLast? hts
      obtain rfl : t = p.token := by simpa [Piece.tokens] using hlast
      have hsplit : before.concat p = before ++ p :: [] := List.concat_eq_append
      obtain ⟨margin, hsite⟩ := hparted.exists_site_token hsplit
      exact ⟨margin, p.lexeme, hsite, (hparted.stands hsplit).written⟩
  · have hlast := congrArg List.getLast? hts
    obtain rfl : t = u := by simpa using hlast
    exact absurd (by rw [hclosing t (by simp)]; rfl) hkind

/-! ### Faults of the grammar -/

/-- **At the place of a fault of the grammar stands what it is about**, unless a block that the end
of the text closes is at fault. -/
theorem parse_error_about {ts : List Token} {e : GrammarError}
    (hts : tokenize tabWidth source = .ok ts) (h : Parser.parse ts = .error e) :
    (Fault.grammar e).ClosesAtEnd source ∧ e.span = Span.behind source.toList ∨
      ∃ margin mid, Site source.toList e.span margin mid ∧
        (Fault.grammar e).About tabWidth source margin mid := by
  rcases Parser.parse_error_site h with
    ⟨t, ht, htoken, hspan⟩ | ⟨front, last, rfl, hfault, htoken, hspan, hkind⟩
  · rw [hspan]
    -- the fault is at a token: one that is written, one of the layout, or one that closes the text
    rcases tokenize_token hts ht with
      ⟨margin, lexeme, hsite, hwritten⟩ | ⟨hlayout, margin, c, hsite, hmargin, hc⟩ | hclosing
    · exact .inr ⟨margin, lexeme, hsite, .token hts ht htoken hwritten⟩
    · exact .inr ⟨margin, [c], hsite, .layout hts ht htoken hlayout hmargin hc⟩
    · exact .inl ⟨⟨e, t, rfl, htoken, hclosing⟩, congrArg Token.span hclosing⟩
  · -- the sequence ends too early, behind a token that is written
    obtain ⟨margin, lexeme, hsite, hwritten⟩ := tokenize_last hts hkind
    exact .inr ⟨margin, lexeme, hspan ▸ hsite, .ended hts hfault htoken hwritten⟩

/-! ### Diagnostics -/

namespace Source

variable {s : Settings} {f : Fault}

/-- A fault of a text is found by the lexer or, in its tokens, by the parser. -/
theorem compile_eq_error (hs : s.validate = .ok ()) (h : compile s source = .error (.fault f)) :
    (∃ e, f = .lexical e ∧ tokenize s.tabWidth source = .error (.fault e)) ∨
      ∃ ts e, f = .grammar e ∧ tokenize s.tabWidth source = .ok ts ∧
        Parser.parse ts = .error e := by
  rw [compile_eq hs] at h
  unfold compileTokens at h
  -- the fault comes from the stage that fails first
  rcases hts : tokenize s.tabWidth source with (e | trap) | ts
  · rw [hts] at h
    cases h
    exact .inl ⟨e, rfl, rfl⟩
  · rw [hts] at h
    cases h
  · rw [hts] at h
    cases hp : Parser.parse ts with
    | error e =>
      simp only [Except.mapError, bind, Except.bind, hp] at h
      cases h
      exact .inr ⟨ts, e, rfl, rfl, hp⟩
    | ok r =>
      simp only [Except.mapError, bind, Except.bind, hp] at h
      cases h

/-- A fault of a text stands at what it is about, or closes a block at the end of the text. -/
theorem compile_error_site (hs : s.validate = .ok ()) (h : compile s source = .error (.fault f)) :
    ∃ span, f.span? = some span ∧
      (f.ClosesAtEnd source ∧ span = Span.behind source.toList ∨
        ∃ margin mid, Site source.toList span margin mid ∧
          f.About s.tabWidth source margin mid) := by
  rcases compile_eq_error hs h with ⟨e, rfl, hlexical⟩ | ⟨ts, e, rfl, hts, hparse⟩
  · exact ⟨e.span, rfl, .inr (tokenize_error_about hlexical)⟩
  · exact ⟨e.span, rfl, parse_error_about hts hparse⟩

/-- **A diagnostic points at what the fault is about.** A text that is rejected is rejected at a
position on one of its lines, at most one column behind the last character. Unless the fault is the
end of a block at the end of the text, the diagnostic shows this line without the carriage returns
at its end; from the column on it shows what the fault is about, with the margin before it. In rich
output the caret stands below that column, behind as many characters as the margin has, each of
which is a tab exactly where the line has one. -/
theorem compile_error_excerpt (hs : s.validate = .ok ())
    (h : compile s source = .error (.fault f)) :
    let d := (Diagnostic.ofFault f).withSource source
    ∃ span line, f.span? = some span ∧
      (source.toList.splitOn '\n')[span.line - 1]? = some line ∧
      (1 ≤ span.line ∧ span.line ≤ 1 + source.toList.count '\n') ∧
      (1 ≤ span.column ∧ span.column ≤ 1 + line.length) ∧
      (¬ f.ClosesAtEnd source →
        ∃ margin mid shown, d.sourceLine = some (String.ofList (margin ++ (mid ++ shown))) ∧
          margin ++ (mid ++ shown) = line.rdropWhile (· == '\r') ∧
          span.column = margin.length + 1 ∧ mid ≠ [] ∧
          span.column ≤ (margin ++ (mid ++ shown)).length ∧
          f.About s.tabWidth source margin mid) ∧
      ∀ path excerpt, d.sourceLine = some excerpt →
        Diagnostic.Points { d with path := path } span excerpt := by
  intro d
  obtain ⟨span, hspan, hsite⟩ := compile_error_site hs h
  obtain ⟨hd, hline⟩ := Diagnostic.withSource_ofFault hspan source
  -- the position cuts its line in both cases
  obtain ⟨margin, cs, hcut⟩ : ∃ margin cs, Cut source.toList span margin cs := by
    rcases hsite with ⟨-, rfl⟩ | ⟨margin, mid, hsite, -⟩
    · exact exists_cut_behind source.toList
    · obtain ⟨post, hcut⟩ := hsite.cut
      exact ⟨margin, mid ++ post, hcut⟩
  refine ⟨span, margin ++ cs, hspan, hcut.line, ⟨hcut.pos, hcut.line_le⟩, hcut.column_mem, ?_, ?_⟩
  · intro hopen
    rcases hsite with ⟨hclosing, -⟩ | ⟨margin', mid, hsite, habout⟩
    · exact absurd hclosing hopen
    · obtain ⟨line', shown, hline', hcolumn, htrim, hshown⟩ := hsite.sourceLine
      -- both cuts are of the same line
      obtain rfl : margin ++ cs = line' := Option.some.inj (hcut.line.symm.trans hline')
      refine ⟨margin', mid, shown, hline.trans hshown, htrim, hcolumn, hsite.ne_nil, ?_, habout⟩
      have hpos := List.length_pos_iff.mpr hsite.ne_nil
      rw [hcolumn, List.length_append, List.length_append]
      omega
  · intro path excerpt hexcerpt
    exact Diagnostic.points_of_sourceLine hd hexcerpt

/-- A text with a number too many, on a line with a tab before and a comment and carriage returns
behind. -/
def overfullText : String := "# é\r\nif a:\r\n\tb = 1 1 # é\r\r\nc = 2"

/-- What is wrong with it. -/
def overfull : GrammarError :=
  .unexpected ⟨.intLiteral, some (.int 1), ⟨3, 8⟩⟩ "expected end of statement"

/-- The caret is below the second number, behind a tab and six other characters. -/
theorem compile_overfullText :
    Settings.standard.validate = .ok () ∧
      compile .standard overfullText = .error (.fault (.grammar overfull)) ∧
      ((Diagnostic.ofFault (.grammar overfull)).withSource overfullText).sourceLine =
        some "\tb = 1 1 # é" ∧
      ∃ margin mid shown, "\tb = 1 1 # é".toList = margin ++ (mid ++ shown) ∧
        margin = "\tb = 1 ".toList ∧
        (Fault.grammar overfull).About 8 overfullText margin mid ∧
        Diagnostic.Points ((Diagnostic.ofFault (.grammar overfull)).withSource overfullText) ⟨3, 8⟩
          "\tb = 1 1 # é" := by
  have hvalid : Settings.standard.validate = .ok () := by decide
  have hcompile : compile .standard overfullText = .error (.fault (.grammar overfull)) := by
    decide +kernel
  have hshows : ((Diagnostic.ofFault (.grammar overfull)).withSource overfullText).sourceLine =
      some "\tb = 1 1 # é" := by decide +kernel
  obtain ⟨span, line, hspan, -, -, -, hexcerpt, hpoints⟩ := compile_error_excerpt hvalid hcompile
  cases hspan
  obtain ⟨margin, mid, shown, hshown, -, hcolumn, -, -, habout⟩ := hexcerpt (by
    rintro ⟨e, t, he, ht, hclosing⟩
    cases he
    cases ht
    cases hclosing)
  have heq : "\tb = 1 1 # é".toList = margin ++ (mid ++ shown) := by
    have hlines := Option.some.inj (hshows.symm.trans hshown)
    rw [hlines, String.toList_ofList]
  refine ⟨hvalid, hcompile, hshows, margin, mid, shown, heq, ?_, habout, hpoints none _ hshows⟩
  -- the column tells how long the margin is, and so where the line is cut
  have hlength : 7 = margin.length := Nat.succ.inj hcolumn
  calc margin = (margin ++ (mid ++ shown)).take 7 := by rw [hlength, List.take_left]
    _ = "\tb = 1 ".toList := by rw [← heq]; decide

end Source

end Offside
