import Offside.Proofs.Exchange.Structures
import Offside.Proofs.Lexing.Steps
import Offside.Proofs.Placement.Parsing
import Offside.Proofs.Scopes

/-!
# Exchanged texts

The data that is made of a text can be exchanged: its numbers are finite, and its positions fit if
the text does. So other programs can go on from the tokens or from the tree of a text, as far as
they are handed the values that were encoded, with the fields of objects in any order.

* `Lexer.Step.roomy` — a step gives a token that can be exchanged, and leaves room for the others;
* `tokenize_portable` — all tokens of a text can be exchanged;
* `Parser.parse_portable` — what is parsed from them can be exchanged, since its positions are
  theirs;
* `Source.parse_readsBack` — what is exchanged is read back as it was.
-/

namespace Offside

open Json (Restores Arranges)

/-! ### Tokens of a text -/

namespace Span

/-- There is room for some more lines and columns behind a position. -/
def HasRoom (here : Span) (n : Nat) : Prop :=
  here.line + n < UInt64.size ∧ here.column + n < UInt64.size

variable {here : Span}

/-- Where there is room for more, the position itself fits. -/
theorem HasRoom.fits {n : Nat} (h : here.HasRoom n) : here.fits = true := by
  obtain ⟨hline, hcolumn⟩ := h
  rw [Span.fits, Bool.and_eq_true, decide_eq_true_eq, decide_eq_true_eq]
  omega

/-- Each character takes one line or one column. -/
theorem HasRoom.after {cs ds : List Char} (h : here.HasRoom (cs ++ ds).length) :
    (here.after cs).HasRoom ds.length := by
  induction cs generalizing here with
  | nil => exact h
  | cons c cs ih =>
    obtain ⟨hline, hcolumn⟩ := h
    rw [List.cons_append, List.length_cons] at hline hcolumn
    rw [Span.after]
    apply ih
    split_ifs with hc
    · -- a new line begins at its first column
      show here.line + 1 + (cs ++ ds).length < UInt64.size ∧ 1 + (cs ++ ds).length < UInt64.size
      omega
    · show here.line + (cs ++ ds).length < UInt64.size ∧
        here.column + 1 + (cs ++ ds).length < UInt64.size
      omega

end Span

/-- What a lexeme stands for can be exchanged. -/
theorem Token.Written.isPortable {cs : List Char} {kind : Kind} {value : Option Value}
    (h : Written cs kind value) : value.all Value.isPortable = true := by
  cases h with
  | float _ _ _ hfinite => exact hfinite
  | word _ _ => rfl
  | truth _ => rfl
  | name _ _ => rfl
  | operator _ => rfl
  | int _ _ => rfl

namespace Lexer

/-- **There is room** for the positions of what is left to read, and the tokens that are due can be
exchanged. -/
structure Roomy (l : Lexer) : Prop where
  here : l.here.HasRoom l.rest.length
  pending : ∀ t ∈ l.pending, t.isPortable = true

variable {l l' : Lexer}

/-- Behind a prefix of what is left there is room for the rest, by `Span.HasRoom.after`. -/
theorem Roomy.behind (hl : l.Roomy) {passed rest : List Char} (hsplit : l.rest = passed ++ rest) :
    (l.here.after passed).HasRoom rest.length := by
  apply Span.HasRoom.after
  rw [← hsplit]
  exact hl.here

/-- **A step gives a token that can be exchanged**, and leaves room for the others. -/
theorem Step.roomy {t : Token} (h : Step l (some (.ok t)) l') (hl : l.Roomy) :
    t.isPortable = true ∧ l'.Roomy := by
  cases h with
  | due hp =>
    have hpending := hl.pending
    rw [hp] at hpending
    obtain ⟨ht, hts⟩ := List.forall_mem_cons.mp hpending
    exact ⟨ht, hl.here, hts⟩
  | token hfinds _ _ hm =>
    -- the token stands behind the gap, and the lexer behind the lexeme
    have hgap := hl.behind hfinds.split
    have hlexeme := hl.behind (hfinds.split.trans (List.append_assoc _ _ _).symm)
    have hvalue := (Linewise.written_of_meaning? hm).isPortable
    exact ⟨Bool.and_eq_true_iff.mpr ⟨hvalue, hgap.fits⟩, hlexeme, hl.pending⟩
  | opened hfinds _ _ _ =>
    have hgap := hl.behind hfinds.split
    exact ⟨hgap.fits, hgap, hl.pending⟩
  | continued hfinds _ _ =>
    have hgap := hl.behind hfinds.split
    exact ⟨hgap.fits, hgap, hl.pending⟩
  | closed hfinds _ _ _ _ =>
    have hgap := hl.behind hfinds.split
    -- the tokens that are due stand where the first one does
    refine ⟨hgap.fits, hgap, fun u hu => ?_⟩
    rw [List.eq_of_mem_replicate hu]
    exact hgap.fits
  | closing _ _ =>
    have hrest := hl.behind (List.append_nil l.rest).symm
    refine ⟨hrest.fits, hrest, fun u hu => ?_⟩
    rw [List.eq_of_mem_replicate hu]
    exact hrest.fits

/-- The run of `Step.roomy`, by `tokens_induction`. -/
theorem tokens_portable {ts : List Token} (h : l.tokens = .ok ts) (hl : l.Roomy) :
    ts.all Token.isPortable = true := by
  refine tokens_induction (motive := fun l ts => l.Roomy → ts.all Token.isPortable = true)
    ?_ ?_ h hl
  · intro l l' _ _
    rfl
  · intro l t l' ts hstep _ ih hl
    obtain ⟨ht, hl'⟩ := hstep.roomy hl
    rw [List.all_cons, ht, ih hl']
    rfl

end Lexer

/-- **The tokens of a text can be exchanged**, if the text fits. -/
theorem tokenize_portable {tabWidth : UInt64} {source : String} {ts : List Token}
    (h : tokenize tabWidth source = .ok ts) (hfits : source.length + 1 < UInt64.size) :
    ts.all Token.isPortable = true := by
  apply Lexer.tokens_portable h
  constructor
  · -- the first position has room for the whole text
    show 1 + source.toList.length < UInt64.size ∧ 1 + source.toList.length < UInt64.size
    rw [String.length_toList]
    omega
  · intro t ht
    cases ht

/-! ### Trees of a text

A tree whose positions were all replaced by positions that fit can be exchanged. The tree of some
tokens is such a tree: replacing the positions that do not fit changes nothing about the tokens, so
it changes nothing about the tree. -/

/-- A position that fits, in the place of one that does not. -/
def Span.fitted (s : Span) : Span := if s.fits then s else Span.start

/-- A fitted position fits, either way. -/
theorem Span.fits_fitted (s : Span) : s.fitted.fits = true := by
  unfold Span.fitted
  split_ifs with h
  · exact h
  · rfl

/-- A position that fits is left as it is. -/
theorem Span.fitted_eq {s : Span} (h : s.fits = true) : s.fitted = s := if_pos h

/-- A token that can be exchanged is left as it is. -/
theorem Token.moved_fitted {t : Token} (h : t.isPortable = true) :
    t.moved Span.fitted = t := by
  rw [Token.moved, Span.fitted_eq (Bool.and_eq_true_iff.mp h).2]

/-- Only floats can fail to be exchanged, and those of well-formed operands are finite. -/
theorem Operand.WellFormed.isPortable {x : Operand} (h : x.WellFormed) : x.isPortable = true := by
  cases x with
  | name _ => rfl
  | literal l =>
    cases l with
    | float x => exact h
    | int _ => rfl
    | bool _ => rfl

section Moved

variable {g : Span → Span}

/-- A well-formed call can be exchanged, once its position fits. -/
theorem Call.isPortable_moved (hg : ∀ s, (g s).fits = true) {c : Call} (h : c.WellFormed) :
    (c.moved g).isPortable = true := by
  have hargs : c.args.all Operand.isPortable = true :=
    List.all_eq_true.mpr fun x hx => (h.2 x hx).isPortable
  exact Bool.and_eq_true_iff.mpr ⟨hargs, hg c.span⟩

/-- The same for an expression. -/
theorem Expr.isPortable_moved (hg : ∀ s, (g s).fits = true) {e : Expr} (h : e.WellFormed) :
    (e.moved g).isPortable = true := by
  cases e with
  | call c => exact Call.isPortable_moved hg h
  | operation o =>
    have hrest : (o.rest.all fun pair => pair.2.isPortable) = true :=
      List.all_eq_true.mpr fun pair hpair => (h.2 pair hpair).isPortable
    exact Bool.and_eq_true_iff.mpr ⟨h.1.isPortable, hrest⟩

mutual

/-- A proper statement can be exchanged, once its positions fit. -/
theorem Stmt.isPortable_moved (hg : ∀ s, (g s).fits = true) :
    ∀ s : Stmt, s.Proper → (s.moved g).isPortable = true
  | .assign _ _ _ span, h => by
    exact Bool.and_eq_true_iff.mpr ⟨Expr.isPortable_moved hg h.2, hg span⟩
  | .declare _ _ span, _ => hg span
  | .giveBack none span, _ => hg span
  | .giveBack (some _) span, h => by
    exact Bool.and_eq_true_iff.mpr ⟨Expr.isPortable_moved hg h, hg span⟩
  | .loop _ body span, h => by
    -- the numbers are finite since they were written, and every position is moved to one that fits
    have hbody := Stmt.isPortableBlock_moved hg body h.2
    rw [Stmt.moved, Stmt.isPortable, Expr.isPortable_moved hg h.1, hbody, hg span]
    rfl
  | .choose bs none span, h => by
    have hbs := Stmt.isPortableBranches_moved hg bs h.2
    rw [Stmt.moved, Stmt.isPortable, hbs, hg span]
    rfl
  | .choose bs (some body) span, h => by
    have hbs := Stmt.isPortableBranches_moved hg bs h.2.1
    have hbody := Stmt.isPortableBlock_moved hg body h.2.2
    rw [Stmt.moved, Stmt.isPortable, hbs, hbody, hg span]
    rfl
  | .print args span, h => by
    have hargs : (args.map (Expr.moved g)).all Expr.isPortable = true := by
      rw [List.all_map]
      exact List.all_eq_true.mpr fun e he => Expr.isPortable_moved hg (h e he)
    exact Bool.and_eq_true_iff.mpr ⟨hargs, hg span⟩
  | .call _, h => Call.isPortable_moved hg h

/-- The same for a block. -/
theorem Stmt.isPortableBlock_moved (hg : ∀ s, (g s).fits = true) :
    ∀ ss : List Stmt, Stmt.ProperBlock ss →
      Stmt.isPortableBlock (Stmt.movedBlock g ss) = true
  | [], _ => rfl
  | s :: ss, h => by
    have hs := Stmt.isPortable_moved hg s h.1
    rw [Stmt.movedBlock, Stmt.isPortableBlock, hs, Stmt.isPortableBlock_moved hg ss h.2]
    rfl

/-- The same for branches. -/
theorem Stmt.isPortableBranches_moved (hg : ∀ s, (g s).fits = true) :
    ∀ bs : List Branch, Stmt.ProperBranches bs →
      Stmt.isPortableBranches (Stmt.movedBranches g bs) = true
  | [], _ => rfl
  | .mk _ body span :: bs, h => by
    have hbody := Stmt.isPortableBlock_moved hg body h.1.2
    rw [Stmt.movedBranches, Stmt.isPortableBranches, Expr.isPortable_moved hg h.1.1, hbody,
      hg span, Stmt.isPortableBranches_moved hg bs h.2]
    rfl

end

/-- **A proper program can be exchanged, once its positions fit.** -/
theorem Program.isPortable_moved (hg : ∀ s, (g s).fits = true) {p : Program} (h : p.Proper) :
    (p.moved g).isPortable = true := by
  have hblock : ∀ ss, Stmt.ProperBlock ss →
      Stmt.isPortableBlock (ss.map (Stmt.moved g)) = true := by
    intro ss hss
    rw [← Stmt.movedBlock_eq]
    exact Stmt.isPortableBlock_moved hg ss hss
  have hfunctions : (p.functions.map (Function.moved g)).all Function.isPortable = true := by
    rw [List.all_map]
    refine List.all_eq_true.mpr fun f hf => ?_
    exact Bool.and_eq_true_iff.mpr ⟨hblock f.body (h.functions f hf).body, hg f.span⟩
  exact Bool.and_eq_true_iff.mpr ⟨hfunctions, hblock p.body h.body⟩

/-- A symbol table holds names, types and positions, and only positions can fail to be exchanged. -/
theorem SymbolTable.isPortable_moved (hg : ∀ s, (g s).fits = true) (t : SymbolTable) :
    (t.moved g).isPortable = true := by
  show (t.scopes.map (Scope.moved g)).all Scope.isPortable = true
  rw [List.all_map]
  refine List.all_eq_true.mpr fun scope _ => ?_
  show (scope.symbols.map (Symbol.moved g)).all (fun symbol => symbol.span.fits) = true
  rw [List.all_map]
  exact List.all_eq_true.mpr fun symbol _ => hg symbol.span

end Moved

/-- **What is parsed from tokens that can be exchanged can be exchanged**, too. -/
theorem Parser.parse_portable {ts : List Token} {table : SymbolTable} {p : Program}
    (h : parse ts = .ok (table, p)) (hts : ts.all Token.isPortable = true) (hp : p.Proper) :
    table.isPortable = true ∧ p.isPortable = true := by
  -- tokens that can be exchanged are left as they are
  have hsame : ts.map (Token.moved Span.fitted) = ts :=
    (List.map_congr_left fun t ht => Token.moved_fitted (List.all_eq_true.mp hts t ht)).trans
      (List.map_id' ts)
  -- so moving them is no move, and what is parsed from them is already fitted
  have hparse := parse_moved Span.fitted ts
  rw [hsame, h] at hparse
  obtain ⟨htable, hprogram⟩ := Prod.mk.inj (Except.ok.inj hparse)
  rw [htable, hprogram]
  exact ⟨SymbolTable.isPortable_moved Span.fits_fitted table,
    Program.isPortable_moved Span.fits_fitted hp⟩

/-! ### Going on from exchanged data -/

namespace Source

variable {s : Settings} {text : String}

/-- Accepted settings leave the tokens to the tab width. -/
theorem tokens_of_validate (hs : s.validate = .ok ()) {ts : List Token}
    (h : tokenize s.tabWidth text = .ok ts) : tokens s text = .ok ts := by
  unfold tokens
  rw [hs, h]
  rfl

/-- The listing is the sorted text of the tokens' value. -/
theorem listing_json {ts : List Token} (h : tokens s text = .ok ts) :
    listing s .json text = .ok (Json.ofList Token.toJson ts).prettySorted := by
  unfold listing
  rw [h]
  rfl

/-- The tree is the sorted text of the document. -/
theorem tree_json {table : SymbolTable} {p : Program} (h : parse s text = .ok (table, p)) :
    tree s .json text = .ok (Program.document table p).prettySorted := by
  unfold tree
  rw [h]
  rfl

/-- What is compiled is what is emitted for the tree. -/
theorem compile_of_parse {table : SymbolTable} {p : Program} (h : parse s text = .ok (table, p)) :
    compile s text = .ok (Cpp.emit s.indentWidth.toNat table p) := by
  unfold compile
  rw [h]
  rfl

/-- **Exchanged data is read back.** Programs, symbol tables and lists of tokens are found again in
their JSON values, whatever the order of the fields, if their numbers are finite and their positions
fit; and these values hold no number that has to be rounded to be written (`Json.Restores`). So for
a text that is a program, with any tab width:

* the tokens found again in their value are parsed to the table and the program of the text;
* the table and the program are found again in their value, and the C++ text made of them is that of
  the text, for all settings with this tab width that are accepted;
* under such settings these two values are what is printed as the listing and as the tree. -/
theorem parse_readsBack :
    (∀ p : Program, p.isPortable = true → Restores Program.toJson Program.ofJson? p) ∧
      (∀ table : SymbolTable, table.isPortable = true →
        Restores SymbolTable.toJson SymbolTable.ofJson? table) ∧
      (∀ ts : List Token, ts.all Token.isPortable = true →
        Restores (Json.ofList Token.toJson) (Json.list? Token.ofJson?) ts) ∧
      ∀ (tabWidth : UInt64) (text : String) (table : SymbolTable) (p : Program),
        text.length + 1 < UInt64.size → analyze tabWidth text = .ok (table, p) →
          ∃ ts, tokenize tabWidth text = .ok ts ∧
            (∀ ⦃f⦄, Arranges f →
              (Json.list? Token.ofJson? (f (Json.ofList Token.toJson ts))).map Parser.parse =
                some (.ok (table, p)) ∧
              Program.ofDocument? (f (Program.document table p)) = some (table, p)) ∧
            ∀ s : Settings, s.validate = .ok () → s.tabWidth = tabWidth →
              listing s .json text = .ok (Json.ofList Token.toJson ts).prettySorted ∧
              tree s .json text = .ok (Program.document table p).prettySorted ∧
              ∃ out, compile s text = .ok out ∧ ∀ ⦃f⦄, Arranges f →
                (Program.ofDocument? (f (Program.document table p))).map
                  (fun read => Cpp.emit s.indentWidth.toNat read.1 read.2) = some out := by
  refine ⟨fun p hp => Program.restores hp, fun table htable => SymbolTable.restores htable,
    fun ts hts => Token.restores_list hts, ?_⟩
  intro tabWidth text table p hfits h
  obtain ⟨ts, hts, hparse⟩ := analyze_eq_ok_iff.mp h
  -- the tokens can be exchanged because the text fits, and the tree because its positions are
  -- theirs
  have hportable := tokenize_portable hts hfits
  obtain ⟨htable, hp⟩ := Parser.parse_portable hparse hportable (analyze_proper h)
  have htokens := Token.restores_list hportable
  have hdocument := Program.restores_document htable hp
  refine ⟨ts, hts, fun f hf => ⟨?_, hdocument.arranged hf⟩, ?_⟩
  · rw [htokens.arranged hf, Option.map_some, hparse]
  · rintro s hs rfl
    have hparsed : parse s text = .ok (table, p) := (parse_of_validate hs text).trans h
    refine ⟨listing_json (tokens_of_validate hs hts), tree_json hparsed, _,
      compile_of_parse hparsed, fun f hf => ?_⟩
    rw [show Program.ofDocument? (f (Program.document table p)) = _ from hdocument.arranged hf]
    rfl

/-- Statements and expressions of all sorts, with and without their optional parts. -/
def portedText : String := String.join [
  "def f(x: float) -> None:\n",
  " while x > 0.5:\n",
  "  y: float = g(x)\n",
  "  print(x * -0.1, True)\n",
  " return\n",
  "n: int\n",
  "if not n:\n",
  " f(2.0)\n",
  "else:\n",
  " n = 7\n"]

/-- On this text all parts apply, with the order of fields in which values are printed. -/
theorem parse_readsBack_portedText :
    ∃ ts table p, tokenize 8 portedText = .ok ts ∧ analyze 8 portedText = .ok (table, p) ∧
      Restores Program.toJson Program.ofJson? p ∧
      Restores SymbolTable.toJson SymbolTable.ofJson? table ∧
      Restores (Json.ofList Token.toJson) (Json.list? Token.ofJson?) ts ∧
      (Json.list? Token.ofJson? (Json.ofList Token.toJson ts).sortFields).map Parser.parse =
        some (.ok (table, p)) ∧
      Program.ofDocument? (Program.document table p).sortFields = some (table, p) ∧
      tree .standard .json portedText = .ok (Program.document table p).prettySorted := by
  have hfits : portedText.length + 1 < UInt64.size := by decide +kernel
  -- evaluated: the text is a program whose numbers are finite
  have hparsed : (analyze 8 portedText).toOption.any
      (fun read => read.1.isPortable && read.2.isPortable) = true := by decide +kernel
  cases h : analyze 8 portedText with
  | error e =>
    rw [h] at hparsed
    cases hparsed
  | ok read =>
    obtain ⟨table, p⟩ := read
    rw [h] at hparsed
    obtain ⟨htable, hp⟩ := Bool.and_eq_true_iff.mp hparsed
    obtain ⟨ts, hts, hread, hsettings⟩ := parse_readsBack.2.2.2 8 portedText table p hfits h
    obtain ⟨htokens, hdocument⟩ := hread Json.arranges_sortFields
    exact ⟨ts, table, p, hts, rfl, parse_readsBack.1 p hp, parse_readsBack.2.1 table htable,
      parse_readsBack.2.2.1 ts (tokenize_portable hts hfits), htokens, hdocument,
      (hsettings .standard rfl rfl).2.1⟩

end Source

end Offside
