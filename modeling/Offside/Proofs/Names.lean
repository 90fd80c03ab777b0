import Mathlib.Data.List.Forall2
import Offside.Proofs.Cpp.Determined
import Offside.Proofs.Grammar.Exact
import Offside.Proofs.Prefix.Viable
import Offside.Proofs.Scopes

/-!
# Where names come from

Kinds and values of tokens are independent, so an identifier may lack its name. The names of a
program are still those of its identifiers: each identifier of an accepted sequence gives one name,
in the order of writing, and there are no others (`Mentioned`).

Which name an identifier gives depends on its place. Inside a statement, and in the head of a
function, it has to carry the name. In front of a statement it need not, and if it carries none, the
name is empty (`Supplies`). In no other way does a name come into a program that no token carries.

The places where an identifier without a name is refused are therefore all but the front of a
statement. That a statement can begin after some tokens is said by the word `return`, which stands
nowhere else.
-/

namespace Offside

/-! ### The names of a program with their places -/

/-- Where a name stands. -/
inductive NamePlace where
  /-- In front of a statement: a variable that is declared or assigned, or a function that is
  called. -/
  | front
  /-- In an expression, in an argument or in the head of a function. -/
  | inside
  deriving DecidableEq

/-- A name and its place. -/
abbrev Mention := NamePlace × String

/-- Names that all stand inside. -/
def Mention.inside (names : List String) : List Mention := names.map (NamePlace.inside, ·)

open Mention

@[simp] theorem Mention.inside_append (names names' : List String) :
    inside (names ++ names') = inside names ++ inside names' := List.map_append

@[simp] theorem Mention.map_snd_inside (names : List String) :
    (inside names).map Prod.snd = names := by
  simp [inside, Function.comp_def]

/-- Names gathered part by part stand inside if those of each part do. -/
theorem Mention.inside_flatMap {α : Type} (xs : List α) (f : α → List String) :
    inside (xs.flatMap f) = xs.flatMap fun x => inside (f x) := List.map_flatMap

/-- One name for each part: the form in which the parameters of a function are listed. -/
theorem Mention.inside_map {α : Type} (xs : List α) (f : α → String) :
    inside (xs.map f) = xs.flatMap fun x => inside [f x] := by
  rw [List.map_eq_flatMap, inside_flatMap]

mutual

/-- The names in a statement with their places, in the order of writing. -/
def Stmt.mentions : Stmt → List Mention
  | .assign target _ value _ => (.front, target) :: inside value.names
  | .declare name _ _ => [(.front, name)]
  | .giveBack none _ => []
  | .giveBack (some value) _ => inside value.names
  | .loop condition body _ => inside condition.names ++ Stmt.mentionsOfBlock body
  | .choose bs none _ => Stmt.mentionsOfBranches bs
  | .choose bs (some body) _ => Stmt.mentionsOfBranches bs ++ Stmt.mentionsOfBlock body
  | .print args _ => inside (args.flatMap Expr.names)
  | .call c => (.front, c.name) :: inside (c.args.flatMap Operand.names)

def Stmt.mentionsOfBlock : List Stmt → List Mention
  | [] => []
  | s :: ss => s.mentions ++ Stmt.mentionsOfBlock ss

def Stmt.mentionsOfBranches : List Branch → List Mention
  | [] => []
  | .mk condition body _ :: bs =>
    inside condition.names ++ Stmt.mentionsOfBlock body ++ Stmt.mentionsOfBranches bs

end

/-- The names in a part of a module with their places. -/
def Grammar.Item.mentions : Item → List Mention
  | .function f =>
    inside (f.name :: f.params.map Param.name) ++ Stmt.mentionsOfBlock f.body
  | .statement s => s.mentions

mutual

/-- Without their places, the mentions of a statement are its names, in the same order. -/
theorem Stmt.map_snd_mentions : ∀ s : Stmt, s.mentions.map Prod.snd = s.names
  | .assign _ _ _ _ => by simp [Stmt.mentions, Stmt.names]
  | .declare _ _ _ => rfl
  | .giveBack none _ => rfl
  | .giveBack (some _) _ => by simp [Stmt.mentions, Stmt.names]
  | .loop _ body _ => by simp [Stmt.mentions, Stmt.names, Stmt.map_snd_mentionsOfBlock body]
  | .choose bs none _ => by simp [Stmt.mentions, Stmt.names, Stmt.map_snd_mentionsOfBranches bs]
  | .choose bs (some body) _ => by
    simp [Stmt.mentions, Stmt.names, Stmt.map_snd_mentionsOfBranches bs,
      Stmt.map_snd_mentionsOfBlock body]
  | .print _ _ => by simp [Stmt.mentions, Stmt.names]
  | .call _ => by simp [Stmt.mentions, Stmt.names, Call.names]

theorem Stmt.map_snd_mentionsOfBlock :
    ∀ ss : List Stmt, (Stmt.mentionsOfBlock ss).map Prod.snd = Stmt.namesOfBlock ss
  | [] => rfl
  | s :: ss => by
    rw [Stmt.mentionsOfBlock, Stmt.namesOfBlock, List.map_append, s.map_snd_mentions,
      Stmt.map_snd_mentionsOfBlock ss]

theorem Stmt.map_snd_mentionsOfBranches :
    ∀ bs : List Branch, (Stmt.mentionsOfBranches bs).map Prod.snd = Stmt.namesOfBranches bs
  | [] => rfl
  | .mk _ body _ :: bs => by
    rw [Stmt.mentionsOfBranches, Stmt.namesOfBranches, List.map_append, List.map_append,
      map_snd_inside, Stmt.map_snd_mentionsOfBlock body, Stmt.map_snd_mentionsOfBranches bs]

end

/-- A program has the names of the parts it is made of. Its functions come first, wherever they were
written. -/
theorem Grammar.Item.perm_names (is : List Item) :
    ((is.flatMap Item.mentions).map Prod.snd).Perm (Item.program is).names := by
  induction is with
  | nil => exact .refl _
  | cons i is ih =>
    rw [List.flatMap_cons, List.map_append]
    cases i with
    | function f =>
      -- the function gives its own name, the parameters and what its body mentions
      have hf : (Item.mentions (.function f)).map Prod.snd = f.names := by
        rw [Item.mentions, List.map_append, map_snd_inside, Stmt.map_snd_mentionsOfBlock]
        rfl
      rw [hf, Item.program, Program.names, List.flatMap_cons, List.append_assoc]
      exact ih.append_left _
    | statement s =>
      rw [Item.mentions, s.map_snd_mentions, Item.program, Program.names, Stmt.namesOfBlock]
      -- a statement is moved behind the functions
      exact (ih.append_left _).trans (List.perm_append_comm_assoc _ _ _)

mutual

/-- What a statement declares is named in front of a statement. -/
theorem Stmt.mention_of_annotation :
    ∀ s : Stmt, ∀ a ∈ s.annotations, (NamePlace.front, a.name) ∈ s.mentions
  | .assign _ (some _) _ _, a, ha => by
    cases List.mem_singleton.mp ha
    exact List.mem_cons_self
  | .assign _ none _ _, _, ha => nomatch ha
  | .declare _ _ _, a, ha => by
    cases List.mem_singleton.mp ha
    exact List.mem_cons_self
  | .giveBack _ _, _, ha => nomatch ha
  | .loop _ body _, a, ha => List.mem_append_right _ (Stmt.mention_of_annotationOfBlock body a ha)
  | .choose bs none _, a, ha => Stmt.mention_of_annotationOfBranches bs a ha
  | .choose bs (some body) _, a, ha => List.mem_append.mpr <| (List.mem_append.mp ha).imp
      (Stmt.mention_of_annotationOfBranches bs a) (Stmt.mention_of_annotationOfBlock body a)
  | .print _ _, _, ha => nomatch ha
  | .call _, _, ha => nomatch ha

theorem Stmt.mention_of_annotationOfBlock : ∀ ss : List Stmt,
    ∀ a ∈ Stmt.annotationsOfBlock ss, (NamePlace.front, a.name) ∈ Stmt.mentionsOfBlock ss
  | [], _, ha => nomatch ha
  | s :: ss, a, ha => List.mem_append.mpr <| (List.mem_append.mp ha).imp
      (s.mention_of_annotation a) (Stmt.mention_of_annotationOfBlock ss a)

theorem Stmt.mention_of_annotationOfBranches : ∀ bs : List Branch,
    ∀ a ∈ Stmt.annotationsOfBranches bs, (NamePlace.front, a.name) ∈ Stmt.mentionsOfBranches bs
  | [], _, ha => nomatch ha
  | .mk _ body _ :: bs, a, ha => List.mem_append.mpr <| (List.mem_append.mp ha).imp
      (fun h => List.mem_append_right _ (Stmt.mention_of_annotationOfBlock body a h))
      (Stmt.mention_of_annotationOfBranches bs a)

end

/-- What a part of a module declares is named in front of a statement, and its scope is that of the
module or is named too. -/
theorem Grammar.Item.mention_of_annotation {i : Item} {scope : String} {s : Symbol}
    (h : (scope, s) ∈ i.annotations) : (NamePlace.front, s.name) ∈ i.mentions ∧
      (scope = SymbolTable.moduleName ∨ (NamePlace.inside, scope) ∈ i.mentions) := by
  obtain _ | _ := i <;> obtain ⟨a, ha, heq⟩ := List.mem_map.mp h <;> cases heq
  case function f =>
    exact ⟨List.mem_append_right _ (Stmt.mention_of_annotationOfBlock f.body s ha),
      .inr (List.mem_append_left _ List.mem_cons_self)⟩
  case statement s' => exact ⟨s'.mention_of_annotation s ha, .inl rfl⟩

namespace Grammar

/-! ### Which name an identifier gives -/

/-- **The name that an identifier gives**: the one it carries, or the empty one if it carries none
and stands in front of a statement. -/
def Supplies (t : Token) (m : Mention) : Prop :=
  t.value = some (.name m.2) ∨ (m.1 = .front ∧ t.name? = none ∧ m.2 = "")

/-- The identifiers among the tokens give the names, one after the other. -/
def Mentioned (ts : List Token) (ms : List Mention) : Prop :=
  List.Forall₂ Supplies (ts.filter fun t => t.kind = .identifier) ms

/-- The token in front of a statement gives the name the statement is about, by
`Parser.name?_eq_some` if it carries one and by the second case of `Supplies` if not. -/
theorem Leads.supplies {t : Token} {name : String} (h : Leads t name) :
    Supplies t (.front, name) := by
  obtain ⟨-, rfl⟩ := h
  cases hname : t.name? with
  | none => exact .inr ⟨rfl, hname, rfl⟩
  | some name => exact .inl (Parser.name?_eq_some.mp hname)

namespace Mentioned

variable {t : Token} {m : Mention} {ts us : List Token} {ms ns : List Mention}

/-- No identifiers, no names. -/
theorem nil : Mentioned [] [] := List.Forall₂.nil

/-- Sequences one after the other give their names one after the other. -/
theorem append (h : Mentioned ts ms) (h' : Mentioned us ns) : Mentioned (ts ++ us) (ms ++ ns) := by
  unfold Mentioned
  rw [List.filter_append]
  exact List.rel_append h h'

/-- A token that is no identifier gives no name. For a fixed kind this is decided; for a kind that
is only known through what it stands for, see `ne_identifier_of_valueType` and the two after it. -/
theorem skip {kind : Token.Kind} (hk : t.kind = kind) (h : Mentioned ts ms)
    (hkind : kind ≠ .identifier := by decide) : Mentioned (t :: ts) ms := by
  unfold Mentioned
  rwa [List.filter_cons_of_neg (by simpa [hk] using hkind)]

/-- An identifier gives the next name. -/
theorem name (hk : t.kind = .identifier) (ht : Supplies t m) (h : Mentioned ts ms) :
    Mentioned (t :: ts) (m :: ms) := by
  unfold Mentioned
  rw [List.filter_cons_of_pos (by simpa using hk)]
  exact .cons ht h

/-- Every name is given by one of the tokens. -/
theorem exists_supplies (h : Mentioned ts ms) (hm : m ∈ ms) :
    ∃ t ∈ ts, t.kind = .identifier ∧ Supplies t m := by
  unfold Mentioned at h
  -- of the identifiers only their kind matters, and that they are among the tokens
  generalize hl : (ts.filter fun t => t.kind = .identifier) = l at h
  have hsub : ∀ t ∈ l, t ∈ ts ∧ t.kind = .identifier := by
    intro t ht
    rw [← hl, List.mem_filter] at ht
    exact ⟨ht.1, of_decide_eq_true ht.2⟩
  clear hl
  -- along the pairs of identifiers and names
  induction h with
  | nil => cases hm
  | cons ht _ ih =>
    obtain ⟨⟨hmem, hk⟩, hrest⟩ := List.forall_mem_cons.mp hsub
    rcases List.mem_cons.mp hm with rfl | hm
    · exact ⟨_, hmem, hk, ht⟩
    · exact ih hm hrest

end Mentioned

/-- A token that has to carry its name gives it in either place. -/
theorem Names.mentioned {t : Token} {name : String} (h : Names t name) {place : NamePlace}
    {ts : List Token} {ms : List Mention} (hts : Mentioned ts ms) :
    Mentioned (t :: ts) ((place, name) :: ms) :=
  .name h.1 (.inl h.2) hts

/-- An operand gives its name if it is one, and a literal gives none. -/
theorem Spells.mentioned {t : Token} {x : Operand} (h : Spells t x) {ts : List Token}
    {ms : List Mention} (hts : Mentioned ts ms) :
    Mentioned (t :: ts) (inside x.names ++ ms) := by
  obtain ⟨hk, hv⟩ := h
  cases x with
  | name s => exact .name hk (.inl hv) hts
  -- a literal is spelled by a token of a kind of its own
  | literal l => exact .skip hk hts (by cases l <;> simp [Operand.kind])

/-- A list with commas gives the names of its items; the commas are skipped. -/
theorem Separated.mentioned {α : Type} {item : List Token → α → Prop} {f : α → List Mention}
    {ts : List Token} {xs : List α} (h : Separated item ts xs)
    (hitem : ∀ ts x, item ts x → Mentioned ts (f x)) : Mentioned ts (xs.flatMap f) := by
  induction h with
  | one hx => simpa using hitem _ _ hx
  | more hx hc _ ih => exact (hitem _ _ hx).append (.skip hc ih)

/-- The closing parenthesis of a list is skipped too (`Separated.mentioned`). -/
theorem Listed.mentioned {α : Type} {item : List Token → α → Prop} {f : α → List Mention}
    {ts : List Token} {xs : List α} (h : Listed item ts xs)
    (hitem : ∀ ts x, item ts x → Mentioned ts (f x)) : Mentioned ts (xs.flatMap f) := by
  cases h with
  | none hr => exact .skip hr .nil
  | @some _ r _ hs hr =>
    have hend : Mentioned [r] [] := .skip hr .nil
    simpa using (hs.mentioned hitem).append hend

/-- An argument is a single operand (`Spells.mentioned`). -/
theorem Argument.mentioned {ts : List Token} {x : Operand} (h : Argument ts x) :
    Mentioned ts (inside x.names) := by
  cases h with
  | mk ht => simpa using ht.mentioned .nil

/-- A token that stands for a type is no identifier, and so it is skipped. -/
theorem ne_identifier_of_valueType {kind : Token.Kind} {type : ValueType}
    (h : ValueType.ofKind? kind = some type) : kind ≠ .identifier := by
  rintro rfl
  cases h

theorem ne_identifier_of_returnType {kind : Token.Kind} {type : ReturnType}
    (h : ReturnType.ofKind? kind = some type) : kind ≠ .identifier := by
  rintro rfl
  cases h

theorem ne_identifier_of_operator {kind : Token.Kind} {op : BinaryOp}
    (h : BinaryOp.ofKind? kind = some op) : kind ≠ .identifier := by
  rintro rfl
  cases h

/-- A parameter gives its name; the colon and the type after it are skipped. -/
theorem Parameter.mentioned {ts : List Token} {p : Param} (h : Parameter ts p) :
    Mentioned ts (inside [p.name]) := by
  cases h with
  | mk hn hc ht =>
    exact hn.mentioned (.skip hc (.skip rfl .nil (ne_identifier_of_valueType ht)))

/-- The arguments of a call, which stand inside whatever the call stands in front of. -/
theorem arguments_mentioned {ts : List Token} {args : List Operand} (h : Listed Argument ts args) :
    Mentioned ts (inside (args.flatMap Operand.names)) := by
  rw [inside_flatMap]
  exact h.mentioned fun _ _ => Argument.mentioned

/-! ### Expressions -/

/-- The operands after the first one, each after an operator that is skipped. -/
theorem Operations.mentioned {ts : List Token} {rest : List (BinaryOp × Operand)}
    (h : Operations ts rest) :
    Mentioned ts (inside (rest.flatMap fun pair => pair.2.names)) := by
  -- one operator and operand at a time
  induction h with
  | nil => exact .nil
  | cons ho hx _ ih =>
    rw [List.flatMap_cons, inside_append]
    exact .skip rfl (hx.mentioned ih) (ne_identifier_of_operator ho)

/-- An expression gives its names in the order of writing: those of its first operand
(`Spells.mentioned`) and of the rest (`Operations.mentioned`), or those of a call. -/
theorem Expression.mentioned {ts : List Token} {e : Expr} (h : Expression ts e) :
    Mentioned ts (inside e.names) := by
  cases h with
  | call hn hl hargs => exact hn.mentioned (.skip hl (arguments_mentioned hargs))
  | plain hx hops =>
    rw [Expr.names, Operation.names, inside_append]
    exact hx.mentioned hops.mentioned
  | negated hn hx hops =>
    rw [Expr.names, Operation.names, inside_append]
    exact .skip hn (hx.mentioned hops.mentioned)

/-- The values of a print statement; a comma after the last one is skipped like the others. -/
theorem Printed.mentioned {ts : List Token} {es : List Expr} (h : Printed ts es) :
    Mentioned ts (inside (es.flatMap Expr.names)) := by
  rw [inside_flatMap]
  cases h with
  | none hr => exact .skip hr .nil
  | @some _ r _ hs hr =>
    have hend : Mentioned [r] [] := .skip hr .nil
    simpa using (hs.mentioned fun _ _ => Expression.mentioned).append hend
  -- the comma and the parenthesis behind the last expression mention nothing
  | @trailing _ c r _ hs hc hr =>
    have hend : Mentioned [c, r] [] := .skip hc (.skip hr .nil)
    simpa using (hs.mentioned fun _ _ => Expression.mentioned).append hend

/-- A statement of one line. Only its first token may lack a name (`Leads.supplies`); all that
follow stand inside. -/
theorem Simple.mentioned {ts : List Token} {s : Stmt} (h : Simple Leads ts s) :
    Mentioned ts s.mentions := by
  cases h with
  -- the four forms that begin with an identifier
  | declaration hn hc ht =>
    exact .name hn.1 hn.supplies (.skip hc (.skip rfl .nil (ne_identifier_of_valueType ht)))
  | annotated hn hc ht ha he =>
    exact .name hn.1 hn.supplies (.skip hc (.skip rfl (.skip ha he.mentioned)
      (ne_identifier_of_valueType ht)))
  | assignment hn ha he => exact .name hn.1 hn.supplies (.skip ha he.mentioned)
  | call hn hl hargs =>
    exact .name hn.1 hn.supplies (.skip hl (arguments_mentioned hargs))
  -- the three that begin with a word
  | returnNothing hr => exact .skip hr .nil
  | returnValue hr he => exact .skip hr he.mentioned
  | print hp hl hes => exact .skip hp (.skip hl hes.mentioned)

/-! ### Statements -/

/-- The names are given by the tokens up to those that are left. -/
def Spends (ts : List Token) (ms : List Mention) (rest : List Token) : Prop :=
  ∃ taken, ts = taken ++ rest ∧ Mentioned taken ms

namespace Spends

variable {t : Token} {ts es mid rest : List Token} {ms ns : List Mention}

/-- No token taken, no name given. -/
theorem refl (ts : List Token) : Spends ts [] ts := ⟨[], rfl, .nil⟩

/-- A token that is no identifier may be taken first. -/
theorem skip {kind : Token.Kind} (hk : t.kind = kind) (h : Spends ts ms rest)
    (hkind : kind ≠ .identifier := by decide) : Spends (t :: ts) ms rest := by
  obtain ⟨taken, rfl, h⟩ := h
  exact ⟨t :: taken, rfl, h.skip hk hkind⟩

/-- Tokens that give names may be taken first. -/
theorem append (he : Mentioned es ms) (h : Spends ts ns rest) :
    Spends (es ++ ts) (ms ++ ns) rest := by
  obtain ⟨taken, rfl, h⟩ := h
  exact ⟨es ++ taken, by rw [List.append_assoc], he.append h⟩

/-- What is left after one reader is taken by the next. -/
theorem trans (h : Spends ts ms mid) (h' : Spends mid ns rest) : Spends ts (ms ++ ns) rest := by
  obtain ⟨taken, rfl, h⟩ := h
  exact append h h'

end Spends

/-- The end of a statement gives no name. -/
theorem Ended.spends {ts rest : List Token} (h : Ended ts rest) : Spends ts [] rest := by
  cases h with
  | newline hk => exact .skip hk (.refl _)
  | dedent _ => exact .refl _
  | endOfTokens => exact .refl _

mutual

/-- A statement gives its names up to the tokens it leaves. The four relations of the grammar refer
to each other, so this is proved together with the same for branches, blocks and items, by recursion
on the derivation. -/
theorem Statement.spends {ts rest : List Token} {s : Stmt} :
    Statement Leads ts s rest → Spends ts s.mentions rest
  | .simple hs he => by simpa using Spends.append hs.mentioned he.spends
  | .loop hw he hc hb => .skip hw (.append he.mentioned (.skip hc hb.spends))
  | .choose hi hbs .none => .skip hi hbs.spends
  | .choose hi hbs (.some hw hc hb) => .skip hi (hbs.spends.trans (.skip hw (.skip hc hb.spends)))

theorem Branches.spends {span : Span} {ts rest : List Token} {bs : List Branch} :
    Branches Leads span ts bs rest → Spends ts (Stmt.mentionsOfBranches bs) rest
  | .one he hc hb => by
    rw [Stmt.mentionsOfBranches, Stmt.mentionsOfBranches, List.append_nil]
    exact .append he.mentioned (.skip hc hb.spends)
  | .more he hc hb hi hm => by
    rw [Stmt.mentionsOfBranches, List.append_assoc]
    exact .append he.mentioned (.skip hc (hb.spends.trans (.skip hi hm.spends)))

theorem Block.spends {ts rest : List Token} {body : List Stmt} :
    Block Leads ts body rest → Spends ts (Stmt.mentionsOfBlock body) rest
  | .mk hi h => .skip hi h.spends

theorem Items.spends {ts rest : List Token} {ss : List Stmt} :
    Items Leads ts ss rest → Spends ts (Stmt.mentionsOfBlock ss) rest
  | .endOfTokens => .refl _
  | .dedent hd => .skip hd (.refl _)
  | .newline hn h => .skip hn h.spends
  | .statement hs h => hs.spends.trans h.spends

end

/-! ### Modules -/

/-- A function gives its own name, those of its parameters (`Parameter.mentioned`) and those of its
body (`Block.spends`). -/
theorem FunctionDef.spends {ts rest : List Token} {f : Function}
    (h : FunctionDef Leads ts f rest) : Spends ts (Item.mentions (.function f)) rest := by
  cases h with
  | mk hd hn hl hps ha hr hc hb =>
    have hparams := hps.mentioned fun _ _ => Parameter.mentioned
    have hbody := Spends.skip rfl (.skip hc hb.spends) (ne_identifier_of_returnType hr)
    rw [← inside_map] at hparams
    -- the word, the name, the parenthesis, the parameters, and the rest
    exact .skip hd (Spends.append (hn.mentioned .nil)
      (.skip hl (.append hparams (.skip ha hbody))))

/-- **The identifiers of a module give its names**, from `FunctionDef.spends` and `Statement.spends`
for the parts and `Mentioned.append` for putting them together. -/
theorem Module.mentioned {ts : List Token} {is : List Item} (h : Module Leads ts is) :
    Mentioned ts (is.flatMap Item.mentions) := by
  -- along the parts: each takes its tokens from the front
  induction h with
  | nil => exact .nil
  | newline hn _ ih => exact .skip hn ih
  | function hf _ ih =>
    obtain ⟨taken, rfl, htaken⟩ := hf.spends
    exact htaken.append ih
  | statement hs _ ih =>
    obtain ⟨taken, rfl, htaken⟩ := hs.spends
    exact htaken.append ih

/-- The scopes of a table have the names of functions, but for that of the module, and the variables
in them are named in front of statements. The symbols come from the annotations of the parts
(`SymbolTable.mem_symbols_ofLog`), these are mentions (`Item.mention_of_annotation`), and for every
mention there is a token (`Mentioned.exists_supplies`). -/
theorem Module.supplies_symbols {ts : List Token} {is : List Item} (h : Module Leads ts is)
    {scope : Scope} (hscope : scope ∈ (SymbolTable.ofLog (is.flatMap Item.annotations)).scopes) :
    (scope.name = SymbolTable.moduleName ∨ ∃ t ∈ ts, Names t scope.name) ∧
      ∀ s ∈ scope.symbols, ∃ t ∈ ts, t.kind = .identifier ∧ Supplies t (.front, s.name) := by
  obtain ⟨hne, hsymbols⟩ := (SymbolTable.tidy_ofLog _).mem_scopes_iff.mp hscope
  have hlog : ∀ s ∈ scope.symbols, ∃ i ∈ is, (scope.name, s) ∈ i.annotations := by
    intro s hs
    rw [hsymbols, SymbolTable.mem_symbols_ofLog] at hs
    exact List.mem_flatMap.mp hs
  constructor
  · -- a scope that is kept has a symbol, which tells the part the scope comes from
    obtain ⟨s, hs⟩ := List.exists_mem_of_ne_nil _ hne
    obtain ⟨i, hi, ha⟩ := hlog s hs
    refine (Item.mention_of_annotation ha).2.imp_right fun hm => ?_
    obtain ⟨t, ht, hk, hsupplies⟩ := h.mentioned.exists_supplies (List.mem_flatMap.mpr ⟨i, hi, hm⟩)
    exact ⟨t, ht, hk, hsupplies.resolve_right nofun⟩
  · intro s hs
    obtain ⟨i, hi, ha⟩ := hlog s hs
    exact h.mentioned.exists_supplies
      (List.mem_flatMap.mpr ⟨i, hi, (Item.mention_of_annotation ha).1⟩)

end Grammar

namespace Expectation

/-! ### Identifiers without a name -/

/-- A goal does the same with two tokens: it takes both, lets both pass or expects neither. -/
inductive Alike (t r : Token) : Reaction → Reaction → Prop
  | shift {table table' : SymbolTable} {goals goals' : List Goal} :
    Alike t r (.shift table goals) (.shift table' goals')
  | pass : Alike t r .pass .pass
  | unexpected : Alike t r (unexpected t) (unexpected r)

/-- A token that is no operand is not taken as one. -/
theorem onOperand_of_not_spells {t : Token} (h : ∀ x, ¬ Grammar.Spells t x) (table : SymbolTable)
    (goals : List Goal) : onOperand table goals t = unexpected t := by
  unfold onOperand
  cases hx : Parser.operandOf t with
  | error e => rfl
  | ok x => exact absurd (Parser.operandOf_eq_ok.mp hx) (h x)

section Nameless

variable {t r : Token} (ht : t.kind = .identifier) (hname : t.name? = none)
  (hr : r.kind = .returnWord)

include ht hname

/-- An identifier without a name spells no operand. -/
theorem not_spells_of_nameless (x : Operand) : ¬ Grammar.Spells t x := by
  rintro ⟨hk, hv⟩
  rw [ht] at hk
  cases x with
  | name s =>
    rw [Parser.name?_eq_some.mpr hv] at hname
    cases hname
  | literal l => cases l <;> cases hk

include hr

/-- **An identifier without a name is treated like the word `return`**, which begins a statement and
can stand nowhere else. -/
theorem react_alike (table : SymbolTable) (g : Goal) :
    Alike t r (react table g t) (react table g r) := by
  -- where an operand is expected, neither of them is one
  have htop := onOperand_of_not_spells (not_spells_of_nameless ht hname) table
  have hrop : ∀ goals, onOperand table goals r = unexpected r := by
    refine onOperand_of_not_spells ?_ table
    rintro x ⟨hk, -⟩
    rw [hr] at hk
    rcases x with _ | _ | _ | _ <;> cases hk
  cases g
  -- a statement can begin here
  case statement | items => simp [react, onStatement, ht, hr, Reaction.andThen, Alike.shift]
  -- what has been read so far may be all
  case operators | callOrOperators | assigned | moreBranches =>
    simp [react, onKind, onOperator, BinaryOp.ofKind?, ht, hr, Alike.pass]
  -- all else expects something that neither of them is
  case mark m => cases m <;> simp [react, onKind, Mark.kind, ht, hr, Alike.unexpected]
  case printed =>
    have hte : onExpression table t = unexpected t := by simp [onExpression, htop, ht]
    have hre : onExpression table r = unexpected r := by simp [onExpression, hrop, hr]
    rw [react, react, onKind, if_neg (by simp [ht]), onKind, if_neg (by simp [hr]), hte, hre]
    exact .unexpected
  all_goals
    simp [react, onKind, onExpression, onSeparator, onParamName, onNamedType, ValueType.ofKind?,
      ReturnType.ofKind?, htop, hrop, ht, hr, hname, Alike.unexpected]

omit hname in
/-- Between the parts of a module both begin a statement. -/
theorem onModule_alike (table : SymbolTable) : Alike t r (onModule table t) (onModule table r) := by
  simp [onModule, onStatement, ht, hr, Alike.shift]

/-- A stack takes both tokens or refuses each of them as unexpected, by `react_alike` for the goal
on top and `onModule_alike` for the empty stack. -/
theorem advance_alike (table : SymbolTable) (gs : List Goal) :
    ((∃ s, advance table gs t = .ok s) ∧ ∃ s, advance table gs r = .ok s) ∨
      advance table gs t = .error (.unexpectedToken, some t) ∧
        advance table gs r = .error (.unexpectedToken, some r) := by
  -- a goal that lets both pass leaves them to the goals below it
  induction gs with
  | nil =>
    have halike := onModule_alike ht hr table
    rw [advance, advance]
    generalize onModule table t = x, onModule table r = y at halike
    cases halike with
    | shift => exact .inl ⟨⟨_, rfl⟩, _, rfl⟩
    | pass => exact .inl ⟨⟨_, rfl⟩, _, rfl⟩
    | unexpected => exact .inr ⟨rfl, rfl⟩
  | cons g gs ih =>
    have halike := react_alike ht hname hr table g
    rw [advance, advance]
    generalize react table g t = x, react table g r = y at halike
    cases halike with
    | shift => exact .inl ⟨⟨_, rfl⟩, _, rfl⟩
    | pass => exact ih
    | unexpected => exact .inr ⟨rfl, rfl⟩

end Nameless

end Expectation

namespace Parser

open Grammar Expectation

/-- A token that is refused after the tokens before it is what the parse fails at, whatever comes
after it: the machine of goals stops there (`run_append`), and the parser fails where the machine
does (`run_parse`). -/
theorem parse_of_refused {pre : List Token} {t : Token} (post : List Token)
    {s : SymbolTable × List Goal} {fault : GrammarFault} {token : Option Token}
    (hs : steps origin pre = .ok s) (h : advance s.1 s.2 t = .error (fault, token)) :
    ∃ e, parse (pre ++ t :: post) = .error e ∧ e.fault = fault ∧ e.token = token := by
  -- the run fails at this token, whatever comes behind it
  have hrun : run .empty [] (pre ++ t :: post) = .error (fault, token) := by
    have happend := run_append origin pre (t :: post)
    rw [hs] at happend
    refine happend.trans ?_
    change (advance s.1 s.2 t >>= _) = _
    rw [h]
    rfl
  -- and the parser fails as the run does
  rw [run_parse] at hrun
  cases he : parse (pre ++ t :: post) with
  | ok p => rw [he] at hrun; cases hrun
  | error e =>
    rw [he] at hrun
    simp only [follow_error, Except.error.injEq, Prod.mk.injEq] at hrun
    exact ⟨e, rfl, hrun⟩

/-- **An identifier without a name after some tokens**: it can stand where a statement can begin,
and anywhere else it is the first unexpected token. By `advance_alike` the goals treat it like the
word `return`, and whether they go on is what `Viable` says (`viable_of_steps`,
`not_viable_of_error`). -/
theorem nameless_cases {pre : List Token} {t : Token} (post : List Token)
    (ht : t.kind = .identifier) (hname : t.name? = none) (hpre : Viable pre) :
    (Viable (pre ++ [t]) ↔ Viable (pre ++ [.plain .returnWord t.span])) ∧
      (¬ Viable (pre ++ [t]) → ∃ e, parse (pre ++ t :: post) = .error e ∧
        e.fault = .unexpectedToken ∧ e.token = some t) := by
  cases hs : steps origin pre with
  | error r => exact absurd hpre (not_viable_of_error hs)
  | ok s =>
    have hstep : ∀ u, steps origin (pre ++ [u]) = advance s.1 s.2 u := fun u =>
      steps_append_singleton hs
    have hr : (Token.plain .returnWord t.span).kind = .returnWord := rfl
    -- the stack that the tokens before have led to takes both words or neither
    rcases advance_alike ht hname hr s.1 s.2 with ⟨⟨s₁, h₁⟩, s₂, h₂⟩ | ⟨h₁, h₂⟩
    · have hv : Viable (pre ++ [t]) := viable_of_steps ((hstep t).trans h₁)
      exact ⟨⟨fun _ => viable_of_steps ((hstep _).trans h₂), fun _ => hv⟩, fun h => absurd hv h⟩
    · have hv : ¬ Viable (pre ++ [t]) := not_viable_of_error ((hstep t).trans h₁)
      have hv' := not_viable_of_error ((hstep _).trans h₂)
      exact ⟨iff_of_false hv hv', fun _ => parse_of_refused post hs h₁⟩

/-- **Names come from identifiers.** The identifiers of an accepted sequence give the names of its
program, one after the other and no others: each gives the name it carries, and only in front of a
statement it may carry none and give the empty one. The symbol table has no other names. An
identifier without a name can stand only where a statement can begin; anywhere else, after tokens
that are not at fault themselves, it is rejected as an unexpected token. -/
theorem parse_names (ts : List Token) :
    (∀ table p, parse ts = .ok (table, p) →
      ∃ is, p = Item.program is ∧ Mentioned ts (is.flatMap Item.mentions) ∧
        ((is.flatMap Item.mentions).map Prod.snd).Perm p.names ∧
        ∀ scope ∈ table.scopes,
          (scope.name = SymbolTable.moduleName ∨ ∃ t ∈ ts, Names t scope.name) ∧
            ∀ s ∈ scope.symbols, ∃ t ∈ ts, t.kind = .identifier ∧ Supplies t (.front, s.name)) ∧
    ∀ pre t post, ts = pre ++ t :: post → t.kind = .identifier → t.name? = none → Viable pre →
      (Viable (pre ++ [t]) ↔ Viable (pre ++ [.plain .returnWord t.span])) ∧
        (¬ Viable (pre ++ [t]) →
          ∃ e, parse ts = .error e ∧ e.fault = .unexpectedToken ∧ e.token = some t) := by
  constructor
  · intro table p h
    -- an accepted sequence is derived by the grammar, whose derivations say which name is whose
    obtain ⟨is, his, rfl, -, rfl⟩ := parse_eq_ok_iff.mp h
    exact ⟨is, rfl, his.mentioned, Item.perm_names is, fun _ => his.supplies_symbols⟩
  · rintro pre t post rfl ht hname hpre
    exact nameless_cases post ht hname hpre

/-- A function whose only statement declares a variable without a name. -/
def namelessBody : List Token :=
  [.plain .defWord ⟨1, 1⟩, ⟨.identifier, some (.name "f"), ⟨1, 5⟩⟩, .plain .leftParen ⟨1, 6⟩,
    ⟨.identifier, some (.name "a"), ⟨1, 7⟩⟩, .plain .colon ⟨1, 8⟩, .plain .intWord ⟨1, 10⟩,
    .plain .rightParen ⟨1, 13⟩, .plain .arrow ⟨1, 15⟩, .plain .noneWord ⟨1, 18⟩,
    .plain .colon ⟨1, 22⟩, .plain .indent ⟨2, 3⟩, .plain .identifier ⟨2, 3⟩, .plain .colon ⟨2, 4⟩,
    .plain .intWord ⟨2, 6⟩, .plain .assign ⟨2, 10⟩, ⟨.identifier, some (.name "a"), ⟨2, 12⟩⟩,
    .plain .dedent ⟨3, 1⟩]

/-- The identifier without a name is taken in the body of the function and refused as its name. -/
theorem names_namelessBody :
    (∃ is, Item.program is = ⟨[⟨"f", [⟨"a", .int⟩], .nothing,
          [.assign "" (some .int) (.operation ⟨false, .name "a", []⟩) ⟨2, 3⟩], ⟨1, 1⟩⟩], []⟩ ∧
        Mentioned namelessBody (is.flatMap Item.mentions)) ∧
      Viable [.plain .defWord ⟨1, 1⟩] ∧
      ∃ e, parse [.plain .defWord ⟨1, 1⟩, .plain .identifier ⟨1, 5⟩] = .error e ∧
        e.fault = .unexpectedToken ∧ e.token = some (.plain .identifier ⟨1, 5⟩) := by
  have hparse : parse namelessBody = .ok (⟨[⟨"f", [⟨"", .int, ⟨2, 3⟩⟩]⟩]⟩,
      ⟨[⟨"f", [⟨"a", .int⟩], .nothing,
        [.assign "" (some .int) (.operation ⟨false, .name "a", []⟩) ⟨2, 3⟩], ⟨1, 1⟩⟩], []⟩) := rfl
  have hdef : Viable [.plain .defWord ⟨1, 1⟩] := ⟨namelessBody.tail, _, hparse⟩
  -- a function without a name is refused by the step, though a variable without one is not
  have hrefused : ¬ Viable ([.plain .defWord ⟨1, 1⟩] ++ [.plain .identifier ⟨1, 5⟩]) :=
    not_viable_of_error (rfl : steps origin _ = .error (.unexpectedToken, _))
  obtain ⟨is, hp, hmentioned, -⟩ := (parse_names _).1 _ _ hparse
  exact ⟨⟨is, hp.symm, hmentioned⟩, hdef,
    ((parse_names _).2 _ _ [] rfl rfl rfl hdef).2 hrefused⟩

/-- An assignment to an identifier without a name. -/
def namelessTokens : List Token :=
  [.plain .identifier ⟨1, 1⟩, .plain .assign ⟨1, 3⟩, ⟨.intLiteral, some (.int 1), ⟨1, 5⟩⟩]

/-- **A name that no token carries**: the target of the assignment is the empty name. -/
theorem parse_namelessTokens :
    parse namelessTokens =
        .ok (.empty, ⟨[], [.assign "" none (.operation ⟨false, .literal (.int 1), []⟩) ⟨1, 1⟩]⟩) ∧
      ∀ t ∈ namelessTokens, t.name? = none :=
  ⟨rfl, by decide⟩

end Parser

end Offside
