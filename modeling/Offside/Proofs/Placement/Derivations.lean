import Mathlib.Data.List.Forall2
import Offside.Proofs.Placement.Trees

/-!
# Derivations at other positions

The rules of the grammar look at the kinds and the values of tokens, and copy the positions of some
of them into the tree. So a token sequence that differs from another in positions only derives the
same tree, with the positions of the tree replaced as those of the tokens are
(`Grammar.Module.moved`). The positions of the tokens of the layout are copied nowhere, and it does
not matter what they are.
-/

namespace Offside

/-- The token with its position replaced. The position of a token of the layout may be any. -/
structure Token.Moved (g : Span → Span) (t t' : Token) : Prop where
  kind : t'.kind = t.kind
  value : t'.value = t.value
  span : t.kind.isLayout = false → t'.span = g t.span

/-- A token sequence with the positions replaced. -/
abbrev Moves (g : Span → Span) : List Token → List Token → Prop := List.Forall₂ (Token.Moved g)

variable {g : Span → Span}

/-- What is moved in two parts was in two parts before. -/
theorem Moves.split {ts us vs : List Token} (h : Moves g (ts ++ us) vs) :
    ∃ ts' us', vs = ts' ++ us' ∧ Moves g ts ts' ∧ Moves g us us' := by
  -- on the tokens of the first part
  induction ts generalizing vs with
  | nil => exact ⟨[], vs, rfl, .nil, h⟩
  | cons t ts ih =>
    cases h with
    | cons ht h =>
      obtain ⟨ts', us', rfl, hts, hus⟩ := ih h
      exact ⟨_ :: ts', us', rfl, .cons ht hts, hus⟩

/-- Tokens where they are. -/
theorem Moves.refl (ts : List Token) : Moves id ts ts :=
  List.forall₂_same.mpr fun _ _ => ⟨rfl, rfl, fun _ => rfl⟩

/-- The same token so many times. -/
theorem Moves.replicate {t t' : Token} (h : t.Moved g t') (n : Nat) :
    Moves g (List.replicate n t) (List.replicate n t') := by
  induction n with
  | zero => exact .nil
  | succ n ih => exact .cons h ih

namespace Token.Moved

variable {t t' : Token}

/-- The kind of a token does not move. -/
theorem kind_eq (h : t.Moved g t') {kind : Kind} (hk : t.kind = kind) : t'.kind = kind :=
  h.kind.trans hk

/-- Nor does what its kind stands for. -/
theorem ofKind {α : Type} (h : t.Moved g t') {read : Kind → Option α} {a : α}
    (ha : read t.kind = some a) : read t'.kind = some a := by rwa [h.kind]

/-- A token that is not of the layout moves to where it should. -/
theorem span_eq (h : t.Moved g t') {kind : Kind} (hk : t.kind = kind)
    (hlayout : kind.isLayout = false) : t'.span = g t.span :=
  h.span (hk ▸ hlayout)

end Token.Moved

namespace Grammar

/-! ### What stands on a line -/

section Line

variable {t t' : Token} {ts ts' : List Token}

/-- A name is where its token is. -/
theorem Names.moved {name : String} (h : Names t name) (ht : t.Moved g t') : Names t' name :=
  ⟨ht.kind_eq h.1, ht.value.trans h.2⟩

/-- So is a name in front of a statement, also one that is missing. -/
theorem Leads.moved {name : String} (h : Leads t name) (ht : t.Moved g t') : Leads t' name := by
  refine ⟨ht.kind_eq h.1, ?_⟩
  rw [← h.2, Token.name?, Token.name?, ht.value]

/-- An operand has no position. -/
theorem Spells.moved {x : Operand} (h : Spells t x) (ht : t.Moved g t') : Spells t' x :=
  ⟨ht.kind_eq h.1, ht.value.trans h.2⟩

/-- Nor have operators and operands. -/
theorem Operations.moved {ops : List (BinaryOp × Operand)} (h : Operations ts ops)
    (hts : Moves g ts ts') : Operations ts' ops := by
  induction h generalizing ts' with
  | nil =>
    cases hts
    exact .nil
  | cons ho hx _ ih =>
    obtain _ | ⟨ho', _ | ⟨hx', hts⟩⟩ := hts
    exact .cons (ho'.ofKind ho) (hx.moved hx') (ih hts)

/-- Items with commas between them, if each item is moved by itself. -/
theorem Separated.moved {α : Type} {item : List Token → α → Prop} {xs : List α}
    (h : Separated item ts xs) {f : α → α}
    (hitem : ∀ us us' x, item us x → Moves g us us' → item us' (f x)) (hts : Moves g ts ts') :
    Separated item ts' (xs.map f) := by
  induction h generalizing ts' with
  | one hx => exact .one (hitem _ _ _ hx hts)
  | more hx hc _ ih =>
    obtain ⟨us', vs', rfl, hus, _ | ⟨hc', hvs⟩⟩ := Moves.split hts
    exact .more (hitem _ _ _ hx hus) (hc'.kind_eq hc) (ih hvs)

/-- A list whose items have no positions (`Separated.moved`). -/
theorem Listed.moved {α : Type} {item : List Token → α → Prop} {xs : List α}
    (h : Listed item ts xs) (hitem : ∀ us us' x, item us x → Moves g us us' → item us' x)
    (hts : Moves g ts ts') : Listed item ts' xs := by
  cases h with
  | none hr =>
    obtain _ | ⟨hr', _ | _⟩ := hts
    exact .none (hr'.kind_eq hr)
  | some hs hr =>
    obtain ⟨us', vs', rfl, hus, _ | ⟨hr', _ | _⟩⟩ := Moves.split hts
    -- the items have no places in them, so they stay as they are
    have hs' := hs.moved (f := id) hitem hus
    rw [List.map_id] at hs'
    exact .some hs' (hr'.kind_eq hr)

/-- An argument is one operand. -/
theorem Argument.moved {x : Operand} (h : Argument ts x) (hts : Moves g ts ts') :
    Argument ts' x := by
  cases h with
  | mk ht =>
    obtain _ | ⟨ht', _ | _⟩ := hts
    exact .mk (ht.moved ht')

/-- A parameter has no position either. -/
theorem Parameter.moved {p : Param} (h : Parameter ts p) (hts : Moves g ts ts') :
    Parameter ts' p := by
  cases h with
  | mk hn hc ht =>
    obtain _ | ⟨hn', _ | ⟨hc', _ | ⟨ht', _ | _⟩⟩⟩ := hts
    exact .mk (hn.moved hn') (hc'.kind_eq hc) (ht'.ofKind ht)

/-- An expression. Only a call has a position, that of its name. -/
theorem Expression.moved {e : Expr} (h : Expression ts e) (hts : Moves g ts ts') :
    Expression ts' (e.moved g) := by
  cases h with
  | call hn hl hargs =>
    obtain _ | ⟨hn', _ | ⟨hl', hts⟩⟩ := hts
    have hargs' := hargs.moved (fun _ _ _ => Argument.moved) hts
    -- a call carries the place of its name, which is moved with the token
    have hcall := Expression.call (hn.moved hn') (hl'.kind_eq hl) hargs'
    rwa [hn'.span_eq hn.1 rfl] at hcall
  | plain hx hops =>
    obtain _ | ⟨hx', hts⟩ := hts
    exact .plain (hx.moved hx') (hops.moved hts)
  | negated hn hx hops =>
    obtain _ | ⟨hn', _ | ⟨hx', hts⟩⟩ := hts
    exact .negated (hn'.kind_eq hn) (hx.moved hx') (hops.moved hts)

/-- The values of a print statement, each at its own position. -/
theorem Printed.moved {es : List Expr} (h : Printed ts es) (hts : Moves g ts ts') :
    Printed ts' (es.map (Expr.moved g)) := by
  cases h with
  | none hr =>
    obtain _ | ⟨hr', _ | _⟩ := hts
    exact .none (hr'.kind_eq hr)
  | some hs hr =>
    obtain ⟨us', vs', rfl, hus, _ | ⟨hr', _ | _⟩⟩ := Moves.split hts
    exact .some (hs.moved (fun _ _ _ => Expression.moved) hus) (hr'.kind_eq hr)
  | trailing hs hc hr =>
    obtain ⟨us', vs', rfl, hus, _ | ⟨hc', _ | ⟨hr', _ | _⟩⟩⟩ := Moves.split hts
    exact .trailing (hs.moved (fun _ _ _ => Expression.moved) hus) (hc'.kind_eq hc) (hr'.kind_eq hr)

/-- A statement of one line, at the position of its first token. -/
theorem Simple.moved {s : Stmt} (h : Simple Leads ts s) (hts : Moves g ts ts') :
    Simple Leads ts' (s.moved g) := by
  -- in each case the tokens of the rule are taken one by one off the moved tokens
  cases h with
  | declaration hn hc ht =>
    obtain _ | ⟨hn', _ | ⟨hc', _ | ⟨ht', _ | _⟩⟩⟩ := hts
    rw [Stmt.moved, ← hn'.span_eq hn.1 rfl]
    exact .declaration (hn.moved hn') (hc'.kind_eq hc) (ht'.ofKind ht)
  | annotated hn hc ht ha he =>
    obtain _ | ⟨hn', _ | ⟨hc', _ | ⟨ht', _ | ⟨ha', hts⟩⟩⟩⟩ := hts
    rw [Stmt.moved, ← hn'.span_eq hn.1 rfl]
    exact .annotated (hn.moved hn') (hc'.kind_eq hc) (ht'.ofKind ht) (ha'.kind_eq ha)
      (he.moved hts)
  | assignment hn ha he =>
    obtain _ | ⟨hn', _ | ⟨ha', hts⟩⟩ := hts
    rw [Stmt.moved, ← hn'.span_eq hn.1 rfl]
    exact .assignment (hn.moved hn') (ha'.kind_eq ha) (he.moved hts)
  | call hn hl hargs =>
    obtain _ | ⟨hn', _ | ⟨hl', hts⟩⟩ := hts
    rw [Stmt.moved, Call.moved, ← hn'.span_eq hn.1 rfl]
    exact .call (hn.moved hn') (hl'.kind_eq hl) (hargs.moved (fun _ _ _ => Argument.moved) hts)
  | returnNothing hr =>
    obtain _ | ⟨hr', _ | _⟩ := hts
    rw [Stmt.moved, ← hr'.span_eq hr rfl]
    exact .returnNothing (hr'.kind_eq hr)
  | returnValue hr he =>
    obtain _ | ⟨hr', hts⟩ := hts
    rw [Stmt.moved, ← hr'.span_eq hr rfl]
    exact .returnValue (hr'.kind_eq hr) (he.moved hts)
  | print hp hl he =>
    obtain _ | ⟨hp', _ | ⟨hl', hts⟩⟩ := hts
    rw [Stmt.moved, ← hp'.span_eq hp rfl]
    exact .print (hp'.kind_eq hp) (hl'.kind_eq hl) (he.moved hts)

/-- What ends a statement is of the layout, and what is left is moved along. -/
theorem Ended.moved {rest : List Token} (h : Ended ts rest) (hts : Moves g ts ts') :
    ∃ rest', Ended ts' rest' ∧ Moves g rest rest' := by
  cases h with
  | newline hn =>
    obtain _ | ⟨hn', hts⟩ := hts
    exact ⟨_, .newline (hn'.kind_eq hn), hts⟩
  | dedent hd =>
    obtain _ | ⟨hd', hts⟩ := hts
    -- the dedent is not taken, so it is moved among the rest
    exact ⟨_, .dedent (hd'.kind_eq hd), .cons hd' hts⟩
  | endOfTokens =>
    cases hts
    exact ⟨[], .endOfTokens, .nil⟩

end Line

/-! ### Statements and blocks -/

mutual

/-- A statement at other positions. What is left of the tokens is moved along, so that the next rule
can go on with it. -/
theorem Statement.moved {ts ts' rest : List Token} {s : Stmt} (hts : Moves g ts ts') :
    Statement Leads ts s rest → ∃ rest', Statement Leads ts' (s.moved g) rest' ∧ Moves g rest rest'
  | .simple hs he => by
    obtain ⟨us', vs', rfl, hus, hvs⟩ := Moves.split hts
    obtain ⟨rest', he', hrest⟩ := he.moved hvs
    exact ⟨rest', .simple (hs.moved hus) he', hrest⟩
  | .loop hw he hc hb => by
    obtain _ | ⟨hw', hts⟩ := hts
    obtain ⟨us', vs', rfl, hus, _ | ⟨hc', hvs⟩⟩ := Moves.split hts
    obtain ⟨rest', hb', hrest⟩ := hb.moved hvs
    rw [Stmt.moved, ← hw'.span_eq hw rfl]
    exact ⟨rest', .loop (hw'.kind_eq hw) (he.moved hus) (hc'.kind_eq hc) hb', hrest⟩
  | .choose hi hb ho => by
    obtain _ | ⟨hi', hts⟩ := hts
    obtain ⟨mid', hb', hmid⟩ := hb.moved hts
    obtain ⟨rest', ho', hrest⟩ := ho.moved hmid
    -- the first branch stands where the statement does
    rw [← hi'.span_eq hi rfl] at hb'
    rw [Stmt.moved_choose, ← hi'.span_eq hi rfl]
    exact ⟨rest', .choose (hi'.kind_eq hi) hb' ho', hrest⟩

theorem Branches.moved {span : Span} {ts ts' rest : List Token} {bs : List Branch}
    (hts : Moves g ts ts') : Branches Leads span ts bs rest →
      ∃ rest', Branches Leads (g span) ts' (Stmt.movedBranches g bs) rest' ∧ Moves g rest rest'
  | .one he hc hb => by
    obtain ⟨us', vs', rfl, hus, _ | ⟨hc', hvs⟩⟩ := Moves.split hts
    obtain ⟨rest', hb', hrest⟩ := hb.moved hvs
    rw [Stmt.movedBranches, Stmt.movedBranches]
    exact ⟨rest', .one (he.moved hus) (hc'.kind_eq hc) hb', hrest⟩
  | .more he hc hb hi hm => by
    obtain ⟨us', vs', rfl, hus, _ | ⟨hc', hvs⟩⟩ := Moves.split hts
    obtain ⟨_, hb', _ | ⟨hi', hmid⟩⟩ := hb.moved hvs
    obtain ⟨rest', hm', hrest⟩ := hm.moved hmid
    -- and the next one where its own word does
    rw [← hi'.span_eq hi rfl] at hm'
    rw [Stmt.movedBranches]
    exact ⟨rest', .more (he.moved hus) (hc'.kind_eq hc) hb' (hi'.kind_eq hi) hm', hrest⟩

theorem Otherwise.moved {ts ts' rest : List Token} {last : Option (List Stmt)}
    (hts : Moves g ts ts') : Otherwise Leads ts last rest →
      ∃ rest', Otherwise Leads ts' (last.map (Stmt.movedBlock g)) rest' ∧ Moves g rest rest'
  | .none => ⟨ts', .none, hts⟩
  | .some hw hc hb => by
    obtain _ | ⟨hw', _ | ⟨hc', hts⟩⟩ := hts
    obtain ⟨rest', hb', hrest⟩ := hb.moved hts
    exact ⟨rest', .some (hw'.kind_eq hw) (hc'.kind_eq hc) hb', hrest⟩

theorem Block.moved {ts ts' rest : List Token} {body : List Stmt} (hts : Moves g ts ts') :
    Block Leads ts body rest →
      ∃ rest', Block Leads ts' (Stmt.movedBlock g body) rest' ∧ Moves g rest rest'
  | .mk hi h => by
    obtain _ | ⟨hi', hts⟩ := hts
    obtain ⟨rest', h', hrest⟩ := h.moved hts
    exact ⟨rest', .mk (hi'.kind_eq hi) h', hrest⟩

theorem Items.moved {ts ts' rest : List Token} {ss : List Stmt} (hts : Moves g ts ts') :
    Items Leads ts ss rest →
      ∃ rest', Items Leads ts' (Stmt.movedBlock g ss) rest' ∧ Moves g rest rest'
  | .endOfTokens => by
    cases hts
    exact ⟨[], .endOfTokens, .nil⟩
  | .dedent hd => by
    obtain _ | ⟨hd', hts⟩ := hts
    exact ⟨_, .dedent (hd'.kind_eq hd), hts⟩
  | .newline hn h => by
    obtain _ | ⟨hn', hts⟩ := hts
    obtain ⟨rest', h', hrest⟩ := h.moved hts
    exact ⟨rest', .newline (hn'.kind_eq hn) h', hrest⟩
  -- the tokens behind the statement are moved by the same map
  | .statement hs h => by
    obtain ⟨mid', hs', hmid⟩ := hs.moved hts
    obtain ⟨rest', h', hrest⟩ := h.moved hmid
    rw [Stmt.movedBlock]
    exact ⟨rest', .statement hs' h', hrest⟩

end

/-! ### Modules -/

/-- A function, at the position of its first word. -/
theorem FunctionDef.moved {ts ts' rest : List Token} {f : Function}
    (h : FunctionDef Leads ts f rest) (hts : Moves g ts ts') :
    ∃ rest', FunctionDef Leads ts' (f.moved g) rest' ∧ Moves g rest rest' := by
  cases h with
  | mk hd hn hl hps ha hr hc hb =>
    obtain _ | ⟨hd', _ | ⟨hn', _ | ⟨hl', hts⟩⟩⟩ := hts
    obtain ⟨us', vs', rfl, hus, _ | ⟨ha', _ | ⟨hr', _ | ⟨hc', hvs⟩⟩⟩⟩ := Moves.split hts
    obtain ⟨rest', hb', hrest⟩ := hb.moved hvs
    -- the place of a function is that of its first word
    rw [Function.moved, ← hd'.span_eq hd rfl, ← Stmt.movedBlock_eq]
    have hps' := hps.moved (fun _ _ _ => Parameter.moved) hus
    exact ⟨rest', .mk (hd'.kind_eq hd) (hn.moved hn') (hl'.kind_eq hl) hps' (ha'.kind_eq ha)
      (hr'.ofKind hr) (hc'.kind_eq hc) hb', hrest⟩

/-- **Tokens at other positions derive the same parts**, at the other positions
(`FunctionDef.moved`, `Statement.moved`). -/
theorem Module.moved {ts ts' : List Token} {is : List Item} (h : Module Leads ts is)
    (hts : Moves g ts ts') : Module Leads ts' (is.map (Item.moved g)) := by
  induction h generalizing ts' with
  | nil =>
    cases hts
    exact .nil
  | newline hn _ ih =>
    obtain _ | ⟨hn', hts⟩ := hts
    exact .newline (hn'.kind_eq hn) (ih hts)
  | function hf _ ih =>
    -- the function takes as many tokens as before, and the rest is moved too
    obtain ⟨mid', hf', hmid⟩ := hf.moved hts
    exact .function hf' (ih hmid)
  | statement hs _ ih =>
    obtain ⟨mid', hs', hmid⟩ := hs.moved hts
    exact .statement hs' (ih hmid)

/-- Where the tokens of the layout stand does not matter. -/
theorem Module.of_layout {ts ts' : List Token} {is : List Item} (h : Module Leads ts is)
    (hts : Moves id ts ts') : Module Leads ts' is := by
  have hmoved := h.moved hts
  rwa [List.map_congr_left fun i _ => i.moved_id, List.map_id'] at hmoved

end Grammar

end Offside
