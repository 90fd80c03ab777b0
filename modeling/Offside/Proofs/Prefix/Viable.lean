import Offside.Proofs.Declarations
import Offside.Proofs.Prefix.Simulation

/-!
# Errors at the earliest token

A token sequence is **viable** if it can be continued to one that is accepted. A run of the stack
of goals settles the question for every sequence at once:

* a stack that has been reached can always be emptied, by tokens that close its goals one after
  another (`exists_closing`), so a sequence that runs through is viable;
* a token that is refused stays refused whatever follows, so nothing that contains it is viable.

Hence the parser reports an unexpected token at the very token that ended viability, it reports the
end of the tokens exactly where more could have followed, and it reports a conflict of types at the
name two tokens before the type that ended viability.
-/

namespace Offside

/-- The token sequence has a tree. -/
def Parser.Accepted (ts : List Token) : Prop := ∃ r, Parser.parse ts = .ok r

/-- The token sequence can be continued to one that has a tree. -/
def Parser.Viable (ts : List Token) : Prop := ∃ more, Parser.Accepted (ts ++ more)

/-- The table holds declarations that agree with each other. -/
def SymbolTable.Recorded (table : SymbolTable) : Prop :=
  ∃ log, Consistent log ∧ table = .ofLog log

namespace SymbolTable

theorem recorded_empty : Recorded .empty := ⟨[], fun _ h => absurd h (by simp), rfl⟩

/-- A declaration that succeeds leaves the table in order, since recording it is recording a log of
one more entry (`record_ofLog`). -/
theorem Recorded.declare {t u : SymbolTable} {scope : String} {symbol : Symbol} (h : t.Recorded)
    (hd : t.declare scope symbol = .ok u) : u.Recorded := by
  obtain ⟨log, hlog, rfl⟩ := h
  have hrec : (ofLog log).record [(scope, symbol)] = .ok u := by
    rw [record_cons, hd]
    rfl
  exact ⟨_, (record_ofLog hlog _ u).mp hrec⟩

/-- There is always a type with which a name can be declared: the one it has, or any. -/
theorem Recorded.exists_type {t : SymbolTable} (h : t.Recorded) (scope name : String)
    (span : Span) : ∃ type u, t.declare scope ⟨name, type, span⟩ = .ok u := by
  obtain ⟨log, hlog, rfl⟩ := h
  by_cases hs : ∃ s ∈ (ofLog log).symbols scope, s.name = name
  · -- declared before: the type it has then agrees with every other declaration of it
    obtain ⟨s, hs, rfl⟩ := hs
    refine ⟨s.type, _, declare_eq_ok_iff.mpr ⟨fun s' hs' hn => ?_, rfl⟩⟩
    exact hlog (scope, s') (mem_symbols_ofLog.mp hs') (scope, s) (mem_symbols_ofLog.mp hs) rfl hn
  · exact ⟨.int, _, declare_eq_ok_iff.mpr ⟨fun s' hs' hn => absurd ⟨s', hs', hn⟩ hs, rfl⟩⟩

end SymbolTable

namespace Expectation

open Offside.Parser Offside.Grammar

/-! ### Emptying a stack

Each goal can be met by a few tokens. Operators are the one goal that is met by none, and it is left
alone by any token but an operator; so no closing sequence begins with one. -/

/-- A token of a kind, of no particular place. -/
def closer (kind : Token.Kind) : Token := .plain kind Span.start

/-- A name, of no particular place. -/
def anyName : Token := ⟨.identifier, some (.name "f"), Span.start⟩

/-- The call of a function without arguments. -/
def anyCall : List Token := [anyName, closer .leftParen, closer .rightParen]

/-- A colon and a block without statements. -/
def anyBlock : List Token := [closer .colon, closer .indent, closer .dedent]

/-- The word for a type. -/
def typeWord : ValueType → Token
  | .int => closer .intWord
  | .float => closer .floatWord
  | .bool => closer .boolWord

@[simp] theorem ofKind?_typeWord (type : ValueType) :
    ValueType.ofKind? (typeWord type).kind = some type := by
  cases type <;> rfl

/-- The tokens meet the goal, whatever comes after them. -/
def Meets (es : List Token) (table : SymbolTable) (g : Goal) (table' : SymbolTable) : Prop :=
  ∀ gs ts, Unjoined ts →
    Unjoined (es ++ ts) ∧ run table (g :: gs) (es ++ ts) = run table' gs ts

/-- No token is needed where operators may follow, if what follows is none. -/
theorem meets_operators (table : SymbolTable) : Meets [] table .operators table := by
  intro gs ts h
  refine ⟨h, ?_⟩
  cases ts with
  | nil => rw [List.append_nil, run_cons_nil]; rfl
  | cons t ts =>
    have ht : BinaryOp.ofKind? t.kind = none := h t rfl
    rw [List.nil_append, run_cons_cons, react, onOperator, ht]

/-- The type of a name is met by the word for a type that can be declared (`Recorded.exists_type`).
This is the one goal whose tokens depend on the table. -/
theorem meets_namedType {table : SymbolTable} (h : table.Recorded) (scope : String)
    (name : Token) :
    ∃ es table', table'.Recorded ∧ Meets es table (.namedType scope name) table' := by
  -- some type can always be declared: the one that the name has already, or any
  obtain ⟨type, table', hd⟩ := h.exists_type scope (name.name?.getD "") name.span
  refine ⟨[typeWord type], table', h.declare hd, fun gs ts _ => ⟨?_, ?_⟩⟩
  · intro t ht
    obtain rfl : typeWord type = t := by simpa using ht
    cases type <;> rfl
  · rw [List.singleton_append, run_cons_cons, react, onNamedType, ofKind?_typeWord]
    simp [hd]

/-- The tokens that meet a goal, other than the type of a name, which depends on the table. -/
def closing : Goal → List Token
  | .mark m => [closer m.kind]
  | .operand | .paramName => [anyName]
  | .operators | .namedType _ _ => []
  | .callOrOperators | .afterName _ _ => [closer .leftParen, closer .rightParen]
  | .arguments | .moreArguments | .params | .moreParams | .printed | .morePrinted =>
    [closer .rightParen]
  | .expression | .returned => anyCall
  | .assigned => closer .assign :: anyCall
  | .lineEnd => [closer .newline]
  | .statement _ => anyCall ++ [closer .newline]
  | .items _ => [closer .dedent]
  | .moreBranches _ => closer .elseWord :: anyBlock
  | .paramType => [closer .intWord]
  | .returnType => [closer .noneWord]
  | .function =>
    anyCall ++ [closer .arrow, closer .noneWord] ++ anyBlock

/-- All other goals are met by their tokens, whatever the table. -/
theorem meets_closing (table : SymbolTable) {g : Goal} (hop : g ≠ .operators)
    (htype : ∀ scope name, g ≠ .namedType scope name) : Meets (closing g) table g table := by
  intro gs ts _
  -- with the tokens given, the run computes to the rest of the stack
  cases g with
  | operators => contradiction
  | namedType scope name => exact absurd rfl (htype scope name)
  | mark m => cases m <;> exact ⟨fun t ht => by cases ht; rfl, rfl⟩
  | _ => exact ⟨fun t ht => by cases ht; rfl, rfl⟩

/-- **Every goal can be met**, from the three cases above. -/
theorem exists_meets {table : SymbolTable} (h : table.Recorded) (g : Goal) :
    ∃ es table', table'.Recorded ∧ Meets es table g table' := by
  by_cases hop : g = .operators
  · exact ⟨[], table, h, hop ▸ meets_operators table⟩
  · by_cases htype : ∃ scope name, g = .namedType scope name
    · obtain ⟨scope, name, rfl⟩ := htype
      exact meets_namedType h scope name
    · refine ⟨closing g, table, h, meets_closing table hop fun scope name hg => ?_⟩
      exact htype ⟨scope, name, hg⟩

/-- **Every stack can be emptied.** -/
theorem exists_closing {table : SymbolTable} (h : table.Recorded) (gs : List Goal) :
    ∃ es table', Unjoined es ∧ run table gs es = .ok table' := by
  -- the goals from the top of the stack on, each with the table that the ones above have left
  induction gs generalizing table with
  | nil => exact ⟨[], table, fun t ht => absurd ht (by simp), rfl⟩
  | cons g gs ih =>
    obtain ⟨es, table₁, h₁, hmeets⟩ := exists_meets h g
    obtain ⟨us, table₂, hus, hrun⟩ := ih h₁
    -- what closes the goals below begins with no operator, so it closes this one's operators too
    obtain ⟨hjoin, heq⟩ := hmeets gs us hus
    exact ⟨es ++ us, table₂, hjoin, heq.trans hrun⟩

/-! ### What a reached stack remembers

The goals that hold a token are the two about a name at the front of a statement. They are only ever
on top of the stack, directly after that name and directly after the colon behind it, so the place
of the name is known when its type is refused. -/

/-- The goal holds no token. -/
def Goal.Nameless : Goal → Prop
  | .afterName _ _ | .namedType _ _ => False
  | _ => True

/-- The token that a goal holds is the last one seen, or the last but one. -/
def Goal.Placed (seen : List Token) : Goal → Prop
  | .afterName _ name => name.kind = .identifier ∧ ∃ us, seen = us ++ [name]
  | .namedType _ name => name.kind = .identifier ∧ ∃ us c, seen = us ++ [name, c]
  | _ => True

/-- A goal that holds no token has nothing to remember. -/
theorem Goal.Nameless.placed {g : Goal} (h : g.Nameless) (seen : List Token) : g.Placed seen := by
  cases g <;> first | exact trivial | exact absurd h id

/-- Only the goal on top may hold a token, and it knows the token's place. -/
def Placed (seen : List Token) : List Goal → Prop
  | [] => True
  | g :: gs => g.Placed seen ∧ ∀ g ∈ gs, g.Nameless

/-- Nor has a stack of such goals, whatever has been seen. -/
theorem placed_of_nameless {gs : List Goal} (h : ∀ g ∈ gs, g.Nameless) (seen : List Token) :
    Placed seen gs := by
  cases gs with
  | nil => trivial
  | cons g gs => exact ⟨(h g (by simp)).placed seen, fun g hg => h g (by simp [hg])⟩

/-- Goals that are put on top of goals without a token. -/
theorem Placed.append {seen : List Token} {goals gs : List Goal} (h : Placed seen goals)
    (hgs : ∀ g ∈ gs, g.Nameless) : Placed seen (goals ++ gs) := by
  cases goals with
  | nil => exact placed_of_nameless hgs seen
  | cons g goals =>
    refine ⟨h.1, fun g' hg' => ?_⟩
    rcases List.mem_append.mp hg' with hg' | hg'
    · exact h.2 g' hg'
    · exact hgs g' hg'

/-- What a reaction to a token can be: goals that know their token's place and a table that is still
in order, or a refusal of the token itself. -/
def Reaction.Fits (table : SymbolTable) (seen : List Token) (t : Token) : Reaction → Prop
  | .shift table' goals =>
    Placed (seen ++ [t]) goals ∧ (table.Recorded → table'.Recorded)
  | .pass => True
  | .refuse fault token => (fault = .unexpectedToken ∨ fault = .nestedFunction) ∧ token = t

section Fits

variable (table : SymbolTable) (seen : List Token) (t : Token)

/-- Taking a token and putting goals without a token in its place. -/
theorem fits_shift {goals : List Goal} (h : ∀ g ∈ goals, g.Nameless) :
    (Reaction.shift table goals).Fits table seen t :=
  ⟨placed_of_nameless h _, id⟩

/-- Refusing a token as unexpected. -/
theorem fits_unexpected : (unexpected t).Fits table seen t := ⟨.inl rfl, rfl⟩

/-- More goals without a token may be put below those of a reaction. -/
theorem fits_andThen {r : Reaction} {more : List Goal} (h : r.Fits table seen t)
    (hmore : ∀ g ∈ more, g.Nameless) : (r.andThen more).Fits table seen t := by
  cases r with
  | shift table' goals => exact ⟨h.1.append hmore, h.2⟩
  | pass => trivial
  | refuse fault token => exact h

/-- A token of a given kind, or else another reaction. -/
theorem fits_onKind {kind : Token.Kind} {goals : List Goal} {otherwise : Reaction}
    (hgoals : ∀ g ∈ goals, g.Nameless) (h : otherwise.Fits table seen t) :
    (onKind table kind goals otherwise t).Fits table seen t := by
  unfold onKind
  split
  · exact fits_shift table seen t hgoals
  · exact h

/-- An operand, or a token that is none. -/
theorem fits_onOperand {goals : List Goal} (h : ∀ g ∈ goals, g.Nameless) :
    (onOperand table goals t).Fits table seen t := by
  unfold onOperand
  split
  · exact fits_shift table seen t h
  · exact fits_unexpected table seen t

/-- The beginning of an expression. -/
theorem fits_onExpression : (onExpression table t).Fits table seen t := by
  unfold onExpression
  split_ifs
  · exact fits_shift table seen t (by simp [Goal.Nameless])
  · exact fits_onOperand table seen t (by simp [Goal.Nameless])
  · exact fits_onOperand table seen t (by simp [Goal.Nameless])

/-- An operator, or a token that is left to the goals below. -/
theorem fits_onOperator : (onOperator table t).Fits table seen t := by
  unfold onOperator
  split
  · exact fits_shift table seen t (by simp [Goal.Nameless])
  · trivial

/-- What follows an item of a list. -/
theorem fits_onSeparator {item : List Goal} (h : ∀ g ∈ item, g.Nameless) :
    (onSeparator table item t).Fits table seen t := by
  unfold onSeparator
  split
  · exact fits_shift table seen t h
  · exact fits_shift table seen t (by simp)
  · exact fits_unexpected table seen t

/-- The name of a parameter. -/
theorem fits_onParamName {goals : List Goal} (h : ∀ g ∈ goals, g.Nameless) :
    (onParamName table goals t).Fits table seen t := by
  unfold onParamName
  split
  · exact fits_shift table seen t h
  · exact fits_unexpected table seen t

/-- The beginning of a statement. An identifier is the one token that is remembered, and it is the
last one seen. -/
theorem fits_onStatement (scope : String) : (onStatement table scope t).Fits table seen t := by
  unfold onStatement
  split
  case h_1 hk => exact ⟨⟨⟨hk, seen, rfl⟩, by simp [Goal.Nameless]⟩, id⟩
  -- a function in a block is refused with a fault of its own
  case h_6 => exact ⟨.inr rfl, rfl⟩
  case h_7 => exact fits_unexpected table seen t
  all_goals exact fits_shift table seen t (by simp [guarded, Goal.Nameless])

/-- **What a goal does with a token**, other than the one that waits for the type of a name. -/
theorem fits_react {g : Goal} (hg : g.Placed seen)
    (htype : ∀ scope name, g ≠ .namedType scope name) : (react table g t).Fits table seen t := by
  -- only the goal after a name makes a goal that holds a token
  cases g with
  | namedType scope name => exact absurd rfl (htype scope name)
  | afterName scope name =>
    obtain ⟨hk, us, rfl⟩ := hg
    rw [react]
    split
    · -- a colon: the name is the last token but one now
      exact ⟨⟨⟨hk, us, t, by simp⟩, by simp [Goal.Nameless]⟩, id⟩
    · exact fits_shift table _ t (by simp [Goal.Nameless])
    · exact fits_shift table _ t (by simp [Goal.Nameless])
    · exact fits_unexpected table _ t
  | mark m => exact fits_onKind table seen t (by simp) (fits_unexpected table seen t)
  | operand => exact fits_onOperand table seen t (by simp)
  | operators => exact fits_onOperator table seen t
  | callOrOperators =>
    exact fits_onKind table seen t (by simp [Goal.Nameless]) (fits_onOperator table seen t)
  | arguments =>
    exact fits_onKind table seen t (by simp)
      (fits_onOperand table seen t (by simp [Goal.Nameless]))
  | moreArguments => exact fits_onSeparator table seen t (by simp [Goal.Nameless])
  | expression => exact fits_onExpression table seen t
  | printed =>
    exact fits_onKind table seen t (by simp)
      (fits_andThen table seen t (fits_onExpression table seen t) (by simp [Goal.Nameless]))
  | morePrinted => exact fits_onSeparator table seen t (by simp [Goal.Nameless])
  | returned =>
    rw [react]
    split_ifs
    · trivial
    · exact fits_onExpression table seen t
  | assigned => exact fits_onKind table seen t (by simp [Goal.Nameless]) trivial
  | lineEnd =>
    refine fits_onKind table seen t (by simp) ?_
    split_ifs
    · trivial
    · exact fits_unexpected table seen t
  | statement scope => exact fits_onStatement table seen t scope
  | items scope =>
    rw [react]
    split
    · exact fits_shift table seen t (by simp)
    · exact fits_shift table seen t (by simp [Goal.Nameless])
    · exact fits_andThen table seen t (fits_onStatement table seen t scope)
        (by simp [Goal.Nameless])
  | moreBranches scope =>
    rw [react]
    split
    · exact fits_shift table seen t (by simp [guarded, Goal.Nameless])
    · exact fits_shift table seen t (by simp [Goal.Nameless])
    · trivial
  | paramName => exact fits_onParamName table seen t (by simp)
  | params =>
    exact fits_onKind table seen t (by simp)
      (fits_onParamName table seen t (by simp [Goal.Nameless]))
  | moreParams => exact fits_onSeparator table seen t (by simp [Goal.Nameless])
  | paramType | returnType =>
    rw [react]
    split_ifs
    · exact fits_shift table seen t (by simp)
    · exact fits_unexpected table seen t
  | function =>
    rw [react]
    split
    · exact fits_shift table seen t (by simp [Goal.Nameless])
    · exact fits_unexpected table seen t

/-- What begins a part of a module. -/
theorem fits_onModule : (onModule table t).Fits table seen t := by
  unfold onModule
  split
  · exact fits_shift table seen t (by simp)
  · exact fits_shift table seen t (by simp [Goal.Nameless])
  · exact fits_unexpected table seen t
  · exact fits_onStatement table seen t SymbolTable.moduleName

end Fits

/-- The goal that waits for the type of a name takes it, or refuses the token, or refuses the name
because of an earlier declaration. -/
theorem react_namedType (table : SymbolTable) (scope : String) (name t : Token) :
    (∃ table', react table (.namedType scope name) t = .shift table' [] ∧
      (table.Recorded → table'.Recorded)) ∨
    react table (.namedType scope name) t = unexpected t ∨
    ∃ previous type,
      react table (.namedType scope name) t = .refuse (.typeConflict previous type) name := by
  rw [react, onNamedType]
  cases ValueType.ofKind? t.kind with
  | none => exact .inr (.inl rfl)
  | some type =>
    -- the type is read, and the table decides
    cases hd : table.declare scope ⟨name.name?.getD "", type, name.span⟩ with
    | ok table' => exact .inl ⟨table', by simp only [hd], fun h => h.declare hd⟩
    | error previous => exact .inr (.inr ⟨previous.type, type, by simp only [hd]⟩)

/-! ### A token and a stack -/

/-- What a refusal of a token reports, after some tokens: the token itself, or the name two tokens
before it. -/
def Blames (seen : List Token) (t : Token) (r : Refusal) : Prop :=
  ((r.1 = .unexpectedToken ∨ r.1 = .nestedFunction) ∧ r.2 = some t) ∨
    ∃ previous type name us c, r.1 = .typeConflict previous type ∧ r.2 = some name ∧
      name.kind = .identifier ∧ seen = us ++ [name, c]

/-- A stack that takes a token is in order again. -/
theorem advance_ok {seen : List Token} {t : Token} {table table' : SymbolTable}
    {gs gs' : List Goal} (hp : Placed seen gs) (h : advance table gs t = .ok (table', gs')) :
    Placed (seen ++ [t]) gs' ∧ (table.Recorded → table'.Recorded) := by
  -- a token that a goal lets pass goes to the goals below it
  induction gs with
  | nil =>
    rw [advance] at h
    have hfits := fits_onModule table seen t
    cases hr : onModule table t <;> rw [hr] at h hfits <;> cases h
    · exact hfits
    · exact ⟨trivial, id⟩
  | cons g gs ih =>
    obtain ⟨hg, hgs⟩ := hp
    rw [advance] at h
    -- the type of a name is apart, as the one reaction that depends on the table
    by_cases htype : ∃ scope name, g = .namedType scope name
    · obtain ⟨scope, name, rfl⟩ := htype
      rcases react_namedType table scope name t with ⟨u, hr, hu⟩ | hr | ⟨_, _, hr⟩ <;>
        rw [hr] at h <;> cases h
      exact ⟨placed_of_nameless hgs _, hu⟩
    · have hfits := fits_react table seen t hg fun scope name hg => htype ⟨scope, name, hg⟩
      cases hr : react table g t <;> rw [hr] at h hfits
      · cases h
        exact ⟨hfits.1.append hgs, hfits.2⟩
      · -- the token goes to the goals below, none of which holds a name
        exact ih (placed_of_nameless hgs seen) h
      · cases h

/-- A stack that refuses a token blames it, or the name of which it was to be the type. -/
theorem advance_error {seen : List Token} {t : Token} {table : SymbolTable} {gs : List Goal}
    {r : Refusal} (hp : Placed seen gs) (h : advance table gs t = .error r) : Blames seen t r := by
  induction gs with
  | nil =>
    rw [advance] at h
    have hfits := fits_onModule table seen t
    cases hr : onModule table t <;> rw [hr] at h hfits <;> cases h
    exact .inl ⟨hfits.1, congrArg some hfits.2⟩
  | cons g gs ih =>
    obtain ⟨hg, hgs⟩ := hp
    rw [advance] at h
    by_cases htype : ∃ scope name, g = .namedType scope name
    · obtain ⟨scope, name, rfl⟩ := htype
      -- a conflict is reported at the name, which the goal has kept
      obtain ⟨hk, us, c, hseen⟩ := hg
      rcases react_namedType table scope name t with ⟨_, hr, _⟩ | hr | ⟨a, b, hr⟩ <;>
        rw [hr] at h <;> cases h
      · exact .inl ⟨.inl rfl, rfl⟩
      · exact .inr ⟨a, b, name, us, c, rfl, rfl, hk, hseen⟩
    · have hfits := fits_react table seen t hg fun scope name hg => htype ⟨scope, name, hg⟩
      cases hr : react table g t <;> rw [hr] at h hfits
      · cases h
      · -- passed on: the goals below hold no token
        exact ih (placed_of_nameless hgs seen) h
      · cases h
        exact .inl ⟨hfits.1, congrArg some hfits.2⟩

/-! ### A run and its stacks -/

/-- The stack that a token sequence leads to. -/
def steps (s : SymbolTable × List Goal) (ts : List Token) :
    Except Refusal (SymbolTable × List Goal) :=
  ts.foldlM (fun s t => advance s.1 s.2 t) s

/-- The first step and the others. -/
theorem steps_cons (s : SymbolTable × List Goal) (t : Token) (ts : List Token) :
    steps s (t :: ts) = (advance s.1 s.2 t >>= fun s' => steps s' ts) := rfl

/-- A run over two sequences is the steps of the first, and then the run of the second from the
stack they lead to. -/
theorem run_append (s : SymbolTable × List Goal) (ts us : List Token) :
    run s.1 s.2 (ts ++ us) = (steps s ts >>= fun s' => run s'.1 s'.2 us) := by
  -- on the tokens of the first sequence
  induction ts generalizing s with
  | nil => rfl
  | cons t ts ih =>
    rw [List.cons_append, run, steps_cons]
    cases advance s.1 s.2 t with
    | error r => rfl
    | ok s' => exact ih s'

/-- **Every stack that is reached is in order**: its goals know the places of their names, and the
declarations so far agree. By `advance_ok` for each token. -/
theorem steps_ok {seen ts : List Token} {s s' : SymbolTable × List Goal} (hp : Placed seen s.2)
    (hs : s.1.Recorded) (h : steps s ts = .ok s') :
    Placed (seen ++ ts) s'.2 ∧ s'.1.Recorded := by
  induction ts generalizing seen s with
  | nil =>
    cases h
    rw [List.append_nil]
    exact ⟨hp, hs⟩
  | cons t ts ih =>
    rw [steps_cons] at h
    cases ha : advance s.1 s.2 t with
    | error r => rw [ha] at h; cases h
    | ok s₁ =>
      rw [ha] at h
      obtain ⟨hp₁, hs₁⟩ := advance_ok hp ha
      -- the token joins those that have been seen
      rw [List.append_cons]
      exact ih hp₁ (hs₁ hs) h

/-- A run that breaks off does so at one of its tokens. -/
theorem steps_error {ts : List Token} {s : SymbolTable × List Goal} {r : Refusal}
    (h : steps s ts = .error r) :
    ∃ pre t post s', ts = pre ++ t :: post ∧ steps s pre = .ok s' ∧
      advance s'.1 s'.2 t = .error r := by
  induction ts generalizing s with
  | nil => cases h
  | cons t ts ih =>
    rw [steps_cons] at h
    cases ha : advance s.1 s.2 t with
    | error r' =>
      rw [ha] at h
      cases h
      -- refused at once
      exact ⟨[], t, ts, s, rfl, rfl, ha⟩
    | ok s₁ =>
      rw [ha] at h
      obtain ⟨pre, u, post, s', rfl, hpre, hadv⟩ := ih h
      refine ⟨t :: pre, u, post, s', rfl, ?_, hadv⟩
      rw [steps_cons, ha]
      exact hpre

/-! ### Viability -/

/-- Where every parse begins: nothing declared, nothing expected. -/
def origin : SymbolTable × List Goal := (.empty, [])

/-- A sequence is accepted if its run comes to an end, by `run_parse`. -/
theorem accepted_iff {ts : List Token} :
    Accepted ts ↔ ∃ table, run origin.1 origin.2 ts = .ok table := by
  change _ ↔ ∃ table, run .empty [] ts = .ok table
  -- the machine started at the origin answers what the parser answers
  rw [run_parse]
  constructor
  · rintro ⟨p, hp⟩
    exact ⟨p.1, by rw [hp]; rfl⟩
  · rintro ⟨table, h⟩
    cases hp : parse ts with
    | ok p => exact ⟨p, hp⟩
    | error e => rw [hp] at h; cases h

/-- At the beginning the stack is in order (`steps_ok`). -/
theorem steps_origin {ts : List Token} {s : SymbolTable × List Goal}
    (h : steps origin ts = .ok s) : Placed ts s.2 ∧ s.1.Recorded := by
  have hp : Placed [] origin.2 := trivial
  exact steps_ok hp SymbolTable.recorded_empty h

/-- **Tokens that run through are viable**: the stack they lead to is in order (`steps_origin`), and
so it can be emptied (`exists_closing`). -/
theorem viable_of_steps {ts : List Token} {s : SymbolTable × List Goal}
    (h : steps origin ts = .ok s) : Viable ts := by
  obtain ⟨es, table, -, hrun⟩ := exists_closing (steps_origin h).2 s.2
  refine ⟨es, accepted_iff.mpr ⟨table, ?_⟩⟩
  rw [run_append, h]
  exact hrun

/-- **Tokens that include a refused one are not viable**, since a run does not go beyond it
(`run_append`). -/
theorem not_viable_of_error {ts : List Token} {r : Refusal} (h : steps origin ts = .error r) :
    ¬ Viable ts := by
  rintro ⟨more, hacc⟩
  obtain ⟨table, hrun⟩ := accepted_iff.mp hacc
  rw [run_append, h] at hrun
  cases hrun

/-- One token more is one step more. -/
theorem steps_append_singleton {ts : List Token} {t : Token} {s s' : SymbolTable × List Goal}
    (h : steps s ts = .ok s') : steps s (ts ++ [t]) = advance s'.1 s'.2 t := by
  unfold steps at h ⊢
  rw [List.foldlM_append, h]
  change (advance s'.1 s'.2 t >>= fun s'' => .ok s'') = _
  cases advance s'.1 s'.2 t <;> rfl

/-- **A rejected sequence** either ends too early, and then it is viable (`viable_of_steps`), or has
a first token that ends viability (`steps_error`, `not_viable_of_error`), and that token is to blame
(`advance_error`). -/
theorem parse_error_cases {ts : List Token} {e : GrammarError} (h : parse ts = .error e) :
    (e.fault = .unexpectedEnd ∧ Viable ts) ∨
    ∃ pre t post, ts = pre ++ t :: post ∧ Viable pre ∧ ¬ Viable (pre ++ [t]) ∧
      Blames pre t (e.fault, e.token) := by
  have hrun : run origin.1 origin.2 (ts ++ []) = .error (e.fault, e.token) := by
    rw [List.append_nil]
    change run .empty [] ts = _
    rw [run_parse, h]
    rfl
  rw [run_append] at hrun
  cases hs : steps origin ts with
  | ok s =>
    rw [hs] at hrun
    have hend : run s.1 s.2 [] = .error (e.fault, e.token) := hrun
    -- all tokens are taken and goals are left over
    refine .inl ⟨?_, viable_of_steps hs⟩
    rw [run] at hend
    split at hend
    · cases hend
    · exact (Prod.mk.inj (Except.error.inj hend)).1.symm
  | error r =>
    rw [hs] at hrun
    cases hrun
    -- the tokens before the refused one lead to a stack, which can be emptied
    obtain ⟨pre, t, post, s, rfl, hpre, hadv⟩ := steps_error hs
    refine .inr ⟨pre, t, post, rfl, viable_of_steps hpre, ?_, ?_⟩
    · exact not_viable_of_error ((steps_append_singleton hpre).trans hadv)
    · exact advance_error (steps_origin hpre).1 hadv

end Expectation

namespace Parser

open Expectation

/-- The beginning of a viable sequence is viable. -/
theorem Viable.of_append {ts us : List Token} (h : Viable (ts ++ us)) : Viable ts := by
  obtain ⟨more, hacc⟩ := h
  rw [List.append_assoc] at hacc
  exact ⟨us ++ more, hacc⟩

/-- **Errors are reported at the earliest token.** Of a rejected token sequence:

* an unexpected token, or a function that is nested, is the token that no accepted sequence can
  have after the tokens before it, which are the beginning of some accepted sequence;
* the end of the tokens is reported exactly if the sequence is the beginning of an accepted one;
* a conflict of types is reported at a name, and it is the type two tokens further on that no
  accepted sequence can have there. -/
theorem parse_error_at_earliest {ts : List Token} {e : GrammarError} (h : parse ts = .error e) :
    (e.fault = .unexpectedToken ∨ e.fault = .nestedFunction →
      ∃ i t, ts[i]? = some t ∧ e.token = some t ∧
        Viable (ts.take i) ∧ ¬ Viable (ts.take (i + 1))) ∧
    (e.fault = .unexpectedEnd ↔ Viable ts) ∧
    (∀ previous type, e.fault = .typeConflict previous type →
      ∃ i t, ts[i]? = some t ∧ e.token = some t ∧ t.kind = .identifier ∧ i + 2 < ts.length ∧
        Viable (ts.take (i + 2)) ∧ ¬ Viable (ts.take (i + 3))) := by
  rcases parse_error_cases h with ⟨hend, hv⟩ | ⟨pre, t, post, rfl, hpre, hnot, hblame⟩
  · -- the tokens ended too early, and nothing else is to blame
    refine ⟨fun hf => ?_, ⟨fun _ => hv, fun _ => hend⟩, fun a b hf => ?_⟩
    · rw [hend] at hf
      rcases hf with hf | hf <;> cases hf
    · rw [hend] at hf
      cases hf
  · -- the whole sequence is not viable either, so the end of the tokens is not to blame
    have hall : ¬ Viable (pre ++ t :: post) := fun hv => by
      rw [List.append_cons] at hv
      exact hnot hv.of_append
    rcases hblame with ⟨hf, htoken⟩ | ⟨a, b, name, us, c, hf, htoken, hk, rfl⟩
    · -- the token itself is to blame
      refine ⟨fun _ => ⟨pre.length, t, by simp, htoken, ?_, ?_⟩, ?_, ?_⟩
      · rwa [List.take_left]
      · rwa [List.append_cons, List.take_left' (by simp)]
      · refine ⟨fun hend => ?_, fun hv => absurd hv hall⟩
        rcases hf with hf | hf <;> cases hf.symm.trans hend
      · intro a b hconf
        rcases hf with hf | hf <;> cases hf.symm.trans hconf
    · -- the name is to blame, which stands two tokens before the one that was refused
      refine ⟨fun hplain => ?_, ⟨fun hend => ?_, fun hv => absurd hv hall⟩, fun _ _ _ => ?_⟩
      · rcases hplain with hplain | hplain <;> cases hf.symm.trans hplain
      · cases hf.symm.trans hend
      · refine ⟨us.length, name, by simp, htoken, hk, by simp, ?_, ?_⟩
        · rwa [List.take_left' (by simp)]
        · rwa [List.append_cons, List.take_left' (by simp)]

/-- A variable that is declared with one type and then with another. -/
def redeclaredTokens : List Token :=
  [⟨.identifier, some (.name "x"), ⟨1, 1⟩⟩, .plain .colon ⟨1, 2⟩, .plain .intWord ⟨1, 4⟩,
    .plain .newline ⟨2, 1⟩, ⟨.identifier, some (.name "x"), ⟨2, 1⟩⟩, .plain .colon ⟨2, 2⟩,
    .plain .floatWord ⟨2, 4⟩]

/-- The second declaration is reported at its name, and it is its type that no accepted sequence can
have there. -/
theorem parse_redeclaredTokens :
    parse redeclaredTokens =
        .error (conflict ⟨.identifier, some (.name "x"), ⟨2, 1⟩⟩ "x" .int .float) ∧
      ∃ i, redeclaredTokens[i]? = some ⟨.identifier, some (.name "x"), ⟨2, 1⟩⟩ ∧
        Viable (redeclaredTokens.take (i + 2)) ∧ ¬ Viable (redeclaredTokens.take (i + 3)) := by
  have h : parse redeclaredTokens =
      .error (conflict ⟨.identifier, some (.name "x"), ⟨2, 1⟩⟩ "x" .int .float) := rfl
  obtain ⟨i, t, hi, ht, -, -, hv, hnot⟩ := (parse_error_at_earliest h).2.2 .int .float rfl
  cases ht
  exact ⟨h, i, hi, hv, hnot⟩

end Parser

end Offside
