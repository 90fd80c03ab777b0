import Offside.Proofs.Grammar.Basic

/-!
# Reading what stands on a line

The readers below the level of statements against the rules of the grammar. A reader takes a
repetition as far as it goes, and the rules leave that open, so the two directions differ:

* whatever a reader takes off the front of the tokens is derived (`expression_derives`);
* what is derived is read back, provided that the tokens after it cannot continue it
  (`expression_append`). For an expression that is `Delimited`: no operator follows, which would
  continue an operation, and no parenthesis, which would turn a name into a call.

Lists in parentheses have a last token of their own and need no such condition.
-/

namespace Offside.Parser

@[simp] theorem nextIs_nil (kind : Token.Kind) : nextIs kind [] = false := rfl

@[simp] theorem nextIs_cons (kind : Token.Kind) (t : Token) (ts : List Token) :
    nextIs kind (t :: ts) = decide (t.kind = kind) := by
  unfold nextIs
  by_cases h : t.kind = kind <;> simp [h]

/-- The next token is of a kind if there is one and it is. -/
theorem nextIs_eq_true {kind : Token.Kind} {ts : List Token} :
    nextIs kind ts = true ↔ ∃ t rest, ts = t :: rest ∧ t.kind = kind := by
  cases ts with
  | nil => simp
  | cons t ts => simp

end Offside.Parser

namespace Offside.Grammar

/-! ### What can come first, and what can come after -/

/-- The kinds of token that can be an operand. -/
theorem Spells.kind_mem {t : Token} {x : Operand} (h : Spells t x) :
    t.kind ∈ [Token.Kind.identifier, .intLiteral, .floatLiteral, .boolLiteral] := by
  rw [h.1]
  rcases x with s | (v | v | v) <;> simp [Operand.kind]

/-- The tokens cannot continue an operation. -/
def Unjoined (ts : List Token) : Prop :=
  ∀ t ∈ ts.head?, BinaryOp.ofKind? t.kind = none

/-- The tokens cannot continue an expression: no operator joins another operand to it, and no
parenthesis makes a call of it. -/
def Delimited (ts : List Token) : Prop :=
  ∀ t ∈ ts.head?, BinaryOp.ofKind? t.kind = none ∧ t.kind ≠ .leftParen

/-- Tokens that cannot continue an expression cannot continue an operation. -/
theorem Delimited.unjoined {ts : List Token} (h : Delimited ts) : Unjoined ts :=
  fun t ht => (h t ht).1

@[simp] theorem delimited_nil : Delimited [] := fun _ h => absurd h (by simp)

@[simp] theorem delimited_cons {t : Token} {ts : List Token} :
    Delimited (t :: ts) ↔ BinaryOp.ofKind? t.kind = none ∧ t.kind ≠ .leftParen := by
  simp [Delimited]

/-- A list has at most one item more than tokens, since each further item has a comma before it. So
a bound by the tokens is one by the items. -/
theorem Separated.length_le {α : Type} {item : List Token → α → Prop} {pre : List Token}
    {xs : List α} (h : Separated item pre xs) :
    xs.length ≤ pre.length + 1 := by
  induction h with
  | one _ => simp
  | more _ _ _ ih => simp only [List.length_append, List.length_cons] at *; omega

/-- The kinds of token that can begin an expression. -/
theorem Expression.first {ts : List Token} {e : Expr} (h : Expression ts e) :
    ∃ t us, ts = t :: us ∧
      t.kind ∈ [Token.Kind.identifier, .intLiteral, .floatLiteral, .boolLiteral, .notWord] := by
  cases h with
  | call hn _ _ => exact ⟨_, _, rfl, by simp [hn.1]⟩
  | plain ht _ =>
    exact ⟨_, _, rfl, List.mem_append_left [Token.Kind.notWord] ht.kind_mem⟩
  | negated hn _ _ => exact ⟨_, _, rfl, by simp [hn]⟩

/-- Operators and operands after a first operand leave no room for a call. -/
theorem Operations.next_ne_leftParen {ts rest : List Token} {ops : List (BinaryOp × Operand)}
    (h : Operations ts ops) (hr : Delimited rest) :
    Parser.nextIs .leftParen (ts ++ rest) = false := by
  cases h with
  | nil =>
    cases rest with
    | nil => rfl
    | cons t rest => simpa using (delimited_cons.mp hr).2
  | cons ho _ _ =>
    -- the next token is an operator
    simp only [List.cons_append, Parser.nextIs_cons, decide_eq_false_iff_not]
    intro hk
    simp [hk, BinaryOp.ofKind?] at ho

end Offside.Grammar

namespace Offside.Parser

open Grammar

variable {stop : Span}

/-- A sequence of two steps gives a result exactly if both do. -/
theorem bind_eq_ok {α β : Type} {x : Attempt α} {f : α → Attempt β} {b : β} :
    (x >>= f) = .ok b ↔ ∃ a, x = .ok a ∧ f a = .ok b := by
  cases x <;> simp [bind, Except.bind]

/-! ### Single tokens -/

/-- Taking a token takes the first one. -/
theorem take_eq_ok {expected : String} {ts rest : List Token} {t : Token} :
    take stop expected ts = .ok (t, rest) ↔ ts = t :: rest := by
  cases ts <;> simp [take]

/-- A reader that begins by taking a token. -/
theorem take_bind_eq_ok {α : Type} {f : Reading Token → Attempt α} {expected : String}
    {ts : List Token} {a : α} :
    (take stop expected ts >>= f) = .ok a ↔ ∃ t us, ts = t :: us ∧ f (t, us) = .ok a := by
  simp only [bind_eq_ok, Prod.exists, take_eq_ok]

/-- A token of a kind is taken if the first one is of it. -/
theorem expect_eq_ok {kind : Token.Kind} {expected : String} {ts rest : List Token} {t : Token} :
    expect stop kind expected ts = .ok (t, rest) ↔ ts = t :: rest ∧ t.kind = kind := by
  unfold expect
  rw [take_bind_eq_ok]
  constructor
  · rintro ⟨u, us, rfl, hu⟩
    -- a token of another kind is an error
    by_cases hk : u.kind = kind
    · simp only [hk, if_true, Except.ok.injEq, Prod.mk.injEq] at hu
      obtain ⟨rfl, rfl⟩ := hu
      exact ⟨rfl, hk⟩
    · simp [hk] at hu
  · rintro ⟨rfl, hk⟩
    exact ⟨t, rest, rfl, by simp [hk]⟩

/-- The name that a token carries is its value. -/
theorem name?_eq_some {t : Token} {name : String} :
    t.name? = some name ↔ t.value = some (.name name) := by
  unfold Token.name?
  split
  · next s h => simp [h]
  · next h => exact ⟨fun hn => absurd hn (by simp), fun hn => absurd hn (h name)⟩

/-- A name is read from a token that has it, with the position of the token. -/
theorem expectName_eq_ok {expected name : String} {span : Span} {ts rest : List Token} :
    expectName stop expected ts = .ok ((name, span), rest) ↔
      ∃ t, ts = t :: rest ∧ Names t name ∧ t.span = span := by
  unfold expectName
  rw [bind_eq_ok]
  constructor
  · rintro ⟨⟨t, us⟩, h, ht⟩
    obtain ⟨rfl, hk⟩ := expect_eq_ok.mp h
    -- the kind alone does not give the name: a token may lack its value
    cases hn : t.name? with
    | none => simp [hn] at ht
    | some s =>
      simp only [hn, Except.ok.injEq, Prod.mk.injEq] at ht
      obtain ⟨⟨rfl, rfl⟩, rfl⟩ := ht
      exact ⟨t, rfl, ⟨hk, name?_eq_some.mp hn⟩, rfl⟩
  · rintro ⟨t, rfl, ⟨hk, hv⟩, rfl⟩
    refine ⟨(t, rest), expect_eq_ok.mpr ⟨rfl, hk⟩, ?_⟩
    simp [name?_eq_some.mpr hv]

/-- A type is read from a token that stands for it. -/
theorem valueType_eq_ok {expected : String} {ts rest : List Token} {type : ValueType} :
    valueType stop expected ts = .ok (type, rest) ↔
      ∃ t, ts = t :: rest ∧ ValueType.ofKind? t.kind = some type := by
  unfold valueType
  rw [take_bind_eq_ok]
  constructor
  · rintro ⟨t, us, rfl, h⟩
    dsimp only at h
    split at h
    · next hk =>
      cases h
      exact ⟨t, rfl, hk⟩
    · cases h
  · rintro ⟨t, rfl, hk⟩
    exact ⟨t, rest, rfl, by simp [hk]⟩

/-- The type after an arrow, likewise. -/
theorem returnType_eq_ok {ts rest : List Token} {type : ReturnType} :
    returnType stop ts = .ok (type, rest) ↔
      ∃ t, ts = t :: rest ∧ ReturnType.ofKind? t.kind = some type := by
  unfold returnType
  rw [take_bind_eq_ok]
  constructor
  · rintro ⟨t, us, rfl, h⟩
    dsimp only at h
    split at h
    · next hk =>
      cases h
      exact ⟨t, rfl, hk⟩
    · cases h
  · rintro ⟨t, rfl, hk⟩
    exact ⟨t, rest, rfl, by simp [hk]⟩

/-- A token is read as an operand exactly if it spells that operand. -/
theorem operandOf_eq_ok {t : Token} {x : Operand} : operandOf t = .ok x ↔ Spells t x := by
  unfold operandOf Spells
  -- the four kinds of operand with a value of their own, and everything else
  split
  · next s hk hv =>
    rw [hk, hv]
    rcases x with s' | (v | v | v) <;> simp [Operand.kind, Operand.value]
  · next v hk hv =>
    rw [hk, hv]
    rcases x with s' | (v | v | v) <;> simp [Operand.kind, Operand.value]
  · next v hk hv =>
    rw [hk, hv]
    rcases x with s' | (v | v | v) <;> simp [Operand.kind, Operand.value]
  · next v hk hv =>
    rw [hk, hv]
    rcases x with s' | (v | v | v) <;> simp [Operand.kind, Operand.value]
  · next h₁ h₂ h₃ h₄ =>
    -- kind and value disagree, so no operand has both
    refine ⟨fun h => absurd h (by simp), fun ⟨hk, hv⟩ => ?_⟩
    rcases x with s | (v | v | v)
    · exact absurd hv (h₁ s hk)
    · exact absurd hv (h₂ v hk)
    · exact absurd hv (h₃ v hk)
    · exact absurd hv (h₄ v hk)

/-- An operand is read from a token that spells it (`operandOf_eq_ok`). -/
theorem operand_eq_ok {ts rest : List Token} {x : Operand} :
    operand stop ts = .ok (x, rest) ↔ ∃ t, ts = t :: rest ∧ Spells t x := by
  unfold operand
  rw [take_bind_eq_ok]
  constructor
  · rintro ⟨t, us, rfl, ht⟩
    obtain ⟨y, hy, hr⟩ := bind_eq_ok.mp ht
    simp only [Except.ok.injEq, Prod.mk.injEq] at hr
    obtain ⟨rfl, rfl⟩ := hr
    exact ⟨t, rfl, operandOf_eq_ok.mp hy⟩
  · rintro ⟨t, rfl, ht⟩
    exact ⟨t, rest, rfl, bind_eq_ok.mpr ⟨x, operandOf_eq_ok.mpr ht, rfl⟩⟩

/-! ### Operators and operands -/

/-- **Operators and operands are read as far as they go**: what is read is derived, and what is
derived is read if no operator follows. -/
theorem operations_eq_ok {ts rest : List Token} {ops : List (BinaryOp × Operand)} :
    operations stop ts = .ok (ops, rest) ↔
      ∃ pre, ts = pre ++ rest ∧ Operations pre ops ∧ Unjoined rest := by
  -- the cases of the reader: no token, no operator, an operator at the end, a pair
  fun_induction operations stop ts generalizing ops with
  | case1 =>
    constructor
    · intro h
      simp only [Except.ok.injEq, Prod.mk.injEq] at h
      obtain ⟨rfl, rfl⟩ := h
      exact ⟨[], rfl, .nil, fun _ h => absurd h (by simp)⟩
    · rintro ⟨pre, h, hops, -⟩
      obtain ⟨rfl, rfl⟩ := List.append_eq_nil_iff.mp h.symm
      cases hops
      rfl
  | case2 t ts hk =>
    constructor
    · intro h
      simp only [Except.ok.injEq, Prod.mk.injEq] at h
      obtain ⟨rfl, rfl⟩ := h
      -- no operator: nothing is taken, and nothing could be
      exact ⟨[], rfl, .nil, by simpa [Unjoined] using hk⟩
    · rintro ⟨pre, h, hops, -⟩
      cases hops with
      | nil => simp_all
      | cons ho _ _ =>
        simp only [List.cons_append, List.cons.injEq] at h
        rw [← h.1, hk] at ho
        cases ho
  | case3 t op hk =>
    -- an operator at the end of the tokens is no derivation's end either
    refine ⟨fun h => absurd h (by simp), ?_⟩
    rintro ⟨pre, h, hops, hr⟩
    cases hops with
    | nil =>
      obtain rfl : rest = [t] := h.symm
      exact absurd (hr t (by simp)) (by simp [hk])
    | cons _ _ _ => simp at h
  | case4 t op hk u ts ih =>
    rw [bind_eq_ok]
    constructor
    · rintro ⟨x, hx, h⟩
      obtain ⟨⟨more, us⟩, hm, h⟩ := bind_eq_ok.mp h
      simp only [Except.ok.injEq, Prod.mk.injEq] at h
      obtain ⟨rfl, rfl⟩ := h
      obtain ⟨pre, rfl, hpre, hr⟩ := ih.mp hm
      exact ⟨t :: u :: pre, rfl, .cons hk (operandOf_eq_ok.mp hx) hpre, hr⟩
    · rintro ⟨pre, h, hops, hr⟩
      cases hops with
      | nil =>
        obtain rfl : rest = t :: u :: ts := h.symm
        exact absurd (hr t (by simp)) (by simp [hk])
      | cons ho hx hpre =>
        simp only [List.cons_append, List.cons.injEq] at h
        obtain ⟨rfl, rfl, rfl⟩ := h
        obtain rfl := Option.some.inj (hk.symm.trans ho)
        exact ⟨_, operandOf_eq_ok.mpr hx, bind_eq_ok.mpr ⟨_, ih.mpr ⟨_, rfl, hpre, hr⟩, rfl⟩⟩

/-! ### Lists in parentheses -/

section Listed

variable {α : Type} {item : List Token → Attempt (Reading α)} {Item : List Token → α → Prop}

/-- What is read as a list is derived as one, if what is read as an item is. -/
theorem separated_derives
    (sound : ∀ {ts x rest}, item ts = .ok (x, rest) → ∃ pre, ts = pre ++ rest ∧ Item pre x)
    {bound : Nat} {ts rest : List Token} {xs : List α}
    (h : separated stop item bound ts = .ok (xs, rest)) :
    ∃ pre r, ts = pre ++ r :: rest ∧ Separated Item pre xs ∧ r.kind = .rightParen := by
  -- on the bound, one item in each turn
  induction bound generalizing ts xs with
  | zero => simp [separated] at h
  | succ bound ih =>
    obtain ⟨⟨x, us⟩, hx, h₁⟩ := bind_eq_ok.mp h
    obtain ⟨⟨mark, vs⟩, hm, h₂⟩ := bind_eq_ok.mp h₁
    obtain ⟨pre, rfl, hpre⟩ := sound hx
    obtain rfl := take_eq_ok.mp hm
    dsimp only at h₂
    -- a comma goes on, a parenthesis ends the list
    split at h₂
    · next hk =>
      obtain ⟨⟨ys, ws⟩, hy, h₃⟩ := bind_eq_ok.mp h₂
      simp only [Except.ok.injEq, Prod.mk.injEq] at h₃
      obtain ⟨rfl, rfl⟩ := h₃
      obtain ⟨more, r, rfl, hmore, hr⟩ := ih hy
      exact ⟨pre ++ mark :: more, r, by simp, .more hpre hk hmore, hr⟩
    · next hk =>
      simp only [Except.ok.injEq, Prod.mk.injEq] at h₂
      obtain ⟨rfl, rfl⟩ := h₂
      exact ⟨pre, mark, rfl, .one hpre, hk⟩
    · cases h₂

/-- What is derived as a list is read, if what is derived as an item is; the bound has to allow for
a turn for each item. -/
theorem separated_append
    (complete : ∀ {pre x} rest, Item pre x → item (pre ++ rest) = .ok (x, rest))
    {pre : List Token} {xs : List α} (h : Separated Item pre xs) {r : Token}
    (hr : r.kind = .rightParen) (rest : List Token) {bound : Nat} (hb : xs.length ≤ bound) :
    separated stop item bound (pre ++ r :: rest) = .ok (xs, rest) := by
  induction h generalizing bound with
  | one hx =>
    -- one item takes one call
    obtain ⟨n, rfl⟩ := Nat.exists_eq_add_of_le' hb
    rw [List.length_singleton, separated, complete _ hx]
    simp [bind, Except.bind, take, hr]
  | more hx hc _ ih =>
    obtain ⟨n, rfl⟩ := Nat.exists_eq_add_of_le' hb
    rw [List.length_cons, ← Nat.add_assoc, separated, List.append_assoc, complete _ hx]
    simp [bind, Except.bind, take, hc, ih (Nat.le_add_left _ n)]

/-- The same of a list in parentheses, which may be empty (`separated_derives`). -/
theorem listed_derives
    (sound : ∀ {ts x rest}, item ts = .ok (x, rest) → ∃ pre, ts = pre ++ rest ∧ Item pre x)
    {ts rest : List Token} {xs : List α} (h : listed stop item ts = .ok (xs, rest)) :
    ∃ pre, ts = pre ++ rest ∧ Listed Item pre xs := by
  unfold listed at h
  split at h
  · next hn =>
    obtain ⟨r, us, rfl, hr⟩ := nextIs_eq_true.mp hn
    simp only [List.tail_cons, Except.ok.injEq, Prod.mk.injEq] at h
    obtain ⟨rfl, rfl⟩ := h
    exact ⟨[r], rfl, .none hr⟩
  · -- not empty, so there is an item before the parenthesis
    obtain ⟨pre, r, rfl, hpre, hr⟩ := separated_derives sound h
    exact ⟨pre ++ [r], by simp, .some hpre hr⟩

/-- The same in the other direction (`separated_append`). The items must not begin with the
parenthesis that would end the list. -/
theorem listed_append
    (complete : ∀ {pre x} rest, Item pre x → item (pre ++ rest) = .ok (x, rest))
    (first : ∀ {pre x} rest, Item pre x → nextIs .rightParen (pre ++ rest) = false)
    {pre : List Token} {xs : List α} (h : Listed Item pre xs) (rest : List Token) :
    listed stop item (pre ++ rest) = .ok (xs, rest) := by
  cases h with
  | none hr => simp [listed, hr]
  | @some us r xs hs hr =>
    -- no item begins with the parenthesis, so the reader does not take the list for an empty one
    have hn : nextIs .rightParen (us ++ r :: rest) = false := by
      cases hs with
      | one hx => exact first _ hx
      | more hx _ _ => rw [List.append_assoc]; exact first _ hx
    rw [listed, List.append_assoc, List.singleton_append, hn, if_neg (by simp)]
    refine separated_append complete hs hr rest ?_
    have := hs.length_le
    simp only [List.length_append, List.length_cons]
    omega

end Listed

/-- An argument is derived from its token. -/
theorem argument_derives {ts rest : List Token} {x : Operand}
    (h : operand stop ts = .ok (x, rest)) : ∃ pre, ts = pre ++ rest ∧ Argument pre x := by
  obtain ⟨t, rfl, ht⟩ := operand_eq_ok.mp h
  exact ⟨[t], rfl, .mk ht⟩

/-- An argument is read back. -/
theorem argument_append {pre : List Token} {x : Operand} (rest : List Token)
    (h : Argument pre x) : operand stop (pre ++ rest) = .ok (x, rest) := by
  cases h with
  | mk ht => exact operand_eq_ok.mpr ⟨_, rfl, ht⟩

/-- No argument begins with a closing parenthesis. -/
theorem argument_first {pre : List Token} {x : Operand} (rest : List Token)
    (h : Argument pre x) : nextIs .rightParen (pre ++ rest) = false := by
  cases h with
  | mk ht =>
    have hm := ht.kind_mem
    simp only [List.singleton_append, nextIs_cons, decide_eq_false_iff_not]
    intro hk
    simp [hk] at hm

/-- The arguments of a call that are read are derived. -/
theorem arguments_derive {ts rest : List Token} {args : List Operand}
    (h : listed stop (operand stop) ts = .ok (args, rest)) :
    ∃ pre, ts = pre ++ rest ∧ Listed Argument pre args :=
  listed_derives argument_derives h

/-- The arguments of a call that are derived are read. -/
theorem arguments_append {pre : List Token} {args : List Operand} (h : Listed Argument pre args)
    (rest : List Token) : listed stop (operand stop) (pre ++ rest) = .ok (args, rest) :=
  listed_append argument_append argument_first h rest

/-- A parameter that is read is derived: a name, a colon and a type. -/
theorem param_derives {ts rest : List Token} {p : Param} (h : param stop ts = .ok (p, rest)) :
    ∃ pre, ts = pre ++ rest ∧ Parameter pre p := by
  obtain ⟨⟨⟨name, span⟩, ts₁⟩, hn, h₁⟩ := bind_eq_ok.mp h
  obtain ⟨⟨c, ts₂⟩, hc, h₂⟩ := bind_eq_ok.mp h₁
  obtain ⟨⟨type, ts₃⟩, ht, h₃⟩ := bind_eq_ok.mp h₂
  simp only [Except.ok.injEq, Prod.mk.injEq] at h₃
  obtain ⟨rfl, rfl⟩ := h₃
  obtain ⟨n, rfl, hname, -⟩ := expectName_eq_ok.mp hn
  obtain ⟨rfl, hcolon⟩ := expect_eq_ok.mp hc
  obtain ⟨t, rfl, htype⟩ := valueType_eq_ok.mp ht
  exact ⟨[n, c, t], rfl, .mk hname hcolon htype⟩

/-- A parameter that is derived is read. -/
theorem param_append {pre : List Token} {p : Param} (rest : List Token) (h : Parameter pre p) :
    param stop (pre ++ rest) = .ok (p, rest) := by
  cases h with
  | @mk n c t name type hn hc ht =>
    refine bind_eq_ok.mpr ⟨((name, n.span), c :: t :: rest), ?_, ?_⟩
    · exact expectName_eq_ok.mpr ⟨n, rfl, hn, rfl⟩
    · refine bind_eq_ok.mpr ⟨(c, t :: rest), expect_eq_ok.mpr ⟨rfl, hc⟩, ?_⟩
      exact bind_eq_ok.mpr ⟨(type, rest), valueType_eq_ok.mpr ⟨t, rfl, ht⟩, rfl⟩

/-- No parameter begins with a closing parenthesis. -/
theorem param_first {pre : List Token} {p : Param} (rest : List Token) (h : Parameter pre p) :
    nextIs .rightParen (pre ++ rest) = false := by
  cases h with
  | mk hn _ _ => simp [hn.1]

/-- The parameters of a function that are read are derived. -/
theorem params_derive {ts rest : List Token} {ps : List Param}
    (h : listed stop (param stop) ts = .ok (ps, rest)) :
    ∃ pre, ts = pre ++ rest ∧ Listed Parameter pre ps :=
  listed_derives param_derives h

/-- The parameters of a function that are derived are read. -/
theorem params_append {pre : List Token} {ps : List Param} (h : Listed Parameter pre ps)
    (rest : List Token) : listed stop (param stop) (pre ++ rest) = .ok (ps, rest) :=
  listed_append param_append param_first h rest

/-- What follows the name of a call: a parenthesis and the arguments. -/
theorem callTail_eq_ok {name : String} {span : Span} {ts rest : List Token} {c : Call} :
    callTail stop name span ts = .ok (c, rest) ↔
      ∃ l us args, ts = l :: us ∧ l.kind = .leftParen ∧
        listed stop (operand stop) us = .ok (args, rest) ∧ c = ⟨name, args, span⟩ := by
  unfold callTail
  rw [bind_eq_ok]
  constructor
  · rintro ⟨⟨l, us⟩, hl, h⟩
    obtain ⟨⟨args, vs⟩, hargs, h⟩ := bind_eq_ok.mp h
    simp only [Except.ok.injEq, Prod.mk.injEq] at h
    obtain ⟨rfl, rfl⟩ := h
    obtain ⟨rfl, hk⟩ := expect_eq_ok.mp hl
    exact ⟨l, us, args, rfl, hk, hargs, rfl⟩
  · rintro ⟨l, us, args, rfl, hk, hargs, rfl⟩
    exact ⟨(l, us), expect_eq_ok.mpr ⟨rfl, hk⟩, bind_eq_ok.mpr ⟨(args, rest), hargs, rfl⟩⟩

/-! ### Expressions -/

/-- **What is read as an expression is derived**: a call with its arguments (`arguments_derive`), or
operands with operators between them (`operations_eq_ok`). -/
theorem expression_derives {ts rest : List Token} {e : Expr}
    (h : expression stop ts = .ok (e, rest)) : ∃ pre, ts = pre ++ rest ∧ Expression pre e := by
  unfold expression at h
  split at h
  · -- a call
    obtain ⟨⟨⟨name, span⟩, us⟩, hn, h₁⟩ := bind_eq_ok.mp h
    obtain ⟨⟨c, vs⟩, hc, h₂⟩ := bind_eq_ok.mp h₁
    simp only [Except.ok.injEq, Prod.mk.injEq] at h₂
    obtain ⟨rfl, rfl⟩ := h₂
    obtain ⟨n, rfl, hname, rfl⟩ := expectName_eq_ok.mp hn
    obtain ⟨l, ws, args, rfl, hl, hargs, rfl⟩ := callTail_eq_ok.mp hc
    obtain ⟨pre, rfl, hpre⟩ := arguments_derive hargs
    exact ⟨n :: l :: pre, rfl, .call hname hl hpre⟩
  · -- an operation
    obtain ⟨⟨first, us⟩, hf, h₁⟩ := bind_eq_ok.mp h
    obtain ⟨⟨more, vs⟩, hm, h₂⟩ := bind_eq_ok.mp h₁
    simp only [Except.ok.injEq, Prod.mk.injEq] at h₂
    obtain ⟨rfl, rfl⟩ := h₂
    obtain ⟨t, ht, hx⟩ := operand_eq_ok.mp hf
    obtain ⟨pre, rfl, hpre, -⟩ := operations_eq_ok.mp hm
    -- the word for negation, if it is there, is taken off before the first operand
    cases hn : nextIs .notWord ts with
    | true =>
      obtain ⟨n, ws, rfl, hk⟩ := nextIs_eq_true.mp hn
      simp only [nextIs_cons, hk, decide_true, if_true, List.tail_cons] at ht
      subst ht
      exact ⟨n :: t :: pre, rfl, .negated hk hx hpre⟩
    | false =>
      simp only [hn, Bool.false_eq_true, if_false] at ht
      subst ht
      exact ⟨t :: pre, rfl, .plain hx hpre⟩

/-- **What is derived as an expression is read**, if nothing after it continues it. That it is
`Delimited` is used twice: no parenthesis makes a call of its first name, and no operator goes on
(`operations_eq_ok`). -/
theorem expression_append (stop : Span) {pre : List Token} {e : Expr} (h : Expression pre e)
    {rest : List Token} (hr : Delimited rest) :
    expression stop (pre ++ rest) = .ok (e, rest) := by
  unfold expression
  cases h with
  | @call n l ts name args hn hl hargs =>
    have hc : callNext (n :: l :: ts ++ rest) = true := by simp [callNext, hn.1, hl]
    rw [if_pos hc]
    refine bind_eq_ok.mpr ⟨((name, n.span), l :: ts ++ rest), ?_, ?_⟩
    · exact expectName_eq_ok.mpr ⟨n, rfl, hn, rfl⟩
    · refine bind_eq_ok.mpr ⟨(⟨name, args, n.span⟩, rest), ?_, rfl⟩
      exact callTail_eq_ok.mpr ⟨l, ts ++ rest, args, rfl, hl, arguments_append hargs rest, rfl⟩
  | @plain t ts x ops ht hops =>
    -- a name is no call here, since no parenthesis comes next
    have hc : callNext (t :: ts ++ rest) = false := by
      simp [callNext, hops.next_ne_leftParen hr]
    have hn : nextIs .notWord (t :: ts ++ rest) = false := by
      have hm := ht.kind_mem
      simp only [List.cons_append, nextIs_cons, decide_eq_false_iff_not]
      intro hk
      simp [hk] at hm
    rw [hc, hn, if_neg Bool.false_ne_true]
    refine bind_eq_ok.mpr ⟨(x, ts ++ rest), operand_eq_ok.mpr ⟨t, rfl, ht⟩, ?_⟩
    refine bind_eq_ok.mpr ⟨(ops, rest), ?_, rfl⟩
    exact operations_eq_ok.mpr ⟨ts, rfl, hops, hr.unjoined⟩
  | @negated n t ts x ops hn ht hops =>
    have hc : callNext (n :: t :: ts ++ rest) = false := by simp [callNext, hn]
    -- the negation is dropped, and the rest is read as without it
    have hneg : nextIs .notWord (n :: t :: ts ++ rest) = true := by simp [hn]
    rw [hc, hneg, if_neg Bool.false_ne_true]
    refine bind_eq_ok.mpr ⟨(x, ts ++ rest), operand_eq_ok.mpr ⟨t, rfl, ht⟩, ?_⟩
    refine bind_eq_ok.mpr ⟨(ops, rest), ?_, rfl⟩
    exact operations_eq_ok.mpr ⟨ts, rfl, hops, hr.unjoined⟩

end Offside.Parser
