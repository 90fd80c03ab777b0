import Mathlib.Data.List.Nodup
import Offside.Proofs.Cpp.Declarations

/-!
# Distinct texts

What the text of an expression, of the arguments of a print statement, or of a function header in
emitted code stands for can be found out from the text. So two of them with the same text are the
same, up to positions.

A text is taken apart at characters that its parts do not have: spaces between the parts of an
operation, commas between arguments, parentheses around them. An operand is found by reading it as
a lexeme of the source language, which differs from C++ in truth values only: `true` and `false` are
names there. For this reason these two must not be used as names (`Plain`).

* `operand_inj`, `expression_inj`, `printText_inj`, `header_inj` — each text has one reading.
-/

namespace Offside

open Token Linewise

/-! ### Names -/

/-- The words of C++ for the truth values, which are names in the source language. -/
def truthWords : List String := ["true", "false"]

/-- None of the names is a truth value in C++. -/
def Plain (names : List String) : Prop := ∀ name ∈ names, name ∉ truthWords

instance : DecidablePred Plain := fun names => inferInstanceAs (Decidable (∀ name ∈ names, _))

theorem plain_append {names names' : List String} :
    Plain (names ++ names') ↔ Plain names ∧ Plain names' := List.forall_mem_append

theorem plain_cons {name : String} {names : List String} :
    Plain (name :: names) ↔ name ∉ truthWords ∧ Plain names := List.forall_mem_cons

/-- The names in some things, from those in each. -/
theorem plain_flatMap {α : Type} {f : α → List String} {xs : List α} (h : Plain (xs.flatMap f)) :
    ∀ x ∈ xs, Plain (f x) :=
  fun x hx name hname => h name (List.mem_flatMap.mpr ⟨x, hx, hname⟩)

/-- The name, if the operand is one. -/
def Operand.names : Operand → List String
  | .name s => [s]
  | .literal _ => []

/-- The name of the function and those among its arguments. -/
def Call.names (c : Call) : List String := c.name :: c.args.flatMap Operand.names

/-- The names among the operands. -/
def Operation.names (o : Operation) : List String :=
  o.first.names ++ o.rest.flatMap fun pair => pair.2.names

/-- The names in an expression. -/
def Expr.names : Expr → List String
  | .call c => c.names
  | .operation o => o.names

namespace Cpp

/-! ### Taking texts apart -/

/-- A list is cut where something stands that is not in what comes before it. -/
theorem cut_inj {α : Type} {c : α} {p p' rest rest' : List α} (hp : c ∉ p) (hp' : c ∉ p')
    (h : p ++ c :: rest = p' ++ c :: rest') : p = p' ∧ rest = rest' := by
  -- both parts character by character, until the first of them ends
  induction p generalizing p' with
  | nil =>
    cases p' with
    | nil => exact ⟨rfl, (List.cons.inj h).2⟩
    | cons d p' => exact absurd ((List.cons.inj h).1 ▸ List.mem_cons_self) hp'
  | cons b p ih =>
    cases p' with
    | nil => exact absurd ((List.cons.inj h).1 ▸ List.mem_cons_self) hp
    | cons d p' =>
      obtain ⟨hfirst, hmore⟩ := List.cons.inj h
      obtain ⟨rfl, hrest⟩ := ih (fun hc => hp (List.mem_cons_of_mem b hc))
        (fun hc => hp' (List.mem_cons_of_mem d hc)) hmore
      exact ⟨by rw [hfirst], hrest⟩

/-- Parts that each end with the same characters, of which the first is in none of them. -/
theorem flatMap_ended_inj {c : Char} {cs : List Char} {xs ys : List String}
    (hx : ∀ x ∈ xs, c ∉ x.toList) (hy : ∀ y ∈ ys, c ∉ y.toList)
    (h : (xs.flatMap fun x => x.toList ++ c :: cs) = ys.flatMap fun y => y.toList ++ c :: cs) :
    xs = ys := by
  induction xs generalizing ys with
  | nil =>
    cases ys with
    | nil => rfl
    | cons y ys => simp at h
  | cons x xs ih =>
    cases ys with
    | nil => simp at h
    | cons y ys =>
      obtain ⟨hx, hxs⟩ := List.forall_mem_cons.mp hx
      obtain ⟨hy, hys⟩ := List.forall_mem_cons.mp hy
      simp only [List.flatMap_cons, List.append_assoc, List.cons_append] at h
      -- the first item goes up to the first of these characters, on both sides
      obtain ⟨hfirst, hrest⟩ := cut_inj hx hy h
      rw [String.toList_inj.mp hfirst, ih hxs hys (List.append_cancel_left hrest)]

/-- With one more separator at the end, each part has a separator behind it. -/
theorem intercalate_append (separator : String) {xs : List String} (h : xs ≠ []) :
    (String.intercalate separator xs).toList ++ separator.toList =
      xs.flatMap fun x => x.toList ++ separator.toList := by
  induction xs with
  | nil => exact absurd rfl h
  | cons x xs ih =>
    -- only the last part has no separator of its own; the one that is appended becomes it
    cases xs with
    | nil => simp
    | cons y xs =>
      rw [String.intercalate_cons_cons, String.toList_append, String.toList_append,
        List.flatMap_cons, List.append_assoc, ih (List.cons_ne_nil y xs)]

/-- **Parts with a separator between them.** The separator begins with a character that none of the
parts has, and no part is empty. -/
theorem intercalate_inj (separator : String) {c : Char} {cs : List Char}
    (hseparator : separator.toList = c :: cs) {xs ys : List String}
    (hx : ∀ x ∈ xs, x.toList ≠ [] ∧ c ∉ x.toList) (hy : ∀ y ∈ ys, y.toList ≠ [] ∧ c ∉ y.toList)
    (h : String.intercalate separator xs = String.intercalate separator ys) : xs = ys := by
  -- nothing at all is written only for no parts
  have hempty : ∀ {zs : List String}, (∀ z ∈ zs, z.toList ≠ [] ∧ c ∉ z.toList) →
      String.intercalate separator zs = "" → zs = [] := by
    intro zs hzs hzero
    cases zs with
    | nil => rfl
    | cons z zs =>
      have happend := intercalate_append separator (List.cons_ne_nil z zs)
      rw [hzero, List.flatMap_cons, String.toList_empty, List.nil_append,
        List.append_assoc] at happend
      have hlength := congrArg List.length happend
      simp only [List.length_append] at hlength
      exact absurd (List.eq_nil_of_length_eq_zero (by omega)) (hzs z List.mem_cons_self).1
  by_cases hxs : xs = []
  · rw [hxs, String.intercalate_nil] at h
    rw [hxs, hempty hy h.symm]
  · by_cases hys : ys = []
    · rw [hys, String.intercalate_nil] at h
      exact absurd (hempty hx h) hxs
    · -- with a separator behind each part, `flatMap_ended_inj` applies
      have hended := intercalate_append separator hxs
      rw [h, intercalate_append separator hys, hseparator] at hended
      exact (flatMap_ended_inj (fun y hy' => (hy y hy').2) (fun x hx' => (hx x hx').2) hended).symm

/-- No part and no separator has the character, so the whole has not. -/
theorem not_mem_intercalate {c : Char} {separator : String} (hseparator : c ∉ separator.toList)
    {xs : List String} (hxs : ∀ x ∈ xs, c ∉ x.toList) :
    c ∉ (String.intercalate separator xs).toList := by
  intro hmem
  by_cases hne : xs = []
  · simp [hne] at hmem
  · -- with a separator behind the last item too, the text is a plain concatenation
    have happend := List.mem_append_left separator.toList hmem
    rw [intercalate_append separator hne] at happend
    obtain ⟨x, hx, hc⟩ := List.mem_flatMap.mp happend
    rcases List.mem_append.mp hc with hc | hc
    · exact hxs x hx hc
    · exact hseparator hc

/-- Two lists whose members agree one by one in what follows from something they agree in. -/
theorem map_eq_of_map_eq {α β γ : Type} {f f' : α → β} (g g' : α → γ) {xs ys : List α}
    (hfg : ∀ x ∈ xs, ∀ y ∈ ys, f x = f' y → g x = g' y) (h : xs.map f = ys.map f') :
    xs.map g = ys.map g' := by
  induction xs generalizing ys with
  | nil =>
    cases ys with
    | nil => rfl
    | cons y ys => cases h
  | cons x xs ih =>
    cases ys with
    | nil => cases h
    | cons y ys =>
      obtain ⟨hfirst, hrest⟩ := List.cons.inj h
      have hmore := ih (fun x hx y hy => hfg x (List.mem_cons_of_mem _ hx) y
        (List.mem_cons_of_mem _ hy)) hrest
      rw [List.map_cons, List.map_cons, hmore,
        hfg x List.mem_cons_self y List.mem_cons_self hfirst]

/-! ### Operands -/

/-- What the text of an operand is read as in the source language. -/
def readBack : Operand → Kind × Option Value
  | .name s => (.identifier, some (.name s))
  | .literal (.int n) => (.intLiteral, some (.int n))
  | .literal (.float x) => (.floatLiteral, some (.float x))
  | .literal (.bool b) => (.identifier, some (.name (Spelling.cpp.truth b)))

/-- The text of an operand is one lexeme. A truth value of C++ is read as a name, since the source
language writes it with a capital letter. -/
theorem meaning?_operand {x : Operand} (hx : x.WellFormed) :
    meaning? true (x.spell .cpp).toList = some (.ok (readBack x)) := by
  have hword : ∀ s, IsName s → meaning? true s.toList =
      some (.ok (.identifier, some (.name s))) := by
    intro s hs
    rw [meaning?_of_isWord hs.1, String.ofList_toList, ofWord, hs.2]
  rcases x with s | n | v | b
  · exact hword s hx
  · exact meaning?_int n
  · exact meaning?_float hx
  · cases b <;> exact hword _ (by decide)

/-- **Operands with the same text are the same**, unless one is a truth value and the other a name
for it. -/
theorem operand_inj {x y : Operand} (hx : x.WellFormed) (hy : y.WellFormed) (hx' : Plain x.names)
    (hy' : Plain y.names) (h : x.spell .cpp = y.spell .cpp) : x = y := by
  have hread : readBack x = readBack y := by
    have hmeaning := meaning?_operand hx
    rw [h, meaning?_operand hy] at hmeaning
    exact (Except.ok.inj (Option.some.inj hmeaning)).symm
  have htruth : ∀ {name : String} {b : Bool}, Plain [name] → name ≠ Spelling.cpp.truth b := by
    rintro name b hname rfl
    cases b <;> exact hname _ List.mem_cons_self (by decide)
  -- both are read as the same; only a name and a truth value could be confused
  rcases x with s | n | v | b <;> rcases y with s' | n' | v' | b' <;>
    simp only [readBack, Prod.mk.injEq, Option.some.injEq, Value.name.injEq, Value.int.injEq,
      Value.float.injEq, true_and, reduceCtorEq, false_and] at hread
  case name.name => rw [hread]
  case name.literal.bool => exact absurd hread (htruth hx')
  case literal.int.literal.int => rw [hread]
  case literal.float.literal.float => rw [hread]
  case literal.bool.name => exact absurd hread.symm (htruth hy')
  case literal.bool.literal.bool =>
    have hbool : ∀ b b' : Bool, Spelling.cpp.truth b = Spelling.cpp.truth b' → b = b' := by decide
    rw [hbool b b' hread]

/-- The characters of an operand, of which there are some. -/
theorem chars_of_operand {x : Operand} (hx : x.WellFormed) : (x.spell .cpp).toList ≠ [] ∧
    ∀ c ∈ (x.spell .cpp).toList, isWordPart c = true ∨ c = '.' ∨ c = '-' := by
  have hmeaning := meaning?_operand hx
  refine ⟨fun hnil => ?_, ?_⟩
  · rw [hnil, meaning?_nil] at hmeaning
    cases hmeaning
  · rcases chars_of_meaning? hmeaning with hall | ⟨op, hop, heq⟩
    · exact hall
    · -- an operator has no value
      rw [← heq, (operators_meaning op hop).2.2 true] at hmeaning
      have hvalue := congrArg Prod.snd (Except.ok.inj (Option.some.inj hmeaning))
      rcases x with s | n | v | b <;> cases hvalue

/-- A character that is neither part of a word, nor a point, nor a sign is in no operand. -/
theorem not_mem_operand {x : Operand} (hx : x.WellFormed) {c : Char}
    (hc : isWordPart c = false ∧ c ≠ '.' ∧ c ≠ '-') : c ∉ (x.spell .cpp).toList := by
  intro hmem
  rcases (chars_of_operand hx).2 c hmem with hpart | hpoint | hminus
  · rw [hc.1] at hpart
    cases hpart
  · exact hc.2.1 hpoint
  · exact hc.2.2 hminus

/-- Nor is it in a name. -/
theorem not_mem_name {s : String} (hs : IsName s) {c : Char}
    (hc : isWordPart c = false ∧ c ≠ '.' ∧ c ≠ '-') : c ∉ s.toList :=
  not_mem_operand (x := .name s) hs hc

/-! ### Calls and operations -/

/-- Calls with the same text are the same, up to their position: the name ends at the parenthesis,
and the arguments at the commas (`intercalate_inj`, `operand_inj`). -/
theorem call_inj {c c' : Call} (hc : c.WellFormed) (hc' : c'.WellFormed) (hn : Plain c.names)
    (hn' : Plain c'.names) (h : c.spell .cpp = c'.spell .cpp) : c.unplaced = c'.unplaced := by
  have htext : ∀ c : Call, (c.spell .cpp).toList = c.name.toList ++ '(' ::
      ((String.intercalate ", " (c.args.map (Operand.spell .cpp))).toList ++ [')']) := by
    intro c
    simp [Call.spell]
  have hcut := congrArg String.toList h
  rw [htext, htext] at hcut
  -- up to the parenthesis the name, and between it and the last one the arguments
  obtain ⟨hname, hargs⟩ := cut_inj (not_mem_name hc.1 (by decide)) (not_mem_name hc'.1 (by decide))
    hcut
  -- no argument has a comma in it, so the commas separate them
  have hparts : ∀ {c : Call}, c.WellFormed → ∀ s ∈ c.args.map (Operand.spell .cpp),
      s.toList ≠ [] ∧ ',' ∉ s.toList := by
    intro c hc
    refine List.forall_mem_map.mpr fun x hx => ⟨(chars_of_operand (hc.2 x hx)).1, ?_⟩
    exact not_mem_operand (hc.2 x hx) (by decide)
  have htexts := intercalate_inj ", " rfl (hparts hc) (hparts hc')
    (String.toList_inj.mp (List.append_cancel_right hargs))
  have hplain := plain_flatMap (plain_cons.mp hn).2
  have hplain' := plain_flatMap (plain_cons.mp hn').2
  have hsame := map_eq_of_map_eq id id (fun x hx y hy => operand_inj (hc.2 x hx) (hc'.2 y hy)
    (hplain x hx) (hplain' y hy)) htexts
  rw [List.map_id, List.map_id] at hsame
  rw [Call.unplaced, Call.unplaced, String.toList_inj.mp hname, hsame]

/-- Operators with the same text are the same. -/
theorem cpp_inj {op op' : BinaryOp} (h : op.cpp = op'.cpp) : op = op' := by
  have hall : ∀ op, op ∈ BinaryOp.all := by
    intro op
    cases op <;> decide
  have hnodup : (BinaryOp.all.map BinaryOp.cpp).Nodup := by decide
  exact List.inj_on_of_nodup_map hnodup (hall op) (hall op') h

/-- The operators and operands behind the first one. -/
theorem rest_inj {rest rest' : List (BinaryOp × Operand)}
    (hx : ∀ pair ∈ rest, pair.2.WellFormed ∧ Plain pair.2.names)
    (hy : ∀ pair ∈ rest', pair.2.WellFormed ∧ Plain pair.2.names)
    (h : (rest.flatMap fun pair => [Spelling.cpp.operator pair.1, pair.2.spell .cpp]) =
      rest'.flatMap fun pair => [Spelling.cpp.operator pair.1, pair.2.spell .cpp]) :
    rest = rest' := by
  -- pair by pair
  induction rest generalizing rest' with
  | nil =>
    cases rest' with
    | nil => rfl
    | cons pair rest' => cases h
  | cons pair rest ih =>
    cases rest' with
    | nil => cases h
    | cons pair' rest' =>
      obtain ⟨hpair, hrest⟩ := List.forall_mem_cons.mp hx
      obtain ⟨hpair', hrest'⟩ := List.forall_mem_cons.mp hy
      simp only [List.flatMap_cons, List.cons_append, List.nil_append, List.cons.injEq] at h
      obtain ⟨hop, hoperand, hmore⟩ := h
      have hsame : pair = pair' :=
        Prod.ext (cpp_inj hop) (operand_inj hpair.1 hpair'.1 hpair.2 hpair'.2 hoperand)
      rw [hsame, ih hrest hrest' hmore]

/-- A part of an operation: it is not empty, it has no space and no parenthesis in it, and it is not
what a print statement has between its arguments. -/
structure IsPart (s : String) : Prop where
  nonempty : s.toList ≠ []
  space : ' ' ∉ s.toList
  parenthesis : '(' ∉ s.toList
  insertion : s ≠ "<<"

/-- An operand is a part. -/
theorem isPart_operand {x : Operand} (hx : x.WellFormed) : IsPart (x.spell .cpp) := by
  refine ⟨(chars_of_operand hx).1, not_mem_operand hx (by decide), not_mem_operand hx (by decide),
    fun heq => not_mem_operand hx (c := '<') (by decide) ?_⟩
  rw [heq]
  decide

/-- So is an operator; the operators do not include the one of a print statement. -/
theorem isPart_operator (op : BinaryOp) : IsPart op.cpp := by
  cases op <;> exact ⟨by decide, by decide, by decide, by decide⟩

/-- All parts of an operation are: the negation, the first operand, and the operators and operands
behind it. -/
theorem isPart_of_mem_parts {o : Operation} (ho : o.WellFormed) : ∀ s ∈ o.parts .cpp, IsPart s := by
  intro s hs
  rcases List.mem_append.mp hs with hs | hs
  · -- the sign of the negation, the first operand, and then operators and operands
    split_ifs at hs
    · cases List.mem_singleton.mp hs
      exact ⟨by decide, by decide, by decide, by decide⟩
    · cases hs
  · rcases List.mem_cons.mp hs with rfl | hs
    · exact isPart_operand ho.1
    · obtain ⟨⟨op, x⟩, hpair, hs⟩ := List.mem_flatMap.mp hs
      rcases List.mem_cons.mp hs with rfl | hs
      · exact isPart_operator op
      · cases List.mem_singleton.mp hs
        exact isPart_operand (ho.2 _ hpair)

/-- Operations with the same text are the same: they are cut at their spaces (`intercalate_inj`),
and their parts are compared one by one (`rest_inj`). -/
theorem operation_inj {o o' : Operation} (ho : o.WellFormed) (ho' : o'.WellFormed)
    (hn : Plain o.names) (hn' : Plain o'.names)
    (h : String.intercalate " " (o.parts .cpp) = String.intercalate " " (o'.parts .cpp)) :
    o = o' := by
  have hpart := fun {o : Operation} (ho : o.WellFormed) s (hs : s ∈ o.parts .cpp) =>
    And.intro (isPart_of_mem_parts ho s hs).nonempty (isPart_of_mem_parts ho s hs).space
  have hparts := intercalate_inj " " rfl (hpart ho) (hpart ho') h
  -- no operand is spelled like the negation
  have hnegation : ∀ {x : Operand}, x.WellFormed → Spelling.cpp.negation ≠ x.spell .cpp := by
    intro x hx heq
    refine not_mem_operand hx (c := '!') (by decide) ?_
    rw [← heq]
    decide
  obtain ⟨negated, first, rest⟩ := o
  obtain ⟨negated', first', rest'⟩ := o'
  obtain ⟨hfirst, hrest⟩ := plain_append.mp hn
  obtain ⟨hfirst', hrest'⟩ := plain_append.mp hn'
  have hsame : first.spell .cpp = first'.spell .cpp →
      (rest.flatMap fun pair => [Spelling.cpp.operator pair.1, pair.2.spell .cpp]) =
        (rest'.flatMap fun pair => [Spelling.cpp.operator pair.1, pair.2.spell .cpp]) →
      first = first' ∧ rest = rest' := fun hf hr =>
    ⟨operand_inj ho.1 ho'.1 hfirst hfirst' hf,
      rest_inj (fun pair hp => ⟨ho.2 pair hp, plain_flatMap hrest pair hp⟩)
        (fun pair hp => ⟨ho'.2 pair hp, plain_flatMap hrest' pair hp⟩) hr⟩
  -- the first part tells whether there is a negation
  cases negated with
  | false =>
    cases negated' with
    | false =>
      obtain ⟨hf, hr⟩ := List.cons.inj hparts
      obtain ⟨rfl, rfl⟩ := hsame hf hr
      rfl
    | true => exact absurd (List.cons.inj hparts).1.symm (hnegation ho.1)
  | true =>
    cases negated' with
    | false => exact absurd (List.cons.inj hparts).1 (hnegation ho'.1)
    | true =>
      obtain ⟨hf, hr⟩ := List.cons.inj (List.cons.inj hparts).2
      obtain ⟨rfl, rfl⟩ := hsame hf hr
      rfl

/-! ### Expressions and print statements -/

/-- A call has a parenthesis in its text. -/
theorem parenthesis_mem_call (c : Call) : '(' ∈ (c.spell .cpp).toList := by
  simp [Call.spell]

/-- An operation has none. -/
theorem parenthesis_not_mem_operation {o : Operation} (ho : o.WellFormed) :
    '(' ∉ (String.intercalate " " (o.parts .cpp)).toList :=
  not_mem_intercalate (by decide) fun s hs => (isPart_of_mem_parts ho s hs).parenthesis

/-- **Expressions with the same text are the same**, up to the position of a call. A parenthesis
tells a call from an operation, and then `call_inj` or `operation_inj` applies. -/
theorem expression_inj {e e' : Expr} (he : e.WellFormed) (he' : e'.WellFormed)
    (hn : Plain e.names) (hn' : Plain e'.names) (h : expression e = expression e') :
    e.unplaced = e'.unplaced := by
  cases e with
  | call c =>
    cases e' with
    | call c' => rw [Expr.unplaced, Expr.unplaced, call_inj he he' hn hn' h]
    | operation o =>
      -- a call has a parenthesis in it, and an operation has none
      have hmem := parenthesis_mem_call c
      rw [show c.spell .cpp = _ from h] at hmem
      exact absurd hmem (parenthesis_not_mem_operation he')
  | operation o =>
    cases e' with
    | call c =>
      have hmem := parenthesis_mem_call c
      rw [show c.spell .cpp = _ from h.symm] at hmem
      exact absurd hmem (parenthesis_not_mem_operation he)
    | operation o' => rw [operation_inj he he' hn hn' h]

/-- The words of a text, between its spaces. -/
def words (s : String) : List (List Char) := s.toList.splitOn ' '

/-- A text is found again from its words. -/
theorem words_inj {s t : String} (h : words s = words t) : s = t := by
  have hjoin := congrArg [' '].intercalate h
  rw [words, words, List.intercalate_splitOn, List.intercalate_splitOn] at hjoin
  exact String.toList_inj.mp hjoin

/-- The characters of a part are characters of the text. -/
theorem mem_of_mem_splitOn {c : Char} {text w : List Char} (hw : w ∈ text.splitOn c) :
    ∀ d ∈ w, d ∈ text := by
  induction text generalizing w with
  | nil =>
    rw [List.splitOn_nil, List.mem_singleton] at hw
    rw [hw]
    exact List.forall_mem_nil _
  | cons b text ih =>
    rw [List.splitOn_cons_eq_if_modifyHead] at hw
    obtain ⟨first, more, hsplit⟩ := List.exists_cons_of_ne_nil (List.splitOn_ne_nil c text)
    rw [hsplit] at hw ih
    -- the character ends a part, or is put before the first one
    split at hw
    · rcases List.mem_cons.mp hw with rfl | hw
      · exact List.forall_mem_nil _
      · exact fun d hd => List.mem_cons_of_mem b (ih hw d hd)
    · rcases List.mem_cons.mp hw with rfl | hw
      · refine List.forall_mem_cons.mpr ⟨List.mem_cons_self, fun d hd => ?_⟩
        exact List.mem_cons_of_mem b (ih List.mem_cons_self d hd)
      · exact fun d hd => List.mem_cons_of_mem b (ih (List.mem_cons_of_mem first hw) d hd)

/-- A call has no angle bracket in its text. -/
theorem less_not_mem_call {c : Call} (hc : c.WellFormed) : '<' ∉ (c.spell .cpp).toList := by
  have hargs : '<' ∉ (String.intercalate ", " (c.args.map (Operand.spell .cpp))).toList :=
    not_mem_intercalate (by decide) (List.forall_mem_map.mpr fun x hx =>
      not_mem_operand (hc.2 x hx) (by decide))
  simp only [Call.spell, String.toList_append, List.mem_append, not_or]
  exact ⟨⟨⟨not_mem_name hc.1 (by decide), by decide⟩, hargs⟩, by decide⟩

/-- No word of an expression is what a print statement has between its arguments. -/
theorem insertion_not_mem_words {e : Expr} (he : e.WellFormed) :
    "<<".toList ∉ words (expression e) := by
  intro hmem
  cases e with
  | call c => exact less_not_mem_call he (mem_of_mem_splitOn hmem '<' (by decide))
  | operation o =>
    have hparts := isPart_of_mem_parts he
    -- the words of an operation are its parts
    have hwords : words (String.intercalate " " (o.parts .cpp)) =
        (o.parts .cpp).map String.toList := by
      rw [words, String.toList_intercalate]
      refine List.splitOn_intercalate ' ' ?_ ?_
      · exact List.forall_mem_map.mpr fun s hs => (hparts s hs).space
      · simp [Operation.parts]
    rw [show words (expression (.operation o)) = _ from hwords] at hmem
    obtain ⟨s, hs, heq⟩ := List.mem_map.mp hmem
    exact (hparts s hs).insertion (String.toList_inj.mp heq)

/-- What comes behind the stream in a print statement. -/
def printed (args : List Expr) : String :=
  String.join (args.map fun e => expression e ++ " << ") ++ "std::endl;"

/-- The words of the first argument, those between it and the next, and the others. -/
theorem words_printed_cons (e : Expr) (args : List Expr) :
    words (printed (e :: args)) = words (expression e) ++ "<<".toList :: words (printed args) := by
  have htext : (printed (e :: args)).toList =
      (expression e).toList ++ ' ' :: ("<<".toList ++ ' ' :: (printed args).toList) := by
    simp [printed]
  have hinsertion : ' ' ∉ "<<".toList := by decide
  rw [words, htext, List.splitOn_append_cons_self,
    List.splitOn_append_cons_self_of_not_mem hinsertion]
  rfl

/-- **Print statements with the same text** print the same: the words of the first argument end
where `<<` stands (`insertion_not_mem_words`), and so on with the others. -/
theorem printText_inj {args args' : List Expr}
    (h : ∀ e ∈ args, e.WellFormed ∧ Plain e.names) (h' : ∀ e ∈ args', e.WellFormed ∧ Plain e.names)
    (htext : printText args = printText args') :
    args.map Expr.unplaced = args'.map Expr.unplaced := by
  have hprinted : words (printed args) = words (printed args') := by
    have hstream : ∀ args, (printText args).toList =
        "std::cout << ".toList ++ (printed args).toList := by
      intro args
      rw [printText, String.append_assoc, String.toList_append]
      rfl
    have hlist := congrArg String.toList htext
    rw [hstream, hstream] at hlist
    rw [words, words, List.append_cancel_left hlist]
  -- only where there is an argument there is something behind it
  have hcons : ∀ e args, "<<".toList ∈ words (printed (e :: args)) := by
    intro e args
    rw [words_printed_cons]
    exact List.mem_append_right _ List.mem_cons_self
  have hnil : "<<".toList ∉ words (printed []) := by decide
  clear htext
  induction args generalizing args' with
  | nil =>
    cases args' with
    | nil => rfl
    | cons e' args' => exact absurd (hprinted ▸ hcons e' args') hnil
  | cons e args ih =>
    cases args' with
    | nil => exact absurd (hprinted ▸ hcons e args) hnil
    | cons e' args' =>
      obtain ⟨he, hargs⟩ := List.forall_mem_cons.mp h
      obtain ⟨he', hargs'⟩ := List.forall_mem_cons.mp h'
      rw [words_printed_cons, words_printed_cons] at hprinted
      -- no argument has the word `<<` in it, so the first one ends at the first `<<`
      obtain ⟨hfirst, hmore⟩ := cut_inj (insertion_not_mem_words he.1)
        (insertion_not_mem_words he'.1) hprinted
      rw [List.map_cons, List.map_cons, ih hargs hargs' hmore,
        expression_inj he.1 he'.1 he.2 he'.2 (words_inj hfirst)]

/-! ### Headers -/

/-- Types with the same text are the same. -/
theorem text_inj {type type' : ValueType} (h : type.text = type'.text) : type = type' := by
  have hread : ∀ type : ValueType, ValueType.ofText? type.text = some type := by
    intro type
    cases type <;> decide
  have hsome := hread type
  rw [h, hread] at hsome
  exact (Option.some.inj hsome).symm

/-- The same of the types after an arrow, with `void` for none. -/
theorem returnType_inj {type type' : ReturnType} (h : type.cpp = type'.cpp) : type = type' := by
  -- the two kinds of return type share no word
  have hvoid : ∀ type : ValueType, type.text ≠ "void" := by
    intro type
    cases type <;> decide
  cases type with
  | value type =>
    cases type' with
    | value type' => rw [text_inj h]
    | nothing => exact absurd h (hvoid type)
  | nothing =>
    cases type' with
    | value type' => exact absurd h.symm (hvoid type')
    | nothing => rfl

/-- A type is a word by itself. -/
theorem space_not_mem_type (type : ValueType) :
    ' ' ∉ type.text.toList ∧ ',' ∉ type.text.toList := by
  cases type <;> decide

/-- Parameters with the same text are the same: the type ends at the space. -/
theorem param_inj {p p' : Param}
    (h : p.type.text ++ " " ++ p.name = p'.type.text ++ " " ++ p'.name) : p = p' := by
  have htext : ∀ p : Param, (p.type.text ++ " " ++ p.name).toList =
      p.type.text.toList ++ ' ' :: p.name.toList := by simp
  have hlist := congrArg String.toList h
  rw [htext, htext] at hlist
  -- the type goes up to the space
  obtain ⟨htype, hname⟩ := cut_inj (space_not_mem_type _).1 (space_not_mem_type _).1 hlist
  have hname' : p.name = p'.name := String.toList_inj.mp hname
  have htype' : p.type = p'.type := text_inj (String.toList_inj.mp htype)
  cases p
  cases p'
  cases hname'
  cases htype'
  rfl

/-- **Headers with the same text** are those of functions with the same name, parameters and return
type (`param_inj`, `returnType_inj`). -/
theorem header_inj {f f' : Function} (hf : f.Proper) (hf' : f'.Proper) (h : header f = header f') :
    f.name = f'.name ∧ f.params = f'.params ∧ f.returnType = f'.returnType := by
  have htext : ∀ f : Function, (header f).toList = f.returnType.cpp.toList ++ ' ' ::
      (f.name.toList ++ '(' :: ((String.intercalate ", "
        (f.params.map fun p => p.type.text ++ " " ++ p.name)).toList ++ [')'])) := by
    simp [header]
  have hspace : ∀ type : ReturnType, ' ' ∉ type.cpp.toList := by
    intro type
    cases type with
    | value type => exact (space_not_mem_type type).1
    | nothing => decide
  have hparts : ∀ {f : Function}, f.Proper → ∀ s ∈ f.params.map
      fun p => p.type.text ++ " " ++ p.name, s.toList ≠ [] ∧ ',' ∉ s.toList := by
    intro f hf
    refine List.forall_mem_map.mpr fun p hp => ⟨by simp, ?_⟩
    simp only [String.toList_append, List.mem_append, not_or]
    exact ⟨⟨(space_not_mem_type _).2, by decide⟩, not_mem_name (hf.params p hp) (by decide)⟩
  have hlist := congrArg String.toList h
  rw [htext, htext] at hlist
  -- the return type up to the space, the name up to the parenthesis, and the parameters
  obtain ⟨htype, hlist⟩ := cut_inj (hspace _) (hspace _) hlist
  obtain ⟨hname, hlist⟩ := cut_inj (not_mem_name hf.name (by decide))
    (not_mem_name hf'.name (by decide)) hlist
  have hparams := intercalate_inj ", " rfl (hparts hf) (hparts hf')
    (String.toList_inj.mp (List.append_cancel_right hlist))
  have hsame := map_eq_of_map_eq id id (fun p _ p' _ => param_inj) hparams
  rw [List.map_id, List.map_id] at hsame
  exact ⟨String.toList_inj.mp hname, hsame, returnType_inj (String.toList_inj.mp htype)⟩

end Cpp

end Offside
