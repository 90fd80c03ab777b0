import Offside.Program.Exchange
import Offside.Proofs.Json.Arrangement

/-!
# Exchanged structures

Tokens, programs and symbol tables are found again in their encodings, whatever the order of the
fields. Two things could be lost on the way, and are asked for: a number that is not finite is
printed as `null`, and a position is read as a word of 64 bits. What has neither is portable.

There is one lemma for each structure, from those of its parts. Statements are the only ones that
contain each other; they are decoded within a bound on their nesting.

* `Token.restores`, `Token.restores_list` — tokens, with values that carry no tag;
* `Stmt.restoresWithin` — statements, by induction over the tree;
* `Program.restores`, `SymbolTable.restores` — programs and symbol tables;
* `Program.restores_document` — a symbol table and a program together.
-/

namespace Offside

open Json (Restores Arranges)

/-! ### Single values -/

namespace Json

/-- A number that fits a word of 64 bits is found again. -/
theorem restores_nat {n : Nat} (h : n < UInt64.size) : Restores Json.nat Json.nat? n := by
  have hfits : (0 : Int) ≤ n ∧ (n : Int) < UInt64.size := by omega
  constructor
  · show -(UInt64.size : Int) ≤ 2 * (n : Int) ∧ (n : Int) < UInt64.size
    omega
  · intro f hf
    rw [Json.nat, hf.int, Json.nat?, if_pos hfits, Int.toNat_natCast]

/-- A signed word is found again. Its range lies within that of the integers that are printed as
they are. -/
theorem restores_int64 (n : Int64) : Restores (fun n => .int n.toInt) Json.int64? n := by
  have hlow := n.minValue_le_toInt
  have hhigh := n.toInt_le
  constructor
  · show -(UInt64.size : Int) ≤ 2 * n.toInt ∧ n.toInt < UInt64.size
    -- the limits as numbers
    have hmin : Int64.minValue.toInt = -9223372036854775808 := by decide
    have hmax : Int64.maxValue.toInt = 9223372036854775807 := by decide
    have hsize : (UInt64.size : Int) = 18446744073709551616 := rfl
    omega
  · intro f hf
    rw [hf.int, Json.int64?, if_pos ⟨hlow, hhigh⟩, Int64.ofInt_toInt]

/-- A truth value is found again. -/
theorem restores_bool (b : Bool) : Restores Json.bool Json.bool? b := by
  refine ⟨trivial, fun f hf => ?_⟩
  rw [hf.bool]
  rfl

/-- A text is found again. -/
theorem restores_str (s : String) : Restores Json.str Json.str? s := by
  refine ⟨trivial, fun f hf => ?_⟩
  rw [hf.str]
  rfl

/-- A case without contents, written as its name. -/
theorem restores_plain {α : Type} {name : α → String} {ofName? : String → Option α} (site : Site)
    {a : α} (h : ofName? (name a) = some a) :
    Restores (fun a => .str (name a)) (fun j => (j.plainVariant? site).bind ofName?) a := by
  refine ⟨trivial, fun f hf => ?_⟩
  rw [hf.str]
  exact h

end Json

/-- A position that fits words of 64 bits. -/
def Span.fits (s : Span) : Bool := s.line < UInt64.size && s.column < UInt64.size

/-- A position is found again by the names of its two fields (`Json.Arranges.record?`). -/
theorem Span.restores {s : Span} (h : s.fits = true) : Restores Span.toJson Span.ofJson? s := by
  obtain ⟨hline, hcolumn⟩ : s.line < UInt64.size ∧ s.column < UInt64.size := by
    simpa [Span.fits] using h
  have hline := Json.restores_nat hline
  have hcolumn := Json.restores_nat hcolumn
  -- the names differ and the parts can be printed; then the fields are looked up
  refine ⟨⟨by simp, hline.printable, hcolumn.printable, trivial⟩, fun f hf => ?_⟩
  rw [Span.ofJson?, Span.toJson, hf.record? (by simp)]
  simp [List.lookup_cons, Json.need?, hline.arranged hf, hcolumn.arranged hf]

/-! ### Tokens -/

namespace Token

/-- The kind of a token is written as its name, and no two have the same. -/
theorem Kind.restores (k : Kind) : Restores Kind.toJson Kind.ofJson? k :=
  Json.restores_plain .outer (by cases k <;> rfl)

/-- A number that is carried is finite. -/
def Value.isPortable : Value → Bool
  | .float x => x.isFinite
  | .int _ | .bool _ | .name _ => true

/-- A value carries no tag, so the forms are tried one after the other, and none that is tried
before takes the value for its own. -/
theorem Value.restores {v : Value} (h : v.isPortable = true) :
    Restores Value.toJson Value.ofJson? v := by
  cases v with
  | int n =>
    -- the integers that fit are tried before other numbers
    have hn := Json.restores_int64 n
    refine ⟨hn.printable, fun f hf => ?_⟩
    have hvalue := hn.arranged Json.arranges_id
    rw [Value.toJson, hf.int, Value.ofJson?, show Json.int64? (.int n.toInt) = some n from hvalue]
  | float x =>
    refine ⟨h, fun f hf => ?_⟩
    rw [Value.toJson, hf.float]
    rfl
  | bool b =>
    refine ⟨trivial, fun f hf => ?_⟩
    rw [Value.toJson, hf.bool]
    rfl
  | name s =>
    refine ⟨trivial, fun f hf => ?_⟩
    rw [Value.toJson, hf.str]
    rfl

/-- The number that is carried is finite, and the position fits. -/
def isPortable (t : Token) : Bool := t.value.all Value.isPortable && t.span.fits

/-- **A token is restored**; a value that is missing stays so. -/
theorem restores {t : Token} (h : t.isPortable = true) :
    Restores Token.toJson Token.ofJson? t := by
  obtain ⟨kind, value, span⟩ := t
  obtain ⟨hvalue, hspan⟩ := Bool.and_eq_true_iff.mp h
  have hkind := kind.restores
  have hspan := Span.restores hspan
  -- a value that is missing has no field at all
  cases value with
  | none =>
    refine ⟨⟨by simp, hkind.printable, hspan.printable, trivial⟩, fun f hf => ?_⟩
    rw [Token.toJson, Token.ofJson?, hf.record? (by simp)]
    simp [List.lookup_cons, Json.need?, Json.may?, hkind.arranged hf, hspan.arranged hf]
  | some v =>
    have hv := Value.restores hvalue
    have hsome : Restores (Json.ofOption Value.toJson) (Json.option? Value.ofJson?) (some v) :=
      .option (fun u hu => Option.some.inj hu ▸ hv) rfl
    refine ⟨⟨by simp, hkind.printable, hv.printable, hspan.printable, trivial⟩, fun f hf => ?_⟩
    -- the field is there only if there is a value, and is read as one that may be missing
    have hfield : Json.option? Value.ofJson? (f v.toJson) = some (some v) := hsome.arranged hf
    rw [Token.toJson, Token.ofJson?, hf.record? (by simp)]
    simp [List.lookup_cons, Json.need?, Json.may?, hkind.arranged hf, hspan.arranged hf, hfield]

/-- Tokens one after the other (`Token.restores`). -/
theorem restores_list {ts : List Token} (h : ts.all isPortable = true) :
    Restores (Json.ofList Token.toJson) (Json.list? Token.ofJson?) ts :=
  .list fun t ht => restores (List.all_eq_true.mp h t ht)

end Token

/-! ### Expressions -/

/-- A type is written as its name. -/
theorem ValueType.restores (site : Json.Site) (t : ValueType) :
    Restores ValueType.toJson (ValueType.ofJson? site) t :=
  Json.restores_plain site (by cases t <;> rfl)

/-- An operator is written as its name. -/
theorem BinaryOp.restores (site : Json.Site) (op : BinaryOp) :
    Restores BinaryOp.toJson (BinaryOp.ofJson? site) op :=
  Json.restores_plain site (by cases op <;> rfl)

/-- A type in a case of its own, or the case that there is none, which is written as a name only. -/
theorem ReturnType.restores (t : ReturnType) : Restores ReturnType.toJson ReturnType.ofJson? t := by
  cases t with
  | value type =>
    have htype := type.restores .outer
    refine ⟨⟨by simp, htype.printable, trivial⟩, fun f hf => ?_⟩
    rw [ReturnType.toJson, ReturnType.ofJson?, hf.variant?]
    simp [htype.arranged hf]
  | nothing =>
    refine ⟨trivial, fun f hf => ?_⟩
    rw [ReturnType.toJson, ReturnType.ofJson?, hf.variant?_str]
    rfl

/-- A number is finite. -/
def Literal.isPortable : Literal → Bool
  | .float x => x.isFinite
  | .int _ | .bool _ => true

/-- Literals carry a tag, unlike the values of tokens, and so their forms are not tried in turn. -/
theorem Literal.restores {l : Literal} (h : l.isPortable = true) :
    Restores Literal.toJson Literal.ofJson? l := by
  cases l with
  | int n =>
    have hn := Json.restores_int64 n
    refine ⟨⟨by simp, hn.printable, trivial⟩, fun f hf => ?_⟩
    have hvalue : Json.int64? (f (.int n.toInt)) = some n := hn.arranged hf
    rw [Literal.toJson, Literal.ofJson?, hf.variant?]
    simp [hvalue]
  | float x =>
    -- only for this one it matters that the number is finite
    refine ⟨⟨by simp, h, trivial⟩, fun f hf => ?_⟩
    rw [Literal.toJson, Literal.ofJson?, hf.variant?]
    simp [hf.float, Json.float?]
  | bool b =>
    refine ⟨⟨by simp, trivial, trivial⟩, fun f hf => ?_⟩
    rw [Literal.toJson, Literal.ofJson?, hf.variant?]
    simp [hf.bool, Json.bool?]

/-- A literal is, and a name always. -/
def Operand.isPortable : Operand → Bool
  | .name _ => true
  | .literal l => l.isPortable

/-- A name or a literal, each in a case of its own (`Literal.restores`). -/
theorem Operand.restores {x : Operand} (h : x.isPortable = true) :
    Restores Operand.toJson Operand.ofJson? x := by
  cases x with
  | name s =>
    refine ⟨⟨by simp, trivial, trivial⟩, fun f hf => ?_⟩
    rw [Operand.toJson, Operand.ofJson?, hf.variant?]
    simp [hf.str, Json.str?]
  | literal l =>
    have hl := Literal.restores h
    refine ⟨⟨by simp, hl.printable, trivial⟩, fun f hf => ?_⟩
    rw [Operand.toJson, Operand.ofJson?, hf.variant?]
    simp [hl.arranged hf]

/-- The arguments are, and the position fits. -/
def Call.isPortable (c : Call) : Bool := c.args.all Operand.isPortable && c.span.fits

/-- The fields of a call, which stand in an object by themselves or with others. -/
theorem Call.restores_fields {c : Call} (h : c.isPortable = true) :
    Json.PrintableMembers c.toFields ∧ ∀ f, Arranges f →
      Call.ofFields? [some (f (.str c.name)), some (f (.ofList Operand.toJson c.args)),
        some (f c.span.toJson)] = some c := by
  obtain ⟨hargs, hspan⟩ := Bool.and_eq_true_iff.mp h
  have hname := Json.restores_str c.name
  have hargs := Restores.list fun x hx => Operand.restores (List.all_eq_true.mp hargs x hx)
  have hspan := Span.restores hspan
  refine ⟨⟨trivial, hargs.printable, hspan.printable, trivial⟩, fun f hf => ?_⟩
  simp [Call.ofFields?, Json.need?, hname.arranged hf, hargs.arranged hf, hspan.arranged hf]

/-- All operands are. -/
def Operation.isPortable (o : Operation) : Bool :=
  o.first.isPortable && o.rest.all fun pair => pair.2.isPortable

/-- An operator and its operand are written as a pair, not as an object. -/
theorem BinaryOp.restores_pair (site : Json.Site) {pair : BinaryOp × Operand}
    (h : pair.2.isPortable = true) :
    Restores BinaryOp.pairToJson (BinaryOp.pairOfJson? site) pair := by
  have hop := pair.1.restores site
  have hx := Operand.restores h
  refine ⟨⟨hop.printable, hx.printable, trivial⟩, fun f hf => ?_⟩
  rw [BinaryOp.pairToJson, hf.arr]
  simp [BinaryOp.pairOfJson?, hop.arranged hf, hx.arranged hf]

/-- The sign in front, the first operand and the pairs after it (`BinaryOp.restores_pair`). -/
theorem Operation.restores (site : Json.Site) {o : Operation} (h : o.isPortable = true) :
    Restores Operation.toJson (Operation.ofJson? site) o := by
  obtain ⟨hfirst, hrest⟩ := Bool.and_eq_true_iff.mp h
  have hnegated := Json.restores_bool o.negated
  have hfirst := Operand.restores hfirst
  have hrest := Restores.list fun pair hpair =>
    BinaryOp.restores_pair site (List.all_eq_true.mp hrest pair hpair)
  refine ⟨⟨by simp, trivial, hfirst.printable, hrest.printable, trivial⟩, fun f hf => ?_⟩
  rw [Operation.toJson, Operation.ofJson?, hf.record? (by simp)]
  simp [List.lookup_cons, Json.need?, hnegated.arranged hf, hfirst.arranged hf, hrest.arranged hf]

/-- The call or the operands are. -/
def Expr.isPortable : Expr → Bool
  | .call c => c.isPortable
  | .operation o => o.isPortable

/-- A call has its fields in an object by themselves (`Call.restores_fields`); all else is one
operation (`Operation.restores`). -/
theorem Expr.restores (site : Json.Site) {e : Expr} (h : e.isPortable = true) :
    Restores Expr.toJson (Expr.ofJson? site) e := by
  cases e with
  | call c =>
    obtain ⟨hprintable, hfields⟩ := Call.restores_fields h
    have hnames : (c.toFields.map Prod.fst).Nodup := by simp [Call.toFields]
    refine ⟨⟨by simp, ⟨hnames, hprintable⟩, trivial⟩, fun f hf => ?_⟩
    -- a call is an object of its own here, inside the variant
    have hcall : Call.ofJson? (f (.obj c.toFields)) = some c := by
      rw [Call.ofJson?, hf.record? hnames]
      exact hfields f hf
    rw [Expr.toJson, Expr.ofJson?, hf.variant?]
    simp [hcall]
  | operation o =>
    have ho := Operation.restores site h
    refine ⟨⟨by simp, ho.printable, trivial⟩, fun f hf => ?_⟩
    rw [Expr.toJson, Expr.ofJson?, hf.variant?]
    simp [ho.arranged hf]

/-! ### Statements -/

mutual

/-- All numbers are finite, and all positions fit. -/
def Stmt.isPortable : Stmt → Bool
  | .assign _ _ value span => value.isPortable && span.fits
  | .declare _ _ span => span.fits
  | .giveBack value span => value.all Expr.isPortable && span.fits
  | .loop condition body span => condition.isPortable && Stmt.isPortableBlock body && span.fits
  | .choose bs none span => Stmt.isPortableBranches bs && span.fits
  | .choose bs (some body) span =>
    Stmt.isPortableBranches bs && Stmt.isPortableBlock body && span.fits
  | .print args span => args.all Expr.isPortable && span.fits
  | .call c => c.isPortable

def Stmt.isPortableBlock : List Stmt → Bool
  | [] => true
  | s :: ss => s.isPortable && Stmt.isPortableBlock ss

def Stmt.isPortableBranches : List Branch → Bool
  | [] => true
  | .mk condition body span :: bs =>
    condition.isPortable && Stmt.isPortableBlock body && span.fits && Stmt.isPortableBranches bs

end

/-- A block is portable if its statements are. -/
theorem Stmt.isPortableBlock_eq (ss : List Stmt) :
    Stmt.isPortableBlock ss = ss.all Stmt.isPortable := by
  induction ss with
  | nil => rfl
  | cons s ss ih => rw [Stmt.isPortableBlock, ih, List.all_cons]

/-- A block is written as the list of its statements. -/
theorem Stmt.blockToJson_eq (ss : List Stmt) : Stmt.blockToJson ss = ss.map Stmt.toJson := by
  induction ss with
  | nil => rfl
  | cons s ss ih => rw [Stmt.blockToJson, ih, List.map_cons]

/-- The kind of a statement is found wherever it stands. -/
theorem Stmt.tagged?_eq {f : Json → Json} (hf : Arranges f) (site : Json.Site)
    {fields : List (String × Json)} (hnames : (fields.map Prod.fst).Nodup) {tag : String}
    (htag : fields.lookup "stmt" = some (.str tag)) :
    Stmt.tagged? site (f (.obj fields)) = some (tag, f (.obj fields)) := by
  -- the fields come in some other order, and what is looked up by name is the same
  obtain ⟨fields', hobj, hperm⟩ := hf.obj fields
  rw [hobj, Stmt.tagged?, Json.Arranges.lookup_eq hnames hperm, htag, Option.map_some, hf.str]
  rfl

/-- **A rearranged statement is decoded from its rearranged fields**: its kind is found
(`Stmt.tagged?_eq`), and then the fields that go with the kind (`Json.Arranges.record?`). -/
theorem Stmt.ofJsonWithin?_eq {f : Json → Json} (hf : Arranges f) (bound : Nat) (site : Json.Site)
    {tag : String} {fields : List (String × Json)}
    (hnames : ((("stmt", Json.str tag) :: fields).map Prod.fst).Nodup) :
    Stmt.ofJsonWithin? (bound + 1) site (f (.obj (("stmt", .str tag) :: fields))) =
      Stmt.ofFields? (Json.list? (Stmt.ofJsonWithin? bound .inner))
        (Json.list? (Branch.ofJsonWithin? bound)) tag ((Stmt.fieldNames tag).map fun name =>
          ((("stmt", Json.str tag) :: fields).lookup name).map f) := by
  -- first the tag is found, wherever it stands, and then the fields of that kind of statement
  rw [Stmt.ofJsonWithin?, Stmt.tagged?_eq hf site hnames rfl]
  simp only [Option.bind_eq_bind, Option.bind_some]
  rw [hf.record? hnames, Option.bind_some]

/-- **A tree is restored** by a decoder that takes a bound on the nesting. -/
structure Json.RestoresWithin {α : Type} (j : Json) (decode : Nat → Json → Option α) (a : α) :
    Prop where
  printable : j.Printable
  arranged : ∀ ⦃f : Json → Json⦄, Arranges f → ∀ ⦃bound : Nat⦄, j.depth < bound →
    decode bound (f j) = some a

namespace Json.RestoresWithin

variable {α : Type} {decode : Nat → Json → Option α}

/-- One level of the nesting is for the object itself. -/
theorem obj {fields : List (String × Json)} {a : α} (h : (Json.obj fields).Printable)
    (hdecode : ∀ f : Json → Json, Arranges f → ∀ bound, depthMembers fields < bound →
      decode (bound + 1) (f (.obj fields)) = some a) : RestoresWithin (.obj fields) decode a := by
  refine ⟨h, fun f hf bound hdepth => ?_⟩
  -- an object is deeper than nothing, so the bound is not zero
  obtain ⟨n, rfl⟩ : ∃ n, bound = n + 1 := Nat.exists_eq_succ_of_ne_zero (Nat.ne_zero_of_lt hdepth)
  exact hdecode f hf n (Nat.lt_of_succ_lt_succ hdepth)

/-- The empty list needs no level. -/
theorem nil : RestoresWithin (.arr []) (fun bound => list? (decode bound)) [] := by
  refine ⟨trivial, fun f hf bound _ => ?_⟩
  rw [hf.arr]
  rfl

/-- A list is restored item by item; each item lies as deep in the list as it is deep, and the bound
is the same for all. -/
theorem cons {j : Json} {js : List Json} {a : α} {as : List α} (h : RestoresWithin j decode a)
    (hs : RestoresWithin (.arr js) (fun bound => list? (decode bound)) as) :
    RestoresWithin (.arr (j :: js)) (fun bound => list? (decode bound)) (a :: as) := by
  refine ⟨⟨h.printable, hs.printable⟩, fun f hf bound hdepth => ?_⟩
  -- neither is deeper than the list is
  have hless : j.depth < bound ∧ (Json.arr js).depth < bound := by
    simp only [depth, depthItems] at hdepth ⊢
    omega
  have hitems := hs.arranged hf hless.2
  rw [hf.arr] at hitems ⊢
  show ((j :: js).map f).mapM (decode bound) = some (a :: as)
  rw [List.map_cons, List.mapM_cons, h.arranged hf hless.1,
    show (js.map f).mapM (decode bound) = some as from hitems]
  rfl

end Json.RestoresWithin

open Json (RestoresWithin)

mutual

/-- **A statement is restored**, whatever the order of its fields and of those inside of it. For
each form the fields are found by name (`Stmt.ofJsonWithin?_eq`), and their contents are restored by
the lemmas above or, where they are statements again, by the two lemmas below, within a bound of one
less. -/
theorem Stmt.restoresWithin (site : Json.Site) : ∀ s : Stmt, s.isPortable = true →
    RestoresWithin s.toJson (fun bound => Stmt.ofJsonWithin? bound site) s
  | .assign target type value span, h => by
    obtain ⟨hvalue, hspan⟩ := Bool.and_eq_true_iff.mp h
    have htarget := Json.restores_str target
    have htype : Restores (Json.ofOption ValueType.toJson)
        (Json.option? (ValueType.ofJson? .inner)) type :=
      .option (fun t _ => t.restores .inner) rfl
    have hvalue := Expr.restores .inner hvalue
    have hspan := Span.restores hspan
    rw [Stmt.toJson]
    refine .obj ⟨by simp, trivial, trivial, htype.printable, hvalue.printable, hspan.printable,
      trivial⟩ fun f hf bound _ => ?_
    rw [Stmt.ofJsonWithin?_eq hf bound site (by simp)]
    simp [Stmt.fieldNames, Stmt.ofFields?, List.lookup_cons, Json.need?, Json.may?,
      htarget.arranged hf, htype.arranged hf, hvalue.arranged hf, hspan.arranged hf]
  | .declare name type span, h => by
    have hname := Json.restores_str name
    have htype := type.restores .inner
    have hspan := Span.restores h
    rw [Stmt.toJson]
    refine .obj ⟨by simp, trivial, trivial, htype.printable, hspan.printable, trivial⟩
      fun f hf bound _ => ?_
    rw [Stmt.ofJsonWithin?_eq hf bound site (by simp)]
    simp [Stmt.fieldNames, Stmt.ofFields?, List.lookup_cons, Json.need?, hname.arranged hf,
      htype.arranged hf, hspan.arranged hf]
  | .giveBack value span, h => by
    obtain ⟨hvalue, hspan⟩ := Bool.and_eq_true_iff.mp h
    have hvalue : Restores (Json.ofOption Expr.toJson) (Json.option? (Expr.ofJson? .inner)) value :=
      .option (fun e he => Expr.restores .inner (by rwa [Option.mem_def.mp he] at hvalue)) rfl
    have hspan := Span.restores hspan
    rw [Stmt.toJson]
    refine .obj ⟨by simp, trivial, hvalue.printable, hspan.printable, trivial⟩
      fun f hf bound _ => ?_
    rw [Stmt.ofJsonWithin?_eq hf bound site (by simp)]
    simp [Stmt.fieldNames, Stmt.ofFields?, List.lookup_cons, Json.need?, Json.may?,
      hvalue.arranged hf, hspan.arranged hf]
  | .loop condition body span, h => by
    obtain ⟨hinner, hspan⟩ := Bool.and_eq_true_iff.mp h
    obtain ⟨hcondition, hbody⟩ := Bool.and_eq_true_iff.mp hinner
    have hcondition := Expr.restores .inner hcondition
    have hbody := Stmt.block_restoresWithin body hbody
    have hspan := Span.restores hspan
    rw [Stmt.toJson]
    refine .obj ⟨by simp, trivial, hcondition.printable, hbody.printable, hspan.printable, trivial⟩
      fun f hf bound hdepth => ?_
    -- the block lies in a field, one level down
    have hless : (Json.arr (Stmt.blockToJson body)).depth < bound := by
      simp only [Json.depth, Json.depthMembers] at hdepth ⊢
      omega
    rw [Stmt.ofJsonWithin?_eq hf bound site (by simp)]
    simp [Stmt.fieldNames, Stmt.ofFields?, List.lookup_cons, Json.need?, hcondition.arranged hf,
      hbody.arranged hf hless, hspan.arranged hf]
  | .choose bs none span, h => by
    obtain ⟨hbs, hspan⟩ := Bool.and_eq_true_iff.mp h
    have hbs := Stmt.branches_restoresWithin bs hbs
    have hspan := Span.restores hspan
    rw [Stmt.toJson]
    refine .obj ⟨by simp, trivial, hbs.printable, trivial, hspan.printable, trivial⟩
      fun f hf bound hdepth => ?_
    have hless : (Json.arr (Stmt.branchesToJson bs)).depth < bound := by
      simp only [Json.depth, Json.depthMembers] at hdepth ⊢
      omega
    rw [Stmt.ofJsonWithin?_eq hf bound site (by simp)]
    simp [Stmt.fieldNames, Stmt.ofFields?, List.lookup_cons, Json.need?, Json.may?, Json.option?,
      hf.null, hbs.arranged hf hless, hspan.arranged hf]
  | .choose bs (some body) span, h => by
    obtain ⟨hinner, hspan⟩ := Bool.and_eq_true_iff.mp h
    obtain ⟨hbs, hbody⟩ := Bool.and_eq_true_iff.mp hinner
    have hbs := Stmt.branches_restoresWithin bs hbs
    have hbody := Stmt.block_restoresWithin body hbody
    have hspan := Span.restores hspan
    rw [Stmt.toJson]
    refine .obj ⟨by simp, trivial, hbs.printable, hbody.printable, hspan.printable, trivial⟩
      fun f hf bound hdepth => ?_
    have hless : (Json.arr (Stmt.branchesToJson bs)).depth < bound ∧
        (Json.arr (Stmt.blockToJson body)).depth < bound := by
      simp only [Json.depth, Json.depthMembers] at hdepth ⊢
      omega
    -- the last block is a value that may be missing
    have hlast : Json.option? (Json.list? (Stmt.ofJsonWithin? bound .inner))
        (f (.arr (Stmt.blockToJson body))) = some (some body) := by
      have hvalue := hbody.arranged hf hless.2
      rw [hf.arr] at hvalue ⊢
      exact congrArg (Option.map some) hvalue
    rw [Stmt.ofJsonWithin?_eq hf bound site (by simp)]
    simp [Stmt.fieldNames, Stmt.ofFields?, List.lookup_cons, Json.need?, Json.may?, hbs.arranged
      hf hless.1, hlast, hspan.arranged hf]
  | .print args span, h => by
    obtain ⟨hargs, hspan⟩ := Bool.and_eq_true_iff.mp h
    have hargs := Restores.list fun e he =>
      Expr.restores .inner (List.all_eq_true.mp hargs e he)
    have hspan := Span.restores hspan
    rw [Stmt.toJson]
    refine .obj ⟨by simp, trivial, hargs.printable, hspan.printable, trivial⟩
      fun f hf bound _ => ?_
    rw [Stmt.ofJsonWithin?_eq hf bound site (by simp)]
    simp [Stmt.fieldNames, Stmt.ofFields?, List.lookup_cons, Json.need?, hargs.arranged hf,
      hspan.arranged hf]
  | .call c, h => by
    -- the fields of a call stand next to the kind, in the object of the statement
    obtain ⟨hprintable, hfields⟩ := Call.restores_fields h
    have hnames : ((("stmt", Json.str "call") :: c.toFields).map Prod.fst).Nodup := by
      simp [Call.toFields]
    rw [Stmt.toJson]
    refine .obj ⟨hnames, trivial, hprintable⟩ fun f hf bound _ => ?_
    rw [Stmt.ofJsonWithin?_eq hf bound site hnames]
    exact congrArg (Option.map Stmt.call) (hfields f hf)

/-- The statements of a block, one after the other. -/
theorem Stmt.block_restoresWithin : ∀ ss : List Stmt, Stmt.isPortableBlock ss = true →
    RestoresWithin (.arr (Stmt.blockToJson ss))
      (fun bound => Json.list? (Stmt.ofJsonWithin? bound .inner)) ss
  | [], _ => .nil
  | s :: ss, h => by
    obtain ⟨hs, hss⟩ := Bool.and_eq_true_iff.mp h
    exact .cons (Stmt.restoresWithin .inner s hs) (Stmt.block_restoresWithin ss hss)

/-- The branches of a conditional; each is an object with its own block in it. -/
theorem Stmt.branches_restoresWithin : ∀ bs : List Branch, Stmt.isPortableBranches bs = true →
    RestoresWithin (.arr (Stmt.branchesToJson bs))
      (fun bound => Json.list? (Branch.ofJsonWithin? bound)) bs
  | [], _ => .nil
  | .mk condition body span :: bs, h => by
    obtain ⟨hbranch, hbs⟩ := Bool.and_eq_true_iff.mp h
    obtain ⟨hinner, hspan⟩ := Bool.and_eq_true_iff.mp hbranch
    obtain ⟨hcondition, hbody⟩ := Bool.and_eq_true_iff.mp hinner
    have hcondition := Expr.restores .inner hcondition
    have hbody := Stmt.block_restoresWithin body hbody
    have hspan := Span.restores hspan
    refine .cons ?_ (Stmt.branches_restoresWithin bs hbs)
    refine .obj ⟨by simp, hcondition.printable, hbody.printable, hspan.printable, trivial⟩
      fun f hf bound hdepth => ?_
    -- the body is in a field, one level below the branch
    have hless : (Json.arr (Stmt.blockToJson body)).depth < bound := by
      simp only [Json.depth, Json.depthMembers] at hdepth ⊢
      omega
    rw [Branch.ofJsonWithin?, hf.record? (by simp)]
    simp [List.lookup_cons, Json.need?, hcondition.arranged hf, hbody.arranged hf hless,
      hspan.arranged hf]

end

/-! ### Programs and symbol tables -/

/-- Decoding takes the depth of what it is given as the bound, and rearranging does not change the
depth (`Json.Arranges.depth_eq`). -/
theorem Stmt.restores {s : Stmt} (h : s.isPortable = true) :
    Restores Stmt.toJson Stmt.ofJson? s := by
  have hs := Stmt.restoresWithin .outer s h
  refine ⟨hs.printable, fun f hf => ?_⟩
  have hdepth : s.toJson.depth < (f s.toJson).depth + 1 := by
    rw [hf.depth_eq]
    exact Nat.lt_succ_self _
  exact hs.arranged hf hdepth

/-- A block of statements outside of any statement, item by item. -/
theorem Stmt.restores_block {ss : List Stmt} (h : Stmt.isPortableBlock ss = true) :
    Restores (fun ss => .arr (Stmt.blockToJson ss)) (Json.list? Stmt.ofJson?) ss := by
  rw [Stmt.isPortableBlock_eq] at h
  have hss := Restores.list fun s hs => Stmt.restores (List.all_eq_true.mp h s hs)
  have hencode : (fun ss => .arr (Stmt.blockToJson ss)) = Json.ofList Stmt.toJson := by
    funext ss
    rw [Stmt.blockToJson_eq, Json.ofList]
  rwa [hencode]

/-- A parameter: a name and a type. -/
theorem Param.restores (p : Param) : Restores Param.toJson Param.ofJson? p := by
  have hname := Json.restores_str p.name
  have htype := p.type.restores .outer
  refine ⟨⟨by simp, trivial, htype.printable, trivial⟩, fun f hf => ?_⟩
  rw [Param.toJson, Param.ofJson?, hf.record? (by simp)]
  simp [List.lookup_cons, Json.need?, hname.arranged hf, htype.arranged hf]

/-- The body is, and the position fits. -/
def Function.isPortable (f : Function) : Bool := Stmt.isPortableBlock f.body && f.span.fits

/-- A function, from its parameters (`Param.restores`), its type (`ReturnType.restores`) and its
body (`Stmt.restores_block`). -/
theorem Function.restores {g : Function} (h : g.isPortable = true) :
    Restores Function.toJson Function.ofJson? g := by
  obtain ⟨hbody, hspan⟩ := Bool.and_eq_true_iff.mp h
  have hname := Json.restores_str g.name
  have hparams := Restores.list fun p (_ : p ∈ g.params) => p.restores
  have htype := g.returnType.restores
  have hbody := Stmt.restores_block hbody
  have hspan := Span.restores hspan
  refine ⟨⟨by simp, trivial, hparams.printable, htype.printable, hbody.printable, hspan.printable,
    trivial⟩, fun f hf => ?_⟩
  rw [Function.toJson, Function.ofJson?, hf.record? (by simp)]
  -- each field is found by its name, in whatever place it is
  simp [List.lookup_cons, Json.need?, hname.arranged hf, hparams.arranged hf, htype.arranged hf,
    hbody.arranged hf, hspan.arranged hf]

/-- **A program that can be exchanged**: all its numbers are finite, and all its positions fit. -/
def Program.isPortable (p : Program) : Bool :=
  p.functions.all Function.isPortable && Stmt.isPortableBlock p.body

/-- **A program is restored**, from its functions (`Function.restores`) and its statements. -/
theorem Program.restores {p : Program} (h : p.isPortable = true) :
    Restores Program.toJson Program.ofJson? p := by
  obtain ⟨hfunctions, hbody⟩ := Bool.and_eq_true_iff.mp h
  have hfunctions := Restores.list fun g hg =>
    Function.restores (List.all_eq_true.mp hfunctions g hg)
  have hbody := Stmt.restores_block hbody
  refine ⟨⟨by simp, hfunctions.printable, hbody.printable, trivial⟩, fun f hf => ?_⟩
  rw [Program.toJson, Program.ofJson?, hf.record? (by simp)]
  simp [List.lookup_cons, Json.need?, hfunctions.arranged hf, hbody.arranged hf]

/-- A variable of a table: name, type and position. -/
theorem Symbol.restores {s : Symbol} (h : s.span.fits = true) :
    Restores Symbol.toJson Symbol.ofJson? s := by
  have hname := Json.restores_str s.name
  have htype := s.type.restores .outer
  have hspan := Span.restores h
  refine ⟨⟨by simp, trivial, htype.printable, hspan.printable, trivial⟩, fun f hf => ?_⟩
  rw [Symbol.toJson, Symbol.ofJson?, hf.record? (by simp)]
  simp [List.lookup_cons, Json.need?, hname.arranged hf, htype.arranged hf, hspan.arranged hf]

/-- The positions of the variables fit. -/
def Scope.isPortable (s : Scope) : Bool := s.symbols.all fun symbol => symbol.span.fits

/-- A scope: its name and its variables, in their order. -/
theorem Scope.restores {s : Scope} (h : s.isPortable = true) :
    Restores Scope.toJson Scope.ofJson? s := by
  have hname := Json.restores_str s.name
  have hsymbols := Restores.list fun symbol hsymbol =>
    Symbol.restores (List.all_eq_true.mp h symbol hsymbol)
  refine ⟨⟨by simp, trivial, hsymbols.printable, trivial⟩, fun f hf => ?_⟩
  rw [Scope.toJson, Scope.ofJson?, hf.record? (by simp)]
  simp [List.lookup_cons, Json.need?, hname.arranged hf, hsymbols.arranged hf]

/-- All scopes are. -/
def SymbolTable.isPortable (t : SymbolTable) : Bool := t.scopes.all Scope.isPortable

/-- **A symbol table is restored**, scope by scope (`Scope.restores`). -/
theorem SymbolTable.restores {t : SymbolTable} (h : t.isPortable = true) :
    Restores SymbolTable.toJson SymbolTable.ofJson? t := by
  have hscopes := Restores.list fun scope hscope =>
    Scope.restores (List.all_eq_true.mp h scope hscope)
  refine ⟨⟨by simp, hscopes.printable, trivial⟩, fun f hf => ?_⟩
  rw [SymbolTable.toJson, SymbolTable.ofJson?, hf.record? (by simp)]
  simp [List.lookup_cons, Json.need?, hscopes.arranged hf]

/-- A symbol table and a program from one JSON value. -/
def Program.ofDocument? (j : Json) : Option (SymbolTable × Program) := do
  match ← j.record? ["symbols", "program"] with
  | [symbols, program] =>
    return (← Json.need? SymbolTable.ofJson? symbols, ← Json.need? Program.ofJson? program)
  | _ => none

/-- Both together are restored, from `SymbolTable.restores` and `Program.restores`. -/
theorem Program.restores_document {t : SymbolTable} {p : Program} (ht : t.isPortable = true)
    (hp : p.isPortable = true) :
    Restores (fun pair => Program.document pair.1 pair.2) Program.ofDocument? (t, p) := by
  have ht := SymbolTable.restores ht
  have hp := Program.restores hp
  refine ⟨⟨by simp, ht.printable, hp.printable, trivial⟩, fun f hf => ?_⟩
  rw [Program.document, Program.ofDocument?, hf.record? (by simp)]
  simp [List.lookup_cons, Json.need?, ht.arranged hf, hp.arranged hf]

end Offside
