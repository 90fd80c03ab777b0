import Offside.Proofs.RoundTrip.Text

/-!
# The words of a program

Between the text of a program and its tree stand its tokens. What they are, positions apart, is said
here: the **words** of each clause, and between the clauses the words of the layout.

* `Clause.words` — the words of a clause;
* `Row.following` — the words of the rows that follow a row of some depth;
* `Row.resumed` — the words that are left behind a statement of some depth: no line break is among
  them if there is a row of that depth to go on with.
-/

namespace Offside

namespace Token

/-- What a token is, apart from its position. -/
abbrev Word := Kind × Option Value

/-- The word of a token. -/
def word (t : Token) : Word := (t.kind, t.value)

/-- A word that carries no value. -/
abbrev Word.plain (kind : Kind) : Word := (kind, none)

/-- The word of a name. -/
abbrev Word.name (s : String) : Word := (.identifier, some (.name s))

end Token

open Token

/-- The kind of the word that names the type. -/
def ValueType.kind : ValueType → Kind
  | .int => .intWord
  | .float => .floatWord
  | .bool => .boolWord

/-- The parser reads the type back from the word for it. -/
theorem ValueType.ofKind?_kind (type : ValueType) : ofKind? type.kind = some type := by
  cases type <;> rfl

/-- The kind of the word that names the return type. -/
def ReturnType.kind : ReturnType → Kind
  | .value type => type.kind
  | .nothing => .noneWord

/-- The same for a return type, where `None` is a word too. -/
theorem ReturnType.ofKind?_kind (type : ReturnType) : ofKind? type.kind = some type := by
  rcases type with (_ | _ | _) | _ <;> rfl

/-- The kind of the word for the operator. -/
def BinaryOp.kind : BinaryOp → Kind
  | .add => .plus
  | .sub => .minus
  | .mul => .star
  | .div => .slash
  | .mod => .percent
  | .and => .andWord
  | .or => .orWord
  | .eq => .equal
  | .ne => .notEqual
  | .lt => .less
  | .le => .lessEqual
  | .gt => .greater
  | .ge => .greaterEqual

/-- The parser reads the operator back from the word for it. -/
theorem BinaryOp.ofKind?_kind (op : BinaryOp) : ofKind? op.kind = some op := by
  cases op <;> rfl

/-! ### Words of a clause -/

/-- The word of an operand. -/
def Operand.word (x : Operand) : Word := (x.kind, some x.value)

/-- The words of some items with commas between them. -/
def separatedWords (items : List (List Word)) : List Word :=
  [Word.plain .comma].intercalate items

/-- The words of a call. -/
def Call.words (c : Call) : List Word :=
  .name c.name :: .plain .leftParen ::
    (separatedWords (c.args.map fun x => [x.word]) ++ [.plain .rightParen])

/-- The words of operators, each with the operand after it. -/
def operationWords (rest : List (BinaryOp × Operand)) : List Word :=
  rest.flatMap fun pair => [.plain pair.1.kind, pair.2.word]

/-- The words of an operation, with the negation before the first operand. -/
def Operation.words (o : Operation) : List Word :=
  (if o.negated then [.plain .notWord] else []) ++ o.first.word :: operationWords o.rest

/-- The words of an expression. -/
def Expr.words : Expr → List Word
  | .call c => c.words
  | .operation o => o.words

/-- The words of a parameter. -/
def Param.words (p : Param) : List Word := [.name p.name, .plain .colon, .plain p.type.kind]

/-- **The words of a clause.** -/
def Clause.words : Clause → List Word
  | .assign target none value => .name target :: .plain .assign :: value.words
  | .assign target (some type) value =>
    .name target :: .plain .colon :: .plain type.kind :: .plain .assign :: value.words
  | .declare name type => [.name name, .plain .colon, .plain type.kind]
  | .giveBack none => [.plain .returnWord]
  | .giveBack (some value) => .plain .returnWord :: value.words
  | .print args =>
    .plain .printWord :: .plain .leftParen ::
      (separatedWords (args.map Expr.words) ++ [.plain .rightParen])
  | .call c => c.words
  | .loop condition => .plain .whileWord :: (condition.words ++ [.plain .colon])
  | .choose condition => .plain .ifWord :: (condition.words ++ [.plain .colon])
  | .chooseNext condition => .plain .elifWord :: (condition.words ++ [.plain .colon])
  | .otherwise => [.plain .elseWord, .plain .colon]
  | .define name params returnType =>
    .plain .defWord :: .name name :: .plain .leftParen ::
      (separatedWords (params.map Param.words) ++ [.plain .rightParen]) ++
        [.plain .arrow, .plain returnType.kind, .plain .colon]

/-! ### Words of the layout -/

namespace Row

/-- The words between a row of one depth and a row of another. -/
def stepWords (depth next : Nat) : List Word :=
  if depth < next then [.plain .indent]
  else if next < depth then List.replicate (depth - next) (.plain .dedent)
  else [.plain .newline]

/-- **The words of the rows that follow a row** of some depth. -/
def following : Nat → List Row → List Word
  | depth, [] => List.replicate depth (.plain .dedent)
  | depth, r :: rs => stepWords depth r.depth ++ (r.clause.words ++ following r.depth rs)

/-- **The words that are left behind a statement** of some depth. The line break before a row of the
same depth belongs to the statement. -/
def resumed (depth : Nat) : List Row → List Word
  | [] => following depth []
  | r :: rs =>
    if r.depth = depth then r.clause.words ++ following depth rs else following depth (r :: rs)

/-- Rows stand at most so deep at their beginning. -/
def Within (depth : Nat) (rows : List Row) : Prop := ∀ r ∈ rows.head?, r.depth ≤ depth

/-- A deeper bound is a bound as well. -/
theorem Within.mono {depth depth' : Nat} {rows : List Row} (h : Within depth rows)
    (hle : depth ≤ depth') : Within depth' rows := fun r hr => (h r hr).trans hle

/-- Behind a row of the same depth the line break is already gone. -/
theorem resumed_cons {depth : Nat} (clause : Clause) (rs : List Row) :
    resumed depth (⟨depth, clause⟩ :: rs) = clause.words ++ following depth rs := by
  rw [resumed, if_pos rfl]

/-- At the end of a block one step out is taken, and then the rest is left. -/
theorem resumed_succ {depth : Nat} {rows : List Row} (h : Within depth rows) :
    resumed (depth + 1) rows = .plain .dedent :: resumed depth rows := by
  cases rows with
  | nil => rfl
  | cons r rs =>
    have hle : r.depth ≤ depth := h r rfl
    rw [resumed, if_neg (by omega), following, stepWords, if_neg (by omega), if_pos (by omega),
      Nat.succ_sub hle, List.replicate_succ, List.cons_append, resumed]
    -- one step out is enough, or there are more of them to come
    split_ifs with heq
    · rw [heq, Nat.sub_self, List.replicate_zero, List.nil_append]
    · rw [following, stepWords, if_neg (by omega), if_pos (by omega)]

/-- A block begins with a step in. -/
theorem following_succ {depth : Nat} (clause : Clause) (rs : List Row) :
    following depth (⟨depth + 1, clause⟩ :: rs) =
      .plain .indent :: resumed (depth + 1) (⟨depth + 1, clause⟩ :: rs) := by
  rw [resumed_cons, following, stepWords, if_pos (Nat.lt_succ_self depth)]
  rfl

/-! ### How rows begin -/

/-- Where there is no row, none is too deep. -/
theorem within_nil (depth : Nat) : Within depth [] := fun _ hr => by cases hr

/-- Rows that begin at a depth begin at most there. -/
theorem within_cons {depth : Nat} (clause : Clause) (rows : List Row) :
    Within depth (⟨depth, clause⟩ :: rows) := by
  intro r hr
  cases hr
  exact le_rfl

/-- Branches begin with a header at their own depth; without any, what follows begins. -/
theorem within_branches {depth : Nat} {more : List Row} (hmore : Within depth more)
    (header : Expr → Clause) (bs : List Branch) :
    Within depth (Stmt.rowsOfBranches depth header bs ++ more) := by
  rcases bs with _ | ⟨⟨condition, body, span⟩, bs⟩
  · exact hmore
  · exact within_cons _ _

/-- **A statement begins at its own depth.** Only an alternative without branches could be empty,
and then `hmore` says how what follows begins. -/
theorem within_rows {depth : Nat} {more : List Row} (hmore : Within depth more) (s : Stmt) :
    Within depth (s.rows depth ++ more) := by
  cases s with
  | choose bs last span =>
    cases last with
    | none => exact within_branches hmore .choose bs
    | some body =>
      rw [Stmt.rows, List.append_assoc]
      -- behind the branches comes `else`, at the depth of the statement
      exact within_branches (within_cons _ _) .choose bs
  | assign => exact within_cons _ _
  | declare => exact within_cons _ _
  | giveBack => exact within_cons _ _
  | loop => exact within_cons _ _
  | print => exact within_cons _ _
  | call => exact within_cons _ _

/-- A block begins with its first statement, or with what follows it. -/
theorem within_block {depth : Nat} {more : List Row} (hmore : Within depth more)
    (ss : List Stmt) : Within depth (Stmt.rowsOfBlock depth ss ++ more) := by
  induction ss with
  | nil => exact hmore
  | cons s ss ih =>
    rw [Stmt.rowsOfBlock, List.append_assoc]
    exact within_rows ih s

/-! ### How rows climb -/

/-- Each row is at most one step deeper than the one before it. -/
def Climbs : Nat → List Row → Prop
  | _, [] => True
  | depth, r :: rs => r.depth ≤ depth + 1 ∧ Climbs r.depth rs

/-- Only the first row is compared with the depth before, so a deeper one does as well. -/
theorem Climbs.mono {depth depth' : Nat} {rows : List Row} (h : Climbs depth rows)
    (hle : depth ≤ depth') : Climbs depth' rows := by
  cases rows with
  | nil => trivial
  | cons r rs => exact ⟨h.1.trans (by omega), h.2⟩

mutual

/-- A statement climbs from a row at most one step less deep, if what follows the statement can
follow that row and a row of the statement's own depth. -/
theorem climbs_rows {depth before : Nat} {more : List Row} (hle : depth ≤ before + 1)
    (hmore : Climbs depth more) (hbefore : Climbs before more) :
    ∀ s : Stmt, Climbs before (s.rows depth ++ more)
  | .assign _ _ _ _ => ⟨hle, hmore⟩
  | .declare _ _ _ => ⟨hle, hmore⟩
  | .giveBack _ _ => ⟨hle, hmore⟩
  | .print _ _ => ⟨hle, hmore⟩
  | .call _ => ⟨hle, hmore⟩
  | .loop _ body _ => ⟨hle, climbs_block le_rfl (hmore.mono (Nat.le_succ depth)) hmore body⟩
  | .choose bs none _ => climbs_branches hle hmore hbefore .choose bs
  | .choose bs (some body) _ => by
    rw [Stmt.rows, List.append_assoc]
    have hbody : Climbs depth (Stmt.rowsOfBlock (depth + 1) body ++ more) :=
      climbs_block le_rfl (hmore.mono (Nat.le_succ depth)) hmore body
    -- the row of `else` may follow the last branch, and also whatever came before if there is no
    -- branch
    have hlast : ∀ {d}, depth ≤ d + 1 →
        Climbs d (⟨depth, .otherwise⟩ :: (Stmt.rowsOfBlock (depth + 1) body ++ more)) :=
      fun hd => ⟨hd, hbody⟩
    exact climbs_branches hle (hlast (Nat.le_succ depth)) (hlast hle) .choose bs

/-- The statements of a block follow one another at the block's depth; an empty block leaves the row
before it to what follows. -/
theorem climbs_block {depth before : Nat} {more : List Row} (hle : depth ≤ before + 1)
    (hmore : Climbs depth more) (hbefore : Climbs before more) :
    ∀ ss : List Stmt, Climbs before (Stmt.rowsOfBlock depth ss ++ more)
  | [] => hbefore
  | s :: ss => by
    rw [Stmt.rowsOfBlock, List.append_assoc]
    exact climbs_rows hle (climbs_block (Nat.le_succ depth) hmore hmore ss)
      (climbs_block hle hmore hbefore ss) s

/-- A header, its body one step deeper, and the next header: `climbs_block` for the body, with the
other branches as what follows it. -/
theorem climbs_branches {depth before : Nat} {more : List Row} (hle : depth ≤ before + 1)
    (hmore : Climbs depth more) (hbefore : Climbs before more) (header : Expr → Clause) :
    ∀ bs : List Branch, Climbs before (Stmt.rowsOfBranches depth header bs ++ more)
  | [] => hbefore
  | .mk _ body _ :: bs => by
    rw [Stmt.rowsOfBranches, List.cons_append, List.append_assoc]
    have hbs : Climbs depth (Stmt.rowsOfBranches depth .chooseNext bs ++ more) :=
      climbs_branches (Nat.le_succ depth) hmore hmore .chooseNext bs
    exact ⟨hle, climbs_block le_rfl (hbs.mono (Nat.le_succ depth)) hbs body⟩

end

end Row

/-- A program begins at the margin. -/
theorem Program.within_rows (p : Program) : Row.Within 0 p.rows := by
  unfold rows
  cases p.functions with
  | nil =>
    have happend := Row.within_block (Row.within_nil 0) p.body
    rwa [List.append_nil] at happend
  | cons f fs => exact Row.within_cons _ _

/-- **The rows of a program climb** from nothing. -/
theorem Program.climbs_rows (p : Program) : Row.Climbs 0 p.rows := by
  have hbody : Row.Climbs 0 (Stmt.rowsOfBlock 0 p.body) := by
    have hnil : Row.Climbs 0 [] := trivial
    have happend := Row.climbs_block (Nat.zero_le 1) hnil hnil p.body
    rwa [List.append_nil] at happend
  unfold rows
  induction p.functions with
  | nil => exact hbody
  | cons f fs ih =>
    -- a function begins at the margin, so the rows after it may follow its body from any depth
    rw [List.flatMap_cons, List.append_assoc]
    exact ⟨Nat.zero_le 1, Row.climbs_block le_rfl (ih.mono (Nat.zero_le 1)) ih f.body⟩

/-! ### Well-formed clauses -/

/-- The names of a clause are names, and its numbers are finite. -/
def Clause.WellFormed : Clause → Prop
  | .assign target _ value => IsName target ∧ value.WellFormed
  | .declare name _ => IsName name
  | .giveBack none => True
  | .giveBack (some value) => value.WellFormed
  | .print args => ∀ e ∈ args, e.WellFormed
  | .call c => c.WellFormed
  | .loop condition => condition.WellFormed
  | .choose condition => condition.WellFormed
  | .chooseNext condition => condition.WellFormed
  | .otherwise => True
  | .define name params _ => IsName name ∧ ∀ p ∈ params, IsName p.name

mutual

/-- Each clause of a statement is well formed. The three inductions go over the tree as `Stmt.rows`
does. -/
theorem Stmt.wellFormed_rows (depth : Nat) :
    ∀ s : Stmt, s.WellFormed → ∀ r ∈ s.rows depth, r.clause.WellFormed
  | .assign _ _ _ _, h => List.forall_mem_singleton.mpr h
  | .declare _ _ _, h => List.forall_mem_singleton.mpr h
  | .giveBack none _, _ => List.forall_mem_singleton.mpr trivial
  | .giveBack (some _) _, h => List.forall_mem_singleton.mpr h
  | .print _ _, h => List.forall_mem_singleton.mpr h
  | .call _, h => List.forall_mem_singleton.mpr h
  | .loop _ body _, h => by
    intro r hr
    rcases List.mem_cons.mp hr with rfl | hr
    · exact h.1
    · -- the rows of a body have the form that its statements have
      exact Stmt.wellFormed_rowsOfBlock (depth + 1) body h.2.2 r hr
  | .choose bs none _, h =>
    Stmt.wellFormed_rowsOfBranches depth .choose (fun _ h => h) bs h.2
  | .choose bs (some body) _, h => by
    intro r hr
    rcases List.mem_append.mp hr with hr | hr
    · exact Stmt.wellFormed_rowsOfBranches depth .choose (fun _ h => h) bs h.2.1 r hr
    · rcases List.mem_cons.mp hr with rfl | hr
      · trivial
      · exact Stmt.wellFormed_rowsOfBlock (depth + 1) body h.2.2.2 r hr

/-- The clauses of a block are those of its statements. -/
theorem Stmt.wellFormed_rowsOfBlock (depth : Nat) :
    ∀ ss : List Stmt, Stmt.WellFormedBlock ss →
      ∀ r ∈ Stmt.rowsOfBlock depth ss, r.clause.WellFormed
  | [], _ => by simp [rowsOfBlock]
  | s :: ss, h => by
    intro r hr
    rcases List.mem_append.mp hr with hr | hr
    · exact Stmt.wellFormed_rows depth s h.1 r hr
    · exact Stmt.wellFormed_rowsOfBlock depth ss h.2 r hr

/-- A header is well formed if its condition is, whichever of the two words it has. -/
theorem Stmt.wellFormed_rowsOfBranches (depth : Nat) (header : Expr → Clause)
    (hheader : ∀ e, e.WellFormed → (header e).WellFormed) :
    ∀ bs : List Branch, Stmt.WellFormedBranches bs →
      ∀ r ∈ Stmt.rowsOfBranches depth header bs, r.clause.WellFormed
  | [], _ => by simp [rowsOfBranches]
  | .mk condition body _ :: bs, h => by
    intro r hr
    rcases List.mem_cons.mp hr with rfl | hr
    · exact hheader condition h.1.1
    · rcases List.mem_append.mp hr with hr | hr
      · exact Stmt.wellFormed_rowsOfBlock (depth + 1) body h.1.2.2 r hr
      · -- every branch but the first has the other header
        exact Stmt.wellFormed_rowsOfBranches depth .chooseNext (fun _ h => h) bs h.2 r hr

end

/-- **The clauses of a well-formed program are well formed.** -/
theorem Program.wellFormed_rows {p : Program} (h : p.WellFormed) :
    ∀ r ∈ p.rows, r.clause.WellFormed := by
  intro r hr
  rcases List.mem_append.mp hr with hr | hr
  · obtain ⟨f, hf, hr⟩ := List.mem_flatMap.mp hr
    have hwf := h.functions f hf
    rcases List.mem_cons.mp hr with rfl | hr
    · exact ⟨hwf.name, hwf.params⟩
    · exact Stmt.wellFormed_rowsOfBlock 1 f.body hwf.body r hr
  · exact Stmt.wellFormed_rowsOfBlock 0 p.body h.body r hr

end Offside
