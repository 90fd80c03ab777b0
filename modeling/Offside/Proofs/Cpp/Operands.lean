import Offside.Proofs.Cpp.Expressions

/-!
# Expressions as operands

An expression is emitted without parentheses of its own, among the operators that belong to the
statement. Whether it is still one operand there is decided by ranks. Behind an assignment every
operator binds tighter, and between the parentheses of a condition or behind a return there is
nothing else. A print statement is different: its own operator binds tighter than comparisons and
logical operators do, so an argument with one of those comes apart.

* `operandsOf?` — the complete operands on a line, in each of the roles an expression can have;
* `placesOf` — the expressions of a statement, each with its role and its line;
* `mem_operandsOf?_iff` — an expression is a complete operand on its line, unless it is an argument
  of a print statement and has an operator that does not bind tighter than `<<`.
-/

namespace Offside.Cpp

/-! ### Operands of a line -/

/-- Where an expression stands: behind the sign of an assignment, behind a return, between the
parentheses of a condition, or in a print statement. -/
inductive Role where
  | assigned
  | returned
  | enclosed
  | inserted
  deriving DecidableEq

/-- **The complete operands on a line.** An assignment and a print statement are each one
expression, and the operands are those of its `=` or its `<<`. -/
def operandsOf? (role : Role) (line : List Char) : Option (List (Tree Leaf)) :=
  match role, Piece.ofLine? line with
  | .assigned, some [.action (.assign _ _)] =>
    ((ended? line).bind readExpression?).map (Tree.operands .assign)
  | .inserted, some [.action (.print _)] =>
    ((ended? line).bind readExpression?).map (Tree.operands .insert)
  | .returned, some [.action (.giveBack (some value))] => (readExpression? value.toList).map ([·])
  | .enclosed, some [.loop condition] => (readExpression? condition.toList).map ([·])
  | .enclosed, some [.branch condition] => (readExpression? condition.toList).map ([·])
  | .enclosed, some [.otherwise, .branch condition] =>
    (readExpression? condition.toList).map ([·])
  | _, _ => none

/-- An expression of a statement, with its role and its line. -/
structure Place where
  line : Line
  role : Role
  expr : Expr

mutual

/-- **The expressions of a statement**, those of its blocks included. -/
def placesOf (depth : Nat) : Stmt → List Place
  | .assign target _ value _ =>
    [⟨⟨depth, target ++ " = " ++ expression value ++ ";"⟩, .assigned, value⟩]
  | .declare _ _ _ => []
  | .giveBack (some value) _ => [⟨⟨depth, "return " ++ expression value ++ ";"⟩, .returned, value⟩]
  | .giveBack none _ => []
  | .loop condition body _ =>
    ⟨⟨depth, "while(" ++ expression condition ++ ")"⟩, .enclosed, condition⟩ ::
      placesOfBlock (depth + 1) body
  | .choose bs none _ => placesOfBranches depth "if" bs
  | .choose bs (some body) _ => placesOfBranches depth "if" bs ++ placesOfBlock (depth + 1) body
  | .print args _ => args.map fun e => ⟨⟨depth, printText args⟩, .inserted, e⟩
  | .call _ => []

/-- The expressions of a block. -/
def placesOfBlock (depth : Nat) : List Stmt → List Place
  | [] => []
  | s :: ss => placesOf depth s ++ placesOfBlock depth ss

/-- The expressions of branches, the first of which begins with the given word. -/
def placesOfBranches (depth : Nat) (word : String) : List Branch → List Place
  | [] => []
  | .mk condition body _ :: bs =>
    ⟨⟨depth, word ++ "(" ++ expression condition ++ ")"⟩, .enclosed, condition⟩ ::
      (placesOfBlock (depth + 1) body ++ placesOfBranches depth "else if" bs)

end

/-- Every operator of the expression binds tighter than `<<`. -/
def Insertable (e : Expr) : Prop := ∀ op ∈ operators e, (Op.operation op).rank < Op.insert.rank

instance : DecidablePred Insertable := fun _ => inferInstanceAs (Decidable (∀ _ ∈ _, _))

/-- The expression and its line can be read, and the tree of the expression is a complete operand on
the line unless it is an argument of a print statement that comes apart. -/
def Place.Settled (p : Place) : Prop :=
  ∃ t ts, readExpression? (expression p.expr).toList = some t ∧
    operandsOf? p.role p.line.text.toList = some ts ∧
      (t ∈ ts ↔ (p.role = .inserted → Insertable p.expr))

/-! ### Each role by itself -/

/-- The operators of a sequence that an expression reads as are those of the expression. -/
theorem exists_operator {e : Expr} {more : List (Op × Leaf)}
    (h : more.map Prod.fst = (operators e).map .operation) :
    ∀ pair ∈ more, ∃ op ∈ operators e, pair.1 = .operation op := by
  intro pair hpair
  have hmem := List.mem_map_of_mem hpair (f := Prod.fst)
  rw [h] at hmem
  obtain ⟨op, hop, heq⟩ := List.mem_map.mp hmem
  exact ⟨op, hop, heq.symm⟩

/-- A whole expression between the parentheses of a line or behind its return. -/
theorem settled_alone {l : Line} {role : Role} (hrole : role ≠ .inserted) {e : Expr}
    (he : e.WellFormed)
    (hline : operandsOf? role l.text.toList = (readExpression? (expression e).toList).map ([·])) :
    Place.Settled ⟨l, role, e⟩ := by
  obtain ⟨x, more, -, hreads⟩ := reads_expression he
  refine ⟨_, [.ofSequence x more], hreads.readExpression?, ?_, ?_⟩
  · show operandsOf? role l.text.toList = _
    rw [hline, hreads.readExpression?]
    rfl
  · -- the expression is the only operand, and the condition on inserted ones does not apply
    exact iff_of_true (List.mem_singleton.mpr rfl) fun h => absurd h hrole

/-- Behind a return there is the expression alone. -/
theorem settled_returned (depth : Nat) {e : Expr} (he : e.WellFormed) :
    Place.Settled ⟨⟨depth, "return " ++ expression e ++ ";"⟩, .returned, e⟩ := by
  refine settled_alone (by decide) he ?_
  unfold operandsOf?
  rw [Piece.ofLine?_giveBack]

/-- Between the parentheses of a loop there is the condition alone. -/
theorem settled_loop (depth : Nat) {e : Expr} (he : e.WellFormed) :
    Place.Settled ⟨⟨depth, "while(" ++ expression e ++ ")"⟩, .enclosed, e⟩ := by
  refine settled_alone (by decide) he ?_
  unfold operandsOf?
  rw [Piece.ofLine?_loop]

/-- The same for the condition of a first branch. -/
theorem settled_branch (depth : Nat) {e : Expr} (he : e.WellFormed) :
    Place.Settled ⟨⟨depth, "if" ++ "(" ++ expression e ++ ")"⟩, .enclosed, e⟩ := by
  refine settled_alone (by decide) he ?_
  unfold operandsOf?
  rw [Piece.ofLine?_branch]

/-- The same for that of a later one. -/
theorem settled_otherwise_branch (depth : Nat) {e : Expr} (he : e.WellFormed) :
    Place.Settled ⟨⟨depth, "else if" ++ "(" ++ expression e ++ ")"⟩, .enclosed, e⟩ := by
  refine settled_alone (by decide) he ?_
  unfold operandsOf?
  rw [Piece.ofLine?_otherwise_branch]

/-- Behind an assignment the expression is the last operand (`Tree.mem_operands_of_last`), as every
operator of the source language binds tighter. -/
theorem settled_assigned (depth : Nat) {target : String} (htarget : IsName target) {e : Expr}
    (he : e.WellFormed) :
    Place.Settled ⟨⟨depth, target ++ " = " ++ expression e ++ ";"⟩, .assigned, e⟩ := by
  obtain ⟨x, more, hops, hreads⟩ := reads_expression he
  -- the whole line is one sequence: the target, the sign, and the sequence of the expression
  have htree := ((readsLeaf_word htarget.1).reads.append .assign hreads).readExpression?
  have htext : (target ++ " = " ++ expression e ++ ";").toList =
      target.toList ++ ' ' :: (Op.assign.text.toList ++ ' ' :: (expression e).toList) ++ [';'] := by
    simp [Op.text]
  have hline : operandsOf? .assigned (target ++ " = " ++ expression e ++ ";").toList =
      some (Tree.operands .assign
        (.ofSequence ⟨[], .name target⟩ ([] ++ (Op.assign, x) :: more))) := by
    unfold operandsOf?
    rw [Piece.ofLine?_assign htarget, htext, ended?_semicolon]
    show (readExpression? _).map _ = _
    rw [htree, Option.map_some]
  -- every operator of the expression goes below the assignment
  have hunder : ∀ pair ∈ more, pair.1.under .assign = true := by
    intro pair hpair
    obtain ⟨op, -, hop⟩ := exists_operator hops pair hpair
    rw [hop]
    cases op <;> rfl
  refine ⟨_, _, hreads.readExpression?, hline, iff_of_true ?_ nofun⟩
  exact Tree.mem_operands_of_last (.leaf ⟨[], .name target⟩) x hunder

/-! ### Print statements -/

/-- Arguments behind a sequence, each with `<<` before it. -/
theorem reads_inserted {text : List Char} {x : Leaf} {more : List (Op × Leaf)}
    (h : Reads text x more) {args : List Expr} (hargs : ∀ e ∈ args, e.WellFormed) :
    ∃ more', (∀ pair ∈ more'.head?, pair.1 = .insert) ∧
      Reads (text ++ args.flatMap fun e => " << ".toList ++ (expression e).toList) x
        (more ++ more') := by
  induction args generalizing text more with
  | nil => exact ⟨[], nofun, by simpa using h⟩
  | cons e args ih =>
    obtain ⟨he, hmore⟩ := List.forall_mem_cons.mp hargs
    obtain ⟨y, ys, -, hy⟩ := reads_expression he
    -- the argument is read behind what has been read, and the others behind it
    obtain ⟨more', -, hread⟩ := ih (h.append .insert hy) hmore
    refine ⟨(.insert, y) :: (ys ++ more'), by simp, ?_⟩
    rw [List.append_assoc, List.append_assoc] at hread
    exact hread

/-- The line of a print statement, with its `<<` before each argument and not behind it. -/
theorem toList_printText (args : List Expr) :
    (printText args).toList = "std::cout".toList ++
      args.flatMap (fun e => " << ".toList ++ (expression e).toList) ++
        ' ' :: (Op.insert.text.toList ++ ' ' :: "std::endl".toList) ++ [';'] := by
  -- the sign is written behind each argument, but read before it
  have hshift : " << ".toList ++ (args.flatMap fun e => (expression e).toList ++ " << ".toList) =
      args.flatMap (fun e => " << ".toList ++ (expression e).toList) ++ " << ".toList := by
    induction args with
    | nil => simp
    | cons e args ih =>
      rw [List.flatMap_cons, List.flatMap_cons, List.append_assoc, ih]
      simp only [List.append_assoc]
  have hjoin : (String.join (args.map fun e => expression e ++ " << ")).toList =
      args.flatMap fun e => (expression e).toList ++ " << ".toList := by
    rw [String.toList_join, List.flatMap_map]
    simp only [String.toList_append]
  calc (printText args).toList
      = "std::cout".toList ++ (" << ".toList ++
          (args.flatMap fun e => (expression e).toList ++ " << ".toList)) ++
            "std::endl".toList ++ [';'] := by
        rw [printText, String.toList_append, String.toList_append, hjoin]
        simp
    _ = _ := by
        rw [hshift]
        simp [Op.text]

/-- A name of the standard library. -/
theorem reads_std {s text : String} (hs : Linewise.isWord s.toList = true)
    (htext : text = "std" ++ "::" ++ s) : Reads text.toList ⟨[], .name text⟩ [] := by
  subst htext
  refine ⟨[.word "std", .mark "::", .word s], fun cs hcs => ?_, fun before => ⟨_, rfl, rfl⟩⟩
  -- the qualified name is cut into three lexemes, which the scan joins again
  have hchars : ("std" ++ "::" ++ s).toList ++ cs =
      "std".toList ++ ':' :: ':' :: (s.toList ++ cs) := by
    simp
  rw [hchars, lexemes?_word (by decide) (apart_cons (by decide)), lexemes?_colons,
    lexemes?_word hs hcs, Option.map_map, Option.map_map]
  rfl

/-- Among the operators of the source language none has the rank of `<<`. -/
theorem rank_operation_ne (op : BinaryOp) : (Op.operation op).rank ≠ Op.insert.rank := by
  cases op <;> decide

/-- An argument between two `<<` is an operand of the first exactly if all its operators bind
tighter. -/
theorem mem_operands_insert_iff {e : Expr} {x : Leaf} {more : List (Op × Leaf)}
    (hops : more.map Prod.fst = (operators e).map .operation) (before : Tree Leaf)
    (hbefore : before.Grouped) {after : List (Op × Leaf)} (hne : after ≠ [])
    (hhead : ∀ pair ∈ after.head?, pair.1 = .insert) :
    .ofSequence x more ∈ (((before.attach .insert x).extend more).extend after).operands .insert ↔
      Insertable e := by
  obtain ⟨⟨op', y⟩, after, rfl⟩ := List.exists_cons_of_ne_nil hne
  obtain rfl : op' = .insert := hhead _ rfl
  constructor
  · intro hmem op hop
    have hmap : Op.operation op ∈ more.map Prod.fst := by
      rw [hops]
      exact List.mem_map_of_mem hop
    obtain ⟨pair, hpair, heq⟩ := List.mem_map.mp hmap
    -- an operator that binds no tighter than `<<` ends up above it
    by_contra hrank
    have hlt : Op.insert.rank < pair.1.rank := by
      rw [heq]
      exact Nat.lt_of_le_of_ne (Nat.not_lt.mp hrank) (rank_operation_ne op).symm
    have hgrouped := Tree.grouped_extend (Tree.grouped_extend
      (Tree.grouped_attach hbefore .insert x) more) ((.insert, y) :: after)
    exact Tree.not_mem_operands_of_rank hgrouped hpair hlt hmem
  · intro hinsertable
    refine Tree.mem_operands_of_between before x y after (fun pair hpair => ?_) (by decide)
    -- operators that bind tighter stay below the `<<` on either side
    obtain ⟨op, hop, heq⟩ := exists_operator hops pair hpair
    rw [heq]
    exact Op.under_iff.mpr (.inl (hinsertable op hop))

/-- An argument of a print statement stands between two `<<`: the one before it, and that of the
next argument or of `std::endl`. So `mem_operands_insert_iff` decides. -/
theorem settled_inserted (depth : Nat) {args : List Expr} (hargs : ∀ e ∈ args, e.WellFormed)
    {e : Expr} (he : e ∈ args) : Place.Settled ⟨⟨depth, printText args⟩, .inserted, e⟩ := by
  obtain ⟨before, after, rfl⟩ := List.append_of_mem he
  obtain ⟨hbefore, hrest⟩ := List.forall_mem_append.mp hargs
  obtain ⟨hwell, hafter⟩ := List.forall_mem_cons.mp hrest
  -- the sequences before the argument, of the argument itself, and behind it
  have hcout : Reads "std::cout".toList _ [] := reads_std (s := "cout") (by decide) (by decide)
  have hendl : Reads "std::endl".toList _ [] := reads_std (s := "endl") (by decide) (by decide)
  obtain ⟨ms, -, hms⟩ := reads_inserted hcout hbefore
  obtain ⟨x, more, hops, hreads⟩ := reads_expression hwell
  obtain ⟨ms', hhead, hms'⟩ := reads_inserted (hms.append .insert hreads) hafter
  have htree := (hms'.append .insert hendl).readExpression?
  have hline : operandsOf? .inserted (printText (before ++ e :: after)).toList =
      some (Tree.operands .insert (.ofSequence ⟨[], .name "std::cout"⟩
        ([] ++ ms ++ (.insert, x) :: more ++ ms' ++ [(.insert, ⟨[], .name "std::endl"⟩)]))) := by
    unfold operandsOf?
    rw [Piece.ofLine?_print, toList_printText, ended?_semicolon]
    show (readExpression? _).map _ = _
    rw [← Option.map_some, ← htree]
    simp [Op.text]
  refine ⟨_, _, hreads.readExpression?, hline, ?_⟩
  have hwhole : Tree.ofSequence ⟨[], .name "std::cout"⟩
      ([] ++ ms ++ (.insert, x) :: more ++ ms' ++ [(.insert, ⟨[], .name "std::endl"⟩)]) =
      ((((Tree.ofSequence ⟨[], .name "std::cout"⟩ ms).attach .insert x).extend more).extend
        (ms' ++ [(.insert, ⟨[], .name "std::endl"⟩)])) := by
    rw [List.nil_append, List.append_assoc, Tree.ofSequence, List.append_assoc,
      Tree.extend_append, List.cons_append, Tree.extend_cons, Tree.extend_append]
    rfl
  -- behind the argument comes `<<`, be it the next argument's or the last one
  have hhead' : ∀ pair ∈ (ms' ++ [(Op.insert, (⟨[], .name "std::endl"⟩ : Leaf))]).head?,
      pair.1 = .insert := by
    cases ms' with
    | nil => simp
    | cons pair ms' => exact hhead
  rw [hwhole, mem_operands_insert_iff hops _ (Tree.grouped_ofSequence _ ms) (by simp) hhead']
  exact ⟨fun h _ => h, fun h => h rfl⟩

/-! ### Every place of a statement -/

/-- The line of the place is one of the lines, and the place is settled. -/
def Place.In (p : Place) (ls : List Line) : Prop := p.line ∈ ls ∧ p.Settled

/-- The lines of a block are among those with the braces. -/
theorem block_subset_braced (depth : Nat) (ls : List Line) : ls ⊆ braced depth ls :=
  List.subset_cons_of_subset _ (List.subset_append_left _ _)

/-- More lines around change nothing about a place. -/
theorem Place.In.mono {p : Place} {ls ls' : List Line} (h : p.In ls) (hsub : ls ⊆ ls') : p.In ls' :=
  ⟨hsub h.1, h.2⟩

mutual

/-- **Every place of a statement is settled on a line of it.** The cases are those of `placesOf`. -/
theorem places_in_statement (depth : Nat) {s : Stmt} (hs : s.Proper) :
    ∀ p ∈ placesOf depth s, p.In (statement depth s) := by
  match s, hs with
  | .assign target type value span, hs =>
    exact List.forall_mem_singleton.mpr
      ⟨List.mem_singleton.mpr rfl, settled_assigned depth hs.1 hs.2⟩
  | .declare name type span, hs => exact nofun
  | .giveBack none span, hs => exact nofun
  | .giveBack (some value) span, hs =>
    exact List.forall_mem_singleton.mpr ⟨List.mem_singleton.mpr rfl, settled_returned depth hs⟩
  | .loop condition body span, hs =>
    refine List.forall_mem_cons.mpr ⟨⟨List.mem_cons_self, settled_loop depth hs.1⟩, ?_⟩
    intro p hp
    -- the places of the body are on its lines, which are lines of the loop
    refine (places_in_block (depth + 1) hs.2 p hp).mono ?_
    exact List.subset_cons_of_subset _ (block_subset_braced depth _)
  | .choose bs none span, hs =>
    exact places_in_branches depth (settled_branch depth) hs.2
  | .choose bs (some body) span, hs =>
    refine List.forall_mem_append.mpr ⟨fun p hp => ?_, fun p hp => ?_⟩
    · refine (places_in_branches depth (settled_branch depth) hs.2.1 p hp).mono ?_
      exact List.subset_append_left _ _
    · refine (places_in_block (depth + 1) hs.2.2 p hp).mono ?_
      refine List.subset_append_of_subset_right _ (List.subset_cons_of_subset _ ?_)
      exact block_subset_braced depth _
  | .print args span, hs =>
    intro p hp
    obtain ⟨e, he, rfl⟩ := List.mem_map.mp hp
    exact ⟨List.mem_singleton.mpr rfl, settled_inserted depth hs he⟩
  | .call c, hs => exact nofun

/-- The same for a block. -/
theorem places_in_block (depth : Nat) {ss : List Stmt} (hss : Stmt.ProperBlock ss) :
    ∀ p ∈ placesOfBlock depth ss, p.In (block depth ss) := by
  match ss, hss with
  | [], _ => exact nofun
  | s :: ss, hss =>
    refine List.forall_mem_append.mpr ⟨fun p hp => ?_, fun p hp => ?_⟩
    · exact (places_in_statement depth hss.1 p hp).mono (List.subset_append_left _ _)
    · exact (places_in_block depth hss.2 p hp).mono (List.subset_append_right _ _)

/-- The condition of the first branch is settled on its line, whichever word that begins with. -/
theorem places_in_branches (depth : Nat) {word : String}
    (hword : ∀ {e : Expr}, e.WellFormed →
      Place.Settled ⟨⟨depth, word ++ "(" ++ expression e ++ ")"⟩, .enclosed, e⟩)
    {bs : List Branch} (hbs : Stmt.ProperBranches bs) :
    ∀ p ∈ placesOfBranches depth word bs, p.In (branches depth word bs) := by
  match bs, hbs with
  | [], _ => exact nofun
  | .mk condition body span :: bs, hbs =>
    -- the condition on the header, then the body and the other branches
    refine List.forall_mem_cons.mpr ⟨⟨List.mem_cons_self, hword hbs.1.1⟩, ?_⟩
    refine List.forall_mem_append.mpr ⟨fun p hp => ?_, fun p hp => ?_⟩
    · refine (places_in_block (depth + 1) hbs.1.2 p hp).mono ?_
      refine List.subset_cons_of_subset _ (List.subset_append_of_subset_left _ ?_)
      exact block_subset_braced depth _
    · refine (places_in_branches depth (settled_otherwise_branch depth) hbs.2 p hp).mono ?_
      exact List.subset_cons_of_subset _ (List.subset_append_right _ _)

end

/-- **Which expressions stay together.** Each expression of a statement stands on one of the lines
that are emitted for it. The tree that its text has by itself is a complete operand on that line,
unless the statement prints it and one of its operators does not bind tighter than `<<`: then it is
none. -/
theorem mem_operandsOf?_iff {s : Stmt} (hs : s.Proper) (depth : Nat) {p : Place}
    (hp : p ∈ placesOf depth s) :
    p.line ∈ statement depth s ∧
      ∃ t ts, readExpression? (expression p.expr).toList = some t ∧
        operandsOf? p.role p.line.text.toList = some ts ∧
        (t ∈ ts ↔ (p.role = .inserted →
          ∀ op ∈ operators p.expr, (Op.operation op).rank < Op.insert.rank)) := by
  obtain ⟨hline, hsettled⟩ := places_in_statement depth hs p hp
  exact ⟨hline, hsettled⟩

/-- A print statement with a sum and a comparison. -/
def printedSum : Stmt :=
  .print [.operation ⟨false, .name "a", [(.add, .name "b"), (.mul, .name "c")]⟩,
    .operation ⟨true, .name "a", [(.lt, .name "b")]⟩] ⟨1, 1⟩

/-- The sum is one operand, also beside the comparison. -/
theorem mem_operandsOf?_sum :
    printedSum.Proper ∧
      ∃ t ts, readExpression? "a + b * c".toList = some t ∧
        operandsOf? .inserted "std::cout << a + b * c << ! a < b << std::endl;".toList = some ts ∧
        t ∈ ts := by
  have hproper : printedSum.Proper := by decide
  have hplace : (⟨⟨1, "std::cout << a + b * c << ! a < b << std::endl;"⟩, .inserted,
      .operation ⟨false, .name "a", [(.add, .name "b"), (.mul, .name "c")]⟩⟩ : Place) ∈
      placesOf 1 printedSum := List.mem_cons_self
  obtain ⟨-, t, ts, ht, hts, hmem⟩ := mem_operandsOf?_iff hproper 1 hplace
  exact ⟨hproper, t, ts, ht, hts, hmem.mpr fun _ => by decide⟩

/-- A print statement with a comparison only. -/
def printedComparison : Stmt := .print [.operation ⟨false, .name "a", [(.lt, .name "b")]⟩] ⟨1, 1⟩

/-- The comparison comes apart: what is compared is the stream that `a` was written to, and no
operand of `<<` is a comparison. -/
theorem operandsOf?_comparison :
    let word (s : String) : Tree Leaf := .leaf ⟨[], .name s⟩
    (statement 1 printedComparison).map Line.text = ["std::cout << a < b << std::endl;"] ∧
      readExpression? "a < b".toList = some (.node (.operation .lt) (word "a") (word "b")) ∧
      readExpression? "std::cout << a < b << std::endl".toList =
        some (.node (.operation .lt) (.node .insert (word "std::cout") (word "a"))
          (.node .insert (word "b") (word "std::endl"))) ∧
      operandsOf? .inserted "std::cout << a < b << std::endl;".toList =
        some [word "std::cout", word "a", word "b", word "std::endl"] := by
  decide +kernel

end Offside.Cpp
