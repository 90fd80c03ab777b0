import Offside.Program.Outline

/-!
# Reading a drawn tree

A drawn tree shows which label stands where. A line is a margin, a connector and a label. Behind one
margin, the connector tells whether the node is the last of its siblings, and the lines of its
children go on with a bar or with a space where those of its siblings go on with a connector. So the
lines of siblings end where something comes that does not go on in one of these ways (`Apart`), and
up to there they determine the trees.

* `drawAll_inj` — siblings with the same lines are the same;
* `draw_inj` — so are trees, with anything behind them that does not look like a part of them;
* `rowsAll` — the labels of some trees in order, each with its depth; they decide whether the lines
  of a drawing can be told apart (`isLine_draw`).
-/

namespace Offside.Outline

/-! ### Lines of a drawing -/

/-- What stands between the margin and the label of a node. -/
def connector (last : Bool) : String := if last then "\\-- " else "+-- "

/-- What the margin of the children has in addition. -/
def spacer (last : Bool) : String := if last then "    " else "|   "

/-- The characters that come behind a margin in a drawing. -/
def marks : List Char := ['+', '\\', '|', ' ']

theorem drawAll_cons (margin label : String) (children os : List Outline) :
    drawAll margin (.node label children :: os) =
      (margin ++ connector os.isEmpty ++ label) ::
        (drawAll (margin ++ spacer os.isEmpty) children ++ drawAll margin os) := rfl

theorem connector_toList (last : Bool) :
    ∃ c cs, (connector last).toList = c :: cs ∧ c ∈ marks ∧ c ≠ '|' ∧ c ≠ ' ' := by
  cases last
  · exact ⟨'+', "-- ".toList, by decide⟩
  · exact ⟨'\\', "-- ".toList, by decide⟩

theorem spacer_toList (last : Bool) :
    ∃ c cs, (spacer last).toList = c :: cs ∧ c ∈ marks ∧ (c = '|' ∨ c = ' ') := by
  cases last
  · exact ⟨'|', "   ".toList, by decide⟩
  · exact ⟨' ', "   ".toList, by decide⟩

/-- The connector and the label are found in a line again. -/
theorem connector_append_inj {last last' : Bool} {label label' : String}
    (h : connector last ++ label = connector last' ++ label') : last = last' ∧ label = label' := by
  have hchars := congrArg String.toList h
  rw [String.toList_append, String.toList_append] at hchars
  cases last <;> cases last'
  · exact ⟨rfl, String.toList_inj.mp (List.append_cancel_left hchars)⟩
  · exact absurd (List.cons.inj hchars).1 (by decide)
  · exact absurd (List.cons.inj hchars).1 (by decide)
  · exact ⟨rfl, String.toList_inj.mp (List.append_cancel_left hchars)⟩

/-! ### Where siblings end -/

/-- **The lines do not begin like a drawing behind the margin.** -/
def Apart (margin : String) (lines : List String) : Prop :=
  ∀ line ∈ lines.head?, ∀ c ∈ marks, ¬ margin.toList ++ [c] <+: line.toList

theorem apart_nil (margin : String) : Apart margin [] := nofun

/-- A line of siblings does go on behind their margin. -/
theorem not_apart_drawAll (margin label : String) (children os : List Outline)
    (rest : List String) :
    ¬ Apart margin (drawAll margin (.node label children :: os) ++ rest) := by
  intro h
  obtain ⟨c, cs, hconnector, hc, -⟩ := connector_toList os.isEmpty
  apply h (margin ++ connector os.isEmpty ++ label) rfl c hc
  refine ⟨cs ++ label.toList, ?_⟩
  rw [String.toList_append, String.toList_append, hconnector, List.append_assoc, List.append_assoc]
  rfl

/-- What is apart from some siblings is apart from their children. -/
theorem Apart.nested {margin : String} {lines : List String} (h : Apart margin lines)
    (last : Bool) : Apart (margin ++ spacer last) lines := by
  intro line hline c _ hprefix
  obtain ⟨d, ds, hspacer, hd, -⟩ := spacer_toList last
  apply h line hline d hd
  refine List.IsPrefix.trans ⟨ds ++ [c], ?_⟩ hprefix
  rw [String.toList_append, hspacer, List.append_assoc, List.append_assoc]
  rfl

/-- The siblings of a node, and what comes behind them, are apart from its children. -/
theorem Apart.siblings {margin : String} {rest : List String} (h : Apart margin rest)
    (os : List Outline) : Apart (margin ++ spacer os.isEmpty) (drawAll margin os ++ rest) := by
  cases os with
  | nil => exact h.nested _
  | cons o os =>
    obtain ⟨label, children⟩ := o
    intro line hline c _ hprefix
    obtain rfl : margin ++ connector os.isEmpty ++ label = line := Option.some.inj hline
    obtain ⟨b, bs, hconnector, -, hbar, hblank⟩ := connector_toList os.isEmpty
    obtain ⟨d, ds, hspacer, -, hd⟩ := spacer_toList (Outline.node label children :: os).isEmpty
    -- behind the margin stands a connector on this line, and a bar or a space on those of children
    rw [String.toList_append, String.toList_append, String.toList_append, hconnector, hspacer,
      List.append_assoc, List.append_assoc, List.prefix_append_right_inj, List.cons_append,
      List.cons_append, List.cons_prefix_cons] at hprefix
    obtain ⟨rfl, -⟩ := hprefix
    exact hd.elim hbar hblank

/-- **Siblings with the same lines are the same**, whatever comes behind them that is not one of
them. -/
theorem drawAll_inj (os : List Outline) {os' : List Outline} {margin : String}
    {rest rest' : List String} (hrest : Apart margin rest) (hrest' : Apart margin rest')
    (h : drawAll margin os ++ rest = drawAll margin os' ++ rest') : os = os' ∧ rest = rest' := by
  match os, os' with
  | [], [] => exact ⟨rfl, h⟩
  | [], .node label' children' :: os' =>
    rw [drawAll, List.nil_append] at h
    exact absurd (h ▸ hrest) (not_apart_drawAll _ _ _ _ _)
  | .node label children :: os, [] =>
    rw [drawAll, List.nil_append] at h
    exact absurd (h ▸ hrest') (not_apart_drawAll _ _ _ _ _)
  | .node label children :: os, .node label' children' :: os' =>
    rw [drawAll_cons, drawAll_cons, List.cons_append, List.cons_append, List.append_assoc,
      List.append_assoc] at h
    obtain ⟨hline, hlines⟩ := List.cons.inj h
    rw [String.append_assoc, String.append_assoc] at hline
    obtain ⟨hlast, rfl⟩ := connector_append_inj ((String.append_right_inj margin).mp hline)
    -- the children are read first, and behind them the other siblings
    rw [← hlast] at hlines
    obtain ⟨rfl, hmore⟩ := drawAll_inj children (hrest.siblings os)
      (hlast ▸ hrest'.siblings os') hlines
    obtain ⟨rfl, rfl⟩ := drawAll_inj os hrest hrest' hmore
    exact ⟨rfl, rfl⟩

/-- **Trees with the same lines are the same.** -/
theorem draw_inj {o o' : Outline} {rest rest' : List String} (hrest : Apart "" rest)
    (hrest' : Apart "" rest') (h : o.draw ++ rest = o'.draw ++ rest') : o = o' ∧ rest = rest' := by
  obtain ⟨label, children⟩ := o
  obtain ⟨label', children'⟩ := o'
  obtain ⟨rfl, hlines⟩ := List.cons.inj h
  obtain ⟨rfl, rfl⟩ := drawAll_inj children hrest hrest' hlines
  exact ⟨rfl, rfl⟩

/-! ### Labels -/

mutual

/-- The labels of a tree in order, each with its depth. -/
def rowsAt (depth : Nat) : Outline → List (Nat × String)
  | .node label children => (depth, label) :: rowsAll (depth + 1) children

/-- The labels of siblings in order. -/
def rowsAll (depth : Nat) : List Outline → List (Nat × String)
  | [] => []
  | o :: os => rowsAt depth o ++ rowsAll depth os

end

theorem rowsAll_append (depth : Nat) (os os' : List Outline) :
    rowsAll depth (os ++ os') = rowsAll depth os ++ rowsAll depth os' := by
  induction os with
  | nil => rfl
  | cons o os ih => rw [List.cons_append, rowsAll, rowsAll, ih, List.append_assoc]

/-- No label has a line break in it. -/
def Legible (os : List Outline) : Prop := ∀ row ∈ rowsAll 0 os, '\n' ∉ row.2.toList

/-- A line of a text: it is not empty, and there is no line break in it. -/
def IsLine (line : String) : Prop := line.toList ≠ [] ∧ '\n' ∉ line.toList

theorem isLine_drawAll (os : List Outline) {margin : String} {depth : Nat}
    (hmargin : '\n' ∉ margin.toList) (hos : ∀ row ∈ rowsAll depth os, '\n' ∉ row.2.toList) :
    ∀ line ∈ drawAll margin os, IsLine line := by
  match os with
  | [] => exact nofun
  | .node label children :: os =>
    rw [rowsAll, rowsAt, List.cons_append, List.forall_mem_cons, List.forall_mem_append] at hos
    obtain ⟨hlabel, hchildren, hos⟩ := hos
    rw [drawAll_cons, List.forall_mem_cons, List.forall_mem_append]
    -- neither what connects a node nor what continues a margin has a line break
    have hmarks : '\n' ∉ (connector os.isEmpty).toList ∧ '\n' ∉ (spacer os.isEmpty).toList := by
      cases os.isEmpty <;> decide
    refine ⟨⟨?_, ?_⟩, isLine_drawAll children ?_ hchildren, isLine_drawAll os hmargin hos⟩
    · obtain ⟨c, cs, hconnector, -⟩ := connector_toList os.isEmpty
      simp [hconnector]
    · rw [String.toList_append, String.toList_append, List.mem_append, List.mem_append]
      exact fun h => h.elim (fun h => h.elim hmargin hmarks.1) hlabel
    · rw [String.toList_append, List.mem_append]
      exact fun h => h.elim hmargin hmarks.2

/-- The lines of a drawing can be told apart, if its labels can. -/
theorem isLine_draw {label : String} {children : List Outline} (hlabel : IsLine label)
    (hchildren : Legible children) : ∀ line ∈ (node label children).draw, IsLine line :=
  List.forall_mem_cons.mpr ⟨hlabel, isLine_drawAll children (by decide) hchildren⟩

end Offside.Outline
