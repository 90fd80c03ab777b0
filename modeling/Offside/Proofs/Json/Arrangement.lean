import Offside.Json.Record
import Mathlib.Data.List.Nodup

/-!
# The order of fields

Before a value is handed on, the fields of its objects are put in order, so what is decoded is not
the value that was encoded but a rearrangement of it. `Arranges` says of a function that it does
nothing else, and decoding does not depend on it.

* `Printable` — the values that JSON has a text for;
* `Arranges.record?`, `Arranges.variant?` — taking a rearranged value apart;
* `Restores` — some data is found again in its encoding, whatever the order of the fields, and the
  encoding can be printed;
* `Restores.list`, `Restores.option` — lists and data that may be missing.

Fields can be rearranged because a decoder looks them up by name (`Arranges.lookup_eq`), which needs
that no two have the same name.
-/

namespace Offside.Json

open scoped List

/-! ### Values with a text -/

mutual

/-- **A value that can be written**: its integers are words of 64 bits, its other numbers are
finite, and no two fields of an object have one name. -/
def Printable : Json → Prop
  | .int n => -(UInt64.size : Int) ≤ 2 * n ∧ n < UInt64.size
  | .float x => x.isFinite = true
  | .arr items => PrintableItems items
  | .obj fields => (fields.map Prod.fst).Nodup ∧ PrintableMembers fields
  | _ => True

/-- All of some values can be written. -/
def PrintableItems : List Json → Prop
  | [] => True
  | item :: items => item.Printable ∧ PrintableItems items

/-- The values of some fields can be written. -/
def PrintableMembers : List (String × Json) → Prop
  | [] => True
  | (_, value) :: fields => value.Printable ∧ PrintableMembers fields

end

/-! ### Rearrangements -/

/-- **A rearrangement of values**: the fields of each object are put in some order, and nothing else
is changed. -/
structure Arranges (f : Json → Json) : Prop where
  null : f .null = .null
  bool (b : Bool) : f (.bool b) = .bool b
  int (n : Int) : f (.int n) = .int n
  float (x : Binary64) : f (.float x) = .float x
  str (s : String) : f (.str s) = .str s
  arr (items : List Json) : f (.arr items) = .arr (items.map f)
  obj (fields : List (String × Json)) :
    ∃ fields', f (.obj fields) = .obj fields' ∧ fields' ~ fields.map (Prod.map id f)

theorem arranges_id : Arranges id where
  null := rfl
  bool _ := rfl
  int _ := rfl
  float _ := rfl
  str _ := rfl
  arr items := congrArg Json.arr (List.map_id items).symm
  obj fields := ⟨fields, rfl, by simp⟩

theorem sortItems_eq (items : List Json) : sortItems items = items.map sortFields := by
  induction items with
  | nil => rfl
  | cons item items ih => rw [sortItems, ih, List.map_cons]

theorem sortMembers_eq (fields : List (String × Json)) :
    sortMembers fields = fields.map (Prod.map id sortFields) := by
  induction fields with
  | nil => rfl
  | cons field fields ih => rw [sortMembers, ih, List.map_cons, Prod.map, id]

theorem arranges_sortFields : Arranges sortFields where
  null := by simp [sortFields]
  bool _ := by simp [sortFields]
  int _ := by simp [sortFields]
  float _ := by simp [sortFields]
  str _ := by simp [sortFields]
  arr items := by rw [sortFields, sortItems_eq]
  obj fields := by
    refine ⟨_, by rw [sortFields], ?_⟩
    -- each member is sorted inside first; sorting the members then only permutes them
    rw [← sortMembers_eq]
    exact List.mergeSort_perm _ _

namespace Arranges

variable {f : Json → Json}

theorem map_fst (fields : List (String × Json)) :
    (fields.map (Prod.map id f)).map Prod.fst = fields.map Prod.fst := by
  rw [List.map_map]
  rfl

theorem depthMembers_perm {fields fields' : List (String × Json)} (h : fields ~ fields') :
    depthMembers fields = depthMembers fields' := by
  induction h with
  | nil => rfl
  | cons field _ ih => rw [depthMembers, depthMembers, ih]
  | swap field field' fields => simp only [depthMembers, Nat.max_left_comm]
  | trans _ _ ih ih' => exact ih.trans ih'

mutual

/-- A rearrangement is nested as deeply as the value. -/
theorem depth_eq (hf : Arranges f) : ∀ j : Json, (f j).depth = j.depth
  | .null => by rw [hf.null]
  | .bool b => by rw [hf.bool]
  | .int n => by rw [hf.int]
  | .float x => by rw [hf.float]
  | .str s => by rw [hf.str]
  | .arr items => by rw [hf.arr, depth, depth, hf.depthItems_eq items]
  | .obj fields => by
    obtain ⟨fields', hobj, hperm⟩ := hf.obj fields
    rw [hobj, depth, depth, depthMembers_perm hperm, hf.depthMembers_eq fields]

theorem depthItems_eq (hf : Arranges f) : ∀ items : List Json,
    depthItems (items.map f) = depthItems items
  | [] => rfl
  | item :: items => by
    rw [List.map_cons, depthItems, depthItems, hf.depth_eq item, hf.depthItems_eq items]

theorem depthMembers_eq (hf : Arranges f) : ∀ fields : List (String × Json),
    depthMembers (fields.map (Prod.map id f)) = depthMembers fields
  | [] => rfl
  | (name, j) :: fields => by
    rw [List.map_cons, Prod.map, depthMembers, depthMembers, hf.depth_eq j,
      hf.depthMembers_eq fields]

end

/-! ### Taking rearranged values apart -/

/-- With names told apart, a field is found wherever it stands. -/
theorem lookup_eq_some {fields : List (String × Json)} (h : (fields.map Prod.fst).Nodup)
    {name : String} {j : Json} : fields.lookup name = some j ↔ (name, j) ∈ fields := by
  induction fields with
  | nil => simp
  | cons field fields ih =>
    obtain ⟨name', j'⟩ := field
    obtain ⟨hnew, hnames⟩ := List.nodup_cons.mp h
    by_cases heq : name = name'
    · subst heq
      -- the name is new, so it is not found once more behind this field
      have hnot : (name, j) ∉ fields := fun hmem => hnew (List.mem_map.mpr ⟨_, hmem, rfl⟩)
      simp [hnot, eq_comm]
    · have hbeq : (name == name') = false := by simpa using heq
      simp [List.lookup_cons, hbeq, ih hnames, heq]

theorem lookup_eq {fields fields' : List (String × Json)} (hnames : (fields.map Prod.fst).Nodup)
    (h : fields' ~ fields.map (Prod.map id f)) (name : String) :
    fields'.lookup name = (fields.lookup name).map f := by
  -- a permutation keeps the names distinct, so a lookup finds what is there
  have hnames' : (fields'.map Prod.fst).Nodup := by rwa [(h.map Prod.fst).nodup_iff, map_fst]
  ext j
  rw [lookup_eq_some hnames', h.mem_iff, Option.map_eq_some_iff, List.mem_map]
  constructor
  · rintro ⟨field, hmem, heq⟩
    cases heq
    exact ⟨field.2, (lookup_eq_some hnames).mpr hmem, rfl⟩
  · rintro ⟨j', hj', rfl⟩
    exact ⟨(name, j'), (lookup_eq_some hnames).mp hj', rfl⟩

/-- **The fields of a rearranged record** are its rearranged fields. -/
theorem record? (hf : Arranges f) {fields : List (String × Json)}
    (hnames : (fields.map Prod.fst).Nodup) (names : List String) :
    (f (.obj fields)).record? names = some (names.map fun name => (fields.lookup name).map f) := by
  obtain ⟨fields', hobj, hperm⟩ := hf.obj fields
  rw [hobj, Json.record?]
  simp only [lookup_eq hnames hperm]

/-- **A rearranged variant** is the same case. -/
theorem variant? (hf : Arranges f) (name : String) (j : Json) :
    (f (.obj [(name, j)])).variant? = some (name, some (f j)) := by
  obtain ⟨fields', hobj, hperm⟩ := hf.obj [(name, j)]
  rw [hobj, List.perm_singleton.mp hperm]
  rfl

theorem variant?_str (hf : Arranges f) (name : String) :
    (f (.str name)).variant? = some (name, none) := by
  rw [hf.str]
  rfl

end Arranges

/-! ### Data that is found again -/

variable {α : Type} {encode : α → Json} {decode : Json → Option α}

/-- **Some data is restored**: it is found again in its encoding, whatever the order of the fields,
and the encoding can be printed. -/
structure Restores (encode : α → Json) (decode : Json → Option α) (a : α) : Prop where
  printable : (encode a).Printable
  arranged : ∀ ⦃f : Json → Json⦄, Arranges f → decode (f (encode a)) = some a

theorem Restores.list {as : List α} (h : ∀ a ∈ as, Restores encode decode a) :
    Restores (ofList encode) (list? decode) as := by
  constructor
  · show PrintableItems (as.map encode)
    -- the items one by one, first for the printing and then for the reading
    induction as with
    | nil => trivial
    | cons a as ih =>
      obtain ⟨ha, has⟩ := List.forall_mem_cons.mp h
      exact ⟨ha.printable, ih has⟩
  · intro f hf
    rw [ofList, hf.arr, List.map_map]
    show (as.map (f ∘ encode)).mapM decode = some as
    induction as with
    | nil => rfl
    | cons a as ih =>
      obtain ⟨ha, has⟩ := List.forall_mem_cons.mp h
      rw [List.map_cons, List.mapM_cons, ih has, Function.comp, ha.arranged hf]
      rfl

/-- What may be missing is told from what is there, if nothing is encoded as `null`. -/
theorem Restores.option {a : Option α} (h : ∀ b ∈ a, Restores encode decode b)
    (hnull : decode .null = none) : Restores (ofOption encode) (option? decode) a := by
  cases a with
  | none =>
    refine ⟨trivial, fun f hf => ?_⟩
    rw [ofOption, hf.null]
    rfl
  | some b =>
    have hb := h b rfl
    refine ⟨hb.printable, fun f hf => ?_⟩
    have hdecode := hb.arranged hf
    -- null is read as nothing, so a value must not be null
    have hne : f (encode b) ≠ .null := by
      intro heq
      rw [heq, hnull] at hdecode
      cases hdecode
    rw [ofOption, option?, hdecode]
    · rfl
    · exact hne

end Offside.Json
