import Offside.Proofs.Linewise.Lexeme

/-!
# How tokens are spelled

A lexeme is a word of the language, a truth value, a name, an operator, or a decimal number, and a
token carries nothing that its lexeme does not say. `Token.Written` states this case by case;
`Linewise.written_of_meaning?` shows that it holds of all that a lexeme can mean.
-/

namespace Offside

open Token Linewise

namespace Token

/-- The sign before a number. -/
def sign (negative : Bool) : List Char := if negative then ['-'] else []

/-- **How a token of some kind and value is written.** -/
inductive Written : List Char → Kind → Option Value → Prop
  | word {text : String} {kind : Kind} : (text, kind) ∈ Kind.words → kind ≠ .boolLiteral →
    Written text.toList kind none
  | truth (b : Bool) : Written (boolText b).toList .boolLiteral (some (.bool b))
  | name {s : String} : isWord s.toList = true → Kind.ofWord? s = none →
    Written s.toList .identifier (some (.name s))
  | operator {cs : List Char} {kind : Kind} : (cs, kind) ∈ operators → Written cs kind none
  | int {negative : Bool} {digits : List Char} {n : Int64} : isDigits digits = true →
    n.toInt = (if negative then -(Nat.ofDigitChars 10 digits 0 : Int)
      else Nat.ofDigitChars 10 digits 0) →
    Written (sign negative ++ digits) .intLiteral (some (.int n))
  | float {negative : Bool} {whole fraction : List Char} {x : Binary64} :
    isDigits whole = true → isDigits fraction = true →
    x = .ofDecimal negative (Nat.ofDigitChars 10 (whole ++ fraction) 0) (-(fraction.length : Int)) →
    x.isFinite = true →
    Written (sign negative ++ whole ++ '.' :: fraction) .floatLiteral (some (.float x))

/-- What stands for the layout of the lines is written nowhere. -/
theorem Written.isLayout {cs : List Char} {kind : Kind} {value : Option Value}
    (h : Written cs kind value) : kind.isLayout = false := by
  cases h with
  | word hw _ =>
    -- no entry of either table is of such a kind, which is decided entry by entry
    have hwords : (Kind.words.all fun w => !w.2.isLayout) = true := by decide
    simpa using List.all_eq_true.mp hwords _ hw
  | operator hop =>
    have hops : (operators.all fun op => !op.2.isLayout) = true := by decide
    simpa using List.all_eq_true.mp hops _ hop
  | truth _ => rfl
  | name _ _ => rfl
  | int _ _ => rfl
  | float _ _ _ _ => rfl

end Token

namespace Linewise

/-- The characters of a number are its sign and its digits. -/
theorem numeral?_spells {signed : Bool} {cs : List Char} {n : Numeral}
    (h : numeral? signed cs = some n) :
    cs = sign n.negative ++ magnitude n ∧ isDigits n.whole = true ∧
      ∀ c ∈ n.fraction, c.isDigit = true := by
  unfold numeral? at h
  split at h
  next cs =>
    -- with a minus, which is read only where a sign may stand
    obtain ⟨-, hn⟩ := Option.ite_none_right_eq_some.mp h
    obtain ⟨hneg, hwhole, hfraction, hcs⟩ := unsigned?_eq_some.mp hn
    refine ⟨?_, hwhole, hfraction⟩
    rw [hneg, magnitude, ← hcs]
    rfl
  next =>
    obtain ⟨hneg, hwhole, hfraction, hcs⟩ := unsigned?_eq_some.mp h
    refine ⟨?_, hwhole, hfraction⟩
    rw [hneg, magnitude, ← hcs]
    rfl

theorem toInt_of_int? {n : Numeral} {v : Int64} (h : n.int? = some v) :
    v.toInt = (if n.negative then -(Nat.ofDigitChars 10 n.whole 0 : Int)
      else Nat.ofDigitChars 10 n.whole 0) := by
  unfold Numeral.int? at h
  obtain ⟨⟨hmin, hmax⟩, hv⟩ := Option.ite_none_right_eq_some.mp h
  rw [← Option.some.inj hv]
  have hlo : -9223372036854775808 ≤ Int64.minValue.toInt := by decide
  have hhi : Int64.maxValue.toInt < 9223372036854775808 := by decide
  exact Int64.toInt_ofInt_of_le (by omega) (by omega)

theorem written_of_ofNumeral {n : Numeral} {kind : Kind} {value : Option Value}
    (h : ofNumeral n = .ok (kind, value)) (hwhole : isDigits n.whole = true)
    (hfraction : ∀ c ∈ n.fraction, c.isDigit = true) :
    Written (sign n.negative ++ magnitude n) kind value := by
  unfold ofNumeral Numeral.value? at h
  -- without digits behind a point it is an integer
  split_ifs at h with hpoint
  · cases hv : n.int? with
    | none => simp [hv] at h
    | some v =>
      simp only [hv, Option.map_some] at h
      cases h
      rw [magnitude, if_pos hpoint, List.append_nil]
      exact .int hwhole (toInt_of_int? hv)
  · cases hv : n.float? with
    | none => simp [hv] at h
    | some x =>
      simp only [hv, Option.map_some] at h
      cases h
      obtain ⟨hfinite, hx⟩ := Option.ite_none_right_eq_some.mp hv
      cases hx
      rw [magnitude, if_neg hpoint, ← List.append_assoc]
      exact .float hwhole (isDigits_iff.mpr ⟨by simpa using hpoint, hfraction⟩) rfl hfinite

theorem written_ofWord {cs : List Char} {kind : Kind} {value : Option Value}
    (hword : isWord cs = true) (h : ofWord (String.ofList cs) = (kind, value)) :
    Written cs kind value := by
  obtain ⟨word, rfl⟩ : ∃ word : String, cs = word.toList := ⟨String.ofList cs, by simp⟩
  rw [String.ofList_toList] at h
  -- a lookup in the table finds an entry of it
  have hmem : ∀ {kind}, Kind.ofWord? word = some kind → (word, kind) ∈ Kind.words := by
    intro kind hlookup
    obtain ⟨before, after, hsplit, -⟩ := List.lookup_eq_some_iff.mp hlookup
    simp [hsplit]
  unfold ofWord at h
  split at h
  next hbool =>
    -- the truth values are the two words of their kind
    cases h
    have htruth : (Kind.words.all fun w => w.2 ≠ .boolLiteral || boolText (w.1 == "True") = w.1) =
        true := by decide
    have htext : boolText (word == "True") = word := by
      simpa using List.all_eq_true.mp htruth _ (hmem hbool)
    have hwritten := Written.truth (word == "True")
    rwa [htext] at hwritten
  next hne hkind =>
    cases h
    exact .word (hmem hkind) hne
  next hnone =>
    cases h
    exact .name hword hnone

/-- **A lexeme says all that its token carries.** -/
theorem written_of_meaning? {signed : Bool} {cs : List Char} {kind : Kind} {value : Option Value}
    (h : meaning? signed cs = some (.ok (kind, value))) : Written cs kind value := by
  unfold meaning? at h
  split at h
  next n hn =>
    obtain ⟨rfl, hwhole, hfraction⟩ := numeral?_spells hn
    exact written_of_ofNumeral (Option.some.inj h) hwhole hfraction
  next =>
    -- a word, or else an entry of the table of operators
    split_ifs at h with hword
    · exact written_ofWord hword (Except.ok.inj (Option.some.inj h))
    · obtain ⟨_, hkind, heq⟩ := Option.map_eq_some_iff.mp h
      cases heq
      obtain ⟨before, after, hsplit, -⟩ := List.lookup_eq_some_iff.mp hkind
      exact .operator (by simp [hsplit])

end Linewise

end Offside
