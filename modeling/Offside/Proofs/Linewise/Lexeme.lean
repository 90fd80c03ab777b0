import Mathlib.Data.List.TakeWhile
import Offside.Proofs.Linewise.Reading

/-!
# One lexeme is the longest one

`Token.Lexeme.read` tries numbers, then words, then operators. Each attempt takes all it can, and
none of the three forms begins like another, but for the minus sign of a number, which is an
operator by itself. So what is read is the longest beginning that is a lexeme at all
(`longest?_eq_read`), and what comes after a character that no lexeme has in it plays no part
(`longest?_append`).
-/

namespace Offside.Linewise

open Token

/-! ### Longest beginnings -/

/-- Nothing means nothing. -/
theorem meaning?_nil (signed : Bool) : meaning? signed [] = none := by
  cases signed <;> decide

/-- The longest lexeme is found: a beginning that is a lexeme, if no longer one is. -/
theorem longest?_eq_some {signed : Bool} {lexeme rest : List Char} {m : Meaning}
    (hm : meaning? signed lexeme = some m)
    (hmax : ∀ more, more <+: rest → more ≠ [] → meaning? signed (lexeme ++ more) = none) :
    longest? signed (lexeme ++ rest) = some (lexeme, m) := by
  -- the beginnings are those of the lexeme, the last of which it is itself, and longer ones
  have hlong : (rest.inits.tail.map fun more => lexeme ++ more).filterMap
      (fun p => (meaning? signed p).map (p, ·)) = [] := by
    rw [List.filterMap_eq_nil_iff]
    intro p hp
    obtain ⟨more, hmore, rfl⟩ := List.mem_map.mp hp
    have hne : more ≠ [] := by
      cases rest with
      | nil => simp at hmore
      | cons c cs =>
        rw [List.inits_cons, List.tail_cons, List.mem_map] at hmore
        obtain ⟨more', -, rfl⟩ := hmore
        exact List.cons_ne_nil c more'
    rw [hmax more ((List.mem_inits _ _).mp (List.mem_of_mem_tail hmore)) hne]
    rfl
  -- the lexeme is the last of its own beginnings
  have hself : lexeme.inits = lexeme.inits.dropLast ++ [lexeme] := by
    have hlast : lexeme.inits.getLast? = some lexeme := by
      rw [List.getLast?_eq_getElem?, List.length_inits]
      simp
    obtain ⟨ys, hys⟩ := List.getLast?_eq_some_iff.mp hlast
    rw [hys, List.dropLast_concat]
  unfold longest?
  rw [List.inits_append, List.filterMap_append, hlong, List.append_nil, hself,
    List.filterMap_append]
  simp [hm]

/-- There is no longest lexeme if no beginning is one. -/
theorem longest?_eq_none {signed : Bool} {cs : List Char}
    (h : ∀ p, p <+: cs → meaning? signed p = none) : longest? signed cs = none := by
  unfold longest?
  rw [List.getLast?_eq_none_iff, List.filterMap_eq_nil_iff]
  intro p hp
  rw [h p ((List.mem_inits _ _).mp hp)]
  rfl

/-! ### The characters of lexemes -/

/-- What stands at the beginning of some characters, and what comes after it. -/
theorem takeWhile_append_boundary {P : Char → Bool} {p cs : List Char} (hp : p.all P = true)
    (hcs : ∀ c ∈ cs.head?, P c = false) :
    (p ++ cs).takeWhile P = p ∧ (p ++ cs).dropWhile P = cs := by
  rw [List.all_eq_true] at hp
  rw [List.takeWhile_append_of_pos hp, List.dropWhile_append_of_pos hp]
  cases cs with
  | nil => simp
  | cons c cs =>
    have hc : ¬ P c = true := by simp [hcs c rfl]
    rw [List.takeWhile_cons_of_neg hc, List.dropWhile_cons_of_neg hc, List.append_nil]
    exact ⟨rfl, rfl⟩

/-- What comes next begins with a character of another sort. -/
theorem boundary_cons {P : Char → Bool} {c : Char} {cs : List Char} (hc : P c = false) :
    ∀ d ∈ (c :: cs).head?, P d = false := by
  intro d hd
  cases hd
  exact hc

/-- Digits, and at least one. -/
theorem isDigits_iff {cs : List Char} :
    isDigits cs = true ↔ cs ≠ [] ∧ ∀ c ∈ cs, c.isDigit = true := by
  simp [isDigits]

/-- A character that begins words, and then characters that go on with them. -/
theorem isWord_iff {cs : List Char} :
    isWord cs = true ↔ ∃ c cs', cs = c :: cs' ∧ isWordStart c = true ∧
      ∀ d ∈ cs, isWordPart d = true := by
  cases cs with
  | nil => simp [isWord]
  | cons c cs => simp [isWord]

/-- A number without a sign, as it is spelled. -/
theorem unsigned?_eq_some {negative : Bool} {cs : List Char} {n : Numeral} :
    unsigned? negative cs = some n ↔
      n.negative = negative ∧ isDigits n.whole = true ∧ (∀ c ∈ n.fraction, c.isDigit = true) ∧
        cs = n.whole ++ if n.fraction.isEmpty then [] else '.' :: n.fraction := by
  have hpoint : ∀ {ds : List Char}, (∀ c ∈ ds, c.isDigit = true) → '.' ∉ ds := by
    intro ds hds hmem
    exact absurd (hds '.' hmem) (by decide)
  constructor
  · intro h
    -- the parts between the points put together again are the characters
    have hjoin : ['.'].intercalate (cs.splitOn '.') = cs := List.intercalate_splitOn '.'
    unfold unsigned? at h
    split at h
    next whole hsplit =>
      rw [hsplit] at hjoin
      obtain ⟨hd, hn⟩ := Option.ite_none_right_eq_some.mp h
      cases hn
      exact ⟨rfl, hd, by simp, by simpa using hjoin.symm⟩
    -- two parts: neither of them may be empty
    next whole fraction hsplit =>
      rw [hsplit] at hjoin
      obtain ⟨hd, hn⟩ := Option.ite_none_right_eq_some.mp h
      cases hn
      rw [Bool.and_eq_true] at hd
      obtain ⟨hne, hall⟩ := isDigits_iff.mp hd.2
      refine ⟨rfl, hd.1, hall, ?_⟩
      have hempty : fraction.isEmpty = false := by simpa using hne
      rw [hempty]
      simpa using hjoin.symm
    next => cases h
  · rintro ⟨rfl, hw, hf, rfl⟩
    obtain ⟨-, hall⟩ := isDigits_iff.mp hw
    unfold unsigned?
    cases hfrac : n.fraction with
    | nil =>
      rw [show (([] : List Char).isEmpty) = true from rfl, if_pos rfl, List.append_nil,
        List.splitOn_eq_singleton (hpoint hall)]
      simp [hw, ← hfrac]
    | cons c cs =>
      rw [hfrac] at hf
      have hd : isDigits (c :: cs) = true := isDigits_iff.mpr ⟨List.cons_ne_nil c cs, hf⟩
      rw [show (c :: cs).isEmpty = false from rfl, if_neg (by simp),
        List.splitOn_append_cons_self_of_not_mem (hpoint hall),
        List.splitOn_eq_singleton (hpoint hf)]
      rw [← hfrac] at hd ⊢
      simp [hw, hd]

/-! ### Numbers -/

/-- The characters of a number without its sign. -/
def magnitude (n : Numeral) : List Char :=
  n.whole ++ if n.fraction.isEmpty then [] else '.' :: n.fraction

/-- A number is its sign and its magnitude. -/
theorem chars_eq (n : Numeral) :
    n.chars = (if n.negative then ['-'] else []) ++ magnitude n := by
  rw [Numeral.chars, magnitude, List.append_assoc]

/-- Without a sign in front, no sign is looked for. -/
theorem numeral?_cons {signed : Bool} {c : Char} (cs : List Char) (hc : c ≠ '-') :
    numeral? signed (c :: cs) = unsigned? false (c :: cs) := by
  unfold numeral?
  split
  next h => exact absurd (List.cons.inj h).1 hc
  next => rfl

/-- Nor is it when the number is read off the front. -/
theorem read_cons {signed : Bool} {c : Char} (cs : List Char) (hc : c ≠ '-') :
    Numeral.read signed (c :: cs) = Numeral.readUnsigned false (c :: cs) := by
  unfold Numeral.read
  split
  next h => exact absurd (List.cons.inj h).1 hc
  next => rfl

/-- What is read off the front as a number without a sign is spelled by it. -/
theorem readUnsigned_spells {negative : Bool} {cs : List Char} {n : Numeral}
    (h : Numeral.readUnsigned negative cs = some n) :
    magnitude n <+: cs ∧ unsigned? negative (magnitude n) = some n := by
  have hcs : cs = cs.takeWhile Char.isDigit ++ cs.dropWhile Char.isDigit :=
    List.takeWhile_append_dropWhile.symm
  have hwhole : ∀ c ∈ cs.takeWhile Char.isDigit, c.isDigit = true :=
    fun c hc => List.mem_takeWhile_imp hc
  unfold Numeral.readUnsigned at h
  dsimp only at h
  split at h
  next => cases h
  next hne =>
    have hdigits : isDigits (cs.takeWhile Char.isDigit) = true :=
      isDigits_iff.mpr ⟨by simpa using hne, hwhole⟩
    split at h
    next rest hrest =>
      cases h
      refine ⟨?_, unsigned?_eq_some.mpr ⟨rfl, hdigits, fun c hc => List.mem_takeWhile_imp hc, rfl⟩⟩
      rw [hrest] at hcs
      -- what is read of the part behind the point is a beginning of it
      obtain ⟨more, hmore⟩ := rest.takeWhile_prefix Char.isDigit
      -- a point with no digit behind it is left alone
      by_cases hempty : (rest.takeWhile Char.isDigit).isEmpty
      · exact ⟨'.' :: rest, by simp [magnitude, hempty, ← hcs]⟩
      · refine ⟨more, ?_⟩
        simp only [magnitude, hempty, if_false, Bool.false_eq_true]
        rw [List.append_assoc, List.cons_append, hmore, ← hcs]
    next =>
      cases h
      refine ⟨⟨cs.dropWhile Char.isDigit, by simp [magnitude]⟩, ?_⟩
      exact unsigned?_eq_some.mpr ⟨rfl, hdigits, by simp, rfl⟩

/-- A number at the front is read, and at least all of it. -/
theorem readUnsigned_append {negative : Bool} {p : List Char} {m : Numeral}
    (h : unsigned? negative p = some m) (rest : List Char) :
    ∃ n, Numeral.readUnsigned negative (p ++ rest) = some n ∧
      p.length ≤ (magnitude n).length := by
  obtain ⟨-, hw, hf, rfl⟩ := unsigned?_eq_some.mp h
  obtain ⟨hne, hall⟩ := isDigits_iff.mp hw
  unfold Numeral.readUnsigned
  dsimp only
  -- the digits before the point are read in any case
  rw [List.append_assoc, List.takeWhile_append_of_pos hall, List.dropWhile_append_of_pos hall,
    if_neg (by simp [hne])]
  cases hfrac : m.fraction with
  | nil =>
    -- without a point, more digits may follow
    simp only [List.isEmpty_nil, if_true, List.append_nil, List.nil_append]
    split
    · refine ⟨_, rfl, ?_⟩
      rw [magnitude, List.length_append, List.length_append]
      omega
    · refine ⟨_, rfl, ?_⟩
      rw [magnitude, List.length_append, List.length_append]
      omega
  | cons c cs =>
    rw [hfrac] at hf
    have hpoint : Char.isDigit '.' = false := by decide
    simp only [List.isEmpty_cons, Bool.false_eq_true, if_false, List.cons_append]
    rw [List.takeWhile_cons_of_neg (by simp [hpoint]),
      List.dropWhile_cons_of_neg (by simp [hpoint]), List.append_nil]
    refine ⟨_, rfl, ?_⟩
    -- behind a point, more digits may follow too
    rw [← List.cons_append, List.takeWhile_append_of_pos hf]
    simp only [magnitude, List.cons_append, List.isEmpty_cons, Bool.false_eq_true, if_false,
      List.length_append, List.length_cons]
    omega

/-- A number without a sign begins with a digit. -/
theorem magnitude_first {negative : Bool} {p : List Char} {n : Numeral}
    (h : unsigned? negative p = some n) : ∃ c cs, p = c :: cs ∧ c.isDigit = true := by
  obtain ⟨-, hw, -, rfl⟩ := unsigned?_eq_some.mp h
  obtain ⟨hne, hall⟩ := isDigits_iff.mp hw
  obtain ⟨c, cs, hcs⟩ := List.exists_cons_of_ne_nil hne
  exact ⟨c, _, by rw [hcs, List.cons_append], hall c (by simp [hcs])⟩

/-- A digit is no sign. -/
theorem ne_minus_of_isDigit {c : Char} (h : c.isDigit = true) : c ≠ '-' := by
  rintro rfl
  exact absurd h (by decide)

/-- **A number that is read** is a beginning, and spells itself. -/
theorem read_spells {signed : Bool} {cs : List Char} {n : Numeral}
    (h : Numeral.read signed cs = some n) :
    n.chars <+: cs ∧ numeral? signed n.chars = some n := by
  -- a sign is part of the number only where one may stand
  by_cases hminus : ∃ rest, cs = '-' :: rest
  · obtain ⟨rest, rfl⟩ := hminus
    cases signed with
    | false => cases h
    | true =>
      have hread : Numeral.readUnsigned true rest = some n := h
      obtain ⟨hpre, hspell⟩ := readUnsigned_spells hread
      have hneg : n.negative = true := (unsigned?_eq_some.mp hspell).1
      rw [chars_eq, hneg, if_pos rfl, List.singleton_append]
      exact ⟨(List.prefix_cons_inj '-').mpr hpre, hspell⟩
  · have hread : Numeral.readUnsigned false cs = some n := by
      cases cs with
      | nil => cases h
      | cons c cs =>
        rwa [read_cons cs fun hc => hminus ⟨cs, by rw [hc]⟩] at h
    obtain ⟨hpre, hspell⟩ := readUnsigned_spells hread
    have hneg : n.negative = false := (unsigned?_eq_some.mp hspell).1
    rw [chars_eq, hneg, if_neg (by simp), List.nil_append]
    -- the first character is a digit, so no sign is looked for
    obtain ⟨c, ds, heq, hc⟩ := magnitude_first hspell
    refine ⟨hpre, ?_⟩
    rw [heq, numeral?_cons ds (ne_minus_of_isDigit hc), ← heq]
    exact hspell

/-- **A number at the front is read**, and at least all of it. -/
theorem read_append {signed : Bool} {p : List Char} {m : Numeral}
    (h : numeral? signed p = some m) (rest : List Char) :
    ∃ n, Numeral.read signed (p ++ rest) = some n ∧ p.length ≤ n.chars.length := by
  by_cases hminus : ∃ q, p = '-' :: q
  · obtain ⟨q, rfl⟩ := hminus
    cases signed with
    | false => cases h
    | true =>
      have hq : unsigned? true q = some m := h
      -- behind the minus, digits are read as without it
      obtain ⟨n, hn, hlen⟩ := readUnsigned_append hq rest
      have hneg : n.negative = true := (unsigned?_eq_some.mp (readUnsigned_spells hn).2).1
      refine ⟨n, hn, ?_⟩
      rw [chars_eq, hneg, if_pos rfl, List.singleton_append, List.length_cons, List.length_cons]
      omega
  · obtain ⟨c, ds, rfl⟩ : ∃ c ds, p = c :: ds := by
      cases p with
      | nil => cases h
      | cons c ds => exact ⟨c, ds, rfl⟩
    have hc : c ≠ '-' := fun hc => hminus ⟨ds, by rw [hc]⟩
    rw [numeral?_cons ds hc] at h
    obtain ⟨n, hn, hlen⟩ := readUnsigned_append h rest
    refine ⟨n, ?_, ?_⟩
    · rw [List.cons_append, read_cons _ hc, ← List.cons_append]
      exact hn
    · rw [chars_eq, List.length_append]
      omega

/-! ### Words and operators -/

/-- A digit begins no word. -/
theorem not_isDigit_of_isWordStart {c : Char} (h : isWordStart c = true) : c.isDigit = false := by
  rw [Bool.eq_false_iff]
  intro hd
  have hrange : 48 ≤ c.toNat ∧ c.toNat ≤ 57 := by
    simp only [Char.isDigit, Bool.and_eq_true, decide_eq_true_eq] at hd
    exact hd
  have halpha : c.isAlpha = (decide (65 ≤ c.val ∧ c.val ≤ 90) ||
      (decide (97 ≤ c.val) && decide (c.val ≤ 122))) := rfl
  simp only [isWordStart, halpha, Bool.or_eq_true, Bool.and_eq_true, decide_eq_true_eq,
    beq_iff_eq] at h
  -- the letters come after the digits in the order of characters
  rcases h with (⟨h₁, -⟩ | ⟨h₁, -⟩) | rfl
  · have : 65 ≤ c.toNat := h₁
    omega
  · have : 97 ≤ c.toNat := h₁
    omega
  · exact absurd hd (by decide)

/-- What begins a word can go on with it too. -/
theorem isWordPart_of_isWordStart {c : Char} (h : isWordStart c = true) : isWordPart c = true := by
  simp only [isWordStart, isWordPart, Char.isAlphanum, Bool.or_eq_true] at h ⊢
  tauto

/-- Where a word begins there is no number. -/
theorem read_eq_none_of_isWordStart {signed : Bool} {c : Char} (cs : List Char)
    (h : isWordStart c = true) : Numeral.read signed (c :: cs) = none := by
  have hminus : c ≠ '-' := by
    rintro rfl
    exact absurd h (by decide)
  rw [read_cons cs hminus, Numeral.readUnsigned]
  simp [not_isDigit_of_isWordStart h]

/-- A word means what it is looked up as. -/
theorem meaning?_of_isWord {signed : Bool} {cs : List Char} (h : isWord cs = true) :
    meaning? signed cs = some (.ok (ofWord (String.ofList cs))) := by
  obtain ⟨c, cs', rfl, hstart, -⟩ := isWord_iff.mp h
  -- a word is no number: if it were one, its reader would find it
  have hnone : numeral? signed (c :: cs') = none := by
    cases hn : numeral? signed (c :: cs') with
    | none => rfl
    | some n =>
      obtain ⟨m, hm, -⟩ := read_append hn []
      rw [List.append_nil, read_eq_none_of_isWordStart cs' hstart] at hm
      cases hm
  simp [meaning?, hnone, h]

/-- The operators are neither numbers nor words, and their first characters begin no word. -/
theorem operators_meaning : ∀ op ∈ operators, op.1 ≠ [] ∧ op.1.head?.any isWordStart = false ∧
    ∀ signed, meaning? signed op.1 = some (.ok (op.2, none)) := by
  decide

/-- An operator of two characters is read whole. -/
theorem operator?_append {op : List Char × Kind} (hop : op ∈ operators) (h : op.1.length = 2)
    (signed : Bool) (rest : List Char) :
    Numeral.read signed (op.1 ++ rest) = none ∧ operator? (op.1 ++ rest) = some op := by
  simp only [operators, List.mem_cons, List.not_mem_nil, or_false] at hop
  rcases hop with rfl | rfl | rfl | rfl | rfl | rfl | rfl | rfl | rfl | rfl | rfl | rfl | rfl |
    rfl | rfl | rfl | rfl <;>
    first | (cases signed <;> exact ⟨rfl, rfl⟩) | (exact absurd h (by decide))

/-- Operators have one character or two, which is why trying the longer ones first is enough. -/
theorem operators_length : ∀ op ∈ operators, op.1.length = 1 ∨ op.1.length = 2 := by
  decide

/-! ### What is read -/

/-- The characters of a lexeme, and what they mean. -/
def ofLexeme : Lexeme → Option (List Char × Meaning)
  | .token chars kind value => some (chars, .ok (kind, value))
  | .outOfRange chars => some (chars, .error .numberOutOfRange)
  | .unexpected => none

section Read

variable {signed : Bool} {cs : List Char}

/-- A number that is read is what the lexeme means. -/
theorem ofLexeme_number {n : Numeral} (h : Numeral.read signed cs = some n) :
    ofLexeme (Lexeme.read signed cs) = some (n.chars, ofNumeral n) := by
  simp only [Lexeme.read, h, ofNumeral]
  cases n.value? with
  | none => rfl
  | some kv => rfl

/-- A word goes as far as its characters do. -/
theorem ofLexeme_word (hn : Numeral.read signed cs = none)
    (h : cs.head?.any isWordStart = true) :
    ofLexeme (Lexeme.read signed cs) =
      some (cs.takeWhile isWordPart, .ok (ofWord (String.ofList (cs.takeWhile isWordPart)))) := by
  -- the first character is part of the word, so the word is not empty
  have hne : (cs.takeWhile isWordPart).isEmpty = false := by
    cases cs with
    | nil => simp at h
    | cons c cs =>
      have hc : isWordPart c = true := isWordPart_of_isWordStart (by simpa using h)
      simp [List.takeWhile_cons_of_pos hc]
  rw [Lexeme.read, hn]
  simp only [h, if_true, hne, Bool.false_eq_true, if_false]
  rfl

/-- What is neither a number nor a word can be an operator. -/
theorem ofLexeme_operator (hn : Numeral.read signed cs = none)
    (h : cs.head?.any isWordStart = false) :
    ofLexeme (Lexeme.read signed cs) = (operator? cs).map fun op => (op.1, .ok (op.2, none)) := by
  rw [Lexeme.read, hn]
  simp only [h, Bool.false_eq_true, if_false, List.isEmpty_nil, if_true]
  cases operator? cs <;> rfl

/-- An operator that is found stands at the front. -/
theorem operator?_eq_some {op : List Char × Kind} (h : operator? cs = some op) :
    op ∈ operators ∧ op.1 <+: cs := by
  refine ⟨List.mem_of_find?_eq_some h, ?_⟩
  have hpre := List.find?_some h
  exact List.isPrefixOf_iff_prefix.mp hpre

/-- What is read is a beginning, and a lexeme. -/
theorem meaning?_of_read {lexeme : List Char} {m : Meaning}
    (h : ofLexeme (Lexeme.read signed cs) = some (lexeme, m)) :
    lexeme <+: cs ∧ meaning? signed lexeme = some m := by
  -- in the order of the reader: a number, a word, an operator
  cases hn : Numeral.read signed cs with
  | some n =>
    rw [ofLexeme_number hn] at h
    cases h
    obtain ⟨hpre, hspell⟩ := read_spells hn
    exact ⟨hpre, by rw [meaning?, hspell]⟩
  | none =>
    cases hw : cs.head?.any isWordStart with
    | true =>
      rw [ofLexeme_word hn hw] at h
      cases h
      -- a word goes as far as its characters do
      refine ⟨cs.takeWhile_prefix isWordPart, meaning?_of_isWord (isWord_iff.mpr ?_)⟩
      cases cs with
      | nil => simp at hw
      | cons c cs =>
        have hc : isWordStart c = true := by simpa using hw
        refine ⟨c, cs.takeWhile isWordPart, ?_, hc, fun d hd => List.mem_takeWhile_imp hd⟩
        exact List.takeWhile_cons_of_pos (isWordPart_of_isWordStart hc)
    | false =>
      rw [ofLexeme_operator hn hw] at h
      obtain ⟨op, hop, heq⟩ := Option.map_eq_some_iff.mp h
      cases heq
      obtain ⟨hmem, hpre⟩ := operator?_eq_some hop
      exact ⟨hpre, (operators_meaning op hmem).2.2 signed⟩

/-- From an operator on, something at least as long as it is read. -/
theorem read_of_operator {p : List Char} {kind : Kind} (hop : (p, kind) ∈ operators)
    (rest : List Char) :
    ∃ lexeme m, ofLexeme (Lexeme.read signed (p ++ rest)) = some (lexeme, m) ∧
      p.length ≤ lexeme.length := by
  obtain ⟨hne, hstart, -⟩ := operators_meaning _ hop
  -- no operator begins with a letter, so no word is read
  have hhead : (p ++ rest).head?.any isWordStart = false := by
    obtain ⟨c, p', rfl⟩ := List.exists_cons_of_ne_nil hne
    exact hstart
  rcases operators_length _ hop with hlen | hlen
  · -- one character: whatever is read has at least one
    obtain ⟨lexeme, m, hread⟩ :
        ∃ lexeme m, ofLexeme (Lexeme.read signed (p ++ rest)) = some (lexeme, m) := by
      cases hn : Numeral.read signed (p ++ rest) with
      | some n => exact ⟨_, _, ofLexeme_number hn⟩
      | none =>
        have hfound : (operator? (p ++ rest)).isSome := by
          rw [operator?, List.find?_isSome]
          exact ⟨_, hop, List.isPrefixOf_iff_prefix.mpr (p.prefix_append rest)⟩
        obtain ⟨op, hfind⟩ := Option.isSome_iff_exists.mp hfound
        exact ⟨op.1, .ok (op.2, none), by rw [ofLexeme_operator hn hhead, hfind]; rfl⟩
    have hne' : lexeme ≠ [] := by
      rintro rfl
      have hnil := (meaning?_of_read hread).2
      rw [meaning?_nil] at hnil
      cases hnil
    refine ⟨lexeme, m, hread, ?_⟩
    rw [show p.length = 1 from hlen]
    exact List.length_pos_iff.mpr hne'
  · -- two characters: no number begins so, and no operator of one character comes first
    obtain ⟨hn, hfind⟩ := operator?_append hop hlen signed rest
    exact ⟨p, .ok (kind, none), by rw [ofLexeme_operator hn hhead, hfind]; rfl, le_rfl⟩

/-- **What is read is no shorter** than any lexeme that stands at the front. -/
theorem read_of_meaning? {p : List Char} {m : Meaning} (h : meaning? signed p = some m)
    (rest : List Char) :
    ∃ lexeme m', ofLexeme (Lexeme.read signed (p ++ rest)) = some (lexeme, m') ∧
      p.length ≤ lexeme.length := by
  unfold meaning? at h
  split at h
  -- a number
  next n hn =>
    obtain ⟨n', hread, hlen⟩ := read_append hn rest
    exact ⟨_, _, ofLexeme_number hread, hlen⟩
  next hnum =>
    split at h
    -- a word
    next hword =>
      obtain ⟨c, p', rfl, hstart, hall⟩ := isWord_iff.mp hword
      have hn : Numeral.read signed (c :: p' ++ rest) = none :=
        read_eq_none_of_isWordStart _ hstart
      refine ⟨_, _, ofLexeme_word hn (by simpa using hstart), ?_⟩
      rw [List.takeWhile_append_of_pos hall, List.length_append]
      omega
    next =>
      obtain ⟨kind, hkind, -⟩ := Option.map_eq_some_iff.mp h
      obtain ⟨ops, ops', heq, -⟩ := List.lookup_eq_some_iff.mp hkind
      have hop : (p, kind) ∈ operators := by simp [heq]
      exact read_of_operator hop rest

end Read

/-- **What is read is the longest lexeme at the front**: it is a lexeme (`meaning?_of_read`), and no
lexeme at the front is longer (`read_of_meaning?`). -/
theorem longest?_eq_read (signed : Bool) (cs : List Char) :
    longest? signed cs = ofLexeme (Lexeme.read signed cs) := by
  cases h : ofLexeme (Lexeme.read signed cs) with
  | none =>
    refine longest?_eq_none fun p hp => ?_
    cases hm : meaning? signed p with
    | none => rfl
    | some m =>
      obtain ⟨rest, rfl⟩ := hp
      -- a beginning with a meaning is read, or something longer
      obtain ⟨lexeme, m', hread, -⟩ := read_of_meaning? hm rest
      rw [h] at hread
      cases hread
  | some found =>
    obtain ⟨lexeme, m⟩ := found
    obtain ⟨⟨rest, rfl⟩, hm⟩ := meaning?_of_read h
    refine longest?_eq_some hm fun more hmore hne => ?_
    cases hm' : meaning? signed (lexeme ++ more) with
    | none => rfl
    | some m' =>
      -- a longer lexeme would have been read
      obtain ⟨rest', rfl⟩ := hmore
      obtain ⟨lexeme', m'', hread, hlen⟩ := read_of_meaning? hm' rest'
      rw [List.append_assoc, h] at hread
      cases hread
      have := List.length_pos_iff.mpr hne
      rw [List.length_append] at hlen
      omega

/-- The longest lexeme is a beginning, and not empty. -/
theorem longest?_spec {signed : Bool} {cs lexeme : List Char} {m : Meaning}
    (h : longest? signed cs = some (lexeme, m)) :
    lexeme <+: cs ∧ 0 < lexeme.length ∧ meaning? signed lexeme = some m := by
  rw [longest?_eq_read] at h
  obtain ⟨hpre, hm⟩ := meaning?_of_read h
  refine ⟨hpre, List.length_pos_iff.mpr ?_, hm⟩
  rintro rfl
  rw [meaning?_nil] at hm
  cases hm

/-! ### What no lexeme has in it -/

/-- The characters between lexemes: blanks, the end of a line, and the beginning of a comment. -/
def isGap (c : Char) : Bool := Layout.isBlank c || c = '\n' || c = '#'

/-- A character that is no gap is none of the three. -/
theorem not_isGap_iff {c : Char} :
    isGap c = false ↔ Layout.isBlank c = false ∧ c ≠ '\n' ∧ c ≠ '#' := by
  simp [isGap, and_assoc]

/-- A blank neither ends a line nor begins a comment. -/
theorem ne_of_isBlank {c : Char} (h : Layout.isBlank c = true) : c ≠ '\n' ∧ c ≠ '#' := by
  constructor <;>
  · rintro rfl
    exact absurd h (by decide)

/-- No character of a word is a gap. -/
theorem not_isGap_of_isWordPart {c : Char} (h : isWordPart c = true) : isGap c = false := by
  rw [Bool.eq_false_iff]
  intro hgap
  simp only [isGap, Layout.isBlank, Bool.or_eq_true, decide_eq_true_eq] at hgap
  rcases hgap with ((((rfl | rfl) | rfl) | rfl) | rfl) | rfl <;> exact absurd h (by decide)

/-- A digit can go on with a word. -/
theorem isWordPart_of_isDigit {c : Char} (h : c.isDigit = true) : isWordPart c = true := by
  simp [isWordPart, Char.isAlphanum, h]

/-- A number without a sign has digits and a point in it. -/
theorem chars_of_unsigned? {negative : Bool} {cs : List Char} {n : Numeral}
    (h : unsigned? negative cs = some n) : ∀ c ∈ cs, isWordPart c = true ∨ c = '.' := by
  obtain ⟨-, hw, hf, rfl⟩ := unsigned?_eq_some.mp h
  intro c hc
  rcases List.mem_append.mp hc with hc | hc
  · exact .inl (isWordPart_of_isDigit ((isDigits_iff.mp hw).2 c hc))
  · -- the fraction, if there is one, has its point before its digits
    split at hc
    · cases hc
    · rcases List.mem_cons.mp hc with rfl | hc
      · exact .inr rfl
      · exact .inl (isWordPart_of_isDigit (hf c hc))

/-- **The characters of a lexeme**: those of words and of numbers, or those of an operator. -/
theorem chars_of_meaning? {signed : Bool} {cs : List Char} {m : Meaning}
    (h : meaning? signed cs = some m) :
    (∀ c ∈ cs, isWordPart c = true ∨ c = '.' ∨ c = '-') ∨ ∃ op ∈ operators, op.1 = cs := by
  unfold meaning? at h
  split at h
  next n hn =>
    -- a number: digits and a point, and perhaps a minus
    refine .inl fun c hc => ?_
    unfold numeral? at hn
    split at hn
    next cs' =>
      obtain ⟨-, hn⟩ := Option.ite_none_right_eq_some.mp hn
      rcases List.mem_cons.mp hc with rfl | hc
      · exact .inr (.inr rfl)
      · exact (chars_of_unsigned? hn c hc).imp_right .inl
    next => exact (chars_of_unsigned? hn c hc).imp_right .inl
  next =>
    split at h
    next hword =>
      obtain ⟨-, -, -, -, hall⟩ := isWord_iff.mp hword
      exact .inl fun c hc => .inl (hall c hc)
    next =>
      obtain ⟨kind, hkind, -⟩ := Option.map_eq_some_iff.mp h
      obtain ⟨ops, ops', heq, -⟩ := List.lookup_eq_some_iff.mp hkind
      exact .inr ⟨(cs, kind), by simp [heq], rfl⟩

/-- **No lexeme has a gap in it** (`chars_of_meaning?`). -/
theorem not_isGap_of_meaning? {signed : Bool} {cs : List Char} {m : Meaning}
    (h : meaning? signed cs = some m) : ∀ c ∈ cs, isGap c = false := by
  intro c hc
  rcases chars_of_meaning? h with hall | ⟨op, hop, rfl⟩
  · rcases hall c hc with hpart | rfl | rfl
    · exact not_isGap_of_isWordPart hpart
    · decide
    · decide
  · have hops : (operators.all fun op => op.1.all fun c => !isGap c) = true := by decide
    simpa using List.all_eq_true.mp (List.all_eq_true.mp hops op hop) c hc

/-- **What comes after a gap plays no part** in what the longest lexeme is. -/
theorem longest?_append {signed : Bool} (cs : List Char) {gap : List Char}
    (h : ∀ c ∈ gap.head?, isGap c = true) : longest? signed (cs ++ gap) = longest? signed cs := by
  unfold longest?
  rw [List.inits_append, List.filterMap_append]
  -- a longer beginning would have the gap in it
  have hnone : (gap.inits.tail.map fun more => cs ++ more).filterMap
      (fun p => (meaning? signed p).map (p, ·)) = [] := by
    rw [List.filterMap_eq_nil_iff]
    intro p hp
    obtain ⟨more, hmore, rfl⟩ := List.mem_map.mp hp
    cases gap with
    | nil => simp at hmore
    | cons c gap =>
      rw [List.inits_cons, List.tail_cons, List.mem_map] at hmore
      obtain ⟨more', -, rfl⟩ := hmore
      cases hm : meaning? signed (cs ++ c :: more') with
      | none => rfl
      | some m =>
        have hgap := not_isGap_of_meaning? hm c (by simp)
        rw [h c rfl] at hgap
        cases hgap
  rw [hnone, List.append_nil]

end Offside.Linewise
