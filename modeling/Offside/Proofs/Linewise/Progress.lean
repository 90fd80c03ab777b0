import Offside.Proofs.Linewise.Lexeme
import Offside.Token.Lexer

/-!
# A lexer comes to its end

Every step that gives a token leaves less to be done: a character is read, or a token that was due
is handed out (`Lexer.budget_next`). The bound on the steps of a lexer is therefore never what ends
its tokens, and the tokens of a lexer are given by its first step and the tokens after it
(`Lexer.tokens_eq`).
-/

namespace Offside

namespace Layout

theorem seek_suffix {tabWidth : UInt64} {comment : Bool} {width w : UInt64} {here h : Span}
    {cs rest : List Char} (heq : seek tabWidth comment width here cs = .content w h rest) :
    rest <:+ cs := by
  induction cs generalizing comment width here with
  | nil => cases heq
  | cons c cs ih =>
    -- a character is passed over unless it is where the search ends
    unfold seek at heq
    split_ifs at heq with hline hcomment hblank
    · exact (ih heq).trans (List.suffix_cons c cs)
    · exact (ih heq).trans (List.suffix_cons c cs)
    · split at heq
      · exact (ih heq).trans (List.suffix_cons c cs)
      · cases heq
    · cases heq
      exact List.suffix_refl _

theorem skip_suffix (comment : Bool) (here : Span) (cs : List Char) :
    (skip comment here cs).2 <:+ cs := by
  induction cs generalizing comment here with
  | nil => exact List.suffix_refl _
  | cons c cs ih =>
    unfold skip
    -- a line feed and content stay; comments and blanks are dropped
    split_ifs with hline hcomment hblank
    · exact List.suffix_refl _
    · exact (ih _ _).trans (List.suffix_cons c cs)
    · exact (ih _ _).trans (List.suffix_cons c cs)
    · exact List.suffix_refl _

end Layout

namespace Lexer

/-! ### What a step leaves -/

theorem budget_giveDue {l l' : Lexer} {ts : List Token} {t : Token}
    (h : l.giveDue ts = (some (.ok t), l')) :
    l'.budget = 3 * l.rest.length + l.levels.length + ts.length := by
  cases ts with
  | nil => cases h
  | cons u us =>
    cases h
    rfl

theorem budget_close {l l' : Lexer} {here : Span} {t : Token}
    (h : l.close here = (some (.ok t), l')) : l'.budget ≤ l.levels.length := by
  have hb := budget_giveDue h
  simp only [List.length_nil, List.length_replicate, List.length_drop] at hb
  omega

/-- Reading a lexeme takes at least one character. -/
theorem budget_scan {l l' : Lexer} {t : Token} (h : l.scan = (some (.ok t), l')) :
    l'.budget < l.budget := by
  unfold scan at h
  cases hread : Token.Lexeme.read l.signed l.rest with
  | token chars kind value =>
    rw [hread] at h
    have hm := Linewise.meaning?_of_read
      (show Linewise.ofLexeme (Token.Lexeme.read l.signed l.rest) = some (chars, .ok (kind, value))
        by rw [hread]; rfl)
    -- a lexeme is a beginning of the characters and not empty
    have hlen : chars.length ≤ l.rest.length := hm.1.length_le
    have hpos : 0 < chars.length := by
      rw [List.length_pos_iff]
      rintro rfl
      rw [Linewise.meaning?_nil] at hm
      cases hm.2
    cases h
    simp only [budget, List.length_drop]
    omega
  | outOfRange chars =>
    rw [hread] at h
    cases h
  | unexpected =>
    rw [hread] at h
    cases hrest : l.rest <;> rw [hrest] at h <;> cases h

/-- The blocks that a line closes are due as tokens, and no longer open. -/
theorem budget_layOut {l l' : Lexer} {width : UInt64} {t : Token} (hp : l.pending = [])
    (h : l.layOut width = (some (.ok t), l')) : l'.budget ≤ l.budget + 1 := by
  unfold layOut at h
  dsimp only at h
  split_ifs at h
  · cases h
    simp only [budget, List.length_cons]
    omega
  · -- a block that is closed goes from the levels to the queue, so nothing is gained
    have hb := budget_giveDue h
    have hle : (l.levels.dropWhile fun level => width < level).length ≤ l.levels.length :=
      (List.dropWhile_suffix _).length_le
    simp only [budget, hp, List.length_replicate, List.length_nil] at hb ⊢
    omega
  · cases h
  · cases h
    simp only [budget]
    omega

/-- **Every step that gives a token leaves less to be done.** -/
theorem budget_next {l l' : Lexer} {t : Token} (h : l.next = (some (.ok t), l')) :
    l'.budget < l.budget := by
  unfold next at h
  split at h
  next u us _ hp =>
    -- a token was due, and it is handed out
    cases h
    simp only [budget, hp, List.length_cons]
    omega
  next => cases h
  next hp _ =>
    -- before the first line
    split at h
    next here hseek =>
      have := budget_close h
      simp only [budget] at this ⊢
      omega
    next => cases h
    next width here rest hseek =>
      have hlen := (Layout.seek_suffix hseek).length_le
      dsimp only at h
      split_ifs at h with hw
      · have := budget_scan h
        simp only [budget] at this ⊢
        omega
      · cases h
  next hp _ =>
    -- on some line
    have hskip := (Layout.skip_suffix false l.here l.rest).length_le
    split at h
    next here hend =>
      have := budget_close h
      simp only [budget] at this ⊢
      omega
    next here rest hline =>
      -- the line ends, and the newline is read with it
      rw [hline, List.length_cons] at hskip
      split at h
      next here' hseek =>
        have := budget_close h
        simp only [budget] at this ⊢
        omega
      next => cases h
      next width here' rest' hseek =>
        have hlen := (Layout.seek_suffix hseek).length_le
        have hp' : ({ l with here := here', rest := rest' } : Lexer).pending = [] := hp
        have := budget_layOut hp' h
        simp only [budget] at this ⊢
        omega
    next here rest hother =>
      have := budget_scan h
      simp only [budget] at this ⊢
      rw [hother] at hskip
      dsimp only at hskip
      omega

/-! ### All tokens -/

/-- The tokens of a lexer before its end, or its first fault, or a trap before it. -/
def tokens (l : Lexer) : Except (Halt LexicalError) (List Token) := l.tokensWithin l.budget

/-- More steps than there is to be done make no difference. -/
theorem tokensWithin_eq_tokens {steps : Nat} {l : Lexer} (h : l.budget ≤ steps) :
    l.tokensWithin steps = l.tokens := by
  -- any two numbers of steps that are large enough agree
  suffices hall : ∀ (m n : Nat) (l : Lexer), l.budget ≤ m → l.budget ≤ n →
      l.tokensWithin m = l.tokensWithin n from hall _ _ l h le_rfl
  intro m
  induction m with
  | zero =>
    intro n l hm
    simp only [budget] at hm
    omega
  | succ m ih =>
    intro n l hm hn
    obtain ⟨n, rfl⟩ : ∃ n', n = n' + 1 := ⟨n - 1, by simp only [budget] at hn; omega⟩
    unfold tokensWithin
    rcases hnext : l.next with ⟨_ | ⟨e | t⟩, l'⟩
    · rfl
    · rfl
    · have hlt := budget_next hnext
      dsimp only
      rw [ih n l' (by omega) (by omega)]

/-- The tokens that a step leads to: the one it gives, and then those of the lexer after it. -/
def outcome : Answer × Lexer → Except (Halt LexicalError) (List Token)
  | (some (.ok t), l) => l.tokens.map (t :: ·)
  | (some (.error e), _) => .error e
  | (none, _) => .ok []

/-- **The tokens of a lexer are those that its first step leads to.** -/
theorem tokens_eq (l : Lexer) : l.tokens = outcome l.next := by
  have hb : l.budget = (l.budget - 1) + 1 := by
    simp only [budget]
    omega
  unfold tokens
  rw [hb, tokensWithin]
  rcases hnext : l.next with ⟨_ | ⟨e | t⟩, l'⟩
  · rfl
  · rfl
  · -- a token lowers the budget, so what is left of it is enough for the rest
    have hlt := budget_next hnext
    dsimp only
    rw [tokensWithin_eq_tokens (by omega), outcome]

end Lexer

theorem tokenize_eq (tabWidth : UInt64) (source : String) :
    tokenize tabWidth source = (Lexer.ofSource tabWidth source).tokens := rfl

end Offside
