import ChainPlanner.Json.Token

/-!
# ChainPlanner.Proofs.Wire.Words

The words of a written text are found again.

What follows a word decides only about numbers: a number is read on as long as it can be, so it has
to stand before the end of the text, a comma or a closing bracket (`Ends`).  A string is read back
unit by unit.  The control characters that have no letter of their own come back as the escapes by
which they were written (`StringUnit.reread`), which stand for the same text.
-/

namespace ChainPlanner.Json

open ChainPlanner.Text

variable {m next : Mode} {t : Token} {c : Char} {cs rest : List Char}

/-! ## one character -/

/-- A character that completes no token. -/
theorem tokensFrom?_of_silent (h : m.feed c = some ([], next)) :
    tokensFrom? m (c :: cs) = tokensFrom? next cs := by
  simp [tokensFrom?, h]

/-- A character that completes a token. -/
theorem tokensFrom?_of_word (h : m.feed c = some ([t], next)) :
    tokensFrom? m (c :: cs) = (tokensFrom? next cs).map (t :: ·) := by
  simp only [tokensFrom?, h, bind, Option.bind_some]
  cases tokensFrom? next cs <;> rfl

/-! ## strings -/

/-- The control characters that are escaped by a letter. -/
def lettered : List Nat := [0x08, 0x09, 0x0A, 0x0C, 0x0D]

/-- How a character in a string is read again after it was written. -/
def StringUnit.reread (c : Char) : StringUnit :=
  if c.toNat < 0x20 ∧ c.toNat ∉ lettered then .code c.toNat else .plain c

/-- How a text is read again after it was written. -/
def StringLit.reread (s : String) : StringLit := s.toList.map .reread

/-- The value of a hexadecimal digit is read back. -/
theorem hexValue?_hexDigit (n : Nat) :
    Mode.hexValue? (StringLit.hexDigit n) = some (n % 16) := by
  have h : ∀ d < 16, Mode.hexValue? (Nat.digitChar d) = some d := by decide
  exact h (n % 16) (Nat.mod_lt n (by decide))

/-- An escape by number is read as the unit that it names. -/
theorem tokensFrom?_renderCode {n : Nat} (hn : n < 0x10000) (us : StringLit) :
    tokensFrom? (.string us) (StringLit.renderCode n ++ rest) =
      tokensFrom? (.string (.code n :: us)) rest := by
  have hsum : 16 * (16 * (16 * (n / 4096 % 16) + n / 256 % 16) + n / 16 % 16) + n % 16 = n := by
    omega
  simp [StringLit.renderCode, tokensFrom?, Mode.feed, hexValue?_hexDigit, hsum]

/-- An escape by a letter is read as the character that it stands for. -/
theorem tokensFrom?_shortEscape {x : Char} (hc : c ≠ 'u') (hx : Mode.shortEscape? c = some x)
    (us : StringLit) :
    tokensFrom? (.string us) ('\\' :: c :: rest) = tokensFrom? (.string (.plain x :: us)) rest := by
  simp [tokensFrom?, Mode.feed, hc, hx]

/-- A character that was written inside quotes is read as one unit. -/
theorem tokensFrom?_renderChar (c : Char) (us : StringLit) :
    tokensFrom? (.string us) (StringLit.renderChar c ++ rest) =
      tokensFrom? (.string (.reread c :: us)) rest := by
  have hletter : ∀ {d l : Char}, c.toNat = d.toNat → d.toNat ∈ lettered → l ≠ 'u' →
      Mode.shortEscape? l = some d → tokensFrom? (.string us) ('\\' :: l :: rest) =
        tokensFrom? (.string (.reread c :: us)) rest := by
    intro d l hcd hd hl hx
    obtain rfl := Char.toNat_inj.1 hcd
    rw [tokensFrom?_shortEscape hl hx, StringUnit.reread, if_neg (fun h => h.2 hd)]
  unfold StringLit.renderChar
  split
  next hc =>
    subst hc
    exact tokensFrom?_shortEscape (by decide) rfl us
  split
  next hc =>
    subst hc
    exact tokensFrom?_shortEscape (by decide) rfl us
  split
  next hc => exact hletter (d := '\x08') hc (by decide) (by decide) rfl
  split
  next hc => exact hletter (d := '\t') hc (by decide) (by decide) rfl
  split
  next hc => exact hletter (d := '\n') hc (by decide) (by decide) rfl
  split
  next hc => exact hletter (d := '\x0c') hc (by decide) (by decide) rfl
  split
  next hc => exact hletter (d := '\r') hc (by decide) (by decide) rfl
  split
  next hquote hslash h8 h9 hA hC hD hlow =>
    have hcode : StringUnit.reread c = .code c.toNat := by
      simp [StringUnit.reread, lettered, *]
    rw [hcode, tokensFrom?_renderCode (by omega)]
  next hquote hslash h8 h9 hA hC hD hlow =>
    have hplain : StringUnit.reread c = .plain c := by
      simp [StringUnit.reread, hlow]
    rw [hplain]
    exact tokensFrom?_of_silent (by simp [Mode.feed, hquote, hslash, hlow])

/-- The characters of a text are read one after another. -/
theorem tokensFrom?_flatMap_renderChar (cs : List Char) (us : StringLit) :
    tokensFrom? (.string us) (cs.flatMap StringLit.renderChar ++ rest) =
      tokensFrom? (.string ((cs.map StringUnit.reread).reverse ++ us)) rest := by
  induction cs generalizing us with
  | nil => rfl
  | cons c cs ih =>
    rw [List.flatMap_cons, List.append_assoc, tokensFrom?_renderChar, ih]
    simp

/-- A string that was written is read as one word. -/
theorem tokensFrom?_string (s : String) :
    tokensFrom? .idle ((Token.string (.ofString s)).render ++ rest) =
      (tokensFrom? .idle rest).map (.string (.reread s) :: ·) := by
  have hunits : (StringLit.ofString s).flatMap StringLit.renderUnit =
      s.toList.flatMap StringLit.renderChar := by
    rw [StringLit.ofString, List.flatMap_map]
    rfl
  have hopen : Mode.feed .idle '"' = some ([], .string []) := rfl
  rw [Token.render, StringLit.render, List.cons_append, tokensFrom?_of_silent hopen, hunits,
    List.append_assoc, tokensFrom?_flatMap_renderChar]
  exact tokensFrom?_of_word (by simp [Mode.feed, StringLit.reread])

namespace StringLit

/-- A unit before the surrogates is a character, whatever follows. -/
theorem chars?_code {n : Nat} (hn : n < 0xD800) (us : StringLit) :
    chars? (.code n :: us) = (chars? us).map (Char.ofNat n :: ·) := by
  have hhigh : isHigh n = false := by
    simp only [isHigh, Bool.and_eq_false_iff, decide_eq_false_iff_not]
    omega
  have hlow : isLow n = false := by
    simp only [isLow, Bool.and_eq_false_iff, decide_eq_false_iff_not]
    omega
  rcases us with _ | ⟨_ | l, us⟩ <;> simp [chars?, hhigh, hlow]

/-- A character is read back from its spelling. -/
theorem chars?_reread (c : Char) (us : StringLit) :
    chars? (.reread c :: us) = (chars? us).map (c :: ·) := by
  unfold StringUnit.reread
  split
  next hcontrol =>
    rw [chars?_code (by omega), Char.ofNat_toNat]
  next => rfl

/-- It stands for the text that was written. -/
@[simp] theorem text?_reread (s : String) : (reread s).text? = some s := by
  have hchars : ∀ cs : List Char, chars? (cs.map StringUnit.reread) = some cs := by
    intro cs
    induction cs with
    | nil => rfl
    | cons c cs ih => rw [List.map_cons, chars?_reread, ih, Option.map_some]
  rw [text?, reread, hchars, Option.map_some, String.ofList_toList]

end StringLit

/-! ## numbers -/

/-- What may follow a number: the end, a comma or a closing bracket. -/
def Ends : List Char → Prop
  | [] => True
  | c :: _ => c = ',' ∨ c = ']' ∨ c = '\x7d'

/-- A number is complete where it ends. -/
theorem tokensFrom?_of_ends {n : Nat} {negative : Bool}
    (hm : m = .whole negative n ∨ m = .zero negative ∧ n = 0) (hrest : Ends rest) :
    tokensFrom? m rest = (tokensFrom? .idle rest).map (.number ⟨negative, n, [], none⟩ :: ·) := by
  have hfeed : ∀ c t, Mode.start c = some ([t], .idle) → Decimal.digitValue? c = none →
      c ≠ '.' → c ≠ 'e' → c ≠ 'E' →
      m.feed c = some ([.number ⟨negative, n, [], none⟩, t], .idle) := by
    intro c t hstart hdigit hpoint he hE
    rcases hm with rfl | ⟨rfl, rfl⟩ <;>
      simp [Mode.feed, Mode.continue?, Mode.number?, hdigit, hpoint, he, hE, hstart]
  cases rest with
  | nil => rcases hm with rfl | ⟨rfl, rfl⟩ <;> rfl
  | cons c cs =>
    have hword : ∀ t, Mode.start c = some ([t], .idle) →
        m.feed c = some ([.number ⟨negative, n, [], none⟩, t], .idle) →
        tokensFrom? m (c :: cs) =
          (tokensFrom? .idle (c :: cs)).map (.number ⟨negative, n, [], none⟩ :: ·) := by
      intro t hstart hm
      rw [tokensFrom?_of_word (m := .idle) hstart]
      simp only [tokensFrom?, hm, bind, Option.bind_some]
      cases tokensFrom? .idle cs <;> rfl
    rcases hrest with rfl | rfl | rfl
    all_goals exact hword _ rfl (hfeed _ _ rfl rfl (by decide) (by decide) (by decide))

/-- The digits after the first are read on. -/
theorem tokensFrom?_whole {k n : Nat} {negative : Bool} {ds : List Char}
    (h : Decimal.readFrom? k ds = some n) :
    tokensFrom? (.whole negative k) (ds ++ rest) = tokensFrom? (.whole negative n) rest := by
  induction ds generalizing k with
  | nil => cases h; rfl
  | cons d ds ih =>
    rw [Decimal.readFrom?] at h
    obtain ⟨v, hv, h⟩ := Option.bind_eq_some_iff.1 h
    have hfeed : Mode.feed (.whole negative k) d = some ([], .whole negative (10 * k + v)) := by
      simp [Mode.feed, Mode.continue?, hv]
    rw [List.cons_append, tokensFrom?_of_silent hfeed, ih h]

/-- A positive number begins with a digit that is not zero. -/
theorem exists_digits {n : Nat} (hn : 0 < n) : ∃ d ds, 0 < d ∧ d < 10 ∧
    Decimal.digits n = Nat.digitChar d :: ds ∧ Decimal.readFrom? d ds = some n := by
  induction n using Nat.strongRecOn with
  | _ n ih =>
    by_cases h : n < 10
    · exact ⟨n, [], hn, h, Decimal.digits_of_lt h, rfl⟩
    · obtain ⟨d, ds, hd, hd', hdigits, hread⟩ := ih (n / 10) (by omega) (by omega)
      refine ⟨d, ds ++ [Nat.digitChar (n % 10)], hd, hd', ?_, ?_⟩
      · rw [Decimal.digits_of_ten_le (by omega), hdigits, List.cons_append]
      · rw [Decimal.readFrom?_append, hread, Option.bind_some, Decimal.readFrom?,
          Decimal.digitValue?_digitChar (Nat.mod_lt n (by decide)), Option.bind_some,
          Decimal.readFrom?, Nat.div_add_mod]

/-- A digit other than zero begins a number. -/
theorem start_digitChar {d : Nat} (hd : 0 < d) (hd' : d < 10) :
    Mode.start (Nat.digitChar d) = some ([], .whole false d) := by
  obtain rfl | rfl | rfl | rfl | rfl | rfl | rfl | rfl | rfl :
      d = 1 ∨ d = 2 ∨ d = 3 ∨ d = 4 ∨ d = 5 ∨ d = 6 ∨ d = 7 ∨ d = 8 ∨ d = 9 := by omega
  all_goals rfl

/-- A whole number is written as its sign and its digits. -/
theorem NumberLit.render_ofInt (n : Int) :
    (ofInt n).render = (if n < 0 then ['-'] else []) ++ Decimal.digits n.natAbs := by
  simp [render, ofInt, renderFraction, renderExponent]

/-- A whole number that was written is read as one word. -/
theorem tokensFrom?_ofInt (n : Int) (hrest : Ends rest) :
    tokensFrom? .idle ((Token.number (.ofInt n)).render ++ rest) =
      (tokensFrom? .idle rest).map (.number (.ofInt n) :: ·) := by
  rw [Token.render, NumberLit.render_ofInt, NumberLit.ofInt]
  rcases Nat.eq_zero_or_pos n.natAbs with hzero | hpos
  · obtain rfl : n = 0 := Int.natAbs_eq_zero.1 hzero
    have hstart : Mode.feed .idle '0' = some ([], .zero false) := rfl
    exact (tokensFrom?_of_silent hstart).trans (tokensFrom?_of_ends (.inr ⟨rfl, rfl⟩) hrest)
  · obtain ⟨d, ds, hd, hd', hdigits, hread⟩ := exists_digits hpos
    rw [hdigits]
    by_cases hn : n < 0
    · have hminus : Mode.feed .idle '-' = some ([], .minus) := rfl
      have hfirst : Mode.feed .minus (Nat.digitChar d) = some ([], .whole true d) := by
        cases d with
        | zero => cases hd
        | succ d => simp [Mode.feed, Mode.continue?, Decimal.digitValue?_digitChar hd']
      simp only [hn, if_true, decide_true, List.cons_append, List.nil_append]
      rw [tokensFrom?_of_silent hminus, tokensFrom?_of_silent hfirst, tokensFrom?_whole hread]
      exact tokensFrom?_of_ends (.inl rfl) hrest
    · simp only [hn, if_false, decide_false, List.cons_append, List.nil_append]
      rw [tokensFrom?_of_silent (m := .idle) (start_digitChar hd hd'), tokensFrom?_whole hread]
      exact tokensFrom?_of_ends (.inl rfl) hrest

/-! ## other words -/

/-- A literal word is read letter by letter. -/
theorem tokensFrom?_word (t : Token) {letters : List Char} (h : letters ≠ []) :
    tokensFrom? (.word t letters) (letters ++ rest) = (tokensFrom? .idle rest).map (t :: ·) := by
  induction letters with
  | nil => exact absurd rfl h
  | cons x xs ih =>
    cases xs with
    | nil => exact tokensFrom?_of_word (by simp [Mode.feed])
    | cons y ys =>
      have hfeed : Mode.feed (.word t (x :: y :: ys)) x = some ([], .word t (y :: ys)) := by
        simp [Mode.feed]
      rw [List.cons_append, tokensFrom?_of_silent hfeed]
      exact ih (List.cons_ne_nil y ys)

/-- Brackets, commas, colons and literal words. -/
def Token.isFixed : Token → Bool
  | number _ | string _ => false
  | _ => true

/-- They are read as they are, whatever follows. -/
theorem tokensFrom?_render (t : Token) (h : t.isFixed = true) (rest : List Char) :
    tokensFrom? .idle (t.render ++ rest) = (tokensFrom? .idle rest).map (t :: ·) := by
  cases t with
  | number n | string s => cases h
  | openArray | closeArray | openObject | closeObject | comma | colon =>
    exact tokensFrom?_of_word (m := .idle) rfl
  | null =>
    exact (tokensFrom?_of_silent (m := .idle) rfl).trans (tokensFrom?_word .null nofun)
  | bool b => cases b with
    | false =>
      exact (tokensFrom?_of_silent (m := .idle) rfl).trans (tokensFrom?_word (.bool false) nofun)
    | true =>
      exact (tokensFrom?_of_silent (m := .idle) rfl).trans (tokensFrom?_word (.bool true) nofun)

end ChainPlanner.Json
