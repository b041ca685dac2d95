-- Decimal numerals are read back as the numbers that they were written for. A run of digits
-- stands for one number, and a reader with a bound gives that number whenever it is below
-- the bound.
import RegisterMachine.Text.Numeral

namespace RegisterMachine.Numeral

/-! ## Digits -/

/-- A list of decimal digits, the most significant one first. -/
def Digits (cs : List Char) : Prop := ∀ c ∈ cs, c.isDigit = true

theorem digits_append {xs ys : List Char} (hx : Digits xs) (hy : Digits ys) :
    Digits (xs ++ ys) := by
  intro c hMem
  rcases List.mem_append.1 hMem with h | h
  · exact hx c h
  · exact hy c h

theorem digits_replicate (n : Nat) : Digits (List.replicate n '0') := by
  intro c hMem
  rw [List.eq_of_mem_replicate hMem]
  rfl

theorem digits_toDigits (n : Nat) : Digits (Nat.toDigits 10 n) := by
  intro c hMem
  exact Nat.isDigit_of_mem_toDigits (by decide) (by decide) hMem

theorem digit?_of_isDigit {c : Char} (h : c.isDigit = true) :
    digit? c = some (c.toNat - '0'.toNat) := by
  have hRange : '0' ≤ c ∧ c ≤ '9' := by
    simpa [Char.isDigit, Char.le_def] using h
  unfold digit?
  rw [if_pos hRange]

theorem isSome_digit?_of_isDigit {c : Char} (h : c.isDigit = true) :
    (digit? c).isSome = true := by
  rw [digit?_of_isDigit h]
  rfl

/-- What the digits stand for, digit by digit. -/
theorem filterMap_digit? {cs : List Char} (h : Digits cs) :
    cs.filterMap digit? = cs.map fun c => c.toNat - '0'.toNat := by
  induction cs with
  | nil => rfl
  | cons c cs ih =>
    have hTail : Digits cs := fun x hx => h x (List.mem_cons_of_mem c hx)
    rw [List.filterMap_cons, digit?_of_isDigit (h c List.mem_cons_self), ih hTail, List.map_cons]

theorem ofDigits_filterMap {cs : List Char} (h : Digits cs) :
    ofDigits (cs.filterMap digit?) = Nat.ofDigitChars 10 cs 0 := by
  rw [ofDigits_eq_foldl, filterMap_digit? h, List.foldl_map, Nat.ofDigitChars_eq_foldl]

/-! ## Reading -/

/-- More digits never make a number smaller. -/
theorem le_ofDigitChars (cs : List Char) (acc : Nat) : acc ≤ Nat.ofDigitChars 10 cs acc := by
  rw [Nat.ofDigitChars_eq_ofDigitChars_zero]
  calc acc = 1 * acc := (Nat.one_mul acc).symm
    _ ≤ 10 ^ cs.length * acc := Nat.mul_le_mul_right acc (Nat.one_le_pow _ _ (by decide))
    _ ≤ _ := Nat.le_add_right _ _

theorem digitsFrom?_of_digits {cs : List Char} (h : Digits cs) {bound acc : Nat}
    (hBound : Nat.ofDigitChars 10 cs acc < bound) :
    digitsFrom? bound acc cs = some (Nat.ofDigitChars 10 cs acc) := by
  induction cs generalizing acc with
  | nil => rfl
  | cons c cs ih =>
    rw [Nat.ofDigitChars_cons] at hBound ⊢
    have hNext : 10 * acc + (c.toNat - '0'.toNat) < bound :=
      Nat.lt_of_le_of_lt (le_ofDigitChars cs _) hBound
    unfold digitsFrom?
    rw [digit?_of_isDigit (h c List.mem_cons_self)]
    simp only [if_pos hNext]
    exact ih (fun x hx => h x (List.mem_cons_of_mem c hx)) hBound

theorem digits?_toDigits {n bound : Nat} (h : n < bound) :
    digits? bound (Nat.toDigits 10 n) = some n := by
  have hValue := @digitsFrom?_of_digits _ (digits_toDigits n) bound 0
  rw [Nat.ofDigitChars_ten_toDigits] at hValue
  rcases hDigits : Nat.toDigits 10 n with _ | ⟨c, cs⟩
  · exact absurd hDigits Nat.toDigits_ne_nil
  · rw [hDigits] at hValue
    exact hValue h

/-- A written number begins with a digit. -/
theorem toDigits_eq_cons (n : Nat) :
    ∃ c cs, Nat.toDigits 10 n = c :: cs ∧ c.isDigit = true := by
  rcases hDigits : Nat.toDigits 10 n with _ | ⟨c, cs⟩
  · exact absurd hDigits Nat.toDigits_ne_nil
  · refine ⟨c, cs, rfl, digits_toDigits n c ?_⟩
    rw [hDigits]
    exact List.mem_cons_self

theorem unsigned?_toDigits {n bound : Nat} (h : n < bound) :
    unsigned? bound (Nat.toDigits 10 n) = some n := by
  obtain ⟨c, cs, hDigits, hHead⟩ := toDigits_eq_cons n
  have hValue := digits?_toDigits h
  rw [hDigits] at hValue ⊢
  unfold unsigned?
  split
  · rename_i heq
    cases heq
    cases hHead
  · exact hValue

/-- The text of a natural number as a list of characters. -/
theorem toList_toString (n : Nat) : (toString n).toList = Nat.toDigits 10 n := by
  rw [Nat.toString_eq_repr, Nat.toList_repr]

theorem uint16?_toString (word : UInt16) : uint16? (toString word.toNat).toList = some word := by
  unfold uint16?
  rw [toList_toString, unsigned?_toDigits word.toNat_lt]
  simp

theorem uint32?_toString (word : UInt32) : uint32? (toString word.toNat).toList = some word := by
  unfold uint32?
  rw [toList_toString, unsigned?_toDigits word.toNat_lt]
  simp

/-! ## Signs -/

/-- A written integer is a written number, behind a minus sign if it is negative. -/
theorem toList_toString_int (n : Int) :
    (toString n).toList = (if n < 0 then ['-'] else []) ++ Nat.toDigits 10 n.natAbs := by
  rcases n with n | n
  · have hNot : ¬ Int.ofNat n < 0 := Int.not_lt.2 (Int.natCast_nonneg n)
    rw [if_neg hNot, List.nil_append, ← toList_toString]
    rfl
  · rw [if_pos (Int.negSucc_lt_zero n)]
    have hText : toString (Int.negSucc n) = "-" ++ toString (n + 1) := by
      rw [Nat.toString_eq_repr]
      rfl
    rw [hText, String.toList_append, toList_toString]
    rfl

theorem signed?_toString {n : Int} {bound : Nat} (hLow : -(bound : Int) ≤ n) (hHigh : n < bound) :
    signed? bound (toString n).toList = some n := by
  rw [toList_toString_int]
  by_cases hNegative : n < 0
  · rw [if_pos hNegative]
    simp only [List.cons_append, List.nil_append, signed?]
    rw [digits?_toDigits (by omega)]
    show some (-(n.natAbs : Int)) = some n
    congr 1
    omega
  · rw [if_neg hNegative, List.nil_append]
    obtain ⟨c, cs, hDigits, hHead⟩ := toDigits_eq_cons n.natAbs
    have hValue := @unsigned?_toDigits n.natAbs bound (by omega)
    rw [hDigits] at hValue ⊢
    unfold signed?
    split
    · rename_i heq
      cases heq
      cases hHead
    · rw [hValue]
      show some (n.natAbs : Int) = some n
      congr 1
      omega

theorem int64?_toString (word : Int64) : int64? (toString word.toInt).toList = some word := by
  have hLow := word.le_toInt
  have hHigh := word.toInt_lt
  unfold int64?
  rw [signed?_toString (by simpa [UInt64.size] using hLow) (by simpa [UInt64.size] using hHigh)]
  simp

end RegisterMachine.Numeral
