-- The text of a double is read back as the same double. The digits of a decimal may be written
-- with zeros added or dropped and with the point anywhere; what is read has the same value,
-- and it is the value that decides how a decimal is rounded.
import Mathlib.Data.List.TakeWhile
import RegisterMachine.Proofs.Numerals
import RegisterMachine.Proofs.Rounding

namespace RegisterMachine.Binary64

open Numeral (Digits)

/-! ## Signs -/

theorem and_signBit (bits : UInt64) :
    bits &&& signBit = if isNegative bits then signBit else 0 := by
  have hBit : bits &&& signBit = signBit ∨ bits &&& signBit = 0 := by
    have hPower : signBit.toBitVec = BitVec.twoPow 64 63 := by decide
    have hCases := BitVec.and_twoPow bits.toBitVec 63
    rw [← hPower] at hCases
    split at hCases
    · exact .inl (UInt64.toBitVec_inj.1 hCases)
    · exact .inr (UInt64.toBitVec_inj.1 hCases)
  unfold isNegative
  rcases hBit with h | h <;> rw [h] <;> decide

theorem withSign_unsigned (bits : UInt64) : withSign (isNegative bits) (unsigned bits) = bits := by
  have hParts : (bits &&& ~~~ signBit) ^^^ (bits &&& signBit) = bits := by
    apply UInt64.toBitVec_inj.1
    ext i
    simp only [UInt64.toBitVec_xor, UInt64.toBitVec_and, UInt64.toBitVec_not, BitVec.getElem_xor,
      BitVec.getElem_and, BitVec.getElem_not]
    cases bits.toBitVec[i] <;> cases signBit.toBitVec[i] <;> rfl
  rw [and_signBit] at hParts
  unfold withSign unsigned negate
  rw [UInt64.ofNat_toNat]
  split
  · rename_i hNegative
    rw [if_pos hNegative] at hParts
    exact hParts
  · rename_i hPositive
    rw [if_neg hPositive] at hParts
    rw [UInt64.xor_zero] at hParts
    exact hParts

/-! ## Reading the power of ten -/

theorem powerFrom?_of_digits {cs : List Char} (h : Digits cs) {acc : Nat}
    (hBound : Nat.ofDigitChars 10 cs acc < 0x10000) :
    powerFrom? acc cs = some (Nat.ofDigitChars 10 cs acc) := by
  induction cs generalizing acc with
  | nil => rfl
  | cons c cs ih =>
    have hAcc : acc < 0x10000 :=
      Nat.lt_of_le_of_lt (Numeral.le_ofDigitChars (c :: cs) acc) hBound
    rw [Nat.ofDigitChars_cons] at hBound ⊢
    unfold powerFrom?
    rw [Numeral.digit?_of_isDigit (h c List.mem_cons_self)]
    simp only [if_pos hAcc]
    exact ih (fun x hx => h x (List.mem_cons_of_mem c hx)) hBound

theorem power?_toDigits {n : Nat} (h : n < 0x10000) : power? (Nat.toDigits 10 n) = some n := by
  have hValue := @powerFrom?_of_digits _ (Numeral.digits_toDigits n) 0
  rw [Nat.ofDigitChars_ten_toDigits] at hValue
  obtain ⟨c, cs, hDigits, -⟩ := Numeral.toDigits_eq_cons n
  rw [hDigits] at hValue ⊢
  exact hValue h

theorem readExponent?_toString {n : Int} (h : n.natAbs < 0x10000) :
    readExponent? ('e' :: (toString n).toList) = some n := by
  have hPower := power?_toDigits h
  obtain ⟨c, cs, hDigits, hHead⟩ := Numeral.toDigits_eq_cons n.natAbs
  rw [Numeral.toList_toString_int]
  rw [hDigits] at hPower ⊢
  by_cases hNegative : n < 0
  · rw [if_pos hNegative]
    simp only [readExponent?, List.cons_append, List.nil_append, true_or, if_true]
    rw [hPower]
    show some (-(n.natAbs : Int)) = some n
    congr 1
    omega
  · rw [if_neg hNegative]
    simp only [readExponent?, List.nil_append, true_or, if_true]
    split
    · rename_i heq
      cases heq
      cases hHead
    · rename_i heq
      cases heq
      cases hHead
    · rw [hPower]
      show some (n.natAbs : Int) = some n
      congr 1
      omega

/-! ## Reading a decimal -/

/-- A run of digits is read up to the first character that is none. -/
theorem span_digits {whole rest : List Char} (hWhole : Digits whole)
    (hStop : ∀ c ∈ rest.head?, Numeral.digit? c = none) :
    (whole ++ rest).takeWhile (fun c => (Numeral.digit? c).isSome) = whole ∧
      (whole ++ rest).dropWhile (fun c => (Numeral.digit? c).isSome) = rest := by
  have hDigit : ∀ c ∈ whole, (Numeral.digit? c).isSome = true :=
    fun c hMem => Numeral.isSome_digit?_of_isDigit (hWhole c hMem)
  rw [List.takeWhile_append_of_pos hDigit, List.dropWhile_append_of_pos hDigit]
  rcases rest with _ | ⟨c, more⟩
  · exact ⟨List.append_nil whole, rfl⟩
  · have hNone : (Numeral.digit? c).isSome = false := by
      rw [hStop c rfl]
      rfl
    rw [List.takeWhile_cons, List.dropWhile_cons, hNone]
    exact ⟨List.append_nil whole, rfl⟩

/-- What stands behind the digits of a number starts with no digit and with no point. -/
theorem head_of_readExponent? {rest : List Char} {exponent : Int}
    (h : readExponent? rest = some exponent) :
    ∀ c ∈ rest.head?, Numeral.digit? c = none ∧ c ≠ '.' := by
  intro c hHead
  rcases rest with _ | ⟨first, more⟩
  · cases hHead
  · cases hHead
    simp only [readExponent?] at h
    by_cases hLetter : c = 'e' ∨ c = 'E'
    · rcases hLetter with rfl | rfl <;> decide
    · rw [if_neg hLetter] at h
      cases h

/-- What the digits in front of the power of ten and the power make. -/
theorem map_readExponent? {cs rest : List Char} {exponent : Int} {places : Nat} (h : Digits cs)
    (hSome : cs ≠ []) (hRest : readExponent? rest = some exponent) :
    (if (cs.filterMap Numeral.digit?).isEmpty then none
      else (readExponent? rest).map fun exponent =>
        (⟨Numeral.ofDigits (cs.filterMap Numeral.digit?), exponent - places⟩ : Decimal))
      = some ⟨Nat.ofDigitChars 10 cs 0, exponent - places⟩ := by
  have hNotEmpty : ¬ (cs.filterMap Numeral.digit?).isEmpty = true := by
    rw [Numeral.filterMap_digit? h, List.isEmpty_iff, List.map_eq_nil_iff]
    exact hSome
  rw [if_neg hNotEmpty, hRest, Numeral.ofDigits_filterMap h]
  rfl

theorem readDecimal?_whole {whole rest : List Char} {exponent : Int} (hWhole : Digits whole)
    (hSome : whole ≠ []) (hRest : readExponent? rest = some exponent) :
    readDecimal? (whole ++ rest) = some ⟨Nat.ofDigitChars 10 whole 0, exponent⟩ := by
  have hHead := head_of_readExponent? hRest
  obtain ⟨hTake, hDrop⟩ := span_digits hWhole fun c hc => (hHead c hc).1
  have hMade := @map_readExponent? whole rest exponent 0 hWhole hSome hRest
  unfold readDecimal?
  simp only [hTake, hDrop]
  split
  · rename_i heq
    exact absurd rfl (hHead '.' rfl).2
  · rw [List.append_nil]
    simpa using hMade

theorem readDecimal?_point {whole fraction rest : List Char} {exponent : Int}
    (hWhole : Digits whole) (hSome : whole ≠ []) (hFraction : Digits fraction)
    (hRest : readExponent? rest = some exponent) :
    readDecimal? (whole ++ '.' :: (fraction ++ rest))
      = some ⟨Nat.ofDigitChars 10 (whole ++ fraction) 0, exponent - fraction.length⟩ := by
  have hHead := head_of_readExponent? hRest
  have hPoint : ∀ c ∈ ('.' :: (fraction ++ rest)).head?, Numeral.digit? c = none := by
    rintro c ⟨⟩
    decide
  obtain ⟨hTake, hDrop⟩ := span_digits hWhole hPoint
  obtain ⟨hTakeRest, hDropRest⟩ := span_digits hFraction fun c hc => (hHead c hc).1
  unfold readDecimal?
  simp only [hTake, hDrop, hTakeRest, hDropRest]
  exact map_readExponent? (Numeral.digits_append hWhole hFraction)
    (List.append_ne_nil_of_left_ne_nil hSome fraction) hRest

/-! ## Writing a decimal -/

/-- The text is read as a decimal with the given value. -/
def Spells (text : List Char) (value : ℚ) : Prop :=
  ∃ decimal, readDecimal? text = some decimal ∧ decimal.value = value

theorem exists_trimZeros (digits : List Char) :
    ∃ k, digits = trimZeros digits ++ List.replicate k '0' := by
  have hZeros : ∀ c ∈ digits.reverse.takeWhile (· == '0'), c = '0' := by
    intro c hMem
    simpa using List.mem_takeWhile_imp hMem
  refine ⟨(digits.reverse.takeWhile (· == '0')).length, ?_⟩
  calc digits
      = (digits.reverse.takeWhile (· == '0') ++ digits.reverse.dropWhile (· == '0')).reverse := by
        rw [List.takeWhile_append_dropWhile, List.reverse_reverse]
    _ = trimZeros digits ++ (digits.reverse.takeWhile (· == '0')).reverse :=
        List.reverse_append
    _ = _ := by rw [← List.reverse_replicate, ← List.eq_replicate_iff.2 ⟨rfl, hZeros⟩]

theorem value_mk {n : Nat} {exponent other : Int} (h : exponent = other) :
    Decimal.value ⟨n, exponent⟩ = n * 10 ^ other := by
  rw [← h]
  rfl

/-- Zeros behind the digits are made up for by the exponent. -/
theorem value_scaled (n k : Nat) (exponent : Int) :
    Decimal.value ⟨10 ^ k * n, exponent⟩ = n * 10 ^ (exponent + k) := by
  unfold Decimal.value
  rw [zpow_add₀ (by decide), zpow_natCast]
  push_cast
  ring

theorem spells_positional {digits : List Char} (hDigits : Digits digits) (hSome : digits ≠ [])
    (point : Int) :
    Spells (positional digits point)
      (Nat.ofDigitChars 10 digits 0 * 10 ^ (point - digits.length)) := by
  have hEnd : readExponent? [] = some 0 := rfl
  unfold positional
  split
  · rename_i hSmall
    have hFraction := Numeral.digits_append (Numeral.digits_replicate (-point).toNat) hDigits
    have hRead := readDecimal?_point (Numeral.digits_replicate 1) (by decide) hFraction hEnd
    rw [List.append_nil] at hRead
    refine ⟨_, hRead, ?_⟩
    have hNumber : Nat.ofDigitChars 10
        (List.replicate 1 '0' ++ (List.replicate (-point).toNat '0' ++ digits)) 0
          = Nat.ofDigitChars 10 digits 0 := by
      rw [Nat.ofDigitChars_append, Nat.ofDigitChars_append, Nat.ofDigitChars_replicate_zero,
        Nat.ofDigitChars_replicate_zero, Nat.mul_zero]
    rw [hNumber]
    apply value_mk
    rw [List.length_append, List.length_replicate]
    omega
  · rename_i hLarge
    by_cases hLong : point.toNat < digits.length
    · have hSplit := List.take_append_drop point.toNat digits
      have hWhole : Digits (digits.take point.toNat) :=
        fun c hMem => hDigits c (List.mem_of_mem_take hMem)
      have hFraction : Digits (digits.drop point.toNat) :=
        fun c hMem => hDigits c (List.mem_of_mem_drop hMem)
      have hTake : digits.take point.toNat ≠ [] := by
        rw [Ne, List.take_eq_nil_iff]
        rintro (hZero | hNil)
        · omega
        · exact hSome hNil
      have hDrop : (digits.drop point.toNat).isEmpty = false := by
        rw [List.isEmpty_eq_false_iff, Ne, List.drop_eq_nil_iff]
        omega
      have hZeros : point.toNat - (digits.take point.toNat).length = 0 := by
        rw [List.length_take]
        omega
      have hRead := readDecimal?_point hWhole hTake hFraction hEnd
      rw [hSplit, List.append_nil] at hRead
      simp only [hDrop, hZeros, List.replicate_zero, List.append_nil]
      refine ⟨_, hRead, value_mk ?_⟩
      rw [List.length_drop]
      omega
    · have hTake : digits.take point.toNat = digits := List.take_of_length_le (by omega)
      have hDrop : digits.drop point.toNat = [] := List.drop_of_length_le (by omega)
      have hWhole := Numeral.digits_append hDigits
        (Numeral.digits_replicate (point.toNat - digits.length))
      have hRead := readDecimal?_point hWhole
        (List.append_ne_nil_of_left_ne_nil hSome _) (Numeral.digits_replicate 1) hEnd
      simp only [hTake, hDrop]
      refine ⟨_, hRead, ?_⟩
      rw [Nat.ofDigitChars_append, Nat.ofDigitChars_append, Nat.ofDigitChars_replicate_zero,
        Nat.ofDigitChars_replicate_zero, ← Nat.mul_assoc, ← Nat.pow_add, value_scaled]
      congr 2
      simp only [List.length_replicate]
      omega

theorem spells_scientific {digits : List Char} (hDigits : Digits digits) (hSome : digits ≠ [])
    {exponent : Int} (h : exponent.natAbs < 0x10000) :
    Spells (scientific digits exponent)
      (Nat.ofDigitChars 10 digits 0 * 10 ^ (exponent + 1 - digits.length)) := by
  have hPower := readExponent?_toString h
  rcases digits with _ | ⟨first, _ | ⟨second, more⟩⟩
  · exact absurd rfl hSome
  · refine ⟨_, readDecimal?_whole hDigits hSome hPower, ?_⟩
    simp [Decimal.value]
  · have hFirst : Digits [first] :=
      fun c hMem => hDigits c (List.mem_cons.2 (.inl (List.mem_singleton.1 hMem)))
    have hMore : Digits (second :: more) :=
      fun c hMem => hDigits c (List.mem_cons_of_mem first hMem)
    refine ⟨_, readDecimal?_point hFirst (List.cons_ne_nil _ _) hMore hPower, value_mk ?_⟩
    show exponent - (second :: more).length = exponent + 1 - ((second :: more).length + 1 : Nat)
    omega

/-- The point stands where the number of digits puts it, and no double is so large or so small
that its power of ten would be cut off. -/
theorem point_bounds {decimal : Decimal} (hPos : 0 < decimal.digits)
    (hLeast : (10 : ℚ) ^ (-330 : Int) < decimal.value)
    (hMost : decimal.value < (10 : ℚ) ^ (310 : Int)) :
    -330 < (Nat.toDigits 10 decimal.digits).length + decimal.exponent ∧
      (Nat.toDigits 10 decimal.digits).length + decimal.exponent ≤ 310 := by
  obtain ⟨length, hLength⟩ : ∃ n, (Nat.toDigits 10 decimal.digits).length = n := ⟨_, rfl⟩
  have hBelow : decimal.digits < 10 ^ length :=
    (Nat.length_toDigits_le_iff (by decide) (hLength ▸ Nat.length_toDigits_pos)).1 (by omega)
  have hAbove : 10 ^ (length - 1) ≤ decimal.digits := by
    by_cases hOne : length = 1
    · rw [hOne]
      exact hPos
    · have hShort := @Nat.length_toDigits_le_iff 10 decimal.digits (length - 1) (by decide)
      have hLong := Nat.length_toDigits_pos (b := 10) (n := decimal.digits)
      have := (hShort (by omega)).2
      omega
  have hTen : (0 : ℚ) < 10 ^ decimal.exponent := zpow_pos (by decide) _
  unfold Decimal.value at hLeast hMost
  rw [hLength]
  constructor
  · have hCast : (decimal.digits : ℚ) < 10 ^ (length : Int) := by exact_mod_cast hBelow
    have hProduct := lt_trans hLeast (mul_lt_mul_of_pos_right hCast hTen)
    rw [← zpow_add₀ (by decide)] at hProduct
    exact (zpow_lt_zpow_iff_right₀ (by decide)).1 hProduct
  · have hCast : (10 : ℚ) ^ ((length - 1 : Nat) : Int) ≤ decimal.digits := by
      exact_mod_cast hAbove
    have hProduct := lt_of_le_of_lt (mul_le_mul_of_nonneg_right hCast hTen.le) hMost
    rw [← zpow_add₀ (by decide)] at hProduct
    have := (zpow_lt_zpow_iff_right₀ (by decide)).1 hProduct
    omega

theorem spells_renderDecimal {decimal : Decimal} (hPos : 0 < decimal.digits)
    (hLeast : (10 : ℚ) ^ (-330 : Int) < decimal.value)
    (hMost : decimal.value < (10 : ℚ) ^ (310 : Int)) :
    Spells (renderDecimal decimal) decimal.value := by
  obtain ⟨hLow, hHigh⟩ := point_bounds hPos hLeast hMost
  obtain ⟨k, hTrim⟩ := exists_trimZeros (Nat.toDigits 10 decimal.digits)
  have hAll := Numeral.digits_toDigits decimal.digits
  have hNumber := @Nat.ofDigitChars_ten_toDigits decimal.digits
  unfold renderDecimal
  simp only [Numeral.toList_toString]
  generalize trimZeros (Nat.toDigits 10 decimal.digits) = digits at *
  generalize Nat.toDigits 10 decimal.digits = all at *
  subst hTrim
  have hDigits : Digits digits := fun c hMem => hAll c (List.mem_append_left _ hMem)
  rw [Nat.ofDigitChars_append, Nat.ofDigitChars_replicate_zero] at hNumber
  have hSome : digits ≠ [] := by
    rintro rfl
    rw [Nat.ofDigitChars_nil, Nat.mul_zero] at hNumber
    omega
  have hValue : decimal.value
      = Nat.ofDigitChars 10 digits 0 * 10 ^ (decimal.exponent + k) := by
    rw [← value_scaled, hNumber]
  have hLength : ((digits ++ List.replicate k '0').length : Int) = digits.length + k := by
    rw [List.length_append, List.length_replicate]
    omega
  rw [hLength] at hLow hHigh ⊢
  have hPlace : ∀ point : Int, point = digits.length + k + decimal.exponent →
      decimal.value = Nat.ofDigitChars 10 digits 0 * 10 ^ (point - digits.length) := by
    rintro point rfl
    rw [hValue]
    congr 2
    omega
  split
  · rw [hPlace _ rfl]
    exact spells_positional hDigits hSome _
  · rw [hPlace (digits.length + k + decimal.exponent - 1 + 1) (by omega)]
    exact spells_scientific hDigits hSome (by omega)

/-! ## Doubles -/

/-- A decimal that is read without a sign has none. -/
theorem head_of_readDecimal? {text : List Char} {decimal : Decimal}
    (h : readDecimal? text = some decimal) : ∀ c ∈ text.head?, c ≠ '-' ∧ c ≠ '+' := by
  have hNone : ∀ c more, c = '-' ∨ c = '+' → readDecimal? (c :: more) = none := by
    rintro c more (rfl | rfl)
    · rfl
    · rfl
  intro c hHead
  rcases text with _ | ⟨first, more⟩
  · cases hHead
  · cases hHead
    constructor
    · rintro rfl
      rw [hNone _ more (.inl rfl)] at h
      cases h
    · rintro rfl
      rw [hNone _ more (.inr rfl)] at h
      cases h

theorem read?_signed {text : List Char} {n : Nat} (h : readUnsigned? text = some n)
    (hHead : ∀ c ∈ text.head?, c ≠ '-' ∧ c ≠ '+') (negative : Bool) :
    read? ((if negative then ['-'] else []) ++ text) = some (withSign negative n) := by
  cases negative with
  | true => simp [read?, h]
  | false =>
    simp only [Bool.false_eq_true, if_false, List.nil_append]
    unfold read?
    split
    · exact absurd rfl (hHead '-' rfl).1
    · exact absurd rfl (hHead '+' rfl).2
    · rw [h]
      rfl

theorem readUnsigned?_renderDecimal {bits : UInt64} (hPos : 0 < unsigned bits)
    (hFinite : unsigned bits < infinityBits) :
    readUnsigned? (renderDecimal (shortest bits)) = some (unsigned bits) ∧
      ∀ c ∈ (renderDecimal (shortest bits)).head?, c ≠ '-' ∧ c ≠ '+' := by
  have hHolds := holds_shortest hPos
  obtain ⟨hLeast, hMost⟩ := value_bounds_of_holds hPos hFinite hHolds
  have hDigits := Nat.pos_of_ne_zero (Decimal.digits_ne_zero hLeast)
  obtain ⟨decimal, hRead, hValue⟩ := spells_renderDecimal hDigits hLeast hMost
  refine ⟨?_, head_of_readDecimal? hRead⟩
  unfold readUnsigned?
  rw [hRead]
  rw [← hValue] at hHolds
  exact congrArg some (roundDecimal_of_holds hPos hFinite hHolds)

/-- The text of a double is a sign or none and then a text for its size. -/
theorem render_eq {bits : UInt64} (h : isNaN bits = false) :
    ∃ text : List Char, (render bits).toList = (if isNegative bits then ['-'] else []) ++ text ∧
      readUnsigned? text = some (unsigned bits) ∧ ∀ c ∈ text.head?, c ≠ '-' ∧ c ≠ '+' := by
  have hRange : unsigned bits ≤ infinityBits := by simpa [isNaN] using h
  have hSign : (if isNegative bits then "-" else "").toList
      = if isNegative bits then ['-'] else [] := by
    split <;> rfl
  unfold render
  rw [if_neg (by rw [h]; decide)]
  simp only
  by_cases hInfinite : isInfinite bits = true
  · have hUnsigned : unsigned bits = infinityBits := by simpa [isInfinite] using hInfinite
    rw [if_pos hInfinite, String.toList_append, hSign, hUnsigned]
    exact ⟨_, rfl, by decide +kernel, by simp⟩
  · rw [if_neg hInfinite]
    by_cases hZero : isZero bits = true
    · have hUnsigned : unsigned bits = 0 := by simpa [isZero] using hZero
      rw [if_pos hZero, String.toList_append, hSign, hUnsigned]
      exact ⟨_, rfl, by decide +kernel, by simp⟩
    · rw [if_neg hZero, String.toList_append, hSign, String.toList_ofList]
      simp only [isZero, isInfinite, beq_iff_eq] at hZero hInfinite
      exact ⟨_, rfl, readUnsigned?_renderDecimal (by omega) (by omega)⟩

theorem read?_render {bits : UInt64} (h : isNaN bits = false) :
    read? (render bits).toList = some bits := by
  obtain ⟨text, hText, hRead, hHead⟩ := render_eq h
  rw [hText, read?_signed hRead hHead, withSign_unsigned]

end RegisterMachine.Binary64
