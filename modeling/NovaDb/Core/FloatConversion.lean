import NovaDb.Core.Float64

namespace NovaDb
namespace Core
namespace Float64

/-!
# Converting integers to floats

The order and the equality of numbers convert an integer operand with
`i64 as f64`.  The conversion rounds, so it is monotone without being strictly
monotone, and its results are integral numbers within the range of `i64`.
-/

/-! ## Rounding to 53 bits -/

theorem roundSignificand_mono {smaller larger : Nat} (exponent : Nat) (le : smaller ≤ larger) :
    roundSignificand smaller exponent ≤ roundSignificand larger exponent := by
  unfold roundSignificand
  split
  · exact Nat.mul_le_mul_right _ le
  · dsimp only
    generalize 2 ^ (exponent - 52) = unit
    generalize 2 ^ (exponent - 52 - 1) = half
    have quotients : smaller / unit ≤ larger / unit := Nat.div_le_div_right le
    rcases Nat.lt_or_eq_of_le quotients with less | same
    · split <;> split <;> omega
    · -- with one quotient the remainders are in order, and so is rounding up
      have remainders : smaller % unit ≤ larger % unit := by
        have left := Nat.div_add_mod smaller unit
        have right := Nat.div_add_mod larger unit
        rw [same] at left
        omega
      rw [same]
      split <;> split <;> omega

theorem roundSignificand_bounds {number exponent : Nat} (lower : 2 ^ exponent ≤ number)
    (upper : number < 2 ^ (exponent + 1)) :
    2 ^ 52 ≤ roundSignificand number exponent ∧ roundSignificand number exponent ≤ 2 ^ 53 := by
  unfold roundSignificand
  split
  · rename_i small
    have first : 2 ^ exponent * 2 ^ (52 - exponent) = 2 ^ 52 := by
      rw [← Nat.pow_add, Nat.add_sub_cancel' small]
    have second : 2 ^ (exponent + 1) * 2 ^ (52 - exponent) = 2 ^ 53 := by
      rw [← Nat.pow_add]
      congr 1
      omega
    constructor
    · rw [← first]
      exact Nat.mul_le_mul_right _ lower
    · rw [← second]
      exact Nat.mul_le_mul_right _ (Nat.le_of_lt upper)
  · rename_i large
    have first : 2 ^ 52 * 2 ^ (exponent - 52) = 2 ^ exponent := by
      rw [← Nat.pow_add]
      congr 1
      omega
    have second : 2 ^ 53 * 2 ^ (exponent - 52) = 2 ^ (exponent + 1) := by
      rw [← Nat.pow_add]
      congr 1
      omega
    have atLeast : 2 ^ 52 ≤ number / 2 ^ (exponent - 52) := by
      rw [Nat.le_div_iff_mul_le (Nat.two_pow_pos _), first]
      exact lower
    have atMost : number / 2 ^ (exponent - 52) < 2 ^ 53 := by
      rw [Nat.div_lt_iff_lt_mul (Nat.two_pow_pos _), second]
      exact upper
    dsimp only
    split <;> omega

/-! ## The bit pattern of a converted integer -/

/-- The bit pattern, without its sign, of an integer of the given size. -/
def ofSize (size : Nat) : Nat :=
  if size = 0 then 0
  else (Nat.log 2 size + 1023) * 2 ^ 52 + (roundSignificand size (Nat.log 2 size) - 2 ^ 52)

theorem roundSignificand_log {size : Nat} (positive : size ≠ 0) :
    2 ^ 52 ≤ roundSignificand size (Nat.log 2 size) ∧
      roundSignificand size (Nat.log 2 size) ≤ 2 ^ 53 :=
  roundSignificand_bounds (Nat.pow_log_le_self 2 positive) (Nat.lt_pow_succ_log_self (by decide) size)

theorem ofSize_mono {smaller larger : Nat} (le : smaller ≤ larger) :
    ofSize smaller ≤ ofSize larger := by
  by_cases zero : smaller = 0
  · rw [ofSize, if_pos zero]
    exact Nat.zero_le _
  · have positive : larger ≠ 0 := by omega
    have low := roundSignificand_log zero
    have high := roundSignificand_log positive
    rw [ofSize, ofSize, if_neg zero, if_neg positive]
    rcases Nat.lt_or_eq_of_le (Nat.log_mono_right le : Nat.log 2 smaller ≤ Nat.log 2 larger) with
      less | same
    · have step : (Nat.log 2 smaller + 1023) * 2 ^ 52 + 2 ^ 52 ≤ (Nat.log 2 larger + 1023) * 2 ^ 52 := by
        rw [← Nat.succ_mul]
        exact Nat.mul_le_mul_right _ (by omega)
      omega
    · have rounded := roundSignificand_mono (Nat.log 2 larger) le
      rw [same]
      omega

/-- The bit pattern of `2 ^ 63`. -/
theorem ofSize_limit : ofSize (2 ^ 63) = 1086 * 2 ^ 52 := by
  rw [ofSize, if_neg (by decide), Nat.log_pow (by decide)]
  decide

theorem ofSize_le {size : Nat} (small : size ≤ 2 ^ 63) : ofSize size ≤ 1086 * 2 ^ 52 := by
  rw [← ofSize_limit]
  exact ofSize_mono small

theorem ofInt_toNat {number : Int} (small : number.natAbs ≤ 2 ^ 63) :
    (ofInt number).bits.toNat =
      if number < 0 then 2 ^ 63 + ofSize number.natAbs else ofSize number.natAbs := by
  have bound := ofSize_le small
  unfold ofInt
  by_cases zero : number = 0
  · subst zero
    rfl
  · have size : (Nat.log 2 number.natAbs + 1023) * 2 ^ 52 +
        (roundSignificand number.natAbs (Nat.log 2 number.natAbs) - 2 ^ 52) = ofSize number.natAbs := by
      rw [ofSize, if_neg (Int.natAbs_ne_zero.mpr zero)]
    rw [if_neg zero]
    dsimp only
    rw [size]
    split
    · exact UInt64.toNat_ofNat_of_lt' (by change _ < 2 ^ 64; omega)
    · exact UInt64.toNat_ofNat_of_lt' (by change _ < 2 ^ 64; omega)

theorem magnitude_ofInt {number : Int} (small : number.natAbs ≤ 2 ^ 63) :
    (ofInt number).magnitude = ofSize number.natAbs := by
  have bound := ofSize_le small
  rw [magnitude, ofInt_toNat small]
  split
  · rw [Nat.add_mod_left]
    exact Nat.mod_eq_of_lt (by omega)
  · exact Nat.mod_eq_of_lt (by omega)

theorem signBit_ofInt {number : Int} (small : number.natAbs ≤ 2 ^ 63) :
    (ofInt number).signBit = decide (number < 0) := by
  have bound := ofSize_le small
  rw [signBit, ofInt_toNat small, decide_eq_decide]
  split <;> omega

/-- The key of a converted integer, for the total order. -/
theorem totalKey_ofInt {number : Int} (small : number.natAbs ≤ 2 ^ 63) :
    (ofInt number).totalKey =
      if number < 0 then -1 - (ofSize number.natAbs : Int) else (ofSize number.natAbs : Int) := by
  rw [totalKey, signBit_ofInt small, magnitude_ofInt small]
  simp only [decide_eq_true_eq]

/-- Conversion is monotone. -/
theorem totalKey_ofInt_mono {smaller larger : Int} (le : smaller ≤ larger)
    (smallLeft : smaller.natAbs ≤ 2 ^ 63) (smallRight : larger.natAbs ≤ 2 ^ 63) :
    (ofInt smaller).totalKey ≤ (ofInt larger).totalKey := by
  rw [totalKey_ofInt smallLeft, totalKey_ofInt smallRight]
  split
  · split
    · have sizes := ofSize_mono (show larger.natAbs ≤ smaller.natAbs by omega)
      omega
    · omega
  · have sizes := ofSize_mono (show smaller.natAbs ≤ larger.natAbs by omega)
    split <;> omega

/-- A converted integer is not a NaN. -/
theorem isNan_ofInt {number : Int} (small : number.natAbs ≤ 2 ^ 63) :
    (ofInt number).isNan = false := by
  have bound := ofSize_le small
  rw [isNan, magnitude_ofInt small, decide_eq_false_iff_not]
  omega

/-! ## Converted integers are integral -/

/-- A significand that is not rounded keeps its last bits zero. -/
theorem significand_of_small {f : Float64} {size : Nat} (positive : size ≠ 0)
    (short : Nat.log 2 size < 52) (pattern : f.magnitude = ofSize size) :
    f.scale = Nat.log 2 size + 1023 ∧ f.significand = size * 2 ^ (52 - Nat.log 2 size) := by
  have lower := (roundSignificand_log positive).1
  have upper : roundSignificand size (Nat.log 2 size) < 2 ^ 53 := by
    rw [roundSignificand, if_pos (Nat.le_of_lt short)]
    have second : 2 ^ (Nat.log 2 size + 1) * 2 ^ (52 - Nat.log 2 size) = 2 ^ 53 := by
      rw [← Nat.pow_add]
      congr 1
      omega
    rw [← second]
    exact Nat.mul_lt_mul_of_pos_right (Nat.lt_pow_succ_log_self (by decide) size)
      (Nat.two_pow_pos _)
  have rounded : roundSignificand size (Nat.log 2 size) = size * 2 ^ (52 - Nat.log 2 size) := by
    rw [roundSignificand, if_pos (Nat.le_of_lt short)]
  rw [ofSize, if_neg positive] at pattern
  have field : f.exponentField = Nat.log 2 size + 1023 := by
    rw [exponentField, pattern]
    omega
  constructor
  · rw [scale, field]
    omega
  · rw [significand, field, if_neg (by omega), pattern, ← rounded]
    omega

theorem isIntegral_ofInt {number : Int} (small : number.natAbs ≤ 2 ^ 63) :
    (ofInt number).isIntegral = true := by
  have bound := ofSize_le small
  have pattern := magnitude_ofInt small
  have finite : (ofInt number).exponentField < 2047 := by
    rw [exponentField, pattern]
    omega
  rw [isIntegral, Bool.and_eq_true_iff, decide_eq_true_iff, Bool.or_eq_true_iff,
    decide_eq_true_iff, beq_iff_eq]
  refine ⟨finite, ?_⟩
  by_cases zero : number.natAbs = 0
  · right
    have none : (ofInt number).magnitude = 0 := by
      rw [pattern, zero]
      rfl
    rw [significand, exponentField, none]
    exact Nat.zero_mod _
  · by_cases short : Nat.log 2 number.natAbs < 52
    · right
      rcases significand_of_small zero short pattern with ⟨scaled, significant⟩
      have places : 1075 - (Nat.log 2 number.natAbs + 1023) = 52 - Nat.log 2 number.natAbs := by
        omega
      rw [scaled, significant, places]
      exact Nat.mul_mod_left _ _
    · left
      have large : 1075 * 2 ^ 52 ≤ (ofInt number).magnitude := by
        rw [pattern, ofSize, if_neg zero]
        have field : 1075 * 2 ^ 52 ≤ (Nat.log 2 number.natAbs + 1023) * 2 ^ 52 :=
          Nat.mul_le_mul_right _ (by omega)
        exact Nat.le_trans field (Nat.le_add_right _ _)
      have field : 1075 ≤ (ofInt number).exponentField := by
        rw [exponentField, Nat.le_div_iff_mul_le (Nat.two_pow_pos _)]
        exact large
      exact Nat.le_trans field (Nat.le_max_left _ _)

/-- Within the numbers of `i64`, the bounds of the range are bounds of the
converted numbers. -/
theorem le_ofInt {smaller larger : Int} (le : smaller ≤ larger)
    (smallLeft : smaller.natAbs ≤ 2 ^ 63) (smallRight : larger.natAbs ≤ 2 ^ 63) :
    (ofInt smaller).le (ofInt larger) = true := by
  have keys := totalKey_ofInt_mono le smallLeft smallRight
  simp only [Float64.le, isNan_ofInt smallLeft, isNan_ofInt smallRight, keys, Bool.not_false,
    Bool.true_and, decide_true, Bool.true_or]

end Float64
end Core
end NovaDb
