import NovaDb.Core.FloatConversion
import NovaDb.Core.Value

namespace NovaDb
namespace Core

/-!
# Values as keys

B-tree maps, hash maps and sorting rest on laws that tie the equality, the order
and the hash of values to each other.  The source writes the three by hand.  They
agree on every tree whose numbers are pairwise `Compatible`: no two numbers that
count as equal while their bit patterns or their hashes tell them apart.
-/

/-! ## Hashing -/

/-- The calls a hasher receives. -/
inductive HasherCall where
  | writeU8 (byte : UInt8)
  | writeI64 (number : Int64)
  | writeU64 (number : UInt64)
  | writeStr (text : String)
  | writeLengthPrefix (length : Nat)
  | write (data : List UInt8)
  deriving DecidableEq, Repr

/-- An integral float within the range of `i64` is hashed as the integer. -/
def Float64.hash (f : Float64) : HasherCall :=
  if f.isIntegral && (Float64.ofInt Int64.minValue.toInt).le f &&
      f.le (Float64.ofInt Int64.maxValue.toInt) then .writeI64 f.toInt64
  else .writeU64 f.bits

namespace Value

mutual

/-- What the source's `Hash` feeds to the hasher. -/
def hash : Value -> List HasherCall
  | .null => [.writeU8 0]
  | .bool flag => [.writeU8 1, .writeU8 (if flag then 1 else 0)]
  | .int number => [.writeU8 2, .writeI64 number]
  | .float number => [.writeU8 2, number.hash]
  | .string text => [.writeU8 3, .writeStr text]
  | .bytes data => [.writeU8 4, .writeLengthPrefix data.length, .write data]
  | .timestamp micros => [.writeU8 5, .writeI64 micros]
  | .uuid data => [.writeU8 6, .writeLengthPrefix 16, .write data.toList]
  | .array items => .writeU8 7 :: .writeLengthPrefix items.length :: hashItems items
  | .object members => .writeU8 8 :: hashMembers members

def hashItems : List Value -> List HasherCall
  | [] => []
  | item :: items => hash item ++ hashItems items

def hashMembers : List (String × Value) -> List HasherCall
  | [] => []
  | (key, value) :: members => .writeStr key :: (hash value ++ hashMembers members)

end

end Value

/-! ## Three comparisons that fit together -/

/-- The results of comparing a first with a second, a second with a third and
the first with the third element of an order. -/
def Coherent (lower upper whole : Ordering) : Prop :=
  (lower = .eq -> whole = upper) ∧ (upper = .eq -> whole = lower) ∧ (lower = upper -> whole = lower)

theorem coherent_compare {K : Type} [Ord K] [Std.TransOrd K] (first second third : K) :
    Coherent (compare first second) (compare second third) (compare first third) := by
  refine ⟨Std.TransCmp.congr_left, fun same => (Std.TransCmp.congr_right same).symm, ?_⟩
  intro same
  cases order : compare first second with
  | lt => exact Std.TransCmp.lt_trans order (same.symm.trans order)
  | eq => exact Std.TransCmp.eq_trans order (same.symm.trans order)
  | gt => exact Std.TransCmp.gt_trans order (same.symm.trans order)

/-- Lexicographic comparison keeps comparisons coherent. -/
theorem Coherent.lex {lowerHead upperHead head lowerTail upperTail tail : Ordering}
    (heads : Coherent lowerHead upperHead head) (tails : Coherent lowerTail upperTail tail) :
    Coherent (lowerHead.then lowerTail) (upperHead.then upperTail) (head.then tail) := by
  rcases heads with ⟨fromLower, fromUpper, same⟩
  cases lowerHead with
  | eq =>
      rw [fromLower rfl]
      cases upperHead with
      | eq => exact tails
      | lt | gt =>
          refine ⟨fun _ => rfl, nofun, fun equal => equal.symm⟩
  | lt | gt =>
      cases upperHead with
      | eq =>
          rw [fromUpper rfl]
          exact ⟨nofun, fun _ => rfl, fun _ => rfl⟩
      | lt | gt =>
          refine ⟨nofun, nofun, fun equal => ?_⟩
          first
            | rw [same rfl]
              rfl
            | cases equal

theorem Coherent.isLE_trans {lower upper whole : Ordering} (coherent : Coherent lower upper whole)
    (below : lower ≠ .gt) (above : upper ≠ .gt) : whole ≠ .gt := by
  rcases coherent with ⟨fromLower, fromUpper, same⟩
  cases lower with
  | gt => exact absurd rfl below
  | eq =>
      rw [fromLower rfl]
      exact above
  | lt =>
      cases upper with
      | gt => exact absurd rfl above
      | eq =>
          rw [fromUpper rfl]
          exact below
      | lt =>
          rw [same rfl]
          exact below

/-! ## Numbers -/

/-- The numbers that values hold. -/
inductive Number where
  | int (number : Int64)
  | float (number : Float64)
  deriving DecidableEq, Repr

namespace Number

/-- Two numbers the equality, the order and the hash treat alike.  Floats that
count as equal are the same bit pattern; a float that equals an integer is the
float the integer converts to, and converts back to the integer. -/
def Compatible : Number -> Number -> Prop
  | .int _, .int _ => True
  | .float left, .float right =>
      left.eq right = true ∨ (left.isNan = true ∧ right.isNan = true) -> left = right
  | .int number, .float other | .float other, .int number =>
      (Float64.ofInt number.toInt).eq other = true ->
        other = Float64.ofInt number.toInt ∧ other.toInt64 = number

/-- Any two of the numbers are compatible. -/
def AllCompatible (numbers : Number -> Prop) : Prop :=
  forall left right, numbers left -> numbers right -> left.Compatible right

def value : Number -> Value
  | .int number => .int number
  | .float number => .float number

def isInt : Number -> Bool
  | .int _ => true
  | .float _ => false

/-- The float that decides a comparison with another float. -/
def asFloat : Number -> Float64
  | .int number => Float64.ofInt number.toInt
  | .float number => number

/-- The integer that decides between numbers of one float. -/
def asInt : Number -> Int64
  | .int number => number
  | .float number => number.toInt64

end Number

theorem Float64.totalKey_injective {left right : Float64} (same : left.totalKey = right.totalKey) :
    left = right := by
  rcases left with ⟨left⟩
  rcases right with ⟨right⟩
  have leftBound := left.toNat_lt
  have rightBound := right.toNat_lt
  simp only [totalKey, signBit, magnitude, decide_eq_true_eq] at same
  congr 1
  apply UInt64.toNat_inj.mp
  split at same <;> split at same <;> omega

theorem Float64.eq_of_totalKey {left right : Float64} (same : left.totalKey = right.totalKey) :
    left.eq right = true ∨ (left.isNan = true ∧ right.isNan = true) := by
  rw [totalKey_injective same]
  cases nan : right.isNan with
  | true => exact Or.inr ⟨rfl, rfl⟩
  | false =>
      left
      simp only [Float64.eq, nan, Bool.not_false, Bool.true_and, BEq.rfl, Bool.true_or]

theorem Float64.totalCmp_eq_iff {left right : Float64} :
    left.totalCmp right = .eq <-> left = right := by
  rw [totalCmp, Std.compare_eq_iff_eq]
  constructor
  · exact totalKey_injective
  · intro same
    rw [same]

theorem natAbs_toInt_le (number : Int64) : number.toInt.natAbs ≤ 2 ^ 63 := by
  have lower := number.le_toInt
  have upper := number.toInt_lt
  omega

theorem compare_then_lt {left right : Int} (le : left ≤ right) :
    (compare left right).then .lt = .lt := by
  rcases Int.lt_or_eq_of_le le with less | same
  · rw [Std.compare_eq_lt.mpr less]
    rfl
  · rw [Std.compare_eq_iff_eq.mpr same]
    rfl

theorem compare_then_gt {left right : Int} (le : right ≤ left) :
    (compare left right).then .gt = .gt := by
  rcases Int.lt_or_eq_of_le le with less | same
  · rw [Std.compare_eq_gt.mpr less]
    rfl
  · rw [Std.compare_eq_iff_eq.mpr same.symm]
    rfl

theorem compare_ints (left right : Int64) :
    compare left right =
      (compare (Float64.ofInt left.toInt).totalKey (Float64.ofInt right.toInt).totalKey).then
        (compare left right) := by
  cases order : compare left right with
  | lt =>
      have less := Int64.lt_iff_toInt_lt.mp (Std.compare_eq_lt.mp order)
      exact (compare_then_lt (Float64.totalKey_ofInt_mono (Int.le_of_lt less)
        (natAbs_toInt_le left) (natAbs_toInt_le right))).symm
  | eq =>
      rw [Std.compare_eq_iff_eq.mp order, Std.compare_eq_iff_eq.mpr rfl]
      rfl
  | gt =>
      have less := Int64.lt_iff_toInt_lt.mp (Std.compare_eq_gt.mp order)
      exact (compare_then_gt (Float64.totalKey_ofInt_mono (Int.le_of_lt less)
        (natAbs_toInt_le right) (natAbs_toInt_le left))).symm

/-- Where the floats of two numbers are the same, so are their integers, once one
of the numbers is a float. -/
theorem compare_then_self {left right : Int} {leftInt rightInt : Int64}
    (settled : left = right -> leftInt = rightInt) :
    compare left right = (compare left right).then (compare leftInt rightInt) := by
  cases order : compare left right with
  | lt => rfl
  | gt => rfl
  | eq =>
      rw [settled (Std.compare_eq_iff_eq.mp order), Std.compare_eq_iff_eq.mpr rfl]
      rfl

theorem Float64.ofInt_eq_of_totalKey {number : Int64} {other : Float64}
    (same : (ofInt number.toInt).totalKey = other.totalKey) :
    (ofInt number.toInt).eq other = true := by
  rcases eq_of_totalKey same with equal | ⟨nan, _⟩
  · exact equal
  · rw [isNan_ofInt (natAbs_toInt_le number)] at nan
    cases nan

/-- Numbers compare by their floats, and with one float by their integers. -/
theorem cmp_number {left right : Number} (compatible : left.Compatible right) :
    left.value.cmp right.value =
      (compare left.asFloat.totalKey right.asFloat.totalKey).then
        (compare left.asInt right.asInt) := by
  cases left with
  | int left =>
      cases right with
      | int right => exact compare_ints left right
      | float right =>
          refine compare_then_self (fun same => ?_)
          exact (compatible (Float64.ofInt_eq_of_totalKey same)).2.symm
  | float left =>
      cases right with
      | int right =>
          refine compare_then_self (fun same => ?_)
          exact (compatible (Float64.ofInt_eq_of_totalKey same.symm)).2
      | float right =>
          refine compare_then_self (fun same => ?_)
          rw [Float64.totalKey_injective same]

theorem eq_float_iff {left right : Float64} :
    Value.eq (.float left) (.float right) = true <->
      left.eq right = true ∨ (left.isNan = true ∧ right.isNan = true) := by
  rw [Value.eq]
  split
  · rename_i nans
    exact iff_of_true rfl (Or.inr (Bool.and_eq_true_iff.mp nans))
  · rename_i numbers
    rw [Bool.and_eq_true_iff] at numbers
    exact (or_iff_left numbers).symm

/-- Compatible numbers compare equal exactly when they count as equal. -/
theorem cmp_number_eq_iff {left right : Number} (compatible : left.Compatible right) :
    left.value.cmp right.value = .eq <-> left.value.eq right.value = true := by
  cases left with
  | int left =>
      cases right with
      | int right =>
          change compare left right = .eq <-> (left == right) = true
          rw [Std.compare_eq_iff_eq, beq_iff_eq]
      | float right =>
          change (Float64.ofInt left.toInt).totalCmp right = .eq <->
            (Float64.ofInt left.toInt).eq right = true
          constructor
          · intro same
            exact Float64.ofInt_eq_of_totalKey (Std.compare_eq_iff_eq.mp same)
          · intro equal
            exact Float64.totalCmp_eq_iff.mpr (compatible equal).1.symm
  | float left =>
      cases right with
      | int right =>
          change left.totalCmp (Float64.ofInt right.toInt) = .eq <->
            (Float64.ofInt right.toInt).eq left = true
          constructor
          · intro same
            exact Float64.ofInt_eq_of_totalKey (Std.compare_eq_iff_eq.mp same).symm
          · intro equal
            exact Float64.totalCmp_eq_iff.mpr (compatible equal).1
      | float right =>
          change left.totalCmp right = .eq <-> Value.eq (.float left) (.float right) = true
          rw [eq_float_iff]
          constructor
          · intro same
            exact Float64.eq_of_totalKey (Std.compare_eq_iff_eq.mp same)
          · intro equal
            exact Float64.totalCmp_eq_iff.mpr (compatible equal)

/-- An integer and the float it converts to are hashed alike, if the float
converts back. -/
theorem Float64.hash_ofInt {number : Int64} {other : Float64}
    (same : other = ofInt number.toInt) (back : other.toInt64 = number) :
    other.hash = .writeI64 number := by
  have small := natAbs_toInt_le number
  have lower : (ofInt Int64.minValue.toInt).le (ofInt number.toInt) = true :=
    le_ofInt number.le_toInt (by decide) small
  have upper : (ofInt number.toInt).le (ofInt Int64.maxValue.toInt) = true :=
    le_ofInt (Int.le_of_lt_add_one number.toInt_lt) small (by decide)
  rw [Float64.hash, back, same, isIntegral_ofInt small, lower, upper]
  rfl

/-- A float hashed like an integer converts to it. -/
theorem Float64.toInt64_of_hash {number : Int64} {other : Float64}
    (same : Value.hash (.float other) = Value.hash (.int number)) : other.toInt64 = number := by
  rw [Value.hash, Value.hash, List.cons.injEq, List.cons.injEq, Float64.hash] at same
  have call := same.2.1
  split at call
  · exact HasherCall.writeI64.inj call
  · cases call

theorem hash_number {left right : Number} (compatible : left.Compatible right)
    (equal : left.value.eq right.value = true) : left.value.hash = right.value.hash := by
  have same := (cmp_number_eq_iff compatible).mpr equal
  cases left with
  | int left =>
      cases right with
      | int right => rw [eq_of_beq equal]
      | float right =>
          rcases compatible equal with ⟨converted, back⟩
          simp only [Number.value, Value.hash, Float64.hash_ofInt converted back]
  | float left =>
      cases right with
      | int right =>
          rcases compatible equal with ⟨converted, back⟩
          simp only [Number.value, Value.hash, Float64.hash_ofInt converted back]
      | float right => rw [Float64.totalCmp_eq_iff.mp same]

/-! ## Trees of compatible numbers -/

namespace Value

mutual

/-- Every number in the value, at any depth, is one of the given numbers. -/
def NumbersIn (numbers : Number -> Prop) : Value -> Prop
  | .int number => numbers (.int number)
  | .float number => numbers (.float number)
  | .array items => NumbersInItems numbers items
  | .object members => NumbersInMembers numbers members
  | _ => True

def NumbersInItems (numbers : Number -> Prop) : List Value -> Prop
  | [] => True
  | item :: items => NumbersIn numbers item ∧ NumbersInItems numbers items

def NumbersInMembers (numbers : Number -> Prop) : List (String × Value) -> Prop
  | [] => True
  | (_, value) :: members => NumbersIn numbers value ∧ NumbersInMembers numbers members

end

section Trees

variable {numbers : Number -> Prop}

mutual

/-- The order and the equality agree. -/
theorem cmp_eq_iff_eq (compatible : Number.AllCompatible numbers) {left right : Value}
    (leftIn : left.NumbersIn numbers) (rightIn : right.NumbersIn numbers) :
    cmp left right = .eq <-> eq left right = true := by
  by_cases tags : left.tag = right.tag
  · match left, right with
    | .null, .null => exact iff_of_true rfl rfl
    | .bool _, .bool _ | .string _, .string _ | .bytes _, .bytes _ | .timestamp _, .timestamp _
    | .uuid _, .uuid _ => rw [cmp, eq, Std.compare_eq_iff_eq, beq_iff_eq]
    | .int left, .int right => exact cmp_number_eq_iff (compatible _ _ leftIn rightIn)
    | .int left, .float right => exact cmp_number_eq_iff (compatible _ _ leftIn rightIn)
    | .float left, .int right => exact cmp_number_eq_iff (compatible _ _ leftIn rightIn)
    | .float left, .float right => exact cmp_number_eq_iff (compatible _ _ leftIn rightIn)
    | .array items, .array others => exact cmpItems_eq_iff_eq compatible leftIn rightIn
    | .object members, .object others => exact cmpMembers_eq_iff_eq compatible leftIn rightIn
  · exact iff_of_false (fun same => tags (tag_eq_of_cmp_eq same))
      (fun equal => tags (tag_eq_of_eq equal))

theorem cmpItems_eq_iff_eq (compatible : Number.AllCompatible numbers) {left right : List Value}
    (leftIn : NumbersInItems numbers left) (rightIn : NumbersInItems numbers right) :
    cmpItems left right = .eq <-> eqItems left right = true := by
  match left, right with
  | [], [] => exact iff_of_true rfl rfl
  | [], _ :: _ => simp only [cmpItems, eqItems, reduceCtorEq, Bool.false_eq_true]
  | _ :: _, [] => simp only [cmpItems, eqItems, reduceCtorEq, Bool.false_eq_true]
  | item :: items, other :: others =>
      rw [cmpItems, eqItems, Ordering.then_eq_eq, Bool.and_eq_true_iff,
        cmp_eq_iff_eq compatible leftIn.1 rightIn.1,
        cmpItems_eq_iff_eq compatible leftIn.2 rightIn.2]

theorem cmpMembers_eq_iff_eq (compatible : Number.AllCompatible numbers)
    {left right : List (String × Value)} (leftIn : NumbersInMembers numbers left)
    (rightIn : NumbersInMembers numbers right) :
    cmpMembers left right = .eq <-> eqMembers left right = true := by
  match left, right with
  | [], [] => exact iff_of_true rfl rfl
  | [], _ :: _ => simp only [cmpMembers, eqMembers, reduceCtorEq, Bool.false_eq_true]
  | _ :: _, [] => simp only [cmpMembers, eqMembers, reduceCtorEq, Bool.false_eq_true]
  | (key, value) :: members, (otherKey, other) :: others =>
      rw [cmpMembers, eqMembers, Ordering.then_eq_eq, Ordering.then_eq_eq, Bool.and_eq_true_iff,
        Bool.and_eq_true_iff, Std.compare_eq_iff_eq, beq_iff_eq,
        cmp_eq_iff_eq compatible leftIn.1 rightIn.1,
        cmpMembers_eq_iff_eq compatible leftIn.2 rightIn.2]

end

mutual

/-- Equal values are hashed alike. -/
theorem hash_eq_of_eq (compatible : Number.AllCompatible numbers) {left right : Value}
    (leftIn : left.NumbersIn numbers) (rightIn : right.NumbersIn numbers)
    (equal : eq left right = true) : hash left = hash right := by
  have tags := tag_eq_of_eq equal
  match left, right with
  | .null, .null => rfl
  | .bool _, .bool _ | .string _, .string _ | .bytes _, .bytes _ | .timestamp _, .timestamp _
  | .uuid _, .uuid _ => rw [eq_of_beq equal]
  | .int left, .int right => exact hash_number (compatible _ _ leftIn rightIn) equal
  | .int left, .float right => exact hash_number (compatible _ _ leftIn rightIn) equal
  | .float left, .int right => exact hash_number (compatible _ _ leftIn rightIn) equal
  | .float left, .float right => exact hash_number (compatible _ _ leftIn rightIn) equal
  | .array items, .array others =>
      rcases hashItems_eq_of_eq compatible leftIn rightIn equal with ⟨lengths, hashes⟩
      rw [hash, hash, lengths, hashes]
  | .object members, .object others =>
      rw [hash, hash, hashMembers_eq_of_eq compatible leftIn rightIn equal]

theorem hashItems_eq_of_eq (compatible : Number.AllCompatible numbers) {left right : List Value}
    (leftIn : NumbersInItems numbers left) (rightIn : NumbersInItems numbers right)
    (equal : eqItems left right = true) :
    left.length = right.length ∧ hashItems left = hashItems right := by
  match left, right with
  | [], [] => exact ⟨rfl, rfl⟩
  | item :: items, other :: others =>
      rw [eqItems, Bool.and_eq_true_iff] at equal
      rcases hashItems_eq_of_eq compatible leftIn.2 rightIn.2 equal.2 with ⟨lengths, hashes⟩
      rw [hashItems, hashItems, hash_eq_of_eq compatible leftIn.1 rightIn.1 equal.1, hashes]
      exact ⟨congrArg Nat.succ lengths, rfl⟩

theorem hashMembers_eq_of_eq (compatible : Number.AllCompatible numbers)
    {left right : List (String × Value)} (leftIn : NumbersInMembers numbers left)
    (rightIn : NumbersInMembers numbers right) (equal : eqMembers left right = true) :
    hashMembers left = hashMembers right := by
  match left, right with
  | [], [] => rfl
  | (key, value) :: members, (otherKey, other) :: others =>
      rw [eqMembers, Bool.and_eq_true_iff, Bool.and_eq_true_iff, beq_iff_eq] at equal
      rw [hashMembers, hashMembers, equal.1.1, hash_eq_of_eq compatible leftIn.1 rightIn.1 equal.1.2,
        hashMembers_eq_of_eq compatible leftIn.2 rightIn.2 equal.2]

end

theorem eq_of_compare_eq_compare {left right : Nat} (same : compare left right = compare right left) :
    left = right := by
  have swapped : compare left right = (compare right left).swap := Std.OrientedOrd.eq_swap
  apply Std.compare_eq_iff_eq.mp
  cases order : compare right left with
  | eq => rw [same, order]
  | lt | gt =>
      rw [same, order] at swapped
      cases swapped

/-- Values of which two have different tags compare by their tags, coherently. -/
theorem cmp_coherent_of_tag_ne {first second third : Value}
    (different : ¬ (first.tag = second.tag ∧ second.tag = third.tag)) :
    Coherent (cmp first second) (cmp second third) (cmp first third) := by
  by_cases lowerTags : first.tag = second.tag
  · have upperTags : second.tag ≠ third.tag := fun same => different ⟨lowerTags, same⟩
    have wholeTags : first.tag ≠ third.tag := fun same => upperTags (lowerTags.symm.trans same)
    rw [cmp_of_tag_ne upperTags, cmp_of_tag_ne wholeTags, lowerTags]
    refine ⟨fun _ => rfl, ?_, fun same => same.symm⟩
    intro same
    exact absurd (Std.compare_eq_iff_eq.mp same) upperTags
  · rw [cmp_of_tag_ne lowerTags]
    by_cases upperTags : second.tag = third.tag
    · have wholeTags : first.tag ≠ third.tag := fun same => lowerTags (same.trans upperTags.symm)
      rw [cmp_of_tag_ne wholeTags, upperTags]
      refine ⟨?_, fun _ => rfl, fun _ => rfl⟩
      intro same
      exact absurd ((Std.compare_eq_iff_eq.mp same).trans upperTags.symm) lowerTags
    · rw [cmp_of_tag_ne upperTags]
      by_cases wholeTags : first.tag = third.tag
      · refine ⟨fun same => absurd (Std.compare_eq_iff_eq.mp same) lowerTags,
          fun same => absurd (Std.compare_eq_iff_eq.mp same) upperTags, fun same => ?_⟩
        rw [wholeTags] at same lowerTags
        exact absurd (eq_of_compare_eq_compare same) lowerTags
      · rw [cmp_of_tag_ne wholeTags]
        exact coherent_compare _ _ _

theorem exists_number {value : Value} (isNumber : value.tag = 2) :
    Exists fun number : Number => value = number.value := by
  cases value with
  | int number => exact ⟨.int number, rfl⟩
  | float number => exact ⟨.float number, rfl⟩
  | null | bool | string | bytes | array | object | timestamp | uuid => cases isNumber

theorem numbersIn_number {number : Number} : NumbersIn numbers number.value <-> numbers number := by
  cases number <;> exact Iff.rfl

theorem numbers_coherent (compatible : Number.AllCompatible numbers) {first second third : Value}
    (firstIn : first.NumbersIn numbers) (secondIn : second.NumbersIn numbers)
    (thirdIn : third.NumbersIn numbers) (firstNumber : first.tag = 2)
    (secondNumber : second.tag = 2) (thirdNumber : third.tag = 2) :
    Coherent (cmp first second) (cmp second third) (cmp first third) := by
  rcases exists_number firstNumber with ⟨one, rfl⟩
  rcases exists_number secondNumber with ⟨two, rfl⟩
  rcases exists_number thirdNumber with ⟨three, rfl⟩
  rw [numbersIn_number] at firstIn secondIn thirdIn
  rw [cmp_number (compatible one two firstIn secondIn),
    cmp_number (compatible two three secondIn thirdIn),
    cmp_number (compatible one three firstIn thirdIn)]
  exact (coherent_compare _ _ _).lex (coherent_compare _ _ _)

mutual

/-- The order is coherent. -/
theorem cmp_coherent (compatible : Number.AllCompatible numbers) {first second third : Value}
    (firstIn : first.NumbersIn numbers) (secondIn : second.NumbersIn numbers)
    (thirdIn : third.NumbersIn numbers) :
    Coherent (cmp first second) (cmp second third) (cmp first third) := by
  by_cases tags : first.tag = second.tag ∧ second.tag = third.tag
  · rcases tags with ⟨lowerTags, upperTags⟩
    by_cases isNumber : first.tag = 2
    · exact numbers_coherent compatible firstIn secondIn thirdIn isNumber
        (lowerTags.symm.trans isNumber) (upperTags.symm.trans (lowerTags.symm.trans isNumber))
    match first, second, third with
    | .int _, _, _ | .float _, _, _ => exact absurd rfl isNumber
    | .null, .null, .null => exact coherent_compare 0 0 0
    | .bool _, .bool _, .bool _ | .string _, .string _, .string _ | .bytes _, .bytes _, .bytes _
    | .timestamp _, .timestamp _, .timestamp _ | .uuid _, .uuid _, .uuid _ =>
        exact coherent_compare _ _ _
    | .array items, .array others, .array rest =>
        exact cmpItems_coherent compatible firstIn secondIn thirdIn
    | .object members, .object others, .object rest =>
        exact cmpMembers_coherent compatible firstIn secondIn thirdIn
  · exact cmp_coherent_of_tag_ne tags

theorem cmpItems_coherent (compatible : Number.AllCompatible numbers)
    {first second third : List Value} (firstIn : NumbersInItems numbers first)
    (secondIn : NumbersInItems numbers second) (thirdIn : NumbersInItems numbers third) :
    Coherent (cmpItems first second) (cmpItems second third) (cmpItems first third) := by
  match first, second, third with
  | item :: items, other :: others, last :: rest =>
      rw [cmpItems, cmpItems, cmpItems]
      exact (cmp_coherent compatible firstIn.1 secondIn.1 thirdIn.1).lex
        (cmpItems_coherent compatible firstIn.2 secondIn.2 thirdIn.2)
  | [], [], _ => exact ⟨fun _ => rfl, fun same => same, fun same => same.symm⟩
  | [], _ :: _, [] => exact ⟨nofun, nofun, nofun⟩
  | [], _ :: _, _ :: _ => exact ⟨nofun, fun _ => rfl, fun _ => rfl⟩
  | _ :: _, [], [] => exact ⟨nofun, fun _ => rfl, fun _ => rfl⟩
  | _ :: _, [], _ :: _ => exact ⟨nofun, nofun, nofun⟩
  | _ :: _, _ :: _, [] => exact ⟨fun _ => rfl, nofun, fun same => same.symm⟩

theorem cmpMembers_coherent (compatible : Number.AllCompatible numbers)
    {first second third : List (String × Value)} (firstIn : NumbersInMembers numbers first)
    (secondIn : NumbersInMembers numbers second) (thirdIn : NumbersInMembers numbers third) :
    Coherent (cmpMembers first second) (cmpMembers second third) (cmpMembers first third) := by
  match first, second, third with
  | (key, value) :: members, (otherKey, other) :: others, (lastKey, last) :: rest =>
      rw [cmpMembers, cmpMembers, cmpMembers]
      exact ((coherent_compare key otherKey lastKey).lex
        (cmp_coherent compatible firstIn.1 secondIn.1 thirdIn.1)).lex
          (cmpMembers_coherent compatible firstIn.2 secondIn.2 thirdIn.2)
  | [], [], _ => exact ⟨fun _ => rfl, fun same => same, fun same => same.symm⟩
  | [], _ :: _, [] => exact ⟨nofun, nofun, nofun⟩
  | [], _ :: _, _ :: _ => exact ⟨nofun, fun _ => rfl, fun _ => rfl⟩
  | _ :: _, [], [] => exact ⟨nofun, fun _ => rfl, fun _ => rfl⟩
  | _ :: _, [], _ :: _ => exact ⟨nofun, nofun, nofun⟩
  | _ :: _, _ :: _, [] => exact ⟨fun _ => rfl, nofun, fun same => same.symm⟩

end

end Trees

/-! ## The laws of keys -/

/-- What maps and sorting need of the equality, the order and the hash, for three
values. -/
structure LawfulAt (first second third : Value) : Prop where
  cmp_swap : cmp first second = (cmp second first).swap
  cmp_le_trans : cmp first second ≠ .gt -> cmp second third ≠ .gt -> cmp first third ≠ .gt
  cmp_same_trans : forall order, cmp first second = order -> cmp second third = order ->
    cmp first third = order
  cmp_eq_iff_eq : cmp first second = .eq <-> eq first second = true
  eq_trans : eq first second = true -> eq second third = true -> eq first third = true
  hash_eq : eq first second = true -> hash first = hash second

theorem lawfulAt_of_compatible {numbers : Number -> Prop}
    (compatible : Number.AllCompatible numbers) {first second third : Value}
    (firstIn : first.NumbersIn numbers) (secondIn : second.NumbersIn numbers)
    (thirdIn : third.NumbersIn numbers) : LawfulAt first second third := by
  have coherent := cmp_coherent compatible firstIn secondIn thirdIn
  have same : forall order, cmp first second = order -> cmp second third = order ->
      cmp first third = order := by
    intro order lower upper
    rw [coherent.2.2 (lower.trans upper.symm)]
    exact lower
  refine ⟨cmp_swap first second, coherent.isLE_trans, same,
    cmp_eq_iff_eq compatible firstIn secondIn, ?_, hash_eq_of_eq compatible firstIn secondIn⟩
  intro lower upper
  rw [← cmp_eq_iff_eq compatible firstIn secondIn] at lower
  rw [← cmp_eq_iff_eq compatible secondIn thirdIn] at upper
  rw [← cmp_eq_iff_eq compatible firstIn thirdIn]
  exact same .eq lower upper

theorem compatible_of_lawfulAt {left right : Number}
    (lawful : LawfulAt left.value right.value right.value) : left.Compatible right := by
  cases left with
  | int left =>
      cases right with
      | int right => trivial
      | float right =>
          intro equal
          have converted := Float64.totalCmp_eq_iff.mp (lawful.cmp_eq_iff_eq.mpr equal)
          exact ⟨converted.symm, Float64.toInt64_of_hash (lawful.hash_eq equal).symm⟩
  | float left =>
      cases right with
      | int right =>
          intro equal
          have converted := Float64.totalCmp_eq_iff.mp (lawful.cmp_eq_iff_eq.mpr equal)
          exact ⟨converted, Float64.toInt64_of_hash (lawful.hash_eq equal)⟩
      | float right =>
          intro equal
          exact Float64.totalCmp_eq_iff.mp (lawful.cmp_eq_iff_eq.mpr (eq_float_iff.mpr equal))

/-- Values are lawful keys, for equality, order and hash, exactly when the numbers they
are built from are pairwise compatible: floats that count as equal are the same one, and
a float that equals an integer is its conversion and converts back to it.  -/
theorem lawful_keys_iff (numbers : Number -> Prop) :
    (forall first second third : Value, first.NumbersIn numbers -> second.NumbersIn numbers ->
      third.NumbersIn numbers -> LawfulAt first second third) <->
        Number.AllCompatible numbers := by
  constructor
  · intro lawful left right leftIn rightIn
    have rightNumbers := numbersIn_number.mpr rightIn
    exact compatible_of_lawfulAt
      (lawful _ _ _ (numbersIn_number.mpr leftIn) rightNumbers rightNumbers)
  · intro compatible first second third firstIn secondIn thirdIn
    exact lawfulAt_of_compatible compatible firstIn secondIn thirdIn

/-- Two integers next to `2 ^ 53` equal one float and not each other. -/
theorem eq_not_transitive :
    ¬ LawfulAt (.int 9007199254740993) (.float (Float64.ofInt 9007199254740992))
      (.int 9007199254740992) := by
  intro lawful
  have equal := lawful.eq_trans (by decide +kernel) (by decide +kernel)
  revert equal
  decide +kernel

/-! ## Values without floats -/

mutual

theorem numbersIn_of_floatFree {value : Value} (free : value.floatFree = true) :
    value.NumbersIn (fun number => number.isInt = true) := by
  match value with
  | .int _ => rfl
  | .null | .bool _ | .string _ | .bytes _ | .timestamp _ | .uuid _ => trivial
  | .array items => exact numbersInItems_of_floatFree free
  | .object members => exact numbersInMembers_of_floatFree free

theorem numbersInItems_of_floatFree {items : List Value} (free : floatFreeItems items = true) :
    NumbersInItems (fun number => number.isInt = true) items := by
  match items with
  | [] => trivial
  | item :: items =>
      have parts := Bool.and_eq_true_iff.mp free
      exact ⟨numbersIn_of_floatFree parts.1, numbersInItems_of_floatFree parts.2⟩

theorem numbersInMembers_of_floatFree {members : List (String × Value)}
    (free : floatFreeMembers members = true) :
    NumbersInMembers (fun number => number.isInt = true) members := by
  match members with
  | [] => trivial
  | (_, value) :: members =>
      have parts := Bool.and_eq_true_iff.mp free
      exact ⟨numbersIn_of_floatFree parts.1, numbersInMembers_of_floatFree parts.2⟩

end

/-- Values without floats are lawful keys. -/
theorem lawfulAt_of_floatFree {first second third : Value} (firstFree : first.floatFree = true)
    (secondFree : second.floatFree = true) (thirdFree : third.floatFree = true) :
    LawfulAt first second third := by
  refine lawfulAt_of_compatible ?_ (numbersIn_of_floatFree firstFree)
    (numbersIn_of_floatFree secondFree) (numbersIn_of_floatFree thirdFree)
  intro left right leftInt rightInt
  cases left with
  | float _ => cases leftInt
  | int _ =>
      cases right with
      | float _ => cases rightInt
      | int _ => trivial

end Value

end Core
end NovaDb
