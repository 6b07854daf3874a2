import Mathlib
import NovaDb.Core.Float64

namespace NovaDb
namespace Core

/-!
# Typed values, their equality and their order

`Value` is the value type of documents, literals and index keys.  An object is
the association list its `BTreeMap<String, Value>` iterates, in ascending key
order.  Equality and order are the hand-written ones of the source: equality
identifies an integer with the float it converts to, while the order compares
floats by `total_cmp`.  The two agree on values without floats; that is what an
index needs, and the second half of the module proves it.
-/

/-- Typed value representation in NOVA DB. -/
inductive Value where
  | null
  | bool (flag : Bool)
  | int (number : Int64)
  | float (number : Float64)
  | string (text : String)
  | bytes (data : List UInt8)
  | array (items : List Value)
  | object (members : List (String × Value))
  | timestamp (micros : Int64)
  | uuid (data : Vector UInt8 16)

namespace Value

def typeName : Value -> String
  | .null => "null"
  | .bool _ => "bool"
  | .int _ => "int"
  | .float _ => "float"
  | .string _ => "string"
  | .bytes _ => "bytes"
  | .array _ => "array"
  | .object _ => "object"
  | .timestamp _ => "timestamp"
  | .uuid _ => "uuid"

/-- Follow a dotted path through nested objects. -/
def followPath : Value -> List String -> Option Value
  | current, [] => some current
  | .object members, part :: rest =>
      match members.lookup part with
      | some next => followPath next rest
      | none => none
  | _, _ :: _ => none

mutual

/-- Equality with numeric coercion: the source's `PartialEq`. -/
def eq : Value -> Value -> Bool
  | .null, .null => true
  | .bool left, .bool right => left == right
  | .int left, .int right => left == right
  | .float left, .float right =>
      if left.isNan && right.isNan then true else left.eq right
  | .int left, .float right => (Float64.ofInt left.toInt).eq right
  | .float left, .int right => (Float64.ofInt right.toInt).eq left
  | .string left, .string right => left == right
  | .bytes left, .bytes right => left == right
  | .array left, .array right => eqItems left right
  | .object left, .object right => eqMembers left right
  | .timestamp left, .timestamp right => left == right
  | .uuid left, .uuid right => left == right
  | _, _ => false

def eqItems : List Value -> List Value -> Bool
  | [], [] => true
  | left :: lefts, right :: rights => eq left right && eqItems lefts rights
  | _, _ => false

def eqMembers : List (String × Value) -> List (String × Value) -> Bool
  | [], [] => true
  | (leftKey, left) :: lefts, (rightKey, right) :: rights =>
      leftKey == rightKey && eq left right && eqMembers lefts rights
  | _, _ => false

end

/-- Null < Bool < Int/Float < String < Bytes < Timestamp < Uuid < Array < Object. -/
def tag : Value -> Nat
  | .null => 0
  | .bool _ => 1
  | .int _ => 2
  | .float _ => 2
  | .string _ => 3
  | .bytes _ => 4
  | .timestamp _ => 5
  | .uuid _ => 6
  | .array _ => 7
  | .object _ => 8

mutual

/-- Total ordering for deterministic B-tree indexing: the source's `Ord`.
Values of different tags compare by tag; the last arm is the source's
catch-all and is reached only by them. -/
def cmp : Value -> Value -> Ordering
  | .null, .null => .eq
  | .bool left, .bool right => compare left right
  | .int left, .int right => compare left right
  | .float left, .float right => left.totalCmp right
  | .int left, .float right => (Float64.ofInt left.toInt).totalCmp right
  | .float left, .int right => left.totalCmp (Float64.ofInt right.toInt)
  | .string left, .string right => compare left right
  | .bytes left, .bytes right => compare left right
  | .timestamp left, .timestamp right => compare left right
  | .uuid left, .uuid right => compare left right
  | .array left, .array right => cmpItems left right
  | .object left, .object right => cmpMembers left right
  | left, right => compare left.tag right.tag

def cmpItems : List Value -> List Value -> Ordering
  | [], [] => .eq
  | [], _ :: _ => .lt
  | _ :: _, [] => .gt
  | left :: lefts, right :: rights => (cmp left right).then (cmpItems lefts rights)

def cmpMembers : List (String × Value) -> List (String × Value) -> Ordering
  | [], [] => .eq
  | [], _ :: _ => .lt
  | _ :: _, [] => .gt
  | (leftKey, left) :: lefts, (rightKey, right) :: rights =>
      ((compare leftKey rightKey).then (cmp left right)).then (cmpMembers lefts rights)

end

/-! ## Values without floats -/

mutual

/-- No float occurs in the value, at any depth. -/
def floatFree : Value -> Bool
  | .float _ => false
  | .array items => floatFreeItems items
  | .object members => floatFreeMembers members
  | _ => true

def floatFreeItems : List Value -> Bool
  | [] => true
  | item :: items => floatFree item && floatFreeItems items

def floatFreeMembers : List (String × Value) -> Bool
  | [] => true
  | (_, value) :: members => floatFree value && floatFreeMembers members

end

/-- Values of different tags compare by tag. -/
theorem cmp_of_tag_ne {left right : Value} (different : left.tag ≠ right.tag) :
    cmp left right = compare left.tag right.tag := by
  cases left <;> cases right <;> first | rfl | exact absurd rfl different

/-- Values that compare equal or are equal have the same tag. -/
theorem tag_eq_of_cmp_eq {left right : Value} (equal : cmp left right = .eq) :
    left.tag = right.tag := by
  by_contra different
  rw [cmp_of_tag_ne different] at equal
  exact different (Std.compare_eq_iff_eq.mp equal)

theorem tag_eq_of_eq {left right : Value} (equal : eq left right = true) :
    left.tag = right.tag := by
  cases left <;> cases right <;> first | rfl | cases equal

mutual

/-- Without floats, the source's equality is equality. -/
theorem eq_iff {left right : Value} (leftFree : left.floatFree) (rightFree : right.floatFree) :
    eq left right = true <-> left = right := by
  constructor
  · intro equal
    have tags := tag_eq_of_eq equal
    match left, right with
    | .null, .null => rfl
    | .bool _, .bool _ | .int _, .int _ | .string _, .string _ | .bytes _, .bytes _
    | .timestamp _, .timestamp _ | .uuid _, .uuid _ =>
        rw [eq, beq_iff_eq] at equal
        rw [equal]
    | .array items, .array others =>
        rw [(eqItems_iff leftFree rightFree).mp equal]
    | .object members, .object others =>
        rw [(eqMembers_iff leftFree rightFree).mp equal]
  · rintro rfl
    match left with
    | .null => rfl
    | .bool _ | .int _ | .string _ | .bytes _ | .timestamp _ | .uuid _ =>
        rw [eq, beq_iff_eq]
    | .array items => exact (eqItems_iff leftFree leftFree).mpr rfl
    | .object members => exact (eqMembers_iff leftFree leftFree).mpr rfl

theorem eqItems_iff {left right : List Value} (leftFree : floatFreeItems left)
    (rightFree : floatFreeItems right) : eqItems left right = true <-> left = right := by
  match left, right with
  | [], [] => exact ⟨fun _ => rfl, fun _ => rfl⟩
  | [], _ :: _ => simp only [eqItems, Bool.false_eq_true, reduceCtorEq]
  | _ :: _, [] => simp only [eqItems, Bool.false_eq_true, reduceCtorEq]
  | item :: items, other :: others =>
      have first := Bool.and_eq_true_iff.mp leftFree
      have second := Bool.and_eq_true_iff.mp rightFree
      rw [eqItems, Bool.and_eq_true_iff, eq_iff first.1 second.1, eqItems_iff first.2 second.2,
        List.cons.injEq]

theorem eqMembers_iff {left right : List (String × Value)} (leftFree : floatFreeMembers left)
    (rightFree : floatFreeMembers right) : eqMembers left right = true <-> left = right := by
  match left, right with
  | [], [] => exact ⟨fun _ => rfl, fun _ => rfl⟩
  | [], _ :: _ => simp only [eqMembers, Bool.false_eq_true, reduceCtorEq]
  | _ :: _, [] => simp only [eqMembers, Bool.false_eq_true, reduceCtorEq]
  | (key, value) :: members, (otherKey, other) :: others =>
      have first := Bool.and_eq_true_iff.mp leftFree
      have second := Bool.and_eq_true_iff.mp rightFree
      rw [eqMembers, Bool.and_eq_true_iff, Bool.and_eq_true_iff, beq_iff_eq,
        eq_iff first.1 second.1, eqMembers_iff first.2 second.2, List.cons.injEq, Prod.mk.injEq]

end

mutual

/-- Without floats, the source's order compares equal exactly equal values. -/
theorem cmp_eq_iff {left right : Value} (leftFree : left.floatFree)
    (rightFree : right.floatFree) : cmp left right = .eq <-> left = right := by
  constructor
  · intro equal
    have tags := tag_eq_of_cmp_eq equal
    match left, right with
    | .null, .null => rfl
    | .bool _, .bool _ | .int _, .int _ | .string _, .string _ | .bytes _, .bytes _
    | .timestamp _, .timestamp _ | .uuid _, .uuid _ =>
        rw [cmp, Std.compare_eq_iff_eq] at equal
        rw [equal]
    | .array items, .array others =>
        rw [(cmpItems_eq_iff leftFree rightFree).mp equal]
    | .object members, .object others =>
        rw [(cmpMembers_eq_iff leftFree rightFree).mp equal]
  · rintro rfl
    match left with
    | .null => rfl
    | .bool _ | .int _ | .string _ | .bytes _ | .timestamp _ | .uuid _ =>
        rw [cmp, Std.compare_eq_iff_eq]
    | .array items => exact (cmpItems_eq_iff leftFree leftFree).mpr rfl
    | .object members => exact (cmpMembers_eq_iff leftFree leftFree).mpr rfl

theorem cmpItems_eq_iff {left right : List Value} (leftFree : floatFreeItems left)
    (rightFree : floatFreeItems right) : cmpItems left right = .eq <-> left = right := by
  match left, right with
  | [], [] => exact ⟨fun _ => rfl, fun _ => rfl⟩
  | [], _ :: _ => simp only [cmpItems, reduceCtorEq]
  | _ :: _, [] => simp only [cmpItems, reduceCtorEq]
  | item :: items, other :: others =>
      have first := Bool.and_eq_true_iff.mp leftFree
      have second := Bool.and_eq_true_iff.mp rightFree
      rw [cmpItems, Ordering.then_eq_eq, cmp_eq_iff first.1 second.1,
        cmpItems_eq_iff first.2 second.2, List.cons.injEq]

theorem cmpMembers_eq_iff {left right : List (String × Value)}
    (leftFree : floatFreeMembers left) (rightFree : floatFreeMembers right) :
    cmpMembers left right = .eq <-> left = right := by
  match left, right with
  | [], [] => exact ⟨fun _ => rfl, fun _ => rfl⟩
  | [], _ :: _ => simp only [cmpMembers, reduceCtorEq]
  | _ :: _, [] => simp only [cmpMembers, reduceCtorEq]
  | (key, value) :: members, (otherKey, other) :: others =>
      have first := Bool.and_eq_true_iff.mp leftFree
      have second := Bool.and_eq_true_iff.mp rightFree
      rw [cmpMembers, Ordering.then_eq_eq, Ordering.then_eq_eq, Std.compare_eq_iff_eq,
        cmp_eq_iff first.1 second.1, cmpMembers_eq_iff first.2 second.2, List.cons.injEq,
        Prod.mk.injEq]

end

mutual

/-- Exchanging the operands reverses the order, floats included. -/
theorem cmp_swap (left right : Value) : cmp left right = (cmp right left).swap := by
  by_cases tags : left.tag = right.tag
  · match left, right with
    | .null, .null => rfl
    | .bool _, .bool _ | .int _, .int _ | .string _, .string _ | .bytes _, .bytes _
    | .timestamp _, .timestamp _ | .uuid _, .uuid _ =>
        exact Std.OrientedOrd.eq_swap
    | .float _, .float _ | .int _, .float _ | .float _, .int _ =>
        exact Std.OrientedOrd.eq_swap
    | .array items, .array others => exact cmpItems_swap items others
    | .object members, .object others => exact cmpMembers_swap members others
  · rw [cmp_of_tag_ne tags, cmp_of_tag_ne (Ne.symm tags)]
    exact Std.OrientedOrd.eq_swap

theorem cmpItems_swap (left right : List Value) :
    cmpItems left right = (cmpItems right left).swap := by
  match left, right with
  | [], [] | [], _ :: _ | _ :: _, [] => rfl
  | item :: items, other :: others =>
      rw [cmpItems, cmpItems, Ordering.swap_then, cmp_swap item other,
        cmpItems_swap items others]

theorem cmpMembers_swap (left right : List (String × Value)) :
    cmpMembers left right = (cmpMembers right left).swap := by
  match left, right with
  | [], [] | [], _ :: _ | _ :: _, [] => rfl
  | (key, value) :: members, (otherKey, other) :: others =>
      rw [cmpMembers, cmpMembers, Ordering.swap_then, Ordering.swap_then,
        cmp_swap value other, cmpMembers_swap members others,
        Std.OrientedOrd.eq_swap (a := key) (b := otherKey)]

end

end Value
end Core
end NovaDb
