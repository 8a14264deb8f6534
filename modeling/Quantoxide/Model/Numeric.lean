import Mathlib.Algebra.Order.Field.Rat
import Mathlib.Data.Int.Log
import Mathlib.Data.Rat.Floor
import Mathlib.Order.BoundedOrder.Basic

/-! # Machine numbers

The finite values of an `f64` are rationals between `f64::MIN` and `f64::MAX`. An operation
computes exactly and rounds to 53 bits, ties to even; a result out of range saturates, which
is what the casts to `i64` downstream make of an infinity. A `u64` is a natural number and
an `i64` an integer, and the checked operations fail where the type has no result. -/

namespace Quantoxide

/-- `f64::MAX`. -/
def F64.maxVal : ℚ := 2 ^ 1024 - 2 ^ 971

structure F64 where
  val : ℚ
  ge_min : -F64.maxVal ≤ val
  le_max : val ≤ F64.maxVal

namespace F64

theorem ext_val {x y : F64} (h : x.val = y.val) : x = y := by
  cases x
  cases y
  simpa using h

instance : DecidableEq F64 := fun x y =>
  decidable_of_iff (x.val = y.val) ⟨ext_val, fun h => h ▸ rfl⟩

instance : LinearOrder F64 := LinearOrder.lift' F64.val fun _ _ => ext_val

theorem le_iff {x y : F64} : x ≤ y ↔ x.val ≤ y.val := Iff.rfl

theorem lt_iff {x y : F64} : x < y ↔ x.val < y.val := Iff.rfl

theorem neg_maxVal_le : -maxVal ≤ maxVal := by decide +kernel

instance : BoundedOrder F64 where
  top := ⟨maxVal, neg_maxVal_le, le_rfl⟩
  bot := ⟨-maxVal, le_rfl, neg_maxVal_le⟩
  le_top x := x.le_max
  bot_le x := x.ge_min

def clamp (q : ℚ) : F64 where
  val := max (-maxVal) (min maxVal q)
  ge_min := le_max_left _ _
  le_max := max_le neg_maxVal_le (min_le_left _ _)

instance : Zero F64 := ⟨clamp 0⟩

instance : One F64 := ⟨clamp 1⟩

instance : NatCast F64 := ⟨fun n => clamp n⟩

instance (n : ℕ) [n.AtLeastTwo] : OfNat F64 n := ⟨clamp n⟩

/-- The nearest integer, ties to even. -/
def roundTiesEven (q : ℚ) : ℤ :=
  let d := q - ⌊q⌋
  if d < 1 / 2 then ⌊q⌋
  else if d > 1 / 2 then ⌊q⌋ + 1
  else if ⌊q⌋ % 2 = 0 then ⌊q⌋ else ⌊q⌋ + 1

/-- The nearest double, subnormals included. -/
def ofRat (q : ℚ) : F64 :=
  if q = 0 then 0
  else
    let ulp : ℚ := 2 ^ (max (Int.log 2 |q|) (-1022) - 52)
    clamp (roundTiesEven (q / ulp) * ulp)

instance : Neg F64 := ⟨fun x => clamp (-x.val)⟩

instance : Add F64 := ⟨fun x y => ofRat (x.val + y.val)⟩

instance : Sub F64 := ⟨fun x y => ofRat (x.val - y.val)⟩

instance : Mul F64 := ⟨fun x y => ofRat (x.val * y.val)⟩

instance : Div F64 where
  div x y :=
    if y.val = 0 then (if 0 < x.val then ⊤ else if x.val < 0 then ⊥ else 0)
    else ofRat (x.val / y.val)

/-- `as i64`, which saturates. -/
def saturateI64 (n : ℤ) : ℤ := max (-9223372036854775808) (min 9223372036854775807 n)

/-- `.floor() as i64`. -/
def floorI64 (x : F64) : ℤ := saturateI64 ⌊x.val⌋

/-- `.round() as i64`: halves go away from zero. -/
def roundI64 (x : F64) : ℤ :=
  saturateI64 (if 0 ≤ x.val then ⌊x.val + 1 / 2⌋ else ⌈x.val - 1 / 2⌉)

end F64

namespace U64

def checkedAdd (a b : ℕ) : Option ℕ := if a + b < 2 ^ 64 then some (a + b) else none

theorem checkedAdd_eq_some {a b r : ℕ} : checkedAdd a b = some r ↔ a + b < 2 ^ 64 ∧ a + b = r := by
  simp [checkedAdd]

end U64

namespace I64

def InRange (n : ℤ) : Prop := -9223372036854775808 ≤ n ∧ n ≤ 9223372036854775807

instance (n : ℤ) : Decidable (InRange n) := inferInstanceAs (Decidable (_ ∧ _))

def checked (n : ℤ) : Option ℤ := if InRange n then some n else none

def checkedAdd (a b : ℤ) : Option ℤ := checked (a + b)

def checkedSub (a b : ℤ) : Option ℤ := checked (a - b)

def checkedNeg (a : ℤ) : Option ℤ := checked (-a)

/-- `as i64` of a `u64`, which wraps. -/
def ofU64 (n : ℕ) : ℤ := if n < 2 ^ 63 then n else n - 2 ^ 64

theorem ofU64_of_lt {n : ℕ} (h : n < 2 ^ 63) : ofU64 n = n := if_pos h

/-- `i64::try_from` of a `u64`. -/
def tryFrom (n : ℕ) : Option ℤ := checked n

theorem checked_eq_some {n r : ℤ} : checked n = some r ↔ InRange n ∧ n = r := by
  simp [checked]

theorem eq_of_tryFrom {n : ℕ} {r : ℤ} (h : tryFrom n = some r) : r = n :=
  (checked_eq_some.mp h).2.symm

theorem eq_of_checkedAdd {a b r : ℤ} (h : checkedAdd a b = some r) : r = a + b :=
  (checked_eq_some.mp h).2.symm

end I64

end Quantoxide
