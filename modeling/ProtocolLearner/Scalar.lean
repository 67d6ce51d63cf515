import Mathlib.Algebra.Order.Ring.Defs
import Mathlib.Algebra.Order.Field.Basic
import Mathlib.Algebra.Order.Field.Rat
import Mathlib.Data.Nat.Cast.Order.Ring
import Mathlib.Data.Nat.Find
import Mathlib.Data.Rat.Floor
import Mathlib.Tactic.Linarith
import Mathlib.Tactic.Positivity
/-!
# The number type of the engine

`KMeans<T>` and the analysers are templates over (or use) a floating point
type. `Scalar T` lists the operations they use on it. Its three laws hold of
binary32 as well as of exact numbers, so a theorem about every `Scalar` covers
`KMeans<float>`.

`Exact T` is exact arithmetic: the operations are those of an ordered field
and `sqrt` is strictly increasing. What a division by zero gives is left open.
-/

namespace ProtocolLearner

/-- The operations of the program on its number type. -/
class Scalar (T : Type) where
  /-- `0.0` -/
  zero : T
  /-- `1.0f` -/
  one : T
  /-- `++x` -/
  incr : T → T
  /-- `x += y` -/
  add : T → T → T
  sub : T → T → T
  /-- `acc += pow(x, 2.0)` -/
  addPow2 : T → T → T
  sqrt : T → T
  div : T → T → T
  /-- `static_cast<T>(n)` -/
  ofCount : UInt16 → T
  /-- `x < y` -/
  less : T → T → Bool
  incr_zero : incr zero = one
  /-- Counting up from zero is exact below 2^24, the binary32 significand. -/
  count_inj : ∀ {m n : Nat}, n < 2 ^ 24 → incr^[m] zero = incr^[n] zero → m = n
  /-- No distance is less than that of a vector to itself (`x - x` is zero, or
  NaN when `x` is not finite). -/
  not_less_self : ∀ xs ys : List T,
    less (sqrt (ys.foldl addPow2 zero)) (sqrt ((xs.map fun x => sub x x).foldl addPow2 zero)) = false

/-- Exact arithmetic, with any strictly increasing `sqrt`. -/
class Exact (T : Type) [Field T] [LinearOrder T] extends Scalar T where
  zero_eq : zero = 0
  one_eq : one = 1
  incr_eq : ∀ x, incr x = x + 1
  add_eq : ∀ x y, add x y = x + y
  sub_eq : ∀ x y, sub x y = x - y
  addPow2_eq : ∀ acc x, addPow2 acc x = acc + x ^ 2
  sqrt_lt : ∀ {x y}, 0 ≤ x → x < y → sqrt x < sqrt y
  div_eq : ∀ x {y}, y ≠ 0 → div x y = x / y
  ofCount_eq : ∀ n, ofCount n = (n.toNat : T)
  less_iff : ∀ x y, less x y = true ↔ x < y

section Semiring
variable {T : Type} [Semiring T]

theorem foldl_pow2 (xs : List T) (acc : T) :
    xs.foldl (fun acc x => acc + x ^ 2) acc = acc + (xs.map (· ^ 2)).sum := by
  induction xs generalizing acc with
  | nil => simp
  | cons x xs ih => rw [List.foldl_cons, ih, List.map_cons, List.sum_cons, add_assoc]

theorem iterate_succ_eq_cast (n : Nat) : (fun x : T => x + 1)^[n] 0 = n := by
  induction n with
  | zero => simp
  | succ n ih => rw [Function.iterate_succ_apply', ih, Nat.cast_succ]

end Semiring

section Exact
variable {T : Type} [Field T] [LinearOrder T] [IsStrictOrderedRing T]

theorem sum_pow2_nonneg (xs : List T) : 0 ≤ (xs.map (· ^ 2)).sum :=
  List.sum_nonneg fun x hx => by
    obtain ⟨y, -, rfl⟩ := List.mem_map.1 hx
    positivity

/-- The exact arithmetic of an ordered field for a given square root, with the
field's own value for a division by zero. -/
@[reducible] def Exact.ofSqrt (sqrt : T → T) (h : ∀ {x y}, 0 ≤ x → x < y → sqrt x < sqrt y) : Exact T where
  zero := 0
  one := 1
  incr x := x + 1
  add x y := x + y
  sub x y := x - y
  addPow2 acc x := acc + x ^ 2
  sqrt := sqrt
  div x y := x / y
  ofCount n := (n.toNat : T)
  less x y := decide (x < y)
  incr_zero := zero_add 1
  count_inj _ he := by simpa [iterate_succ_eq_cast] using he
  not_less_self xs ys := by
    have h0 : ((xs.map fun x => x - x).map (· ^ 2)).sum = 0 := by
      simp [List.sum_eq_zero]
    rw [foldl_pow2, foldl_pow2, h0, zero_add, zero_add, decide_eq_false_iff_not, not_lt]
    rcases (sum_pow2_nonneg ys).eq_or_lt with he | hlt
    · rw [← he]
    · exact (h le_rfl hlt).le
  zero_eq := rfl
  one_eq := rfl
  incr_eq _ := rfl
  add_eq _ _ := rfl
  sub_eq _ _ := rfl
  addPow2_eq _ _ := rfl
  sqrt_lt := h
  div_eq _ _ _ := rfl
  ofCount_eq _ := rfl
  less_iff _ _ := by simp

end Exact

/-! ## Rational numbers

A square root that evaluates: right on the squares of natural numbers, linear
between two of them. -/

/-- The largest `n` with `n * n ≤ x`. -/
def natSqrt (x : ℚ) : Nat := Nat.findGreatest (fun n => (n * n : ℚ) ≤ x) ⌊x⌋₊

def ratSqrt (x : ℚ) : ℚ := natSqrt x + (x - natSqrt x * natSqrt x) / (2 * natSqrt x + 1)

theorem natSqrt_le {x : ℚ} (hx : 0 ≤ x) : (natSqrt x * natSqrt x : ℚ) ≤ x :=
  Nat.findGreatest_spec (P := fun n => (n * n : ℚ) ≤ x) (Nat.zero_le ⌊x⌋₊) (by simpa using hx)

theorem lt_natSqrt (x : ℚ) : x < (natSqrt x + 1) * (natSqrt x + 1) := by
  by_contra! h
  have hle : ((natSqrt x + 1 : Nat) : ℚ) ≤ x := by
    push_cast
    nlinarith [Nat.cast_nonneg (α := ℚ) (natSqrt x)]
  have := Nat.le_findGreatest (P := fun n : Nat => (n * n : ℚ) ≤ x) (Nat.le_floor hle) (by push_cast; exact h)
  exact absurd this (Nat.not_succ_le_self _)

theorem natSqrt_le_ratSqrt {x : ℚ} (hx : 0 ≤ x) : (natSqrt x : ℚ) ≤ ratSqrt x := by
  have := natSqrt_le hx
  have : 0 ≤ (x - natSqrt x * natSqrt x) / (2 * natSqrt x + 1) := div_nonneg (by linarith) (by positivity)
  rw [ratSqrt]
  linarith

theorem ratSqrt_lt_succ (x : ℚ) : ratSqrt x < natSqrt x + 1 := by
  have h := lt_natSqrt x
  have : (x - natSqrt x * natSqrt x) / (2 * natSqrt x + 1) < 1 := by
    rw [div_lt_one (by positivity)]
    linarith
  rw [ratSqrt]
  linarith

theorem ratSqrt_lt {x y : ℚ} (hx : 0 ≤ x) (hxy : x < y) : ratSqrt x < ratSqrt y := by
  have hy := hx.trans hxy.le
  rcases lt_trichotomy (natSqrt x) (natSqrt y) with hlt | heq | hgt
  · calc ratSqrt x < natSqrt x + 1 := ratSqrt_lt_succ x
      _ ≤ natSqrt y := by exact_mod_cast hlt
      _ ≤ ratSqrt y := natSqrt_le_ratSqrt hy
  · rw [ratSqrt, ratSqrt, heq]
    have : (x - natSqrt y * natSqrt y) / (2 * natSqrt y + 1) < (y - natSqrt y * natSqrt y) / (2 * natSqrt y + 1) :=
      div_lt_div_of_pos_right (by linarith) (by positivity)
    linarith
  · -- A larger root of `x` would make `y` smaller than `x`.
    have h1 := lt_natSqrt y
    have h2 := natSqrt_le hx
    have h3 : ((natSqrt y : ℚ) + 1) ≤ natSqrt x := by exact_mod_cast hgt
    nlinarith [Nat.cast_nonneg (α := ℚ) (natSqrt y)]

instance : Exact ℚ := Exact.ofSqrt ratSqrt ratSqrt_lt

/-- A reordering of lists: what `std::shuffle` does for one seed. -/
structure Shuffle (α : Type) where
  run : List α → List α
  perm : ∀ l, (run l).Perm l

namespace Shuffle
variable {α : Type}

def id : Shuffle α := ⟨fun l => l, fun _ => .refl _⟩

def reverse : Shuffle α := ⟨List.reverse, List.reverse_perm⟩

/-- Every order a shuffle may leave a list in is the order some `Shuffle` leaves it in. -/
theorem exists_run [DecidableEq α] {l l' : List α} (h : l'.Perm l) : ∃ σ : Shuffle α, σ.run l = l' :=
  ⟨⟨fun m => if m = l then l' else m, fun m => by
    by_cases hm : m = l
    · simpa [hm] using h
    · simp [hm]⟩, by simp⟩

end Shuffle

end ProtocolLearner
