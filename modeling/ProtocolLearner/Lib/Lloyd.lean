import Mathlib.Algebra.BigOperators.Field
import Mathlib.Algebra.Order.BigOperators.Ring.Finset
import Mathlib.Algebra.Order.Field.Basic
import Mathlib.Data.Fintype.BigOperators
import Mathlib.Data.Fintype.EquivFin
import Mathlib.Tactic.Linarith
import Mathlib.Tactic.Positivity
import Mathlib.Tactic.Ring
/-!
# Lloyd's iteration

Points `x : ι → δ → T` are assigned to means `μ : κ → δ → T`, each point to
the earliest of its nearest means; then each mean moves to the centroid of its
group, or to a fixed fallback if its group is empty. Over an ordered field the
sum of squared distances falls in every round that moves a mean anywhere but
to its fallback. There are finitely many assignments, so from some round on no
mean moves (`stabilises`), and the means never return to a value they have
left (`no_return`).
-/

namespace Lloyd

variable {ι κ δ T : Type*} [Fintype δ] [Field T] [LinearOrder T] [IsStrictOrderedRing T]

/-- Squared Euclidean distance. -/
def sqDist (x y : δ → T) : T := ∑ j, (x j - y j) ^ 2

theorem sqDist_nonneg (x y : δ → T) : 0 ≤ sqDist x y := Finset.sum_nonneg fun _ _ => sq_nonneg _

theorem sqDist_pos {x y : δ → T} (h : x ≠ y) : 0 < sqDist x y := by
  obtain ⟨j, hj⟩ := Function.ne_iff.1 h
  have hpos : 0 < (x j - y j) ^ 2 := by
    have := sub_ne_zero.2 hj
    positivity
  exact Finset.sum_pos' (fun _ _ => sq_nonneg _) ⟨j, Finset.mem_univ j, hpos⟩

/-! ## Assignment -/

/-- Each point is assigned to the earliest of its nearest means. -/
def Nearest [LinearOrder κ] (x : ι → δ → T) (μ : κ → δ → T) (a : ι → κ) : Prop :=
  ∀ i l, sqDist (x i) (μ (a i)) ≤ sqDist (x i) (μ l) ∧
    (l < a i → sqDist (x i) (μ (a i)) < sqDist (x i) (μ l))

section Nearest
variable [LinearOrder κ] {x : ι → δ → T} {μ : κ → δ → T} {a b : ι → κ}

omit [IsStrictOrderedRing T] in
/-- The means determine the assignment. -/
theorem Nearest.unique (ha : Nearest x μ a) (hb : Nearest x μ b) : a = b := by
  funext i
  rcases lt_trichotomy (a i) (b i) with h | h | h
  · exact absurd ((hb i (a i)).2 h) (not_lt.2 (ha i (b i)).1)
  · exact h
  · exact absurd ((ha i (b i)).2 h) (not_lt.2 (hb i (a i)).1)

end Nearest

/-! ## Cost -/

variable [Fintype ι]

/-- The sum of the squared distances of the points to their means. -/
def cost (x : ι → δ → T) (a : ι → κ) (μ : κ → δ → T) : T := ∑ i, sqDist (x i) (μ (a i))

/-- No assignment to the same means costs less. -/
theorem Nearest.cost_le [LinearOrder κ] {x : ι → δ → T} {μ : κ → δ → T} {a : ι → κ} (h : Nearest x μ a)
    (b : ι → κ) : cost x a μ ≤ cost x b μ :=
  Finset.sum_le_sum fun i _ => (h i (b i)).1

/-- The mean of a group is the average of its members; the mean of an empty
group is the fallback `e`. -/
structure Centroid [DecidableEq κ] (e : κ → δ → T) (x : ι → δ → T) (a : ι → κ) (c : κ → δ → T) : Prop where
  average : ∀ l j, (Finset.card {i | a i = l} : T) * c l j = ∑ i with a i = l, x i j
  empty : ∀ l, (∀ i, a i ≠ l) → c l = e l

omit [LinearOrder T] [IsStrictOrderedRing T] [Fintype ι] in
/-- Squared deviations from `m` exceed those from the average `c` by the
squared distance of `c` and `m`, once for each member. -/
theorem sum_sq_sub (s : Finset ι) (x : ι → T) {c : T} (hc : (s.card : T) * c = ∑ i ∈ s, x i) (m : T) :
    ∑ i ∈ s, (x i - m) ^ 2 = ∑ i ∈ s, (x i - c) ^ 2 + s.card * (c - m) ^ 2 := by
  have hcross : ∑ i ∈ s, (x i - c) = 0 := by
    rw [Finset.sum_sub_distrib, ← hc, Finset.sum_const, nsmul_eq_mul, sub_self]
  calc ∑ i ∈ s, (x i - m) ^ 2
      = ∑ i ∈ s, ((x i - c) ^ 2 + 2 * (c - m) * (x i - c) + (c - m) ^ 2) :=
        Finset.sum_congr rfl fun i _ => by ring
    _ = ∑ i ∈ s, (x i - c) ^ 2 + 2 * (c - m) * ∑ i ∈ s, (x i - c) + s.card * (c - m) ^ 2 := by
        rw [Finset.sum_add_distrib, Finset.sum_add_distrib, Finset.sum_const, nsmul_eq_mul, Finset.mul_sum]
    _ = ∑ i ∈ s, (x i - c) ^ 2 + s.card * (c - m) ^ 2 := by rw [hcross]; ring

section Centroid
variable [Fintype κ] [DecidableEq κ] {e : κ → δ → T} {x : ι → δ → T} {a : ι → κ} {c : κ → δ → T}

omit [LinearOrder T] [IsStrictOrderedRing T] in
theorem cost_fiberwise (μ : κ → δ → T) :
    cost x a μ = ∑ l, ∑ j, ∑ i with a i = l, (x i j - μ l j) ^ 2 := by
  unfold cost
  rw [← Finset.sum_fiberwise Finset.univ a]
  apply Finset.sum_congr rfl
  intro l _
  rw [Finset.sum_comm]
  apply Finset.sum_congr rfl
  intro i hi
  rw [(Finset.mem_filter.1 hi).2, sqDist]

omit [LinearOrder T] [IsStrictOrderedRing T] in
/-- What moving the means from `c` to `μ` costs. -/
theorem Centroid.cost_eq (h : Centroid e x a c) (μ : κ → δ → T) :
    cost x a μ = cost x a c + ∑ l, (Finset.card {i | a i = l} : T) * sqDist (c l) (μ l) := by
  rw [cost_fiberwise, cost_fiberwise, ← Finset.sum_add_distrib]
  refine Finset.sum_congr rfl fun l _ => ?_
  unfold sqDist
  rw [Finset.mul_sum, ← Finset.sum_add_distrib]
  exact Finset.sum_congr rfl fun j _ => sum_sq_sub _ _ (h.average l j) _

omit [Fintype κ] in
theorem card_pos {l : κ} (h : ∃ i, a i = l) : (0 : T) < Finset.card {i | a i = l} := by
  obtain ⟨i, hi⟩ := h
  exact_mod_cast Finset.card_pos.2 ⟨i, by simp [hi]⟩

/-- The centroids cost least. -/
theorem Centroid.cost_le (h : Centroid e x a c) (μ : κ → δ → T) : cost x a c ≤ cost x a μ := by
  rw [h.cost_eq μ]
  exact le_add_of_nonneg_right
    (Finset.sum_nonneg fun l _ => mul_nonneg (Nat.cast_nonneg _) (sqDist_nonneg _ _))

/-- Means that differ from the centroid of a group with members cost more. -/
theorem Centroid.cost_lt (h : Centroid e x a c) {μ : κ → δ → T} {l : κ} (hl : ∃ i, a i = l) (hne : c l ≠ μ l) :
    cost x a c < cost x a μ := by
  have hpos : 0 < (Finset.card {i | a i = l} : T) * sqDist (c l) (μ l) := mul_pos (card_pos hl) (sqDist_pos hne)
  rw [h.cost_eq μ]
  exact lt_add_of_pos_right _ (Finset.sum_pos'
    (fun l _ => mul_nonneg (Nat.cast_nonneg _) (sqDist_nonneg _ _)) ⟨l, Finset.mem_univ l, hpos⟩)

omit [Fintype κ] [Fintype δ] in
/-- The assignment determines the centroids. -/
theorem Centroid.unique {c' : κ → δ → T} (h : Centroid e x a c) (h' : Centroid e x a c') : c = c' := by
  funext l
  by_cases hl : ∃ i, a i = l
  · funext j
    exact mul_left_cancel₀ (card_pos hl).ne' ((h.average l j).trans (h'.average l j).symm)
  · have hempty : ∀ i, a i ≠ l := not_exists.1 hl
    rw [h.empty l hempty, h'.empty l hempty]

end Centroid

/-! ## Occupied groups -/

section Occupied
variable [LinearOrder κ] {e : κ → δ → T} {x : ι → δ → T} {a : ι → κ} {c : κ → δ → T}

omit [LinearOrder T] [IsStrictOrderedRing T] in
theorem Centroid.sum_sqDist (h : Centroid e x a c) (l : κ) (m : δ → T) :
    ∑ i with a i = l, sqDist (x i) m =
      ∑ i with a i = l, sqDist (x i) (c l) + (Finset.card {i | a i = l} : T) * sqDist (c l) m := by
  unfold sqDist
  rw [Finset.sum_comm, Finset.sum_comm (t := Finset.univ), Finset.mul_sum, ← Finset.sum_add_distrib]
  exact Finset.sum_congr rfl fun j _ => sum_sq_sub _ _ (h.average l j) _

omit [LinearOrder T] [IsStrictOrderedRing T] in
/-- On which side of `p` and `q` a group lies is decided by its centroid. -/
theorem Centroid.sum_sides (h : Centroid e x a c) (l : κ) (p q : δ → T) :
    ∑ i with a i = l, (sqDist (x i) p - sqDist (x i) q) =
      (Finset.card {i | a i = l} : T) * (sqDist (c l) p - sqDist (c l) q) := by
  rw [Finset.sum_sub_distrib, h.sum_sqDist l p, h.sum_sqDist l q]
  ring

/-- Groups with members have different centroids: the means they were assigned
to have them on different sides. -/
theorem Centroid.ne {μ : κ → δ → T} (hc : Centroid e x a c) (hx : Nearest x μ a) {l l' : κ} (hl : ∃ i, a i = l)
    (hl' : ∃ i, a i = l') (hlt : l < l') : c l ≠ c l' := by
  intro he
  have hnear : ∑ i with a i = l, (sqDist (x i) (μ l) - sqDist (x i) (μ l')) ≤ 0 := by
    refine Finset.sum_nonpos fun i hi => sub_nonpos.2 ?_
    rw [← (Finset.mem_filter.1 hi).2]
    exact (hx i l').1
  have hfar : 0 < ∑ i with a i = l', (sqDist (x i) (μ l) - sqDist (x i) (μ l')) := by
    refine Finset.sum_pos (fun i hi => sub_pos.2 ?_) ?_
    · have hi' := (Finset.mem_filter.1 hi).2
      have := (hx i l).2 (hi' ▸ hlt)
      rwa [hi'] at this
    · obtain ⟨i, hi⟩ := hl'
      exact ⟨i, by simp [hi]⟩
  rw [hc.sum_sides] at hnear hfar
  have h₁ : sqDist (c l) (μ l) - sqDist (c l) (μ l') ≤ 0 := nonpos_of_mul_nonpos_right hnear (card_pos hl)
  have h₂ : 0 < sqDist (c l') (μ l) - sqDist (c l') (μ l') := (mul_pos_iff_of_pos_left (card_pos hl')).1 hfar
  rw [he] at h₁
  exact absurd h₂ (not_lt.2 h₁)

/-- A group has a member nearer to its centroid than to any other given point. -/
theorem Centroid.exists_nearer (hc : Centroid e x a c) {l : κ} (hl : ∃ i, a i = l) {m : δ → T} (hne : c l ≠ m) :
    ∃ i, a i = l ∧ sqDist (x i) (c l) < sqDist (x i) m := by
  have hsum : ∑ i with a i = l, sqDist (x i) (c l) < ∑ i with a i = l, sqDist (x i) m := by
    rw [hc.sum_sqDist l m]
    exact lt_add_of_pos_right _ (mul_pos (card_pos hl) (sqDist_pos hne))
  obtain ⟨i, hi, hlt⟩ := Finset.exists_lt_of_sum_lt hsum
  exact ⟨i, (Finset.mem_filter.1 hi).2, hlt⟩

/-- Two means that have points keep points. -/
theorem Centroid.occupied [Fintype κ] (htwo : Fintype.card κ ≤ 2) {μ : κ → δ → T} {b : ι → κ}
    (hc : Centroid e x a c) (hx : Nearest x μ a) (ha : ∀ l, ∃ i, a i = l) (hb : Nearest x c b) :
    ∀ l, ∃ i, b i = l := by
  intro l
  by_cases hother : ∃ l', l' ≠ l
  · obtain ⟨l', hne⟩ := hother
    have hc' : c l ≠ c l' := by
      rcases hne.lt_or_gt with hlt | hlt
      · exact (hc.ne hx (ha l') (ha l) hlt).symm
      · exact hc.ne hx (ha l) (ha l') hlt
    obtain ⟨i, -, hlt⟩ := hc.exists_nearer (ha l) hc'
    refine ⟨i, by_contra fun hi => ?_⟩
    -- There is no third mean for the point to go to.
    have hi' : b i = l' := by
      by_contra hi'
      exact absurd htwo (not_le.2 (Fintype.two_lt_card_iff.2 ⟨l, l', b i, hne.symm, Ne.symm hi, Ne.symm hi'⟩))
    have hle := (hb i l).1
    rw [hi'] at hle
    exact absurd hlt (not_lt.2 hle)
  · obtain ⟨i, -⟩ := ha l
    exact ⟨i, by_contra fun hi => hother ⟨b i, hi⟩⟩

end Occupied

/-! ## The iteration -/

/-- Round `n` assigns to the means `μ n` and moves them to `μ (n + 1)`. -/
structure Rounds [LinearOrder κ] (e : κ → δ → T) (x : ι → δ → T) (a : ℕ → ι → κ) (μ : ℕ → κ → δ → T) : Prop where
  nearest : ∀ n, Nearest x (μ n) (a n)
  centroid : ∀ n, Centroid e x (a n) (μ (n + 1))

section Iteration
variable [Fintype κ] [LinearOrder κ] {e : κ → δ → T} {x : ι → δ → T} {a : ℕ → ι → κ} {μ : ℕ → κ → δ → T}

theorem Rounds.descent (h : Rounds e x a μ) (n : ℕ) :
    cost x (a (n + 1)) (μ (n + 1)) ≤ cost x (a n) (μ n) :=
  ((h.nearest (n + 1)).cost_le (a n)).trans ((h.centroid n).cost_le (μ n))

theorem Rounds.antitone (h : Rounds e x a μ) : Antitone fun n => cost x (a n) (μ n) :=
  antitone_nat_of_succ_le h.descent

/-- A round that does not lower the cost moves a mean only to its fallback. -/
theorem Rounds.still (h : Rounds e x a μ) {n : ℕ} (he : cost x (a (n + 1)) (μ (n + 1)) = cost x (a n) (μ n))
    (l : κ) : μ (n + 1) l = μ n l ∨ μ (n + 1) l = e l := by
  by_cases hl : ∃ i, a n i = l
  · refine .inl (by_contra fun hne => ?_)
    have hlt := (h.centroid n).cost_lt (μ := μ n) hl hne
    have hle := (h.nearest (n + 1)).cost_le (a n)
    exact absurd he (hle.trans_lt hlt).ne
  · exact .inr ((h.centroid n).empty l (not_exists.1 hl))

omit [Fintype κ] in
/-- Once a round moves no mean, none does. -/
theorem Rounds.stays (h : Rounds e x a μ) {n : ℕ} (he : μ (n + 1) = μ n) : ∀ m, n ≤ m → μ m = μ n := by
  refine Nat.le_induction rfl fun m _ ih => ?_
  have ha : a m = a n := (ih ▸ h.nearest m).unique (h.nearest n)
  rw [(h.centroid m).unique (ha ▸ h.centroid n), he]

/-- The means never come back to a value they have left. -/
theorem Rounds.no_return (h : Rounds e x a μ) {i j : ℕ} (hij : i < j) (he : μ i = μ j) : μ (i + 1) = μ i := by
  have ha : a i = a j := (h.nearest i).unique (he ▸ h.nearest j)
  have hends : cost x (a j) (μ j) = cost x (a i) (μ i) := by rw [ha, he]
  have hconst : ∀ n, i ≤ n → n < j → cost x (a (n + 1)) (μ (n + 1)) = cost x (a n) (μ n) := by
    intro n hin hnj
    refine le_antisymm (h.descent n) ?_
    calc cost x (a n) (μ n) ≤ cost x (a i) (μ i) := h.antitone hin
      _ = cost x (a j) (μ j) := hends.symm
      _ ≤ cost x (a (n + 1)) (μ (n + 1)) := h.antitone hnj
  funext l
  rcases h.still (hconst i le_rfl hij) l with hl | hl
  · exact hl
  · -- A mean that has gone to its fallback is still there at `j`, so it was there at `i`.
    have hstays : ∀ n, i + 1 ≤ n → n ≤ j → μ n l = e l := by
      refine Nat.le_induction (fun _ => hl) fun n hin ih hnj => ?_
      rcases h.still (hconst n (by omega) (by omega)) l with hn | hn
      · rw [hn, ih (by omega)]
      · exact hn
    rw [hl, he, hstays j hij le_rfl]

/-- From some round on no mean moves. -/
theorem Rounds.stabilises (h : Rounds e x a μ) : ∃ N, ∀ n, N ≤ n → μ n = μ N := by
  -- Finitely many assignments: two rounds share one, so two later rounds share their means.
  obtain ⟨i, j, hne, ha⟩ : ∃ i j, i ≠ j ∧ a i = a j := by
    by_contra! hinj
    exact not_injective_infinite_finite a fun i j he => by_contra fun hij => hinj i j hij he
  obtain ⟨i, j, hlt, ha⟩ : ∃ i j, i < j ∧ a i = a j := by
    rcases hne.lt_or_gt with hlt | hlt
    · exact ⟨i, j, hlt, ha⟩
    · exact ⟨j, i, hlt, ha.symm⟩
  have he : μ (i + 1) = μ (j + 1) := (h.centroid i).unique (ha ▸ h.centroid j)
  exact ⟨i + 1, h.stays (h.no_return (Nat.succ_lt_succ hlt) he)⟩

end Iteration

end Lloyd
