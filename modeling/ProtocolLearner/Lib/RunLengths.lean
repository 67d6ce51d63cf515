import Mathlib.Algebra.GroupWithZero.Nat
import Mathlib.Data.List.Chain
/-!
# Run lengths

A run is a value and a number of times it occurs in a row. A list of runs in
which no run is empty and no two neighbours have the same value is `Reduced`.
Every list is the expansion of exactly one reduced list of runs: `Reduced.grow`
and `Reduced.start` extend it by an element, and `Reduced.unique` says that
there is no other.
-/

namespace RunLengths

variable {α : Type*}

/-- The list the runs stand for. -/
def expand (rs : List (α × Nat)) : List α := rs.flatMap fun r => List.replicate r.2 r.1

@[simp] theorem expand_nil : expand ([] : List (α × Nat)) = [] := rfl

@[simp] theorem expand_cons (r : α × Nat) (rs : List (α × Nat)) :
    expand (r :: rs) = List.replicate r.2 r.1 ++ expand rs := rfl

@[simp] theorem expand_append (rs ss : List (α × Nat)) : expand (rs ++ ss) = expand rs ++ expand ss :=
  List.flatMap_append

/-- No run is empty, and neighbours have different values. -/
structure Reduced (rs : List (α × Nat)) : Prop where
  pos : ∀ r ∈ rs, 1 ≤ r.2
  differ : (rs.map Prod.fst).IsChain (· ≠ ·)

theorem Reduced.nil : Reduced ([] : List (α × Nat)) := ⟨by simp, .nil⟩

theorem Reduced.tail {r : α × Nat} {rs : List (α × Nat)} (h : Reduced (r :: rs)) : Reduced rs :=
  ⟨fun s hs => h.pos s (List.mem_cons_of_mem _ hs), (List.isChain_cons.1 h.differ).2⟩

/-! ## One element more -/

/-- The last run grows. -/
theorem Reduced.grow {rs : List (α × Nat)} {a : α} {n : Nat} (h : Reduced (rs ++ [(a, n)])) :
    Reduced (rs ++ [(a, n + 1)]) := by
  constructor
  · intro r hr
    rcases List.mem_append.1 hr with hr | hr
    · exact h.pos r (List.mem_append_left _ hr)
    · obtain rfl := List.mem_singleton.1 hr
      exact Nat.le_add_left 1 n
  · simpa using h.differ

theorem expand_grow (rs : List (α × Nat)) (a : α) (n : Nat) :
    expand (rs ++ [(a, n + 1)]) = expand (rs ++ [(a, n)]) ++ [a] := by
  simp [List.replicate_succ']

/-- A new run starts. -/
theorem Reduced.start {rs : List (α × Nat)} {a : α} (h : Reduced rs)
    (hlast : ∀ r, rs.getLast? = some r → r.1 ≠ a) : Reduced (rs ++ [(a, 1)]) := by
  constructor
  · intro r hr
    rcases List.mem_append.1 hr with hr | hr
    · exact h.pos r hr
    · obtain rfl := List.mem_singleton.1 hr
      exact le_rfl
  · rw [List.map_append, List.isChain_append]
    refine ⟨h.differ, .singleton a, ?_⟩
    intro x hx y hy
    obtain rfl : a = y := by simpa using hy
    rw [List.getLast?_map] at hx
    obtain ⟨r, hr, rfl⟩ := Option.map_eq_some_iff.1 hx
    exact hlast r hr

theorem expand_start (rs : List (α × Nat)) (a : α) : expand (rs ++ [(a, 1)]) = expand rs ++ [a] := by
  simp

/-! ## Uniqueness -/

theorem Reduced.head_expand {r : α × Nat} {rs : List (α × Nat)} (h : Reduced (r :: rs)) :
    (expand (r :: rs)).head? = some r.1 := by
  obtain ⟨n, hn⟩ := Nat.exists_eq_add_of_le' (h.pos r List.mem_cons_self)
  simp [hn, List.replicate_succ]

/-- What follows the first run starts with another value. -/
theorem Reduced.head_rest {r : α × Nat} {rs : List (α × Nat)} (h : Reduced (r :: rs)) :
    (expand rs).head? ≠ some r.1 := by
  cases rs with
  | nil => simp
  | cons s rs =>
    rw [h.tail.head_expand]
    intro he
    have hne : r.1 ≠ s.1 := (List.isChain_cons_cons.1 h.differ).1
    exact hne (Option.some.inj he).symm

/-- Two lists that start with as many `a` as can be are told apart by what follows. -/
theorem replicate_append_inj {a : α} {m n : Nat} {xs ys : List α} (hx : xs.head? ≠ some a) (hy : ys.head? ≠ some a)
    (h : List.replicate m a ++ xs = List.replicate n a ++ ys) : m = n ∧ xs = ys := by
  induction m generalizing n with
  | zero =>
    cases n with
    | zero => exact ⟨rfl, h⟩
    | succ n =>
      rw [List.replicate_zero, List.nil_append] at h
      exact absurd (by rw [h]; rfl) hx
  | succ m ih =>
    cases n with
    | zero =>
      rw [List.replicate_zero, List.nil_append] at h
      exact absurd (by rw [← h]; rfl) hy
    | succ n =>
      simp only [List.replicate_succ, List.cons_append, List.cons.injEq, true_and] at h
      obtain ⟨rfl, hxy⟩ := ih h
      exact ⟨rfl, hxy⟩

/-- A list is the expansion of one reduced list of runs at most. -/
theorem Reduced.unique {rs ss : List (α × Nat)} (hr : Reduced rs) (hs : Reduced ss)
    (h : expand rs = expand ss) : rs = ss := by
  induction rs generalizing ss with
  | nil =>
    cases ss with
    | nil => rfl
    | cons s ss =>
      have hhead := hs.head_expand
      rw [← h] at hhead
      cases hhead
  | cons r rs ih =>
    cases ss with
    | nil =>
      have hhead := hr.head_expand
      rw [h] at hhead
      cases hhead
    | cons s ss =>
      obtain ⟨a, m⟩ := r
      obtain ⟨b, n⟩ := s
      have hhead := hr.head_expand
      rw [h, hs.head_expand, Option.some.injEq] at hhead
      obtain rfl : b = a := hhead
      obtain ⟨rfl, hrest⟩ := replicate_append_inj hr.head_rest hs.head_rest h
      rw [ih hr.tail hs.tail hrest]

/-! ## Totals -/

/-- The runs of a value add up to its occurrences. -/
theorem count_expand [DecidableEq α] (a : α) (rs : List (α × Nat)) :
    (expand rs).count a = ((rs.filter fun r => r.1 = a).map Prod.snd).sum := by
  induction rs with
  | nil => rfl
  | cons r rs ih =>
    rw [expand_cons, List.count_append, List.count_replicate, ih]
    by_cases hr : r.1 = a
    · simp [hr]
    · simp [hr]

theorem length_expand (rs : List (α × Nat)) : (expand rs).length = (rs.map Prod.snd).sum := by
  induction rs with
  | nil => rfl
  | cons r rs ih => rw [expand_cons, List.length_append, List.length_replicate, ih, List.map_cons, List.sum_cons]

end RunLengths
