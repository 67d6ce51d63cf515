import ProtocolLearner.Convergence
/-!
# The order of the points

Two engines with the same means, whose points are the same up to order, stay
so over any number of rounds in exact arithmetic: `mAssignAll` looks at one
point at a time, and sums and counts do not depend on the order. Nor does a
round look at the number a point was given when it was submitted. So the order
of submission has no influence either (`rounds_order_independent`).
-/

namespace ProtocolLearner

open Machine

variable {T : Type}

/-! ## The numbers of the points -/

/-- A point but for its `m_Index`. -/
def DataPoint.contents (p : DataPoint T) : UInt16 × T × List T :=
  (p.m_MeanIndex, p.m_EuclideanDistanceFromAssignedMean, p.m_Vector)

/-- The point as if it had been submitted first. -/
def DataPoint.unnumbered (p : DataPoint T) : DataPoint T := { p with m_Index := 0 }

theorem unnumbered_contents (ps : List (DataPoint T)) :
    (ps.map DataPoint.contents).map (fun c => ⟨c.1, c.2.1, c.2.2, 0⟩) = ps.map DataPoint.unnumbered := by
  rw [List.map_map]
  rfl

theorem contents_unnumbered (ps : List (DataPoint T)) :
    (ps.map DataPoint.unnumbered).map DataPoint.contents = ps.map DataPoint.contents := by
  rw [List.map_map]
  rfl

namespace KMeans

/-- The engine without the numbers of its points. -/
def unnumber (k : KMeans T) : KMeans T := { k with m_PointVector := k.m_PointVector.map DataPoint.unnumbered }

@[simp] theorem unnumber_points (k : KMeans T) :
    k.unnumber.m_PointVector = k.m_PointVector.map DataPoint.unnumbered := rfl

@[simp] theorem unnumber_means (k : KMeans T) : k.unnumber.m_CurrentMeans = k.m_CurrentMeans := rfl

theorem group_unnumbered (l : UInt16) (ps : List (DataPoint T)) :
    group l (ps.map DataPoint.unnumbered) = (group l ps).map DataPoint.unnumbered := by
  unfold group
  rw [List.filter_map]
  rfl

section Unnumbered
variable [Scalar T]

theorem distance_unnumbered (p : DataPoint T) (m : MeanPoint T) :
    mCalculateEuclideanDistance p.unnumbered m = mCalculateEuclideanDistance p m := rfl

theorem findNearestFrom_unnumbered (p : DataPoint T) (d : T) (l : UInt16) (means : List (MeanPoint T)) :
    findNearestFrom p.unnumbered d l means = findNearestFrom p d l means := by
  induction means generalizing d l with
  | nil => rfl
  | cons m ms ih => simp only [findNearestFrom, distance_unnumbered, ih]

theorem mFindNearestMean_unnumbered (means : List (MeanPoint T)) (p : DataPoint T) :
    mFindNearestMean means p.unnumbered = mFindNearestMean means p := by
  cases means with
  | nil => rfl
  | cons m ms => simp only [mFindNearestMean, distance_unnumbered, findNearestFrom_unnumbered]

/-- `mAssignAll` does not look at the numbers. -/
theorem assignLoop_unnumbered (means : List (MeanPoint T)) (ps : List (DataPoint T)) :
    assignLoop means (ps.map DataPoint.unnumbered) =
      ((assignLoop means ps).1, (assignLoop means ps).2.map DataPoint.unnumbered) := by
  induction ps with
  | nil => rfl
  | cons p ps ih =>
    rw [List.map_cons, assignLoop, assignLoop, mFindNearestMean_unnumbered]
    cases mFindNearestMean means p with
    | error e => rfl
    | ok l =>
      have hdist : mCalculateEuclideanDistance { p.unnumbered with m_MeanIndex := l } =
          mCalculateEuclideanDistance { p with m_MeanIndex := l } := rfl
      dsimp only
      rw [hdist]
      cases meanAt means l >>= mCalculateEuclideanDistance { p with m_MeanIndex := l } with
      | error e => rfl
      | ok d => simp only [ih, List.map_cons, DataPoint.unnumbered]

theorem gatherGroup_unnumbered (l : UInt16) (acc : List T) (n : UInt16) (ps : List (DataPoint T)) :
    gatherGroup l acc n (ps.map DataPoint.unnumbered) = gatherGroup l acc n ps := by
  induction ps generalizing acc n with
  | nil => rfl
  | cons p ps ih => simp only [List.map_cons, gatherGroup, ih, DataPoint.unnumbered]

/-- Nor does `mUpdateMeans`. -/
theorem updateLoop_unnumbered (numArgs : UInt16) (ps : List (DataPoint T)) (means : List (MeanPoint T)) :
    updateLoop numArgs (ps.map DataPoint.unnumbered) means = updateLoop numArgs ps means := by
  induction means with
  | nil => rfl
  | cons m ms ih => simp only [updateLoop, updateMean, gatherGroup_unnumbered, ih]

theorem mAssignAll_unnumber (k : KMeans T) : k.unnumber.mAssignAll = (k.mAssignAll.1, k.mAssignAll.2.unnumber) := by
  unfold mAssignAll
  rw [unnumber_points, unnumber_means, assignLoop_unnumbered]
  rfl

theorem mUpdateMeans_unnumber (k : KMeans T) :
    k.unnumber.mUpdateMeans = (k.mUpdateMeans.1, k.mUpdateMeans.2.unnumber) := by
  unfold mUpdateMeans
  rw [unnumber_points, unnumber_means, updateLoop_unnumbered]
  rfl

theorem round_unnumber (k : KMeans T) : round k.unnumber = ((round k).1, (round k).2.unnumber) := by
  unfold round
  rw [mAssignAll_unnumber]
  rcases k.mAssignAll with ⟨r, k'⟩
  cases r with
  | error e => rfl
  | ok u => exact mUpdateMeans_unnumber k'

theorem rounds_unnumber (n : Nat) (k : KMeans T) : rounds n k.unnumber = (rounds n k).unnumber := by
  induction n with
  | zero => rfl
  | succ n ih => rw [rounds_succ, rounds_succ, ih, round_unnumber]

end Unnumbered

/-! ## Permutations -/

/-- The same means, and the same points in some order. -/
structure Permuted (k k' : KMeans T) : Prop where
  points : k'.m_PointVector.Perm k.m_PointVector
  means : k'.m_CurrentMeans = k.m_CurrentMeans
  numArgs : k'.m_NumArgs = k.m_NumArgs

theorem Permuted.symm {k k' : KMeans T} (h : Permuted k k') : Permuted k' k :=
  ⟨h.points.symm, h.means.symm, h.numArgs.symm⟩

theorem group_perm (l : UInt16) {ps qs : List (DataPoint T)} (h : ps.Perm qs) : (group l ps).Perm (group l qs) :=
  h.filter _

theorem Permuted.noZeroDivisor {k k' : KMeans T} (h : Permuted k k') (hz : NoZeroDivisor k) :
    NoZeroDivisor k' := by
  intro m hm
  rw [(group_perm m.m_Label h.points).length_eq]
  exact hz m (h.means ▸ hm)

/-! ## Sums -/

section Sums
variable [Field T] [LinearOrder T] [Exact T]

theorem zipWith_add_right_comm (as xs ys : List T) :
    List.zipWith Scalar.add (List.zipWith Scalar.add as xs) ys =
      List.zipWith Scalar.add (List.zipWith Scalar.add as ys) xs := by
  induction as generalizing xs ys with
  | nil => rfl
  | cons a as ih =>
    cases xs with
    | nil => cases ys <;> rfl
    | cons x xs =>
      cases ys with
      | nil => rfl
      | cons y ys =>
        simp only [List.zipWith_cons_cons, ih, Exact.add_eq, add_right_comm]

theorem sumCoordinates_perm {ps qs : List (DataPoint T)} (h : ps.Perm qs) (as : List T) :
    sumCoordinates as ps = sumCoordinates as qs := by
  apply h.foldl_eq'
  intro p _ q _ acc
  exact zipWith_add_right_comm acc p.m_Vector q.m_Vector

theorem centroid_perm {ps qs : List (DataPoint T)} (h : ps.Perm qs) (numArgs : UInt16) :
    centroid numArgs ps = centroid numArgs qs := by
  unfold centroid
  rw [sumCoordinates_perm h, h.length_eq]

end Sums

/-! ## One round -/

section Rounds
variable [Scalar T]

theorem Permuted.assigns {k k' : KMeans T} (h : Permuted k k') (hl : Labelled k.m_CurrentMeans)
    (hne : k.m_CurrentMeans ≠ []) (hok : k.mAssignAll.1 = .ok ()) : k'.mAssignAll.1 = .ok () := by
  have hlen := (assignLoop_ok_iff hne hl).1 hok
  unfold mAssignAll
  rw [h.means]
  apply (assignLoop_ok_iff hne hl).2
  intro p hp
  exact hlen p (h.points.subset hp)

/-- `mAssignAll` sees one point at a time. -/
theorem Permuted.mAssignAll {k k' : KMeans T} (h : Permuted k k') (hok : k.mAssignAll.1 = .ok ())
    (hok' : k'.mAssignAll.1 = .ok ()) : Permuted k.mAssignAll.2 k'.mAssignAll.2 := by
  refine ⟨?_, h.means, h.numArgs⟩
  have hassigned' : List.Forall₂ (Assigned k.m_CurrentMeans) k'.m_PointVector k'.mAssignAll.2.m_PointVector := by
    rw [← h.means]
    exact assignLoop_ok hok'
  -- The points of `k`, put in the order of `k'`, are assigned the same.
  obtain ⟨qs, hqs, hperm⟩ := List.perm_comp_forall₂ h.points.symm hassigned'
  have hsame : k.mAssignAll.2.m_PointVector = qs := Assigned.unique_list (assignLoop_ok hok) hqs rfl
  rw [hsame]
  exact hperm.symm

/-- `mAssignAll(); mUpdateMeans();` throws nothing and divides by no zero. -/
def RoundCompletes (k : KMeans T) : Prop := (round k).1 = .ok () ∧ NoZeroDivisor k.mAssignAll.2

/-- So do the first `n` rounds. -/
def Completes (n : Nat) (k : KMeans T) : Prop := ∀ i < n, RoundCompletes (rounds i k)

instance (k : KMeans T) : Decidable (RoundCompletes k) :=
  inferInstanceAs (Decidable (_ ∧ NoZeroDivisor k.mAssignAll.2))

instance (n : Nat) (k : KMeans T) : Decidable (Completes n k) :=
  inferInstanceAs (Decidable (∀ i < n, RoundCompletes (rounds i k)))

omit [Scalar T] in
theorem noZeroDivisor_unnumber {k : KMeans T} : NoZeroDivisor k.unnumber ↔ NoZeroDivisor k := by
  unfold NoZeroDivisor
  simp only [unnumber_points, unnumber_means, group_unnumbered, List.length_map]

theorem completes_unnumber {n : Nat} {k : KMeans T} : Completes n k.unnumber ↔ Completes n k := by
  unfold Completes RoundCompletes
  simp only [rounds_unnumber, round_unnumber, mAssignAll_unnumber, noZeroDivisor_unnumber]

theorem completes_succ {n : Nat} {k : KMeans T} :
    Completes (n + 1) k ↔ Completes n k ∧ RoundCompletes (rounds n k) := by
  constructor
  · intro h
    exact ⟨fun i hi => h i (by omega), h n (by omega)⟩
  · rintro ⟨h, hn⟩ i hi
    rcases Nat.lt_succ_iff_lt_or_eq.1 hi with hi | rfl
    · exact h i hi
    · exact hn

/-- A round keeps the labels of the means. -/
theorem round_labels {k : KMeans T} (h : k.mAssignAll.1 = .ok ()) :
    (round k).2.m_CurrentMeans.map (·.m_Label) = k.m_CurrentMeans.map (·.m_Label) := by
  rw [round_of_assigned h]
  exact mUpdateMeans_labels _

end Rounds

section Exact
variable [Field T] [LinearOrder T] [Exact T]

/-- `mUpdateMeans` sees only sums and counts. -/
theorem Permuted.mUpdateMeans {k k' : KMeans T} (h : Permuted k k') (hok : k.mUpdateMeans.1 = .ok ()) :
    k'.mUpdateMeans.1 = .ok () ∧ Permuted k.mUpdateMeans.2 k'.mUpdateMeans.2 := by
  have hdim := updateLoop_ok_iff.1 hok
  have hdim' : ∀ m ∈ k.m_CurrentMeans, ∀ p ∈ group m.m_Label k'.m_PointVector,
      k.m_NumArgs.toNat ≤ p.m_Vector.length := by
    intro m hm p hp
    exact hdim m hm p ((group_perm m.m_Label h.points).subset hp)
  unfold KMeans.mUpdateMeans
  rw [h.means, h.numArgs, updateLoop_eq hdim, updateLoop_eq hdim']
  refine ⟨rfl, h.points, ?_, rfl⟩
  apply List.map_congr_left
  intro m _
  rw [centroid_perm (group_perm m.m_Label h.points)]

theorem Permuted.round {k k' : KMeans T} (h : Permuted k k') (hl : Labelled k.m_CurrentMeans)
    (hne : k.m_CurrentMeans ≠ []) (hc : RoundCompletes k) :
    RoundCompletes k' ∧ Permuted (KMeans.round k).2 (KMeans.round k').2 := by
  obtain ⟨hround, hz⟩ := hc
  obtain ⟨hok, hupdate⟩ := round_ok_iff.1 hround
  have hok' := h.assigns hl hne hok
  have hassigned := h.mAssignAll hok hok'
  obtain ⟨hupdate', hmoved⟩ := hassigned.mUpdateMeans hupdate
  refine ⟨⟨round_ok_iff.2 ⟨hok', hupdate'⟩, hassigned.noZeroDivisor hz⟩, ?_⟩
  rwa [round_of_assigned hok, round_of_assigned hok']

theorem Permuted.rounds {k k' : KMeans T} (h : Permuted k k') (hl : Labelled k.m_CurrentMeans)
    (hne : k.m_CurrentMeans ≠ []) (n : Nat) (hc : Completes n k) :
    Completes n k' ∧ Permuted (KMeans.rounds n k) (KMeans.rounds n k') := by
  -- The means keep their labels, so there stay means and the labels stay the positions.
  suffices hall : Completes n k' ∧ Permuted (KMeans.rounds n k) (KMeans.rounds n k') ∧
      (KMeans.rounds n k).m_CurrentMeans.map (·.m_Label) = k.m_CurrentMeans.map (·.m_Label) from ⟨hall.1, hall.2.1⟩
  induction n with
  | zero => exact ⟨fun i hi => absurd hi (Nat.not_lt_zero i), h, rfl⟩
  | succ n ih =>
    obtain ⟨hn, hlast⟩ := completes_succ.1 hc
    obtain ⟨hn', hreordered, hlabels⟩ := ih hn
    have hne' : (KMeans.rounds n k).m_CurrentMeans ≠ [] := by
      intro hnil
      rw [hnil] at hlabels
      exact hne (List.map_eq_nil_iff.1 hlabels.symm)
    obtain ⟨hlast', hnext⟩ := hreordered.round (hl.of_labels hlabels) hne' hlast
    rw [rounds_succ, rounds_succ]
    exact ⟨completes_succ.2 ⟨hn', hlast'⟩, hnext, (round_labels (round_ok_iff.1 hlast.1).1).trans hlabels⟩

/-! ## Main theorem -/

/-- The same means, and in some order the same points but for the numbers that
they were given when submitted. -/
structure Reordered (k k' : KMeans T) : Prop where
  points : (k'.m_PointVector.map DataPoint.contents).Perm (k.m_PointVector.map DataPoint.contents)
  means : k'.m_CurrentMeans = k.m_CurrentMeans
  numArgs : k'.m_NumArgs = k.m_NumArgs

omit [Field T] [LinearOrder T] [Exact T] in
theorem Reordered.unnumber {k k' : KMeans T} (h : Reordered k k') : Permuted k.unnumber k'.unnumber := by
  refine ⟨?_, h.means, h.numArgs⟩
  have hperm := h.points.map fun c : UInt16 × T × List T => (⟨c.1, c.2.1, c.2.2, 0⟩ : DataPoint T)
  rwa [unnumbered_contents, unnumbered_contents] at hperm

omit [Field T] [LinearOrder T] [Exact T] in
theorem Reordered.of_unnumber {k k' : KMeans T} (h : Permuted k.unnumber k'.unnumber) : Reordered k k' := by
  refine ⟨?_, h.means, h.numArgs⟩
  have hperm := h.points.map DataPoint.contents
  rwa [unnumber_points, unnumber_points, contents_unnumbered, contents_unnumbered] at hperm

/-- The rounds complete in one order of the points exactly if they do in any
other, with the same means and the same assigned points, in whichever order
these were submitted. Where the points had the same numbers too, they have kept
them. -/
theorem rounds_order_independent {k k' : KMeans T} (h : Reordered k k') (hl : Labelled k.m_CurrentMeans)
    (hne : k.m_CurrentMeans ≠ []) (n : Nat) : (Completes n k ↔ Completes n k') ∧
      (Completes n k → Reordered (rounds n k) (rounds n k') ∧
        (k'.m_PointVector.Perm k.m_PointVector → (rounds n k').m_PointVector.Perm (rounds n k).m_PointVector)) := by
  have hl' : Labelled k'.m_CurrentMeans := h.means ▸ hl
  have hne' : k'.m_CurrentMeans ≠ [] := h.means ▸ hne
  have hun := h.unnumber
  rw [← completes_unnumber (k := k), ← completes_unnumber (k := k')]
  refine ⟨⟨fun hc => (hun.rounds hl hne n hc).1, fun hc => (hun.symm.rounds hl' hne' n hc).1⟩, fun hc => ⟨?_, ?_⟩⟩
  · have hrounds := (hun.rounds hl hne n hc).2
    rw [rounds_unnumber, rounds_unnumber] at hrounds
    exact .of_unnumber hrounds
  · intro hperm
    have hsame : Permuted k k' := ⟨hperm, h.means, h.numArgs⟩
    exact (hsame.rounds hl hne n (completes_unnumber.1 hc)).2.points

/-- The same four points, submitted in two orders, and shuffled so that the same means are drawn. -/
def fourPoints : List (Op ℚ) := [.submit [0], .submit [10], .initialise 2 .id, .submit [8], .submit [3]]

def fourPointsReversed : List (Op ℚ) := [.submit [10], .submit [0], .initialise 2 .reverse, .submit [3], .submit [8]]

/-- Three rounds. -/
theorem fourPoints_reordered : ∃ k k', run step (new 1) fourPoints = some k ∧
    run step (new 1) fourPointsReversed = some k' ∧ Reordered (rounds 3 k) (rounds 3 k') ∧
      k.m_PointVector.map (·.m_Index) = [0, 1, 2, 3] ∧ k'.m_PointVector.map (·.m_Index) = [1, 0, 2, 3] := by
  have hrun : (run step (new 1) fourPoints).map (fun k => (k.m_PointVector, k.m_CurrentMeans, k.m_NumArgs,
      decide (Completes 3 k))) = some ([⟨0, 0, [0], 0⟩, ⟨0, 0, [10], 1⟩, ⟨0, 0, [8], 2⟩, ⟨0, 0, [3], 3⟩],
        [⟨0, [0]⟩, ⟨1, [10]⟩], 1, true) := by
    decide +kernel
  have hrun' : (run step (new 1) fourPointsReversed).map (fun k => (k.m_PointVector, k.m_CurrentMeans, k.m_NumArgs)) =
      some ([⟨0, 0, [0], 1⟩, ⟨0, 0, [10], 0⟩, ⟨0, 0, [3], 2⟩, ⟨0, 0, [8], 3⟩], [⟨0, [0]⟩, ⟨1, [10]⟩], 1) := by
    decide +kernel
  obtain ⟨k, hk, hstate⟩ := Option.map_eq_some_iff.1 hrun
  obtain ⟨k', hk', hstate'⟩ := Option.map_eq_some_iff.1 hrun'
  simp only [Prod.mk.injEq, decide_eq_true_eq] at hstate hstate'
  obtain ⟨hpoints, hmeans, hnumArgs, hcompletes⟩ := hstate
  obtain ⟨hpoints', hmeans', hnumArgs'⟩ := hstate'
  have hreordered : Reordered k k' := by
    refine ⟨?_, hmeans'.trans hmeans.symm, hnumArgs'.trans hnumArgs.symm⟩
    rw [hpoints, hpoints']
    decide +kernel
  have hlabelled := (shaped_of_run hk (by decide +kernel) (by decide +kernel)).labelled
  have hne : k.m_CurrentMeans ≠ [] := by simp [hmeans]
  have hrounds := ((rounds_order_independent hreordered hlabelled hne 3).2 hcompletes).1
  exact ⟨k, k', hk, hk', hrounds, by rw [hpoints]; rfl, by rw [hpoints']; rfl⟩

end Exact

end KMeans

end ProtocolLearner
