import ProtocolLearner.EmptyGroups
/-!
# Two means

An update of three means can leave one of them without points. Of two means it
cannot: where both have a stored point in their cell, both have one after the
round (`CellsOccupied.round`), and submissions only add points. So once two
different means are drawn no update ever divides by zero (`two_means_served`).
-/

namespace ProtocolLearner.KMeans

section Exact
variable {T : Type} [Field T] [LinearOrder T] [IsStrictOrderedRing T] [Exact T]

omit [LinearOrder T] [IsStrictOrderedRing T] [Exact T] [Field T] in
theorem Indexed.occupied_iff {k : KMeans T} {n : Nat} {hn : n = k.m_PointVector.length}
    {a : Fin n → Fin k.m_CurrentMeans.length} (h : Indexed k hn a) (hl : Labelled k.m_CurrentMeans) :
    (∀ l, ∃ i, a i = l) ↔ GroupsOccupied k := by
  have hgroup (l : Fin k.m_CurrentMeans.length) :
      (∃ i, a i = l) ↔ group (k.m_CurrentMeans.get l).m_Label k.m_PointVector ≠ [] := by
    rw [← List.length_pos_iff, ← h.card hl, Finset.card_pos, Finset.filter_nonempty_iff]
    simp
  constructor
  · intro hall m hm
    obtain ⟨l, rfl⟩ := List.get_of_mem hm
    exact (hgroup l).1 (hall l)
  · intro hall l
    exact (hgroup l).2 (hall _ (List.get_mem _ _))

/-- A round of the engine is one of Lloyd's, and the groups it assigns are occupied in both or in neither. -/
theorem LloydReady.occupied_round {k : KMeans T} (h : LloydReady k) {n K d : Nat}
    (hn : n = k.m_PointVector.length) (hK : K = k.m_CurrentMeans.length) (hd : d = k.m_NumArgs.toNat) :
    ∃ a : Fin n → Fin K, ((∀ l, ∃ i, a i = l) ↔ GroupsOccupied k.mAssignAll.2) ∧
      Lloyd.Nearest (pointRows n d k) (meanRows K d k) a ∧
      Lloyd.Centroid emptyMean (pointRows n d k) a (meanRows K d (round k).2) := by
  obtain ⟨a, hnear, hcentroid⟩ := h.lloyd_round hn hK hd
  refine ⟨a, ?_, hnear, hcentroid⟩
  subst hK hd
  obtain ⟨b, hb, hnear'⟩ := h.nearest (hn.trans (mAssignAll_untouched k).length.symm)
  rw [hnear.unique hnear']
  exact hb.occupied_iff h.shaped.labelled

/-- Both of two means keep a point in their cell. -/
theorem CellsOccupied.round {k : KMeans T} (hc : CellsOccupied k) (h : LloydReady k)
    (htwo : k.m_CurrentMeans.length ≤ 2) : CellsOccupied (round k).2 := by
  obtain ⟨a, hocc, hnear, hcentroid⟩ := h.occupied_round rfl rfl rfl
  have hr := h.regrouped
  obtain ⟨b, hocc', hnear', -⟩ := h.next.occupied_round hr.length_points.symm hr.length_means.symm
    (congrArg UInt16.toNat hr.numArgs).symm
  rw [pointRows_congr _ _ hr.submissions] at hnear'
  have hgroups : GroupsOccupied k.mAssignAll.2 := hc.groups h.assigned
  have hnext := hcentroid.occupied (by simpa using htwo) hnear (hocc.2 hgroups) hnear'
  exact (hocc'.1 hnext).cells totalLess h.next.shaped.labelled h.next.assigned

end Exact

variable {T : Type} [Scalar T]

/-- More points do not empty a cell. -/
theorem CellsOccupied.mSubmit {k : KMeans T} (h : CellsOccupied k) (v : List T) : CellsOccupied (k.mSubmit v) := by
  intro i hi
  obtain ⟨p, hp, hcell⟩ := h i hi
  exact ⟨p, List.mem_append_left _ hp, hcell⟩

theorem CellsOccupied.of_data {k k' : KMeans T} (h : CellsOccupied k) (hp : k'.m_PointVector = k.m_PointVector)
    (hm : k'.m_CurrentMeans = k.m_CurrentMeans) : CellsOccupied k' := by
  unfold CellsOccupied
  rw [hp, hm]
  exact h

end ProtocolLearner.KMeans

namespace ProtocolLearner.Engine

open Machine KMeans

variable {T : Type} [Scalar T]

/-- If the step draws the first means, no two of them are equal. -/
def DrawsApart (n : UInt16) (s : Engine T) (act : Act T) : Prop :=
  ∀ s' ∈ step n s act, s.kmeans.m_Initialised = false → s'.kmeans.m_Initialised = true →
    (s'.kmeans.m_CurrentMeans.map (·.m_Vector)).Nodup

instance [DecidableEq T] (n : UInt16) (s : Engine T) (act : Act T) : Decidable (DrawsApart n s act) := by
  unfold DrawsApart
  infer_instance

section Exact
variable {F : Type} [Field F] [LinearOrder F] [IsStrictOrderedRing F] [Exact F]

/-- The means are placed, and once there are any, with a point in the cell of each. -/
structure Shared (n numArgs : UInt16) (k : KMeans F) : Prop where
  placed : Placed n k
  numArgs : k.m_NumArgs = numArgs
  cells : k.m_Initialised = true → CellsOccupied k

theorem Shared.step {n numArgs : UInt16} (hn : 1 ≤ n.toNat) (htwo : n.toNat ≤ 2) {s s' : Engine F} {act : Act F}
    (h : Shared n numArgs s.kmeans) (hv : ∀ v, act = .submit v → v.length = numArgs.toNat)
    (hfew : s.kmeans.m_PointVector.length ≤ 65535) (hdraw : DrawsApart n s act) (hs : Engine.step n s act = some s') :
    Shared n numArgs s'.kmeans := by
  obtain ⟨hplaced, hargs⟩ := h.placed.step h.numArgs hv hs
  refine ⟨hplaced, hargs, fun hinit' => ?_⟩
  cases effect_of_step hs with
  | submit hact he =>
    subst he
    exact (h.cells hinit').mSubmit _
  | @initialise σ _ hinit hlen _ hd =>
    -- The means stand on the points they were drawn from.
    refine (cellsOccupied_iff hplaced.shaped ?_).2 (hdraw s' hs hinit hinit')
    intro m hm
    rw [hd.means, mInitialise_eq hlen, h.placed.seeded.before hinit, List.nil_append] at hm
    rw [hd.points, mInitialise_eq hlen]
    obtain ⟨p, hp, hvec⟩ := initialMeans_vector hm
    exact ⟨p, hp, hvec.symm⟩
  | update hup _ hd =>
    have hinit := hup.2.2.1
    have hlen := h.placed.seeded.after hinit
    have hready := h.placed.ready hn hinit hfew
    rw [assignAndUpdate_round hready] at hd
    exact ((h.cells hinit).round hready (by omega)).of_data hd.points hd.means
  | rest _ _ hd => exact (h.cells (hd.initialised ▸ hinit')).of_data hd.points hd.means

/-! ## Main theorem -/

/-- In every run with one or two means and fewer than 65536 submissions of the
right dimension, whatever the interleaving: if the two means drawn differ, no
update divides by zero. -/
theorem two_means_served {n numArgs : UInt16} (hn : 1 ≤ n.toNat) (htwo : n.toNat ≤ 2) {acts : List (Act F)}
    (hdim : ∀ v ∈ submitted acts, v.length = numArgs.toNat) (hfew : (submitted acts).length < 65536)
    (hdraw : EveryStep (step n) (DrawsApart n) (launch numArgs) acts) :
    EveryStep (step n) (UpdatesServed n) (launch numArgs) acts := by
  have hpoints : EveryStep (step n) (fun s _ => s.kmeans.m_PointVector.length ≤ 65535) (launch numArgs) acts := by
    apply everyStep_points
    simp only [launch, KMeans.new, List.length_nil, Nat.zero_add]
    exact Nat.le_of_lt_succ hfew
  have hshared : EveryState (step n) (fun s => Shared n numArgs s.kmeans) (launch numArgs) acts := by
    refine .of_inv _ (fun s act => (∀ v, act = .submit v → v.length = numArgs.toNat) ∧
      s.kmeans.m_PointVector.length ≤ 65535 ∧ DrawsApart n s act) (fun s act s' h hc hs => ?_) ?_ ?_
    · exact h.step hn htwo hc.1 hc.2.1 hc.2.2 hs
    · exact ⟨.new n numArgs, rfl, fun hinit => by cases hinit⟩
    · exact (everyStep_submitted hdim).and (hpoints.and hdraw)
  apply (hshared.everyStep.and hpoints).mono
  rintro s act ⟨h, hle⟩
  exact h.placed.served hn hle fun hup => h.cells hup.2.2.1

/-- Two means from two different packets, and two rounds. -/
theorem twoRounds_served : EveryStep (step 2) (UpdatesServed 2) (launch 2)
    (drawTwo [1, 0] [0, 1] [3 / 4, 1 / 4] ++ [.worker .id, .worker .id, .submit [1, 0], .worker .id]) :=
  two_means_served (by decide) (by decide) (by decide +kernel) (by decide) (by decide +kernel)

/-- Means drawn from 0, 1 and 9, a round with the points 1, 5 and 6, and one with another 0. -/
def drawThree : List (Act ℚ) :=
  [.worker .id, .worker .id, .submit [0], .submit [1], .submit [9], .worker .id, .worker .id, .submit [1], .submit [5],
    .submit [6], .worker .id, .worker .id, .submit [0], .worker .id]

/-- The first round moves the means to 0, 7/3 and 15/2, and the second has no point for 7/3. -/
theorem three_means_not_served : EveryStep (step 3) (DrawsApart 3) (launch 1) drawThree ∧
    ¬ EveryStep (step 3) (UpdatesServed 3) (launch 1) drawThree := by
  constructor
  · decide +kernel
  · decide +kernel

end Exact

end ProtocolLearner.Engine
