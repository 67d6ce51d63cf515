import ProtocolLearner.Convergence
import ProtocolLearner.Passes
/-!
# Groups without points

`mUpdateMeans` divides by the number of points of each group. No divisor is
zero if every mean has a stored point in its cell whenever a pass updates, and
only then (`zero_divisors`). Nothing sees to that: of two equal means, drawn
from two equal vectors, the later one has an empty cell.
-/

namespace ProtocolLearner.KMeans

variable {T : Type} [Scalar T]

/-- Every mean has a stored point in its cell. -/
def CellsOccupied (k : KMeans T) : Prop :=
  ∀ (i : Nat) (h : i < k.m_CurrentMeans.length), ∃ p ∈ k.m_PointVector,
    InCell p.m_Vector (k.m_CurrentMeans.take i) k.m_CurrentMeans[i] (k.m_CurrentMeans.drop (i + 1))

instance (xs : List T) (pre : List (MeanPoint T)) (m : MeanPoint T) (post : List (MeanPoint T)) :
    Decidable (InCell xs pre m post) :=
  decidable_of_iff (_ ∧ _) ⟨fun h => ⟨h.1, h.2⟩, fun h => ⟨h.before, h.after⟩⟩

instance (k : KMeans T) : Decidable (CellsOccupied k) := by
  unfold CellsOccupied
  infer_instance

theorem CellsOccupied.groups {k : KMeans T} (h : CellsOccupied k) (hok : k.mAssignAll.1 = .ok ()) :
    GroupsOccupied k.mAssignAll.2 := by
  intro m hm
  obtain ⟨i, hi, rfl⟩ : ∃ i, ∃ hi : i < k.m_CurrentMeans.length, k.m_CurrentMeans[i] = m :=
    List.mem_iff_getElem.1 hm
  obtain ⟨p, hp, hcell⟩ := h i hi
  obtain ⟨p', hp', hassigned⟩ := Assigned.exists_mem hok hp
  have hsplit :
      k.m_CurrentMeans.take i ++ k.m_CurrentMeans[i] :: k.m_CurrentMeans.drop (i + 1) = k.m_CurrentMeans := by
    rw [← List.drop_eq_getElem_cons hi, List.take_append_drop]
  have hfound := hcell.found (by rw [hsplit]; exact (mFindNearestMean_ok hassigned.nearest).2)
  rw [hsplit, hassigned.nearest, Except.ok.injEq] at hfound
  exact List.ne_nil_of_mem (mem_group.2 ⟨hp', hfound⟩)

theorem GroupsOccupied.cells (ht : TotalLess T) {k : KMeans T} (h : GroupsOccupied k.mAssignAll.2)
    (hl : Labelled k.m_CurrentMeans) (hok : k.mAssignAll.1 = .ok ()) : CellsOccupied k := by
  intro i hi
  obtain ⟨p', hp'⟩ := List.exists_mem_of_ne_nil _ (h k.m_CurrentMeans[i] (List.getElem_mem hi))
  obtain ⟨hp', hidx⟩ := mem_group.1 hp'
  obtain ⟨p, hp, hassigned⟩ := Assigned.of_mem hok hp'
  obtain ⟨pre, m, post, he, hlabel, hcell⟩ := mFindNearestMean_cell ht hassigned.nearest
  -- The labels are the positions, so this is the mean at `i`.
  obtain rfl : pre.length = i := by
    have hm := hl.of_getElem (i := pre.length) (m := m) (by simp [he])
    have hi' := hl.of_getElem (List.getElem?_eq_getElem hi)
    rw [← hm, ← hi', hlabel, hidx]
  exact ⟨p, hp, by simpa [he] using hcell⟩

/-- No two means of occupied cells are equal: ties go to the earlier one. -/
theorem CellsOccupied.nodup (ht : TotalLess T) {k : KMeans T} (h : CellsOccupied k) :
    (k.m_CurrentMeans.map (·.m_Vector)).Nodup := by
  unfold List.Nodup
  rw [List.pairwise_map, List.pairwise_iff_getElem]
  intro i j hi hj hij he
  obtain ⟨p, -, hcell⟩ := h j hj
  have hbefore := hcell.before k.m_CurrentMeans[i] (List.mem_take_iff_getElem.2 ⟨i, by omega, rfl⟩)
  rw [he, ht.irrefl] at hbefore
  cases hbefore

section Draws
variable {F : Type} [Field F] [LinearOrder F] [IsStrictOrderedRing F]

omit [LinearOrder F] [IsStrictOrderedRing F] in
theorem sqDist_self (xs : List F) : sqDist xs xs = 0 := by
  rw [sqDist_coords rfl rfl]
  simp [Lloyd.sqDist]

theorem sqDist_pos {xs ms : List F} (hlen : ms.length = xs.length) (hne : xs ≠ ms) : 0 < sqDist xs ms := by
  rw [sqDist_coords rfl hlen]
  apply Lloyd.sqDist_pos
  intro he
  exact hne (coords_inj rfl hlen he)

/-- While the means stand on stored points, as `mInitialise` places them, every
cell is occupied exactly if no two means are equal. -/
theorem cellsOccupied_iff [Exact F] {k : KMeans F} (hs : Shaped k)
    (hdrawn : ∀ m ∈ k.m_CurrentMeans, ∃ p ∈ k.m_PointVector, p.m_Vector = m.m_Vector) :
    CellsOccupied k ↔ (k.m_CurrentMeans.map (·.m_Vector)).Nodup := by
  refine ⟨CellsOccupied.nodup totalLess, ?_⟩
  intro hnodup i hi
  unfold List.Nodup at hnodup
  rw [List.pairwise_map, List.pairwise_iff_getElem] at hnodup
  have hmem := List.getElem_mem hi
  obtain ⟨p, hp, hvec⟩ := hdrawn _ hmem
  refine ⟨p, hp, ?_⟩
  rw [hvec]
  constructor
  · intro m' hm'
    obtain ⟨j, hj, rfl⟩ := List.mem_take_iff_getElem.1 hm'
    have hj' : j < k.m_CurrentMeans.length := by omega
    have hlen : k.m_CurrentMeans[j].m_Vector.length = k.m_CurrentMeans[i].m_Vector.length :=
      (hs.means _ (List.getElem_mem hj')).trans (hs.means _ hmem).symm
    rw [less_distance, sqDist_self]
    exact sqDist_pos hlen (hnodup j i hj' hi (by omega)).symm
  · intro m' _
    rw [less_eq_false]
    apply distance_le
    rw [sqDist_self]
    exact sqDist_nonneg _ _

end Draws

end ProtocolLearner.KMeans

namespace ProtocolLearner.Engine

open Machine KMeans

variable {T : Type}

/-- The vectors the actions submit, in order. -/
def submitted (acts : List (Act T)) : List (List T) :=
  acts.filterMap fun
    | .submit inVector => some inVector
    | _ => none

variable [Scalar T]

theorem step_points {n : UInt16} {s s' : Engine T} {act : Act T} (hs : step n s act = some s') :
    s'.kmeans.m_PointVector.length = s.kmeans.m_PointVector.length + (submitted [act]).length := by
  cases transition_of_step hs with
  | fail _ _ hpass | lastPass _ _ hpass | pass _ _ hpass => exact (untouched_of_pass hpass).length
  | submit => simp [submit, mSubmit, submitted]
  | start | leave | enter | wait | spurious | notify | stop => rfl

theorem everyStep_submitted {n : UInt16} {P : List T → Prop} {s : Engine T} {acts : List (Act T)}
    (h : ∀ v ∈ submitted acts, P v) : EveryStep (step n) (fun _ act => ∀ v, act = .submit v → P v) s acts := by
  apply EveryStep.of_mem
  rintro act hact v rfl
  exact h v (List.mem_filterMap.2 ⟨_, hact, rfl⟩)

/-- There are never more points than there were and have been submitted. -/
theorem everyStep_points {n : UInt16} {b : Nat} {s : Engine T} {acts : List (Act T)}
    (h : s.kmeans.m_PointVector.length + (submitted acts).length ≤ b) :
    EveryStep (step n) (fun s _ => s.kmeans.m_PointVector.length ≤ b) s acts :=
  .of_filterMap (fun s : Engine T => s.kmeans.m_PointVector.length) _ (fun _ _ _ => step_points) h

/-! ## The engine between steps -/

/-- Points and means have `m_NumArgs` coordinates, and the means are placed. -/
structure Placed (n : UInt16) (k : KMeans T) : Prop where
  shaped : Shaped k
  seeded : Seeded n k

omit [Scalar T] in
theorem Placed.new (n numArgs : UInt16) : Placed n (KMeans.new numArgs : KMeans T) := ⟨.new numArgs, .new n numArgs⟩

omit [Scalar T] in
theorem shaped_of_data {k k' : KMeans T} (h : Shaped k) (hd : SameData k k') : Shaped k' where
  points := by rw [hd.points, hd.numArgs]; exact h.points
  means := by rw [hd.means, hd.numArgs]; exact h.means
  labelled := by rw [hd.means]; exact h.labelled

/-- One step of any thread. -/
theorem Placed.step {n numArgs : UInt16} {s s' : Engine T} {act : Act T} (h : Placed n s.kmeans)
    (hargs : s.kmeans.m_NumArgs = numArgs) (hv : ∀ v, act = .submit v → v.length = numArgs.toNat)
    (hs : Engine.step n s act = some s') : Placed n s'.kmeans ∧ s'.kmeans.m_NumArgs = numArgs := by
  refine ⟨⟨?_, h.seeded.step hs⟩, (numArgs_of_step hs).trans hargs⟩
  apply step_keeps Shaped hs (fun _ _ => shaped_of_data) h.shaped
  · intro v hact
    have hdim : v.length = s.kmeans.m_NumArgs.toNat := hargs ▸ hv v hact
    exact h.shaped.mSubmit hdim
  · intro hinit _ σ
    exact h.shaped.mInitialise (.inl (h.seeded.before hinit))
  · intro _
    exact assignAndUpdate_keeps Shaped h.shaped.mAssignAll fun _ h' => h'.mUpdateMeans

/-- Once there are means, `mAssignAll` completes. -/
theorem Placed.assigns {n : UInt16} (hn : 1 ≤ n.toNat) {k : KMeans T} (h : Placed n k)
    (hinit : k.m_Initialised = true) : k.mAssignAll.1 = .ok () := by
  have hlen := h.seeded.after hinit
  exact h.shaped.assigns (List.ne_nil_of_length_pos (by omega))

omit [Scalar T] in
theorem Placed.ready {n : UInt16} (hn : 1 ≤ n.toNat) {k : KMeans T} (h : Placed n k) (hinit : k.m_Initialised = true)
    (hfew : k.m_PointVector.length ≤ 65535) : LloydReady k := by
  have hlen := h.seeded.after hinit
  exact ⟨h.shaped, List.ne_nil_of_length_pos (by omega), hfew⟩

theorem assignAndUpdate_round {k : KMeans T} (h : LloydReady k) : assignAndUpdate k = round k := by
  rw [assignAndUpdate_eq (.inl h.assigned), round_of_assigned h.assigned]

/-! ## Divisors -/

/-- What a pass that updates finds: `mUpdateMeans` runs on the engine that
`mAssignAll` left, every mean has a point in it, and no divisor is zero. -/
structure Served (k : KMeans T) : Prop where
  updates : assignAndUpdate k = k.mAssignAll.2.mUpdateMeans
  groups : GroupsOccupied k.mAssignAll.2
  divisors : NoZeroDivisor k.mAssignAll.2

instance [DecidableEq T] (k : KMeans T) : Decidable (Served k) :=
  decidable_of_iff (_ ∧ GroupsOccupied _ ∧ _)
    ⟨fun h => ⟨h.1, h.2.1, h.2.2⟩, fun h => ⟨h.updates, h.groups, h.divisors⟩⟩

/-- If the step updates, then with a stored point in the cell of every mean. -/
def UpdatesOccupied (n : UInt16) (s : Engine T) (act : Act T) : Prop := Updates n s act → CellsOccupied s.kmeans

/-- If the step updates, it divides by no zero. -/
def UpdatesServed (n : UInt16) (s : Engine T) (act : Act T) : Prop := Updates n s act → Served s.kmeans

instance (n : UInt16) (s : Engine T) (act : Act T) : Decidable (UpdatesOccupied n s act) :=
  inferInstanceAs (Decidable (_ → _))

instance [DecidableEq T] (n : UInt16) (s : Engine T) (act : Act T) : Decidable (UpdatesServed n s act) :=
  inferInstanceAs (Decidable (_ → _))

theorem Placed.served {n : UInt16} (hn : 1 ≤ n.toNat) {s : Engine T} {act : Act T} (h : Placed n s.kmeans)
    (hfew : s.kmeans.m_PointVector.length ≤ 65535) (hc : UpdatesOccupied n s act) : UpdatesServed n s act := by
  intro hup
  have hok := h.assigns hn hup.2.2.1
  have hgroups := (hc hup).groups hok
  have hlen : s.kmeans.mAssignAll.2.m_PointVector.length ≤ 65535 := (mAssignAll_untouched _).length.trans_le hfew
  exact ⟨assignAndUpdate_eq (.inl hok), hgroups, hgroups.noZeroDivisor hlen⟩

theorem Placed.occupied (ht : TotalLess T) {n : UInt16} (hn : 1 ≤ n.toNat) {s : Engine T} {act : Act T}
    (h : Placed n s.kmeans) (hs : UpdatesServed n s act) : UpdatesOccupied n s act := by
  intro hup
  exact (hs hup).groups.cells ht h.shaped.labelled (h.assigns hn hup.2.2.1)

/-! ## Main theorem -/

/-- In every run with at least one mean and fewer than 65536 submissions of the
right dimension, no update divides by zero if every update finds a stored point
in the cell of every mean. Where no NaN is compared, that is also necessary. -/
theorem zero_divisors {n numArgs : UInt16} (hn : 1 ≤ n.toNat) {acts : List (Act T)}
    (hdim : ∀ v ∈ submitted acts, v.length = numArgs.toNat) (hfew : (submitted acts).length < 65536) :
    (EveryStep (step n) (UpdatesOccupied n) (launch numArgs) acts →
      EveryStep (step n) (UpdatesServed n) (launch numArgs) acts) ∧
    (TotalLess T → EveryStep (step n) (UpdatesServed n) (launch numArgs) acts →
      EveryStep (step n) (UpdatesOccupied n) (launch numArgs) acts) := by
  have hpoints : EveryStep (step n) (fun s _ => s.kmeans.m_PointVector.length ≤ 65535) (launch numArgs) acts := by
    apply everyStep_points
    simp only [launch, KMeans.new, List.length_nil, Nat.zero_add]
    exact Nat.le_of_lt_succ hfew
  have hplaced : EveryStep (step n) (fun s _ => Placed n s.kmeans ∧ s.kmeans.m_NumArgs = numArgs)
      (launch numArgs) acts :=
    (EveryState.of_inv _ (fun _ act => ∀ v, act = .submit v → v.length = numArgs.toNat)
      (fun _ _ _ h hv hs => h.1.step h.2 hv hs) ⟨.new n numArgs, rfl⟩ (everyStep_submitted hdim)).everyStep
  constructor
  · intro hocc
    apply (hocc.and (hplaced.and hpoints)).mono
    rintro s act ⟨hc, hp, hle⟩
    exact hp.1.served hn hle hc
  · intro ht hserved
    apply (hserved.and hplaced).mono
    rintro s act ⟨hs, hp⟩
    exact hp.1.occupied ht hn hs

/-- The thread reads the point count, two vectors are submitted and the next
pass draws two means; a third is submitted, and the next pass updates. -/
def drawTwo (v₁ v₂ v₃ : List ℚ) : List (Act ℚ) :=
  [.worker .id, .worker .id, .submit v₁, .submit v₂, .worker .id, .worker .id, .submit v₃]

theorem drawTwo_served :
    (run (step 2) (launch 2) (drawTwo [1, 0] [0, 1] [3 / 4, 1 / 4])).map (fun s => decide (Updates 2 s (.worker .id))) =
      some true ∧
    EveryStep (step 2) (UpdatesServed 2) (launch 2) (drawTwo [1, 0] [0, 1] [3 / 4, 1 / 4] ++ [.worker .id]) :=
  ⟨by decide +kernel, (zero_divisors (by decide) (by decide) (by decide)).1 (by decide +kernel)⟩

/-- Three equal packets: the first mean has them all when the pass updates, the second has none. -/
theorem equal_packets_not_served : ∃ s, run (step 2) (launch 2) (drawTwo [1, 0] [1, 0] [1, 0]) = some s ∧
    Updates 2 s (.worker .id) ∧ assignAndUpdate s.kmeans = s.kmeans.mAssignAll.2.mUpdateMeans ∧
    s.kmeans.m_CurrentMeans = [⟨0, [1, 0]⟩, ⟨1, [1, 0]⟩] ∧
    group 1 s.kmeans.mAssignAll.2.m_PointVector = [] ∧
    ¬ EveryStep (step 2) (UpdatesServed 2) (launch 2) (drawTwo [1, 0] [1, 0] [1, 0] ++ [.worker .id]) := by
  have hrun : (run (step 2) (launch 2) (drawTwo [1, 0] [1, 0] [1, 0])).map (fun s =>
      (decide (Updates 2 s (.worker .id)), decide (assignAndUpdate s.kmeans = s.kmeans.mAssignAll.2.mUpdateMeans),
        s.kmeans.m_CurrentMeans, group 1 s.kmeans.mAssignAll.2.m_PointVector)) =
      some (true, true, [⟨0, [1, 0]⟩, ⟨1, [1, 0]⟩], []) := by decide +kernel
  obtain ⟨s, hs, he⟩ := Option.map_eq_some_iff.1 hrun
  simp only [Prod.mk.injEq, decide_eq_true_eq] at he
  exact ⟨s, hs, he.1, he.2.1, he.2.2.1, he.2.2.2, by decide +kernel⟩

end ProtocolLearner.Engine
