import ProtocolLearner.Algos
import ProtocolLearner.Wakeups
/-!
# Passes that move the means

What a pass of the worker does when it assigns and updates: when the exception
of a too short vector ends the thread (`assignAndUpdate_ok_iff`), and how many
coordinates the means have afterwards (`Wide.next`).
-/

namespace ProtocolLearner.Engine

open Machine KMeans

variable {T : Type} [Scalar T]

/-- A pass initialises, assigns and updates, or does nothing. -/
theorem clusteringPass_cases (n : UInt16) (σ : Shuffle (DataPoint T)) (old : UInt32) (k : KMeans T) :
    (k.m_Initialised = false ∧ n.toNat ≤ k.m_PointVector.length ∧
      clusteringPass n σ old k = k.mInitialise n σ) ∨
    (currentSize k ≠ old ∧ k.m_Initialised = true ∧ n.toNat < (currentSize k).toNat ∧
      clusteringPass n σ old k = assignAndUpdate k) ∨
    (¬ (currentSize k ≠ old ∧ k.m_Initialised = true ∧ n.toNat < (currentSize k).toNat) ∧
      clusteringPass n σ old k = (.ok (), k)) := by
  by_cases hne : currentSize k ≠ old
  · by_cases hinit : k.m_Initialised = false ∧ n.toNat ≤ (currentSize k).toNat
    · have hlen : n.toNat ≤ k.m_PointVector.length :=
        hinit.2.trans (by rw [currentSize, UInt32.toNat_ofNat']; exact Nat.mod_le _ _)
      exact .inl ⟨hinit.1, hlen, by rw [clusteringPass, if_pos hne, if_pos hinit]⟩
    · by_cases hlt : n.toNat < (currentSize k).toNat
      · have htrue : k.m_Initialised = true := by
          by_contra hf
          exact hinit ⟨by simpa using hf, hlt.le⟩
        exact .inr (.inl ⟨hne, htrue, hlt, by rw [clusteringPass, if_pos hne, if_neg hinit, if_pos hlt]⟩)
      · exact .inr (.inr ⟨fun h => hlt h.2.2, by rw [clusteringPass, if_pos hne, if_neg hinit, if_neg hlt]⟩)
  · exact .inr (.inr ⟨fun h => hne h.1, by rw [clusteringPass, if_neg hne]⟩)

/-- The step begins a pass that assigns and updates. -/
def Updates (n : UInt16) (s : Engine T) (act : Act T) : Prop :=
  beginsPass s act = true ∧ s.worker.old? ≠ some (currentSize s.kmeans) ∧ s.kmeans.m_Initialised = true ∧
    n.toNat < (currentSize s.kmeans).toNat

instance (n : UInt16) (s : Engine T) (act : Act T) : Decidable (Updates n s act) := by
  unfold Updates
  infer_instance

omit [Scalar T] in
theorem Entering.updates_iff {n : UInt16} {s : Engine T} {old : UInt32} (h : s.Entering old)
    (hready : s.kmeans.m_NewSubmissionReady = true) (σ : Shuffle (DataPoint T)) :
    Updates n s (.worker σ) ↔
      currentSize s.kmeans ≠ old ∧ s.kmeans.m_Initialised = true ∧ n.toNat < (currentSize s.kmeans).toNat := by
  simp only [Updates, h.beginsPass hready σ, h.old?, true_and, ne_eq, Option.some.injEq]
  rw [eq_comm]

omit [Scalar T] in
/-- The engines agree in points and means. -/
structure SameData (k k' : KMeans T) : Prop where
  points : k'.m_PointVector = k.m_PointVector
  means : k'.m_CurrentMeans = k.m_CurrentMeans
  initialised : k'.m_Initialised = k.m_Initialised
  numArgs : k'.m_NumArgs = k.m_NumArgs

/-- What a step does to means and points: a submission, an initialisation, an
assignment with update, or nothing. Only the update can end the process. -/
inductive Effect (n : UInt16) (s : Engine T) (act : Act T) (s' : Engine T) : Prop where
  | submit {v} (hact : act = .submit v) (h : s' = s.submit v)
  | initialise {σ} (hup : ¬ Updates n s act) (hinit : s.kmeans.m_Initialised = false)
    (hlen : n.toNat ≤ s.kmeans.m_PointVector.length) (hterm : ¬ s'.IsTerminated)
    (hdata : SameData (s.kmeans.mInitialise n σ).2 s'.kmeans)
  | update (hup : Updates n s act) (hterm : s'.IsTerminated ↔ (assignAndUpdate s.kmeans).1 ≠ .ok ())
    (hdata : SameData (assignAndUpdate s.kmeans).2 s'.kmeans)
  | rest (hup : ¬ Updates n s act) (hterm : ¬ s'.IsTerminated) (hdata : SameData s.kmeans s'.kmeans)

theorem effect_of_pass {n : UInt16} {s s' : Engine T} {σ : Shuffle (DataPoint T)} {old : UInt32}
    {r : Except Exn Unit} {k : KMeans T} (h : s.Entering old) (hready : s.kmeans.m_NewSubmissionReady = true)
    (hpass : clusteringPass n σ old s.kmeans = (r, k)) (hterm : s'.IsTerminated ↔ r ≠ .ok ())
    (hdata : SameData k s'.kmeans) : Effect n s (.worker σ) s' := by
  have hup := h.updates_iff (n := n) hready σ
  rcases clusteringPass_cases n σ old s.kmeans with ⟨hinit, hlen, he⟩ | ⟨hne, hinit, hlt, he⟩ | ⟨hnot, he⟩
  · rw [hpass] at he
    -- There are enough points, so the initialisation does not throw.
    have hok : r = .ok () := by
      rw [mInitialise_eq hlen] at he
      exact congrArg Prod.fst he
    refine .initialise (σ := σ) (fun hu => ?_) hinit hlen (fun ht => hterm.1 ht hok) (he ▸ hdata)
    have := (hup.1 hu).2.1
    simp [hinit] at this
  · rw [hpass] at he
    exact .update (hup.2 ⟨hne, hinit, hlt⟩) (he ▸ hterm) (he ▸ hdata)
  · rw [hpass, Prod.mk.injEq] at he
    exact .rest (fun hu => hnot (hup.1 hu)) (fun ht => hterm.1 ht he.1) (he.2 ▸ hdata)

theorem running_of_step {n : UInt16} {s s' : Engine T} {act : Act T} (h : step n s act = some s') :
    ¬ s.IsTerminated := by
  intro hterm
  unfold step at h
  rw [if_pos hterm] at h
  cases h

omit [Scalar T] in
theorem notified_terminated {w : Worker} {e : Exn} (h : w.notified = .terminated e) : w = .terminated e := by
  cases w <;> simp [Worker.notified] at h ⊢
  exact h

theorem effect_of_step {n : UInt16} {s s' : Engine T} {act : Act T} (hs : step n s act = some s') :
    Effect n s act s' := by
  have hrun := running_of_step hs
  -- Only a pass touches points or means; the three ways it can end share `effect_of_pass`.
  cases transition_of_step hs with
  | start h | leave h | enter h =>
    exact .rest (by simp [Updates, beginsPass, h]) (not_terminated (by simp)) ⟨rfl, rfl, rfl, rfl⟩
  | wait h hready =>
    refine .rest (fun hu => ?_) (not_terminated (by simp)) ⟨rfl, rfl, rfl, rfl⟩
    rcases h with h | h <;> simp [Updates, beginsPass, h, hready] at hu
  | @fail _ _ e _ h hready hpass =>
    exact effect_of_pass h hready hpass (iff_of_true ⟨e, rfl⟩ (by simp)) ⟨rfl, rfl, rfl, rfl⟩
  | lastPass h hready hpass | pass h hready hpass =>
    exact effect_of_pass h hready hpass (iff_of_false (not_terminated (by simp)) (by simp)) ⟨rfl, rfl, rfl, rfl⟩
  | spurious => exact .rest (by simp [Updates, beginsPass]) (not_terminated (by simp)) ⟨rfl, rfl, rfl, rfl⟩
  | submit => exact .submit rfl rfl
  | notify | stop =>
    refine .rest (by simp [Updates, beginsPass]) ?_ ⟨rfl, rfl, rfl, rfl⟩
    rintro ⟨e, he⟩
    exact hrun ⟨e, notified_terminated he⟩

/-- What submissions, the initialisation and the updates keep, every step keeps. -/
theorem step_keeps (P : KMeans T → Prop) {n : UInt16} {s s' : Engine T} {act : Act T}
    (hs : step n s act = some s') (hdata : ∀ k k', P k → SameData k k' → P k') (hk : P s.kmeans)
    (hsubmit : ∀ v, act = .submit v → P (s.kmeans.mSubmit v))
    (hinit : s.kmeans.m_Initialised = false → n.toNat ≤ s.kmeans.m_PointVector.length →
      ∀ σ, P (s.kmeans.mInitialise n σ).2)
    (hupdate : s.kmeans.m_Initialised = true → P (assignAndUpdate s.kmeans).2) : P s'.kmeans := by
  cases effect_of_step hs with
  | submit hact he => exact he ▸ hsubmit _ hact
  | initialise _ hnot hlen _ hd => exact hdata _ _ (hinit hnot hlen _) hd
  | update hup _ hd => exact hdata _ _ (hupdate hup.2.2.1) hd
  | rest _ _ hd => exact hdata _ _ hk hd

/-! ## Labels and indices -/

omit [Scalar T] in
theorem Seeded.of_data {n : UInt16} {k k' : KMeans T} (h : Seeded n k) (hd : SameData k k') : Seeded n k' where
  before := by rw [hd.initialised, hd.means]; exact h.before
  after := by rw [hd.initialised, hd.means]; exact h.after
  labelled := by rw [hd.means]; exact h.labelled

theorem Seeded.step {n : UInt16} {s s' : Engine T} {act : Act T} (h : Seeded n s.kmeans)
    (hs : Engine.step n s act = some s') : Seeded n s'.kmeans := by
  apply step_keeps (Seeded n) hs (fun _ _ => Seeded.of_data) h
  · intro v _
    exact ⟨h.before, h.after, h.labelled⟩
  · intro hinit _ σ
    exact h.mInitialise hinit σ
  · intro _
    exact h.assignAndUpdate

/-- No step touches `m_NumArgs`. -/
theorem numArgs_of_step {n : UInt16} {s s' : Engine T} {act : Act T} (hs : step n s act = some s') :
    s'.kmeans.m_NumArgs = s.kmeans.m_NumArgs := by
  apply step_keeps (·.m_NumArgs = s.kmeans.m_NumArgs) hs (fun _ _ h hd => hd.numArgs.trans h) rfl
  · intro v _
    rfl
  · intro _ _ σ
    exact (mInitialise_untouched n σ s.kmeans).numArgs
  · intro _
    exact (assignAndUpdate_untouched s.kmeans).numArgs

/-- The means are placed, and every point belongs to one of them. -/
structure Pointed (n : UInt16) (k : KMeans T) : Prop where
  seeded : Seeded n k
  index : ∀ p ∈ k.m_PointVector, p.m_MeanIndex.toNat < n.toNat

omit [Scalar T] in
theorem Pointed.of_data {n : UInt16} {k k' : KMeans T} (h : Pointed n k) (hd : SameData k k') : Pointed n k' where
  seeded := h.seeded.of_data hd
  index := by rw [hd.points]; exact h.index

omit [Scalar T] in
theorem Pointed.new (n numArgs : UInt16) : Pointed n (KMeans.new numArgs : KMeans T) :=
  ⟨Seeded.new n numArgs, by simp [KMeans.new]⟩

theorem Pointed.mSubmit {n : UInt16} (hn : 1 ≤ n.toNat) {k : KMeans T} (h : Pointed n k) (v : List T) :
    Pointed n (k.mSubmit v) := by
  refine ⟨⟨h.seeded.before, h.seeded.after, h.seeded.labelled⟩, fun p hp => ?_⟩
  rcases List.mem_append.1 hp with hp | hp
  · exact h.index p hp
  · obtain rfl := List.mem_singleton.1 hp
    exact hn

omit [Scalar T] in
theorem Pointed.mInitialise {n : UInt16} {k : KMeans T} (h : Pointed n k) (hinit : k.m_Initialised = false)
    (hlen : n.toNat ≤ k.m_PointVector.length) (σ : Shuffle (DataPoint T)) : Pointed n (k.mInitialise n σ).2 := by
  refine ⟨h.seeded.mInitialise hinit σ, fun p hp => ?_⟩
  rw [mInitialise_eq hlen] at hp
  exact h.index p ((σ.perm _).mem_iff.1 hp)

theorem Pointed.mAssignAll {n : UInt16} {k : KMeans T} (h : Pointed n k) (hinit : k.m_Initialised = true) :
    Pointed n k.mAssignAll.2 := by
  refine ⟨h.seeded.mAssignAll, ?_⟩
  refine assignLoop_index (fun i => i.toNat < n.toNat) (fun m hm => ?_) h.index
  rw [← h.seeded.after hinit]
  exact h.seeded.labelled.lt hm

theorem Pointed.mUpdateMeans {n : UInt16} {k : KMeans T} (h : Pointed n k) : Pointed n k.mUpdateMeans.2 :=
  ⟨h.seeded.mUpdateMeans, h.index⟩

omit [Scalar T] in
theorem Pointed.means_ne_nil {n : UInt16} (hn : 1 ≤ n.toNat) {k : KMeans T} (h : Pointed n k)
    (hinit : k.m_Initialised = true) : k.m_CurrentMeans ≠ [] := by
  have := h.seeded.after hinit
  exact List.ne_nil_of_length_pos (by omega)

/-- Once initialised, a pass that assigns also updates: `mAssignAll` throws at most `out_of_range`. -/
theorem Pointed.assignAndUpdate_eq {n : UInt16} (hn : 1 ≤ n.toNat) {k : KMeans T} (h : Pointed n k)
    (hinit : k.m_Initialised = true) : assignAndUpdate k = k.mAssignAll.2.mUpdateMeans := by
  apply Engine.assignAndUpdate_eq
  exact assignLoop_error (h.means_ne_nil hn hinit) h.seeded.labelled k.m_PointVector

omit [Scalar T] in
/-- Every point's mean is there, with the label that the point has. -/
theorem Pointed.mean_of {n : UInt16} {k : KMeans T} (h : Pointed n k) (hinit : k.m_Initialised = true)
    {p : DataPoint T} (hp : p ∈ k.m_PointVector) : ∃ m ∈ k.m_CurrentMeans, m.m_Label = p.m_MeanIndex := by
  have hlt : p.m_MeanIndex.toNat < k.m_CurrentMeans.length := (h.seeded.after hinit).symm ▸ h.index p hp
  have hlabel := h.seeded.labelled.of_getElem (List.getElem?_eq_getElem hlt)
  exact ⟨_, List.getElem_mem hlt, UInt16.toNat_inj.1 hlabel⟩

theorem Pointed.step {n : UInt16} (hn : 1 ≤ n.toNat) {s s' : Engine T} {act : Act T} (h : Pointed n s.kmeans)
    (hs : step n s act = some s') : Pointed n s'.kmeans := by
  apply step_keeps (Pointed n) hs (fun _ _ => Pointed.of_data) h
  · intro v _
    exact h.mSubmit hn v
  · intro hinit hlen σ
    exact h.mInitialise hinit hlen σ
  · intro hinit
    rw [h.assignAndUpdate_eq hn hinit]
    exact (h.mAssignAll hinit).mUpdateMeans

/-- Besides, an update asks for as many coordinates as there are means. -/
structure Sound (n : UInt16) (k : KMeans T) : Prop extends Pointed n k where
  numArgs : k.m_NumArgs = n

omit [Scalar T] in
theorem Sound.of_data {n : UInt16} {k k' : KMeans T} (h : Sound n k) (hd : SameData k k') : Sound n k' :=
  ⟨h.toPointed.of_data hd, hd.numArgs.trans h.numArgs⟩

omit [Scalar T] in
theorem Sound.new (n : UInt16) : Sound n (KMeans.new n : KMeans T) := ⟨.new n n, rfl⟩

theorem Sound.mSubmit {n : UInt16} (hn : 1 ≤ n.toNat) {k : KMeans T} (h : Sound n k) (v : List T) :
    Sound n (k.mSubmit v) := ⟨h.toPointed.mSubmit hn v, h.numArgs⟩

omit [Scalar T] in
theorem Sound.mInitialise {n : UInt16} {k : KMeans T} (h : Sound n k) (hinit : k.m_Initialised = false)
    (hlen : n.toNat ≤ k.m_PointVector.length) (σ : Shuffle (DataPoint T)) : Sound n (k.mInitialise n σ).2 :=
  ⟨h.toPointed.mInitialise hinit hlen σ, (mInitialise_untouched n σ k).numArgs.trans h.numArgs⟩

theorem Sound.mAssignAll {n : UInt16} {k : KMeans T} (h : Sound n k) (hinit : k.m_Initialised = true) :
    Sound n k.mAssignAll.2 := ⟨h.toPointed.mAssignAll hinit, h.numArgs⟩

theorem Sound.mUpdateMeans {n : UInt16} {k : KMeans T} (h : Sound n k) : Sound n k.mUpdateMeans.2 :=
  ⟨h.toPointed.mUpdateMeans, h.numArgs⟩

theorem Sound.mUpdateMeans_ok_iff {n : UInt16} {k : KMeans T} (h : Sound n k) (hinit : k.m_Initialised = true) :
    k.mUpdateMeans.1 = .ok () ↔ ∀ p ∈ k.m_PointVector, n.toNat ≤ p.m_Vector.length := by
  unfold KMeans.mUpdateMeans
  rw [h.numArgs, updateLoop_ok_iff]
  constructor
  · intro hgroups p hp
    -- The point has a mean, whose sum takes it in.
    obtain ⟨m, hm, hlabel⟩ := h.mean_of hinit hp
    exact hgroups m hm p (mem_group.2 ⟨hp, hlabel.symm⟩)
  · intro hall m _
    exact forall_group hall m.m_Label

/-- Assigning and updating completes exactly if every point has the coordinates an update asks for. -/
theorem Sound.assignAndUpdate_ok_iff {n : UInt16} (hn : 1 ≤ n.toNat) {k : KMeans T} (h : Sound n k)
    (hinit : k.m_Initialised = true) :
    (assignAndUpdate k).1 = .ok () ↔ ∀ p ∈ k.m_PointVector, n.toNat ≤ p.m_Vector.length := by
  rw [h.assignAndUpdate_eq hn hinit, (h.mAssignAll hinit).mUpdateMeans_ok_iff hinit]
  exact (mAssignAll_untouched k).forall_vector fun v => n.toNat ≤ v.length

theorem Sound.step {n : UInt16} (hn : 1 ≤ n.toNat) {s s' : Engine T} {act : Act T} (h : Sound n s.kmeans)
    (hs : step n s act = some s') : Sound n s'.kmeans :=
  ⟨h.toPointed.step hn hs, (numArgs_of_step hs).trans h.numArgs⟩

/-! ## Surviving -/

/-- The step begins a pass that updates while a point has too few coordinates for that. -/
def UpdatesShort (n : UInt16) (s : Engine T) (act : Act T) : Prop :=
  Updates n s act ∧ ∃ p ∈ s.kmeans.m_PointVector, p.m_Vector.length < n.toNat

instance (n : UInt16) (s : Engine T) (act : Act T) : Decidable (UpdatesShort n s act) := by
  unfold UpdatesShort
  infer_instance

/-- A step ends the process exactly if it is such a pass. -/
theorem Sound.terminated_iff {n : UInt16} (hn : 1 ≤ n.toNat) {s s' : Engine T} {act : Act T} (h : Sound n s.kmeans)
    (hs : Engine.step n s act = some s') : s'.IsTerminated ↔ UpdatesShort n s act := by
  cases effect_of_step hs with
  | submit hact he =>
    refine iff_of_false (fun hterm => running_of_step hs ?_) fun hu => ?_
    · rw [he] at hterm
      exact hterm
    · have := hu.1.1
      simp [hact, beginsPass] at this
  | initialise hup _ _ hterm => exact iff_of_false hterm fun hu => hup hu.1
  | update hup hterm =>
    rw [hterm, ne_eq, h.assignAndUpdate_ok_iff hn hup.2.2.1]
    simp only [not_forall, not_le, UpdatesShort, hup, true_and, exists_prop]
  | rest hup hterm => exact iff_of_false hterm fun hu => hup hu.1

/-! ## Dimensions -/

/-- Points and means have one coordinate for each character type, so that
nothing stands in the way of `mAssignAll`. -/
structure DimensionLaw (k : KMeans T) : Prop where
  points : ∀ p ∈ k.m_PointVector, p.m_Vector.length = NUMTYPES
  means : ∀ m ∈ k.m_CurrentMeans, m.m_Vector.length = NUMTYPES
  completes : k.m_Initialised = true → k.mAssignAll.1 = .ok ()

/-- The first mean stands on the first point, where `mInitialise` puts it. -/
def Copied (points : List (DataPoint T)) (means : List (MeanPoint T)) : Prop :=
  ∃ p ps m ms, points = p :: ps ∧ means = m :: ms ∧ m.m_Vector = p.m_Vector

/-- What the law says of the points, and what is left of it when an update
asks for more coordinates than there are. -/
structure Wide (n : UInt16) (k : KMeans T) : Prop where
  sound : Sound n k
  points : ∀ p ∈ k.m_PointVector, p.m_Vector.length = NUMTYPES
  means : NUMTYPES < n.toNat → ∀ m ∈ k.m_CurrentMeans, m.m_Vector.length = NUMTYPES
  copied : NUMTYPES < n.toNat → k.m_Initialised = true → Copied k.m_PointVector k.m_CurrentMeans

omit [Scalar T] in
theorem Wide.of_data {n : UInt16} {k k' : KMeans T} (h : Wide n k) (hd : SameData k k') : Wide n k' where
  sound := h.sound.of_data hd
  points := by rw [hd.points]; exact h.points
  means := by rw [hd.means]; exact h.means
  copied := by rw [hd.points, hd.means, hd.initialised]; exact h.copied

omit [Scalar T] in
theorem Wide.new (n : UInt16) : Wide n (KMeans.new n : KMeans T) :=
  ⟨.new n, by simp [KMeans.new], by simp [KMeans.new], by simp [KMeans.new]⟩

/-- Where the points are wide enough, the law is about the means only. -/
theorem Wide.law_iff {n : UInt16} (hn : 1 ≤ n.toNat) {k : KMeans T} (h : Wide n k) :
    DimensionLaw k ↔ ∀ m ∈ k.m_CurrentMeans, m.m_Vector.length = NUMTYPES := by
  refine ⟨DimensionLaw.means, fun hmeans => ⟨h.points, hmeans, fun hinit => ?_⟩⟩
  exact assignLoop_total (h.sound.means_ne_nil hn hinit) h.sound.seeded.labelled
    fun p hp m hm => by rw [h.points p hp, hmeans m hm]

theorem Wide.mSubmit {n : UInt16} (hn : 1 ≤ n.toNat) {k : KMeans T} (h : Wide n k) {v : List T}
    (hv : v.length = NUMTYPES) : Wide n (k.mSubmit v) where
  sound := h.sound.mSubmit hn v
  points p hp := by
    rcases List.mem_append.1 hp with hp | hp
    · exact h.points p hp
    · obtain rfl := List.mem_singleton.1 hp
      exact hv
  means := h.means
  copied hlt hinit := by
    obtain ⟨p, ps, m, ms, hps, hms, he⟩ := h.copied hlt hinit
    exact ⟨p, ps ++ [.new v k.m_PointIndex], m, ms, by simp [KMeans.mSubmit, hps], hms, he⟩

omit [Scalar T] in
theorem initialMeans_wide {ps : List (DataPoint T)} (h : ∀ p ∈ ps, p.m_Vector.length = NUMTYPES) (n : Nat) :
    ∀ m ∈ initialMeans ps n, m.m_Vector.length = NUMTYPES := by
  intro m hm
  obtain ⟨p, hp, he⟩ := initialMeans_vector hm
  rw [he, h p hp]

omit [Scalar T] in
theorem copied_initialMeans {ps : List (DataPoint T)} {n : Nat} (hn : 1 ≤ n) (hlen : n ≤ ps.length) :
    Copied ps (initialMeans ps n) := by
  obtain ⟨i, rfl⟩ := Nat.exists_eq_add_of_le' hn
  cases ps with
  | nil => simp at hlen
  | cons p ps => exact ⟨p, ps, ⟨UInt16.ofNat 0, p.m_Vector⟩, _, rfl, List.mapIdx_cons, rfl⟩

omit [Scalar T] in
theorem Wide.mInitialise {n : UInt16} (hn : 1 ≤ n.toNat) {k : KMeans T} (h : Wide n k)
    (hinit : k.m_Initialised = false) (hlen : n.toNat ≤ k.m_PointVector.length) (σ : Shuffle (DataPoint T)) :
    Wide n (k.mInitialise n σ).2 ∧ ∀ m ∈ (k.mInitialise n σ).2.m_CurrentMeans, m.m_Vector.length = NUMTYPES := by
  have hsound := h.sound.mInitialise hinit hlen σ
  have hpoints := ((mInitialise_untouched n σ k).forall_vector fun v => v.length = NUMTYPES).2 h.points
  have hshuffled : (σ.run k.m_PointVector).length = k.m_PointVector.length := (σ.perm _).length_eq
  rw [mInitialise_eq hlen, h.sound.seeded.before hinit, List.nil_append] at *
  have hmeans := initialMeans_wide hpoints n.toNat
  exact ⟨⟨hsound, hpoints, fun _ => hmeans, fun _ _ => copied_initialMeans hn (hshuffled ▸ hlen)⟩, hmeans⟩

/-- The point that the first mean stands on stays with it. -/
theorem Copied.assignLoop {points : List (DataPoint T)} {means : List (MeanPoint T)} (h : Copied points means)
    (hl : Labelled means) (hlen : ∀ p ∈ points, ∀ m ∈ means, p.m_Vector.length ≤ m.m_Vector.length) :
    ∃ p ps m ms, (assignLoop means points).2 = p :: ps ∧ means = m :: ms ∧ m.m_Vector = p.m_Vector ∧
      p.m_MeanIndex = m.m_Label := by
  obtain ⟨p, ps, m, ms, rfl, rfl, he⟩ := h
  have hplen := List.forall_mem_cons.1 (hlen p List.mem_cons_self)
  have hfind : mFindNearestMean (m :: ms) p = .ok m.m_Label := by
    -- No distance is less than that of `p` to itself, so the search keeps its first mean.
    rw [mFindNearestMean_cons hplen.1, he]
    exact findNearestFrom_keep hplen.2 fun m' _ => distance_self _ _ _
  rw [assignLoop_cons hl List.mem_cons_self hfind]
  exact ⟨_, _, m, ms, rfl, rfl, he, rfl⟩

/-- An update that asks for more coordinates than the first point has throws before it moves a mean. -/
theorem mUpdateMeans_stuck {k : KMeans T} {p : DataPoint T} {m : MeanPoint T} {ms : List (MeanPoint T)}
    (hp : p ∈ k.m_PointVector) (hms : k.m_CurrentMeans = m :: ms) (hlabel : p.m_MeanIndex = m.m_Label)
    (hshort : p.m_Vector.length < k.m_NumArgs.toNat) : k.mUpdateMeans.2 = k := by
  have hthrow : updateMean k.m_NumArgs k.m_PointVector m = .error .outOfRange :=
    updateMean_short ⟨p, mem_group.2 ⟨hp, hlabel⟩, hshort⟩
  unfold KMeans.mUpdateMeans
  rw [hms, updateLoop, hthrow, ← hms]

/-- An update asking for at most `NUMTYPES` coordinates gives every mean as many as it asks for. -/
theorem Wide.update_le {n : UInt16} (hn : 1 ≤ n.toNat) {k : KMeans T} (h : Wide n k)
    (hinit : k.m_Initialised = true) (hle : n.toNat ≤ NUMTYPES) : Wide n (assignAndUpdate k).2 ∧
      ∀ m ∈ (assignAndUpdate k).2.m_CurrentMeans, m.m_Vector.length = n.toNat := by
  have hsound := h.sound.mAssignAll hinit
  have hpoints := ((mAssignAll_untouched k).forall_vector fun v => v.length = NUMTYPES).2 h.points
  rw [h.sound.assignAndUpdate_eq hn hinit]
  refine ⟨⟨hsound.mUpdateMeans, hpoints, fun hlt => absurd hle (not_le.2 hlt),
    fun hlt => absurd hle (not_le.2 hlt)⟩, ?_⟩
  have hwidth := mUpdateMeans_width (k := k.mAssignAll.2) fun p hp => by
    rw [hpoints p hp, hsound.numArgs]
    exact hle
  rwa [hsound.numArgs] at hwidth

/-- One asking for more leaves the means alone. -/
theorem Wide.update_gt {n : UInt16} (hn : 1 ≤ n.toNat) {k : KMeans T} (h : Wide n k)
    (hinit : k.m_Initialised = true) (hlt : NUMTYPES < n.toNat) : Wide n (assignAndUpdate k).2 ∧
      ∀ m ∈ (assignAndUpdate k).2.m_CurrentMeans, m.m_Vector.length = NUMTYPES := by
  have hsound := h.sound.mAssignAll hinit
  have hpoints := ((mAssignAll_untouched k).forall_vector fun v => v.length = NUMTYPES).2 h.points
  obtain ⟨p, ps, m, ms, hps, hms, he, hlabel⟩ := (h.copied hlt hinit).assignLoop h.sound.seeded.labelled
    fun p hp m hm => by rw [h.points p hp, h.means hlt m hm]
  have hp : p ∈ (assignLoop k.m_CurrentMeans k.m_PointVector).2 := hps ▸ List.mem_cons_self
  have hstuck : k.mAssignAll.2.mUpdateMeans.2 = k.mAssignAll.2 :=
    mUpdateMeans_stuck hp hms hlabel (by rw [hpoints p hp, hsound.numArgs]; exact hlt)
  rw [h.sound.assignAndUpdate_eq hn hinit, hstuck]
  exact ⟨⟨hsound, hpoints, h.means, fun _ _ => ⟨p, ps, m, ms, hps, hms, he⟩⟩, h.means hlt⟩

omit [Scalar T] in
theorem not_updates_submit {n : UInt16} {s : Engine T} {v : List T} : ¬ Updates n s (.submit v) := by
  simp [Updates, beginsPass]

/-- A step keeps the law exactly if it is not an update that asks for fewer coordinates than the points have. -/
theorem Wide.next {n : UInt16} (hn : 1 ≤ n.toNat) {s s' : Engine T} {act : Act T} (h : Wide n s.kmeans)
    (hv : ∀ v, act = .submit v → v.length = NUMTYPES) (hs : Engine.step n s act = some s') :
    Wide n s'.kmeans ∧
      (DimensionLaw s.kmeans → (DimensionLaw s'.kmeans ↔ NUMTYPES ≤ n.toNat ∨ ¬ Updates n s act)) := by
  cases effect_of_step hs with
  | submit hact he =>
    subst hact he
    have hw := h.mSubmit hn (hv _ rfl)
    exact ⟨hw, fun hlaw => iff_of_true ((hw.law_iff hn).2 hlaw.means) (.inr not_updates_submit)⟩
  | initialise hup hinit hlen _ hdata =>
    obtain ⟨hw, hmeans⟩ := h.mInitialise hn hinit hlen _
    have hw' := hw.of_data hdata
    exact ⟨hw', fun _ => iff_of_true ((hw'.law_iff hn).2 (by rw [hdata.means]; exact hmeans)) (.inr hup)⟩
  | rest hup _ hdata =>
    have hw := h.of_data hdata
    exact ⟨hw, fun hlaw => iff_of_true ((hw.law_iff hn).2 (by rw [hdata.means]; exact hlaw.means)) (.inr hup)⟩
  | update hup _ hdata =>
    have hinit := hup.2.2.1
    rcases le_or_gt n.toNat NUMTYPES with hle | hgt
    · obtain ⟨hw, hmeans⟩ := h.update_le hn hinit hle
      have hw' := hw.of_data hdata
      have hinit' : s'.kmeans.m_Initialised = true := by
        rw [hdata.initialised, h.sound.assignAndUpdate_eq hn hinit]
        exact hinit
      rw [← hdata.means] at hmeans
      refine ⟨hw', ?_⟩
      intro _
      rw [hw'.law_iff hn]
      constructor
      · -- Any mean shows it: now it has `n` coordinates.
        intro hall
        obtain ⟨m, hm⟩ := List.exists_mem_of_ne_nil _ (hw'.sound.means_ne_nil hn hinit')
        exact .inl ((hall m hm).symm.trans (hmeans m hm)).le
      · rintro (hge | hnot)
        · intro m hm
          exact (hmeans m hm).trans (le_antisymm hle hge)
        · exact absurd hup hnot
    · -- The update throws at the first mean: the law stays, the process does not.
      obtain ⟨hw, hmeans⟩ := h.update_gt hn hinit hgt
      have hw' := hw.of_data hdata
      exact ⟨hw', fun _ => iff_of_true ((hw'.law_iff hn).2 (by rw [hdata.means]; exact hmeans)) (.inl hgt.le)⟩

end ProtocolLearner.Engine
