import ProtocolLearner.Lib.Machine
import ProtocolLearner.Operations
/-!
# Assignment

`mFindNearestMean` returns the label of the mean whose cell a point is in
(`InCell`), and as long as no NaN is compared there is no other mean with that
property. With exact numbers the recorded distances compare as the sums of squares do,
and `mFindNearestMean` returns the label of the earliest of the nearest means.
`mAssignAll` then looks that mean up by position, and the public lookup goes by
first matching label; the three agree as long as the labels are the positions
(`Labelled`). One `mInitialise` establishes that and no other call breaks it.
A second successful `mInitialise` appends a second set of labels and does.
-/

namespace ProtocolLearner.KMeans

open Machine

section Cells
variable {T : Type} [Scalar T]

/-- The vector `xs` is nearer to `m` than to the means `pre` before it, and no
farther from it than from the means `post` after it. -/
structure InCell (xs : List T) (pre : List (MeanPoint T)) (m : MeanPoint T) (post : List (MeanPoint T)) : Prop where
  before : ∀ m' ∈ pre, Scalar.less (distance xs m.m_Vector) (distance xs m'.m_Vector) = true
  after : ∀ m' ∈ post, Scalar.less (distance xs m'.m_Vector) (distance xs m.m_Vector) = false

theorem findNearestFrom_inCell {p : DataPoint T} {pre post : List (MeanPoint T)} {m : MeanPoint T}
    (hlen : ∀ m' ∈ pre ++ m :: post, p.m_Vector.length ≤ m'.m_Vector.length) (h : InCell p.m_Vector pre m post)
    {d : T} (hd : Scalar.less (distance p.m_Vector m.m_Vector) d = true) (l : UInt16) :
    findNearestFrom p d l (pre ++ m :: post) = .ok m.m_Label := by
  induction pre generalizing d l with
  | nil =>
    have hlen := List.forall_mem_cons.1 hlen
    rw [List.nil_append, findNearestFrom_cons hlen.1, if_pos hd]
    exact findNearestFrom_keep hlen.2 h.after
  | cons q pre ih =>
    have hlen := List.forall_mem_cons.1 hlen
    have hbefore := List.forall_mem_cons.1 h.before
    rw [List.cons_append, findNearestFrom_cons hlen.1]
    -- `m` is nearer than what the search holds, whether `q` takes over or not.
    split
    · exact ih hlen.2 ⟨hbefore.2, h.after⟩ hbefore.1 _
    · exact ih hlen.2 ⟨hbefore.2, h.after⟩ hd _

/-- A point in the cell of `m` finds `m`. -/
theorem InCell.found {p : DataPoint T} {pre post : List (MeanPoint T)} {m : MeanPoint T}
    (h : InCell p.m_Vector pre m post) (hlen : ∀ m' ∈ pre ++ m :: post, p.m_Vector.length ≤ m'.m_Vector.length) :
    mFindNearestMean (pre ++ m :: post) p = .ok m.m_Label := by
  cases pre with
  | nil =>
    have hlen := List.forall_mem_cons.1 hlen
    rw [List.nil_append, mFindNearestMean_cons hlen.1]
    exact findNearestFrom_keep hlen.2 h.after
  | cons q pre =>
    have hlen := List.forall_mem_cons.1 hlen
    have hbefore := List.forall_mem_cons.1 h.before
    rw [List.cons_append, mFindNearestMean_cons hlen.1]
    exact findNearestFrom_inCell hlen.2 ⟨hbefore.2, h.after⟩ hbefore.1 _

variable (T) in
/-- `less` orders all numbers, as it does where none of them is NaN. -/
structure TotalLess : Prop where
  asymm : ∀ x y : T, Scalar.less x y = true → Scalar.less y x = false
  trans : ∀ x y z : T, Scalar.less x y = false → Scalar.less y z = false → Scalar.less x z = false

theorem TotalLess.irrefl (ht : TotalLess T) (x : T) : Scalar.less x x = false := by
  by_contra hless
  exact hless (ht.asymm x x (by simpa using hless))

/-- No mean is nearer than that of the cell. -/
theorem InCell.not_less (ht : TotalLess T) {xs : List T} {pre post : List (MeanPoint T)} {m : MeanPoint T}
    (h : InCell xs pre m post) {m' : MeanPoint T} (hm' : m' ∈ pre ++ m :: post) :
    Scalar.less (distance xs m'.m_Vector) (distance xs m.m_Vector) = false := by
  rcases List.mem_append.1 hm' with hm' | hm'
  · exact ht.asymm _ _ (h.before m' hm')
  · rcases List.mem_cons.1 hm' with rfl | hm'
    · exact ht.irrefl _
    · exact h.after m' hm'

/-- The loop started at the mean `m₀` ends at the mean whose cell the point is in. -/
theorem findNearestFrom_cell (ht : TotalLess T) {p : DataPoint T} {ms : List (MeanPoint T)}
    (hlen : ∀ m ∈ ms, p.m_Vector.length ≤ m.m_Vector.length) (m₀ : MeanPoint T) :
    ∃ pre m post, m₀ :: ms = pre ++ m :: post ∧ InCell p.m_Vector pre m post ∧
      findNearestFrom p (distance p.m_Vector m₀.m_Vector) m₀.m_Label ms = .ok m.m_Label := by
  induction ms generalizing m₀ with
  | nil => exact ⟨[], m₀, [], rfl, ⟨by simp, by simp⟩, rfl⟩
  | cons m₁ ms ih =>
    rw [List.forall_mem_cons] at hlen
    rw [findNearestFrom_cons hlen.1]
    by_cases hlt : Scalar.less (distance p.m_Vector m₁.m_Vector) (distance p.m_Vector m₀.m_Vector) = true
    · -- `m₁` takes over: `m₀` is farther than `m₁`, so than what the rest ends at.
      obtain ⟨pre, m, post, he, hm, hf⟩ := ih hlen.2 m₁
      have hm₁ := hm.not_less ht (he ▸ List.mem_cons_self)
      have hm₀ : Scalar.less (distance p.m_Vector m.m_Vector) (distance p.m_Vector m₀.m_Vector) = true := by
        by_contra hless
        rw [ht.trans _ _ _ hm₁ (by simpa using hless)] at hlt
        cases hlt
      refine ⟨m₀ :: pre, m, post, by rw [he, List.cons_append], ⟨?_, hm.after⟩, by rw [if_pos hlt, hf]⟩
      exact List.forall_mem_cons.2 ⟨hm₀, hm.before⟩
    · have hle : Scalar.less (distance p.m_Vector m₁.m_Vector) (distance p.m_Vector m₀.m_Vector) = false := by
        simpa using hlt
      obtain ⟨pre, m, post, he, hm, hf⟩ := ih hlen.2 m₀
      rw [if_neg hlt]
      cases pre with
      | nil =>
        obtain ⟨rfl, rfl⟩ : m₀ = m ∧ ms = post := by simpa using he
        exact ⟨[], m₀, m₁ :: ms, rfl, ⟨by simp, List.forall_mem_cons.2 ⟨hle, hm.after⟩⟩, hf⟩
      | cons q pre =>
        obtain ⟨rfl, rfl⟩ : m₀ = q ∧ ms = pre ++ m :: post := by simpa using he
        have hbefore := List.forall_mem_cons.1 hm.before
        have hm₁ : Scalar.less (distance p.m_Vector m.m_Vector) (distance p.m_Vector m₁.m_Vector) = true := by
          by_contra hless
          have := ht.trans _ _ _ (by simpa using hless) hle
          simp [hbefore.1] at this
        refine ⟨m₀ :: m₁ :: pre, m, post, rfl, ⟨?_, hm.after⟩, hf⟩
        exact List.forall_mem_cons.2 ⟨hbefore.1, List.forall_mem_cons.2 ⟨hm₁, hbefore.2⟩⟩

/-- A label the search returns is that of the mean whose cell the point is in. -/
theorem mFindNearestMean_cell (ht : TotalLess T) {means : List (MeanPoint T)} {p : DataPoint T} {l : UInt16}
    (h : mFindNearestMean means p = .ok l) :
    ∃ pre m post, means = pre ++ m :: post ∧ m.m_Label = l ∧ InCell p.m_Vector pre m post := by
  obtain ⟨⟨m, hm, -⟩, hlen⟩ := mFindNearestMean_ok h
  obtain ⟨m₀, ms, rfl⟩ := List.exists_cons_of_ne_nil (List.ne_nil_of_mem hm)
  rw [List.forall_mem_cons] at hlen
  obtain ⟨pre, m', post, he, hm', hf⟩ := findNearestFrom_cell ht hlen.2 m₀
  rw [mFindNearestMean_cons hlen.1, hf] at h
  exact ⟨pre, m', post, he, Except.ok.inj h, hm'⟩

end Cells

section Distance
variable {T : Type} [Field T] [LinearOrder T] [Exact T]

omit [LinearOrder T] [Exact T] in
/-- The sum of squared differences over the coordinates of `xs`. -/
def sqDist (xs ms : List T) : T := ((List.zipWith (· - ·) xs ms).map (· ^ 2)).sum

theorem distance_eq (xs ms : List T) : distance xs ms = Scalar.sqrt (sqDist xs ms) := by
  have hsub : (Scalar.sub : T → T → T) = (· - ·) := by
    funext x y
    exact Exact.sub_eq x y
  have hacc : (Scalar.addPow2 : T → T → T) = fun acc x => acc + x ^ 2 := by
    funext acc x
    exact Exact.addPow2_eq acc x
  unfold distance sqDist
  rw [hsub, hacc, foldl_pow2, Exact.zero_eq, zero_add]

variable [IsStrictOrderedRing T]

omit [Exact T] in
theorem sqDist_nonneg (xs ms : List T) : 0 ≤ sqDist xs ms := sum_pow2_nonneg _

omit [IsStrictOrderedRing T] in
theorem sqrt_le {x y : T} (hx : 0 ≤ x) (h : x ≤ y) : (Scalar.sqrt x : T) ≤ Scalar.sqrt y := by
  rcases h.eq_or_lt with rfl | hlt
  · exact le_rfl
  · exact (Exact.sqrt_lt hx hlt).le

theorem distance_le {xs ms xs' ms' : List T} (h : sqDist xs ms ≤ sqDist xs' ms') :
    distance xs ms ≤ distance xs' ms' := by
  rw [distance_eq, distance_eq]
  exact sqrt_le (sqDist_nonneg xs ms) h

/-- Comparing two distances is comparing their squares. -/
theorem less_distance (xs ms xs' ms' : List T) :
    Scalar.less (distance xs ms) (distance xs' ms') = true ↔ sqDist xs ms < sqDist xs' ms' := by
  rw [Exact.less_iff]
  refine ⟨fun h => not_le.1 fun hle => absurd h (not_lt.2 (distance_le hle)), ?_⟩
  intro h
  rw [distance_eq, distance_eq]
  exact Exact.sqrt_lt (sqDist_nonneg xs ms) h

/-! ## The nearest mean -/

omit [IsStrictOrderedRing T] [Exact T] in
/-- `m` is the earliest of the means nearest to `xs`: those before it are
strictly farther, those after it no nearer. -/
structure Earliest (xs : List T) (pre : List (MeanPoint T)) (m : MeanPoint T) (post : List (MeanPoint T)) : Prop where
  before : ∀ m' ∈ pre, sqDist xs m.m_Vector < sqDist xs m'.m_Vector
  after : ∀ m' ∈ post, sqDist xs m.m_Vector ≤ sqDist xs m'.m_Vector

omit [IsStrictOrderedRing T] [Exact T] in
theorem Earliest.le {xs : List T} {pre post : List (MeanPoint T)} {m : MeanPoint T} (h : Earliest xs pre m post) :
    ∀ m' ∈ pre ++ m :: post, sqDist xs m.m_Vector ≤ sqDist xs m'.m_Vector := by
  intro m' hm'
  rcases List.mem_append.1 hm' with hm' | hm'
  · exact (h.before m' hm').le
  · rcases List.mem_cons.1 hm' with rfl | hm'
    · exact le_rfl
    · exact h.after m' hm'

omit [IsStrictOrderedRing T] in
theorem less_eq_false {x y : T} : Scalar.less x y = false ↔ y ≤ x := by
  rw [← Bool.not_eq_true, Exact.less_iff, not_lt]

omit [IsStrictOrderedRing T] in
theorem totalLess : TotalLess T := by
  constructor
  · intro x y h
    exact less_eq_false.2 ((Exact.less_iff x y).1 h).le
  · intro x y z hxy hyz
    exact less_eq_false.2 ((less_eq_false.1 hyz).trans (less_eq_false.1 hxy))

/-- In exact arithmetic the mean of a point's cell is the earliest of those nearest to it. -/
theorem InCell.earliest {xs : List T} {pre post : List (MeanPoint T)} {m : MeanPoint T} (h : InCell xs pre m post) :
    Earliest xs pre m post := by
  refine ⟨fun m' hm' => (less_distance _ _ _ _).1 (h.before m' hm'), ?_⟩
  intro m' hm'
  by_contra! hlt
  have hless := (less_distance _ _ _ _).2 hlt
  rw [h.after m' hm'] at hless
  cases hless

/-- `mFindNearestMean` returns the label of the earliest nearest mean. -/
theorem mFindNearestMean_earliest {means : List (MeanPoint T)} {p : DataPoint T} {l : UInt16}
    (h : mFindNearestMean means p = .ok l) :
    ∃ pre m post, means = pre ++ m :: post ∧ m.m_Label = l ∧ Earliest p.m_Vector pre m post := by
  obtain ⟨pre, m, post, he, hlabel, hm⟩ := mFindNearestMean_cell totalLess h
  exact ⟨pre, m, post, he, hlabel, hm.earliest⟩

/-- The search throws exactly when some mean has fewer coordinates than the
point, and otherwise returns the label of the earliest nearest mean. -/
theorem nearest_mean_search {means : List (MeanPoint T)} (hne : means ≠ []) (p : DataPoint T) :
    (mFindNearestMean means p = .error .outOfRange ↔ ∃ m ∈ means, m.m_Vector.length < p.m_Vector.length) ∧
      ((∀ m ∈ means, p.m_Vector.length ≤ m.m_Vector.length) → ∃ pre m post, means = pre ++ m :: post ∧
        mFindNearestMean means p = .ok m.m_Label ∧ Earliest p.m_Vector pre m post) := by
  constructor
  · refine ⟨fun h => ?_, mFindNearestMean_short⟩
    by_contra! hlen
    obtain ⟨l, hl⟩ := mFindNearestMean_total hne hlen
    rw [hl] at h
    cases h
  · intro hlen
    obtain ⟨l, hl⟩ := mFindNearestMean_total hne hlen
    obtain ⟨pre, m, post, he, rfl, hm⟩ := mFindNearestMean_earliest hl
    exact ⟨pre, m, post, he, hl, hm⟩

end Distance

/-- Means of unequal lengths, the last two equally near to the point 1. -/
def unevenMeans : List (MeanPoint ℚ) := [⟨7, [3]⟩, ⟨4, [0, 9]⟩, ⟨5, [2]⟩]

theorem unevenMeans_search : ∃ pre m post, unevenMeans = pre ++ m :: post ∧
    mFindNearestMean unevenMeans (DataPoint.new [1] 0) = .ok m.m_Label ∧ Earliest [1] pre m post :=
  (nearest_mean_search (by decide) (DataPoint.new [1] 0)).2 (by decide)

/-- Of two equally near means the earlier is found. -/
example : mFindNearestMean [⟨7, [3]⟩, ⟨4, [0, 9]⟩, ⟨5, [2]⟩] (DataPoint.new [(1 : ℚ)] 0) = .ok 4 := by decide +kernel

/-! ## The shape of the engine -/

section Shape
variable {T : Type}

/-- All points and means have `m_NumArgs` coordinates, and the labels are the positions. -/
structure Shaped (k : KMeans T) : Prop where
  points : ∀ p ∈ k.m_PointVector, p.m_Vector.length = k.m_NumArgs.toNat
  means : ∀ m ∈ k.m_CurrentMeans, m.m_Vector.length = k.m_NumArgs.toNat
  labelled : Labelled k.m_CurrentMeans

/-- Submitted vectors have `m_NumArgs` coordinates. -/
def InDimension (k : KMeans T) : Op T → Prop
  | .submit inVector => inVector.length = k.m_NumArgs.toNat
  | _ => True

/-- An initialisation finds no means or throws for want of points. -/
def FirstInitialise (k : KMeans T) : Op T → Prop
  | .initialise aNumMeans _ => k.m_CurrentMeans = [] ∨ k.m_PointVector.length < aNumMeans.toNat
  | _ => True

instance (k : KMeans T) : DecidablePred (InDimension k)
  | .submit inVector => inferInstanceAs (Decidable (inVector.length = k.m_NumArgs.toNat))
  | .initialise _ _ | .assignAll | .updateMeans => inferInstanceAs (Decidable True)

instance (k : KMeans T) : DecidablePred (FirstInitialise k)
  | .initialise aNumMeans _ =>
    inferInstanceAs (Decidable (k.m_CurrentMeans = [] ∨ k.m_PointVector.length < aNumMeans.toNat))
  | .submit _ | .assignAll | .updateMeans => inferInstanceAs (Decidable True)

theorem Shaped.new (numArgs : UInt16) : Shaped (new numArgs : KMeans T) :=
  ⟨by simp [KMeans.new], by simp [KMeans.new], Labelled.nil⟩

theorem Shaped.mInitialise {k : KMeans T} (h : Shaped k) {n : UInt16} {σ : Shuffle (DataPoint T)}
    (hf : FirstInitialise k (.initialise n σ)) : Shaped (k.mInitialise n σ).2 := by
  rcases lt_or_ge k.m_PointVector.length n.toNat with hlt | hge
  · rw [mInitialise_short hlt]
    exact ⟨h.points, h.means, h.labelled⟩
  · have hnil : k.m_CurrentMeans = [] := hf.resolve_right (not_lt.2 hge)
    have hpoints : ∀ p ∈ σ.run k.m_PointVector, p.m_Vector.length = k.m_NumArgs.toNat := by
      intro p hp
      exact h.points p ((σ.perm _).mem_iff.1 hp)
    rw [mInitialise_eq hge]
    refine ⟨hpoints, fun m hm => ?_, ?_⟩
    · simp only [hnil, List.nil_append] at hm
      obtain ⟨p, hp, he⟩ := initialMeans_vector hm
      rw [he]
      exact hpoints p hp
    · simp only [hnil, List.nil_append]
      exact initialMeans_labelled _ n.toNat_lt

variable [Scalar T]

theorem Shaped.mSubmit {k : KMeans T} (h : Shaped k) {v : List T} (hv : InDimension k (.submit v)) :
    Shaped (k.mSubmit v) := by
  refine ⟨fun p hp => ?_, h.means, h.labelled⟩
  rcases List.mem_append.1 hp with hp | hp
  · exact h.points p hp
  · obtain rfl := List.mem_singleton.1 hp
    exact hv

/-- On a shaped engine with means `mAssignAll` completes. -/
theorem Shaped.assigns {k : KMeans T} (h : Shaped k) (hne : k.m_CurrentMeans ≠ []) : k.mAssignAll.1 = .ok () := by
  apply assignLoop_total hne h.labelled
  intro p hp m hm
  rw [h.points p hp, h.means m hm]

theorem Shaped.mAssignAll {k : KMeans T} (h : Shaped k) : Shaped k.mAssignAll.2 := by
  refine ⟨fun p hp => ?_, h.means, h.labelled⟩
  obtain ⟨q, hq, he⟩ := (mAssignAll_untouched k).mem hp
  rw [← he]
  exact h.points q hq

omit [Scalar T] in
theorem Shaped.group_le {k : KMeans T} (h : Shaped k) (l : UInt16) :
    ∀ p ∈ group l k.m_PointVector, k.m_NumArgs.toNat ≤ p.m_Vector.length :=
  forall_group (fun p hp => (h.points p hp).ge) l

/-- On a shaped engine `mUpdateMeans` completes. -/
theorem Shaped.mUpdateMeans_eq {k : KMeans T} (h : Shaped k) : k.mUpdateMeans = (.ok (), { k with
    m_CurrentMeans := k.m_CurrentMeans.map fun m =>
      { m with m_Vector := centroid k.m_NumArgs (group m.m_Label k.m_PointVector) } }) := by
  apply KMeans.mUpdateMeans_eq
  intro p hp
  exact (h.points p hp).ge

theorem Shaped.mUpdateMeans {k : KMeans T} (h : Shaped k) : Shaped k.mUpdateMeans.2 := by
  refine ⟨h.points, ?_, h.labelled.of_labels (mUpdateMeans_labels k)⟩
  exact mUpdateMeans_width fun p hp => (h.points p hp).ge

theorem Shaped.step {k k' : KMeans T} {op : Op T} (h : Shaped k) (hd : InDimension k op)
    (hf : FirstInitialise k op) (hs : k.step op = some k') : Shaped k' := by
  obtain ⟨rfl, -⟩ := step_some hs
  cases op with
  | submit v => exact h.mSubmit hd
  | initialise n σ => exact h.mInitialise hf
  | assignAll => exact h.mAssignAll
  | updateMeans => exact h.mUpdateMeans

theorem shaped_of_run {numArgs : UInt16} {ops : List (Op T)} {k : KMeans T}
    (hrun : run step (new numArgs) ops = some k) (hdim : EveryStep step InDimension (new numArgs) ops)
    (hinit : EveryStep step FirstInitialise (new numArgs) ops) : Shaped k :=
  (EveryState.of_inv Shaped (fun k op => InDimension k op ∧ FirstInitialise k op)
    (fun _ _ _ hs hc => hs.step hc.1 hc.2) (Shaped.new numArgs) (hdim.and hinit)).last hrun

end Shape

/-! ## Assignment over whole runs -/

section Law
variable {T : Type} [Field T] [LinearOrder T] [IsStrictOrderedRing T] [Exact T]

omit [IsStrictOrderedRing T] in
/-- Each point records its distance to the mean its index looks up, and no
mean is nearer. -/
def AssignmentLaw (k : KMeans T) : Prop :=
  ∀ p ∈ k.m_PointVector, ∃ m, k.mExtractCurrentMeanBasedOnLabel p.m_MeanIndex = .ok m ∧
    mCalculateEuclideanDistance p m = .ok p.m_EuclideanDistanceFromAssignedMean ∧
    ∀ m' ∈ k.m_CurrentMeans, ∃ d, mCalculateEuclideanDistance p m' = .ok d ∧
      p.m_EuclideanDistanceFromAssignedMean ≤ d

/-- Under labelled means the mean a point was measured to is the earliest nearest one. -/
theorem Assigned.earliest {means : List (MeanPoint T)} (hl : Labelled means) {p p' : DataPoint T}
    (h : Assigned means p p') : ∃ pre m post, means = pre ++ m :: post ∧ m.m_Label = p'.m_MeanIndex ∧
      p'.m_Vector = p.m_Vector ∧ Earliest p'.m_Vector pre m post ∧
      p'.m_EuclideanDistanceFromAssignedMean = distance p'.m_Vector m.m_Vector := by
  obtain ⟨m, hat, hd⟩ := h.measured
  obtain ⟨pre, m', post, he, hlabel, hmin⟩ := mFindNearestMean_earliest h.nearest
  have hvec : p'.m_Vector = p.m_Vector := congrArg Prod.snd h.submission
  have hmem : m' ∈ means := by simp [he]
  -- The label is a position, so the mean it was measured to is the nearest one.
  have hm : m = m' := by
    rw [← hlabel, hl.meanAt hmem] at hat
    exact (Except.ok.inj hat).symm
  have hle := (mFindNearestMean_ok h.nearest).2 m' hmem
  rw [hm, mCalculateEuclideanDistance_eq hle] at hd
  exact ⟨pre, m', post, he, hlabel, hvec, hvec ▸ hmin, hvec ▸ (Except.ok.inj hd).symm⟩

/-- A completed `mAssignAll` on labelled means establishes the law. -/
theorem mAssignAll_law {k : KMeans T} (hl : Labelled k.m_CurrentMeans) (h : k.mAssignAll.1 = .ok ()) :
    AssignmentLaw k.mAssignAll.2 := by
  intro p' hp'
  obtain ⟨p, hp, hassigned⟩ := Assigned.of_mem h hp'
  obtain ⟨pre, m, post, he, hlabel, hvec, hmin, hd⟩ := hassigned.earliest hl
  have hlen := (mFindNearestMean_ok hassigned.nearest).2
  rw [← hvec] at hlen
  have hmem : m ∈ k.m_CurrentMeans := by simp [he]
  refine ⟨m, ?_, ?_, fun m' hm' => ⟨_, mCalculateEuclideanDistance_eq (hlen m' hm'), ?_⟩⟩
  · rw [← hlabel]
    exact Labelled.extract (k := k.mAssignAll.2) hl hmem
  · rw [hd]
    exact mCalculateEuclideanDistance_eq (hlen m hmem)
  · rw [hd]
    exact distance_le (hmin.le m' (he ▸ hm'))

/-! ## Main theorem -/

/-- After a run of calls that initialises only engines without means, a
completed `mAssignAll` establishes the law. -/
theorem assigned_to_nearest {numArgs : UInt16} {ops : List (Op T)} {k k' : KMeans T}
    (hrun : run step (new numArgs) ops = some k) (hdim : EveryStep step InDimension (new numArgs) ops)
    (hinit : EveryStep step FirstInitialise (new numArgs) ops) (h : k.mAssignAll = (.ok (), k')) :
    AssignmentLaw k' := by
  have hlaw := mAssignAll_law (shaped_of_run hrun hdim hinit).labelled (congrArg Prod.fst h)
  rwa [h] at hlaw

end Law

/-- Two means from two points, a third point, and a round. -/
def oneInitialise : List (Op ℚ) :=
  [.submit [0], .submit [10], .initialise 2 .reverse, .submit [8], .assignAll, .updateMeans]

theorem oneInitialise_nearest : ∃ k k', run step (new 1) oneInitialise = some k ∧
    k.mAssignAll = (.ok (), k') ∧ AssignmentLaw k' := by
  have hrun : (run step (new 1) oneInitialise).map (·.mAssignAll.1) = some (.ok ()) := by decide +kernel
  obtain ⟨k, hk, hok⟩ := Option.map_eq_some_iff.1 hrun
  exact ⟨k, _, hk, Prod.ext hok rfl,
    assigned_to_nearest hk (by decide +kernel) (by decide +kernel) (Prod.ext hok rfl)⟩

/-! ## Two initialisations -/

/-- One mean from the point 0, then two more from 10 and 0: the labels are 0, 0, 1. -/
def twoInitialises : List (Op ℚ) :=
  [.submit [0], .submit [10], .initialise 1 .id, .initialise 2 .reverse]

def mislabelled : KMeans ℚ :=
  { (KMeans.new 1 : KMeans ℚ) with
    m_PointVector := [⟨0, 0, [10], 1⟩, ⟨0, 0, [0], 0⟩]
    m_CurrentNumMeans := 2
    m_CurrentMeans := [⟨0, [0]⟩, ⟨0, [10]⟩, ⟨1, [0]⟩]
    m_PointIndex := 2
    m_Initialised := true
    m_NewSubmissionReady := true }

/-- The point 10 is assigned the label 0 of the mean 10, and measured to the
mean 0 at position 0. -/
theorem twoInitialises_not_nearest : run step (new 1) twoInitialises = some mislabelled ∧
    EveryStep step InDimension (new 1) twoInitialises ∧ mislabelled.mAssignAll.1 = .ok () ∧
    ¬ AssignmentLaw mislabelled.mAssignAll.2 := by
  refine ⟨by decide +kernel, by decide +kernel, by decide +kernel, ?_⟩
  intro h
  obtain ⟨-, -, -, hmin⟩ := h ⟨0, 10, [10], 1⟩ (by decide +kernel)
  obtain ⟨d, hd, hle⟩ := hmin ⟨0, [10]⟩ (by decide +kernel)
  have hzero : mCalculateEuclideanDistance (T := ℚ) ⟨0, 10, [10], 1⟩ ⟨0, [10]⟩ = .ok 0 := by decide +kernel
  rw [hzero, Except.ok.injEq] at hd
  rw [← hd] at hle
  exact absurd hle (by decide +kernel)

end ProtocolLearner.KMeans
