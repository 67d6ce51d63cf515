import ProtocolLearner.KMeans
/-!
# What each engine operation does

One lemma or two per function of `KMeans`: when it throws, what it returns,
what it leaves alone. Later modules use these and do not unfold the functions.
-/

namespace ProtocolLearner

/-- What the submission of a point fixed: its index and its vector. -/
def DataPoint.submission {T : Type} (p : DataPoint T) : UInt16 × List T := (p.m_Index, p.m_Vector)

@[simp] theorem DataPoint.submission_new {T : Type} [Scalar T] (v : List T) (i : UInt16) :
    (DataPoint.new v i).submission = (i, v) := rfl

namespace KMeans

variable {T : Type}

/-- The means carry the labels `0, 1, …` in order, as one `mInitialise` leaves them. -/
def Labelled (means : List (MeanPoint T)) : Prop :=
  ∀ (i : Nat) (l : UInt16), (means.map (·.m_Label))[i]? = some l → l.toNat = i

theorem Labelled.of_labels {means means' : List (MeanPoint T)} (h : Labelled means)
    (he : means'.map (·.m_Label) = means.map (·.m_Label)) : Labelled means' := by
  unfold Labelled
  rw [he]
  exact h

theorem Labelled.nil : Labelled ([] : List (MeanPoint T)) := by simp [Labelled]

theorem Labelled.of_getElem {means : List (MeanPoint T)} (h : Labelled means) {i : Nat} {m : MeanPoint T}
    (hm : means[i]? = some m) : m.m_Label.toNat = i :=
  h i m.m_Label (by simp [hm])

/-- A mean stands at the position its label says. -/
theorem Labelled.meanAt {means : List (MeanPoint T)} (h : Labelled means) {m : MeanPoint T} (hm : m ∈ means) :
    meanAt means m.m_Label = .ok m := by
  obtain ⟨i, hi⟩ := List.mem_iff_getElem?.1 hm
  simp [KMeans.meanAt, h.of_getElem hi, hi]

theorem Labelled.lt {means : List (MeanPoint T)} (h : Labelled means) {m : MeanPoint T} (hm : m ∈ means) :
    m.m_Label.toNat < means.length := by
  obtain ⟨i, hi⟩ := List.mem_iff_getElem?.1 hm
  rw [h.of_getElem hi]
  exact (List.getElem?_eq_some_iff.1 hi).1

theorem Labelled.inj {means : List (MeanPoint T)} (h : Labelled means) {m m' : MeanPoint T} (hm : m ∈ means)
    (hm' : m' ∈ means) (he : m.m_Label = m'.m_Label) : m = m' := by
  have h1 := h.meanAt hm
  rw [he, h.meanAt hm'] at h1
  exact (Except.ok.inj h1).symm

/-- The lookup by label finds the mean at that position. -/
theorem Labelled.extract {k : KMeans T} (h : Labelled k.m_CurrentMeans) {m : MeanPoint T}
    (hm : m ∈ k.m_CurrentMeans) : k.mExtractCurrentMeanBasedOnLabel m.m_Label = .ok m := by
  unfold mExtractCurrentMeanBasedOnLabel
  cases hf : k.m_CurrentMeans.find? (fun a => m.m_Label == a.m_Label) with
  | none => simpa using List.find?_eq_none.1 hf m hm
  | some m' =>
    have he : m.m_Label = m'.m_Label := by simpa using List.find?_some hf
    rw [h.inj hm (List.mem_of_find?_eq_some hf) he]

variable [Scalar T]

/-! ## Distances -/

/-- The distance `mCalculateEuclideanDistance` returns for a point with
coordinates `xs` and a mean with coordinates `ms`. -/
def distance (xs ms : List T) : T :=
  Scalar.sqrt ((List.zipWith Scalar.sub xs ms).foldl Scalar.addPow2 Scalar.zero)

theorem accDistance_eq {xs ms : List T} (h : xs.length ≤ ms.length) (acc : T) :
    accDistance acc xs ms = .ok ((List.zipWith Scalar.sub xs ms).foldl Scalar.addPow2 acc) := by
  induction xs generalizing acc ms with
  | nil => rfl
  | cons x xs ih =>
    cases ms with
    | nil => simp at h
    | cons m ms => exact ih (by simpa using h) _

theorem accDistance_short {xs ms : List T} (h : ms.length < xs.length) (acc : T) :
    accDistance acc xs ms = .error .outOfRange := by
  induction xs generalizing acc ms with
  | nil => simp at h
  | cons x xs ih =>
    cases ms with
    | nil => rfl
    | cons m ms => exact ih (by simpa using h) _

theorem mCalculateEuclideanDistance_eq {p : DataPoint T} {m : MeanPoint T}
    (h : p.m_Vector.length ≤ m.m_Vector.length) :
    mCalculateEuclideanDistance p m = .ok (distance p.m_Vector m.m_Vector) := by
  unfold mCalculateEuclideanDistance
  rw [accDistance_eq h]
  rfl

theorem mCalculateEuclideanDistance_short {p : DataPoint T} {m : MeanPoint T}
    (h : m.m_Vector.length < p.m_Vector.length) : mCalculateEuclideanDistance p m = .error .outOfRange := by
  unfold mCalculateEuclideanDistance
  rw [accDistance_short h]
  rfl

/-- Nothing is nearer to a point than a mean with the point's own coordinates. -/
theorem distance_self (xs ys ms : List T) : Scalar.less (distance ys ms) (distance xs xs) = false := by
  have h := Scalar.not_less_self xs (List.zipWith Scalar.sub ys ms)
  rwa [← List.zipWith_self] at h

/-! ## The nearest mean -/

theorem findNearestFrom_cons {p : DataPoint T} {m : MeanPoint T} (h : p.m_Vector.length ≤ m.m_Vector.length)
    (d : T) (l : UInt16) (ms : List (MeanPoint T)) :
    findNearestFrom p d l (m :: ms) =
      if Scalar.less (distance p.m_Vector m.m_Vector) d then
        findNearestFrom p (distance p.m_Vector m.m_Vector) m.m_Label ms
      else findNearestFrom p d l ms := by
  rw [findNearestFrom, mCalculateEuclideanDistance_eq h]
  rfl

theorem findNearestFrom_cons_short {p : DataPoint T} {m : MeanPoint T}
    (h : m.m_Vector.length < p.m_Vector.length) (d : T) (l : UInt16) (ms : List (MeanPoint T)) :
    findNearestFrom p d l (m :: ms) = .error .outOfRange := by
  unfold findNearestFrom
  rw [mCalculateEuclideanDistance_short h]
  rfl

theorem mFindNearestMean_cons {p : DataPoint T} {m : MeanPoint T} (h : p.m_Vector.length ≤ m.m_Vector.length)
    (ms : List (MeanPoint T)) :
    mFindNearestMean (m :: ms) p = findNearestFrom p (distance p.m_Vector m.m_Vector) m.m_Label ms := by
  rw [mFindNearestMean, mCalculateEuclideanDistance_eq h]
  rfl

theorem mFindNearestMean_cons_short {p : DataPoint T} {m : MeanPoint T}
    (h : m.m_Vector.length < p.m_Vector.length) (ms : List (MeanPoint T)) :
    mFindNearestMean (m :: ms) p = .error .outOfRange := by
  rw [mFindNearestMean, mCalculateEuclideanDistance_short h]
  rfl

theorem findNearestFrom_short {p : DataPoint T} {means : List (MeanPoint T)}
    (h : ∃ m ∈ means, m.m_Vector.length < p.m_Vector.length) (d : T) (l : UInt16) :
    findNearestFrom p d l means = .error .outOfRange := by
  induction means generalizing d l with
  | nil => simp at h
  | cons m ms ih =>
    by_cases hm : m.m_Vector.length < p.m_Vector.length
    · exact findNearestFrom_cons_short hm d l ms
    · have hms : ∃ m' ∈ ms, m'.m_Vector.length < p.m_Vector.length := by
        obtain ⟨m', hm', hlt⟩ := h
        rcases List.mem_cons.1 hm' with rfl | hm'
        · exact absurd hlt hm
        · exact ⟨m', hm', hlt⟩
      rw [findNearestFrom_cons (not_lt.1 hm)]
      split <;> exact ih hms _ _

theorem findNearestFrom_total {p : DataPoint T} {means : List (MeanPoint T)}
    (h : ∀ m ∈ means, p.m_Vector.length ≤ m.m_Vector.length) (d : T) (l : UInt16) :
    ∃ l', findNearestFrom p d l means = .ok l' := by
  induction means generalizing d l with
  | nil => exact ⟨l, rfl⟩
  | cons m ms ih =>
    rw [findNearestFrom_cons (h m List.mem_cons_self)]
    split <;> exact ih (fun m' hm' => h m' (List.mem_cons_of_mem _ hm')) _ _

theorem findNearestFrom_mem {p : DataPoint T} {means : List (MeanPoint T)} {d : T} {l l' : UInt16}
    (h : findNearestFrom p d l means = .ok l') : l' = l ∨ ∃ m ∈ means, m.m_Label = l' := by
  induction means generalizing d l with
  | nil => cases h; exact .inl rfl
  | cons m ms ih =>
    by_cases hm : m.m_Vector.length < p.m_Vector.length
    · rw [findNearestFrom_cons_short hm] at h
      cases h
    · rw [findNearestFrom_cons (not_lt.1 hm)] at h
      split at h
      · rcases ih h with rfl | ⟨m', hm', he⟩
        · exact .inr ⟨m, List.mem_cons_self, rfl⟩
        · exact .inr ⟨m', List.mem_cons_of_mem _ hm', he⟩
      · rcases ih h with rfl | ⟨m', hm', he⟩
        · exact .inl rfl
        · exact .inr ⟨m', List.mem_cons_of_mem _ hm', he⟩

/-- A running minimum that nothing is less than stays. -/
theorem findNearestFrom_keep {p : DataPoint T} {means : List (MeanPoint T)} {d : T} {l : UInt16}
    (hlen : ∀ m ∈ means, p.m_Vector.length ≤ m.m_Vector.length)
    (hd : ∀ m ∈ means, Scalar.less (distance p.m_Vector m.m_Vector) d = false) :
    findNearestFrom p d l means = .ok l := by
  induction means with
  | nil => rfl
  | cons m ms ih =>
    rw [findNearestFrom_cons (hlen m List.mem_cons_self), hd m List.mem_cons_self]
    exact ih (fun m' h' => hlen m' (List.mem_cons_of_mem _ h')) (fun m' h' => hd m' (List.mem_cons_of_mem _ h'))

theorem mFindNearestMean_total {means : List (MeanPoint T)} {p : DataPoint T} (hne : means ≠ [])
    (h : ∀ m ∈ means, p.m_Vector.length ≤ m.m_Vector.length) : ∃ l, mFindNearestMean means p = .ok l := by
  cases means with
  | nil => exact absurd rfl hne
  | cons m ms =>
    rw [mFindNearestMean_cons (h m List.mem_cons_self)]
    exact findNearestFrom_total (fun m' hm' => h m' (List.mem_cons_of_mem _ hm')) _ _

theorem mFindNearestMean_short {means : List (MeanPoint T)} {p : DataPoint T}
    (h : ∃ m ∈ means, m.m_Vector.length < p.m_Vector.length) :
    mFindNearestMean means p = .error .outOfRange := by
  cases means with
  | nil => simp at h
  | cons m ms =>
    by_cases hm : m.m_Vector.length < p.m_Vector.length
    · exact mFindNearestMean_cons_short hm ms
    · rw [mFindNearestMean_cons (not_lt.1 hm)]
      obtain ⟨m', hm', hlt⟩ := h
      rcases List.mem_cons.1 hm' with rfl | hm'
      · exact absurd hlt hm
      · exact findNearestFrom_short ⟨m', hm', hlt⟩ _ _

/-- A label it returns comes with means that are all long enough. -/
theorem mFindNearestMean_ok {means : List (MeanPoint T)} {p : DataPoint T} {l : UInt16}
    (h : mFindNearestMean means p = .ok l) :
    (∃ m ∈ means, m.m_Label = l) ∧ ∀ m ∈ means, p.m_Vector.length ≤ m.m_Vector.length := by
  have hlen : ∀ m ∈ means, p.m_Vector.length ≤ m.m_Vector.length := by
    intro m hm
    by_contra hlt
    rw [mFindNearestMean_short ⟨m, hm, not_le.1 hlt⟩] at h
    cases h
  refine ⟨?_, hlen⟩
  cases means with
  | nil => cases h
  | cons m ms =>
    rw [mFindNearestMean_cons (hlen m List.mem_cons_self)] at h
    rcases findNearestFrom_mem h with rfl | ⟨m', hm', he⟩
    · exact ⟨m, List.mem_cons_self, rfl⟩
    · exact ⟨m', List.mem_cons_of_mem _ hm', he⟩

/-! ## Assigning -/

/-- What a completed `mAssignAll` does to one point. -/
structure Assigned (means : List (MeanPoint T)) (p p' : DataPoint T) : Prop where
  submission : p'.submission = p.submission
  nearest : mFindNearestMean means p = .ok p'.m_MeanIndex
  measured : ∃ m, meanAt means p'.m_MeanIndex = .ok m ∧
    mCalculateEuclideanDistance p m = .ok p'.m_EuclideanDistanceFromAssignedMean

theorem assignLoop_ok {means : List (MeanPoint T)} {ps : List (DataPoint T)}
    (h : (assignLoop means ps).1 = .ok ()) : List.Forall₂ (Assigned means) ps (assignLoop means ps).2 := by
  induction ps with
  | nil => exact .nil
  | cons p ps ih =>
    rw [assignLoop] at h ⊢
    cases hl : mFindNearestMean means p with
    | error e => simp [hl] at h
    | ok l =>
      cases hm : meanAt means l with
      | error e => simp [hl, hm, bind, Except.bind] at h
      | ok m =>
        cases hd : mCalculateEuclideanDistance { p with m_MeanIndex := l } m with
        | error e => simp [hl, hm, hd, bind, Except.bind] at h
        | ok d =>
          simp only [hl, hm, hd, bind, Except.bind] at h ⊢
          exact .cons ⟨rfl, hl, m, hm, hd⟩ (ih h)

/-- Every point a completed `mAssignAll` leaves is a point from before, assigned. -/
theorem Assigned.of_mem {means : List (MeanPoint T)} {ps : List (DataPoint T)}
    (h : (assignLoop means ps).1 = .ok ()) {p' : DataPoint T} (hp' : p' ∈ (assignLoop means ps).2) :
    ∃ p ∈ ps, Assigned means p p' := by
  obtain ⟨i, hi, rfl⟩ := List.mem_iff_getElem.1 hp'
  obtain ⟨hlen, hget⟩ := List.forall₂_iff_get.1 (assignLoop_ok h)
  exact ⟨ps[i], List.getElem_mem (hlen ▸ hi), hget i (hlen ▸ hi) hi⟩

/-- And every point from before is among them, assigned. -/
theorem Assigned.exists_mem {means : List (MeanPoint T)} {ps : List (DataPoint T)}
    (h : (assignLoop means ps).1 = .ok ()) {p : DataPoint T} (hp : p ∈ ps) :
    ∃ p' ∈ (assignLoop means ps).2, Assigned means p p' := by
  obtain ⟨i, hi, rfl⟩ := List.mem_iff_getElem.1 hp
  obtain ⟨hlen, hget⟩ := List.forall₂_iff_get.1 (assignLoop_ok h)
  exact ⟨_, List.getElem_mem (hlen ▸ hi), hget i hi (hlen ▸ hi)⟩

/-- `mAssignAll` changes no submission, whether it completes or not. -/
theorem assignLoop_submissions (means : List (MeanPoint T)) (ps : List (DataPoint T)) :
    (assignLoop means ps).2.map DataPoint.submission = ps.map DataPoint.submission := by
  induction ps with
  | nil => rfl
  | cons p ps ih =>
    rw [assignLoop]
    split
    · rfl
    · dsimp only
      split
      · rfl
      · rw [List.map_cons, ih]
        rfl

/-- Every index after `mAssignAll` was there before or is a mean's label. -/
theorem assignLoop_index (Q : UInt16 → Prop) {means : List (MeanPoint T)} {ps : List (DataPoint T)}
    (hm : ∀ m ∈ means, Q m.m_Label) (hp : ∀ p ∈ ps, Q p.m_MeanIndex) :
    ∀ p ∈ (assignLoop means ps).2, Q p.m_MeanIndex := by
  induction ps with
  | nil => simp [assignLoop]
  | cons p ps ih =>
    rw [List.forall_mem_cons] at hp
    rw [assignLoop]
    cases hl : mFindNearestMean means p with
    | error e => simpa using hp
    | ok l =>
      obtain ⟨⟨m, hmem, rfl⟩, -⟩ := mFindNearestMean_ok hl
      have hlabel := hm m hmem
      dsimp only
      split
      · exact List.forall_mem_cons.2 ⟨hlabel, hp.2⟩
      · exact List.forall_mem_cons.2 ⟨hlabel, ih hp.2⟩

/-- One turn of the loop that finds a nearest mean: with labelled means the distance can be taken. -/
theorem assignLoop_cons {means : List (MeanPoint T)} (hl : Labelled means) {p : DataPoint T} {m : MeanPoint T}
    (hm : m ∈ means) (hfind : mFindNearestMean means p = .ok m.m_Label) (ps : List (DataPoint T)) :
    assignLoop means (p :: ps) = ((assignLoop means ps).1, { p with
      m_MeanIndex := m.m_Label
      m_EuclideanDistanceFromAssignedMean := distance p.m_Vector m.m_Vector } :: (assignLoop means ps).2) := by
  have hdist : mCalculateEuclideanDistance { p with m_MeanIndex := m.m_Label } m =
      .ok (distance p.m_Vector m.m_Vector) := mCalculateEuclideanDistance_eq ((mFindNearestMean_ok hfind).2 m hm)
  rw [assignLoop]
  simp only [hfind, hl.meanAt hm, bind, Except.bind, hdist]

/-- With labelled means, none of them shorter than a point, `mAssignAll` completes. -/
theorem assignLoop_total {means : List (MeanPoint T)} (hne : means ≠ []) (hl : Labelled means)
    {ps : List (DataPoint T)} (h : ∀ p ∈ ps, ∀ m ∈ means, p.m_Vector.length ≤ m.m_Vector.length) :
    (assignLoop means ps).1 = .ok () := by
  induction ps with
  | nil => rfl
  | cons p ps ih =>
    rw [List.forall_mem_cons] at h
    obtain ⟨l, hfind⟩ := mFindNearestMean_total hne h.1
    obtain ⟨⟨m, hm, rfl⟩, -⟩ := mFindNearestMean_ok hfind
    rw [assignLoop_cons hl hm hfind]
    exact ih h.2

/-- With labelled means `mAssignAll` throws exactly if a mean is shorter than a point. -/
theorem assignLoop_ok_iff {means : List (MeanPoint T)} (hne : means ≠ []) (hl : Labelled means)
    {ps : List (DataPoint T)} : (assignLoop means ps).1 = .ok () ↔
      ∀ p ∈ ps, ∀ m ∈ means, p.m_Vector.length ≤ m.m_Vector.length := by
  refine ⟨fun h p hp => ?_, assignLoop_total hne hl⟩
  obtain ⟨p', -, hassigned⟩ := Assigned.exists_mem h hp
  exact (mFindNearestMean_ok hassigned.nearest).2

/-- With labelled means, all `mAssignAll` can throw is `out_of_range`. -/
theorem assignLoop_error {means : List (MeanPoint T)} (hne : means ≠ []) (hl : Labelled means)
    (ps : List (DataPoint T)) : (assignLoop means ps).1 = .ok () ∨ (assignLoop means ps).1 = .error .outOfRange := by
  induction ps with
  | nil => exact .inl rfl
  | cons p ps ih =>
    by_cases hshort : ∃ m ∈ means, m.m_Vector.length < p.m_Vector.length
    · unfold assignLoop
      rw [mFindNearestMean_short hshort]
      exact .inr rfl
    · have hlen : ∀ m ∈ means, p.m_Vector.length ≤ m.m_Vector.length := by
        intro m hm
        exact not_lt.1 fun hlt => hshort ⟨m, hm, hlt⟩
      obtain ⟨l, hfind⟩ := mFindNearestMean_total hne hlen
      obtain ⟨⟨m, hm, rfl⟩, -⟩ := mFindNearestMean_ok hfind
      rw [assignLoop_cons hl hm hfind]
      exact ih

/-! ## Updating -/

/-- The points whose group is `l`. -/
def group (l : UInt16) (ps : List (DataPoint T)) : List (DataPoint T) := ps.filter fun p => p.m_MeanIndex == l

omit [Scalar T] in
theorem mem_group {l : UInt16} {ps : List (DataPoint T)} {p : DataPoint T} :
    p ∈ group l ps ↔ p ∈ ps ∧ p.m_MeanIndex = l := by
  simp [group]

/-- No group is counted to zero, in 16 bits. -/
def NoZeroDivisor (k : KMeans T) : Prop :=
  ∀ m ∈ k.m_CurrentMeans, UInt16.ofNat (group m.m_Label k.m_PointVector).length ≠ 0

instance (k : KMeans T) : Decidable (NoZeroDivisor k) :=
  inferInstanceAs (Decidable (∀ m ∈ k.m_CurrentMeans, UInt16.ofNat (group m.m_Label k.m_PointVector).length ≠ 0))

/-- Every mean has a point assigned to it. -/
def GroupsOccupied (k : KMeans T) : Prop := ∀ m ∈ k.m_CurrentMeans, group m.m_Label k.m_PointVector ≠ []

instance (k : KMeans T) : Decidable (GroupsOccupied k) :=
  inferInstanceAs (Decidable (∀ m ∈ k.m_CurrentMeans, group m.m_Label k.m_PointVector ≠ []))

omit [Scalar T] in
theorem forall_group {P : DataPoint T → Prop} {ps : List (DataPoint T)} (h : ∀ p ∈ ps, P p) (l : UInt16) :
    ∀ p ∈ group l ps, P p := by
  intro p hp
  exact h p (mem_group.1 hp).1

theorem ofNat_eq_zero_iff {n : Nat} : UInt16.ofNat n = 0 ↔ n % 2 ^ 16 = 0 := by
  rw [← UInt16.toNat_inj, UInt16.toNat_ofNat']
  rfl

omit [Scalar T] in
/-- A group with members, and few enough for 16 bits, is not counted to zero. -/
theorem GroupsOccupied.noZeroDivisor {k : KMeans T} (h : GroupsOccupied k) (hn : k.m_PointVector.length ≤ 65535) :
    NoZeroDivisor k := by
  intro m hm hzero
  have hpos := List.length_pos_iff.2 (h m hm)
  have hle : (group m.m_Label k.m_PointVector).length ≤ k.m_PointVector.length := List.length_filter_le _ _
  rw [ofNat_eq_zero_iff] at hzero
  omega

theorem addCoordinates_eq {as xs : List T} (h : as.length ≤ xs.length) :
    addCoordinates as xs = .ok (List.zipWith Scalar.add as xs) := by
  induction as generalizing xs with
  | nil => rfl
  | cons a as ih =>
    cases xs with
    | nil => simp at h
    | cons x xs =>
      unfold addCoordinates
      rw [ih (by simpa using h)]
      rfl

theorem addCoordinates_short {as xs : List T} (h : xs.length < as.length) :
    addCoordinates as xs = .error .outOfRange := by
  induction as generalizing xs with
  | nil => simp at h
  | cons a as ih =>
    cases xs with
    | nil => rfl
    | cons x xs =>
      rw [addCoordinates, ih (by simpa using h)]
      rfl

/-- The running sum of the coordinates of the points `ps`. -/
def sumCoordinates (acc : List T) (ps : List (DataPoint T)) : List T :=
  ps.foldl (fun acc p => List.zipWith Scalar.add acc p.m_Vector) acc

theorem sumCoordinates_length {acc : List T} {ps : List (DataPoint T)}
    (h : ∀ p ∈ ps, acc.length ≤ p.m_Vector.length) : (sumCoordinates acc ps).length = acc.length := by
  induction ps generalizing acc with
  | nil => rfl
  | cons p ps ih =>
    rw [List.forall_mem_cons] at h
    have hzip : (List.zipWith Scalar.add acc p.m_Vector).length = acc.length := by simpa using h.1
    unfold sumCoordinates
    rw [List.foldl_cons, ← sumCoordinates, ih (by simpa [hzip] using h.2), hzip]

theorem gatherGroup_eq {l : UInt16} {acc : List T} {ps : List (DataPoint T)}
    (h : ∀ p ∈ group l ps, acc.length ≤ p.m_Vector.length) (n : UInt16) :
    gatherGroup l acc n ps = .ok (sumCoordinates acc (group l ps), n + UInt16.ofNat (group l ps).length) := by
  induction ps generalizing acc n with
  | nil => simp [gatherGroup, group, sumCoordinates]
  | cons p ps ih =>
    rw [gatherGroup]
    by_cases hp : p.m_MeanIndex = l
    · have hg : group l (p :: ps) = p :: group l ps := by simp [group, hp]
      rw [hg, List.forall_mem_cons] at h
      have hzip : (List.zipWith Scalar.add acc p.m_Vector).length = acc.length := by simpa using h.1
      have hn : n + 1 + UInt16.ofNat (group l ps).length = n + UInt16.ofNat ((group l ps).length + 1) := by
        rw [UInt16.ofNat_add, UInt16.add_assoc, UInt16.add_comm 1]
        rfl
      simp only [hp, beq_self_eq_true, if_true, addCoordinates_eq h.1, bind, Except.bind]
      rw [ih (by simpa [hzip] using h.2), hg, List.length_cons, hn]
      rfl
    · have hg : group l (p :: ps) = group l ps := by simp [group, hp]
      simp only [beq_iff_eq, hp, if_false]
      rw [hg] at h ⊢
      exact ih h n

theorem gatherGroup_short {l : UInt16} {acc : List T} {ps : List (DataPoint T)}
    (h : ∃ p ∈ group l ps, p.m_Vector.length < acc.length) (n : UInt16) :
    gatherGroup l acc n ps = .error .outOfRange := by
  induction ps generalizing acc n with
  | nil => simp [group] at h
  | cons p ps ih =>
    rw [gatherGroup]
    by_cases hp : p.m_MeanIndex = l
    · have hg : group l (p :: ps) = p :: group l ps := by simp [group, hp]
      simp only [hp, beq_self_eq_true, if_true]
      rcases lt_or_ge p.m_Vector.length acc.length with hlt | hge
      · rw [addCoordinates_short hlt]
        rfl
      · have hzip : (List.zipWith Scalar.add acc p.m_Vector).length = acc.length := by simpa using hge
        rw [addCoordinates_eq hge]
        refine ih ?_ _
        obtain ⟨q, hq, hlt⟩ := h
        rw [hg, List.mem_cons] at hq
        rcases hq with rfl | hq
        · omega
        · exact ⟨q, hq, by omega⟩
    · have hg : group l (p :: ps) = group l ps := by simp [group, hp]
      simp only [beq_iff_eq, hp, if_false]
      exact ih (hg ▸ h) n

/-- What `mUpdateMeans` puts in a mean whose group is `ps`: the sum of the
coordinates over the 16-bit member count. -/
def centroid (numArgs : UInt16) (ps : List (DataPoint T)) : List T :=
  (sumCoordinates (List.replicate numArgs.toNat Scalar.zero) ps).map
    (Scalar.div · (Scalar.ofCount (UInt16.ofNat ps.length)))

theorem centroid_length {numArgs : UInt16} {ps : List (DataPoint T)}
    (h : ∀ p ∈ ps, numArgs.toNat ≤ p.m_Vector.length) : (centroid numArgs ps).length = numArgs.toNat := by
  unfold centroid
  rw [List.length_map, sumCoordinates_length (by simpa using h), List.length_replicate]

theorem updateMean_eq {numArgs : UInt16} {ps : List (DataPoint T)} {m : MeanPoint T}
    (h : ∀ p ∈ group m.m_Label ps, numArgs.toNat ≤ p.m_Vector.length) :
    updateMean numArgs ps m = .ok { m with m_Vector := centroid numArgs (group m.m_Label ps) } := by
  unfold updateMean
  rw [gatherGroup_eq (by simpa using h), UInt16.zero_add]
  rfl

theorem updateMean_short {numArgs : UInt16} {ps : List (DataPoint T)} {m : MeanPoint T}
    (h : ∃ p ∈ group m.m_Label ps, p.m_Vector.length < numArgs.toNat) :
    updateMean numArgs ps m = .error .outOfRange := by
  unfold updateMean
  rw [gatherGroup_short (by simpa using h)]
  rfl

theorem updateLoop_eq {numArgs : UInt16} {ps : List (DataPoint T)} {means : List (MeanPoint T)}
    (h : ∀ m ∈ means, ∀ p ∈ group m.m_Label ps, numArgs.toNat ≤ p.m_Vector.length) :
    updateLoop numArgs ps means =
      (.ok (), means.map fun m => { m with m_Vector := centroid numArgs (group m.m_Label ps) }) := by
  induction means with
  | nil => rfl
  | cons m ms ih =>
    rw [List.forall_mem_cons] at h
    unfold updateLoop
    rw [updateMean_eq h.1, ih h.2]
    rfl

theorem updateLoop_short {numArgs : UInt16} {ps : List (DataPoint T)} {means : List (MeanPoint T)}
    (h : ∃ m ∈ means, ∃ p ∈ group m.m_Label ps, p.m_Vector.length < numArgs.toNat) :
    (updateLoop numArgs ps means).1 = .error .outOfRange := by
  induction means with
  | nil => simp at h
  | cons m ms ih =>
    rw [updateLoop]
    by_cases hm : ∃ p ∈ group m.m_Label ps, p.m_Vector.length < numArgs.toNat
    · rw [updateMean_short hm]
    · have hlen : ∀ p ∈ group m.m_Label ps, numArgs.toNat ≤ p.m_Vector.length := by
        intro p hp
        exact not_lt.1 fun hlt => hm ⟨p, hp, hlt⟩
      rw [updateMean_eq hlen]
      obtain ⟨m', hm', hp⟩ := h
      rcases List.mem_cons.1 hm' with rfl | hm'
      · exact absurd hp hm
      · exact ih ⟨m', hm', hp⟩

/-- `mUpdateMeans` throws exactly if a point that a mean's label finds is too short. -/
theorem updateLoop_ok_iff {numArgs : UInt16} {ps : List (DataPoint T)} {means : List (MeanPoint T)} :
    (updateLoop numArgs ps means).1 = .ok () ↔
      ∀ m ∈ means, ∀ p ∈ group m.m_Label ps, numArgs.toNat ≤ p.m_Vector.length := by
  constructor
  · intro h
    by_contra! hshort
    rw [updateLoop_short hshort] at h
    cases h
  · intro h
    rw [updateLoop_eq h]

/-- `mUpdateMeans` relabels nothing, whether it completes or not. -/
theorem updateLoop_labels (numArgs : UInt16) (ps : List (DataPoint T)) (means : List (MeanPoint T)) :
    (updateLoop numArgs ps means).2.map (·.m_Label) = means.map (·.m_Label) := by
  induction means with
  | nil => rfl
  | cons m ms ih =>
    rw [updateLoop]
    cases hm : updateMean numArgs ps m with
    | error e => rfl
    | ok m' =>
      have hlabel : m'.m_Label = m.m_Label := by
        rw [updateMean] at hm
        cases hg : gatherGroup m.m_Label (List.replicate numArgs.toNat Scalar.zero) 0 ps with
        | error e => simp [hg, bind, Except.bind] at hm
        | ok r => simp only [hg, bind, Except.bind, Except.ok.injEq] at hm; rw [← hm]
      rw [List.map_cons, ih, hlabel]
      rfl

/-! ## Initialising -/

omit [Scalar T]

/-- The means a successful `mInitialise` appends: copies of the first points. -/
def initialMeans (ps : List (DataPoint T)) (n : Nat) : List (MeanPoint T) :=
  (ps.take n).mapIdx fun i p => ⟨UInt16.ofNat i, p.m_Vector⟩

theorem emplaceMeans_eq {ps : List (DataPoint T)} {n : Nat} {lMean : UInt16} (h : lMean.toNat + n ≤ ps.length)
    (hw : lMean.toNat + n < 2 ^ 16) (means : List (MeanPoint T)) :
    emplaceMeans ps n lMean means = (.ok (), means ++
      ((ps.drop lMean.toNat).take n).mapIdx fun i p => ⟨UInt16.ofNat (lMean.toNat + i), p.m_Vector⟩) := by
  induction n generalizing lMean means with
  | zero => simp [emplaceMeans]
  | succ n ih =>
    have hlt : lMean.toNat < ps.length := by omega
    have hsucc : (lMean + 1).toNat = lMean.toNat + 1 := by
      rw [UInt16.toNat_add]
      exact Nat.mod_eq_of_lt (by simp; omega)
    unfold emplaceMeans
    rw [List.getElem?_eq_getElem hlt]
    dsimp only
    rw [ih (by omega) (by omega), hsucc, List.drop_eq_getElem_cons hlt, List.take_succ_cons, List.mapIdx_cons,
      List.append_assoc, List.singleton_append]
    simp only [Nat.add_zero, UInt16.ofNat_toNat, Nat.add_assoc, Nat.add_comm 1]

theorem mInitialise_short {n : UInt16} {k : KMeans T} (h : k.m_PointVector.length < n.toNat)
    (σ : Shuffle (DataPoint T)) : mInitialise n σ k = (.error .exceptionPointer, { k with m_CurrentNumMeans := n }) := by
  unfold mInitialise
  rw [if_pos h]

theorem mInitialise_eq {n : UInt16} {k : KMeans T} (h : n.toNat ≤ k.m_PointVector.length)
    (σ : Shuffle (DataPoint T)) : mInitialise n σ k = (.ok (), { k with
      m_CurrentNumMeans := n
      m_PointVector := σ.run k.m_PointVector
      m_CurrentMeans := k.m_CurrentMeans ++ initialMeans (σ.run k.m_PointVector) n.toNat
      m_Initialised := true }) := by
  have hlen : (σ.run k.m_PointVector).length = k.m_PointVector.length := (σ.perm _).length_eq
  have hw : (0 : UInt16).toNat + n.toNat < 2 ^ 16 := by have := n.toNat_lt; simp; omega
  unfold mInitialise
  rw [if_neg (not_lt.2 h)]
  dsimp only
  rw [emplaceMeans_eq (by simp [hlen]; exact h) hw]
  simp [initialMeans]

@[simp] theorem initialMeans_length (ps : List (DataPoint T)) (n : Nat) :
    (initialMeans ps n).length = min n ps.length := by
  simp [initialMeans]

theorem initialMeans_labelled (ps : List (DataPoint T)) {n : Nat} (hn : n < 2 ^ 16) :
    Labelled (initialMeans ps n) := by
  intro i l h
  simp only [initialMeans, List.getElem?_map, List.getElem?_mapIdx, List.getElem?_take] at h
  split at h
  · next hi =>
    cases hp : ps[i]? with
    | none => simp [hp] at h
    | some p =>
      simp only [hp, Option.map_some, Option.some.injEq] at h
      rw [← h, UInt16.toNat_ofNat']
      exact Nat.mod_eq_of_lt (by omega)
  · simp at h

/-- Each of these means has the coordinates of a stored point. -/
theorem initialMeans_vector {ps : List (DataPoint T)} {n : Nat} {m : MeanPoint T} (h : m ∈ initialMeans ps n) :
    ∃ p ∈ ps, m.m_Vector = p.m_Vector := by
  obtain ⟨i, hi, rfl⟩ := List.mem_mapIdx.1 h
  exact ⟨_, List.mem_of_mem_take (List.getElem_mem hi), rfl⟩

/-! ## Calls -/

/-- What the clustering calls leave alone: the submissions, up to their order,
and everything that is not about points and means. -/
structure Untouched (k k' : KMeans T) : Prop where
  submissions : (k'.m_PointVector.map DataPoint.submission).Perm (k.m_PointVector.map DataPoint.submission)
  numArgs : k'.m_NumArgs = k.m_NumArgs
  pointIndex : k'.m_PointIndex = k.m_PointIndex
  ready : k'.m_NewSubmissionReady = k.m_NewSubmissionReady
  stop : k'.m_StopThread = k.m_StopThread

theorem Untouched.refl (k : KMeans T) : Untouched k k := ⟨.refl _, rfl, rfl, rfl, rfl⟩

theorem Untouched.trans {k₁ k₂ k₃ : KMeans T} (h : Untouched k₁ k₂) (h' : Untouched k₂ k₃) : Untouched k₁ k₃ :=
  ⟨h'.submissions.trans h.submissions, h'.numArgs.trans h.numArgs, h'.pointIndex.trans h.pointIndex,
    h'.ready.trans h.ready, h'.stop.trans h.stop⟩

theorem Untouched.length {k k' : KMeans T} (h : Untouched k k') :
    k'.m_PointVector.length = k.m_PointVector.length := by
  simpa using h.submissions.length_eq

theorem Untouched.vectors {k k' : KMeans T} (h : Untouched k k') :
    (k'.m_PointVector.map (·.m_Vector)).Perm (k.m_PointVector.map (·.m_Vector)) := by
  have := h.submissions.map Prod.snd
  rwa [List.map_map, List.map_map] at this

/-- Every point of the later engine is an earlier one, up to its assignment. -/
theorem Untouched.mem {k k' : KMeans T} (h : Untouched k k') {p : DataPoint T} (hp : p ∈ k'.m_PointVector) :
    ∃ q ∈ k.m_PointVector, q.m_Vector = p.m_Vector := by
  have hmem := h.vectors.subset (List.mem_map_of_mem hp)
  exact List.mem_map.1 hmem

theorem Untouched.forall_vector {k k' : KMeans T} (h : Untouched k k') (P : List T → Prop) :
    (∀ p ∈ k'.m_PointVector, P p.m_Vector) ↔ ∀ p ∈ k.m_PointVector, P p.m_Vector := by
  rw [← List.forall_mem_map (P := P) (f := DataPoint.m_Vector), ← List.forall_mem_map (P := P) (f := DataPoint.m_Vector)]
  exact forall_congr' fun v => imp_congr_left h.vectors.mem_iff

/-- A shuffle, failed or not, only reorders the points. -/
theorem mInitialise_untouched (n : UInt16) (σ : Shuffle (DataPoint T)) (k : KMeans T) :
    Untouched k (k.mInitialise n σ).2 := by
  rcases lt_or_ge k.m_PointVector.length n.toNat with h | h
  · rw [mInitialise_short h]
    exact ⟨.refl _, rfl, rfl, rfl, rfl⟩
  · rw [mInitialise_eq h]
    exact ⟨(σ.perm _).map _, rfl, rfl, rfl, rfl⟩

theorem mAssignAll_untouched [Scalar T] (k : KMeans T) : Untouched k k.mAssignAll.2 :=
  ⟨.of_eq (assignLoop_submissions _ _), rfl, rfl, rfl, rfl⟩

/-- With points of at least `m_NumArgs` coordinates `mUpdateMeans` completes. -/
theorem mUpdateMeans_eq [Scalar T] {k : KMeans T}
    (h : ∀ p ∈ k.m_PointVector, k.m_NumArgs.toNat ≤ p.m_Vector.length) : k.mUpdateMeans = (.ok (), { k with
      m_CurrentMeans := k.m_CurrentMeans.map fun m =>
        { m with m_Vector := centroid k.m_NumArgs (group m.m_Label k.m_PointVector) } }) := by
  unfold mUpdateMeans
  rw [updateLoop_eq fun m _ => forall_group h m.m_Label]

/-- After an update that completes every mean has `m_NumArgs` coordinates. -/
theorem mUpdateMeans_width [Scalar T] {k : KMeans T}
    (h : ∀ p ∈ k.m_PointVector, k.m_NumArgs.toNat ≤ p.m_Vector.length) :
    ∀ m ∈ k.mUpdateMeans.2.m_CurrentMeans, m.m_Vector.length = k.m_NumArgs.toNat := by
  intro m' hm'
  rw [mUpdateMeans_eq h] at hm'
  obtain ⟨m, -, rfl⟩ := List.mem_map.1 hm'
  exact centroid_length (forall_group h m.m_Label)

theorem mUpdateMeans_untouched [Scalar T] (k : KMeans T) : Untouched k k.mUpdateMeans.2 :=
  ⟨.refl _, rfl, rfl, rfl, rfl⟩

theorem mUpdateMeans_labels [Scalar T] (k : KMeans T) :
    k.mUpdateMeans.2.m_CurrentMeans.map (·.m_Label) = k.m_CurrentMeans.map (·.m_Label) :=
  updateLoop_labels _ _ _

theorem mUpdateMeans_length [Scalar T] (k : KMeans T) :
    k.mUpdateMeans.2.m_CurrentMeans.length = k.m_CurrentMeans.length := by
  simpa using congrArg List.length (mUpdateMeans_labels k)

/-- A call's next engine is what the call left behind, and the call was defined. -/
theorem step_some [Scalar T] {k k' : KMeans T} {op : Op T} (h : k.step op = some k') :
    k' = (k.call op).2 ∧ (k.call op).1 ≠ .error .undefined := by
  unfold step at h
  split at h
  · cases h
  · next r k₁ hne hr =>
    rw [hr]
    exact ⟨(Option.some.inj h).symm, fun he => hne he⟩

theorem step_numArgs [Scalar T] {k k' : KMeans T} {op : Op T} (h : k.step op = some k') :
    k'.m_NumArgs = k.m_NumArgs := by
  obtain ⟨rfl, -⟩ := step_some h
  cases op with
  | submit v => rfl
  | initialise n σ => exact (mInitialise_untouched n σ k).numArgs
  | assignAll => rfl
  | updateMeans => rfl

end KMeans

end ProtocolLearner
