import Mathlib.Algebra.BigOperators.Fin
import Mathlib.Data.List.GetD
import ProtocolLearner.Assignment
import ProtocolLearner.Lib.Lloyd
/-!
# Repeated rounds

Without further submissions, repeating `mAssignAll(); mUpdateMeans();` in exact
arithmetic is Lloyd's iteration (`LloydReady.lloyd_round`). So the engine
reaches a state that no further round changes, and never comes back to a state
it has left.

A mean without points is divided by zero. The result is left open, but it is
the same every time, so it serves as the fallback of `Lloyd.Centroid`.
-/

namespace ProtocolLearner.KMeans

open Machine

/-! ## Rounds -/

section Rounds
variable {T : Type} [Scalar T]

/-- `mAssignAll(); mUpdateMeans();` -/
def round (k : KMeans T) : Except Exn Unit × KMeans T :=
  match k.mAssignAll with
  | (.error e, k') => (.error e, k')
  | (.ok (), k') => k'.mUpdateMeans

def rounds (n : Nat) (k : KMeans T) : KMeans T := (fun k => (round k).2)^[n] k

theorem rounds_succ (n : Nat) (k : KMeans T) : rounds (n + 1) k = (round (rounds n k)).2 :=
  Function.iterate_succ_apply' _ n k

/-- A round that completes is `mAssignAll` and then `mUpdateMeans`. -/
theorem round_ok_iff {k : KMeans T} : (round k).1 = .ok () ↔
    k.mAssignAll.1 = .ok () ∧ k.mAssignAll.2.mUpdateMeans.1 = .ok () := by
  unfold round
  rcases hk : k.mAssignAll with ⟨r, k'⟩
  cases r with
  | error e => simp
  | ok u => simp

theorem round_of_assigned {k : KMeans T} (h : k.mAssignAll.1 = .ok ()) : round k = k.mAssignAll.2.mUpdateMeans := by
  have hassign : k.mAssignAll = (.ok (), k.mAssignAll.2) := Prod.ext h rfl
  unfold round
  rw [hassign]

omit [Scalar T] in
/-- A shaped engine with means, and a number of points that 16 bits can count. -/
structure LloydReady (k : KMeans T) : Prop where
  shaped : Shaped k
  means : k.m_CurrentMeans ≠ []
  points : k.m_PointVector.length ≤ 65535

omit [Scalar T] in
/-- `k'` is `k` but for the assignment of the points and the vectors of the means. -/
structure Regrouped (k k' : KMeans T) : Prop where
  rest : k' = { k with m_PointVector := k'.m_PointVector, m_CurrentMeans := k'.m_CurrentMeans }
  submissions : k'.m_PointVector.map DataPoint.submission = k.m_PointVector.map DataPoint.submission
  labels : k'.m_CurrentMeans.map (·.m_Label) = k.m_CurrentMeans.map (·.m_Label)

omit [Scalar T] in
theorem Regrouped.refl (k : KMeans T) : Regrouped k k := ⟨rfl, rfl, rfl⟩

omit [Scalar T] in
theorem Regrouped.trans {k₁ k₂ k₃ : KMeans T} (h : Regrouped k₁ k₂) (h' : Regrouped k₂ k₃) : Regrouped k₁ k₃ :=
  ⟨by rw [h'.rest, h.rest], h'.submissions.trans h.submissions, h'.labels.trans h.labels⟩

omit [Scalar T] in
theorem Regrouped.symm {k k' : KMeans T} (h : Regrouped k k') : Regrouped k' k := by
  refine ⟨?_, h.submissions.symm, h.labels.symm⟩
  have := congrArg (fun x : KMeans T =>
    { x with m_PointVector := k.m_PointVector, m_CurrentMeans := k.m_CurrentMeans }) h.rest
  exact this.symm

omit [Scalar T] in
theorem Regrouped.numArgs {k k' : KMeans T} (h : Regrouped k k') : k'.m_NumArgs = k.m_NumArgs := by
  rw [h.rest]

omit [Scalar T] in
theorem Regrouped.length_points {k k' : KMeans T} (h : Regrouped k k') :
    k'.m_PointVector.length = k.m_PointVector.length := by
  simpa using congrArg List.length h.submissions

omit [Scalar T] in
theorem Regrouped.length_means {k k' : KMeans T} (h : Regrouped k k') :
    k'.m_CurrentMeans.length = k.m_CurrentMeans.length := by
  simpa using congrArg List.length h.labels

omit [Scalar T] in
theorem means_ext {means means' : List (MeanPoint T)} (hl : means.map (·.m_Label) = means'.map (·.m_Label))
    (hv : means.map (·.m_Vector) = means'.map (·.m_Vector)) : means = means' := by
  induction means generalizing means' with
  | nil => simpa using hl.symm
  | cons m ms ih =>
    cases means' with
    | nil => simp at hl
    | cons m' ms' =>
      simp only [List.map_cons, List.cons.injEq] at hl hv
      rw [ih hl.2 hv.2, show m = m' from by cases m; cases m'; simp_all]

theorem LloydReady.assigned {k : KMeans T} (h : LloydReady k) : k.mAssignAll.1 = .ok () := h.shaped.assigns h.means

/-- A round completes, and this is what it leaves. -/
theorem LloydReady.round_eq {k : KMeans T} (h : LloydReady k) : round k = (.ok (), { k.mAssignAll.2 with
    m_CurrentMeans := k.m_CurrentMeans.map fun m =>
      { m with m_Vector := centroid k.m_NumArgs (group m.m_Label k.mAssignAll.2.m_PointVector) } }) := by
  rw [round_of_assigned h.assigned]
  exact h.shaped.mAssignAll.mUpdateMeans_eq

theorem LloydReady.regrouped {k : KMeans T} (h : LloydReady k) : Regrouped k (round k).2 := by
  rw [h.round_eq]
  exact ⟨rfl, assignLoop_submissions _ _, by simp⟩

omit [Scalar T] in
theorem LloydReady.of_regrouped {k k' : KMeans T} (h : LloydReady k) (hr : Regrouped k k') (hs : Shaped k') :
    LloydReady k' := by
  refine ⟨hs, fun hnil => h.means ?_, hr.length_points ▸ h.points⟩
  simpa [hnil] using hr.length_means.symm

theorem LloydReady.next {k : KMeans T} (h : LloydReady k) : LloydReady (round k).2 := by
  apply h.of_regrouped h.regrouped
  rw [round_of_assigned h.assigned]
  exact h.shaped.mAssignAll.mUpdateMeans

theorem LloydReady.iterate {k : KMeans T} (h : LloydReady k) (n : Nat) :
    LloydReady (rounds n k) ∧ Regrouped k (rounds n k) := by
  induction n with
  | zero => exact ⟨h, .refl k⟩
  | succ n ih =>
    rw [rounds_succ]
    exact ⟨ih.1.next, ih.2.trans ih.1.regrouped⟩

/-! ### What a round depends on -/

theorem findNearestFrom_congr {p q : DataPoint T} (h : p.m_Vector = q.m_Vector) (means : List (MeanPoint T))
    (d : T) (l : UInt16) : findNearestFrom p d l means = findNearestFrom q d l means := by
  induction means generalizing d l with
  | nil => rfl
  | cons m ms ih => simp only [findNearestFrom, mCalculateEuclideanDistance, h, ih]

theorem mFindNearestMean_congr {p q : DataPoint T} (h : p.m_Vector = q.m_Vector) (means : List (MeanPoint T)) :
    mFindNearestMean means p = mFindNearestMean means q := by
  cases means with
  | nil => rfl
  | cons m ms =>
    simp only [mFindNearestMean, mCalculateEuclideanDistance, h]
    exact congrArg _ (funext fun d => findNearestFrom_congr h ms d _)

/-- The means and the submission determine the assigned point. -/
theorem Assigned.unique {means : List (MeanPoint T)} {p p' q q' : DataPoint T} (hp : Assigned means p p')
    (hq : Assigned means q q') (h : p.submission = q.submission) : p' = q' := by
  have hvec : p.m_Vector = q.m_Vector := congrArg Prod.snd h
  have hsub : p'.submission = q'.submission := hp.submission.trans (h.trans hq.submission.symm)
  have hnear := hq.nearest
  rw [← mFindNearestMean_congr hvec, hp.nearest] at hnear
  have hindex : p'.m_MeanIndex = q'.m_MeanIndex := Except.ok.inj hnear
  obtain ⟨m, hm, hd⟩ := hp.measured
  obtain ⟨m', hm', hd'⟩ := hq.measured
  rw [← hindex, hm] at hm'
  obtain rfl := Except.ok.inj hm'
  have hdist : mCalculateEuclideanDistance p m = mCalculateEuclideanDistance q m := by
    simp only [mCalculateEuclideanDistance, hvec]
  rw [hdist, hd'] at hd
  have hd := Except.ok.inj hd
  cases p'
  cases q'
  simp only [DataPoint.submission, Prod.mk.injEq] at hsub
  simp only [DataPoint.mk.injEq]
  exact ⟨hindex, hd.symm, hsub.2, hsub.1⟩

theorem Assigned.unique_list {means : List (MeanPoint T)} {ps ps' qs qs' : List (DataPoint T)}
    (hp : List.Forall₂ (Assigned means) ps ps') (hq : List.Forall₂ (Assigned means) qs qs')
    (h : ps.map DataPoint.submission = qs.map DataPoint.submission) : ps' = qs' := by
  induction hp generalizing qs qs' with
  | nil =>
    cases hq with
    | nil => rfl
    | cons _ _ => simp at h
  | cons hpp _ ih =>
    cases hq with
    | nil => simp at h
    | cons hqq hqs =>
      simp only [List.map_cons, List.cons.injEq] at h
      rw [hpp.unique hqq h.1, ih hqs h.2]

/-- A round depends on the means and the submissions, not on how the points were assigned before. -/
theorem LloydReady.round_congr {k k' : KMeans T} (h : LloydReady k) (h' : LloydReady k') (hr : Regrouped k k')
    (hm : k'.m_CurrentMeans = k.m_CurrentMeans) : (round k').2 = (round k).2 := by
  have hok' := h'.assigned
  rw [mAssignAll, hm] at hok'
  have hpoints : k'.mAssignAll.2.m_PointVector = k.mAssignAll.2.m_PointVector := by
    simp only [mAssignAll, hm]
    exact Assigned.unique_list (assignLoop_ok hok') (assignLoop_ok h.assigned) hr.submissions
  have hassign : k'.mAssignAll.2 = k.mAssignAll.2 := by
    have hk' : k'.mAssignAll.2 = { k' with m_PointVector := k'.mAssignAll.2.m_PointVector } := rfl
    rw [hk', hpoints, hr.rest, hm]
    rfl
  rw [h.round_eq, h'.round_eq, hassign, hm, hr.numArgs]

end Rounds

/-! ## Lists of coordinates as vectors -/

section Coordinates
variable {T : Type} [Field T]

def coords (d : Nat) (v : List T) (j : Fin d) : T := v.getD j 0

/-- The vectors `vs` as the rows of a matrix. -/
def rows (n d : Nat) (vs : List (List T)) (i : Fin n) : Fin d → T := coords d (vs.getD i [])

theorem coords_inj {d : Nat} {v w : List T} (hv : v.length = d) (hw : w.length = d)
    (h : coords d v = coords d w) : v = w := by
  apply List.ext_getElem (hv.trans hw.symm)
  intro j hj hj'
  simpa [coords, hj, hj'] using congrFun h ⟨j, hv ▸ hj⟩

theorem rows_inj {n d : Nat} {vs ws : List (List T)} (hv : vs.length = n) (hw : ws.length = n)
    (hvs : ∀ v ∈ vs, v.length = d) (hws : ∀ w ∈ ws, w.length = d) (h : rows n d vs = rows n d ws) : vs = ws := by
  apply List.ext_getElem (hv.trans hw.symm)
  intro i hi hi'
  have hrow := congrFun h ⟨i, hv ▸ hi⟩
  simp only [rows, List.getD_eq_getElem _ _ hi, List.getD_eq_getElem _ _ hi'] at hrow
  exact coords_inj (hvs _ (List.getElem_mem hi)) (hws _ (List.getElem_mem hi')) hrow

theorem sqDist_coords {d : Nat} {xs ms : List T} (hx : xs.length = d) (hm : ms.length = d) :
    sqDist xs ms = Lloyd.sqDist (coords d xs) (coords d ms) := by
  induction xs generalizing ms d with
  | nil =>
    subst hx
    simp [sqDist, Lloyd.sqDist]
  | cons x xs ih =>
    subst hx
    cases ms with
    | nil => simp at hm
    | cons m ms =>
      have hlen : ms.length = xs.length := by simpa using hm
      have hrest := ih rfl hlen
      simp only [sqDist, Lloyd.sqDist, coords, List.length_cons] at hrest ⊢
      rw [Fin.sum_univ_succ, List.zipWith_cons_cons, List.map_cons, List.sum_cons, hrest]
      simp

omit [Field T] in
/-- A sum over the points of a group, by position. -/
theorem sum_group {M : Type} [AddCommMonoid M] (f : DataPoint T → M) (l : UInt16) {ps : List (DataPoint T)} {n : Nat}
    (hn : n = ps.length) : ∑ i : Fin n with (ps.get (i.cast hn)).m_MeanIndex = l, f (ps.get (i.cast hn)) =
      ((group l ps).map f).sum := by
  subst hn
  rw [Finset.sum_filter]
  induction ps with
  | nil => rfl
  | cons p ps ih =>
    simp only [List.length_cons]
    rw [Fin.sum_univ_succ]
    simp only [List.get_eq_getElem, Fin.cast_eq_self, Fin.val_zero, List.getElem_cons_zero, Fin.val_succ,
      List.getElem_cons_succ] at ih ⊢
    rw [ih]
    by_cases hp : p.m_MeanIndex = l
    · simp [group, hp]
    · simp [group, hp]

variable [LinearOrder T] [Exact T]

theorem getD_sumCoordinates {acc : List T} {ps : List (DataPoint T)} {j : Nat} (hj : j < acc.length)
    (h : ∀ p ∈ ps, acc.length ≤ p.m_Vector.length) :
    (sumCoordinates acc ps).getD j 0 = acc.getD j 0 + (ps.map fun p => p.m_Vector.getD j 0).sum := by
  induction ps generalizing acc with
  | nil => simp [sumCoordinates]
  | cons p ps ih =>
    rw [List.forall_mem_cons] at h
    have hzip : (List.zipWith Scalar.add acc p.m_Vector).length = acc.length := by simpa using h.1
    have hadd : (List.zipWith Scalar.add acc p.m_Vector).getD j 0 = acc.getD j 0 + p.m_Vector.getD j 0 := by
      have hp : j < p.m_Vector.length := by omega
      rw [List.getD_eq_getElem _ _ (by omega), List.getElem_zipWith, Exact.add_eq, List.getD_eq_getElem _ _ hj,
        List.getD_eq_getElem _ _ hp]
    unfold sumCoordinates
    rw [List.foldl_cons, ← sumCoordinates, ih (by omega) (by simpa [hzip] using h.2), hadd,
      List.map_cons, List.sum_cons, add_assoc]

/-- A coordinate of a mean after `mUpdateMeans`. -/
theorem coords_centroid {numArgs : UInt16} {ps : List (DataPoint T)}
    (h : ∀ p ∈ ps, numArgs.toNat ≤ p.m_Vector.length) (j : Fin numArgs.toNat) :
    coords numArgs.toNat (centroid numArgs ps) j =
      Scalar.div (ps.map fun p => coords numArgs.toNat p.m_Vector j).sum
        (Scalar.ofCount (UInt16.ofNat ps.length)) := by
  have hlen : (centroid numArgs ps).length = numArgs.toNat := centroid_length h
  have hacc : j.val < (List.replicate numArgs.toNat (Scalar.zero : T)).length := by simp
  have hsum := getD_sumCoordinates hacc (by simpa using h)
  have hsumlen : (sumCoordinates (List.replicate numArgs.toNat Scalar.zero) ps).length = numArgs.toNat := by
    rw [sumCoordinates_length (by simpa using h), List.length_replicate]
  have hzero (y : T) : Scalar.zero + y = y := by rw [Exact.zero_eq, zero_add]
  rw [List.getD_eq_getElem _ _ (by simp [hsumlen]), List.getD_eq_getElem _ _ (by simp), List.getElem_replicate,
    hzero] at hsum
  rw [coords, List.getD_eq_getElem _ _ (by simp [hlen])]
  simp only [centroid, List.getElem_map, hsum]
  rfl

variable [IsStrictOrderedRing T]

/-- With at most 65535 members the count is right, and the mean of a group is its average. -/
theorem card_mul_centroid {numArgs : UInt16} {ps : List (DataPoint T)}
    (h : ∀ p ∈ ps, numArgs.toNat ≤ p.m_Vector.length) (hn : ps.length ≤ 65535) (j : Fin numArgs.toNat) :
    (ps.length : T) * coords numArgs.toNat (centroid numArgs ps) j =
      (ps.map fun p => coords numArgs.toNat p.m_Vector j).sum := by
  have hcount : (Scalar.ofCount (UInt16.ofNat ps.length) : T) = ps.length := by
    rw [Exact.ofCount_eq, UInt16.toNat_ofNat', Nat.mod_eq_of_lt (by omega)]
  rw [coords_centroid h, hcount]
  cases ps with
  | nil => simp
  | cons p ps =>
    have hne : ((p :: ps).length : T) ≠ 0 := Nat.cast_ne_zero.2 (by simp)
    rw [Exact.div_eq _ hne, mul_div_cancel₀ _ hne]

/-- Under labelled means a point is assigned to a position: the earliest of the nearest. -/
theorem Assigned.position {means : List (MeanPoint T)} (hl : Labelled means) {p p' : DataPoint T}
    (h : Assigned means p p') : ∃ l : Fin means.length, p'.m_MeanIndex.toNat = l ∧ p'.m_Vector = p.m_Vector ∧
      ∀ l' : Fin means.length,
        sqDist p.m_Vector (means.get l).m_Vector ≤ sqDist p.m_Vector (means.get l').m_Vector ∧
        (l' < l → sqDist p.m_Vector (means.get l).m_Vector < sqDist p.m_Vector (means.get l').m_Vector) := by
  obtain ⟨pre, m, post, rfl, hlabel, hvec, hmin, -⟩ := h.earliest hl
  rw [hvec] at hmin
  have hpos : (pre ++ m :: post)[pre.length]? = some m := by simp
  have hlt : pre.length < (pre ++ m :: post).length := by simp
  have hget : (pre ++ m :: post).get ⟨pre.length, hlt⟩ = m := by simp
  refine ⟨⟨pre.length, hlt⟩, by rw [← hlabel]; exact hl.of_getElem hpos, hvec, ?_⟩
  intro l'
  rw [hget]
  refine ⟨hmin.le _ (List.get_mem _ _), fun hlt' => hmin.before _ ?_⟩
  have hl' : (l' : Nat) < pre.length := hlt'
  rw [List.get_eq_getElem, List.getElem_append_left hl']
  exact List.getElem_mem hl'

end Coordinates

/-! ## A round of the engine is a round of Lloyd's iteration -/

section Lloyd
variable {T : Type} [Field T] [LinearOrder T] [IsStrictOrderedRing T] [Exact T]

def pointRows (n d : Nat) (k : KMeans T) : Fin n → Fin d → T := rows n d (k.m_PointVector.map (·.m_Vector))

def meanRows (n d : Nat) (k : KMeans T) : Fin n → Fin d → T := rows n d (k.m_CurrentMeans.map (·.m_Vector))

/-- What `mUpdateMeans` makes of a mean without points: `0 / 0` in every coordinate. -/
def emptyMean {κ δ : Type} (_ : κ) (_ : δ) : T := Scalar.div 0 (Scalar.ofCount 0)

omit [LinearOrder T] [IsStrictOrderedRing T] [Exact T] in
theorem pointRows_get {k : KMeans T} {n : Nat} (d : Nat) (hn : n = k.m_PointVector.length) (i : Fin n) :
    pointRows n d k i = coords d (k.m_PointVector.get (i.cast hn)).m_Vector := by
  subst hn
  simp [pointRows, rows]

omit [LinearOrder T] [IsStrictOrderedRing T] [Exact T] in
theorem meanRows_get {k : KMeans T} {n : Nat} (d : Nat) (hn : n = k.m_CurrentMeans.length) (l : Fin n) :
    meanRows n d k l = coords d (k.m_CurrentMeans.get (l.cast hn)).m_Vector := by
  subst hn
  simp [meanRows, rows]

/-- The index each point carries is the position `a` gives it. -/
def Indexed (k : KMeans T) {n K : Nat} (hn : n = k.m_PointVector.length) (a : Fin n → Fin K) : Prop :=
  ∀ i, (k.m_PointVector.get (i.cast hn)).m_MeanIndex.toNat = a i

omit [Field T] [LinearOrder T] [IsStrictOrderedRing T] [Exact T] in
theorem exists_indexed {k : KMeans T} {n K : Nat} (hn : n = k.m_PointVector.length)
    (h : ∀ p ∈ k.m_PointVector, p.m_MeanIndex.toNat < K) : ∃ a : Fin n → Fin K, Indexed k hn a := by
  have hlt (i : Fin n) := h _ (List.get_mem k.m_PointVector (i.cast hn))
  exact ⟨fun i => ⟨_, hlt i⟩, fun i => rfl⟩

section Indexed
variable {k : KMeans T} {n : Nat} {hn : n = k.m_PointVector.length} {a : Fin n → Fin k.m_CurrentMeans.length}

omit [Field T] [LinearOrder T] [IsStrictOrderedRing T] [Exact T] in
/-- Under labelled means the points at a position are the group of its label. -/
theorem Indexed.eq_iff (h : Indexed k hn a) (hl : Labelled k.m_CurrentMeans) (i : Fin n)
    (l : Fin k.m_CurrentMeans.length) :
    a i = l ↔ (k.m_PointVector.get (i.cast hn)).m_MeanIndex = (k.m_CurrentMeans.get l).m_Label := by
  have hlabel : (k.m_CurrentMeans.get l).m_Label.toNat = l := hl.of_getElem (List.getElem?_eq_getElem l.isLt)
  rw [← UInt16.toNat_inj, hlabel, Fin.ext_iff, ← h i]

omit [Field T] [LinearOrder T] [IsStrictOrderedRing T] [Exact T] in
theorem Indexed.card (h : Indexed k hn a) (hl : Labelled k.m_CurrentMeans) (l : Fin k.m_CurrentMeans.length) :
    Finset.card {i | a i = l} = (group (k.m_CurrentMeans.get l).m_Label k.m_PointVector).length := by
  simp only [h.eq_iff hl, Finset.card_eq_sum_ones]
  rw [sum_group (fun _ => 1) _ hn, List.map_const', List.sum_replicate, smul_eq_mul, mul_one]

/-- `mUpdateMeans` moves the means to the centroids. -/
theorem Indexed.centroid (h : Indexed k hn a) (hs : Shaped k) (hp : k.m_PointVector.length ≤ 65535) :
    Lloyd.Centroid emptyMean (pointRows n k.m_NumArgs.toNat k) a
      (meanRows k.m_CurrentMeans.length k.m_NumArgs.toNat k.mUpdateMeans.2) := by
  have hrow (l : Fin k.m_CurrentMeans.length) :
      meanRows k.m_CurrentMeans.length k.m_NumArgs.toNat k.mUpdateMeans.2 l = coords k.m_NumArgs.toNat
        (KMeans.centroid k.m_NumArgs (group (k.m_CurrentMeans.get l).m_Label k.m_PointVector)) := by
    rw [hs.mUpdateMeans_eq, meanRows_get _ (by simp)]
    simp
  constructor
  · intro l j
    have hbound : (group (k.m_CurrentMeans.get l).m_Label k.m_PointVector).length ≤ 65535 :=
      (List.length_filter_le _ _).trans hp
    rw [hrow, h.card hs.labelled, card_mul_centroid (hs.group_le _) hbound]
    simp only [h.eq_iff hs.labelled, pointRows_get _ hn]
    exact (sum_group (fun p => coords k.m_NumArgs.toNat p.m_Vector j) _ hn).symm
  · intro l hl
    have hempty : group (k.m_CurrentMeans.get l).m_Label k.m_PointVector = [] := by
      rw [← List.length_eq_zero_iff, ← h.card hs.labelled, Finset.card_eq_zero, Finset.filter_eq_empty_iff]
      intro i _
      exact hl i
    funext j
    rw [hrow, hempty, coords_centroid (by simp)]
    simp [emptyMean]

end Indexed

/-- `mAssignAll` assigns each point to the earliest of its nearest means. -/
theorem LloydReady.nearest {k : KMeans T} (h : LloydReady k) {n : Nat} (hn : n = k.mAssignAll.2.m_PointVector.length) :
    ∃ a : Fin n → Fin k.m_CurrentMeans.length, Indexed k.mAssignAll.2 hn a ∧
      Lloyd.Nearest (pointRows n k.m_NumArgs.toNat k) (meanRows k.m_CurrentMeans.length k.m_NumArgs.toNat k) a := by
  obtain ⟨hlen, hget⟩ := List.forall₂_iff_get.1 (assignLoop_ok h.assigned)
  have hn' : n = k.m_PointVector.length := hn.trans hlen.symm
  have hpos : ∀ i : Fin n, _ := fun i =>
    (hget i (hn' ▸ i.isLt) (hn ▸ i.isLt)).position h.shaped.labelled
  choose a ha _ hnear using hpos
  refine ⟨a, ha, ?_⟩
  intro i l
  have hp := h.shaped.points _ (List.get_mem k.m_PointVector (i.cast hn'))
  have hm := fun l => h.shaped.means _ (List.get_mem k.m_CurrentMeans l)
  rw [pointRows_get _ hn', meanRows_get _ rfl, meanRows_get _ rfl, ← sqDist_coords hp (hm _),
    ← sqDist_coords hp (hm _)]
  exact hnear i l

omit [LinearOrder T] [IsStrictOrderedRing T] [Exact T] in
theorem pointRows_congr {k k' : KMeans T} (n d : Nat)
    (h : k'.m_PointVector.map DataPoint.submission = k.m_PointVector.map DataPoint.submission) :
    pointRows n d k' = pointRows n d k := by
  have hvec : k'.m_PointVector.map (·.m_Vector) = k.m_PointVector.map (·.m_Vector) := by
    simpa [DataPoint.submission, Function.comp_def] using congrArg (List.map Prod.snd) h
  rw [pointRows, hvec, pointRows]

/-- A round of a ready engine is a round of Lloyd's iteration. -/
theorem LloydReady.lloyd_round {k : KMeans T} (h : LloydReady k) {n K d : Nat}
    (hn : n = k.m_PointVector.length) (hK : K = k.m_CurrentMeans.length) (hd : d = k.m_NumArgs.toNat) :
    ∃ a : Fin n → Fin K, Lloyd.Nearest (pointRows n d k) (meanRows K d k) a ∧
      Lloyd.Centroid emptyMean (pointRows n d k) a (meanRows K d (round k).2) := by
  subst hK hd
  have hlen := (mAssignAll_untouched k).length
  obtain ⟨a, ha, hnear⟩ := h.nearest (hn.trans hlen.symm)
  have hcentroid := ha.centroid h.shaped.mAssignAll (hlen.trans_le h.points)
  rw [pointRows_congr _ _ (assignLoop_submissions _ _)] at hcentroid
  refine ⟨a, hnear, ?_⟩
  rw [h.round_eq]
  rwa [h.shaped.mAssignAll.mUpdateMeans_eq] at hcentroid

/-- The rounds of a ready engine are the rounds of Lloyd's iteration. -/
theorem LloydReady.lloyd_rounds {k : KMeans T} (h : LloydReady k) :
    ∃ a, Lloyd.Rounds emptyMean (pointRows k.m_PointVector.length k.m_NumArgs.toNat k) a
      fun t => meanRows k.m_CurrentMeans.length k.m_NumArgs.toNat (rounds t k) := by
  have hround : ∀ t, ∃ a, Lloyd.Nearest _ _ a ∧ Lloyd.Centroid _ _ a _ := fun t => by
    obtain ⟨hready, hr⟩ := h.iterate t
    exact hready.lloyd_round hr.length_points.symm hr.length_means.symm (congrArg UInt16.toNat hr.numArgs).symm
  choose a ha using hround
  have hpoints (t : Nat) := pointRows_congr k.m_PointVector.length k.m_NumArgs.toNat (h.iterate t).2.submissions
  simp only [hpoints, ← rounds_succ] at ha
  exact ⟨a, fun t => (ha t).1, fun t => (ha t).2⟩

omit [IsStrictOrderedRing T] in
/-- Two rounds that start from the same means end in the same state. -/
theorem LloydReady.rounds_congr {k : KMeans T} (h : LloydReady k) {i j : Nat}
    (he : meanRows k.m_CurrentMeans.length k.m_NumArgs.toNat (rounds i k) =
      meanRows k.m_CurrentMeans.length k.m_NumArgs.toNat (rounds j k)) : rounds (i + 1) k = rounds (j + 1) k := by
  obtain ⟨hi, hri⟩ := h.iterate i
  obtain ⟨hj, hrj⟩ := h.iterate j
  have hvec : (rounds i k).m_CurrentMeans.map (·.m_Vector) = (rounds j k).m_CurrentMeans.map (·.m_Vector) := by
    refine rows_inj (by simpa using hri.length_means) (by simpa using hrj.length_means) ?_ ?_ he
    · simpa [hri.numArgs] using hi.shaped.means
    · simpa [hrj.numArgs] using hj.shaped.means
  have hmeans : (rounds i k).m_CurrentMeans = (rounds j k).m_CurrentMeans :=
    means_ext (hri.labels.trans hrj.labels.symm) hvec
  rw [rounds_succ, rounds_succ]
  exact hj.round_congr hi (hrj.symm.trans hri) hmeans

/-! ## Main theorem -/

/-- Every round completes, some round reaches a state that no later round
changes, and a state that is reached again is never left. -/
theorem rounds_stabilise {k : KMeans T} (h : LloydReady k) :
    (∃ N, ∀ n, (round (rounds n k)).1 = .ok () ∧ (N ≤ n → rounds n k = rounds N k)) ∧
      ∀ i j, i < j → rounds i k = rounds j k → rounds (i + 1) k = rounds i k := by
  obtain ⟨a, hlloyd⟩ := h.lloyd_rounds
  constructor
  · -- The means settle first, and a round later the assignment and the distances have.
    obtain ⟨N, hN⟩ := hlloyd.stabilises
    refine ⟨N + 1, fun n => ⟨by rw [(h.iterate n).1.round_eq], fun hn => ?_⟩⟩
    obtain ⟨m, rfl⟩ : ∃ m, n = m + 1 := ⟨n - 1, by omega⟩
    exact h.rounds_congr (hN m (by omega))
  · intro i j hij he
    have hmeans : ∀ m, i ≤ m → _ := hlloyd.stays (hlloyd.no_return hij (congrArg _ he))
    obtain ⟨m, rfl⟩ : ∃ m, j = m + 1 := ⟨j - 1, by omega⟩
    rw [he]
    exact (h.rounds_congr (hmeans m (by omega))).symm

/-- Two means from three points. -/
def threePoints : List (Op ℚ) := [.submit [0], .submit [10], .submit [8], .initialise 2 .reverse]

theorem threePoints_stabilise :
    ∃ k, run step (new 1) threePoints = some k ∧ ∃ N, ∀ n, N ≤ n → rounds n k = rounds N k := by
  have hrun : (run step (new 1) threePoints).map
      (fun k => (k.m_CurrentMeans.length, k.m_PointVector.length)) = some (2, 3) := by decide +kernel
  obtain ⟨k, hk, hsize⟩ := Option.map_eq_some_iff.1 hrun
  rw [Prod.mk.injEq] at hsize
  have hready : LloydReady k := ⟨shaped_of_run hk (by decide +kernel) (by decide +kernel),
    List.ne_nil_of_length_pos (by omega), by omega⟩
  obtain ⟨⟨N, hN⟩, -⟩ := rounds_stabilise hready
  exact ⟨k, hk, N, fun n => (hN n).2⟩

end Lloyd

end ProtocolLearner.KMeans
