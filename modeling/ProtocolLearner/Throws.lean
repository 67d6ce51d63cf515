import ProtocolLearner.Operations
/-!
# What a call that throws leaves behind

Nothing in the engine undoes a write: `mAssignAll` and `mUpdateMeans` work in
place and stop where they throw, and `mInitialise` stores the requested number
of means before it looks for points. So a failed call leaves the elements before
the failing one as a completed call would, and the rest as it was
(`failed_call_stops`).
-/

namespace ProtocolLearner.KMeans

/-! ## Loops that stop -/

/-- A loop over a list that writes in place: its turns do `R` up to an element
where it stops after doing `S`. -/
inductive StopsAt {α : Type} (R S : α → α → Prop) : List α → List α → Prop where
  | here {x y : α} (post : List α) (h : S x y) : StopsAt R S (x :: post) (y :: post)
  | later {x y : α} {xs ys : List α} (h : R x y) (hs : StopsAt R S xs ys) : StopsAt R S (x :: xs) (y :: ys)

theorem StopsAt.split {α : Type} {R S : α → α → Prop} {xs ys : List α} (h : StopsAt R S xs ys) :
    ∃ pre x post pre' y, xs = pre ++ x :: post ∧ ys = pre' ++ y :: post ∧ List.Forall₂ R pre pre' ∧ S x y := by
  induction h with
  | here post h => exact ⟨[], _, post, [], _, rfl, rfl, .nil, h⟩
  | later h _ ih =>
    obtain ⟨pre, x, post, pre', y, rfl, rfl, hpre, hs⟩ := ih
    exact ⟨_ :: pre, x, post, _ :: pre', y, rfl, rfl, .cons h hpre, hs⟩

variable {T : Type}

/-- The call threw. Undefined behaviour is not a throw. -/
def Throws (r : Except Exn Unit × KMeans T) : Prop := ∃ e, r.1 = .error e ∧ e ≠ .undefined

/-- A call that throws leaves the engine as it was. -/
def Atomic (r : Except Exn Unit × KMeans T) (k : KMeans T) : Prop := Throws r → r.2 = k

/-! ## Each operation -/

theorem initialise_throws {k : KMeans T} {n : UInt16} {σ : Shuffle (DataPoint T)} (h : Throws (k.mInitialise n σ)) :
    (k.mInitialise n σ).2 = { k with m_CurrentNumMeans := n } := by
  rcases lt_or_ge k.m_PointVector.length n.toNat with hlt | hge
  · rw [mInitialise_short hlt]
  · obtain ⟨e, he, -⟩ := h
    rw [mInitialise_eq hge] at he
    cases he

variable [Scalar T]

/-- The turn of `mAssignAll` that throws stores a label or nothing. -/
def StopsAssigning (means : List (MeanPoint T)) (p p' : DataPoint T) : Prop :=
  (∀ q, ¬ Assigned means p q) ∧ (p' = p ∨ ∃ l, mFindNearestMean means p = .ok l ∧ p' = { p with m_MeanIndex := l })

/-- No point is assigned where the distance to the mean at the found label's position fails. -/
theorem not_assigned {means : List (MeanPoint T)} {p : DataPoint T} {l : UInt16} {e : Exn}
    (hl : mFindNearestMean means p = .ok l) (hd : (meanAt means l >>= mCalculateEuclideanDistance p) = .error e)
    (q : DataPoint T) : ¬ Assigned means p q := by
  intro hq
  have hnear := hq.nearest
  rw [hl, Except.ok.injEq] at hnear
  obtain ⟨m, hm, hdist⟩ := hq.measured
  rw [← hnear] at hm
  simp [hm, hdist, bind, Except.bind] at hd

theorem assignLoop_stops {means : List (MeanPoint T)} {ps : List (DataPoint T)} {e : Exn}
    (h : (assignLoop means ps).1 = .error e) :
    StopsAt (Assigned means) (StopsAssigning means) ps (assignLoop means ps).2 := by
  induction ps with
  | nil => cases h
  | cons p ps ih =>
    rw [assignLoop] at h ⊢
    cases hl : mFindNearestMean means p with
    | error e =>
      refine .here ps ⟨?_, .inl rfl⟩
      intro q hq
      have hnear := hq.nearest
      rw [hl] at hnear
      cases hnear
    | ok l =>
      cases hd : meanAt means l >>= mCalculateEuclideanDistance { p with m_MeanIndex := l } with
      | error e =>
        simp only [hd]
        exact .here ps ⟨not_assigned hl hd, .inr ⟨l, hl, rfl⟩⟩
      | ok d =>
        simp only [hl, hd] at h ⊢
        refine .later ⟨rfl, hl, ?_⟩ (ih h)
        cases hm : meanAt means l with
        | error e => simp [hm, bind, Except.bind] at hd
        | ok m =>
          rw [hm] at hd
          exact ⟨m, rfl, hd⟩

/-- All `updateMean` can throw is `out_of_range`. -/
theorem updateMean_error {numArgs : UInt16} {ps : List (DataPoint T)} {m : MeanPoint T} {e : Exn}
    (h : updateMean numArgs ps m = .error e) : e = .outOfRange := by
  by_cases hshort : ∃ p ∈ group m.m_Label ps, p.m_Vector.length < numArgs.toNat
  · rw [updateMean_short hshort] at h
    exact (Except.error.inj h).symm
  · push Not at hshort
    rw [updateMean_eq hshort] at h
    cases h

theorem updateLoop_stops {numArgs : UInt16} {ps : List (DataPoint T)} {means : List (MeanPoint T)} {e : Exn}
    (h : (updateLoop numArgs ps means).1 = .error e) :
    StopsAt (fun m m' => updateMean numArgs ps m = .ok m')
      (fun m m' => updateMean numArgs ps m = .error .outOfRange ∧ m' = m) means (updateLoop numArgs ps means).2 := by
  induction means with
  | nil => cases h
  | cons m ms ih =>
    rw [updateLoop] at h ⊢
    cases hm : updateMean numArgs ps m with
    | error e =>
      obtain rfl := updateMean_error hm
      exact .here ms ⟨hm, rfl⟩
    | ok m' =>
      rw [hm] at h
      exact .later hm (ih h)

/-! ## Main theorem -/

/-- A throwing `mInitialise` changes nothing but the requested number of means.
A throwing `mAssignAll` has assigned the points before the one it stopped at, and
stored at most a label there. A throwing `mUpdateMeans` has moved the means before
the one it stopped at. -/
theorem failed_call_stops (k : KMeans T) :
    (∀ n σ, Throws (k.mInitialise n σ) → (k.mInitialise n σ).2 = { k with m_CurrentNumMeans := n }) ∧
      (Throws k.mAssignAll → ∃ pre p post pre' p', k.m_PointVector = pre ++ p :: post ∧
        k.mAssignAll.2 = { k with m_PointVector := pre' ++ p' :: post } ∧
        List.Forall₂ (Assigned k.m_CurrentMeans) pre pre' ∧ StopsAssigning k.m_CurrentMeans p p') ∧
      (Throws k.mUpdateMeans → ∃ pre m post pre', k.m_CurrentMeans = pre ++ m :: post ∧
        k.mUpdateMeans.2 = { k with m_CurrentMeans := pre' ++ m :: post } ∧
        List.Forall₂ (fun m m' => updateMean k.m_NumArgs k.m_PointVector m = .ok m') pre pre' ∧
        updateMean k.m_NumArgs k.m_PointVector m = .error .outOfRange) := by
  refine ⟨fun n σ => initialise_throws, ?_, ?_⟩
  · rintro ⟨e, he, -⟩
    obtain ⟨pre, p, post, pre', p', hbefore, hafter, hpre, hp⟩ := (assignLoop_stops he).split
    refine ⟨pre, p, post, pre', p', hbefore, ?_, hpre, hp⟩
    rw [← hafter]
    rfl
  · rintro ⟨e, he, -⟩
    obtain ⟨pre, m, post, pre', m', hbefore, hafter, hpre, hm, rfl⟩ := (updateLoop_stops he).split
    refine ⟨pre, m', post, pre', hbefore, ?_, hpre, hm⟩
    rw [← hafter]
    rfl

/-- Points of one, one and two coordinates, and a mean of one. -/
def uneven : KMeans ℚ := ((((new 1 : KMeans ℚ).mSubmit [3]).mInitialise 1 .id).2.mSubmit [1]).mSubmit [1, 2]

/-- Two groups of points of two coordinates, but for the last point of the second group. -/
def stunted : KMeans ℚ :=
  ((((((new 2 : KMeans ℚ).mSubmit [1, 1]).mSubmit [5, 5]).mInitialise 2 .id).2.mSubmit [2, 2]).mSubmit [5]).mAssignAll.2

theorem stunted_stops : ∃ pre m post pre', stunted.m_CurrentMeans = pre ++ m :: post ∧
    stunted.mUpdateMeans.2 = { stunted with m_CurrentMeans := pre' ++ m :: post } ∧
    List.Forall₂ (fun m m' => updateMean stunted.m_NumArgs stunted.m_PointVector m = .ok m') pre pre' ∧
    updateMean stunted.m_NumArgs stunted.m_PointVector m = .error .outOfRange :=
  (failed_call_stops stunted).2.2 ⟨.outOfRange, by decide +kernel, by decide⟩

/-- Each of the three calls can throw and leave the engine changed. -/
theorem failed_calls_not_atomic : ¬ Atomic ((new 1 : KMeans ℚ).mInitialise 1 .id) (new 1) ∧
    uneven.m_CurrentMeans ≠ [] ∧ ¬ Atomic uneven.mAssignAll uneven ∧ ¬ Atomic stunted.mUpdateMeans stunted := by
  refine ⟨fun h => ?_, by decide +kernel, fun h => ?_, fun h => ?_⟩
  · exact absurd (h ⟨.exceptionPointer, by decide +kernel, by decide⟩) (by decide +kernel)
  · exact absurd (h ⟨.outOfRange, by decide +kernel, by decide⟩) (by decide +kernel)
  · exact absurd (h ⟨.outOfRange, by decide +kernel, by decide⟩) (by decide +kernel)

end ProtocolLearner.KMeans
