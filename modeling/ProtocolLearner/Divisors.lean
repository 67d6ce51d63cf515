import ProtocolLearner.Analysers
import ProtocolLearner.Standstill
/-!
# Divisors in the learner

Each packet that is not empty makes the shared analysis object count more bytes,
so the vectors submitted are all different (`Tracked.distinct`), and means drawn
from them have all a point of their own when the points are assigned. With fewer
means than character types that assignment is the only one: no group is empty
after it, and none gets empty. So no update divides by zero unless a packet was
empty (`nonempty_packets_served`).
-/

namespace ProtocolLearner.KMeans

variable {T : Type} [Scalar T]

theorem GroupsOccupied.mSubmit {k : KMeans T} (h : GroupsOccupied k) (v : List T) : GroupsOccupied (k.mSubmit v) := by
  intro m hm
  obtain ⟨p, hp⟩ := List.exists_mem_of_ne_nil _ (h m hm)
  obtain ⟨hp, hlabel⟩ := mem_group.1 hp
  exact List.ne_nil_of_mem (mem_group.2 ⟨List.mem_append_left _ hp, hlabel⟩)

theorem GroupsOccupied.mUpdateMeans {k : KMeans T} (h : GroupsOccupied k) : GroupsOccupied k.mUpdateMeans.2 := by
  intro m' hm'
  have hlabel : m'.m_Label ∈ k.m_CurrentMeans.map (·.m_Label) := by
    rw [← mUpdateMeans_labels k]
    exact List.mem_map_of_mem hm'
  obtain ⟨m, hm, he⟩ := List.mem_map.1 hlabel
  have hgroup := h m hm
  rw [he] at hgroup
  exact hgroup

omit [Scalar T] in
theorem vectors_initialMeans (ps : List (DataPoint T)) (n : Nat) :
    (initialMeans ps n).map (·.m_Vector) = (ps.take n).map (·.m_Vector) := by
  apply List.ext_getElem
  · simp
  · intro i hi hi'
    simp [initialMeans]

end ProtocolLearner.KMeans

namespace ProtocolLearner.Engine

open Machine KMeans

section Scalar
variable {T : Type} [Scalar T]

/-- The means stand on points they were drawn from, no two on the same vector. -/
structure Drawn (k : KMeans T) : Prop where
  means : ∀ m ∈ k.m_CurrentMeans, m.m_Vector.length = NUMTYPES
  stored : ∀ m ∈ k.m_CurrentMeans, ∃ p ∈ k.m_PointVector, p.m_Vector = m.m_Vector
  apart : (k.m_CurrentMeans.map (·.m_Vector)).Nodup

/-- Every mean has a point: one it was drawn from, or one in its group for good. -/
structure Populated (n : UInt16) (k : KMeans T) : Prop where
  wide : Wide n k
  phase : k.m_Initialised = true → Drawn k ∨ Narrow n k ∧ GroupsOccupied k

theorem Populated.new (n : UInt16) : Populated n (KMeans.new n : KMeans T) :=
  ⟨.new n, fun h => by cases h⟩

omit [Scalar T] in
theorem Drawn.of_data {k k' : KMeans T} (h : Drawn k) (hd : SameData k k') : Drawn k' where
  means := by rw [hd.means]; exact h.means
  stored := by rw [hd.means, hd.points]; exact h.stored
  apart := by rw [hd.means]; exact h.apart

omit [Scalar T] in
theorem groupsOccupied_of_data {k k' : KMeans T} (h : GroupsOccupied k) (hd : SameData k k') : GroupsOccupied k' := by
  unfold GroupsOccupied
  rw [hd.means, hd.points]
  exact h

theorem Drawn.mSubmit {k : KMeans T} (h : Drawn k) (v : List T) : Drawn (k.mSubmit v) := by
  refine ⟨h.means, fun m hm => ?_, h.apart⟩
  obtain ⟨p, hp, he⟩ := h.stored m hm
  exact ⟨p, List.mem_append_left _ hp, he⟩

omit [Scalar T] in
theorem Drawn.mInitialise {n : UInt16} (hn : 1 ≤ n.toNat) {k : KMeans T} (hwide : Wide n k)
    (hinit : k.m_Initialised = false) (hlen : n.toNat ≤ k.m_PointVector.length)
    (hnodup : (k.m_PointVector.map (·.m_Vector)).Nodup) (σ : Shuffle (DataPoint T)) :
    Drawn (k.mInitialise n σ).2 := by
  have hmeans := (hwide.mInitialise hn hinit hlen σ).2
  rw [mInitialise_eq hlen, hwide.sound.seeded.before hinit, List.nil_append] at hmeans ⊢
  refine ⟨hmeans, fun m hm => ?_, ?_⟩
  · obtain ⟨p, hp, he⟩ := initialMeans_vector hm
    exact ⟨p, hp, he.symm⟩
  · dsimp only
    rw [vectors_initialMeans]
    have hshuffled : ((σ.run k.m_PointVector).map (·.m_Vector)).Nodup :=
      ((σ.perm k.m_PointVector).map _).nodup_iff.2 hnodup
    exact hshuffled.sublist ((List.take_sublist _ _).map _)

end Scalar

section Exact
variable {F : Type} [Field F] [LinearOrder F] [IsStrictOrderedRing F] [Exact F]

theorem Drawn.groups {n : UInt16} (hn : 1 ≤ n.toNat) {k : KMeans F} (h : Drawn k) (hwide : Wide n k)
    (hinit : k.m_Initialised = true) : GroupsOccupied k.mAssignAll.2 := by
  have hok : k.mAssignAll.1 = .ok () := ((hwide.law_iff hn).2 h.means).completes hinit
  -- For the assignment it does not matter which dimension the engine was told.
  have hshaped : Shaped { k with m_NumArgs := 5 } := ⟨hwide.points, h.means, hwide.sound.seeded.labelled⟩
  have hcells : CellsOccupied { k with m_NumArgs := 5 } := (cellsOccupied_iff hshaped h.stored).2 h.apart
  exact CellsOccupied.groups (k := k) hcells hok

variable {n : UInt16} (hn : 1 ≤ n.toNat) (hlt : n.toNat < NUMTYPES)
include hn hlt

/-- When a pass has assigned, every mean has a point. -/
theorem Populated.groups {k : KMeans F} (h : Populated n k) (hinit : k.m_Initialised = true) :
    GroupsOccupied k.mAssignAll.2 := by
  rcases h.phase hinit with hdrawn | ⟨hnarrow, hgroups⟩
  · exact hdrawn.groups hn h.wide hinit
  · rw [(hnarrow.mAssignAll hn hlt).1]
    exact hgroups

theorem Populated.served {k : KMeans F} (h : Populated n k) (hinit : k.m_Initialised = true)
    (hfew : k.m_PointVector.length ≤ 65535) : Served k := by
  have hgroups := h.groups hn hlt hinit
  have hlen : k.mAssignAll.2.m_PointVector.length ≤ 65535 := (mAssignAll_untouched k).length.trans_le hfew
  exact ⟨h.wide.sound.assignAndUpdate_eq hn hinit, hgroups, hgroups.noZeroDivisor hlen⟩

/-- One step of any thread, where no two points are equal. -/
theorem Populated.step {s s' : Engine F} {act : Act F} (h : Populated n s.kmeans)
    (hnodup : (s.kmeans.m_PointVector.map (·.m_Vector)).Nodup) (hv : ∀ v, act = .submit v → v.length = NUMTYPES)
    (hs : Engine.step n s act = some s') : Populated n s'.kmeans := by
  refine ⟨(h.wide.next hn hv hs).1, fun hinit' => ?_⟩
  cases effect_of_step hs with
  | submit hact he =>
    subst hact he
    rcases h.phase hinit' with hdrawn | ⟨hnarrow, hgroups⟩
    · exact .inl (hdrawn.mSubmit _)
    · exact .inr ⟨hnarrow.mSubmit hn (hv _ rfl), hgroups.mSubmit _⟩
  | initialise _ hinit hlen _ hd => exact .inl ((Drawn.mInitialise hn h.wide hinit hlen hnodup _).of_data hd)
  | update hup _ hd =>
    have hinit := hup.2.2.1
    have hgroups := (h.groups hn hlt hinit).mUpdateMeans
    rw [← h.wide.sound.assignAndUpdate_eq hn hinit] at hgroups
    exact .inr ⟨.of_data (.of_update hn hlt h.wide hinit) hd, groupsOccupied_of_data hgroups hd⟩
  | rest _ _ hd =>
    rcases h.phase (hd.initialised ▸ hinit') with hdrawn | ⟨hnarrow, hgroups⟩
    · exact .inl (hdrawn.of_data hd)
    · exact .inr ⟨hnarrow.of_data hd, groupsOccupied_of_data hgroups hd⟩

end Exact

end ProtocolLearner.Engine

namespace ProtocolLearner.World

open Machine KMeans

section Exact
variable {F : Type} [Field F] [LinearOrder F] [IsStrictOrderedRing F] [Exact F]

/-! ## No two submissions are equal -/

omit [IsStrictOrderedRing F] in
/-- The analysis of the shared object adds up to the bytes it has seen. -/
theorem sum_analysis (a : CharDistributionAlgo) (bytes : List UInt8) :
    (((PacketAnalysisAlgo.charDistribution a).mAnalyse bytes).mGetAnalysis : List F).sum =
      ((a.m_Decoded.length + bytes.length : Nat) : F) := by
  have hlen := m_Decoded_length (.charDistribution a) bytes
  have hcount : (Scalar.count : Nat → F) = Nat.cast := funext count_eq_cast
  rw [PacketAnalysisAlgo.mGetAnalysis_eq, hcount, ← Nat.cast_list_sum, PacketAnalysisAlgo.counts_sum, hlen]
  rfl

/-- The submissions so far, each of more bytes than those before it. -/
structure Growing (before : Nat) (s : Setup) (log : List (Handled F)) : Prop where
  le : ∀ v ∈ log.filterMap Handled.submitted,
    v.sum ≤ ((before + (admittedBytes s.aMaxPacketsToObserve log).length : Nat) : F)
  lt : (log.filterMap Handled.submitted).Pairwise fun v v' => v.sum < v'.sum

omit [IsStrictOrderedRing F] in
/-- A submission counts the bytes of the packets admitted before, and its own. -/
theorem submitted_sum {s : Setup} {a : CharDistributionAlgo} (halgo : s.aAnalysisAlgo = .charDistribution a)
    {log : List (Handled F)} {e : Handled F} {v : List F} (h : Recorded s log e) (hv : e.submitted = some v) :
    (admittedBytes s.aMaxPacketsToObserve (log ++ [e])).length =
        (admittedBytes s.aMaxPacketsToObserve log).length + e.payload.length ∧
      v.sum = ((a.m_Decoded.length + (admittedBytes s.aMaxPacketsToObserve (log ++ [e])).length : Nat) : F) := by
  have hadm : Admitted s.aMaxPacketsToObserve log.length := by
    by_contra hnot
    have hnone := h.analysis
    rw [analysis_of_submitted hv, if_neg hnot] at hnone
    cases hnone
  have hanalysis := h.analysis
  rw [analysis_of_submitted hv, if_pos hadm, halgo, Option.some.injEq] at hanalysis
  rw [hanalysis, sum_analysis, admittedBytes_snoc, if_pos hadm, List.length_append]
  exact ⟨rfl, rfl⟩

theorem Growing.snoc {s : Setup} {a : CharDistributionAlgo} (halgo : s.aAnalysisAlgo = .charDistribution a)
    {log : List (Handled F)} {e : Handled F} (h : Growing a.m_Decoded.length s log) (he : Recorded s log e)
    (hbytes : e.payload ≠ []) : Growing a.m_Decoded.length s (log ++ [e]) := by
  have hold : ∀ v ∈ log.filterMap Handled.submitted,
      v.sum ≤ ((a.m_Decoded.length + (admittedBytes s.aMaxPacketsToObserve (log ++ [e])).length : Nat) : F) := by
    intro v hv
    refine (h.le v hv).trans (Nat.cast_le.2 ?_)
    rw [admittedBytes_snoc, List.length_append]
    omega
  cases hv : e.submitted with
  | none =>
    have hsubs : (log ++ [e]).filterMap Handled.submitted = log.filterMap Handled.submitted := by simp [hv]
    exact ⟨hsubs ▸ hold, hsubs ▸ h.lt⟩
  | some v =>
    have hsubs : (log ++ [e]).filterMap Handled.submitted = log.filterMap Handled.submitted ++ [v] := by simp [hv]
    obtain ⟨hlen, hsum⟩ := submitted_sum halgo he hv
    have hpos := List.length_pos_iff.2 hbytes
    have hless : ∀ u ∈ log.filterMap Handled.submitted, u.sum < v.sum := by
      intro u hu
      refine (h.le u hu).trans_lt ?_
      rw [hsum, Nat.cast_lt, hlen]
      omega
    constructor
    · rw [hsubs]
      intro u hu
      rcases List.mem_append.1 hu with hu | hu
      · exact hold u hu
      · rw [List.mem_singleton.1 hu, hsum]
    · rw [hsubs, List.pairwise_append]
      refine ⟨h.lt, List.pairwise_singleton _ _, fun u hu u' hu' => ?_⟩
      rw [List.mem_singleton.1 hu']
      exact hless u hu

theorem growing_of_recorded {s : Setup} {a : CharDistributionAlgo} (halgo : s.aAnalysisAlgo = .charDistribution a)
    {log : List (Handled F)} (h : EachEntry (Recorded s) log) (hbytes : ∀ e ∈ log, e.payload ≠ []) :
    Growing a.m_Decoded.length s log := by
  induction log using List.reverseRecOn with
  | nil => exact ⟨by simp, .nil⟩
  | append_singleton log e ih =>
    obtain ⟨hlog, he⟩ := eachEntry_snoc.1 h
    exact (ih hlog fun e' he' => hbytes e' (List.mem_append_left _ he')).snoc halgo he (hbytes e (by simp))

/-- Without empty packets no two points are equal. -/
theorem Tracked.distinct {s : Setup} {a : CharDistributionAlgo} (halgo : s.aAnalysisAlgo = .charDistribution a)
    {w : World F} (h : Tracked s w) (hbytes : ∀ e ∈ w.log, e.payload ≠ []) :
    (w.engine.kmeans.m_PointVector.map (·.m_Vector)).Nodup := by
  rw [h.ledger.vectors.nodup_iff]
  refine (growing_of_recorded halgo h.recorded hbytes).lt.imp fun {v v'} hlt => ?_
  rintro rfl
  exact lt_irrefl _ hlt

/-! ## Main theorem -/

theorem Tracked.populated_step {s : Setup} {a : CharDistributionAlgo} (halgo : s.aAnalysisAlgo = .charDistribution a)
    (hn : 1 ≤ s.aNumMeansForClassification.toNat) (hlt : s.aNumMeansForClassification.toNat < NUMTYPES)
    {w w' : World F} {ev : Event F} (h : Tracked s w) (hbytes : ∀ e ∈ w.log, e.payload ≠ [])
    (hk : Engine.Populated s.aNumMeansForClassification w.engine.kmeans) (hs : w.step ev = some w') :
    Engine.Populated s.aNumMeansForClassification w'.engine.kmeans := by
  have hdistinct := h.distinct halgo hbytes
  cases h.engineStep hs with
  | rest _ he => exact he ▸ hk
  | submit _ bytes he =>
    refine hk.step hn hlt hdistinct (fun v hv => ?_) he
    cases hv
    rw [halgo]
    exact charDistribution_length a bytes
  | thread hact he => exact hk.step hn hlt hdistinct (fun v hv => absurd hv (act?_ne_submit hact v)) he

/-- In every run of a learner with the character distribution and fewer than
`NUMTYPES` means that observes fewer than 2^16 packets, as long as fewer than
2^32 have been handled: if no packet was empty, every pass that updates finds a
point for each mean, and divides by no zero. -/
theorem nonempty_packets_served {s : Setup} {a : CharDistributionAlgo} (halgo : s.aAnalysisAlgo = .charDistribution a)
    (hn : 1 ≤ s.aNumMeansForClassification.toNat) (hlt : s.aNumMeansForClassification.toNat < NUMTYPES)
    (hmax : s.aMaxPacketsToObserve.toNat < 2 ^ 16) {evs : List (Event F)} {w : World F}
    (h : run step (start s) evs = some w) (hfew : w.log.length < 2 ^ 32) (hbytes : ∀ e ∈ w.log, e.payload ≠ []) :
    EveryStep step (fun w ev => InThread Engine.Updates w ev → Engine.Served w.engine.kmeans) (start s) evs := by
  have hlogs : EveryState step (fun w => w.log.length < 2 ^ 32 ∧ ∀ e ∈ w.log, e.payload ≠ []) (start s) evs := by
    refine .of_last (fun w₁ ev w₂ hs hw => ?_) h ⟨hfew, hbytes⟩
    obtain ⟨-, es, hlog, -⟩ := run_acts hs
    rw [hlog, List.length_append] at hw
    exact ⟨by omega, fun e he => hw.2 e (List.mem_append_left _ he)⟩
  have hpopulated : EveryState step (fun w => Tracked s w ∧
      Engine.Populated s.aNumMeansForClassification w.engine.kmeans) (start s) evs := by
    refine .of_inv _ (fun w _ => w.log.length < 2 ^ 32 ∧ ∀ e ∈ w.log, e.payload ≠ []) (fun w₁ ev w₂ hi hw hs => ?_)
      ⟨tracked_start s, .new _⟩ hlogs.everyStep
    exact ⟨hi.1.step hs, hi.1.populated_step halgo hn hlt hw.2 hi.2 hs⟩
  apply (hpopulated.everyStep.and hlogs.everyStep).mono
  rintro w₁ ev ⟨⟨ht, hk⟩, hshort, -⟩ ⟨act, -, hup⟩
  have hpoints := ((ht.admissionLaw_iff halgo).2 hshort).points
  exact hk.served hn hlt hup.2.2.1 (by omega)

theorem threeLetters_served : ∃ w : World ℚ, run step (start sampleSetup) threeLetters = some w ∧
    EveryStep step (fun w ev => InThread Engine.Updates w ev → Engine.Served w.engine.kmeans) (start sampleSetup)
      threeLetters := by
  have hrun : (run step (start sampleSetup) threeLetters).map (fun w : World ℚ =>
      (w.log.length, decide (∀ e ∈ w.log, e.payload ≠ []))) = some (3, true) := by decide +kernel
  obtain ⟨w, hw, he⟩ := Option.map_eq_some_iff.1 hrun
  simp only [Prod.mk.injEq, decide_eq_true_eq] at he
  exact ⟨w, hw, nonempty_packets_served (a := ⟨[]⟩) rfl (by decide) (by decide) (by decide) hw (by omega) he.2⟩

/-- Two packets without bytes, and a letter. -/
def twoEmpty : List (Event ℚ) :=
  [.worker .id, .worker .id] ++ packet .highToLow noBytes 7 ++ packet .highToLow noBytes 7 ++
    [.worker .id, .worker .id] ++ packet .highToLow (oneByte 65) 7 ++ [.worker .id]

/-- Both means are drawn from nothing, and the first has all points. -/
theorem twoEmpty_not_served : ¬ EveryStep step (fun w ev => InThread Engine.Updates w ev → Engine.Served w.engine.kmeans)
    (start sampleSetup) twoEmpty := by
  decide +kernel

end Exact

end ProtocolLearner.World
