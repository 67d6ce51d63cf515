import ProtocolLearner.Handlers
/-!
# What reaches the engine

Which packets are submitted, and as which vectors. The test on the two 32-bit
counters admits the first `m_MaxPacketsToObserve` packets and no other as long
as fewer than 2^32 packets have been handled (`admission_iff`). The algorithm
object is shared by all packets, so a packet is analysed on its own exactly if
the object was new and no byte was admitted before it (`analysis_iff`).
-/

namespace ProtocolLearner.World

open Machine KMeans

variable {T : Type} [Scalar T]

/-! ## Admission -/

/-- The engine has received one point for each of the first `max` packets, and none for a later one. -/
structure AdmissionLaw (max : UInt32) (w : World T) : Prop where
  each : EachEntry (fun pre e => e.submitted.isSome = true ↔ pre.length < max.toNat) w.log
  points : w.engine.kmeans.m_PointVector.length = min w.log.length max.toNat

theorem admitted_iff (max : UInt32) (i : Nat) : Admitted max i ↔ (i + 1) % 2 ^ 32 ≤ max.toNat := by
  unfold Admitted
  rw [UInt32.le_iff_toNat_le, UInt32.toNat_ofNat']

omit [Scalar T] in
theorem length_submitted {m : Nat} {log : List (Handled T)}
    (h : EachEntry (fun pre e => e.submitted.isSome = true ↔ pre.length < m) log) :
    (log.filterMap Handled.submitted).length = min log.length m := by
  induction log using List.reverseRecOn with
  | nil => simp
  | append_singleton log e ih =>
    obtain ⟨hlog, he⟩ := eachEntry_snoc.1 h
    rw [List.filterMap_append, List.length_append, ih hlog, List.length_append, List.length_singleton]
    cases hs : e.submitted with
    | none =>
      have : ¬ log.length < m := by
        intro hlt
        simpa [hs] using he.2 hlt
      simp [hs]
      omega
    | some v =>
      have : log.length < m := he.1 (by simp [hs])
      simp [hs]
      omega

theorem charDistribution_length (a : CharDistributionAlgo) (bytes : List UInt8) :
    (((PacketAnalysisAlgo.charDistribution a).mAnalyse bytes).mGetAnalysis : List T).length = NUMTYPES := by
  simp [PacketAnalysisAlgo.mAnalyse, PacketAnalysisAlgo.mGetAnalysis, CharDistributionAlgo.mGetAnalysis,
    countTypes_length]

theorem charDistribution_ne_nil (a : CharDistributionAlgo) (bytes : List UInt8) :
    ((PacketAnalysisAlgo.charDistribution a).mAnalyse bytes).mGetAnalysis ≠ ([] : List T) := by
  intro h
  have hlen := charDistribution_length (T := T) a bytes
  rw [h] at hlen
  cases hlen

/-- With the character distribution every admitted packet is submitted. -/
theorem submitted_iff {s : Setup} {a : CharDistributionAlgo} (halgo : s.aAnalysisAlgo = .charDistribution a)
    {pre : List (Handled T)} {e : Handled T} (h : Recorded s pre e) :
    e.submitted.isSome = true ↔ Admitted s.aMaxPacketsToObserve pre.length := by
  have ha := h.analysis
  by_cases hadm : Admitted s.aMaxPacketsToObserve pre.length
  · rw [if_pos hadm, halgo] at ha
    obtain ⟨x, xs, hx⟩ := List.exists_cons_of_ne_nil
      (charDistribution_ne_nil (T := T) a (admittedBytes s.aMaxPacketsToObserve pre ++ e.payload))
    rw [hx] at ha
    simp [Handled.submitted, ha, hadm]
  · rw [if_neg hadm] at ha
    simp [Handled.submitted, ha, hadm]

theorem Tracked.admissionLaw_iff {s : Setup} {a : CharDistributionAlgo}
    (halgo : s.aAnalysisAlgo = .charDistribution a) {w : World T} (h : Tracked s w) :
    AdmissionLaw s.aMaxPacketsToObserve w ↔ w.log.length < 2 ^ 32 := by
  have hmax := s.aMaxPacketsToObserve.toNat_lt
  constructor
  · intro hlaw
    by_contra! hlong
    -- At packet number 2^32 the sum of the counters is back at 0, which every maximum admits.
    have hi : 2 ^ 32 - 1 < w.log.length := by omega
    have hlen : (w.log.take (2 ^ 32 - 1)).length = 2 ^ 32 - 1 := by
      rw [List.length_take, Nat.min_eq_left hi.le]
    have hadm : Admitted s.aMaxPacketsToObserve (w.log.take (2 ^ 32 - 1)).length := by
      rw [admitted_iff, hlen]
      exact Nat.zero_le _
    have hsub := (submitted_iff halgo (eachEntry_iff.1 h.recorded _ hi)).2 hadm
    have := (eachEntry_iff.1 hlaw.each _ hi).1 hsub
    omega
  · intro hshort
    have heach : EachEntry (fun pre e => e.submitted.isSome = true ↔ pre.length < s.aMaxPacketsToObserve.toNat)
        w.log := by
      intro pre e post hsplit
      have hlen := congrArg List.length hsplit
      rw [List.length_append, List.length_cons] at hlen
      rw [submitted_iff halgo (h.recorded _ _ _ hsplit), admitted_iff, Nat.mod_eq_of_lt (by omega)]
      omega
    exact ⟨heach, by rw [h.ledger.length, length_submitted heach]⟩

/-- In every run of a learner with the character distribution, the first
`m_MaxPacketsToObserve` packets handled and no others reach the engine,
exactly if fewer than 2^32 packets were handled. -/
theorem admission_iff {s : Setup} {a : CharDistributionAlgo} (halgo : s.aAnalysisAlgo = .charDistribution a)
    {evs : List (Event T)} {w : World T} (h : run step (start s) evs = some w) :
    AdmissionLaw s.aMaxPacketsToObserve w ↔ w.log.length < 2 ^ 32 :=
  (tracked_of_run h).admissionLaw_iff halgo

/-! ### Samples and long runs -/

/-- Two means, at most three packets, and no return port yet. -/
def sampleSetup : Setup where
  highToLowAddress := "127.0.0.1"
  highToLowPort := 9001
  lowToHighAddress := "127.0.0.1"
  lowToHighPort := 0
  aNumMeansForClassification := 2
  aMaxPacketsToObserve := 3
  aAnalysisAlgo := .charDistribution ⟨[]⟩

def noBytes : Datagram := ⟨[], by simp⟩

def oneByte (b : UInt8) : Datagram := ⟨[b], by simp [bufferSize]⟩

/-- A packet arrives on a pair, is handled and sent on. -/
def packet (d : Direction) (datagram : Datagram) (port : UInt16) : List (Event T) :=
  [.complete d (.success datagram ⟨"127.0.0.1", port⟩), .handle d .returns]

/-- The HighToLow pair can take another packet. -/
structure Listening (w : World T) : Prop where
  posted : (w.learner.pair .highToLow).receive = .posted
  outbound : (w.learner.pair .highToLow).m_FinalEndpoint ≠ none
  running : ¬ w.engine.IsTerminated

theorem worker_mProcessPacket (bytes : List UInt8) (l : CUdpProtocolLearner T) :
    (l.mProcessPacket bytes).m_MessageClassificationEngine.worker = l.m_MessageClassificationEngine.worker := by
  rw [CUdpProtocolLearner.engine_mProcessPacket]
  split <;> rfl

omit [Scalar T] in
theorem terminated_congr {w w' : World T} (h : w'.engine.worker = w.engine.worker) :
    w'.engine.IsTerminated ↔ w.engine.IsTerminated := by
  rw [Engine.IsTerminated, Engine.IsTerminated, h]

theorem Listening.packet {w : World T} (h : Listening w) (datagram : Datagram) (port : UInt16) :
    ∃ w', run step w (packet .highToLow datagram port) = some w' ∧ Listening w' ∧
      w'.log.length = w.log.length + 1 := by
  obtain ⟨sentTo, hsent⟩ := Option.ne_none_iff_exists'.1 h.outbound
  let c : Completion := .success datagram ⟨"127.0.0.1", port⟩
  let w₁ : World T := { w with learner := w.learner.setPair ((w.learner.pair .highToLow).complete c) .highToLow }
  have h₁ : w.step (.complete .highToLow c) = some w₁ := by
    simp only [step, if_neg h.running, if_pos h.posted, w₁]
  have hengine₁ : w₁.engine = w.engine := CUdpProtocolLearner.engine_setPair _ _ _
  have hc : (w₁.learner.pair .highToLow).receive = .completed c := by simp [w₁]
  let l := (w₁.counted .highToLow c).mProcessPacket (w₁.receivedBytes .highToLow c)
  have hpair : (l.pair .highToLow).m_FinalEndpoint = some sentTo := by
    rw [CUdpProtocolLearner.pair_highToLow_mProcessPacket, counted, CUdpProtocolLearner.pair_setPair]
    simp only [w₁, CUdpProtocolLearner.pair_setPair]
    exact hsent
  have hworker : l.m_MessageClassificationEngine.worker = w.engine.worker := by
    rw [worker_mProcessPacket, counted, CUdpProtocolLearner.engine_setPair]
    exact congrArg Engine.worker hengine₁
  let w₂ : World T := {
    learner := l.setPair ((l.pair .highToLow).afterSend .returns) .highToLow
    log := w₁.log ++ [w₁.entry .highToLow c sentTo .returns] }
  have h₂ : w₁.step (.handle .highToLow .returns) = some w₂ := by
    unfold step
    rw [if_neg (hengine₁ ▸ h.running)]
    simp only [hc, handle_receive_from]
    rw [hpair]
  refine ⟨w₂, run_cons_some.2 ⟨w₁, h₁, run_cons_some.2 ⟨w₂, h₂, rfl⟩⟩, ⟨?_, ?_, ?_⟩, List.length_append⟩
  · simp [w₂, CUdpPair.afterSend, CUdpPair.mStartReceive]
  · simp [w₂, hpair]
  · rw [terminated_congr (w := w)]
    · exact h.running
    · rw [← hworker]
      exact congrArg Engine.worker (CUdpProtocolLearner.engine_setPair _ _ _)

theorem exists_run_packets {s : Setup} (hport : s.highToLowPort ≠ 0) (datagram : Datagram) (port : UInt16) (N : Nat) :
    ∃ w : World T, run step (start s) (List.replicate N (packet .highToLow datagram port)).flatten = some w ∧
      Listening w ∧ w.log.length = N := by
  induction N with
  | zero =>
    have hfinal : ((start s : World T).learner.pair .highToLow).m_FinalEndpoint =
        some ⟨s.highToLowAddress, s.highToLowPort⟩ := if_pos hport
    exact ⟨start s, rfl, ⟨rfl, by simp [hfinal], running_start s⟩, rfl⟩
  | succ N ih =>
    obtain ⟨w, hrun, hw, hlen⟩ := ih
    obtain ⟨w', hrun', hw', hlen'⟩ := hw.packet datagram port
    refine ⟨w', ?_, hw', hlen'.trans (by rw [hlen])⟩
    rw [List.replicate_succ', List.flatten_append, List.flatten_singleton, run_append, hrun]
    exact hrun'

theorem threePackets_admitted : ∃ w : World ℚ,
    run step (start sampleSetup) (List.replicate 4 (packet .highToLow (oneByte 65) 7)).flatten = some w ∧
      AdmissionLaw 3 w := by
  obtain ⟨w, hrun, -, hlen⟩ := exists_run_packets (T := ℚ) (s := sampleSetup) (by decide) (oneByte 65) 7 4
  exact ⟨w, hrun, (admission_iff (a := ⟨[]⟩) rfl hrun).2 (by omega)⟩

/-- Packet number 2^32 is admitted, whatever the maximum. -/
theorem counters_wrap : ∃ (evs : List (Event ℚ)) (w : World ℚ), run step (start sampleSetup) evs = some w ∧
    w.log.length = 2 ^ 32 ∧ ¬ AdmissionLaw 3 w := by
  obtain ⟨w, hrun, -, hlen⟩ := exists_run_packets (T := ℚ) (s := sampleSetup) (by decide) (oneByte 65) 7 (2 ^ 32)
  refine ⟨_, w, hrun, hlen, ?_⟩
  intro hlaw
  have := ((tracked_of_run hrun).admissionLaw_iff (a := ⟨[]⟩) rfl).1 hlaw
  omega

/-! ## Analysis -/

/-- Every admitted packet is analysed as a new algorithm object would analyse it alone. -/
def AnalysisLaw (s : Setup) (w : World T) : Prop :=
  ∀ e ∈ w.log, ∀ v, e.analysis = some v → v = (s.aAnalysisAlgo.fresh.mAnalyse e.payload).mGetAnalysis

/-- No byte is analysed before an admitted packet: none by the object the
learner was given, none of an earlier packet. -/
def NothingBefore (s : Setup) (log : List (Handled T)) : Prop :=
  EachEntry (fun pre _ => Admitted s.aMaxPacketsToObserve pre.length →
    s.aAnalysisAlgo.m_Decoded = [] ∧ admittedBytes s.aMaxPacketsToObserve pre = []) log

instance (s : Setup) (log : List (Handled T)) : Decidable (NothingBefore s log) :=
  inferInstanceAs (Decidable (EachEntry _ log))

theorem m_Decoded_length (a : PacketAnalysisAlgo) (bytes : List UInt8) :
    (a.mAnalyse bytes).m_Decoded.length = a.m_Decoded.length + bytes.length := by
  cases a <;> simp [PacketAnalysisAlgo.mAnalyse, PacketAnalysisAlgo.m_Decoded, CharDistributionAlgo.mAnalyse,
    RunLengthAlgo.mAnalyse]

theorem fresh_of_m_Decoded {a : PacketAnalysisAlgo} (h : a.m_Decoded = []) : a.fresh = a := by
  rcases a with ⟨⟨d⟩⟩ | ⟨⟨d⟩⟩ <;> simp_all [PacketAnalysisAlgo.m_Decoded, PacketAnalysisAlgo.fresh]

theorem m_Decoded_fresh (a : PacketAnalysisAlgo) : a.fresh.m_Decoded = [] := by cases a <;> rfl

/-- The bytes before a packet show in its analysis. -/
theorem analysis_eq_iff (a : PacketAnalysisAlgo) (before : List UInt8) (e : Handled T) :
    ((a.mAnalyse (before ++ e.payload)).mGetAnalysis : List T) = (a.fresh.mAnalyse e.payload).mGetAnalysis ↔
      a.m_Decoded = [] ∧ before = [] := by
  constructor
  · intro h
    -- Equal analyses count equally many bytes, as a datagram is far shorter than 2^24.
    have hbound : e.payload.length ≤ bufferSize := e.completion.payload_fits
    have hshort : (a.fresh.mAnalyse e.payload).m_Decoded.length < 2 ^ 24 := by
      rw [m_Decoded_length, m_Decoded_fresh, List.length_nil]
      unfold bufferSize at hbound
      omega
    have hlen := PacketAnalysisAlgo.length_of_analysis hshort h
    rw [m_Decoded_length, m_Decoded_length, m_Decoded_fresh, List.length_append, List.length_nil] at hlen
    exact ⟨List.eq_nil_of_length_eq_zero (by omega), List.eq_nil_of_length_eq_zero (by omega)⟩
  · rintro ⟨ha, rfl⟩
    rw [fresh_of_m_Decoded ha]
    rfl

/-- In every run the engine holds what the handlers submitted, and each
admitted packet is analysed on its own exactly if nothing was analysed before
an admitted packet. -/
theorem analysis_iff {s : Setup} {evs : List (Event T)} {w : World T} (h : run step (start s) evs = some w) :
    Ledger (w.log.filterMap Handled.submitted) w.engine.kmeans ∧ (AnalysisLaw s w ↔ NothingBefore s w.log) := by
  have ht := tracked_of_run h
  refine ⟨ht.ledger, fun hlaw => ?_, fun hnothing e he v hv => ?_⟩
  · intro pre e post hsplit hadm
    have ha := (ht.recorded _ _ _ hsplit).analysis
    rw [if_pos hadm] at ha
    exact (analysis_eq_iff _ _ e).1 (hlaw e (by simp [hsplit]) _ ha)
  · obtain ⟨pre, post, hsplit⟩ := List.append_of_mem he
    have ha := (ht.recorded _ _ _ hsplit).analysis
    rw [hv] at ha
    split at ha
    · next hadm =>
      rw [Option.some.inj ha]
      exact (analysis_eq_iff _ _ e).2 (hnothing _ _ _ hsplit hadm)
    · cases ha

/-- An empty packet, then a letter. -/
def emptyFirst : List (Event ℚ) := packet .highToLow noBytes 7 ++ packet .highToLow (oneByte 65) 7

theorem emptyFirst_alone : ∃ w, run step (start sampleSetup) emptyFirst = some w ∧ w.log.length = 2 ∧
    AnalysisLaw sampleSetup w := by
  have hrun : (run step (start sampleSetup) emptyFirst).map
      (fun w => (w.log.length, decide (NothingBefore sampleSetup w.log))) = some (2, true) := by decide +kernel
  obtain ⟨w, hw, he⟩ := Option.map_eq_some_iff.1 hrun
  simp only [Prod.mk.injEq, decide_eq_true_eq] at he
  exact ⟨w, hw, he.1, (analysis_iff hw).2.2 he.2⟩

/-- A letter, then another. -/
def twoLetters : List (Event ℚ) := packet .highToLow (oneByte 65) 7 ++ packet .lowToHigh (oneByte 66) 8

/-- The second letter is submitted as two letters. -/
theorem twoLetters_not_alone :
    ∃ w, run step (start sampleSetup) twoLetters = some w ∧ ¬ AnalysisLaw sampleSetup w := by
  have hrun : (run step (start sampleSetup) twoLetters).map (fun w => w.log.map fun e => (e.analysis, e.payload)) =
      some [(some [1, 0, 0, 0, 0], [65]), (some [2, 0, 0, 0, 0], [66])] := by decide +kernel
  obtain ⟨w, hw, hlog⟩ := Option.map_eq_some_iff.1 hrun
  refine ⟨w, hw, ?_⟩
  intro hlaw
  have hmem : (some [2, 0, 0, 0, 0], [66]) ∈ w.log.map fun e => (e.analysis, e.payload) := by simp [hlog]
  obtain ⟨e, he, hentry⟩ := List.mem_map.1 hmem
  rw [Prod.mk.injEq] at hentry
  have halone := hlaw e he _ hentry.1
  rw [hentry.2] at halone
  exact absurd halone (by decide +kernel)

end ProtocolLearner.World
