import ProtocolLearner.Learner
import ProtocolLearner.Points
/-!
# What the handlers leave behind

A handler sees its datagram's bytes, analyses everything admitted so far with
them, and tests the number of packets so far as 32 bits hold it
(`tracked_of_run`).
-/

namespace ProtocolLearner

open Machine KMeans

/-! ## Frames -/

namespace CUdpProtocolLearner

variable {T : Type}

@[simp] theorem pair_setPair (l : CUdpProtocolLearner T) (p : CUdpPair) (d : Direction) :
    (l.setPair p d).pair d = p := by cases d <;> rfl

theorem pair_setPair_ne (l : CUdpProtocolLearner T) (p : CUdpPair) {d d' : Direction} (h : d' ≠ d) :
    (l.setPair p d).pair d' = l.pair d' := by cases d <;> cases d' <;> first | rfl | exact absurd rfl h

section setPair
variable (l : CUdpProtocolLearner T) (p : CUdpPair) (d : Direction)

@[simp] theorem means_setPair : (l.setPair p d).m_NumMeansForClassification = l.m_NumMeansForClassification := by
  cases d <;> rfl

@[simp] theorem max_setPair : (l.setPair p d).m_MaxPacketsToObserve = l.m_MaxPacketsToObserve := by cases d <;> rfl

@[simp] theorem engine_setPair :
    (l.setPair p d).m_MessageClassificationEngine = l.m_MessageClassificationEngine := by cases d <;> rfl

@[simp] theorem seen_setPair : (l.setPair p d).m_DownwardTrafficSeen = l.m_DownwardTrafficSeen := by cases d <;> rfl

@[simp] theorem algo_setPair : (l.setPair p d).m_AlgoPointer = l.m_AlgoPointer := by cases d <;> rfl

end setPair

/-- What the handler of a pair does to the other pair, and processing a packet
to either: at most it redirects it. -/
structure SameWire (p p' : CUdpPair) : Prop where
  buffer : p'.m_ReceiveBuffer = p.m_ReceiveBuffer
  remote : p'.m_RemoteEndpoint = p.m_RemoteEndpoint
  seen : p'.m_PacketsSeen = p.m_PacketsSeen
  receive : p'.receive = p.receive

variable [Scalar T]

@[simp] theorem pair_observePacket (bytes : List UInt8) (l : CUdpProtocolLearner T) (d : Direction) :
    (l.observePacket bytes).pair d = l.pair d := by
  unfold observePacket
  split <;> cases d <;> rfl

omit [Scalar T] in
theorem sameWire_learnReturnPort (l : CUdpProtocolLearner T) (d : Direction) :
    SameWire (l.pair d) (l.learnReturnPort.pair d) := by
  unfold learnReturnPort
  split
  · exact ⟨rfl, rfl, rfl, rfl⟩
  · cases d <;> exact ⟨rfl, rfl, rfl, rfl⟩

theorem sameWire_mProcessPacket (bytes : List UInt8) (l : CUdpProtocolLearner T) (d : Direction) :
    SameWire (l.pair d) ((l.mProcessPacket bytes).pair d) := by
  have h := sameWire_learnReturnPort (l.observePacket bytes) d
  rwa [pair_observePacket] at h

theorem pair_highToLow_mProcessPacket (bytes : List UInt8) (l : CUdpProtocolLearner T) :
    (l.mProcessPacket bytes).pair .highToLow = l.pair .highToLow := by
  unfold mProcessPacket
  rw [← pair_observePacket bytes l .highToLow]
  unfold learnReturnPort
  split <;> rfl

section mProcessPacket
variable (bytes : List UInt8) (l : CUdpProtocolLearner T)

omit [Scalar T] in
theorem learnReturnPort_rest (l : CUdpProtocolLearner T) :
    l.learnReturnPort.m_NumMeansForClassification = l.m_NumMeansForClassification ∧
    l.learnReturnPort.m_MaxPacketsToObserve = l.m_MaxPacketsToObserve ∧
    l.learnReturnPort.m_MessageClassificationEngine = l.m_MessageClassificationEngine ∧
    l.learnReturnPort.m_AlgoPointer = l.m_AlgoPointer := by
  unfold learnReturnPort
  split <;> exact ⟨rfl, rfl, rfl, rfl⟩

theorem means_mProcessPacket :
    (l.mProcessPacket bytes).m_NumMeansForClassification = l.m_NumMeansForClassification := by
  unfold mProcessPacket
  rw [(learnReturnPort_rest _).1, observePacket]
  split <;> rfl

theorem max_mProcessPacket : (l.mProcessPacket bytes).m_MaxPacketsToObserve = l.m_MaxPacketsToObserve := by
  unfold mProcessPacket
  rw [(learnReturnPort_rest _).2.1, observePacket]
  split <;> rfl

theorem algo_mProcessPacket : (l.mProcessPacket bytes).m_AlgoPointer =
    if l.Admits then l.m_AlgoPointer.mAnalyse bytes else l.m_AlgoPointer := by
  unfold mProcessPacket
  rw [(learnReturnPort_rest _).2.2.2, observePacket]
  split <;> rfl

theorem engine_mProcessPacket : (l.mProcessPacket bytes).m_MessageClassificationEngine =
    if l.Admits ∧ l.lAnalysis bytes ≠ [] then l.m_MessageClassificationEngine.submit (l.lAnalysis bytes)
    else l.m_MessageClassificationEngine := by
  unfold mProcessPacket
  rw [(learnReturnPort_rest _).2.2.1, observePacket]
  by_cases h : l.Admits
  · by_cases hnil : l.lAnalysis bytes = []
    · simp [h, hnil]
    · simp [h, hnil]
  · simp [h]

end mProcessPacket

end CUdpProtocolLearner

namespace World

variable {T : Type} [Scalar T]

/-- Every step that `step` allows. -/
inductive Transition (w : World T) : Event T → World T → Prop where
  | complete {d c} (h : (w.learner.pair d).receive = .posted) :
    Transition w (.complete d c) { w with learner := w.learner.setPair ((w.learner.pair d).complete c) d }
  | handle {d c sentTo outcome} (h : (w.learner.pair d).receive = .completed c)
    (hsent : (((w.counted d c).mProcessPacket (w.receivedBytes d c)).pair d).m_FinalEndpoint = some sentTo) :
    Transition w (.handle d outcome) {
      learner := ((w.counted d c).mProcessPacket (w.receivedBytes d c)).setPair
        ((((w.counted d c).mProcessPacket (w.receivedBytes d c)).pair d).afterSend outcome) d
      log := w.log ++ [w.entry d c sentTo outcome] }
  | thread {ev act e} (hact : ev.act? = some act)
    (h : Engine.step w.learner.m_NumMeansForClassification w.engine act = some e) : Transition w ev (w.setEngine e)

theorem transition_of_step {w w' : World T} {ev : Event T} (h : w.step ev = some w') : Transition w ev w' := by
  unfold step at h
  split at h
  · cases h
  · cases ev with
    | complete d c =>
      dsimp only at h
      split at h
      · next hp => cases h; exact .complete hp
      · cases h
    | handle d outcome =>
      dsimp only at h
      split at h
      · next c hc =>
        unfold handle_receive_from at h
        dsimp only at h
        split at h
        · cases h
        · next sentTo hs => cases h; exact .handle hc hs
      · cases h
      · cases h
    | worker | spurious | notify | stop =>
      obtain ⟨e, he, rfl⟩ := Option.map_eq_some_iff.1 h
      exact .thread rfl he

end World

/-! ## What is recorded -/

/-- The test on the wrapped counters, when `i` handlers have run before. -/
def Admitted (max : UInt32) (i : Nat) : Prop := UInt32.ofNat (i + 1) ≤ max

instance (max : UInt32) (i : Nat) : Decidable (Admitted max i) := inferInstanceAs (Decidable (_ ≤ _))

namespace Handled

variable {T : Type}

def payload (e : Handled T) : List UInt8 := e.completion.payload

/-- The vector the handler submitted, if it did. -/
def submitted (e : Handled T) : Option (List T) :=
  match e.analysis with
  | some [] | none => none
  | some (x :: xs) => some (x :: xs)

end Handled

variable {T : Type}

/-- The payloads admitted so far, one after the other. -/
def admittedBytes (max : UInt32) (log : List (Handled T)) : List UInt8 :=
  (log.zipIdx.filter fun e => Admitted max e.2).flatMap fun e => e.1.payload

theorem admittedBytes_snoc (max : UInt32) (log : List (Handled T)) (e : Handled T) :
    admittedBytes max (log ++ [e]) =
      admittedBytes max log ++ if Admitted max log.length then e.payload else [] := by
  unfold admittedBytes
  rw [List.zipIdx_append, List.filter_append, List.flatMap_append]
  by_cases h : Admitted max log.length
  · simp [h]
  · simp [h]

theorem PacketAnalysisAlgo.mAnalyse_nil (a : PacketAnalysisAlgo) : a.mAnalyse [] = a := by
  cases a <;> simp [mAnalyse, CharDistributionAlgo.mAnalyse, RunLengthAlgo.mAnalyse]

theorem PacketAnalysisAlgo.mAnalyse_append (a : PacketAnalysisAlgo) (xs ys : List UInt8) :
    a.mAnalyse (xs ++ ys) = (a.mAnalyse xs).mAnalyse ys := by
  cases a <;> simp [mAnalyse, CharDistributionAlgo.mAnalyse, RunLengthAlgo.mAnalyse]

variable [Scalar T]

/-- What a handler records, given the log it appends to. -/
structure Recorded (s : Setup) (pre : List (Handled T)) (e : Handled T) : Prop where
  sent : e.sent = e.payload
  analysis : e.analysis =
    if Admitted s.aMaxPacketsToObserve pre.length then
      some (s.aAnalysisAlgo.mAnalyse (admittedBytes s.aMaxPacketsToObserve pre ++ e.payload)).mGetAnalysis
    else none

namespace World

/-- How the learner's state follows from the log. -/
structure Tracked (s : Setup) (w : World T) : Prop where
  means : w.learner.m_NumMeansForClassification = s.aNumMeansForClassification
  max : w.learner.m_MaxPacketsToObserve = s.aMaxPacketsToObserve
  buffer : ∀ d c, (w.learner.pair d).receive = .completed c →
    (w.learner.pair d).m_ReceiveBuffer.take c.payload.length = c.payload
  seen : ∀ d, (w.learner.pair d).m_PacketsSeen = UInt32.ofNat (w.log.countP (·.direction = d))
  algo : w.learner.m_AlgoPointer = s.aAnalysisAlgo.mAnalyse (admittedBytes s.aMaxPacketsToObserve w.log)
  recorded : EachEntry (Recorded s) w.log
  ledger : Ledger (w.log.filterMap Handled.submitted) w.engine.kmeans

omit [Scalar T] in
theorem running_start (s : Setup) : ¬ (start s : World T).engine.IsTerminated := by
  rintro ⟨e, he⟩
  cases he

theorem tracked_start (s : Setup) : Tracked s (start s : World T) where
  means := rfl
  max := rfl
  buffer d c h := by cases d <;> cases h
  seen d := by cases d <;> rfl
  algo := (PacketAnalysisAlgo.mAnalyse_nil _).symm
  recorded := .nil _
  ledger := ledger_new _

omit [Scalar T] in
theorem length_eq_countP (log : List (Handled T)) : log.length =
    log.countP (·.direction = .highToLow) + log.countP (·.direction = .lowToHigh) := by
  induction log with
  | nil => rfl
  | cons e log ih =>
    cases h : e.direction with
    | highToLow => simp [h]; omega
    | lowToHigh => simp [h]; omega

/-- A counted packet is admitted if the number of packets so far, as 32 bits hold it, is. -/
theorem Tracked.admits {s : Setup} {w : World T} (h : Tracked s w) (d : Direction) (c : Completion) :
    (w.counted d c).Admits ↔ Admitted s.aMaxPacketsToObserve w.log.length := by
  -- Whichever counter the packet went to, the sum has grown by one, also where it wraps.
  have hsum : (w.counted d c).m_HighToLowUdpPair.m_PacketsSeen + (w.counted d c).m_LowToHighUdpPair.m_PacketsSeen =
      w.learner.m_HighToLowUdpPair.m_PacketsSeen + w.learner.m_LowToHighUdpPair.m_PacketsSeen + 1 := by
    cases d with
    | highToLow =>
      show (_ + 1) + _ = _
      rw [UInt32.add_assoc, UInt32.add_comm 1, ← UInt32.add_assoc]
      rfl
    | lowToHigh =>
      show _ + (_ + 1) = _
      rw [UInt32.add_assoc]
      rfl
  have hhigh : w.learner.m_HighToLowUdpPair.m_PacketsSeen = _ := h.seen .highToLow
  have hlow : w.learner.m_LowToHighUdpPair.m_PacketsSeen = _ := h.seen .lowToHigh
  have hmax : (w.counted d c).m_MaxPacketsToObserve = s.aMaxPacketsToObserve := by
    unfold counted
    rw [CUdpProtocolLearner.max_setPair, h.max]
  unfold CUdpProtocolLearner.Admits
  rw [hsum, hmax, hhigh, hlow, ← UInt32.ofNat_add, ← length_eq_countP, Admitted,
    UInt32.ofNat_add]
  rfl

theorem Tracked.receivedBytes {s : Setup} {w : World T} (h : Tracked s w) {d : Direction} {c : Completion}
    (hc : (w.learner.pair d).receive = .completed c) : w.receivedBytes d c = c.payload := h.buffer d c hc

/-- The analysis a handler makes is of everything admitted up to its packet. -/
theorem Tracked.analysis {s : Setup} {w : World T} (h : Tracked s w) {d : Direction} {c : Completion}
    (hc : (w.learner.pair d).receive = .completed c) :
    (w.counted d c).lAnalysis (w.receivedBytes d c) =
      (s.aAnalysisAlgo.mAnalyse (admittedBytes s.aMaxPacketsToObserve w.log ++ c.payload)).mGetAnalysis := by
  rw [h.receivedBytes hc, PacketAnalysisAlgo.mAnalyse_append, ← h.algo]
  simp [CUdpProtocolLearner.lAnalysis, CUdpProtocolLearner.lPacketAnalyser, PacketAnalyser.mAnalysePacket,
    PacketAnalyser.mGetAnalysis, counted]

theorem Tracked.entry {s : Setup} {w : World T} (h : Tracked s w) {d : Direction} {c : Completion}
    (hc : (w.learner.pair d).receive = .completed c) (sentTo : Endpoint) (outcome : SendOutcome) :
    Recorded s w.log (w.entry d c sentTo outcome) where
  sent := h.receivedBytes hc
  analysis := by
    simp only [World.entry, h.admits, h.analysis hc]
    rfl

/-- The engine after a handler: an admitted packet is submitted if its analysis is not empty. -/
theorem engine_handle (w : World T) (d : Direction) (c : Completion) (outcome : SendOutcome) (log : List (Handled T)) :
    let l := (w.counted d c).mProcessPacket (w.receivedBytes d c)
    (World.mk (l.setPair ((l.pair d).afterSend outcome) d) log).engine =
      if (w.counted d c).Admits ∧ (w.counted d c).lAnalysis (w.receivedBytes d c) ≠ [] then
        w.engine.submit ((w.counted d c).lAnalysis (w.receivedBytes d c))
      else w.engine := by
  have hengine : (w.counted d c).m_MessageClassificationEngine = w.engine := CUdpProtocolLearner.engine_setPair _ _ _
  simp only [engine, CUdpProtocolLearner.engine_setPair, CUdpProtocolLearner.engine_mProcessPacket]
  rw [hengine]
  rfl

/-- It has what the handler recorded as submitted. -/
theorem Tracked.ledger_handle {s : Setup} {w : World T} (h : Tracked s w) {d : Direction} {c : Completion}
    (sentTo : Endpoint) (outcome : SendOutcome) :
    Ledger ((w.log ++ [w.entry d c sentTo outcome]).filterMap Handled.submitted)
      (if (w.counted d c).Admits ∧ (w.counted d c).lAnalysis (w.receivedBytes d c) ≠ [] then
        w.engine.submit ((w.counted d c).lAnalysis (w.receivedBytes d c))
      else w.engine).kmeans := by
  rw [List.filterMap_append]
  by_cases hadm : (w.counted d c).Admits
  · cases hv : (w.counted d c).lAnalysis (w.receivedBytes d c) with
    | nil => simpa [hadm, hv, World.entry, Handled.submitted, List.filterMap_cons] using h.ledger
    | cons x xs =>
      have hsubmit := h.ledger.submit (x :: xs)
      simpa [hadm, hv, World.entry, Handled.submitted, Engine.submit, List.filterMap_cons] using hsubmit
  · simpa [hadm, World.entry, Handled.submitted, List.filterMap_cons] using h.ledger

omit [Scalar T] in
@[simp] theorem seen_afterSend (outcome : SendOutcome) (p : CUdpPair) :
    (p.afterSend outcome).m_PacketsSeen = p.m_PacketsSeen := by cases outcome <;> rfl

omit [Scalar T] in
@[simp] theorem final_afterSend (outcome : SendOutcome) (p : CUdpPair) :
    (p.afterSend outcome).m_FinalEndpoint = p.m_FinalEndpoint := by cases outcome <;> rfl

omit [Scalar T] in
/-- A pair that has counted a packet holds no completed receive, however its `send_to` ends. -/
theorem receive_afterSend (outcome : SendOutcome) (n : Nat) (p : CUdpPair) (c : Completion) :
    ((p.countPacket n).afterSend outcome).receive ≠ .completed c := by
  cases outcome <;> simp [CUdpPair.afterSend, CUdpPair.mStartReceive, CUdpPair.countPacket]

omit [Scalar T] in
/-- What comes after a call of `send_to` is up to its outcome. -/
theorem sameWire_afterSend {p p' : CUdpPair} (h : CUdpProtocolLearner.SameWire p p') (outcome : SendOutcome) :
    CUdpProtocolLearner.SameWire (p.afterSend outcome) (p'.afterSend outcome) := by
  cases outcome with
  | returns => exact ⟨h.buffer, h.remote, h.seen, rfl⟩
  | throws => exact h

/-- The pairs after a handler: its own has counted the packet, and listens again
unless `send_to` has thrown. -/
theorem pair_handle (w : World T) (d d' : Direction) (c : Completion) (outcome : SendOutcome) :
    let l := (w.counted d c).mProcessPacket (w.receivedBytes d c)
    CUdpProtocolLearner.SameWire
      (if d' = d then ((w.learner.pair d).countPacket c.payload.length).afterSend outcome else w.learner.pair d')
      ((l.setPair ((l.pair d).afterSend outcome) d).pair d') := by
  intro l
  have hwire := CUdpProtocolLearner.sameWire_mProcessPacket (w.receivedBytes d c) (w.counted d c) d'
  by_cases hd : d' = d
  · subst hd
    simp only [if_true, CUdpProtocolLearner.pair_setPair]
    rw [counted, CUdpProtocolLearner.pair_setPair] at hwire
    exact sameWire_afterSend hwire outcome
  · rw [if_neg hd, CUdpProtocolLearner.pair_setPair_ne _ _ hd]
    rwa [counted, CUdpProtocolLearner.pair_setPair_ne _ _ hd] at hwire

theorem Tracked.handle {s : Setup} {w : World T} (h : Tracked s w) {d : Direction} {c : Completion}
    {sentTo : Endpoint} {outcome : SendOutcome} (hc : (w.learner.pair d).receive = .completed c) : Tracked s {
      learner := ((w.counted d c).mProcessPacket (w.receivedBytes d c)).setPair
        ((((w.counted d c).mProcessPacket (w.receivedBytes d c)).pair d).afterSend outcome) d
      log := w.log ++ [w.entry d c sentTo outcome] } where
  means := by simp [CUdpProtocolLearner.means_mProcessPacket, counted, h.means]
  max := by simp [CUdpProtocolLearner.max_mProcessPacket, counted, h.max]
  buffer d' c' hc' := by
    have hwire := pair_handle w d d' c outcome
    rw [hwire.receive] at hc'
    rw [hwire.buffer]
    by_cases hd : d' = d
    · rw [if_pos hd] at hc'
      exact absurd hc' (receive_afterSend _ _ _ _)
    · rw [if_neg hd] at hc' ⊢
      exact h.buffer d' c' hc'
  seen d' := by
    have hwire := pair_handle w d d' c outcome
    rw [hwire.seen, List.countP_append]
    by_cases hd : d' = d
    · subst hd
      simp [CUdpPair.countPacket, h.seen, World.entry, UInt32.ofNat_add]
    · simp [hd, Ne.symm hd, h.seen, World.entry]
  algo := by
    have halgo : (w.counted d c).m_AlgoPointer = w.learner.m_AlgoPointer := CUdpProtocolLearner.algo_setPair _ _ _
    rw [admittedBytes_snoc, CUdpProtocolLearner.algo_setPair, CUdpProtocolLearner.algo_mProcessPacket, halgo, h.algo,
      h.receivedBytes hc]
    simp only [h.admits d c]
    split
    · rw [PacketAnalysisAlgo.mAnalyse_append]
      rfl
    · simp
  recorded := eachEntry_snoc.2 ⟨h.recorded, h.entry hc sentTo outcome⟩
  ledger := by
    rw [engine_handle]
    exact h.ledger_handle sentTo outcome

omit [Scalar T] in
theorem act?_ne_submit {ev : Event T} {act : Act T} (h : ev.act? = some act) (v : List T) : act ≠ .submit v := by
  rintro rfl
  cases ev <;> simp [Event.act?] at h

/-- A step of a thread other than a submission adds no point. -/
theorem ledger_thread {subs : List (List T)} {n : UInt16} {eng eng' : Engine T} {act : Act T} (h : Ledger subs eng.kmeans)
    (hs : Engine.step n eng act = some eng') (hact : ∀ v, act ≠ .submit v) : Ledger subs eng'.kmeans := by
  cases Engine.transition_of_step hs with
  | start | leave | enter | wait | spurious | notify => exact h
  | submit => exact absurd rfl (hact _)
  | stop => exact ⟨h.points, h.next⟩
  | fail _ _ hpass | lastPass _ _ hpass => exact h.of_untouched (Engine.untouched_of_pass hpass)
  | pass _ _ hpass =>
    have hk := h.of_untouched (Engine.untouched_of_pass hpass)
    exact ⟨hk.points, hk.next⟩

omit [Scalar T] in
theorem take_complete (c : Completion) (p : CUdpPair) :
    (p.complete c).m_ReceiveBuffer.take c.payload.length = c.payload := by
  cases c with
  | success datagram source => simp [CUdpPair.complete, Completion.payload]
  | failure => simp [CUdpPair.complete, Completion.payload]

omit [Scalar T] in
@[simp] theorem receive_complete (c : Completion) (p : CUdpPair) : (p.complete c).receive = .completed c := by
  cases c <;> rfl

omit [Scalar T] in
@[simp] theorem seen_complete (c : Completion) (p : CUdpPair) : (p.complete c).m_PacketsSeen = p.m_PacketsSeen := by
  cases c <;> rfl

omit [Scalar T] in
theorem pair_complete (w : World T) (d d' : Direction) (c : Completion) :
    (w.learner.setPair ((w.learner.pair d).complete c) d).pair d' =
      if d' = d then (w.learner.pair d).complete c else w.learner.pair d' := by
  by_cases hd : d' = d
  · simp [hd]
  · simp [hd, CUdpProtocolLearner.pair_setPair_ne]

theorem Tracked.complete {s : Setup} {w : World T} (h : Tracked s w) (d : Direction) (c : Completion) :
    Tracked s { w with learner := w.learner.setPair ((w.learner.pair d).complete c) d } where
  means := by simp [h.means]
  max := by simp [h.max]
  buffer d' c' hc' := by
    rw [pair_complete] at hc' ⊢
    by_cases hd : d' = d
    · simp only [hd, if_true, receive_complete, Receive.completed.injEq] at hc' ⊢
      rw [← hc', take_complete]
    · rw [if_neg hd] at hc' ⊢
      exact h.buffer d' c' hc'
  seen d' := by
    rw [pair_complete]
    split
    · next hd => rw [seen_complete, h.seen, hd]
    · exact h.seen d'
  algo := by simp [h.algo]
  recorded := h.recorded
  ledger := by
    show Ledger _ (CUdpProtocolLearner.m_MessageClassificationEngine _).kmeans
    rw [CUdpProtocolLearner.engine_setPair]
    exact h.ledger

theorem Tracked.step {s : Setup} {w w' : World T} {ev : Event T} (h : Tracked s w) (hs : w.step ev = some w') :
    Tracked s w' := by
  cases transition_of_step hs with
  | complete => exact h.complete _ _
  | handle hc => exact h.handle hc
  | thread hact he =>
    exact ⟨h.means, h.max, h.buffer, h.seen, h.algo, h.recorded, ledger_thread h.ledger he (act?_ne_submit hact)⟩

theorem tracked_of_run {s : Setup} {evs : List (Event T)} {w : World T} (h : run step (start s) evs = some w) :
    Tracked s w := run_inv (Tracked s) (fun _ _ _ ht hs => ht.step hs) h (tracked_start s)

end World

end ProtocolLearner
