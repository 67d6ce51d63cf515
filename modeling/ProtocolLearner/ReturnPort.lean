import ProtocolLearner.Observation
/-!
# The return port

The first handler to run, of either pair, sets the port the LowToHigh pair
sends to, from whatever the HighToLow pair has received by then. If that is
nothing the port is 0 for good. So `send_to` is handed the right port exactly
if a HighToLow datagram has arrived by the first handler, or nothing goes back
(`return_port_iff`). Where it is handed port 0 it throws, and the LowToHigh pair
stops listening.
-/

namespace ProtocolLearner

open Machine

def Completion.sourcePort : Completion → Option UInt16
  | success _ source => some source.port
  | failure => none

/-- The event is not the failure of a receive. -/
def Event.Arrives {T : Type} : Event T → Prop
  | .complete _ .failure => False
  | _ => True

namespace World

variable {T : Type}

def firstHigh (log : List (Handled T)) : Option (Handled T) := log.find? (·.direction = .highToLow)

/-- `send_to` is never handed port 0, and for what goes back after the first
HighToLow datagram it is handed the port that one came from. -/
structure ReturnPortLaw (log : List (Handled T)) : Prop where
  nonzero : ∀ e ∈ log, e.sentTo.port ≠ 0
  learned : EachEntry (fun pre e => e.direction = .lowToHigh → ∀ f, firstHigh pre = some f →
    f.completion.sourcePort = some e.sentTo.port) log

/-- The client port that the first handler sees, or would see if it ran now. -/
def firstPort (w : World T) : UInt16 :=
  match w.log with
  | [] => w.learner.m_HighToLowUdpPair.mGetPortOfClient
  | e :: _ => e.clientPort

/-- The first HighToLow datagram, handled or waiting for its handler, came from `port`. -/
def FirstFrom (port : UInt16) (w : World T) : Prop :=
  match firstHigh w.log with
  | some f => f.completion.sourcePort = some port
  | none => ∃ c, (w.learner.pair .highToLow).receive = .completed c ∧ c.sourcePort = some port

/-- Where the two pairs send to. -/
structure Directed (s : Setup) (w : World T) : Prop where
  arrived : ∀ d c, (w.learner.pair d).receive = .completed c →
    c.sourcePort = some (w.learner.pair d).mGetPortOfClient
  outbound : (w.learner.pair .highToLow).m_FinalEndpoint =
    if s.highToLowPort ≠ 0 then some ⟨s.highToLowAddress, s.highToLowPort⟩ else none
  seen : w.learner.m_DownwardTrafficSeen = true ↔ w.log ≠ []
  back : w.log ≠ [] → ∃ address, (w.learner.pair .lowToHigh).m_FinalEndpoint = some ⟨address, w.firstPort⟩
  sent : ∀ e ∈ w.log, if e.direction = .highToLow then e.sentTo.port ≠ 0 else e.sentTo.port = w.firstPort
  client : w.firstPort ≠ 0 → FirstFrom w.firstPort w

theorem directed_start (s : Setup) : Directed s (start s : World T) where
  arrived d c h := by cases d <;> cases h
  outbound := rfl
  seen := by simp [start, CUdpProtocolLearner.mStartListening, CUdpProtocolLearner.new]
  back h := absurd rfl h
  sent e h := by cases h
  client h := absurd rfl h

theorem Directed.complete {s : Setup} {w : World T} (h : Directed s w) {d : Direction} {datagram : Datagram}
    {source : Endpoint} (hp : (w.learner.pair d).receive = .posted) : Directed s { w with
      learner := w.learner.setPair ((w.learner.pair d).complete (.success datagram source)) d } where
  arrived d' c hc := by
    rw [pair_complete] at hc ⊢
    split at hc
    · next hd =>
      simp only [receive_complete, Receive.completed.injEq] at hc
      simp [hd, ← hc, Completion.sourcePort, CUdpPair.complete, CUdpPair.mGetPortOfClient]
    · next hd =>
      rw [if_neg hd]
      exact h.arrived d' c hc
  outbound := by
    rw [pair_complete]
    split
    · next hd => simpa [CUdpPair.complete, hd] using h.outbound
    · exact h.outbound
  seen := by rw [CUdpProtocolLearner.seen_setPair]; exact h.seen
  back hlog := by
    have hfirst : firstPort { w with
        learner := w.learner.setPair ((w.learner.pair d).complete (.success datagram source)) d } = w.firstPort := by
      cases hw : w.log with
      | nil => exact absurd hw hlog
      | cons e log => simp [firstPort, hw]
    obtain ⟨address, hback⟩ := h.back hlog
    refine ⟨address, ?_⟩
    rw [pair_complete, hfirst]
    split
    · next hd => simpa [CUdpPair.complete, hd] using hback
    · exact hback
  sent e he := by
    cases hw : w.log with
    | nil => simp [hw] at he
    | cons e₀ log => simpa [firstPort, hw] using h.sent e he
  client hport := by
    cases d with
    | lowToHigh => exact h.client hport
    | highToLow =>
      cases hw : w.log with
      | nil =>
        simp only [FirstFrom, firstHigh, firstPort, List.find?_nil, CUdpProtocolLearner.pair_setPair, receive_complete]
        exact ⟨_, rfl, rfl⟩
      | cons e₀ log =>
        have hold : FirstFrom w.firstPort w := h.client (by simpa [firstPort, hw] using hport)
        simp only [FirstFrom, firstPort, hw] at hold ⊢
        split at hold
        · next f hf => simpa [hf] using hold
        · -- A HighToLow datagram that waits for its handler leaves no receive to complete.
          obtain ⟨c, hc, -⟩ := hold
          rw [hp] at hc
          cases hc

variable [Scalar T]

omit [Scalar T] in
theorem final_setPair (l : CUdpProtocolLearner T) (d d' : Direction) (outcome : SendOutcome) :
    ((l.setPair ((l.pair d).afterSend outcome) d).pair d').m_FinalEndpoint = (l.pair d').m_FinalEndpoint := by
  by_cases hd : d' = d
  · subst hd
    simp
  · rw [CUdpProtocolLearner.pair_setPair_ne _ _ hd]

/-- Where the LowToHigh pair sends once a packet has been processed. -/
theorem back_mProcessPacket (bytes : List UInt8) (l : CUdpProtocolLearner T) :
    ((l.mProcessPacket bytes).pair .lowToHigh).m_FinalEndpoint =
      if l.m_DownwardTrafficSeen then (l.pair .lowToHigh).m_FinalEndpoint
      else some ⟨(l.pair .lowToHigh).m_IpAddressToSendTo, (l.pair .highToLow).mGetPortOfClient⟩ := by
  have hseen : (l.observePacket bytes).m_DownwardTrafficSeen = l.m_DownwardTrafficSeen := by
    unfold CUdpProtocolLearner.observePacket
    split <;> rfl
  unfold CUdpProtocolLearner.mProcessPacket
  rw [← CUdpProtocolLearner.pair_observePacket bytes l .lowToHigh,
    ← CUdpProtocolLearner.pair_observePacket bytes l .highToLow, ← hseen, CUdpProtocolLearner.learnReturnPort]
  split <;> rfl

theorem seen_mProcessPacket (bytes : List UInt8) (l : CUdpProtocolLearner T) :
    (l.mProcessPacket bytes).m_DownwardTrafficSeen = true := by
  unfold CUdpProtocolLearner.mProcessPacket CUdpProtocolLearner.learnReturnPort
  split
  · next h => exact h
  · rfl

/-- The pairs' outbound ends after a handler. -/
theorem Directed.final_handle {s : Setup} {w : World T} (h : Directed s w) (d : Direction) (c : Completion) :
    (((w.counted d c).mProcessPacket (w.receivedBytes d c)).pair .highToLow).m_FinalEndpoint =
        (if s.highToLowPort ≠ 0 then some ⟨s.highToLowAddress, s.highToLowPort⟩ else none) ∧
      ∃ address, (((w.counted d c).mProcessPacket (w.receivedBytes d c)).pair .lowToHigh).m_FinalEndpoint =
        some ⟨address, w.firstPort⟩ := by
  have hseen : (w.counted d c).m_DownwardTrafficSeen = w.learner.m_DownwardTrafficSeen :=
    CUdpProtocolLearner.seen_setPair _ _ _
  have hfinal (d' : Direction) : ((w.counted d c).pair d').m_FinalEndpoint = (w.learner.pair d').m_FinalEndpoint := by
    cases d <;> cases d' <;> rfl
  refine ⟨by rw [CUdpProtocolLearner.pair_highToLow_mProcessPacket, hfinal]; exact h.outbound, ?_⟩
  rw [back_mProcessPacket, hseen, hfinal]
  by_cases hlog : w.log = []
  · have hclient : ((w.counted d c).pair .highToLow).mGetPortOfClient = w.firstPort := by
      simp only [firstPort, hlog]
      cases d <;> rfl
    rw [if_neg (by rw [h.seen]; exact not_not.2 hlog), hclient]
    exact ⟨_, rfl⟩
  · rw [if_pos (h.seen.2 hlog)]
    exact h.back hlog

theorem clientPort_entry (d : Direction) (c : Completion) (sentTo : Endpoint) (outcome : SendOutcome) (w : World T) :
    (w.entry d c sentTo outcome).clientPort = w.learner.m_HighToLowUdpPair.mGetPortOfClient := by
  cases d <;> rfl

theorem firstPort_handle (w : World T) (l : CUdpProtocolLearner T) (d : Direction) (c : Completion)
    (sentTo : Endpoint) (outcome : SendOutcome) :
    firstPort ⟨l, w.log ++ [w.entry d c sentTo outcome]⟩ = w.firstPort := by
  unfold firstPort
  cases hw : w.log with
  | nil => exact clientPort_entry d c sentTo outcome w
  | cons e log => rfl

theorem Directed.handle {s : Setup} {w : World T} (h : Directed s w) {d : Direction} {c : Completion}
    {sentTo : Endpoint} {outcome : SendOutcome} (hc : (w.learner.pair d).receive = .completed c)
    (hsent : (((w.counted d c).mProcessPacket (w.receivedBytes d c)).pair d).m_FinalEndpoint = some sentTo) :
    Directed s {
      learner := ((w.counted d c).mProcessPacket (w.receivedBytes d c)).setPair
        ((((w.counted d c).mProcessPacket (w.receivedBytes d c)).pair d).afterSend outcome) d
      log := w.log ++ [w.entry d c sentTo outcome] } where
  arrived d' c' hc' := by
    have hwire := pair_handle w d d' c outcome
    rw [hwire.receive] at hc'
    unfold CUdpPair.mGetPortOfClient
    rw [hwire.remote]
    by_cases hd : d' = d
    · rw [if_pos hd] at hc'
      exact absurd hc' (receive_afterSend _ _ _ _)
    · rw [if_neg hd] at hc' ⊢
      exact h.arrived d' c' hc'
  outbound := by
    rw [final_setPair]
    exact (h.final_handle d c).1
  seen := by simp [seen_mProcessPacket]
  back _ := by
    rw [final_setPair, firstPort_handle]
    exact (h.final_handle d c).2
  sent e he := by
    rw [firstPort_handle]
    rcases List.mem_append.1 he with he | he
    · exact h.sent e he
    · obtain rfl := List.mem_singleton.1 he
      obtain ⟨hhigh, address, hlow⟩ := h.final_handle d c
      cases d with
      | highToLow =>
        rw [hhigh, Option.ite_none_right_eq_some, Option.some.injEq] at hsent
        simp [entry, ← hsent.2, hsent.1]
      | lowToHigh =>
        rw [hlow, Option.some.injEq] at hsent
        simp [entry, ← hsent]
  client hport := by
    rw [firstPort_handle] at hport ⊢
    have hold := h.client hport
    simp only [FirstFrom, firstHigh, List.find?_append] at hold ⊢
    split at hold
    · next f hf => simpa [hf] using hold
    · next hf =>
      obtain ⟨c₀, hc₀, hfrom⟩ := hold
      cases d with
      | highToLow =>
        rw [hc, Receive.completed.injEq] at hc₀
        simpa [hf, entry, hc₀] using hfrom
      | lowToHigh =>
        have hwire := pair_handle w .lowToHigh .highToLow c outcome
        simp only [hf, Option.none_or, List.find?_cons, entry]
        exact ⟨c₀, hwire.receive.trans hc₀, hfrom⟩

theorem Directed.step {s : Setup} {w w' : World T} {ev : Event T} (h : Directed s w) (harrives : ev.Arrives)
    (hs : w.step ev = some w') : Directed s w' := by
  cases transition_of_step hs with
  | @complete d c hp =>
    cases c with
    | success datagram source => exact h.complete hp
    | failure => exact absurd harrives id
  | handle hc hsent => exact h.handle hc hsent
  | thread => exact ⟨h.arrived, h.outbound, h.seen, h.back, h.sent, h.client⟩

theorem directed_of_run {s : Setup} {evs : List (Event T)} (harrives : ∀ ev ∈ evs, ev.Arrives) {w : World T}
    (h : run step (start s) evs = some w) : Directed s w :=
  (EveryState.of_inv (Directed s) (fun _ ev => ev.Arrives) (fun _ _ _ hd ha hs => hd.step ha hs)
    (directed_start s) (EveryStep.of_mem harrives)).last h

omit [Scalar T] in
theorem Directed.returnPortLaw_iff {s : Setup} {w : World T} (h : Directed s w) :
    ReturnPortLaw w.log ↔ (∀ e ∈ w.log, e.direction = .highToLow) ∨ w.firstPort ≠ 0 := by
  constructor
  · intro hlaw
    by_contra! hnot
    obtain ⟨⟨e, he, hlow⟩, hzero⟩ := hnot
    have hsent := h.sent e he
    rw [if_neg hlow, hzero] at hsent
    exact hlaw.nonzero e he hsent
  · intro hcond
    refine ⟨fun e he => ?_, fun pre e post hsplit hlow f hf => ?_⟩
    · have hsent := h.sent e he
      split at hsent
      · exact hsent
      · next hlow =>
        rw [hsent]
        exact hcond.resolve_left fun hall => hlow (hall e he)
    · have he : e ∈ w.log := by simp [hsplit]
      have hfirst : w.firstPort ≠ 0 := hcond.resolve_left fun hall => by simp [hall e he] at hlow
      have hfrom := h.client hfirst
      have hsent := h.sent e he
      rw [if_neg (by simp [hlow])] at hsent
      have hlog : firstHigh w.log = some f := by
        unfold firstHigh
        rw [hsplit, List.find?_append]
        simp only [firstHigh] at hf
        rw [hf, Option.some_or]
      simp only [FirstFrom, hlog] at hfrom
      rw [hsent, hfrom]

/-- In every run without failed receives, `send_to` is handed the right return
port exactly if all packets come from the HighToLow pair, or that pair has
received a datagram from a port other than 0 by the time the first handler runs. -/
theorem return_port_iff {s : Setup} {evs : List (Event T)} (harrives : ∀ ev ∈ evs, ev.Arrives) {w : World T}
    (h : run step (start s) evs = some w) :
    ReturnPortLaw w.log ↔ (∀ e ∈ w.log, e.direction = .highToLow) ∨ w.firstPort ≠ 0 :=
  (directed_of_run harrives h).returnPortLaw_iff

/-- A datagram from port 55 goes down, and one comes back. -/
def downFirst : List (Event ℚ) := packet .highToLow (oneByte 65) 55 ++ packet .lowToHigh (oneByte 66) 8

theorem downFirst_returns : ∃ w, run step (start sampleSetup) downFirst = some w ∧
    w.log.map (·.sentTo.port) = [9001, 55] ∧ ReturnPortLaw w.log := by
  have hrun : (run step (start sampleSetup) downFirst).map (fun w => (w.log.map (·.sentTo.port), w.firstPort)) =
      some ([9001, 55], 55) := by decide +kernel
  obtain ⟨w, hw, he⟩ := Option.map_eq_some_iff.1 hrun
  rw [Prod.mk.injEq] at he
  refine ⟨w, hw, he.1, (return_port_iff ?_ hw).2 (.inr (by rw [he.2]; decide))⟩
  simp [downFirst, packet, Event.Arrives]

/-- One comes up first. Sending it on throws. -/
def upFirst : List (Event ℚ) :=
  [.complete .lowToHigh (.success (oneByte 66) ⟨"127.0.0.1", 8⟩), .handle .lowToHigh .throws]

/-- It is to go to port 0, and the LowToHigh pair has no receive under way any more. -/
theorem upFirst_lost : (∀ ev ∈ upFirst, ev.Arrives) ∧ ∃ w, run step (start sampleSetup) upFirst = some w ∧
    w.log.map (fun e => (e.direction, e.sentTo.port, e.outcome)) = [(.lowToHigh, 0, .throws)] ∧
    (w.learner.pair .lowToHigh).receive = .idle ∧ ¬ ReturnPortLaw w.log := by
  have hrun : (run step (start sampleSetup) upFirst).map (fun w =>
      (w.log.map (fun e => (e.direction, e.sentTo.port, e.outcome)), (w.learner.pair .lowToHigh).receive)) =
      some ([(.lowToHigh, 0, .throws)], .idle) := by decide +kernel
  obtain ⟨w, hw, he⟩ := Option.map_eq_some_iff.1 hrun
  rw [Prod.mk.injEq] at he
  obtain ⟨hlog, hidle⟩ := he
  refine ⟨by simp [upFirst, Event.Arrives], w, hw, hlog, hidle, ?_⟩
  intro hlaw
  have hmem : (Direction.lowToHigh, (0 : UInt16), SendOutcome.throws) ∈
      w.log.map fun e => (e.direction, e.sentTo.port, e.outcome) := by simp [hlog]
  obtain ⟨e, he, hentry⟩ := List.mem_map.1 hmem
  simp only [Prod.mk.injEq] at hentry
  exact hlaw.nonzero e he hentry.2.1

end World

end ProtocolLearner
