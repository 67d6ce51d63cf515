import ProtocolLearner.RoundTrip
/-!
# All frames come back

Nothing keeps a packet from moving on as long as the learner's process is alive
and no `send_to` throws. As the moves are bounded, the system comes to rest
however they are scheduled, and then everything has come back that was not lost
(`frames_come_back`). At rest, and with nothing lost or doubled, the counters of
the pairs and the number of points in the engine are what the test of a round
trip expects (`round_trip_counts`).
-/

namespace ProtocolLearner

open Machine

/-- A step that takes a packet further. -/
def SystemEvent.transports {T : Type} : SystemEvent T → Bool
  | deliver _ | handle _ => true
  | send _ | lose _ | double _ | thread _ => false

namespace System

variable {T : Type} [Scalar T] {top : Topology}

/-! ## How often packets move -/

/-- How many parties a packet to an endpoint has to pass. -/
def level (top : Topology) (e : Endpoint) : Nat :=
  match top.party e with
  | some .client => 1
  | some (.pair .lowToHigh) => 2
  | some .server => 3
  | some (.pair .highToLow) => 4
  | none => 0

theorem level_falls (top : Topology) (x : Party) (bytes : List UInt8) :
    (((plan top).forward x bytes).map fun p => level top p.1).sum < level top (top.inbound x) := by
  cases x with
  | pair d => cases d <;> simp [plan, nextHop, level, party_inbound]
  | server => simp [plan, level, party_inbound]
  | client => simp [plan, level, party_inbound]

def fall (top : Topology) : Network.Fall (plan top) where
  level := level top
  falls := level_falls top

theorem level_le (top : Topology) (e : Endpoint) : level top e ≤ 4 := by
  unfold level
  split <;> omega

omit [Scalar T] in
theorem Redirected.weight_sent {s : System T} (h : Redirected top s) :
    (fall top).weight s.client.sent = 8 * (requests top s).length := by
  obtain ⟨after, hsent, -⟩ := h.split
  have hhigh : level top (top.inbound (.pair .highToLow)) = 4 := by simp [level, party_inbound]
  have hlow : level top (top.outbound (.pair .lowToHigh)) = 0 := by simp [level, party_unheard]
  nth_rewrite 1 [hsent]
  rw [Network.Fall.weight_append]
  simp [Network.Fall.weight, fall, Function.comp_def, hhigh, hlow]
  omega

theorem weight_le (top : Topology) (ps : List (Endpoint × List UInt8)) : (fall top).weight ps ≤ 8 * ps.length := by
  have hsum : (ps.map fun p => level top p.1).sum ≤ 4 * ps.length := by
    induction ps with
    | nil => simp
    | cons p ps ih =>
      have hle := level_le top p.1
      simp only [List.map_cons, List.sum_cons, List.length_cons]
      omega
  unfold Network.Fall.weight
  simp only [fall]
  omega

/-- Packets move eight times for each request and each doubled packet at most. -/
theorem countP_transports_le {evs : List (SystemEvent T)} {s : System T} (h : run (step top) (start top) evs = some s) :
    evs.countP SystemEvent.transports ≤ 8 * ((requests top s).length + s.doubled.length) := by
  obtain ⟨-, hr⟩ := redirected_of_run h
  have hcount : ((simulation T top).trace (start top) evs).countP Network.Move.transports =
      evs.countP SystemEvent.transports := by
    refine Simulation.countP_trace (fun s ev => ?_) wired_start h
    cases ev <;> rfl
  have hbound := (fall top).transports_le (network_of_run h)
  have hdoubled := weight_le top (abs s).doubled
  have hsent : (abs s).sent = s.client.sent := rfl
  have hlen : (abs s).doubled.length = s.doubled.length := by simp [abs, outs]
  rw [hcount, hsent, hr.weight_sent] at hbound
  omega

/-! ## Nothing is stuck -/

/-- The learner's process has not ended. -/
def Alive (s : System T) : Prop := ¬ s.world.engine.IsTerminated

instance (s : System T) : Decidable s.Alive := inferInstanceAs (Decidable (¬ _))

/-- No `send_to` throws: who receives has a port, and the echo server makes no
more of a frame than can be sent. -/
structure SendsReturn (top : Topology) : Prop where
  ports : ∀ x, (top.inbound x).port ≠ 0
  echo : ∀ bytes : List UInt8, bytes.length ≤ maxPayload → (top.m_ProcessorCallback bytes).length ≤ maxPayload

omit [Scalar T] in
theorem nextHop_port (hsends : SendsReturn top) (d : Direction) : (nextHop top d).port ≠ 0 := by
  cases d with
  | highToLow => exact hsends.ports .server
  | lowToHigh => exact hsends.ports .client

omit [Scalar T] in
theorem listens_fits {r : Receive} (h : Listens r) {c : Completion} (hc : r = .completed c) :
    c.payload.length ≤ maxPayload := by
  subst hc
  exact h

theorem handle_pair_enabled {s : System T} (hw : Wired top s) (halive : s.Alive) (hsends : SendsReturn top)
    {d : Direction} {c : Completion} (hc : s.receive (.pair d) = .completed c) :
    ∃ s', s.step top (.handle (.pair d)) = some s' := by
  have hstep : ∃ w, s.world.step (.handle d .returns) = some w := by
    obtain ⟨hhigh, address, hlow⟩ := hw.directed.final_handle d c
    have hc' : (s.world.learner.pair d).receive = .completed c := hc
    rw [if_pos top.pair_opens] at hhigh
    unfold World.step
    rw [if_neg halive]
    cases d with
    | highToLow => simp [hc', World.handle_receive_from, hhigh]
    | lowToHigh => simp [hc', World.handle_receive_from, hlow]
  obtain ⟨w, hstep⟩ := hstep
  obtain ⟨c, e, hc, -, hlog, -, hsent, hto⟩ := hw.handlePair hstep
  have hlast : w.log.getLast? = some e := by simp [hlog]
  have hsend : Sendable e.sentTo e.sent :=
    ⟨hto ▸ nextHop_port hsends d, hsent ▸ listens_fits (hw.listening (.pair d)) hc⟩
  simp [step, handle, hstep, hlast, send_to, hsend]

theorem handle_enabled {s : System T} (hw : Wired top s) (halive : s.Alive) (hsends : SendsReturn top) {x : Party}
    {c : Completion} (hc : s.receive x = .completed c) : ∃ s', s.step top (.handle x) = some s' := by
  cases x with
  | pair d => exact handle_pair_enabled hw halive hsends hc
  | server =>
    have hc' : s.echo.server.receive = .completed c := hc
    have hsend : Sendable s.echo.server.m_RemoteEndpointToReplyTo
        (s.echo.server.m_ProcessorCallback (s.echo.server.lExtractedVec c.payload.length)) := by
      rw [hw.replies, hw.callback, hw.buffer c hc']
      exact ⟨hsends.ports _, hsends.echo _ (listens_fits (hw.listening .server) hc)⟩
    simp [step, handle, EchoWorld.step, hc', EchoWorld.handle_receive_from, send_to, hsend]
  | client =>
    have hc' : s.client.client.receive = .completed c := hc
    simp [step, handle, hc', ClientWorld.step]

theorem deliver_enabled {s : System T} (halive : s.Alive) {i : Nat} {p : Packet} {x : Party}
    (hp : s.flight[i]? = some p) (hx : top.party p.destination = some x) (hposted : s.receive x = .posted) :
    ∃ s', s.step top (.deliver i) = some s' := by
  cases x with
  | pair d =>
    have hposted' : (s.world.learner.pair d).receive = .posted := hposted
    simp [step, hp, hx, complete, World.step, if_neg halive, hposted']
  | server =>
    have hposted' : s.echo.server.receive = .posted := hposted
    simp [step, hp, hx, complete, EchoWorld.step, hposted']
  | client =>
    have hposted' : s.client.client.receive = .posted := hposted
    simp [step, hp, hx, complete, ClientWorld.step, hposted']

/-- Nothing can be delivered or handled. -/
def Settled (top : Topology) (s : System T) : Prop :=
  ∀ ev : SystemEvent T, ev.transports = true → s.step top ev = none

/-- Then there is nothing to deliver or handle. -/
theorem Wired.of_settled {s : System T} (hw : Wired top s) (halive : s.Alive) (hsends : SendsReturn top)
    (hset : Settled top s) : (∀ x, s.receive x = .posted) ∧ ∀ p ∈ s.flight, top.party p.destination = none := by
  have hposted (x : Party) : s.receive x = .posted := by
    cases hx : s.receive x with
    | posted => rfl
    | idle =>
      have hlistens := hw.listening x
      rw [hx] at hlistens
      exact hlistens.elim
    | completed c =>
      obtain ⟨s', hs'⟩ := handle_enabled hw halive hsends hx
      cases hs'.symm.trans (hset (.handle x) rfl)
  refine ⟨hposted, fun p hp => ?_⟩
  cases hx : top.party p.destination with
  | none => rfl
  | some x =>
    obtain ⟨i, hi⟩ := List.getElem?_of_mem hp
    obtain ⟨s', hs'⟩ := deliver_enabled halive hi hx (hposted x)
    cases hs'.symm.trans (hset (.deliver i) rfl)

theorem settled_of_rest {s : System T} (hposted : ∀ x, s.receive x = .posted)
    (hflight : ∀ p ∈ s.flight, top.party p.destination = none) : Settled top s := by
  intro ev hev
  cases ev with
  | send | lose | double | thread => cases hev
  | deliver i =>
    cases hi : s.flight[i]? with
    | none => simp [step, hi]
    | some p => simp [step, hi, hflight p (List.mem_of_getElem? hi)]
  | handle x =>
    have hx := hposted x
    cases x with
    | pair d =>
      have hd : (s.world.learner.pair d).receive = .posted := hx
      simp [step, handle, World.step, hd]
    | server =>
      have hd : s.echo.server.receive = .posted := hx
      simp [step, handle, EchoWorld.step, hd]
    | client =>
      have hd : s.client.client.receive = .posted := hx
      simp [step, handle, hd]

omit [Scalar T] in
theorem nothing_due {s : System T} (hposted : ∀ x, s.receive x = .posted)
    (hflight : ∀ p ∈ s.flight, top.party p.destination = none) : waiting top s = [] ∧ due top (outs s.flight) = [] := by
  constructor
  · simp [waiting, heldBy, hposted]
  · simp only [due, outs, List.filterMap_map, List.filterMap_eq_nil_iff]
    intro p hp
    simp [hflight p hp]

/-! ## Coming to rest -/

/-- What a transport leaves as it is. -/
structure Moved (top : Topology) (s s' : System T) : Prop where
  alive : s.Alive → s'.Alive
  sent : s'.client.sent = s.client.sent
  doubled : s'.doubled = s.doubled
  lost : s'.lost = s.lost

omit [Scalar T] in
theorem Moved.refl (s : System T) : Moved top s s := ⟨id, rfl, rfl, rfl⟩

omit [Scalar T] in
theorem Moved.trans {s s' s'' : System T} (h : Moved top s s') (h' : Moved top s' s'') : Moved top s s'' :=
  ⟨fun ha => h'.alive (h.alive ha), h'.sent.trans h.sent, h'.doubled.trans h.doubled, h'.lost.trans h.lost⟩

theorem worker_of_complete {w w' : World T} {d : Direction} {c : Completion} (h : w.step (.complete d c) = some w') :
    w'.engine.worker = w.engine.worker := by
  cases World.transition_of_step h with
  | complete => simp [World.engine]
  | thread hact => cases hact

theorem worker_of_handle {w w' : World T} {d : Direction} {outcome : SendOutcome}
    (h : w.step (.handle d outcome) = some w') : w'.engine.worker = w.engine.worker := by
  cases World.transition_of_step h with
  | @handle _ c =>
    simp only [World.engine, CUdpProtocolLearner.engine_setPair, World.worker_mProcessPacket, World.counted]
  | thread hact => cases hact

theorem moved_of_step {s s' : System T} {ev : SystemEvent T} (hev : ev.transports = true)
    (hs : s.step top ev = some s') : Moved top s s' := by
  cases transition_of_step hs with
  | send | lose | double | thread => cases hev
  | deliverPair hp hx hw =>
    exact ⟨fun ha => (World.terminated_congr (worker_of_complete hw)).not.2 ha, rfl, rfl, rfl⟩
  | handlePair hw => exact ⟨fun ha => (World.terminated_congr (worker_of_handle hw)).not.2 ha, rfl, rfl, rfl⟩
  | deliverServer | deliverClient | handleServer | handleClient => exact ⟨id, rfl, rfl, rfl⟩

theorem rank_lt_of_step {s s' : System T} {ev : SystemEvent T} (hw : Wired top s) (hev : ev.transports = true)
    (hs : s.step top ev = some s') : (fall top).rank (abs s') < (fall top).rank (abs s) := by
  have hmoved := moved_of_step hev hs
  have hsent : (abs s').sent = (abs s).sent := hmoved.sent
  have hdoubled : (abs s').doubled = (abs s).doubled := by simp [abs, hmoved.doubled]
  have hmove : ∃ m, m.transports = true ∧ Network.step (plan top) (abs s) m = some (abs s') := by
    cases ev with
    | deliver i => exact ⟨.deliver i, rfl, refines_deliver hs⟩
    | handle x => exact ⟨.handle x, rfl, refines_handle hw hs⟩
    | send | lose | double | thread => cases hev
  obtain ⟨m, hm, hstep⟩ := hmove
  have hrank := Network.Fall.rank_step (F := fall top) hstep
  rw [hm, if_pos rfl, hsent, hdoubled] at hrank
  omega

/-- From every state the transports lead to rest. -/
theorem exists_settled {s : System T} (hw : Wired top s) : ∃ post s', (∀ ev ∈ post, ev.transports = true) ∧
    run (step top) s post = some s' ∧ Settled top s' ∧ Moved top s s' := by
  induction hn : (fall top).rank (abs s) using Nat.strong_induction_on generalizing s with
  | _ n ih =>
    by_cases hset : Settled top s
    · exact ⟨[], s, by simp, rfl, hset, .refl s⟩
    · unfold Settled at hset
      push Not at hset
      obtain ⟨ev, hev, hne⟩ := hset
      obtain ⟨s₁, hs₁⟩ := Option.ne_none_iff_exists'.1 hne
      obtain ⟨post, s', hpost, hrun, hset', hmoved⟩ :=
        ih _ (hn ▸ rank_lt_of_step hw hev hs₁) (hw.step hs₁) rfl
      refine ⟨ev :: post, s', ?_, run_cons_some.2 ⟨s₁, hs₁, hrun⟩, hset', (moved_of_step hev hs₁).trans hmoved⟩
      rw [List.forall_mem_cons]
      exact ⟨hev, hpost⟩

/-- Nothing is pending at rest. -/
theorem received_of_settled {evs : List (SystemEvent T)} {s : System T} (h : run (step top) (start top) evs = some s)
    (halive : s.Alive) (hsends : SendsReturn top) (hset : Settled top s) :
    ((requests top s).map top.m_ProcessorCallback ++ due top (outs s.doubled)).Perm
      (s.received ++ due top (outs s.lost)) := by
  obtain ⟨hw, hr⟩ := redirected_of_run h
  obtain ⟨hposted, hflight⟩ := hw.of_settled halive hsends hset
  obtain ⟨hwaiting, hdue⟩ := nothing_due hposted hflight
  have hperm := hr.conserved ((frames top).balanced_of_run (network_of_run h))
  rw [hwaiting, hdue] at hperm
  exact hperm

/-- In every run packets move a bounded number of times. Whenever nothing can be
delivered or handled any more, the requests as the echo server changes them, and
what was doubled, have come back but for what was lost. And it can always come
to that by deliveries and handlers alone. -/
theorem frames_come_back {evs : List (SystemEvent T)} {s : System T} (h : run (step top) (start top) evs = some s)
    (halive : s.Alive) (hsends : SendsReturn top) :
    evs.countP SystemEvent.transports ≤ 8 * ((requests top s).length + s.doubled.length) ∧
      (Settled top s → ((requests top s).map top.m_ProcessorCallback ++ due top (outs s.doubled)).Perm
        (s.received ++ due top (outs s.lost))) ∧
      ∃ post s', (∀ ev ∈ post, ev.transports = true) ∧ run (step top) s post = some s' ∧ Settled top s' ∧
        ((requests top s).map top.m_ProcessorCallback ++ due top (outs s.doubled)).Perm
          (s'.received ++ due top (outs s.lost)) := by
  obtain ⟨hw, -⟩ := redirected_of_run h
  refine ⟨countP_transports_le h, received_of_settled h halive hsends, ?_⟩
  obtain ⟨post, s', hpost, hrun, hset, hmoved⟩ := exists_settled hw
  refine ⟨post, s', hpost, hrun, hset, ?_⟩
  have hall : run (step top) (start top) (evs ++ post) = some s' := by
    rw [run_append, h]
    exact hrun
  have hperm := received_of_settled hall (hmoved.alive halive) hsends hset
  have hrequests : requests top s' = requests top s := by
    unfold requests
    rw [hmoved.sent]
  rwa [hrequests, hmoved.doubled, hmoved.lost] at hperm

theorem sampleTopology_sends : SendsReturn sampleTopology where
  ports x := by rcases x with (_ | _) | _ | _ <;> decide
  echo bytes hbytes := by simpa [sampleTopology, lEchoFunctionIncrementAllBytes] using hbytes

/-- Two frames are on their way. -/
def twoSent : List (SystemEvent ℚ) := [.send [1], .send [2]]

theorem twoSent_come_back : ∃ s, run (step sampleTopology) (start sampleTopology) twoSent = some s ∧
    ∃ post s', run (step sampleTopology) s post = some s' ∧ Settled sampleTopology s' ∧
      ((requests sampleTopology s).map sampleTopology.m_ProcessorCallback ++
        due sampleTopology (outs s.doubled)).Perm (s'.received ++ due sampleTopology (outs s.lost)) := by
  have hrun : (run (step sampleTopology) (start sampleTopology) twoSent).map (decide ·.Alive) = some true := by
    decide +kernel
  obtain ⟨s, hs, halive⟩ := Option.map_eq_some_iff.1 hrun
  obtain ⟨-, -, post, s', -, hpost, hset, hperm⟩ :=
    frames_come_back hs (of_decide_eq_true halive) sampleTopology_sends
  exact ⟨s, hs, post, s', hpost, hset, hperm⟩

/-! ## The counters -/

/-- One for each packet that has yet to pass `x₀`. -/
def ahead (top : Topology) (x₀ : Party) (p : Endpoint × List UInt8) : Nat :=
  if level top (top.inbound x₀) ≤ level top p.1 then 1 else 0

theorem ahead_forward (x₀ x : Party) (bytes : List UInt8) : ahead top x₀ (top.inbound x, bytes) =
    (((plan top).forward x bytes).map (ahead top x₀)).sum + if x = x₀ then 1 else 0 := by
  rcases x with (_ | _) | _ | _ <;> rcases x₀ with (_ | _) | _ | _ <;>
    simp [ahead, plan, nextHop, level, party_inbound]

/-- Each request passes each party once. -/
def passes (top : Topology) (x₀ : Party) : Network.Books (plan top) Nat where
  weight := ahead top x₀
  used x _ := if x = x₀ then 1 else 0
  balance := ahead_forward x₀

omit [Scalar T] in
theorem done_passes (s : System T) (x₀ : Party) : (passes top x₀).done (abs s) = ((abs s).handled x₀).length := by
  have hused (x : Party) (l : List (List UInt8)) : (l.map ((passes top x₀).used x)).sum =
      if x = x₀ then l.length else 0 := by
    by_cases hx : x = x₀
    · simp [passes, hx]
    · simp [passes, hx]
  unfold Network.Books.done
  rw [sum_party]
  simp only [hused]
  rcases x₀ with (_ | _) | _ | _ <;> simp [Party.all]

theorem level_pos (top : Topology) (x : Party) : 0 < level top (top.inbound x) := by
  have hfalls := level_falls top x []
  omega

omit [Scalar T] in
theorem Redirected.sum_ahead {s : System T} (h : Redirected top s) (x : Party) :
    (s.client.sent.map (ahead top x)).sum = (requests top s).length := by
  obtain ⟨after, hsent, -⟩ := h.split
  have hhigh : level top (top.inbound x) ≤ level top (top.inbound (.pair .highToLow)) := by
    rcases x with (_ | _) | _ | _ <;> simp [level, party_inbound]
  have hlow : ¬ level top (top.inbound x) ≤ level top (top.outbound (.pair .lowToHigh)) := by
    have hpos := level_pos top x
    have hzero : level top (top.outbound (.pair .lowToHigh)) = 0 := by simp [level, party_unheard]
    omega
  nth_rewrite 1 [hsent]
  simp [ahead, Function.comp_def, hhigh, hlow]

omit [Scalar T] in
theorem pending_passes {s : System T} (hposted : ∀ x, s.receive x = .posted)
    (hflight : ∀ p ∈ s.flight, top.party p.destination = none) (x : Party) : (passes top x).pending (abs s) = 0 := by
  have hpos := level_pos top x
  have hzero : ∀ n ∈ (outs s.flight).map (ahead top x), n = 0 := by
    intro n hn
    simp only [outs, List.map_map, List.mem_map, Function.comp_apply] at hn
    obtain ⟨p, hp, rfl⟩ := hn
    have hlevel : level top p.destination = 0 := by simp [level, hflight p hp]
    simp only [ahead, hlevel, Nat.le_zero]
    rw [if_neg hpos.ne']
  unfold Network.Books.pending
  simp only [abs_held_none (hposted _), Option.elim_none, Finset.sum_const_zero, Nat.add_zero]
  exact List.sum_eq_zero hzero

/-- At rest, with nothing lost or doubled, each party has handled each request. -/
theorem handled_of_settled {evs : List (SystemEvent T)} {s : System T} (h : run (step top) (start top) evs = some s)
    (halive : s.Alive) (hsends : SendsReturn top) (hset : Settled top s) (hlost : s.lost = [])
    (hdoubled : s.doubled = []) (x : Party) : ((abs s).handled x).length = (requests top s).length := by
  obtain ⟨hw, hr⟩ := redirected_of_run h
  obtain ⟨hposted, hflight⟩ := hw.of_settled halive hsends hset
  have hbalance := (passes top x).balanced_of_run (network_of_run h)
  unfold Network.Books.Balanced at hbalance
  rw [pending_passes hposted hflight, done_passes] at hbalance
  have hsent : (abs s).sent.map (passes top x).weight = s.client.sent.map (ahead top x) := rfl
  rw [hsent, hr.sum_ahead] at hbalance
  simpa [abs, hlost, hdoubled, outs] using hbalance.symm

/-- What the test of a round trip expects of a system at rest, after `n` requests. -/
structure RoundTripCounts (top : Topology) (n : Nat) (s : System T) : Prop where
  callbacks : s.client.callbacks = n
  received : s.received.Perm ((requests top s).map top.m_ProcessorCallback)
  seen : ∀ d, (s.world.learner.pair d).m_PacketsSeen = UInt32.ofNat n
  points : s.world.engine.kmeans.m_PointVector.length = min (2 * n) top.setup.aMaxPacketsToObserve.toNat

/-- In every run with nothing lost or doubled, with the character distribution
and fewer than 2^31 requests, a system at rest has called the client back once
for each request, both pairs have counted all of them, and the engine has a
point for each packet of either pair up to the maximum. -/
theorem round_trip_counts {evs : List (SystemEvent T)} {s : System T} (h : run (step top) (start top) evs = some s)
    (halive : s.Alive) (hsends : SendsReturn top) (hset : Settled top s) (hlost : s.lost = [])
    (hdoubled : s.doubled = [])
    {a : CharDistributionAlgo} (halgo : top.setup.aAnalysisAlgo = .charDistribution a)
    (hshort : (requests top s).length < 2 ^ 31) : RoundTripCounts top (requests top s).length s := by
  obtain ⟨hw, hr⟩ := redirected_of_run h
  have hperm := received_of_settled h halive hsends hset
  simp only [hlost, hdoubled, outs, due, List.map_nil, List.filterMap_nil, List.append_nil] at hperm
  have hhandled (d : Direction) : s.world.log.countP (·.direction = d) = (requests top s).length := by
    have hlen := handled_of_settled h halive hsends hset hlost hdoubled (.pair d)
    simpa [abs, World.logOf, List.countP_eq_length_filter] using hlen
  have hlog : s.world.log.length = 2 * (requests top s).length := by
    rw [World.length_eq_countP, hhandled, hhandled]
    omega
  have hlaw := (hw.tracked.admissionLaw_iff halgo).2 (by omega)
  refine ⟨?_, hperm.symm, fun d => ?_, ?_⟩
  · rw [hr.callbacks, ← hperm.length_eq, List.length_map]
  · rw [hw.tracked.seen, hhandled]
  · rw [hlaw.points, hlog]

theorem thereAndBack_counts : ∃ s, run (step sampleTopology) (start sampleTopology) thereAndBack = some s ∧
    RoundTripCounts sampleTopology 1 s := by
  have hrun : (run (step sampleTopology) (start sampleTopology) thereAndBack).map (fun s =>
      (decide s.Alive, decide (∀ x, s.receive x = .posted),
        decide (∀ p ∈ s.flight, sampleTopology.party p.destination = none), s.lost.length, s.doubled.length,
        (requests sampleTopology s).length)) = some (true, true, true, 0, 0, 1) := by decide +kernel
  obtain ⟨s, hs, he⟩ := Option.map_eq_some_iff.1 hrun
  simp only [Prod.mk.injEq, decide_eq_true_eq, List.length_eq_zero_iff] at he
  obtain ⟨halive, hposted, hflight, hlost, hdoubled, hone⟩ := he
  have hcounts := round_trip_counts hs halive sampleTopology_sends (settled_of_rest hposted hflight)
    hlost hdoubled rfl (by omega)
  rw [hone] at hcounts
  exact ⟨s, hs, hcounts⟩

end System

end ProtocolLearner
