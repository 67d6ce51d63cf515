import Mathlib.Data.Multiset.AddSub
import ProtocolLearner.Wiring
/-!
# Round trips

What the client gets back. Whatever the network does, each frame that the client
has sent to the learner and each copy the network has made is on its way, waits
for a handler, has been lost or has come back changed by the echo server
(`frames_conserved`). What comes back comes in the order sent where the network
keeps the order (`frames_in_order`).

But the client's own sends are redirected by the first frame that comes back:
they go to the socket the LowToHigh pair sends from, where nobody receives
(`sends_redirected`).
-/

namespace ProtocolLearner.System

open Machine

variable {T : Type} [Scalar T]

/-! ## What becomes of a packet -/

/-- What the client gets of a payload that is on its way to a party or held by it. -/
def image (top : Topology) : Party → List UInt8 → List UInt8
  | .pair .highToLow, bytes | .server, bytes => top.m_ProcessorCallback bytes
  | .pair .lowToHigh, bytes | .client, bytes => bytes

/-- What the client gets of packets to these endpoints. -/
def due (top : Topology) (ps : List (Endpoint × List UInt8)) : List (List UInt8) :=
  ps.filterMap fun p => (top.party p.1).map fun x => image top x p.2

/-- The payload that waits for the handler of a party. -/
def heldBy (s : System T) (x : Party) : Option (List UInt8) :=
  match s.receive x with
  | .completed c => some c.payload
  | .idle | .posted => none

/-- What the client gets of the payloads that wait for handlers. -/
def waiting (top : Topology) (s : System T) : List (List UInt8) :=
  Party.all.filterMap fun x => (s.heldBy x).map (image top x)

/-- What the client gets of a packet, if anything, as a multiset. -/
def weight (top : Topology) (p : Endpoint × List UInt8) : Multiset (List UInt8) :=
  ((top.party p.1).map fun x => image top x p.2).elim 0 fun b => {b}

theorem weight_forward {top : Topology} (x : Party) (bytes : List UInt8) : weight top (top.inbound x, bytes) =
    (((plan top).forward x bytes).map (weight top)).sum + if x = .client then {bytes} else 0 := by
  cases x with
  | pair d => cases d <;> simp [weight, plan, party_inbound, nextHop, image]
  | server => simp [weight, plan, party_inbound, image]
  | client => simp [weight, plan, party_inbound, image]

/-- The image of a packet is conserved. -/
def frames (top : Topology) : Network.Books (plan top) (Multiset (List UInt8)) where
  weight := weight top
  used x bytes := if x = .client then {bytes} else 0
  balance := weight_forward

section sums
variable {top : Topology}

omit [Scalar T] in
theorem sum_frames (ps : List (Endpoint × List UInt8)) :
    (ps.map (frames top).weight).sum = (due top ps : Multiset _) := by
  induction ps with
  | nil => rfl
  | cons p ps ih =>
    rw [List.map_cons, List.sum_cons, ih]
    cases hp : top.party p.1 with
    | none => simp [frames, weight, due, hp]
    | some x => simp [frames, weight, due, hp]

/-- A sum over the parties. -/
theorem sum_party {M : Type} [AddCommMonoid M] (f : Party → M) : ∑ x, f x = (Party.all.map f).sum := rfl

omit [Scalar T] in
theorem sum_waiting (top : Topology) (s : System T) (l : List Party) :
    (l.map fun x => (s.heldBy x).elim 0 fun b => (frames top).weight (top.inbound x, b)).sum =
      (l.filterMap fun x => (s.heldBy x).map (image top x) : Multiset (List UInt8)) := by
  induction l with
  | nil => rfl
  | cons x l ih =>
    rw [List.map_cons, List.sum_cons, ih]
    cases hx : s.heldBy x with
    | none => simp [hx]
    | some b => simp [frames, weight, party_inbound, hx]

omit [Scalar T] in
theorem pending_frames (s : System T) : (frames top).pending (abs s) =
    (due top (outs s.flight) : Multiset _) + (waiting top s : Multiset _) := by
  have hheld := sum_waiting top s Party.all
  unfold Network.Books.pending
  rw [sum_party, waiting, ← hheld, ← sum_frames]
  rfl

omit [Scalar T] in
theorem done_frames (s : System T) : (frames top).done (abs s) = (s.received : Multiset _) := by
  have hused (x : Party) (l : List (List UInt8)) : (l.map ((frames top).used x)).sum =
      if x = .client then (l : Multiset (List UInt8)) else 0 := by
    induction l with
    | nil => cases x <;> rfl
    | cons b l ih =>
      rw [List.map_cons, List.sum_cons, ih]
      by_cases hx : x = .client
      · simp [frames, hx]
      · simp [frames, hx]
  unfold Network.Books.done
  rw [sum_party]
  simp only [hused]
  simp [Party.all, abs]

end sums

/-! ## What the client sends -/

/-- A frame has come back to the client. -/
def ArrivedBack (s : System T) : Prop := s.received ≠ [] ∨ s.receive .client ≠ .posted

/-- The frames the client has sent to the learner. -/
def requests (top : Topology) (s : System T) : List (List UInt8) :=
  (s.client.sent.filter (·.1 = top.inbound (.pair .highToLow))).map (·.2)

/-- Until a frame has come back the client sends to the HighToLow pair, and from
then on to the socket of the LowToHigh pair. -/
structure Redirected (top : Topology) (s : System T) : Prop where
  callbacks : s.client.callbacks = s.received.length
  sent : ∃ before after : List (List UInt8), s.client.sent =
    before.map (Prod.mk (top.inbound (.pair .highToLow))) ++ after.map (Prod.mk (top.outbound (.pair .lowToHigh))) ∧
      (after ≠ [] → s.ArrivedBack)
  early : ¬ s.ArrivedBack → s.client.client.m_RemoteEndpointToSendTo = top.inbound (.pair .highToLow)
  late : s.ArrivedBack → s.client.client.m_RemoteEndpointToSendTo = top.outbound (.pair .lowToHigh)

section Redirected
variable {top : Topology}

omit [Scalar T] in
theorem redirected_start : Redirected top (start top : System T) := by
  have hnot : ¬ (start top : System T).ArrivedBack := by
    rintro (h | h)
    · exact h rfl
    · exact h rfl
  exact ⟨rfl, ⟨[], [], rfl, fun h => absurd rfl h⟩, fun _ => top.client_sends, fun h => absurd h hnot⟩

omit [Scalar T] in
/-- A step of another party, or of the network. -/
theorem Redirected.other {s s' : System T} (h : Redirected top s) (hclient : s'.client = s.client)
    (hreceived : s'.received = s.received) : Redirected top s' := by
  have hback : s'.ArrivedBack ↔ s.ArrivedBack := by
    unfold ArrivedBack receive
    rw [hclient, hreceived]
  obtain ⟨before, after, hsent, hafter⟩ := h.sent
  refine ⟨?_, ⟨before, after, ?_, fun hne => hback.2 (hafter hne)⟩, fun hn => ?_, fun hb => ?_⟩
  · rw [hclient, hreceived, h.callbacks]
  · rw [hclient, hsent]
  · rw [hclient, h.early fun hb => hn (hback.2 hb)]
  · rw [hclient, h.late (hback.1 hb)]

theorem Redirected.step {s s' : System T} {ev : SystemEvent T} (hw : Wired top s) (h : Redirected top s)
    (hs : s.step top ev = some s') : Redirected top s' := by
  obtain ⟨before, after, hsent, hafter⟩ := h.sent
  cases transition_of_step hs with
  | @send bytes fits =>
    have hback (c : ClientWorld) (ps : List Packet) (hc : c.client.receive = s.client.client.receive) :
        ({ s with client := c, flight := ps } : System T).ArrivedBack ↔ s.ArrivedBack := by
      simp only [ArrivedBack, receive, hc]
    refine ⟨h.callbacks, ?_, fun hn => ?_, fun hb => ?_⟩
    · by_cases hb : s.ArrivedBack
      · refine ⟨before, after ++ [bytes], ?_, fun _ => (hback _ _ (receive_mSend _ _)).2 hb⟩
        simp [hsent, h.late hb]
      · -- Nothing has been redirected yet.
        obtain rfl : after = [] := by
          by_contra hne
          exact hb (hafter hne)
        refine ⟨before ++ [bytes], [], ?_, fun hne => absurd rfl hne⟩
        simp [hsent, h.early hb]
    · rw [hback _ _ (receive_mSend _ _)] at hn
      simp only [ClientWorld.endpoint_mSend]
      exact h.early hn
    · rw [hback _ _ (receive_mSend _ _)] at hb
      simp only [ClientWorld.endpoint_mSend]
      exact h.late hb
  | @deliverClient i p hp hx hposted =>
    have hsource := (hw.routed p (List.mem_of_getElem? hp)).down hx.symm
    have hb (c : ClientWorld) (ps : List Packet) (hc : c.client.receive ≠ .posted) :
        ({ s with client := c, flight := ps } : System T).ArrivedBack := .inr hc
    refine ⟨h.callbacks, ⟨before, after, hsent, fun _ => hb _ _ (by simp [CUdpClient.complete])⟩, fun hn => ?_,
      fun _ => hsource⟩
    exact absurd (hb _ _ (by simp [CUdpClient.complete])) hn
  | @handleClient c hc =>
    have hb : s.ArrivedBack := .inr (by simp [receive, hc])
    refine ⟨?_, ⟨before, after, hsent, fun _ => .inl (by simp)⟩, fun hn => absurd (.inl (by simp)) hn,
      fun _ => h.late hb⟩
    simp [ClientWorld.handle_receive_from, h.callbacks]
  | deliverPair | deliverServer | handlePair | handleServer | lose | double | thread => exact h.other rfl rfl

theorem redirected_of_run {evs : List (SystemEvent T)} {s : System T}
    (h : run (System.step top) (start top) evs = some s) : Wired top s ∧ Redirected top s :=
  run_inv (fun s => Wired top s ∧ Redirected top s) (fun _ _ _ hi hs => ⟨hi.1.step hs, hi.2.step hi.1 hs⟩) h
    ⟨wired_start, redirected_start⟩

end Redirected

/-! ## Conservation -/

section conservation
variable {top : Topology}

theorem due_append (ps qs : List (Endpoint × List UInt8)) : due top (ps ++ qs) = due top ps ++ due top qs :=
  List.filterMap_append

omit [Scalar T] in
/-- Only the requests of what the client has sent are due. -/
theorem Redirected.split {s : System T} (h : Redirected top s) : ∃ after, s.client.sent =
    (requests top s).map (Prod.mk (top.inbound (.pair .highToLow))) ++
      after.map (Prod.mk (top.outbound (.pair .lowToHigh))) ∧ (after ≠ [] → s.ArrivedBack) := by
  obtain ⟨before, after, hsent, hafter⟩ := h.sent
  have hbefore : requests top s = before := by
    have hne : top.outbound (.pair .lowToHigh) ≠ top.inbound (.pair .highToLow) := fun he => top.unheard _ he.symm
    simp [requests, hsent, List.filter_append, List.filter_map, Function.comp_def, hne]
  exact ⟨after, hbefore ▸ hsent, hafter⟩

omit [Scalar T] in
theorem Redirected.due_sent {s : System T} (h : Redirected top s) :
    due top s.client.sent = (requests top s).map top.m_ProcessorCallback := by
  obtain ⟨after, hsent, -⟩ := h.split
  have hheard (l : List (List UInt8)) : due top (l.map (Prod.mk (top.inbound (.pair .highToLow)))) =
      l.map top.m_ProcessorCallback := by
    simp [due, List.filterMap_map, party_inbound, image]
  have hunheard (l : List (List UInt8)) : due top (l.map (Prod.mk (top.outbound (.pair .lowToHigh)))) = [] := by
    simp [due, List.filterMap_map, party_unheard]
  nth_rewrite 1 [hsent]
  rw [due_append, hheard, hunheard, List.append_nil]

omit [Scalar T] in
/-- What balanced books say of the client's frames. -/
theorem Redirected.conserved {s : System T} (h : Redirected top s) (hbalance : (frames top).Balanced (abs s)) :
    ((requests top s).map top.m_ProcessorCallback ++ due top (outs s.doubled)).Perm
      (s.received ++ (waiting top s ++ due top (outs s.flight) ++ due top (outs s.lost))) := by
  unfold Network.Books.Balanced at hbalance
  rw [pending_frames, done_frames, sum_frames, sum_frames, sum_frames] at hbalance
  have hsent : (abs s).sent = s.client.sent := rfl
  rw [hsent, h.due_sent] at hbalance
  rw [← Multiset.coe_eq_coe, ← Multiset.coe_add, ← Multiset.coe_add, ← Multiset.coe_add, ← Multiset.coe_add]
  rw [show (due top (outs s.doubled) : Multiset (List UInt8)) = due top (abs s).doubled from rfl, hbalance]
  simp only [abs]
  abel

/-- In every run, the requests as the echo server changes them, and the packets
the network has doubled, are what has come back, what is held or on its way, and
what was lost. The client has been called back once for each that came back. -/
theorem frames_conserved {evs : List (SystemEvent T)} {s : System T} (h : run (step top) (start top) evs = some s) :
    ((requests top s).map top.m_ProcessorCallback ++ due top (outs s.doubled)).Perm
        (s.received ++ (waiting top s ++ due top (outs s.flight) ++ due top (outs s.lost))) ∧
      s.client.callbacks = s.received.length := by
  obtain ⟨-, hr⟩ := redirected_of_run h
  exact ⟨hr.conserved ((frames top).balanced_of_run (network_of_run h)), hr.callbacks⟩

/-- One frame has come back, and the other is on its way to nobody. -/
theorem thereAndBack_conserved : ∃ s, run (step sampleTopology) (start sampleTopology) thereAndBack = some s ∧
    s.received = [[27, 77]] ∧ ((requests sampleTopology s).map sampleTopology.m_ProcessorCallback ++
      due sampleTopology (outs s.doubled)).Perm (s.received ++ (waiting sampleTopology s ++
        due sampleTopology (outs s.flight) ++ due sampleTopology (outs s.lost))) := by
  have hrun : (run (step sampleTopology) (start sampleTopology) thereAndBack).map (·.received) =
      some [[27, 77]] := by decide +kernel
  obtain ⟨s, hs, hreceived⟩ := Option.map_eq_some_iff.1 hrun
  exact ⟨s, hs, hreceived, (frames_conserved hs).1⟩

end conservation

/-! ## Order -/

section order
variable {top : Topology}

/-- The parties stand in a line, and the echo server changes what passes it. -/
theorem plan_passes : Party.all.IsChain fun x y => ∀ bytes, ∃ bytes',
    (plan top).forward y bytes = [((plan top).address x, bytes')] ∧ image top x bytes' = image top y bytes := by
  simp only [Party.all, List.isChain_cons_cons, List.isChain_singleton, and_true]
  exact ⟨fun bytes => ⟨bytes, rfl, rfl⟩, fun bytes => ⟨_, rfl, rfl⟩, fun bytes => ⟨bytes, rfl, rfl⟩⟩

/-- From the HighToLow pair to the client. -/
def line (top : Topology) : Network.Line (plan top) (List UInt8) where
  sink := .client
  rest := [.pair .lowToHigh, .server, .pair .highToLow]
  nodup := Party.nodup_all
  all := Party.mem_all
  image := image top
  stops _ := rfl
  passes := plan_passes

/-- Packets to one endpoint arrive in the order they were sent, and only once. -/
def KeepsOrder (s : System T) : SystemEvent T → Prop
  | .deliver i => ∀ q ∈ s.flight.take i, some q.destination ≠ s.flight[i]?.map Packet.destination
  | .double _ => False
  | .send _ | .handle _ | .lose _ | .thread _ => True

instance (s : System T) : DecidablePred (KeepsOrder s)
  | .deliver i => inferInstanceAs (Decidable (∀ q ∈ s.flight.take i, _))
  | .double _ => inferInstanceAs (Decidable False)
  | .send _ | .handle _ | .lose _ | .thread _ => inferInstanceAs (Decidable True)

/-- The moves of such a step keep the order too. -/
theorem keepsOrder_moves {s s' : System T} {ev : SystemEvent T} (hw : Wired top s) (hk : s.KeepsOrder ev)
    (hs : s.step top ev = some s') : EveryStep (Network.step (plan top)) (line top).Keeps (abs s) (moves s ev) := by
  cases ev with
  | send bytes =>
    refine fun _ _ => ⟨?_, trivial⟩
    rcases hw.next with hnext | hnext
    · exact .inr (party_eq_some.2 hnext.symm)
    · exact .inl (by rw [hnext]; exact party_unheard)
  | deliver i =>
    refine fun _ _ => ⟨?_, trivial⟩
    intro p hp q hq
    simp only [abs, outs, List.getElem?_map, Option.map_eq_some_iff, ← List.map_take, List.mem_map] at hp hq
    obtain ⟨p, hp, rfl⟩ := hp
    obtain ⟨q, hq, rfl⟩ := hq
    intro hdest
    refine hk q hq ?_
    rw [hp]
    exact congrArg some hdest
  | handle x => exact fun _ _ => ⟨trivial, trivial⟩
  | lose i => exact fun _ _ => ⟨trivial, trivial⟩
  | double i => exact absurd hk id
  | thread ev => trivial

omit [Scalar T] in
theorem Redirected.entered {s : System T} (h : Redirected top s) :
    (line top).entered (abs s) = (requests top s).map top.m_ProcessorCallback := by
  have hentry : (line top).entry = .pair .highToLow := rfl
  have hsent : (abs s).sent = s.client.sent := rfl
  obtain ⟨after, hsplit, -⟩ := h.split
  have hheard (l : List (List UInt8)) : Network.arriving (plan top) (.pair .highToLow)
      (l.map (Prod.mk (top.inbound (.pair .highToLow)))) = l := by
    simp [Network.arriving, plan, List.filterMap_map, party_inbound]
  have hunheard (l : List (List UInt8)) : Network.arriving (plan top) (.pair .highToLow)
      (l.map (Prod.mk (top.outbound (.pair .lowToHigh)))) = [] := by
    simp [Network.arriving, plan, List.filterMap_map, party_unheard]
  unfold Network.Line.entered
  rw [hentry, hsent]
  nth_rewrite 1 [hsplit]
  rw [Network.arriving_append, hheard, hunheard, List.append_nil]
  rfl

/-- Where the network keeps the order, what has come back are the changed
requests in the order sent, without those that were lost; and if nothing was
lost, the first ones. -/
theorem frames_in_order {evs : List (SystemEvent T)} {s : System T}
    (hk : EveryStep (step top) KeepsOrder (start top) evs) (h : run (step top) (start top) evs = some s) :
    s.received.Sublist ((requests top s).map top.m_ProcessorCallback) ∧
      (s.lost = [] → s.received <+: (requests top s).map top.m_ProcessorCallback) := by
  obtain ⟨-, hr⟩ := redirected_of_run h
  have hmoves : EveryStep (Network.step (plan top)) (line top).Keeps Network.State.start
      ((simulation T top).trace (start top) evs) := by
    rw [← abs_start (T := T)]
    exact Simulation.everyStep_trace (S := simulation T top) (fun _ _ _ hw hc hs => keepsOrder_moves hw hc hs)
      wired_start h hk
  have hordered := (line top).ordered_of_run hmoves (network_of_run h)
  have hout : ((abs s).handled .client).map (image top .client) = s.received := List.map_id s.received
  have hfirst : s.received <+: (line top).content (abs s) := by
    rw [← hout]
    exact List.prefix_append _ _
  rw [← hr.entered]
  refine ⟨hfirst.sublist.trans hordered.sublist, fun hlost => ?_⟩
  rw [← hordered.eq (by simp [abs, hlost, outs])]
  exact hfirst

/-- Two frames are sent. The first comes back, and the second is lost on its way to the echo server. -/
def secondLost : List (SystemEvent ℚ) :=
  [.send [1], .send [2], .deliver 0, .handle (.pair .highToLow), .deliver 1, .handle .server, .deliver 1,
    .handle (.pair .lowToHigh), .deliver 1, .handle .client, .deliver 0, .handle (.pair .highToLow), .lose 0]

theorem secondLost_in_order : ∃ s, run (step sampleTopology) (start sampleTopology) secondLost = some s ∧
    s.received.Sublist ((requests sampleTopology s).map sampleTopology.m_ProcessorCallback) := by
  have hsome : (run (step sampleTopology) (start sampleTopology) secondLost).isSome = true := by decide +kernel
  obtain ⟨s, hs⟩ := Option.isSome_iff_exists.1 hsome
  exact ⟨s, hs, (frames_in_order (by decide +kernel) hs).1⟩

end order

/-! ## The redirected sends -/

/-- In every run the client has sent its first frames to the HighToLow pair and
all others, which are from after a frame has come back, to the socket of the
LowToHigh pair. So it is called back at most once for each of the first frames,
and for each doubled packet. -/
theorem sends_redirected {top : Topology} {evs : List (SystemEvent T)} {s : System T}
    (h : run (step top) (start top) evs = some s) : ∃ after : List (List UInt8),
      s.client.sent = (requests top s).map (Prod.mk (top.inbound (.pair .highToLow))) ++
        after.map (Prod.mk (top.outbound (.pair .lowToHigh))) ∧
      (after ≠ [] → s.ArrivedBack) ∧
      (s.ArrivedBack → s.client.client.m_RemoteEndpointToSendTo = top.outbound (.pair .lowToHigh)) ∧
      s.client.callbacks ≤ (requests top s).length + s.doubled.length := by
  obtain ⟨-, hr⟩ := redirected_of_run h
  obtain ⟨after, hsent, hafter⟩ := hr.split
  have hperm := hr.conserved ((frames top).balanced_of_run (network_of_run h))
  have hcallbacks := hr.callbacks
  refine ⟨after, hsent, hafter, hr.late, ?_⟩
  have hlen := hperm.length_eq
  have hdoubled : (due top (outs s.doubled)).length ≤ s.doubled.length := by
    have hle := List.length_filterMap_le (fun p => (top.party p.1).map fun x => image top x p.2) (outs s.doubled)
    simpa [due, outs] using hle
  simp only [List.length_append, List.length_map] at hlen
  omega

theorem thereAndBack_redirected : ∃ s, run (step sampleTopology) (start sampleTopology) thereAndBack = some s ∧
    ∃ after : List (List UInt8), s.client.sent =
      (requests sampleTopology s).map (Prod.mk (sampleInbound (.pair .highToLow))) ++
        after.map (Prod.mk (sampleOutbound (.pair .lowToHigh))) := by
  have hsome : (run (step sampleTopology) (start sampleTopology) thereAndBack).isSome = true := by decide +kernel
  obtain ⟨s, hs⟩ := Option.isSome_iff_exists.1 hsome
  obtain ⟨after, hsent, -⟩ := sends_redirected hs
  exact ⟨s, hs, after, hsent⟩

end ProtocolLearner.System
