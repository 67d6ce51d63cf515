import ProtocolLearner.Observation
/-!
# The relay

What a pair sends on. The bytes are those of the receive that the handler runs
for, nothing of an earlier and longer datagram. But the handler does not look
at its `error`: a failed receive is counted, handed to the learner and sent on
as an empty datagram. And where `send_to` throws, the datagram is counted and
lost, and the pair stops listening. So a pair is a transparent relay exactly as
long as no receive it handles fails and no `send_to` throws (`relay_iff`).
-/

namespace ProtocolLearner

open Machine KMeans

variable {T : Type}

/-- How a receive of the pair `d` completes, if that is what the event is. -/
def Event.completion (d : Direction) : Event T → Option Completion
  | .complete d' c => if d' = d then some c else none
  | _ => none

/-- How the `send_to` of the pair `d` ends, if the event runs its handler. -/
def Event.outcome (d : Direction) : Event T → Option SendOutcome
  | .handle d' outcome => if d' = d then some outcome else none
  | _ => none

/-- The datagram of a receive that did not fail. -/
def Completion.delivered : Completion → Option (List UInt8)
  | success datagram _ => some datagram.bytes
  | failure => none

/-- The receive of the pair whose handler has yet to run. -/
def Receive.pending : Receive → List Completion
  | completed c => [c]
  | idle | posted => []

/-- The payloads of receives that have not failed are the delivered ones. -/
theorem filterMap_delivered {cs : List Completion} (h : .failure ∉ cs) :
    cs.filterMap Completion.delivered = cs.map Completion.payload := by
  induction cs with
  | nil => rfl
  | cons c cs ih =>
    rw [List.mem_cons, not_or] at h
    cases c with
    | success datagram source => simpa [Completion.payload, Completion.delivered] using ih h.2
    | failure => exact absurd rfl h.1

theorem length_delivered (cs : List Completion) :
    (cs.filterMap Completion.delivered).length + cs.count .failure = cs.length := by
  induction cs with
  | nil => rfl
  | cons c cs ih =>
    cases c with
    | success datagram source => simp [Completion.delivered]; omega
    | failure => simp [List.filterMap_cons, Completion.delivered]; omega

namespace World

/-! ## What a pair has handled -/

/-- The receives of the pair `d` that the events complete. -/
def completions (d : Direction) (evs : List (Event T)) : List Completion := evs.filterMap (Event.completion d)

/-- How the calls of `send_to` in the handlers of the pair `d` end. -/
def outcomes (d : Direction) (evs : List (Event T)) : List SendOutcome := evs.filterMap (Event.outcome d)

/-- The completed receives whose handlers have run. -/
def handled (d : Direction) (evs : List (Event T)) : List Completion :=
  (completions d evs).take (outcomes d evs).length

/-- What the handlers of the pair `d` did. -/
def logOf (d : Direction) (w : World T) : List (Handled T) := w.log.filter (·.direction = d)

/-- The log of the pair `d` is of its completed receives in order, but for the
one that waits for its handler. The pair listens until a `send_to` throws. -/
structure InOrder (d : Direction) (evs : List (Event T)) (w : World T) : Prop where
  completions : completions d evs = (logOf d w).map (·.completion) ++ (w.learner.pair d).receive.pending
  outcomes : outcomes d evs = (logOf d w).map (·.outcome)
  throws : (World.outcomes d evs).count .throws = if (w.learner.pair d).receive = .idle then 1 else 0

theorem InOrder.handled {d : Direction} {evs : List (Event T)} {w : World T} (h : InOrder d evs w) :
    World.handled d evs = (logOf d w).map (·.completion) := by
  unfold World.handled
  rw [h.completions, h.outcomes, List.length_map, List.take_left' (List.length_map _)]

theorem inOrder_start (d : Direction) (s : Setup) : InOrder d [] (start s : World T) where
  completions := by cases d <;> rfl
  outcomes := rfl
  throws := by cases d <;> rfl

theorem completions_snoc (d : Direction) (evs : List (Event T)) (ev : Event T) :
    completions d (evs ++ [ev]) = completions d evs ++ (ev.completion d).toList := by
  unfold completions
  rw [List.filterMap_append]
  cases h : ev.completion d <;> simp [h]

theorem outcomes_snoc (d : Direction) (evs : List (Event T)) (ev : Event T) :
    outcomes d (evs ++ [ev]) = outcomes d evs ++ (ev.outcome d).toList := by
  unfold outcomes
  rw [List.filterMap_append]
  cases h : ev.outcome d <;> simp [h]

/-- An event of neither kind, or of the other pair. -/
theorem InOrder.other {d : Direction} {evs : List (Event T)} {w w' : World T} {ev : Event T} (h : InOrder d evs w)
    (hc : ev.completion d = none) (ho : ev.outcome d = none) (hlog : logOf d w' = logOf d w)
    (hreceive : (w'.learner.pair d).receive = (w.learner.pair d).receive) : InOrder d (evs ++ [ev]) w' where
  completions := by simp [completions_snoc, hc, hlog, hreceive, h.completions]
  outcomes := by simp [outcomes_snoc, ho, hlog, h.outcomes]
  throws := by simp [outcomes_snoc, ho, hreceive, h.throws]

theorem InOrder.complete {d : Direction} {evs : List (Event T)} {w : World T} (h : InOrder d evs w) {c : Completion}
    (hp : (w.learner.pair d).receive = .posted) : InOrder d (evs ++ [.complete d c]) { w with
      learner := w.learner.setPair ((w.learner.pair d).complete c) d } where
  completions := by
    have hbefore := h.completions
    rw [hp] at hbefore
    rw [completions_snoc, hbefore, CUdpProtocolLearner.pair_setPair, receive_complete]
    simp [Event.completion, Receive.pending, logOf]
  outcomes := by
    rw [outcomes_snoc, h.outcomes]
    simp [Event.outcome, logOf]
  throws := by
    have hbefore := h.throws
    rw [hp] at hbefore
    rw [outcomes_snoc, CUdpProtocolLearner.pair_setPair, receive_complete]
    simpa [Event.outcome] using hbefore

variable [Scalar T]

theorem InOrder.handle {d : Direction} {evs : List (Event T)} {w : World T} (h : InOrder d evs w) {c : Completion}
    {sentTo : Endpoint} {outcome : SendOutcome} (hc : (w.learner.pair d).receive = .completed c) :
    InOrder d (evs ++ [.handle d outcome]) {
      learner := ((w.counted d c).mProcessPacket (w.receivedBytes d c)).setPair
        ((((w.counted d c).mProcessPacket (w.receivedBytes d c)).pair d).afterSend outcome) d
      log := w.log ++ [w.entry d c sentTo outcome] } := by
  have hwire := pair_handle w d d c outcome
  rw [if_pos rfl] at hwire
  refine ⟨?_, ?_, ?_⟩
  · have hbefore := h.completions
    rw [hc] at hbefore
    have hpending : (((w.learner.pair d).countPacket c.payload.length).afterSend outcome).receive.pending = [] := by
      cases outcome <;> rfl
    rw [completions_snoc, hbefore, hwire.receive, hpending]
    simp [Event.completion, Receive.pending, logOf, World.entry]
  · rw [outcomes_snoc, h.outcomes]
    simp [Event.outcome, logOf, World.entry]
  · -- A pair that runs a handler was listening, so nothing has thrown before.
    have hbefore := h.throws
    rw [hc] at hbefore
    rw [outcomes_snoc, List.count_append, hbefore, hwire.receive]
    cases outcome <;> simp [Event.outcome, CUdpPair.afterSend, CUdpPair.mStartReceive, CUdpPair.countPacket]

theorem InOrder.step {d : Direction} {evs : List (Event T)} {w w' : World T} {ev : Event T} (h : InOrder d evs w)
    (hs : w.step ev = some w') : InOrder d (evs ++ [ev]) w' := by
  cases transition_of_step hs with
  | @complete d' c hp =>
    by_cases hd : d' = d
    · subst hd
      exact h.complete hp
    · refine h.other (by simp [Event.completion, hd]) rfl rfl ?_
      rw [CUdpProtocolLearner.pair_setPair_ne _ _ (Ne.symm hd)]
  | @handle d' c sentTo outcome hc hsent =>
    by_cases hd : d' = d
    · subst hd
      exact h.handle hc
    · refine h.other rfl (by simp [Event.outcome, hd]) (by simp [logOf, World.entry, hd]) ?_
      have hwire := pair_handle w d' d c outcome
      rw [if_neg (Ne.symm hd)] at hwire
      exact hwire.receive
  | thread hact he =>
    cases ev with
    | complete | handle => cases hact
    | worker | spurious | notify | stop => exact h.other rfl rfl rfl rfl

theorem inOrder_of_run {s : Setup} (d : Direction) {evs : List (Event T)} {w : World T}
    (hrun : run step (start s) evs = some w) : InOrder d evs w :=
  run_inv_trace (InOrder d) (fun _ _ _ _ h hs => h.step hs) hrun (inOrder_start d s)

/-! ## Main theorem -/

omit [Scalar T] in
/-- The payloads that the pair `d` has sent on: its `send_to` has returned. -/
def sentOn (d : Direction) (w : World T) : List (List UInt8) :=
  ((logOf d w).filter (·.outcome = .returns)).map (·.sent)

omit [Scalar T] in
/-- The pair `d` has sent on the datagrams it received, and nothing else, in
order; it has counted them; and a failed receive has submitted nothing. -/
structure RelayLaw (d : Direction) (evs : List (Event T)) (w : World T) : Prop where
  forwarded : sentOn d w = (handled d evs).filterMap Completion.delivered
  counted : (w.learner.pair d).m_PacketsSeen =
    UInt32.ofNat ((handled d evs).filterMap Completion.delivered).length
  silent : ∀ e ∈ logOf d w, e.completion = .failure → e.submitted = none

omit [Scalar T] in
theorem length_returned (log : List (Handled T)) :
    (log.filter (·.outcome = .returns)).length + (log.map (·.outcome)).count .throws = log.length := by
  induction log with
  | nil => rfl
  | cons e log ih =>
    cases h : e.outcome with
    | returns => simp [h]; omega
    | throws => simp [h]; omega

/-- What the pair hands to `send_to` is the payloads of all receives it has handled. -/
theorem sent_payloads {s : Setup} {d : Direction} {evs : List (Event T)} {w : World T}
    (hrun : run step (start s) evs = some w) :
    (logOf d w).map (·.sent) = (handled d evs).map Completion.payload := by
  have hrecorded := (tracked_of_run hrun).recorded
  rw [(inOrder_of_run d hrun).handled, List.map_map]
  apply List.map_congr_left
  intro e he
  obtain ⟨pre, post, hsplit⟩ := List.append_of_mem (List.mem_of_mem_filter he)
  exact (hrecorded pre e post hsplit).sent

/-- A failure and a `send_to` that throws show in the numbers of datagrams sent and counted. -/
theorem RelayLaw.clean {s : Setup} {d : Direction} {evs : List (Event T)} {w : World T} (hlaw : RelayLaw d evs w)
    (hrun : run step (start s) evs = some w) : .failure ∉ handled d evs ∧ .throws ∉ outcomes d evs := by
  have ho := inOrder_of_run d hrun
  have hlen : (handled d evs).length = (logOf d w).length := by rw [ho.handled, List.length_map]
  have hreturned := length_returned (logOf d w)
  have hdelivered := length_delivered (handled d evs)
  have hforwarded := congrArg List.length hlaw.forwarded
  rw [sentOn, List.length_map] at hforwarded
  rw [← ho.outcomes] at hreturned
  -- A pair throws at most once, so it has lost at most one datagram and 32 bits tell the counts apart.
  have honce : (outcomes d evs).count .throws ≤ 1 := by
    rw [ho.throws]
    split <;> omega
  have hseen : UInt32.ofNat (logOf d w).length =
      UInt32.ofNat ((handled d evs).filterMap Completion.delivered).length := by
    rw [← hlaw.counted, (tracked_of_run hrun).seen, List.countP_eq_length_filter]
    rfl
  have hmod := congrArg UInt32.toNat hseen
  rw [UInt32.toNat_ofNat', UInt32.toNat_ofNat'] at hmod
  constructor
  · rw [← List.count_eq_zero]
    omega
  · rw [← List.count_eq_zero]
    omega

/-- In every run the log of a pair is of the receives it has handled, the engine
holds what its handlers submitted, and the pair is a transparent relay exactly if
none of those receives has failed and none of its calls of `send_to` has thrown. -/
theorem relay_iff {s : Setup} {evs : List (Event T)} {w : World T} (hrun : run step (start s) evs = some w)
    (d : Direction) : (logOf d w).map (·.completion) = handled d evs ∧
      Ledger (w.log.filterMap Handled.submitted) w.engine.kmeans ∧
      (RelayLaw d evs w ↔ .failure ∉ handled d evs ∧ .throws ∉ outcomes d evs) := by
  have ht := tracked_of_run hrun
  have ho := inOrder_of_run d hrun
  refine ⟨ho.handled.symm, ht.ledger, fun hlaw => hlaw.clean hrun, ?_⟩
  rintro ⟨hfailure, hthrows⟩
  have hall : (logOf d w).filter (·.outcome = .returns) = logOf d w := by
    rw [ho.outcomes] at hthrows
    apply List.filter_eq_self.2
    intro e he
    cases hout : e.outcome with
    | returns => rfl
    | throws => exact absurd (hout ▸ List.mem_map_of_mem he) hthrows
  have hsent : sentOn d w = (handled d evs).filterMap Completion.delivered := by
    rw [sentOn, hall, sent_payloads hrun, filterMap_delivered hfailure]
  refine ⟨hsent, ?_, fun e he hfail => ?_⟩
  · rw [← hsent, sentOn, hall, List.length_map, ht.seen, List.countP_eq_length_filter]
    rfl
  · rw [ho.handled] at hfailure
    exact absurd (List.mem_map.2 ⟨e, he, hfail⟩) hfailure

theorem twoLetters_relayed : ∃ w, run step (start sampleSetup) twoLetters = some w ∧
    RelayLaw .lowToHigh twoLetters w := by
  have hsome : (run step (start sampleSetup) twoLetters).isSome = true := by decide +kernel
  obtain ⟨w, hw⟩ := Option.isSome_iff_exists.1 hsome
  exact ⟨w, hw, (relay_iff hw .lowToHigh).2.2.2 ⟨by decide +kernel, by decide +kernel⟩⟩

/-- A receive of the HighToLow pair fails. -/
def failedReceive : List (Event ℚ) := [.complete .highToLow .failure, .handle .highToLow .returns]

/-- It is sent on as an empty datagram, counted, and submitted. -/
theorem failedReceive_not_relayed : ∃ w, run step (start sampleSetup) failedReceive = some w ∧
    ¬ RelayLaw .highToLow failedReceive w ∧ sentOn .highToLow w = [[]] ∧
    (w.learner.pair .highToLow).m_PacketsSeen = 1 ∧ w.engine.kmeans.m_PointVector.length = 1 := by
  have hrun : (run step (start sampleSetup) failedReceive).map (fun w => (sentOn .highToLow w,
      (w.learner.pair .highToLow).m_PacketsSeen, w.engine.kmeans.m_PointVector.length)) = some ([[]], 1, 1) := by
    decide +kernel
  obtain ⟨w, hw, he⟩ := Option.map_eq_some_iff.1 hrun
  simp only [Prod.mk.injEq] at he
  obtain ⟨hsent, hseen, hpoints⟩ := he
  refine ⟨w, hw, ?_, hsent, hseen, hpoints⟩
  intro hlaw
  have hforwarded := hlaw.forwarded
  rw [hsent] at hforwarded
  exact absurd hforwarded (by decide +kernel)

end World

end ProtocolLearner
