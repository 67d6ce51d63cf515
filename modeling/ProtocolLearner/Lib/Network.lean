import Mathlib.Algebra.BigOperators.Group.Finset.Basic
import Mathlib.Algebra.Order.BigOperators.Group.Finset
import Mathlib.Data.Fintype.Basic
import Mathlib.Data.List.Chain
import Mathlib.Data.List.Flatten
import Mathlib.Data.List.Perm.Basic
import Mathlib.Tactic.Abel
import ProtocolLearner.Lib.Machine
/-!
# Store-and-forward networks

Packets are on their way to addresses. A node receives at one address, holds
one packet at a time, and sends out what the plan says when it has handled it.
Packets to an address where no node receives stay on their way. The network may
lose and double packets, and deliver them in any order.

Four laws hold in every run. Everything comes of what was sent (`traced_of_run`).
What forwarding conserves is neither made nor lost but with the packets
(`Books.balanced_of_run`). Where packets to one address stay in order, so does
what a line of nodes passes on (`Line.ordered_of_run`). And there are only so
many steps that move packets on (`Fall.transports_le`).
-/

namespace Network

open Machine

variable {N A B : Type*}

/-- Where the nodes receive, and what they send out. -/
structure Plan (N A B : Type*) where
  address : N → A
  node : A → Option N
  node_eq_some : ∀ a n, node a = some n ↔ address n = a
  forward : N → B → List (A × B)

/-- The packets on their way, those that nodes hold, and what has happened. -/
structure State (N A B : Type*) where
  flight : List (A × B)
  held : N → Option B
  handled : N → List B
  sent : List (A × B)
  doubled : List (A × B)
  lost : List (A × B)

/-- What happens to the packet at a place of the list, at a node, or from outside. -/
inductive Move (N A B : Type*) where
  | send (p : A × B)
  | deliver (i : Nat)
  | handle (n : N)
  | lose (i : Nat)
  | double (i : Nat)

/-- The moves that take a packet further. -/
def Move.transports : Move N A B → Bool
  | deliver _ | handle _ => true
  | send _ | lose _ | double _ => false

namespace State

def start : State N A B := ⟨[], fun _ => none, fun _ => [], [], [], []⟩

/-- `p` comes in from outside. -/
def inject (p : A × B) (s : State N A B) : State N A B := { s with flight := s.flight ++ [p], sent := s.sent ++ [p] }

def drop (i : Nat) (p : A × B) (s : State N A B) : State N A B :=
  { s with flight := s.flight.eraseIdx i, lost := s.lost ++ [p] }

def copy (p : A × B) (s : State N A B) : State N A B :=
  { s with flight := s.flight ++ [p], doubled := s.doubled ++ [p] }

variable [DecidableEq N]

/-- `n` receives `b`, which was at place `i`. -/
def accept (i : Nat) (n : N) (b : B) (s : State N A B) : State N A B :=
  { s with flight := s.flight.eraseIdx i, held := Function.update s.held n (some b) }

/-- `n` handles `b`. -/
def finish (P : Plan N A B) (n : N) (b : B) (s : State N A B) : State N A B :=
  { s with
    flight := s.flight ++ P.forward n b
    held := Function.update s.held n none
    handled := Function.update s.handled n (s.handled n ++ [b]) }

end State

variable [DecidableEq N]

def step (P : Plan N A B) (s : State N A B) : Move N A B → Option (State N A B)
  | .send p => some (s.inject p)
  | .deliver i =>
    match s.flight[i]? with
    | none => none
    | some p =>
      match P.node p.1 with
      | none => none
      | some n =>
        if (s.held n).isNone then some (s.accept i n p.2) else none
  | .handle n =>
    match s.held n with
    | none => none
    | some b => some (s.finish P n b)
  | .lose i =>
    match s.flight[i]? with
    | none => none
    | some p => some (s.drop i p)
  | .double i =>
    match s.flight[i]? with
    | none => none
    | some p => some (s.copy p)

/-- Every step that `step` allows. -/
inductive Transition (P : Plan N A B) (s : State N A B) : Move N A B → State N A B → Prop where
  | send {p} : Transition P s (.send p) (s.inject p)
  | deliver {i n b} (hflight : s.flight[i]? = some (P.address n, b)) (hfree : s.held n = none) :
    Transition P s (.deliver i) (s.accept i n b)
  | handle {n b} (hheld : s.held n = some b) : Transition P s (.handle n) (s.finish P n b)
  | lose {i p} (hflight : s.flight[i]? = some p) : Transition P s (.lose i) (s.drop i p)
  | double {i p} (hflight : s.flight[i]? = some p) : Transition P s (.double i) (s.copy p)

theorem transition_of_step {P : Plan N A B} {s s' : State N A B} {m : Move N A B} (h : step P s m = some s') :
    Transition P s m s' := by
  cases m with
  | send p => cases h; exact .send
  | deliver i =>
    simp only [step] at h
    split at h
    · cases h
    · next p hp =>
      split at h
      · cases h
      · next n hn =>
        split at h
        · next hfree =>
          cases h
          have haddress := (P.node_eq_some _ _).1 hn
          refine .deliver ?_ (Option.isNone_iff_eq_none.1 hfree)
          rw [hp, haddress]
        · cases h
  | handle n =>
    simp only [step] at h
    split at h
    · cases h
    · next b hb => cases h; exact .handle hb
  | lose i =>
    simp only [step] at h
    split at h
    · cases h
    · next p hp => cases h; exact .lose hp
  | double i =>
    simp only [step] at h
    split at h
    · cases h
    · next p hp => cases h; exact .double hp

/-! ## Provenance -/

/-- What comes of the packets `sent`. -/
inductive Descends (P : Plan N A B) (sent : List (A × B)) : A × B → Prop where
  | sent {p} (h : p ∈ sent) : Descends P sent p
  | forwarded {n b q} (h : Descends P sent (P.address n, b)) (hq : q ∈ P.forward n b) : Descends P sent q

omit [DecidableEq N] in
theorem Descends.mono {P : Plan N A B} {sent sent' : List (A × B)} (hsub : sent ⊆ sent') {p : A × B}
    (h : Descends P sent p) : Descends P sent' p := by
  induction h with
  | sent h => exact .sent (hsub h)
  | forwarded _ hq ih => exact .forwarded ih hq

/-- Everything in the network comes of what was sent into it. -/
structure Traced (P : Plan N A B) (s : State N A B) : Prop where
  flight : ∀ p ∈ s.flight, Descends P s.sent p
  held : ∀ n b, s.held n = some b → Descends P s.sent (P.address n, b)
  handled : ∀ n, ∀ b ∈ s.handled n, Descends P s.sent (P.address n, b)

theorem Traced.step {P : Plan N A B} {s s' : State N A B} {m : Move N A B} (h : Traced P s)
    (hs : step P s m = some s') : Traced P s' := by
  cases transition_of_step hs with
  | @send p =>
    have hsub : s.sent ⊆ s.sent ++ [p] := List.subset_append_left _ _
    refine ⟨fun q hq => ?_, fun n b hb => (h.held n b hb).mono hsub, fun n b hb => (h.handled n b hb).mono hsub⟩
    rcases List.mem_append.1 hq with hq | hq
    · exact (h.flight q hq).mono hsub
    · exact .sent (List.mem_append_right _ hq)
  | @deliver i n b hflight _ =>
    refine ⟨fun q hq => h.flight q (List.mem_of_mem_eraseIdx hq), fun n' b' hb => ?_, h.handled⟩
    simp only [State.accept] at hb
    by_cases hn : n' = n
    · subst hn
      rw [Function.update_self, Option.some.injEq] at hb
      exact hb ▸ h.flight _ (List.mem_of_getElem? hflight)
    · rw [Function.update_of_ne hn] at hb
      exact h.held n' b' hb
  | @handle n b hheld =>
    have hb := h.held n b hheld
    refine ⟨fun q hq => ?_, fun n' b' hb' => ?_, fun n' b' hb' => ?_⟩
    · rcases List.mem_append.1 hq with hq | hq
      · exact h.flight q hq
      · exact .forwarded hb hq
    · simp only [State.finish] at hb'
      by_cases hn : n' = n
      · subst hn
        rw [Function.update_self] at hb'
        cases hb'
      · rw [Function.update_of_ne hn] at hb'
        exact h.held n' b' hb'
    · simp only [State.finish] at hb'
      by_cases hn : n' = n
      · subst hn
        rw [Function.update_self] at hb'
        rcases List.mem_append.1 hb' with hb' | hb'
        · exact h.handled n' b' hb'
        · exact List.mem_singleton.1 hb' ▸ hb
      · rw [Function.update_of_ne hn] at hb'
        exact h.handled n' b' hb'
  | lose =>
    exact ⟨fun q hq => h.flight q (List.mem_of_mem_eraseIdx hq), h.held, h.handled⟩
  | double hflight =>
    refine ⟨fun q hq => ?_, h.held, h.handled⟩
    rcases List.mem_append.1 hq with hq | hq
    · exact h.flight q hq
    · obtain rfl := List.mem_singleton.1 hq
      exact h.flight _ (List.mem_of_getElem? hflight)

section sums
variable [Fintype N] {M : Type*} [AddCommMonoid M]

theorem sum_update {γ : Type*} (g : N → γ → M) (f : N → γ) (n : N) (v : γ) :
    ∑ x, g x (Function.update f n v x) + g n (f n) = ∑ x, g x (f x) + g n v := by
  have hrest : ∑ x ∈ Finset.univ.erase n, g x (Function.update f n v x) = ∑ x ∈ Finset.univ.erase n, g x (f x) := by
    apply Finset.sum_congr rfl
    intro x hx
    rw [Function.update_of_ne (Finset.ne_of_mem_erase hx)]
  rw [← Finset.add_sum_erase _ (fun x => g x (Function.update f n v x)) (Finset.mem_univ n), hrest,
    Function.update_self, ← Finset.add_sum_erase _ (fun x => g x (f x)) (Finset.mem_univ n)]
  abel

/-- A packet can be counted apart from the others. -/
theorem sum_eraseIdx (w : A × B → M) {l : List (A × B)} {i : Nat} {p : A × B} (h : l[i]? = some p) :
    (l.map w).sum = w p + ((l.eraseIdx i).map w).sum := by
  obtain ⟨hi, rfl⟩ := List.getElem?_eq_some_iff.1 h
  have hperm := (List.getElem_cons_eraseIdx_perm hi).map w
  rw [← hperm.sum_eq, List.map_cons, List.sum_cons]

end sums

/-! ## Conservation -/

/-- A weight of packets that forwarding conserves, up to what a node uses up. -/
structure Books (P : Plan N A B) (M : Type*) [AddCancelCommMonoid M] where
  weight : A × B → M
  used : N → B → M
  balance : ∀ n b, weight (P.address n, b) = ((P.forward n b).map weight).sum + used n b

namespace Books

variable [Fintype N] {M : Type*} [AddCancelCommMonoid M] {P : Plan N A B} (K : Books P M)

/-- The weight of what is on its way or held. -/
def pending (s : State N A B) : M :=
  (s.flight.map K.weight).sum + ∑ n, (s.held n).elim 0 fun b => K.weight (P.address n, b)

/-- What the nodes have used up. -/
def done (s : State N A B) : M := ∑ n, ((s.handled n).map (K.used n)).sum

/-- What came in is on its way, held, used up or lost. -/
def Balanced (s : State N A B) : Prop :=
  (s.sent.map K.weight).sum + (s.doubled.map K.weight).sum =
    K.pending s + K.done s + (s.lost.map K.weight).sum

omit [DecidableEq N] in
theorem balanced_start : K.Balanced State.start := by
  simp [Balanced, pending, done, State.start]

variable {K}

theorem Balanced.deliver {s : State N A B} (h : K.Balanced s) {i : Nat} {n : N} {b : B}
    (hflight : s.flight[i]? = some (P.address n, b)) (hfree : s.held n = none) : K.Balanced (s.accept i n b) := by
  have hheld := sum_update (fun x o => Option.elim o 0 fun b => K.weight (P.address x, b)) s.held n (some b)
  rw [hfree] at hheld
  simp only [Option.elim_none, add_zero, Option.elim_some] at hheld
  unfold Balanced pending done at h ⊢
  simp only [State.accept]
  rw [h, hheld, sum_eraseIdx K.weight hflight]
  abel

theorem Balanced.handle {s : State N A B} (h : K.Balanced s) {n : N} {b : B} (hb : s.held n = some b) :
    K.Balanced (s.finish P n b) := by
  have hheld := sum_update (fun x o => Option.elim o 0 fun b => K.weight (P.address x, b)) s.held n none
  have hdone := sum_update (fun x l => (List.map (K.used x) l).sum) s.handled n (s.handled n ++ [b])
  rw [hb] at hheld
  simp only [Option.elim_none, add_zero, Option.elim_some] at hheld
  have hused : ∑ x, ((Function.update s.handled n (s.handled n ++ [b]) x).map (K.used x)).sum =
      ∑ x, ((s.handled x).map (K.used x)).sum + K.used n b := by
    apply add_right_cancel (b := ((s.handled n).map (K.used n)).sum)
    rw [hdone, List.map_append, List.sum_append, List.map_singleton, List.sum_singleton]
    abel
  unfold Balanced pending done at h ⊢
  simp only [State.finish]
  rw [h, ← hheld, hused, K.balance n b, List.map_append, List.sum_append]
  abel

theorem Balanced.step {s s' : State N A B} {m : Move N A B} (h : K.Balanced s) (hs : Network.step P s m = some s') :
    K.Balanced s' := by
  cases transition_of_step hs with
  | send =>
    unfold Balanced pending done at h ⊢
    simp only [State.inject, List.map_append, List.sum_append, List.map_singleton, List.sum_singleton]
    rw [add_right_comm, h]
    abel
  | deliver hflight hfree => exact h.deliver hflight hfree
  | handle hheld => exact h.handle hheld
  | lose hflight =>
    unfold Balanced pending done at h ⊢
    simp only [State.drop, List.map_append, List.sum_append, List.map_singleton, List.sum_singleton]
    rw [h, sum_eraseIdx K.weight hflight]
    abel
  | double hflight =>
    unfold Balanced pending done at h ⊢
    simp only [State.copy, List.map_append, List.sum_append, List.map_singleton, List.sum_singleton]
    rw [← add_assoc, h]
    abel

theorem balanced_of_run (K : Books P M) {ms : List (Move N A B)} {s : State N A B}
    (h : run (Network.step P) State.start ms = some s) : K.Balanced s :=
  run_inv K.Balanced (fun _ _ _ hb hs => hb.step hs) h K.balanced_start

end Books

/-! ## Order -/

/-- The payloads on their way to a node. -/
def arriving (P : Plan N A B) (n : N) (flight : List (A × B)) : List B :=
  flight.filterMap fun p => if P.node p.1 = some n then some p.2 else none

section arriving
variable {P : Plan N A B} {n x : N}

@[simp] theorem arriving_nil : arriving P n ([] : List (A × B)) = [] := rfl

theorem arriving_append (l l' : List (A × B)) : arriving P n (l ++ l') = arriving P n l ++ arriving P n l' :=
  List.filterMap_append

theorem arriving_cons_self {p : A × B} (h : P.node p.1 = some n) (l : List (A × B)) :
    arriving P n (p :: l) = p.2 :: arriving P n l := by
  simp [arriving, h]

theorem arriving_cons_ne {p : A × B} (h : P.node p.1 ≠ some n) (l : List (A × B)) :
    arriving P n (p :: l) = arriving P n l := by
  simp [arriving, h]

theorem arriving_eq_nil {l : List (A × B)} (h : ∀ p ∈ l, P.node p.1 ≠ some n) : arriving P n l = [] := by
  rw [arriving, List.filterMap_eq_nil_iff]
  intro p hp
  rw [if_neg (h p hp)]

theorem split_of_getElem? {l : List (A × B)} {i : Nat} {p : A × B} (h : l[i]? = some p) :
    l = l.take i ++ p :: l.drop (i + 1) ∧ l.eraseIdx i = l.take i ++ l.drop (i + 1) := by
  obtain ⟨hi, rfl⟩ := List.getElem?_eq_some_iff.1 h
  exact ⟨by rw [← List.drop_eq_getElem_cons hi, List.take_append_drop], List.eraseIdx_eq_take_drop_succ l i⟩

theorem arriving_eraseIdx_ne {l : List (A × B)} {i : Nat} {p : A × B} (h : l[i]? = some p)
    (hx : P.node p.1 ≠ some x) : arriving P x (l.eraseIdx i) = arriving P x l := by
  obtain ⟨hl, herase⟩ := split_of_getElem? h
  rw [herase]
  nth_rewrite 3 [hl]
  rw [arriving_append, arriving_append, arriving_cons_ne hx]

theorem arriving_eraseIdx_first {l : List (A × B)} {i : Nat} {p : A × B} (h : l[i]? = some p)
    (hn : P.node p.1 = some n) (hfirst : ∀ q ∈ l.take i, q.1 ≠ p.1) :
    arriving P n l = p.2 :: arriving P n (l.eraseIdx i) := by
  obtain ⟨hl, herase⟩ := split_of_getElem? h
  have hnone : arriving P n (l.take i) = [] := by
    apply arriving_eq_nil
    intro q hq hqn
    have haddress := ((P.node_eq_some _ _).1 hqn).symm.trans ((P.node_eq_some _ _).1 hn)
    exact hfirst q hq haddress
  rw [herase]
  nth_rewrite 1 [hl]
  rw [arriving_append, arriving_append, hnone, List.nil_append, List.nil_append, arriving_cons_self hn]

end arriving

/-- A line of nodes, `sink` last and in front, in which each passes what it
handles on to the one in front of it. -/
structure Line (P : Plan N A B) (C : Type*) where
  sink : N
  rest : List N
  nodup : (sink :: rest).Nodup
  all : ∀ n, n ∈ sink :: rest
  /-- What the sink will make of a payload at a node. -/
  image : N → B → C
  stops : ∀ b, P.forward sink b = []
  passes : (sink :: rest).IsChain fun m n => ∀ b, ∃ b', P.forward n b = [(P.address m, b')] ∧ image m b' = image n b

namespace Line

variable {P : Plan N A B} {C : Type*} (L : Line P C)

def route : List N := L.sink :: L.rest

/-- Where packets come in. -/
def entry : N := L.route.getLast (List.cons_ne_nil _ _)

def segment (s : State N A B) (n : N) : List C :=
  ((s.held n).toList ++ arriving P n s.flight).map (L.image n)

/-- What the sink has handled and what is still in the line, the oldest first. -/
def content (s : State N A B) : List C :=
  (s.handled L.sink).map (L.image L.sink) ++ L.route.flatMap (L.segment s)

def entered (s : State N A B) : List C := (arriving P L.entry s.sent).map (L.image L.entry)

/-- The network keeps the order of the packets to one address and does not
double any, and nobody else sends into the line. -/
def Keeps (s : State N A B) : Move N A B → Prop
  | .send p => P.node p.1 = none ∨ P.node p.1 = some L.entry
  | .deliver i => ∀ p, s.flight[i]? = some p → ∀ q ∈ s.flight.take i, q.1 ≠ p.1
  | .double _ => False
  | .handle _ | .lose _ => True

/-- The line holds what has entered it, but for what was lost. -/
structure Ordered (s : State N A B) : Prop where
  sublist : (L.content s).Sublist (L.entered s)
  eq : s.lost = [] → L.content s = L.entered s

variable {L}

omit [DecidableEq N] in
theorem flatMap_congr_ne {f g : N → List C} {n : N} (h : ∀ x, x ≠ n → g x = f x) {l : List N} (hn : n ∉ l) :
    l.flatMap g = l.flatMap f := by
  apply List.flatMap_congr
  intro x hx
  apply h
  rintro rfl
  exact hn hx

/-- The line in front of a node, at it, and behind it. -/
theorem content_split (s : State N A B) {front back : List N} {n : N} (h : L.route = front ++ n :: back) :
    L.content s = (s.handled L.sink).map (L.image L.sink) ++
      (front.flatMap (L.segment s) ++ (L.segment s n ++ back.flatMap (L.segment s))) := by
  unfold content
  rw [h, List.flatMap_append, List.flatMap_cons]

omit [DecidableEq N] in
theorem not_mem_of_route {front back : List N} {n : N} (h : L.route = front ++ n :: back) :
    n ∉ front ∧ n ∉ back := by
  have hnodup : (front ++ n :: back).Nodup := h ▸ L.nodup
  rw [List.nodup_append, List.nodup_cons] at hnodup
  exact ⟨fun hmem => hnodup.2.2 n hmem n List.mem_cons_self rfl, hnodup.2.1.1⟩

/-- Nothing changes the content that changes neither the segments nor what the sink has handled. -/
theorem content_congr {s s' : State N A B} (hout : s'.handled L.sink = s.handled L.sink)
    (hseg : ∀ x, L.segment s' x = L.segment s x) : L.content s' = L.content s := by
  unfold content
  rw [hout, List.flatMap_congr fun x _ => hseg x]

theorem segment_deliver {s : State N A B} {i : Nat} {n : N} {b : B} (hflight : s.flight[i]? = some (P.address n, b))
    (hfree : s.held n = none) (hfirst : ∀ q ∈ s.flight.take i, q.1 ≠ P.address n) (x : N) :
    L.segment (s.accept i n b) x = L.segment s x := by
  have hnode : P.node (P.address n) = some n := (P.node_eq_some _ _).2 rfl
  unfold segment
  simp only [State.accept]
  by_cases hx : x = n
  · subst hx
    rw [arriving_eraseIdx_first hflight hnode hfirst, hfree]
    simp
  · have hother : P.node (P.address n) ≠ some x := by
      rw [hnode]
      exact fun he => hx (Option.some.inj he).symm
    rw [Function.update_of_ne hx, arriving_eraseIdx_ne hflight hother]

theorem content_send {s : State N A B} {p : A × B} (hp : P.node p.1 = some L.entry) :
    L.content (s.inject p) = L.content s ++ [L.image L.entry p.2] := by
  have hroute : L.route = L.route.dropLast ++ L.entry :: [] :=
    (List.dropLast_append_getLast (List.cons_ne_nil _ _)).symm
  have hself : L.segment (s.inject p) L.entry =
      L.segment s L.entry ++ [L.image L.entry p.2] := by
    simp [segment, State.inject, arriving_append, arriving_cons_self hp]
  have hother : ∀ x, x ≠ L.entry → L.segment (s.inject p) x =
      L.segment s x := by
    intro x hx
    have hne : P.node p.1 ≠ some x := by
      rw [hp]
      exact fun he => hx (Option.some.inj he).symm
    simp [segment, State.inject, arriving_append, arriving_cons_ne hne]
  rw [content_split _ hroute, content_split s hroute, flatMap_congr_ne hother (not_mem_of_route hroute).1, hself]
  simp [State.inject]

theorem content_handle_sink {s : State N A B} {b : B} (hb : s.held L.sink = some b) :
    L.content (s.finish P L.sink b) = L.content s := by
  have hroute : L.route = [] ++ L.sink :: L.rest := rfl
  have hself : L.segment s L.sink = L.image L.sink b :: L.segment (s.finish P L.sink b) L.sink := by
    simp [segment, State.finish, hb, L.stops]
  have hother : ∀ x, x ≠ L.sink → L.segment (s.finish P L.sink b) x = L.segment s x := by
    intro x hx
    simp [segment, State.finish, L.stops, Function.update_of_ne hx]
  rw [content_split _ hroute, content_split s hroute, flatMap_congr_ne hother (not_mem_of_route hroute).2, hself]
  simp [State.finish]

/-- The oldest payload of a segment becomes the youngest of the one in front. -/
theorem content_handle_pass {s : State N A B} {n : N} {b : B} (hb : s.held n = some b) (hn : n ≠ L.sink) :
    L.content (s.finish P n b) = L.content s := by
  obtain ⟨front₀, back, hrest⟩ := List.append_of_mem ((List.mem_cons.1 (L.all n)).resolve_left hn)
  rcases List.eq_nil_or_concat (L.sink :: front₀) with hnil | ⟨front, m, hfront⟩
  · cases hnil
  have hroute : L.route = front ++ m :: n :: back := by
    rw [route, hrest, ← List.cons_append, hfront]
    simp
  have hpass : ∀ b, ∃ b', P.forward n b = [(P.address m, b')] ∧ L.image m b' = L.image n b := by
    have hchain := L.passes
    rw [← route, hroute, List.isChain_append_cons_cons] at hchain
    exact hchain.2.1
  obtain ⟨b', hforward, himage⟩ := hpass b
  have hm : P.node (P.address m) = some m := (P.node_eq_some _ _).2 rfl
  have hfirst := (not_mem_of_route hroute).1
  have hroute' : L.route = (front ++ [m]) ++ n :: back := by simp [hroute]
  obtain ⟨hnfront, hnback⟩ := not_mem_of_route hroute'
  rw [List.mem_append, List.mem_singleton, not_or] at hnfront
  have hself : L.segment s n = L.image n b :: L.segment (s.finish P n b) n := by
    have hne : P.node (P.address m) ≠ some n := by
      rw [hm]
      exact fun he => hnfront.2 (Option.some.inj he).symm
    simp [segment, State.finish, hb, hforward, arriving_append, arriving_cons_ne (p := (P.address m, b')) hne]
  have hnext : L.segment (s.finish P n b) m = L.segment s m ++ [L.image n b] := by
    simp [segment, State.finish, hforward, arriving_append, arriving_cons_self (p := (P.address m, b')) hm, himage,
      Function.update_of_ne (Ne.symm hnfront.2)]
  have hother : ∀ x, x ≠ m → x ≠ n → L.segment (s.finish P n b) x = L.segment s x := by
    intro x hxm hxn
    have hne : P.node (P.address m) ≠ some x := by
      rw [hm]
      exact fun he => hxm (Option.some.inj he).symm
    simp [segment, State.finish, hforward, arriving_append, arriving_cons_ne (p := (P.address m, b')) hne,
      Function.update_of_ne hxn]
  have hf : front.flatMap (L.segment (s.finish P n b)) = front.flatMap (L.segment s) := by
    apply List.flatMap_congr
    intro x hx
    exact hother x (fun h => hfirst (h ▸ hx)) (fun h => hnfront.1 (h ▸ hx))
  have hbk : back.flatMap (L.segment (s.finish P n b)) = back.flatMap (L.segment s) := by
    apply List.flatMap_congr
    intro x hx
    have hxm : x ≠ m := by
      rintro rfl
      exact (not_mem_of_route hroute).2 (List.mem_cons_of_mem _ hx)
    exact hother x hxm (fun h => hnback (h ▸ hx))
  rw [content_split _ hroute, content_split s hroute, List.flatMap_cons, List.flatMap_cons, hf, hbk, hnext, hself]
  simp [State.finish, Function.update_of_ne (Ne.symm hn)]

theorem content_handle {s : State N A B} {n : N} {b : B} (hb : s.held n = some b) :
    L.content (s.finish P n b) = L.content s := by
  by_cases hn : n = L.sink
  · subst hn
    exact content_handle_sink hb
  · exact content_handle_pass hb hn

theorem ordered_start : L.Ordered State.start := by
  have hcontent : L.content State.start = [] := by simp [content, State.start, segment]
  have hentered : L.entered State.start = [] := by simp [entered, State.start]
  exact ⟨by rw [hcontent, hentered], fun _ => by rw [hcontent, hentered]⟩

theorem Ordered.of_eq {s s' : State N A B} (h : L.Ordered s) (hcontent : L.content s' = L.content s)
    (hentered : L.entered s' = L.entered s) (hlost : s'.lost = s.lost) : L.Ordered s' where
  sublist := by
    rw [hcontent, hentered]
    exact h.sublist
  eq hl := by
    rw [hcontent, hentered]
    exact h.eq (hlost ▸ hl)

theorem Ordered.send {s : State N A B} (h : L.Ordered s) {p : A × B}
    (hp : P.node p.1 = none ∨ P.node p.1 = some L.entry) :
    L.Ordered (s.inject p) := by
  rcases hp with hp | hp
  · have hnone : ∀ x, P.node p.1 ≠ some x := by simp [hp]
    have hcontent : L.content (s.inject p) = L.content s := by
      refine content_congr rfl fun x => ?_
      simp [segment, State.inject, arriving_append, arriving_cons_ne (hnone x)]
    have hentered : L.entered (s.inject p) = L.entered s := by
      simp [entered, State.inject, arriving_append, arriving_cons_ne (hnone L.entry)]
    exact h.of_eq hcontent hentered rfl
  · have hentered : L.entered (s.inject p) =
        L.entered s ++ [L.image L.entry p.2] := by
      simp [entered, State.inject, arriving_append, arriving_cons_self hp]
    refine ⟨?_, fun hl => ?_⟩
    · rw [content_send hp, hentered]
      exact h.sublist.append (List.Sublist.refl _)
    · rw [content_send hp, hentered, h.eq hl]

theorem Ordered.lose {s : State N A B} (h : L.Ordered s) {i : Nat} (p : A × B) :
    L.Ordered (s.drop i p) := by
  refine ⟨List.Sublist.trans ?_ h.sublist, fun hl => by simp [State.drop] at hl⟩
  apply List.Sublist.append (List.Sublist.refl _)
  apply List.Sublist.flatMap_right
  intro x _
  apply List.Sublist.map
  apply List.Sublist.append (List.Sublist.refl _)
  exact (List.eraseIdx_sublist s.flight i).filterMap _

theorem Ordered.step {s s' : State N A B} {m : Move N A B} (h : L.Ordered s) (hk : L.Keeps s m)
    (hs : Network.step P s m = some s') : L.Ordered s' := by
  cases transition_of_step hs with
  | send => exact h.send hk
  | deliver hflight hfree =>
    exact h.of_eq (content_congr rfl (segment_deliver hflight hfree (hk _ hflight))) rfl rfl
  | handle hheld => exact h.of_eq (content_handle hheld) rfl rfl
  | lose => exact h.lose _
  | double => exact absurd hk id

/-- A run that keeps the order keeps it down the line. -/
theorem ordered_of_run (L : Line P C) {ms : List (Move N A B)} {s : State N A B}
    (hk : EveryStep (Network.step P) L.Keeps State.start ms)
    (h : run (Network.step P) State.start ms = some s) : L.Ordered s :=
  (EveryState.of_inv L.Ordered L.Keeps (fun _ _ _ ho hk hs => ho.step hk hs) ordered_start hk).last h

end Line

/-! ## Termination -/

/-- Every handler sends to lower levels, less in sum than its own. -/
structure Fall (P : Plan N A B) where
  level : A → Nat
  falls : ∀ n b, ((P.forward n b).map fun p => level p.1).sum < level (P.address n)

namespace Fall

variable [Fintype N] {P : Plan N A B} (F : Fall P)

def weight (l : List (A × B)) : Nat := 2 * (l.map fun p => F.level p.1).sum

/-- A held packet counts one less than one still on its way. -/
def rank (s : State N A B) : Nat :=
  F.weight s.flight + ∑ n, (s.held n).elim 0 fun _ => 2 * F.level (P.address n) - 1

/-- The steps that moved packets on so far, and those that are left at most. -/
def Bounded (ms : List (Move N A B)) (s : State N A B) : Prop :=
  ms.countP Move.transports + F.rank s ≤ F.weight s.sent + F.weight s.doubled

variable {F}

omit [DecidableEq N] [Fintype N] in
theorem weight_append (l l' : List (A × B)) : F.weight (l ++ l') = F.weight l + F.weight l' := by
  unfold weight
  rw [List.map_append, List.sum_append, Nat.mul_add]

omit [DecidableEq N] [Fintype N] in
theorem weight_eraseIdx {l : List (A × B)} {i : Nat} {p : A × B} (h : l[i]? = some p) :
    F.weight l = 2 * F.level p.1 + F.weight (l.eraseIdx i) := by
  unfold weight
  rw [sum_eraseIdx _ h, Nat.mul_add]

omit [DecidableEq N] [Fintype N] in
theorem weight_forward (n : N) (b : B) : F.weight (P.forward n b) + 2 ≤ 2 * F.level (P.address n) := by
  have hfalls := F.falls n b
  unfold weight
  omega

omit [DecidableEq N] in
theorem bounded_start : F.Bounded [] State.start := by simp [Bounded, rank, weight, State.start]

/-- A transport uses up rank, and only what comes in or is doubled adds any. -/
theorem rank_step {s s' : State N A B} {m : Move N A B} (hs : Network.step P s m = some s') :
    (if m.transports then 1 else 0) + F.rank s' + F.weight s.sent + F.weight s.doubled ≤
      F.rank s + F.weight s'.sent + F.weight s'.doubled := by
  unfold rank
  cases transition_of_step hs with
  | @send p =>
    simp only [State.inject, Move.transports, weight_append, Bool.false_eq_true, if_false]
    omega
  | @deliver i n b hflight hfree =>
    have hlevel := weight_forward (F := F) n b
    have hheld := sum_update (fun x o => Option.elim o 0 fun _ : B => 2 * F.level (P.address x) - 1) s.held n (some b)
    have hweight := weight_eraseIdx (F := F) hflight
    rw [hfree] at hheld
    simp only [Option.elim_none, Option.elim_some] at hheld
    simp only [State.accept, Move.transports, if_true]
    dsimp only at hweight
    omega
  | @handle n b hb =>
    have hlevel := weight_forward (F := F) n b
    have hheld := sum_update (fun x o => Option.elim o 0 fun _ : B => 2 * F.level (P.address x) - 1) s.held n none
    rw [hb] at hheld
    simp only [Option.elim_none, Option.elim_some] at hheld
    simp only [State.finish, Move.transports, weight_append, if_true]
    omega
  | lose hflight =>
    have hweight := weight_eraseIdx (F := F) hflight
    simp only [State.drop, Move.transports, Bool.false_eq_true, if_false]
    omega
  | @double i p hflight =>
    simp only [State.copy, Move.transports, weight_append, Bool.false_eq_true, if_false]
    omega

theorem Bounded.step {ms : List (Move N A B)} {s s' : State N A B} {m : Move N A B} (h : F.Bounded ms s)
    (hs : Network.step P s m = some s') : F.Bounded (ms ++ [m]) s' := by
  have hrank := rank_step (F := F) hs
  unfold Bounded at h ⊢
  rw [List.countP_append, List.countP_singleton]
  omega

/-- However the packets move, each that comes in moves only so often. -/
theorem transports_le (F : Fall P) {ms : List (Move N A B)} {s : State N A B}
    (h : run (Network.step P) State.start ms = some s) :
    ms.countP Move.transports ≤ F.weight s.sent + F.weight s.doubled :=
  (Nat.le_add_right _ _).trans
    (run_inv_trace F.Bounded (fun _ _ _ _ hb hs => hb.step hs) h bounded_start)

end Fall

end Network
