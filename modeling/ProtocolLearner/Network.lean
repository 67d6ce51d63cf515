import ProtocolLearner.Client
import ProtocolLearner.Lib.Network
import ProtocolLearner.ReturnPort
import ProtocolLearner.Sinks
/-!
# A client, the learner and an echo server

The system of the round-trip test: a client sends frames to the HighToLow pair,
which sends them on to an echo server, which answers to the LowToHigh pair,
which sends on to the port it has learned. Packets between them may be lost,
doubled and delivered in any order, and the engine's thread runs at any time.
Receives do not fail here. Nothing catches an exception of `send_to`, so there
is no step of the system in which one is thrown.

Every step of the system is a move of a store-and-forward network, or none
(`refines_step`).
-/

namespace ProtocolLearner

open Machine

/-- Who receives packets. -/
inductive Party where
  | pair (d : Direction)
  | server
  | client
  deriving DecidableEq, Repr

namespace Party

def all : List Party := [.client, .pair .lowToHigh, .server, .pair .highToLow]

theorem mem_all (x : Party) : x ∈ all := by
  cases x with
  | pair d => cases d <;> decide
  | server => decide
  | client => decide

theorem nodup_all : all.Nodup := by decide

instance : Fintype Party := ⟨⟨all, nodup_all⟩, mem_all⟩

end Party

/-- What the constructors are given, and which endpoints the sockets have. -/
structure Topology where
  setup : Setup
  /-- What the resolver finds for an address and a port. -/
  resolve : String → UInt16 → Endpoint
  clientAddress : String
  clientPort : UInt16
  serverAddress : String
  serverPort : UInt16
  m_ProcessorCallback : List UInt8 → List UInt8
  /-- Where a party receives. -/
  inbound : Party → Endpoint
  /-- Where the packets a party sends come from. -/
  outbound : Party → Endpoint
  inbound_injective : Function.Injective inbound
  /-- The client has one socket, and nobody receives at the one that the LowToHigh pair sends from. -/
  client_socket : outbound .client = inbound .client
  unheard : ∀ x, inbound x ≠ outbound (.pair .lowToHigh)
  client_sends : resolve clientAddress clientPort = inbound (.pair .highToLow)
  server_sends : resolve serverAddress serverPort = inbound (.pair .lowToHigh)
  pair_sends : ⟨setup.highToLowAddress, setup.highToLowPort⟩ = inbound .server
  pair_opens : setup.highToLowPort ≠ 0
  pair_returns : setup.lowToHighAddress = (inbound .client).address

/-- Who receives at an endpoint. -/
def Topology.party (top : Topology) (e : Endpoint) : Option Party := Party.all.find? (top.inbound · = e)

section party
variable {top : Topology}

theorem party_eq_some {e : Endpoint} {x : Party} : top.party e = some x ↔ top.inbound x = e := by
  constructor
  · intro h
    simpa using List.find?_some h
  · rintro rfl
    unfold Topology.party
    have hsome : (Party.all.find? (top.inbound · = top.inbound x)).isSome = true := by
      rw [List.find?_isSome]
      exact ⟨x, Party.mem_all x, by simp⟩
    obtain ⟨y, hy⟩ := Option.isSome_iff_exists.1 hsome
    have hxy := List.find?_some hy
    rw [hy, top.inbound_injective (of_decide_eq_true hxy)]

theorem party_inbound (x : Party) : top.party (top.inbound x) = some x := party_eq_some.2 rfl

theorem party_unheard : top.party (top.outbound (.pair .lowToHigh)) = none := by
  cases h : top.party (top.outbound (.pair .lowToHigh)) with
  | none => rfl
  | some x => exact absurd (party_eq_some.1 h) (top.unheard x)

end party

/-- The most bytes that a UDP datagram carries over IPv4. -/
def maxPayload : Nat := 65507

/-- What `send_to` takes without an exception. -/
structure Sendable (destination : Endpoint) (bytes : List UInt8) : Prop where
  port : destination.port ≠ 0
  fits : bytes.length ≤ maxPayload

instance (destination : Endpoint) (bytes : List UInt8) : Decidable (Sendable destination bytes) :=
  decidable_of_iff (destination.port ≠ 0 ∧ bytes.length ≤ maxPayload) ⟨fun h => ⟨h.1, h.2⟩, fun h => ⟨h.port, h.fits⟩⟩

theorem maxPayload_le : maxPayload ≤ bufferSize := by decide

/-- What has been sent and is on its way. -/
structure Packet where
  source : Endpoint
  destination : Endpoint
  bytes : List UInt8
  fits : bytes.length ≤ maxPayload
  deriving DecidableEq

def Packet.datagram (p : Packet) : Datagram := ⟨p.bytes, p.fits.trans maxPayload_le⟩

@[simp] theorem Packet.bytes_datagram (p : Packet) : p.datagram.bytes = p.bytes := rfl

/-- The parties and the packets between them, and what has become of these. -/
structure System (T : Type) where
  world : World T
  echo : EchoWorld
  client : ClientWorld
  flight : List Packet
  /-- The payloads the client has been called back for. -/
  received : List (List UInt8)
  doubled : List Packet
  lost : List Packet

/-- A step of a party or of the network. -/
inductive SystemEvent (T : Type) where
  /-- The client's `mSend`. -/
  | send (aVecToSend : List UInt8)
  /-- The packet at place `i` reaches its destination. -/
  | deliver (i : Nat)
  /-- The handler of a completed receive runs. -/
  | handle (x : Party)
  | lose (i : Nat)
  | double (i : Nat)
  /-- A step of the engine's threads. -/
  | thread (ev : Event T)

namespace System

variable {T : Type}

def start (top : Topology) : System T where
  world := .start top.setup
  echo := ⟨.new top.resolve (top.inbound .server).address top.serverAddress (top.inbound .server).port top.serverPort
    top.m_ProcessorCallback, []⟩
  client := .start top.resolve top.clientAddress top.clientPort
  flight := []
  received := []
  doubled := []
  lost := []

def receive (s : System T) : Party → Receive
  | .pair d => (s.world.learner.pair d).receive
  | .server => s.echo.server.receive
  | .client => s.client.client.receive

/-- `send_to`. There is no state after its exception. -/
def send_to (source destination : Endpoint) (bytes : List UInt8) (s : System T) : Option (System T) :=
  if h : Sendable destination bytes then
    some { s with flight := s.flight ++ [⟨source, destination, bytes, h.fits⟩] }
  else none

variable [Scalar T]

/-- The receive of a party completes. -/
def complete (c : Completion) (s : System T) : Party → Option (System T)
  | .pair d => (s.world.step (.complete d c)).map fun w => { s with world := w }
  | .server => (s.echo.step (.complete c)).map fun e => { s with echo := e }
  | .client => (s.client.step (.complete c)).map fun c => { s with client := c }

/-- The handler of a party runs and sends what it sends. -/
def handle (top : Topology) (s : System T) : Party → Option (System T)
  | .pair d =>
    (s.world.step (.handle d .returns)).bind fun w => w.log.getLast?.bind fun e =>
      { s with world := w }.send_to (top.outbound (.pair d)) e.sentTo e.sent
  | .server =>
    (s.echo.step .handle).bind fun w => w.log.getLast?.bind fun e =>
      { s with echo := w }.send_to (top.outbound .server) e.sentTo e.sent
  | .client =>
    match s.client.client.receive with
    | .completed c => (s.client.step .handle).map fun w => { s with client := w, received := s.received ++ [c.payload] }
    | .idle | .posted => none

def step (top : Topology) (s : System T) : SystemEvent T → Option (System T)
  | .send aVecToSend =>
    (s.client.step (.send aVecToSend ⟨"0.0.0.0", (top.outbound .client).port⟩)).bind fun w =>
      { s with client := w }.send_to (top.outbound .client) s.client.client.m_RemoteEndpointToSendTo aVecToSend
  | .deliver i =>
    s.flight[i]?.bind fun p => (top.party p.destination).bind fun x =>
      { s with flight := s.flight.eraseIdx i }.complete (.success p.datagram p.source) x
  | .handle x => s.handle top x
  | .lose i => s.flight[i]?.map fun p => { s with flight := s.flight.eraseIdx i, lost := s.lost ++ [p] }
  | .double i => s.flight[i]?.map fun p => { s with flight := s.flight ++ [p], doubled := s.doubled ++ [p] }
  | .thread ev => if ev.act?.isSome then (s.world.step ev).map fun w => { s with world := w } else none

/-! ## The test's system -/

def sampleInbound : Party → Endpoint
  | .pair .highToLow => ⟨"127.0.0.1", 10070⟩
  | .pair .lowToHigh => ⟨"127.0.0.1", 10071⟩
  | .server => ⟨"127.0.0.1", 9001⟩
  | .client => ⟨"127.0.0.1", 40000⟩

def sampleOutbound : Party → Endpoint
  | .pair .highToLow => ⟨"127.0.0.1", 40001⟩
  | .pair .lowToHigh => ⟨"127.0.0.1", 40002⟩
  | .server => ⟨"127.0.0.1", 40003⟩
  | .client => ⟨"127.0.0.1", 40000⟩

theorem sampleInbound_injective : Function.Injective sampleInbound := by
  intro x y
  rcases x with (_ | _) | _ | _ <;> rcases y with (_ | _) | _ | _ <;> simp [sampleInbound]

theorem sampleOutbound_unheard (x : Party) : sampleInbound x ≠ sampleOutbound (.pair .lowToHigh) := by
  rcases x with (_ | _) | _ | _ <;> simp [sampleInbound, sampleOutbound]

theorem samplePort_ne_zero : World.sampleSetup.highToLowPort ≠ 0 := by decide

/-- `lEchoFunctionIncrementAllBytes` -/
def lEchoFunctionIncrementAllBytes (inVec : List UInt8) : List UInt8 := inVec.map (· + 1)

/-- Everything on one host, as in the round-trip test. -/
def sampleTopology : Topology where
  setup := World.sampleSetup
  resolve := Endpoint.mk
  clientAddress := "127.0.0.1"
  clientPort := 10070
  serverAddress := "127.0.0.1"
  serverPort := 10071
  m_ProcessorCallback := lEchoFunctionIncrementAllBytes
  inbound := sampleInbound
  outbound := sampleOutbound
  inbound_injective := sampleInbound_injective
  client_socket := rfl
  unheard := sampleOutbound_unheard
  client_sends := rfl
  server_sends := rfl
  pair_sends := rfl
  pair_opens := samplePort_ne_zero
  pair_returns := rfl

/-- The oldest packet goes all the way. -/
def oneTrip : List (SystemEvent T) :=
  [.deliver 0, .handle (.pair .highToLow), .deliver 0, .handle .server, .deliver 0, .handle (.pair .lowToHigh),
    .deliver 0, .handle .client]

/-- A frame comes back, and another is sent. -/
def thereAndBack : List (SystemEvent ℚ) := .send [26, 76] :: oneTrip ++ [.send [1]]

end System

end ProtocolLearner
