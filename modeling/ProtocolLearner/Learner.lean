import ProtocolLearner.Algos
import ProtocolLearner.Worker
/-!
# The learner and its two UDP pairs

`CUdpPair` and `CUdpProtocolLearner`. A receive has two steps: it completes
(the payload goes to the front of the buffer and the source to
`m_RemoteEndpoint`), and later its handler runs; handlers run one at a time.
`World` adds a log of what the handlers did, which the code does not keep.

Sockets are not modelled beyond whether there is a destination to send to, nor
are the address and port a pair listens on. Addresses are valid and sockets
open. But any call of `send_to` may throw: how it ends is an input of the run.
-/

namespace ProtocolLearner

open KMeans

structure Endpoint where
  address : String
  port : UInt16
  deriving DecidableEq, Repr

/-- The size of the receive buffers of a pair and of the echo server. -/
def bufferSize : Nat := 65535

/-- The payload of a UDP datagram: it fits a receive buffer. -/
structure Datagram where
  bytes : List UInt8
  fits : bytes.length ≤ bufferSize
  deriving DecidableEq

/-- How a receive completes. A failure comes with no bytes. -/
inductive Completion where
  | success (datagram : Datagram) (source : Endpoint)
  | failure
  deriving DecidableEq

def Completion.payload : Completion → List UInt8
  | success datagram _ => datagram.bytes
  | failure => []

theorem Completion.payload_fits (c : Completion) : c.payload.length ≤ bufferSize := by
  cases c with
  | success datagram source => exact datagram.fits
  | failure => exact Nat.zero_le _

/-- How a call of `send_to` ends. It throws where nothing can be sent, as to port 0. -/
inductive SendOutcome where
  | returns
  | throws
  deriving DecidableEq, Repr

/-- The `async_receive_from` of a pair: none under way, one under way, or one
completed whose handler has yet to run. -/
inductive Receive where
  | idle
  | posted
  | completed (c : Completion)
  deriving DecidableEq

/-! ## One pair -/

structure CUdpPair where
  m_IpAddressToSendTo : String
  m_PortToSendTo : UInt16
  m_ReceiveBuffer : List UInt8
  /-- Uninitialised, as `m_OutboundSocket` is, until a port is known. -/
  m_FinalEndpoint : Option Endpoint
  m_RemoteEndpoint : Endpoint
  m_PacketsSeen : UInt32
  m_TotalBytesSeen : UInt32
  receive : Receive
  deriving DecidableEq

namespace CUdpPair

def new (aIpAddressToSendTo : String) (aPortToSendTo : UInt16) : CUdpPair where
  m_IpAddressToSendTo := aIpAddressToSendTo
  m_PortToSendTo := aPortToSendTo
  m_ReceiveBuffer := List.replicate bufferSize 0
  m_FinalEndpoint := if aPortToSendTo ≠ 0 then some ⟨aIpAddressToSendTo, aPortToSendTo⟩ else none
  m_RemoteEndpoint := ⟨"0.0.0.0", 0⟩
  m_PacketsSeen := 0
  m_TotalBytesSeen := 0
  receive := .idle

def mSetOutboundPortAndOpenSocket (aNewPort : UInt16) (p : CUdpPair) : CUdpPair :=
  { p with m_PortToSendTo := aNewPort, m_FinalEndpoint := some ⟨p.m_IpAddressToSendTo, aNewPort⟩ }

def mStartReceive (p : CUdpPair) : CUdpPair := { p with receive := .posted }

def mGetPortOfClient (p : CUdpPair) : UInt16 := p.m_RemoteEndpoint.port

/-- The receive under way completes. -/
def complete (c : Completion) (p : CUdpPair) : CUdpPair :=
  match c with
  | .success datagram source =>
    { p with
      m_ReceiveBuffer := datagram.bytes ++ p.m_ReceiveBuffer.drop datagram.bytes.length
      m_RemoteEndpoint := source
      receive := .completed c }
  | .failure => { p with receive := .completed c }

/-- The first lines of `handle_receive_from`. -/
def countPacket (bytes_recvd : Nat) (p : CUdpPair) : CUdpPair :=
  { p with
    m_PacketsSeen := p.m_PacketsSeen + 1
    m_TotalBytesSeen := p.m_TotalBytesSeen + UInt32.ofNat bytes_recvd
    receive := .idle }

/-- The end of `handle_receive_from`. An exception of `send_to` leaves the
handler before the pair listens again. -/
def afterSend (outcome : SendOutcome) (p : CUdpPair) : CUdpPair :=
  match outcome with
  | .returns => p.mStartReceive
  | .throws => p

end CUdpPair

/-! ## The learner -/

inductive Direction where
  | highToLow
  | lowToHigh
  deriving DecidableEq, Repr

structure CUdpProtocolLearner (T : Type) where
  m_HighToLowUdpPair : CUdpPair
  m_LowToHighUdpPair : CUdpPair
  m_NumMeansForClassification : UInt16
  m_MaxPacketsToObserve : UInt32
  m_MessageClassificationEngine : Engine T
  m_DownwardTrafficSeen : Bool
  m_AlgoPointer : PacketAnalysisAlgo

/-- What the constructors of the pairs and of the learner are given. -/
structure Setup where
  highToLowAddress : String
  highToLowPort : UInt16
  lowToHighAddress : String
  lowToHighPort : UInt16
  aNumMeansForClassification : UInt16
  aMaxPacketsToObserve : UInt32
  aAnalysisAlgo : PacketAnalysisAlgo
  deriving DecidableEq

namespace CUdpProtocolLearner

variable {T : Type}

/-- The constructor. The engine's `numArgs` is the number of means. -/
def new (s : Setup) : CUdpProtocolLearner T where
  m_HighToLowUdpPair := CUdpPair.new s.highToLowAddress s.highToLowPort
  m_LowToHighUdpPair := CUdpPair.new s.lowToHighAddress s.lowToHighPort
  m_NumMeansForClassification := s.aNumMeansForClassification
  m_MaxPacketsToObserve := s.aMaxPacketsToObserve
  m_MessageClassificationEngine := Engine.launch s.aNumMeansForClassification
  m_DownwardTrafficSeen := false
  m_AlgoPointer := s.aAnalysisAlgo

def mStartListening (l : CUdpProtocolLearner T) : CUdpProtocolLearner T :=
  { l with
    m_HighToLowUdpPair := l.m_HighToLowUdpPair.mStartReceive
    m_LowToHighUdpPair := l.m_LowToHighUdpPair.mStartReceive }

def pair (l : CUdpProtocolLearner T) : Direction → CUdpPair
  | .highToLow => l.m_HighToLowUdpPair
  | .lowToHigh => l.m_LowToHighUdpPair

def setPair (l : CUdpProtocolLearner T) (p : CUdpPair) : Direction → CUdpProtocolLearner T
  | .highToLow => { l with m_HighToLowUdpPair := p }
  | .lowToHigh => { l with m_LowToHighUdpPair := p }

/-- The sum of the two counters wraps at 2^32. -/
def Admits (l : CUdpProtocolLearner T) : Prop :=
  l.m_HighToLowUdpPair.m_PacketsSeen + l.m_LowToHighUdpPair.m_PacketsSeen ≤ l.m_MaxPacketsToObserve

instance (l : CUdpProtocolLearner T) : Decidable l.Admits := inferInstanceAs (Decidable (_ ≤ _))

variable [Scalar T]

/-- `lPacketAnalyser` after `mAnalysePacket`. -/
def lPacketAnalyser (aBytesIn : List UInt8) (l : CUdpProtocolLearner T) : PacketAnalyser :=
  PacketAnalyser.mAnalysePacket ⟨aBytesIn, l.m_AlgoPointer⟩

/-- `lAnalysis` -/
def lAnalysis (aBytesIn : List UInt8) (l : CUdpProtocolLearner T) : List T := (l.lPacketAnalyser aBytesIn).mGetAnalysis

/-- The first half of `mProcessPacket`. -/
def observePacket (aBytesIn : List UInt8) (l : CUdpProtocolLearner T) : CUdpProtocolLearner T :=
  if l.Admits then
    { l with
      m_AlgoPointer := (l.lPacketAnalyser aBytesIn).m_AlgoToRun
      m_MessageClassificationEngine :=
        if l.lAnalysis aBytesIn = [] then l.m_MessageClassificationEngine
        else l.m_MessageClassificationEngine.submit (l.lAnalysis aBytesIn) }
  else l

omit [Scalar T] in
/-- The second half of `mProcessPacket`, whichever pair the packet came from. -/
def learnReturnPort (l : CUdpProtocolLearner T) : CUdpProtocolLearner T :=
  if l.m_DownwardTrafficSeen then l
  else
    { l with
      m_LowToHighUdpPair :=
        l.m_LowToHighUdpPair.mSetOutboundPortAndOpenSocket l.m_HighToLowUdpPair.mGetPortOfClient
      m_DownwardTrafficSeen := true }

def mProcessPacket (aBytesIn : List UInt8) (l : CUdpProtocolLearner T) : CUdpProtocolLearner T :=
  (l.observePacket aBytesIn).learnReturnPort

end CUdpProtocolLearner

/-! ## Runs -/

/-- What the handler of one completed receive did. -/
structure Handled (T : Type) where
  direction : Direction
  completion : Completion
  /-- `mGetPortOfClient` of the HighToLow pair at that time. -/
  clientPort : UInt16
  /-- The analysis, of an admitted packet. -/
  analysis : Option (List T)
  /-- What `send_to` was called with. -/
  sent : List UInt8
  sentTo : Endpoint
  outcome : SendOutcome

/-- A learner and what its handlers have done so far. -/
structure World (T : Type) where
  learner : CUdpProtocolLearner T
  log : List (Handled T)

/-- A step of asio or of one of the threads. -/
inductive Event (T : Type) where
  | complete (d : Direction) (c : Completion)
  /-- The handler of a completed receive runs, and its `send_to` ends in `outcome`. -/
  | handle (d : Direction) (outcome : SendOutcome)
  | worker (shuffle : Shuffle (DataPoint T))
  | spurious
  | notify
  | stop

/-- The step of the engine's threads that an event is. -/
def Event.act? {T : Type} : Event T → Option (Act T)
  | .complete _ _ | .handle _ _ => none
  | .worker shuffle => some (.worker shuffle)
  | .spurious => some .spurious
  | .notify => some .notify
  | .stop => some .stop

namespace World

variable {T : Type}

def start (s : Setup) : World T := ⟨(CUdpProtocolLearner.new s).mStartListening, []⟩

def engine (w : World T) : Engine T := w.learner.m_MessageClassificationEngine

def setEngine (w : World T) (e : Engine T) : World T :=
  { w with learner := { w.learner with m_MessageClassificationEngine := e } }

variable [Scalar T]

omit [Scalar T] in
/-- The learner when `handle_receive_from` has counted the packet. -/
def counted (d : Direction) (c : Completion) (w : World T) : CUdpProtocolLearner T :=
  w.learner.setPair ((w.learner.pair d).countPacket c.payload.length) d

omit [Scalar T] in
/-- The first `bytes_recvd` bytes of the buffer. -/
def receivedBytes (d : Direction) (c : Completion) (w : World T) : List UInt8 :=
  (w.learner.pair d).m_ReceiveBuffer.take c.payload.length

/-- The log entry of a handler that called `send_to` with `sentTo`. -/
def entry (d : Direction) (c : Completion) (sentTo : Endpoint) (outcome : SendOutcome) (w : World T) : Handled T where
  direction := d
  completion := c
  clientPort := (w.counted d c).m_HighToLowUdpPair.mGetPortOfClient
  analysis := if (w.counted d c).Admits then some ((w.counted d c).lAnalysis (w.receivedBytes d c)) else none
  sent := w.receivedBytes d c
  sentTo := sentTo
  outcome := outcome

/-- `handle_receive_from`. Sending without a destination is undefined. -/
def handle_receive_from (d : Direction) (c : Completion) (outcome : SendOutcome) (w : World T) : Option (World T) :=
  -- The error code is not looked at, so a failed receive is an empty packet.
  let l := (w.counted d c).mProcessPacket (w.receivedBytes d c)
  match (l.pair d).m_FinalEndpoint with
  | none => none
  | some sentTo => some {
      learner := l.setPair ((l.pair d).afterSend outcome) d
      log := w.log ++ [w.entry d c sentTo outcome] }

/-- One step. After an exception in the worker there is none. After one of
`send_to` the others go on, as they do where the caller runs the service again. -/
def step (w : World T) (ev : Event T) : Option (World T) :=
  if w.engine.IsTerminated then none
  else match ev with
    | .complete d c =>
      if (w.learner.pair d).receive = .posted then
        some { w with learner := w.learner.setPair ((w.learner.pair d).complete c) d }
      else none
    | .handle d outcome =>
      match (w.learner.pair d).receive with
      | .completed c => w.handle_receive_from d c outcome
      | .idle | .posted => none
    | .worker _ | .spurious | .notify | .stop =>
      (ev.act?.bind (Engine.step w.learner.m_NumMeansForClassification w.engine)).map w.setEngine

end World

end ProtocolLearner
