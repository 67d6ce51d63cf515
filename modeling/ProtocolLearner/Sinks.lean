import ProtocolLearner.Handlers
/-!
# The receiver and the echo server

`CUdpReceiver` hands every frame it receives to a callback. `CUdpTestEchoServer`
has its callback change the frame and sends the result to the endpoint its
constructor resolved. Neither looks at the `error` of a receive, so a failed one
is a frame without bytes to both.

What is called back with is the frame alone, whatever a longer one has left in
the buffer, and the receiver's counters are its totals as 32 bits hold them
(`frames_of_run`).
-/

namespace ProtocolLearner

open Machine

/-! ## The receiver -/

structure CUdpReceiver where
  m_AddressToReceiveOn : String
  m_PortToReceiveOn : UInt16
  m_PacketsSeen : UInt32
  m_TotalBytesSeen : UInt32
  m_ReceiveBuffer : List UInt8
  m_RemoteEndpoint : Endpoint
  receive : Receive

namespace CUdpReceiver

def mStartReceive (r : CUdpReceiver) : CUdpReceiver := { r with receive := .posted }

def new (aAddressToReceiveOn : String) (aPortToReceiveOn : UInt16) : CUdpReceiver :=
  mStartReceive {
    m_AddressToReceiveOn := aAddressToReceiveOn
    m_PortToReceiveOn := aPortToReceiveOn
    m_PacketsSeen := 0
    m_TotalBytesSeen := 0
    m_ReceiveBuffer := List.replicate (1024 * 1024) 0
    m_RemoteEndpoint := ⟨"0.0.0.0", 0⟩
    receive := .idle }

/-- The receive under way completes. -/
def complete (c : Completion) (r : CUdpReceiver) : CUdpReceiver :=
  match c with
  | .success datagram source =>
    { r with
      m_ReceiveBuffer := datagram.bytes ++ r.m_ReceiveBuffer.drop datagram.bytes.length
      m_RemoteEndpoint := source
      receive := .completed c }
  | .failure => { r with receive := .completed c }

/-- The first lines of `handle_receive_from`. -/
def countFrame (bytes_recvd : Nat) (r : CUdpReceiver) : CUdpReceiver :=
  { r with
    m_PacketsSeen := r.m_PacketsSeen + 1
    m_TotalBytesSeen := r.m_TotalBytesSeen + UInt32.ofNat bytes_recvd
    receive := .idle }

/-- `lTemp` -/
def lTemp (bytes_recvd : Nat) (r : CUdpReceiver) : List UInt8 := r.m_ReceiveBuffer.take bytes_recvd

end CUdpReceiver

/-- A step of asio at an object with one receive. -/
inductive SinkEvent where
  | complete (c : Completion)
  | handle
  deriving DecidableEq

/-- How a receive completes, if that is what the event is. -/
def SinkEvent.completion : SinkEvent → Option Completion
  | complete c => some c
  | handle => none

/-- A receiver and the arguments that `m_FrameReceivedCallback` has been called with. -/
structure ReceiverWorld where
  receiver : CUdpReceiver
  frames : List (List UInt8)

namespace ReceiverWorld

def start (aAddressToReceiveOn : String) (aPortToReceiveOn : UInt16) : ReceiverWorld :=
  ⟨CUdpReceiver.new aAddressToReceiveOn aPortToReceiveOn, []⟩

def handle_receive_from (bytes_recvd : Nat) (w : ReceiverWorld) : ReceiverWorld :=
  let r := w.receiver.countFrame bytes_recvd
  { receiver := r.mStartReceive, frames := w.frames ++ [r.lTemp bytes_recvd] }

def step (w : ReceiverWorld) : SinkEvent → Option ReceiverWorld
  | .complete c =>
    if w.receiver.receive = .posted then some { w with receiver := w.receiver.complete c } else none
  | .handle =>
    match w.receiver.receive with
    | .completed c => some (w.handle_receive_from c.payload.length)
    | .idle | .posted => none

/-- The receive that waits for its handler. -/
def waiting (w : ReceiverWorld) : List Completion :=
  match w.receiver.receive with
  | .completed c => [c]
  | .idle | .posted => []

/-- What the receives so far say of the receiver. -/
structure Called (evs : List SinkEvent) (w : ReceiverWorld) : Prop where
  frames : (evs.filterMap SinkEvent.completion).map Completion.payload = w.frames ++ w.waiting.map Completion.payload
  buffer : ∀ c, w.receiver.receive = .completed c → w.receiver.m_ReceiveBuffer.take c.payload.length = c.payload
  seen : w.receiver.m_PacketsSeen = UInt32.ofNat w.frames.length
  bytes : w.receiver.m_TotalBytesSeen = UInt32.ofNat w.frames.flatten.length

theorem called_start (aAddressToReceiveOn : String) (aPortToReceiveOn : UInt16) :
    Called [] (start aAddressToReceiveOn aPortToReceiveOn) where
  frames := rfl
  buffer c h := by cases h
  seen := rfl
  bytes := rfl

theorem Called.complete {evs : List SinkEvent} {w : ReceiverWorld} (h : Called evs w)
    (hp : w.receiver.receive = .posted) (c : Completion) :
    Called (evs ++ [.complete c]) { w with receiver := w.receiver.complete c } := by
  have hreceive : (w.receiver.complete c).receive = .completed c := by cases c <;> rfl
  refine ⟨?_, ?_, ?_, ?_⟩
  · have hbefore := h.frames
    simp only [waiting, hp, List.map_nil, List.append_nil] at hbefore
    simp [hbefore, waiting, hreceive, SinkEvent.completion]
  · intro c' hc'
    obtain rfl := Receive.completed.inj (hreceive.symm.trans hc')
    cases c <;> simp [CUdpReceiver.complete, Completion.payload]
  · rw [← h.seen]
    cases c <;> rfl
  · rw [← h.bytes]
    cases c <;> rfl

theorem Called.handle {evs : List SinkEvent} {w : ReceiverWorld} (h : Called evs w) {c : Completion}
    (hc : w.receiver.receive = .completed c) :
    Called (evs ++ [.handle]) (w.handle_receive_from c.payload.length) := by
  have hframe : (w.receiver.countFrame c.payload.length).lTemp c.payload.length = c.payload := h.buffer c hc
  refine ⟨?_, ?_, ?_, ?_⟩
  · have hbefore := h.frames
    simp only [waiting, hc] at hbefore
    simp [hbefore, waiting, handle_receive_from, hframe, CUdpReceiver.mStartReceive, SinkEvent.completion]
  · intro c' hc'
    cases hc'
  · simp only [handle_receive_from, CUdpReceiver.mStartReceive, CUdpReceiver.countFrame, h.seen,
      List.length_append, List.length_singleton, UInt32.ofNat_add]
    rfl
  · simp only [handle_receive_from, hframe, List.flatten_append, List.flatten_singleton, List.length_append,
      UInt32.ofNat_add]
    rw [← h.bytes]
    rfl

theorem Called.step {evs : List SinkEvent} {w w' : ReceiverWorld} {ev : SinkEvent} (h : Called evs w)
    (hs : w.step ev = some w') : Called (evs ++ [ev]) w' := by
  cases ev with
  | complete c =>
    simp only [ReceiverWorld.step] at hs
    split at hs
    · next hp => cases hs; exact h.complete hp c
    · cases hs
  | handle =>
    simp only [ReceiverWorld.step] at hs
    split at hs
    · next c hc => cases hs; exact h.handle hc
    · cases hs
    · cases hs

theorem called_of_run {aAddressToReceiveOn : String} {aPortToReceiveOn : UInt16} {evs : List SinkEvent}
    {w : ReceiverWorld} (hrun : run step (start aAddressToReceiveOn aPortToReceiveOn) evs = some w) : Called evs w :=
  run_inv_trace Called (fun _ _ _ _ h hs => h.step hs) hrun (called_start _ _)

/-- In every run the callback has been called with the payloads of the completed
receives in order, but for the one that waits for its handler, and the counters
are the numbers of these calls and of their bytes modulo 2^32. -/
theorem frames_of_run {aAddressToReceiveOn : String} {aPortToReceiveOn : UInt16} {evs : List SinkEvent}
    {w : ReceiverWorld} (hrun : run step (start aAddressToReceiveOn aPortToReceiveOn) evs = some w) :
    (evs.filterMap SinkEvent.completion).map Completion.payload = w.frames ++ w.waiting.map Completion.payload ∧
      w.receiver.m_PacketsSeen.toNat = w.frames.length % 2 ^ 32 ∧
      w.receiver.m_TotalBytesSeen.toNat = (w.frames.map List.length).sum % 2 ^ 32 := by
  have h := called_of_run hrun
  refine ⟨h.frames, ?_, ?_⟩
  · rw [h.seen, UInt32.toNat_ofNat']
  · rw [h.bytes, UInt32.toNat_ofNat', List.length_flatten]

theorem longFrame_fits : [(1 : UInt8), 2, 3].length ≤ bufferSize := by decide

theorem shortFrame_fits : [(9 : UInt8)].length ≤ bufferSize := by decide

/-- A frame of three bytes is received and called back with, and then one of a single byte. -/
def longThenShort : List SinkEvent :=
  [.complete (.success ⟨[1, 2, 3], longFrame_fits⟩ ⟨"127.0.0.1", 7⟩), .handle,
    .complete (.success ⟨[9], shortFrame_fits⟩ ⟨"127.0.0.1", 7⟩), .handle]

theorem longThenShort_frames : ∃ w, run step (start "127.0.0.1" 10042) longThenShort = some w ∧
    w.frames = [[1, 2, 3], [9]] ∧ w.receiver.m_TotalBytesSeen.toNat = 4 := by
  refine ⟨_, rfl, rfl, ?_⟩
  exact (@frames_of_run "127.0.0.1" 10042 longThenShort _ rfl).2.2

end ReceiverWorld

/-! ## The echo server -/

structure CUdpTestEchoServer where
  m_AddressToReceiveOn : String
  m_PortToReceiveOn : UInt16
  m_AddressToSendTo : String
  m_PortToSendTo : UInt16
  m_ProcessorCallback : List UInt8 → List UInt8
  m_ReceiveBuffer : List UInt8
  m_RemoteEndpointReceivingFrom : Endpoint
  m_RemoteEndpointToReplyTo : Endpoint
  receive : Receive

namespace CUdpTestEchoServer

def mStartReceive (e : CUdpTestEchoServer) : CUdpTestEchoServer := { e with receive := .posted }

/-- The constructor, with what the resolver finds for an address and a port. -/
def new (resolve : String → UInt16 → Endpoint) (aAddressToReceiveOn aAddressToSendTo : String)
    (aPortToReceiveOn aPortToSendTo : UInt16) (aProcessorCallback : List UInt8 → List UInt8) : CUdpTestEchoServer :=
  mStartReceive {
    m_AddressToReceiveOn := aAddressToReceiveOn
    m_PortToReceiveOn := aPortToReceiveOn
    m_AddressToSendTo := aAddressToSendTo
    m_PortToSendTo := aPortToSendTo
    m_ProcessorCallback := aProcessorCallback
    m_ReceiveBuffer := List.replicate bufferSize 0
    m_RemoteEndpointReceivingFrom := ⟨"0.0.0.0", 0⟩
    m_RemoteEndpointToReplyTo := resolve aAddressToSendTo aPortToSendTo
    receive := .idle }

/-- The receive under way completes. -/
def complete (c : Completion) (e : CUdpTestEchoServer) : CUdpTestEchoServer :=
  match c with
  | .success datagram source =>
    { e with
      m_ReceiveBuffer := datagram.bytes ++ e.m_ReceiveBuffer.drop datagram.bytes.length
      m_RemoteEndpointReceivingFrom := source
      receive := .completed c }
  | .failure => { e with receive := .completed c }

/-- `lExtractedVec`, before the callback. -/
def lExtractedVec (bytes_recvd : Nat) (e : CUdpTestEchoServer) : List UInt8 := e.m_ReceiveBuffer.take bytes_recvd

end CUdpTestEchoServer

/-- What a handler of the echo server did. -/
structure Echoed where
  received : List UInt8
  sent : List UInt8
  sentTo : Endpoint

/-- An echo server and what its handlers have done so far. -/
structure EchoWorld where
  server : CUdpTestEchoServer
  log : List Echoed

namespace EchoWorld

def handle_receive_from (bytes_recvd : Nat) (w : EchoWorld) : EchoWorld :=
  let lExtractedVec := w.server.lExtractedVec bytes_recvd
  { server := w.server.mStartReceive
    log := w.log ++ [⟨lExtractedVec, w.server.m_ProcessorCallback lExtractedVec,
      w.server.m_RemoteEndpointToReplyTo⟩] }

def step (w : EchoWorld) : SinkEvent → Option EchoWorld
  | .complete c =>
    if w.server.receive = .posted then some { w with server := w.server.complete c } else none
  | .handle =>
    match w.server.receive with
    | .completed c => some (w.handle_receive_from c.payload.length)
    | .idle | .posted => none

end EchoWorld

end ProtocolLearner
