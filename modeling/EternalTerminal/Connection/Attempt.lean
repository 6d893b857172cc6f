import EternalTerminal.Connection.Blocking
import EternalTerminal.Connection.Reconnect
import EternalTerminal.Library.Transducer

/-!
# One attempt on its socket (`connection.rs`, `try_recover`)

The answers that a reconnect thread gets to its messages, taken off the bytes of its connection.
-/

namespace EternalTerminal

def protocolVersion : Int32 := 6

/-- The request of `connect` and of `try_recover`. -/
def connectRequest (id : String) : ConnectRequest :=
  { clientId := some id, version := some protocolVersion }

/-- `write_proto(..)?`. -/
def wroteAnswer : Except ErrorKind Unit → Answer
  | .ok () => .done
  | .error e => .fail (.io e)

/-- `Display` of `ProtoError`, but for the system's text of an I/O error. -/
def ProtoError.text : ProtoError → String
  | .io _ => "io error"
  | .invalidVarint => "invalid varint"
  | .truncated => "truncated protobuf"
  | .invalidWireType => "invalid wire type"

/-- `read_proto(..)?`; there is no answer if the decoder ends the thread. -/
def readAnswer {α : Type} (answer : α → Answer) : Except ReadProtoFault α → Option Answer
  | .ok msg => some (answer msg)
  | .error (.err e) => some (.fail e)
  | .error (.proto e) => some (.fail (.msg e.text))
  | .error .crash => none

namespace BlockingStream

/-- A message is written, and the thread gets its answer. -/
def writeAnswer {α : Type} [ProtoMessage α] (stream : BlockingStream) (msg : α) :
    Option Answer × BlockingStream :=
  let (outcome, stream) := stream.writeProto msg
  (some (wroteAnswer outcome), stream)

/-- A message is read, and is the thread's answer. -/
def readAnswer {α : Type} [ProtoMessage α] (memory : Memory) (answer : α → Answer)
    (stream : BlockingStream) : Option Answer × BlockingStream :=
  let (outcome, stream) := stream.readProto α memory
  (EternalTerminal.readAnswer answer outcome, stream)

end BlockingStream

/-- What a step of the thread finds: the state it shares with the session thread, and whether
`set_nonblocking` fails. -/
structure Found where
  shared : Shared
  fault : Option Error := none

/-- The I/O of a step of `try_recover`. -/
def socketAnswer (memory : Memory) (id : String) (found : Found) (stream : BlockingStream) :
    ReconnectPc → Option Answer × BlockingStream
  | .requesting _ => stream.writeAnswer (connectRequest id)
  | .awaitingResponse _ => stream.readAnswer memory .response
  | .sendingSequence _ localSeq => stream.writeAnswer (sequenceHeader localSeq)
  | .awaitingSequence _ => stream.readAnswer memory .sequence
  | .sendingCatchup _ _ catchupOut => stream.writeAnswer ({ buffer := catchupOut } : CatchupBuffer)
  | .awaitingCatchup _ _ _ => stream.readAnswer memory .catchup
  | .preparing _ _ _ _ => (some ((found.fault.map Answer.fail).getD .done), stream)
  | _ => (some .done, stream)

/-- A thread with the socket of the attempt under way. -/
structure Handshake where
  pc : ReconnectPc
  stream : BlockingStream

/-- The attempt goes on as long as the thread has its socket. A panic in the decoder ends the thread and
leaves the shared state as it is. -/
def handshakeMachine (memory : Memory) (id : String) : Transducer Handshake Found ReconnectOutput :=
  fun attempt found =>
    if attempt.pc.socket? = none then none
    else
      match socketAnswer memory id found attempt.stream attempt.pc with
      | (none, stream) => some (⟨.finished, stream⟩, [⟨found.shared, .finished, []⟩])
      | (some answer, stream) =>
        (reconnectStep found.shared attempt.pc answer).map fun out => (⟨out.pc, stream⟩, [out])

/-- `try_recover` after its `tcp_connect`. -/
def Handshake.start (socket : TcpStream) (incoming : Bytes) (results : List IoResult) : Handshake :=
  ⟨.requesting socket, ⟨incoming, [], results⟩⟩

end EternalTerminal
