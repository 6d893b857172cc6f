import EternalTerminal.Backed.Reader
import EternalTerminal.Proto.Message

/-!
# The reconnect handshake (`connection.rs`, `try_recover`)

The messages of `try_recover` and what is read off their answers, one function per step. The steps
themselves are taken by the reconnect thread, between which the session thread runs.
-/

namespace EternalTerminal

/-- `{:?}` of a status. -/
def debugStatus : Option ConnectStatus → String
  | none => "None"
  | some .newClient => "Some(NewClient)"
  | some .returningClient => "Some(ReturningClient)"
  | some .invalidKey => "Some(InvalidKey)"
  | some .mismatchedProtocol => "Some(MismatchedProtocol)"

/-- The `match` of `try_recover` on the answer: `false` ends the session, `true` goes on. -/
def returningStatus (resp : ConnectResponse) : Except Error Bool :=
  match resp.status with
  | some .invalidKey => .ok false
  | some .returningClient => .ok true
  | other =>
    let error := resp.error.getD ""
    .error (.msg s!"unexpected reconnect status: {debugStatus other} {error}")

/-- `local_seq`. -/
def localSequence (reader : Option BackedReader) : Int :=
  (reader.map BackedReader.sequenceNumber).getD 0

/-- `local_seq as i32` keeps the low 32 bits. -/
def sequenceHeader (localSeq : Int) : SequenceHeader :=
  { sequenceNumber := some (Int32.ofInt localSeq) }

/-- `remote_seq`. -/
def remoteSequence (remote : SequenceHeader) : Int := (remote.sequenceNumber.getD 0).toInt

/-- `catchup_out`. -/
def catchupOut (writer : Option BackedWriter) (remoteSeq : Int) : Except Error (List Bytes) :=
  match writer with
  | some writer => writer.recover remoteSeq
  | none => .ok []

end EternalTerminal
