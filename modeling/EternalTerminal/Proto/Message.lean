import EternalTerminal.Proto.Wire
import Mathlib.Data.List.AList

/-!
# The ten messages (`proto.rs`, encode and decode)

Each message is encoded field by field and decoded by a fold over the parsed records; a later record
of the same field replaces an earlier one. `write_proto` and `read_proto` put a length in front.
-/

namespace EternalTerminal

inductive ConnectStatus where
  | newClient
  | returningClient
  | invalidKey
  | mismatchedProtocol
  deriving DecidableEq, Repr

namespace ConnectStatus

def toI32 : ConnectStatus → Int32
  | newClient => 1
  | returningClient => 2
  | invalidKey => 3
  | mismatchedProtocol => 4

def fromI32 (v : Int32) : Option ConnectStatus :=
  if v = 1 then some newClient
  else if v = 2 then some returningClient
  else if v = 3 then some invalidKey
  else if v = 4 then some mismatchedProtocol
  else none

end ConnectStatus

/-- The trait of the ten message types. -/
class ProtoMessage (α : Type) where
  encode : α → Bytes
  decode : Memory → Bytes → Decoded α

/-- An optional field is written if it is there. -/
def writeOption {α : Type} (write : α → Bytes) : Option α → Bytes
  | some a => write a
  | none => []

/-- A decoder whose field handlers cannot fail. -/
def decodeFields {α : Type} (memory : Memory) (msg : α) (set : α → Field → α) (buf : Bytes) :
    Decoded α := do
  let fields ← parseMessage memory buf
  pure (fields.foldl set msg)

/-- A decoder whose field handlers decode embedded messages. -/
def decodeFieldsM {α : Type} (memory : Memory) (msg : α) (set : α → Field → Decoded α)
    (buf : Bytes) : Decoded α := do
  let fields ← parseMessage memory buf
  fields.foldlM set msg

structure ConnectRequest where
  clientId : Option String := none
  version : Option Int32 := none
  deriving DecidableEq

namespace ConnectRequest

def encode (msg : ConnectRequest) : Bytes :=
  writeOption (writeString 1) msg.clientId ++ writeOption (writeInt32 2) msg.version

def set (msg : ConnectRequest) (f : Field) : ConnectRequest :=
  match f.number with
  | 1 => { msg with clientId := fieldAsString f }
  | 2 => { msg with version := (fieldAsVarint f).map asI32 }
  | _ => msg

instance : ProtoMessage ConnectRequest where
  encode := encode
  decode memory := decodeFields memory {} set

end ConnectRequest

structure ConnectResponse where
  status : Option ConnectStatus := none
  error : Option String := none
  deriving DecidableEq

namespace ConnectResponse

def encode (msg : ConnectResponse) : Bytes :=
  writeOption (fun s => writeInt32 1 (ConnectStatus.toI32 s)) msg.status
    ++ writeOption (writeString 2) msg.error

def set (msg : ConnectResponse) (f : Field) : ConnectResponse :=
  match f.number with
  | 1 =>
    match fieldAsVarint f with
    | some v => { msg with status := ConnectStatus.fromI32 (asI32 v) }
    | none => msg
  | 2 => { msg with error := fieldAsString f }
  | _ => msg

instance : ProtoMessage ConnectResponse where
  encode := encode
  decode memory := decodeFields memory {} set

end ConnectResponse

structure SequenceHeader where
  sequenceNumber : Option Int32 := none
  deriving DecidableEq

namespace SequenceHeader

def encode (msg : SequenceHeader) : Bytes := writeOption (writeInt32 1) msg.sequenceNumber

def set (msg : SequenceHeader) (f : Field) : SequenceHeader :=
  if f.number = 1 then { msg with sequenceNumber := (fieldAsVarint f).map asI32 } else msg

instance : ProtoMessage SequenceHeader where
  encode := encode
  decode memory := decodeFields memory {} set

end SequenceHeader

structure CatchupBuffer where
  buffer : List Bytes := []
  deriving DecidableEq

namespace CatchupBuffer

def encode (msg : CatchupBuffer) : Bytes := msg.buffer.flatMap (writeBytes 1)

def set (msg : CatchupBuffer) (f : Field) : CatchupBuffer :=
  if f.number = 1 then
    match fieldAsBytes f with
    | some b => { msg with buffer := msg.buffer ++ [b] }
    | none => msg
  else msg

instance : ProtoMessage CatchupBuffer where
  encode := encode
  decode memory := decodeFields memory {} set

end CatchupBuffer

structure TerminalBuffer where
  buffer : Option Bytes := none
  deriving DecidableEq

namespace TerminalBuffer

def encode (msg : TerminalBuffer) : Bytes := writeOption (writeBytes 1) msg.buffer

def set (msg : TerminalBuffer) (f : Field) : TerminalBuffer :=
  if f.number = 1 then { msg with buffer := fieldAsBytes f } else msg

instance : ProtoMessage TerminalBuffer where
  encode := encode
  decode memory := decodeFields memory {} set

end TerminalBuffer

structure TerminalInfo where
  id : Option String := none
  row : Option Int32 := none
  column : Option Int32 := none
  width : Option Int32 := none
  height : Option Int32 := none
  deriving DecidableEq

namespace TerminalInfo

def encode (msg : TerminalInfo) : Bytes :=
  writeOption (writeString 1) msg.id ++ writeOption (writeInt32 2) msg.row
    ++ writeOption (writeInt32 3) msg.column ++ writeOption (writeInt32 4) msg.width
    ++ writeOption (writeInt32 5) msg.height

def set (msg : TerminalInfo) (f : Field) : TerminalInfo :=
  match f.number with
  | 1 => { msg with id := fieldAsString f }
  | 2 => { msg with row := (fieldAsVarint f).map asI32 }
  | 3 => { msg with column := (fieldAsVarint f).map asI32 }
  | 4 => { msg with width := (fieldAsVarint f).map asI32 }
  | 5 => { msg with height := (fieldAsVarint f).map asI32 }
  | _ => msg

instance : ProtoMessage TerminalInfo where
  encode := encode
  decode memory := decodeFields memory {} set

end TerminalInfo

structure SocketEndpoint where
  name : Option String := none
  port : Option Int32 := none
  deriving DecidableEq

namespace SocketEndpoint

def encode (msg : SocketEndpoint) : Bytes :=
  writeOption (writeString 1) msg.name ++ writeOption (writeInt32 2) msg.port

def set (msg : SocketEndpoint) (f : Field) : SocketEndpoint :=
  match f.number with
  | 1 => { msg with name := fieldAsString f }
  | 2 => { msg with port := (fieldAsVarint f).map asI32 }
  | _ => msg

def decode (memory : Memory) (buf : Bytes) : Decoded SocketEndpoint := decodeFields memory {} set buf

instance : ProtoMessage SocketEndpoint := ⟨encode, decode⟩

end SocketEndpoint

structure PortForwardSourceRequest where
  source : Option SocketEndpoint := none
  destination : Option SocketEndpoint := none
  environmentVariable : Option String := none
  deriving DecidableEq

namespace PortForwardSourceRequest

def encode (msg : PortForwardSourceRequest) : Bytes :=
  writeOption (fun s => writeEmbedded 1 (SocketEndpoint.encode s)) msg.source
    ++ writeOption (fun d => writeEmbedded 2 (SocketEndpoint.encode d)) msg.destination
    ++ writeOption (writeString 3) msg.environmentVariable

def set (memory : Memory) (msg : PortForwardSourceRequest) (f : Field) :
    Decoded PortForwardSourceRequest :=
  match f.number with
  | 1 =>
    match fieldAsBytes f with
    | some b => do
      let source ← SocketEndpoint.decode memory b
      pure { msg with source := some source }
    | none => pure msg
  | 2 =>
    match fieldAsBytes f with
    | some b => do
      let destination ← SocketEndpoint.decode memory b
      pure { msg with destination := some destination }
    | none => pure msg
  | 3 => pure { msg with environmentVariable := fieldAsString f }
  | _ => pure msg

def decode (memory : Memory) (buf : Bytes) : Decoded PortForwardSourceRequest :=
  decodeFieldsM memory {} (set memory) buf

instance : ProtoMessage PortForwardSourceRequest := ⟨encode, decode⟩

end PortForwardSourceRequest

/-- `HashMap<String, String>`: the order of the list is one of the orders it may be iterated in. -/
abbrev EnvironmentVariables := AList fun _ : String => String

structure InitialPayload where
  jumphost : Option Bool := none
  reverseTunnels : List PortForwardSourceRequest := []
  environmentVariables : EnvironmentVariables := ∅

namespace InitialPayload

def encode (msg : InitialPayload) : Bytes :=
  (if msg.jumphost = some true then writeBool 1 true else [])
    ++ msg.reverseTunnels.flatMap
        (fun rt => writeEmbedded 2 (PortForwardSourceRequest.encode rt))
    ++ msg.environmentVariables.entries.flatMap
        (fun entry => writeMapEntryStringString 3 entry.1 entry.2)

/-- The key and the value of a map entry. -/
def setEntry (entry : Option String × Option String) (f : Field) : Option String × Option String :=
  match f.number with
  | 1 => (fieldAsString f, entry.2)
  | 2 => (entry.1, fieldAsString f)
  | _ => entry

/-- Only an entry with both is stored. -/
def insertEntry (msg : InitialPayload) : Option String × Option String → InitialPayload
  | (some k, some v) =>
    { msg with environmentVariables := msg.environmentVariables.insert k v }
  | _ => msg

def set (memory : Memory) (msg : InitialPayload) (f : Field) : Decoded InitialPayload :=
  match f.number with
  | 1 => pure { msg with jumphost := (fieldAsVarint f).map (· != 0) }
  | 2 =>
    match fieldAsBytes f with
    | some b => do
      let tunnel ← PortForwardSourceRequest.decode memory b
      pure { msg with reverseTunnels := msg.reverseTunnels ++ [tunnel] }
    | none => pure msg
  | 3 =>
    match fieldAsBytes f with
    | some b => do
      let entry ← decodeFields memory (none, none) setEntry b
      pure (msg.insertEntry entry)
    | none => pure msg
  | _ => pure msg

def decode (memory : Memory) (buf : Bytes) : Decoded InitialPayload :=
  decodeFieldsM memory {} (set memory) buf

instance : ProtoMessage InitialPayload := ⟨encode, decode⟩

end InitialPayload

structure InitialResponse where
  error : Option String := none
  deriving DecidableEq

namespace InitialResponse

def encode (msg : InitialResponse) : Bytes := writeOption (writeString 1) msg.error

def set (msg : InitialResponse) (f : Field) : InitialResponse :=
  if f.number = 1 then { msg with error := fieldAsString f } else msg

instance : ProtoMessage InitialResponse where
  encode := encode
  decode memory := decodeFields memory {} set

end InitialResponse

/-! ### Messages on a stream -/

/-- The bytes `write_proto` writes: the length as a little-endian `i64`, then the message. -/
def writeProto {α : Type} [ProtoMessage α] (msg : α) : Bytes :=
  let payload := ProtoMessage.encode msg
  leBytes 8 payload.length ++ payload

/-- Why `read_proto` did not return a message. -/
inductive ReadProtoFault where
  | err (e : Error)
  | proto (e : ProtoError)
  | crash
  deriving DecidableEq, Repr

/-- `i64::from_ne_bytes` on a little-endian machine. -/
def i64FromLeBytes (bytes : Bytes) : Int :=
  if leValue bytes < 2 ^ 63 then leValue bytes else leValue bytes - 2 ^ 64

/-- `read_proto` on a stream that holds `stream` and then ends, with what is left unread. -/
def readProto (α : Type) [ProtoMessage α] (memory : Memory) (stream : Bytes) :
    Except ReadProtoFault (α × Bytes) :=
  if stream.length < 8 then .error (.err (.io .unexpectedEof))
  else
    let len := i64FromLeBytes (stream.take 8)
    let stream := stream.drop 8
    if ¬ (0 ≤ len ∧ len ≤ maxProtoBytes) then .error (.err (.msg s!"invalid proto length: {len}"))
    else if !memory len.toNat then .error .crash
    else if stream.length < len.toNat then .error (.err (.io .unexpectedEof))
    else
      match ProtoMessage.decode memory (stream.take len.toNat) with
      | .ok msg => .ok (msg, stream.drop len.toNat)
      | .error (.err e) => .error (.proto e)
      | .error .crash => .error .crash

end EternalTerminal
