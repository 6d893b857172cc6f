import EternalTerminal.Crypto

/-!
# Packets (`packet.rs`)

One flag byte, one header byte, then the payload, which encryption replaces by its sealed form.
-/

namespace EternalTerminal

/-- `std::io::ErrorKind`, as far as the program tells its values apart. -/
inductive ErrorKind where
  | wouldBlock
  | timedOut
  | interrupted
  | writeZero
  | unexpectedEof
  | other
  deriving DecidableEq, Repr

/-- `anyhow::Error`: a message, or an error that `?` converted. -/
inductive Error where
  | msg (text : String)
  | crypto (cause : CryptoError)
  | io (kind : ErrorKind)
  deriving DecidableEq, Repr

structure Packet where
  encrypted : Bool
  header : UInt8
  payload : Bytes
  deriving DecidableEq, Repr

namespace Packet

def new (header : UInt8) (payload : Bytes) : Packet :=
  { encrypted := false, header, payload }

def fromSerialized : Bytes → Except Error Packet
  | flag :: header :: payload => .ok { encrypted := flag != 0, header, payload }
  | _ => .error (.msg "packet too short")

def length (packet : Packet) : Nat := 2 + packet.payload.length

def serialize (packet : Packet) : Bytes :=
  (if packet.encrypted then 1 else 0) :: packet.header :: packet.payload

def encrypt (packet : Packet) (crypto : CryptoHandler) : Except Error Packet × CryptoHandler :=
  if packet.encrypted then (.error (.msg "packet already encrypted"), crypto)
  else
    match crypto.encrypt packet.payload with
    | (.ok payload, crypto) => (.ok { packet with payload, encrypted := true }, crypto)
    | (.error e, crypto) => (.error (.crypto e), crypto)

def decrypt (packet : Packet) (crypto : CryptoHandler) : Except Error Packet × CryptoHandler :=
  if !packet.encrypted then (.error (.msg "packet is not encrypted"), crypto)
  else
    match crypto.decrypt packet.payload with
    | (.ok payload, crypto) => (.ok { packet with payload, encrypted := false }, crypto)
    | (.error e, crypto) => (.error (.crypto e), crypto)

@[simp] theorem length_serialize (packet : Packet) : packet.serialize.length = packet.length := by
  simp [serialize, length]
  omega

theorem fromSerialized_serialize (packet : Packet) :
    fromSerialized packet.serialize = .ok packet := by
  rcases packet with ⟨_ | _, header, payload⟩ <;> rfl

end Packet

end EternalTerminal
