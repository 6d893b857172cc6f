import EternalTerminal.Packet

/-!
# The protobuf wire format (`proto.rs`, codec helpers)

Varints, tagged records and the record loop. Decoding has three outcomes: a value, an error, or the
end of the thread, because a declared length is allocated before it is compared with the input.
-/

namespace EternalTerminal

inductive ProtoError where
  | io (kind : ErrorKind)
  | invalidVarint
  | truncated
  | invalidWireType
  deriving DecidableEq, Repr

/-- Why a decoder did not return a value. `crash` is the panic or the abort of an allocation. -/
inductive Fault where
  | err (e : ProtoError)
  | crash
  deriving DecidableEq, Repr

abbrev Decoded := Except Fault

/-- The largest length `read_proto` accepts. -/
def maxProtoBytes : Nat := 128 * 1024 * 1024

def isizeMax : Nat := 2 ^ 63 - 1

/-- Which sizes `vec![0u8; len]` gets. -/
abbrev Memory := Nat → Bool

/-- A memory as there is one: it never gives more than `isize::MAX` (`capacity overflow`) and always
what a message may have. -/
structure Allocator where
  grants : Memory
  grants_message : ∀ len, len ≤ maxProtoBytes → grants len = true
  capacity : ∀ len, isizeMax < len → grants len = false

/-- `vec![0u8; len]`. -/
def zeroed (memory : Memory) (len : Nat) : Decoded Unit :=
  if memory len then .ok () else .error .crash

/-! ### Varints -/

/-- The loop of `write_varint`. A `u64` has at most nine groups before its last. -/
def writeVarintLoop : Nat → UInt64 → Bytes
  | 0, v => [v.toUInt8]
  | groups + 1, v =>
    if v ≥ 0x80 then (v.toUInt8 ||| 0x80) :: writeVarintLoop groups (v >>> 7) else [v.toUInt8]

def writeVarint (v : UInt64) : Bytes := writeVarintLoop 9 v

/-- The loop of `read_varint` from one of its shifts on. -/
def readVarintFrom (shift : Nat) (result : UInt64) : Bytes → Except ProtoError (UInt64 × Bytes)
  | [] => .error (if shift < 64 then .truncated else .invalidVarint)
  | b :: rest =>
    if shift < 64 then
      let result := result ||| ((b &&& 0x7f).toUInt64 <<< shift.toUInt64)
      if b &&& 0x80 = 0 then .ok (result, rest) else readVarintFrom (shift + 7) result rest
    else .error .invalidVarint

def readVarint (buf : Bytes) : Except ProtoError (UInt64 × Bytes) := readVarintFrom 0 0 buf

/-! ### Writing fields -/

def writeTag (field wireType : UInt32) : Bytes :=
  writeVarint ((field.toUInt64 <<< 3) ||| wireType.toUInt64)

/-- `write_bytes`, `write_string` and `write_embedded`: a tag, a length and that many bytes. -/
def writeBytes (field : UInt32) (b : Bytes) : Bytes :=
  writeTag field 2 ++ writeVarint (UInt64.ofNat b.length) ++ b

def writeString (field : UInt32) (s : String) : Bytes := writeBytes field s.toUTF8.data.toList

def writeEmbedded (field : UInt32) (payload : Bytes) : Bytes := writeBytes field payload

/-- `v as u64` extends the sign. -/
def writeInt32 (field : UInt32) (v : Int32) : Bytes :=
  writeTag field 0 ++ writeVarint v.toInt64.toUInt64

def writeBool (field : UInt32) (v : Bool) : Bytes :=
  writeTag field 0 ++ writeVarint (if v then 1 else 0)

def writeMapEntryStringString (field : UInt32) (k v : String) : Bytes :=
  writeEmbedded field (writeString 1 k ++ writeString 2 v)

/-! ### Reading records -/

structure Field where
  number : UInt32
  wireType : UInt32
  data : Bytes
  deriving DecidableEq, Repr

/-- `Cursor::read_exact` of `n` bytes. -/
def readExact (n : Nat) (buf : Bytes) : Decoded (Bytes × Bytes) :=
  if n ≤ buf.length then .ok (buf.take n, buf.drop n)
  else .error (.err (.io .unexpectedEof))

def readVarintField (buf : Bytes) : Decoded (UInt64 × Bytes) := (readVarint buf).mapError .err

/-- The value of a record by its wire type. -/
def readValue (memory : Memory) (wireType : UInt32) (buf : Bytes) : Decoded (Bytes × Bytes) :=
  match wireType with
  | 0 => do
    let (v, buf) ← readVarintField buf
    pure (writeVarint v, buf)
  | 1 => readExact 8 buf
  | 2 => do
    let (len, buf) ← readVarintField buf
    zeroed memory len.toNat
    readExact len.toNat buf
  | 5 => readExact 4 buf
  | _ => throw (.err .invalidWireType)

/-- One turn of the loop of `parse_message`. -/
def readRecord (memory : Memory) (buf : Bytes) : Decoded (Field × Bytes) := do
  let (tag, buf) ← readVarintField buf
  let number := (tag >>> 3).toUInt32
  let wireType := (tag &&& 0x7).toUInt32
  let (data, buf) ← readValue memory wireType buf
  pure ({ number, wireType, data }, buf)

/-- The loop of `parse_message`. Every turn reads at least one byte, so as many turns as there are
bytes are enough. -/
def parseRecords (memory : Memory) : Nat → Bytes → Decoded (List Field)
  | _, [] => pure []
  | 0, _ :: _ => throw (.err .truncated)
  | turns + 1, b :: buf => do
    let (field, rest) ← readRecord memory (b :: buf)
    let fields ← parseRecords memory turns rest
    pure (field :: fields)

def parseMessage (memory : Memory) (buf : Bytes) : Decoded (List Field) :=
  parseRecords memory buf.length buf

def fieldAsString (f : Field) : Option String :=
  if f.wireType = 2 then String.fromUTF8? ⟨f.data.toArray⟩ else none

def fieldAsBytes (f : Field) : Option Bytes := if f.wireType = 2 then some f.data else none

def fieldAsVarint (f : Field) : Option UInt64 :=
  if f.wireType = 0 then (readVarint f.data).toOption.map Prod.fst else none

/-- `v as i32` of a decoded varint. -/
def asI32 (v : UInt64) : Int32 := v.toUInt32.toInt32

end EternalTerminal
