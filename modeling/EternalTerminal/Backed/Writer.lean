import EternalTerminal.Backed.Socket

/-!
# The backed writer (`backed.rs`)

A `BackedWriter` numbers and encrypts packets, keeps the newest ones for a reconnecting peer and
writes each one as a frame to the socket, if it has one. `sequence_number` and the byte counts are
unbounded here: they count packets and bytes held in memory and stay far below `2^63`.
-/

namespace EternalTerminal

def maxBackupBytes : Nat := 64 * 1024 * 1024
def disconnectBufferBytes : Nat := 64 * 1024 * 1024

inductive WriteState where
  | success
  | bufferedOnly
  | wroteWithFailure
  | skipped
  deriving DecidableEq, Repr

structure BackedWriter where
  crypto : CryptoHandler
  socket : Option TcpStream
  /-- The deque from its front: newest packet first. -/
  backup : List Packet
  backupSize : Nat
  disconnectedBytes : Nat
  sequenceNumber : Int

/-- `u32::to_be_bytes` of a length cast to `u32`. -/
def toBeBytes (n : Nat) : Bytes := (leBytes 4 n).reverse

/-- `u32::from_be_bytes`. -/
def fromBeBytes (bytes : Bytes) : Nat := leValue bytes.reverse

/-- The wire format of `write`: big-endian length, then the serialized packet. -/
def frame (serialized : Bytes) : Bytes := toBeBytes serialized.length ++ serialized

/-- The eviction loop of `write` on a live socket, over the deque from its back. -/
def evictOldest : List Packet → Nat → List Packet × Nat
  | [], size => ([], size)
  | old :: newer, size =>
    if size > maxBackupBytes then evictOldest newer (size - old.length) else (old :: newer, size)

def evict (backup : List Packet) (size : Nat) : List Packet × Nat :=
  let (kept, size) := evictOldest backup.reverse size
  (kept.reverse, size)

/-- What a `write` returns and leaves behind; `sent` are the bytes the socket took and `pushed` is
the encrypted packet that entered the backup. -/
structure WriteOutput where
  state : WriteState
  writer : BackedWriter
  sent : Bytes
  pushed : Option Packet

/-- A packet that `write` accepted: under which nonce, as it was given, and as it is kept and sent. -/
structure Accepted where
  nonce : Nonce
  plain : Packet
  stored : Packet

namespace BackedWriter

def new (crypto : CryptoHandler) (socket : TcpStream) : BackedWriter :=
  { crypto, socket := some socket, backup := [], backupSize := 0, disconnectedBytes := 0,
    sequenceNumber := 0 }

def invalidateSocket (writer : BackedWriter) : BackedWriter := { writer with socket := none }

/-- The admission check of `write`: only a writer without a socket turns a packet away. -/
def refuses (writer : BackedWriter) (packet : Packet) : Bool :=
  writer.socket.isNone && writer.disconnectedBytes + packet.length > disconnectBufferBytes

/-- The middle of `write`: the encrypted packet enters the backup and takes the next number. -/
def push (writer : BackedWriter) (crypto : CryptoHandler) (packet : Packet) : BackedWriter :=
  let backup := packet :: writer.backup
  let size := writer.backupSize + packet.length
  let (backup, size) := if writer.socket.isSome then evict backup size else (backup, size)
  { writer with crypto, backup, backupSize := size, sequenceNumber := writer.sequenceNumber + 1 }

def write (writer : BackedWriter) (packet : Packet) (results : List IoResult) : WriteOutput :=
  if writer.refuses packet then ⟨.skipped, writer, [], none⟩
  else
    match packet.encrypt writer.crypto with
    | (.error _, crypto) => ⟨.wroteWithFailure, { writer with crypto }, [], none⟩
    | (.ok packet, crypto) =>
      let writer := writer.push crypto packet
      match writer.socket with
      | none =>
        let disconnectedBytes := writer.disconnectedBytes + packet.length
        ⟨.bufferedOnly, { writer with disconnectedBytes }, [], some packet⟩
      | some _ =>
        match writeAllRetry (frame packet.serialize) results with
        | (.ok (), sent) => ⟨.success, writer, sent, some packet⟩
        | (.error _, sent) =>
          ⟨.wroteWithFailure, { writer with socket := none }, sent, some packet⟩

def recover (writer : BackedWriter) (lastValidSequence : Int) : Except Error (List Bytes) :=
  if writer.socket.isSome then .error (.msg "cannot recover while socket is alive")
  else
    let messagesToRecover := writer.sequenceNumber - lastValidSequence
    if messagesToRecover < 0 then .error (.msg "peer is ahead of local writer")
    else if messagesToRecover = 0 then .ok []
    else if messagesToRecover.toNat > writer.backup.length then
      .error (.msg "peer is too far behind (backup exhausted)")
    else .ok ((writer.backup.take messagesToRecover.toNat).map Packet.serialize).reverse

def revive (writer : BackedWriter) (socket : TcpStream) : BackedWriter :=
  { writer with socket := some socket, disconnectedBytes := 0 }

/-! ### What each operation does

The rest of the development knows `write` only through the five cases of `Writes`. -/

/-- The ways a `write` can go. -/
inductive Writes (writer : BackedWriter) (packet : Packet) (results : List IoResult) :
    WriteOutput → Prop
  | refused : writer.refuses packet = true →
      Writes writer packet results ⟨.skipped, writer, [], none⟩
  | notEncrypted {e crypto} : writer.refuses packet = false →
      packet.encrypt writer.crypto = (.error e, crypto) →
      Writes writer packet results ⟨.wroteWithFailure, { writer with crypto }, [], none⟩
  | buffered {stored crypto} : writer.refuses packet = false →
      packet.encrypt writer.crypto = (.ok stored, crypto) → writer.socket = none →
      Writes writer packet results
        ⟨.bufferedOnly,
          { writer.push crypto stored with
            disconnectedBytes := writer.disconnectedBytes + stored.length },
          [], some stored⟩
  | sent {stored crypto socket} : packet.encrypt writer.crypto = (.ok stored, crypto) →
      writer.socket = some socket →
      writeAllRetry (frame stored.serialize) results = (.ok (), frame stored.serialize) →
      Writes writer packet results
        ⟨.success, writer.push crypto stored, frame stored.serialize, some stored⟩
  | broken {stored crypto socket e sent} : packet.encrypt writer.crypto = (.ok stored, crypto) →
      writer.socket = some socket →
      writeAllRetry (frame stored.serialize) results = (.error e, sent) →
      Writes writer packet results
        ⟨.wroteWithFailure, { writer.push crypto stored with socket := none }, sent, some stored⟩

theorem refuses_of_socket {writer : BackedWriter} {socket : TcpStream} (packet : Packet)
    (h : writer.socket = some socket) : writer.refuses packet = false := by
  simp [refuses, h]

@[simp] theorem push_socket (writer : BackedWriter) (crypto : CryptoHandler) (packet : Packet) :
    (writer.push crypto packet).socket = writer.socket := rfl

@[simp] theorem push_disconnectedBytes (writer : BackedWriter) (crypto : CryptoHandler)
    (packet : Packet) :
    (writer.push crypto packet).disconnectedBytes = writer.disconnectedBytes := rfl

@[simp] theorem push_crypto (writer : BackedWriter) (crypto : CryptoHandler) (packet : Packet) :
    (writer.push crypto packet).crypto = crypto := rfl

@[simp] theorem push_sequenceNumber (writer : BackedWriter) (crypto : CryptoHandler)
    (packet : Packet) :
    (writer.push crypto packet).sequenceNumber = writer.sequenceNumber + 1 := rfl

theorem write_spec (writer : BackedWriter) (packet : Packet) (results : List IoResult) :
    Writes writer packet results (writer.write packet results) := by
  unfold write
  by_cases hrefuses : writer.refuses packet = true
  · rw [if_pos hrefuses]
    exact .refused hrefuses
  · rw [if_neg hrefuses]
    simp only [Bool.not_eq_true] at hrefuses
    rcases hencrypt : packet.encrypt writer.crypto with ⟨_ | stored, crypto⟩
    · exact .notEncrypted hrefuses hencrypt
    · cases hsocket : writer.socket with
      | none =>
          have hbuffered : Writes writer packet results _ := .buffered hrefuses hencrypt hsocket
          simpa only [push_socket, push_disconnectedBytes, hsocket] using hbuffered
      | some socket =>
          have hsent := writeAllRetry_sent (frame stored.serialize) results
          have hpush : (writer.push crypto stored).socket = some socket := hsocket
          rcases hwrite : writeAllRetry (frame stored.serialize) results with ⟨e | _, sent⟩
          · simp only [hpush, hwrite]
            exact .broken hencrypt hsocket hwrite
          · rw [hwrite] at hsent
            obtain rfl := hsent.2.mp rfl
            simp only [hpush, hwrite]
            exact .sent hencrypt hsocket hwrite

theorem Writes.socket_eq {writer : BackedWriter} {packet : Packet} {results : List IoResult}
    {out : WriteOutput} (h : writer.Writes packet results out)
    (hstate : out.state ≠ .wroteWithFailure) : out.writer.socket = writer.socket := by
  cases h with
  | refused hrefuses => rfl
  | notEncrypted hrefuses hencrypt => exact absurd rfl hstate
  | buffered hrefuses hencrypt hsocket => rfl
  | sent hencrypt hsocket hall => rfl
  | broken hencrypt hsocket hfail => exact absurd rfl hstate

theorem Writes.socket_of_some {writer : BackedWriter} {packet : Packet} {results : List IoResult}
    {out : WriteOutput} {socket : TcpStream} (h : writer.Writes packet results out)
    (hsocket : out.writer.socket = some socket) : writer.socket = some socket := by
  cases h with
  | refused hrefuses => exact hsocket
  | notEncrypted hrefuses hencrypt => exact hsocket
  | buffered hrefuses hencrypt hnone => exact hsocket
  | sent hencrypt hlive hall => exact hsocket
  | broken hencrypt hlive hfail => exact absurd hsocket nofun

theorem recover_eq_ok {writer : BackedWriter} {n : Int} {entries : List Bytes} :
    writer.recover n = .ok entries ↔
      writer.socket = none ∧ n ≤ writer.sequenceNumber
        ∧ writer.sequenceNumber ≤ n + writer.backup.length
        ∧ entries = ((writer.backup.take (writer.sequenceNumber - n).toNat).map
            Packet.serialize).reverse := by
  unfold recover
  cases hsocket : writer.socket with
  | some socket => simp
  | none =>
      simp only [Option.isSome_none, Bool.false_eq_true, if_false, true_and]
      split_ifs with hahead hequal hbehind
      · simp only [false_iff, not_and]
        omega
      · have hzero : (writer.sequenceNumber - n).toNat = 0 := by omega
        simp only [hzero, List.take_zero, List.map_nil, List.reverse_nil, Except.ok.injEq]
        constructor
        · rintro rfl
          exact ⟨by omega, by omega, rfl⟩
        · exact fun h => h.2.2.symm
      · simp only [false_iff, not_and]
        omega
      · simp only [Except.ok.injEq]
        constructor
        · rintro rfl
          exact ⟨by omega, by omega, rfl⟩
        · exact fun h => h.2.2.symm

end BackedWriter

end EternalTerminal
