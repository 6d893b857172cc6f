import EternalTerminal.Proof.BackupCost
import EternalTerminal.Proof.Varint
import EternalTerminal.Proto.Message

/-!
# The size of a catch-up

A catch-up of the whole backup costs one record for each packet. While there is a socket the backup is
cut down to `MAX_BACKUP_BYTES`, so its records fit in a message; what is written without a socket is
added to that under a limit of its own, and `CatchupFits` says when the sum still fits.
-/

namespace EternalTerminal

/-- The bytes of one entry of a `CatchupBuffer`: tag, length, entry. -/
def entrySize (length : Nat) : Nat := 1 + (writeVarint (UInt64.ofNat length)).length + length

/-- The bytes of a `CatchupBuffer` with all of these packets. -/
def encodedSize (packets : List Packet) : Nat := backupCost entrySize packets

theorem length_writeBytes_one (b : Bytes) : (writeBytes 1 b).length = entrySize b.length := by
  have htag : (writeTag 1 2).length = 1 := by decide
  simp only [writeBytes, List.length_append, htag, entrySize]

theorem length_encode_catchup (packets : List Packet) :
    (CatchupBuffer.encode ⟨packets.map Packet.serialize⟩).length = encodedSize packets := by
  induction packets with
  | nil => rfl
  | cons packet packets ih =>
      have hrest : (packets.map Packet.serialize).flatMap (writeBytes 1) =
          CatchupBuffer.encode ⟨packets.map Packet.serialize⟩ := rfl
      rw [CatchupBuffer.encode, List.map_cons, List.flatMap_cons, List.length_append, hrest, ih,
        length_writeBytes_one, Packet.length_serialize]
      simp only [encodedSize, backupCost, List.weightSum_cons]

theorem le_entrySize (length : Nat) : length ≤ entrySize length := Nat.le_add_left _ _

theorem entrySize_le {length : Nat} (h : 2 ≤ length) : entrySize length ≤ 2 * length := by
  have hpow : length < 128 ^ (length - 1) := by
    have hlt : length - 1 < 2 ^ (length - 1) := Nat.lt_two_pow_self
    have hmul : 2 ^ (length - 1) * 2 ≤ 128 ^ (length - 1) := by
      have hbase : 2 ^ (length - 1) * 64 ^ (length - 1) = 128 ^ (length - 1) := by
        rw [← Nat.mul_pow]
      have hone : 64 ^ 1 ≤ 64 ^ (length - 1) := Nat.pow_le_pow_right (by decide) (by omega)
      rw [← hbase]
      exact Nat.mul_le_mul_left _ (by omega)
    omega
  have hvarint : (writeVarint (UInt64.ofNat length)).length ≤ length - 1 := by
    rw [writeVarint_eq]
    refine Base128.length_encode_le (by omega) (lt_of_le_of_lt ?_ hpow)
    rw [UInt64.toNat_ofNat']
    exact Nat.mod_le _ _
  unfold entrySize
  omega

/-- Every catch-up that `recover` allows is one that `read_proto` accepts. -/
def CatchupReadable (writer : BackedWriter) : Prop :=
  ∀ n entries, writer.recover n = .ok entries →
    (CatchupBuffer.encode ⟨entries⟩).length ≤ maxProtoBytes

/-- A step after which a catch-up of the whole backup is still a message: only a packet that is
accepted without a socket can break that. -/
def CatchupFits : BackedWriter → WriterOp → Prop := CostFits entrySize maxProtoBytes

theorem encodedSize_reverse (packets : List Packet) :
    encodedSize packets.reverse = encodedSize packets := List.weightSum_reverse _ _

theorem encodedSize_take_le (packets : List Packet) (k : Nat) :
    encodedSize (packets.take k) ≤ encodedSize packets := by
  conv_rhs => rw [← List.take_append_drop k packets]
  simp only [encodedSize, backupCost, List.weightSum_append]
  exact Nat.le_add_right _ _

/-- A catch-up is part of the backup. -/
theorem length_encode_recover_le {writer : BackedWriter} {n : Int} {entries : List Bytes}
    (h : writer.recover n = .ok entries) :
    (CatchupBuffer.encode ⟨entries⟩).length ≤ encodedSize writer.backup := by
  obtain ⟨-, -, -, rfl⟩ := BackedWriter.recover_eq_ok.mp h
  rw [← List.map_reverse, length_encode_catchup, encodedSize_reverse]
  exact encodedSize_take_le _ _

/-- Without a socket some peer is sent all of it. -/
theorem not_catchupReadable {writer : BackedWriter} (hsocket : writer.socket = none)
    (hsize : maxProtoBytes < encodedSize writer.backup) : ¬ CatchupReadable writer := by
  intro hreadable
  have hrecover : writer.recover (writer.sequenceNumber - writer.backup.length) = .ok _ :=
    BackedWriter.recover_eq_ok.mpr ⟨hsocket, by omega, by omega, rfl⟩
  have hlength := hreadable _ _ hrecover
  have hall : (writer.sequenceNumber - (writer.sequenceNumber - writer.backup.length)).toNat =
      writer.backup.length := by omega
  rw [hall, List.take_length, ← List.map_reverse, length_encode_catchup, encodedSize_reverse]
    at hlength
  omega

/-! ### The backup of a run -/

theorem encodedSize_le (packets : List Packet) :
    encodedSize packets ≤ 2 * packets.weightSum Packet.length := by
  induction packets with
  | nil => exact Nat.zero_le _
  | cons packet packets ih =>
      have hhead := entrySize_le (Nat.le_add_right 2 packet.payload.length)
      simp only [encodedSize, backupCost, List.weightSum_cons, Packet.length] at ih ⊢
      omega

/-- A message is what the backup may cost if every packet costs its record. -/
theorem CostWithin.readable {cipher : Cipher} {start : Nonce} {writer : BackedWriter}
    {events : List WriterEvent} (h : CostWithin entrySize maxProtoBytes cipher start writer events) :
    CatchupReadable writer :=
  fun _ _ hrecover => (length_encode_recover_le hrecover).trans h.within

/-- **When every catch-up is readable.** In every state of a run each catch-up that `recover` allows
fits in a message, if and only if every packet accepted without a socket, sealed and with its record
header, still fits in 128 MiB beside the backup that was there. -/
theorem catchup_readable_iff_fits {crypto : CryptoHandler} (hlawful : crypto.cipher.Lawful)
    (socket : TcpStream) (ops : List WriterOp) :
    writerMachine.Always (fun writer _ => CatchupReadable writer) (BackedWriter.new crypto socket)
        ops ↔
      writerMachine.Along CatchupFits (BackedWriter.new crypto socket) ops := by
  refine always_iff_costFits hlawful ?_ CostWithin.readable ?_ socket ops
  · intro packets hweight
    have hdouble := encodedSize_le packets
    have hlimits : 2 * maxBackupBytes = maxProtoBytes := by decide
    exact hdouble.trans (by omega)
  · intro writer events _ hsocket hcost
    exact not_catchupReadable hsocket hcost

/-- One packet on a live socket and one without. -/
theorem catchup_readable_iff_fits_one_write :
    writerMachine.Always (fun writer _ => CatchupReadable writer)
      (BackedWriter.new ⟨tagCipher, .start clientServerNonceMsb⟩ ⟨0⟩)
      [.write (.new 1 [7]) [.ok 100], .invalidateSocket, .write (.new 2 [8]) []] := by
  apply (catchup_readable_iff_fits tagCipher_lawful ⟨0⟩ _).mpr
  rw [writerMachine.along_cons rfl, writerMachine.along_cons rfl, writerMachine.along_cons rfl]
  exact ⟨fun hnone => absurd hnone (Option.some_ne_none _), trivial, fun _ _ _ => by decide,
    writerMachine.along_nil _ _⟩

/-! ### Two limits of 64 MiB do not fit in 128 MiB -/

/-- One packet fills the backup, the connection breaks, another one uses up the disconnected
allowance: the two records are too long for a message. -/
theorem not_readable_after_outage {full allowed : Packet} {crypto : CryptoHandler}
    {socket : TcpStream} (hlawful : crypto.cipher.Lawful) (hfull : full.encrypted = false)
    (hallowed : allowed.encrypted = false) (hbackup : full.length + macBytes = maxBackupBytes)
    (hallowance : allowed.length = disconnectBufferBytes) (results : List IoResult) :
    ¬ writerMachine.Always (fun writer _ => CatchupReadable writer) (BackedWriter.new crypto socket)
      [.write full results, .invalidateSocket, .write allowed []] := by
  let live := BackedWriter.new crypto socket
  let broken := (live.write full results).writer.invalidateSocket
  have hlive : live.socket = some socket := rfl
  have hspec := live.write_spec full results
  obtain ⟨old, hold⟩ := writes_pushed hspec hlawful.encrypt_isSome hfull
    (writes_not_skipped hspec (BackedWriter.refuses_of_socket full hlive))
  have holdLength := hold.seals.length_stored hlawful
  have hbrokenCrypto : broken.crypto = live.crypto.incrementNonce := hold.crypto
  have hbrokenBytes : broken.disconnectedBytes = 0 := hold.allowance (by simp [hlive])
  have hbrokenBackup : broken.backup = [old] := by
    have hkept : (live.push live.crypto.incrementNonce old).backup.reverse = _ :=
      (BackedWriter.reverse_backup_push _ old rfl).1
    have hfits : [old].trim Packet.length maxBackupBytes = [old] := by
      unfold List.trim
      rw [if_neg]
      simp only [List.weightSum_cons, List.weightSum_nil]
      omega
    rw [← hold.backup] at hkept
    have hempty : live.backup.reverse ++ [old] = [old] := rfl
    simp only [hlive, Option.isSome_some, if_true, hempty, hfits] at hkept
    rw [← List.reverse_reverse broken.backup]
    exact congrArg List.reverse hkept
  have haccepts : broken.refuses allowed = false := by
    simp only [BackedWriter.refuses, hbrokenBytes, hallowance, Nat.zero_add, gt_iff_lt, lt_irrefl,
      decide_false, Bool.and_false]
  have hspec' := broken.write_spec allowed []
  have hlawful' : broken.crypto.cipher.Lawful := by
    rw [hbrokenCrypto]
    exact hlawful
  obtain ⟨new, hnew⟩ := writes_pushed hspec' hlawful'.encrypt_isSome hallowed
    (writes_not_skipped hspec' haccepts)
  have hnewLength := hnew.seals.length_stored hlawful'
  have hsize : maxProtoBytes < encodedSize (broken.write allowed []).writer.backup := by
    have holdSize := le_entrySize old.length
    have hnewSize := le_entrySize new.length
    have hlimits : maxBackupBytes + disconnectBufferBytes = maxProtoBytes := by decide
    have hmac : 0 < macBytes := by decide
    rw [hnew.backup, encodedSize, backupCost_push_of_none rfl, hbrokenBackup]
    simp only [backupCost, List.weightSum_cons, List.weightSum_nil]
    omega
  intro halways
  have hrun : writerMachine.run live [.write full results, .invalidateSocket, .write allowed []] =
      some ((broken.write allowed []).writer, _) := rfl
  exact not_catchupReadable (hnew.socket rfl) hsize (halways _ List.prefix_rfl _ _ hrun)

/-- A packet of a given length, before it is sealed. -/
def filler (length : Nat) : Packet := .new 1 (List.replicate (length - 2) 0)

theorem length_filler {length : Nat} (h : 2 ≤ length) : (filler length).length = length := by
  simp only [filler, Packet.new, Packet.length, List.length_replicate]
  omega

/-- After those two a peer that has nothing yet cannot be sent the catch-up. -/
theorem catchup_unreadable_after_outage :
    ¬ writerMachine.Always (fun writer _ => CatchupReadable writer)
      (BackedWriter.new ⟨tagCipher, .start clientServerNonceMsb⟩ ⟨0⟩)
      [.write (filler (maxBackupBytes - macBytes)) [.ok (4 + maxBackupBytes)], .invalidateSocket,
        .write (filler disconnectBufferBytes) []] := by
  have hbackup : (filler (maxBackupBytes - macBytes)).length + macBytes = maxBackupBytes := by
    rw [length_filler (by decide)]
    exact Nat.sub_add_cancel (by decide)
  have hallowance : (filler disconnectBufferBytes).length = disconnectBufferBytes :=
    length_filler (by decide)
  exact not_readable_after_outage tagCipher_lawful rfl rfl hbackup hallowance _

end EternalTerminal
