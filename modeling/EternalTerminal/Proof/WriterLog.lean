import EternalTerminal.Library.RetainedLog
import EternalTerminal.Library.Transducer
import EternalTerminal.Proof.Seal
import EternalTerminal.Backed.Writer

/-!
# The writer is an append-only log with a retained end

The calls on a `BackedWriter` make a machine whose events record each packet that entered the log and
each byte string that left the writer. `Logs` ties a writer to the packets accepted so far: numbers,
nonces, backup and byte count all follow from that list. It is proved once per operation and then of
every run; the other results about the writer start from it.
-/

namespace EternalTerminal

/-- One call on a writer, with the answers of the socket if it makes any system call. -/
inductive WriterOp where
  | write (packet : Packet) (results : List IoResult)
  | invalidateSocket
  | recover (lastValidSequence : Int)
  | revive (socket : TcpStream)

inductive WriterEvent where
  | accepted (entry : Accepted)
  /-- The serialized packet of this number went into a frame or into a replay. -/
  | emitted (number : Int) (serialized : Bytes)

/-- What a `write` shows: the accepted packet, and the frame if there was a socket to put it on. -/
def writeEvents (before : BackedWriter) (packet : Packet) (out : WriteOutput) : List WriterEvent :=
  match out.pushed with
  | none => []
  | some stored =>
    .accepted ⟨out.writer.crypto.nonce, packet, stored⟩ ::
      (if before.socket.isSome then [.emitted out.writer.sequenceNumber stored.serialize] else [])

def recoverEvents (lastValidSequence : Int) : Except Error (List Bytes) → List WriterEvent
  | .ok entries => entries.mapIdx fun i entry => .emitted (lastValidSequence + 1 + i) entry
  | .error _ => []

def writerMachine : Transducer BackedWriter WriterOp WriterEvent := fun writer op =>
  match op with
  | .write packet results =>
    let out := writer.write packet results
    some (out.writer, writeEvents writer packet out)
  | .invalidateSocket => some (writer.invalidateSocket, [])
  | .recover n => some (writer, recoverEvents n (writer.recover n))
  | .revive socket => some (writer.revive socket, [])

/-- The ways a step can go. -/
inductive WriterSteps (writer : BackedWriter) :
    WriterOp → BackedWriter → List WriterEvent → Prop
  | write {packet results out} : writer.Writes packet results out →
      WriterSteps writer (.write packet results) out.writer (writeEvents writer packet out)
  | invalidateSocket : WriterSteps writer .invalidateSocket writer.invalidateSocket []
  | recover (n : Int) :
      WriterSteps writer (.recover n) writer (recoverEvents n (writer.recover n))
  | revive (socket : TcpStream) : WriterSteps writer (.revive socket) (writer.revive socket) []

theorem writerStep_spec {writer writer' : BackedWriter} {op : WriterOp} {out : List WriterEvent}
    (h : writerMachine writer op = some (writer', out)) : WriterSteps writer op writer' out := by
  cases op with
  | write packet results =>
      simp only [writerMachine, Option.some.injEq, Prod.mk.injEq] at h
      obtain ⟨rfl, rfl⟩ := h
      exact .write (writer.write_spec packet results)
  | invalidateSocket =>
      simp only [writerMachine, Option.some.injEq, Prod.mk.injEq] at h
      obtain ⟨rfl, rfl⟩ := h
      exact .invalidateSocket
  | recover n =>
      simp only [writerMachine, Option.some.injEq, Prod.mk.injEq] at h
      obtain ⟨rfl, rfl⟩ := h
      exact .recover n
  | revive socket =>
      simp only [writerMachine, Option.some.injEq, Prod.mk.injEq] at h
      obtain ⟨rfl, rfl⟩ := h
      exact .revive socket

/-- The packets accepted so far, in order. -/
def acceptedLog (events : List WriterEvent) : List Accepted :=
  events.filterMap fun
    | .accepted entry => some entry
    | .emitted _ _ => none

theorem acceptedLog_append (before after : List WriterEvent) :
    acceptedLog (before ++ after) = acceptedLog before ++ acceptedLog after :=
  List.filterMap_append

@[simp] theorem acceptedLog_recoverEvents (n : Int) (result : Except Error (List Bytes)) :
    acceptedLog (recoverEvents n result) = [] := by
  cases result with
  | error e => rfl
  | ok entries =>
      simp only [acceptedLog, recoverEvents, List.filterMap_eq_nil_iff, List.mem_mapIdx]
      rintro _ ⟨i, hi, rfl⟩
      rfl

@[simp] theorem acceptedLog_writeEvents (before : BackedWriter) (packet : Packet)
    (out : WriteOutput) :
    acceptedLog (writeEvents before packet out) =
      out.pushed.toList.map fun stored => ⟨out.writer.crypto.nonce, packet, stored⟩ := by
  unfold writeEvents
  cases out.pushed with
  | none => rfl
  | some stored =>
      dsimp only
      split_ifs <;> rfl

/-- All that a write puts on the socket is the front of the frame that its events show. -/
theorem sent_writeEvents {writer : BackedWriter} {packet : Packet} {results : List IoResult}
    {out : WriteOutput} (h : writer.Writes packet results out) (hsent : out.sent ≠ []) :
    ∃ serialized, .emitted out.writer.sequenceNumber serialized ∈ writeEvents writer packet out
      ∧ out.sent <+: frame serialized := by
  cases h with
  | refused hrefuses => exact absurd rfl hsent
  | notEncrypted hrefuses hencrypt => exact absurd rfl hsent
  | buffered hrefuses hencrypt hsocket => exact absurd rfl hsent
  | @sent stored crypto socket hencrypt hsocket hall =>
      exact ⟨stored.serialize, by simp [writeEvents, hsocket], List.prefix_rfl⟩
  | @broken stored crypto socket e sent hencrypt hsocket hfail =>
      have hpre := (writeAllRetry_sent (frame stored.serialize) results).1
      rw [hfail] at hpre
      exact ⟨stored.serialize, by simp [writeEvents, hsocket], hpre⟩

/-! ### Eviction -/

/-- With the right byte count the eviction loop keeps the longest end of the deque that fits, and the
count stays right: the saturating subtraction is exact. -/
theorem evictOldest_eq (oldestFirst : List Packet) :
    evictOldest oldestFirst (oldestFirst.weightSum Packet.length) =
      (oldestFirst.trim Packet.length maxBackupBytes,
        (oldestFirst.trim Packet.length maxBackupBytes).weightSum Packet.length) := by
  induction oldestFirst with
  | nil => rfl
  | cons old newer ih =>
      simp only [evictOldest, List.trim]
      split_ifs
      · rw [List.weightSum_cons, Nat.add_sub_cancel_left, ih]
      · rfl

namespace BackedWriter

variable {writer : BackedWriter}

/-- The backup after a push, oldest first: everything without a socket, the end that fits with one. -/
theorem reverse_backup_push (crypto : CryptoHandler) (stored : Packet)
    (hsize : writer.backupSize = writer.backup.weightSum Packet.length) :
    (writer.push crypto stored).backup.reverse =
        (if writer.socket.isSome
          then (writer.backup.reverse ++ [stored]).trim Packet.length maxBackupBytes
          else writer.backup.reverse ++ [stored])
      ∧ (writer.push crypto stored).backupSize =
        (writer.push crypto stored).backup.weightSum Packet.length := by
  have htotal : writer.backupSize + stored.length =
      (writer.backup.reverse ++ [stored]).weightSum Packet.length := by
    rw [hsize]
    simp
  cases hsocket : writer.socket with
  | none => simp [push, hsocket, hsize, Nat.add_comm]
  | some socket =>
      simp only [push, hsocket, evict, Option.isSome_some, if_true, List.reverse_cons, htotal,
        evictOldest_eq, List.reverse_reverse, List.weightSum_reverse, and_self]

theorem reverse_backup_push_suffix (crypto : CryptoHandler) (stored : Packet)
    (hsize : writer.backupSize = writer.backup.weightSum Packet.length) :
    (writer.push crypto stored).backup.reverse <:+ writer.backup.reverse ++ [stored] := by
  rw [(reverse_backup_push crypto stored hsize).1]
  split_ifs
  · exact List.trim_suffix _ _ _
  · exact List.suffix_rfl

end BackedWriter

/-! ### The log a writer stands for -/

/-- `writer` has accepted exactly the packets `stored`, in the form in which it keeps them. -/
structure Retains (writer : BackedWriter) (stored : List Packet) : Prop where
  sequence_eq : writer.sequenceNumber = stored.length
  backup_suffix : writer.backup.reverse <:+ stored
  backupSize_eq : writer.backupSize = writer.backup.weightSum Packet.length

namespace Retains

variable {writer : BackedWriter} {stored : List Packet}

theorem new (crypto : CryptoHandler) (socket : TcpStream) :
    Retains (BackedWriter.new crypto socket) [] := ⟨rfl, List.suffix_rfl, rfl⟩

/-- The abstract state of the writer. -/
def retained (h : Retains writer stored) : RetainedLog Packet :=
  ⟨stored, writer.backup.reverse, h.backup_suffix⟩

theorem push (h : Retains writer stored) (crypto : CryptoHandler) (packet : Packet) :
    Retains (writer.push crypto packet) (stored ++ [packet]) := by
  refine ⟨?_, ?_, ?_⟩
  · rw [BackedWriter.push_sequenceNumber, h.sequence_eq]
    simp
  · -- the log grows by the packet, and the eviction gives up the oldest entries that are kept
    have hkept := BackedWriter.reverse_backup_push_suffix crypto packet h.backupSize_eq
    exact ((h.retained.append packet).retain _ hkept).kept_suffix
  · exact (BackedWriter.reverse_backup_push _ _ h.backupSize_eq).2

theorem of_frame {other : BackedWriter} (h : Retains writer stored)
    (hbackup : other.backup = writer.backup) (hsize : other.backupSize = writer.backupSize)
    (hsequence : other.sequenceNumber = writer.sequenceNumber) : Retains other stored := by
  obtain ⟨hseq, hsuffix, hsum⟩ := h
  exact ⟨hsequence ▸ hseq, hbackup ▸ hsuffix, by rw [hsize, hbackup]; exact hsum⟩

theorem invalidateSocket (h : Retains writer stored) : Retains writer.invalidateSocket stored :=
  h.of_frame rfl rfl rfl

theorem revive (h : Retains writer stored) (socket : TcpStream) :
    Retains (writer.revive socket) stored := h.of_frame rfl rfl rfl

theorem write (h : Retains writer stored) {packet : Packet} {results : List IoResult}
    {out : WriteOutput} (hwrite : writer.Writes packet results out) :
    Retains out.writer (stored ++ out.pushed.toList) := by
  cases hwrite with
  | refused hrefuses => simpa using h
  | notEncrypted hrefuses hencrypt =>
      rw [Option.toList_none, List.append_nil]
      exact h.of_frame rfl rfl rfl
  | @buffered pushed crypto hrefuses hencrypt hsocket =>
      exact (h.push crypto pushed).of_frame rfl rfl rfl
  | sent hencrypt hsocket hall => exact h.push _ _
  | @broken pushed crypto _ _ _ hencrypt hsocket hfail =>
      exact (h.push crypto pushed).of_frame rfl rfl rfl

/-- `recover` is the replay of the abstract log. -/
theorem recover_eq_ok (h : Retains writer stored) {n : Int} {entries : List Bytes} :
    writer.recover n = .ok entries ↔
      writer.socket = none ∧ ∃ k : Nat, n = k ∧ ∃ packets, h.retained.replay k = some packets
        ∧ entries = packets.map Packet.serialize := by
  have hbackup : writer.backup.length = h.retained.kept.length := (List.length_reverse ..).symm
  have hlog : writer.sequenceNumber = h.retained.log.length := h.sequence_eq
  have hkept := h.retained.length_kept_le
  rw [BackedWriter.recover_eq_ok, hlog, hbackup]
  refine and_congr_right fun _ => ?_
  have hentries : ∀ k : Nat, k ≤ h.retained.log.length →
      h.retained.log.length ≤ k + h.retained.kept.length →
      ((writer.backup.take (h.retained.log.length - k)).map Packet.serialize).reverse =
        (h.retained.log.drop k).map Packet.serialize := by
    intro k hk hlow
    have hskip : h.retained.log.length - (h.retained.log.length - k) = k := by omega
    have hdrop := h.retained.drop_log_eq
      (show h.retained.log.length - k ≤ h.retained.kept.length by omega)
    rw [hskip] at hdrop
    rw [hdrop, ← List.map_reverse, ← hbackup]
    congr 1
    rw [show h.retained.kept = writer.backup.reverse from rfl, List.reverse_take]
  constructor
  · intro hgiven
    obtain ⟨hle, hlow, rfl⟩ := hgiven
    obtain ⟨k, rfl⟩ := Int.eq_ofNat_of_zero_le (show 0 ≤ n by omega)
    have hk : k ≤ h.retained.log.length := by omega
    have hlow' : h.retained.log.length ≤ k + h.retained.kept.length := by omega
    refine ⟨k, rfl, _, RetainedLog.replay_eq_some.mpr ⟨hk, hlow', rfl⟩, ?_⟩
    rw [← hentries k hk hlow']
    congr 3
    omega
  · intro hgiven
    obtain ⟨k, rfl, packets, hreplay, rfl⟩ := hgiven
    obtain ⟨hk, hlow, rfl⟩ := RetainedLog.replay_eq_some.mp hreplay
    refine ⟨by omega, by omega, ?_⟩
    rw [← hentries k hk hlow]
    congr 3
    omega

end Retains

/-- `writer` has accepted exactly `log`, starting from the nonce `start`. -/
structure Logs (cipher : Cipher) (start : Nonce) (writer : BackedWriter) (log : List Accepted) :
    Prop where
  retains : Retains writer (log.map Accepted.stored)
  cipher_eq : writer.crypto.cipher = cipher
  nonce_eq : writer.crypto.nonce = start.advance log.length
  sealed : ∀ i entry, log[i]? = some entry →
    entry.nonce = start.advance (i + 1) ∧ Seals cipher entry.nonce entry.plain entry.stored

namespace Logs

variable {cipher : Cipher} {start : Nonce} {writer : BackedWriter} {log : List Accepted}

theorem new (crypto : CryptoHandler) (socket : TcpStream) :
    Logs crypto.cipher crypto.nonce (BackedWriter.new crypto socket) [] :=
  ⟨.new crypto socket, rfl, rfl, by simp⟩

theorem sequence_eq (h : Logs cipher start writer log) : writer.sequenceNumber = log.length := by
  rw [h.retains.sequence_eq, List.length_map]

theorem push {stored packet : Packet} {crypto : CryptoHandler} (h : Logs cipher start writer log)
    (hencrypt : packet.encrypt writer.crypto = (.ok stored, crypto)) :
    Logs cipher start (writer.push crypto stored) (log ++ [⟨crypto.nonce, packet, stored⟩]) := by
  obtain ⟨hseals, rfl⟩ := Packet.encrypt_eq_ok.mp hencrypt
  have hnonce : writer.crypto.incrementNonce.nonce = start.advance (log.length + 1) := by
    rw [Nonce.advance_succ, ← h.nonce_eq]
    rfl
  refine ⟨?_, h.cipher_eq, ?_, ?_⟩
  · rw [List.map_append]
    exact h.retains.push _ _
  · rw [BackedWriter.push_crypto, hnonce, List.length_append, List.length_singleton]
  · intro i entry hentry
    rcases Nat.lt_trichotomy i log.length with hlt | rfl | hgt
    · rw [List.getElem?_append_left hlt] at hentry
      exact h.sealed i entry hentry
    · simp only [List.getElem?_concat_length, Option.some.injEq] at hentry
      subst hentry
      refine ⟨hnonce, ?_⟩
      rw [← h.cipher_eq]
      exact hseals
    · have hnone : (log ++ [(⟨writer.crypto.incrementNonce.nonce, packet, stored⟩ : Accepted)])[i]?
          = none := by
        simp only [List.getElem?_eq_none_iff, List.length_append, List.length_singleton]
        omega
      simp [hnone] at hentry

theorem of_frame {other : BackedWriter} (h : Logs cipher start writer log)
    (hcrypto : other.crypto = writer.crypto) (hbackup : other.backup = writer.backup)
    (hsize : other.backupSize = writer.backupSize)
    (hsequence : other.sequenceNumber = writer.sequenceNumber) :
    Logs cipher start other log := by
  obtain ⟨hretains, hcipher, hnonce, hsealed⟩ := h
  exact ⟨hretains.of_frame hbackup hsize hsequence, hcrypto ▸ hcipher, hcrypto ▸ hnonce, hsealed⟩

theorem invalidateSocket (h : Logs cipher start writer log) :
    Logs cipher start writer.invalidateSocket log := h.of_frame rfl rfl rfl rfl

theorem revive (h : Logs cipher start writer log) (socket : TcpStream) :
    Logs cipher start (writer.revive socket) log := h.of_frame rfl rfl rfl rfl

theorem write (h : Logs cipher start writer log)
    (htotal : ∀ nonce plaintext, (cipher.encrypt nonce plaintext).isSome) {packet : Packet}
    {results : List IoResult} {out : WriteOutput} (hwrite : writer.Writes packet results out) :
    Logs cipher start out.writer
      (log ++ out.pushed.toList.map fun stored => ⟨out.writer.crypto.nonce, packet, stored⟩) := by
  cases hwrite with
  | refused hrefuses => simpa using h
  | notEncrypted hrefuses hencrypt =>
      -- only a packet that carries the flag gets here, and then the nonce has not moved
      cases hflag : packet.encrypted with
      | true =>
          rw [Packet.encrypt_of_encrypted hflag] at hencrypt
          obtain ⟨-, rfl⟩ := Prod.mk.inj hencrypt
          simpa using h
      | false =>
          rw [← h.cipher_eq] at htotal
          obtain ⟨stored, hstored⟩ := Packet.encrypt_of_plain hflag htotal
          rw [hencrypt] at hstored
          exact absurd (Prod.mk.inj hstored).1 (by simp)
  | buffered hrefuses hencrypt hsocket => exact (h.push hencrypt).of_frame rfl rfl rfl rfl
  | sent hencrypt hsocket hall => exact h.push hencrypt
  | broken hencrypt hsocket hfail => exact (h.push hencrypt).of_frame rfl rfl rfl rfl

end Logs

/-! ### Runs -/

/-- Every run of a writer keeps `Logs` with the packets its events accepted. -/
theorem logs_of_run {cipher : Cipher} {start : Nonce}
    (htotal : ∀ nonce plaintext, (cipher.encrypt nonce plaintext).isSome)
    {first last : BackedWriter} (before : List WriterEvent) {ops : List WriterOp}
    {events : List WriterEvent} (h : Logs cipher start first (acceptedLog before))
    (hrun : writerMachine.run first ops = some (last, events)) :
    Logs cipher start last (acceptedLog (before ++ events)) := by
  refine writerMachine.run_invariant (I := fun writer events => Logs cipher start writer
    (acceptedLog events)) ?_ before h hrun
  intro writer before op writer' out hlogs hstep
  cases writerStep_spec hstep with
  | write hwrites =>
      rw [acceptedLog_append, acceptedLog_writeEvents]
      exact hlogs.write htotal hwrites
  | invalidateSocket => simpa using hlogs.invalidateSocket
  | recover n => simpa [acceptedLog_append] using hlogs
  | revive socket => simpa using hlogs.revive socket

theorem logs_of_run_new {crypto : CryptoHandler} {socket : TcpStream}
    (htotal : ∀ nonce plaintext, (crypto.cipher.encrypt nonce plaintext).isSome)
    {ops : List WriterOp} {writer : BackedWriter} {events : List WriterEvent}
    (hrun : writerMachine.run (BackedWriter.new crypto socket) ops = some (writer, events)) :
    Logs crypto.cipher crypto.nonce writer (acceptedLog events) := by
  have h := logs_of_run htotal [] (.new crypto socket) hrun
  rwa [List.nil_append] at h

theorem writes_skipped {writer : BackedWriter} {packet : Packet} {results : List IoResult}
    {out : WriteOutput} (h : writer.Writes packet results out) (hstate : out.state = .skipped) :
    out = ⟨.skipped, writer, [], none⟩ := by
  cases h with
  | refused hrefuses => rfl
  | notEncrypted hrefuses hencrypt => exact absurd hstate (by simp)
  | buffered hrefuses hencrypt hsocket => exact absurd hstate (by simp)
  | sent hencrypt hsocket hall => exact absurd hstate (by simp)
  | broken hencrypt hsocket hfail => exact absurd hstate (by simp)

theorem writes_not_skipped {writer : BackedWriter} {packet : Packet} {results : List IoResult}
    {out : WriteOutput} (h : writer.Writes packet results out)
    (haccepts : writer.refuses packet = false) : out.state ≠ .skipped := by
  cases h with
  | refused hrefuses =>
      rw [haccepts] at hrefuses
      exact absurd hrefuses (by simp)
  | notEncrypted hrefuses hencrypt => simp
  | buffered hrefuses hencrypt hsocket => simp
  | sent hencrypt hsocket hall => simp
  | broken hencrypt hsocket hfail => simp

/-- What a write does to a writer when it accepts a packet. -/
structure Pushes (writer : BackedWriter) (packet : Packet) (out : WriteOutput) (stored : Packet) :
    Prop where
  pushed : out.pushed = some stored
  seals : Seals writer.crypto.cipher writer.crypto.nonce.increment packet stored
  crypto : out.writer.crypto = writer.crypto.incrementNonce
  sequence : out.writer.sequenceNumber = writer.sequenceNumber + 1
  backup : out.writer.backup = (writer.push writer.crypto.incrementNonce stored).backup
  socket : writer.socket = none → out.writer.socket = none
  allowance : writer.socket ≠ none → out.writer.disconnectedBytes = writer.disconnectedBytes

theorem writes_pushed {writer : BackedWriter} {packet : Packet} {results : List IoResult}
    {out : WriteOutput} (h : writer.Writes packet results out)
    (htotal : ∀ nonce plaintext, (writer.crypto.cipher.encrypt nonce plaintext).isSome)
    (hflag : packet.encrypted = false) (hstate : out.state ≠ .skipped) :
    ∃ stored, Pushes writer packet out stored := by
  cases h with
  | refused hrefuses => exact absurd rfl hstate
  | notEncrypted hrefuses hencrypt =>
      obtain ⟨stored, hstored⟩ := Packet.encrypt_of_plain hflag htotal
      rw [hencrypt] at hstored
      exact absurd (Prod.mk.inj hstored).1 (by simp)
  | buffered hrefuses hencrypt hsocket =>
      obtain ⟨hseals, rfl⟩ := Packet.encrypt_eq_ok.mp hencrypt
      exact ⟨_, rfl, hseals, rfl, rfl, rfl, id, fun hlive => absurd hsocket hlive⟩
  | sent hencrypt hsocket hall =>
      obtain ⟨hseals, rfl⟩ := Packet.encrypt_eq_ok.mp hencrypt
      exact ⟨_, rfl, hseals, rfl, rfl, rfl, id, fun _ => rfl⟩
  | broken hencrypt hsocket hfail =>
      obtain ⟨hseals, rfl⟩ := Packet.encrypt_eq_ok.mp hencrypt
      exact ⟨_, rfl, hseals, rfl, rfl, rfl, fun _ => rfl, fun _ => rfl⟩

/-- **The writer refines an append-only log.** After any run from a new writer, the next write either
is skipped and changes nothing or appends one packet; backup, byte count and sequence number are read
off the log; and `recover` gives exactly the numbers above `n` when the backup still has them all. -/
theorem writer_refines_log {crypto : CryptoHandler} {socket : TcpStream}
    (htotal : ∀ nonce plaintext, (crypto.cipher.encrypt nonce plaintext).isSome)
    {ops : List WriterOp} {writer : BackedWriter} {events : List WriterEvent}
    (hrun : writerMachine.run (BackedWriter.new crypto socket) ops = some (writer, events)) :
    (∀ packet results, (writer.write packet results).state = .skipped →
        (writer.write packet results).writer = writer
          ∧ writeEvents writer packet (writer.write packet results) = [])
      ∧ (∀ packet results, packet.encrypted = false →
          (writer.write packet results).state ≠ .skipped → ∃ entry,
            acceptedLog (events ++ writeEvents writer packet (writer.write packet results)) =
                acceptedLog events ++ [entry]
              ∧ Seals crypto.cipher entry.nonce packet entry.stored
              ∧ (writer.write packet results).writer.sequenceNumber = writer.sequenceNumber + 1)
      ∧ writer.backup.reverse <:+ (acceptedLog events).map Accepted.stored
      ∧ writer.sequenceNumber = (acceptedLog events).length
      ∧ writer.backupSize = writer.backup.weightSum Packet.length
      ∧ (writer.socket = none → ∀ n : Int,
          (0 ≤ n ∧ n ≤ writer.sequenceNumber ∧ writer.sequenceNumber - n ≤ writer.backup.length →
            writer.recover n =
              .ok (((acceptedLog events).drop n.toNat).map fun entry => entry.stored.serialize))
          ∧ (¬ (0 ≤ n ∧ n ≤ writer.sequenceNumber
              ∧ writer.sequenceNumber - n ≤ writer.backup.length) →
            ∃ e, writer.recover n = .error e)) := by
  have hlogs := logs_of_run_new htotal hrun
  have hkept : writer.backup.length ≤ (acceptedLog events).length := by
    have hle := hlogs.retains.backup_suffix.length_le
    simpa using hle
  have hseq := hlogs.sequence_eq
  refine ⟨?_, ?_, hlogs.retains.backup_suffix, hseq, hlogs.retains.backupSize_eq, ?_⟩
  · intro packet results hstate
    rw [writes_skipped (writer.write_spec packet results) hstate]
    exact ⟨rfl, rfl⟩
  · intro packet results hflag hstate
    obtain ⟨stored, hpushes⟩ := writes_pushed (writer.write_spec packet results)
      (by rw [hlogs.cipher_eq]; exact htotal) hflag hstate
    refine ⟨⟨writer.crypto.nonce.increment, packet, stored⟩, ?_, hlogs.cipher_eq ▸ hpushes.seals,
      hpushes.sequence⟩
    rw [acceptedLog_append, acceptedLog_writeEvents, hpushes.pushed, hpushes.crypto]
    rfl
  · intro hsocket n
    constructor
    · intro hgiven
      obtain ⟨hzero, hle, hbackup⟩ := hgiven
      obtain ⟨k, rfl⟩ := Int.eq_ofNat_of_zero_le hzero
      refine hlogs.retains.recover_eq_ok.mpr ⟨hsocket, k, rfl, _,
        RetainedLog.replay_eq_some.mpr ⟨?_, ?_, rfl⟩, ?_⟩
      · simp only [Retains.retained, List.length_map]
        omega
      · simp only [Retains.retained, List.length_map, List.length_reverse]
        omega
      · simp [Retains.retained, List.map_drop, Function.comp_def]
    · intro hnot
      rcases hrecover : writer.recover n with e | entries
      · exact ⟨e, rfl⟩
      · obtain ⟨-, hle, hbackup, -⟩ := BackedWriter.recover_eq_ok.mp hrecover
        exact absurd ⟨by omega, hle, by omega⟩ hnot

/-- One packet written and the socket dropped: a peer without it is sent it. -/
theorem writer_refines_log_one_write :
    let crypto : CryptoHandler := ⟨tagCipher, .start clientServerNonceMsb⟩
    let writer := ((BackedWriter.new crypto ⟨0⟩).write (.new 1 [7]) [.ok 64]).writer.invalidateSocket
    writer.sequenceNumber = 1 ∧ writer.recover 0 =
      .ok [[1, 1] ++ (Nonce.start clientServerNonceMsb).increment.bytes.take macBytes ++ [7]] := by
  intro crypto writer
  have hrun : writerMachine.run (BackedWriter.new crypto ⟨0⟩)
      [.write (.new 1 [7]) [.ok 64], .invalidateSocket] = some (writer, _) := rfl
  have h := writer_refines_log tagCipher_lawful.encrypt_isSome hrun
  exact ⟨rfl, (h.2.2.2.2.2 rfl 0).1 ⟨by decide, by decide, by decide⟩⟩

end EternalTerminal
