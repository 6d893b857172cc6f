import EternalTerminal.Proof.BackupCost
import EternalTerminal.Proof.CatchupSize

/-!
# The size of the backup over several outages

Without a socket a writer takes packets up to an allowance, and `revive` gives it a new one. What was
written before is cut down to `MAX_BACKUP_BYTES` by the next write on a live socket only, so a connection
that comes back and breaks again before anything is written adds one allowance to the other.
-/

namespace EternalTerminal

/-- What is kept while there is a socket, one allowance, and the MAC of the packet that ends it. -/
def backlogLimit : Nat := maxBackupBytes + disconnectBufferBytes + macBytes

/-- A packet accepted without a socket fits beside the backup that is there. -/
def BacklogFits : BackedWriter → WriterOp → Prop := RoomFor BackedWriter.backupSize id backlogLimit

/-- No connection breaks before the backup of the outage before it is cut down. -/
def BreaksTrimmed (writer : BackedWriter) : WriterOp → Prop
  | .invalidateSocket => writer.socket ≠ none → writer.backupSize ≤ maxBackupBytes
  | .write _ _ => True
  | .recover _ => True
  | .revive _ => True

/-- The backlog of a writer whose outages all began with a backup that was cut down. -/
structure OneAllowance (cipher : Cipher) (start : Nonce) (writer : BackedWriter)
    (events : List WriterEvent) : Prop where
  logs : Logs cipher start writer (acceptedLog events)
  live : writer.socket ≠ none → writer.disconnectedBytes = 0 ∧ writer.backupSize ≤ backlogLimit
  broken : writer.socket = none → writer.disconnectedBytes ≤ disconnectBufferBytes + macBytes
    ∧ writer.backupSize ≤ maxBackupBytes + writer.disconnectedBytes

namespace OneAllowance

variable {cipher : Cipher} {start : Nonce} {writer writer' : BackedWriter}
  {events out : List WriterEvent} {op : WriterOp}

theorem backupSize_le (h : OneAllowance cipher start writer events) :
    writer.backupSize ≤ backlogLimit := by
  by_cases hsocket : writer.socket = none
  · obtain ⟨hallowance, hsize⟩ := h.broken hsocket
    unfold backlogLimit
    omega
  · exact (h.live hsocket).2

theorem write (h : OneAllowance cipher start writer events) (hlawful : cipher.Lawful)
    {packet : Packet} {results : List IoResult} {written : WriteOutput}
    (hlogs : Logs cipher start written.writer (acceptedLog (events ++ out)))
    (hwrites : writer.Writes packet results written) :
    OneAllowance cipher start written.writer (events ++ out) := by
  cases hwrites with
  | refused hrefuses => exact ⟨hlogs, h.live, h.broken⟩
  | notEncrypted hrefuses hencrypt => exact ⟨hlogs, h.live, h.broken⟩
  | @buffered stored crypto hrefuses hencrypt hsocket =>
      obtain ⟨hseals, -⟩ := Packet.encrypt_eq_ok.mp hencrypt
      rw [h.logs.cipher_eq] at hseals
      have hlength := hseals.length_stored hlawful
      obtain ⟨-, hsize⟩ := h.broken hsocket
      have hfits : writer.disconnectedBytes + packet.length ≤ disconnectBufferBytes := by
        simpa [BackedWriter.refuses, hsocket] using hrefuses
      have hpush : (writer.push crypto stored).backupSize = writer.backupSize + stored.length := by
        simp [BackedWriter.push, hsocket]
      refine ⟨hlogs, fun hlive => absurd hsocket hlive, fun _ => ⟨?_, ?_⟩⟩
      · change writer.disconnectedBytes + stored.length ≤ _
        omega
      · change (writer.push crypto stored).backupSize ≤ _ + (_ + stored.length)
        omega
  | @sent stored crypto socket hencrypt hsocket hall =>
      have hlive := h.live (by simp [hsocket])
      have hweight := weightSum_push_of_some hsocket crypto stored h.logs.retains.backupSize_eq
      rw [← hlogs.retains.backupSize_eq] at hweight
      refine ⟨hlogs, fun _ => ⟨hlive.1, hweight.trans ?_⟩, fun hnone => ?_⟩
      · unfold backlogLimit
        omega
      · rw [BackedWriter.push_socket, hsocket] at hnone
        exact absurd hnone (Option.some_ne_none _)
  | @broken stored crypto socket e sent hencrypt hsocket hfail =>
      have hlive := h.live (by simp [hsocket])
      have hweight := weightSum_push_of_some hsocket crypto stored h.logs.retains.backupSize_eq
      have hsize := hlogs.retains.backupSize_eq
      refine ⟨hlogs, fun hnot => absurd rfl hnot, fun _ => ⟨?_, ?_⟩⟩
      · change writer.disconnectedBytes ≤ _
        omega
      · rw [hsize]
        exact hweight.trans (Nat.le_add_right _ _)

theorem step (h : OneAllowance cipher start writer events) (hlawful : cipher.Lawful)
    (htrimmed : BreaksTrimmed writer op) (hstep : writerMachine writer op = some (writer', out)) :
    OneAllowance cipher start writer' (events ++ out) := by
  have hlogs := logs_of_run hlawful.encrypt_isSome events h.logs
    (writerMachine.run_singleton.mpr hstep)
  cases writerStep_spec hstep with
  | write hwrites => exact h.write hlawful hlogs hwrites
  | invalidateSocket =>
      refine ⟨hlogs, fun hlive => absurd rfl hlive, fun _ => ?_⟩
      by_cases hsocket : writer.socket = none
      · exact h.broken hsocket
      · have hzero := (h.live hsocket).1
        have hsize := htrimmed hsocket
        simp only [BackedWriter.invalidateSocket]
        omega
  | recover n => exact ⟨hlogs, h.live, h.broken⟩
  | revive socket =>
      exact ⟨hlogs, fun _ => ⟨rfl, h.backupSize_le⟩,
        fun hnone => absurd hnone (Option.some_ne_none _)⟩

end OneAllowance

/-- **When the backup stays bounded over all outages.** In every state of a run the backup holds at most
what is kept while there is a socket and one allowance, if and only if every packet accepted without a
socket fits; and it does if no connection breaks before the backup of the last outage is cut down. -/
theorem backlog_bounded_iff_fits {crypto : CryptoHandler} (hlawful : crypto.cipher.Lawful)
    (socket : TcpStream) (ops : List WriterOp) :
    (writerMachine.Always (fun writer _ => writer.backupSize ≤ backlogLimit)
        (BackedWriter.new crypto socket) ops ↔
      writerMachine.Along BacklogFits (BackedWriter.new crypto socket) ops)
      ∧ (writerMachine.Along BreaksTrimmed (BackedWriter.new crypto socket) ops →
        writerMachine.Always (fun writer _ => writer.backupSize ≤ backlogLimit)
          (BackedWriter.new crypto socket) ops) := by
  constructor
  · have hconditions : writerMachine.Along BacklogFits (BackedWriter.new crypto socket) ops ↔
        writerMachine.Along (CostFits id backlogLimit) (BackedWriter.new crypto socket) ops := by
      apply writerMachine.along_congr
      intro first _ writer events hrun op
      exact roomFor_congr (logs_of_run_new hlawful.encrypt_isSome hrun).retains.backupSize_eq op
    rw [hconditions]
    apply always_iff_costFits hlawful
    · intro packets hweight
      apply hweight.trans
      unfold backlogLimit
      omega
    · intro writer events h
      rw [h.logs.retains.backupSize_eq]
      exact h.within
    · intro writer events hlogs _ hcost hbounded
      rw [hlogs.retains.backupSize_eq] at hbounded
      exact absurd hbounded (Nat.not_le.mpr hcost)
  · intro halong first hpre writer events hrun
    have hsafe := writerMachine.always_of_along (J := OneAllowance crypto.cipher crypto.nonce)
      (fun h htrimmed hstep => h.step hlawful htrimmed hstep)
      ⟨.new crypto socket, fun _ => ⟨rfl, Nat.zero_le _⟩,
        fun hnone => absurd hnone (Option.some_ne_none _)⟩ halong
    exact (hsafe first hpre writer events hrun).backupSize_le

/-- One packet written without a socket fits. -/
theorem backlog_bounded_iff_fits_one_write :
    let writer := BackedWriter.new ⟨tagCipher, .start clientServerNonceMsb⟩ ⟨0⟩
    writerMachine.Always (fun writer _ => writer.backupSize ≤ backlogLimit) writer
      [.invalidateSocket, .write (.new 1 [7]) []] := by
  apply (backlog_bounded_iff_fits tagCipher_lawful ⟨0⟩ _).2
  rw [writerMachine.along_cons rfl, writerMachine.along_cons rfl]
  exact ⟨fun _ => Nat.zero_le _, trivial, writerMachine.along_nil _ _⟩

/-! ### Outages in a row -/

/-- A connection breaks, one packet takes up the allowance, and the connection comes back. -/
def outage (socket : TcpStream) : List WriterOp :=
  [.invalidateSocket, .write (filler disconnectBufferBytes) [], .revive socket]

/-- Every outage adds the allowance and a MAC. -/
theorem run_outage {writer : BackedWriter} (hlawful : writer.crypto.cipher.Lawful)
    (hallowance : writer.disconnectedBytes = 0) (socket : TcpStream) :
    ∃ writer' events, writerMachine.run writer (outage socket) = some (writer', events)
      ∧ writer'.crypto.cipher = writer.crypto.cipher ∧ writer'.disconnectedBytes = 0
      ∧ writer'.backupSize = writer.backupSize + (disconnectBufferBytes + macBytes) := by
  let broken := writer.invalidateSocket
  have hlength : (filler disconnectBufferBytes).length = disconnectBufferBytes :=
    length_filler (by decide)
  have haccepts : broken.refuses (filler disconnectBufferBytes) = false := by
    have hzero : broken.disconnectedBytes = 0 := hallowance
    simp only [BackedWriter.refuses, hzero, hlength, Nat.zero_add, gt_iff_lt, lt_irrefl,
      decide_false, Bool.and_false]
  have hflag : (filler disconnectBufferBytes).encrypted = false := rfl
  obtain ⟨stored, hencrypt⟩ := Packet.encrypt_of_plain hflag hlawful.encrypt_isSome
  have hstored := (Packet.encrypt_eq_ok.mp hencrypt).1.length_stored hlawful
  rw [hlength] at hstored
  have hwrite : broken.write (filler disconnectBufferBytes) [] =
      ⟨.bufferedOnly, { broken.push broken.crypto.incrementNonce stored with
        disconnectedBytes := broken.disconnectedBytes + stored.length }, [], some stored⟩ := by
    have hcrypto : broken.crypto = writer.crypto := rfl
    rw [BackedWriter.write, if_neg (by rw [haccepts]; simp), hcrypto, hencrypt]
    rfl
  refine ⟨(broken.write (filler disconnectBufferBytes) []).writer.revive socket, _, rfl, ?_, rfl, ?_⟩
  · rw [hwrite]
    rfl
  · rw [hwrite]
    simp [BackedWriter.revive, BackedWriter.push, broken, BackedWriter.invalidateSocket, hstored]

theorem run_outages {writer : BackedWriter} (hlawful : writer.crypto.cipher.Lawful)
    (hallowance : writer.disconnectedBytes = 0) (socket : TcpStream) (k : Nat) :
    ∃ writer' events,
      writerMachine.run writer (List.replicate k (outage socket)).flatten = some (writer', events)
        ∧ writer'.backupSize = writer.backupSize + k * (disconnectBufferBytes + macBytes) := by
  induction k generalizing writer with
  | zero => exact ⟨writer, [], rfl, by simp⟩
  | succ k ih =>
      obtain ⟨back, first, hfirst, hcipher, hzero, hsize⟩ := run_outage hlawful hallowance socket
      obtain ⟨last, second, hsecond, htotal⟩ := ih (hcipher ▸ hlawful) hzero
      refine ⟨last, first ++ second, ?_, ?_⟩
      · rw [List.replicate_succ, List.flatten_cons]
        exact (writerMachine.run_append_eq_some).mpr ⟨back, first, second, hfirst, hsecond, rfl⟩
      · rw [htotal, hsize, Nat.succ_mul]
        omega

/-- With nothing written while the connection is up there is no bound at all. -/
theorem backlog_unbounded {crypto : CryptoHandler} (hlawful : crypto.cipher.Lawful)
    (socket : TcpStream) {limit k : Nat} (hover : limit < k * (disconnectBufferBytes + macBytes)) :
    ¬ writerMachine.Always (fun writer _ => writer.backupSize ≤ limit)
      (BackedWriter.new crypto socket) (List.replicate k (outage socket)).flatten := by
  intro halways
  have hstart : (BackedWriter.new crypto socket).backupSize = 0 := rfl
  obtain ⟨writer, events, hrun, hsize⟩ :=
    run_outages (show (BackedWriter.new crypto socket).crypto.cipher.Lawful from hlawful) rfl socket k
  have hbounded : writer.backupSize ≤ limit := halways _ List.prefix_rfl writer events hrun
  rw [hsize, hstart] at hbounded
  omega

/-- Three outages of 64 MiB each. -/
theorem backlog_over_limit :
    ¬ writerMachine.Always (fun writer _ => writer.backupSize ≤ backlogLimit)
      (BackedWriter.new ⟨tagCipher, .start clientServerNonceMsb⟩ ⟨0⟩)
      (List.replicate 3 (outage ⟨0⟩)).flatten :=
  backlog_unbounded tagCipher_lawful ⟨0⟩ (by decide)

end EternalTerminal
