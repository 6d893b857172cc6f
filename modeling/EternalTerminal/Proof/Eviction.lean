import EternalTerminal.Proof.WriterLog

/-!
# Eviction is never premature

On a live socket a write keeps the longest end of the log that weighs at most `MAX_BACKUP_BYTES`, and
without one nothing is given up. So the backup covers every end of the log that weighs that little, and
whatever was accepted since the last write on a live socket.
-/

namespace EternalTerminal

/-- The packets accepted so far, in the form in which they are kept. -/
def storedLog (events : List WriterEvent) : List Packet := (acceptedLog events).map Accepted.stored

theorem storedLog_append (before after : List WriterEvent) :
    storedLog (before ++ after) = storedLog before ++ storedLog after := by
  simp only [storedLog, acceptedLog_append, List.map_append]

@[simp] theorem storedLog_recoverEvents (n : Int) (result : Except Error (List Bytes)) :
    storedLog (recoverEvents n result) = [] := by
  simp only [storedLog, acceptedLog_recoverEvents, List.map_nil]

@[simp] theorem storedLog_writeEvents (writer : BackedWriter) (packet : Packet) (out : WriteOutput) :
    storedLog (writeEvents writer packet out) = out.pushed.toList := by
  simp only [storedLog, acceptedLog_writeEvents, List.map_map]
  exact List.map_id _

/-- The backup of a writer of a run covers the ends of the log that fit. -/
structure CoversLog (writer : BackedWriter) (events : List WriterEvent) : Prop where
  retains : Retains writer (storedLog events)
  covers : List.Covers Packet.length maxBackupBytes writer.backup.reverse (storedLog events)

namespace CoversLog

variable {writer writer' : BackedWriter} {events out : List WriterEvent} {op : WriterOp}

theorem new (crypto : CryptoHandler) (socket : TcpStream) :
    CoversLog (BackedWriter.new crypto socket) [] :=
  ⟨.new crypto socket, fun _ hother _ => hother⟩

/-- After a push on a live socket the backup is the longest end that fits. -/
theorem isLongestEnd_push (h : CoversLog writer events) {socket : TcpStream}
    (hsocket : writer.socket = some socket) (crypto : CryptoHandler) (stored : Packet) :
    List.IsLongestEnd Packet.length maxBackupBytes (writer.push crypto stored).backup.reverse
      (storedLog events ++ [stored]) := by
  have hkept := (BackedWriter.reverse_backup_push crypto stored h.retains.backupSize_eq).1
  simp only [hsocket, Option.isSome_some, if_true] at hkept
  rw [hkept]
  exact (h.covers.append stored).isLongestEnd_trim
    (List.suffix_append_self_iff.mpr h.retains.backup_suffix)

theorem covers_push (h : CoversLog writer events) (crypto : CryptoHandler) (stored : Packet) :
    List.Covers Packet.length maxBackupBytes (writer.push crypto stored).backup.reverse
      (storedLog events ++ [stored]) := by
  cases hsocket : writer.socket with
  | none =>
      have hkept := (BackedWriter.reverse_backup_push crypto stored h.retains.backupSize_eq).1
      simp only [hsocket, Option.isSome_none, Bool.false_eq_true, if_false] at hkept
      rw [hkept]
      exact h.covers.append stored
  | some socket => exact (h.isLongestEnd_push hsocket crypto stored).longest

theorem write (h : CoversLog writer events) {packet : Packet} {results : List IoResult}
    {written : WriteOutput} (hwrites : writer.Writes packet results written) :
    CoversLog written.writer (events ++ writeEvents writer packet written) := by
  have hretains := h.retains.write hwrites
  refine ⟨?_, ?_⟩
  · rw [storedLog_append, storedLog_writeEvents]
    exact hretains
  · rw [storedLog_append, storedLog_writeEvents]
    cases hwrites with
    | refused hrefuses => simpa using h.covers
    | notEncrypted hrefuses hencrypt => simpa using h.covers
    | @buffered stored crypto hrefuses hencrypt hsocket => exact h.covers_push crypto stored
    | sent hencrypt hsocket hall => exact h.covers_push _ _
    | @broken stored crypto _ _ _ hencrypt hsocket hfail => exact h.covers_push crypto stored

theorem step (h : CoversLog writer events) (hstep : writerMachine writer op = some (writer', out)) :
    CoversLog writer' (events ++ out) := by
  cases writerStep_spec hstep with
  | write hwrites => exact h.write hwrites
  | invalidateSocket =>
      rw [List.append_nil]
      exact ⟨h.retains.invalidateSocket, h.covers⟩
  | recover n =>
      refine ⟨?_, ?_⟩
      · rw [storedLog_append, storedLog_recoverEvents, List.append_nil]
        exact h.retains
      · rw [storedLog_append, storedLog_recoverEvents, List.append_nil]
        exact h.covers
  | revive socket =>
      rw [List.append_nil]
      exact ⟨h.retains.revive socket, h.covers⟩

theorem of_run {crypto : CryptoHandler} {socket : TcpStream} {ops : List WriterOp}
    (hrun : writerMachine.run (BackedWriter.new crypto socket) ops = some (writer, events)) :
    CoversLog writer events := by
  have h := writerMachine.run_invariant (I := CoversLog) (fun hs hstep => hs.step hstep) []
    (.new crypto socket) hrun
  rwa [List.nil_append] at h

end CoversLog

/-! ### Without a socket -/

/-- A write finds no socket. -/
def NoLiveWrite (writer : BackedWriter) : WriterOp → Prop
  | .write _ _ => writer.socket = none
  | .invalidateSocket => True
  | .recover _ => True
  | .revive _ => True

theorem backup_of_noLiveWrite {writer writer' : BackedWriter} {op : WriterOp}
    {out : List WriterEvent} (hnone : NoLiveWrite writer op)
    (hstep : writerMachine writer op = some (writer', out)) :
    ∃ added, writer'.backup = added ++ writer.backup
      ∧ writer'.sequenceNumber = writer.sequenceNumber + added.length := by
  cases writerStep_spec hstep with
  | write hwrites =>
      have hsocket : writer.socket = none := hnone
      cases hwrites with
      | refused hrefuses => exact ⟨[], rfl, by simp⟩
      | notEncrypted hrefuses hencrypt => exact ⟨[], rfl, by simp⟩
      | @buffered stored crypto hrefuses hencrypt _ =>
          refine ⟨[stored], ?_, rfl⟩
          simp [BackedWriter.push, hsocket]
      | sent hencrypt hlive hall =>
          rw [hsocket] at hlive
          exact absurd hlive.symm (Option.some_ne_none _)
      | broken hencrypt hlive hfail =>
          rw [hsocket] at hlive
          exact absurd hlive.symm (Option.some_ne_none _)
  | invalidateSocket => exact ⟨[], rfl, by simp [BackedWriter.invalidateSocket]⟩
  | recover n => exact ⟨[], rfl, by simp⟩
  | revive socket => exact ⟨[], rfl, by simp [BackedWriter.revive]⟩

/-- After any steps without a live write the backup holds everything accepted during them. -/
theorem kept_since {writer writer' : BackedWriter} {ops : List WriterOp} {events : List WriterEvent}
    (hnone : writerMachine.Along NoLiveWrite writer ops)
    (hrun : writerMachine.run writer ops = some (writer', events)) :
    writer'.sequenceNumber ≤ writer.sequenceNumber + writer'.backup.length := by
  refine writerMachine.always_of_along
    (J := fun later _ => later.sequenceNumber ≤ writer.sequenceNumber + later.backup.length)
    ?_ ?_ hnone ops List.prefix_rfl writer' events hrun
  · intro earlier before op later out hkept hsingle hstep
    obtain ⟨added, hbackup, hsequence⟩ := backup_of_noLiveWrite hsingle hstep
    rw [hbackup, hsequence, List.length_append]
    omega
  · omega

/-- **No premature eviction.** In every state of a run without a socket `recover` gives a peer the
packets above `n` if they weigh at most `MAX_BACKUP_BYTES`, or if no write found a live socket since the
writer was at `n`. A packet that is accepted on a live socket leaves the longest end of the log that
weighs at most that, one that cannot be encrypted leaves the backup alone, and nothing is evicted
without a socket. -/
theorem no_premature_eviction {crypto : CryptoHandler} {socket : TcpStream} {ops : List WriterOp}
    {writer : BackedWriter} {events : List WriterEvent}
    (hrun : writerMachine.run (BackedWriter.new crypto socket) ops = some (writer, events)) :
    (writer.socket = none → ∀ n : Int, 0 ≤ n → n ≤ writer.sequenceNumber →
        (((storedLog events).drop n.toNat).weightSum Packet.length ≤ maxBackupBytes
          ∨ ∃ first second earlier before, ops = first ++ second
            ∧ writerMachine.run (BackedWriter.new crypto socket) first = some (earlier, before)
            ∧ earlier.sequenceNumber ≤ n ∧ writerMachine.Along NoLiveWrite earlier second) →
        ∃ entries, writer.recover n = .ok entries)
      ∧ (writer.socket ≠ none → ∀ packet results,
          ((writer.write packet results).pushed ≠ none →
            List.IsLongestEnd Packet.length maxBackupBytes
              (writer.write packet results).writer.backup.reverse
              (storedLog (events ++ writeEvents writer packet (writer.write packet results))))
          ∧ ((writer.write packet results).pushed = none →
            (writer.write packet results).writer.backup = writer.backup))
      ∧ (writer.socket = none → ∀ op writer' out,
          writerMachine writer op = some (writer', out) → writer.backup <:+ writer'.backup) := by
  have hcovers := CoversLog.of_run hrun
  have hlength : (writer.sequenceNumber : Int) = (storedLog events).length :=
    hcovers.retains.sequence_eq
  refine ⟨fun hsocket n hzero hle hwindow => ?_, fun hlive packet results => ?_,
    fun hsocket op writer' out hstep => ?_⟩
  · refine ⟨_, BackedWriter.recover_eq_ok.mpr ⟨hsocket, hle, ?_, rfl⟩⟩
    rcases hwindow with hweight | ⟨first, second, earlier, before, rfl, hfirst, hearlier, hnone⟩
    · have hend := (hcovers.covers _ (List.drop_suffix _ _) hweight).length_le
      rw [List.length_drop, List.length_reverse] at hend
      omega
    · obtain ⟨middle, _, later, hrun', hsecond, -⟩ := (writerMachine.run_append_eq_some).mp hrun
      rw [hfirst] at hrun'
      obtain ⟨rfl, rfl⟩ := Prod.mk.inj (Option.some.inj hrun')
      have hkept := kept_since hnone hsecond
      omega
  · rw [storedLog_append, storedLog_writeEvents]
    obtain ⟨stream, hstream⟩ := Option.ne_none_iff_exists'.mp hlive
    have hwrites := writer.write_spec packet results
    generalize writer.write packet results = written at hwrites
    cases hwrites with
    | refused hrefuses => exact ⟨fun hpushed => absurd rfl hpushed, fun _ => rfl⟩
    | notEncrypted hrefuses hencrypt => exact ⟨fun hpushed => absurd rfl hpushed, fun _ => rfl⟩
    | buffered hrefuses hencrypt hsocket => exact absurd hsocket hlive
    | sent hencrypt hsocket hall =>
        exact ⟨fun _ => hcovers.isLongestEnd_push hstream _ _,
          fun hnone => absurd hnone (Option.some_ne_none _)⟩
    | @broken stored crypto _ _ _ hencrypt hsocket hfail =>
        exact ⟨fun _ => hcovers.isLongestEnd_push hstream crypto stored,
          fun hnone => absurd hnone (Option.some_ne_none _)⟩
  · have hnone : NoLiveWrite writer op := by
      cases op with
      | write packet results => exact hsocket
      | invalidateSocket => exact trivial
      | recover n => exact trivial
      | revive other => exact trivial
    obtain ⟨added, hbackup, -⟩ := backup_of_noLiveWrite hnone hstep
    rw [hbackup]
    exact List.suffix_append _ _

/-- One packet on a live socket and one without: a peer that has neither is given both. -/
theorem no_premature_eviction_one_write :
    let crypto : CryptoHandler := ⟨tagCipher, .start clientServerNonceMsb⟩
    let writer := (((BackedWriter.new crypto ⟨0⟩).write (.new 1 [7]) [.ok 100]).writer.invalidateSocket.write
      (.new 2 [8]) []).writer
    ∃ entries, writer.recover 0 = .ok entries
      ∧ entries = [1 :: 1 :: (crypto.nonce.increment.bytes.take macBytes ++ [7]),
        1 :: 2 :: (crypto.nonce.increment.increment.bytes.take macBytes ++ [8])] := by
  intro crypto writer
  have hrun : writerMachine.run (BackedWriter.new crypto ⟨0⟩)
      [.write (.new 1 [7]) [.ok 100], .invalidateSocket, .write (.new 2 [8]) []] =
        some (writer, _) := rfl
  obtain ⟨entries, hentries⟩ :=
    (no_premature_eviction hrun).1 rfl 0 (by decide) (by decide) (.inl (by decide))
  exact ⟨entries, hentries, (Except.ok.inj hentries).symm⟩

end EternalTerminal
