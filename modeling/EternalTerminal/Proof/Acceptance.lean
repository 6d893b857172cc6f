import EternalTerminal.Proof.ClientEvents
import EternalTerminal.Proof.Seal

/-!
# What one call of `write_packet` adds to the log

The loop of `write_packet` writes the packet again after a `WroteWithFailure`, also when the failed
write has put it into the backup. So a call adds the packet once for each of its socket writes that
failed, and once more when it returns `true`.
-/

namespace EternalTerminal

namespace SessionPc

/-- Inside the call `write_packet(packet)`. -/
def Writing (packet : Packet) : SessionPc → Prop
  | .writeCheck packet' => packet' = packet
  | .writeLocked packet' => packet' = packet
  | .closing _ (.writePacket packet') => packet' = packet
  | _ => False

end SessionPc

/-- No step writes a frame to the socket and fails. -/
def NoBrokenWrite (client : Client) : ClientAction → Prop
  | .session (.write results) => ∀ packet writer socket stored crypto,
      client.session = .writeLocked packet → client.shared.writer = some writer →
      writer.socket = some socket → packet.encrypt writer.crypto = (.ok stored, crypto) →
      (writeAllRetry (frame stored.serialize) results).1 = .ok ()
  | _ => True

/-! ### A write -/

/-- A write that does not end the call has pushed the packet exactly if a frame of it broke. -/
theorem pushed_eq_none_iff {writer : BackedWriter} {packet : Packet} {results : List IoResult}
    {out : WriteOutput} (h : writer.Writes packet results out) (hsuccess : out.state ≠ .success)
    (hbuffered : out.state ≠ .bufferedOnly) :
    out.pushed = none ↔ ∀ socket stored crypto, writer.socket = some socket →
      packet.encrypt writer.crypto = (.ok stored, crypto) →
      (writeAllRetry (frame stored.serialize) results).1 = .ok () := by
  cases h with
  | refused hrefuses =>
      refine ⟨fun _ socket stored crypto hsocket _ => ?_, fun _ => rfl⟩
      rw [BackedWriter.refuses_of_socket packet hsocket] at hrefuses
      exact absurd hrefuses nofun
  | notEncrypted hrefuses hencrypt =>
      refine ⟨fun _ socket stored crypto _ hstored => ?_, fun _ => rfl⟩
      exact absurd (Prod.mk.inj (hencrypt.symm.trans hstored)).1 nofun
  | buffered hrefuses hencrypt hsocket => exact absurd rfl hbuffered
  | sent hencrypt hsocket hall => exact absurd rfl hsuccess
  | broken hencrypt hsocket hfail =>
      refine ⟨nofun, fun hwhole => ?_⟩
      have hok := hwhole _ _ _ hsocket hencrypt
      rw [hfail] at hok
      exact absurd hok nofun

theorem pushed_of_done {writer : BackedWriter} {packet : Packet} {results : List IoResult}
    {out : WriteOutput} (h : writer.Writes packet results out)
    (hdone : out.state = .success ∨ out.state = .bufferedOnly) : ∃ stored, out.pushed = some stored := by
  cases h with
  | refused hrefuses => exact absurd hdone (by simp)
  | notEncrypted hrefuses hencrypt => exact absurd hdone (by simp)
  | buffered hrefuses hencrypt hsocket => exact ⟨_, rfl⟩
  | sent hencrypt hsocket hall => exact ⟨_, rfl⟩
  | broken hencrypt hsocket hfail => exact absurd hdone (by simp)

/-! ### Steps during a call -/

theorem not_returned_writeEvents {writer : BackedWriter} {packet : Packet} {out : WriteOutput}
    {result : Bool} : .returned result ∉ Client.writeEvents writer packet out := by
  unfold Client.writeEvents
  cases out.pushed with
  | none => simp
  | some stored => cases writer.socket <;> simp

section Step

variable {packet : Packet} {client next : Client} {out : List ClientEvent}

theorem writes_continue {writer : BackedWriter} {results : List IoResult} {written : WriteOutput}
    (hsession : client.session = .writeLocked packet) (hwriter : client.shared.writer = some writer)
    (hwrites : writer.Writes packet results written)
    (hopen : ∀ result, .returned result ∉
      Client.writeEvents writer packet written ++ (Client.afterWrite packet written.state).2) :
    (Client.afterWrite packet written.state).1.Writing packet
      ∧ (clientAccepted (Client.writeEvents writer packet written
          ++ (Client.afterWrite packet written.state).2) = [] ↔
        NoBrokenWrite client (.session (.write results))) := by
  have hsuccess : written.state ≠ .success := by
    intro hstate
    exact hopen true (List.mem_append_right _ (by simp [hstate, Client.afterWrite]))
  have hbuffered : written.state ≠ .bufferedOnly := by
    intro hstate
    exact hopen true (List.mem_append_right _ (by simp [hstate, Client.afterWrite]))
  refine ⟨?_, ?_⟩
  · cases hstate : written.state with
    | success => exact absurd hstate hsuccess
    | bufferedOnly => exact absurd hstate hbuffered
    | wroteWithFailure => rfl
    | skipped => rfl
  · rw [clientAccepted_append, clientAccepted_writeEvents,
      (Client.afterWrite_calls _ _).clientAccepted_eq, List.append_nil, List.map_eq_nil_iff,
      Option.toList_eq_nil_iff, pushed_eq_none_iff hwrites hsuccess hbuffered]
    constructor
    · intro hwhole packet' writer' socket stored crypto hsession' hwriter' hsocket hencrypt
      obtain rfl := SessionPc.writeLocked.inj (hsession.symm.trans hsession')
      obtain rfl := Option.some.inj (hwriter.symm.trans hwriter')
      exact hwhole socket stored crypto hsocket hencrypt
    · intro hwhole socket stored crypto hsocket hencrypt
      exact hwhole packet writer socket stored crypto hsession hwriter hsocket hencrypt

/-- A step of a call that goes on accepts a packet exactly if a frame breaks in it. -/
theorem writing_continues {action : ClientAction} (h : client.session.Writing packet)
    (hstep : clientMachine client action = some (next, out))
    (hopen : ∀ result, .returned result ∉ out) :
    next.session.Writing packet ∧ (clientAccepted out = [] ↔ NoBrokenWrite client action) := by
  cases action with
  | thread index answer =>
      obtain ⟨pc, out', hpc, hreconnects, rfl, rfl⟩ := Client.threadStep_eq_some hstep
      exact ⟨h, fun _ => trivial, fun _ => clientAccepted_reconnect _ _⟩
  | session move =>
      have hsteps := Client.sessionStep_spec hstep
      generalize hsession : client.session = session at h hsteps
      cases hsteps with
      | givesUp hshut => exact absurd List.mem_cons_self (hopen false)
      | locks => exact ⟨h, fun _ => trivial, fun _ => rfl⟩
      | noWriter hwriter =>
          refine ⟨h, fun _ packet' writer socket stored crypto _ hsome => ?_, fun _ => rfl⟩
          exact absurd (hwriter.symm.trans hsome) (by simp)
      | @writes packet' results writer written hwriter hwrites =>
          obtain rfl : packet' = packet := h
          exact writes_continue hsession hwriter hwrites hopen
      | @closing stage caller next hclose =>
          refine ⟨?_, fun _ => trivial, fun _ => rfl⟩
          cases caller with
          | other => exact absurd h id
          | writePacket packet' =>
              obtain ⟨stage', hnext⟩ | hnext := Client.closeStep_session hclose
              · rw [hnext]
                exact h
              · rw [hnext]
                exact h
      | _ => exact absurd h id

theorem returns_accepts {action : ClientAction}
    (hstep : clientMachine client action = some (next, out)) (hreturned : .returned true ∈ out) :
    (∃ entry, clientAccepted out = [entry]) ∧ ∃ writer, next.shared.writer = some writer := by
  cases action with
  | thread index answer =>
      obtain ⟨pc, out', hpc, hreconnects, rfl, rfl⟩ := Client.threadStep_eq_some hstep
      exact absurd hreturned (by simp)
  | session move =>
      have hsteps := Client.sessionStep_spec hstep
      generalize client.session = session at hsteps
      cases hsteps with
      | @writes packet' results writer written hwriter hwrites =>
          have hdone : written.state = .success ∨ written.state = .bufferedOnly := by
            rcases List.mem_append.mp hreturned with hwrite | hafter
            · exact absurd hwrite not_returned_writeEvents
            · cases hstate : written.state <;> simp [hstate, Client.afterWrite] at hafter ⊢
          obtain ⟨stored, hpushed⟩ := pushed_of_done hwrites hdone
          refine ⟨⟨⟨written.writer.crypto.nonce, packet', stored⟩, ?_⟩, written.writer, rfl⟩
          rw [clientAccepted_append, clientAccepted_writeEvents, hpushed,
            (Client.afterWrite_calls _ _).clientAccepted_eq]
          rfl
      | _ => exact absurd hreturned (by simp)

theorem writing_plain {action : ClientAction} (h : client.session.Writing packet)
    (hstep : clientMachine client action = some (next, out)) :
    ∀ entry ∈ clientAccepted out, entry.plain = packet := by
  intro entry hmem
  cases action with
  | thread index answer =>
      obtain ⟨pc, out', hpc, hreconnects, rfl, rfl⟩ := Client.threadStep_eq_some hstep
      rw [clientAccepted_reconnect] at hmem
      exact absurd hmem List.not_mem_nil
  | session move =>
      have hsteps := Client.sessionStep_spec hstep
      generalize client.session = session at h hsteps
      cases hsteps with
      | writes hwriter hwrites =>
          rw [clientAccepted_append, clientAccepted_writeEvents,
            (Client.afterWrite_calls _ _).clientAccepted_eq, List.append_nil] at hmem
          obtain ⟨stored, -, rfl⟩ := List.mem_map.mp hmem
          exact h
      | _ => exact absurd hmem List.not_mem_nil

theorem writer_none_step {action : ClientAction} (h : client.shared.writer = none)
    (hstep : clientMachine client action = some (next, out)) : next.shared.writer = none := by
  cases action with
  | thread index answer =>
      obtain ⟨pc, out', hpc, hreconnects, rfl, rfl⟩ := Client.threadStep_eq_some hstep
      by_contra hsome
      obtain ⟨writer, hwriter⟩ := Option.ne_none_iff_exists'.mp hsome
      obtain ⟨before, hbefore, -⟩ := hreconnects.writer_cases hwriter
      exact absurd (h.symm.trans hbefore) nofun
  | session move =>
      have heffect := (Client.sessionStep_spec hstep).effect
      cases heffect with
      | quiet hquiet hcalls =>
          by_contra hsome
          obtain ⟨writer, hwriter⟩ := Option.ne_none_iff_exists'.mp hsome
          obtain ⟨before, hbefore, -⟩ := hquiet.writer_cases hwriter
          exact absurd (h.symm.trans hbefore) nofun
      | writes hwriter hwrites hcalls => exact absurd (h.symm.trans hwriter) nofun

end Step

/-! ### Calls -/

theorem writePacket_called {client next : Client} {packet : Packet} {out : List ClientEvent}
    (hstep : clientMachine client (.session (.writePacket packet)) = some (next, out)) :
    next.session.Writing packet ∧ clientAccepted out = [] := by
  have hsteps := Client.sessionStep_spec hstep
  generalize client.session = session at hsteps
  cases hsteps with
  | called packet => exact ⟨rfl, rfl⟩

/-- As long as a call goes on it has accepted nothing exactly if no frame of it broke. -/
theorem call_run {packet : Packet} {client mid : Client} {actions : List ClientAction}
    {events : List ClientEvent} (h : client.session.Writing packet)
    (hrun : clientMachine.run client actions = some (mid, events))
    (hopen : ∀ result, .returned result ∉ events) :
    mid.session.Writing packet
      ∧ (clientAccepted events = [] ↔ clientMachine.Along NoBrokenWrite client actions)
      ∧ ∀ entry ∈ clientAccepted events, entry.plain = packet := by
  induction actions generalizing client events with
  | nil =>
      simp only [Transducer.run_nil, Option.some.injEq, Prod.mk.injEq] at hrun
      obtain ⟨rfl, rfl⟩ := hrun
      exact ⟨h, ⟨fun _ => clientMachine.along_nil _ _, fun _ => rfl⟩, nofun⟩
  | cons action rest ih =>
      obtain ⟨next, out, later, hstep, hrest, rfl⟩ := (clientMachine.run_cons_eq_some).mp hrun
      have hout : ∀ result, .returned result ∉ out :=
        fun result hmem => hopen result (List.mem_append_left _ hmem)
      have hlater : ∀ result, .returned result ∉ later :=
        fun result hmem => hopen result (List.mem_append_right _ hmem)
      obtain ⟨hnext, hbroken⟩ := writing_continues h hstep hout
      obtain ⟨hmid, halong, hplain⟩ := ih hnext hrest hlater
      refine ⟨hmid, ?_, ?_⟩
      · rw [clientMachine.along_cons hstep, clientAccepted_append, List.append_eq_nil_iff, hbroken,
          halong]
      · rw [clientAccepted_append]
        intro entry hmem
        rcases List.mem_append.mp hmem with hfirst | hsecond
        · exact writing_plain h hstep entry hfirst
        · exact hplain entry hsecond

/-- **Exactly-once acceptance.** A call of `write_packet` that returns `true` has accepted nothing but
its packet, the sequence number has grown by as much as it has accepted, and the backup is the end of the
log with what it has accepted. It has accepted it exactly once if and only if no frame that it wrote to a
socket broke. -/
theorem accepted_once_iff_no_broken_write {readerCrypto writerCrypto : CryptoHandler}
    {earlier actions : List ClientAction} {last : ClientAction} {client mid next : Client}
    {past events out : List ClientEvent} {packet : Packet}
    (hreach : clientMachine.run (Client.connected readerCrypto writerCrypto) earlier =
      some (client, past))
    (hcall : clientMachine.run client (.session (.writePacket packet) :: actions) =
      some (mid, events))
    (hopen : ∀ result, .returned result ∉ events)
    (hlast : clientMachine mid last = some (next, out)) (hreturned : .returned true ∈ out) :
    ∃ writer writer', client.shared.writer = some writer ∧ next.shared.writer = some writer'
      ∧ writer'.sequenceNumber = writer.sequenceNumber + (clientAccepted (events ++ out)).length
      ∧ (∀ entry ∈ clientAccepted (events ++ out), entry.plain = packet)
      ∧ writer'.backup.reverse <:+
          (clientAccepted past ++ clientAccepted (events ++ out)).map Accepted.stored
      ∧ ((writer'.sequenceNumber = writer.sequenceNumber + 1
            ∧ ∃ entry, clientAccepted (events ++ out) = [entry] ∧ entry.plain = packet) ↔
          clientMachine.Along NoBrokenWrite client (.session (.writePacket packet) :: actions)) := by
  obtain ⟨begun, called, later, hcalled, hrest, rfl⟩ := (clientMachine.run_cons_eq_some).mp hcall
  obtain ⟨hbegun, hnothing⟩ := writePacket_called hcalled
  have hlater : ∀ result, .returned result ∉ later :=
    fun result hmem => hopen result (List.mem_append_right _ hmem)
  obtain ⟨hmid, halong, hplain⟩ := call_run hbegun hrest hlater
  obtain ⟨⟨entry, hentry⟩, writer', hwriter'⟩ := returns_accepts hlast hreturned
  have haccepted : clientAccepted ((called ++ later) ++ out) = clientAccepted later ++ [entry] := by
    rw [clientAccepted_append, clientAccepted_append, hnothing, hentry, List.nil_append]
  have hplain' : ∀ entry ∈ clientAccepted ((called ++ later) ++ out), entry.plain = packet := by
    rw [haccepted]
    intro entry' hmem
    rcases List.mem_append.mp hmem with hbefore | hend
    · exact hplain entry' hbefore
    · exact writing_plain hmid hlast entry' (hentry ▸ hend)
  obtain ⟨writer, hwriter⟩ : ∃ writer, client.shared.writer = some writer := by
    by_contra hnone
    have hlost : client.shared.writer = none := by
      cases hsome : client.shared.writer with
      | none => rfl
      | some writer => exact absurd ⟨writer, hsome⟩ hnone
    have hlost' := clientMachine.run_invariant_state writer_none_step hlost hcall
    exact absurd ((writer_none_step hlost' hlast).symm.trans hwriter') nofun
  have hlogged := logged_run (connected_logged readerCrypto writerCrypto) hreach
  have hlogged' := logged_step (logged_run hlogged hcall) hlast
  have hsequence : writer'.sequenceNumber =
      writer.sequenceNumber + (clientAccepted ((called ++ later) ++ out)).length := by
    rw [(hlogged writer hwriter).sequence_eq, (hlogged' writer' hwriter').sequence_eq,
      List.append_assoc, clientAccepted_append]
    simp
  have hbackup := (hlogged' writer' hwriter').backup_suffix
  rw [List.append_assoc, clientAccepted_append] at hbackup
  refine ⟨writer, writer', hwriter, hwriter', hsequence, hplain', hbackup, ?_⟩
  rw [clientMachine.along_cons hcalled, ← halong]
  constructor
  · intro hgiven
    obtain ⟨hone, -⟩ := hgiven
    refine ⟨trivial, List.length_eq_zero_iff.mp ?_⟩
    rw [hsequence, haccepted, List.length_append, List.length_singleton] at hone
    omega
  · intro hgiven
    obtain ⟨-, hnone⟩ := hgiven
    rw [haccepted, hnone] at hsequence hplain' ⊢
    exact ⟨hsequence, entry, rfl, hplain' entry List.mem_cons_self⟩

/-- A whole frame on a live socket. -/
theorem accepted_once_of_whole_frame :
    let crypto : CryptoHandler := ⟨tagCipher, .start clientServerNonceMsb⟩
    let packet := Packet.new 1 [7]
    ∃ mid events next out, clientMachine.run (Client.connected crypto crypto)
        [.session (.writePacket packet), .session .step] = some (mid, events)
      ∧ clientMachine mid (.session (.write [.ok 64])) = some (next, out)
      ∧ ∃ entry, clientAccepted (events ++ out) = [entry] ∧ entry.plain = packet := by
  intro crypto packet
  have hcalled : clientMachine (Client.connected crypto crypto) (.session (.writePacket packet)) =
      some ({ Client.connected crypto crypto with session := .writeCheck packet }, [.called packet]) :=
    rfl
  have hchecked : clientMachine { Client.connected crypto crypto with session := .writeCheck packet }
      (.session .step) =
        some ({ Client.connected crypto crypto with session := .writeLocked packet }, []) := rfl
  have hran : ((clientMachine { Client.connected crypto crypto with session := .writeLocked packet }
      (.session (.write [.ok 64]))).map fun result => result.2.any fun
        | .returned result => result
        | _ => false) = some true := by
    decide +kernel
  obtain ⟨⟨next, out⟩, hlast, hany⟩ := Option.map_eq_some_iff.mp hran
  have hreturned : .returned true ∈ out := by
    obtain ⟨event, hmem, hevent⟩ := List.any_eq_true.mp hany
    cases event with
    | returned result => exact hevent ▸ hmem
    | _ => exact absurd hevent nofun
  have hcall : clientMachine.run (Client.connected crypto crypto)
      [.session (.writePacket packet), .session .step] =
        some ({ Client.connected crypto crypto with session := .writeLocked packet },
          [.called packet]) := rfl
  have halong : clientMachine.Along NoBrokenWrite (Client.connected crypto crypto)
      [.session (.writePacket packet), .session .step] := by
    rw [clientMachine.along_cons hcalled, clientMachine.along_cons hchecked]
    exact ⟨trivial, trivial, clientMachine.along_nil _ _⟩
  obtain ⟨writer, writer', -, -, -, -, -, honce⟩ := accepted_once_iff_no_broken_write
    (clientMachine.run_nil (Client.connected crypto crypto)) hcall (by simp) hlast hreturned
  exact ⟨_, _, next, out, hcall, hlast, (honce.mpr halong).2⟩

/-- The first frame breaks, and the packet is written again while the client is not connected. -/
theorem accepted_twice_after_broken_write :
    let crypto : CryptoHandler := ⟨tagCipher, .start clientServerNonceMsb⟩
    let packet := Packet.new 1 [7]
    ∃ next events, clientMachine.run (Client.connected crypto crypto)
        ([.session (.writePacket packet), .session .step, .session (.write [])]
          ++ List.replicate 7 (.session .step) ++ [.session (.write [])]) = some (next, events)
      ∧ (events.filterMap fun
          | .returned result => some result
          | _ => none) = [true]
      ∧ (clientAccepted events).map Accepted.plain = [packet, packet]
      ∧ next.shared.writer.map BackedWriter.sequenceNumber = some 2 := by
  intro crypto packet
  have hran : (clientMachine.run (Client.connected crypto crypto)
      ([.session (.writePacket packet), .session .step, .session (.write [])]
        ++ List.replicate 7 (.session .step) ++ [.session (.write [])])).map (fun out =>
          (out.2.filterMap fun
            | .returned result => some result
            | _ => none,
          (clientAccepted out.2).map Accepted.plain,
          out.1.shared.writer.map BackedWriter.sequenceNumber)) =
      some ([true], [packet, packet], some 2) := by
    decide +kernel
  obtain ⟨⟨next, events⟩, hrun, hevents⟩ := Option.map_eq_some_iff.mp hran
  obtain ⟨hreturned, hrest⟩ := Prod.mk.inj hevents
  obtain ⟨hplain, hsequence⟩ := Prod.mk.inj hrest
  exact ⟨next, events, hrun, hreturned, hplain, hsequence⟩

end EternalTerminal
