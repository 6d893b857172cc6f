import EternalTerminal.Proof.ClientEvents
import EternalTerminal.Proof.Consistency
import EternalTerminal.Proof.Framing

/-!
# What a reconnect puts on its new connection

`recover` and `revive` take the writer's lock separately, with a round trip between them. `Resuming`
ties every connection that a reconnect opened to the packets accepted so far; it is kept by every step
of either side but one, the revival of a writer that has accepted a packet since its `recover`.
-/

namespace EternalTerminal

/-- On every connection that a reconnect opened, the catch-up entries and then the frames are the
packets from `remoteSeq + 1` on, in order; and they are all that were accepted, as long as the writer
has the connection. -/
def GapFree (shared : Shared) (events : List ClientEvent) : Prop :=
  ∀ socket remoteSeq entries, CaughtUp events socket remoteSeq entries →
    ∃ acked caught live, clientAccepted events = acked ++ caught ++ live
      ∧ (acked.length : Int) = remoteSeq
      ∧ entries = caught.map (fun entry => entry.stored.serialize)
      ∧ sentOn socket events <+: frames live
      ∧ (shared.writerSocket = some socket → sentOn socket events = frames live)

/-- A step that revives the writer finds it as `recover` left it: the packets up to its sequence
number are those that the peer had and those in the catch-up. -/
def RevivesInStep (client : Client) : ClientAction → Prop
  | .thread index _ => ∀ socket remoteSeq entries writer,
      client.threads[index]? = some (.revivingWriter socket remoteSeq entries) →
      client.shared.writer = some writer → writer.sequenceNumber = remoteSeq + entries.length
  | .session _ => True

/-! ### The invariant -/

/-- The catch-up holds the packets after the first `remoteSeq` up to some moment. -/
def Snapshot (log : List Accepted) (remoteSeq : Int) (entries : List Bytes) : Prop :=
  ∃ acked caught live, log = acked ++ caught ++ live ∧ (acked.length : Int) = remoteSeq
    ∧ entries = caught.map fun entry => entry.stored.serialize

/-- The attempt of a thread has its connection to itself. -/
structure Attempt (shared : Shared) (events : List ClientEvent) (pc : ReconnectPc)
    (socket : TcpStream) : Prop where
  opened : socket.connection < shared.connections
  unused : shared.writerSocket ≠ some socket
  silent : sentOn socket events = []
  caughtUp_iff : ∀ remoteSeq entries,
    CaughtUp events socket remoteSeq entries ↔ pc.sentCatchup? = some (remoteSeq, entries)
  snapshot : ∀ remoteSeq entries, pc.heldCatchup? = some (remoteSeq, entries)
    ∨ pc.sentCatchup? = some (remoteSeq, entries) → Snapshot (clientAccepted events) remoteSeq entries

/-- What holds of the connections. -/
structure Wired (client : Client) (events : List ClientEvent) : Prop where
  gapFree : GapFree client.shared events
  /-- Connections are numbered in the order in which they are made. -/
  opened : ∀ socket : TcpStream, (client.shared.writerSocket = some socket ∨ sentOn socket events ≠ []
    ∨ ∃ remoteSeq entries, CaughtUp events socket remoteSeq entries) →
    socket.connection < client.shared.connections
  attempt : ∀ (i : Nat) (pc : ReconnectPc) (socket : TcpStream), client.threads[i]? = some pc →
    pc.socket? = some socket → Attempt client.shared events pc socket

structure Resuming (client : Client) (events : List ClientEvent) : Prop where
  consistent : client.Consistent
  logged : Logged client events
  wired : Wired client events

theorem Snapshot.append {log : List Accepted} {remoteSeq : Int} {entries : List Bytes}
    (h : Snapshot log remoteSeq entries) (later : List Accepted) :
    Snapshot (log ++ later) remoteSeq entries := by
  obtain ⟨acked, caught, live, rfl, hacked, hcaught⟩ := h
  exact ⟨acked, caught, live ++ later, List.append_assoc .., hacked, hcaught⟩

theorem Retains.snapshot {writer : BackedWriter} {log : List Accepted}
    (h : Retains writer (log.map Accepted.stored)) {remoteSeq : Int} {entries : List Bytes}
    (hrecover : writer.recover remoteSeq = .ok entries) : Snapshot log remoteSeq entries := by
  obtain ⟨-, k, rfl, packets, hreplay, rfl⟩ := h.recover_eq_ok.mp hrecover
  obtain ⟨hk, -, rfl⟩ := RetainedLog.replay_eq_some.mp hreplay
  have hle : k ≤ log.length := by simpa [Retains.retained] using hk
  refine ⟨log.take k, log.drop k, [], by simp, by simp [hle], ?_⟩
  simp [Retains.retained, List.map_drop, Function.comp_def]

theorem eq_nil_of_inStep {writer : BackedWriter} {log acked caught live : List Accepted}
    (h : Retains writer (log.map Accepted.stored)) (hlog : log = acked ++ caught ++ live)
    {remoteSeq : Int} (hacked : (acked.length : Int) = remoteSeq) {entries : List Bytes}
    (hcaught : entries = caught.map fun entry => entry.stored.serialize) :
    writer.sequenceNumber = remoteSeq + entries.length ↔ live = [] := by
  have hsequence := h.sequence_eq
  rw [List.length_map, hlog, List.length_append, List.length_append] at hsequence
  rw [hcaught, List.length_map, ← List.length_eq_zero_iff]
  omega

/-! ### Steps of the session thread -/

theorem GapFree.later {shared shared' : Shared} {events out : List ClientEvent}
    (h : GapFree shared events) (hout : Irrelevant out)
    (hwriter : ∀ socket, shared'.writerSocket = some socket → shared.writerSocket = some socket) :
    GapFree shared' (events ++ out) := by
  intro socket remoteSeq entries hcaughtUp
  rw [caughtUp_append] at hcaughtUp
  obtain ⟨acked, caught, live, hlog, hacked, hcaught, hsent, hall⟩ :=
    h socket remoteSeq entries (hcaughtUp.resolve_right (hout.caughtUp socket remoteSeq entries))
  rw [clientAccepted_append, hout.accepted, List.append_nil, sentOn_append, hout.sent,
    List.append_nil]
  exact ⟨acked, caught, live, hlog, hacked, hcaught, hsent, fun hlive => hall (hwriter socket hlive)⟩

theorem Attempt.later {shared shared' : Shared} {events out : List ClientEvent} {pc : ReconnectPc}
    {socket : TcpStream} (h : Attempt shared events pc socket)
    (hopened : shared.connections ≤ shared'.connections)
    (hunused : shared'.writerSocket ≠ some socket) (hsilent : sentOn socket out = [])
    (hcaughtUp : ∀ remoteSeq entries, ¬ CaughtUp out socket remoteSeq entries) :
    Attempt shared' (events ++ out) pc socket := by
  refine ⟨h.opened.trans_le hopened, hunused, ?_, fun remoteSeq entries => ?_,
    fun remoteSeq entries hheld => ?_⟩
  · rw [sentOn_append, h.silent, hsilent, List.append_nil]
  · rw [caughtUp_append, or_iff_left (hcaughtUp remoteSeq entries)]
    exact h.caughtUp_iff remoteSeq entries
  · rw [clientAccepted_append]
    exact (h.snapshot remoteSeq entries hheld).append _

namespace Client

variable {client next : Client}

theorem Quiet.writerSocket (h : Quiet client next) {socket : TcpStream}
    (hsocket : next.shared.writerSocket = some socket) :
    client.shared.writerSocket = some socket := by
  obtain ⟨writer, hwriter, hlive⟩ := Option.bind_eq_some_iff.mp hsocket
  obtain ⟨before, hbefore, rfl | rfl⟩ := h.writer_cases hwriter
  · exact Option.bind_eq_some_iff.mpr ⟨_, hbefore, hlive⟩
  · exact absurd hlive nofun

theorem Quiet.getElem?_threads (h : Quiet client next) {i : Nat} {pc : ReconnectPc}
    {socket : TcpStream} (hpc : next.threads[i]? = some pc) (hsocket : pc.socket? = some socket) :
    client.threads[i]? = some pc := by
  rcases h.threads with hsame | hspawn
  · exact hsame ▸ hpc
  · rw [hspawn, List.getElem?_append] at hpc
    split_ifs at hpc with hlt
    · exact hpc
    · obtain rfl := List.mem_singleton.mp (List.mem_of_getElem? hpc)
      exact absurd hsocket nofun

end Client

namespace Wired

variable {client next : Client} {events out : List ClientEvent}

theorem quiet (h : Wired client events) (hquiet : client.Quiet next) (hcalls : Calls out) :
    Wired next (events ++ out) := by
  have hout := hcalls.irrelevant
  refine ⟨h.gapFree.later hout fun _ => hquiet.writerSocket, fun socket hused => ?_,
    fun i pc socket hpc hsocket => ?_⟩
  · rw [hquiet.connections]
    apply h.opened socket
    rw [sentOn_append, hout.sent, List.append_nil] at hused
    simp only [caughtUp_append, hout.caughtUp, or_false] at hused
    exact hused.imp_left hquiet.writerSocket
  · have hattempt := h.attempt i pc socket (hquiet.getElem?_threads hpc hsocket) hsocket
    exact hattempt.later hquiet.connections.ge (fun hlive => hattempt.unused (hquiet.writerSocket hlive))
      (hout.sent socket) (hout.caughtUp socket)

theorem writes {writer : BackedWriter} {packet : Packet} {results : List IoResult}
    {written : WriteOutput} {session : SessionPc} (h : Wired client events)
    (hwriter : client.shared.writer = some writer) (hwrites : writer.Writes packet results written)
    (hcalls : Calls out) :
    Wired { client with shared := { client.shared with writer := some written.writer }, session }
      (events ++ (Client.writeEvents writer packet written ++ out)) := by
  have hout := hcalls.irrelevant
  obtain ⟨new, hnew⟩ : ∃ new : List Accepted, new = written.pushed.toList.map fun stored =>
    ⟨written.writer.crypto.nonce, packet, stored⟩ := ⟨_, rfl⟩
  have haccepted : clientAccepted (events ++ (Client.writeEvents writer packet written ++ out)) =
      clientAccepted events ++ new := by
    rw [clientAccepted_append, clientAccepted_append, clientAccepted_writeEvents, hout.accepted,
      List.append_nil, hnew]
  have hsent : ∀ socket, sentOn socket (Client.writeEvents writer packet written ++ out) =
      if writer.socket = some socket then written.sent else [] := by
    intro socket
    rw [sentOn_append, sentOn_writeEvents hwrites, hout.sent, List.append_nil]
  have hcaughtUp : ∀ socket remoteSeq entries,
      ¬ CaughtUp (Client.writeEvents writer packet written ++ out) socket remoteSeq entries := by
    intro socket remoteSeq entries
    rw [caughtUp_append, not_or]
    exact ⟨not_caughtUp_writeEvents, hout.caughtUp socket remoteSeq entries⟩
  have hbefore : client.shared.writerSocket = writer.socket := by simp [Shared.writerSocket, hwriter]
  refine ⟨fun socket remoteSeq entries hevent => ?_, fun socket hused => ?_,
    fun i pc socket hpc hsocket => ?_⟩
  · rw [caughtUp_append, or_iff_left (hcaughtUp socket remoteSeq entries)] at hevent
    obtain ⟨acked, caught, live, hlog, hacked, hcaught, hpre, hall⟩ :=
      h.gapFree socket remoteSeq entries hevent
    refine ⟨acked, caught, live ++ new, ?_, hacked, hcaught, ?_⟩
    · rw [haccepted, hlog, List.append_assoc]
    · rw [sentOn_append, hsent, frames_append]
      split_ifs with hlive
      · -- everything before is on this connection, so the frame goes in the right place
        have hnothing : writer.socket ≠ none → ([] : Bytes) = [] := fun _ => rfl
        obtain ⟨lost, hlost, hkept⟩ := hwrites.lost hnothing written.writer.crypto.nonce
        rw [List.nil_append, ← hnew] at hlost
        rw [hall (hbefore.trans hlive), ← hlost]
        refine ⟨⟨lost, by rw [List.append_assoc]⟩, fun hstill => ?_⟩
        have hstill' : written.writer.socket = some socket := hstill
        rw [hkept (by simp [hstill']), List.append_nil]
      · rw [List.append_nil]
        refine ⟨hpre.trans (List.prefix_append _ _), fun hstill => ?_⟩
        exact absurd (hwrites.socket_of_some hstill) hlive
  · apply h.opened socket
    rw [sentOn_append, hsent] at hused
    simp only [caughtUp_append, hcaughtUp, or_false] at hused
    rcases hused with hstill | hsome | hcaught
    · exact .inl (hbefore.trans (hwrites.socket_of_some hstill))
    · split_ifs at hsome with hlive
      · exact .inl (hbefore.trans hlive)
      · rw [List.append_nil] at hsome
        exact .inr (.inl hsome)
    · exact .inr (.inr hcaught)
  · have hattempt := h.attempt i pc socket hpc hsocket
    have hother : writer.socket ≠ some socket := hbefore ▸ hattempt.unused
    refine hattempt.later le_rfl (fun hstill => hother (hwrites.socket_of_some hstill)) ?_
      (hcaughtUp socket)
    rw [hsent, if_neg hother]

end Wired

/-! ### Steps of a reconnect thread -/

theorem Attempt.moves {shared : Shared} {events : List ClientEvent} {pc pc' : ReconnectPc}
    {socket : TcpStream} (h : Attempt shared events pc socket)
    (hsent : pc'.sentCatchup? = pc.sentCatchup?) (hheld : pc'.heldCatchup? = none) :
    Attempt shared events pc' socket := by
  refine ⟨h.opened, h.unused, h.silent, ?_, fun remoteSeq entries hsnapshot => ?_⟩
  · rw [hsent]
    exact h.caughtUp_iff
  · rw [hheld, hsent] at hsnapshot
    exact h.snapshot remoteSeq entries (.inr (hsnapshot.resolve_left nofun))

section Thread

variable {client : Client} {events : List ClientEvent} {i : Nat} {pc : ReconnectPc}
  {out : ReconnectOutput}

namespace Resuming

/-- After a step no thread but the one that stepped has a connection. -/
theorem eq_of_socket (h : Resuming client events) (hpc : client.threads[i]? = some pc)
    (hstep : Reconnects client.shared pc out) {j : Nat} {pc' : ReconnectPc} {socket : TcpStream}
    (hpc' : (client.threads.set i out.pc)[j]? = some pc') (hsocket : pc'.socket? = some socket) :
    pc' = out.pc := by
  obtain ⟨handle, howned⟩ := h.consistent.owned
  have hrun : Running (client.threads.set i out.pc) j := by
    refine ⟨pc', hpc', ?_⟩
    rintro rfl
    exact absurd hsocket nofun
  obtain ⟨rfl, -⟩ := howned.running_step hpc hstep hrun
  rw [List.getElem?_set_self (List.getElem?_eq_some_iff.mp hpc).1] at hpc'
  exact (Option.some.inj hpc').symm

theorem keeps (h : Resuming client events) (hpc : client.threads[i]? = some pc)
    (hstep : Reconnects client.shared pc out)
    (hwriter : out.shared.writer = client.shared.writer)
    (hconnections : client.shared.connections ≤ out.shared.connections)
    (hevents : ∀ socket remoteSeq entries, .catchup socket remoteSeq entries ∉ out.events)
    (hattempt : ∀ socket, out.pc.socket? = some socket →
      Attempt out.shared (events ++ out.events.map (.reconnect i)) out.pc socket) :
    Wired (client.stepped i out) (events ++ out.events.map (.reconnect i)) := by
  have hout := irrelevant_reconnect (i := i) hevents
  have hsocket : out.shared.writerSocket = client.shared.writerSocket := by
    rw [Shared.writerSocket, Shared.writerSocket, hwriter]
  refine ⟨?_, fun socket hused => ?_, fun j pc' socket hpc' hlive => ?_⟩
  · exact h.wired.gapFree.later hout fun socket hlive => hsocket ▸ hlive
  · refine (h.wired.opened socket ?_).trans_le hconnections
    rw [sentOn_append, hout.sent, List.append_nil] at hused
    simp only [caughtUp_append, hout.caughtUp, or_false] at hused
    exact hused.imp_left fun hlive => hsocket ▸ hlive
  · obtain rfl := h.eq_of_socket hpc hstep hpc' hlive
    exact hattempt socket hlive

theorem attempt_opens (h : Resuming client events) :
    Attempt { client.shared with connections := client.shared.connections + 1 } events
      (.requesting ⟨client.shared.connections⟩) ⟨client.shared.connections⟩ := by
  have hnew : ¬ (client.shared.writerSocket = some ⟨client.shared.connections⟩
      ∨ sentOn ⟨client.shared.connections⟩ events ≠ []
      ∨ ∃ remoteSeq entries, CaughtUp events ⟨client.shared.connections⟩ remoteSeq entries) :=
    fun hused => absurd (h.wired.opened _ hused) (lt_irrefl _)
  rw [not_or, not_or, not_not] at hnew
  obtain ⟨hunused, hsilent, hcaughtUp⟩ := hnew
  refine ⟨Nat.lt_succ_self _, hunused, hsilent, fun remoteSeq entries => ?_,
    fun remoteSeq entries hsnapshot => ?_⟩
  · exact ⟨fun hsent => absurd ⟨remoteSeq, entries, hsent⟩ hcaughtUp, nofun⟩
  · exact absurd hsnapshot (by simp [ReconnectPc.heldCatchup?, ReconnectPc.sentCatchup?])

theorem sends {socket : TcpStream} {remoteSeq : Int} {entries : List Bytes}
    (h : Resuming client events)
    (hpc : client.threads[i]? = some (.sendingCatchup socket remoteSeq entries)) :
    Wired (client.stepped i ⟨client.shared, .awaitingCatchup socket remoteSeq entries,
        [.catchup socket remoteSeq entries]⟩)
      (events ++ [.reconnect i (.catchup socket remoteSeq entries)]) := by
  have hattempt := h.wired.attempt i _ socket hpc rfl
  have hsent : ∀ socket', sentOn socket' [.reconnect i (.catchup socket remoteSeq entries)] = [] :=
    fun _ => rfl
  have haccepted : clientAccepted [.reconnect i (.catchup socket remoteSeq entries)] = [] := rfl
  have hcaughtUp : ∀ socket' remoteSeq' entries',
      CaughtUp [.reconnect i (.catchup socket remoteSeq entries)] socket' remoteSeq' entries' ↔
        socket' = socket ∧ remoteSeq' = remoteSeq ∧ entries' = entries := by
    simp [CaughtUp]
  refine ⟨fun socket' remoteSeq' entries' hevent => ?_, fun socket' hused => ?_,
    fun j pc' socket' hpc' hsocket => ?_⟩
  · rw [clientAccepted_append, haccepted, List.append_nil, sentOn_append, hsent, List.append_nil]
    rw [caughtUp_append, hcaughtUp] at hevent
    obtain hold | ⟨rfl, rfl, rfl⟩ := hevent
    · exact h.wired.gapFree socket' remoteSeq' entries' hold
    · obtain ⟨acked, caught, live, hlog, hacked, hcaught⟩ :=
        hattempt.snapshot remoteSeq' entries' (.inl rfl)
      refine ⟨acked, caught, live, hlog, hacked, hcaught, ?_, fun hlive => ?_⟩
      · rw [hattempt.silent]
        exact List.nil_prefix
      · exact absurd hlive hattempt.unused
  · rw [sentOn_append, hsent, List.append_nil] at hused
    simp only [caughtUp_append, hcaughtUp] at hused
    obtain hlive | hsome | ⟨remoteSeq', entries', hold | ⟨rfl, -, -⟩⟩ := hused
    · exact h.wired.opened socket' (.inl hlive)
    · exact h.wired.opened socket' (.inr (.inl hsome))
    · exact h.wired.opened socket' (.inr (.inr ⟨_, _, hold⟩))
    · exact hattempt.opened
  · obtain rfl := h.eq_of_socket hpc .sends hpc' hsocket
    obtain rfl := Option.some.inj hsocket
    refine ⟨hattempt.opened, hattempt.unused, ?_, fun remoteSeq' entries' => ?_,
      fun remoteSeq' entries' hsnapshot => ?_⟩
    · rw [sentOn_append, hsent, hattempt.silent, List.append_nil]
    · rw [caughtUp_append, hcaughtUp, hattempt.caughtUp_iff]
      simp [ReconnectPc.sentCatchup?, eq_comm]
    · rw [clientAccepted_append, haccepted, List.append_nil]
      have hheld : (remoteSeq, entries) = (remoteSeq', entries') :=
        Option.some.inj (hsnapshot.resolve_left (by simp [ReconnectPc.heldCatchup?]))
      exact hattempt.snapshot remoteSeq' entries' (.inl (congrArg some hheld))

/-- If nothing was accepted since `recover`, the new connection is complete when the writer gets it. -/
theorem revivesWriter {socket : TcpStream} {remoteSeq : Int} {entries : List Bytes}
    (h : Resuming client events)
    (hpc : client.threads[i]? = some (.revivingWriter socket remoteSeq entries))
    (hinStep : ∀ writer, client.shared.writer = some writer →
      writer.sequenceNumber = remoteSeq + entries.length) :
    Wired (client.stepped i
        ⟨{ client.shared with writer := client.shared.writer.map fun writer => writer.revive socket },
          .recovered, [.revived]⟩)
      (events ++ [.reconnect i .revived]) := by
  have hattempt := h.wired.attempt i _ socket hpc rfl
  have hout : Irrelevant [.reconnect i .revived] := by
    have hnone : ∀ socket remoteSeq entries, ReconnectEvent.catchup socket remoteSeq entries ∉
        [.revived] := by simp
    exact irrelevant_reconnect (i := i) hnone
  obtain ⟨handle, howned⟩ := h.consistent.owned
  obtain ⟨writer, hwriter⟩ := Option.isSome_iff_exists.mp
    (howned.present (.inr ⟨i, _, hpc, by simp⟩)).2
  have hrevived : client.shared.writer.map (fun writer => writer.revive socket) =
      some (writer.revive socket) := by
    rw [hwriter, Option.map_some]
  rw [hrevived]
  have hsocket : ∀ shared : Shared, shared.writer = some (writer.revive socket) →
      shared.writerSocket = some socket := by
    intro shared hshared
    rw [Shared.writerSocket, hshared]
    rfl
  refine ⟨fun socket' remoteSeq' entries' hevent => ?_, fun socket' hused => ?_,
    fun j pc' socket' hpc' hlive => ?_⟩
  · rw [caughtUp_append, or_iff_left (hout.caughtUp socket' remoteSeq' entries')] at hevent
    rw [clientAccepted_append, hout.accepted, List.append_nil, sentOn_append, hout.sent,
      List.append_nil]
    obtain ⟨acked, caught, live, hlog, hacked, hcaught, hpre, -⟩ :=
      h.wired.gapFree socket' remoteSeq' entries' hevent
    refine ⟨acked, caught, live, hlog, hacked, hcaught, hpre, fun hlive => ?_⟩
    obtain rfl : socket = socket' := Option.some.inj ((hsocket _ rfl).symm.trans hlive)
    have hsame := (hattempt.caughtUp_iff remoteSeq' entries').mp hevent
    obtain ⟨rfl, rfl⟩ := Prod.mk.inj (Option.some.inj hsame)
    have hnone := (eq_nil_of_inStep (h.logged writer hwriter) hlog hacked hcaught).mp
      (hinStep writer hwriter)
    rw [hattempt.silent, hnone, frames_nil]
  · rw [sentOn_append, hout.sent, List.append_nil] at hused
    simp only [caughtUp_append, hout.caughtUp, or_false] at hused
    rcases hused with hlive | hused
    · obtain rfl : socket = socket' := Option.some.inj ((hsocket _ rfl).symm.trans hlive)
      exact hattempt.opened
    · exact h.wired.opened socket' (.inr hused)
  · obtain rfl := h.eq_of_socket hpc .revivesWriter hpc' hlive
    exact absurd hlive (by simp [ReconnectPc.socket?])

theorem thread (h : Resuming client events) (hpc : client.threads[i]? = some pc)
    (hinStep : ∀ socket remoteSeq entries writer, pc = .revivingWriter socket remoteSeq entries →
      client.shared.writer = some writer → writer.sequenceNumber = remoteSeq + entries.length)
    (hstep : Reconnects client.shared pc out) :
    Wired (client.stepped i out) (events ++ out.events.map (.reconnect i)) := by
  cases hstep with
  | leaves htrying hflag =>
      exact h.keeps hpc (.leaves htrying hflag) rfl le_rfl (by simp) nofun
  | fails e htrying =>
      exact h.keeps hpc (.fails e htrying) rfl le_rfl (by simp [attemptFails]) nofun
  | rejects htrying => exact h.keeps hpc (.rejects htrying) rfl le_rfl (by simp) nofun
  | succeeds => exact h.keeps hpc .succeeds rfl le_rfl (by simp) nofun
  | ends => exact h.keeps hpc .ends rfl le_rfl (by simp) nofun
  | sends => exact h.sends hpc
  | revivesWriter =>
      exact h.revivesWriter hpc fun writer hwriter => hinStep _ _ _ writer rfl hwriter
  | opens =>
      refine h.keeps hpc .opens rfl (Nat.le_succ _) (by simp) fun socket hsocket => ?_
      obtain rfl := Option.some.inj hsocket
      rw [List.map_nil, List.append_nil]
      exact h.attempt_opens
  | @moves pc pc' htrying htrying' hsocket hsent hheld =>
      refine h.keeps hpc (.moves htrying htrying' hsocket hsent hheld) rfl le_rfl (by simp)
        fun socket hlive => ?_
      rw [List.map_nil, List.append_nil]
      rcases hsocket with hsame | hnone
      · exact (h.wired.attempt i pc socket hpc (hsame ▸ hlive)).moves hsent hheld
      · exact absurd (hnone.symm.trans hlive) nofun
  | @recovers socket remoteSeq entries hentries =>
      refine h.keeps hpc (.recovers hentries) rfl le_rfl (by simp) fun socket' hlive => ?_
      obtain rfl := Option.some.inj hlive
      have hattempt := h.wired.attempt i _ socket hpc rfl
      obtain ⟨handle, howned⟩ := h.consistent.owned
      obtain ⟨writer, hwriter⟩ := Option.isSome_iff_exists.mp
        (howned.present (.inr ⟨i, _, hpc, by simp⟩)).2
      rw [hwriter] at hentries
      rw [List.map_nil, List.append_nil]
      refine ⟨hattempt.opened, hattempt.unused, hattempt.silent, hattempt.caughtUp_iff,
        fun remoteSeq' entries' hsnapshot => ?_⟩
      obtain ⟨rfl, rfl⟩ := Prod.mk.inj (Option.some.inj (hsnapshot.resolve_right nofun))
      exact (h.logged writer hwriter).snapshot hentries
  | @revivesReader socket remoteSeq entries catchupIn =>
      refine h.keeps hpc .revivesReader rfl le_rfl (by simp) fun socket' hlive => ?_
      have hattempt := (h.wired.attempt i _ socket' hpc hlive).moves
        (show (ReconnectPc.revivingWriter socket remoteSeq entries).sentCatchup? = _ from rfl) rfl
      refine hattempt.later le_rfl hattempt.unused rfl fun remoteSeq' entries' => ?_
      rw [caughtUp_reconnect]
      simp

end Resuming

end Thread

/-! ### Runs -/

theorem connected_resuming (readerCrypto writerCrypto : CryptoHandler) :
    Resuming (Client.connected readerCrypto writerCrypto) [] := by
  have hnothing : ∀ socket remoteSeq entries, ¬ CaughtUp [] socket remoteSeq entries := by
    simp [CaughtUp]
  refine ⟨connected_consistent readerCrypto writerCrypto, connected_logged readerCrypto writerCrypto,
    fun socket remoteSeq entries hcaughtUp => absurd hcaughtUp (hnothing _ _ _),
    fun socket hused => ?_, fun i pc socket hpc => absurd hpc (by simp [Client.connected])⟩
  obtain hlive | hsent | ⟨_, _, hcaughtUp⟩ := hused
  · obtain rfl := Option.some.inj hlive
    exact Nat.zero_lt_one
  · exact absurd rfl hsent
  · exact absurd hcaughtUp (hnothing _ _ _)

theorem resuming_step {client next : Client} {events out : List ClientEvent} {action : ClientAction}
    (h : Resuming client events) (hinStep : RevivesInStep client action)
    (hstep : clientMachine client action = some (next, out)) : Resuming next (events ++ out) := by
  refine ⟨clientMachine_consistent h.consistent hstep, logged_step h.logged hstep, ?_⟩
  cases action with
  | session move =>
      have heffect := (Client.sessionStep_spec hstep).effect
      cases heffect with
      | quiet hquiet hcalls => exact h.wired.quiet hquiet hcalls
      | writes hwriter hwrites hcalls => exact h.wired.writes hwriter hwrites hcalls
  | thread index answer =>
      obtain ⟨pc, out', hpc, hreconnects, rfl, rfl⟩ := Client.threadStep_eq_some hstep
      refine h.thread hpc (fun socket remoteSeq entries writer hrevives hwriter => ?_) hreconnects
      exact hinStep socket remoteSeq entries writer (hrevives ▸ hpc) hwriter

/-- A packet accepted between `recover` and `revive` is missing as soon as the writer is revived. -/
theorem not_gapFree_of_revives {client next : Client} {events out : List ClientEvent}
    {action : ClientAction} (h : Resuming client events) (hbehind : ¬ RevivesInStep client action)
    (hstep : clientMachine client action = some (next, out)) :
    ¬ GapFree next.shared (events ++ out) := by
  cases action with
  | session move => exact absurd trivial hbehind
  | thread index answer =>
      simp only [RevivesInStep, not_forall] at hbehind
      obtain ⟨socket, remoteSeq, entries, writer, hpc, hwriter, hsequence⟩ := hbehind
      obtain ⟨pc, out', hpc', hreconnects, rfl, rfl⟩ := Client.threadStep_eq_some hstep
      obtain rfl := Option.some.inj (hpc.symm.trans hpc')
      have hlive : out'.shared.writerSocket = some socket := by
        rw [hreconnects.of_revivingWriter]
        simp [Shared.writerSocket, hwriter, BackedWriter.revive]
      have hattempt := h.wired.attempt index _ socket hpc rfl
      have hcaughtUp := (hattempt.caughtUp_iff remoteSeq entries).mpr rfl
      intro hgapFree
      obtain ⟨acked, caught, live, hlog, hacked, hcaught, -, hall⟩ :=
        hgapFree socket remoteSeq entries (caughtUp_append.mpr (.inl hcaughtUp))
      rw [clientAccepted_append, clientAccepted_reconnect, List.append_nil] at hlog
      rw [sentOn_append, sentOn_reconnect, hattempt.silent, List.append_nil] at hall
      have hnone := frames_eq_nil (hall hlive).symm
      exact hsequence
        ((eq_nil_of_inStep (h.logged writer hwriter) hlog hacked hcaught).mpr hnone)

/-- **Gap-free resumption.** In every state of a run each connection that a reconnect opened carries
exactly the packets from `remoteSeq + 1` on, in order and with none missing, if and only if every step
that revives the writer finds it where `recover` left it. -/
theorem gapFree_iff_revives_in_step (readerCrypto writerCrypto : CryptoHandler)
    (actions : List ClientAction) :
    clientMachine.Always (fun client events => GapFree client.shared events)
        (Client.connected readerCrypto writerCrypto) actions ↔
      clientMachine.Along RevivesInStep (Client.connected readerCrypto writerCrypto) actions :=
  clientMachine.always_iff_along resuming_step (fun h => h.wired.gapFree) not_gapFree_of_revives
    (connected_resuming readerCrypto writerCrypto) actions

/-- A packet is accepted while the thread waits for the peer's catch-up: the next packet is the first
frame on the new connection, and the one before it is on no connection. -/
theorem gap_after_write_before_revive :
    let crypto : CryptoHandler := ⟨tagCipher, .start clientServerNonceMsb⟩
    let close : List ClientAction :=
      .session .closeAndMaybeReconnect :: List.replicate 6 (.session .step)
    let upToCatchup : List ClientAction := List.replicate 4 (.thread 0 .done) ++
      [.thread 0 (.response { status := some .returningClient, error := none }), .thread 0 .done,
        .thread 0 .done, .thread 0 (.sequence { sequenceNumber := some 0 }), .thread 0 .done,
        .thread 0 .done]
    let write (payload : UInt8) (results : List IoResult) : List ClientAction :=
      [.session (.writePacket (.new 1 [payload])), .session .step, .session (.write results)]
    let fromCatchup : List ClientAction :=
      .thread 0 (.catchup { buffer := [] }) :: List.replicate 4 (.thread 0 .done)
    ∃ client events, clientMachine.run (Client.connected crypto crypto)
        (close ++ upToCatchup ++ write 7 [] ++ fromCatchup ++ write 8 [.ok 64]) =
          some (client, events)
      ∧ ¬ GapFree client.shared events := by
  intro crypto close upToCatchup write fromCatchup
  have hran : (clientMachine.run (Client.connected crypto crypto)
      (close ++ upToCatchup ++ write 7 [] ++ fromCatchup ++ write 8 [.ok 64])).map (fun out =>
        (out.1.shared.writerSocket, (sentOn ⟨1⟩ out.2).length,
          (frames (clientAccepted out.2)).length, out.2.filterMap fun
            | .reconnect _ event => some event
            | _ => none)) =
      some (some ⟨1⟩, 23, 46, [.catchup ⟨1⟩ 0 [], .revived, .revived]) := by
    decide +kernel
  obtain ⟨⟨client, events⟩, hrun, hevents⟩ := Option.map_eq_some_iff.mp hran
  obtain ⟨hsocket, hrest⟩ := Prod.mk.inj hevents
  obtain ⟨hsent, hrest⟩ := Prod.mk.inj hrest
  obtain ⟨hlog, hreconnect⟩ := Prod.mk.inj hrest
  have hcaughtUp : CaughtUp events ⟨1⟩ 0 [] := by
    have hmem : ReconnectEvent.catchup ⟨1⟩ 0 [] ∈ events.filterMap fun
        | .reconnect _ event => some event
        | _ => none := by
      rw [hreconnect]
      exact List.mem_cons_self
    obtain ⟨event, hmem, hevent⟩ := List.mem_filterMap.mp hmem
    cases event with
    | reconnect thread event =>
        obtain rfl := Option.some.inj hevent
        exact ⟨thread, hmem⟩
    | _ => exact absurd hevent nofun
  refine ⟨client, events, hrun, fun hgapFree => ?_⟩
  obtain ⟨acked, caught, live, hall, hacked, hcaught, -, hlive⟩ := hgapFree ⟨1⟩ 0 [] hcaughtUp
  obtain rfl := List.map_eq_nil_iff.mp hcaught.symm
  obtain rfl := List.length_eq_zero_iff.mp (Int.ofNat_eq_zero.mp hacked)
  rw [hall, List.nil_append, List.nil_append, ← hlive hsocket, hsent] at hlog
  exact absurd hlog (by decide)

end EternalTerminal
