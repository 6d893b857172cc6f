import EternalTerminal.Library.Journal
import EternalTerminal.Proof.Acceptance

/-!
# The log and the calls of `write_packet`

The packets that the writer has accepted are one block for each call of `write_packet`, in the order of
the calls. What the peer gets out of the log is therefore what was written, in the order it was written,
with no packet missing whose call returned `true`.
-/

namespace EternalTerminal

/-- The packets `write_packet` was called with, in order. -/
def calledPackets (events : List ClientEvent) : List Packet :=
  events.filterMap fun
    | .called packet => some packet
    | _ => none

/-- What the calls returned, in order. -/
def callResults (events : List ClientEvent) : List Bool :=
  events.filterMap fun
    | .returned result => some result
    | _ => none

theorem calledPackets_append (before after : List ClientEvent) :
    calledPackets (before ++ after) = calledPackets before ++ calledPackets after :=
  List.filterMap_append

theorem callResults_append (before after : List ClientEvent) :
    callResults (before ++ after) = callResults before ++ callResults after :=
  List.filterMap_append

@[simp] theorem calledPackets_reconnect (i : Nat) (events : List ReconnectEvent) :
    calledPackets (events.map (.reconnect i)) = [] := by
  simp [calledPackets]

@[simp] theorem callResults_reconnect (i : Nat) (events : List ReconnectEvent) :
    callResults (events.map (.reconnect i)) = [] := by
  simp [callResults]

/-- The log as the journal of the calls. -/
abbrev LogOfCalls (events : List ClientEvent) : Prop :=
  Journal (fun packet (entry : Accepted) => entry.plain = packet) (calledPackets events)
    (callResults events) (clientAccepted events)

namespace SessionPc

theorem Writing.unique {session : SessionPc} {first second : Packet} (h : session.Writing first)
    (h' : session.Writing second) : first = second := by
  cases session with
  | writeCheck packet => exact h.symm.trans h'
  | writeLocked packet => exact h.symm.trans h'
  | closing stage caller =>
      cases caller with
      | writePacket packet => exact h.symm.trans h'
      | other => exact absurd h id
  | _ => exact absurd h id

end SessionPc

/-- What a step means to the calls of `write_packet`. -/
inductive CallStep (client next : Client) (out : List ClientEvent) : Prop
  | begins (packet : Packet) : client.session = .idle → next.session.Writing packet →
      calledPackets out = [packet] → callResults out = [] → clientAccepted out = [] →
      CallStep client next out
  | inside (packet : Packet) (result : Option Bool) : client.session.Writing packet →
      (result = none → next.session.Writing packet) →
      (result ≠ none → next.session = .idle) →
      calledPackets out = [] → callResults out = result.toList →
      (∀ entry ∈ clientAccepted out, entry.plain = packet) →
      (result = some true → clientAccepted out ≠ []) → CallStep client next out
  | elsewhere : (∀ packet, ¬ client.session.Writing packet) →
      (∀ packet, ¬ next.session.Writing packet) → calledPackets out = [] → callResults out = [] →
      clientAccepted out = [] → CallStep client next out

theorem calledPackets_writeEvents (writer : BackedWriter) (packet : Packet) (out : WriteOutput) :
    calledPackets (Client.writeEvents writer packet out) = [] := by
  unfold Client.writeEvents
  cases out.pushed with
  | none => rfl
  | some stored => cases writer.socket <;> rfl

theorem callResults_writeEvents (writer : BackedWriter) (packet : Packet) (out : WriteOutput) :
    callResults (Client.writeEvents writer packet out) = [] := by
  unfold Client.writeEvents
  cases out.pushed with
  | none => rfl
  | some stored => cases writer.socket <;> rfl

section Step

variable {client next : Client} {packet : Packet}

theorem CallStep.writes {writer : BackedWriter} {results : List IoResult} {written : WriteOutput}
    (hsession : client.session = .writeLocked packet)
    (hwrites : writer.Writes packet results written) :
    CallStep client
      { client with
        shared := { client.shared with writer := some written.writer }
        session := (Client.afterWrite packet written.state).1 }
      (Client.writeEvents writer packet written ++ (Client.afterWrite packet written.state).2) := by
  have haccepted : clientAccepted (Client.writeEvents writer packet written
      ++ (Client.afterWrite packet written.state).2) =
        written.pushed.toList.map fun stored => ⟨written.writer.crypto.nonce, packet, stored⟩ := by
    rw [clientAccepted_append, clientAccepted_writeEvents,
      (Client.afterWrite_calls _ _).clientAccepted_eq, List.append_nil]
  have hown : ∀ entry ∈ clientAccepted (Client.writeEvents writer packet written
      ++ (Client.afterWrite packet written.state).2), entry.plain = packet := by
    rw [haccepted]
    intro entry hmem
    obtain ⟨stored, -, rfl⟩ := List.mem_map.mp hmem
    rfl
  have hpushed : written.state = .success ∨ written.state = .bufferedOnly →
      clientAccepted (Client.writeEvents writer packet written
        ++ (Client.afterWrite packet written.state).2) ≠ [] := by
    intro hdone
    obtain ⟨stored, hstored⟩ := pushed_of_done hwrites hdone
    rw [haccepted, hstored]
    simp
  have hwriting : client.session.Writing packet := by
    rw [hsession]
    exact rfl
  cases hstate : written.state with
  | success =>
      rw [hstate] at hown hpushed
      refine .inside packet (some true) hwriting (by simp) (fun _ => rfl) ?_ ?_ hown
        fun _ => hpushed (.inl rfl)
      · rw [calledPackets_append, calledPackets_writeEvents]
        rfl
      · rw [callResults_append, callResults_writeEvents]
        rfl
  | bufferedOnly =>
      rw [hstate] at hown hpushed
      refine .inside packet (some true) hwriting (by simp) (fun _ => rfl) ?_ ?_ hown
        fun _ => hpushed (.inr rfl)
      · rw [calledPackets_append, calledPackets_writeEvents]
        rfl
      · rw [callResults_append, callResults_writeEvents]
        rfl
  | wroteWithFailure =>
      rw [hstate] at hown
      refine .inside packet none hwriting (fun _ => rfl) (absurd rfl) ?_ ?_ hown (by simp)
      · rw [calledPackets_append, calledPackets_writeEvents]
        rfl
      · rw [callResults_append, callResults_writeEvents]
        rfl
  | skipped =>
      rw [hstate] at hown
      refine .inside packet none hwriting (fun _ => rfl) (absurd rfl) ?_ ?_ hown (by simp)
      · rw [calledPackets_append, calledPackets_writeEvents]
        rfl
      · rw [callResults_append, callResults_writeEvents]
        rfl

theorem CallStep.closing {stage : CloseStage} {caller : Caller}
    (hsession : client.session = .closing stage caller)
    (hclose : client.closeStep caller stage = some next) : CallStep client next [] := by
  cases caller with
  | writePacket packet =>
      have hwriting : client.session.Writing packet := by
        rw [hsession]
        exact rfl
      refine .inside packet none hwriting (fun _ => ?_) (absurd rfl) rfl rfl (by simp [clientAccepted])
        (by simp)
      obtain ⟨stage', hnext⟩ | hnext := Client.closeStep_session hclose <;> rw [hnext] <;> exact rfl
  | other =>
      refine .elsewhere (fun packet => ?_) (fun packet => ?_) rfl rfl rfl
      · rw [hsession]
        exact id
      · obtain ⟨stage', hnext⟩ | hnext := Client.closeStep_session hclose <;> rw [hnext] <;> exact id

theorem shutdownStep_not_writing {stage : ShutdownStage}
    (hshutdown : client.shutdownStep stage = some next) : ¬ next.session.Writing packet := by
  cases stage with
  | takeHandle =>
      simp only [Client.shutdownStep] at hshutdown
      split at hshutdown <;> obtain rfl := Option.some.inj hshutdown <;> exact id
  | joining thread =>
      simp only [Client.shutdownStep] at hshutdown
      split_ifs at hshutdown
      obtain rfl := Option.some.inj hshutdown
      exact id
  | _ =>
      obtain rfl := Option.some.inj hshutdown
      exact id

theorem callStep_spec {action : ClientAction} {out : List ClientEvent}
    (hstep : clientMachine client action = some (next, out)) : CallStep client next out := by
  cases action with
  | thread index answer =>
      obtain ⟨pc, out', hpc, hreconnects, rfl, rfl⟩ := Client.threadStep_eq_some hstep
      by_cases hwriting : ∃ packet, client.session.Writing packet
      · obtain ⟨packet, hpacket⟩ := hwriting
        exact .inside packet none hpacket (fun _ => hpacket) (absurd rfl)
          (calledPackets_reconnect _ _) (callResults_reconnect _ _) (by simp) (by simp)
      · have hnone : ∀ packet, ¬ client.session.Writing packet :=
          fun packet hpacket => hwriting ⟨packet, hpacket⟩
        exact .elsewhere hnone hnone (calledPackets_reconnect _ _) (callResults_reconnect _ _)
          (clientAccepted_reconnect _ _)
  | session move =>
      have hsteps := Client.sessionStep_spec hstep
      generalize hsession : client.session = session at hsteps
      have hidle : session = .idle → ∀ packet, ¬ client.session.Writing packet := by
        rintro rfl packet
        rw [hsession]
        exact id
      cases hsteps with
      | called packet => exact .begins packet hsession rfl rfl rfl rfl
      | reads => exact .elsewhere (hidle rfl) (fun _ => id) rfl rfl rfl
      | closes => exact .elsewhere (hidle rfl) (fun _ => id) rfl rfl rfl
      | shutsDown => exact .elsewhere (hidle rfl) (fun _ => id) rfl rfl rfl
      | @givesUp packet hshut =>
          exact .inside packet (some false) (by rw [hsession]; exact rfl) (by simp) (fun _ => rfl) rfl rfl
            (by simp [clientAccepted]) (by simp)
      | @locks packet =>
          exact .inside packet none (by rw [hsession]; exact rfl) (fun _ => rfl) (absurd rfl) rfl rfl
            (by simp [clientAccepted]) (by simp)
      | @noWriter packet results hwriter =>
          exact .inside packet none (by rw [hsession]; exact rfl) (fun _ => rfl) (absurd rfl) rfl rfl
            (by simp [clientAccepted]) (by simp)
      | writes hwriter hwrites => exact .writes hsession hwrites
      | noReader hreader =>
          exact .elsewhere (by rw [hsession]; exact fun _ => id) (fun _ => id) rfl rfl rfl
      | read hreader hreads hnext =>
          refine .elsewhere (by rw [hsession]; exact fun _ => id) ?_ rfl rfl rfl
          rcases hnext with rfl | rfl <;> exact fun _ => id
      | closing hclose => exact .closing hsession hclose
      | shutdown hshutdown =>
          exact .elsewhere (by rw [hsession]; exact fun _ => id)
            (fun _ => shutdownStep_not_writing hshutdown) rfl rfl rfl

end Step

/-! ### Runs -/

/-- The events are the journal of the calls, and the call under way is the last one. -/
structure Journaled (client : Client) (events : List ClientEvent) : Prop where
  journal : LogOfCalls events
  inside : ∀ packet, client.session.Writing packet → ∃ earlier,
    calledPackets events = earlier ++ [packet] ∧ (callResults events).length = earlier.length
  outside : (∀ packet, ¬ client.session.Writing packet) →
    (callResults events).length = (calledPackets events).length

theorem journaled_step {client next : Client} {action : ClientAction} {before out : List ClientEvent}
    (h : Journaled client before) (hstep : clientMachine client action = some (next, out)) :
    Journaled next (before ++ out) := by
  cases callStep_spec hstep with
  | begins packet hidle hnext hcalled hresults haccepted =>
      have hlength := h.outside (by rw [hidle]; exact fun _ => id)
      refine ⟨?_, fun other hother => ?_, fun hnot => absurd hnext (hnot packet)⟩
      · rw [LogOfCalls, calledPackets_append, callResults_append, clientAccepted_append, hcalled,
          hresults, haccepted, List.append_nil, List.append_nil]
        exact h.journal.call hlength.le packet
      · obtain rfl := hother.unique hnext
        rw [calledPackets_append, callResults_append, hcalled, hresults, List.append_nil]
        exact ⟨_, rfl, hlength⟩
  | inside packet result hwriting hopen hdone hcalled hresults hown htrue =>
      obtain ⟨earlier, hearlier, hlength⟩ := h.inside packet hwriting
      have hjournal := h.journal
      rw [LogOfCalls, hearlier] at hjournal
      refine ⟨?_, fun other hother => ?_, fun hnot => ?_⟩
      · rw [LogOfCalls, calledPackets_append, callResults_append, clientAccepted_append, hcalled,
          hresults, List.append_nil, hearlier]
        exact hjournal.add hlength hown htrue
      · have hnone : result = none := by
          by_contra hsome
          rw [hdone hsome] at hother
          exact hother
        obtain rfl := hother.unique (hopen hnone)
        rw [calledPackets_append, callResults_append, hcalled, hresults, hnone]
        exact ⟨earlier, by simpa using hearlier, by simpa using hlength⟩
      · have hsome : result ≠ none := fun hnone => hnot packet (hopen hnone)
        obtain ⟨value, rfl⟩ := Option.ne_none_iff_exists'.mp hsome
        rw [calledPackets_append, callResults_append, hcalled, hresults, hearlier]
        simp [hlength]
  | elsewhere hnone hnone' hcalled hresults haccepted =>
      refine ⟨?_, fun packet hpacket => absurd hpacket (hnone' packet), fun _ => ?_⟩
      · rw [LogOfCalls, calledPackets_append, callResults_append, clientAccepted_append, hcalled,
          hresults, haccepted, List.append_nil, List.append_nil, List.append_nil]
        exact h.journal
      · rw [calledPackets_append, callResults_append, hcalled, hresults, List.append_nil,
          List.append_nil]
        exact h.outside hnone

theorem connected_journaled (readerCrypto writerCrypto : CryptoHandler) :
    Journaled (Client.connected readerCrypto writerCrypto) [] :=
  ⟨.nil, fun _ hwriting => absurd hwriting id, fun _ => rfl⟩

theorem journaled_run {readerCrypto writerCrypto : CryptoHandler} {actions : List ClientAction}
    {client : Client} {events : List ClientEvent}
    (hrun : clientMachine.run (Client.connected readerCrypto writerCrypto) actions =
      some (client, events)) : Journaled client events :=
  clientMachine.run_invariant (I := Journaled) journaled_step [] (connected_journaled _ _) hrun

/-- **At least once, in order.** In every run after a successful `connect`, the log is one block for
each call of `write_packet`, in the order of the calls, and every packet of a block is the packet of its
call. A call that returned `true` has a block that is not empty, and all calls but the one under way have
returned. -/
theorem log_in_order_of_calls {readerCrypto writerCrypto : CryptoHandler}
    {actions : List ClientAction} {client : Client} {events : List ClientEvent}
    (hrun : clientMachine.run (Client.connected readerCrypto writerCrypto) actions =
      some (client, events)) :
    (∃ blocks : List (List Accepted), clientAccepted events = blocks.flatten
        ∧ List.Forall₂ (fun packet block => ∀ entry ∈ block, entry.plain = packet)
            (calledPackets events) blocks
        ∧ ∀ (i : Nat) (block : List Accepted), blocks[i]? = some block →
            (callResults events)[i]? = some true → block ≠ [])
      ∧ (callResults events).length ≤ (calledPackets events).length
      ∧ (calledPackets events).length ≤ (callResults events).length + 1
      ∧ ((calledPackets events).length = (callResults events).length + 1 ↔
          ∃ packet, client.session.Writing packet) := by
  have hjournaled := journaled_run hrun
  refine ⟨hjournaled.journal, ?_⟩
  by_cases hwriting : ∃ packet, client.session.Writing packet
  · obtain ⟨packet, hpacket⟩ := hwriting
    obtain ⟨earlier, hearlier, hlength⟩ := hjournaled.inside packet hpacket
    rw [hearlier, List.length_append, List.length_singleton]
    exact ⟨by omega, by omega, fun _ => ⟨packet, hpacket⟩, fun _ => by omega⟩
  · have hlength := hjournaled.outside fun packet hpacket => hwriting ⟨packet, hpacket⟩
    exact ⟨by omega, by omega, fun _ => by omega, fun hgiven => absurd hgiven hwriting⟩

/-- Two calls. The first breaks the connection in the middle of its frame and writes the packet again. -/
theorem log_in_order_of_two_calls :
    let crypto : CryptoHandler := ⟨tagCipher, .start clientServerNonceMsb⟩
    let actions : List ClientAction :=
      [.session (.writePacket (Packet.new 1 [7])), .session .step, .session (.write [.ok 3])]
        ++ List.replicate 7 (.session .step) ++ [.session (.write []),
          .session (.writePacket (Packet.new 2 [8])), .session .step, .session (.write [])]
    ∃ client events first second,
      clientMachine.run (Client.connected crypto crypto) actions = some (client, events)
        ∧ (clientAccepted events).map Accepted.plain =
          [Packet.new 1 [7], Packet.new 1 [7], Packet.new 2 [8]]
        ∧ clientAccepted events = first ++ second
        ∧ (∀ entry ∈ first, entry.plain = Packet.new 1 [7]) ∧ first ≠ []
        ∧ (∀ entry ∈ second, entry.plain = Packet.new 2 [8]) ∧ second ≠ [] := by
  intro crypto actions
  have hran : (clientMachine.run (Client.connected crypto crypto) actions).map (fun out =>
      ((clientAccepted out.2).map Accepted.plain, calledPackets out.2, callResults out.2)) =
        some ([Packet.new 1 [7], Packet.new 1 [7], Packet.new 2 [8]],
          [Packet.new 1 [7], Packet.new 2 [8]], [true, true]) := by
    decide +kernel
  obtain ⟨⟨client, events⟩, hrun, hout⟩ := Option.map_eq_some_iff.mp hran
  simp only [Prod.mk.injEq] at hout
  obtain ⟨hlog, hcalled, hresults⟩ := hout
  obtain ⟨blocks, hflat, hown, hkept⟩ := (log_in_order_of_calls hrun).1
  rw [hcalled] at hown
  obtain ⟨first, later, hfirst, hlater, rfl⟩ := List.forall₂_cons_left_iff.mp hown
  obtain ⟨second, none, hsecond, hnone, rfl⟩ := List.forall₂_cons_left_iff.mp hlater
  obtain rfl := List.forall₂_nil_left_iff.mp hnone
  refine ⟨client, events, first, second, hrun, hlog, by simpa using hflat, hfirst, ?_, hsecond, ?_⟩
  · exact hkept 0 first rfl (by rw [hresults]; rfl)
  · exact hkept 1 second rfl (by rw [hresults]; rfl)

end EternalTerminal
