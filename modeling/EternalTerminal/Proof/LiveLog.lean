import EternalTerminal.Proof.CallLog
import EternalTerminal.Proof.Conversation
import EternalTerminal.Session.LiveSession

/-!
# From the session loop to the log

The loop writes packets by calling `write_packet`, and the calls leave blocks in the log. So what the
server gets out of the log is the conversation that the loop holds, in its order.
-/

namespace EternalTerminal

open RunEvent

/-- The packets that the loop wrote, with what `write_packet` returned. -/
def loopWrites (events : List RunEvent) : List (Packet × Bool) :=
  events.filterMap fun
    | .wrote packet result => some (packet, result)
    | _ => none

theorem loopWrites_append (before after : List RunEvent) :
    loopWrites (before ++ after) = loopWrites before ++ loopWrites after :=
  List.filterMap_append

theorem loopWrites_of_messages {events : List RunEvent} (h : messages events = []) :
    loopWrites events = [] := by
  rw [messages, List.filterMap_eq_nil_iff] at h
  rw [loopWrites, List.filterMap_eq_nil_iff]
  intro event hmem
  have hnone := h event hmem
  cases event with
  | wrote packet result => cases hnone
  | _ => rfl

section Loop

variable {memory : Memory} {s next : RunSession} {answer : RunAnswer} {events : List RunEvent}

theorem loopWrites_of_call {packet : Packet} {result : Bool}
    (hcall : s.connectionCall = some (.writePacket packet))
    (hstep : runMachine memory s (.wrote result) = some (next, events)) :
    loopWrites events = [(packet, result)] := by
  unfold runMachine at hstep
  unfold RunSession.connectionCall at hcall
  cases hpc : s.pc <;> rw [hpc] at hcall hstep <;>
    simp only [Option.some.injEq, SessionMove.writePacket.injEq, reduceCtorEq] at hcall
  all_goals
    subst hcall
    simp only [runStep, Option.some.injEq, Prod.mk.injEq] at hstep
    obtain ⟨-, rfl⟩ := hstep
    rfl

theorem loopWrites_of_other (hanswer : ∀ result, answer ≠ .wrote result)
    (hstep : runMachine memory s answer = some (next, events)) : loopWrites events = [] := by
  cases RunSession.talks_spec hstep with
  | payload => exact absurd rfl (hanswer _)
  | @response deadline packet hpc => cases packet <;> rfl
  | command => exact absurd rfl (hanswer _)
  | sendsInput => exact absurd rfl (hanswer _)
  | sendsInfo => exact absurd rfl (hanswer _)
  | sendsKeepalive => exact absurd rfl (hanswer _)
  | silent hstage hstage' hquits hquits' hlocal hti hsame hnone => exact loopWrites_of_messages hnone
  | _ => rfl

end Loop

/-- The session thread is inside this call. -/
def SessionPc.Inside : SessionMove → SessionPc → Prop
  | .writePacket packet, session => session.Writing packet
  | _, session => session ≠ .idle ∧ ∀ packet, ¬ session.Writing packet

/-- What a call returns: only `write_packet` has a result. -/
def Returns (results : List Bool) : SessionMove → Prop
  | .writePacket _ => ∃ result, results = [result]
  | _ => results = []

namespace LiveSession

/-- The packet of the call of `write_packet` under way. -/
def pending (s : LiveSession) : List Packet :=
  match s.calling, s.run.connectionCall with
  | true, some (.writePacket packet) => [packet]
  | _, _ => []

/-- The calls on the client are those of the loop. -/
structure InCalls (s : LiveSession) (events : List LiveEvent) : Prop where
  idle : s.calling = false → s.client.session = .idle
  inside : ∀ call, s.calling = true → s.run.connectionCall = some call →
    SessionPc.Inside call s.client.session
  called : calledPackets (events.filterMap LiveEvent.client?) =
    (loopWrites (events.filterMap LiveEvent.run?)).map Prod.fst ++ s.pending
  results : callResults (events.filterMap LiveEvent.client?) =
    (loopWrites (events.filterMap LiveEvent.run?)).map Prod.snd

end LiveSession

theorem callAnswer_writePacket (client : Client) (packet : Packet) (move : SessionMove)
    (events : List ClientEvent) :
    client.callAnswer (.writePacket packet) move events = .wrote ((callResults events).any id) := by
  simp only [Client.callAnswer]
  congr 1
  induction events with
  | nil => rfl
  | cons event events ih =>
      rw [List.any_cons, ih]
      cases event <;> simp [callResults]

section Call

variable {client next : Client} {call move : SessionMove} {out : List ClientEvent}

theorem call_begins (hidle : client.session = .idle)
    (hstep : clientMachine client (.session call) = some (next, out)) (hcall : call ≠ .step) :
    SessionPc.Inside call next.session ∧ callResults out = []
      ∧ calledPackets out = match call with
        | .writePacket packet => [packet]
        | _ => [] := by
  simp only [clientMachine, hidle] at hstep
  cases call <;> simp only [Client.sessionStep, Option.some.injEq, Prod.mk.injEq, reduceCtorEq] at hstep
  · obtain ⟨rfl, rfl⟩ := hstep
    exact ⟨rfl, rfl, rfl⟩
  · obtain ⟨rfl, rfl⟩ := hstep
    exact ⟨⟨by simp, fun _ => id⟩, rfl, rfl⟩
  · obtain ⟨rfl, rfl⟩ := hstep
    exact ⟨⟨by simp, fun _ => id⟩, rfl, rfl⟩
  · obtain ⟨rfl, rfl⟩ := hstep
    exact ⟨⟨by simp, fun _ => id⟩, rfl, rfl⟩

theorem call_goes_on (hinside : SessionPc.Inside call client.session)
    (hstep : clientMachine client (.session move) = some (next, out)) :
    calledPackets out = []
      ∧ (next.session ≠ .idle → SessionPc.Inside call next.session ∧ callResults out = [])
      ∧ (next.session = .idle → Returns (callResults out) call) := by
  have hwriting : ∀ packet, next.session.Writing packet → next.session ≠ .idle := by
    intro packet hgiven hidle
    rw [hidle] at hgiven
    exact hgiven
  cases callStep_spec hstep with
  | begins packet hidle hnext hcalled hresults haccepted =>
      rw [hidle] at hinside
      cases call with
      | writePacket other => exact absurd hinside id
      | _ => exact absurd rfl hinside.1
  | inside packet result hpacket hopen hdone hcalled hresults hown htrue =>
      cases call with
      | writePacket other =>
          obtain rfl := hpacket.unique hinside
          refine ⟨hcalled, fun hbusy => ?_, fun hidle => ?_⟩
          · have hnone : result = none := by
              by_contra hsome
              exact hbusy (hdone hsome)
            exact ⟨hopen hnone, by rw [hresults, hnone]; rfl⟩
          · cases result with
            | none => exact absurd hidle (hwriting _ (hopen rfl))
            | some value => exact ⟨value, hresults⟩
      | _ => exact absurd hpacket (hinside.2 packet)
  | elsewhere hnone hnone' hcalled hresults haccepted =>
      cases call with
      | writePacket packet => exact absurd hinside (hnone packet)
      | _ => exact ⟨hcalled, fun hbusy => ⟨⟨hbusy, hnone'⟩, hresults⟩, fun _ => hresults⟩

end Call

namespace LiveSession

variable {memory : Memory} {s next : LiveSession} {action : LiveAction}
  {before events : List LiveEvent}

theorem pending_idle (h : s.calling = false) : s.pending = [] := by
  unfold pending
  rw [h]

theorem connectionCall_ne_step {run : RunSession} {call : SessionMove}
    (h : run.connectionCall = some call) : call ≠ .step := by
  unfold RunSession.connectionCall at h
  cases hpc : run.pc <;> rw [hpc] at h <;>
    simp only [Option.some.injEq, reduceCtorEq] at h <;> simp [← h]

theorem client?_clients (events : List ClientEvent) :
    (events.map LiveEvent.client).filterMap LiveEvent.client? = events := by
  simp [Function.comp_def]

theorem run?_clients (events : List ClientEvent) :
    (events.map LiveEvent.client).filterMap LiveEvent.run? = [] := by
  simp

theorem client?_runs (events : List RunEvent) :
    (events.map LiveEvent.run).filterMap LiveEvent.client? = [] := by
  simp

theorem run?_runs (events : List RunEvent) :
    (events.map LiveEvent.run).filterMap LiveEvent.run? = events := by
  simp [Function.comp_def]

theorem pending_call {packet : Packet} (h : s.calling = true)
    (hcall : s.run.connectionCall = some (.writePacket packet)) : s.pending = [packet] := by
  unfold pending
  rw [h, hcall]

theorem pending_other {call : SessionMove} (hcall : s.run.connectionCall = some call)
    (hother : ∀ packet, call ≠ .writePacket packet) : s.pending = [] := by
  unfold pending
  rw [hcall]
  cases s.calling with
  | false => rfl
  | true =>
      cases call with
      | writePacket packet => exact absurd rfl (hother packet)
      | _ => rfl

/-- What a step adds on both sides. -/
theorem InCalls.after {inner : List ClientEvent} {out : List RunEvent} (h : s.InCalls before)
    (hclient : events.filterMap LiveEvent.client? = inner)
    (hrun : events.filterMap LiveEvent.run? = out)
    (hidle : next.calling = false → next.client.session = .idle)
    (hinside : ∀ call, next.calling = true → next.run.connectionCall = some call →
      SessionPc.Inside call next.client.session)
    (hcalled : s.pending ++ calledPackets inner = (loopWrites out).map Prod.fst ++ next.pending)
    (hresults : callResults inner = (loopWrites out).map Prod.snd) :
    next.InCalls (before ++ events) := by
  refine ⟨hidle, hinside, ?_, ?_⟩
  · rw [List.filterMap_append, List.filterMap_append, hclient, hrun, calledPackets_append, h.called,
      List.append_assoc, hcalled, loopWrites_append, List.map_append, List.append_assoc]
  · rw [List.filterMap_append, List.filterMap_append, hclient, hrun, callResults_append, h.results,
      hresults, loopWrites_append, List.map_append]

/-- The step in which a call returns shows the packet that was pending, with the result. -/
theorem returns_shows {call move : SessionMove} {inner : List ClientEvent} {run : RunSession}
    {out : List RunEvent} (hcalling : s.calling = true) (hcall : s.run.connectionCall = some call)
    (hreturns : Returns (callResults inner) call)
    (hrun : runMachine memory s.run (s.client.callAnswer call move inner) = some (run, out)) :
    (loopWrites out).map Prod.fst = s.pending ∧ (loopWrites out).map Prod.snd = callResults inner := by
  cases call with
  | writePacket packet =>
      obtain ⟨result, hresult⟩ := hreturns
      have hanswer : s.client.callAnswer (.writePacket packet) move inner = .wrote result := by
        rw [callAnswer_writePacket, hresult, List.any_cons, List.any_nil, Bool.or_false]
        rfl
      rw [hanswer] at hrun
      rw [loopWrites_of_call hcall hrun, pending_call hcalling hcall, hresult]
      exact ⟨rfl, rfl⟩
  | _ =>
      have hwrites := loopWrites_of_other (fun result => by simp [Client.callAnswer]) hrun
      rw [hwrites, pending_other hcall (by simp), show callResults inner = [] from hreturns]
      exact ⟨rfl, rfl⟩

theorem InCalls.step (h : s.InCalls before)
    (hstep : liveMachine memory s action = some (next, events)) : next.InCalls (before ++ events) := by
  cases liveStep_spec hstep with
  | @thread index answer client inner hclient =>
      obtain ⟨pc, out, -, -, rfl, rfl⟩ := Client.threadStep_eq_some hclient
      refine h.after (client?_clients _) (run?_clients _) h.idle h.inside ?_
        (callResults_reconnect _ _)
      rw [calledPackets_reconnect, List.append_nil]
      rfl
  | @calls call client inner hcalling hcall hclient =>
      obtain ⟨hinside, hresults, hcalled⟩ := call_begins (h.idle hcalling) hclient
        (connectionCall_ne_step hcall)
      refine h.after (client?_clients _) (run?_clients _) (by simp) (fun call' _ hcall' => ?_) ?_ hresults
      · obtain rfl := Option.some.inj (hcall.symm.trans hcall')
        exact hinside
      · rw [hcalled, pending_idle hcalling]
        simp only [pending, hcall]
        cases call <;> rfl
  | @continues call move client inner hcalling hcall hclient hbusy =>
      obtain ⟨hcalled, hgoes, -⟩ := call_goes_on (h.inside call hcalling hcall) hclient
      obtain ⟨hinside, hresults⟩ := hgoes hbusy
      have hinner : (inner.map LiveEvent.client ++ s.client.queueEvents move).filterMap
          LiveEvent.client? = inner := by simp [Function.comp_def]
      have hout : (inner.map LiveEvent.client ++ s.client.queueEvents move).filterMap
          LiveEvent.run? = [] := by simp
      refine h.after hinner hout
        (fun hidle => absurd (hcalling.symm.trans hidle) (by simp)) (fun call' _ hcall' => ?_) ?_ hresults
      · obtain rfl := Option.some.inj (hcall.symm.trans hcall')
        exact hinside
      · rw [hcalled, List.append_nil]
        rfl
  | @returns call move client inner run out hcalling hcall hclient hidle hrun =>
      obtain ⟨hcalled, -, hreturns⟩ := call_goes_on (h.inside call hcalling hcall) hclient
      obtain ⟨hpending, hresults⟩ := returns_shows hcalling hcall (hreturns hidle) hrun
      have hinner : (inner.map LiveEvent.client ++ s.client.queueEvents move
          ++ out.map LiveEvent.run).filterMap LiveEvent.client? = inner := by
        simp [Function.comp_def]
      have hout : (inner.map LiveEvent.client ++ s.client.queueEvents move
          ++ out.map LiveEvent.run).filterMap LiveEvent.run? = out := by
        simp [Function.comp_def]
      refine h.after hinner hout (fun _ => hidle) (by simp) ?_ hresults.symm
      rw [hcalled, hpending, List.append_nil, pending_idle (s := ⟨client, run, false⟩) rfl,
        List.append_nil]
  | @own answer run out hcalling hshows hrun =>
      have hwrites : loopWrites out = [] := by
        refine loopWrites_of_other (fun result => ?_) hrun
        rintro rfl
        cases hshows
      refine h.after (client?_runs _) (run?_runs _) h.idle
        (fun call hgiven => absurd (hcalling.symm.trans hgiven) (by simp)) ?_ ?_
      · rw [hwrites, pending_idle hcalling, pending_idle (s := ⟨s.client, run, s.calling⟩) hcalling]
        rfl
      · rw [hwrites]
        rfl

theorem start_inCalls (opts : ClientOptions) (readerCrypto writerCrypto : CryptoHandler) :
    (start opts readerCrypto writerCrypto).InCalls [] :=
  ⟨fun _ => rfl, nofun, rfl, rfl⟩

end LiveSession

/-- **From the loop to the log.** In every run of a session, the log of the writer is one block for each
packet that the session loop wrote, in the order in which it wrote them, with a last block for the write
under way; every packet of a block is the one that was written, and the block of a write that returned
`true` is not empty. What the loop wrote and read is a well-formed conversation. -/
theorem log_is_conversation {memory : Memory} {opts : ClientOptions}
    {readerCrypto writerCrypto : CryptoHandler} {actions : List LiveAction} {s : LiveSession}
    {events : List LiveEvent}
    (hrun : (liveMachine memory).run (LiveSession.start opts readerCrypto writerCrypto) actions =
      some (s, events)) :
    (∃ blocks : List (List Accepted),
        clientAccepted (events.filterMap LiveEvent.client?) = blocks.flatten
          ∧ List.Forall₂ (fun packet block => ∀ entry ∈ block, entry.plain = packet)
              ((loopWrites (events.filterMap LiveEvent.run?)).map Prod.fst ++ s.pending) blocks
          ∧ ∀ (i : Nat) (block : List Accepted) (packet : Packet), blocks[i]? = some block →
              (loopWrites (events.filterMap LiveEvent.run?))[i]? = some (packet, true) → block ≠ [])
      ∧ Message.WellFormed memory opts (messages (events.filterMap LiveEvent.run?)) := by
  have hcalls := (liveMachine memory).run_invariant (I := LiveSession.InCalls)
    LiveSession.InCalls.step [] (LiveSession.start_inCalls opts readerCrypto writerCrypto) hrun
  obtain ⟨moves, hclient⟩ := LiveSession.client_run hrun
  obtain ⟨answers, hloop⟩ := LiveSession.loop_run hrun
  obtain ⟨blocks, hlog, hown, hkept⟩ := (journaled_run hclient).journal
  have hconversed := (runMachine memory).run_invariant (I := RunSession.Conversed memory opts)
    RunSession.conversed_step [] (RunSession.start_conversed memory opts) hloop
  refine ⟨⟨blocks, hlog, ?_, fun i block packet hblock hwrite => ?_⟩, hconversed.said.wellFormed⟩
  · have hcalled := hcalls.called
    rw [List.nil_append] at hcalled
    rwa [hcalled] at hown
  · refine hkept i block hblock ?_
    have hresults := hcalls.results
    rw [List.nil_append] at hresults
    rw [hresults, List.getElem?_map, hwrite]
    rfl

/-- The payload at the beginning of a session, and a key. -/
theorem log_is_conversation_opening :
    let memory : Memory := fun len => len ≤ maxProtoBytes
    let crypto : CryptoHandler := ⟨tagCipher, .start clientServerNonceMsb⟩
    let response : Bytes :=
      match (Packet.new EtPacket.initialResponse []).encrypt crypto with
      | (.ok stored, _) => frame stored.serialize
      | (.error _, _) => []
    let actions : List LiveAction :=
      [.call, .inside .step, .inside (.write [.ok 64]), .own (.now 0), .own (.now 0), .call,
        .inside (.read response [.ok 4, .ok 64]), .own (.opened (.ok ())), .own (.now 0),
        .own (.shuttingDown false), .own (.shutdown false), .own (.hasSocket true), .call,
        .inside (.read [] [.error .wouldBlock]), .own (.now 0), .own (.input (.ok (some [0x0d]))), .call,
        .inside .step, .inside (.write [.ok 64])]
    ∃ s events first second,
      (liveMachine memory).run (LiveSession.start {} crypto crypto) actions = some (s, events)
        ∧ clientAccepted (events.filterMap LiveEvent.client?) = first ++ second
        ∧ (∀ entry ∈ first, entry.plain = initialPacket {}) ∧ first ≠ []
        ∧ (∀ entry ∈ second, entry.plain = bufferPacket [0x0d]) ∧ second ≠ []
        ∧ Message.WellFormed memory {} (messages (events.filterMap LiveEvent.run?)) := by
  intro memory crypto response actions
  have hran : ((liveMachine memory).run (LiveSession.start {} crypto crypto) actions).map (fun out =>
      (loopWrites (out.2.filterMap LiveEvent.run?), out.1.pending)) =
        some ([(initialPacket {}, true), (bufferPacket [0x0d], true)], []) := by
    decide +kernel
  obtain ⟨⟨s, events⟩, hrun, hout⟩ := Option.map_eq_some_iff.mp hran
  obtain ⟨hwrites, hpending⟩ := Prod.mk.inj hout
  obtain ⟨⟨blocks, hflat, hown, hkept⟩, hformed⟩ := log_is_conversation hrun
  rw [hwrites, hpending] at hown
  obtain ⟨first, later, hfirst, hlater, rfl⟩ := List.forall₂_cons_left_iff.mp hown
  obtain ⟨second, none, hsecond, hnone, rfl⟩ := List.forall₂_cons_left_iff.mp hlater
  obtain rfl := List.forall₂_nil_left_iff.mp hnone
  refine ⟨s, events, first, second, hrun, by simpa using hflat, hfirst, ?_, hsecond, ?_, hformed⟩
  · exact hkept 0 first _ rfl (by rw [hwrites]; rfl)
  · exact hkept 1 second _ rfl (by rw [hwrites]; rfl)

end EternalTerminal
