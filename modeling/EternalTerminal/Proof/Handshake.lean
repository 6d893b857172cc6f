import EternalTerminal.Connection.Attempt
import EternalTerminal.Proof.RoundTrip
import EternalTerminal.Proof.Seal

/-!
# What a handshake takes off the socket and leaves on it

An attempt that comes through has written its three messages and nothing else, and has read the three of
the peer and nothing behind them: the frames that follow are still there for the reader.
-/

namespace EternalTerminal

/-- The bytes of a message on a stream: a length, and a payload that decodes to it. -/
def Carries {α : Type} [ProtoMessage α] (memory : Memory) (msg : α) (bytes : Bytes) : Prop :=
  ∃ payload, payload.length ≤ maxProtoBytes ∧ bytes = leBytes 8 payload.length ++ payload
    ∧ ProtoMessage.decode memory payload = .ok msg

namespace BlockingStream

variable {α : Type} [ProtoMessage α] {alloc : Allocator} {msg : α} {stream next : BlockingStream}

theorem writeAll_ok {data : Bytes} (h : stream.writeAll data = (.ok (), next)) :
    next.incoming = stream.incoming ∧ next.sent = stream.sent ++ data := by
  obtain ⟨hok, rfl⟩ := Prod.mk.inj h
  exact ⟨rfl, congrArg (stream.sent ++ ·) (EternalTerminal.writeAll_ok hok)⟩

theorem readExact_ok {need : Nat} {bytes : Bytes} (h : stream.readExact need = (.ok bytes, next)) :
    stream.incoming = bytes ++ next.incoming ∧ bytes.length = need ∧ next.sent = stream.sent := by
  obtain ⟨hok, rfl⟩ := Prod.mk.inj h
  obtain ⟨hincoming, hlength⟩ := readExactly_ok hok
  exact ⟨hincoming, hlength, rfl⟩

theorem writeProto_ok (h : stream.writeProto msg = (.ok (), next)) :
    next.incoming = stream.incoming ∧ next.sent = stream.sent ++ EternalTerminal.writeProto msg := by
  cases hlength : stream.writeAll (leBytes 8 (ProtoMessage.encode msg).length) with
  | mk outcome after =>
      simp only [writeProto, hlength] at h
      cases outcome with
      | error e => cases h
      | ok =>
          obtain ⟨hincoming, hsent⟩ := writeAll_ok hlength
          dsimp only at h
          split_ifs at h with hempty
          · obtain ⟨-, rfl⟩ := Prod.mk.inj h
            refine ⟨hincoming, ?_⟩
            rw [hsent, EternalTerminal.writeProto, List.isEmpty_iff.mp hempty]
            rfl
          · obtain ⟨hincoming', hsent'⟩ := writeAll_ok h
            refine ⟨hincoming'.trans hincoming, ?_⟩
            rw [hsent', hsent, List.append_assoc]
            rfl

theorem decodeProto_ok {payload : Bytes} (h : decodeProto α alloc.grants payload = .ok msg) :
    ProtoMessage.decode alloc.grants payload = .ok msg := by
  unfold decodeProto at h
  split at h
  · next hdecode => rw [hdecode, Except.ok.inj h]
  · cases h
  · cases h

/-- A message that is read was the next on the stream, and what follows it is still there. -/
theorem readProto_ok (h : stream.readProto α alloc.grants = (.ok msg, next)) :
    next.sent = stream.sent
      ∧ ∃ bytes, stream.incoming = bytes ++ next.incoming ∧ Carries alloc.grants msg bytes := by
  unfold readProto at h
  cases hheader : stream.readExact 8 with
  | mk outcome after =>
      rw [hheader] at h
      cases outcome with
      | error e => cases h
      | ok header =>
          obtain ⟨hincoming, hlength, hsent⟩ := readExact_ok hheader
          dsimp only at h
          split_ifs at h with hrange hzero hmemory
          · obtain ⟨hdecode, rfl⟩ := Prod.mk.inj h
            have hbytes : header = leBytes 8 0 := leValue_of_i64FromLeBytes hlength hzero
            refine ⟨hsent, header, hincoming, [], by simp, ?_, decodeProto_ok hdecode⟩
            rw [hbytes]
            rfl
          · cases h
          · cases hpayload : after.readExact (i64FromLeBytes header).toNat with
            | mk outcome' after' =>
                rw [hpayload] at h
                cases outcome' with
                | error e => cases h
                | ok payload =>
                    obtain ⟨hdecode, rfl⟩ := Prod.mk.inj h
                    obtain ⟨hincoming', hlength', hsent'⟩ := readExact_ok hpayload
                    have hvalue : i64FromLeBytes header = payload.length := by omega
                    refine ⟨hsent'.trans hsent, header ++ payload, ?_, payload, ?_, ?_,
                      decodeProto_ok hdecode⟩
                    · rw [hincoming, hincoming', List.append_assoc]
                    · omega
                    · rw [leValue_of_i64FromLeBytes hlength hvalue]
          · cases h

theorem writeAnswer_cases {answer : Answer} (h : stream.writeAnswer msg = (some answer, next)) :
    (∃ e, answer = .fail e)
      ∨ (answer = .done ∧ next.incoming = stream.incoming
        ∧ next.sent = stream.sent ++ EternalTerminal.writeProto msg) := by
  cases hwrite : stream.writeProto msg with
  | mk outcome after =>
      simp only [writeAnswer, hwrite, Prod.mk.injEq, Option.some.injEq] at h
      obtain ⟨rfl, rfl⟩ := h
      cases outcome with
      | error e => exact .inl ⟨.io e, rfl⟩
      | ok => exact .inr ⟨rfl, writeProto_ok hwrite⟩

theorem readAnswer_cases {wrap : α → Answer} {answer : Answer}
    (h : stream.readAnswer alloc.grants wrap = (some answer, next)) :
    (∃ e, answer = .fail e)
      ∨ ∃ msg bytes, answer = wrap msg ∧ next.sent = stream.sent
        ∧ stream.incoming = bytes ++ next.incoming ∧ Carries alloc.grants msg bytes := by
  cases hread : stream.readProto α alloc.grants with
  | mk outcome after =>
      simp only [readAnswer, hread, Prod.mk.injEq] at h
      obtain ⟨hanswer, rfl⟩ := h
      rcases outcome with (e | e | _) | msg
      · exact .inl ⟨e, (Option.some.inj hanswer).symm⟩
      · exact .inl ⟨.msg e.text, (Option.some.inj hanswer).symm⟩
      · cases hanswer
      · obtain ⟨hsent, bytes, hincoming, hcarries⟩ := readProto_ok hread
        exact .inr ⟨msg, bytes, (Option.some.inj hanswer).symm, hsent, hincoming, hcarries⟩

/-! ### A peer that takes and gives what is wanted -/

theorem writeAll_answering (stream : BlockingStream) {n : Nat} {data : Bytes}
    (h : Answering (data.length + n) stream.results) :
    ∃ results, stream.writeAll data = (.ok (), { stream with sent := stream.sent ++ data, results })
      ∧ Answering n results := by
  obtain ⟨results, hwrite, hresults⟩ := EternalTerminal.writeAll_answering h
  refine ⟨results, ?_, hresults⟩
  rw [writeAll, hwrite]

theorem writeProto_answering (stream : BlockingStream) {n : Nat}
    (h : Answering ((EternalTerminal.writeProto msg).length + n) stream.results) :
    ∃ results, stream.writeProto msg =
        (.ok (), { stream with sent := stream.sent ++ EternalTerminal.writeProto msg, results })
      ∧ Answering n results := by
  rw [EternalTerminal.writeProto, List.length_append, Nat.add_assoc] at h
  obtain ⟨results, hheader, hresults⟩ := stream.writeAll_answering h
  by_cases hempty : ProtoMessage.encode msg = []
  · rw [hempty, List.length_nil, Nat.zero_add] at hresults
    refine ⟨results, ?_, hresults⟩
    rw [hempty] at hheader
    simp only [writeProto, EternalTerminal.writeProto, hempty, hheader, List.isEmpty_nil, if_true,
      List.append_nil]
  · have hfull : (ProtoMessage.encode msg).isEmpty = false := by simpa using hempty
    obtain ⟨results', hpayload, hresults'⟩ := writeAll_answering
      ⟨stream.incoming, stream.sent ++ leBytes 8 (ProtoMessage.encode msg).length, results⟩ hresults
    refine ⟨results', ?_, hresults'⟩
    simp only [writeProto, hheader, hfull, hpayload, EternalTerminal.writeProto, List.append_assoc,
      Bool.false_eq_true, if_false]

theorem readExact_answering (stream : BlockingStream) {n : Nat} {bytes rest : Bytes}
    (hincoming : stream.incoming = bytes ++ rest)
    (h : Answering (bytes.length + n) stream.results) :
    ∃ results, stream.readExact bytes.length = (.ok bytes, { stream with incoming := rest, results })
      ∧ Answering n results := by
  obtain ⟨results, hread, hresults⟩ := readExactly_answering rest h
  refine ⟨results, ?_, hresults⟩
  rw [readExact, hincoming, hread]

theorem readProto_answering (stream : BlockingStream) {n : Nat} {bytes rest : Bytes}
    (hcarries : Carries alloc.grants msg bytes)
    (hincoming : stream.incoming = bytes ++ rest)
    (h : Answering (bytes.length + n) stream.results) :
    ∃ results, stream.readProto α alloc.grants = (.ok msg, { stream with incoming := rest, results })
      ∧ Answering n results := by
  obtain ⟨payload, hsize, rfl, hdecode⟩ := hcarries
  rw [List.append_assoc] at hincoming
  rw [List.length_append, Nat.add_assoc] at h
  obtain ⟨results, hheader, hresults⟩ := stream.readExact_answering hincoming h
  rw [length_leBytes] at hheader
  have hvalue : i64FromLeBytes (leBytes 8 payload.length) = payload.length :=
    i64FromLeBytes_leBytes (hsize.trans_lt (by norm_num [maxProtoBytes]))
  have hrange : ((0 : Int) ≤ payload.length ∧ (payload.length : Int) ≤ maxProtoBytes) := by omega
  have hdecoded : decodeProto α alloc.grants payload = .ok msg := by rw [decodeProto, hdecode]
  simp only [readProto, hheader, hvalue, hrange, not_true_eq_false, if_false, Int.toNat_natCast,
    alloc.grants_message _ hsize, Bool.not_true, Bool.false_eq_true, and_self]
  split_ifs with hzero
  · obtain rfl := List.eq_nil_of_length_eq_zero (Int.ofNat_eq_zero.mp hzero)
    rw [List.length_nil, Nat.zero_add] at hresults
    exact ⟨results, by rw [hdecoded]; rfl, hresults⟩
  · obtain ⟨results', hpayload, hresults'⟩ :=
      readExact_answering ⟨payload ++ rest, stream.sent, results⟩ rfl hresults
    exact ⟨results', by simp only [hpayload, hdecoded], hresults'⟩

end BlockingStream

/-! ### The attempt -/

theorem returningStatus_ok_true {resp : ConnectResponse} (h : returningStatus resp = .ok true) :
    resp.status = some .returningClient := by
  unfold returningStatus at h
  split at h
  · cases h
  · assumption
  · cases h

namespace Handshake

/-- The three messages of the client. -/
def written (id : String) (localSeq : Int) (catchupOut : List Bytes) : Bytes :=
  writeProto (connectRequest id) ++ writeProto (sequenceHeader localSeq)
    ++ writeProto ({ buffer := catchupOut } : CatchupBuffer)

/-- The position of the reader that the third step of the attempt has found. -/
def PositionFound (founds : List Found) (localSeq : Int) : Prop :=
  ∃ reading, founds[2]? = some reading ∧ localSequence reading.shared.reader = localSeq

/-- The catch-up of the writer that the sixth step has found. -/
def CatchupFound (founds : List Found) (remoteSeq : Int) (entries : List Bytes) : Prop :=
  ∃ recovering, founds[5]? = some recovering
    ∧ catchupOut recovering.shared.writer remoteSeq = .ok entries

/-- What has gone out on the socket when the thread is at a place. -/
def Said (id : String) (founds : List Found) (sent : Bytes) : ReconnectPc → Prop
  | .requesting _ => sent = []
  | .awaitingResponse _ => sent = writeProto (connectRequest id)
  | .readingSequence _ => sent = writeProto (connectRequest id)
  | .sendingSequence _ localSeq => PositionFound founds localSeq ∧ sent = writeProto (connectRequest id)
  | .awaitingSequence _ => Positioned
  | .recovering _ _ => Positioned
  | .sendingCatchup _ remoteSeq entries => CatchupFound founds remoteSeq entries ∧ Positioned
  | .awaitingCatchup _ remoteSeq entries => Whole remoteSeq entries
  | .preparing _ remoteSeq entries _ => Whole remoteSeq entries
  | .revivingReader _ remoteSeq entries _ => Whole remoteSeq entries
  | .revivingWriter _ remoteSeq entries => Whole remoteSeq entries
  | _ => True
where
  Positioned : Prop := ∃ localSeq, PositionFound founds localSeq
    ∧ sent = writeProto (connectRequest id) ++ writeProto (sequenceHeader localSeq)
  Whole (remoteSeq : Int) (entries : List Bytes) : Prop := CatchupFound founds remoteSeq entries
    ∧ ∃ localSeq, PositionFound founds localSeq ∧ sent = written id localSeq entries

/-- How many steps the attempt has taken when the thread is at a place. -/
def Taken (count : Nat) : ReconnectPc → Prop
  | .requesting _ => count = 0
  | .awaitingResponse _ => count = 1
  | .readingSequence _ => count = 2
  | .sendingSequence _ _ => count = 3
  | .awaitingSequence _ => count = 4
  | .recovering _ _ => count = 5
  | _ => True

/-- The answer of a server that knows the client. -/
def Welcome (memory : Memory) (bytes : Bytes) : Prop :=
  ∃ resp : ConnectResponse, Carries memory resp bytes ∧ resp.status = some .returningClient

/-- The position of the server. -/
def Position (memory : Memory) (remoteSeq : Int) (bytes : Bytes) : Prop :=
  ∃ remote : SequenceHeader, Carries memory remote bytes ∧ remoteSequence remote = remoteSeq

/-- What of the stream has been read when the thread is at a place, and that nothing else has. -/
def Heard (memory : Memory) (incoming rest : Bytes) : ReconnectPc → Prop
  | .requesting _ => rest = incoming
  | .awaitingResponse _ => rest = incoming
  | .readingSequence _ => ∃ response, Welcome memory response ∧ incoming = response ++ rest
  | .sendingSequence _ _ => ∃ response, Welcome memory response ∧ incoming = response ++ rest
  | .awaitingSequence _ => ∃ response, Welcome memory response ∧ incoming = response ++ rest
  | .recovering _ remoteSeq => Greeted remoteSeq
  | .sendingCatchup _ remoteSeq _ => Greeted remoteSeq
  | .awaitingCatchup _ remoteSeq _ => Greeted remoteSeq
  | .preparing _ remoteSeq _ catchupIn => CaughtUp remoteSeq catchupIn
  | .revivingReader _ remoteSeq _ catchupIn => CaughtUp remoteSeq catchupIn
  | .revivingWriter _ remoteSeq _ => ∃ catchupIn, CaughtUp remoteSeq catchupIn
  | _ => True
where
  Greeted (remoteSeq : Int) : Prop := ∃ response sequence, Welcome memory response
    ∧ Position memory remoteSeq sequence ∧ incoming = response ++ sequence ++ rest
  CaughtUp (remoteSeq : Int) (catchupIn : List Bytes) : Prop := ∃ response sequence catchup,
    Welcome memory response ∧ Position memory remoteSeq sequence
      ∧ Carries memory ({ buffer := catchupIn } : CatchupBuffer) catchup
      ∧ incoming = response ++ sequence ++ catchup ++ rest

/-- The handshake so far, and what its steps have found. -/
structure Conversing (memory : Memory) (id : String) (incoming : Bytes) (attempt : Handshake)
    (founds : List Found) : Prop where
  taken : Taken founds.length attempt.pc
  said : Said id founds attempt.stream.sent attempt.pc
  heard : Heard memory incoming attempt.stream.incoming attempt.pc

theorem PositionFound.extend {founds : List Found} {localSeq : Int} (h : PositionFound founds localSeq)
    (found : Found) : PositionFound (founds ++ [found]) localSeq := by
  obtain ⟨reading, hreading, hposition⟩ := h
  have hlt := (List.getElem?_eq_some_iff.mp hreading).1
  exact ⟨reading, by rw [List.getElem?_append_left hlt, hreading], hposition⟩

theorem CatchupFound.extend {founds : List Found} {remoteSeq : Int} {entries : List Bytes}
    (h : CatchupFound founds remoteSeq entries) (found : Found) :
    CatchupFound (founds ++ [found]) remoteSeq entries := by
  obtain ⟨recovering, hrecovering, hentries⟩ := h
  have hlt := (List.getElem?_eq_some_iff.mp hrecovering).1
  exact ⟨recovering, by rw [List.getElem?_append_left hlt, hrecovering], hentries⟩

/-- What a step finds is behind what the steps before it have found. -/
theorem getElem?_concat_of_length {founds : List Found} {count : Nat} (h : founds.length = count)
    (found : Found) : (founds ++ [found])[count]? = some found := by
  subst h
  exact List.getElem?_concat_length

theorem handshakeMachine_eq_some {memory : Memory} {id : String} {attempt next : Handshake} {found : Found}
    {out : List ReconnectOutput} (h : handshakeMachine memory id attempt found = some (next, out)) :
    next.pc = .finished ∨ ∃ answer output,
      socketAnswer memory id found attempt.stream attempt.pc = (some answer, next.stream)
        ∧ reconnectStep found.shared attempt.pc answer = some output ∧ next.pc = output.pc
        ∧ out = [output] := by
  unfold handshakeMachine at h
  split_ifs at h
  split at h
  · obtain ⟨rfl, -⟩ := Prod.mk.inj (Option.some.inj h)
    exact .inl rfl
  · next answer stream hanswer =>
      obtain ⟨output, hstep, hnext⟩ := Option.map_eq_some_iff.mp h
      obtain ⟨rfl, rfl⟩ := Prod.mk.inj hnext
      exact .inr ⟨answer, output, hanswer, hstep, rfl, rfl⟩

theorem Said.Whole.extend {id : String} {founds : List Found} {sent : Bytes} {remoteSeq : Int}
    {entries : List Bytes} (h : Said.Whole id founds sent remoteSeq entries) (found : Found) :
    Said.Whole id (founds ++ [found]) sent remoteSeq entries := by
  obtain ⟨hentries, localSeq, hposition, hsent⟩ := h
  exact ⟨hentries.extend found, localSeq, hposition.extend found, hsent⟩

variable {alloc : Allocator} {id : String} {incoming : Bytes} {attempt next : Handshake} {found : Found}
  {founds : List Found}

theorem conversing_of_over {memory : Memory} (h : next.pc = .finished ∨ next.pc = .sleeping
    ∨ next.pc = .rejected ∨ next.pc = .recovered) : Conversing memory id incoming next founds := by
  rcases h with h | h | h | h
  all_goals exact ⟨by rw [h]; exact trivial, by rw [h]; exact trivial, by rw [h]; exact trivial⟩

theorem reconnectStep_fail {shared : Shared} {pc : ReconnectPc} {e : Error} {output : ReconnectOutput}
    (h : reconnectStep shared pc (.fail e) = some output) : output.pc = .sleeping := by
  cases pc <;> simp only [reconnectStep, Option.some.injEq, reduceCtorEq] at h <;> rw [← h] <;> rfl

theorem conversing_step {out : List ReconnectOutput}
    (h : Conversing alloc.grants id incoming attempt founds)
    (hstep : handshakeMachine alloc.grants id attempt found = some (next, out)) :
    Conversing alloc.grants id incoming next (founds ++ [found]) := by
  obtain hpanic | ⟨answer, output, hanswer, hreconnect, hpc', -⟩ := handshakeMachine_eq_some hstep
  · exact conversing_of_over (.inl hpanic)
  obtain ⟨pc, stream⟩ := attempt
  obtain ⟨pc', stream'⟩ := next
  obtain ⟨htaken, hsaid, hheard⟩ := h
  dsimp only at htaken hsaid hheard hanswer hreconnect hpc'
  subst hpc'
  have hfails : ∀ e, answer = .fail e →
      Conversing alloc.grants id incoming ⟨output.pc, stream'⟩ (founds ++ [found]) := by
    rintro e rfl
    exact conversing_of_over (.inr (.inl (reconnectStep_fail hreconnect)))
  have hcount : (founds ++ [found]).length = founds.length + 1 := by simp
  cases pc with
  | requesting socket =>
      obtain ⟨e, hfail⟩ | ⟨rfl, hincoming, hsent⟩ := BlockingStream.writeAnswer_cases hanswer
      · exact hfails e hfail
      · obtain rfl := Option.some.inj hreconnect
        refine ⟨hcount.trans (congrArg (· + 1) htaken), hsent.trans ?_, hincoming.trans hheard⟩
        rw [hsaid]
        rfl
  | awaitingResponse socket =>
      obtain ⟨e, hfail⟩ | ⟨resp, bytes, rfl, hsent, hincoming, hcarries⟩ :=
        BlockingStream.readAnswer_cases hanswer
      · exact hfails e hfail
      · simp only [reconnectStep] at hreconnect
        split at hreconnect <;> obtain rfl := Option.some.inj hreconnect
        · next hstatus =>
            refine ⟨hcount.trans (congrArg (· + 1) htaken), hsent.trans hsaid, bytes,
              ⟨resp, hcarries, returningStatus_ok_true hstatus⟩, ?_⟩
            exact hheard.symm.trans hincoming
        · exact conversing_of_over (.inr (.inr (.inl rfl)))
        · exact conversing_of_over (.inr (.inl rfl))
  | readingSequence socket =>
      simp only [socketAnswer, Prod.mk.injEq, Option.some.injEq] at hanswer
      obtain ⟨rfl, rfl⟩ := hanswer
      obtain rfl := Option.some.inj hreconnect
      exact ⟨hcount.trans (congrArg (· + 1) htaken),
        ⟨⟨found, getElem?_concat_of_length htaken found, rfl⟩, hsaid⟩, hheard⟩
  | sendingSequence socket localSeq =>
      obtain ⟨e, hfail⟩ | ⟨rfl, hincoming, hsent⟩ := BlockingStream.writeAnswer_cases hanswer
      · exact hfails e hfail
      · obtain rfl := Option.some.inj hreconnect
        obtain ⟨hposition, hbefore⟩ := hsaid
        refine ⟨hcount.trans (congrArg (· + 1) htaken),
          ⟨localSeq, hposition.extend found, hsent.trans ?_⟩, ?_⟩
        · rw [hbefore]
        · rw [hincoming]
          exact hheard
  | awaitingSequence socket =>
      obtain ⟨e, hfail⟩ | ⟨remote, bytes, rfl, hsent, hincoming, hcarries⟩ :=
        BlockingStream.readAnswer_cases hanswer
      · exact hfails e hfail
      · obtain rfl := Option.some.inj hreconnect
        obtain ⟨localSeq, hposition, hbefore⟩ := hsaid
        obtain ⟨response, hresponse, hstream⟩ := hheard
        refine ⟨hcount.trans (congrArg (· + 1) htaken),
          ⟨localSeq, hposition.extend found, hsent.trans hbefore⟩, response, bytes, hresponse,
          ⟨remote, hcarries, rfl⟩, ?_⟩
        rw [hstream, hincoming, List.append_assoc]
  | recovering socket remoteSeq =>
      simp only [socketAnswer, Prod.mk.injEq, Option.some.injEq] at hanswer
      obtain ⟨rfl, rfl⟩ := hanswer
      simp only [reconnectStep] at hreconnect
      split at hreconnect <;> obtain rfl := Option.some.inj hreconnect
      · next entries hentries =>
          obtain ⟨localSeq, hposition, hbefore⟩ := hsaid
          exact ⟨trivial, ⟨⟨found, getElem?_concat_of_length htaken found, hentries⟩,
            localSeq, hposition.extend found, hbefore⟩, hheard⟩
      · exact conversing_of_over (.inr (.inl rfl))
  | sendingCatchup socket remoteSeq entries =>
      obtain ⟨e, hfail⟩ | ⟨rfl, hincoming, hsent⟩ := BlockingStream.writeAnswer_cases hanswer
      · exact hfails e hfail
      · obtain rfl := Option.some.inj hreconnect
        obtain ⟨hentries, localSeq, hposition, hbefore⟩ := hsaid
        refine ⟨trivial, ⟨hentries.extend found, localSeq, hposition.extend found, hsent.trans ?_⟩, ?_⟩
        · rw [hbefore]
          rfl
        · rw [hincoming]
          exact hheard
  | awaitingCatchup socket remoteSeq entries =>
      obtain ⟨e, hfail⟩ | ⟨⟨catchupIn⟩, bytes, rfl, hsent, hincoming, hcarries⟩ :=
        BlockingStream.readAnswer_cases hanswer
      · exact hfails e hfail
      · obtain rfl := Option.some.inj hreconnect
        obtain ⟨response, sequence, hresponse, hsequence, hstream⟩ := hheard
        refine ⟨trivial, ?_, response, sequence, bytes, hresponse, hsequence, hcarries, ?_⟩
        · rw [hsent]
          exact Said.Whole.extend hsaid found
        · rw [hstream, hincoming]
          simp only [List.append_assoc]
  | preparing socket remoteSeq entries catchupIn =>
      simp only [socketAnswer, Prod.mk.injEq, Option.some.injEq] at hanswer
      obtain ⟨hanswer, rfl⟩ := hanswer
      cases hfault : found.fault with
      | none =>
          rw [hfault] at hanswer
          obtain rfl : Answer.done = answer := hanswer
          obtain rfl := Option.some.inj hreconnect
          exact ⟨trivial, Said.Whole.extend hsaid found, hheard⟩
      | some e =>
          rw [hfault] at hanswer
          exact hfails e hanswer.symm
  | revivingReader socket remoteSeq entries catchupIn =>
      simp only [socketAnswer, Prod.mk.injEq, Option.some.injEq] at hanswer
      obtain ⟨rfl, rfl⟩ := hanswer
      obtain rfl := Option.some.inj hreconnect
      exact ⟨trivial, Said.Whole.extend hsaid found, catchupIn, hheard⟩
  | revivingWriter socket remoteSeq entries =>
      simp only [socketAnswer, Prod.mk.injEq, Option.some.injEq] at hanswer
      obtain ⟨rfl, rfl⟩ := hanswer
      obtain rfl := Option.some.inj hreconnect
      exact conversing_of_over (.inr (.inr (.inr rfl)))
  | _ => simp [handshakeMachine, ReconnectPc.socket?] at hstep

theorem start_conversing (memory : Memory) (id : String) (socket : TcpStream) (incoming : Bytes)
    (results : List IoResult) : Conversing memory id incoming (start socket incoming results) [] :=
  ⟨rfl, rfl, rfl⟩

/-! ### An attempt that nothing fails -/

/-- The attempt gets there, whatever the thread finds on the way. -/
def Reaches (memory : Memory) (id : String) (s : Handshake) (founds : List Found) (t : Handshake) : Prop :=
  ∃ outs, (handshakeMachine memory id).run s founds = some (t, outs)

theorem Reaches.cons {memory : Memory} {s t u : Handshake} {out : List ReconnectOutput}
    {founds : List Found} (hstep : handshakeMachine memory id s found = some (t, out))
    (hrest : Reaches memory id t founds u) : Reaches memory id s (found :: founds) u := by
  obtain ⟨outs, hrun⟩ := hrest
  exact ⟨out ++ outs, Transducer.run_cons_eq_some _ |>.mpr ⟨t, out, outs, hstep, hrun, rfl⟩⟩

theorem Reaches.here {memory : Memory} (s : Handshake) : Reaches memory id s [] s := ⟨[], rfl⟩

theorem step_of_answer (memory : Memory) (id : String) (found : Found) (pc : ReconnectPc)
    (stream : BlockingStream) {stream' : BlockingStream} {answer : Answer} {output : ReconnectOutput}
    (hsocket : pc.socket?.isSome)
    (hanswer : socketAnswer memory id found stream pc = (some answer, stream'))
    (hstep : reconnectStep found.shared pc answer = some output) :
    handshakeMachine memory id ⟨pc, stream⟩ found = some (⟨output.pc, stream'⟩, [output]) := by
  have hsome : pc.socket? ≠ none := Option.isSome_iff_ne_none.mp hsocket
  simp only [handshakeMachine, hsome, if_false, hanswer, hstep, Option.map_some]

theorem step_of_write {α : Type} [ProtoMessage α] {msg : α} (memory : Memory) (id : String)
    (found : Found) (pc : ReconnectPc) (stream : BlockingStream) {output : ReconnectOutput} {n : Nat}
    (hsocket : pc.socket?.isSome)
    (hanswers : socketAnswer memory id found stream pc = stream.writeAnswer msg)
    (hstep : reconnectStep found.shared pc .done = some output)
    (h : Answering ((writeProto msg).length + n) stream.results) :
    ∃ results, handshakeMachine memory id ⟨pc, stream⟩ found =
        some (⟨output.pc, ⟨stream.incoming, stream.sent ++ writeProto msg, results⟩⟩, [output])
      ∧ Answering n results := by
  obtain ⟨results, hwrite, hresults⟩ := stream.writeProto_answering h
  refine ⟨results, step_of_answer _ id found pc _ hsocket (hanswers.trans ?_) hstep, hresults⟩
  rw [BlockingStream.writeAnswer, hwrite]
  rfl

theorem step_of_read {α : Type} [ProtoMessage α] {msg : α} {wrap : α → Answer} (id : String)
    (found : Found) (pc : ReconnectPc) {bytes : Bytes} (rest : Bytes) {sent : Bytes} {results : List IoResult}
    {output : ReconnectOutput} {n : Nat}
    (hsocket : pc.socket?.isSome) (hcarries : Carries alloc.grants msg bytes)
    (hanswers : ∀ stream, socketAnswer alloc.grants id found stream pc =
      stream.readAnswer alloc.grants wrap)
    (hstep : reconnectStep found.shared pc (wrap msg) = some output)
    (h : Answering (bytes.length + n) results) :
    ∃ left, handshakeMachine alloc.grants id ⟨pc, ⟨bytes ++ rest, sent, results⟩⟩ found =
        some (⟨output.pc, ⟨rest, sent, left⟩⟩, [output])
      ∧ Answering n left := by
  obtain ⟨left, hread, hleft⟩ :=
    BlockingStream.readProto_answering ⟨bytes ++ rest, sent, results⟩ hcarries rfl h
  refine ⟨left, step_of_answer _ id found pc _ hsocket ((hanswers _).trans ?_) hstep, hleft⟩
  rw [BlockingStream.readAnswer, hread]
  rfl

theorem reaches_revivingReader {socket : TcpStream} {resp : ConnectResponse} {remote : SequenceHeader}
    {response sequence catchup frames : Bytes} {catchupIn entries : List Bytes}
    {results : List IoResult} {reading recovering : Found} {before between after : List Found}
    (hresponse : Carries alloc.grants resp response) (hstatus : resp.status = some .returningClient)
    (hsequence : Carries alloc.grants remote sequence)
    (hcatchup : Carries alloc.grants ({ buffer := catchupIn } : CatchupBuffer) catchup)
    (hbefore : before.length = 2) (hbetween : between.length = 2) (hafter : after.length = 3)
    (hentries : catchupOut recovering.shared.writer (remoteSequence remote) = .ok entries)
    (hfault : ∀ found ∈ after, found.fault = none)
    (hresults : Answering ((written id (localSequence reading.shared.reader) entries).length
      + (response ++ sequence ++ catchup).length) results) :
    ∃ left, Reaches alloc.grants id
      (start socket (response ++ sequence ++ catchup ++ frames) results)
      (before ++ reading :: between ++ recovering :: after)
      ⟨.revivingReader socket (remoteSequence remote) entries catchupIn,
        ⟨frames, written id (localSequence reading.shared.reader) entries, left⟩⟩ := by
  obtain ⟨first, second, rfl⟩ := List.length_eq_two.mp hbefore
  obtain ⟨fourth, fifth, rfl⟩ := List.length_eq_two.mp hbetween
  obtain ⟨seventh, eighth, ninth, rfl⟩ := List.length_eq_three.mp hafter
  have hcalls : Answering ((writeProto (connectRequest id)).length + (response.length
      + ((writeProto (sequenceHeader (localSequence reading.shared.reader))).length + (sequence.length
      + ((writeProto ({ buffer := entries } : CatchupBuffer)).length + (catchup.length + 0)))))) results := by
    convert hresults using 1
    simp only [written, List.length_append]
    omega
  have hwelcome : reconnectStep second.shared (.awaitingResponse socket) (.response resp) =
      some ⟨second.shared, .readingSequence socket, []⟩ := by
    simp only [reconnectStep, returningStatus, hstatus]
  have hrecovered : reconnectStep recovering.shared (.recovering socket (remoteSequence remote)) .done =
      some ⟨recovering.shared, .sendingCatchup socket (remoteSequence remote) entries, []⟩ := by
    simp only [reconnectStep, hentries]
  have hprepared (stream : BlockingStream) : socketAnswer alloc.grants id ninth stream
      (.preparing socket (remoteSequence remote) entries catchupIn) = (some .done, stream) := by
    simp only [socketAnswer, hfault ninth (by simp)]
    rfl
  obtain ⟨_, hfirst, hcalls⟩ := step_of_write alloc.grants id first (.requesting socket)
    ⟨response ++ (sequence ++ (catchup ++ frames)), [], results⟩ rfl rfl rfl hcalls
  obtain ⟨_, hsecond, hcalls⟩ := step_of_read id second (.awaitingResponse socket)
    (sequence ++ (catchup ++ frames)) rfl hresponse (fun _ => rfl) hwelcome hcalls
  have hthird (stream : BlockingStream) :=
    step_of_answer alloc.grants id reading (.readingSequence socket) stream rfl rfl rfl
  obtain ⟨_, hfourth, hcalls⟩ := step_of_write alloc.grants id fourth
    (.sendingSequence socket (localSequence reading.shared.reader))
    ⟨sequence ++ (catchup ++ frames), _, _⟩ rfl rfl rfl hcalls
  obtain ⟨_, hfifth, hcalls⟩ := step_of_read id fifth (.awaitingSequence socket) (catchup ++ frames) rfl
    hsequence (fun _ => rfl) rfl hcalls
  have hsixth (stream : BlockingStream) := step_of_answer alloc.grants id recovering
    (.recovering socket (remoteSequence remote)) stream rfl rfl hrecovered
  obtain ⟨_, hseventh, hcalls⟩ := step_of_write alloc.grants id seventh
    (.sendingCatchup socket (remoteSequence remote) entries) ⟨catchup ++ frames, _, _⟩ rfl rfl rfl hcalls
  obtain ⟨left, heighth, -⟩ := step_of_read id eighth
    (.awaitingCatchup socket (remoteSequence remote) entries) frames rfl hcatchup (fun _ => rfl) rfl
    hcalls
  have hninth (stream : BlockingStream) := step_of_answer alloc.grants id ninth
    (.preparing socket (remoteSequence remote) entries catchupIn) stream rfl (hprepared stream) rfl
  refine ⟨left, ?_⟩
  simp only [List.append_assoc, List.cons_append, List.nil_append, start]
  exact .cons hfirst (.cons hsecond (.cons (hthird _) (.cons hfourth (.cons hfifth (.cons (hsixth _)
    (.cons hseventh (.cons heighth (.cons (hninth _) (.here _)))))))))

/-- What the server reads out of what the client has written. -/
theorem written_read_back (alloc : Allocator) (localSeq : Int) {entries : List Bytes}
    (hid : (ProtoMessage.encode (connectRequest id)).length ≤ maxProtoBytes)
    (hentries : (ProtoMessage.encode ({ buffer := entries } : CatchupBuffer)).length ≤ maxProtoBytes)
    (rest : Bytes) :
    ∃ second third,
      readProto ConnectRequest alloc.grants (written id localSeq entries ++ rest) =
          .ok (connectRequest id, second)
        ∧ readProto SequenceHeader alloc.grants second = .ok (sequenceHeader localSeq, third)
        ∧ readProto CatchupBuffer alloc.grants third = .ok ({ buffer := entries }, rest) := by
  refine ⟨_, _, ?_, SequenceHeader.readProto_writeProto alloc _ _,
    (CatchupBuffer.decodesBack alloc { buffer := entries }).readsBack rest hentries⟩
  simp only [written, List.append_assoc]
  exact ((connectRequest id).decodesBack alloc).readsBack _ hid

end Handshake

open Handshake

/-- **A handshake on its socket.** However the reads and writes are cut and whatever the session thread
does meanwhile: an attempt that gets as far as the new reader has written its request, the position of the
reader and the catch-up of the writer that its third and its sixth step have found, which the server reads
back, and nothing else, and it has read a welcome, a position and a catch-up buffer, and nothing behind
them. -/
theorem handshake_on_socket {alloc : Allocator} {id : String} {socket : TcpStream} {incoming : Bytes}
    {results : List IoResult} {founds : List Found} {attempt : Handshake} {outs : List ReconnectOutput}
    (hrun : (handshakeMachine alloc.grants id).run (start socket incoming results) founds =
      some (attempt, outs)) {remoteSeq : Int} {catchupOut catchupIn : List Bytes}
    (hpc : attempt.pc = .revivingReader socket remoteSeq catchupOut catchupIn) :
    (∃ response sequence catchup, Welcome alloc.grants response
        ∧ Position alloc.grants remoteSeq sequence
        ∧ Carries alloc.grants ({ buffer := catchupIn } : CatchupBuffer) catchup
        ∧ incoming = response ++ sequence ++ catchup ++ attempt.stream.incoming)
      ∧ CatchupFound founds remoteSeq catchupOut
      ∧ ∃ localSeq, PositionFound founds localSeq ∧ attempt.stream.sent = written id localSeq catchupOut
        ∧ ((ProtoMessage.encode (connectRequest id)).length ≤ maxProtoBytes →
          (ProtoMessage.encode ({ buffer := catchupOut } : CatchupBuffer)).length ≤ maxProtoBytes →
          ∃ second third,
            readProto ConnectRequest alloc.grants attempt.stream.sent = .ok (connectRequest id, second)
              ∧ readProto SequenceHeader alloc.grants second = .ok (sequenceHeader localSeq, third)
              ∧ readProto CatchupBuffer alloc.grants third = .ok ({ buffer := catchupOut }, [])) := by
  have hconversing := (handshakeMachine alloc.grants id).run_invariant_actions
    (I := fun attempt founds _ => Conversing alloc.grants id incoming attempt founds) conversing_step
    [] [] (start_conversing alloc.grants id socket incoming results) hrun
  obtain ⟨-, hsaid, hheard⟩ := hconversing
  rw [hpc] at hsaid hheard
  obtain ⟨hentries, localSeq, hposition, hsent⟩ := hsaid
  refine ⟨hheard, hentries, localSeq, hposition, hsent, fun hid hsize => ?_⟩
  have hread := written_read_back alloc localSeq hid hsize []
  rwa [List.append_nil, ← hsent] at hread

/-- A server without a position and without packets, one byte that is not part of the handshake, and a
reader that has received two packets. -/
theorem handshake_on_socket_leaves_a_byte :
    let reader : BackedReader :=
      { BackedReader.new ⟨tagCipher, .start serverClientNonceMsb⟩ ⟨0⟩ with sequenceNumber := 2 }
    let found : Found := ⟨⟨some reader, none, false, false, 2⟩, none⟩
    let incoming := writeProto ({ status := some .returningClient, error := none } : ConnectResponse)
      ++ writeProto ({ sequenceNumber := none } : SequenceHeader)
      ++ writeProto ({ buffer := [] } : CatchupBuffer) ++ [7]
    ∃ attempt outs, (handshakeMachine messageAllocator.grants "").run
        (start ⟨1⟩ incoming (List.replicate 12 (.ok 64))) (List.replicate 9 found) = some (attempt, outs)
      ∧ attempt.stream.incoming = [7] ∧ attempt.stream.sent = written "" 2 [] := by
  intro reader found incoming
  have hran : ((handshakeMachine messageAllocator.grants "").run
      (start ⟨1⟩ incoming (List.replicate 12 (.ok 64))) (List.replicate 9 found)).map
        (fun out => (out.1.pc, out.1.stream.incoming)) =
      some (.revivingReader ⟨1⟩ 0 [] [], [7]) := by
    decide +kernel
  obtain ⟨⟨attempt, outs⟩, hrun, hat⟩ := Option.map_eq_some_iff.mp hran
  obtain ⟨hpc, hrest⟩ := Prod.mk.inj hat
  obtain ⟨-, localSeq, ⟨reading, hreading, rfl⟩, hsent, -⟩ := (handshake_on_socket hrun hpc).2
  obtain rfl : found = reading := Option.some.inj hreading
  exact ⟨attempt, outs, hrun, hrest, hsent⟩

/-- **A handshake completes.** If the server answers in its three messages, each within the limit of 128
MiB, with a position that the writer can recover from, the socket goes on and can be made non-blocking
again, then the attempt gets through: it takes the position and the catch-up of the server and leaves what
follows to the reader, and it writes the position of the reader and the catch-up of the writer that it
found. -/
theorem handshake_completes (alloc : Allocator) {id : String} {socket : TcpStream}
    {resp : ConnectResponse} {remote : SequenceHeader} {catchupIn entries : List Bytes}
    (frames : Bytes) {results : List IoResult} {reading recovering : Found}
    (before between after : List Found)
    (hresponse : (ProtoMessage.encode resp).length ≤ maxProtoBytes)
    (hstatus : resp.status = some .returningClient)
    (hcatchup : (ProtoMessage.encode ({ buffer := catchupIn } : CatchupBuffer)).length ≤ maxProtoBytes)
    (hbefore : before.length = 2) (hbetween : between.length = 2) (hafter : after.length = 3)
    (hentries : catchupOut recovering.shared.writer (remoteSequence remote) = .ok entries)
    (hfault : ∀ found ∈ after, found.fault = none)
    (hresults : Answering ((written id (localSequence reading.shared.reader) entries).length
      + (writeProto resp ++ writeProto remote
        ++ writeProto ({ buffer := catchupIn } : CatchupBuffer)).length) results) :
    ∃ left outs, (handshakeMachine alloc.grants id).run
        (start socket (writeProto resp ++ writeProto remote
          ++ writeProto ({ buffer := catchupIn } : CatchupBuffer) ++ frames) results)
        (before ++ reading :: between ++ recovering :: after) =
      some (⟨.revivingReader socket (remoteSequence remote) entries catchupIn,
        ⟨frames, written id (localSequence reading.shared.reader) entries, left⟩⟩, outs) := by
  have hresponse' : Carries alloc.grants resp (writeProto resp) :=
    ⟨_, hresponse, rfl, resp.decodesBack alloc hresponse⟩
  have hsequence : Carries alloc.grants remote (writeProto remote) :=
    ⟨_, remote.length_encode_le, rfl, remote.decode_encode alloc.grants⟩
  have hcatchup' : Carries alloc.grants ({ buffer := catchupIn } : CatchupBuffer)
      (writeProto ({ buffer := catchupIn } : CatchupBuffer)) :=
    ⟨_, hcatchup, rfl, CatchupBuffer.decodesBack alloc _ hcatchup⟩
  exact reaches_revivingReader hresponse' hstatus hsequence hcatchup' hbefore hbetween hafter hentries
    hfault hresults

/-- A server that has read nothing, and two bytes of a frame. -/
theorem handshake_completes_at_zero :
    ∃ left outs, (handshakeMachine messageAllocator.grants "").run
        (start ⟨1⟩ (writeProto ({ status := some .returningClient, error := none } : ConnectResponse)
          ++ writeProto ({ sequenceNumber := some 0 } : SequenceHeader)
          ++ writeProto ({ buffer := [[7]] } : CatchupBuffer) ++ [0, 0]) (List.replicate 90 (.ok 1)))
        (List.replicate 9 ⟨⟨none, none, false, false, 2⟩, none⟩) =
      some (⟨.revivingReader ⟨1⟩ 0 [] [[7]], ⟨[0, 0], written "" 0 [], left⟩⟩, outs) :=
  handshake_completes messageAllocator [0, 0] (List.replicate 2 _) (List.replicate 2 _)
    (List.replicate 3 _) (by decide +kernel) rfl (by decide +kernel) rfl rfl rfl rfl (by simp)
    ⟨by simp, by decide +kernel⟩

end EternalTerminal
