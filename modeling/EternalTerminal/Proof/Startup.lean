import EternalTerminal.Proof.Handshake
import EternalTerminal.Proof.Precedence
import EternalTerminal.Proof.Seal
import EternalTerminal.Startup

/-!
# How a session begins

The loop of `real_main` leaves the client as `ClientConnection::new` made it, or in the one state from which
every run of a session starts: both directions under the passkey, each from its own first nonce, and behind
the answer of the server not a byte lost. A passkey that is not of 32 bytes never gets there, however often
the server accepts it.
-/

namespace EternalTerminal

theorem CryptoHandler.new_eq_ok {xsalsa20poly1305 : Bytes → Cipher} {key : Bytes} {nonceMsb : UInt8}
    {crypto : CryptoHandler} :
    CryptoHandler.new xsalsa20poly1305 key nonceMsb = .ok crypto ↔
      key.length = keyBytes ∧ crypto = ⟨xsalsa20poly1305 key, .start nonceMsb⟩ := by
  unfold CryptoHandler.new
  split_ifs with hlength
  · simp [hlength]
  · rw [Except.ok.injEq, not_not.mp hlength]
    exact ⟨fun h => ⟨rfl, h.symm⟩, fun h => h.2.symm⟩

/-! ### The addresses -/

/-- The connection is that of the first address that answers. -/
theorem tryAddresses_eq_ok {σ : Type} {lastErr : Option ErrorKind} {s : σ}
    {addrs : List (Except ErrorKind σ)} :
    tryAddresses lastErr addrs = .ok s ↔
      ∃ (refused : List ErrorKind) (rest : _), addrs = refused.map .error ++ .ok s :: rest := by
  induction addrs generalizing lastErr with
  | nil => simp [tryAddresses]
  | cons addr addrs ih =>
      cases addr with
      | ok other =>
          rw [tryAddresses, Except.ok.injEq]
          constructor
          · rintro rfl
            exact ⟨[], addrs, rfl⟩
          · rintro ⟨_ | ⟨e, refused⟩, rest, hsplit⟩
            · exact Except.ok.inj (List.cons.inj hsplit).1
            · cases (List.cons.inj hsplit).1
      | error e =>
          rw [tryAddresses, ih]
          constructor
          · rintro ⟨refused, rest, rfl⟩
            exact ⟨e :: refused, rest, rfl⟩
          · rintro ⟨_ | ⟨e', refused⟩, rest, hsplit⟩
            · cases (List.cons.inj hsplit).1
            · exact ⟨refused, rest, (List.cons.inj hsplit).2⟩

/-- An address of the host answers, and the ones before it do not. -/
def Dial.Answered (dial : Dial) (peer : Peer) : Prop :=
  ∃ (refused : List ErrorKind) (rest : _),
    dial.resolved = .ok (refused.map .error ++ .ok peer :: rest)

theorem tcpConnect_eq_ok {host : String} {port : UInt16} {dial : Dial} {peer : Peer} :
    tcpConnect host port dial.resolved = .ok peer ↔ dial.Answered peer := by
  unfold Dial.Answered
  rcases dial.resolved with e | addrs
  · simp [tcpConnect]
  · simp only [tcpConnect, Except.ok.injEq]
    rw [← tryAddresses_eq_ok]
    rcases tryAddresses none addrs with (_ | e) | other <;> simp

/-! ### The handshake -/

/-- A response that `connect` accepts. -/
def Accepts (memory : Memory) (bytes : Bytes) : Prop :=
  ∃ resp : ConnectResponse, Carries memory resp bytes
    ∧ (resp.status = some .newClient ∨ resp.status = some .returningClient)

theorem acceptedStatus_eq_ok {resp : ConnectResponse} :
    acceptedStatus resp = .ok () ↔
      resp.status = some .newClient ∨ resp.status = some .returningClient := by
  obtain ⟨_ | status, error⟩ := resp
  · simp [acceptedStatus]
  · cases status <;> simp [acceptedStatus]

/-- A handshake that succeeds has written the request and has read the response. -/
theorem greet_ok {alloc : Allocator} {id : String} {stream left : BlockingStream}
    (h : greet alloc.grants id stream = some (.ok left)) :
    left.sent = stream.sent ++ writeProto (connectRequest id)
      ∧ ∃ response, Accepts alloc.grants response ∧ stream.incoming = response ++ left.incoming := by
  unfold greet at h
  cases hwrite : stream.writeProto (connectRequest id) with
  | mk outcome asked =>
      rw [hwrite] at h
      cases outcome with
      | error e => cases h
      | ok =>
          obtain ⟨hincoming, hsent⟩ := BlockingStream.writeProto_ok hwrite
          dsimp only at h
          cases hread : asked.readProto ConnectResponse alloc.grants with
          | mk outcome answered =>
              rw [hread] at h
              rcases outcome with (e | e | _) | resp
              · cases h
              · cases h
              · cases h
              · obtain ⟨hsame, response, hresponse, hcarries⟩ := BlockingStream.readProto_ok hread
                dsimp only at h
                cases hstatus : acceptedStatus resp with
                | error e =>
                    rw [hstatus] at h
                    cases h
                | ok =>
                    rw [hstatus] at h
                    obtain rfl : answered = left := Except.ok.inj (Option.some.inj h)
                    exact ⟨hsame.trans hsent, response,
                      ⟨resp, hcarries, acceptedStatus_eq_ok.mp hstatus⟩, hincoming.symm.trans hresponse⟩

theorem greet_answering {alloc : Allocator} {id : String} {response : Bytes} (rest : Bytes)
    {results : List IoResult} (haccepts : Accepts alloc.grants response)
    (hresults : Answering ((writeProto (connectRequest id)).length + response.length) results) :
    ∃ left, greet alloc.grants id ⟨response ++ rest, [], results⟩ =
      some (.ok ⟨rest, writeProto (connectRequest id), left⟩) := by
  obtain ⟨resp, hcarries, hstatus⟩ := haccepts
  obtain ⟨asked, hwrite, hasked⟩ :=
    BlockingStream.writeProto_answering ⟨response ++ rest, [], results⟩ hresults
  rw [← Nat.add_zero response.length] at hasked
  obtain ⟨left, hread, -⟩ := BlockingStream.readProto_answering
    ⟨response ++ rest, writeProto (connectRequest id), asked⟩ hcarries rfl hasked
  refine ⟨left, ?_⟩
  simp only [greet, hwrite, hread, acceptedStatus_eq_ok.mpr hstatus, List.nil_append]

/-! ### A call of `connect` -/

/-- The handlers of a session under a passkey, of the reader and of the writer. -/
def sessionHandlers (xsalsa20poly1305 : Bytes → Cipher) (key : Bytes) :
    CryptoHandler × CryptoHandler :=
  (⟨xsalsa20poly1305 key, .start serverClientNonceMsb⟩,
    ⟨xsalsa20poly1305 key, .start clientServerNonceMsb⟩)

namespace Client

variable {alloc : Allocator} {xsalsa20poly1305 : Bytes → Cipher} {endpoint : Endpoint}
  {client next : Client} {dial : Dial}

/-- A call that fails leaves the client as it is. -/
theorem connect_error {memory : Memory} {e : Error}
    (h : client.connect memory xsalsa20poly1305 endpoint dial = some (.error e, next)) :
    next = client := by
  unfold connect at h
  repeat' split at h
  all_goals
    first
    | exact (Prod.mk.inj (Option.some.inj h)).2.symm
    | cases h

/-- A call that succeeds. -/
structure Establishes (memory : Memory) (xsalsa20poly1305 : Bytes → Cipher) (endpoint : Endpoint)
    (client : Client) (dial : Dial) (stream : BlockingStream) (next : Client) : Prop where
  key : endpoint.key.length = keyBytes
  client : next = client.establish (sessionHandlers xsalsa20poly1305 endpoint.key).1
    (sessionHandlers xsalsa20poly1305 endpoint.key).2
  sent : stream.sent = writeProto (connectRequest endpoint.id)
  heard : ∃ peer response, dial.Answered peer ∧ Accepts memory response
    ∧ peer.incoming = response ++ stream.incoming

theorem connect_ok {stream : BlockingStream}
    (h : client.connect alloc.grants xsalsa20poly1305 endpoint dial = some (.ok stream, next)) :
    Establishes alloc.grants xsalsa20poly1305 endpoint client dial stream next := by
  unfold connect at h
  cases htcp : tcpConnect endpoint.host endpoint.port dial.resolved with
  | error e =>
      rw [htcp] at h
      cases h
  | ok peer =>
      cases hprepared : dial.prepared with
      | some e =>
          rw [htcp, hprepared] at h
          cases h
      | none =>
          rw [htcp, hprepared] at h
          dsimp only at h
          rcases hgreet : greet alloc.grants endpoint.id peer.stream with _ | e | left <;>
            rw [hgreet] at h
          · cases h
          · cases h
          · cases hnonblocking : dial.nonblocking with
            | some e =>
                rw [hnonblocking] at h
                cases h
            | none =>
                rw [hnonblocking] at h
                dsimp only at h
                by_cases hkey : endpoint.key.length = keyBytes
                · rw [CryptoHandler.new_eq_ok.mpr ⟨hkey, rfl⟩,
                    CryptoHandler.new_eq_ok.mpr ⟨hkey, rfl⟩] at h
                  obtain ⟨hstream, hnext⟩ := Prod.mk.inj (Option.some.inj h)
                  obtain rfl := Except.ok.inj hstream
                  obtain ⟨hsent, response, haccepts, hincoming⟩ := greet_ok hgreet
                  exact ⟨hkey, hnext.symm, hsent,
                    ⟨peer, response, tcpConnect_eq_ok.mp htcp, haccepts, hincoming⟩⟩
                · have hfails (nonceMsb : UInt8) : CryptoHandler.new xsalsa20poly1305 endpoint.key nonceMsb =
                      .error (.invalidKeyLength endpoint.key.length) := by
                    rw [CryptoHandler.new, if_pos hkey]
                  rw [hfails] at h
                  cases h

/-- A server that accepts, with whatever it sends behind its answer. -/
structure Welcomes (memory : Memory) (id : String) (dial : Dial) (rest : Bytes) : Prop where
  prepared : dial.prepared = none
  nonblocking : dial.nonblocking = none
  heard : ∃ peer response, dial.Answered peer ∧ Accepts memory response
    ∧ peer.incoming = response ++ rest
    ∧ Answering ((writeProto (connectRequest id)).length + response.length) peer.results

theorem connect_of_welcomes (xsalsa20poly1305 : Bytes → Cipher) (client : Client) {rest : Bytes}
    (hkey : endpoint.key.length = keyBytes)
    (h : Welcomes alloc.grants endpoint.id dial rest) :
    ∃ left, client.connect alloc.grants xsalsa20poly1305 endpoint dial =
      some (.ok ⟨rest, writeProto (connectRequest endpoint.id), left⟩,
        client.establish (sessionHandlers xsalsa20poly1305 endpoint.key).1
          (sessionHandlers xsalsa20poly1305 endpoint.key).2) := by
  obtain ⟨hprepared, hnonblocking, ⟨incoming, results⟩, response, hanswered, haccepts, rfl, hresults⟩ := h
  obtain ⟨left, hgreet⟩ := greet_answering rest haccepts hresults
  refine ⟨left, ?_⟩
  simp only [connect, tcpConnect_eq_ok.mpr hanswered, hprepared, hnonblocking, Peer.stream, hgreet,
    CryptoHandler.new_eq_ok.mpr ⟨hkey, rfl⟩]
  rfl

end Client

/-! ### The loop -/

namespace Startup

variable {alloc : Allocator} {xsalsa20poly1305 : Bytes → Cipher} {endpoint : Endpoint}

/-- What is left of the loop when it is at a stage, after so many attempts. -/
def Outcome (memory : Memory) (xsalsa20poly1305 : Bytes → Cipher) (endpoint : Endpoint)
    (dials : List Dial) (client : Client) : StartupStage → Prop
  | .trying attempts => client = Client.new ∧ dials.length = attempts ∧ attempts < 3
  | .failed _ => client = Client.new ∧ dials.length = 3
  | .panicked => client = Client.new ∧ dials.length ≤ 3
  | .connected stream => dials.length ≤ 3 ∧ ∃ dial ∈ dials,
    Client.new.Establishes memory xsalsa20poly1305 endpoint dial stream client

theorem start_outcome (memory : Memory) (xsalsa20poly1305 : Bytes → Cipher) (endpoint : Endpoint) :
    Outcome memory xsalsa20poly1305 endpoint [] start.client start.stage :=
  ⟨rfl, rfl, by decide⟩

theorem outcome_step {s next : Startup} {dials : List Dial} {dial : Dial} {out : List Unit}
    (h : Outcome alloc.grants xsalsa20poly1305 endpoint dials s.client s.stage)
    (hstep : startupMachine alloc.grants xsalsa20poly1305 endpoint s dial = some (next, out)) :
    Outcome alloc.grants xsalsa20poly1305 endpoint (dials ++ [dial]) next.client next.stage := by
  obtain ⟨client, stage⟩ := s
  cases stage with
  | trying attempts =>
      obtain ⟨rfl, hattempts, hfew⟩ := h
      have hlength : (dials ++ [dial]).length = attempts + 1 := by
        rw [List.length_append, hattempts, List.length_singleton]
      obtain ⟨rfl, -⟩ := Prod.mk.inj (Option.some.inj hstep)
      rcases hconnect : Client.new.connect alloc.grants xsalsa20poly1305 endpoint dial with
        _ | ⟨e | stream, client⟩
      · simp only [Startup.dial, hconnect]
        exact ⟨rfl, hlength.trans_le hfew⟩
      · obtain rfl := Client.connect_error hconnect
        simp only [Startup.dial, hconnect]
        split_ifs with hthree
        · exact ⟨rfl, hlength.trans (by omega)⟩
        · exact ⟨rfl, hlength, not_le.mp hthree⟩
      · simp only [Startup.dial, hconnect]
        exact ⟨hlength.trans_le hfew, dial, by simp, Client.connect_ok hconnect⟩
  | connected stream => cases hstep
  | failed e => cases hstep
  | panicked => cases hstep

theorem run_outcome {s : Startup} {dials : List Dial} {out : List Unit}
    (hrun : (startupMachine alloc.grants xsalsa20poly1305 endpoint).run start dials = some (s, out)) :
    Outcome alloc.grants xsalsa20poly1305 endpoint dials s.client s.stage :=
  (startupMachine alloc.grants xsalsa20poly1305 endpoint).run_invariant_actions
    (I := fun s done _ => Outcome alloc.grants xsalsa20poly1305 endpoint done s.client s.stage)
    outcome_step [] [] (start_outcome _ _ _) hrun

end Startup

/-! ### The request of a session with keys from the server -/

theorem length_toUTF8 (text : String) : text.toUTF8.data.toList.length = text.utf8ByteSize := by
  rw [Array.length_toList]
  rfl

theorem length_request_le {id : String} (h : id.utf8ByteSize ≤ 48) :
    (ProtoMessage.encode (connectRequest id)).length ≤ maxProtoBytes := by
  have hbytes := length_toUTF8 id
  have hidTag := length_writeVarint_le (((1 : UInt32).toUInt64 <<< 3) ||| (2 : UInt32).toUInt64)
  have hidLength := length_writeVarint_le (UInt64.ofNat id.toUTF8.data.toList.length)
  have hversionTag := length_writeVarint_le (((2 : UInt32).toUInt64 <<< 3) ||| (0 : UInt32).toUInt64)
  have hversion := length_writeVarint_le protocolVersion.toInt64.toUInt64
  have hmax : 100 ≤ maxProtoBytes := by norm_num [maxProtoBytes]
  change (ConnectRequest.encode (connectRequest id)).length ≤ maxProtoBytes
  simp only [ConnectRequest.encode, connectRequest, writeOption, writeString, writeBytes, writeInt32,
    writeTag, List.length_append]
  omega

theorem ReadFrom.id_size {output : String} {keys : SessionKeys} (h : ReadFrom output keys) :
    keys.id.utf8ByteSize ≤ 48 := by
  obtain ⟨noise, passkey, hwindow, -⟩ := h
  have hsize := hwindow.size
  have hsep : "/".utf8ByteSize = 1 := by decide
  rw [String.utf8ByteSize_append, String.utf8ByteSize_append, hsep] at hsize
  omega

theorem ReadFrom.length_passkey {output : String} {keys : SessionKeys} (h : ReadFrom output keys) :
    keys.passkey.toUTF8.data.toList.length = keys.passkey.length := by
  obtain ⟨noise, passkey, -, -, hclean⟩ := h
  rw [length_toUTF8]
  refine utf8ByteSize_of_ascii fun c hc => isAscii_of_isAlphanum ?_
  rw [hclean, cleanPasskey, String.toList_ofList] at hc
  exact (List.mem_filter.mp (List.mem_of_mem_take hc)).2

/-- The connection that the loop was left with. -/
def StartupStage.stream? : StartupStage → Option BlockingStream
  | .connected stream => some stream
  | _ => none

/-- The state from which the runs of a session start. -/
def Launch.connected (launch : Launch) (xsalsa20poly1305 : Bytes → Cipher) : Client :=
  Client.connected (sessionHandlers xsalsa20poly1305 launch.endpoint.key).1
    (sessionHandlers xsalsa20poly1305 launch.endpoint.key).2

/-- **How a session begins.** With keys that `ssh` has brought the server can read the request. The loop
makes three attempts at most. If it is left with a connection, the passkey has 32 characters, the client is
in the state from which a session starts, the request has been written, and what the server has sent behind
its answer is still there; in any other case the client is as it was made. And with a passkey of 32
characters the next attempt that a server welcomes ends the loop so. -/
theorem session_begins {env : String → Option String} {ping : String → UInt16 → Bool}
    {idDraw passkeyDraw : Nat → Fin alphanum.length} {spawn : List String → Except String SshChild}
    {cli : Cli} {launch : Launch}
    (hmain : realMain env ping idDraw passkeyDraw spawn cli = .ok launch)
    {alloc : Allocator} {xsalsa20poly1305 : Bytes → Cipher} {dials : List Dial} {s : Startup}
    {out : List Unit}
    (hrun : (startupMachine alloc.grants xsalsa20poly1305 launch.endpoint).run Startup.start dials =
      some (s, out)) :
    (∀ rest, readProto ConnectRequest alloc.grants (writeProto (connectRequest launch.keys.id) ++ rest) =
        .ok (connectRequest launch.keys.id, rest))
      ∧ dials.length ≤ 3
      ∧ (∀ stream, s.stage.stream? = some stream →
        launch.keys.passkey.length = 32 ∧ s.client = launch.connected xsalsa20poly1305
          ∧ stream.sent = writeProto (connectRequest launch.keys.id)
          ∧ ∃ dial ∈ dials, ∃ peer response, dial.Answered peer ∧ Accepts alloc.grants response
            ∧ peer.incoming = response ++ stream.incoming)
      ∧ (s.stage.stream? = none → s.client = Client.new)
      ∧ ∀ attempts, s.stage = .trying attempts → attempts = dials.length ∧ attempts < 3
        ∧ (launch.keys.passkey.length = 32 → ∀ dial rest,
          Client.Welcomes alloc.grants launch.keys.id dial rest →
          ∃ left, startupMachine alloc.grants xsalsa20poly1305 launch.endpoint s dial =
            some (⟨launch.connected xsalsa20poly1305,
              .connected ⟨rest, writeProto (connectRequest launch.keys.id), left⟩⟩, [])) := by
  obtain ⟨-, -, -, -, -, -, output, -, hread⟩ := realMain_eq_ok hmain
  have hkey : launch.endpoint.key.length = launch.keys.passkey.length := hread.length_passkey
  have houtcome := Startup.run_outcome hrun
  refine ⟨fun rest => ((connectRequest launch.keys.id).decodesBack alloc).readsBack rest
    (length_request_le hread.id_size), ?_, ?_, ?_, ?_⟩
  · cases hstage : s.stage <;> rw [hstage] at houtcome
    · exact houtcome.2.1.trans_le houtcome.2.2.le
    · exact houtcome.1
    · exact houtcome.2.le
    · exact houtcome.2
  · intro stream hstream
    cases hstage : s.stage <;> rw [hstage] at hstream houtcome <;> cases hstream
    obtain ⟨-, dial, hmem, hestablishes⟩ := houtcome
    exact ⟨hkey.symm.trans hestablishes.key, hestablishes.client, hestablishes.sent, dial, hmem,
      hestablishes.heard⟩
  · intro hnone
    cases hstage : s.stage <;> rw [hstage] at hnone houtcome
    · exact houtcome.1
    · cases hnone
    · exact houtcome.1
    · exact houtcome.1
  · intro attempts hstage
    rw [hstage] at houtcome
    obtain ⟨hclient, hlength, hfew⟩ := houtcome
    refine ⟨hlength.symm, hfew, fun hpasskey dial rest hwelcomes => ?_⟩
    obtain ⟨left, hconnect⟩ := Client.connect_of_welcomes xsalsa20poly1305 Client.new
      (hkey.trans hpasskey) hwelcomes
    refine ⟨left, ?_⟩
    simp only [startupMachine, hstage, Startup.dial, hclient, hconnect]
    rfl

theorem eq_ok_of_map_eq_ok {ε α β : Type} {f : α → β} {result : Except ε α} {b : β}
    (h : result.map f = .ok b) : ∃ a, result = .ok a ∧ f a = b := by
  cases result with
  | error e => cases h
  | ok a => exact ⟨a, rfl, Except.ok.inj h⟩

/-- The server is there when it is asked before `ssh`. The first attempt finds no address, and the second one
an address that refuses and one that accepts, with a byte behind the answer. -/
theorem session_begins_at_second_attempt :
    let keys : SessionKeys := ⟨"0123456789abcdef", "0123456789abcdef0123456789abcdef"⟩
    let spawn : List String → Except String SshChild :=
      fun _ => .ok ⟨.ok ("IDPASSKEY:" ++ keys.id ++ "/" ++ keys.passkey), .ok ⟨true, ""⟩⟩
    let ping : String → UInt16 → Bool := fun host port => pingServer host port (.ok [.ok ()])
    let response : Bytes :=
      writeProto ({ status := some .newClient, error := none } : ConnectResponse)
    let dials : List Dial := [{ resolved := .ok [] },
      { resolved := .ok [.error .other, .ok ⟨response ++ [7], List.replicate 8 (.ok 64)⟩] }]
    ∃ launch s out, realMain (fun _ => none) ping (fun _ => ⟨0, by decide⟩)
        (fun _ => ⟨0, by decide⟩) spawn { host := "alice@host" } = .ok launch
      ∧ (startupMachine messageAllocator.grants (fun _ => tagCipher) launch.endpoint).run Startup.start
        dials = some (s, out)
      ∧ s.client = launch.connected fun _ => tagCipher := by
  intro keys spawn ping response dials
  have hmain : (realMain (fun _ => none) ping (fun _ => ⟨0, by decide⟩)
      (fun _ => ⟨0, by decide⟩) spawn { host := "alice@host" }).map
        (fun launch => (launch.host, launch.port, launch.keys)) = .ok ("host", 2022, keys) := by
    decide +kernel
  obtain ⟨launch, hlaunch, hargs⟩ := eq_ok_of_map_eq_ok hmain
  obtain ⟨hhost, hrest⟩ := Prod.mk.inj hargs
  obtain ⟨hport, hkeys⟩ := Prod.mk.inj hrest
  have hendpoint : launch.endpoint = .new "host" 2022 keys.id keys.passkey := by
    rw [Launch.endpoint, hhost, hport, hkeys]
  have hran : ((startupMachine messageAllocator.grants (fun _ => tagCipher)
      (.new "host" 2022 keys.id keys.passkey)).run Startup.start dials).map
        (fun out => out.1.stage.stream?.map BlockingStream.incoming) = some (some [7]) := by
    decide +kernel
  obtain ⟨⟨s, out⟩, hrun, hstage⟩ := Option.map_eq_some_iff.mp hran
  obtain ⟨stream, hstream, -⟩ := Option.map_eq_some_iff.mp hstage
  rw [← hendpoint] at hrun
  exact ⟨launch, s, out, hlaunch, hrun, ((session_begins hlaunch hrun).2.2.1 stream hstream).2.1⟩

end EternalTerminal
