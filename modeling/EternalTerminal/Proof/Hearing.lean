import EternalTerminal.Proof.Connections
import EternalTerminal.Proof.Display
import EternalTerminal.Proof.Link
import EternalTerminal.Proof.Position
import EternalTerminal.Session.ServedSession

/-!
# What the session hears of its server

Between the position that a reconnect thread sends and the revival of the reader, the server's writer has
gone over to the new connection and the reader has not. Meanwhile the session thread may read entries off
the queue and the server may write. What carries the proof through is that the reader would be linked to
the server if it were revived with the catch-up that is under way, and that it stays so.
-/

namespace EternalTerminal

/-! ### A thread and the catch-up that it asks for -/

namespace ReconnectPc

/-- The position it is about to send. -/
def position? : ReconnectPc → Option Int
  | .sendingSequence _ localSeq => some localSeq
  | _ => none

/-- The catch-up it has got from the server. -/
def catchupIn? : ReconnectPc → Option (List Bytes)
  | .preparing _ _ _ catchupIn => some catchupIn
  | .revivingReader _ _ _ catchupIn => some catchupIn
  | _ => none

/-- It has a part in the exchange of a position for a catch-up. -/
def Exchanging (pc : ReconnectPc) : Prop := pc.position? ≠ none ∨ pc.catchupIn? ≠ none

theorem Exchanging.trying {pc : ReconnectPc} (h : pc.Exchanging) : pc.Trying := by
  cases pc <;> first | exact absurd rfl (h.resolve_left (· rfl)) | exact ⟨by simp, by simp, id⟩

theorem Exchanging.socket {pc : ReconnectPc} (h : pc.Exchanging) : ∃ socket, pc.socket? = some socket := by
  cases pc <;> first | exact absurd rfl (h.resolve_left (· rfl)) | exact ⟨_, rfl⟩

end ReconnectPc

/-- What a step of a thread does to the reader and to the exchange with the server. -/
inductive Inbound (shared : Shared) (exchange : Exchange) (pc : ReconnectPc) :
    ReconnectOutput → Exchange → Prop
  | keeps {out} : out.shared.reader = shared.reader → out.pc.catchupIn? = none →
      (∀ n, out.pc.position? = some n → n = localSequence shared.reader) →
      Inbound shared exchange pc out exchange
  | tells {out n} : pc.position? = some n → out.shared.reader = shared.reader →
      out.pc.catchupIn? = none → out.pc.position? = none →
      Inbound shared exchange pc out (.asked (remoteSequence (sequenceHeader n)))
  | takes {out catchup} : exchange = .answered catchup → out.shared.reader = shared.reader →
      out.pc.catchupIn? = some catchup → out.pc.position? = none → Inbound shared exchange pc out .idle
  | holds {out catchup} : pc.catchupIn? = some catchup → out.shared.reader = shared.reader →
      out.pc.catchupIn? = some catchup → out.pc.position? = none →
      Inbound shared exchange pc out exchange
  | revives {out catchup} (socket : TcpStream) : pc.catchupIn? = some catchup →
      out.shared.reader = shared.reader.map (fun reader => reader.revive socket catchup) →
      out.pc.catchupIn? = none → out.pc.position? = none → Inbound shared exchange pc out exchange

theorem Inbound.of_none {shared : Shared} {exchange : Exchange} {pc : ReconnectPc}
    {out : ReconnectOutput} (hreader : out.shared.reader = shared.reader)
    (hcatchup : out.pc.catchupIn? = none) (hposition : out.pc.position? = none) :
    Inbound shared exchange pc out exchange :=
  .keeps hreader hcatchup fun n hn => (by rw [hposition] at hn; cases hn)

theorem inbound_spec {shared : Shared} {exchange after : Exchange} {pc : ReconnectPc}
    {answer : Answer} {out : ReconnectOutput} (hstep : reconnectStep shared pc answer = some out)
    (hexchange : ServedSession.exchanges exchange pc answer = some after) :
    Inbound shared exchange pc out after := by
  cases pc with
  | sendingSequence socket localSeq =>
      cases answer <;> simp only [reconnectStep, Option.some.injEq, reduceCtorEq] at hstep <;>
        obtain rfl := hstep <;> obtain rfl := Option.some.inj hexchange
      · exact .of_none rfl rfl rfl
      · exact .tells rfl rfl rfl rfl
  | awaitingCatchup socket remoteSeq entries =>
      cases answer <;> simp only [reconnectStep, Option.some.injEq, reduceCtorEq] at hstep <;>
        obtain rfl := hstep
      · obtain rfl := Option.some.inj hexchange
        exact .of_none rfl rfl rfl
      · simp only [ServedSession.exchanges] at hexchange
        split at hexchange
        · split_ifs at hexchange with hcatchup
          obtain rfl := Option.some.inj hexchange
          exact .takes rfl rfl (congrArg some hcatchup) rfl
        · cases hexchange
  | preparing socket remoteSeq entries catchupIn =>
      cases answer <;> simp only [reconnectStep, Option.some.injEq, reduceCtorEq] at hstep <;>
        obtain rfl := hstep <;> obtain rfl := Option.some.inj hexchange
      · exact .of_none rfl rfl rfl
      · exact .holds rfl rfl rfl rfl
  | revivingReader socket remoteSeq entries catchupIn =>
      cases answer <;> simp only [reconnectStep, Option.some.injEq, reduceCtorEq] at hstep
      obtain rfl := hstep
      obtain rfl := Option.some.inj hexchange
      exact .revives socket rfl rfl rfl rfl
  | readingSequence socket =>
      cases answer <;> simp only [reconnectStep, Option.some.injEq, reduceCtorEq] at hstep
      obtain rfl := hstep
      obtain rfl := Option.some.inj hexchange
      exact .keeps rfl rfl fun n hn => (Option.some.inj hn).symm
  | loopHead =>
      cases answer <;> simp only [reconnectStep, Option.some.injEq, reduceCtorEq] at hstep
      obtain rfl := hstep
      obtain rfl := Option.some.inj hexchange
      refine .of_none rfl ?_ ?_ <;> split_ifs <;> rfl
  | checkShutdown =>
      cases answer <;> simp only [reconnectStep, Option.some.injEq, reduceCtorEq] at hstep
      obtain rfl := hstep
      obtain rfl := Option.some.inj hexchange
      refine .of_none rfl ?_ ?_ <;> split_ifs <;> rfl
  | awaitingResponse socket =>
      cases answer <;> simp only [reconnectStep, Option.some.injEq, reduceCtorEq] at hstep <;>
        obtain rfl := Option.some.inj hexchange
      · exact hstep ▸ .of_none rfl rfl rfl
      · split at hstep <;> obtain rfl := Option.some.inj hstep <;> exact .of_none rfl rfl rfl
  | recovering socket remoteSeq =>
      cases answer <;> simp only [reconnectStep, reduceCtorEq] at hstep
      obtain rfl := Option.some.inj hexchange
      split at hstep <;> obtain rfl := Option.some.inj hstep <;> exact .of_none rfl rfl rfl
  | _ =>
      cases answer <;> simp only [reconnectStep, Option.some.injEq, reduceCtorEq] at hstep <;>
        obtain rfl := hstep <;> obtain rfl := Option.some.inj hexchange <;> exact .of_none rfl rfl rfl

/-- Only one thread is at work, so a thread that has not ended is the one that stepped. -/
theorem Client.eq_of_stepped {client : Client} (hconsistent : client.Consistent) {index i : Nat}
    {pc pc' : ReconnectPc} {out : ReconnectOutput} (hpc : client.threads[index]? = some pc)
    (hrunning : pc ≠ .finished) (hafter : (client.stepped index out).threads[i]? = some pc')
    (hrunning' : pc' ≠ .finished) : pc' = out.pc := by
  obtain ⟨handle, howned⟩ := hconsistent.owned
  have hlt : index < client.threads.length := (List.getElem?_eq_some_iff.mp hpc).1
  by_cases hsame : index = i
  · subst hsame
    rw [Client.stepped, List.getElem?_set_self hlt] at hafter
    exact (Option.some.inj hafter).symm
  · rw [Client.stepped, List.getElem?_set_ne hsame] at hafter
    have hfirst := howned.only index ⟨pc, hpc, hrunning⟩
    have hsecond := howned.only i ⟨pc', hafter, hrunning'⟩
    exact absurd (Option.some.inj (hfirst.symm.trans hsecond)) hsame

/-! ### The reader and the server -/

theorem BackedReader.Reads.of_cut {reader : BackedReader} {incoming : Bytes} {results : List IoResult}
    {out : ReadOutput} (h : reader.Reads incoming results out) (hcut : reader.socket = none) :
    out.reader.socket = none ∧ out.incoming = incoming
      ∧ out.reader.sequenceNumber = reader.sequenceNumber := by
  cases h with
  | queued hqueue =>
      refine ⟨?_, rfl, reader.readQueued_sequenceNumber _ _⟩
      simp only [BackedReader.readQueued]
      split <;> exact hcut
  | idle hqueue hsocket => exact ⟨hcut, rfl, rfl⟩
  | stopped hqueue hsocket hcompleted hresult hbuffer hframe => cases hcut.symm.trans hsocket
  | framed hqueue hsocket hcompleted hbuffer hholds hexact hserialized =>
      cases hcut.symm.trans hsocket

namespace Linked

variable {cipher : Cipher} {start : Nonce} {link : Link} {log : List Accepted}
  {delivered : List Packet}

theorem replug (h : Linked cipher start link log delivered) (hcut : link.reader.socket = none)
    (socket : TcpStream) (inFlight incoming : Bytes) :
    Linked cipher start ⟨link.writer.revive socket, link.reader, inFlight, incoming⟩ log delivered :=
  ⟨h.logs.revive socket, h.cipher_eq, h.nonce_eq, h.delivered_eq, h.queue_eq, h.sequence_eq,
    h.sequence_le, fun hlive => absurd hcut hlive⟩

theorem read_queued_revived (hlawful : cipher.Lawful) {serialized : Bytes} {rest catchup : List Bytes}
    {socket : TcpStream} (hqueue : link.reader.localBuffer = serialized :: rest)
    (h : Linked cipher start { link with reader := link.reader.revive socket catchup } log delivered) :
    Linked cipher start
      { link with reader := (link.reader.readQueued serialized rest).2.revive socket catchup } log
      (delivered ++ linkDelivered (linkReadEvents (link.reader.readQueued serialized rest).1)) := by
  have hrevived : (link.reader.revive socket catchup).localBuffer = serialized :: (rest ++ catchup) := by
    simp [BackedReader.revive, hqueue]
  obtain ⟨packet, hresult, hlinked⟩ := h.read_queued hlawful hrevived
  have hread : (link.reader.revive socket catchup).readQueued serialized (rest ++ catchup) =
      ((link.reader.readQueued serialized rest).1,
        (link.reader.readQueued serialized rest).2.revive socket catchup) := by
    simp only [BackedReader.readQueued, BackedReader.revive]
    split <;> rfl
  simp only [hread] at hresult hlinked
  rw [hresult]
  exact hlinked

/-- What a reader without a socket reads, it would read the same if it were revived. -/
theorem read_revived (link : Link) (hlawful : cipher.Lawful) {results : List IoResult}
    {out : ReadOutput} (hcut : link.reader.socket = none)
    (hread : link.reader.Reads link.incoming results out) {socket : TcpStream} {catchup : List Bytes}
    (h : Linked cipher start { link with reader := link.reader.revive socket catchup } log delivered) :
    Linked cipher start { link with reader := out.reader.revive socket catchup } log
      (delivered ++ linkDelivered (linkReadEvents out.result)) := by
  cases hread with
  | queued hqueue => exact read_queued_revived hlawful hqueue h
  | idle hqueue hsocket => simpa [linkReadEvents, linkDelivered] using h
  | stopped hqueue hsocket hcompleted hresult hbuffer hframe => cases hcut.symm.trans hsocket
  | framed hqueue hsocket hcompleted hbuffer hholds hexact hserialized =>
      cases hcut.symm.trans hsocket

/-- With nothing on its way and nothing queued, the reader has returned the whole log. -/
theorem caught_up (h : Linked cipher start link log delivered) (hshort : Short log)
    (hwriter : link.writer.socket ≠ none) (hreader : link.reader.socket ≠ none)
    (hinFlight : link.inFlight = []) (hincoming : link.incoming = [])
    (hqueue : link.reader.localBuffer = []) : delivered.length = log.length := by
  obtain ⟨hframe, lost, hstream, hlost⟩ := h.stream hreader
  rw [hinFlight, hincoming, hlost hwriter, hqueue, List.append_nil, List.append_nil, List.append_nil,
    List.length_nil, Nat.add_zero] at hstream
  have hrest : log.drop delivered.length = [] :=
    eq_nil_of_not_holdsFrame (fun entry hmem => hshort entry (List.mem_of_mem_drop hmem))
      (hstream ▸ hframe)
  have hle := h.sequence_le
  have hlong := List.drop_eq_nil_iff.mp hrest
  omega

end Linked

namespace ServedSession

/-- The server, the network and this reader. -/
def link (s : ServedSession) (reader : BackedReader) : Link := ⟨s.server, reader, s.inFlight, s.incoming⟩

/-- A catch-up is under way: the server has sent it, or a thread has it. -/
def Offers (s : ServedSession) (catchup : List Bytes) : Prop :=
  s.exchange = .answered catchup
    ∨ ∃ (i : Nat) (pc : ReconnectPc), s.session.client.threads[i]? = some pc
      ∧ pc.catchupIn? = some catchup

/-- The reader is linked to the server, and would be if it were revived with what is under way. -/
structure Hears (cipher : Cipher) (start : Nonce) (s : ServedSession) (reader : BackedReader)
    (log : List Accepted) (delivered : List Packet) : Prop where
  reader_eq : s.session.client.shared.reader = some reader
  linked : Linked cipher start (s.link reader) log delivered
  position : ∀ (i : Nat) (pc : ReconnectPc) (n : Int), s.session.client.threads[i]? = some pc →
    pc.position? = some n → n = reader.sequenceNumber
  asked : ∀ remoteSeq, s.exchange = .asked remoteSeq →
    reader.socket = none ∧ remoteSeq = remoteSequence (sequenceHeader reader.sequenceNumber)
  offered : ∀ catchup, s.Offers catchup → reader.socket = none
    ∧ ∀ socket, Linked cipher start (s.link (reader.revive socket catchup)) log delivered
  settled : ∀ (i : Nat) (pc : ReconnectPc), s.session.client.threads[i]? = some pc →
    pc.catchupIn? ≠ none → s.exchange = .idle

theorem start_hears (opts : ClientOptions) (readerCrypto writerCrypto : CryptoHandler) :
    Hears readerCrypto.cipher readerCrypto.nonce (start opts readerCrypto writerCrypto)
      (BackedReader.new readerCrypto ⟨0⟩) [] [] where
  reader_eq := rfl
  linked := .new readerCrypto ⟨0⟩
  position := fun i pc n hpc => (by cases hpc)
  asked := fun remoteSeq hasked => (by cases hasked)
  offered := by
    rintro catchup (hanswered | ⟨i, pc, hpc, -⟩)
    · cases hanswered
    · cases hpc
  settled := fun i pc hpc => (by cases hpc)

variable {cipher : Cipher} {start : Nonce} {s next : ServedSession} {reader : BackedReader}
  {log : List Accepted} {delivered : List Packet}

theorem Hears.of_link {after : List Accepted} (h : Hears cipher start s reader log delivered)
    (hsession : next.session = s.session) (hexchange : next.exchange = s.exchange)
    (hlink : ∀ reader, Linked cipher start (s.link reader) log delivered →
      Linked cipher start (next.link reader) after delivered) :
    Hears cipher start next reader after delivered := by
  refine ⟨hsession ▸ h.reader_eq, hlink _ h.linked, hsession ▸ h.position, hexchange ▸ h.asked, ?_, ?_⟩
  · intro catchup hoffers
    have hbefore : s.Offers catchup := by
      unfold Offers at hoffers ⊢
      rwa [← hsession, ← hexchange]
    obtain ⟨hcut, hlinked⟩ := h.offered catchup hbefore
    exact ⟨hcut, fun socket => hlink _ (hlinked socket)⟩
  · rw [hsession, hexchange]
    exact h.settled

/-- The server answers the position that the reader has, and its catch-up is what the reader lacks. -/
theorem Hears.recovers (h : Hears cipher start s reader log delivered) (hcount : log.length < 2 ^ 31)
    {remoteSeq : Int} {catchup : List Bytes} (hasked : s.exchange = .asked remoteSeq)
    (hrecover : s.server.recover remoteSeq = .ok catchup) (socket : TcpStream) :
    Hears cipher start
      { s with
        server := s.server.revive socket
        inFlight := []
        incoming := []
        exchange := .answered catchup } reader log delivered := by
  obtain ⟨hcut, hposition⟩ := h.asked remoteSeq hasked
  have hidle : ∀ (i : Nat) (pc : ReconnectPc), s.session.client.threads[i]? = some pc →
      pc.catchupIn? = none := by
    intro i pc hpc
    by_contra hheld
    have hsettled := h.settled i pc hpc hheld
    rw [hasked] at hsettled
    cases hsettled
  have hsequence : remoteSeq = reader.sequenceNumber := by
    have heq : reader.sequenceNumber = (delivered.length + reader.localBuffer.length : Nat) :=
      h.linked.sequence_eq
    have hle : delivered.length + reader.localBuffer.length ≤ log.length := h.linked.sequence_le
    rw [hposition]
    exact (remoteSequence_sequenceHeader (by omega)).mpr (by omega)
  rw [hsequence] at hrecover
  refine ⟨h.reader_eq, h.linked.replug hcut socket [] [], h.position, fun remoteSeq hnot => ?_, ?_, ?_⟩
  · cases hnot
  · rintro given (hanswered | ⟨i, pc, hpc, hheld⟩)
    · obtain rfl := Exchange.answered.inj hanswered
      refine ⟨hcut, fun other => ?_⟩
      have hrecovered := h.linked.recover hrecover socket
      exact ⟨hrecovered.logs, hrecovered.cipher_eq, hrecovered.nonce_eq, hrecovered.delivered_eq,
        hrecovered.queue_eq, hrecovered.sequence_eq, hrecovered.sequence_le,
        fun _ => hrecovered.stream (by simp [BackedReader.revive])⟩
    · rw [hidle i pc hpc] at hheld
      cases hheld
  · intro i pc hpc hheld
    exact absurd (hidle i pc hpc) hheld

theorem Hears.thread (h : Hears cipher start s reader log delivered)
    (hconsistent : s.session.client.Consistent) (hsevered : s.session.client.Severed) {index : Nat}
    {pc : ReconnectPc} {out : ReconnectOutput} {exchange : Exchange}
    (hpc : s.session.client.threads[index]? = some pc) (hrunning : pc ≠ .finished)
    (hinbound : Inbound s.session.client.shared s.exchange pc out exchange) :
    ∃ after, Hears cipher start
      { s with
        session := { s.session with client := s.session.client.stepped index out }
        exchange } after log delivered := by
  have honly {i : Nat} {pc' : ReconnectPc}
      (hpc' : (s.session.client.stepped index out).threads[i]? = some pc')
      (hexchanging : pc'.Exchanging) : pc' = out.pc :=
    Client.eq_of_stepped hconsistent hpc hrunning hpc' hexchanging.trying.1
  -- A thread that is trying finds the reader cut.
  have hcut (hexchanging : pc.Exchanging) : reader.socket = none := by
    have hsocket := hsevered.trying index pc hpc hexchanging.trying
    simpa [Shared.readerSocket, h.reader_eq] using hsocket
  have hnothing (hnone : out.pc.catchupIn? = none) {i : Nat} {pc' : ReconnectPc}
      (hpc' : (s.session.client.stepped index out).threads[i]? = some pc') : pc'.catchupIn? = none := by
    by_contra hheld
    exact hheld (honly hpc' (.inr hheld) ▸ hnone)
  cases hinbound with
  | keeps hreader hnone hposition =>
      refine ⟨reader, hreader.trans h.reader_eq, h.linked, ?_, h.asked, ?_, ?_⟩
      · intro i pc' n hpc' hn
        have heq := hposition n (honly hpc' (.inl (by simp [hn])) ▸ hn)
        rwa [h.reader_eq] at heq
      · rintro catchup (hanswered | ⟨i, pc', hpc', hheld⟩)
        · exact h.offered catchup (.inl hanswered)
        · rw [hnothing hnone hpc'] at hheld
          cases hheld
      · exact fun i pc' hpc' hheld => absurd (hnothing hnone hpc') hheld
  | @tells n hn hreader hnone hquiet =>
      refine ⟨reader, hreader.trans h.reader_eq, h.linked, ?_, ?_, ?_, ?_⟩
      · intro i pc' n' hpc' hn'
        rw [honly hpc' (.inl (by simp [hn'])), hquiet] at hn'
        cases hn'
      · intro remoteSeq hasked
        obtain rfl := Exchange.asked.inj hasked
        exact ⟨hcut (.inl (by simp [hn])), by rw [h.position index pc n hpc hn]⟩
      · rintro catchup (hanswered | ⟨i, pc', hpc', hheld⟩)
        · cases hanswered
        · rw [hnothing hnone hpc'] at hheld
          cases hheld
      · exact fun i pc' hpc' hheld => absurd (hnothing hnone hpc') hheld
  | @takes catchup hanswered hreader hheld hquiet =>
      refine ⟨reader, hreader.trans h.reader_eq, h.linked, ?_, fun remoteSeq hnot => ?_, ?_,
        fun _ _ _ _ => rfl⟩
      · intro i pc' n hpc' hn
        rw [honly hpc' (.inl (by simp [hn])), hquiet] at hn
        cases hn
      · cases hnot
      · rintro given (hnot | ⟨i, pc', hpc', hgiven⟩)
        · cases hnot
        · rw [honly hpc' (.inr (by simp [hgiven])), hheld] at hgiven
          obtain rfl := Option.some.inj hgiven
          exact h.offered catchup (.inl hanswered)
  | @holds catchup hbefore hreader hheld hquiet =>
      have hidle := h.settled index pc hpc (by simp [hbefore])
      refine ⟨reader, hreader.trans h.reader_eq, h.linked, ?_, h.asked, ?_, fun _ _ _ _ => hidle⟩
      · intro i pc' n hpc' hn
        rw [honly hpc' (.inl (by simp [hn])), hquiet] at hn
        cases hn
      · rintro given (hanswered | ⟨i, pc', hpc', hgiven⟩)
        · exact h.offered given (.inl hanswered)
        · rw [honly hpc' (.inr (by simp [hgiven])), hheld] at hgiven
          obtain rfl := Option.some.inj hgiven
          exact h.offered catchup (.inr ⟨index, pc, hpc, hbefore⟩)
  | @revives catchup socket hbefore hreader hnone hquiet =>
      have hidle := h.settled index pc hpc (by simp [hbefore])
      have hlinked := (h.offered catchup (.inr ⟨index, pc, hpc, hbefore⟩)).2 socket
      refine ⟨reader.revive socket catchup, ?_, hlinked, ?_, fun remoteSeq hasked => ?_, ?_, ?_⟩
      · rw [h.reader_eq] at hreader
        exact hreader
      · intro i pc' n hpc' hn
        rw [honly hpc' (.inl (by simp [hn])), hquiet] at hn
        cases hn
      · cases hidle.symm.trans hasked
      · rintro given (hanswered | ⟨i, pc', hpc', hheld⟩)
        · cases hidle.symm.trans hanswered
        · rw [hnothing hnone hpc'] at hheld
          cases hheld
      · exact fun i pc' hpc' hheld => absurd (hnothing hnone hpc') hheld

/-! ### The session thread -/

/-- A step of the session thread that may read. While the reader is cut, what is under way stays good. -/
theorem Hears.reread {session : LiveSession} {incoming : Bytes} {after : BackedReader}
    {returned : List Packet} (h : Hears cipher start s reader log delivered)
    (hsevered : s.session.client.Severed) (hreader : session.client.shared.reader = some after)
    (hthreads : ∀ (i : Nat) (pc : ReconnectPc), session.client.threads[i]? = some pc →
      pc.Exchanging → s.session.client.threads[i]? = some pc)
    (hlinked : Linked cipher start ⟨s.server, after, s.inFlight, incoming⟩ log returned)
    (hcut : reader.socket = none → after.socket = none ∧ incoming = s.incoming
      ∧ after.sequenceNumber = reader.sequenceNumber
      ∧ ∀ socket catchup, Linked cipher start (s.link (reader.revive socket catchup)) log delivered →
        Linked cipher start (s.link (after.revive socket catchup)) log returned) :
    Hears cipher start { s with session, incoming } after log returned := by
  refine ⟨hreader, hlinked, ?_, ?_, ?_, ?_⟩
  · intro i pc n hpc hn
    have hbefore := hthreads i pc hpc (.inl (by simp [hn]))
    have hsocket := hsevered.trying i pc hbefore (ReconnectPc.Exchanging.trying (.inl (by simp [hn])))
    rw [Shared.readerSocket, h.reader_eq] at hsocket
    rw [(hcut hsocket).2.2.1]
    exact h.position i pc n hbefore hn
  · intro remoteSeq hasked
    obtain ⟨hsocket, hposition⟩ := h.asked remoteSeq hasked
    obtain ⟨hafter, -, hsequence, -⟩ := hcut hsocket
    exact ⟨hafter, hsequence ▸ hposition⟩
  · intro catchup hoffers
    have hbefore : s.Offers catchup := by
      obtain hanswered | ⟨i, pc, hpc, hheld⟩ := hoffers
      · exact .inl hanswered
      · exact .inr ⟨i, pc, hthreads i pc hpc (.inr (by simp [hheld])), hheld⟩
    obtain ⟨hsocket, hoffered⟩ := h.offered catchup hbefore
    obtain ⟨hafter, rfl, -, hrevived⟩ := hcut hsocket
    exact ⟨hafter, fun socket => hrevived socket catchup (hoffered socket)⟩
  · intro i pc hpc hheld
    exact h.settled i pc (hthreads i pc hpc (.inr hheld)) hheld

theorem Hears.keep {session : LiveSession} (h : Hears cipher start s reader log delivered)
    (hsevered : s.session.client.Severed)
    (hreader : session.client.shared.reader = s.session.client.shared.reader)
    (hthreads : ∀ (i : Nat) (pc : ReconnectPc), session.client.threads[i]? = some pc →
      pc.Exchanging → s.session.client.threads[i]? = some pc) :
    Hears cipher start { s with session } reader log delivered :=
  h.reread hsevered (hreader.trans h.reader_eq) hthreads h.linked
    fun hsocket => ⟨hsocket, rfl, rfl, fun _ _ => id⟩

theorem Hears.read {session : LiveSession} (h : Hears cipher start s reader log delivered)
    (hlawful : cipher.Lawful) (hshort : Short log) (hsevered : s.session.client.Severed)
    {results : List IoResult} {out : ReadOutput} (hread : reader.Reads s.incoming results out)
    (hreader : session.client.shared.reader = some out.reader)
    (hthreads : session.client.threads = s.session.client.threads) :
    Hears cipher start { s with session, incoming := out.incoming } out.reader log
      (delivered ++ linkDelivered (linkReadEvents out.result)) := by
  have hlinked := (h.linked.read hlawful hshort hread).1
  refine h.reread hsevered hreader (fun i pc hpc _ => hthreads ▸ hpc) hlinked fun hcut => ?_
  obtain ⟨hstill, hincoming, hsequence⟩ := hread.of_cut hcut
  exact ⟨hstill, hincoming, hsequence,
    fun socket catchup hoffered => Linked.read_revived (s.link reader) hlawful hcut hread hoffered⟩

open LiveEvent LiveSession

theorem Hears.readStep {session : LiveSession} {incoming : Bytes} {results : List IoResult}
    (h : Hears cipher start s reader log delivered) (hlawful : cipher.Lawful) (hshort : Short log)
    (hsevered : s.session.client.Severed) (hsession : s.session.client.session = .readLocked)
    (hleaves : s.leaves (.read s.incoming results) = some incoming)
    (hclient : session.client = s.session.client.readStep s.incoming results) :
    Hears cipher start { s with session, incoming } (reader.read s.incoming results).reader log
        (delivered ++ (s.session.client.readResult (.read s.incoming results)).toList)
      ∧ s.session.client.queueEvents (.read s.incoming results) = [] := by
  have hread := reader.read_spec s.incoming results
  simp only [leaves, if_true, h.reader_eq, Option.some.injEq] at hleaves
  have hreader : session.client.shared.reader = some (reader.read s.incoming results).reader := by
    rw [hclient]
    simp only [Client.readStep, h.reader_eq]
    split <;> rfl
  have hthreads : session.client.threads = s.session.client.threads := by
    rw [hclient]
    simp only [Client.readStep, h.reader_eq]
    split <;> rfl
  have hheard := h.read hlawful hshort hsevered hread hreader hthreads
  refine ⟨?_, ?_⟩
  · simp only [Client.readResult, hsession, h.reader_eq]
    rw [hleaves] at hheard
    rcases hresult : (reader.read s.incoming results).result with e | packet
    · rw [hresult] at hheard
      exact hheard
    · rw [hresult] at hheard
      cases packet <;> exact hheard
  · simp only [Client.queueEvents, hsession, h.reader_eq]
    split
    · next serialized rest e hqueue hresult =>
        -- An entry of the queue is the next packet of the log, so it opens.
        obtain ⟨packet, hopens, -⟩ := h.linked.read_queued hlawful hqueue
        simp only [link] at hopens
        rw [BackedReader.read, hqueue] at hresult
        cases hopens.symm.trans hresult
    · rfl

theorem reads_at_readLocked {client next : Client} {bytes : Bytes} {results : List IoResult}
    {inner : List ClientEvent}
    (hstep : clientMachine client (.session (.read bytes results)) = some (next, inner)) :
    client.session = .readLocked := by
  have hsteps := Client.sessionStep_spec hstep
  generalize client.session = session at hsteps
  cases hsteps <;> rfl

theorem Hears.inside {incoming : Bytes} {move : SessionMove} {inner : List ClientEvent}
    {before : List LiveEvent} (h : Hears cipher start s reader log delivered) (session : LiveSession)
    (hlawful : cipher.Lawful) (hshort : Short log)
    (hattended : s.session.Attended before) (hleaves : s.leaves move = some incoming)
    (hstep : clientMachine s.session.client (.session move) = some (session.client, inner)) :
    (∃ after, Hears cipher start { s with session, incoming } after log
        (delivered ++ (s.session.client.readResult move).toList))
      ∧ .discarded ∉ s.session.client.queueEvents move := by
  by_cases hread : s.session.client.session = .readLocked
  · obtain ⟨bytes, results, rfl, hclient⟩ := Client.readLocked_step hread hstep
    have hbytes : bytes = s.incoming := by
      simp only [leaves] at hleaves
      split_ifs at hleaves with hsame
      exact hsame
    subst hbytes
    obtain ⟨hheard, hnothing⟩ :=
      h.readStep hlawful hshort hattended.severed hread hleaves hclient
    exact ⟨⟨_, hheard⟩, by simp [hnothing]⟩
  · have hsteps := Client.sessionStep_spec hstep
    have hqueue := Client.queue_step hread hattended.severed.noShutdown hsteps
    rw [readResult_eq_none hread, Option.toList_none, List.append_nil]
    have hthreads : ∀ (i : Nat) (pc : ReconnectPc), session.client.threads[i]? = some pc →
        pc.Exchanging → s.session.client.threads[i]? = some pc := by
      intro i pc hpc hexchanging
      obtain ⟨socket, hsocket⟩ := hexchanging.socket
      exact hsteps.effect.getElem?_threads hpc hsocket
    have hincoming : incoming = s.incoming := by
      cases move with
      | read bytes results => exact absurd (reads_at_readLocked hstep) hread
      | _ => exact (Option.some.inj hleaves).symm
    subst hincoming
    generalize s.session.client.queueEvents move = shown at hqueue
    cases hqueue with
    | keeps hreader hbefore =>
        exact ⟨⟨reader, h.keep hattended.severed hreader hthreads⟩, by simp⟩
    | cuts hreader =>
        refine ⟨⟨reader.invalidateSocket, ?_⟩, by simp⟩
        rw [h.reader_eq] at hreader
        exact h.reread hattended.severed hreader hthreads h.linked.dropReader
          fun _ => ⟨rfl, rfl, rfl, fun _ _ => id⟩

/-! ### A step -/

theorem callAnswer_packets {session : LiveSession} {before : List LiveEvent}
    (hattended : session.Attended before) {call : SessionMove}
    (hcall : session.run.connectionCall = some call) (move : SessionMove) (inner : List ClientEvent) :
    (session.client.callAnswer call move inner).packets =
      (session.client.readResult move).toList := by
  by_cases hread : session.client.session = .readLocked
  · obtain rfl : .readPacket = call := Option.some.inj ((hattended.reading hread).symm.trans hcall)
    rfl
  · obtain ⟨-, hanswer⟩ | ⟨result, hanswer⟩ | hanswer :=
      callAnswer_cases session.client call move inner <;>
    rw [hanswer, readResult_eq_none hread] <;> rfl

theorem readResult_of_busy {client next : Client} {move : SessionMove} {inner : List ClientEvent}
    (hstep : clientMachine client (.session move) = some (next, inner)) (hbusy : next.session ≠ .idle) :
    client.readResult move = none := by
  by_cases hread : client.session = .readLocked
  · obtain ⟨bytes, results, rfl, rfl⟩ := Client.readLocked_step hread hstep
    rcases hreader : client.shared.reader with _ | reader
    · simp [Client.readResult, hread, hreader]
    · rcases hresult : (reader.read bytes results).result with e | packet
      · simp [Client.readResult, hread, hreader, hresult]
      · simp [Client.readStep, hreader, hresult] at hbusy
  · exact readResult_eq_none hread move

theorem Hears.live {memory : Memory} {before events : List LiveEvent} {action : LiveAction}
    {exchange : Exchange} {incoming : Bytes} {session : LiveSession}
    (h : Hears cipher start s reader log delivered) (hlawful : cipher.Lawful) (hshort : Short log)
    (hattended : s.session.Attended before) (hnetwork : s.network action = some (exchange, incoming))
    (hlive : liveMachine memory s.session action = some (session, events)) :
    (∃ after, Hears cipher start { s with session, exchange, incoming } after log
        (delivered ++ received events)) ∧ .discarded ∉ events := by
  cases liveStep_spec hlive with
  | @thread index answer client inner hclient =>
      obtain ⟨pc, hpc, hexchange, rfl⟩ : ∃ pc, s.session.client.threads[index]? = some pc
          ∧ exchanges s.exchange pc answer = some exchange ∧ s.incoming = incoming := by
        simp only [network] at hnetwork
        split at hnetwork
        · next pc hpc =>
            obtain ⟨given, hgiven, heq⟩ := Option.map_eq_some_iff.mp hnetwork
            obtain ⟨rfl, rfl⟩ := Prod.mk.inj heq
            exact ⟨pc, hpc, hgiven, rfl⟩
        · cases hnetwork
      simp only [clientMachine, Client.threadStep, hpc, Option.map_eq_some_iff, Prod.mk.injEq] at hclient
      obtain ⟨out, hout, rfl, rfl⟩ := hclient
      rw [received_client, List.append_nil]
      exact ⟨h.thread hattended.consistent hattended.severed hpc (reconnectStep_spec hout).ne_finished
        (inbound_spec hout hexchange), by simp⟩
  | @calls call client inner hcalling hcall hclient =>
      obtain ⟨rfl, rfl⟩ := Prod.mk.inj (Option.some.inj hnetwork)
      have hsteps := Client.sessionStep_spec hclient
      rw [hattended.idle hcalling] at hsteps
      rw [received_client, List.append_nil]
      refine ⟨⟨reader, h.keep hattended.severed ?_ fun i pc hpc hexchanging => ?_⟩, by simp⟩
      · cases hsteps <;> rfl
      · obtain ⟨socket, hsocket⟩ := hexchanging.socket
        exact hsteps.effect.getElem?_threads hpc hsocket
  | @continues call move client inner hcalling hcall hclient hbusy =>
      obtain ⟨given, hleaves, heq⟩ := Option.map_eq_some_iff.mp hnetwork
      obtain ⟨rfl, rfl⟩ := Prod.mk.inj heq
      obtain ⟨hheard, hnothing⟩ := h.inside { s.session with client } hlawful hshort hattended
        hleaves hclient
      rw [readResult_of_busy hclient hbusy, Option.toList_none] at hheard
      exact ⟨by simpa using hheard, by simpa using hnothing⟩
  | @returns call move client inner run out hcalling hcall hclient hidle hrun =>
      obtain ⟨given, hleaves, heq⟩ := Option.map_eq_some_iff.mp hnetwork
      obtain ⟨rfl, rfl⟩ := Prod.mk.inj heq
      obtain ⟨hheard, hnothing⟩ := h.inside { client, run, calling := false } hlawful hshort
        hattended hleaves hclient
      have hreceived : received (inner.map .client ++ s.session.client.queueEvents move
          ++ out.map .run) = (s.session.client.readResult move).toList := by
        simp [RunSession.received_of_step hrun, callAnswer_packets hattended hcall]
      rw [hreceived]
      exact ⟨hheard, by simpa using hnothing⟩
  | @own answer run out hcalling hshows hrun =>
      obtain ⟨rfl, rfl⟩ := Prod.mk.inj (Option.some.inj hnetwork)
      have hnone : answer.packets = [] := by
        cases answer with
        | read packet => simp [Client.Shows] at hshows
        | _ => rfl
      rw [RunSession.received_of_step hrun, hnone, List.append_nil]
      exact ⟨⟨reader, h.keep hattended.severed rfl fun _ _ hpc _ => hpc⟩, by simp⟩

/-- One step keeps the reader linked, as long as the packets accepted are short and few enough to be
counted. -/
theorem hears_step {memory : Memory} {action : ServedAction} {before events : List ServedEvent}
    (hlawful : cipher.Lawful)
    (h : Hears cipher start s reader (ServedSession.log before) (received (shown before)))
    (hattended : s.session.Attended (shown before))
    (hshort : Short (ServedSession.log (before ++ events)))
    (hcount : (ServedSession.log (before ++ events)).length < 2 ^ 31)
    (hstep : servedMachine memory s action = some (next, events)) :
    (∃ after, Hears cipher start next after (ServedSession.log (before ++ events))
        (received (shown (before ++ events))))
      ∧ .discarded ∉ shown events := by
  rw [log_append] at hshort hcount ⊢
  rw [shown_append, received_append]
  have hnone : received ([] : List LiveEvent) = [] := rfl
  cases servedStep_spec hstep with
  | writes hwrites =>
      rw [log_accepted, shown_accepted, hnone, List.append_nil]
      refine ⟨⟨reader, h.of_link rfl rfl fun reader hlinked => ?_⟩, by simp⟩
      exact hlinked.write hlawful.encrypt_isSome hwrites
  | delivers count =>
      simp only [ServedSession.log, shown, List.filterMap_nil, hnone, List.append_nil]
      exact ⟨⟨reader, h.of_link rfl rfl fun reader hlinked => hlinked.deliver count⟩, by simp⟩
  | drops =>
      simp only [ServedSession.log, shown, List.filterMap_nil, hnone, List.append_nil]
      exact ⟨⟨reader, h.of_link rfl rfl fun reader hlinked => hlinked.dropWriter⟩, by simp⟩
  | @recovers socket remoteSeq catchup hasked hrecover =>
      simp only [ServedSession.log, shown, List.filterMap_nil, hnone, List.append_nil] at hcount ⊢
      exact ⟨⟨reader, h.recovers hcount hasked hrecover socket⟩, by simp⟩
  | lives hnetwork hlive =>
      rw [log_live, List.append_nil] at hshort ⊢
      rw [shown_live]
      exact h.live hlawful hshort hattended hnetwork hlive

/-! ### A run -/

theorem live_run {memory : Memory} {actions : List ServedAction} {events : List ServedEvent}
    (h : (servedMachine memory).run s actions = some (next, events)) :
    ∃ moves, (liveMachine memory).run s.session moves = some (next.session, shown events) := by
  refine (servedMachine memory).run_simulates (f := ServedSession.session) (fun hstep => ?_) h
  cases servedStep_spec hstep with
  | @lives action exchange incoming session events hnetwork hlive =>
      refine ⟨[action], (Transducer.run_singleton _).mpr ?_⟩
      rw [show (events.map ServedEvent.live).filterMap ServedEvent.live? = events from shown_live events]
      exact hlive
  | @writes packet results out hwrites =>
      refine ⟨[], ?_⟩
      rw [show (((out.pushed.toList.map fun stored => (⟨out.writer.crypto.nonce, packet, stored⟩ :
          Accepted)).map ServedEvent.accepted).filterMap ServedEvent.live?) = [] from shown_accepted _]
      rfl
  | _ => exact ⟨[], rfl⟩

theorem received_eq_heard (events : List LiveEvent) :
    received events = RunEvent.heard (events.filterMap run?) := by
  rw [received, RunEvent.heard, List.filterMap_filterMap]
  congr 1
  funext event
  cases event with
  | run event => cases event <;> rfl
  | _ => rfl

end ServedSession

open ServedSession in
/-- **The session hears its server.** In every run of a session and its server, however often the
connection breaks, wherever the bytes are cut and whatever the threads do in between: the packets that
`run_session` reads are the first ones that the server has accepted, in order and unaltered, as many as
the reader counts beyond its queue; no entry of the queue is thrown away; the console shows the beginning
of what these packets print; and nothing is missing when nothing is on its way. -/
theorem session_hears_server {memory : Memory} {opts : ClientOptions}
    {readerCrypto writerCrypto : CryptoHandler} (hlawful : readerCrypto.cipher.Lawful)
    {actions : List ServedAction} {s : ServedSession} {events : List ServedEvent}
    (hrun : (servedMachine memory).run (ServedSession.start opts readerCrypto writerCrypto) actions =
      some (s, events))
    (hshort : ∀ entry ∈ log events, entry.stored.serialize.length < 2 ^ 32)
    (hcount : (log events).length < 2 ^ 31) :
    .discarded ∉ shown events
      ∧ ∃ k : Nat, k ≤ (log events).length
        ∧ LiveEvent.received (shown events) = ((log events).take k).map Accepted.plain
        ∧ RunEvent.shownBytes ((shown events).filterMap LiveEvent.run?) <+:
            printed memory (((log events).take k).map Accepted.plain)
        ∧ ∃ reader, s.session.client.shared.reader = some reader
          ∧ (k : Int) = reader.sequenceNumber - reader.localBuffer.length
          ∧ (s.server.socket ≠ none → reader.socket ≠ none → s.inFlight = [] → s.incoming = [] →
            reader.localBuffer = [] → k = (log events).length) := by
  have hheard := (servedMachine memory).run_invariant (I := fun s events =>
    s.session.Attended (shown events)
      ∧ (Short (log events) → (log events).length < 2 ^ 31 →
        .discarded ∉ shown events
          ∧ ∃ reader, Hears readerCrypto.cipher readerCrypto.nonce s reader (log events)
            (LiveEvent.received (shown events)))) ?_ []
    ⟨LiveSession.start_attended opts readerCrypto writerCrypto,
      fun _ _ => ⟨by simp [shown], _, start_hears opts readerCrypto writerCrypto⟩⟩ hrun
  · obtain ⟨hnothing, reader, hhears⟩ := hheard.2 hshort hcount
    rw [List.nil_append] at hnothing hhears
    obtain ⟨moves, hlive⟩ := live_run hrun
    obtain ⟨answers, hloop⟩ := LiveSession.loop_run hlive
    have hconsole := RunSession.shown_of_heard hloop
    rw [← received_eq_heard, hhears.linked.delivered_eq] at hconsole
    have hsequence := hhears.linked.sequence_eq
    have hle := hhears.linked.sequence_le
    refine ⟨hnothing, _, by omega, hhears.linked.delivered_eq, hconsole, reader, hhears.reader_eq, ?_, ?_⟩
    · have hposition : reader.sequenceNumber = _ := hsequence
      simp only [link] at hposition ⊢
      omega
    · exact hhears.linked.caught_up hshort
  · intro s before action next out hbefore hstep
    obtain ⟨hattended, hhears⟩ := hbefore
    obtain ⟨moves, hlive⟩ := live_run ((Transducer.run_singleton _).mpr hstep)
    refine ⟨?_, fun hall hfew => ?_⟩
    · rw [shown_append]
      exact (liveMachine memory).run_invariant (fun hduring hmove => hduring.step hmove) _ hattended hlive
    · have hpre : log before <+: log (before ++ out) := by
        rw [log_append]
        exact List.prefix_append _ _
      obtain ⟨hnothing, reader, hreader⟩ :=
        hhears (fun entry hmem => hall entry (hpre.subset hmem)) (hpre.length_le.trans_lt hfew)
      obtain ⟨hafter, hout⟩ := hears_step hlawful hreader hattended hall hfew hstep
      refine ⟨?_, hafter⟩
      rw [shown_append, List.mem_append]
      exact fun hmem => hmem.elim hnothing hout

/-- The output `hi` is accepted while the connection is down. The server answers the position of the
client with it, and it is shown after the reconnect. -/
theorem session_hears_server_after_break :
    let memory : Memory := fun len => len ≤ maxProtoBytes
    let crypto : CryptoHandler := ⟨tagCipher, .start serverClientNonceMsb⟩
    let sealed (crypto : CryptoHandler) (packet : Packet) : Bytes :=
      match packet.encrypt crypto with
      | (.ok stored, _) => stored.serialize
      | (.error _, _) => []
    let response := frame (sealed crypto (Packet.new EtPacket.initialResponse []))
    let entry := sealed crypto.incrementNonce (bufferPacket [0x68, 0x69])
    let establish : List ServedAction :=
      [.write (Packet.new EtPacket.initialResponse []) [.ok 64], .deliver 64, .live .call,
        .live (.inside .step), .live (.inside (.write [.ok 64])), .live (.own (.now 0)),
        .live (.own (.now 0)), .live .call, .live (.inside (.read response [.ok 4, .ok 64])),
        .live (.own (.opened (.ok ()))), .live (.own (.now 0))]
    let breakDown : List ServedAction :=
      [.live (.own (.shuttingDown false)), .live (.own (.shutdown false)),
        .live (.own (.hasSocket true)), .live .call, .live (.inside (.read [] [.ok 0]))]
          ++ List.replicate 6 (.live (.inside .step))
          ++ [.live (.own (.now 0)), .drop, .write (bufferPacket [0x68, 0x69]) []]
    let recover : List ServedAction :=
      List.replicate 4 (.live (.thread 0 .done))
        ++ [.live (.thread 0 (.response { status := some .returningClient, error := none })),
          .live (.thread 0 .done), .live (.thread 0 .done), .recover ⟨1⟩,
          .live (.thread 0 (.sequence { sequenceNumber := some 1 })), .live (.thread 0 .done),
          .live (.thread 0 .done), .live (.thread 0 (.catchup { buffer := [entry] }))]
        ++ List.replicate 4 (.live (.thread 0 .done))
    let output : List ServedAction :=
      [.live (.own (.input (.ok none))), .live (.own (.size {})), .live (.own (.shuttingDown false)),
        .live (.own (.shutdown false)), .live (.own (.hasSocket true)), .live .call,
        .live (.inside (.read [] [])), .live (.own (.now 0)), .live .call,
        .live (.inside (.read [] [])), .live (.own (.shown (.ok ())))]
    ∃ s events,
      (servedMachine memory).run (ServedSession.start {} crypto crypto)
          (establish ++ breakDown ++ recover ++ output) = some (s, events)
        ∧ RunEvent.shownBytes ((ServedSession.shown events).filterMap LiveEvent.run?) = [0x68, 0x69]
        ∧ ∃ k, k ≤ (ServedSession.log events).length
          ∧ LiveEvent.received (ServedSession.shown events) =
            ((ServedSession.log events).take k).map Accepted.plain := by
  intro memory crypto sealed response entry establish breakDown recover output
  have hran : ((servedMachine memory).run (ServedSession.start {} crypto crypto)
      (establish ++ breakDown ++ recover ++ output)).map (fun out =>
        (RunEvent.shownBytes ((ServedSession.shown out.2).filterMap LiveEvent.run?),
          (ServedSession.log out.2).map fun entry => entry.stored.serialize.length)) =
      some ([0x68, 0x69], [18, 22]) := by
    decide +kernel
  obtain ⟨⟨s, events⟩, hrun, hout⟩ := Option.map_eq_some_iff.mp hran
  obtain ⟨hshown, hlengths⟩ := Prod.mk.inj hout
  have hcount : (ServedSession.log events).length = 2 := by
    simpa using congrArg List.length hlengths
  have hshort : ∀ entry ∈ ServedSession.log events, entry.stored.serialize.length < 2 ^ 32 := by
    intro entry hmem
    have hlength : entry.stored.serialize.length ∈ [18, 22] :=
      hlengths ▸ List.mem_map_of_mem hmem
    simp only [List.mem_cons, List.not_mem_nil, or_false] at hlength
    omega
  obtain ⟨-, k, hk, hreceived, -⟩ :=
    session_hears_server tagCipher_lawful hrun hshort (by omega)
  exact ⟨s, events, hrun, hshown, k, hk, hreceived⟩

end EternalTerminal
