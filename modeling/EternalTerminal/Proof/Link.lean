import EternalTerminal.Proof.Framing
import EternalTerminal.Proof.WriterLog

/-!
# A writer, a byte channel and a reader

A writer and a reader that share key and nonce, and the bytes between them: those written on the
current connection and not delivered yet, and those delivered and not read. Either side can lose its
socket at any byte; what was not read by then is lost, and a recovery of both sides starts an empty
connection. `Linked` ties both sides to the packets accepted so far, and every kind of step keeps it.
-/

namespace EternalTerminal

structure Link where
  writer : BackedWriter
  reader : BackedReader
  /-- Written on the current connection and not delivered. -/
  inFlight : Bytes
  /-- Delivered and not read. -/
  incoming : Bytes

inductive LinkOp where
  | write (packet : Packet) (results : List IoResult)
  | deliver (count : Nat)
  | read (results : List IoResult)
  | dropWriter
  | dropReader
  | recover (socket : TcpStream)

inductive LinkEvent where
  | accepted (entry : Accepted)
  | delivered (packet : Packet)
  | failed (e : Error)

def Link.new (crypto : CryptoHandler) (socket : TcpStream) : Link :=
  { writer := .new crypto socket, reader := .new crypto socket, inFlight := [], incoming := [] }

/-- What a `read` shows: the packet it returned or the error. -/
def linkReadEvents : Except Error (Option Packet) → List LinkEvent
  | .ok (some packet) => [.delivered packet]
  | .ok none => []
  | .error e => [.failed e]

def linkMachine : Transducer Link LinkOp LinkEvent := fun link op =>
  match op with
  | .write packet results =>
    let out := link.writer.write packet results
    some ({ link with writer := out.writer, inFlight := link.inFlight ++ out.sent },
      out.pushed.toList.map fun stored => .accepted ⟨out.writer.crypto.nonce, packet, stored⟩)
  | .deliver count =>
    some ({ link with
      inFlight := link.inFlight.drop count
      incoming := link.incoming ++ link.inFlight.take count }, [])
  | .read results =>
    let out := link.reader.read link.incoming results
    some ({ link with reader := out.reader, incoming := out.incoming }, linkReadEvents out.result)
  | .dropWriter => some ({ link with writer := link.writer.invalidateSocket }, [])
  | .dropReader => some ({ link with reader := link.reader.invalidateSocket }, [])
  | .recover socket =>
    -- one step, with both sockets invalid
    if link.writer.socket.isSome || link.reader.socket.isSome then none
    else
      match link.writer.recover link.reader.sequenceNumber with
      | .error _ => none
      | .ok catchup =>
        some ({ writer := link.writer.revive socket, reader := link.reader.revive socket catchup,
                inFlight := [], incoming := [] }, [])

def linkAccepted (events : List LinkEvent) : List Accepted :=
  events.filterMap fun
    | .accepted entry => some entry
    | .delivered _ => none
    | .failed _ => none

def linkDelivered (events : List LinkEvent) : List Packet :=
  events.filterMap fun
    | .accepted _ => none
    | .delivered packet => some packet
    | .failed _ => none

theorem linkAccepted_append (before after : List LinkEvent) :
    linkAccepted (before ++ after) = linkAccepted before ++ linkAccepted after :=
  List.filterMap_append

theorem linkDelivered_append (before after : List LinkEvent) :
    linkDelivered (before ++ after) = linkDelivered before ++ linkDelivered after :=
  List.filterMap_append

@[simp] theorem linkAccepted_accepted (entries : List Accepted) :
    linkAccepted (entries.map .accepted) = entries := by
  simp [linkAccepted]

@[simp] theorem linkDelivered_accepted (entries : List Accepted) :
    linkDelivered (entries.map .accepted) = [] := by
  simp [linkDelivered]

@[simp] theorem linkAccepted_readEvents (result : Except Error (Option Packet)) :
    linkAccepted (linkReadEvents result) = [] := by
  rcases result with _ | _ | _ <;> rfl

/-! ### The joint invariant -/

/-- The reader has returned the first packets of the log, its queue holds the next ones, and what it
has of the connection starts the frames of those after that. Only `lost` is missing from there: nothing
as long as the writer has its socket. -/
structure Linked (cipher : Cipher) (start : Nonce) (link : Link) (log : List Accepted)
    (delivered : List Packet) : Prop where
  logs : Logs cipher start link.writer log
  cipher_eq : link.reader.crypto.cipher = cipher
  nonce_eq : link.reader.crypto.nonce = start.advance delivered.length
  delivered_eq : delivered = (log.take delivered.length).map Accepted.plain
  queue_eq : link.reader.localBuffer =
    ((log.drop delivered.length).take link.reader.localBuffer.length).map
      fun entry => entry.stored.serialize
  sequence_eq : link.reader.sequenceNumber = (delivered.length + link.reader.localBuffer.length : Nat)
  sequence_le : delivered.length + link.reader.localBuffer.length ≤ log.length
  stream : link.reader.socket ≠ none → ¬ BackedReader.HoldsFrame link.reader.partialFrame
    ∧ ∃ lost, link.reader.partialFrame ++ link.incoming ++ link.inFlight ++ lost =
        frames (log.drop (delivered.length + link.reader.localBuffer.length))
      ∧ (link.writer.socket ≠ none → lost = [])

namespace Linked

variable {cipher : Cipher} {start : Nonce} {link : Link} {log : List Accepted}
  {delivered : List Packet}

theorem new (crypto : CryptoHandler) (socket : TcpStream) :
    Linked crypto.cipher crypto.nonce (Link.new crypto socket) [] [] := by
  refine ⟨.new crypto socket, rfl, rfl, rfl, rfl, rfl, le_rfl, fun _ => ⟨?_, [], rfl, fun _ => rfl⟩⟩
  exact fun hholds => absurd hholds.1 (by simp [Link.new, BackedReader.new])

/-! #### Writing -/

theorem write (h : Linked cipher start link log delivered)
    (htotal : ∀ nonce plaintext, (cipher.encrypt nonce plaintext).isSome) {packet : Packet}
    {results : List IoResult} {out : WriteOutput} (hwrite : link.writer.Writes packet results out) :
    Linked cipher start { link with writer := out.writer, inFlight := link.inFlight ++ out.sent }
      (log ++ out.pushed.toList.map fun stored => ⟨out.writer.crypto.nonce, packet, stored⟩)
      delivered := by
  have hle := h.sequence_le
  refine ⟨h.logs.write htotal hwrite, h.cipher_eq, h.nonce_eq, ?_, ?_, h.sequence_eq, ?_, ?_⟩
  · rw [List.take_append_of_le_length (by omega)]
    exact h.delivered_eq
  · rw [List.drop_append_of_le_length (by omega), List.take_append_of_le_length]
    · exact h.queue_eq
    · rw [List.length_drop]
      exact Nat.le_sub_of_add_le' hle
  · rw [List.length_append]
    exact hle.trans (Nat.le_add_right _ _)
  · intro hsocket
    obtain ⟨hframe, lost, hstream, hlost⟩ := h.stream hsocket
    obtain ⟨lost', hsent, hlost'⟩ := hwrite.lost hlost out.writer.crypto.nonce
    refine ⟨hframe, lost', ?_, hlost'⟩
    rw [List.drop_append_of_le_length hle, frames_append, ← hstream]
    simp only [List.append_assoc, hsent]

/-! #### Reading -/

theorem open_next (h : Linked cipher start link log delivered) (hlawful : cipher.Lawful)
    {entry : Accepted} {later : List Accepted} (hdrop : log.drop delivered.length = entry :: later) :
    openPacket entry.stored.serialize link.reader.crypto =
      (.ok entry.plain, link.reader.crypto.incrementNonce) := by
  have hentry : log[delivered.length]? = some entry := by
    rw [← List.head?_drop, hdrop, List.head?_cons]
  obtain ⟨hnonce, hseals⟩ := h.logs.sealed _ _ hentry
  have hnext : link.reader.crypto.nonce.increment = entry.nonce := by
    rw [hnonce, h.nonce_eq, Nonce.advance_succ]
  apply openPacket_serialize
  · rw [h.cipher_eq]
    exact hlawful
  · rw [h.cipher_eq, hnext]
    exact hseals

theorem delivered_concat (h : Linked cipher start link log delivered) {entry : Accepted}
    {later : List Accepted} (hdrop : log.drop delivered.length = entry :: later) :
    delivered ++ [entry.plain] = (log.take (delivered.length + 1)).map Accepted.plain := by
  have hentry : log[delivered.length]? = some entry := by
    rw [← List.head?_drop, hdrop, List.head?_cons]
  rw [List.take_add_one, hentry, List.map_append, ← h.delivered_eq]
  rfl

theorem drop_next {entry : Accepted} {later : List Accepted}
    (hdrop : log.drop delivered.length = entry :: later) :
    log.drop (delivered.length + 1) = later := by
  rw [← List.tail_drop, hdrop, List.tail_cons]

theorem read_queued (h : Linked cipher start link log delivered) (hlawful : cipher.Lawful)
    {serialized : Bytes} {rest : List Bytes} (hqueue : link.reader.localBuffer = serialized :: rest) :
    ∃ packet, (link.reader.readQueued serialized rest).1 = .ok (some packet)
      ∧ Linked cipher start { link with reader := (link.reader.readQueued serialized rest).2 } log
          (delivered ++ [packet]) := by
  have hle := h.sequence_le
  have hqueued := h.queue_eq
  rw [hqueue, List.length_cons] at hle
  obtain ⟨entry, later, hdrop⟩ : ∃ entry later, log.drop delivered.length = entry :: later := by
    apply List.exists_cons_of_ne_nil
    rw [← List.length_pos_iff, List.length_drop]
    omega
  rw [hqueue, hdrop, List.length_cons, List.take_succ_cons, List.map_cons, List.cons.injEq] at hqueued
  obtain ⟨rfl, hrest⟩ := hqueued
  have hread : link.reader.readQueued entry.stored.serialize rest = (.ok (some entry.plain),
      { link.reader with crypto := link.reader.crypto.incrementNonce, localBuffer := rest }) := by
    simp only [BackedReader.readQueued, h.open_next hlawful hdrop]
  have hlength : (delivered ++ [entry.plain]).length = delivered.length + 1 := by simp
  have hposition : delivered.length + 1 + rest.length =
      delivered.length + link.reader.localBuffer.length := by
    rw [hqueue, List.length_cons]
    omega
  rw [hread]
  refine ⟨entry.plain, rfl, h.logs, h.cipher_eq, ?_, ?_, ?_, ?_, ?_, ?_⟩
  · rw [hlength, Nonce.advance_succ, ← h.nonce_eq]
    rfl
  · rw [hlength]
    exact h.delivered_concat hdrop
  · rw [hlength, drop_next hdrop]
    exact hrest
  · rw [hlength, hposition]
    exact h.sequence_eq
  · rw [hlength, hposition]
    exact h.sequence_le
  · rw [hlength, hposition]
    exact h.stream

theorem read_framed (h : Linked cipher start link log delivered) (hlawful : cipher.Lawful)
    (hshort : Short log) (hqueue : link.reader.localBuffer = [])
    (hsocket : link.reader.socket ≠ none) {buffer rest : Bytes}
    (hbuffer : buffer ++ rest = link.reader.partialFrame ++ link.incoming)
    (hholds : BackedReader.HoldsFrame buffer)
    (hexact : ¬ BackedReader.HoldsFrame link.reader.partialFrame →
      buffer.length = BackedReader.frameTotal buffer) {serialized : Bytes}
    (hserialized : serialized = (buffer.take (BackedReader.frameTotal buffer)).drop 4) :
    ∃ packet, (link.reader.readFrame serialized).1 = .ok (some packet)
      ∧ Linked cipher start
          { link with reader := (link.reader.readFrame serialized).2, incoming := rest } log
          (delivered ++ [packet]) := by
  obtain ⟨hframe, lost, hstream, hlost⟩ := h.stream hsocket
  have hposition : delivered.length + link.reader.localBuffer.length = delivered.length := by
    rw [hqueue, List.length_nil, Nat.add_zero]
  rw [hposition, ← hbuffer] at hstream
  have hpre : buffer <+: frames (log.drop delivered.length) := by
    rw [← hstream, List.append_assoc, List.append_assoc]
    exact List.prefix_append _ _
  have hlater : Short (log.drop delivered.length) :=
    fun entry hmem => hshort entry (List.mem_of_mem_drop hmem)
  obtain ⟨entry, later, hdrop, rfl⟩ := frame_of_holdsFrame hlater hpre hholds (hexact hframe)
  rw [← hexact hframe, List.take_length, BackedReader.drop_frame] at hserialized
  subst hserialized
  have hread : link.reader.readFrame entry.stored.serialize = (.ok (some entry.plain),
      { link.reader with
        crypto := link.reader.crypto.incrementNonce
        partialFrame := []
        sequenceNumber := link.reader.sequenceNumber + 1 }) := by
    simp only [BackedReader.readFrame, h.open_next hlawful hdrop]
  have hlength : (delivered ++ [entry.plain]).length = delivered.length + 1 := by simp
  have hnext : delivered.length + 1 ≤ log.length := by
    have hpositive : 0 < (log.drop delivered.length).length := by rw [hdrop]; simp
    rw [List.length_drop] at hpositive
    omega
  rw [hread]
  refine ⟨entry.plain, rfl, h.logs, h.cipher_eq, ?_, ?_, ?_, ?_, ?_, ?_⟩
  · rw [hlength, Nonce.advance_succ, ← h.nonce_eq]
    rfl
  · rw [hlength]
    exact h.delivered_concat hdrop
  · simp [hqueue]
  · simp only [hlength, hqueue, List.length_nil, Nat.add_zero, h.sequence_eq]
    push_cast
    rfl
  · simp only [hlength, hqueue, List.length_nil, Nat.add_zero]
    exact hnext
  · intro _
    refine ⟨fun hnil => absurd hnil.1 (by simp), lost, ?_, hlost⟩
    rw [hdrop, frames_cons, List.append_assoc, List.append_assoc] at hstream
    simp only [hlength, hqueue, List.length_nil, Nat.add_zero, drop_next hdrop, List.nil_append]
    rw [List.append_assoc]
    exact List.append_cancel_left hstream

/-- The reader keeps its place, whatever a read does, and only its socket can make the read fail. -/
theorem read (h : Linked cipher start link log delivered) (hlawful : cipher.Lawful)
    (hshort : Short log) {results : List IoResult} {out : ReadOutput}
    (hread : link.reader.Reads link.incoming results out) :
    Linked cipher start { link with reader := out.reader, incoming := out.incoming } log
        (delivered ++ linkDelivered (linkReadEvents out.result))
      ∧ ∀ e, .failed e ∈ linkReadEvents out.result → e.OfSocket := by
  cases hread with
  | queued hqueue =>
      obtain ⟨packet, hresult, hlinked⟩ := h.read_queued hlawful hqueue
      rw [hresult]
      exact ⟨hlinked, by simp [linkReadEvents]⟩
  | idle hqueue hsocket =>
      refine ⟨?_, by simp [linkReadEvents]⟩
      simpa [linkReadEvents, linkDelivered] using h
  | @stopped socket result buffer rest hqueue hsocket hcompleted hresult hbuffer hframe =>
      have hlinked : Linked cipher start { link with
          reader := { link.reader with partialFrame := buffer }, incoming := rest } log delivered := by
        refine ⟨h.logs, h.cipher_eq, h.nonce_eq, h.delivered_eq, h.queue_eq, h.sequence_eq,
          h.sequence_le, fun hlive => ⟨hframe, ?_⟩⟩
        obtain ⟨-, lost, hstream, hlost⟩ := h.stream hlive
        refine ⟨lost, ?_, hlost⟩
        rw [← hbuffer] at hstream
        exact hstream
      obtain rfl | ⟨e, rfl, hofSocket⟩ := hresult
      · refine ⟨?_, by simp [linkReadEvents]⟩
        simpa [linkReadEvents, linkDelivered] using hlinked
      · refine ⟨?_, by simpa [linkReadEvents] using hofSocket⟩
        simpa [linkReadEvents, linkDelivered] using hlinked
  | framed hqueue hsocket hcompleted hbuffer hholds hexact hserialized =>
      obtain ⟨packet, hresult, hlinked⟩ := h.read_framed hlawful hshort hqueue (by simp [hsocket])
        hbuffer hholds hexact hserialized
      rw [hresult]
      exact ⟨hlinked, by simp [linkReadEvents]⟩

/-! #### The connection -/

theorem deliver (h : Linked cipher start link log delivered) (count : Nat) :
    Linked cipher start { link with
      inFlight := link.inFlight.drop count
      incoming := link.incoming ++ link.inFlight.take count } log delivered := by
  refine ⟨h.logs, h.cipher_eq, h.nonce_eq, h.delivered_eq, h.queue_eq, h.sequence_eq, h.sequence_le,
    fun hlive => ?_⟩
  obtain ⟨hframe, lost, hstream, hlost⟩ := h.stream hlive
  refine ⟨hframe, lost, ?_, hlost⟩
  rw [← hstream]
  conv_rhs => rw [← List.take_append_drop count link.inFlight]
  simp only [List.append_assoc]

theorem dropWriter (h : Linked cipher start link log delivered) :
    Linked cipher start { link with writer := link.writer.invalidateSocket } log delivered := by
  refine ⟨h.logs.invalidateSocket, h.cipher_eq, h.nonce_eq, h.delivered_eq, h.queue_eq,
    h.sequence_eq, h.sequence_le, fun hlive => ?_⟩
  obtain ⟨hframe, lost, hstream, -⟩ := h.stream hlive
  exact ⟨hframe, lost, hstream, fun hwriter => absurd rfl hwriter⟩

theorem dropReader (h : Linked cipher start link log delivered) :
    Linked cipher start { link with reader := link.reader.invalidateSocket } log delivered :=
  ⟨h.logs, h.cipher_eq, h.nonce_eq, h.delivered_eq, h.queue_eq, h.sequence_eq, h.sequence_le,
    fun hlive => absurd rfl hlive⟩

/-- A recovery queues everything the reader does not have and starts from there. -/
theorem recover (h : Linked cipher start link log delivered) {catchup : List Bytes}
    (hrecover : link.writer.recover link.reader.sequenceNumber = .ok catchup) (socket : TcpStream) :
    Linked cipher start
      { writer := link.writer.revive socket, reader := link.reader.revive socket catchup,
        inFlight := [], incoming := [] } log delivered := by
  obtain ⟨-, n, hn, packets, hreplay, rfl⟩ := h.logs.retains.recover_eq_ok.mp hrecover
  obtain ⟨-, -, rfl⟩ := RetainedLog.replay_eq_some.mp hreplay
  have hcatchup : (h.logs.retains.retained.log.drop n).map Packet.serialize =
      (log.drop n).map fun entry => entry.stored.serialize := by
    simp [Retains.retained, List.map_drop, Function.comp_def]
  have hposition : n = delivered.length + link.reader.localBuffer.length := by
    have hsequence := h.sequence_eq
    omega
  have hle := h.sequence_le
  rw [hcatchup]
  have hlength : (link.reader.localBuffer
      ++ (log.drop n).map fun entry => entry.stored.serialize).length =
        log.length - delivered.length := by
    rw [List.length_append, List.length_map, List.length_drop]
    omega
  refine ⟨h.logs.revive socket, h.cipher_eq, h.nonce_eq, h.delivered_eq, ?_, ?_, ?_, ?_⟩
  · have hall : (log.drop delivered.length).take (log.length - delivered.length) =
        log.drop delivered.length := List.take_of_length_le (by rw [List.length_drop])
    simp only [BackedReader.revive, hlength, hall]
    conv_rhs => rw [← List.take_append_drop link.reader.localBuffer.length (log.drop delivered.length)]
    rw [List.map_append, ← h.queue_eq, List.drop_drop, ← hposition]
  · simp only [BackedReader.revive, hlength, h.sequence_eq, List.length_map, List.length_drop]
    push_cast
    omega
  · simp only [BackedReader.revive, hlength]
    omega
  · intro _
    refine ⟨fun hnil => absurd hnil.1 (by simp [BackedReader.revive]), [], ?_, fun _ => rfl⟩
    have hend : delivered.length + (log.length - delivered.length) = log.length := by omega
    simp only [BackedReader.revive, hlength, hend, List.drop_length, frames_nil, List.append_nil]

end Linked

/-! ### Runs -/

/-- One step keeps the invariant, if all packets it has accepted are short, and no read fails for what
it has read. -/
theorem linked_step {cipher : Cipher} {start : Nonce} (hlawful : cipher.Lawful) {link link' : Link}
    {op : LinkOp} {before out : List LinkEvent}
    (h : Linked cipher start link (linkAccepted before) (linkDelivered before))
    (hstep : linkMachine link op = some (link', out)) (hshort : Short (linkAccepted (before ++ out))) :
    Linked cipher start link' (linkAccepted (before ++ out)) (linkDelivered (before ++ out))
      ∧ ∀ e, .failed e ∈ out → e.OfSocket := by
  rw [linkAccepted_append] at hshort
  rw [linkAccepted_append, linkDelivered_append]
  cases op with
  | write packet results =>
      simp only [linkMachine, Option.some.injEq, Prod.mk.injEq] at hstep
      obtain ⟨rfl, rfl⟩ := hstep
      have hlinked := h.write hlawful.encrypt_isSome (link.writer.write_spec packet results)
      refine ⟨?_, by simp⟩
      have hevents : ∀ stored : List Packet, ∀ nonce : Nonce,
          stored.map (fun stored => LinkEvent.accepted ⟨nonce, packet, stored⟩) =
            (stored.map fun stored => (⟨nonce, packet, stored⟩ : Accepted)).map .accepted := by
        simp
      rw [hevents, linkAccepted_accepted, linkDelivered_accepted, List.append_nil]
      exact hlinked
  | deliver count =>
      simp only [linkMachine, Option.some.injEq, Prod.mk.injEq] at hstep
      obtain ⟨rfl, rfl⟩ := hstep
      exact ⟨by simpa [linkAccepted, linkDelivered] using h.deliver count, by simp⟩
  | read results =>
      simp only [linkMachine, Option.some.injEq, Prod.mk.injEq] at hstep
      obtain ⟨rfl, rfl⟩ := hstep
      rw [linkAccepted_readEvents, List.append_nil] at hshort ⊢
      exact h.read hlawful hshort (link.reader.read_spec link.incoming results)
  | dropWriter =>
      simp only [linkMachine, Option.some.injEq, Prod.mk.injEq] at hstep
      obtain ⟨rfl, rfl⟩ := hstep
      exact ⟨by simpa [linkAccepted, linkDelivered] using h.dropWriter, by simp⟩
  | dropReader =>
      simp only [linkMachine, Option.some.injEq, Prod.mk.injEq] at hstep
      obtain ⟨rfl, rfl⟩ := hstep
      exact ⟨by simpa [linkAccepted, linkDelivered] using h.dropReader, by simp⟩
  | recover socket =>
      simp only [linkMachine] at hstep
      split_ifs at hstep
      rcases hrecover : link.writer.recover link.reader.sequenceNumber with e | catchup
      · rw [hrecover] at hstep
        exact absurd hstep (by simp)
      · rw [hrecover] at hstep
        simp only [Option.some.injEq, Prod.mk.injEq] at hstep
        obtain ⟨rfl, rfl⟩ := hstep
        exact ⟨by simpa [linkAccepted, linkDelivered] using h.recover hrecover socket, by simp⟩

/-- **End-to-end stream safety.** At every moment of every run the packets returned by `read` are the
first ones accepted by `write`, in order and unaltered, as many as the reader's sequence number counts
beyond its queue; and a read fails only for its socket, never for a packet. -/
theorem link_stream_safe {crypto : CryptoHandler} (hlawful : crypto.cipher.Lawful) {socket : TcpStream}
    {ops : List LinkOp} {link : Link} {events : List LinkEvent}
    (hrun : linkMachine.run (Link.new crypto socket) ops = some (link, events))
    (hshort : ∀ entry ∈ linkAccepted events, entry.stored.serialize.length < 2 ^ 32) :
    (∀ e, .failed e ∈ events → e.OfSocket)
      ∧ ∃ k : Nat, (k : Int) = link.reader.sequenceNumber - link.reader.localBuffer.length
        ∧ k ≤ (linkAccepted events).length
        ∧ linkDelivered events = ((linkAccepted events).take k).map Accepted.plain := by
  have hinv := linkMachine.run_invariant (I := fun link events => Short (linkAccepted events) →
    Linked crypto.cipher crypto.nonce link (linkAccepted events) (linkDelivered events)
      ∧ ∀ e, .failed e ∈ events → e.OfSocket) ?_ [] (fun _ => ⟨.new crypto socket, by simp⟩) hrun
  · obtain ⟨hlinked, hfailed⟩ := hinv (by simpa [Short] using hshort)
    rw [List.nil_append] at hlinked hfailed
    have hsequence := hlinked.sequence_eq
    have hle := hlinked.sequence_le
    exact ⟨hfailed, (linkDelivered events).length, by omega, by omega, hlinked.delivered_eq⟩
  · intro link before op link' out hbefore hstep hall
    have hprevious : Short (linkAccepted before) := by
      intro entry hmem
      apply hall entry
      rw [linkAccepted_append]
      exact List.mem_append_left _ hmem
    obtain ⟨hlinked, hfailed⟩ := hbefore hprevious
    obtain ⟨hlinked', hfailed'⟩ := linked_step hlawful hlinked hstep hall
    refine ⟨hlinked', fun e hmem => ?_⟩
    rcases List.mem_append.mp hmem with hold | hnew
    · exact hfailed e hold
    · exact hfailed' e hnew

/-- Half a frame arrives, both sides lose the connection and recover, and the packet is read. -/
theorem link_stream_safe_after_break :
    let crypto : CryptoHandler := ⟨tagCipher, .start clientServerNonceMsb⟩
    let ops : List LinkOp := [.write (.new 1 [7]) [.ok 64], .deliver 5, .read [.ok 4, .ok 1],
      .dropReader, .dropWriter, .recover ⟨1⟩, .read []]
    ∃ link events, linkMachine.run (Link.new crypto ⟨0⟩) ops = some (link, events)
      ∧ linkDelivered events = [.new 1 [7]]
      ∧ ∃ k : Nat, (k : Int) = link.reader.sequenceNumber - link.reader.localBuffer.length
        ∧ k ≤ (linkAccepted events).length
        ∧ linkDelivered events = ((linkAccepted events).take k).map Accepted.plain := by
  intro crypto ops
  have hran : (linkMachine.run (Link.new crypto ⟨0⟩) ops).map (fun out => (linkDelivered out.2,
      (linkAccepted out.2).map fun entry => entry.stored.serialize.length)) =
        some ([.new 1 [7]], [19]) := by
    decide +kernel
  obtain ⟨⟨link, events⟩, hrun, hevents⟩ := Option.map_eq_some_iff.mp hran
  obtain ⟨hdelivered, hlengths⟩ := Prod.mk.inj hevents
  have hshort : ∀ entry ∈ linkAccepted events, entry.stored.serialize.length < 2 ^ 32 := by
    intro entry hmem
    have hlength : entry.stored.serialize.length ∈ [19] := by
      rw [← hlengths]
      exact List.mem_map_of_mem hmem
    rw [List.mem_singleton.mp hlength]
    decide
  exact ⟨link, events, hrun, hdelivered, (link_stream_safe tagCipher_lawful hrun hshort).2⟩

end EternalTerminal
