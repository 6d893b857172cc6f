import EternalTerminal.Backed.Writer

/-!
# The backed reader (`backed.rs`)

A `BackedReader` returns the catch-up entries of the last reconnect first and then the frames that
arrive on its socket. `partialFrame` is the frame under way (`partial` in the source); it outlives a
call that ran out of data.
-/

namespace EternalTerminal

structure BackedReader where
  crypto : CryptoHandler
  socket : Option TcpStream
  sequenceNumber : Int
  partialFrame : Bytes
  /-- The deque from its front: oldest entry first. -/
  localBuffer : List Bytes

/-- What a `read` returns and leaves behind, and the delivered bytes it did not read. -/
structure ReadOutput where
  result : Except Error (Option Packet)
  reader : BackedReader
  incoming : Bytes

/-- Both read paths: `Packet::from_serialized`, then `Packet::decrypt`. -/
def openPacket (serialized : Bytes) (crypto : CryptoHandler) :
    Except Error Packet × CryptoHandler :=
  match Packet.fromSerialized serialized with
  | .error e => (.error e, crypto)
  | .ok packet => packet.decrypt crypto

namespace BackedReader

def new (crypto : CryptoHandler) (socket : TcpStream) : BackedReader :=
  { crypto, socket := some socket, sequenceNumber := 0, partialFrame := [], localBuffer := [] }

def invalidateSocket (reader : BackedReader) : BackedReader := { reader with socket := none }

/-- The catch-up path of `read`. The sequence number moved when `revive` queued the entry. -/
def readQueued (reader : BackedReader) (serialized : Bytes) (rest : List Bytes) :
    Except Error (Option Packet) × BackedReader :=
  match openPacket serialized reader.crypto with
  | (.ok packet, crypto) => (.ok (some packet), { reader with crypto, localBuffer := rest })
  | (.error e, crypto) => (.error e, { reader with crypto, localBuffer := rest })

/-- The end of the live path of `read`, once a whole frame is there. -/
def readFrame (reader : BackedReader) (serialized : Bytes) :
    Except Error (Option Packet) × BackedReader :=
  match openPacket serialized reader.crypto with
  | (.ok packet, crypto) =>
    (.ok (some packet),
      { reader with crypto, partialFrame := [], sequenceNumber := reader.sequenceNumber + 1 })
  | (.error e, crypto) => (.error e, { reader with crypto, partialFrame := [] })

/-- A read loop that stopped early: `Ok(None)` or the error, with the partial frame kept. -/
def stopped (reader : BackedReader) (out : FillOutput) : ReadOutput :=
  let reader := { reader with partialFrame := out.buffer }
  match out.result with
  | .failed e => ⟨.error e, reader, out.incoming⟩
  | _ => ⟨.ok none, reader, out.incoming⟩

/-- The live path of `read`: the length header, then the frame it announces. -/
def readLive (reader : BackedReader) (incoming : Bytes) (results : List IoResult) : ReadOutput :=
  let header := fill 4 reader.partialFrame incoming results
  if header.result = .full then
    let total := 4 + fromBeBytes (header.buffer.take 4)
    let body := fill total header.buffer header.incoming header.results
    if body.result = .full then
      let (result, reader) := reader.readFrame ((body.buffer.take total).drop 4)
      ⟨result, reader, body.incoming⟩
    else reader.stopped body
  else reader.stopped header

def read (reader : BackedReader) (incoming : Bytes) (results : List IoResult) : ReadOutput :=
  match reader.localBuffer, reader.socket with
  | serialized :: rest, _ =>
    let (result, reader) := reader.readQueued serialized rest
    ⟨result, reader, incoming⟩
  | [], none => ⟨.ok none, reader, incoming⟩
  | [], some _ => reader.readLive incoming results

def revive (reader : BackedReader) (socket : TcpStream) (catchup : List Bytes) : BackedReader :=
  { reader with
    partialFrame := []
    localBuffer := reader.localBuffer ++ catchup
    sequenceNumber := reader.sequenceNumber + catchup.length
    socket := some socket }

/-! ### What a read does

The rest of the development knows `read` only through the four cases of `Reads`. -/

/-- How long the frame is that starts with these bytes, its length header included. -/
def frameTotal (buffer : Bytes) : Nat := 4 + fromBeBytes (buffer.take 4)

/-- The bytes contain the frame they start with. -/
def HoldsFrame (buffer : Bytes) : Prop := 4 ≤ buffer.length ∧ frameTotal buffer ≤ buffer.length

theorem frameTotal_of_prefix {short long : Bytes} (h : short <+: long) (hheader : 4 ≤ short.length) :
    frameTotal long = frameTotal short := by
  obtain ⟨rest, rfl⟩ := h
  rw [frameTotal, frameTotal, List.take_append_of_le_length hheader]

/-- The frame that the live path of `read` completes, without its length header; `none` if the
socket has not delivered all of it. -/
def completedFrame (reader : BackedReader) (incoming : Bytes) (results : List IoResult) :
    Option Bytes :=
  let header := fill 4 reader.partialFrame incoming results
  if header.result = .full then
    let total := 4 + fromBeBytes (header.buffer.take 4)
    let body := fill total header.buffer header.incoming header.results
    if body.result = .full then some ((body.buffer.take total).drop 4) else none
  else none

/-- The ways a `read` can go. -/
inductive Reads (reader : BackedReader) (incoming : Bytes) (results : List IoResult) :
    ReadOutput → Prop
  | queued {serialized rest} : reader.localBuffer = serialized :: rest →
      Reads reader incoming results
        ⟨(reader.readQueued serialized rest).1, (reader.readQueued serialized rest).2, incoming⟩
  | idle : reader.localBuffer = [] → reader.socket = none →
      Reads reader incoming results ⟨.ok none, reader, incoming⟩
  | stopped {socket result buffer rest} : reader.localBuffer = [] → reader.socket = some socket →
      reader.completedFrame incoming results = none →
      result = .ok none ∨ (∃ e, result = .error e ∧ e.OfSocket) →
      buffer ++ rest = reader.partialFrame ++ incoming → ¬ HoldsFrame buffer →
      Reads reader incoming results ⟨result, { reader with partialFrame := buffer }, rest⟩
  | framed {socket serialized buffer rest} : reader.localBuffer = [] → reader.socket = some socket →
      reader.completedFrame incoming results = some serialized →
      buffer ++ rest = reader.partialFrame ++ incoming → HoldsFrame buffer →
      (¬ HoldsFrame reader.partialFrame → buffer.length = frameTotal buffer) →
      serialized = (buffer.take (frameTotal buffer)).drop 4 →
      Reads reader incoming results
        ⟨(reader.readFrame serialized).1, (reader.readFrame serialized).2, rest⟩

theorem stopped_spec {reader : BackedReader} {incoming : Bytes} {results : List IoResult}
    {socket : TcpStream} {out : FillOutput} (hqueue : reader.localBuffer = [])
    (hsocket : reader.socket = some socket)
    (hnone : reader.completedFrame incoming results = none) (hfull : out.result ≠ .full)
    (hfailed : ∀ e, out.result = .failed e → e.OfSocket)
    (hstream : out.buffer ++ out.incoming = reader.partialFrame ++ incoming)
    (hframe : ¬ HoldsFrame out.buffer) :
    Reads reader incoming results (reader.stopped out) := by
  cases hresult : out.result with
  | full => exact absurd hresult hfull
  | pending =>
      simp only [stopped, hresult]
      exact .stopped hqueue hsocket hnone (.inl rfl) hstream hframe
  | failed e =>
      simp only [stopped, hresult]
      exact .stopped hqueue hsocket hnone (.inr ⟨e, rfl, hfailed e hresult⟩) hstream hframe

theorem readLive_spec {reader : BackedReader} {incoming : Bytes} {results : List IoResult}
    {socket : TcpStream} (hqueue : reader.localBuffer = []) (hsocket : reader.socket = some socket) :
    Reads reader incoming results (reader.readLive incoming results) := by
  have hheader := fill_sound 4 reader.partialFrame incoming results
  obtain ⟨frame, hframe⟩ : ∃ frame, reader.completedFrame incoming results = frame := ⟨_, rfl⟩
  have hcompleted := hframe
  unfold completedFrame at hcompleted
  unfold readLive
  generalize fill 4 reader.partialFrame incoming results = header at hheader hcompleted ⊢
  by_cases hfull : header.result = .full
  · have hfour : 4 ≤ header.buffer.length := hheader.full_iff.mp hfull
    have htotal : 4 + fromBeBytes (header.buffer.take 4) = frameTotal header.buffer := rfl
    simp only [hfull, if_true, htotal] at hcompleted ⊢
    have hbody := fill_sound (frameTotal header.buffer) header.buffer header.incoming header.results
    generalize fill (frameTotal header.buffer) header.buffer header.incoming header.results = body
      at hbody hcompleted ⊢
    have hstream : body.buffer ++ body.incoming = reader.partialFrame ++ incoming :=
      hbody.stream.trans hheader.stream
    have hsame := frameTotal_of_prefix hbody.grows hfour
    by_cases hwhole : body.result = .full
    · have hlength : frameTotal header.buffer ≤ body.buffer.length := hbody.full_iff.mp hwhole
      simp only [hwhole, if_true] at hcompleted ⊢
      refine .framed hqueue hsocket (hframe.trans hcompleted.symm) hstream
        ⟨?_, hsame.trans_le hlength⟩ ?_ (by rw [hsame])
      · exact hfour.trans hbody.grows.length_le
      · -- what was there is less than the frame, so the loops stopped exactly at its end
        intro hbuffered
        have hgrows := hheader.grows.length_le
        have hheaderBound := hheader.bounded
        have hbodyBound := hbody.bounded
        have hfits : header.buffer.length ≤ frameTotal header.buffer := by
          by_contra hlong
          have hlt : 4 ≤ frameTotal header.buffer := Nat.le_add_right 4 _
          have hequal : header.buffer = reader.partialFrame :=
            (hheader.grows.eq_of_length_le (by omega)).symm
          rw [hequal] at hlong hfour
          exact hbuffered ⟨hfour, by omega⟩
        omega
    · have hshort : ¬ frameTotal header.buffer ≤ body.buffer.length :=
        fun hlength => hwhole (hbody.full_iff.mpr hlength)
      simp only [hwhole, if_false] at hcompleted ⊢
      refine stopped_spec hqueue hsocket (hframe.trans hcompleted.symm) hwhole hbody.failed
        hstream fun hholds => hshort ?_
      exact hsame ▸ hholds.2
  · have hshort : ¬ 4 ≤ header.buffer.length := fun hfour => hfull (hheader.full_iff.mpr hfour)
    simp only [hfull, if_false] at hcompleted ⊢
    exact stopped_spec hqueue hsocket (hframe.trans hcompleted.symm) hfull hheader.failed
      hheader.stream fun hholds => hshort hholds.1

theorem read_spec (reader : BackedReader) (incoming : Bytes) (results : List IoResult) :
    Reads reader incoming results (reader.read incoming results) := by
  unfold read
  cases hqueue : reader.localBuffer with
  | cons serialized rest => exact .queued hqueue
  | nil =>
      cases hsocket : reader.socket with
      | none => exact .idle hqueue hsocket
      | some socket => exact readLive_spec hqueue hsocket

theorem Reads.socket_eq {reader : BackedReader} {incoming : Bytes} {results : List IoResult}
    {out : ReadOutput} (h : reader.Reads incoming results out) :
    out.reader.socket = reader.socket := by
  cases h with
  | queued hqueue =>
      simp only [readQueued]
      split <;> rfl
  | idle hqueue hsocket => rfl
  | stopped hqueue hsocket hcompleted hresult hbuffer hframe => rfl
  | framed hqueue hsocket hcompleted hbuffer hholds hexact hserialized =>
      simp only [readFrame]
      split <;> rfl

end BackedReader

end EternalTerminal
