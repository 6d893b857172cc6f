import EternalTerminal.Library.Transducer
import EternalTerminal.Proof.Seal

/-!
# Runs of a reader

The calls on a `BackedReader`, over whatever bytes its socket has. The events record every nonce its
handler uses and every packet it returns. A reader can resume as long as both counts are the number of
packets taken off its queue and its socket; which steps break that is exactly `BackedReader.Intact`.
-/

namespace EternalTerminal

/-- One call on a reader. The bytes its socket has are an argument of each `read`. -/
inductive ReaderOp where
  | read (incoming : Bytes) (results : List IoResult)
  | invalidateSocket
  | revive (socket : TcpStream) (catchup : List Bytes)

inductive ReaderEvent where
  | nonceUsed
  | delivered (packet : Packet)
  deriving DecidableEq

/-- The packet a `read` returned, if any. -/
def returned : Except Error (Option Packet) → List Packet
  | .ok (some packet) => [packet]
  | _ => []

def readEvents (before : BackedReader) (out : ReadOutput) : List ReaderEvent :=
  (if out.reader.crypto.nonce = before.crypto.nonce then [] else [.nonceUsed])
    ++ (returned out.result).map .delivered

def readerMachine : Transducer BackedReader ReaderOp ReaderEvent := fun reader op =>
  match op with
  | .read incoming results =>
    let out := reader.read incoming results
    some (out.reader, readEvents reader out)
  | .invalidateSocket => some (reader.invalidateSocket, [])
  | .revive socket catchup => some (reader.revive socket catchup, [])

/-- The ways a step can go. -/
inductive ReaderSteps (reader : BackedReader) :
    ReaderOp → BackedReader → List ReaderEvent → Prop
  | read {incoming results out} : reader.Reads incoming results out →
      ReaderSteps reader (.read incoming results) out.reader (readEvents reader out)
  | invalidateSocket : ReaderSteps reader .invalidateSocket reader.invalidateSocket []
  | revive (socket : TcpStream) (catchup : List Bytes) :
      ReaderSteps reader (.revive socket catchup) (reader.revive socket catchup) []

theorem readerStep_spec {reader reader' : BackedReader} {op : ReaderOp} {out : List ReaderEvent}
    (h : readerMachine reader op = some (reader', out)) : ReaderSteps reader op reader' out := by
  cases op with
  | read incoming results =>
      simp only [readerMachine, Option.some.injEq, Prod.mk.injEq] at h
      obtain ⟨rfl, rfl⟩ := h
      exact .read (reader.read_spec incoming results)
  | invalidateSocket =>
      simp only [readerMachine, Option.some.injEq, Prod.mk.injEq] at h
      obtain ⟨rfl, rfl⟩ := h
      exact .invalidateSocket
  | revive socket catchup =>
      simp only [readerMachine, Option.some.injEq, Prod.mk.injEq] at h
      obtain ⟨rfl, rfl⟩ := h
      exact .revive socket catchup

def noncesUsed (events : List ReaderEvent) : Nat := events.count .nonceUsed

def deliveredPackets (events : List ReaderEvent) : List Packet :=
  events.filterMap fun
    | .delivered packet => some packet
    | .nonceUsed => none

theorem noncesUsed_append (before after : List ReaderEvent) :
    noncesUsed (before ++ after) = noncesUsed before + noncesUsed after := List.count_append ..

theorem deliveredPackets_append (before after : List ReaderEvent) :
    deliveredPackets (before ++ after) = deliveredPackets before ++ deliveredPackets after :=
  List.filterMap_append

@[simp] theorem noncesUsed_readEvents (before : BackedReader) (out : ReadOutput) :
    noncesUsed (readEvents before out) =
      if out.reader.crypto.nonce = before.crypto.nonce then 0 else 1 := by
  have hpackets : noncesUsed ((returned out.result).map .delivered) = 0 := by
    rw [noncesUsed, List.count_eq_zero]
    simp
  rw [readEvents, noncesUsed_append, hpackets]
  split_ifs <;> rfl

@[simp] theorem deliveredPackets_readEvents (before : BackedReader) (out : ReadOutput) :
    deliveredPackets (readEvents before out) = returned out.result := by
  have hpackets : ∀ packets : List Packet, deliveredPackets (packets.map .delivered) = packets := by
    intro packets
    simp [deliveredPackets]
  rw [readEvents, deliveredPackets_append, hpackets]
  split_ifs <;> rfl

/-! ### What a resumable reader is -/

namespace BackedReader

/-- How many packets the reader is past: those it has counted and no longer holds. -/
def position (reader : BackedReader) : Int :=
  reader.sequenceNumber - reader.localBuffer.length

@[simp] theorem position_revive (reader : BackedReader) (socket : TcpStream)
    (catchup : List Bytes) : (reader.revive socket catchup).position = reader.position := by
  simp only [position, revive, List.length_append]
  push_cast
  ring

@[simp] theorem position_invalidateSocket (reader : BackedReader) :
    reader.invalidateSocket.position = reader.position := rfl

/-- A step that leaves the reader resumable: a queued entry that is taken authenticates under the next
nonce, and no frame that arrives whole is turned away by the authentication. -/
def Intact (reader : BackedReader) : ReaderOp → Prop
  | .read incoming results =>
    match reader.localBuffer with
    | serialized :: _ => Authentic reader.crypto serialized
    | [] => ∀ socket serialized, reader.socket = some socket →
        reader.completedFrame incoming results = some serialized → ¬ Forged reader.crypto serialized
  | .invalidateSocket => True
  | .revive _ _ => True

end BackedReader

/-- The nonces used and the packets returned are as many as the reader's position says, and the
nonce is the one of that position. -/
structure Resumable (start : Nonce) (reader : BackedReader) (events : List ReaderEvent) : Prop where
  nonces : (noncesUsed events : Int) = reader.position
  nonce_eq : reader.crypto.nonce = start.advance (noncesUsed events)
  delivered : ((deliveredPackets events).length : Int) = reader.position

namespace Resumable

variable {start : Nonce} {reader : BackedReader} {events : List ReaderEvent}

theorem new (crypto : CryptoHandler) (socket : TcpStream) :
    Resumable crypto.nonce (BackedReader.new crypto socket) [] := ⟨rfl, rfl, rfl⟩

theorem of_frame {other : BackedReader} (h : Resumable start reader events)
    (hcrypto : other.crypto = reader.crypto) (hposition : other.position = reader.position) :
    Resumable start other events :=
  ⟨by rw [h.nonces, hposition], by rw [hcrypto, h.nonce_eq], by rw [h.delivered, hposition]⟩

/-- After a read that used this many nonces: as many packets were delivered, and the position is as many
further. -/
theorem read_used {result : Except Error (Option Packet)} {reader' : BackedReader} {rest : Bytes}
    {used : Nat} (h : Resumable start reader events)
    (hused : noncesUsed (readEvents reader ⟨result, reader', rest⟩) = used)
    (hnonce : reader'.crypto.nonce = start.advance (noncesUsed events + used)) :
    Resumable start reader' (events ++ readEvents reader ⟨result, reader', rest⟩) ↔
      reader'.position = reader.position + used ∧ (returned result).length = used := by
  have hnonces : noncesUsed (events ++ readEvents reader ⟨result, reader', rest⟩) =
      noncesUsed events + used := by
    rw [noncesUsed_append, hused]
  have hdelivered : deliveredPackets (events ++ readEvents reader ⟨result, reader', rest⟩) =
      deliveredPackets events ++ returned result := by
    rw [deliveredPackets_append, deliveredPackets_readEvents]
  have hbefore := h.nonces
  have hreturned := h.delivered
  constructor
  · intro hgiven
    obtain ⟨hnow, -, hpackets⟩ := hgiven
    rw [hnonces] at hnow
    rw [hdelivered, List.length_append] at hpackets
    push_cast at hnow hpackets
    omega
  · intro hgiven
    obtain ⟨hposition, hpackets⟩ := hgiven
    refine ⟨by rw [hnonces]; push_cast; omega, by rw [hnonces, hnonce], ?_⟩
    rw [hdelivered, List.length_append]
    push_cast
    omega

theorem read_same {result : Except Error (Option Packet)} {reader' : BackedReader} {rest : Bytes}
    (h : Resumable start reader events) (hcrypto : reader'.crypto = reader.crypto) :
    Resumable start reader' (events ++ readEvents reader ⟨result, reader', rest⟩) ↔
      reader'.position = reader.position ∧ (returned result).length = 0 := by
  have hused : noncesUsed (readEvents reader ⟨result, reader', rest⟩) = 0 := by
    rw [noncesUsed_readEvents, hcrypto, if_pos rfl]
  have hiff := h.read_used hused (by rw [hcrypto, h.nonce_eq, Nat.add_zero])
  simpa using hiff

theorem read_next {result : Except Error (Option Packet)} {reader' : BackedReader} {rest : Bytes}
    (h : Resumable start reader events) (hcrypto : reader'.crypto = reader.crypto.incrementNonce) :
    Resumable start reader' (events ++ readEvents reader ⟨result, reader', rest⟩) ↔
      reader'.position = reader.position + 1 ∧ (returned result).length = 1 := by
  have hmoved : reader'.crypto.nonce ≠ reader.crypto.nonce := by
    rw [hcrypto]
    exact reader.crypto.nonce.increment_ne
  have hused : noncesUsed (readEvents reader ⟨result, reader', rest⟩) = 1 := by
    rw [noncesUsed_readEvents, if_neg hmoved]
  have hnonce : reader'.crypto.nonce = start.advance (noncesUsed events + 1) := by
    rw [Nonce.advance_succ, ← h.nonce_eq, hcrypto]
    rfl
  exact h.read_used hused hnonce

end Resumable

/-! ### Which reads keep it -/

theorem ReachesCipher.authentic_iff {crypto : CryptoHandler} {serialized : Bytes} {packet : Packet}
    (h : ReachesCipher serialized packet) :
    Authentic crypto serialized ↔
      (crypto.cipher.decrypt crypto.nonce.increment packet.payload).isSome := by
  constructor
  · intro hgiven
    obtain ⟨other, hother, hopen⟩ := hgiven
    exact h.unique hother ▸ hopen
  · exact fun hopen => ⟨packet, h, hopen⟩

theorem ReachesCipher.forged_iff {crypto : CryptoHandler} {serialized : Bytes} {packet : Packet}
    (h : ReachesCipher serialized packet) :
    Forged crypto serialized ↔
      crypto.cipher.decrypt crypto.nonce.increment packet.payload = none := by
  constructor
  · intro hgiven
    obtain ⟨other, hother, hopen⟩ := hgiven
    exact h.unique hother ▸ hopen
  · exact fun hopen => ⟨packet, h, hopen⟩

namespace Resumable

variable {start : Nonce} {reader : BackedReader} {events : List ReaderEvent}

/-- Taking an entry off the queue keeps the reader resumable only if the entry opens. -/
theorem read_queued (h : Resumable start reader events) {serialized : Bytes} {rest : List Bytes}
    (hqueue : reader.localBuffer = serialized :: rest) (incoming : Bytes) :
    Resumable start (reader.readQueued serialized rest).2
        (events ++ readEvents reader
          ⟨(reader.readQueued serialized rest).1, (reader.readQueued serialized rest).2, incoming⟩) ↔
      Authentic reader.crypto serialized := by
  have hopens := openPacket_spec reader.crypto serialized
  have hposition : ∀ crypto : CryptoHandler,
      ({ reader with crypto, localBuffer := rest } : BackedReader).position =
        reader.position + 1 := by
    intro crypto
    simp only [BackedReader.position, hqueue, List.length_cons]
    push_cast
    ring
  unfold BackedReader.readQueued
  generalize openPacket serialized reader.crypto = out at hopens
  cases hopens with
  | authentic hreaches hopen =>
      rw [hreaches.authentic_iff, hopen]
      exact (h.read_next rfl).trans (iff_of_true ⟨hposition _, rfl⟩ rfl)
  | forged hreaches hopen =>
      rw [hreaches.authentic_iff, hopen]
      refine (h.read_next rfl).trans (iff_of_false (fun hboth => ?_) (by simp))
      exact absurd hboth.2 (by simp [returned])
  | malformed hnone =>
      refine Iff.trans (h.read_same ?_) (iff_of_false (fun hboth => ?_) ?_)
      · rfl
      · have hstays := (hposition reader.crypto).symm.trans hboth.1
        omega
      · exact fun ⟨packet, hreaches, _⟩ => hnone packet hreaches

theorem read_frame (h : Resumable start reader events) (serialized incoming : Bytes) :
    Resumable start (reader.readFrame serialized).2
        (events ++ readEvents reader
          ⟨(reader.readFrame serialized).1, (reader.readFrame serialized).2, incoming⟩) ↔
      ¬ Forged reader.crypto serialized := by
  have hopens := openPacket_spec reader.crypto serialized
  unfold BackedReader.readFrame
  generalize openPacket serialized reader.crypto = out at hopens
  cases hopens with
  | authentic hreaches hopen =>
      rw [hreaches.forged_iff, hopen]
      refine (h.read_next rfl).trans (iff_of_true ⟨?_, rfl⟩ (by simp))
      simp only [BackedReader.position]
      ring
  | forged hreaches hopen =>
      rw [hreaches.forged_iff, hopen]
      refine (h.read_next rfl).trans (iff_of_false (fun hboth => ?_) (by simp))
      exact absurd hboth.2 (by simp [returned])
  | malformed hnone =>
      refine Iff.trans (h.read_same ?_) (iff_of_true ⟨rfl, rfl⟩ ?_)
      · rfl
      · exact fun ⟨packet, hreaches, _⟩ => hnone packet hreaches

theorem read_iff (h : Resumable start reader events) {incoming : Bytes} {results : List IoResult}
    {out : ReadOutput} (hread : reader.Reads incoming results out) :
    Resumable start out.reader (events ++ readEvents reader out) ↔
      reader.Intact (.read incoming results) := by
  cases hread with
  | queued hqueue =>
      simp only [BackedReader.Intact, hqueue]
      exact h.read_queued hqueue incoming
  | idle hqueue hsocket =>
      have hintact : reader.Intact (.read incoming results) := by
        simp [BackedReader.Intact, hqueue, hsocket]
      exact iff_of_true ((h.read_same rfl).mpr ⟨rfl, rfl⟩) hintact
  | stopped hqueue hsocket hcompleted hresult hstream hframe =>
      have hintact : reader.Intact (.read incoming results) := by
        simp [BackedReader.Intact, hqueue, hcompleted]
      refine iff_of_true ((h.read_same ?_).mpr ⟨rfl, ?_⟩) hintact
      · rfl
      · obtain rfl | ⟨e, rfl, -⟩ := hresult
        · rfl
        · rfl
  | framed hqueue hsocket hcompleted hstream hholds hexact hserialized =>
      simp only [BackedReader.Intact, hqueue, hcompleted, hsocket, Option.some.injEq]
      refine (h.read_frame _ _).trans ⟨?_, fun hall => hall _ _ rfl rfl⟩
      rintro hnot _ _ - rfl
      exact hnot

/-- A step keeps the reader resumable exactly if it is an intact one. -/
theorem step_iff (h : Resumable start reader events) {op : ReaderOp} {reader' : BackedReader}
    {out : List ReaderEvent} (hstep : readerMachine reader op = some (reader', out)) :
    Resumable start reader' (events ++ out) ↔ reader.Intact op := by
  cases readerStep_spec hstep with
  | read hreads => exact h.read_iff hreads
  | invalidateSocket =>
      rw [List.append_nil]
      exact iff_of_true (h.of_frame rfl (by simp)) trivial
  | revive socket catchup =>
      rw [List.append_nil]
      exact iff_of_true (h.of_frame rfl (by simp)) trivial

end Resumable

/-- **When a reader stays resumable.** In every state of a run the number of nonces used is the
number of packets counted and no longer queued, and all of those were returned, if and only if every
step of the run is intact. -/
theorem reader_resumable_iff_intact (crypto : CryptoHandler) (socket : TcpStream)
    (ops : List ReaderOp) :
    readerMachine.Always (Resumable crypto.nonce) (BackedReader.new crypto socket) ops ↔
      readerMachine.Along BackedReader.Intact (BackedReader.new crypto socket) ops := by
  apply readerMachine.always_iff_along (J := Resumable crypto.nonce)
  · intro reader before op reader' out h hintact hstep
    exact (h.step_iff hstep).mpr hintact
  · exact fun h => h
  · intro reader before op reader' out h hbroken hstep hresumable
    exact hbroken ((h.step_iff hstep).mp hresumable)
  · exact .new crypto socket

/-- One frame that fails to authenticate uses up a nonce that no packet will ever be sealed under
again. -/
theorem reader_not_resumable_after_forged_frame :
    let crypto : CryptoHandler := ⟨tagCipher, .start serverClientNonceMsb⟩
    let forged : Bytes := frame (1 :: 1 :: List.replicate macBytes 9)
    let ops : List ReaderOp := [.read forged [.ok 4, .ok 18]]
    ¬ readerMachine.Always (Resumable crypto.nonce) (BackedReader.new crypto ⟨0⟩) ops := by
  intro crypto forged ops halways
  have hresumable := halways ops List.prefix_rfl _ _ rfl
  exact absurd hresumable.nonces (by decide)

end EternalTerminal
