import EternalTerminal.Proof.Codec
import EternalTerminal.Proof.Framing
import EternalTerminal.Proof.ReaderRun

/-!
# The position a reader reports

The handshake sends the reader's `i64` count as an `i32`. The count never goes down and starts at
zero, so the peer reads it back as it is until it reaches `2^31`.
-/

namespace EternalTerminal

namespace BackedReader

@[simp] theorem readQueued_sequenceNumber (reader : BackedReader) (serialized : Bytes)
    (rest : List Bytes) :
    (reader.readQueued serialized rest).2.sequenceNumber = reader.sequenceNumber := by
  unfold readQueued
  split <;> rfl

theorem readFrame_sequenceNumber (reader : BackedReader) (serialized : Bytes) :
    (reader.readFrame serialized).2.sequenceNumber = reader.sequenceNumber
      ∨ (reader.readFrame serialized).2.sequenceNumber = reader.sequenceNumber + 1 := by
  unfold readFrame
  split
  · exact .inr rfl
  · exact .inl rfl

theorem Reads.sequenceNumber_le {reader : BackedReader} {incoming : Bytes}
    {results : List IoResult} {out : ReadOutput} (h : reader.Reads incoming results out) :
    reader.sequenceNumber ≤ out.reader.sequenceNumber := by
  cases h with
  | queued hqueue => rw [readQueued_sequenceNumber]
  | idle hqueue hsocket => exact le_rfl
  | stopped hqueue hsocket hcompleted hresult hstream hframe => exact le_rfl
  | framed hqueue hsocket hcompleted hstream hholds hexact hserialized =>
      rcases reader.readFrame_sequenceNumber _ with hsame | hnext
      · exact hsame.ge
      · rw [hnext]
        omega

end BackedReader

theorem sequenceNumber_nonneg_of_run {crypto : CryptoHandler} {socket : TcpStream}
    {ops : List ReaderOp} {reader : BackedReader} {events : List ReaderEvent}
    (hrun : readerMachine.run (BackedReader.new crypto socket) ops = some (reader, events)) :
    0 ≤ reader.sequenceNumber := by
  refine readerMachine.run_invariant_state (I := fun reader => 0 ≤ reader.sequenceNumber) ?_
    (by exact le_rfl) hrun
  intro reader op reader' out hbefore hstep
  cases readerStep_spec hstep with
  | read hreads => exact hbefore.trans hreads.sequenceNumber_le
  | invalidateSocket => exact hbefore
  | revive socket catchup =>
      simp only [BackedReader.revive]
      omega

/-- An `i32` holds a count exactly below `2^31`. -/
theorem remoteSequence_sequenceHeader {n : Int} (hn : 0 ≤ n) :
    remoteSequence (sequenceHeader n) = n ↔ n < 2 ^ 31 := by
  have hvalue : remoteSequence (sequenceHeader n) = (Int32.ofInt n).toInt := rfl
  rw [hvalue]
  constructor
  · intro h
    have hlt := (Int32.ofInt n).toInt_lt
    omega
  · intro h
    exact Int32.toInt_ofInt_of_le (by omega) h

/-! ### A session of any length -/

/-- What a server stores as its `n`th packet, when all its payloads are empty. -/
def serverPacket (n : Nat) : Packet :=
  ⟨true, 1, ((Nonce.start serverClientNonceMsb).advance n).bytes.take macBytes⟩

/-- Reading the first `n` packets of that server as they arrive. -/
def session (n : Nat) : List ReaderOp :=
  (List.range n).map fun i =>
    .read (frame (serverPacket (i + 1)).serialize) [.ok 4, .ok (serverPacket (i + 1)).serialize.length]

/-- A reader that has received them. -/
def sessionReader (n : Nat) : BackedReader :=
  { crypto := ⟨tagCipher, (Nonce.start serverClientNonceMsb).advance n⟩, socket := some ⟨0⟩,
    sequenceNumber := n, partialFrame := [], localBuffer := [] }

theorem readFrame_serverPacket (n : Nat) :
    (sessionReader n).readFrame (serverPacket (n + 1)).serialize =
      (.ok (some (.new 1 [])), sessionReader (n + 1)) := by
  have hseals : Seals (sessionReader n).crypto.cipher (sessionReader n).crypto.nonce.increment
      (.new 1 []) (serverPacket (n + 1)) := by
    have hnonce : (sessionReader n).crypto.nonce.increment =
        (Nonce.start serverClientNonceMsb).advance (n + 1) := (Nonce.advance_succ _ _).symm
    refine ⟨rfl, rfl, rfl, ?_⟩
    rw [hnonce]
    simp [sessionReader, tagCipher, Packet.new, serverPacket]
  have hopen := openPacket_serialize tagCipher_lawful hseals
  simp only [BackedReader.readFrame, hopen]
  simp [sessionReader, CryptoHandler.incrementNonce, Nonce.advance_succ]

theorem run_session (n : Nat) : ∃ events,
    readerMachine.run (BackedReader.new ⟨tagCipher, .start serverClientNonceMsb⟩ ⟨0⟩) (session n) =
      some (sessionReader n, events) := by
  induction n with
  | zero => exact ⟨[], rfl⟩
  | succ n ih =>
      obtain ⟨events, hrun⟩ := ih
      have hlength : (serverPacket (n + 1)).serialize.length < 2 ^ 32 := by
        have hmac : macBytes < 2 ^ 32 - 2 := by norm_num [macBytes]
        simp only [serverPacket, Packet.length_serialize, Packet.length, List.length_take]
        omega
      have hread : ((sessionReader n).read _ _).reader = _ :=
        (BackedReader.read_frame_available rfl rfl rfl hlength).2
      rw [readFrame_serverPacket] at hread
      have hstep : ∃ out, readerMachine (sessionReader n)
          (.read (frame (serverPacket (n + 1)).serialize)
            [.ok 4, .ok (serverPacket (n + 1)).serialize.length]) =
          some (sessionReader (n + 1), out) := by
        simp only [readerMachine, hread]
        exact ⟨_, rfl⟩
      obtain ⟨out, hstep⟩ := hstep
      refine ⟨events ++ out, ?_⟩
      rw [session, List.range_succ, List.map_append, List.map_singleton]
      exact (readerMachine.run_concat_eq_some).mpr ⟨_, events, out, hrun, hstep, rfl⟩

/-! ### What the peer is told -/

/-- **The reported position.** Whatever a reader went through, the peer reads back its sequence
number from the handshake if and only if that number is below `2^31`. -/
theorem reported_position_iff {crypto : CryptoHandler} {socket : TcpStream} {ops : List ReaderOp}
    {reader : BackedReader} {events : List ReaderEvent}
    (hrun : readerMachine.run (BackedReader.new crypto socket) ops = some (reader, events))
    (alloc : Allocator) (rest : Bytes) :
    (∃ remote, readProto SequenceHeader alloc.grants
          (writeProto (sequenceHeader (localSequence (some reader))) ++ rest) = .ok (remote, rest)
        ∧ remoteSequence remote = reader.sequenceNumber) ↔
      reader.sequenceNumber < 2 ^ 31 := by
  have hlocal : localSequence (some reader) = reader.sequenceNumber := rfl
  have hread := SequenceHeader.readProto_writeProto alloc (sequenceHeader reader.sequenceNumber) rest
  rw [hlocal, ← remoteSequence_sequenceHeader (sequenceNumber_nonneg_of_run hrun)]
  constructor
  · intro hgiven
    obtain ⟨remote, hremote, hposition⟩ := hgiven
    rw [hread] at hremote
    simp only [Except.ok.injEq, Prod.mk.injEq, and_true] at hremote
    rw [hremote, hposition]
  · intro hposition
    exact ⟨_, hread, hposition⟩

/-- A reader that has received three packets reports three. -/
theorem reported_position_iff_three_packets :
    ∃ reader events,
      readerMachine.run (BackedReader.new ⟨tagCipher, .start serverClientNonceMsb⟩ ⟨0⟩) (session 3) =
          some (reader, events)
        ∧ reader.sequenceNumber = 3
        ∧ ∃ remote, readProto SequenceHeader messageAllocator.grants
            (writeProto (sequenceHeader (localSequence (some reader))) ++ []) = .ok (remote, [])
          ∧ remoteSequence remote = reader.sequenceNumber := by
  obtain ⟨events, hrun⟩ := run_session 3
  exact ⟨sessionReader 3, events, hrun, rfl,
    (reported_position_iff hrun messageAllocator []).mpr (by decide)⟩

/-- After `2^31` packets the peer is told `-2^31`. -/
theorem reported_position_wraps :
    ∃ reader events,
      readerMachine.run (BackedReader.new ⟨tagCipher, .start serverClientNonceMsb⟩ ⟨0⟩)
          (session (2 ^ 31)) = some (reader, events)
        ∧ reader.sequenceNumber = 2 ^ 31
        ∧ ∃ remote, readProto SequenceHeader messageAllocator.grants
            (writeProto (sequenceHeader (localSequence (some reader))) ++ []) = .ok (remote, [])
          ∧ remoteSequence remote = -2 ^ 31 := by
  obtain ⟨events, hrun⟩ := run_session (2 ^ 31)
  refine ⟨sessionReader (2 ^ 31), events, hrun, rfl, _,
    SequenceHeader.readProto_writeProto messageAllocator _ [], ?_⟩
  decide

end EternalTerminal
