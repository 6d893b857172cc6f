import EternalTerminal.Proof.Framing
import EternalTerminal.Proof.ReaderRun
import EternalTerminal.Proof.WriterLog

/-!
# Framing does not depend on chunking

Packets written with a live socket are frames one after another, however often the socket takes only
part of one. The reader's state between two calls is the frame under way, so whatever arrives between
the calls and however the socket cuts it up, the calls return the packets of the stream in order.
-/

namespace EternalTerminal

/-! ### Writing -/

/-- Writes one after another; the events are what each of them returned. -/
def sendMachine : Transducer BackedWriter (Packet × List IoResult) WriteOutput := fun writer write =>
  let out := writer.write write.1 write.2
  some (out.writer, [out])

/-- The packets of the log are sealed under the nonces that follow `nonce`. -/
def SealedFrom (cipher : Cipher) : Nonce → List Accepted → Prop
  | _, [] => True
  | nonce, entry :: later => entry.nonce = nonce.increment
      ∧ Seals cipher nonce.increment entry.plain entry.stored ∧ SealedFrom cipher nonce.increment later

theorem writes_success {writer : BackedWriter} {packet : Packet} {results : List IoResult}
    {out : WriteOutput} (h : writer.Writes packet results out) (hstate : out.state = .success) :
    ∃ stored, out.sent = frame stored.serialize
      ∧ Seals writer.crypto.cipher writer.crypto.nonce.increment packet stored
      ∧ out.writer.crypto = writer.crypto.incrementNonce := by
  cases h with
  | refused hrefuses => exact absurd hstate (by simp)
  | notEncrypted hrefuses hencrypt => exact absurd hstate (by simp)
  | buffered hrefuses hencrypt hsocket => exact absurd hstate (by simp)
  | sent hencrypt hsocket hall =>
      obtain ⟨hseals, rfl⟩ := Packet.encrypt_eq_ok.mp hencrypt
      exact ⟨_, rfl, hseals, rfl⟩
  | broken hencrypt hsocket hfail => exact absurd hstate (by simp)

/-- Successful writes put the frames of a sealed log on the socket. -/
theorem sealedFrom_of_run {writer writer' : BackedWriter} {writes : List (Packet × List IoResult)}
    {outs : List WriteOutput} (hrun : sendMachine.run writer writes = some (writer', outs))
    (hsuccess : ∀ out ∈ outs, out.state = .success) :
    ∃ log : List Accepted, log.map Accepted.plain = writes.map Prod.fst
      ∧ SealedFrom writer.crypto.cipher writer.crypto.nonce log
      ∧ outs.map WriteOutput.sent = log.map fun entry => frame entry.stored.serialize := by
  induction writes generalizing writer outs with
  | nil =>
      obtain ⟨rfl, rfl⟩ := Prod.mk.inj (Option.some.inj hrun)
      exact ⟨[], rfl, trivial, rfl⟩
  | cons write writes ih =>
      obtain ⟨next, first, later, hstep, hrest, rfl⟩ := (sendMachine.run_cons_eq_some).mp hrun
      obtain ⟨rfl, rfl⟩ := Prod.mk.inj (Option.some.inj hstep)
      rw [List.forall_mem_append, List.forall_mem_singleton] at hsuccess
      obtain ⟨stored, hsent, hseals, hcrypto⟩ :=
        writes_success (writer.write_spec write.1 write.2) hsuccess.1
      obtain ⟨log, hplain, hsealed, hstream⟩ := ih hrest hsuccess.2
      rw [hcrypto] at hsealed
      refine ⟨⟨writer.crypto.nonce.increment, write.1, stored⟩ :: log, ?_, ⟨rfl, hseals, hsealed⟩, ?_⟩
      · rw [List.map_cons, List.map_cons, hplain]
      · rw [List.map_append, List.map_singleton, hsent, hstream]
        rfl

theorem sent_eq_frames {outs : List WriteOutput} {log : List Accepted}
    (h : outs.map WriteOutput.sent = log.map fun entry => frame entry.stored.serialize) :
    outs.flatMap WriteOutput.sent = frames log := by
  rw [List.flatMap_def, h, frames, List.flatMap_def]

theorem SealedFrom.short {cipher : Cipher} {nonce : Nonce} {log : List Accepted}
    (h : SealedFrom cipher nonce log) (hlawful : cipher.Lawful)
    (hlength : ∀ packet ∈ log.map Accepted.plain, packet.length + macBytes < 2 ^ 32) : Short log := by
  induction log generalizing nonce with
  | nil => exact fun _ hmem => absurd hmem List.not_mem_nil
  | cons entry log ih =>
      obtain ⟨-, hseals, hlater⟩ := h
      obtain ⟨hhead, htail⟩ := List.forall_mem_cons.mp hlength
      refine List.forall_mem_cons.mpr ⟨?_, ih hlater htail⟩
      rw [Packet.length_serialize, hseals.length_stored hlawful]
      exact hhead

/-! ### Schedules without a broken socket -/

/-- An answer of a socket that is there: some bytes, or none now. -/
def Progresses : IoResult → Prop
  | .ok n => 0 < n
  | .error e => isTransient e = true ∨ e = .interrupted

instance : DecidablePred Progresses
  | .ok n => inferInstanceAs (Decidable (0 < n))
  | .error e => inferInstanceAs (Decidable (isTransient e = true ∨ e = .interrupted))

theorem writeAllRetry_ok {data : Bytes} {results : List IoResult}
    (hprogress : ∀ r ∈ results, Progresses r) (hcounts : data.length ≤ results.countP Except.isOk) :
    (writeAllRetry data results).1 = .ok () := by
  induction results generalizing data with
  | nil =>
      rw [List.countP_nil, Nat.le_zero, List.length_eq_zero_iff] at hcounts
      rw [hcounts, writeAllRetry]
  | cons r results ih =>
      obtain ⟨hhead, htail⟩ := List.forall_mem_cons.mp hprogress
      rcases data with _ | ⟨b, data⟩
      · rw [writeAllRetry]
      rcases r with e | n
      · rw [List.countP_cons_of_neg (by simp [Except.isOk, Except.toBool])] at hcounts
        have hrest := ih htail hcounts
        simp only [writeAllRetry]
        split_ifs with htransient hinterrupted
        · exact hrest
        · exact hrest
        · rcases hhead with htrans | hintr
          · exact absurd htrans htransient
          · exact absurd hintr hinterrupted
      · rw [List.countP_cons_of_pos rfl, List.length_cons] at hcounts
        obtain ⟨n, rfl⟩ := Nat.exists_eq_succ_of_ne_zero (Nat.pos_iff_ne_zero.mp hhead)
        simp only [writeAllRetry]
        apply ih htail
        rw [List.length_drop, List.length_cons]
        omega

/-- With a live socket such answers, enough of them counts, make the write of a packet a success. -/
theorem write_succeeds {writer : BackedWriter} {packet : Packet} {results : List IoResult}
    (hlawful : writer.crypto.cipher.Lawful) (hlive : writer.socket ≠ none)
    (hplain : packet.encrypted = false) (hprogress : ∀ r ∈ results, Progresses r)
    (hcounts : 4 + packet.length + macBytes ≤ results.countP Except.isOk) :
    (writer.write packet results).state = .success := by
  have hwrites := writer.write_spec packet results
  obtain ⟨sealed, hpayload⟩ := Option.isSome_iff_exists.mp
    (hlawful.encrypt_isSome writer.crypto.nonce.increment packet.payload)
  have hsealed : Seals writer.crypto.cipher writer.crypto.nonce.increment packet
      ⟨true, packet.header, sealed⟩ := ⟨hplain, rfl, rfl, hpayload⟩
  have hencrypts := Packet.encrypt_eq_ok.mpr ⟨hsealed, rfl⟩
  generalize writer.write packet results = out at hwrites ⊢
  cases hwrites with
  | refused hrefuses =>
      obtain ⟨socket, hsocket⟩ := Option.ne_none_iff_exists'.mp hlive
      rw [BackedWriter.refuses_of_socket packet hsocket] at hrefuses
      exact absurd hrefuses (by simp)
  | notEncrypted hrefuses hencrypt =>
      rw [hencrypts] at hencrypt
      exact absurd (Prod.mk.inj hencrypt).1 (by simp)
  | buffered hrefuses hencrypt hsocket => exact absurd hsocket hlive
  | sent hencrypt hsocket hall => rfl
  | @broken stored crypto socket e sent hencrypt hsocket hfail =>
      obtain ⟨hseals, -⟩ := Packet.encrypt_eq_ok.mp hencrypt
      have hlength : (frame stored.serialize).length ≤ results.countP Except.isOk := by
        rw [length_frame, Packet.length_serialize, hseals.length_stored hlawful]
        omega
      have hok := writeAllRetry_ok hprogress hlength
      rw [hfail] at hok
      exact absurd hok (by simp)

/-- The loop's reads one after another: they move bytes off the front of what is there, each no more than
its count, and leave the rest of it and the answers not asked for. -/
inductive Moves : Bytes → List IoResult → Bytes → Bytes → List IoResult → Prop
  | done {incoming results} : Moves incoming results [] incoming results
  | interrupted {incoming results moved rest left} : Moves incoming results moved rest left →
      Moves incoming (.error .interrupted :: results) moved rest left
  | chunk {n chunk incoming results moved rest left} : chunk ≠ [] → chunk.length ≤ n →
      Moves incoming results moved rest left →
      Moves (chunk ++ incoming) (.ok n :: results) (chunk ++ moved) rest left

/-- The socket has nothing to give: it answers so, or with a count when no bytes are there. -/
def NoData (incoming : Bytes) : List IoResult → Prop
  | [] => True
  | .error e :: _ => isTransient e = true
  | .ok _ :: _ => incoming = []

/-- The schedule gives the first read some bytes if there are any. -/
def feeds : List IoResult → Bool
  | .error .interrupted :: results => feeds results
  | .ok (_ + 1) :: _ => true
  | _ => false

namespace Moves

variable {incoming moved rest : Bytes} {results left : List IoResult}

theorem stream (h : Moves incoming results moved rest left) : moved ++ rest = incoming := by
  induction h with
  | done => rfl
  | interrupted _ ih => exact ih
  | chunk _ _ _ ih => rw [List.append_assoc, ih]

theorem suffix (h : Moves incoming results moved rest left) : left <:+ results := by
  induction h with
  | done => exact List.suffix_rfl
  | interrupted _ ih => exact ih.trans (List.suffix_cons _ _)
  | chunk _ _ _ ih => exact ih.trans (List.suffix_cons _ _)

theorem trans (h : Moves incoming results moved rest left) {moved' rest' : Bytes}
    {left' : List IoResult} (hlater : Moves rest left moved' rest' left') :
    Moves incoming results (moved ++ moved') rest' left' := by
  induction h with
  | done => exact hlater
  | interrupted _ ih => exact .interrupted (ih hlater)
  | chunk hchunk hcount _ ih =>
      rw [List.append_assoc]
      exact .chunk hchunk hcount (ih hlater)

theorem eq_nil_of_feeds (h : Moves incoming results [] rest left) (hfeeds : feeds results = true)
    (hnothing : NoData rest left) : rest = [] := by
  generalize hmoved : ([] : Bytes) = moved at h
  induction h with
  | @done incoming results =>
      match results with
      | [] => exact absurd hfeeds (by simp [feeds])
      | .ok 0 :: _ => exact hnothing
      | .ok (_ + 1) :: _ => exact hnothing
      | .error e :: _ => cases e <;> simp_all [feeds, NoData, isTransient]
  | interrupted _ ih => exact ih hfeeds hnothing hmoved
  | chunk hchunk _ _ _ => exact absurd (List.append_eq_nil_iff.mp hmoved.symm).1 hchunk

end Moves

theorem fill_count {target n : Nat} {buffer incoming : Bytes} (results : List IoResult)
    (hshort : buffer.length < target) (hcount : 0 < n) (hincoming : incoming ≠ []) :
    ∃ chunk rest, chunk ++ rest = incoming ∧ chunk ≠ [] ∧ chunk.length ≤ n
      ∧ fill target buffer incoming (.ok n :: results) = fill target (buffer ++ chunk) rest results := by
  let size := min n (target - buffer.length)
  have hpositive := List.length_pos_iff.mpr hincoming
  have hlength : (incoming.take size).length = min size incoming.length := List.length_take
  have hprefix : incoming.take size ++ incoming.drop (incoming.take size).length = incoming :=
    List.prefix_iff_eq_append.mp (List.take_prefix size incoming)
  obtain ⟨b, later, hchunk⟩ : ∃ b later, incoming.take size = b :: later := by
    apply List.exists_cons_of_ne_nil
    rw [← List.length_pos_iff]
    omega
  have hread : readSome incoming (target - buffer.length) (.ok n) = .ok (b :: later) := by
    obtain ⟨n, rfl⟩ := Nat.exists_eq_succ_of_ne_zero (Nat.pos_iff_ne_zero.mp hcount)
    rw [← hchunk]
    exact if_neg hincoming
  rw [hchunk] at hlength hprefix
  refine ⟨_, _, hprefix, List.cons_ne_nil _ _, by omega, ?_⟩
  simp only [fill, hshort, if_true, hread]

/-- With such answers a read loop moves bytes until it is full or the socket has nothing to give. -/
theorem fill_moves {results : List IoResult} (hprogress : ∀ r ∈ results, Progresses r)
    (target : Nat) (buffer incoming : Bytes) {out : FillOutput}
    (hout : fill target buffer incoming results = out) :
    ∃ moved left, Moves incoming results moved out.incoming left ∧ out.buffer = buffer ++ moved
      ∧ (out.result = .full ∧ out.results = left
        ∨ out.result = .pending ∧ NoData out.incoming left) := by
  subst hout
  induction results generalizing buffer incoming with
  | nil =>
      refine ⟨[], [], ?_⟩
      simp only [fill]
      split_ifs
      · exact ⟨.done, (List.append_nil _).symm, .inr ⟨rfl, trivial⟩⟩
      · exact ⟨.done, (List.append_nil _).symm, .inl ⟨rfl, rfl⟩⟩
  | cons r results ih =>
      obtain ⟨hhead, htail⟩ := List.forall_mem_cons.mp hprogress
      by_cases hshort : buffer.length < target
      swap
      · refine ⟨[], r :: results, ?_⟩
        rw [BackedReader.fill_full (by omega)]
        exact ⟨.done, (List.append_nil _).symm, .inl ⟨rfl, rfl⟩⟩
      rcases r with e | n
      · by_cases htransient : isTransient e = true
        · refine ⟨[], .error e :: results, ?_⟩
          simp only [fill, hshort, if_true, readSome, htransient]
          exact ⟨.done, (List.append_nil _).symm, .inr ⟨trivial, htransient⟩⟩
        · obtain rfl : e = .interrupted := hhead.resolve_left htransient
          have hfill : fill target buffer incoming (.error .interrupted :: results) =
              fill target buffer incoming results := by
            simp only [fill, hshort, if_true, readSome, htransient, if_false, Bool.false_eq_true]
          obtain ⟨moved, left, hmoves, hbuffer, hends⟩ := ih htail buffer incoming
          rw [hfill]
          exact ⟨moved, left, .interrupted hmoves, hbuffer, hends⟩
      · by_cases hnil : incoming = []
        · refine ⟨[], .ok n :: results, ?_⟩
          obtain ⟨n, rfl⟩ := Nat.exists_eq_succ_of_ne_zero (Nat.pos_iff_ne_zero.mp hhead)
          simp only [fill, hshort, if_true, readSome, hnil, isTransient]
          exact ⟨.done, (List.append_nil _).symm, .inr ⟨rfl, rfl⟩⟩
        · obtain ⟨chunk, rest, rfl, hchunk, hcount, hfill⟩ := fill_count results hshort hhead hnil
          obtain ⟨moved, left, hmoves, hbuffer, hends⟩ := ih htail (buffer ++ chunk) rest
          rw [hfill]
          exact ⟨chunk ++ moved, left, .chunk hchunk hcount hmoves,
            by rw [hbuffer, List.append_assoc], hends⟩

namespace BackedReader

theorem read_moves {reader : BackedReader} {incoming : Bytes} {results : List IoResult}
    (hprogress : ∀ r ∈ results, Progresses r) (hqueue : reader.localBuffer = [])
    (hlive : reader.socket ≠ none) {out : ReadOutput} (hout : reader.read incoming results = out) :
    ∃ moved left, Moves incoming results moved out.incoming left
      ∧ (reader.completedFrame incoming results = none →
        out.result = .ok none ∧ NoData out.incoming left) := by
  obtain ⟨socket, hsocket⟩ := Option.ne_none_iff_exists'.mp hlive
  subst hout
  simp only [read, hqueue, hsocket, readLive, completedFrame]
  obtain ⟨moved, left, hmoves, -, hends⟩ := fill_moves hprogress 4 reader.partialFrame incoming rfl
  generalize fill 4 reader.partialFrame incoming results = header at hmoves hends ⊢
  rcases hends with ⟨hfull, rfl⟩ | ⟨hpending, hnothing⟩
  · simp only [hfull, if_true]
    have hrest : ∀ r ∈ header.results, Progresses r := fun r hmem => hprogress r
      (hmoves.suffix.subset hmem)
    obtain ⟨moved', left', hmoves', -, hends'⟩ := fill_moves hrest
      (4 + fromBeBytes (header.buffer.take 4)) header.buffer header.incoming rfl
    generalize fill (4 + fromBeBytes (header.buffer.take 4)) header.buffer header.incoming
      header.results = body at hmoves' hends' ⊢
    rcases hends' with ⟨hwhole, rfl⟩ | ⟨hpending, hnothing⟩
    · simp only [hwhole, if_true]
      exact ⟨_, _, hmoves.trans hmoves', fun hnone => absurd hnone (by simp)⟩
    · simp only [hpending, reduceCtorEq, if_false, stopped]
      exact ⟨_, _, hmoves.trans hmoves', fun _ => ⟨trivial, hnothing⟩⟩
  · simp only [hpending, reduceCtorEq, if_false, stopped]
    exact ⟨_, _, hmoves, fun _ => ⟨trivial, hnothing⟩⟩

end BackedReader

/-! ### Reading -/

/-- Reads one after another. Before each of them some bytes arrive, and what it does not take of those
that are there is left for the next; the events are what the calls return. -/
def receiveMachine :
    Transducer (BackedReader × Bytes) (Bytes × List IoResult) (Except Error (Option Packet)) :=
  fun (reader, unread) (arrived, results) =>
    let out := reader.read (unread ++ arrived) results
    some ((out.reader, out.incoming), [out.result])

/-- A call takes bytes off the front of what is there, behind the part of the frame it has, and returns
nothing only where the socket has nothing to give; else it returns the next packet, whose frame is then
what it has, to the last byte. -/
def TakesNext (reader : BackedReader) (incoming : Bytes) (results : List IoResult)
    (next : Option Accepted) : Prop :=
  let out := reader.read incoming results
  ∃ moved left, Moves incoming results moved out.incoming left
    ∧ (out.result = .ok none ∧ out.reader.partialFrame = reader.partialFrame ++ moved
          ∧ NoData out.incoming left
      ∨ ∃ entry, next = some entry ∧ out.result = .ok (some entry.plain)
          ∧ reader.partialFrame ++ moved = frame entry.stored.serialize ∧ out.reader.partialFrame = [])

/-- The reader is at the start of the packets `ahead`: it opens them next, and their frames are what it
holds of a frame, what it has not read, and what has not arrived. -/
structure Synced (reader : BackedReader) (unread : Bytes) (ahead : List Accepted) (later : Bytes) :
    Prop where
  queue_nil : reader.localBuffer = []
  live : reader.socket ≠ none
  lawful : reader.crypto.cipher.Lawful
  sealed : SealedFrom reader.crypto.cipher reader.crypto.nonce ahead
  short : Short ahead
  partial_open : ¬ BackedReader.HoldsFrame reader.partialFrame
  stream : reader.partialFrame ++ unread ++ later = frames ahead

namespace Synced

variable {reader : BackedReader} {unread arrived later : Bytes} {ahead : List Accepted}
  {results : List IoResult}

theorem framed (h : Synced reader unread ahead (arrived ++ later)) {buffer rest serialized : Bytes}
    (hbuffer : buffer ++ rest = reader.partialFrame ++ (unread ++ arrived))
    (hholds : BackedReader.HoldsFrame buffer)
    (hexact : ¬ BackedReader.HoldsFrame reader.partialFrame →
      buffer.length = BackedReader.frameTotal buffer)
    (hserialized : serialized = (buffer.take (BackedReader.frameTotal buffer)).drop 4) :
    ∃ entry behind, ahead = entry :: behind ∧ buffer = frame entry.stored.serialize
      ∧ (reader.readFrame serialized).1 = .ok (some entry.plain)
      ∧ (reader.readFrame serialized).2.partialFrame = []
      ∧ Synced (reader.readFrame serialized).2 rest behind later := by
  have hstream := h.stream
  rw [← List.append_assoc, List.append_assoc reader.partialFrame, ← hbuffer] at hstream
  have hpre : buffer <+: frames ahead := by
    rw [← hstream, List.append_assoc]
    exact List.prefix_append _ _
  obtain ⟨entry, behind, rfl, rfl⟩ := frame_of_holdsFrame h.short hpre hholds (hexact h.partial_open)
  rw [← hexact h.partial_open, List.take_length, BackedReader.drop_frame] at hserialized
  subst hserialized
  obtain ⟨-, hseals, hbehind⟩ := h.sealed
  have hread : reader.readFrame entry.stored.serialize = (.ok (some entry.plain),
      { reader with
        crypto := reader.crypto.incrementNonce
        partialFrame := []
        sequenceNumber := reader.sequenceNumber + 1 }) := by
    simp only [BackedReader.readFrame, openPacket_serialize h.lawful hseals]
  rw [hread]
  refine ⟨entry, behind, rfl, rfl, rfl, rfl, h.queue_nil, h.live, h.lawful, hbehind,
    fun other hmem => h.short other (List.mem_cons_of_mem _ hmem),
    fun hnil => absurd hnil.1 (by simp), ?_⟩
  rw [frames_cons, List.append_assoc] at hstream
  exact List.append_cancel_left hstream

/-- One call returns the next packet, or nothing where the socket has nothing to give. -/
theorem read (h : Synced reader unread ahead (arrived ++ later))
    (hprogress : ∀ r ∈ results, Progresses r) :
    TakesNext reader (unread ++ arrived) results ahead.head?
      ∧ ((reader.read (unread ++ arrived) results).result = .ok none
          ∧ Synced (reader.read (unread ++ arrived) results).reader
            (reader.read (unread ++ arrived) results).incoming ahead later
        ∨ ∃ entry behind, ahead = entry :: behind
          ∧ (reader.read (unread ++ arrived) results).result = .ok (some entry.plain)
          ∧ Synced (reader.read (unread ++ arrived) results).reader
            (reader.read (unread ++ arrived) results).incoming behind later) := by
  have hreads := reader.read_spec (unread ++ arrived) results
  obtain ⟨moved, left, hmoves, hpending⟩ := BackedReader.read_moves hprogress h.queue_nil h.live
    rfl
  unfold TakesNext
  generalize reader.read (unread ++ arrived) results = out at hreads hmoves hpending ⊢
  have hbuffer_eq : ∀ buffer, buffer ++ out.incoming = reader.partialFrame ++ (unread ++ arrived) →
      buffer = reader.partialFrame ++ moved := by
    intro buffer hbuffer
    rw [← hmoves.stream, ← List.append_assoc] at hbuffer
    exact List.append_cancel_right hbuffer
  cases hreads with
  | queued hqueue =>
      rw [h.queue_nil] at hqueue
      exact absurd hqueue (List.cons_ne_nil _ _).symm
  | idle hqueue hsocket => exact absurd hsocket h.live
  | @stopped socket result buffer rest hqueue hsocket hcompleted hresult hbuffer hframe =>
      obtain ⟨hnone, hnothing⟩ := hpending hcompleted
      refine ⟨⟨moved, left, hmoves, .inl ⟨hnone, hbuffer_eq buffer hbuffer, hnothing⟩⟩,
        .inl ⟨hnone, hqueue, h.live, h.lawful, h.sealed, h.short, hframe, ?_⟩⟩
      rw [hbuffer, ← h.stream]
      simp only [List.append_assoc]
  | framed hqueue hsocket hcompleted hbuffer hholds hexact hserialized =>
      obtain ⟨entry, behind, hahead, hframe, hsome, hnil, hsynced⟩ :=
        h.framed hbuffer hholds hexact hserialized
      rw [hbuffer_eq _ hbuffer] at hframe
      exact ⟨⟨moved, left, hmoves, .inr ⟨entry, by rw [hahead]; rfl, hsome, hframe, hnil⟩⟩,
        .inr ⟨entry, behind, hahead, hsome, hsynced⟩⟩

theorem fed (h : Synced reader unread ahead later) (hprogress : ∀ r ∈ results, Progresses r)
    (hfeeds : feeds results = true) (hunread : unread ≠ []) :
    (reader.read unread results).incoming.length < unread.length := by
  have hnow : Synced reader unread ahead ([] ++ later) := h
  obtain ⟨⟨moved, left, hmoves, htakes⟩, -⟩ := hnow.read hprogress
  rw [List.append_nil] at hmoves htakes
  have hlength := congrArg List.length hmoves.stream
  rw [List.length_append] at hlength
  have hmoved : moved ≠ [] := by
    rintro rfl
    rcases htakes with ⟨-, -, hnothing⟩ | ⟨entry, hnext, -, hwhole, -⟩
    · have hrest := hmoves.eq_nil_of_feeds hfeeds hnothing
      rw [hrest] at hlength
      exact hunread (List.length_eq_zero_iff.mp hlength.symm)
    · -- the frame under way is not a whole one
      apply h.partial_open
      rw [← List.append_nil reader.partialFrame, hwhole, ← List.append_nil (frame _)]
      exact BackedReader.holdsFrame_frame (h.short entry (List.mem_of_head? hnext)) []
  have hpositive := List.length_pos_iff.mpr hmoved
  omega

/-- Any calls return the first packets, and leave the reader at the start of the others. -/
theorem run {calls : List (Bytes × List IoResult)} {reader' : BackedReader} {unread' : Bytes}
    {returnedResults : List (Except Error (Option Packet))}
    (h : Synced reader unread ahead (calls.flatMap Prod.fst ++ later))
    (hprogress : ∀ call ∈ calls, ∀ r ∈ call.2, Progresses r)
    (hrun : receiveMachine.run (reader, unread) calls = some ((reader', unread'), returnedResults)) :
    (∀ result ∈ returnedResults, ∃ packet, result = .ok packet)
      ∧ ∃ first behind, ahead = first ++ behind
        ∧ returnedResults.flatMap returned = first.map Accepted.plain
        ∧ Synced reader' unread' behind later := by
  induction calls generalizing reader unread ahead returnedResults with
  | nil =>
      obtain ⟨hstate, rfl⟩ := Prod.mk.inj (Option.some.inj hrun)
      obtain ⟨rfl, rfl⟩ := Prod.mk.inj hstate
      exact ⟨by simp, [], ahead, rfl, rfl, h⟩
  | cons call calls ih =>
      obtain ⟨hhead, htail⟩ := List.forall_mem_cons.mp hprogress
      obtain ⟨⟨next, left⟩, first, rest, hstep, hrest, rfl⟩ := (receiveMachine.run_cons_eq_some).mp hrun
      obtain ⟨hstate, rfl⟩ := Prod.mk.inj (Option.some.inj hstep)
      obtain ⟨rfl, rfl⟩ := Prod.mk.inj hstate
      rw [List.flatMap_cons, List.append_assoc] at h
      rcases (h.read hhead).2 with ⟨hnone, hsynced⟩ | ⟨entry, behind, rfl, hsome, hsynced⟩
      · obtain ⟨hok, first, behind, hsplit, hreturned, hlast⟩ := ih hsynced htail hrest
        refine ⟨?_, first, behind, hsplit, ?_, hlast⟩
        · rw [List.forall_mem_append, List.forall_mem_singleton]
          exact ⟨⟨none, hnone⟩, hok⟩
        · rw [List.flatMap_append, List.flatMap_singleton, hnone, hreturned]
          rfl
      · obtain ⟨hok, first, last, rfl, hreturned, hlast⟩ := ih hsynced htail hrest
        refine ⟨?_, entry :: first, last, rfl, ?_, hlast⟩
        · rw [List.forall_mem_append, List.forall_mem_singleton]
          exact ⟨⟨_, hsome⟩, hok⟩
        · rw [List.flatMap_append, List.flatMap_singleton, hsome, hreturned]
          rfl

/-- Once everything is there, each call that is given bytes takes some until none are left. -/
theorem run_fed {calls : List (Bytes × List IoResult)} {reader' : BackedReader} {unread' : Bytes}
    {returnedResults : List (Except Error (Option Packet))} (h : Synced reader unread ahead [])
    (hquiet : calls.flatMap Prod.fst = []) (hprogress : ∀ call ∈ calls, ∀ r ∈ call.2, Progresses r)
    (hrun : receiveMachine.run (reader, unread) calls = some ((reader', unread'), returnedResults)) :
    unread' = [] ∨ unread'.length + calls.countP (fun call => feeds call.2) ≤ unread.length := by
  induction calls generalizing reader unread ahead returnedResults with
  | nil =>
      obtain ⟨hstate, rfl⟩ := Prod.mk.inj (Option.some.inj hrun)
      obtain ⟨rfl, rfl⟩ := Prod.mk.inj hstate
      exact .inr (by simp)
  | cons call calls ih =>
      obtain ⟨hhead, htail⟩ := List.forall_mem_cons.mp hprogress
      obtain ⟨hnothing, hlater⟩ := List.append_eq_nil_iff.mp (List.flatMap_cons ▸ hquiet)
      obtain ⟨⟨next, left⟩, first, rest, hstep, hrest, rfl⟩ := (receiveMachine.run_cons_eq_some).mp hrun
      obtain ⟨hstate, rfl⟩ := Prod.mk.inj (Option.some.inj hstep)
      obtain ⟨rfl, rfl⟩ := Prod.mk.inj hstate
      have hnow : Synced reader unread ahead (call.1 ++ []) := by rwa [hnothing]
      obtain ⟨⟨moved, left, hmoves, -⟩, hsynced⟩ := hnow.read hhead
      have hstream := congrArg List.length hmoves.stream
      rw [List.length_append] at hstream
      rw [hnothing, List.append_nil] at hrest hsynced hstream
      obtain ⟨behind, hafter⟩ : ∃ behind, Synced (reader.read unread call.2).reader
          (reader.read unread call.2).incoming behind [] := by
        rcases hsynced with ⟨-, hafter⟩ | ⟨entry, behind, -, -, hafter⟩
        · exact ⟨ahead, hafter⟩
        · exact ⟨behind, hafter⟩
      rcases ih hafter hlater htail hrest with hnil | hfew
      · exact .inl hnil
      · by_cases hunread : unread = []
        · subst hunread
          rw [List.length_nil] at hstream
          exact .inl (List.length_eq_zero_iff.mp (by omega))
        · by_cases hfeeds : feeds call.2 = true
          · have hless := h.fed hhead hfeeds hunread
            rw [List.countP_cons, if_pos hfeeds]
            exact .inr (by omega)
          · rw [List.countP_cons, if_neg hfeeds]
            exact .inr (by omega)

theorem ahead_eq_nil (h : Synced reader [] ahead []) : ahead = [] := by
  apply eq_nil_of_not_holdsFrame h.short
  rw [← h.stream, List.append_nil, List.append_nil]
  exact h.partial_open

theorem unread_eq_nil {early late : List (Bytes × List IoResult)} {reader' : BackedReader}
    {unread' : Bytes} {returnedResults : List (Except Error (Option Packet))}
    (h : Synced reader unread ahead (early.flatMap Prod.fst)) (hquiet : late.flatMap Prod.fst = [])
    (hprogress : ∀ call ∈ early ++ late, ∀ r ∈ call.2, Progresses r)
    (hrun : receiveMachine.run (reader, unread) (early ++ late) =
      some ((reader', unread'), returnedResults))
    (hfed : (frames ahead).length ≤ late.countP fun call => feeds call.2) : unread' = [] := by
  obtain ⟨hbefore, hafter⟩ := List.forall_mem_append.mp hprogress
  obtain ⟨⟨next, left⟩, first, rest, hearly, hlate, rfl⟩ := (receiveMachine.run_append_eq_some).mp hrun
  have hnow : Synced reader unread ahead (early.flatMap Prod.fst ++ []) := by rwa [List.append_nil]
  obtain ⟨-, taken, behind, rfl, -, hsynced⟩ := hnow.run hbefore hearly
  have hlength := congrArg List.length hsynced.stream
  rw [frames_append, List.length_append] at hfed
  rw [List.append_nil, List.length_append] at hlength
  rcases hsynced.run_fed hquiet hafter hlate with hnil | hfew
  · exact hnil
  · exact List.length_eq_zero_iff.mp (by omega)

end Synced

/-- **Framing does not depend on chunking.** Whatever parts the socket takes, successful writes put the
frames of their packets on it one after another, and with a socket that is there a write succeeds once it
has taken them all. Whatever parts arrive and whatever chunks a socket that is there gives, the reads
return the first of these packets in order, none fails, and what they took is exactly these packets'
frames and the part of the next one that is kept. The call after them returns nothing only where the
socket has nothing to give, and else the next packet, with nothing taken of the one behind it; once
everything has arrived, enough calls that are given bytes return every packet. A failed write has sent a
proper prefix of its frame. -/
theorem framing_independent_of_chunking {writer writer' : BackedWriter}
    {writes : List (Packet × List IoResult)} {outs : List WriteOutput}
    (hlawful : writer.crypto.cipher.Lawful)
    (hwrites : sendMachine.run writer writes = some (writer', outs))
    (hsuccess : ∀ out ∈ outs, out.state = .success)
    (hlength : ∀ write ∈ writes, write.1.length + macBytes < 2 ^ 32) :
    (∃ log : List Accepted, log.map Accepted.plain = writes.map Prod.fst
      ∧ SealedFrom writer.crypto.cipher writer.crypto.nonce log
      ∧ outs.map WriteOutput.sent = log.map (fun entry => frame entry.stored.serialize)
      ∧ ∀ (reader reader' : BackedReader) (calls : List (Bytes × List IoResult)) (unread : Bytes)
          (results : List (Except Error (Option Packet))),
          reader.crypto = writer.crypto → reader.socket ≠ none → reader.localBuffer = [] →
          reader.partialFrame = [] → calls.flatMap Prod.fst <+: outs.flatMap WriteOutput.sent →
          (∀ call ∈ calls, ∀ r ∈ call.2, Progresses r) →
          receiveMachine.run (reader, []) calls = some ((reader', unread), results) →
          (∀ result ∈ results, ∃ packet, result = .ok packet)
            ∧ (∃ k ≤ writes.length, results.flatMap returned = (writes.take k).map Prod.fst
              ∧ calls.flatMap Prod.fst = frames (log.take k) ++ reader'.partialFrame ++ unread
              ∧ ∀ arrived schedule,
                calls.flatMap Prod.fst ++ arrived <+: outs.flatMap WriteOutput.sent →
                (∀ r ∈ schedule, Progresses r) →
                TakesNext reader' (unread ++ arrived) schedule log[k]?)
            ∧ ¬ BackedReader.HoldsFrame reader'.partialFrame
            ∧ ∀ early late, calls = early ++ late →
                early.flatMap Prod.fst = outs.flatMap WriteOutput.sent →
                (outs.flatMap WriteOutput.sent).length ≤ late.countP (fun call => feeds call.2) →
                results.flatMap returned = writes.map Prod.fst)
      ∧ (writer.socket ≠ none → ∀ packet results, packet.encrypted = false →
          (∀ r ∈ results, Progresses r) →
          4 + packet.length + macBytes ≤ results.countP Except.isOk →
          (writer.write packet results).state = .success)
      ∧ ∀ packet results e sent, writeAllRetry (frame (Packet.serialize packet)) results =
          (.error e, sent) → sent <+: frame packet.serialize ∧ sent ≠ frame packet.serialize := by
  obtain ⟨log, hplain, hsealed, hsent⟩ := sealedFrom_of_run hwrites hsuccess
  have hstream := sent_eq_frames hsent
  have hshort : Short log := by
    refine hsealed.short hlawful fun packet hmem => ?_
    rw [hplain] at hmem
    obtain ⟨write, hwrite, rfl⟩ := List.mem_map.mp hmem
    exact hlength write hwrite
  refine ⟨⟨log, hplain, hsealed, hsent, ?_⟩, ?_, ?_⟩
  · intro reader reader' calls unread results hcrypto hlive hqueue hunfinished hpre hprogress hrun
    obtain ⟨later, hlater⟩ := hpre
    rw [hstream] at hlater
    have hsynced : Synced reader [] log (calls.flatMap Prod.fst ++ later) := by
      refine ⟨hqueue, hlive, hcrypto ▸ hlawful, hcrypto ▸ hsealed, hshort, ?_, ?_⟩
      · rw [hunfinished]
        exact fun hnil => absurd hnil.1 (by simp)
      · rw [hunfinished, List.nil_append, List.nil_append, hlater]
    obtain ⟨hok, first, behind, hsplit, hreturned, hlast⟩ := hsynced.run hprogress hrun
    have htake : log.take first.length = first := by rw [hsplit, List.take_left]
    refine ⟨hok, ⟨first.length, ?_, ?_, ?_, ?_⟩, hlast.partial_open, ?_⟩
    · have hcount := congrArg List.length hplain
      rw [hsplit, List.length_map, List.length_map, List.length_append] at hcount
      omega
    · rw [hreturned, List.map_take, ← hplain, ← List.map_take, htake]
    · apply (List.append_left_inj later).mp
      rw [htake, hlater, hsplit, frames_append, ← hlast.stream]
      simp only [List.append_assoc]
    · intro arrived schedule harrived hschedule
      obtain ⟨rest, hrest⟩ := harrived
      rw [hstream, ← hlater, List.append_assoc] at hrest
      obtain rfl := List.append_cancel_left hrest
      have htakes := (hlast.read hschedule).1
      have hnext : log[first.length]? = behind.head? := by
        rw [hsplit, List.getElem?_append_right le_rfl, Nat.sub_self, List.head?_eq_getElem?]
      rwa [hnext]
    · intro early late hcalls hall hfed
      subst hcalls
      rw [hstream] at hall hfed
      rw [List.flatMap_append, hall, List.append_assoc] at hlater
      obtain ⟨hquiet, rfl⟩ := List.append_eq_nil_iff.mp
        (List.append_cancel_left (hlater.trans (List.append_nil _).symm))
      have hstart : Synced reader [] log (early.flatMap Prod.fst) := by
        rwa [List.flatMap_append, hquiet, List.append_nil, List.append_nil] at hsynced
      have hnone := hstart.unread_eq_nil hquiet hprogress hrun hfed
      subst hnone
      obtain rfl := hlast.ahead_eq_nil
      rw [hreturned, ← hplain, hsplit, List.append_nil]
  · exact fun hlive packet results hflag hprogress hcounts =>
      write_succeeds hlawful hlive hflag hprogress hcounts
  · intro packet results e sent hfail
    obtain ⟨hpre, hwhole⟩ := writeAllRetry_sent (frame packet.serialize) results
    rw [hfail] at hpre hwhole
    exact ⟨hpre, fun hall => absurd (hwhole.mpr hall) (by simp)⟩

/-- Two packets, the first in three parts; the header of the second arrives with the end of the first. -/
theorem framing_independent_of_chunking_two_packets :
    let crypto : CryptoHandler := ⟨tagCipher, .start clientServerNonceMsb⟩
    let first : Bytes := frame (1 :: 1 :: (crypto.nonce.increment.bytes.take macBytes ++ [7]))
    let second : Bytes := frame (1 :: 2 :: crypto.nonce.increment.increment.bytes.take macBytes)
    let early : List (Bytes × List IoResult) :=
      [(first.take 2, [.ok 1, .error .interrupted, .ok 5, .error .wouldBlock]),
        (first.drop 2 ++ second.take 3, [.ok 2, .ok 100]), (second.drop 3, [.error .timedOut])]
    ∃ reader' unread results, receiveMachine.run (BackedReader.new crypto ⟨0⟩, [])
        (early ++ List.replicate 45 ([], [.error .interrupted, .ok 1])) =
          some ((reader', unread), results)
      ∧ results.flatMap returned = [.new 1 [7], .new 2 []] := by
  intro crypto first second early
  have hwrites : sendMachine.run (BackedWriter.new crypto ⟨0⟩)
      [(.new 1 [7], [.ok 3, .error .wouldBlock, .error .interrupted, .ok 100]),
        (.new 2 [], [.ok 100])] = some (_, _) := rfl
  obtain ⟨log, -, -, -, hreads⟩ :=
    (framing_independent_of_chunking tagCipher_lawful hwrites (by decide) (by decide)).1
  refine ⟨_, _, _, rfl, ?_⟩
  have h := hreads (BackedReader.new crypto ⟨0⟩) _
    (early ++ List.replicate 45 ([], [.error .interrupted, .ok 1])) _ _ rfl (Option.some_ne_none _) rfl
    rfl (by decide) (by decide) rfl
  exact h.2.2.2 early _ rfl (by decide) (by decide)

end EternalTerminal
