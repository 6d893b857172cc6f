import EternalTerminal.Proof.WriterLog

/-!
# No keystream is used twice

Over a run of a client's writer, packet `k` is sealed under the nonce `k`, everything that leaves the
writer under number `k` is the one byte string stored for it, and no nonce of the server's direction
is among the nonces used.
-/

namespace EternalTerminal

/-- What left the writer under some number is the stored packet of that number. -/
def EmitsLog (events : List WriterEvent) (log : List Accepted) : Prop :=
  ∀ (number : Int) (serialized : Bytes), .emitted number serialized ∈ events →
    ∃ (i : Nat) (entry : Accepted), log[i]? = some entry ∧ number = i + 1
      ∧ serialized = entry.stored.serialize

namespace EmitsLog

variable {events more : List WriterEvent} {log : List Accepted}

theorem extend (h : EmitsLog events log) (entries : List Accepted) :
    EmitsLog events (log ++ entries) := by
  intro number serialized hmem
  obtain ⟨i, entry, hentry, hnumber, hserialized⟩ := h number serialized hmem
  have hlt := (List.getElem?_eq_some_iff.mp hentry).1
  exact ⟨i, entry, by rw [List.getElem?_append_left hlt, hentry], hnumber, hserialized⟩

theorem append (h : EmitsLog events log) (hmore : EmitsLog more log) :
    EmitsLog (events ++ more) log := by
  intro number serialized hmem
  rcases List.mem_append.mp hmem with hold | hnew
  · exact h number serialized hold
  · exact hmore number serialized hnew

theorem unique (h : EmitsLog events log) {number : Int} {left right : Bytes}
    (hleft : .emitted number left ∈ events) (hright : .emitted number right ∈ events) :
    left = right := by
  obtain ⟨i, entry, hentry, hi, rfl⟩ := h number left hleft
  obtain ⟨j, other, hother, hj, rfl⟩ := h number right hright
  obtain rfl : i = j := by omega
  rw [hentry, Option.some.injEq] at hother
  rw [hother]

end EmitsLog

/-- A frame carries the number and the stored form of the packet just accepted. -/
theorem emitsLog_write {cipher : Cipher} {start : Nonce} {writer : BackedWriter}
    {log : List Accepted} (hlogs : Logs cipher start writer log) {packet : Packet}
    {results : List IoResult} {out : WriteOutput} (hwrite : writer.Writes packet results out) :
    EmitsLog (writeEvents writer packet out)
      (log ++ out.pushed.toList.map fun stored => ⟨out.writer.crypto.nonce, packet, stored⟩) := by
  intro number serialized hmem
  have hlast : ∀ entry : Accepted, (log ++ [entry])[log.length]? = some entry := by
    intro entry
    exact List.getElem?_concat_length
  cases hwrite with
  | refused hrefuses => simp [writeEvents] at hmem
  | notEncrypted hrefuses hencrypt => simp [writeEvents] at hmem
  | buffered hrefuses hencrypt hsocket => simp [writeEvents, hsocket] at hmem
  | sent hencrypt hsocket hall =>
      simp only [writeEvents, hsocket, Option.isSome_some, if_true, List.mem_cons, reduceCtorEq,
        WriterEvent.emitted.injEq, List.not_mem_nil, or_false, false_or] at hmem
      obtain ⟨rfl, rfl⟩ := hmem
      exact ⟨log.length, _, hlast _, by rw [BackedWriter.push_sequenceNumber, hlogs.sequence_eq], rfl⟩
  | broken hencrypt hsocket hfail =>
      simp only [writeEvents, hsocket, Option.isSome_some, if_true, List.mem_cons, reduceCtorEq,
        WriterEvent.emitted.injEq, List.not_mem_nil, or_false, false_or] at hmem
      obtain ⟨rfl, rfl⟩ := hmem
      exact ⟨log.length, _, hlast _, by rw [BackedWriter.push_sequenceNumber, hlogs.sequence_eq], rfl⟩

/-- A replay carries the stored forms under their own numbers. -/
theorem emitsLog_recover {cipher : Cipher} {start : Nonce} {writer : BackedWriter}
    {log : List Accepted} (hlogs : Logs cipher start writer log) (n : Int) :
    EmitsLog (recoverEvents n (writer.recover n)) log := by
  intro number serialized hmem
  rcases hrecover : writer.recover n with e | entries
  · simp [hrecover, recoverEvents] at hmem
  · obtain ⟨-, k, rfl, packets, hreplay, rfl⟩ := hlogs.retains.recover_eq_ok.mp hrecover
    obtain ⟨-, -, rfl⟩ := RetainedLog.replay_eq_some.mp hreplay
    simp only [hrecover, recoverEvents, List.mem_mapIdx, WriterEvent.emitted.injEq] at hmem
    obtain ⟨i, hi, rfl, rfl⟩ := hmem
    simp only [Retains.retained, List.length_map, List.length_drop] at hi
    refine ⟨k + i, log[k + i], List.getElem?_eq_getElem (by omega), by push_cast; ring, ?_⟩
    simp [Retains.retained]

theorem emitsLog_of_run {crypto : CryptoHandler} {socket : TcpStream}
    (htotal : ∀ nonce plaintext, (crypto.cipher.encrypt nonce plaintext).isSome)
    {ops : List WriterOp} {writer : BackedWriter} {events : List WriterEvent}
    (hrun : writerMachine.run (BackedWriter.new crypto socket) ops = some (writer, events)) :
    EmitsLog events (acceptedLog events) := by
  have hinv := writerMachine.run_invariant (I := fun writer events =>
    Logs crypto.cipher crypto.nonce writer (acceptedLog events) ∧ EmitsLog events
      (acceptedLog events)) ?_ [] ⟨.new crypto socket, fun _ _ hmem => by simp at hmem⟩ hrun
  · simpa using hinv.2
  · rintro writer before op writer' out ⟨hlogs, hemits⟩ hstep
    refine ⟨logs_of_run htotal before hlogs ((writerMachine.run_singleton).mpr hstep), ?_⟩
    rw [acceptedLog_append]
    apply (hemits.extend _).append
    cases writerStep_spec hstep with
    | write hwrites =>
        rw [acceptedLog_writeEvents]
        exact emitsLog_write hlogs hwrites
    | invalidateSocket => exact fun _ _ hmem => by simp at hmem
    | recover n => simpa using emitsLog_recover hlogs n
    | revive socket => exact fun _ _ hmem => by simp at hmem

/-- **No keystream reuse.** In a run of fewer than `2^184` packets, packet `k` is sealed under nonce
`k`, all that leaves the writer as number `k` is the same byte string, two packets never share a nonce,
and the nonces are apart from those of the server's direction under the same key. The bytes of the next
write on the socket are those of such a frame. -/
theorem writer_no_nonce_reuse {xsalsa20poly1305 : Bytes → Cipher} {key : Bytes}
    {crypto server : CryptoHandler} {socket : TcpStream}
    (hclient : CryptoHandler.new xsalsa20poly1305 key clientServerNonceMsb = .ok crypto)
    (hserver : CryptoHandler.new xsalsa20poly1305 key serverClientNonceMsb = .ok server)
    (htotal : ∀ nonce plaintext, ((xsalsa20poly1305 key).encrypt nonce plaintext).isSome)
    {ops : List WriterOp} {writer : BackedWriter} {events : List WriterEvent}
    (hrun : writerMachine.run (BackedWriter.new crypto socket) ops = some (writer, events))
    (hcount : (acceptedLog events).length < 2 ^ 184) :
    (∀ (i : Nat) (entry : Accepted), (acceptedLog events)[i]? = some entry →
        entry.nonce.bytes = leBytes (nonceBytes - 1) (i + 1) ++ [0]
          ∧ (xsalsa20poly1305 key).encrypt entry.nonce entry.plain.payload =
              some entry.stored.payload)
      ∧ (∀ (number : Int) (serialized : Bytes), .emitted number serialized ∈ events →
          ∃ (i : Nat) (entry : Accepted), (acceptedLog events)[i]? = some entry
            ∧ number = i + 1 ∧ serialized = entry.stored.serialize)
      ∧ (∀ (number : Int) (left right : Bytes), .emitted number left ∈ events →
          .emitted number right ∈ events → left = right)
      ∧ (∀ (i j : Nat) (left right : Accepted), (acceptedLog events)[i]? = some left →
          (acceptedLog events)[j]? = some right → left.nonce = right.nonce → i = j ∧ left = right)
      ∧ (∀ entry ∈ acceptedLog events, ∀ j < 2 ^ 184, entry.nonce ≠ server.nonce.advance j)
      ∧ (∀ packet results, (writer.write packet results).sent ≠ [] → ∃ serialized,
          .emitted (writer.write packet results).writer.sequenceNumber serialized ∈
              writeEvents writer packet (writer.write packet results)
            ∧ (writer.write packet results).sent <+: frame serialized) := by
  have hhandlers : crypto = ⟨xsalsa20poly1305 key, .start clientServerNonceMsb⟩
      ∧ server = ⟨xsalsa20poly1305 key, .start serverClientNonceMsb⟩ := by
    simp only [CryptoHandler.new] at hclient hserver
    split_ifs at hclient hserver
    exact ⟨(Except.ok.inj hclient).symm, (Except.ok.inj hserver).symm⟩
  obtain ⟨rfl, rfl⟩ := hhandlers
  have hlogs := logs_of_run_new htotal hrun
  have hemits := emitsLog_of_run htotal hrun
  have hindex : ∀ {i : Nat} {entry : Accepted}, (acceptedLog events)[i]? = some entry →
      i + 1 < 2 ^ 184 := by
    intro i entry hentry
    have hlt := (List.getElem?_eq_some_iff.mp hentry).1
    omega
  refine ⟨?_, hemits, fun _ _ _ => hemits.unique, ?_, ?_,
    fun packet results => sent_writeEvents (writer.write_spec packet results)⟩
  · intro i entry hentry
    obtain ⟨hnonce, hseals⟩ := hlogs.sealed i entry hentry
    exact ⟨by rw [hnonce]; exact Nonce.bytes_advance_start _ (hindex hentry), hseals.payload⟩
  · intro i j left right hleft hright hnonce
    obtain ⟨hi, -⟩ := hlogs.sealed i left hleft
    obtain ⟨hj, -⟩ := hlogs.sealed j right hright
    have hlt := hindex hleft
    have hlt' := hindex hright
    rw [hi, hj, Nonce.advance_inj (by omega) (by omega)] at hnonce
    obtain rfl : i = j := by omega
    rw [hleft, Option.some.injEq] at hright
    exact ⟨rfl, hright⟩
  · intro entry hentry j hj
    obtain ⟨i, hi⟩ := List.mem_iff_getElem?.mp hentry
    rw [(hlogs.sealed i entry hi).1]
    exact Nonce.advance_start_ne (by decide) (hindex hi) hj

/-- One packet written twice over: the frame and the replay carry the same bytes. -/
theorem writer_no_nonce_reuse_one_write :
    let crypto : CryptoHandler := ⟨tagCipher, .start clientServerNonceMsb⟩
    let ops : List WriterOp := [.write (.new 1 [7]) [.ok 64], .invalidateSocket, .recover 0]
    ∃ writer events, writerMachine.run (BackedWriter.new crypto ⟨0⟩) ops = some (writer, events)
      ∧ ∀ (number : Int) (left right : Bytes), .emitted number left ∈ events →
          .emitted number right ∈ events → left = right := by
  intro crypto ops
  refine ⟨_, _, rfl, ?_⟩
  have hclient : CryptoHandler.new (fun _ => tagCipher) (List.replicate keyBytes 0)
      clientServerNonceMsb = .ok crypto := rfl
  have hserver : CryptoHandler.new (fun _ => tagCipher) (List.replicate keyBytes 0)
      serverClientNonceMsb = .ok ⟨tagCipher, .start serverClientNonceMsb⟩ := rfl
  have hrun : writerMachine.run (BackedWriter.new crypto ⟨0⟩) ops = some (_, _) := rfl
  exact (writer_no_nonce_reuse hclient hserver tagCipher_lawful.encrypt_isSome hrun
    (by decide)).2.2.1

end EternalTerminal
