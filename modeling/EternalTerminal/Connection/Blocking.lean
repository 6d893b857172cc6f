import EternalTerminal.Connection.Handshake

/-!
# A socket that blocks (`proto.rs`, `write_proto` and `read_proto` of a `TcpStream`)

During a handshake the socket blocks, with a timeout on each system call, and the two functions go
through `write_all` and `read_exact` of the standard library. How a message is cut into calls does not
matter to what they do: they write a message whole or fail, and read one message and nothing behind it.
-/

namespace EternalTerminal

/-- What the peer has sent and nobody has read yet, what was written, and the answers of the system
calls to come. A call that has no answer times out. -/
structure BlockingStream where
  incoming : Bytes
  sent : Bytes
  results : List IoResult

/-- `Write::write_all`, with the bytes that went out and the answers that are left. -/
def writeAll : Bytes → List IoResult → Except ErrorKind Unit × Bytes × List IoResult
  | [], results => (.ok (), [], results)
  | _ :: _, [] => (.error .timedOut, [], [])
  | _ :: _, .ok 0 :: results => (.error .writeZero, [], results)
  | b :: data, .ok (n + 1) :: results =>
    let (outcome, sent, results) := writeAll ((b :: data).drop (n + 1)) results
    (outcome, (b :: data).take (n + 1) ++ sent, results)
  | b :: data, .error e :: results =>
    if e = .interrupted then writeAll (b :: data) results else (.error e, [], results)

/-- `Read::read_exact` of so many bytes, with what is left of the stream and of the answers. -/
def readExactly (need : Nat) (incoming : Bytes) :
    List IoResult → Except ErrorKind Bytes × Bytes × List IoResult
  | [] => if need = 0 then (.ok [], incoming, []) else (.error .timedOut, incoming, [])
  | r :: results =>
    if need = 0 then (.ok [], incoming, r :: results)
    else
      match readSome incoming need r with
      | .ok [] => (.error .unexpectedEof, incoming, results)
      | .ok (b :: chunk) =>
        let (outcome, incoming, results) :=
          readExactly (need - (chunk.length + 1)) (incoming.drop (chunk.length + 1)) results
        (outcome.map (b :: chunk ++ ·), incoming, results)
      | .error e =>
        if e = .interrupted then readExactly need incoming results else (.error e, incoming, results)

namespace BlockingStream

def writeAll (stream : BlockingStream) (data : Bytes) : Except ErrorKind Unit × BlockingStream :=
  let (outcome, sent, results) := EternalTerminal.writeAll data stream.results
  (outcome, { stream with sent := stream.sent ++ sent, results })

def readExact (stream : BlockingStream) (need : Nat) : Except ErrorKind Bytes × BlockingStream :=
  let (outcome, incoming, results) := readExactly need stream.incoming stream.results
  (outcome, { stream with incoming, results })

/-- `write_proto` -/
def writeProto {α : Type} [ProtoMessage α] (stream : BlockingStream) (msg : α) :
    Except ErrorKind Unit × BlockingStream :=
  let payload := ProtoMessage.encode msg
  match stream.writeAll (leBytes 8 payload.length) with
  | (.error e, stream) => (.error e, stream)
  | (.ok (), stream) => if payload.isEmpty then (.ok (), stream) else stream.writeAll payload

/-- `M::decode` at the end of `read_proto`. -/
def decodeProto (α : Type) [ProtoMessage α] (memory : Memory) (payload : Bytes) :
    Except ReadProtoFault α :=
  match ProtoMessage.decode memory payload with
  | .ok msg => .ok msg
  | .error (.err e) => .error (.proto e)
  | .error .crash => .error .crash

/-- `read_proto` -/
def readProto (α : Type) [ProtoMessage α] (memory : Memory) (stream : BlockingStream) :
    Except ReadProtoFault α × BlockingStream :=
  match stream.readExact 8 with
  | (.error e, stream) => (.error (.err (.io e)), stream)
  | (.ok header, stream) =>
    let len := i64FromLeBytes header
    if ¬ (0 ≤ len ∧ len ≤ maxProtoBytes) then
      (.error (.err (.msg s!"invalid proto length: {len}")), stream)
    else if len = 0 then (decodeProto α memory [], stream)
    else if !memory len.toNat then (.error .crash, stream)
    else
      match stream.readExact len.toNat with
      | (.error e, stream) => (.error (.err (.io e)), stream)
      | (.ok payload, stream) => (decodeProto α memory payload, stream)

end BlockingStream

/-! ### What the loops do -/

theorem writeAll_ok {data : Bytes} {results : List IoResult} (h : (writeAll data results).1 = .ok ()) :
    (writeAll data results).2.1 = data := by
  induction results generalizing data with
  | nil => cases data <;> simp [writeAll] at h ⊢
  | cons r results ih =>
      match data, r with
      | [], _ => rfl
      | _ :: _, .ok 0 => simp [writeAll] at h
      | b :: data, .ok (n + 1) =>
          simp only [writeAll] at h ⊢
          rw [ih h, List.take_append_drop]
      | b :: data, .error e =>
          simp only [writeAll] at h ⊢
          split_ifs at h ⊢
          exact ih h

theorem readExactly_ok {need : Nat} {incoming bytes : Bytes} {results : List IoResult}
    (h : (readExactly need incoming results).1 = .ok bytes) :
    incoming = bytes ++ (readExactly need incoming results).2.1 ∧ bytes.length = need := by
  induction results generalizing need incoming bytes with
  | nil =>
      simp only [readExactly] at h ⊢
      split_ifs at h ⊢ with hneed
      obtain rfl := Except.ok.inj h
      exact ⟨rfl, hneed.symm⟩
  | cons r results ih =>
      simp only [readExactly] at h ⊢
      split_ifs at h ⊢ with hneed
      · obtain rfl := Except.ok.inj h
        exact ⟨rfl, hneed.symm⟩
      · rcases hread : readSome incoming need r with e | (_ | ⟨b, chunk⟩) <;> rw [hread] at h
        · dsimp only at h ⊢
          split_ifs at h ⊢
          exact ih h
        · cases h
        · obtain ⟨⟨rest, hincoming⟩, hlength⟩ := readSome_prefix hread
          have hdrop : incoming.drop (chunk.length + 1) = rest := by
            rw [← hincoming]
            exact List.drop_left
          dsimp only at h ⊢
          rw [hdrop] at h ⊢
          cases hlater : (readExactly (need - (chunk.length + 1)) rest results).1 with
          | error e =>
              rw [hlater] at h
              cases h
          | ok later =>
              rw [hlater] at h
              obtain rfl := Except.ok.inj h
              obtain ⟨hrest, hlen⟩ := ih hlater
              refine ⟨?_, ?_⟩
              · rw [← hincoming, List.append_assoc, ← hrest]
              · simp only [List.length_append, List.length_cons] at hlength ⊢
                omega

/-- The calls to come move a byte or are interrupted, and so many of them move one. -/
structure Answering (n : Nat) (results : List IoResult) : Prop where
  each : ∀ r ∈ results, r = .error .interrupted ∨ ∃ count, r = .ok (count + 1)
  enough : n ≤ results.countP Except.isOk

namespace Answering

variable {n m count : Nat} {results : List IoResult}

theorem after (h : Answering n (.ok count :: results)) (hm : m + 1 ≤ n) : Answering m results := by
  refine ⟨fun r hmem => h.each r (List.mem_cons_of_mem _ hmem), ?_⟩
  have henough := h.enough
  rw [List.countP_cons_of_pos rfl] at henough
  omega

theorem interrupted (h : Answering n (.error .interrupted :: results)) : Answering n results := by
  refine ⟨fun r hmem => h.each r (List.mem_cons_of_mem _ hmem), ?_⟩
  have henough := h.enough
  rwa [List.countP_cons_of_neg (by decide)] at henough

theorem le_zero (h : Answering n []) : n = 0 := Nat.le_zero.mp h.enough

end Answering

theorem writeAll_answering {n : Nat} {data : Bytes} {results : List IoResult}
    (h : Answering (data.length + n) results) :
    ∃ left, writeAll data results = (.ok (), data, left) ∧ Answering n left := by
  induction results generalizing data with
  | nil =>
      obtain rfl := List.eq_nil_of_length_eq_zero (Nat.eq_zero_of_add_eq_zero_right h.le_zero)
      rw [List.length_nil, Nat.zero_add] at h
      exact ⟨[], rfl, h⟩
  | cons r results ih =>
      cases data with
      | nil =>
          rw [List.length_nil, Nat.zero_add] at h
          exact ⟨r :: results, rfl, h⟩
      | cons b data =>
          rcases h.each r List.mem_cons_self with rfl | ⟨count, rfl⟩
          · obtain ⟨left, hwrite, hleft⟩ := ih h.interrupted
            exact ⟨left, by simpa only [writeAll, if_true] using hwrite, hleft⟩
          · have hshort : ((b :: data).drop (count + 1)).length + n + 1 ≤ (b :: data).length + n := by
              simp only [List.length_drop, List.length_cons]
              omega
            obtain ⟨left, hwrite, hleft⟩ := ih (h.after hshort)
            refine ⟨left, ?_, hleft⟩
            simp only [writeAll, hwrite, List.take_append_drop]

/-- One `read` takes no byte behind those that are wanted. -/
theorem readSome_cons (b : UInt8) (bytes rest : Bytes) (count : Nat) :
    readSome (b :: (bytes ++ rest)) (bytes.length + 1) (.ok (count + 1)) = .ok (b :: bytes.take count) := by
  have hmin : min (count + 1) (bytes.length + 1) = min count bytes.length + 1 := by omega
  simp only [readSome, reduceCtorEq, if_false, hmin, List.take_succ_cons, Except.ok.injEq,
    List.cons.injEq, true_and]
  rw [List.take_append_of_le_length (Nat.min_le_right _ _), List.take_eq_take_min, Nat.min_assoc,
    Nat.min_self]
  exact List.take_eq_take_min.symm

theorem readExactly_answering {n : Nat} {bytes : Bytes} (rest : Bytes) {results : List IoResult}
    (h : Answering (bytes.length + n) results) :
    ∃ left, readExactly bytes.length (bytes ++ rest) results = (.ok bytes, rest, left)
      ∧ Answering n left := by
  induction results generalizing bytes with
  | nil =>
      obtain rfl := List.eq_nil_of_length_eq_zero (Nat.eq_zero_of_add_eq_zero_right h.le_zero)
      rw [List.length_nil, Nat.zero_add] at h
      exact ⟨[], rfl, h⟩
  | cons r results ih =>
      cases bytes with
      | nil =>
          rw [List.length_nil, Nat.zero_add] at h
          exact ⟨r :: results, rfl, h⟩
      | cons b bytes =>
          rcases h.each r List.mem_cons_self with rfl | ⟨count, rfl⟩
          · obtain ⟨left, hread, hleft⟩ := ih h.interrupted
            exact ⟨left, by simpa [readExactly, readSome] using hread, hleft⟩
          · have hshort : (bytes.drop count).length + n + 1 ≤ (b :: bytes).length + n := by
              simp only [List.length_drop, List.length_cons]
              omega
            obtain ⟨left, hread, hleft⟩ := ih (h.after hshort)
            refine ⟨left, ?_, hleft⟩
            have hneed : bytes.length + 1 - ((bytes.take count).length + 1) =
                (bytes.drop count).length := by
              simp only [List.length_take, List.length_drop]
              omega
            have hrest : (b :: (bytes ++ rest)).drop ((bytes.take count).length + 1) =
                bytes.drop count ++ rest := by
              rw [List.drop_succ_cons, ← List.take_append_drop count bytes, List.append_assoc]
              simp
            simp only [List.length_cons, List.cons_append, readExactly, Nat.add_one_ne_zero, if_false,
              readSome_cons, hneed, hrest, hread, Except.map, List.take_append_drop]

end EternalTerminal
