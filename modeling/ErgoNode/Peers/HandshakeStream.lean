import ErgoNode.Peers.Wire

/-!
# Reading a handshake off a connection

A handshake has no length before it. It is read byte by byte, and the bytes so far are parsed again
after each one, until they parse; so the first frame stays in the buffer of the reader. This rests on
a law of the parser: what it accepts has no strict prefix that it accepts or refuses for another
reason than that it is too short (`Reader.Streams`).
-/

namespace ErgoNode

open Reader

/-! ## The connection -/

/-- A buffered reader: the bytes in the buffer, and what each later read of the socket returns. -/
structure BufReader where
  buffer : Bytes
  segments : List { segment : Bytes // segment ≠ [] }

namespace BufReader

def pending (reader : BufReader) : Bytes := reader.buffer ++ (reader.segments.map (·.1)).flatten

def read : BufReader → Option (UInt8 × BufReader)
  | ⟨byte :: buffer, segments⟩ => some (byte, ⟨buffer, segments⟩)
  | ⟨[], []⟩ => none
  | ⟨[], segment :: segments⟩ => some (segment.1.head segment.2, ⟨segment.1.tail, segments⟩)

lemma read_of_pending {reader : BufReader} {byte : UInt8} {rest : Bytes}
    (h : reader.pending = byte :: rest) :
    ∃ reader', reader.read = some (byte, reader') ∧ reader'.pending = rest := by
  match reader, h with
  | ⟨_ :: buffer, segments⟩, h =>
    cases h
    exact ⟨_, rfl, rfl⟩
  | ⟨[], segment :: segments⟩, h =>
    have hsegment : segment.1 = segment.1.head segment.2 :: segment.1.tail :=
      (List.cons_head_tail segment.2).symm
    have hpending : segment.1 ++ (segments.map (·.1)).flatten = byte :: rest := h
    rw [hsegment] at hpending
    cases hpending
    exact ⟨_, rfl, rfl⟩

end BufReader

/-- The loop of `read_handshake`. The size of the buffer bounds its rounds. -/
def readHandshakeLoop : (fuel : ℕ) → Bytes → BufReader →
    Except HandshakeError (PeerSpec × ℕ × BufReader)
  | 0, _, _ => .error (.refused "Handshake exceeds maximum size")
  | fuel + 1, buf, reader =>
    match reader.read with
    | none => .error (.refused (if buf = [] then "Empty handshake" else "Incomplete handshake"))
    | some (byte, reader) =>
      let buf := buf ++ [byte]
      if handshakeMaxSize < buf.length then .error (.refused "Handshake exceeds maximum size")
      else
        match parseHandshake buf with
        | .ok spec => .ok (spec, buf.length, reader)
        | .error .unexpectedEof => readHandshakeLoop fuel buf reader
        | .error e => .error (.wire e)

/-- Read a handshake: what it says, its size, and the reader behind it. -/
def readHandshakeBuffered (reader : BufReader) :
    Except HandshakeError (PeerSpec × ℕ × BufReader) :=
  readHandshakeLoop (handshakeMaxSize + 1) [] reader

/-! ## The size of a handshake -/

def handshakeReader : Reader WireError PeerSpec := do
  let _timestamp ← readVlq
  parsePeerEntry

def skipAddress : Reader WireError Unit := do
  let addrLen ← readByte
  let _ipBytes ← readExact (addrLen.toNat - 4)
  let _port ← readVlq
  pure ()

def skipHandshake : Reader WireError Unit := do
  let _timestamp ← readVlq
  let _agent ← readShortString
  let _version ← readExact 3
  let _name ← readShortString
  let hasAddr ← readByte
  if hasAddr ≠ 0 then skipAddress else pure ()
  let featCount ← readByte
  let _features ← Reader.many parseFeature featCount.toNat
  pure ()

def measureSize (data : Bytes) : Except WireError ℕ := (skipHandshake ⟨0, data⟩).map (·.2.pos)

lemma skipHandshake_eq : skipHandshake = (do let _ ← handshakeReader; pure ()) := by
  simp only [skipHandshake, handshakeReader, parsePeerEntry, parseVersion, parseDeclaredAddress,
    parseFeatures, bind_assoc, pure_bind]
  refine bind_congr fun _ => bind_congr fun _ => bind_congr fun _ => bind_congr fun _ =>
    bind_congr fun hasAddr => ?_
  split
  · simp [skipAddress, parseAddress]
  · simp

/-! ## The prefix law -/

lemma streams_readByte : Streams WireError.unexpectedEof readByte :=
  .bind (.take 1) fun _ => .pure _

lemma streams_readVlqGroups (fuel k acc : ℕ) :
    Streams WireError.unexpectedEof (readVlqGroups fuel k acc) := by
  induction fuel generalizing k acc with
  | zero => exact .throw _
  | succ fuel ih =>
    refine .bind streams_readByte fun b => ?_
    dsimp only
    split
    · exact .pure _
    · exact ih _ _

lemma streams_readVlq : Streams WireError.unexpectedEof readVlq := streams_readVlqGroups 10 0 0

lemma streams_readShortString : Streams WireError.unexpectedEof readShortString := by
  refine .bind streams_readByte fun len => .bind (.take _) fun bytes => ?_
  rw [decodeUtf8]
  split
  · exact .pure _
  · exact .throw _

lemma streams_parseDeclaredAddress : Streams WireError.unexpectedEof parseDeclaredAddress := by
  refine .bind streams_readByte fun hasAddr => ?_
  split
  · exact .bind streams_readByte fun _ => .bind (.take _) fun _ =>
      .bind streams_readVlq fun _ => .pure _
  · exact .pure _

lemma streams_parseFeature : Streams WireError.unexpectedEof parseFeature := by
  refine .bind streams_readByte fun _ => .bind (.bind streams_readVlq fun val => ?_)
    fun _ => .bind (.take _) fun _ => .pure _
  split
  · exact .throw _
  · exact .pure _

lemma streams_handshakeReader : Streams WireError.unexpectedEof handshakeReader :=
  .bind streams_readVlq fun _ => .bind streams_readShortString fun _ =>
    .bind (.bind (.take 3) fun _ => .pure _) fun _ => .bind streams_readShortString fun _ =>
      .bind streams_parseDeclaredAddress fun _ =>
        .bind (.bind streams_readByte fun _ => streams_parseFeature.many _) fun _ => .pure _

/-- The loop takes the rest of the handshake off the reader, byte by byte. -/
theorem readHandshakeLoop_eq {h : Bytes} {spec : PeerSpec} (hsize : h.length ≤ handshakeMaxSize)
    (hall : parseHandshake h = .ok spec)
    (hshort : ∀ p q, h = p ++ q → q ≠ [] → parseHandshake p = .error .unexpectedEof)
    {fuel : ℕ} {buf rest t : Bytes} {reader : BufReader} (hsplit : h = buf ++ rest)
    (hrest : rest ≠ []) (hfuel : rest.length ≤ fuel) (hpending : reader.pending = rest ++ t) :
    ∃ reader', readHandshakeLoop fuel buf reader = .ok (spec, h.length, reader') ∧
      reader'.pending = t := by
  induction rest generalizing fuel buf reader with
  | nil => exact absurd rfl hrest
  | cons byte rest ih =>
    obtain ⟨reader₁, hread, hpending₁⟩ := BufReader.read_of_pending hpending
    have hsplit' : h = (buf ++ [byte]) ++ rest := by simp [hsplit]
    have hle : ¬handshakeMaxSize < (buf ++ [byte]).length := by
      have := congrArg List.length hsplit'
      rw [List.length_append] at this
      omega
    obtain ⟨fuel, rfl⟩ : ∃ n, fuel = n + 1 := ⟨fuel - 1, by rw [List.length_cons] at hfuel; omega⟩
    rw [readHandshakeLoop, hread]
    dsimp only
    rw [if_neg hle]
    by_cases hnil : rest = []
    · rw [hnil, List.append_nil] at hsplit'
      rw [← hsplit', hall]
      exact ⟨reader₁, rfl, by rw [hpending₁, hnil]; rfl⟩
    · rw [hshort _ _ hsplit' hnil]
      exact ih hsplit' hnil (Nat.le_of_succ_le_succ hfuel) hpending₁

/-- A handshake that is parsed to its end is read off every connection that brings it, and nothing
behind it is. -/
theorem readHandshake_exact {h : Bytes} {spec : PeerSpec} {pos : ℕ}
    (haccept : handshakeReader ⟨0, h⟩ = .ok (spec, ⟨pos, []⟩)) (hsize : h.length ≤ handshakeMaxSize)
    (t : Bytes) :
    parseHandshake h = .ok spec ∧
      (∀ reader : BufReader, reader.pending = h ++ t → ∃ reader',
        readHandshakeBuffered reader = .ok (spec, h.length, reader') ∧ reader'.pending = t) ∧
      (∀ p q, h = p ++ q → q ≠ [] → parseHandshake p = .error .unexpectedEof) ∧
      parseHandshake (h ++ t) = .ok spec ∧ measureSize (h ++ t) = .ok h.length := by
  obtain ⟨used, hused, hparses, hshort⟩ := streams_handshakeReader _ _ _ haccept
  obtain rfl : h = used := by simpa using hused
  have hparse : ∀ t, parseHandshake (h ++ t) = .ok spec := by
    intro t
    change (handshakeReader ⟨0, h ++ t⟩).map Prod.fst = _
    rw [hparses 0 t]
    rfl
  have hall : parseHandshake h = .ok spec := by simpa using hparse []
  have hprefix : ∀ p q, h = p ++ q → q ≠ [] → parseHandshake p = .error .unexpectedEof := by
    intro p q hsplit hq
    change (handshakeReader ⟨0, p⟩).map Prod.fst = _
    rw [hshort 0 p q hsplit hq]
    rfl
  have hne : h ≠ [] := by
    rintro rfl
    cases haccept
  refine ⟨hall, fun reader hpending => ?_, hprefix, hparse t, ?_⟩
  · exact readHandshakeLoop_eq hsize hall hprefix rfl hne (Nat.le_succ_of_le hsize) hpending
  · rw [measureSize, skipHandshake_eq, hparses.run_bind, Nat.zero_add]
    rfl

theorem readHandshake_exact_bare :
    ∃ reader', readHandshakeBuffered ⟨[], [⟨[0, 0, 4], by simp⟩, ⟨[0, 100, 0, 0, 0, 7], by simp⟩]⟩ =
      .ok (⟨.empty, ⟨4, 0, 100⟩, .empty, none, []⟩, 8, reader') ∧ reader'.pending = [7] :=
  (readHandshake_exact (show handshakeReader ⟨0, [0, 0, 4, 0, 100, 0, 0, 0]⟩ = .ok (_, ⟨8, []⟩) from rfl)
    (by decide) [7]).2.1 _ rfl

end ErgoNode
