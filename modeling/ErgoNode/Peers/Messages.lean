import ErgoNode.Peers.Wire

/-!
# Messages between peers

A message is sent as a frame: the magic of the network, the code, the length of the body, and the
body behind the first bytes of its digest. An empty body has no checksum. The digest is a parameter.

A message of the size a peer takes is read back from its frame (`decode_encode`), with its counts and
lengths within the limits of the readers. Modifiers that are served are cut into batches by an
estimate of the size of their bodies, which bounds the size that is encoded.
-/

namespace ErgoNode

open List

/-! ## Frames -/

structure Frame where
  code : UInt8
  body : Bytes
deriving DecidableEq, Repr

abbrev Magic := { magic : Bytes // magic.length = 4 }

def minHeaderSize : ℕ := 9

def headerSize : ℕ := 13

namespace Frame

variable (digest : Bytes → { hash : Bytes // hash.length = 32 })

def checksum (body : Bytes) : Bytes := (digest body).1.take 4

def encode (magic : Magic) (frame : Frame) : Bytes :=
  magic.1 ++ [frame.code] ++ bytesOfNat 4 frame.body.length ++
    if frame.body = [] then [] else checksum digest frame.body ++ frame.body

def decode (magic : Magic) (data : Bytes) : Except WireError Frame :=
  let code := data.getD 4 0
  let bodyLen := natOfBytes ((data.drop 5).take 4)
  let expectedTotal := headerSize + bodyLen
  let body := (data.take expectedTotal).drop headerSize
  if data.length < minHeaderSize then
    .error (.invalidData s!"Frame too short: {data.length} bytes (need at least {minHeaderSize})")
  else if data.take 4 ≠ magic.1 then
    .error (.invalidData s!"Bad magic: {data.take 4} (expected {magic.1})")
  else if maxBodySize < bodyLen then
    .error (.invalidData s!"Body too large: {bodyLen} bytes (max {maxBodySize})")
  else if bodyLen = 0 then .ok ⟨code, []⟩
  else if data.length < expectedTotal then
    .error (.invalidData s!"Frame truncated: have {data.length} bytes, need {expectedTotal}")
  else if checksum digest body ≠ (data.drop 9).take 4 then .error (.invalidData "Checksum mismatch")
  else .ok ⟨code, body⟩

lemma decode_encode (magic : Magic) {frame : Frame} (h : frame.body.length ≤ maxBodySize) :
    decode digest magic (encode digest magic frame) = .ok frame := by
  obtain ⟨code, body⟩ := frame
  obtain ⟨magic, hmagic⟩ := magic
  obtain ⟨m₀, m₁, m₂, m₃, rfl⟩ := length_eq_four.1 hmagic
  obtain ⟨l₀, l₁, l₂, l₃, hlen⟩ := length_eq_four.1 (length_bytesOfNat 4 body.length)
  have hsum : (checksum digest body).length = 4 := by simp [checksum, (digest body).2]
  obtain ⟨c₀, c₁, c₂, c₃, hsum⟩ := length_eq_four.1 hsum
  have hbody : natOfBytes [l₀, l₁, l₂, l₃] = body.length := by
    rw [← hlen, natOfBytes_bytesOfNat]
    exact Nat.mod_eq_of_lt (Nat.lt_of_le_of_lt h (by decide))
  have hmax : ¬maxBodySize < body.length := Nat.not_lt.2 h
  rw [encode, hlen, hsum]
  by_cases hempty : body = []
  · subst hempty
    simp [decode, minHeaderSize, hbody]
  · have hpos : body.length ≠ 0 := mt length_eq_zero_iff.1 hempty
    simp [decode, minHeaderSize, headerSize, hbody, hmax, hempty, hsum, Nat.add_comm 13]

end Frame

/-! ## Messages -/

abbrev ModifierId := { id : Bytes // id.length = 32 }

inductive ProtocolMessage where
  | getPeers
  | peers (body : Bytes)
  | inv (modifierType : UInt8) (ids : List ModifierId)
  | modifierRequest (modifierType : UInt8) (ids : List ModifierId)
  | modifierResponse (modifierType : UInt8) (modifiers : List (ModifierId × Bytes))
  | syncInfo (body : Bytes)
  | unknown (code : UInt8) (body : Bytes)
deriving DecidableEq, Repr

def maxInvObjects : ℕ := 400

def encodeInvBody (modifierType : UInt8) (ids : List ModifierId) : Bytes :=
  [modifierType] ++ putVlq ids.length ++ ids.flatMap (·.1)

def encodeModifier (modifier : ModifierId × Bytes) : Bytes :=
  modifier.1.1 ++ putVlq modifier.2.length ++ modifier.2

def encodeModifierResponseBody (modifierType : UInt8) (modifiers : List (ModifierId × Bytes)) :
    Bytes :=
  [modifierType] ++ putVlq modifiers.length ++ modifiers.flatMap encodeModifier

def readModifierId : Reader WireError ModifierId := do
  let id ← readExact 32
  if h : id.length = 32 then pure ⟨id, h⟩ else throw .unexpectedEof

/-- Read a count of objects; `what` names them in the error. -/
def readCount (what : String) : Reader WireError ℕ := do
  let count ← readVlqLength
  if maxInvObjects < count then
    throw (.invalidData s!"{what} count {count} exceeds cap {maxInvObjects}")
  else pure count

def parseInvBody : Reader WireError (UInt8 × List ModifierId) := do
  let typeByte ← readByte
  let count ← readCount "INV/Request"
  let ids ← Reader.many readModifierId count
  pure (typeByte, ids)

/-- Read modifiers. The lengths they declare may not add up to more than the body. -/
def readModifiers (bodySize : ℕ) :
    (count allocated : ℕ) → Reader WireError (List (ModifierId × Bytes))
  | 0, _ => pure []
  | count + 1, allocated => do
    let id ← readModifierId
    let dataLen ← readVlqLength
    let total := allocated + dataLen
    if bodySize < total then
      throw (.invalidData
        s!"ModifierResponse declared payload {total} exceeds frame body {bodySize}")
    else
      let data ← readExact dataLen
      let modifiers ← readModifiers bodySize count total
      pure ((id, data) :: modifiers)

def parseModifierResponseBody (bodySize : ℕ) :
    Reader WireError (UInt8 × List (ModifierId × Bytes)) := do
  let typeByte ← readByte
  let count ← readCount "ModifierResponse"
  let modifiers ← readModifiers bodySize count 0
  pure (typeByte, modifiers)

namespace ProtocolMessage

/-- The codes that are not kept as unknown. -/
def knownCodes : List UInt8 := [1, 2, 22, 33, 55, 65]

def toFrame : ProtocolMessage → Frame
  | getPeers => ⟨1, []⟩
  | peers body => ⟨2, body⟩
  | inv modifierType ids => ⟨55, encodeInvBody modifierType ids⟩
  | modifierRequest modifierType ids => ⟨22, encodeInvBody modifierType ids⟩
  | modifierResponse modifierType modifiers =>
    ⟨33, encodeModifierResponseBody modifierType modifiers⟩
  | syncInfo body => ⟨65, body⟩
  | unknown code body => ⟨code, body⟩

def fromFrame (frame : Frame) : Except WireError ProtocolMessage :=
  if frame.code = 1 then .ok getPeers
  else if frame.code = 2 then .ok (peers frame.body)
  else if frame.code = 55 then (parseInvBody.parse frame.body).map fun r => inv r.1 r.2
  else if frame.code = 22 then (parseInvBody.parse frame.body).map fun r => modifierRequest r.1 r.2
  else if frame.code = 33 then
    ((parseModifierResponseBody frame.body.length).parse frame.body).map
      fun r => modifierResponse r.1 r.2
  else if frame.code = 65 then .ok (syncInfo frame.body)
  else .ok (unknown frame.code frame.body)

def objects : ProtocolMessage → ℕ
  | inv _ ids | modifierRequest _ ids => ids.length
  | modifierResponse _ modifiers => modifiers.length
  | _ => 0

/-- A message of the size a peer takes, and under a code of its own if it is unknown. -/
structure Legal (message : ProtocolMessage) : Prop where
  objects : message.objects ≤ maxInvObjects
  body : message.toFrame.body.length ≤ maxBodySize
  code : ∀ code body, message = unknown code body → code ∉ knownCodes

end ProtocolMessage

section Parses

open Reader

lemma parses_readModifierId (id : ModifierId) : Parses readModifierId id.1 id := by
  rw [← append_nil id.1]
  refine (parses_readExact (n := 32) id.2).bind ?_
  rw [dif_pos id.2]
  exact .pure id

lemma parses_readCount (what : String) {count : ℕ} (h : count ≤ maxInvObjects) :
    Parses (readCount what) (putVlq count) count := by
  rw [← append_nil (putVlq count)]
  refine (parses_readVlqLength (h.trans (by decide))).bind ?_
  rw [if_neg (Nat.not_lt.2 h)]
  exact .pure count

lemma parseInvBody_encodeInvBody (modifierType : UInt8) {ids : List ModifierId}
    (h : ids.length ≤ maxInvObjects) :
    parseInvBody.parse (encodeInvBody modifierType ids) = .ok (modifierType, ids) := by
  rw [encodeInvBody, append_assoc]
  exact ((parses_readByte modifierType).bind ((parses_readCount _ h).bind
    ((Parses.many fun id _ => parses_readModifierId id).map (Prod.mk modifierType)))).parse_eq

variable {modifiers : List (ModifierId × Bytes)}

lemma parses_readModifiers {bodySize allocated : ℕ}
    (hfits : allocated + (modifiers.flatMap encodeModifier).length ≤ bodySize)
    (hmax : bodySize ≤ maxVlqLength) :
    Parses (readModifiers bodySize modifiers.length allocated) (modifiers.flatMap encodeModifier)
      modifiers := by
  induction modifiers generalizing allocated with
  | nil => exact .pure []
  | cons modifier modifiers ih =>
    simp only [flatMap_cons, encodeModifier, length_append] at hfits
    have htail := @ih (allocated + modifier.2.length) (by omega)
    rw [flatMap_cons, encodeModifier, append_assoc, append_assoc]
    refine (parses_readModifierId modifier.1).bind ((parses_readVlqLength (by omega)).bind ?_)
    rw [if_neg (by omega)]
    exact (parses_readExact rfl).bind (htail.map (modifier :: ·))

lemma parseModifierResponseBody_encode (modifierType : UInt8) {bodySize : ℕ}
    (h : modifiers.length ≤ maxInvObjects)
    (hfits : 0 + (modifiers.flatMap encodeModifier).length ≤ bodySize)
    (hmax : bodySize ≤ maxVlqLength) :
    (parseModifierResponseBody bodySize).parse (encodeModifierResponseBody modifierType modifiers) =
      .ok (modifierType, modifiers) := by
  rw [encodeModifierResponseBody, append_assoc]
  exact ((parses_readByte modifierType).bind ((parses_readCount _ h).bind
    ((parses_readModifiers hfits hmax).map (Prod.mk modifierType)))).parse_eq

end Parses

lemma ProtocolMessage.fromFrame_toFrame {message : ProtocolMessage} (h : message.Legal) :
    fromFrame message.toFrame = .ok message := by
  obtain ⟨hcount, hbody, hcode⟩ := h
  cases message with
  | getPeers => rfl
  | peers body => rfl
  | inv modifierType ids =>
    simp [fromFrame, toFrame, parseInvBody_encodeInvBody modifierType hcount, Except.map]
  | modifierRequest modifierType ids =>
    simp [fromFrame, toFrame, parseInvBody_encodeInvBody modifierType hcount, Except.map]
  | modifierResponse modifierType modifiers =>
    have hfits : 0 + (modifiers.flatMap encodeModifier).length ≤
        (encodeModifierResponseBody modifierType modifiers).length := by
      simp only [encodeModifierResponseBody, length_append]
      omega
    simp [fromFrame, toFrame, parseModifierResponseBody_encode modifierType hcount hfits hbody,
      Except.map]
  | syncInfo body => rfl
  | unknown code body =>
    have hknown := hcode code body rfl
    simp only [knownCodes, mem_cons, not_mem_nil, not_or] at hknown
    simp [fromFrame, toFrame, hknown]

/-! ## Round trips -/

def PeerSpec.Parsed (spec : PeerSpec) : Prop := ∃ c c', parsePeerEntry c = .ok (spec, c')

/-- Every legal message is what is read from its frame, and parsed peer entries are what is read from
the body made of them, as many of them as the cap and a length on the wire allow. -/
theorem messages_readBack (digest : Bytes → { hash : Bytes // hash.length = 32 }) :
    (∀ magic message, ProtocolMessage.Legal message →
      (Frame.decode digest magic (Frame.encode digest magic message.toFrame) >>=
        ProtocolMessage.fromFrame) = .ok message) ∧
      ∀ (specs : List PeerSpec) (cap : ℕ), (∀ spec ∈ specs, spec.Parsed) → specs.length ≤ cap →
        specs.length ≤ maxVlqLength → parsePeersBody (buildPeersBody specs) cap = .ok specs := by
  refine ⟨fun magic message hlegal => ?_, fun specs cap hparsed hcap hlen => ?_⟩
  · rw [Frame.decode_encode digest magic hlegal.body]
    exact ProtocolMessage.fromFrame_toFrame hlegal
  · refine parsePeersBody_buildPeersBody (fun spec hspec => ?_) hlen hcap
    obtain ⟨c, c', hread⟩ := hparsed spec hspec
    exact yields_parsePeerEntry c spec c' hread

def PeerSpec.bare : PeerSpec := ⟨.empty, ⟨0, 0, 0⟩, .empty, none, []⟩

/-- One entry more than a length on the wire may be is refused, whatever the cap. -/
theorem long_peers_not_readBack : ¬∀ (specs : List PeerSpec) (cap : ℕ),
    (∀ spec ∈ specs, spec.Parsed) → specs.length ≤ cap →
      parsePeersBody (buildPeersBody specs) cap = .ok specs := by
  intro h
  have hbare : PeerSpec.bare.Parsed := ⟨⟨0, _⟩, _, parses_parsePeerEntry
    ⟨by decide, by decide, by decide, by simp [PeerSpec.bare]⟩ 0 []⟩
  have hread := h (replicate (maxVlqLength + 1) .bare) (maxVlqLength + 1)
    (fun spec hspec => eq_of_mem_replicate hspec ▸ hbare) (by rw [length_replicate])
  rw [parsePeersBody, buildPeersBody, readVlqLength, bind_assoc, length_replicate,
    (parses_readVlq (by decide)).parse_bind, if_pos (Nat.lt_succ_self _)] at hread
  cases hread

/-! ## Serving modifiers -/

def maxServeBatchBytes : ℕ := 2048576

/-- What an entry takes besides its data, at most. -/
def serveEntryOverhead : ℕ := 37

/-- What a body takes besides its entries. A count above 400 takes more. -/
def serveHeaderOverhead : ℕ := 3

structure ServeState where
  batches : List (List (ModifierId × Bytes))
  batch : List (ModifierId × Bytes)
  size : ℕ

def chunkStep (s : ServeState) (modifier : ModifierId × Bytes) : ServeState :=
  let entry := serveEntryOverhead + modifier.2.length
  if s.batch ≠ [] ∧ maxServeBatchBytes < s.size + entry then
    ⟨s.batches ++ [s.batch], [modifier], serveHeaderOverhead + entry⟩
  else ⟨s.batches, s.batch ++ [modifier], s.size + entry⟩

def chunkServed (served : List (ModifierId × Bytes)) : List (List (ModifierId × Bytes)) :=
  let s := served.foldl chunkStep ⟨[], [], serveHeaderOverhead⟩
  if s.batch = [] then s.batches else s.batches ++ [s.batch]

def serveSize (batch : List (ModifierId × Bytes)) : ℕ :=
  serveHeaderOverhead + (batch.map fun modifier => serveEntryOverhead + modifier.2.length).sum

/-- The estimate is within the limit, unless there is one modifier only. -/
def Servable (batch : List (ModifierId × Bytes)) : Prop :=
  batch ≠ [] ∧ (serveSize batch ≤ maxServeBatchBytes ∨ batch.length = 1)

/-- The state of the splitter after the modifiers `done`. -/
structure ServeInv (done : List (ModifierId × Bytes)) (s : ServeState) : Prop where
  concat : s.batches.flatten ++ s.batch = done
  batches : ∀ batch ∈ s.batches, Servable batch
  batch : s.batch = [] ∨ Servable s.batch
  size : s.size = serveSize s.batch

lemma ServeInv.chunkStep {done : List (ModifierId × Bytes)} {s : ServeState}
    (inv : ServeInv done s) (modifier : ModifierId × Bytes) :
    ServeInv (done ++ [modifier]) (chunkStep s modifier) := by
  obtain ⟨hconcat, hbatches, hbatch, hsize⟩ := inv
  rw [ErgoNode.chunkStep]
  split
  next hfull =>
    -- the batch is closed and the modifier begins a new one
    refine ⟨by simp [hconcat], ?_, .inr ⟨by simp, .inr rfl⟩, by simp [serveSize]⟩
    rw [forall_mem_append, forall_mem_singleton]
    exact ⟨hbatches, hbatch.resolve_left hfull.1⟩
  next hroom =>
    have hsize' : s.size + (serveEntryOverhead + modifier.2.length) =
        serveSize (s.batch ++ [modifier]) := by
      rw [hsize]
      simp [serveSize, Nat.add_assoc]
    refine ⟨by simp [← hconcat], hbatches, .inr ⟨by simp, ?_⟩, hsize'⟩
    by_cases hempty : s.batch = []
    · exact .inr (by simp [hempty])
    · exact .inl (by rw [← hsize']; exact Nat.not_lt.1 fun hlt => hroom ⟨hempty, hlt⟩)

lemma serveInv_foldl (served : List (ModifierId × Bytes)) :
    ServeInv served (served.foldl chunkStep ⟨[], [], serveHeaderOverhead⟩) := by
  induction served using reverseRecOn with
  | nil => exact ⟨rfl, by simp, .inl rfl, rfl⟩
  | append_singleton served modifier ih =>
    rw [foldl_append]
    exact ih.chunkStep modifier

lemma length_putVlqGroups_le {fuel n k : ℕ} (h : n < 128 ^ (k + 1)) :
    (putVlqGroups fuel n).length ≤ k + 1 := by
  induction fuel generalizing n k with
  | zero => exact Nat.zero_le _
  | succ fuel ih =>
    rw [putVlqGroups]
    split
    · simp
    next hmore =>
      cases k with
      | zero => exact absurd (by simpa using h) hmore
      | succ k =>
        rw [length_cons]
        exact Nat.succ_le_succ (ih (Nat.div_lt_of_lt_mul (by rwa [Nat.pow_succ'] at h)))

/-- Entries whose length takes at most four bytes leave one byte each for the count. -/
theorem length_encodeModifierResponseBody_le (modifierType : UInt8)
    {batch : List (ModifierId × Bytes)} (hne : batch ≠ [])
    (h : serveSize batch ≤ maxServeBatchBytes) :
    (encodeModifierResponseBody modifierType batch).length ≤ serveSize batch := by
  have hentries : ∀ b : List (ModifierId × Bytes), serveSize b ≤ maxServeBatchBytes →
      (b.flatMap encodeModifier).length + b.length + serveHeaderOverhead ≤ serveSize b := by
    intro b hb
    induction b with
    | nil => exact Nat.le_refl _
    | cons modifier b ih =>
      simp only [serveSize, map_cons, sum_cons, serveHeaderOverhead, serveEntryOverhead,
        maxServeBatchBytes] at hb ih ⊢
      have hvlq : (putVlq modifier.2.length).length ≤ 4 :=
        length_putVlqGroups_le (k := 3) (by omega)
      have hid := modifier.1.2
      have hrest := ih (by omega)
      simp only [flatMap_cons, encodeModifier, length_append, length_cons]
      omega
  have hpos := length_pos_iff.2 hne
  have hcount : (putVlq batch.length).length ≤ batch.length := by
    obtain ⟨k, hk⟩ := Nat.exists_eq_add_of_lt hpos
    rw [Nat.zero_add] at hk
    exact hk ▸ length_putVlqGroups_le (Nat.lt_pow_self (by decide))
  have hsum := hentries batch h
  simp only [encodeModifierResponseBody, length_append, length_singleton]
  simp only [serveHeaderOverhead] at hsum
  omega

/-- The batches are the modifiers in order, none is empty, and the body of a batch of more than one
modifier is within the limit. -/
theorem chunkServed_spec (served : List (ModifierId × Bytes)) :
    (chunkServed served).flatten = served ∧ ∀ batch ∈ chunkServed served, batch ≠ [] ∧
      ∀ modifierType,
        (encodeModifierResponseBody modifierType batch).length ≤ maxServeBatchBytes ∨
          batch.length = 1 := by
  obtain ⟨hconcat, hbatches, hbatch, -⟩ := serveInv_foldl served
  have hservable : (chunkServed served).flatten = served ∧
      ∀ batch ∈ chunkServed served, Servable batch := by
    rw [chunkServed]
    split
    next hempty =>
      rw [hempty, append_nil] at hconcat
      exact ⟨hconcat, hbatches⟩
    next hrest =>
      rw [forall_mem_append, forall_mem_singleton]
      exact ⟨by simpa using hconcat, hbatches, hbatch.resolve_left hrest⟩
  refine ⟨hservable.1, fun batch hmem => ?_⟩
  obtain ⟨hne, hsize⟩ := hservable.2 batch hmem
  refine ⟨hne, fun modifierType => hsize.imp_left fun hle => ?_⟩
  exact (length_encodeModifierResponseBody_le modifierType hne hle).trans hle

end ErgoNode
