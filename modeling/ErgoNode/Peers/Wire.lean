import ErgoNode.Chain.Header
import ErgoNode.Library.Framing
import ErgoNode.Library.Result
import ErgoNode.Library.Vlq

/-!
# Peer entries on the wire

The description a peer gives of itself in its handshake, and that a third party repeats in a `Peers`
message. What a writer puts on the wire is not always what a reader takes off it: a length byte
drops what is above 255, and a reader refuses lengths above `maxVlqLength`. `PeerSpec.WellFormed`
says that an entry is within these limits. Every entry that was read is, and every such entry that
is written is read back.
-/

namespace ErgoNode

abbrev PeerId := ℕ

/-! ## Addresses and peer entries -/

/-- An IP address, by its octets in network order. -/
inductive IpAddr where
  | v4 (octets : { octets : Bytes // octets.length = 4 })
  | v6 (octets : { octets : Bytes // octets.length = 16 })
deriving DecidableEq, Repr

def IpAddr.octets : IpAddr → Bytes
  | v4 octets => octets.1
  | v6 octets => octets.1

def IpAddr.ofOctets (octets : Bytes) : Option IpAddr :=
  if h : octets.length = 4 then some (.v4 ⟨octets, h⟩)
  else if h : octets.length = 16 then some (.v6 ⟨octets, h⟩)
  else none

@[simp]
lemma IpAddr.ofOctets_octets (ip : IpAddr) : IpAddr.ofOctets ip.octets = some ip := by
  cases ip with
  | v4 octets => exact dif_pos octets.2
  | v6 octets => simp [ofOctets, IpAddr.octets, octets.2]

lemma IpAddr.length_octets_le (ip : IpAddr) : ip.octets.length ≤ 16 := by
  cases ip with
  | v4 octets => simp [IpAddr.octets, octets.2]
  | v6 octets => simp [IpAddr.octets, octets.2]

structure SocketAddr where
  ip : IpAddr
  port : UInt16
deriving DecidableEq, Repr

structure Version where
  major : UInt8
  minor : UInt8
  patch : UInt8
deriving DecidableEq, Repr

def Version.lt (a b : Version) : Bool :=
  a.major < b.major || (a.major = b.major &&
    (a.minor < b.minor || (a.minor = b.minor && a.patch < b.patch)))

def Version.display (v : Version) : String := s!"{v.major}.{v.minor}.{v.patch}"

def isUtf8 (bytes : Bytes) : Bool := ByteArray.validateUTF8 ⟨bytes.toArray⟩

abbrev Utf8 := { bytes : Bytes // isUtf8 bytes = true }

def Utf8.empty : Utf8 := ⟨[], by decide +kernel⟩

structure Feature where
  id : UInt8
  body : Bytes
deriving DecidableEq, Repr

structure PeerSpec where
  agent : Utf8
  version : Version
  name : Utf8
  address : Option SocketAddr
  features : List Feature
deriving DecidableEq, Repr

/-! ## Fields -/

/-- Errors of the readers. The kind of an error is what distinguishes bytes that end too early. -/
inductive WireError where
  | unexpectedEof
  | invalidUtf8
  | invalidData (text : String)
deriving DecidableEq, Repr

def readExact (n : ℕ) : Reader WireError Bytes := Reader.take n fun _ => .unexpectedEof

def readByte : Reader WireError UInt8 := Reader.byte fun _ => .unexpectedEof

/-- Read continuation groups from shift `7 * k` on, at most `fuel` of them. -/
def readVlqGroups : (fuel k acc : ℕ) → Reader WireError ℕ
  -- the shift has passed bit 63 and another byte would follow
  | 0, _, _ => throw (.invalidData "VLQ overflow")
  | fuel + 1, k, acc => do
    let b ← readByte
    let acc' := (acc + (b.toNat % 128) * 2 ^ (7 * k)) % 2 ^ 64
    if b.toNat < 128 then pure acc' else readVlqGroups fuel (k + 1) acc'

def readVlq : Reader WireError ℕ := readVlqGroups 10 0 0

def maxVlqLength : ℕ := 16388608

def maxBodySize : ℕ := 16388608

def readVlqLength : Reader WireError ℕ := do
  let val ← readVlq
  if maxVlqLength < val then
    throw (.invalidData s!"VLQ length too large: {val} (max {maxVlqLength})")
  else pure val

/-- A text behind its length in one byte, which drops what is above 255. -/
def writeShortString (s : Utf8) : Bytes := UInt8.ofNat s.1.length :: s.1

def decodeUtf8 (bytes : Bytes) : Reader WireError Utf8 :=
  if h : isUtf8 bytes = true then pure ⟨bytes, h⟩ else throw .invalidUtf8

def readShortString : Reader WireError Utf8 := do
  let len ← readByte
  let bytes ← readExact len.toNat
  decodeUtf8 bytes

def writeVersion (v : Version) : Bytes := [v.major, v.minor, v.patch]

def parseVersion : Reader WireError Version := do
  let ver ← readExact 3
  pure ⟨ver.getD 0 0, ver.getD 1 0, ver.getD 2 0⟩

/-- The declared address behind a flag; its length counts four bytes for the port, whatever the port
takes. -/
def writeDeclaredAddress : Option SocketAddr → Bytes
  | none => [0]
  | some addr =>
    [1] ++ [UInt8.ofNat (addr.ip.octets.length + 4)] ++ addr.ip.octets ++ putVlq addr.port.toNat

/-- Read an address; one that is neither four nor sixteen octets is read and dropped. -/
def parseAddress : Reader WireError (Option SocketAddr) := do
  let addrLen ← readByte
  let ipBytes ← readExact (addrLen.toNat - 4)
  let port ← readVlq
  pure ((IpAddr.ofOctets ipBytes).map fun ip => ⟨ip, UInt16.ofNat port⟩)

def parseDeclaredAddress : Reader WireError (Option SocketAddr) := do
  let hasAddr ← readByte
  if hasAddr ≠ 0 then parseAddress else pure none

def writeFeature (feature : Feature) : Bytes :=
  [feature.id] ++ putVlq feature.body.length ++ feature.body

def parseFeature : Reader WireError Feature := do
  let fid ← readByte
  let flen ← readVlqLength
  let fbody ← readExact flen
  pure ⟨fid, fbody⟩

def parseFeatures : Reader WireError (List Feature) := do
  let featCount ← readByte
  Reader.many parseFeature featCount.toNat

/-! ## Entries and bodies -/

def serializePeerEntry (spec : PeerSpec) : Bytes :=
  writeShortString spec.agent ++ writeVersion spec.version ++ writeShortString spec.name ++
    writeDeclaredAddress spec.address ++ [UInt8.ofNat spec.features.length] ++
    spec.features.flatMap writeFeature

def parsePeerEntry : Reader WireError PeerSpec := do
  let agent ← readShortString
  let version ← parseVersion
  let name ← readShortString
  let address ← parseDeclaredAddress
  let features ← parseFeatures
  pure ⟨agent, version, name, address, features⟩

def buildPeersBody (specs : List PeerSpec) : Bytes :=
  putVlq specs.length ++ specs.flatMap serializePeerEntry

def parsePeers (cap count : ℕ) : Reader WireError (List PeerSpec) :=
  if cap < count then throw (.invalidData s!"Peers count {count} exceeds cap {cap}")
  else Reader.many parsePeerEntry count

/-- Read the body of a `Peers` message; what follows the last entry is not looked at. -/
def parsePeersBody (body : Bytes) (cap : ℕ) : Except WireError (List PeerSpec) :=
  Reader.parse (readVlqLength >>= parsePeers cap) body

/-! ## The handshake -/

/-- Parse a handshake: a timestamp, which is not used, and a peer entry. -/
def parseHandshake (data : Bytes) : Except WireError PeerSpec :=
  Reader.parse (do
    let _timestamp ← readVlq
    parsePeerEntry) data

def handshakeMaxSize : ℕ := 8192

inductive HandshakeError where
  | wire (error : WireError)
  | refused (text : String)
deriving DecidableEq, Repr

/-- Add bytes of the stream to the buffer, one at a time, until it parses. -/
def readHandshakeFrom (buf : Bytes) : (stream : Bytes) → Except HandshakeError PeerSpec
  | [] => .error (.refused (if buf = [] then "Empty handshake" else "Incomplete handshake"))
  | byte :: stream =>
    if handshakeMaxSize < buf.length + 1 then .error (.refused "Handshake exceeds maximum size")
    else
      match parseHandshake (buf ++ [byte]) with
      | .ok spec => .ok spec
      | .error .unexpectedEof => readHandshakeFrom (buf ++ [byte]) stream
      | .error e => .error (.wire e)

def readHandshake (stream : Bytes) : Except HandshakeError PeerSpec := readHandshakeFrom [] stream

def eip37Min : Version := ⟨4, 0, 100⟩

def featureSession : UInt8 := 3

def Network.magic : Network → Bytes
  | .mainnet => [1, 0, 2, 4]
  | .testnet => [2, 3, 2, 3]

/-- Whether a session feature names another network; one that is too short does not. -/
def sessionMismatch (session : Feature) (network : Network) : Bool :=
  4 ≤ session.body.length && session.body.take 4 ≠ network.magic

def validatePeer (spec : PeerSpec) (network : Network) : Except HandshakeError Unit :=
  if spec.version.lt eip37Min then
    .error (.refused s!"Peer version {spec.version.display} is below minimum {eip37Min.display} (EIP-37)")
  else
    match spec.features.find? (·.id = featureSession) with
    | some session =>
      if sessionMismatch session network then
        .error (.refused
          s!"Session magic mismatch: {session.body.take 4} (expected {network.magic})")
      else .ok ()
    | none => .ok ()

/-- A connection is made when the peer's handshake was read and passes the checks. -/
def acceptHandshake (network : Network) (stream : Bytes) : Except HandshakeError PeerSpec := do
  let spec ← readHandshake stream
  validatePeer spec network
  pure spec

/-! ## What was written is read back -/

namespace PeerSpec

/-- The lengths fit what the wire has for them. -/
structure WellFormed (spec : PeerSpec) : Prop where
  agent : spec.agent.1.length ≤ 255
  name : spec.name.1.length ≤ 255
  features : spec.features.length ≤ 255
  bodies : ∀ feature ∈ spec.features, feature.body.length ≤ maxVlqLength

end PeerSpec

variable {n : ℕ}

lemma toNat_ofNat_u8 (h : n ≤ 255) : (UInt8.ofNat n).toNat = n := by
  rw [UInt8.toNat_ofNat']
  omega

section Parses

open Reader

lemma parses_readByte (b : UInt8) : Parses readByte [b] b := .byte b _

lemma parses_readExact {bytes : Bytes} (h : bytes.length = n) :
    Parses (readExact n) bytes bytes := .take_of_length h _

lemma readVlqGroups_eq_ok {fuel k acc : ℕ} {bytes rest : Bytes}
    (h : getVlqGroups fuel k acc bytes = some (n, rest)) :
    ∃ used, bytes = used ++ rest ∧
      ∀ pos, readVlqGroups fuel k acc ⟨pos, bytes⟩ = .ok (n, ⟨pos + used.length, rest⟩) := by
  induction fuel generalizing k acc bytes with
  | zero => cases h
  | succ fuel ih =>
    cases bytes with
    | nil => cases h
    | cons b bytes =>
      rw [getVlqGroups] at h
      have hread : ∀ pos, readVlqGroups (fuel + 1) k acc ⟨pos, b :: bytes⟩ =
          (if b.toNat < 128 then pure ((acc + (b.toNat % 128) * 2 ^ (7 * k)) % 2 ^ 64)
            else readVlqGroups fuel (k + 1) ((acc + (b.toNat % 128) * 2 ^ (7 * k)) % 2 ^ 64))
            ⟨pos + 1, bytes⟩ := fun pos => rfl
      split at h
      next hlast =>
        cases h
        exact ⟨[b], rfl, fun pos => by rw [hread, if_pos hlast]; rfl⟩
      next hlast =>
        obtain ⟨used, rfl, hused⟩ := ih h
        refine ⟨b :: used, rfl, fun pos => ?_⟩
        rw [hread, if_neg hlast, hused, List.length_cons, Nat.add_assoc, Nat.add_comm 1]

lemma parses_readVlq (h : n < 2 ^ 64) : Parses readVlq (putVlq n) n := by
  intro pos rest
  obtain ⟨used, hused, hread⟩ := readVlqGroups_eq_ok (getU64_putVlq h rest)
  obtain rfl := List.append_cancel_right hused
  exact hread pos

lemma parses_readVlqLength (h : n ≤ maxVlqLength) : Parses readVlqLength (putVlq n) n := by
  have hlt : n < 2 ^ 64 := Nat.lt_of_le_of_lt h (by decide)
  rw [← List.append_nil (putVlq n)]
  refine (parses_readVlq hlt).bind ?_
  rw [if_neg (Nat.not_lt.2 h)]
  exact .pure n

lemma parses_decodeUtf8 (s : Utf8) : Parses (decodeUtf8 s.1) [] s := by
  rw [decodeUtf8, dif_pos s.2]
  exact .pure s

lemma parses_readShortString {s : Utf8} (h : s.1.length ≤ 255) :
    Parses readShortString (writeShortString s) s := by
  rw [writeShortString, ← List.singleton_append, ← List.append_nil s.1]
  refine (parses_readByte _).bind ((parses_readExact ?_).bind (parses_decodeUtf8 s))
  rw [List.append_nil, toNat_ofNat_u8 h]

lemma parses_parseVersion (v : Version) : Parses parseVersion (writeVersion v) v := by
  have hbytes : Parses (readExact 3) (writeVersion v) (writeVersion v) := parses_readExact rfl
  exact hbytes.map fun ver => (⟨ver.getD 0 0, ver.getD 1 0, ver.getD 2 0⟩ : Version)

lemma parses_parseDeclaredAddress (address : Option SocketAddr) :
    Parses parseDeclaredAddress (writeDeclaredAddress address) address := by
  cases address with
  | none =>
    have hnone : Parses (if (0 : UInt8) ≠ 0 then parseAddress else pure none) [] none := .pure none
    exact (parses_readByte 0).bind hnone
  | some addr =>
    have hip := addr.ip.length_octets_le
    have hlen : addr.ip.octets.length = (UInt8.ofNat (addr.ip.octets.length + 4)).toNat - 4 := by
      rw [toNat_ofNat_u8 (by omega), Nat.add_sub_cancel]
    have hport : addr.port.toNat < 2 ^ 64 := Nat.lt_trans addr.port.toNat_lt (by decide)
    have hread := (parses_readVlq hport).map fun port =>
      (IpAddr.ofOctets addr.ip.octets).map fun ip => (⟨ip, UInt16.ofNat port⟩ : SocketAddr)
    rw [IpAddr.ofOctets_octets, Option.map_some, UInt16.ofNat_toNat] at hread
    refine (parses_readByte 1).bind ((parses_readByte _).bind ((parses_readExact hlen).bind ?_))
    simpa only [IpAddr.ofOctets_octets] using hread

lemma parses_parseFeature {feature : Feature} (h : feature.body.length ≤ maxVlqLength) :
    Parses parseFeature (writeFeature feature) feature := by
  exact (parses_readByte feature.id).bind ((parses_readVlqLength h).bind
    ((parses_readExact rfl).map (Feature.mk feature.id)))

variable {spec : PeerSpec}

lemma parses_parsePeerEntry (h : spec.WellFormed) :
    Parses parsePeerEntry (serializePeerEntry spec) spec := by
  have hfeatures : Parses parseFeatures
      ([UInt8.ofNat spec.features.length] ++ spec.features.flatMap writeFeature) spec.features := by
    refine (parses_readByte _).bind ?_
    rw [toNat_ofNat_u8 h.features]
    exact .many (fun feature hf => parses_parseFeature (h.bodies feature hf))
  simp only [serializePeerEntry, List.append_assoc]
  exact (parses_readShortString h.agent).bind ((parses_parseVersion spec.version).bind
    ((parses_readShortString h.name).bind ((parses_parseDeclaredAddress spec.address).bind
      (hfeatures.map (PeerSpec.mk spec.agent spec.version spec.name spec.address)))))

variable {specs : List PeerSpec}

lemma parsePeersBody_buildPeersBody {cap : ℕ} (h : ∀ spec ∈ specs, spec.WellFormed)
    (hlen : specs.length ≤ maxVlqLength) (hcap : specs.length ≤ cap) :
    parsePeersBody (buildPeersBody specs) cap = .ok specs := by
  have hmany : Parses (parsePeers cap specs.length) (specs.flatMap serializePeerEntry) specs := by
    rw [parsePeers, if_neg (Nat.not_lt.2 hcap)]
    exact .many (fun spec hs => parses_parsePeerEntry (h spec hs))
  exact ((parses_readVlqLength hlen).bind hmany).parse_eq

lemma eq_of_parsePeersBody_buildPeersBody {specs' : List PeerSpec} {cap : ℕ}
    (h : ∀ spec ∈ specs, spec.WellFormed) (hcount : specs.length < 2 ^ 64)
    (hparse : parsePeersBody (buildPeersBody specs) cap = .ok specs') : specs' = specs := by
  by_cases hlen : specs.length ≤ maxVlqLength
  · by_cases hcap : specs.length ≤ cap
    · rw [parsePeersBody_buildPeersBody h hlen hcap] at hparse
      exact (Except.ok.inj hparse).symm
    · rw [parsePeersBody, buildPeersBody, (parses_readVlqLength hlen).parse_bind, parsePeers,
        if_pos (Nat.lt_of_not_le hcap)] at hparse
      cases hparse
  · rw [parsePeersBody, buildPeersBody, readVlqLength, bind_assoc, (parses_readVlq hcount).parse_bind,
      if_pos (Nat.lt_of_not_le hlen)] at hparse
    cases hparse

end Parses

/-! ## What was read is well formed -/

section Yields

open Reader

lemma yields_readShortString : Yields readShortString (·.1.length ≤ 255) := by
  refine .bind_any (fun len => .bind (.take _ _) (fun bytes hbytes => ?_))
  rw [decodeUtf8]
  split
  · refine .pure ?_
    have := len.toNat_lt
    change bytes.length ≤ 255
    omega
  · exact .throw _

lemma yields_readVlqLength : Yields readVlqLength (· ≤ maxVlqLength) := by
  refine .bind_any (fun val => ?_)
  split
  next => exact .throw _
  next h => exact .pure (Nat.not_lt.1 h)

lemma yields_parseFeature : Yields parseFeature (·.body.length ≤ maxVlqLength) :=
  .bind_any fun _ => .bind yields_readVlqLength fun _ hlen => .bind (.take _ _) fun _ hbody =>
    .pure (hbody.trans_le hlen)

lemma yields_parseFeatures : Yields parseFeatures (fun features =>
    features.length ≤ 255 ∧ ∀ feature ∈ features, feature.body.length ≤ maxVlqLength) := by
  refine .bind_any (fun count c features c' hrun => ?_)
  obtain ⟨hlen, hbodies⟩ := Yields.many yields_parseFeature _ _ _ _ hrun
  have := count.toNat_lt
  exact ⟨by omega, hbodies⟩

lemma yields_parsePeerEntry : Yields parsePeerEntry PeerSpec.WellFormed :=
  .bind yields_readShortString fun _ hagent => .bind_any fun _ =>
    .bind yields_readShortString fun _ hname => .bind_any fun _ =>
      .bind yields_parseFeatures fun _ hfeatures =>
        .pure ⟨hagent, hname, hfeatures.1, hfeatures.2⟩

lemma wellFormed_of_parsePeersBody {body : Bytes} {cap : ℕ}
    (h : parsePeersBody body cap = .ok specs) : ∀ spec ∈ specs, spec.WellFormed := by
  have hyields : Yields (readVlqLength >>= parsePeers cap)
      (fun specs => ∀ spec ∈ specs, spec.WellFormed) := by
    refine .bind_any (fun count => ?_)
    rw [parsePeers]
    split
    · exact .throw _
    · exact fun c specs c' hrun => (Yields.many yields_parsePeerEntry _ _ _ _ hrun).2
  exact hyields.of_parse h

lemma wellFormed_of_readHandshakeFrom {buf stream : Bytes}
    (h : readHandshakeFrom buf stream = .ok spec) : spec.WellFormed := by
  have hparse : ∀ data, parseHandshake data = .ok spec → spec.WellFormed := fun data hdata =>
    Yields.of_parse (.bind_any fun _ => yields_parsePeerEntry) hdata
  induction stream generalizing buf with
  | nil => cases h
  | cons byte stream ih =>
    rw [readHandshakeFrom] at h
    split at h
    · cases h
    · split at h
      next spec' hspec =>
        cases h
        exact hparse _ hspec
      next => exact ih h
      next => cases h

lemma wellFormed_of_acceptHandshake {network : Network} {stream : Bytes}
    (h : acceptHandshake network stream = .ok spec) : spec.WellFormed := by
  obtain ⟨spec', hread, hrest⟩ := bind_eq_ok.1 h
  obtain ⟨-, -, hpure⟩ := bind_eq_ok.1 hrest
  cases hpure
  exact wellFormed_of_readHandshakeFrom hread

end Yields

end ErgoNode
