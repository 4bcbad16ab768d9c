import ErgoNode.Library.Table
import ErgoNode.Peers.Wire

/-!
# The peer database

The addresses the node knows, each with what was last said about it and two stamps: when it was last
mentioned, and when the node last completed a handshake with it. Entries are merged, evicted when
there are too many, and written through to a table, whose rows of an older format have no handshake
stamp. A property that merging and a trip through the table keep (`Persistent`) holds of every entry
and row as soon as it holds of what is recorded.
-/

namespace ErgoNode

open List

/-! ## Records -/

structure PeerRecord where
  address : SocketAddr
  lastSeenMs : UInt64
  /-- When the node last completed a handshake with it; 0 is never. -/
  lastHandshakeMs : UInt64
  agentName : Utf8
  nodeName : Utf8
  version : Version
  features : List Feature
deriving DecidableEq, Repr

namespace PeerRecord

def isObserved (r : PeerRecord) : Bool := 0 < r.lastHandshakeMs

/-- The record in the place of a prior one: both stamps are the later ones. -/
def merge (r prior : PeerRecord) : PeerRecord :=
  { r with
    lastSeenMs := max r.lastSeenMs prior.lastSeenMs
    lastHandshakeMs := max r.lastHandshakeMs prior.lastHandshakeMs }

variable {r : PeerRecord}

lemma isObserved_merge {prior : PeerRecord} (h : (r.merge prior).isObserved = true) :
    r.isObserved = true ∨ prior.isObserved = true := by
  simp only [isObserved, decide_eq_true_eq] at h ⊢
  change 0 < (if r.lastHandshakeMs ≤ prior.lastHandshakeMs then _ else _) at h
  split at h
  · exact .inr h
  · exact .inl h

end PeerRecord

/-! ## Rows -/

def leBytes (n v : ℕ) : Bytes := (bytesOfNat n v).reverse

def natOfLeBytes (bytes : Bytes) : ℕ := natOfBytes bytes.reverse

@[simp]
lemma length_leBytes (n v : ℕ) : (leBytes n v).length = n := by simp [leBytes]

lemma natOfLeBytes_leBytes {n v : ℕ} (h : v < 256 ^ n) : natOfLeBytes (leBytes n v) = v := by
  rw [natOfLeBytes, leBytes, reverse_reverse, natOfBytes_bytesOfNat, Nat.mod_eq_of_lt h]

def maxFieldLength : ℕ := 65535

/-- Bytes behind their length; what is too long for the length is cut off. -/
def encodeBytes (bytes : Bytes) : Bytes :=
  leBytes 2 (min bytes.length maxFieldLength) ++ bytes.take (min bytes.length maxFieldLength)

def encodeFeature (feature : Feature) : Bytes := [feature.id] ++ encodeBytes feature.body

def encodeFields (r : PeerRecord) : Bytes :=
  leBytes 8 r.lastSeenMs.toNat ++ encodeBytes r.agentName.1 ++ encodeBytes r.nodeName.1 ++
    writeVersion r.version ++ [UInt8.ofNat (min r.features.length 255)] ++
    (r.features.take 255).flatMap encodeFeature

def encodeRecord (r : PeerRecord) : Bytes := encodeFields r ++ leBytes 8 r.lastHandshakeMs.toNat

inductive RecordError where
  | shortRead (want left : ℕ)
  | invalidUtf8
deriving DecidableEq, Repr

def takeField (n : ℕ) : Reader RecordError Bytes := do
  let left ← Reader.remaining
  Reader.take n fun _ => .shortRead n left

def readLe (n : ℕ) : Reader RecordError ℕ := do
  let bytes ← takeField n
  pure (natOfLeBytes bytes)

def readU8 : Reader RecordError UInt8 := do
  let bytes ← takeField 1
  pure (bytes.headD 0)

def readBytes : Reader RecordError Bytes := do
  let len ← readLe 2
  takeField len

def textOfBytes (bytes : Bytes) : Reader RecordError Utf8 :=
  if h : isUtf8 bytes = true then pure ⟨bytes, h⟩ else throw .invalidUtf8

def readStr : Reader RecordError Utf8 := do
  let bytes ← readBytes
  textOfBytes bytes

def readRecordVersion : Reader RecordError Version := do
  let v0 ← readU8
  let v1 ← readU8
  let v2 ← readU8
  pure ⟨v0, v1, v2⟩

def readFeature : Reader RecordError Feature := do
  let id ← readU8
  let body ← readBytes
  pure ⟨id, body⟩

def readFeatures : Reader RecordError (List Feature) := do
  let featCount ← readU8
  Reader.many readFeature featCount.toNat

def decodeFields (address : SocketAddr) : Reader RecordError PeerRecord := do
  let lastSeenMs ← readLe 8
  let agentName ← readStr
  let nodeName ← readStr
  let version ← readRecordVersion
  let features ← readFeatures
  pure ⟨address, UInt64.ofNat lastSeenMs, 0, agentName, nodeName, version, features⟩

/-- Read the handshake stamp; a row from before the field existed ends before it. -/
def readHandshakeStamp : Reader RecordError ℕ := do
  let left ← Reader.remaining
  if left = 0 then pure 0 else readLe 8

def PeerRecord.withHandshake (r : PeerRecord) (ms : ℕ) : PeerRecord :=
  { r with lastHandshakeMs := UInt64.ofNat ms }

def decodeStamp (r : PeerRecord) : Reader RecordError PeerRecord := do
  let lastHandshakeMs ← readHandshakeStamp
  pure (r.withHandshake lastHandshakeMs)

def decodeRecord (address : SocketAddr) (bytes : Bytes) : Except RecordError PeerRecord :=
  Reader.parse (decodeFields address >>= decodeStamp) bytes

def encodeAddr (addr : SocketAddr) : Bytes :=
  match addr.ip with
  | .v4 octets => [4] ++ octets.1 ++ bytesOfNat 2 addr.port.toNat
  | .v6 octets => [6] ++ octets.1 ++ bytesOfNat 2 addr.port.toNat

def decodeAddr (bytes : Bytes) : Option SocketAddr :=
  if bytes.head? = some 4 ∧ bytes.length = 7 then
    (IpAddr.ofOctets ((bytes.drop 1).take 4)).map
      fun ip => ⟨ip, UInt16.ofNat (natOfBytes (bytes.drop 5))⟩
  else if bytes.head? = some 6 ∧ bytes.length = 19 then
    (IpAddr.ofOctets ((bytes.drop 1).take 16)).map
      fun ip => ⟨ip, UInt16.ofNat (natOfBytes (bytes.drop 17))⟩
  else none

abbrev PeerTable := List (Bytes × Bytes)

def PeerTable.listPeers (table : PeerTable) : List (SocketAddr × Bytes) :=
  table.filterMap fun row => (decodeAddr row.1).map fun addr => (addr, row.2)

def PeerTable.loadAll (table : PeerTable) : List PeerRecord :=
  table.listPeers.filterMap fun row => (decodeRecord row.1 row.2).toOption

/-- The table, and the commits before it. No commit of a row is durable in itself, so a crash may go
back to any of them. -/
structure PeerStorage where
  table : PeerTable
  older : List PeerTable

namespace PeerStorage

def commit (storage : PeerStorage) (table : PeerTable) : PeerStorage :=
  ⟨table, storage.table :: storage.older⟩

def put (storage : PeerStorage) (r : PeerRecord) : PeerStorage :=
  storage.commit (insertKeyed Prod.fst (encodeAddr r.address, encodeRecord r) storage.table)

def delete (storage : PeerStorage) (addr : SocketAddr) : PeerStorage :=
  storage.commit (eraseKeyed Prod.fst (encodeAddr addr) storage.table)

/-- The storage after a crash that lost the last commits. -/
def reopen (storage : PeerStorage) (lost : ℕ) : PeerStorage :=
  match (storage.table :: storage.older).drop lost with
  | table :: older => ⟨table, older⟩
  | [] => storage

end PeerStorage

/-! ## The database -/

/-- What dial diversity and crowding count in: a /16 of IPv4, a /64 of IPv6. -/
def addressGroup (addr : SocketAddr) : Bytes :=
  match addr.ip with
  | .v4 octets => octets.1.take 2
  | .v6 octets => octets.1.take 8

structure PeerDb where
  entries : List PeerRecord
  cap : ℕ
  /-- Addresses that are banned in this session. -/
  blacklist : List SocketAddr
  selfAddresses : List SocketAddr
  storage : PeerStorage

namespace PeerDb

def defaultCap : ℕ := 1000

/-- Load the records of the table; those of the node's own addresses stay on disk. -/
def load (storage : PeerStorage) (cap : ℕ) (selfAddresses : List SocketAddr) : PeerDb where
  entries := (storage.table.loadAll.filter (·.address ∉ selfAddresses)).foldl
    (fun entries r => insertKeyed PeerRecord.address r entries) []
  cap := cap
  blacklist := []
  selfAddresses := selfAddresses
  storage := storage

def get (db : PeerDb) (addr : SocketAddr) : Option PeerRecord :=
  findKeyed PeerRecord.address addr db.entries

def remove (db : PeerDb) (addr : SocketAddr) : PeerDb :=
  { db with
    entries := eraseKeyed PeerRecord.address addr db.entries
    storage := db.storage.delete addr }

def store (db : PeerDb) (r : PeerRecord) : PeerDb :=
  { db with
    entries := insertKeyed PeerRecord.address r db.entries
    storage := db.storage.put r }

/-- The oldest handshake in the most crowded address groups, if a group has more than one observed
entry. -/
def crowdedObserved (db : PeerDb) : Option PeerRecord :=
  let observed := db.entries.filter (·.isObserved)
  let perGroup := fun (r : PeerRecord) =>
    observed.countP (fun r' => addressGroup r'.address = addressGroup r.address)
  match (observed.map perGroup).max? with
  | none => none
  | some most =>
    if most ≤ 1 then none
    else (observed.filter (perGroup · = most)).argmin (·.lastHandshakeMs.toNat)

/-- The entry that makes room: hearsay first, then crowding, then age. -/
def victim (db : PeerDb) : Option PeerRecord :=
  ((db.entries.filter (!·.isObserved)).argmin (·.lastSeenMs.toNat)).or
    (db.crowdedObserved.or (db.entries.argmin (·.lastHandshakeMs.toNat)))

def evictOldest (db : PeerDb) : PeerDb :=
  match db.victim with
  | some r => db.remove r.address
  | none => db

/-- Insert a record or update one; banned and own addresses are dropped. -/
def record (db : PeerDb) (r : PeerRecord) : PeerDb :=
  if r.address ∈ db.blacklist then db
  else if r.address ∈ db.selfAddresses then db
  else
    match db.get r.address with
    | some prior => db.store (r.merge prior)
    | none => (if db.cap ≤ db.entries.length then db.evictOldest else db).store r

def forget (db : PeerDb) (addr : SocketAddr) : PeerDb :=
  match db.get addr with
  | some _ => db.remove addr
  | none => db

/-- Up to `limit` observed entries that are neither excluded nor banned, the latest handshake
first. -/
def observed (db : PeerDb) (limit : ℕ) (exclude : List SocketAddr) : List PeerRecord :=
  if limit = 0 then []
  else
    let candidates := db.entries.filter fun r =>
      r.isObserved && r.address ∉ exclude && r.address ∉ db.blacklist
    (candidates.insertionSort (fun a b => b.lastHandshakeMs ≤ a.lastHandshakeMs)).take limit

lemma mem_observed {db : PeerDb} {limit : ℕ} {exclude : List SocketAddr}
    (h : r ∈ db.observed limit exclude) : r ∈ db.entries ∧ r.isObserved = true := by
  rw [observed] at h
  split at h
  · cases h
  · have hmem := (mem_insertionSort _).1 (mem_of_mem_take h)
    obtain ⟨hentry, hcond⟩ := mem_filter.1 hmem
    simp only [Bool.and_eq_true] at hcond
    exact ⟨hentry, hcond.1.1⟩

lemma length_observed_le (db : PeerDb) (limit : ℕ) (exclude : List SocketAddr) :
    (db.observed limit exclude).length ≤ limit := by
  rw [observed]
  split
  · exact Nat.zero_le _
  · exact length_take_le _ _

end PeerDb

/-! ## A trip through the table -/

namespace PeerRecord

/-- The names are not cut off in a row. -/
structure Storable (r : PeerRecord) : Prop where
  agentName : r.agentName.1.length ≤ maxFieldLength
  nodeName : r.nodeName.1.length ≤ maxFieldLength

def stored (r : PeerRecord) : PeerRecord :=
  { r with
    features := (r.features.take 255).map fun f => { f with body := f.body.take maxFieldLength } }

end PeerRecord

section Parses

open Reader

lemma parses_takeField {n : ℕ} {bytes : Bytes} (h : bytes.length = n) :
    Parses (takeField n) bytes bytes :=
  .remaining_bind fun _ _ => .take_of_length h _

lemma parses_readLe {n v : ℕ} (h : v < 256 ^ n) : Parses (readLe n) (leBytes n v) v := by
  have hread := (parses_takeField (length_leBytes n v)).map natOfLeBytes
  rwa [natOfLeBytes_leBytes h] at hread

lemma parses_readU8 (b : UInt8) : Parses readU8 [b] b := by
  have hbytes : Parses (takeField 1) [b] [b] := parses_takeField rfl
  exact hbytes.map (·.headD 0)

lemma parses_readBytes (bytes : Bytes) :
    Parses readBytes (encodeBytes bytes) (bytes.take maxFieldLength) := by
  have hlt : min bytes.length maxFieldLength < 256 ^ 2 :=
    Nat.lt_of_le_of_lt (Nat.min_le_right _ _) (by decide)
  have htake : bytes.take (min bytes.length maxFieldLength) = bytes.take maxFieldLength := by
    rw [take_eq_take_iff]
    omega
  rw [encodeBytes, htake]
  refine (parses_readLe hlt).bind (parses_takeField ?_)
  rw [length_take, Nat.min_comm]

lemma parses_readStr {s : Utf8} (h : s.1.length ≤ maxFieldLength) :
    Parses readStr (encodeBytes s.1) s := by
  have hbytes := parses_readBytes s.1
  rw [take_of_length_le h] at hbytes
  rw [← append_nil (encodeBytes s.1)]
  refine hbytes.bind ?_
  rw [textOfBytes, dif_pos s.2]
  exact .pure s

lemma parses_readRecordVersion (v : Version) : Parses readRecordVersion (writeVersion v) v :=
  (parses_readU8 v.major).bind ((parses_readU8 v.minor).bind
    ((parses_readU8 v.patch).map (Version.mk v.major v.minor)))

lemma parses_readFeature (feature : Feature) : Parses readFeature (encodeFeature feature)
    { feature with body := feature.body.take maxFieldLength } :=
  (parses_readU8 feature.id).bind ((parses_readBytes feature.body).map (Feature.mk feature.id))

lemma parses_readFeatures (features : List Feature) :
    Parses readFeatures
      ([UInt8.ofNat (min features.length 255)] ++ (features.take 255).flatMap encodeFeature)
      ((features.take 255).map fun f => { f with body := f.body.take maxFieldLength }) := by
  refine (parses_readU8 _).bind ?_
  have hcount : (UInt8.ofNat (min features.length 255)).toNat = (features.take 255).length := by
    rw [toNat_ofNat_u8 (Nat.min_le_right _ _), length_take, Nat.min_comm]
  rw [hcount]
  exact .many_map (fun feature _ => parses_readFeature feature)

lemma parses_decodeFields (h : r.Storable) :
    Parses (decodeFields r.address) (encodeFields r) (r.stored.withHandshake 0) := by
  have hseen : Parses (readLe 8) (leBytes 8 r.lastSeenMs.toNat) r.lastSeenMs.toNat :=
    parses_readLe r.lastSeenMs.toNat_lt
  simp only [encodeFields, append_assoc]
  refine hseen.bind ((parses_readStr h.agentName).bind ((parses_readStr h.nodeName).bind
    ((parses_readRecordVersion r.version).bind ?_)))
  rw [UInt64.ofNat_toNat]
  exact (parses_readFeatures r.features).map
    (PeerRecord.mk r.address r.lastSeenMs 0 r.agentName r.nodeName r.version)

lemma parses_readHandshakeStamp {v : ℕ} (h : v < 256 ^ 8) :
    Parses readHandshakeStamp (leBytes 8 v) v := by
  refine .remaining_bind (fun left hleft => ?_)
  rw [length_leBytes] at hleft
  rw [if_neg (by omega)]
  exact parses_readLe h

end Parses

lemma decodeRecord_encodeRecord (h : r.Storable) :
    decodeRecord r.address (encodeRecord r) = .ok r.stored := by
  have hstamp : (r.stored.withHandshake 0).withHandshake r.lastHandshakeMs.toNat = r.stored := by
    rw [PeerRecord.withHandshake, UInt64.ofNat_toNat]
    rfl
  have hread := (parses_readHandshakeStamp r.lastHandshakeMs.toNat_lt).map
    (r.stored.withHandshake 0).withHandshake
  rw [hstamp] at hread
  exact ((parses_decodeFields h).bind hread).parse_eq

lemma decodeRecord_encodeFields (h : r.Storable) :
    decodeRecord r.address (encodeFields r) = .ok (r.stored.withHandshake 0) := by
  have hread := (parses_decodeFields h).parse_bind (f := decodeStamp) []
  rwa [append_nil] at hread

lemma key_fields (family : UInt8) {octets : Bytes} {n : ℕ} (h : octets.length = n)
    (port : Bytes) :
    ((family :: (octets ++ port)).drop 1).take n = octets ∧
      (family :: (octets ++ port)).drop (n + 1) = port :=
  ⟨take_left' h, drop_left' h⟩

@[simp]
lemma decodeAddr_encodeAddr (addr : SocketAddr) : decodeAddr (encodeAddr addr) = some addr := by
  obtain ⟨ip, port⟩ := addr
  have hport : UInt16.ofNat (natOfBytes (bytesOfNat 2 port.toNat)) = port := by
    rw [natOfBytes_bytesOfNat, Nat.mod_eq_of_lt (show port.toNat < 256 ^ 2 from port.toNat_lt),
      UInt16.ofNat_toNat]
  cases ip with
  | v4 octets =>
    obtain ⟨hip, hrest⟩ := key_fields 4 octets.2 (bytesOfNat 2 port.toNat)
    have hoctets : IpAddr.ofOctets octets.1 = some (.v4 octets) :=
      IpAddr.ofOctets_octets (.v4 octets)
    have hkey : encodeAddr ⟨.v4 octets, port⟩ = 4 :: (octets.1 ++ bytesOfNat 2 port.toNat) := rfl
    rw [decodeAddr, hkey, if_pos ⟨rfl, by simp [octets.2]⟩, hip, hrest, hoctets, hport]
    rfl
  | v6 octets =>
    obtain ⟨hip, hrest⟩ := key_fields 6 octets.2 (bytesOfNat 2 port.toNat)
    have hoctets : IpAddr.ofOctets octets.1 = some (.v6 octets) :=
      IpAddr.ofOctets_octets (.v6 octets)
    have hkey : encodeAddr ⟨.v6 octets, port⟩ = 6 :: (octets.1 ++ bytesOfNat 2 port.toNat) := rfl
    rw [decodeAddr, hkey, if_neg (by simp), if_pos ⟨rfl, by simp [octets.2]⟩, hip, hrest, hoctets,
      hport]
    rfl

lemma mem_loadAll {table : PeerTable} (h : r ∈ table.loadAll) :
    ∃ row ∈ table, ∃ addr, decodeAddr row.1 = some addr ∧ decodeRecord addr row.2 = .ok r := by
  obtain ⟨⟨addr, bytes⟩, hlisted, hdecode⟩ := mem_filterMap.1 h
  obtain ⟨row, hrow, hkey⟩ := mem_filterMap.1 hlisted
  obtain ⟨addr', haddr, hpair⟩ := Option.map_eq_some_iff.1 hkey
  obtain ⟨rfl, rfl⟩ := Prod.mk.inj hpair
  refine ⟨row, hrow, addr', haddr, ?_⟩
  cases hd : decodeRecord addr' row.2 with
  | ok r' =>
    rw [hd] at hdecode
    exact congrArg Except.ok (Option.some.inj hdecode)
  | error e =>
    rw [hd] at hdecode
    cases hdecode

/-! ## What the database holds on to -/

/-- A property that the names of a kept record, merged records, and what a row leaves of a record
have. -/
structure Persistent (P : PeerRecord → Prop) : Prop where
  storable : ∀ {r}, P r → r.Storable
  merge : ∀ {r prior}, P r → P prior → prior.address = r.address → P (r.merge prior)
  stored : ∀ {r}, P r → P r.stored

def PeerTable.Holds (P : PeerRecord → Prop) (table : PeerTable) : Prop :=
  ∀ row ∈ table, ∀ addr r, decodeAddr row.1 = some addr → decodeRecord addr row.2 = .ok r → P r

def PeerStorage.Holds (P : PeerRecord → Prop) (storage : PeerStorage) : Prop :=
  ∀ table ∈ storage.table :: storage.older, table.Holds P

namespace PeerStorage.Holds

variable {P : PeerRecord → Prop} {storage : PeerStorage}

lemma commit {table : PeerTable} (h : storage.Holds P) (htable : table.Holds P) :
    (storage.commit table).Holds P := forall_mem_cons.2 ⟨htable, h⟩

lemma current (h : storage.Holds P) : storage.table.Holds P := h _ mem_cons_self

lemma put (hP : Persistent P) (h : storage.Holds P) (hr : P r) :
    (storage.put r).Holds P := by
  refine h.commit (fun row hrow addr r' haddr hdecode => ?_)
  rcases mem_insertKeyed hrow with rfl | hrow
  · -- the new row: it is read as what is left of the record
    rw [decodeAddr_encodeAddr, Option.some.injEq] at haddr
    subst haddr
    rw [decodeRecord_encodeRecord (hP.storable hr), Except.ok.injEq] at hdecode
    exact hdecode ▸ hP.stored hr
  · exact h.current row hrow addr r' haddr hdecode

lemma delete (h : storage.Holds P) (addr : SocketAddr) : (storage.delete addr).Holds P :=
  h.commit fun row hrow => h.current row (mem_of_mem_eraseKeyed hrow)

lemma reopen (h : storage.Holds P) (lost : ℕ) : (storage.reopen lost).Holds P := by
  rw [PeerStorage.reopen]
  split
  next table older hdrop =>
    intro table' htable'
    rw [← hdrop] at htable'
    exact h table' (mem_of_mem_drop htable')
  next => exact h

end PeerStorage.Holds

namespace PeerDb

/-- Every entry and every row has the property. -/
structure Holds (P : PeerRecord → Prop) (db : PeerDb) : Prop where
  entries : ∀ r ∈ db.entries, P r
  storage : db.storage.Holds P

namespace Holds

variable {P : PeerRecord → Prop} {db : PeerDb}

lemma remove (h : db.Holds P) (addr : SocketAddr) : (db.remove addr).Holds P :=
  ⟨fun r hr => h.entries r (mem_of_mem_eraseKeyed hr), h.storage.delete addr⟩

lemma store (hP : Persistent P) (h : db.Holds P) (hr : P r) :
    (db.store r).Holds P := by
  refine ⟨fun r' hr' => ?_, h.storage.put hP hr⟩
  rcases mem_insertKeyed hr' with rfl | hr'
  · exact hr
  · exact h.entries r' hr'

lemma evictOldest (h : db.Holds P) : db.evictOldest.Holds P := by
  rw [PeerDb.evictOldest]
  split
  · exact h.remove _
  · exact h

lemma record (hP : Persistent P) (h : db.Holds P) (hr : P r) :
    (db.record r).Holds P := by
  rw [PeerDb.record]
  split
  · exact h
  · split
    · exact h
    · split
      next prior hprior =>
        obtain ⟨hmem, haddr⟩ := findKeyed_eq_some hprior
        exact h.store hP (hP.merge hr (h.entries prior hmem) haddr)
      next =>
        split
        · exact h.evictOldest.store hP hr
        · exact h.store hP hr

lemma forget (h : db.Holds P) (addr : SocketAddr) : (db.forget addr).Holds P := by
  rw [PeerDb.forget]
  split
  · exact h.remove addr
  · exact h

lemma load {storage : PeerStorage} (h : storage.Holds P) (cap : ℕ)
    (selfAddresses : List SocketAddr) : (PeerDb.load storage cap selfAddresses).Holds P := by
  have hloaded : ∀ r ∈ storage.table.loadAll.filter (·.address ∉ selfAddresses), P r := by
    intro r hr
    obtain ⟨row, hrow, addr, haddr, hdecode⟩ := mem_loadAll (mem_of_mem_filter hr)
    exact h.current row hrow addr r haddr hdecode
  refine ⟨?_, h⟩
  refine foldlRecOn _ _ (motive := fun entries => ∀ r ∈ entries, P r)
    (fun r hr => nomatch hr) (fun entries hentries r hr r' hr' => ?_)
  rcases mem_insertKeyed hr' with rfl | hr'
  · exact hloaded r' hr
  · exact hentries r' hr'

end Holds

end PeerDb

end ErgoNode
