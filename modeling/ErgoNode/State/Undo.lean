import ErgoNode.Chain.Header
import ErgoNode.Library.Framing
import ErgoNode.Library.Result

/-!
# Undo records and the version chain on disk

What an update of the state storage keeps to be reversed by, and the chain of versions with their
log sequence numbers, as they are laid out in the database. Counts and lengths are written as four
bytes, whatever they are: above `2 ^ 32` the header loses information, so the round trips are for
encodings that are shorter.
-/

namespace ErgoNode

open List Reader

abbrev Digest32 := { label : Bytes // label.length = 32 }

instance : LawfulBEq Digest32 := inferInstance

inductive StateError where
  /-- An undo record ends inside a number or a label, at an offset. -/
  | undoTruncated (pos : ℕ)
  | undoTruncatedPacked (pos : ℕ)
  | undoTruncatedVersion (pos : ℕ)
  | chainTooShort
  | chainTruncated
  | chainTruncatedDigest
  | proverHasNoRoot
  | corruptHeight
  | versionNotFound
  | missingUndoRecord (lsn : UInt64)
  | noRootState
  | rootNotFound
  | valueTooLarge (length : ℕ)
  | panicked
  deriving Repr, DecidableEq

/-! ## Fields -/

def u32Bytes (n : UInt32) : Bytes := bytesOfNat 4 n.toNat

def u64Bytes (n : UInt64) : Bytes := bytesOfNat 8 n.toNat

def u32OfBytes (bytes : Bytes) : UInt32 := UInt32.ofNat (natOfBytes bytes)

def u64OfBytes (bytes : Bytes) : UInt64 := UInt64.ofNat (natOfBytes bytes)

@[simp]
lemma length_u32Bytes (n : UInt32) : (u32Bytes n).length = 4 := length_bytesOfNat 4 _

@[simp]
lemma length_u64Bytes (n : UInt64) : (u64Bytes n).length = 8 := length_bytesOfNat 8 _

@[simp]
lemma u32OfBytes_u32Bytes (n : UInt32) : u32OfBytes (u32Bytes n) = n := by
  rw [u32OfBytes, u32Bytes, natOfBytes_bytesOfNat,
    Nat.mod_eq_of_lt (show n.toNat < 256 ^ 4 from n.toNat_lt), UInt32.ofNat_toNat]

@[simp]
lemma u64OfBytes_u64Bytes (n : UInt64) : u64OfBytes (u64Bytes n) = n := by
  rw [u64OfBytes, u64Bytes, natOfBytes_bytesOfNat,
    Nat.mod_eq_of_lt (show n.toNat < 256 ^ 8 from n.toNat_lt), UInt64.ofNat_toNat]

lemma toNat_u32_of_lt {n : ℕ} (h : n < 2 ^ 32) : (UInt32.ofNat n).toNat = n :=
  UInt32.toNat_ofNat_of_lt h

lemma u32Bytes_u32OfBytes {bytes : Bytes} (h : bytes.length = 4) :
    u32Bytes (u32OfBytes bytes) = bytes := by
  have hlt : natOfBytes bytes < 2 ^ 32 := by simpa [h] using natOfBytes_lt bytes
  rw [u32Bytes, u32OfBytes, toNat_u32_of_lt hlt, ← h, bytesOfNat_natOfBytes]

/-- Bytes that have to be a label; the code panics when they are not 32. -/
def Digest32.ofBytes (bytes : Bytes) : Except StateError Digest32 :=
  if h : bytes.length = 32 then .ok ⟨bytes, h⟩ else .error .panicked

@[simp]
lemma Digest32.ofBytes_val (d : Digest32) : Digest32.ofBytes d.1 = .ok d := dif_pos d.2

namespace UndoReader

def readU32 : Reader StateError UInt32 := do
  let bytes ← Reader.take 4 .undoTruncated
  pure (u32OfBytes bytes)

def readDigest : Reader StateError Digest32 := do
  let bytes ← Reader.take 32 .undoTruncated
  StateT.lift (Digest32.ofBytes bytes)

def readSized (truncated : ℕ → StateError) : Reader StateError Bytes := do
  let length ← readU32
  Reader.take length.toNat truncated

def readRemoved : Reader StateError (Digest32 × Bytes) := do
  let label ← readDigest
  let packed ← readSized .undoTruncatedPacked
  pure (label, packed)

lemma parses_readU32 (n : UInt32) : Reader.Parses readU32 (u32Bytes n) n := by
  have h := (Parses.take (u32Bytes n) StateError.undoTruncated).map u32OfBytes
  rwa [length_u32Bytes, u32OfBytes_u32Bytes] at h

lemma parses_readDigest (d : Digest32) : Reader.Parses readDigest d.1 d := by
  intro pos rest
  have htake := Parses.take d.1 StateError.undoTruncated pos rest
  rw [d.2] at htake
  show (take 32 StateError.undoTruncated ⟨pos, d.1 ++ rest⟩ >>= fun p =>
    (StateT.lift (Digest32.ofBytes p.1) : Reader StateError Digest32) p.2) = _
  rw [htake, d.2]
  show (Digest32.ofBytes d.1 >>= fun a => Except.ok (a, _)) = _
  rw [Digest32.ofBytes_val]
  rfl

lemma parses_readSized (truncated : ℕ → StateError) {bytes : Bytes} (h : bytes.length < 2 ^ 32) :
    Reader.Parses (readSized truncated) (u32Bytes (UInt32.ofNat bytes.length) ++ bytes) bytes := by
  refine (parses_readU32 _).bind ?_
  rw [toNat_u32_of_lt h]
  exact Parses.take bytes truncated

end UndoReader

/-! ## Undo records -/

/-- What is needed to reverse one update. -/
structure UndoRecord where
  /-- Nodes that left the tree, with their packed bytes. -/
  removedNodes : List (Digest32 × Bytes)
  insertedLabels : List Digest32
  prevTopNodeHash : Digest32
  /-- The height of the tree before the update. -/
  prevTopNodeHeight : UInt32
  /-- The version before the update, empty for the first one. -/
  prevVersion : Bytes
  prevBlockHeight : UInt32
  deriving DecidableEq

namespace UndoRecord

def removedBytes (node : Digest32 × Bytes) : Bytes :=
  node.1.1 ++ (u32Bytes (UInt32.ofNat node.2.length) ++ node.2)

def serialize (r : UndoRecord) : Bytes :=
  u32Bytes (UInt32.ofNat r.removedNodes.length) ++ (r.removedNodes.flatMap removedBytes ++
    (u32Bytes (UInt32.ofNat r.insertedLabels.length) ++ (r.insertedLabels.flatMap (·.1) ++
      (r.prevTopNodeHash.1 ++ (u32Bytes r.prevTopNodeHeight ++
        ((u32Bytes (UInt32.ofNat r.prevVersion.length) ++ r.prevVersion) ++
          u32Bytes r.prevBlockHeight))))))

/-- The fields of a record; the last one is absent in older records and then 0. -/
def reader : Reader StateError UndoRecord := do
  let removedCount ← UndoReader.readU32
  let removedNodes ← Reader.many UndoReader.readRemoved removedCount.toNat
  let insertedCount ← UndoReader.readU32
  let insertedLabels ← Reader.many UndoReader.readDigest insertedCount.toNat
  let prevTopNodeHash ← UndoReader.readDigest
  let prevTopNodeHeight ← UndoReader.readU32
  let prevVersion ← UndoReader.readSized .undoTruncatedVersion
  let prevBlockHeight ← (do if 4 ≤ (← Reader.remaining) then UndoReader.readU32 else pure 0)
  pure ⟨removedNodes, insertedLabels, prevTopNodeHash, prevTopNodeHeight, prevVersion, prevBlockHeight⟩

def deserialize (data : Bytes) : Except StateError UndoRecord := reader.parse data

lemma length_removedBytes (node : Digest32 × Bytes) :
    (removedBytes node).length = 36 + node.2.length := by
  rw [removedBytes, length_append, length_append, node.1.2, length_u32Bytes]
  omega

lemma length_le_flatMap {α : Type} {f : α → Bytes} {n : ℕ} (hn : ∀ a, n ≤ (f a).length)
    (as : List α) : n * as.length ≤ (as.flatMap f).length := by
  induction as with
  | nil => simp
  | cons a as ih =>
    have := hn a
    rw [flatMap_cons, length_append, length_cons, Nat.mul_succ]
    omega

lemma length_le_of_mem_flatMap {α : Type} {f : α → Bytes} {as : List α} {a : α} (h : a ∈ as) :
    (f a).length ≤ (as.flatMap f).length := by
  obtain ⟨before, after, rfl⟩ := append_of_mem h
  simp only [flatMap_append, flatMap_cons, length_append]
  omega

lemma deserialize_serialize {r : UndoRecord} (h : r.serialize.length < 2 ^ 32) :
    deserialize r.serialize = .ok r := by
  -- every count and every length is at most the length of the whole
  simp only [serialize, length_append, length_u32Bytes] at h
  have hcount := length_le_flatMap (f := removedBytes) (n := 1)
    (fun node => by rw [length_removedBytes]; omega) r.removedNodes
  have hlabels := length_le_flatMap (f := fun d : Digest32 => d.1) (n := 1)
    (fun d => by rw [d.2]; omega) r.insertedLabels
  have hremoved : ∀ node ∈ r.removedNodes,
      Parses UndoReader.readRemoved (removedBytes node) node := by
    intro node hnode
    have hle := length_le_of_mem_flatMap (f := removedBytes) hnode
    rw [length_removedBytes] at hle
    exact (UndoReader.parses_readDigest node.1).bind
      ((UndoReader.parses_readSized _ (by omega)).map (fun packed => (node.1, packed)))
  have hinserted : Parses (many UndoReader.readDigest r.insertedLabels.length)
      (r.insertedLabels.flatMap (·.1)) r.insertedLabels :=
    Parses.many (fun d _ => UndoReader.parses_readDigest d)
  refine Parses.parse_eq ?_
  refine (UndoReader.parses_readU32 _).bind ?_
  rw [toNat_u32_of_lt (by omega)]
  refine (Parses.many hremoved).bind ((UndoReader.parses_readU32 _).bind ?_)
  rw [toNat_u32_of_lt (by omega)]
  refine hinserted.bind ((UndoReader.parses_readDigest _).bind
    ((UndoReader.parses_readU32 _).bind ((UndoReader.parses_readSized _ (by omega)).bind ?_)))
  exact ((UndoReader.parses_readU32 r.prevBlockHeight).of_remaining (by simp)).map _

end UndoRecord

/-! ## The version chain -/

def versionBytes (entry : UInt64 × Bytes) : Bytes :=
  u64Bytes entry.1 ++ (u32Bytes (UInt32.ofNat entry.2.length) ++ entry.2)

def serializeVersionChain (chain : List (UInt64 × Bytes)) : Bytes :=
  u32Bytes (UInt32.ofNat chain.length) ++ chain.flatMap versionBytes

/-- One entry: both numbers are there, or the chain is truncated. -/
def readVersion : Reader StateError (UInt64 × Bytes) := do
  let numbers ← Reader.take 12 (fun _ => .chainTruncated)
  let digest ← Reader.take (u32OfBytes (numbers.drop 8)).toNat (fun _ => .chainTruncatedDigest)
  pure (u64OfBytes (numbers.take 8), digest)

def deserializeVersionChain (data : Bytes) : Except StateError (List (UInt64 × Bytes)) :=
  Reader.parse (do
    let count ← Reader.take 4 (fun _ => .chainTooShort)
    Reader.many readVersion (u32OfBytes count).toNat) data

lemma length_versionBytes (entry : UInt64 × Bytes) :
    (versionBytes entry).length = 12 + entry.2.length := by
  rw [versionBytes, length_append, length_append, length_u64Bytes, length_u32Bytes]
  omega

lemma parses_readVersion {entry : UInt64 × Bytes} (h : entry.2.length < 2 ^ 32) :
    Reader.Parses readVersion (versionBytes entry) entry := by
  obtain ⟨lsn, digest⟩ := entry
  have hlen : (u64Bytes lsn ++ u32Bytes (UInt32.ofNat digest.length)).length = 12 := by simp
  have htake : (u64Bytes lsn ++ u32Bytes (UInt32.ofNat digest.length)).take 8 = u64Bytes lsn :=
    take_left' (length_u64Bytes lsn)
  have hdrop : (u64Bytes lsn ++ u32Bytes (UInt32.ofNat digest.length)).drop 8 =
      u32Bytes (UInt32.ofNat digest.length) := drop_left' (length_u64Bytes lsn)
  have hnumbers := Parses.take (u64Bytes lsn ++ u32Bytes (UInt32.ofNat digest.length))
    (fun _ => StateError.chainTruncated)
  refine hnumbers.bind ?_
  rw [htake, hdrop, u64OfBytes_u64Bytes, u32OfBytes_u32Bytes, toNat_u32_of_lt h]
  exact (Parses.take digest _).map (fun digest => (lsn, digest))

lemma deserializeVersionChain_serialize {chain : List (UInt64 × Bytes)}
    (h : (serializeVersionChain chain).length < 2 ^ 32) :
    deserializeVersionChain (serializeVersionChain chain) = .ok chain := by
  rw [serializeVersionChain, length_append, length_u32Bytes] at h
  have hcount := UndoRecord.length_le_flatMap (f := versionBytes) (n := 1)
    (fun entry => by rw [length_versionBytes]; omega) chain
  have hentries : ∀ entry ∈ chain, Parses readVersion (versionBytes entry) entry := by
    intro entry hentry
    have hle := UndoRecord.length_le_of_mem_flatMap (f := versionBytes) hentry
    rw [length_versionBytes] at hle
    exact parses_readVersion (by omega)
  refine Parses.parse_eq ?_
  have htake := Parses.take (u32Bytes (UInt32.ofNat chain.length))
    (fun _ => StateError.chainTooShort)
  refine htake.bind ?_
  rw [u32OfBytes_u32Bytes, toNat_u32_of_lt (by omega)]
  exact Parses.many hentries

lemma length_serializeVersionChain_drop_le (chain : List (UInt64 × Bytes)) (k : ℕ) :
    (serializeVersionChain (chain.drop k)).length ≤ (serializeVersionChain chain).length := by
  have hsplit : chain.flatMap versionBytes =
      (chain.take k).flatMap versionBytes ++ (chain.drop k).flatMap versionBytes := by
    rw [← flatMap_append, take_append_drop]
  rw [serializeVersionChain, serializeVersionChain, hsplit]
  simp only [length_append, length_u32Bytes]
  omega

end ErgoNode
