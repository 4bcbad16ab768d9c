import ErgoNode.Library.Run
import ErgoNode.Library.Table
import ErgoNode.State.Undo

/-!
# The versioned state storage

A table of nodes by label, a table of undo records by log sequence number, and a table of metadata.
The storage keeps the chain of versions it can go back to in memory as well. A write transaction
that fails leaves the database and that chain as they were. The database may refuse a row for its
length (`Redb`).
-/

namespace ErgoNode

abbrev ByteTable := Std.ExtTreeMap Bytes Bytes

/-- The rows the database accepts. A shorter value is accepted too, and its length fits in 32 bits.
-/
structure Redb where
  accepts : (keyLength valueLength : ℕ) → Bool
  accepts_of_le : ∀ {k v v' : ℕ}, v' ≤ v → accepts k v = true → accepts k v' = true
  lt_of_accepts : ∀ {k v : ℕ}, accepts k v = true → v < 2 ^ 32

inductive MetaKey where
  | topNodeHash
  | topNodeHeight
  | currentVersion
  | lsn
  | versions
  | blockHeight
  deriving Repr, DecidableEq

def MetaKey.name : MetaKey → String
  | .topNodeHash => "top_node_hash"
  | .topNodeHeight => "top_node_height"
  | .currentVersion => "current_version"
  | .lsn => "lsn"
  | .versions => "versions"
  | .blockHeight => "block_height"

abbrev Metadata := MetaKey → Option Bytes

structure Database where
  /-- Packed nodes by label, and the caller's additional data. -/
  nodes : ByteTable
  undo : Table Bytes
  metadata : Metadata

namespace Redb

variable (redb : Redb)

def check (keyLength : ℕ) (value : Bytes) : Except StateError Unit :=
  require (redb.accepts keyLength value.length = true) (.valueTooLarge value.length)

def insertRows : List (Bytes × Bytes) → ByteTable → Except StateError ByteTable
  | [], table => .ok table
  | (key, value) :: rows, table => do
    redb.check key.length value
    insertRows rows (table.insert key value)

def insertMeta (key : MetaKey) (value : Bytes) (metadata : Metadata) : Except StateError Metadata := do
  redb.check key.name.length value
  .ok (Function.update metadata key (some value))

def insertUndo (lsn : UInt64) (value : Bytes) (table : Table Bytes) :
    Except StateError (Table Bytes) := do
  redb.check 8 value
  .ok (table.insert lsn.toNat value)

end Redb

/-! ## The prover -/

inductive ProverNode where
  | labelOnly (label : Digest32)
  | leaf (label : Digest32) (packed : Bytes) (isNew visited : Bool)
  | internal (label : Digest32) (packed : Bytes) (isNew visited : Bool) (left right : ProverNode)

namespace ProverNode

def label : ProverNode → Digest32
  | labelOnly label => label
  | leaf label .. => label
  | internal label .. => label

/-- `collect_changed_nodes`: the nodes that are new or were visited, and the root. -/
def collectChangedNodes : ProverNode → (isRoot : Bool) → List (Digest32 × Bytes)
  | labelOnly _, _ => []
  | leaf label packed isNew visited, isRoot =>
    if !isRoot && !isNew && !visited then [] else [(label, packed)]
  | internal label packed isNew visited left right, isRoot =>
    if !isRoot && !isNew && !visited then []
    else (label, packed) :: (left.collectChangedNodes false ++ right.collectChangedNodes false)

end ProverNode

structure BatchAVLProver where
  /-- The digest of the tree, if there is a root. -/
  digest : Option Bytes
  topNode : ProverNode
  /-- Labels of the nodes that left the tree. -/
  removedNodes : List Digest32
  height : ℕ

def BatchAVLProver.changedNodes (prover : BatchAVLProver) : List (Digest32 × Bytes) :=
  prover.topNode.collectChangedNodes true

/-! ## The storage -/

structure RedbAVLStorage where
  db : Database
  /-- How many versions an update keeps besides the new one. -/
  keepVersions : UInt32
  currentVersion : Option Bytes
  /-- Sequence numbers and digests, newest first; the head is the current version. -/
  versionChain : List (UInt64 × Bytes)

namespace RedbAVLStorage

def restoreState (db : Database) : Except StateError (Option Bytes × List (UInt64 × Bytes)) :=
  match db.metadata .currentVersion with
  | none => .ok (none, [])
  | some version =>
    match db.metadata .versions with
    | none => .ok (some version, [])
    | some chainData => do
      let chain ← deserializeVersionChain chainData
      .ok (some version, chain)

/-- `open`: load the version and the chain. A file from before block heights were kept gets the
height 0. -/
def openFile (redb : Redb) (db : Database) (keepVersions : UInt32) : Except StateError RedbAVLStorage := do
  let (currentVersion, versionChain) ← restoreState db
  if currentVersion.isSome && (db.metadata .blockHeight).isNone then
    let metadata ← redb.insertMeta .blockHeight (u32Bytes 0) db.metadata
    .ok ⟨{ db with metadata }, keepVersions, currentVersion, versionChain⟩
  else
    .ok ⟨db, keepVersions, currentVersion, versionChain⟩

def new (keepVersions : UInt32) : RedbAVLStorage := ⟨⟨∅, ∅, fun _ => none⟩, keepVersions, none, []⟩

def setKeepVersions (s : RedbAVLStorage) (keepVersions : UInt32) : RedbAVLStorage :=
  { s with keepVersions }

def currentLsn (s : RedbAVLStorage) : UInt64 := (s.versionChain.head?.map Prod.fst).getD 0

def version (s : RedbAVLStorage) : Option Bytes := s.currentVersion

def rollbackVersions (s : RedbAVLStorage) : List Bytes := (s.versionChain.drop 1).map Prod.snd

def heightOfBytes (bytes : Bytes) : Option UInt32 :=
  if bytes.length = 4 then some (u32OfBytes bytes) else none

def rootState (s : RedbAVLStorage) : Option (Digest32 × ℕ) := do
  let hashBytes ← s.db.metadata .topNodeHash
  let hash ← (Digest32.ofBytes hashBytes).toOption
  let heightBytes ← s.db.metadata .topNodeHeight
  let height ← heightOfBytes heightBytes
  some (hash, height.toNat)

def blockHeight (s : RedbAVLStorage) : Option UInt32 := do
  let bytes ← s.db.metadata .blockHeight
  heightOfBytes bytes

def getNode (s : RedbAVLStorage) (label : Digest32) : Option Bytes := s.db.nodes[label.1]?

/-! ### Updates -/

/-- A height that has to be four bytes, 0 when there is none. -/
def readHeight (row : Option Bytes) : Except StateError UInt32 :=
  match row with
  | none => .ok 0
  | some bytes =>
    match heightOfBytes bytes with
    | none => .error .corruptHeight
    | some height => .ok height

def readTopNodeHash (row : Option Bytes) : Except StateError Digest32 :=
  match row with
  | none => .ok ⟨List.replicate 32 0, List.length_replicate⟩
  | some bytes => Digest32.ofBytes bytes

def maxChainLen (s : RedbAVLStorage) : ℕ := if 0 < s.keepVersions then s.keepVersions.toNat + 1 else 1

/-- The sequence number of the next version. It is a `u64` and wraps. -/
def newLsn (s : RedbAVLStorage) : UInt64 := s.currentLsn + 1

def pushedChain (s : RedbAVLStorage) (digest : Bytes) : List (UInt64 × Bytes) :=
  (s.newLsn, digest) :: s.versionChain

/-- The chain after entries were popped from its back while it was too long. -/
def newChain (s : RedbAVLStorage) (digest : Bytes) : List (UInt64 × Bytes) :=
  (s.pushedChain digest).take s.maxChainLen

def pruneLsns (s : RedbAVLStorage) (digest : Bytes) : List UInt64 :=
  ((s.pushedChain digest).drop s.maxChainLen).reverse.map Prod.fst

/-- The undo record of an update. The bytes of a removed node are those in the table before. -/
def undoRecord (s : RedbAVLStorage) (prover : BatchAVLProver) (prevBlockHeight : UInt32) :
    Except StateError UndoRecord := do
  let prevTopNodeHash ← readTopNodeHash (s.db.metadata .topNodeHash)
  let prevTopNodeHeight ← readHeight (s.db.metadata .topNodeHeight)
  .ok {
    removedNodes := prover.removedNodes.filterMap (fun label =>
      (s.getNode label).map (fun packed => (label, packed)))
    insertedLabels := prover.changedNodes.map Prod.fst
    prevTopNodeHash
    prevTopNodeHeight
    prevVersion := s.currentVersion.getD []
    prevBlockHeight }

/-- The undo table after an update. Without versions to keep nothing is written and nothing deleted.
-/
def writeUndo (redb : Redb) (s : RedbAVLStorage) (prover : BatchAVLProver) (digest : Bytes)
    (prevBlockHeight : UInt32) : Except StateError (Table Bytes) :=
  if 0 < s.keepVersions then do
    let undo ← s.undoRecord prover prevBlockHeight
    let table ← redb.insertUndo s.newLsn undo.serialize s.db.undo
    .ok (eraseAll table ((s.pruneLsns digest).map UInt64.toNat))
  else .ok s.db.undo

def nodeRows (nodes : List (Digest32 × Bytes)) : List (Bytes × Bytes) :=
  nodes.map (fun node => (node.1.1, node.2))

/-- Delete the removed nodes; a label that was just written is not deleted. -/
def deleteRemoved (written : List Digest32) (removed : List Digest32) (nodes : ByteTable) : ByteTable :=
  removed.foldl (fun table label => if label ∈ written then table else table.erase label.1) nodes

/-- The node table after an update: changed nodes are written, removed ones deleted, and the
additional data stored. -/
def writeNodes (redb : Redb) (s : RedbAVLStorage) (prover : BatchAVLProver)
    (additionalData : List (Bytes × Bytes)) : Except StateError ByteTable := do
  let written ← redb.insertRows (nodeRows prover.changedNodes) s.db.nodes
  let deleted := deleteRemoved (prover.changedNodes.map Prod.fst) prover.removedNodes written
  redb.insertRows additionalData deleted

def updateInternal (redb : Redb) (s : RedbAVLStorage) (prover : BatchAVLProver)
    (additionalData : List (Bytes × Bytes)) (blockHeight : Option UInt32) :
    Except StateError RedbAVLStorage :=
  match prover.digest with
  | none => .error .proverHasNoRoot
  | some newDigest => do
    let prevBlockHeight ← readHeight (s.db.metadata .blockHeight)
    let undo ← s.writeUndo redb prover newDigest prevBlockHeight
    let nodes ← s.writeNodes redb prover additionalData
    let metadata ← redb.insertMeta .topNodeHash prover.topNode.label.1 s.db.metadata
    let metadata ← redb.insertMeta .topNodeHeight (u32Bytes (UInt32.ofNat prover.height)) metadata
    let metadata ← redb.insertMeta .currentVersion newDigest metadata
    let metadata ← redb.insertMeta .lsn (u64Bytes s.newLsn) metadata
    let metadata ← redb.insertMeta .blockHeight
      (u32Bytes (blockHeight.getD prevBlockHeight)) metadata
    let metadata ← redb.insertMeta .versions (serializeVersionChain (s.newChain newDigest)) metadata
    .ok {
      db := ⟨nodes, undo, metadata⟩
      keepVersions := s.keepVersions
      currentVersion := some newDigest
      versionChain := s.newChain newDigest }

def updateWithHeight (redb : Redb) (s : RedbAVLStorage) (prover : BatchAVLProver)
    (additionalData : List (Bytes × Bytes)) (blockHeight : UInt32) :
    Except StateError RedbAVLStorage :=
  s.updateInternal redb prover additionalData (some blockHeight)

/-! ### Rollback -/

/-- The root node in the table and the height: `missing` when it is not there. -/
def rootNode (s : RedbAVLStorage) (hash : Digest32) (height : ℕ) : Except StateError (Bytes × ℕ) :=
  match s.getNode hash with
  | none => .error .rootNotFound
  | some packed => .ok (packed, height)

def currentRoot (s : RedbAVLStorage) : Except StateError (Bytes × ℕ) :=
  match s.rootState with
  | none => .error .noRootState
  | some (hash, height) => s.rootNode hash height

/-- Replay undo records, the newest version first: removed nodes are inserted again, inserted ones
stay. -/
def replayUndo (redb : Redb) : List (UInt64 × Bytes) → ByteTable → Table Bytes → Option UndoRecord →
    Except StateError (ByteTable × Table Bytes × Option UndoRecord)
  | [], nodes, undoTable, last => .ok (nodes, undoTable, last)
  | (lsn, _) :: versions, nodes, undoTable, _ =>
    match undoTable[lsn.toNat]? with
    | none => .error (.missingUndoRecord lsn)
    | some data => do
      let undo ← UndoRecord.deserialize data
      let nodes ← redb.insertRows (nodeRows undo.removedNodes) nodes
      replayUndo redb versions nodes (undoTable.erase lsn.toNat) (some undo)

/-- The transaction of a rollback: replay the records above the target, restore the metadata from
the last. -/
def rollbackTransaction (redb : Redb) (s : RedbAVLStorage) (version : Bytes) (targetPos : ℕ) :
    Except StateError (UndoRecord × RedbAVLStorage) := do
  let (nodes, undoTable, lastUndo) ←
    replayUndo redb (s.versionChain.take targetPos) s.db.nodes s.db.undo none
  match lastUndo, s.versionChain[targetPos]? with
  | some undo, some (targetLsn, _) =>
    let newChain := s.versionChain.drop targetPos
    let metadata ← redb.insertMeta .topNodeHash undo.prevTopNodeHash.1 s.db.metadata
    let metadata ← redb.insertMeta .topNodeHeight (u32Bytes undo.prevTopNodeHeight) metadata
    let metadata ← redb.insertMeta .currentVersion undo.prevVersion metadata
    let metadata ← redb.insertMeta .blockHeight (u32Bytes undo.prevBlockHeight) metadata
    let metadata ← redb.insertMeta .lsn (u64Bytes targetLsn) metadata
    let metadata ← redb.insertMeta .versions (serializeVersionChain newChain) metadata
    .ok (undo, {
      db := ⟨nodes, undoTable, metadata⟩
      keepVersions := s.keepVersions
      currentVersion := some version
      versionChain := newChain })
  -- `last_undo.as_ref().unwrap()`
  | _, _ => .error .panicked

/-- `rollback`. The root is looked up after the transaction: without it the storage has changed. -/
def rollback (redb : Redb) (s : RedbAVLStorage) (version : Bytes) :
    Except StateError (Bytes × ℕ) × RedbAVLStorage :=
  if s.currentVersion = some version then (s.currentRoot, s)
  else
    match s.versionChain.findIdx? (fun entry => entry.2 = version) with
    | none => (.error .versionNotFound, s)
    | some targetPos =>
      match s.rollbackTransaction redb version targetPos with
      | .error e => (.error e, s)
      | .ok (undo, s') => (s'.rootNode undo.prevTopNodeHash undo.prevTopNodeHeight.toNat, s')

def reopen (redb : Redb) (s : RedbAVLStorage) (keepVersions : UInt32) : Except StateError RedbAVLStorage :=
  openFile redb s.db keepVersions

end RedbAVLStorage

/-! ## Runs -/

inductive StorageEvent where
  | update (prover : BatchAVLProver) (additionalData : List (Bytes × Bytes)) (blockHeight : UInt32)
  | rollback (version : Bytes)
  | setKeepVersions (keepVersions : UInt32)
  | reopen (keepVersions : UInt32)

structure StateCommit where
  version : Bytes
  rootHash : Digest32
  treeHeight : UInt32
  blockHeight : UInt32
  deriving DecidableEq

/-- A storage, and what its updates committed, the last one first. -/
structure TrackedStorage where
  storage : RedbAVLStorage
  commits : List StateCommit

namespace TrackedStorage

def new (keepVersions : UInt32) : TrackedStorage := ⟨.new keepVersions, []⟩

def commitOf (prover : BatchAVLProver) (blockHeight : UInt32) : StateCommit where
  version := prover.digest.getD []
  rootHash := prover.topNode.label
  treeHeight := UInt32.ofNat prover.height
  blockHeight := blockHeight

/-- One call. A call that fails in its transaction leaves the storage as it was. -/
def step (redb : Redb) (t : TrackedStorage) : StorageEvent → TrackedStorage
  | .update prover additionalData blockHeight =>
    match t.storage.updateWithHeight redb prover additionalData blockHeight with
    | .ok storage => ⟨storage, commitOf prover blockHeight :: t.commits⟩
    | .error _ => t
  | .rollback version => { t with storage := (t.storage.rollback redb version).2 }
  | .setKeepVersions keepVersions => { t with storage := t.storage.setKeepVersions keepVersions }
  | .reopen keepVersions =>
    match t.storage.reopen redb keepVersions with
    | .ok storage => { t with storage }
    | .error _ => t

def committed (t : TrackedStorage) (version : Bytes) : Option StateCommit :=
  t.commits.find? (fun c => c.version = version)

end TrackedStorage

end ErgoNode
