import ErgoNode.Library.Index
import ErgoNode.Library.Worklist
import ErgoNode.State.AvlTree

/-!
# Offline compaction

Compaction copies what is reachable from the root into a new database and then walks the copy,
recomputing the label of every node. The rollback window is not carried over. The copy takes the
child labels from the end of a packed inner node; the verification needs the length of the keys,
which is worked out from the packed root and confirmed by its label. The file operations may fail,
each by itself (`CompactionEnv`). Both walks stop below `maxTreeDepth`.
-/

namespace ErgoNode

open List AvlNode Std.ExtTreeMap

/-! ## The code -/

def maxTreeDepth : ℕ := 255

/-- The upper bound for the key length of a tree that is a single leaf. -/
def maxKeyLength : ℕ := 64

def internalChildLabelsLen : ℕ := 64

inductive CompactionStep where
  | statSource
  | openSource
  | createDest
  | commit
  | statDest
  | reopenDest
  deriving Repr, DecidableEq

/-- The file system: which operations fail, and the sizes of files. -/
structure CompactionEnv where
  fails : CompactionStep → Bool
  fileBytes : Database → UInt64

inductive PackedError where
  /-- An inner node has another length than the key length asks for. -/
  | internalLength (length expected : ℕ)
  | leafTooShort (length : ℕ)
  | leafLength (length expected : ℕ)
  | unknownPrefix (type : UInt8)
  | empty
  deriving Repr, DecidableEq

inductive CompactionError where
  | destExists
  | io (step : CompactionStep)
  | noTopNodeHash
  | corruptTopNodeHash (length : ℕ)
  | noTopNodeHeight
  | corruptTopNodeHeight
  | noCurrentVersion
  | corruptBlockHeight
  | corruptLsn
  | sourceTooDeep (label : Digest32)
  | sourceMissing (label : Digest32)
  | sourceShort (label : Digest32) (length : ℕ)
  | sourcePrefix (label : Digest32) (type : UInt8)
  | sourceEmpty (label : Digest32)
  | rootMissing
  | rootShort (length : ℕ)
  | rootPrefix (type : UInt8)
  | rootEmpty
  | noKeyLength
  | verifyTooDeep (label : Digest32)
  | verifyMissing (label : Digest32)
  | verifyMalformed (label : Digest32) (e : PackedError)
  | verifyMismatch (label computed : Digest32)
  | visitedMismatch (visited written : ℕ)
  | rowsMismatch (rows visited : ℕ)
  | noNodes
  | heightTooLarge (height : UInt32)
  | digestMismatch (digest version : Bytes)
  deriving DecidableEq

structure CompactionStats where
  nodesWritten : ℕ
  sourceBytes : UInt64
  destBytes : UInt64
  blockHeight : UInt32
  digest : Bytes
  deriving DecidableEq

namespace Compaction

inductive PackedShape where
  | internal (left right : Digest32)
  | leaf
  deriving DecidableEq

def valueLength (packed : Bytes) (keyLength : ℕ) : ℕ :=
  (u32OfBytes ((packed.drop (1 + keyLength)).take 4)).toNat

lemma length_leftLabel (packed : Bytes) (keyLength : ℕ)
    (h : packed.length = 2 + keyLength + internalChildLabelsLen) :
    ((packed.drop (2 + keyLength)).take 32).length = 32 := by
  rw [length_take, length_drop, h, internalChildLabelsLen]
  omega

lemma length_rightLabel (packed : Bytes) (keyLength : ℕ)
    (h : packed.length = 2 + keyLength + internalChildLabelsLen) :
    ((packed.drop (2 + keyLength + 32)).take 32).length = 32 := by
  rw [length_take, length_drop, h, internalChildLabelsLen]
  omega

def inspectPacked (packed : Bytes) (keyLength : ℕ) : Except PackedError PackedShape :=
  match packed with
  | [] => .error .empty
  | type :: _ =>
    if type = packedInternalPrefix then
      if h : packed.length = 2 + keyLength + internalChildLabelsLen then
        .ok (.internal ⟨(packed.drop (2 + keyLength)).take 32, length_leftLabel packed keyLength h⟩
          ⟨(packed.drop (2 + keyLength + 32)).take 32, length_rightLabel packed keyLength h⟩)
      else .error (.internalLength packed.length (2 + keyLength + internalChildLabelsLen))
    else if type = packedLeafPrefix then
      if packed.length < 1 + keyLength + 4 + keyLength then .error (.leafTooShort packed.length)
      else if packed.length = 1 + keyLength + 4 + valueLength packed keyLength + keyLength then
        .ok .leaf
      else .error (.leafLength packed.length
        (1 + keyLength + 4 + valueLength packed keyLength + keyLength))
    else .error (.unknownPrefix type)

section

variable (hash : Bytes → Digest32)

/-- `recompute_label`, for bytes that were inspected: the label of the node that is unpacked. -/
def recomputeLabel (keyLength : ℕ) (packed : Bytes) : Digest32 :=
  if packed.head? = some packedInternalPrefix then
    hash (labelInternalPrefix :: packed.getD 1 0 :: packed.drop (2 + keyLength))
  else
    hash (labelLeafPrefix :: ((packed.drop 1).take keyLength ++
      ((packed.drop (1 + keyLength + 4)).take (valueLength packed keyLength) ++
        packed.drop (1 + keyLength + 4 + valueLength packed keyLength))))

/-- The key lengths that are tried: the one an inner root has, or all that fit a leaf. -/
def keyLengthCandidates (rootPacked : Bytes) : Except CompactionError (List ℕ) :=
  match rootPacked with
  | [] => .error .rootEmpty
  | type :: _ =>
    if type = packedInternalPrefix then
      if rootPacked.length ≤ 2 + internalChildLabelsLen then .error (.rootShort rootPacked.length)
      else .ok [rootPacked.length - (2 + internalChildLabelsLen)]
    else if type = packedLeafPrefix then
      .ok ((List.range' 1 maxKeyLength).filter (fun k => (inspectPacked rootPacked k).isOk))
    else .error (.rootPrefix type)

/-- `derive_key_length`: the first candidate under which the root hashes to its label. -/
def deriveKeyLength (rootPacked : Bytes) (expectedRoot : Digest32) : Except CompactionError ℕ := do
  let candidates ← keyLengthCandidates rootPacked
  match candidates.find? (fun k => (inspectPacked rootPacked k).isOk ∧
      recomputeLabel hash k rootPacked = expectedRoot) with
  | some keyLength => .ok keyLength
  | none => .error .noKeyLength

structure CopyState where
  nodes : ByteTable
  written : ℕ

/-- The children of a node in the copy pass: the last 64 bytes of an inner node. -/
def copyChildren (label : Digest32) (packed : Bytes) :
    Except CompactionError (Option (Digest32 × Digest32)) :=
  match packed with
  | [] => .error (.sourceEmpty label)
  | type :: _ =>
    if type = packedInternalPrefix then
      if h : packed.length < 2 + internalChildLabelsLen then
        .error (.sourceShort label packed.length)
      else
        .ok (some (⟨(packed.drop (packed.length - internalChildLabelsLen)).take 32, by
            rw [List.length_take, List.length_drop]
            simp only [internalChildLabelsLen] at h ⊢
            omega⟩,
          ⟨packed.drop (packed.length - internalChildLabelsLen + 32), by
            rw [List.length_drop]
            simp only [internalChildLabelsLen] at h ⊢
            omega⟩))
    else if type = packedLeafPrefix then .ok none
    else .error (.sourcePrefix label type)

def childItems (depth : ℕ) : Option (Digest32 × Digest32) → List (Digest32 × ℕ)
  | none => []
  | some (left, right) => [(left, depth + 1), (right, depth + 1)]

def copyNode (source : ByteTable) (s : CopyState) (item : Digest32 × ℕ) :
    Except CompactionError (CopyState × List (Digest32 × ℕ)) :=
  if maxTreeDepth < item.2 then .error (.sourceTooDeep item.1)
  else
    match source[item.1.1]? with
    | none => .error (.sourceMissing item.1)
    | some packed => do
      let children ← copyChildren item.1 packed
      .ok (⟨s.nodes.insert item.1.1 packed, s.written + 1⟩, childItems item.2 children)

structure VerifyState where
  rootLabel : Option Digest32
  visited : ℕ

def PackedShape.children : PackedShape → Option (Digest32 × Digest32)
  | internal left right => some (left, right)
  | leaf => none

def verifyNode (nodes : ByteTable) (keyLength : ℕ) (s : VerifyState) (item : Digest32 × ℕ) :
    Except CompactionError (VerifyState × List (Digest32 × ℕ)) :=
  if maxTreeDepth < item.2 then .error (.verifyTooDeep item.1)
  else
    match nodes[item.1.1]? with
    | none => .error (.verifyMissing item.1)
    | some packed => do
      let shape ← (inspectPacked packed keyLength).mapError (.verifyMalformed item.1)
      if recomputeLabel hash keyLength packed ≠ item.1 then
        .error (.verifyMismatch item.1 (recomputeLabel hash keyLength packed))
      else
        .ok (⟨if item.2 = 0 then some item.1 else s.rootLabel, s.visited + 1⟩,
          childItems item.2 shape.children)

/-- The loops end after fewer rounds, down to the depth cap (`rounds_copy`, `rounds_verify`). -/
def maxRounds : ℕ := 2 ^ (maxTreeDepth + 2)

def loopResult {σ : Type} (root : Digest32) (result : Option (Except CompactionError σ)) :
    Except CompactionError σ :=
  result.getD (.error (.sourceTooDeep root))

def copyPass (source : ByteTable) (root : Digest32) : Except CompactionError CopyState :=
  loopResult root (worklist (copyNode source) maxRounds ⟨∅, 0⟩ [(root, 0)])

def verifyCompacted (env : CompactionEnv) (dest : Database) (expectedRoot : Digest32)
    (expectedNodes : ℕ) : Except CompactionError Digest32 :=
  if env.fails .reopenDest then .error (.io .reopenDest)
  else
    match dest.nodes[expectedRoot.1]? with
    | none => .error .rootMissing
    | some rootPacked => do
      let keyLength ← deriveKeyLength hash rootPacked expectedRoot
      let s ← loopResult expectedRoot
        (worklist (verifyNode hash dest.nodes keyLength) maxRounds ⟨none, 0⟩ [(expectedRoot, 0)])
      require (s.visited = expectedNodes) (.visitedMismatch s.visited expectedNodes)
      require (dest.nodes.size = s.visited) (.rowsMismatch dest.nodes.size s.visited)
      match s.rootLabel with
      | none => .error .noNodes
      | some rootLabel => .ok rootLabel

structure SourceRoot where
  topNodeHash : Digest32
  topNodeHeight : UInt32
  currentVersion : Bytes
  blockHeight : UInt32
  lsn : UInt64

def readBlockHeight : Option Bytes → Except CompactionError UInt32
  | none => .ok 0
  | some bytes =>
    if bytes.length = 4 then .ok (u32OfBytes bytes) else .error .corruptBlockHeight

def readLsn : Option Bytes → Except CompactionError UInt64
  | none => .ok 1
  | some bytes => if bytes.length = 8 then .ok (u64OfBytes bytes) else .error .corruptLsn

def readSource (env : CompactionEnv) (source : Database) : Except CompactionError SourceRoot := do
  require (env.fails .statSource = false) (.io .statSource)
  require (env.fails .openSource = false) (.io .openSource)
  match source.metadata .topNodeHash with
  | none => .error .noTopNodeHash
  | some hashBytes =>
    let topNodeHash ← (Digest32.ofBytes hashBytes).mapError (fun _ =>
      .corruptTopNodeHash hashBytes.length)
    match source.metadata .topNodeHeight with
    | none => .error .noTopNodeHeight
    | some heightBytes =>
      require (heightBytes.length = 4) .corruptTopNodeHeight
      match source.metadata .currentVersion with
      | none => .error .noCurrentVersion
      | some currentVersion =>
        let blockHeight ← readBlockHeight (source.metadata .blockHeight)
        let lsn ← readLsn (source.metadata .lsn)
        .ok ⟨topNodeHash, u32OfBytes heightBytes, currentVersion, blockHeight, lsn⟩

def destMetadata (root : SourceRoot) : Metadata
  | .topNodeHash => some root.topNodeHash.1
  | .topNodeHeight => some (u32Bytes root.topNodeHeight)
  | .currentVersion => some root.currentVersion
  | .lsn => some (u64Bytes root.lsn)
  | .blockHeight => some (u32Bytes root.blockHeight)
  | .versions => some (serializeVersionChain [(root.lsn, root.currentVersion)])

/-- The destination after the commit: the nodes, the metadata and an empty undo table. -/
def copied (env : CompactionEnv) (source : Database) (root : SourceRoot) :
    Except CompactionError (Database × ℕ) := do
  let s ← copyPass source.nodes root.topNodeHash
  require (env.fails .commit = false) (.io .commit)
  .ok (⟨s.nodes, ∅, destMetadata root⟩, s.written)

def finish (env : CompactionEnv) (source dest : Database) (root : SourceRoot) (nodesWritten : ℕ) :
    Except CompactionError CompactionStats := do
  require (env.fails .statDest = false) (.io .statDest)
  let rootLabel ← verifyCompacted hash env dest root.topNodeHash nodesWritten
  require (root.topNodeHeight ≤ 255) (.heightTooLarge root.topNodeHeight)
  let digest := rootLabel.1 ++ [root.topNodeHeight.toUInt8]
  require (digest = root.currentVersion) (.digestMismatch digest root.currentVersion)
  .ok ⟨nodesWritten, env.fileBytes source, env.fileBytes dest, root.blockHeight, digest⟩

structure Run where
  dest : Option Database
  result : Except CompactionError CompactionStats

def emptyDatabase : Database := ⟨∅, ∅, fun _ => none⟩

/-- `compact_to_inner`. The destination is one transaction: until its commit the file is empty. -/
def compactToInner (env : CompactionEnv) (source : Database) : Run :=
  match readSource env source with
  | .error e => ⟨none, .error e⟩
  | .ok root =>
    if env.fails .createDest then ⟨some emptyDatabase, .error (.io .createDest)⟩
    else
      match copied env source root with
      | .error e => ⟨some emptyDatabase, .error e⟩
      | .ok (dest, nodesWritten) => ⟨some dest, finish hash env source dest root nodesWritten⟩

/-- `compact_to`: after an error the destination is removed, unless it was there before. -/
def compactTo (env : CompactionEnv) (source : Database) (dest : Option Database) : Run :=
  match dest with
  | some dest => ⟨some dest, .error .destExists⟩
  | none =>
    match (compactToInner hash env source).result with
    | .ok stats => ⟨(compactToInner hash env source).dest, .ok stats⟩
    | .error e => ⟨none, .error e⟩

end

/-! ## Packed nodes -/

lemma inspectPacked_internal (balance : Int8) (key left right : Digest32) :
    inspectPacked (AvlNode.internal balance key left right).pack keyLength =
      .ok (.internal left right) := by
  have hlen : (internal balance key left right).pack.length =
      2 + keyLength + internalChildLabelsLen := length_pack_internal ..
  have hchildren := extractChildLabels_pack balance key left right
  rw [extractChildLabels, dif_pos (by rw [hlen]; rfl)] at hchildren
  obtain ⟨hleft, hright⟩ := Prod.mk.inj (Option.some.inj hchildren)
  show (if h : _ then _ else _) = _
  rw [dif_pos hlen, hleft, hright]

lemma valueLength_pack (key : Digest32) (value : AvlValue) (nextKey : Digest32) :
    valueLength (AvlNode.leaf key value nextKey).pack keyLength = value.1.length := by
  have hdrop : (leaf key value nextKey).pack.drop (1 + keyLength) =
      u32Bytes (UInt32.ofNat value.1.length) ++ (value.1 ++ nextKey.1) := drop_left' key.2
  rw [valueLength, hdrop, take_left' (length_u32Bytes _), u32OfBytes_u32Bytes,
    toNat_u32_of_lt value.2]

lemma inspectPacked_leaf (key : Digest32) (value : AvlValue) (nextKey : Digest32) :
    inspectPacked (AvlNode.leaf key value nextKey).pack keyLength = .ok .leaf := by
  have hlen : (leaf key value nextKey).pack.length =
      1 + keyLength + 4 + value.1.length + keyLength := by
    rw [length_pack_leaf, keyLength]
    omega
  show (if _ then _ else if _ then _ else _) = _
  rw [if_neg (by omega), valueLength_pack, if_pos hlen]

lemma length_key (key : Digest32) : key.1.length = keyLength := key.2

lemma recomputeLabel_pack (hash : Bytes → Digest32) (node : AvlNode) :
    recomputeLabel hash keyLength node.pack = node.label hash := by
  cases node with
  | leaf key value nextKey =>
    have hkey : (leaf key value nextKey).pack.drop 1 =
        key.1 ++ (u32Bytes (UInt32.ofNat value.1.length) ++ (value.1 ++ nextKey.1)) := rfl
    have hvalue : (leaf key value nextKey).pack.drop (1 + keyLength + 4) =
        value.1 ++ nextKey.1 := by
      rw [← drop_drop, ← drop_drop, hkey, drop_left' (length_key key),
        drop_left' (length_u32Bytes _)]
    have hnext : (leaf key value nextKey).pack.drop (1 + keyLength + 4 + value.1.length) =
        nextKey.1 := by
      rw [← drop_drop, hvalue, drop_left' rfl]
    have hhead : (leaf key value nextKey).pack.head? ≠ some packedInternalPrefix := by
      simp [pack, packedLeafPrefix, packedInternalPrefix]
    rw [recomputeLabel, if_neg hhead, valueLength_pack, hkey, hvalue, hnext,
      take_left' (length_key key), take_left' rfl]
    rfl
  | internal balance key left right =>
    have hdrop : (internal balance key left right).pack.drop (2 + keyLength) =
        left.1 ++ right.1 := by
      exact drop_left' key.2
    have hhead : (internal balance key left right).pack.head? = some packedInternalPrefix :=
      rfl
    rw [recomputeLabel, if_pos hhead, hdrop]
    rfl

lemma copyChildren_internal (label : Digest32) (balance : Int8) (key left right : Digest32) :
    copyChildren label (AvlNode.internal balance key left right).pack = .ok (some (left, right)) := by
  have hlen := length_pack_internal balance key left right
  have hleft : (internal balance key left right).pack.drop (98 - internalChildLabelsLen) =
      left.1 ++ right.1 := by
    exact drop_left' key.2
  have hright : (internal balance key left right).pack.drop
      (98 - internalChildLabelsLen + 32) = right.1 := by
    rw [← drop_drop, hleft, drop_left' left.2]
  show (if h : _ then _ else _) = _
  rw [dif_neg (by rw [hlen]; decide)]
  simp only [hlen, hleft, hright, take_left' left.2]

lemma copyChildren_leaf (label key : Digest32) (value : AvlValue) (nextKey : Digest32) :
    copyChildren label (AvlNode.leaf key value nextKey).pack = .ok none := rfl

/-! ## The loops end -/

def weight (item : Digest32 × ℕ) : ℕ := 2 ^ (maxTreeDepth + 2 - item.2) - 1

/-- A loop that puts children one level deeper and stops at the depth cap ends. -/
theorem worklist_ne_none_of_depth {σ : Type}
    {visit : σ → Digest32 × ℕ → Except CompactionError (σ × List (Digest32 × ℕ))}
    (hvisit : ∀ s item s' items, visit s item = .ok (s', items) →
      item.2 ≤ maxTreeDepth ∧ ∃ children, items = childItems item.2 children) (s : σ)
    (root : Digest32) : worklist visit maxRounds s [(root, 0)] ≠ none := by
  refine worklist_ne_none (fun _ stack => (stack.map weight).sum) ?_ ?_
  · intro s item rest s' items hok
    obtain ⟨hdepth, children, rfl⟩ := hvisit s item s' items hok
    rw [map_append, sum_append, map_cons, sum_cons]
    have hpow : maxTreeDepth + 2 - item.2 = maxTreeDepth + 2 - (item.2 + 1) + 1 := by omega
    have hpos : 1 ≤ 2 ^ (maxTreeDepth + 2 - (item.2 + 1)) := Nat.one_le_two_pow
    have hpos' : 2 ≤ 2 ^ (maxTreeDepth + 2 - item.2) := by
      rw [hpow, pow_succ]
      omega
    cases children with
    | none =>
      simp only [childItems, map_nil, sum_nil, weight]
      omega
    | some children =>
      simp only [childItems, map_cons, map_nil, sum_cons, sum_nil, weight]
      rw [hpow, pow_succ]
      omega
  · have hpos : 1 ≤ 2 ^ (maxTreeDepth + 2) := Nat.one_le_two_pow
    simp only [map_cons, map_nil, sum_cons, sum_nil, weight, maxRounds, Nat.sub_zero]
    omega

lemma copyNode_eq_ok_iff {source : ByteTable} {s : CopyState} {item : Digest32 × ℕ}
    {r : CopyState × List (Digest32 × ℕ)} :
    copyNode source s item = .ok r ↔ item.2 ≤ maxTreeDepth ∧ ∃ packed children,
      source[item.1.1]? = some packed ∧ copyChildren item.1 packed = .ok children ∧
        r = (⟨s.nodes.insert item.1.1 packed, s.written + 1⟩, childItems item.2 children) := by
  rw [copyNode]
  by_cases hdepth : maxTreeDepth < item.2
  · simp [hdepth]
  · rw [if_neg hdepth]
    cases source[item.1.1]? with
    | none => simp
    | some packed =>
      constructor
      · intro h
        obtain ⟨children, hchildren, h⟩ := bind_eq_ok.1 h
        exact ⟨Nat.not_lt.1 hdepth, packed, children, rfl, hchildren, (Except.ok.inj h).symm⟩
      · rintro ⟨-, packed', children, hpacked, hchildren, rfl⟩
        cases hpacked
        exact bind_eq_ok.2 ⟨children, hchildren, rfl⟩

lemma verifyNode_eq_ok_iff {hash : Bytes → Digest32} {nodes : ByteTable} {keyLength : ℕ}
    {s : VerifyState} {item : Digest32 × ℕ} {r : VerifyState × List (Digest32 × ℕ)} :
    verifyNode hash nodes keyLength s item = .ok r ↔ item.2 ≤ maxTreeDepth ∧ ∃ packed shape,
      nodes[item.1.1]? = some packed ∧ inspectPacked packed keyLength = .ok shape ∧
        recomputeLabel hash keyLength packed = item.1 ∧
        r = (⟨if item.2 = 0 then some item.1 else s.rootLabel, s.visited + 1⟩,
          childItems item.2 shape.children) := by
  rw [verifyNode]
  by_cases hdepth : maxTreeDepth < item.2
  · simp [hdepth]
  · rw [if_neg hdepth]
    cases nodes[item.1.1]? with
    | none => simp
    | some packed =>
      constructor
      · intro h
        obtain ⟨shape, hshape, h⟩ := bind_eq_ok.1 h
        by_cases hlabel : recomputeLabel hash keyLength packed = item.1
        · rw [if_neg (not_not.2 hlabel)] at h
          exact ⟨Nat.not_lt.1 hdepth, packed, shape, rfl, mapError_eq_ok.1 hshape, hlabel,
            (Except.ok.inj h).symm⟩
        · rw [if_pos hlabel] at h
          cases h
      · rintro ⟨-, packed', shape, hpacked, hshape, hlabel, rfl⟩
        cases hpacked
        refine bind_eq_ok.2 ⟨shape, mapError_eq_ok.2 hshape, ?_⟩
        rw [if_neg (not_not.2 hlabel)]

lemma rounds_copy (source : ByteTable) (s : CopyState) (root : Digest32) :
    worklist (copyNode source) maxRounds s [(root, 0)] ≠ none := by
  refine worklist_ne_none_of_depth (fun s item s' items h => ?_) s root
  obtain ⟨hdepth, _, children, -, -, hr⟩ := copyNode_eq_ok_iff.1 h
  exact ⟨hdepth, children, (Prod.mk.inj hr).2⟩

lemma rounds_verify (hash : Bytes → Digest32) (nodes : ByteTable) (keyLength : ℕ) (s : VerifyState)
    (root : Digest32) :
    worklist (verifyNode hash nodes keyLength) maxRounds s [(root, 0)] ≠ none := by
  refine worklist_ne_none_of_depth (fun s item s' items h => ?_) s root
  obtain ⟨hdepth, _, shape, -, -, -, hr⟩ := verifyNode_eq_ok_iff.1 h
  exact ⟨hdepth, shape.children, (Prod.mk.inj hr).2⟩

lemma loopResult_eq_ok_iff {σ : Type}
    {visit : σ → Digest32 × ℕ → Except CompactionError (σ × List (Digest32 × ℕ))} {s t : σ}
    {root : Digest32} (hrounds : worklist visit maxRounds s [(root, 0)] ≠ none) :
    loopResult root (worklist visit maxRounds s [(root, 0)]) = .ok t ↔
      Drains visit s [(root, 0)] t := by
  rw [← worklist_eq_ok_iff hrounds]
  obtain ⟨result, hresult⟩ := Option.ne_none_iff_exists'.1 hrounds
  rw [hresult, loopResult, Option.getD_some, Option.some.injEq]

/-! ## A stored tree is copied -/

section Copy

open AvlTree

variable {hash : Bytes → Digest32} {source : ByteTable} {t : AvlTree}
  {rows : List (Digest32 × Bytes)}

def insertAll (rows : List (Digest32 × Bytes)) (table : ByteTable) : ByteTable :=
  rows.foldl (fun table row => table.insert row.1.1 row.2) table

lemma copy_drains (h : t.InTable hash source) {depth : ℕ}
    (hdepth : depth + t.depth ≤ maxTreeDepth) (s : CopyState) :
    Drains (copyNode source) s [(t.label hash, depth)]
      ⟨insertAll (t.rows hash) s.nodes, s.written + (t.nodes hash).length⟩ := by
  induction t generalizing depth s with
  | leaf key value nextKey =>
    exact .single (copyNode_eq_ok_iff.2 ⟨hdepth, _, none, h.root, copyChildren_leaf .., rfl⟩) (.nil _)
  | internal balance key left right ihleft ihright =>
    rw [AvlTree.depth] at hdepth
    have hvisit : copyNode source s ((internal balance key left right).label hash, depth) = .ok _ :=
      copyNode_eq_ok_iff.2 ⟨show depth ≤ maxTreeDepth by omega, _, _, h.root,
        copyChildren_internal _ balance key (left.label hash) (right.label hash), rfl⟩
    have hchildren := (ihleft h.left (show depth + 1 + left.depth ≤ maxTreeDepth by omega)
      ⟨s.nodes.insert ((internal balance key left right).label hash).1
        ((internal balance key left right).node hash).pack, s.written + 1⟩).append
      (ihright h.right (show depth + 1 + right.depth ≤ maxTreeDepth by omega) _)
    have hstate : insertAll ((internal balance key left right).rows hash) s.nodes =
        insertAll (right.rows hash) (insertAll (left.rows hash)
          (s.nodes.insert ((internal balance key left right).label hash).1
            ((internal balance key left right).node hash).pack)) := by
      simp only [insertAll, AvlTree.rows, AvlTree.nodes, map_cons, map_append,
        foldl_cons, foldl_append]
      rfl
    have hcount : s.written + ((internal balance key left right).nodes hash).length =
        s.written + 1 + (left.nodes hash).length + (right.nodes hash).length := by
      rw [AvlTree.nodes, length_cons, length_append]
      omega
    rw [hstate, hcount]
    exact .single hvisit hchildren

lemma getElem?_insertAll (rows : List (Digest32 × Bytes)) (table : ByteTable) (key : Bytes) :
    (insertAll rows table)[key]? =
      writeRows (fun key => table[key]?) (RedbAVLStorage.nodeRows rows) key := by
  induction rows generalizing table with
  | nil => rfl
  | cons row rows ih =>
    have htail := ih (table.insert row.1.1 row.2)
    rwa [getElem?_insert_eq_update] at htail

variable {packed : Bytes}

lemma getElem?_insertAll_eq_some_iff (hrows : (rows.map Prod.fst).Nodup) {key : Bytes} :
    (insertAll rows ∅)[key]? = some packed ↔ ∃ label : Digest32, label.1 = key ∧
      (label, packed) ∈ rows := by
  rw [getElem?_insertAll]
  by_cases hkey : ∃ row ∈ rows, row.1.1 = key
  · obtain ⟨⟨label, packed'⟩, hrow, rfl⟩ := hkey
    have honly : ∀ packed'', (label, packed'') ∈ rows → packed'' = packed' := fun packed'' h =>
      congrArg Prod.snd (inj_on_of_nodup_map hrows h hrow rfl)
    have hmem : (label.1, packed') ∈ RedbAVLStorage.nodeRows rows := mem_map.2 ⟨_, hrow, rfl⟩
    rw [writeRows_of_mem hmem, Option.some.injEq]
    · constructor
      · rintro rfl
        exact ⟨label, rfl, hrow⟩
      · rintro ⟨label', hlabel, h⟩
        obtain rfl := Subtype.ext hlabel
        exact (honly packed h).symm
    · intro packed'' h
      obtain ⟨⟨label', _⟩, hmem', heq⟩ := mem_map.1 h
      obtain ⟨hlabel, rfl⟩ := Prod.mk.inj heq
      obtain rfl : label' = label := Subtype.ext hlabel
      exact honly _ hmem'
  · rw [writeRows_of_notMem]
    · simp only [getElem?_empty, reduceCtorEq, false_iff]
      rintro ⟨label, hlabel, h⟩
      exact hkey ⟨_, h, hlabel⟩
    · intro packed'' h
      obtain ⟨row, hrow, heq⟩ := mem_map.1 h
      exact hkey ⟨row, hrow, congrArg Prod.fst heq⟩

lemma size_insertAll (hrows : (rows.map Prod.fst).Nodup)
    {table : ByteTable} (hfresh : ∀ row ∈ rows, row.1.1 ∉ table) :
    (insertAll rows table).size = table.size + rows.length := by
  induction rows generalizing table with
  | nil => rfl
  | cons row rows ih =>
    rw [map_cons, nodup_cons] at hrows
    have hsize : (table.insert row.1.1 row.2).size = table.size + 1 := by
      rw [size_insert, if_neg]
      exact hfresh row mem_cons_self
    have hnext : ∀ row' ∈ rows, row'.1.1 ∉ table.insert row.1.1 row.2 := by
      intro row' hrow' hmem
      rw [mem_insert] at hmem
      rcases hmem with heq | hmem
      · have hlabel : row.1 = row'.1 := Subtype.ext (Std.LawfulEqCmp.compare_eq_iff_eq.1 heq)
        exact hrows.1 (hlabel ▸ mem_map_of_mem hrow')
      · exact hfresh row' (mem_cons_of_mem _ hrow') hmem
    have htail := ih hrows.2 hnext
    rw [length_cons]
    exact htail.trans (by omega)

lemma verify_drains (h : t.InTable hash source) {depth : ℕ}
    (hdepth : depth + t.depth ≤ maxTreeDepth) (s : VerifyState) :
    Drains (verifyNode hash source keyLength) s [(t.label hash, depth)]
      ⟨if depth = 0 then some (t.label hash) else s.rootLabel,
        s.visited + (t.nodes hash).length⟩ := by
  induction t generalizing depth s with
  | leaf key value nextKey =>
    have hlabel := recomputeLabel_pack hash (leaf key value nextKey)
    exact .single (verifyNode_eq_ok_iff.2 ⟨hdepth, _, _, h.root, inspectPacked_leaf .., hlabel, rfl⟩)
      (.nil _)
  | internal balance key left right ihleft ihright =>
    rw [AvlTree.depth] at hdepth
    have hlabel := recomputeLabel_pack hash ((internal balance key left right).node hash)
    have hvisit : verifyNode hash source keyLength s
        ((internal balance key left right).label hash, depth) = .ok _ :=
      verifyNode_eq_ok_iff.2 ⟨show depth ≤ maxTreeDepth by omega, _, _, h.root,
        inspectPacked_internal balance key (left.label hash) (right.label hash), hlabel, rfl⟩
    have hchildren := (ihleft h.left (show depth + 1 + left.depth ≤ maxTreeDepth by omega)
      ⟨if depth = 0 then some ((internal balance key left right).label hash) else s.rootLabel,
        s.visited + 1⟩).append
      (ihright h.right (show depth + 1 + right.depth ≤ maxTreeDepth by omega) _)
    have hcount : s.visited + ((internal balance key left right).nodes hash).length =
        s.visited + 1 + (left.nodes hash).length + (right.nodes hash).length := by
      rw [AvlTree.nodes, length_cons, length_append]
      omega
    rw [hcount]
    exact .single hvisit hchildren

lemma isOk_iff {ε α : Type} {x : Except ε α} : x.isOk = true ↔ ∃ a, x = .ok a := by
  cases x <;> simp [Except.isOk, Except.toBool]

lemma exists_deriveKeyLength {rootPacked : Bytes} {root : Digest32} {candidates : List ℕ} {k : ℕ}
    (hcandidates : keyLengthCandidates rootPacked = .ok candidates) (hk : k ∈ candidates)
    (hinspect : ∃ shape, inspectPacked rootPacked k = .ok shape)
    (hlabel : recomputeLabel hash k rootPacked = root) :
    ∃ k' ∈ candidates, deriveKeyLength hash rootPacked root = .ok k' ∧
      (∃ shape, inspectPacked rootPacked k' = .ok shape) ∧
        recomputeLabel hash k' rootPacked = root := by
  have hfound : (candidates.find? (fun k => (inspectPacked rootPacked k).isOk ∧
      recomputeLabel hash k rootPacked = root)).isSome := by
    rw [find?_isSome]
    exact ⟨k, hk, decide_eq_true ⟨isOk_iff.2 hinspect, hlabel⟩⟩
  obtain ⟨k', hk'⟩ := Option.isSome_iff_exists.1 hfound
  have hpred := find?_some hk'
  obtain ⟨hok, hlabel'⟩ := of_decide_eq_true hpred
  refine ⟨k', mem_of_find?_eq_some hk', bind_eq_ok.2 ⟨_, hcandidates, ?_⟩, isOk_iff.1 hok, hlabel'⟩
  rw [hk']

lemma eq_leaf_of_inspectPacked {k : ℕ} {shape : PackedShape}
    (h : inspectPacked (packedLeafPrefix :: packed) k = .ok shape) : shape = .leaf := by
  rw [inspectPacked, if_neg (by decide), if_pos rfl] at h
  split_ifs at h
  exact (Except.ok.inj h).symm

/-- The key length is found from the root. That of a single leaf may come out wrong, without effect.
-/
theorem exists_keyLength (h : t.InTable hash source) (hdepth : t.depth ≤ maxTreeDepth) :
    ∃ k, deriveKeyLength hash (t.node hash).pack (t.label hash) = .ok k ∧
      Drains (verifyNode hash source k) ⟨none, 0⟩ [(t.label hash, 0)]
        ⟨some (t.label hash), (t.nodes hash).length⟩ := by
  have hlabel := recomputeLabel_pack hash (t.node hash)
  cases t with
  | leaf key value nextKey =>
    have hinspect := inspectPacked_leaf key value nextKey
    have hmem : keyLength ∈ (range' 1 maxKeyLength).filter (fun k =>
        (inspectPacked (AvlNode.leaf key value nextKey).pack k).isOk) :=
      mem_filter.2 ⟨by decide, isOk_iff.2 ⟨_, hinspect⟩⟩
    obtain ⟨k, -, hk, ⟨shape, hshape⟩, hroot⟩ :=
      exists_deriveKeyLength rfl hmem ⟨_, hinspect⟩ hlabel
    obtain rfl := eq_leaf_of_inspectPacked hshape
    refine ⟨k, hk, .single (verifyNode_eq_ok_iff.2
      ⟨Nat.zero_le _, _, _, h.root, hshape, hroot, rfl⟩) (.nil _)⟩
  | internal balance key left right =>
    have hinspect := inspectPacked_internal balance key (left.label hash) (right.label hash)
    have hcandidates : keyLengthCandidates ((internal balance key left right).node hash).pack =
        .ok [keyLength] := by
      have hlen := length_pack_internal balance key (left.label hash) (right.label hash)
      show (if _ then _ else _) = _
      rw [node, hlen, if_neg (by decide)]
      rfl
    obtain ⟨k, hk, hderive, -, -⟩ :=
      exists_deriveKeyLength hcandidates mem_cons_self ⟨_, hinspect⟩ hlabel
    obtain rfl := mem_singleton.1 hk
    have hdrains := verify_drains h (by rwa [Nat.zero_add]) ⟨none, 0⟩
    rw [if_pos rfl, Nat.zero_add] at hdrains
    exact ⟨_, hderive, hdrains⟩

end Copy

/-! ## What is returned was verified -/

section Verified

variable {hash : Bytes → Digest32} {source dest : ByteTable} {root : Digest32} {keyLength : ℕ}
  {label : Digest32}

/-- The bytes of a node are well formed for a key length and hash to the label. -/
def HashesTo (hash : Bytes → Digest32) (keyLength : ℕ) (packed : Bytes) (label : Digest32) : Prop :=
  (∃ shape, inspectPacked packed keyLength = .ok shape) ∧ recomputeLabel hash keyLength packed = label

lemma childLabels_of_inspectPacked {shape : PackedShape}
    (h : inspectPacked packed keyLength = .ok shape) (depth : ℕ) :
    childItems depth shape.children =
      (childLabels keyLength packed).map (fun label => (label, depth + 1)) := by
  match packed with
  | [] => cases h
  | type :: packed =>
    rw [inspectPacked] at h
    split_ifs at h with hinternal hlen hleaf hshort hexact
    · cases h
      have hhead : (type :: packed).head? ≠ some 1 := by
        rw [hinternal]
        simp [packedInternalPrefix]
      have hle : 2 + keyLength + 64 ≤ (type :: packed).length := hlen.ge
      rw [childLabels, if_neg hhead, extractChildLabels, dif_pos hle]
      rfl
    · cases h
      rw [hleaf]
      rfl

lemma hashesTo_of_drains {s t : VerifyState}
    (h : Drains (verifyNode hash dest keyLength) s [(root, 0)] t)
    (hlabel : NodeBelow (fun key => dest[key]?) keyLength root label) :
    ∃ packed, dest[label.1]? = some packed ∧ HashesTo hash keyLength packed label := by
  refine h.visited (P := fun item => ∀ label,
    NodeBelow (fun key => dest[key]?) keyLength item.1 label →
      ∃ packed, dest[label.1]? = some packed ∧ HashesTo hash keyLength packed label) ?_ _
    mem_cons_self label hlabel
  intro s item s' items hvisit hitems label hbelow
  obtain ⟨-, packed, shape, hpacked, hshape, hitem, hr⟩ := verifyNode_eq_ok_iff.1 hvisit
  rcases hbelow.eq_or_child with rfl | ⟨packed', child, hpacked', hchild, hbelow⟩
  · exact ⟨packed, hpacked, ⟨shape, hshape⟩, hitem⟩
  · cases hpacked.symm.trans hpacked'
    refine hitems (child, item.2 + 1) ?_ label hbelow
    rw [(Prod.mk.inj hr).2, childLabels_of_inspectPacked hshape]
    exact mem_map_of_mem hchild

lemma source_of_copied {s : CopyState} (h : Drains (copyNode source) ⟨∅, 0⟩ [(root, 0)] s)
    {key : Bytes} (hpacked : s.nodes[key]? = some packed) : source[key]? = some packed := by
  refine h.invariant (I := fun s => ∀ key packed, s.nodes[key]? = some packed →
    source[key]? = some packed) ?_ (by simp) key packed hpacked
  intro s item s' items hvisit hs key packed hkey
  obtain ⟨-, packed', _, hitem, -, hr⟩ := copyNode_eq_ok_iff.1 hvisit
  rw [(Prod.mk.inj hr).1, getElem?_insert_bytes] at hkey
  split at hkey
  next heq =>
    rwa [← heq, ← Option.some.inj hkey]
  · exact hs key packed hkey

lemma hashesTo_source {copy : CopyState} {s t : VerifyState}
    (hcopy : Drains (copyNode source) ⟨∅, 0⟩ [(root, 0)] copy)
    (hverify : Drains (verifyNode hash copy.nodes keyLength) s [(root, 0)] t)
    (hlabel : NodeBelow (fun key => source[key]?) keyLength root label) :
    ∃ packed, source[label.1]? = some packed ∧ HashesTo hash keyLength packed label := by
  -- what is reachable in the source is reachable in the copy
  have hbelow : NodeBelow (fun key => copy.nodes[key]?) keyLength root label := by
    induction hlabel with
    | root => exact .root
    | child _ hpacked hchild ih =>
      obtain ⟨packed', hpacked', -⟩ := hashesTo_of_drains hverify ih
      cases hpacked.symm.trans (source_of_copied hcopy hpacked')
      exact ih.child hpacked' hchild
  obtain ⟨packed, hpacked, hhash⟩ := hashesTo_of_drains hverify hbelow
  exact ⟨packed, source_of_copied hcopy hpacked, hhash⟩

end Verified

/-! ## The result -/

section Result

open AvlTree

variable {hash : Bytes → Digest32} {env : CompactionEnv} {source : Database} {t : AvlTree}
  {height : UInt32} {blockHeight : Option UInt32} {lsn : Option UInt64} {stats : CompactionStats}

def rootOf (hash : Bytes → Digest32) (t : AvlTree) (height : UInt32) (blockHeight : Option UInt32)
    (lsn : Option UInt64) : SourceRoot where
  topNodeHash := t.label hash
  topNodeHeight := height
  currentVersion := (t.label hash).1 ++ [height.toUInt8]
  blockHeight := blockHeight.getD 0
  lsn := lsn.getD 1

lemma readSource_eq_ok (henv : ∀ step, env.fails step = false)
    (hstored : t.Stored hash source height)
    (hversion : source.metadata .currentVersion = some ((t.label hash).1 ++ [height.toUInt8]))
    (hblockHeight : source.metadata .blockHeight = blockHeight.map u32Bytes)
    (hlsn : source.metadata .lsn = lsn.map u64Bytes) :
    readSource env source = .ok (rootOf hash t height blockHeight lsn) := by
  have hreadHeight : readBlockHeight (blockHeight.map u32Bytes) = .ok (blockHeight.getD 0) := by
    cases blockHeight <;> simp [readBlockHeight]
  have hreadLsn : readLsn (lsn.map u64Bytes) = .ok (lsn.getD 1) := by
    cases lsn <;> simp [readLsn]
  rw [readSource, hstored.topNodeHash, hstored.topNodeHeight, hversion, hblockHeight, hlsn,
    hreadHeight, hreadLsn, henv, henv]
  simp only [Digest32.ofBytes_val, Except.mapError, length_u32Bytes, u32OfBytes_u32Bytes]
  rfl

def destOf (hash : Bytes → Digest32) (t : AvlTree) (height : UInt32) (blockHeight : Option UInt32)
    (lsn : Option UInt64) : Database :=
  ⟨insertAll (t.rows hash) ∅, ∅, destMetadata (rootOf hash t height blockHeight lsn)⟩

lemma copied_eq_ok (henv : ∀ step, env.fails step = false) (htable : t.InTable hash source.nodes)
    (hdepth : t.depth ≤ maxTreeDepth) :
    copied env source (rootOf hash t height blockHeight lsn) =
      .ok (destOf hash t height blockHeight lsn, (t.nodes hash).length) := by
  have hdrains := copy_drains htable (by rwa [Nat.zero_add]) ⟨∅, 0⟩
  have hcopy := (loopResult_eq_ok_iff (rounds_copy source.nodes ⟨∅, 0⟩ (t.label hash))).2 hdrains
  rw [Nat.zero_add] at hcopy
  refine bind_eq_ok.2 ⟨_, hcopy, ?_⟩
  rw [henv]
  rfl

lemma verifyCompacted_eq_ok (henv : ∀ step, env.fails step = false) (hkeys : t.DistinctKeys)
    (htable : t.InTable hash source.nodes) (hdepth : t.depth ≤ maxTreeDepth) :
    verifyCompacted hash env (destOf hash t height blockHeight lsn) (t.label hash)
      (t.nodes hash).length = .ok (t.label hash) := by
  have hlabels := nodup_labels hkeys htable
  have hdest : t.InTable hash (destOf hash t height blockHeight lsn).nodes := fun node hnode =>
    (getElem?_insertAll_eq_some_iff hlabels).2
      ⟨node.label hash, rfl, mem_rows_iff.2 ⟨node, hnode, rfl⟩⟩
  have hsize : (destOf hash t height blockHeight lsn).nodes.size = (t.nodes hash).length := by
    have hsize := size_insertAll hlabels (fun row _ => not_mem_empty)
    rwa [size_empty, Nat.zero_add, rows, length_map] at hsize
  obtain ⟨k, hk, hdrains⟩ := exists_keyLength hdest hdepth
  have hverify := (loopResult_eq_ok_iff (rounds_verify hash _ k ⟨none, 0⟩ (t.label hash))).2 hdrains
  rw [verifyCompacted, henv, hdest.root]
  simp only [Bool.false_eq_true, if_false, hk, hverify, ok_bind, hsize, require, if_true]

lemma compactTo_eq_ok (henv : ∀ step, env.fails step = false) (hkeys : t.DistinctKeys)
    (hdepth : t.depth ≤ maxTreeDepth) (hstored : t.Stored hash source height) (hheight : height ≤ 255)
    (hversion : source.metadata .currentVersion = some ((t.label hash).1 ++ [height.toUInt8]))
    (hblockHeight : source.metadata .blockHeight = blockHeight.map u32Bytes)
    (hlsn : source.metadata .lsn = lsn.map u64Bytes) :
    ∃ stats, compactTo hash env source none =
      ⟨some (destOf hash t height blockHeight lsn), .ok stats⟩ := by
  have hinner : ∃ stats, compactToInner hash env source =
      ⟨some (destOf hash t height blockHeight lsn), .ok stats⟩ := by
    rw [compactToInner, readSource_eq_ok henv hstored hversion hblockHeight hlsn]
    dsimp only
    rw [henv, copied_eq_ok henv hstored.nodes hdepth]
    dsimp only
    have hfinish : ∃ stats, finish hash env source (destOf hash t height blockHeight lsn)
        (rootOf hash t height blockHeight lsn) (t.nodes hash).length = .ok stats :=
      ⟨_, bind_eq_ok.2 ⟨(), require_eq_ok.2 (henv _),
        bind_eq_ok.2 ⟨_, verifyCompacted_eq_ok henv hkeys hstored.nodes hdepth,
          bind_eq_ok.2 ⟨(), require_eq_ok.2 hheight, bind_eq_ok.2 ⟨(), require_eq_ok.2 rfl, rfl⟩⟩⟩⟩⟩
    obtain ⟨stats, hstats⟩ := hfinish
    exact ⟨stats, by rw [hstats]; rfl⟩
  obtain ⟨stats, hstats⟩ := hinner
  exact ⟨stats, by rw [compactTo, hstats]⟩

lemma topNodeHash_of_readSource {root : SourceRoot} (h : readSource env source = .ok root) :
    source.metadata .topNodeHash = some root.topNodeHash.1 := by
  obtain ⟨_, -, h⟩ := bind_eq_ok.1 h
  obtain ⟨_, -, h⟩ := bind_eq_ok.1 h
  split at h
  · cases h
  next bytes hbytes =>
    obtain ⟨topNodeHash, hhash, h⟩ := bind_eq_ok.1 h
    have hof := mapError_eq_ok.1 hhash
    rw [Digest32.ofBytes] at hof
    split_ifs at hof
    split at h
    · cases h
    obtain ⟨_, -, h⟩ := bind_eq_ok.1 h
    split at h
    · cases h
    obtain ⟨_, -, h⟩ := bind_eq_ok.1 h
    obtain ⟨_, -, h⟩ := bind_eq_ok.1 h
    rw [hbytes, ← Except.ok.inj h, ← Except.ok.inj hof]

lemma drains_of_copied {root : SourceRoot} {dest : Database} {written : ℕ}
    (h : copied env source root = .ok (dest, written)) :
    Drains (copyNode source.nodes) ⟨∅, 0⟩ [(root.topNodeHash, 0)] ⟨dest.nodes, written⟩ := by
  obtain ⟨copy, hcopy, h⟩ := bind_eq_ok.1 h
  obtain ⟨_, -, h⟩ := bind_eq_ok.1 h
  cases h
  exact (loopResult_eq_ok_iff (rounds_copy _ _ _)).1 hcopy

lemma exists_drains_of_finish {root : SourceRoot} {dest : Database} {written : ℕ}
    (h : finish hash env source dest root written = .ok stats) :
    ∃ keyLength s, Drains (verifyNode hash dest.nodes keyLength) ⟨none, 0⟩
      [(root.topNodeHash, 0)] s := by
  obtain ⟨_, -, h⟩ := bind_eq_ok.1 h
  obtain ⟨rootLabel, hverify, -⟩ := bind_eq_ok.1 h
  rw [verifyCompacted] at hverify
  split_ifs at hverify
  split at hverify
  · cases hverify
  obtain ⟨keyLength, -, hverify⟩ := bind_eq_ok.1 hverify
  obtain ⟨s, hs, -⟩ := bind_eq_ok.1 hverify
  exact ⟨keyLength, s, (loopResult_eq_ok_iff (rounds_verify _ _ _ _ _)).1 hs⟩

lemma exists_drains_of_compactTo {dest : Option Database}
    (h : compactTo hash env source none = ⟨dest, .ok stats⟩) :
    ∃ root copy s keyLength, source.metadata .topNodeHash = some root.1 ∧
      Drains (copyNode source.nodes) ⟨∅, 0⟩ [(root, 0)] copy ∧
      Drains (verifyNode hash copy.nodes keyLength) ⟨none, 0⟩ [(root, 0)] s := by
  have hresult : (compactToInner hash env source).result = .ok stats := by
    simp only [compactTo] at h
    split at h
    next hresult => exact hresult.trans (Run.mk.inj h).2
    · cases (Run.mk.inj h).2
  rw [compactToInner] at hresult
  split at hresult
  · cases hresult
  next root hroot =>
    split_ifs at hresult
    split at hresult
    · cases hresult
    next dest' written hcopied =>
      obtain ⟨keyLength, s, hverify⟩ := exists_drains_of_finish hresult
      exact ⟨root.topNodeHash, _, s, keyLength, topNodeHash_of_readSource hroot,
        drains_of_copied hcopied, hverify⟩

/-- **Offline compaction is lossless.** A stored tree is copied exactly, with its version, block
height and sequence number, as the only version; what is returned as compacted, from any source,
hashes to its labels from the root down; and after an error there is no destination. -/
theorem compactTo_lossless (hash : Bytes → Digest32) (env : CompactionEnv) (source : Database) :
    (∀ (t : AvlTree) (height : UInt32) (blockHeight : Option UInt32) (lsn : Option UInt64),
      (∀ step, env.fails step = false) → t.DistinctKeys → t.depth ≤ maxTreeDepth →
      t.Stored hash source height → height ≤ 255 →
      source.metadata .currentVersion = some ((t.label hash).1 ++ [height.toUInt8]) →
      source.metadata .blockHeight = blockHeight.map u32Bytes →
      source.metadata .lsn = lsn.map u64Bytes →
      ∃ dest stats, compactTo hash env source none = ⟨some dest, .ok stats⟩ ∧
        (∀ key packed, dest.nodes[key]? = some packed ↔ ∃ label : Digest32, label.1 = key ∧
          NodeBelow (fun key => source.nodes[key]?) keyLength (t.label hash) label ∧
            source.nodes[key]? = some packed) ∧
        dest.metadata .topNodeHash = source.metadata .topNodeHash ∧
        dest.metadata .topNodeHeight = source.metadata .topNodeHeight ∧
        dest.metadata .currentVersion = source.metadata .currentVersion ∧
        dest.metadata .blockHeight = some (u32Bytes (blockHeight.getD 0)) ∧
        dest.metadata .lsn = some (u64Bytes (lsn.getD 1)) ∧
        RedbAVLStorage.restoreState dest = .ok (source.metadata .currentVersion,
          [(lsn.getD 1, (t.label hash).1 ++ [height.toUInt8])]) ∧
        dest.undo = ∅) ∧
    (∀ dest stats, compactTo hash env source none = ⟨dest, .ok stats⟩ →
      ∃ root keyLength, source.metadata .topNodeHash = some root.1 ∧
        ∀ label, NodeBelow (fun key => source.nodes[key]?) keyLength root label →
          ∃ packed, source.nodes[label.1]? = some packed ∧ HashesTo hash keyLength packed label) ∧
    (∀ dest e, compactTo hash env source none = ⟨dest, .error e⟩ → dest = none) := by
  refine ⟨?_, ?_, ?_⟩
  · intro t height blockHeight lsn henv hkeys hdepth hstored hheight hversion hblockHeight hlsn
    obtain ⟨stats, hstats⟩ := compactTo_eq_ok henv hkeys hdepth hstored hheight hversion hblockHeight
      hlsn
    refine ⟨_, stats, hstats, ?_, hstored.topNodeHash.symm, hstored.topNodeHeight.symm,
      hversion.symm, rfl, rfl, ?_, rfl⟩
    · intro key packed
      rw [destOf, getElem?_insertAll_eq_some_iff (nodup_labels hkeys hstored.nodes)]
      simp only [mem_rows_iff_nodeBelow hstored.nodes]
      exact exists_congr (fun label => and_congr_right (fun h => by rw [h]))
    · have hchain : deserializeVersionChain (serializeVersionChain
          [(lsn.getD 1, (t.label hash).1 ++ [height.toUInt8])]) =
            .ok [(lsn.getD 1, (t.label hash).1 ++ [height.toUInt8])] := by
        refine deserializeVersionChain_serialize ?_
        simp [serializeVersionChain, length_versionBytes, (t.label hash).2]
      rw [hversion]
      exact bind_eq_ok.2 ⟨_, hchain, rfl⟩
  · intro dest stats h
    obtain ⟨root, copy, s, keyLength, hroot, hcopy, hverify⟩ := exists_drains_of_compactTo h
    exact ⟨root, keyLength, hroot, fun label hlabel => hashesTo_source hcopy hverify hlabel⟩
  · intro dest e h
    simp only [compactTo] at h
    split at h
    · cases (Run.mk.inj h).2
    · exact (Run.mk.inj h).1.symm

theorem compactTo_lossless_twoLeaves :
    ∃ dest stats, compactTo firstBytes ⟨fun _ => false, fun _ => 0⟩ (databaseOf firstBytes twoLeaves 1)
        none = ⟨some dest, .ok stats⟩ ∧
      dest.metadata .blockHeight = some (u32Bytes 0) ∧ dest.metadata .lsn = some (u64Bytes 1) := by
  have hkeys : twoLeaves.DistinctKeys := by
    unfold DistinctKeys
    decide +kernel
  obtain ⟨dest, stats, hok, -, -, -, -, hheight, hlsn, -⟩ :=
    (compactTo_lossless firstBytes ⟨fun _ => false, fun _ => 0⟩ (databaseOf firstBytes twoLeaves 1)).1
      twoLeaves 1 none none (fun _ => rfl) hkeys (by decide) stored_twoLeaves (by decide) rfl rfl rfl
  exact ⟨dest, stats, hok, hheight, hlsn⟩

end Result

end Compaction

end ErgoNode
