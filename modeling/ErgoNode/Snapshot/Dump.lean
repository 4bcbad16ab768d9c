import ErgoNode.State.AvlTree

/-!
# Reading the state tree for snapshots

A reader of the state database walks the tree by the labels in its packed nodes: to look up a key,
and to dump the tree as a snapshot, a manifest with the nodes down to a depth and a chunk for every
subtree below. Both walks of the dump are recursive calls in the code, so the model of the chunk walk
takes the depth of the call stack.
-/

namespace ErgoNode

open List

inductive DumpError where
  | manifestNodeNotFound (label : Digest32)
  | chunkNodeNotFound (label : Digest32)
  | corruptInternalNode (required length : ℕ)
  | badHeightBytes
  | panicked
  deriving DecidableEq

structure SnapshotDump where
  /-- The label of the root: the manifest id. -/
  rootHash : Digest32
  treeHeight : UInt8
  manifest : Bytes
  /-- The chunks with the labels of their subtrees. -/
  chunks : List (Digest32 × Bytes)
  deriving DecidableEq

namespace SnapshotReader

/-- A node in the table and the labels of its children; a leaf has none. An empty row makes the code
panic. -/
def readNode (table : ByteTable) (missing : DumpError) (label : Digest32) :
    Except DumpError (Bytes × Option (Digest32 × Digest32)) :=
  match table[label.1]? with
  | none => .error missing
  | some [] => .error .panicked
  | some (type :: packed) =>
    if type = packedLeafPrefix then .ok (type :: packed, none)
    else
      match extractChildLabels keyLength (type :: packed) with
      | none => .error (.corruptInternalNode (2 + keyLength + 64) (type :: packed).length)
      | some children => .ok (type :: packed, some children)

/-- `walk_manifest`, with the levels left: what is appended to the manifest and to the subtree
roots. -/
def walkManifest (table : ByteTable) : (levels : ℕ) → Digest32 →
    Except DumpError (Bytes × List Digest32)
  | 0, label => do
    let (packed, children) ← readNode table (.manifestNodeNotFound label) label
    match children with
    | none => .ok (packed, [])
    | some (left, right) => .ok (packed, [left, right])
  | levels + 1, label => do
    let (packed, children) ← readNode table (.manifestNodeNotFound label) label
    match children with
    | none => .ok (packed, [])
    | some (left, right) => do
      let (leftBytes, leftRoots) ← walkManifest table levels left
      let (rightBytes, rightRoots) ← walkManifest table levels right
      .ok (packed ++ (leftBytes ++ rightBytes), leftRoots ++ rightRoots)

/-- `walk_chunk`, on a call stack of a depth: what is appended to the chunk. -/
def walkChunk (table : ByteTable) : (stack : ℕ) → Digest32 → Except DumpError Bytes
  | 0, _ => .error .panicked
  | stack + 1, label => do
    let (packed, children) ← readNode table (.chunkNodeNotFound label) label
    match children with
    | none => .ok packed
    | some (left, right) => do
      let leftBytes ← walkChunk table stack left
      let rightBytes ← walkChunk table stack right
      .ok (packed ++ (leftBytes ++ rightBytes))

/-- `dump_snapshot`. The height is cut to a byte. Levels start at 1, so `manifestDepth - 1` lie
above the boundary. -/
def dumpSnapshot (stack : ℕ) (db : Database) (manifestDepth : UInt8) :
    Except DumpError (Option SnapshotDump) :=
  match db.metadata .topNodeHash with
  | none => .ok none
  | some hashBytes => do
    let rootHash ← (Digest32.ofBytes hashBytes).mapError (fun _ => .panicked)
    match db.metadata .topNodeHeight with
    | none => .ok none
    | some heightBytes =>
      match RedbAVLStorage.heightOfBytes heightBytes with
      | none => .error .badHeightBytes
      | some height => do
        let (nodes, subtreeRoots) ← walkManifest db.nodes (manifestDepth - 1).toNat rootHash
        let chunks ← subtreeRoots.mapM (fun label => do
          let chunk ← walkChunk db.nodes stack label
          .ok (label, chunk))
        .ok (some ⟨rootHash, height.toUInt8, height.toUInt8 :: manifestDepth :: nodes, chunks⟩)

def leafValue (packed : Bytes) (key : Digest32) : Option Bytes :=
  if packed.length < 1 + keyLength then none
  else if (packed.drop 1).take keyLength = key.1 then
    if packed.length < 1 + keyLength + 4 then none
    else
      let vlen := (u32OfBytes ((packed.drop (1 + keyLength)).take 4)).toNat
      if packed.length < 1 + keyLength + 4 + vlen then none
      else some ((packed.drop (1 + keyLength + 4)).take vlen)
  else none

def nextLabel (packed : Bytes) (key : Digest32) : Option Digest32 :=
  (extractChildLabels keyLength packed).map (fun children =>
    if key.1 < (packed.drop 2).take keyLength then children.1 else children.2)

def lookupLoop (table : ByteTable) (key : Digest32) : (rounds : ℕ) → Digest32 → Option (Option Bytes)
  | 0, _ => none
  | rounds + 1, label =>
    match table[label.1]? with
    | none => some none
    | some [] => some none
    | some (type :: packed) =>
      if type = packedLeafPrefix then some (leafValue (type :: packed) key)
      else
        match nextLabel (type :: packed) key with
        | none => some none
        | some next => lookupLoop table key rounds next

/-- `lookup_key`: `none` when the rounds are not enough, or the code panics. -/
def lookupKey (rounds : ℕ) (db : Database) (key : Digest32) : Option (Option Bytes) :=
  match db.metadata .topNodeHash with
  | none => some none
  | some rootBytes => do
    let root ← (Digest32.ofBytes rootBytes).toOption
    lookupLoop db.nodes key rounds root

end SnapshotReader

/-! ## Trees that are cut -/

namespace AvlTree

variable (hash : Bytes → Digest32)

def nodesAbove : (levels : ℕ) → AvlTree → List AvlNode
  | _, leaf key value nextKey => [.leaf key value nextKey]
  | 0, internal balance key left right => [(internal balance key left right).node hash]
  | levels + 1, internal balance key left right =>
    (internal balance key left right).node hash :: (left.nodesAbove levels ++ right.nodesAbove levels)

def subtreesBelow : (levels : ℕ) → AvlTree → List AvlTree
  | _, leaf .. => []
  | 0, internal _ _ left right => [left, right]
  | levels + 1, internal _ _ left right => left.subtreesBelow levels ++ right.subtreesBelow levels

lemma nodesAbove_append_perm (levels : ℕ) (t : AvlTree) :
    (t.nodesAbove hash levels ++ (t.subtreesBelow levels).flatMap (nodes hash)).Perm (t.nodes hash) := by
  induction t generalizing levels with
  | leaf key value nextKey => cases levels <;> exact .refl _
  | internal balance key left right ihleft ihright =>
    cases levels with
    | zero => simp [nodesAbove, subtreesBelow, nodes, node]
    | succ levels =>
      rw [nodesAbove, subtreesBelow, nodes, flatMap_append, cons_append]
      refine Perm.cons _ ?_
      -- the right half's upper nodes move past the left half's lower ones
      refine Perm.trans ?_ ((ihleft levels).append (ihright levels))
      simp only [append_assoc]
      exact (perm_append_comm_assoc ..).append_left _

variable {hash}

lemma of_mem_subtreesBelow {table : ByteTable} {t s : AvlTree} {levels : ℕ} (hs : s ∈ t.subtreesBelow levels)
    (ht : t.InTable hash table) : s.InTable hash table ∧ s.depth ≤ t.depth := by
  induction t generalizing levels with
  | leaf => cases levels <;> simp [subtreesBelow] at hs
  | internal balance key left right ihleft ihright =>
    rw [depth]
    cases levels with
    | zero =>
      rcases mem_pair.1 hs with rfl | rfl
      · exact ⟨ht.left, by omega⟩
      · exact ⟨ht.right, by omega⟩
    | succ levels =>
      rcases mem_append.1 hs with hs | hs
      · obtain ⟨htable, hdepth⟩ := ihleft hs ht.left
        exact ⟨htable, by omega⟩
      · obtain ⟨htable, hdepth⟩ := ihright hs ht.right
        exact ⟨htable, by omega⟩

end AvlTree

/-! ## The walks -/

namespace SnapshotReader

open AvlTree

variable {hash : Bytes → Digest32} {table : ByteTable} {t : AvlTree} {missing : DumpError}
  {height : UInt32}

lemma readNode_leaf {key : Digest32} {value : AvlValue} {nextKey : Digest32}
    (h : (leaf key value nextKey).InTable hash table) :
    readNode table missing ((leaf key value nextKey).label hash) =
      .ok ((AvlNode.leaf key value nextKey).pack, none) := by
  rw [readNode, h.root]
  rfl

lemma readNode_internal {balance : Int8} {key : Digest32} {left right : AvlTree}
    (h : (internal balance key left right).InTable hash table) :
    readNode table missing ((internal balance key left right).label hash) =
      .ok (((internal balance key left right).node hash).pack,
        some (left.label hash, right.label hash)) := by
  have hchildren := AvlNode.extractChildLabels_pack balance key (left.label hash) (right.label hash)
  rw [readNode, h.root, node]
  rw [AvlNode.pack] at hchildren ⊢
  simp only [packedInternalPrefix, packedLeafPrefix] at hchildren ⊢
  rw [hchildren]
  rfl

lemma walkManifest_eq_ok (h : t.InTable hash table) (levels : ℕ) :
    walkManifest table levels (t.label hash) =
      .ok ((t.nodesAbove hash levels).flatMap AvlNode.pack, (t.subtreesBelow levels).map (label hash)) := by
  induction t generalizing levels with
  | leaf key value nextKey =>
    cases levels <;>
      simp [walkManifest, readNode_leaf h, nodesAbove, subtreesBelow]
  | internal balance key left right ihleft ihright =>
    cases levels with
    | zero => simp [walkManifest, readNode_internal h, nodesAbove, subtreesBelow]
    | succ levels =>
      simp [walkManifest, readNode_internal h, nodesAbove, subtreesBelow, ihleft h.left levels,
        ihright h.right levels]

lemma walkChunk_eq_ok (h : t.InTable hash table) {stack : ℕ} (hstack : t.depth < stack) :
    walkChunk table stack (t.label hash) = .ok ((t.nodes hash).flatMap AvlNode.pack) := by
  induction t generalizing stack with
  | leaf key value nextKey =>
    obtain ⟨stack, rfl⟩ := Nat.exists_eq_add_one_of_ne_zero (by omega : stack ≠ 0)
    simp [walkChunk, readNode_leaf h, nodes]
  | internal balance key left right ihleft ihright =>
    obtain ⟨stack, rfl⟩ := Nat.exists_eq_add_one_of_ne_zero (by omega : stack ≠ 0)
    rw [depth] at hstack
    simp [walkChunk, readNode_internal h, nodes, node, ihleft h.left (by omega : left.depth < stack),
      ihright h.right (by omega : right.depth < stack)]

lemma dumpSnapshot_eq_ok {db : Database} (h : t.Stored hash db height)
    (manifestDepth : UInt8) {stack : ℕ} (hstack : t.depth < stack) :
    dumpSnapshot stack db manifestDepth = .ok (some {
      rootHash := t.label hash
      treeHeight := height.toUInt8
      manifest := height.toUInt8 :: manifestDepth ::
        (t.nodesAbove hash (manifestDepth - 1).toNat).flatMap AvlNode.pack
      chunks := (t.subtreesBelow (manifestDepth - 1).toNat).map (fun s =>
        (s.label hash, (s.nodes hash).flatMap AvlNode.pack)) }) := by
  have hheight : RedbAVLStorage.heightOfBytes (u32Bytes height) = some height := by
    simp [RedbAVLStorage.heightOfBytes]
  have hchunks : ((t.subtreesBelow (manifestDepth - 1).toNat).map (label hash)).mapM (fun label => do
      let chunk ← walkChunk db.nodes stack label
      (.ok (label, chunk) : Except DumpError _)) =
      .ok ((t.subtreesBelow (manifestDepth - 1).toNat).map (fun s =>
        (s.label hash, (s.nodes hash).flatMap AvlNode.pack))) := by
    rw [mapM_eq_ok_iff, forall₂_map_left_iff, forall₂_map_right_iff, forall₂_same]
    intro s hs
    obtain ⟨htable, hdepth⟩ := of_mem_subtreesBelow hs h.nodes
    rw [walkChunk_eq_ok htable (Nat.lt_of_le_of_lt hdepth hstack)]
    rfl
  rw [dumpSnapshot, h.topNodeHash, h.topNodeHeight]
  simp only [Digest32.ofBytes_val, Except.mapError, ok_bind, hheight, walkManifest_eq_ok h.nodes,
    hchunks]

/-! ## Lookups -/

lemma leafValue_pack (k : Digest32) (value : AvlValue) (nextKey key : Digest32) :
    leafValue (AvlNode.leaf k value nextKey).pack key = if k = key then some value.1 else none := by
  generalize hpacked : (AvlNode.leaf k value nextKey).pack = packed
  have hlen : packed.length = 69 + value.1.length := by
    rw [← hpacked, AvlNode.length_pack_leaf]
  have hkey : packed.drop 1 =
      k.1 ++ (u32Bytes (UInt32.ofNat value.1.length) ++ (value.1 ++ nextKey.1)) := by
    rw [← hpacked]
    rfl
  have hsized : packed.drop (1 + 32) =
      u32Bytes (UInt32.ofNat value.1.length) ++ (value.1 ++ nextKey.1) := by
    rw [← drop_drop, hkey, drop_left' k.2]
  have hvalue : packed.drop (1 + 32 + 4) = value.1 ++ nextKey.1 := by
    rw [← drop_drop, hsized, drop_left' (length_u32Bytes _)]
  have hvlen : (u32OfBytes ((packed.drop (1 + 32)).take 4)).toNat = value.1.length := by
    rw [hsized, take_left' (length_u32Bytes _), u32OfBytes_u32Bytes, toNat_u32_of_lt value.2]
  rw [leafValue, keyLength, if_neg (by omega), hkey, take_left' k.2]
  refine if_congr Subtype.ext_iff.symm ?_ rfl
  rw [if_neg (by omega)]
  dsimp only
  rw [hvlen, if_neg (by omega), hvalue, take_left]

lemma nextLabel_pack (balance : Int8) (k left right key : Digest32) :
    nextLabel (AvlNode.internal balance k left right).pack key =
      some (if key.1 < k.1 then left else right) := by
  have hkey : ((AvlNode.internal balance k left right).pack.drop 2).take keyLength = k.1 :=
    take_left' k.2
  rw [nextLabel, AvlNode.extractChildLabels_pack, hkey]
  rfl

/-- The loop over a tree in the table searches the tree, in as many rounds as the tree is deep. -/
theorem lookupLoop_eq (h : t.InTable hash table) (key : Digest32) {rounds : ℕ}
    (hrounds : t.depth < rounds) :
    lookupLoop table key rounds (t.label hash) = some (t.find key) := by
  induction t generalizing rounds with
  | leaf k value nextKey =>
    obtain ⟨rounds, rfl⟩ := Nat.exists_eq_add_one_of_ne_zero (by omega : rounds ≠ 0)
    have hvalue := leafValue_pack k value nextKey key
    rw [AvlNode.pack] at hvalue
    rw [lookupLoop, h.root, node, AvlNode.pack, find]
    exact congrArg some hvalue
  | internal balance k left right ihleft ihright =>
    obtain ⟨rounds, rfl⟩ := Nat.exists_eq_add_one_of_ne_zero (by omega : rounds ≠ 0)
    rw [depth] at hrounds
    have hnext := nextLabel_pack balance k (left.label hash) (right.label hash) key
    rw [AvlNode.pack] at hnext
    rw [lookupLoop, h.root, node, AvlNode.pack]
    dsimp only
    rw [if_neg (by decide : packedInternalPrefix ≠ packedLeafPrefix), hnext, find]
    dsimp only
    split_ifs
    · exact ihleft h.left (by omega)
    · exact ihright h.right (by omega)

lemma lookupKey_eq {db : Database} (h : t.Stored hash db height)
    (key : Digest32) {rounds : ℕ} (hrounds : t.depth < rounds) :
    lookupKey rounds db key = some (t.find key) := by
  rw [lookupKey, h.topNodeHash]
  simp only [Digest32.ofBytes_val, Except.toOption, Option.bind_eq_bind, Option.bind_some]
  exact lookupLoop_eq h.nodes key hrounds

end SnapshotReader

end ErgoNode
