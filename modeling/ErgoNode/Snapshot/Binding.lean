import ErgoNode.Snapshot.RoundTrip

/-!
# What a verified snapshot determines

What is accepted against a state root is the pre-order of a tree with that root, so up to hash
collisions it is the committed tree, except for the keys of inner nodes: they are packed, but no
label covers them, and the verification does not compare them with the leaves below. A snapshot
therefore gives the committed state exactly if every inner node in it has the committed key.
-/

namespace ErgoNode

open AvlTree List

/-! ## Loading -/

def RedbAVLStorage.loadSnapshot (redb : Redb) (s : RedbAVLStorage) (nodes : List (Digest32 × Bytes))
    (rootHash : Digest32) (height : ℕ) (version : Bytes) (blockHeight : UInt32) :
    Except StateError RedbAVLStorage := do
  let table ← redb.insertRows (nodeRows nodes) s.db.nodes
  let metadata ← redb.insertMeta .topNodeHash rootHash.1 s.db.metadata
  let metadata ← redb.insertMeta .topNodeHeight (u32Bytes (UInt32.ofNat height)) metadata
  let metadata ← redb.insertMeta .currentVersion version metadata
  let metadata ← redb.insertMeta .lsn (u64Bytes 1) metadata
  let metadata ← redb.insertMeta .blockHeight (u32Bytes blockHeight) metadata
  let metadata ← redb.insertMeta .versions (serializeVersionChain [(1, version)]) metadata
  .ok { s with
    db := ⟨table, s.db.undo, metadata⟩
    currentVersion := some version
    versionChain := [(1, version)] }

/-- The load at the end of the bootstrap: the version is the state root. -/
def SnapshotData.load (redb : Redb) (s : RedbAVLStorage) (data : SnapshotData) :
    Except StateError RedbAVLStorage :=
  s.loadSnapshot redb data.nodes data.rootHash data.treeHeight.toNat
    (StateRoot.of data.rootHash data.treeHeight).1 data.snapshotHeight

lemma insertMeta_eq_ok {redb : Redb} {key : MetaKey} {value : Bytes} {metadata metadata' : Metadata}
    (h : redb.insertMeta key value metadata = .ok metadata') :
    metadata' = Function.update metadata key (some value) := by
  obtain ⟨_, -, h⟩ := bind_eq_ok.1 h
  exact (Except.ok.inj h).symm

lemma getElem?_insertRows {redb : Redb} {rows : List (Bytes × Bytes)} {table table' : ByteTable}
    (h : redb.insertRows rows table = .ok table') (key : Bytes) :
    table'[key]? = writeRows (fun key => table[key]?) rows key := by
  induction rows generalizing table with
  | nil => rw [← Except.ok.inj h, writeRows, foldl_nil]
  | cons row rows ih =>
    obtain ⟨_, -, h⟩ := bind_eq_ok.1 h
    rw [ih h, getElem?_insert_eq_update, writeRows, writeRows, foldl_cons]

variable {hash : Bytes → Digest32} {ids : List Digest32}

/-! ## Accepted snapshots are trees -/

lemma exists_tree_of_streamed {boundaryDepth : Option ℕ} {depth : ℕ} {root : Digest32}
    {accepted : List AvlNode} (h : Streamed hash boundaryDepth depth root accepted ids)
    {ts : List AvlTree} (hts : ts.map (label hash) = ids) :
    ∃ t : AvlTree, t.label hash = root ∧
      (accepted ++ ts.flatMap (nodes hash)).Perm (t.nodes hash) := by
  induction h generalizing ts with
  | leaf depth key value nextKey =>
    obtain rfl := map_eq_nil_iff.1 hts
    exact ⟨.leaf key value nextKey, rfl, .refl _⟩
  | @cut depth hcut balance key left right =>
    obtain ⟨t, rest, rfl, rfl, hrest⟩ := map_eq_cons_iff.1 hts
    obtain ⟨t', rest', rfl, rfl, hrest'⟩ := map_eq_cons_iff.1 hrest
    obtain rfl := map_eq_nil_iff.1 hrest'
    exact ⟨.internal balance key t t', rfl, by simp [nodes]⟩
  | @internal depth hcut balance key left right above above' ids ids' _ _ ihleft ihright =>
    obtain ⟨ts, ts', rfl, hts, hts'⟩ := map_eq_append_iff.1 hts
    obtain ⟨t, rfl, hperm⟩ := ihleft hts
    obtain ⟨t', rfl, hperm'⟩ := ihright hts'
    refine ⟨.internal balance key t t', rfl, ?_⟩
    rw [nodes, flatMap_append, cons_append]
    refine Perm.cons _ (Perm.trans ?_ (hperm.append hperm'))
    simp only [append_assoc]
    exact (perm_append_comm_assoc ..).append_left _

lemma exists_trees_of_chunks {chunks : List (List AvlNode)}
    (h : List.Forall₂ (fun id chunk => Streamed hash none 1 id chunk []) ids chunks) :
    ∃ ts : List AvlTree, ts.map (label hash) = ids ∧
      chunks.flatten.Perm (ts.flatMap (nodes hash)) := by
  induction h with
  | nil => exact ⟨[], rfl, .refl _⟩
  | cons hchunk _ ih =>
    obtain ⟨t, rfl, hperm⟩ := exists_tree_of_streamed hchunk map_nil
    obtain ⟨ts, rfl, hperms⟩ := ih
    refine ⟨t :: ts, rfl, ?_⟩
    rw [flatMap_nil, append_nil] at hperm
    exact hperm.append hperms

lemma exists_tree_of_assembled {root : Digest32} {height : UInt8} {bytes : Bytes}
    {manifest : VerifiedManifest} {getChunk : Digest32 → Option Bytes} {snapshotHeight : UInt32}
    {data : SnapshotData} (hmanifest : verifyManifest hash bytes (.of root height) = .ok manifest)
    (hdata : assembleSnapshot hash manifest getChunk snapshotHeight = .ok data) :
    data.rootHash = root ∧ ∃ t : AvlTree, t.label hash = root ∧ data.nodes.Perm (t.rows hash) := by
  obtain ⟨depth, accepted, ids, -, hstreamed, rfl, rfl⟩ := verifyManifest_eq_ok_iff.1 hmanifest
  obtain ⟨chunks, hchunks, rfl⟩ := (assembleSnapshot_eq_ok_iff hstreamed).1 hdata
  obtain ⟨ts, hts, hperms⟩ := exists_trees_of_chunks (hchunks.imp (fun _ _ h => h.1))
  obtain ⟨t, ht, hperm⟩ := exists_tree_of_streamed hstreamed hts
  exact ⟨rfl, t, ht, ((hperms.append_left accepted).trans hperm).map _⟩

/-! ## The committed tree -/

namespace SnapshotData

def preimages (hash : Bytes → Digest32) (data : SnapshotData) : Set Bytes :=
  { preimage | ∃ node : AvlNode, node.row hash ∈ data.nodes ∧ node.preimage = preimage }

/-- The snapshot gives the rows of a tree, and a lookup in it finds exactly the entries of the tree.
-/
structure Determines (hash : Bytes → Digest32) (data : SnapshotData) (loaded : RedbAVLStorage)
    (t : AvlTree) : Prop where
  rows : writeRows (fun _ => none) data.nodes = writeRows (fun _ => none) (t.rows hash)
  lookups : ∃ n, ∀ rounds ≥ n, ∀ key, ∃ value,
    SnapshotReader.lookupKey rounds loaded.db key = some value ∧
      ∀ v, value = some v ↔ (key, v) ∈ t.entries

/-- Every inner node of the snapshot has the key it has in the tree. -/
def KeysCommitted (hash : Bytes → Digest32) (data : SnapshotData) (t : AvlTree) : Prop :=
  ∀ balance key key' left right, (AvlNode.internal balance key left right).row hash ∈ data.nodes →
    AvlNode.internal balance key' left right ∈ t.nodes hash → key = key'

end SnapshotData

section Committed

variable {rows : List (Digest32 × Bytes)} {data : SnapshotData} {t t' : AvlTree} {redb : Redb}
  {s loaded : RedbAVLStorage}

lemma row_mem_iff (hperm : rows.Perm (t.rows hash)) {node : AvlNode} :
    node.row hash ∈ rows ↔ node ∈ t.nodes hash := by
  rw [hperm.mem_iff, AvlTree.rows, mem_map]
  constructor
  · rintro ⟨node', hnode', hrow⟩
    rwa [← AvlNode.pack_injective (congrArg Prod.snd hrow)]
  · exact fun h => ⟨node, h, rfl⟩

lemma preimages_eq (hperm : data.nodes.Perm (t.rows hash)) :
    data.preimages hash = t.preimages hash := by
  ext preimage
  simp only [SnapshotData.preimages, AvlTree.preimages, Set.mem_ofPred_eq, row_mem_iff hperm]

lemma eq_of_mem_rows (ht : t.DistinctKeys) (hhash : TellsApart hash (t.preimages hash))
    (hperm : rows.Perm (t.rows hash)) {label : Digest32} {packed packed' : Bytes}
    (h : (label, packed) ∈ rows) (h' : (label, packed') ∈ rows) : packed' = packed := by
  obtain ⟨node, hnode, hrow⟩ := mem_rows_iff.1 (hperm.mem_iff.1 h)
  obtain ⟨node', hnode', hrow'⟩ := mem_rows_iff.1 (hperm.mem_iff.1 h')
  cases hrow
  obtain ⟨hlabel, rfl⟩ := Prod.mk.inj hrow'
  rw [node_eq_of_label_eq ht hhash hnode' hnode hlabel]

lemma writeRows_eq_of_perm (ht : t.DistinctKeys) (hhash : TellsApart hash (t.preimages hash))
    (hperm : rows.Perm (t.rows hash)) :
    writeRows (fun _ => none) rows = writeRows (fun _ => none) (t.rows hash) := by
  ext1 label
  by_cases hlabel : ∃ packed, (label, packed) ∈ t.rows hash
  · obtain ⟨packed, hpacked⟩ := hlabel
    rw [writeRows_of_mem hpacked (fun _ h => eq_of_mem_rows ht hhash (.refl _) hpacked h),
      writeRows_of_mem (hperm.mem_iff.2 hpacked) (fun _ h =>
        eq_of_mem_rows ht hhash hperm (hperm.mem_iff.2 hpacked) h)]
  · have hnone : ∀ packed, (label, packed) ∉ t.rows hash := fun packed h => hlabel ⟨packed, h⟩
    rw [writeRows_of_notMem hnone, writeRows_of_notMem (fun packed h =>
      hnone packed (hperm.mem_iff.1 h))]

lemma stored_of_load (ht : t.DistinctKeys) (hhash : TellsApart hash (t.preimages hash))
    (hperm : data.nodes.Perm (t.rows hash)) (hroot : data.rootHash = t.label hash)
    (hload : data.load redb s = .ok loaded) :
    t.Stored hash loaded.db (UInt32.ofNat data.treeHeight.toNat) := by
  obtain ⟨table, htable, h⟩ := bind_eq_ok.1 hload
  obtain ⟨m₁, hm₁, h⟩ := bind_eq_ok.1 h
  obtain ⟨m₂, hm₂, h⟩ := bind_eq_ok.1 h
  obtain ⟨m₃, hm₃, h⟩ := bind_eq_ok.1 h
  obtain ⟨m₄, hm₄, h⟩ := bind_eq_ok.1 h
  obtain ⟨m₅, hm₅, h⟩ := bind_eq_ok.1 h
  obtain ⟨m₆, hm₆, h⟩ := bind_eq_ok.1 h
  cases h
  obtain rfl := insertMeta_eq_ok hm₁
  obtain rfl := insertMeta_eq_ok hm₂
  obtain rfl := insertMeta_eq_ok hm₃
  obtain rfl := insertMeta_eq_ok hm₄
  obtain rfl := insertMeta_eq_ok hm₅
  obtain rfl := insertMeta_eq_ok hm₆
  refine ⟨fun node hnode => ?_, by simp [Function.update_of_ne, hroot], by
    simp [Function.update_of_ne]⟩
  have hrow : ((node.label hash).1, node.pack) ∈ RedbAVLStorage.nodeRows data.nodes :=
    mem_map.2 ⟨_, (row_mem_iff hperm).2 hnode, rfl⟩
  rw [getElem?_insertRows htable]
  refine writeRows_of_mem hrow ?_
  intro packed hpacked
  obtain ⟨⟨label, packed'⟩, hmem, heq⟩ := mem_map.1 hpacked
  obtain ⟨hlabel, rfl⟩ := Prod.mk.inj heq
  obtain rfl : label = node.label hash := Subtype.ext hlabel
  exact eq_of_mem_rows ht hhash hperm ((row_mem_iff hperm).2 hnode) hmem

/-- **What a verified snapshot determines.** Bytes accepted against the root of an ordered tree,
with a hash that tells preimages apart, give its rows and lookups exactly if every inner node has
the committed key. -/
theorem determines_iff_keysCommitted (ht : t.Ordered) {height : UInt8} {bytes : Bytes}
    {manifest : VerifiedManifest} {getChunk : Digest32 → Option Bytes} {snapshotHeight : UInt32}
    (hmanifest : verifyManifest hash bytes (.of (t.label hash) height) = .ok manifest)
    (hdata : assembleSnapshot hash manifest getChunk snapshotHeight = .ok data)
    (hhash : TellsApart hash (t.preimages hash ∪ data.preimages hash))
    (hload : data.load redb s = .ok loaded) :
    data.Determines hash loaded t ↔ data.KeysCommitted hash t := by
  obtain ⟨hroot, t', hlabel, hperm⟩ := exists_tree_of_assembled hmanifest hdata
  rw [preimages_eq hperm] at hhash
  have hagree := agreeUpToKeys_of_label_eq hhash Set.subset_union_right Set.subset_union_left hlabel
  have hdistinct' : t'.DistinctKeys := by
    rw [DistinctKeys, hagree.entries_eq]
    exact ht.distinctKeys
  have hhash' : TellsApart hash (t'.preimages hash) := fun a ha b hb => hhash a (.inr ha) b (.inr hb)
  have hhasht : TellsApart hash (t.preimages hash) := fun a ha b hb => hhash a (.inl ha) b (.inl hb)
  constructor
  · -- the map has the snapshot's row under the label, and the tree's
    intro h balance key key' left right hmem hmem'
    have hsnapshot := writeRows_of_mem (m := fun _ => none) hmem (fun packed hpacked =>
      eq_of_mem_rows hdistinct' hhash' hperm hmem hpacked)
    have hrow' := (row_mem_iff (.refl _)).2 hmem'
    have htree := writeRows_of_mem (m := fun _ => none) hrow' (fun packed hpacked =>
      eq_of_mem_rows ht.distinctKeys hhasht (.refl _) hrow' hpacked)
    rw [h.rows] at hsnapshot
    have hpack := Option.some.inj (hsnapshot.symm.trans htree)
    injection AvlNode.pack_injective hpack
  · intro hkeys
    obtain rfl : t' = t := hagree.eq_of_keys_eq (fun balance key key' left right hmem hmem' =>
      hkeys balance key key' left right ((row_mem_iff hperm).2 hmem) hmem')
    refine ⟨writeRows_eq_of_perm hdistinct' hhash' hperm, t'.depth + 1, ?_⟩
    intro rounds hrounds key
    have hstored := stored_of_load hdistinct' hhash' hperm (hroot.trans hlabel.symm) hload
    exact ⟨t'.find key, SnapshotReader.lookupKey_eq hstored key hrounds,
      fun v => find_eq_some_iff ht⟩

end Committed

/-! ## A forged key -/

def anyRow : Redb where
  accepts _ valueLength := decide (valueLength < 2 ^ 32)
  accepts_of_le hle h := by
    simp only [decide_eq_true_eq] at h ⊢
    omega
  lt_of_accepts h := by simpa using h

def twoLeavesForged : AvlTree :=
  .internal 0 (firstBytes [3]) (.leaf (firstBytes [1]) (oneByte 7) (firstBytes [2]))
    (.leaf (firstBytes [2]) (twoBytes 8 9) (firstBytes [255]))

def manifestOf (t : AvlTree) : Bytes := 1 :: 1 :: (t.nodesAbove firstBytes 0).flatMap AvlNode.pack

def chunksOf (t : AvlTree) : Digest32 → Option Bytes :=
  writeRows (fun _ => none) ((t.subtreesBelow 0).map (fun s =>
    (s.label firstBytes, (s.nodes firstBytes).flatMap AvlNode.pack)))

def verifiedOf (t : AvlTree) : VerifiedManifest :=
  ⟨manifestOf t, t.label firstBytes, 1, 1, (t.subtreesBelow 0).map (label firstBytes)⟩

def snapshotOf (t : AvlTree) : SnapshotData := ⟨t.rows firstBytes, t.label firstBytes, 1, 0⟩

lemma tellsApart_snapshotOf {t t' : AvlTree} (h : ∀ a ∈ t.nodes firstBytes ++ t'.nodes firstBytes,
      ∀ b ∈ t.nodes firstBytes ++ t'.nodes firstBytes,
        firstBytes a.preimage = firstBytes b.preimage → a.preimage = b.preimage) :
    TellsApart firstBytes (t.preimages firstBytes ∪ (snapshotOf t').preimages firstBytes) := by
  rw [preimages_eq (t := t') (.refl _)]
  have hmem : ∀ p ∈ t.preimages firstBytes ∪ t'.preimages firstBytes,
      ∃ node ∈ t.nodes firstBytes ++ t'.nodes firstBytes, node.preimage = p := by
    rintro p (⟨node, hnode, hp⟩ | ⟨node, hnode, hp⟩)
    · exact ⟨node, mem_append_left _ hnode, hp⟩
    · exact ⟨node, mem_append_right _ hnode, hp⟩
  intro p hp q hq heq
  obtain ⟨a, ha, rfl⟩ := hmem p hp
  obtain ⟨b, hb, rfl⟩ := hmem q hq
  exact h a ha b hb heq

lemma ordered_twoLeaves : twoLeaves.Ordered := by
  simp only [twoLeaves, Ordered, and_true]
  decide +kernel

theorem determines_iff_keysCommitted_twoLeaves :
    twoLeaves.Ordered ∧
      verifyManifest firstBytes (manifestOf twoLeaves) (.of (twoLeaves.label firstBytes) 1) =
        .ok (verifiedOf twoLeaves) ∧
      assembleSnapshot firstBytes (verifiedOf twoLeaves) (chunksOf twoLeaves) 0 =
        .ok (snapshotOf twoLeaves) ∧
      ∃ loaded, (snapshotOf twoLeaves).load anyRow (.new 0) = .ok loaded ∧
        ((snapshotOf twoLeaves).Determines firstBytes loaded twoLeaves ↔
          (snapshotOf twoLeaves).KeysCommitted firstBytes twoLeaves) := by
  have hmanifest : verifyManifest firstBytes (manifestOf twoLeaves)
      (.of (twoLeaves.label firstBytes) 1) = .ok (verifiedOf twoLeaves) :=
    eq_ok_of_any (by decide +kernel)
  have hdata : assembleSnapshot firstBytes (verifiedOf twoLeaves) (chunksOf twoLeaves) 0 =
      .ok (snapshotOf twoLeaves) := eq_ok_of_any (by decide +kernel)
  obtain ⟨loaded, hload⟩ : ∃ loaded, (snapshotOf twoLeaves).load anyRow (.new 0) = .ok loaded :=
    ⟨_, rfl⟩
  exact ⟨ordered_twoLeaves, hmanifest, hdata, loaded, hload,
    determines_iff_keysCommitted ordered_twoLeaves hmanifest hdata
      (tellsApart_snapshotOf (by decide +kernel)) hload⟩

/-- With another key in the root the bytes are accepted, and a committed key is not found. -/
theorem forged_key_accepted :
    twoLeaves.Ordered ∧
      TellsApart firstBytes
        (twoLeaves.preimages firstBytes ∪ (snapshotOf twoLeavesForged).preimages firstBytes) ∧
      verifyManifest firstBytes (manifestOf twoLeavesForged) (.of (twoLeaves.label firstBytes) 1) =
        .ok (verifiedOf twoLeavesForged) ∧
      assembleSnapshot firstBytes (verifiedOf twoLeavesForged) (chunksOf twoLeavesForged) 0 =
        .ok (snapshotOf twoLeavesForged) ∧
      writeRows (fun _ => none) (snapshotOf twoLeavesForged).nodes (twoLeaves.label firstBytes) ≠
        writeRows (fun _ => none) (twoLeaves.rows firstBytes) (twoLeaves.label firstBytes) ∧
      (firstBytes [2], [8, 9]) ∈ twoLeaves.entries ∧
      ((snapshotOf twoLeavesForged).load anyRow (.new 0)).toOption.map (fun loaded =>
        SnapshotReader.lookupKey 2 loaded.db (firstBytes [2])) = some (some none) :=
  ⟨ordered_twoLeaves, tellsApart_snapshotOf (by decide +kernel), eq_ok_of_any (by decide +kernel),
    eq_ok_of_any (by decide +kernel), by decide +kernel, by decide +kernel, by decide +kernel⟩

end ErgoNode
