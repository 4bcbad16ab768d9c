import ErgoNode.Library.Index
import ErgoNode.Snapshot.Dump
import ErgoNode.Snapshot.Verify

/-!
# Snapshots round trip

The dump of a stored tree is accepted by the verification of snapshots and assembled to the nodes of
the tree. The writer follows the labels in the table, the verifier a stack of owed labels. They meet
in the tree cut at the boundary, whose nodes above the cut are the manifest and whose subtrees below
are the chunks. Nothing is asked of the hash.
-/

namespace ErgoNode

open AvlTree

variable {hash : Bytes → Digest32}

lemma streamed_nodesAbove (t : AvlTree) {boundary depth levels : ℕ}
    (hboundary : boundary = depth + levels) :
    Streamed hash (some boundary) depth (t.label hash) (t.nodesAbove hash levels)
      ((t.subtreesBelow levels).map (label hash)) := by
  induction t generalizing depth levels with
  | leaf key value nextKey => cases levels <;> exact .leaf depth key value nextKey
  | internal balance key left right ihleft ihright =>
    cases levels with
    | zero => exact .cut (congrArg some hboundary) balance key _ _
    | succ levels =>
      rw [subtreesBelow, List.map_append]
      have hcut : some boundary ≠ some depth := by
        rw [Ne, Option.some.injEq]
        omega
      exact .internal hcut balance key (ihleft (by omega)) (ihright (by omega))

lemma streamed_nodes (t : AvlTree) (depth : ℕ) :
    Streamed hash none depth (t.label hash) (t.nodes hash) [] := by
  induction t generalizing depth with
  | leaf key value nextKey => exact .leaf depth key value nextKey
  | internal balance key left right ihleft ihright =>
    exact .internal (Option.some_ne_none _).symm balance key (ihleft (depth + 1)) (ihright (depth + 1))

lemma flatMap_pack_eq_of_label_eq {table : ByteTable} {t t' : AvlTree} (ht : t.InTable hash table)
    (ht' : t'.InTable hash table) (h : t.label hash = t'.label hash) :
    (t.nodes hash).flatMap AvlNode.pack = (t'.nodes hash).flatMap AvlNode.pack := by
  have hwalk := SnapshotReader.walkChunk_eq_ok ht
    (Nat.lt_succ_of_le (Nat.le_max_left t.depth t'.depth))
  have hwalk' := SnapshotReader.walkChunk_eq_ok ht'
    (Nat.lt_succ_of_le (Nat.le_max_right t.depth t'.depth))
  rw [h, hwalk'] at hwalk
  exact (Except.ok.inj hwalk).symm

/-- **Snapshots round trip.** The dump of a stored tree at any depth is verified against its root
and height; the subtree ids are those of the chunks, in order; every chunk is verified; and the
assembled nodes are those reachable from the root, as they are stored. -/
theorem assembleSnapshot_dumpSnapshot {db : Database} {t : AvlTree} {height : UInt32}
    (hstored : t.Stored hash db height) {manifestDepth : UInt8} (hdepth : 1 ≤ manifestDepth)
    {stack : ℕ} (hstack : t.depth < stack) (snapshotHeight : UInt32) :
    ∃ dump manifest data,
      SnapshotReader.dumpSnapshot stack db manifestDepth = .ok (some dump) ∧
      verifyManifest hash dump.manifest (.of (t.label hash) height.toUInt8) = .ok manifest ∧
      manifest.subtreeIds = dump.chunks.map Prod.fst ∧
      (∀ chunk ∈ dump.chunks, ∃ tree, verifyChunk hash chunk.2 chunk.1 = .ok tree) ∧
      assembleSnapshot hash manifest (writeRows (fun _ => none) dump.chunks) snapshotHeight =
        .ok data ∧
      data.nodes.Perm (t.rows hash) ∧
      ∀ label packed, (label, packed) ∈ data.nodes ↔
        NodeBelow (fun key => db.nodes[key]?) keyLength (t.label hash) label ∧
          db.nodes[label.1]? = some packed := by
  have hlevels : manifestDepth.toNat = 1 + (manifestDepth - 1).toNat := by
    rw [UInt8.toNat_sub_of_le _ _ hdepth]
    have := UInt8.le_iff_toNat_le.1 hdepth
    simp only [UInt8.toNat_one] at this ⊢
    omega
  have hne : manifestDepth ≠ 0 := by
    rintro rfl
    exact absurd hdepth (by decide)
  have hstreamed : Streamed hash (some manifestDepth.toNat) 1 (t.label hash)
      (t.nodesAbove hash (manifestDepth - 1).toNat)
      ((t.subtreesBelow (manifestDepth - 1).toNat).map (label hash)) := streamed_nodesAbove t hlevels
  -- the store gives back every chunk: chunks that share a label are equal
  have hchunks : ∀ s ∈ t.subtreesBelow (manifestDepth - 1).toNat,
      writeRows (fun _ => none) ((t.subtreesBelow (manifestDepth - 1).toNat).map (fun s =>
        (s.label hash, (s.nodes hash).flatMap AvlNode.pack))) (s.label hash) =
        some ((s.nodes hash).flatMap AvlNode.pack) := by
    intro s hs
    refine writeRows_of_mem (List.mem_map_of_mem hs) ?_
    intro bytes hbytes
    obtain ⟨s', hs', hrow⟩ := List.mem_map.1 hbytes
    obtain ⟨hlabel, rfl⟩ := Prod.mk.inj hrow
    exact flatMap_pack_eq_of_label_eq (of_mem_subtreesBelow hs' hstored.nodes).1
      (of_mem_subtreesBelow hs hstored.nodes).1 hlabel
  have hperm := (nodesAbove_append_perm hash (manifestDepth - 1).toNat t).map (AvlNode.row hash)
  rw [List.flatMap_def] at hperm
  refine ⟨_, _, _, SnapshotReader.dumpSnapshot_eq_ok hstored manifestDepth hstack,
    verifyManifest_eq_ok_iff.2 ⟨manifestDepth, _, _, hne, hstreamed, rfl, rfl⟩, ?_, ?_,
    (assembleSnapshot_eq_ok_iff hstreamed).2
      ⟨(t.subtreesBelow (manifestDepth - 1).toNat).map (nodes hash), ?_, rfl⟩, hperm, ?_⟩
  · simp
  · intro chunk hchunk
    obtain ⟨s, -, rfl⟩ := List.mem_map.1 hchunk
    exact ⟨_, walkTree_eq_ok_iff.2 ⟨_, [], streamed_nodes s 1, rfl, rfl⟩⟩
  · rw [List.forall₂_map_left_iff, List.forall₂_map_right_iff, List.forall₂_same]
    exact fun s hs => ⟨streamed_nodes s 1, hchunks s hs⟩
  · intro label packed
    rw [hperm.mem_iff]
    exact mem_rows_iff_nodeBelow hstored.nodes

theorem assembleSnapshot_dumpSnapshot_twoLeaves :
    twoLeaves.Stored firstBytes (databaseOf firstBytes twoLeaves 1) 1 ∧
      ∃ dump manifest data,
        SnapshotReader.dumpSnapshot 2 (databaseOf firstBytes twoLeaves 1) 1 = .ok (some dump) ∧
        verifyManifest firstBytes dump.manifest (.of (twoLeaves.label firstBytes) 1) = .ok manifest ∧
        manifest.subtreeIds = dump.chunks.map Prod.fst ∧
        (∀ chunk ∈ dump.chunks, ∃ tree, verifyChunk firstBytes chunk.2 chunk.1 = .ok tree) ∧
        assembleSnapshot firstBytes manifest (writeRows (fun _ => none) dump.chunks) 0 = .ok data ∧
        data.nodes.Perm (twoLeaves.rows firstBytes) ∧
        ∀ label packed, (label, packed) ∈ data.nodes ↔
          NodeBelow (fun key => (databaseOf firstBytes twoLeaves 1).nodes[key]?) keyLength
              (twoLeaves.label firstBytes) label ∧
            (databaseOf firstBytes twoLeaves 1).nodes[label.1]? = some packed :=
  ⟨stored_twoLeaves, assembleSnapshot_dumpSnapshot stored_twoLeaves (by decide) (by decide) 0⟩

end ErgoNode
