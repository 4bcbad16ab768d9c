import ErgoNode.State.NodeTable

/-!
# Going back to a retained version

A prover's update writes every node of the new tree that is not in the old one and removes only
nodes of the old tree that are not in the new one. Under that assumption the chain of versions is an
undo log over the node table: each version's tree is complete in the table once the undo records of
the younger versions are replayed. The table may hold more, since a rollback leaves what it undoes.
-/

namespace ErgoNode

open List RedbAVLStorage Retained

/-! ## The invariant -/

def RedbAVLStorage.InTree (s : RedbAVLStorage) (content : Bytes → Option Bytes) (keyLength : ℕ)
    (label : Digest32) : Prop :=
  ∃ root height, s.rootState = some (root, height) ∧ NodeBelow content keyLength root label

namespace TrackedStorage

variable {redb : Redb} {content : Bytes → Option Bytes} {keyLength : ℕ} {t : TrackedStorage}
  {retained : List Retained} {rest : List Retained}

/-- The assumption on an update: a row under a node's label is that node, the version is new, and
the prover's changed and removed nodes are those by which the trees differ. -/
structure CommitsTree (content : Bytes → Option Bytes) (keyLength : ℕ) (s : RedbAVLStorage)
    (prover : BatchAVLProver) (additionalData : List (Bytes × Bytes)) : Prop where
  known : ∀ label, NodeBelow content keyLength prover.topNode.label label → (content label.1).isSome
  /-- Nodes of the new tree that are not in the old one were changed. -/
  changed : ∀ label, NodeBelow content keyLength prover.topNode.label label →
    ¬ s.InTree content keyLength label → label ∈ prover.changedNodes.map Prod.fst
  /-- Removed nodes are nodes of the old tree and not of the new one. -/
  removed : ∀ label ∈ prover.removedNodes, s.InTree content keyLength label ∧
    ¬ NodeBelow content keyLength prover.topNode.label label
  addressed : Addressed content (RedbAVLStorage.nodeRows prover.changedNodes ++ additionalData)
  fresh : ∀ digest, prover.digest = some digest → digest ∉ s.versionChain.map Prod.snd

def CommitsTrees (content : Bytes → Option Bytes) (keyLength : ℕ) (t : TrackedStorage) :
    StorageEvent → Prop
  | .update prover additionalData _ => CommitsTree content keyLength t.storage prover additionalData
  | _ => True

def metadataFor : List Retained → Metadata
  | [] => fun _ => none
  | r :: rest => metadataOf r.commit r.lsn ((r :: rest).map Retained.entry)

/-- The storage retains the versions of its chain: in memory, in the metadata, and as an undo log
over the node table. -/
structure Retains (redb : Redb) (content : Bytes → Option Bytes) (keyLength : ℕ) (t : TrackedStorage)
    (retained : List Retained) : Prop where
  chain_eq : t.storage.versionChain = retained.map Retained.entry
  current_eq : t.storage.currentVersion = retained.head?.map (·.commit.version)
  metadata_eq : t.storage.db.metadata = metadataFor retained
  committed_eq : ∀ r ∈ retained, t.committed r.commit.version = some r.commit
  nodup : (retained.map (·.commit.version)).Nodup
  follows : retained.IsChain Retained.Follows
  leads : retained.IsChain Retained.LeadsTo
  logged : ∀ r ∈ retained, r.Logged redb content t.storage.db.undo
  covers : Covers (storedNodes content t.storage.db.nodes)
    (retained.map (Retained.logged content keyLength))
  metadata_accepted : ∀ key value, t.storage.db.metadata key = some value →
    redb.accepts key.name.length value.length = true
  versions_accepted : ∀ r ∈ retained,
    redb.accepts MetaKey.currentVersion.name.length r.commit.version.length = true
  nodes_accepted : RowsAccepted redb t.storage.db.nodes

namespace Retains

lemma new (redb : Redb) (content : Bytes → Option Bytes) (keyLength : ℕ) (keepVersions : UInt32) :
    Retains redb content keyLength (.new keepVersions) [] where
  chain_eq := rfl
  current_eq := rfl
  metadata_eq := rfl
  committed_eq := by simp
  nodup := nodup_nil
  follows := .nil
  leads := .nil
  logged := by simp
  covers := trivial
  metadata_accepted := by simp [TrackedStorage.new, RedbAVLStorage.new]
  versions_accepted := by simp
  nodes_accepted := by simp [RowsAccepted, TrackedStorage.new, RedbAVLStorage.new]

lemma length_chain_lt (h : Retains redb content keyLength t retained) (hne : retained ≠ []) :
    (serializeVersionChain (retained.map Retained.entry)).length < 2 ^ 32 := by
  obtain ⟨r, rest, rfl⟩ := exists_cons_of_ne_nil hne
  exact redb.lt_of_accepts (h.metadata_accepted .versions _ (by rw [h.metadata_eq]; rfl))

lemma length_lt (h : Retains redb content keyLength t retained) : retained.length < 2 ^ 32 := by
  by_cases hne : retained = []
  · simp [hne]
  · have hlt := h.length_chain_lt hne
    have hle := UndoRecord.length_le_flatMap (f := versionBytes) (n := 1)
      (fun entry => by rw [length_versionBytes]; omega) (retained.map entry)
    rw [serializeVersionChain, length_append, length_u32Bytes] at hlt
    rw [length_map] at hle
    omega

lemma nodup_lsn (h : Retains redb content keyLength t retained) :
    (retained.map (·.lsn)).Nodup :=
  nodup_of_follows h.follows (Nat.le_trans (Nat.le_of_lt h.length_lt) (by decide))

lemma restoreState_eq (h : Retains redb content keyLength t retained) :
    RedbAVLStorage.restoreState t.storage.db =
      .ok (t.storage.currentVersion, t.storage.versionChain) := by
  rw [restoreState, h.metadata_eq, h.current_eq, h.chain_eq]
  match retained, h with
  | [], _ => rfl
  | r :: rest, h =>
    simp only [metadataFor, metadataOf]
    rw [deserializeVersionChain_serialize (h.length_chain_lt (cons_ne_nil _ _))]
    rfl

lemma rootState_eq {r : Retained} (h : Retains redb content keyLength t (r :: rest)) :
    t.storage.rootState = some (r.commit.rootHash, r.commit.treeHeight.toNat) := by
  simp [rootState, h.metadata_eq, metadataFor, metadataOf, heightOfBytes, Except.toOption]

lemma blockHeight_eq {r : Retained} (h : Retains redb content keyLength t (r :: rest)) :
    t.storage.blockHeight = some r.commit.blockHeight := by
  simp [blockHeight, h.metadata_eq, metadataFor, metadataOf, heightOfBytes]

lemma inTree_iff {r : Retained}
    (h : Retains redb content keyLength t (r :: rest)) {label : Digest32} :
    t.storage.InTree content keyLength label ↔
      NodeBelow content keyLength r.commit.rootHash label := by
  simp only [InTree, h.rootState_eq, Option.some.injEq, Prod.mk.injEq]
  constructor
  · rintro ⟨root, height, ⟨rfl, -⟩, hreach⟩
    exact hreach
  · intro hreach
    exact ⟨_, _, ⟨rfl, rfl⟩, hreach⟩

lemma stored_of_inTree (h : Retains redb content keyLength t retained) {label : Digest32}
    (hin : t.storage.InTree content keyLength label) :
    label ∈ storedNodes content t.storage.db.nodes := by
  match retained, h with
  | [], h =>
    obtain ⟨root, height, hroot, -⟩ := hin
    simp [rootState, h.metadata_eq, metadataFor] at hroot
  | r :: rest, h => exact h.covers.1 (h.inTree_iff.1 hin)

/-! ### Updates -/

end Retains

lemma insertMeta_eq_ok {key : MetaKey} {value : Bytes} {m m' : Metadata} :
    redb.insertMeta key value m = .ok m' ↔
      redb.accepts key.name.length value.length = true ∧ Function.update m key (some value) = m' := by
  simp [Redb.insertMeta, check_eq_ok]

section Update

variable {s s' : RedbAVLStorage} {prover : BatchAVLProver} {additionalData : List (Bytes × Bytes)}
  {blockHeight : Option UInt32}
variable {nodes : ByteTable} {label : Digest32}

lemma updateInternal_eq_ok (h : s.updateInternal redb prover additionalData blockHeight = .ok s') :
    ∃ digest prev undo nodes, prover.digest = some digest ∧
      RedbAVLStorage.readHeight (s.db.metadata .blockHeight) = .ok prev ∧
      s.writeUndo redb prover digest prev = .ok undo ∧
      s.writeNodes redb prover additionalData = .ok nodes ∧
      s' = ⟨⟨nodes, undo, metadataOf ⟨digest, prover.topNode.label, UInt32.ofNat prover.height,
        blockHeight.getD prev⟩ s.newLsn (s.newChain digest)⟩, s.keepVersions, some digest,
        s.newChain digest⟩ ∧
      ∀ key value, s'.db.metadata key = some value →
        redb.accepts key.name.length value.length = true := by
  unfold updateInternal at h
  split at h
  · cases h
  next digest hdigest =>
    obtain ⟨prev, hprev, h⟩ := bind_eq_ok.1 h
    obtain ⟨undo, hundo, h⟩ := bind_eq_ok.1 h
    obtain ⟨nodes, hnodes, h⟩ := bind_eq_ok.1 h
    simp only [bind_eq_ok, insertMeta_eq_ok] at h
    obtain ⟨_, ⟨ha, rfl⟩, _, ⟨hb, rfl⟩, _, ⟨hc, rfl⟩, _, ⟨hd, rfl⟩, _, ⟨he, rfl⟩, _, ⟨hf, rfl⟩, h⟩ := h
    cases h
    -- all six rows are written, so nothing of the old metadata is left
    have hmetadata : ∀ m : Metadata, Function.update (Function.update (Function.update
        (Function.update (Function.update (Function.update m
        .topNodeHash (some prover.topNode.label.1))
        .topNodeHeight (some (u32Bytes (UInt32.ofNat prover.height))))
        .currentVersion (some digest)) .lsn (some (u64Bytes s.newLsn)))
        .blockHeight (some (u32Bytes (blockHeight.getD prev))))
        .versions (some (serializeVersionChain (s.newChain digest))) =
        metadataOf ⟨digest, prover.topNode.label, UInt32.ofNat prover.height, blockHeight.getD prev⟩
          s.newLsn (s.newChain digest) := by
      intro m
      ext1 key
      cases key <;> rfl
    refine ⟨digest, prev, undo, nodes, hdigest, hprev, hundo, hnodes, ?_, ?_⟩
    · rw [hmetadata]
    · intro key value hvalue
      cases key with
      | topNodeHash => exact Option.some.inj hvalue ▸ ha
      | topNodeHeight => exact Option.some.inj hvalue ▸ hb
      | currentVersion => exact Option.some.inj hvalue ▸ hc
      | lsn => exact Option.some.inj hvalue ▸ hd
      | versions => exact Option.some.inj hvalue ▸ hf
      | blockHeight => exact Option.some.inj hvalue ▸ he

lemma stored_writeNodes (haddressed : Addressed content
    (RedbAVLStorage.nodeRows prover.changedNodes ++ additionalData))
    (hnodes : s.writeNodes redb prover additionalData = .ok nodes)
    (hstored : label ∈ storedNodes content s.db.nodes) (hkept : label ∉ prover.removedNodes) :
    label ∈ storedNodes content nodes := by
  obtain ⟨written, hwritten, hrest⟩ := bind_eq_ok.1 hnodes
  refine storedNodes_subset_insertRows
    (fun row hrow => haddressed row (mem_append_right _ hrow)) hrest ?_
  obtain ⟨packed, hcontent, hrow⟩ := storedNodes_subset_insertRows
    (fun row hrow => haddressed row (mem_append_left _ hrow)) hwritten hstored
  exact ⟨packed, hcontent, (getElem?_deleteRemoved (fun h => absurd h hkept)).trans hrow⟩

lemma stored_writeNodes_of_changed (haddressed : Addressed content
    (RedbAVLStorage.nodeRows prover.changedNodes ++ additionalData))
    (hnodes : s.writeNodes redb prover additionalData = .ok nodes)
    (hchanged : label ∈ prover.changedNodes.map Prod.fst) (hknown : (content label.1).isSome) :
    label ∈ storedNodes content nodes := by
  obtain ⟨packed, hpacked⟩ := Option.isSome_iff_exists.1 hknown
  obtain ⟨written, hwritten, hrest⟩ := bind_eq_ok.1 hnodes
  refine storedNodes_subset_insertRows
    (fun row hrow => haddressed row (mem_append_right _ hrow)) hrest ?_
  have hmem : label.1 ∈ (nodeRows prover.changedNodes).map Prod.fst := by
    obtain ⟨node, hnode, rfl⟩ := mem_map.1 hchanged
    rw [nodeRows, map_map]
    exact mem_map_of_mem (f := fun n : Digest32 × Bytes => n.1.1) hnode
  obtain ⟨packed', hcontent, hrow⟩ := mem_storedNodes_of_insertRows
    (fun row hrow => haddressed row (mem_append_left _ hrow)) hwritten hmem hpacked
  -- the deletion loop skips labels that were written
  exact ⟨packed', hcontent, (getElem?_deleteRemoved (fun _ => hchanged)).trans hrow⟩

lemma rowsAccepted_writeNodes (haccepted : RowsAccepted redb s.db.nodes)
    (hnodes : s.writeNodes redb prover additionalData = .ok nodes) : RowsAccepted redb nodes := by
  obtain ⟨written, hwritten, hrest⟩ := bind_eq_ok.1 hnodes
  have hdeleted : RowsAccepted redb (deleteRemoved
      (prover.changedNodes.map Prod.fst) prover.removedNodes written) :=
    fun k v hkv => haccepted.insertRows hwritten k v (getElem?_of_deleteRemoved hkv)
  exact hdeleted.insertRows hrest

lemma CommitsTree.complete (h : CommitsTree content keyLength s prover additionalData)
    (hold : ∀ label, s.InTree content keyLength label → label ∈ storedNodes content s.db.nodes)
    (hnodes : s.writeNodes redb prover additionalData = .ok nodes)
    (hreach : NodeBelow content keyLength prover.topNode.label label) :
    label ∈ storedNodes content nodes := by
  by_cases hchanged : label ∈ prover.changedNodes.map Prod.fst
  · exact stored_writeNodes_of_changed h.addressed hnodes hchanged (h.known label hreach)
  · -- a node that was not changed was in the old tree, and it was not removed
    have hin : s.InTree content keyLength label := by
      by_contra hnot
      exact hchanged (h.changed label hreach hnot)
    exact stored_writeNodes h.addressed hnodes (hold label hin)
      (fun hremoved => (h.removed label hremoved).2 hreach)

end Update

namespace Retains

lemma undoRecord_eq_ok (h : Retains redb content keyLength t retained) {prover : BatchAVLProver}
    {additionalData : List (Bytes × Bytes)} {prev : UInt32} {u : UndoRecord}
    (hcommits : CommitsTree content keyLength t.storage prover additionalData)
    (hprev : RedbAVLStorage.readHeight (t.storage.db.metadata .blockHeight) = .ok prev)
    (hu : t.storage.undoRecord prover prev = .ok u) :
    (∀ r rest lsn c, retained = r :: rest → Retained.LeadsTo ⟨lsn, c, some u⟩ r) ∧
      (∀ node ∈ u.removedNodes, content node.1.1 = some node.2 ∧
        redb.accepts node.1.1.length node.2.length = true) ∧
      ∀ label ∈ prover.removedNodes, label ∈ u.removedNodes.map Prod.fst := by
  obtain ⟨hash, hhash, hu⟩ := bind_eq_ok.1 hu
  obtain ⟨height, hheight, hu⟩ := bind_eq_ok.1 hu
  cases hu
  have hstored : ∀ label ∈ prover.removedNodes,
      ∃ packed, content label.1 = some packed ∧ t.storage.getNode label = some packed :=
    fun label hlabel => h.stored_of_inTree (hcommits.removed label hlabel).1
  refine ⟨?_, ?_, ?_⟩
  · rintro r rest lsn c rfl
    rw [h.metadata_eq] at hhash hheight hprev
    refine ⟨_, rfl, ?_, ?_, ?_, ?_⟩
    · simpa [readTopNodeHash, metadataFor, metadataOf] using hhash.symm
    · simpa [readHeight, metadataFor, metadataOf, heightOfBytes]
        using hheight.symm
    · simp [h.current_eq]
    · simpa [readHeight, metadataFor, metadataOf, heightOfBytes]
        using hprev.symm
  · intro node hnode
    obtain ⟨label, hlabel, hnode⟩ := mem_filterMap.1 hnode
    obtain ⟨packed, hpacked, rfl⟩ := Option.map_eq_some_iff.1 hnode
    obtain ⟨packed', hcontent, hrow⟩ := hstored label hlabel
    cases hpacked.symm.trans hrow
    exact ⟨hcontent, h.nodes_accepted _ _ hrow⟩
  · intro label hlabel
    obtain ⟨packed, -, hrow⟩ := hstored label hlabel
    refine mem_map.2 ⟨(label, packed), mem_filterMap.2 ⟨label, hlabel, ?_⟩, rfl⟩
    rw [hrow]
    rfl

end Retains

lemma maxChainLen_eq (s : RedbAVLStorage) : s.maxChainLen = s.keepVersions.toNat + 1 := by
  unfold maxChainLen
  split
  · rfl
  next hzero =>
    have : s.keepVersions.toNat = 0 := by
      exact Nat.eq_zero_of_not_pos hzero
    omega

namespace Retains

variable {prover : BatchAVLProver} {additionalData : List (Bytes × Bytes)} {blockHeight : UInt32}
  {digest : Bytes}
variable {r : Retained}

variable (h : Retains redb content keyLength t retained)

include h

lemma follows_cons (hr : r.lsn = t.storage.newLsn) : (r :: retained).IsChain Retained.Follows := by
  match retained, h with
  | [], _ => exact .singleton r
  | head :: rest, h =>
    refine isChain_cons_cons.2 ⟨?_, h.follows⟩
    rw [Follows, hr, newLsn, currentLsn, h.chain_eq]
    rfl

lemma newChain_eq (hr : r.lsn = t.storage.newLsn) (hdigest : r.commit.version = digest) :
    t.storage.newChain digest =
      (r :: retained.take t.storage.keepVersions.toNat).map Retained.entry := by
  rw [newChain, maxChainLen_eq, pushedChain, h.chain_eq,
    take_succ_cons, ← map_take, map_cons, entry, hr, hdigest]

lemma logged_writeUndo (hr : r.lsn = t.storage.newLsn) {u : UndoRecord} {table : Table Bytes}
    (htable : redb.insertUndo t.storage.newLsn u.serialize t.storage.db.undo = .ok table)
    (hnew : r.undo = some u) (hremoved : ∀ node ∈ u.removedNodes, content node.1.1 = some node.2 ∧
      redb.accepts node.1.1.length node.2.length = true) :
    ∀ r' ∈ r :: retained.take t.storage.keepVersions.toNat, r'.Logged redb content
      (eraseAll table ((t.storage.pruneLsns digest).map UInt64.toNat)) := by
  obtain ⟨_, hcheck, htable⟩ := bind_eq_ok.1 htable
  cases htable
  -- the numbers of the new version, of those that stay and of those that leave are distinct
  have hnodup : ((r :: retained).map (·.lsn)).Nodup := by
    refine nodup_of_follows (h.follows_cons hr) ?_
    have := h.length_lt
    rw [length_cons]
    omega
  have hpruned : t.storage.pruneLsns digest =
      ((retained.drop t.storage.keepVersions.toNat).map (·.lsn)).reverse := by
    rw [pruneLsns, maxChainLen_eq, pushedChain, h.chain_eq,
      drop_succ_cons, ← map_drop, ← map_reverse, ← map_reverse, map_map]
    rfl
  have hstays : ∀ r' ∈ r :: retained.take t.storage.keepVersions.toNat,
      r'.lsn.toNat ∉ (t.storage.pruneLsns digest).map UInt64.toNat := by
    intro r' hr' hmem
    obtain ⟨lsn, hlsn, heq⟩ := mem_map.1 hmem
    rw [hpruned, mem_reverse, UInt64.toNat_inj.1 heq] at hlsn
    have hsplit : (r :: retained).map (·.lsn) =
        (r :: retained.take t.storage.keepVersions.toNat).map (·.lsn) ++
          (retained.drop t.storage.keepVersions.toNat).map (·.lsn) := by
      rw [← map_append, cons_append, take_append_drop]
    rw [hsplit] at hnodup
    exact disjoint_of_nodup_append hnodup (mem_map_of_mem hr') hlsn
  intro r' hr' u' hu'
  rw [getElem?_eraseAll, if_neg (hstays r' hr'), getElem?_insert_nat]
  rcases mem_cons.1 hr' with rfl | hold
  · cases hnew.symm.trans hu'
    exact ⟨if_pos (by rw [hr]), redb.lt_of_accepts (check_eq_ok.1 hcheck), hremoved⟩
  · have hold := mem_of_mem_take hold
    have hne : r.lsn ≠ r'.lsn := fun heq =>
      (nodup_cons.1 hnodup).1 (mem_map.2 ⟨r', hold, heq.symm⟩)
    rw [if_neg (fun heq => hne (hr.trans (UInt64.toNat_inj.1 heq)))]
    exact h.logged r' hold u' hu'

lemma of_update (hcommits : CommitsTree content keyLength t.storage prover additionalData)
    (hdigest : prover.digest = some digest) {nodes : ByteTable} {undoTable : Table Bytes}
    (hnodes : t.storage.writeNodes redb prover additionalData = .ok nodes)
    (hlsn : r.lsn = t.storage.newLsn) (hcommit : r.commit = commitOf prover blockHeight)
    (hmetadata : ∀ key value, metadataOf r.commit r.lsn (t.storage.newChain digest) key = some value →
      redb.accepts key.name.length value.length = true)
    (hleads : (r :: retained.take t.storage.keepVersions.toNat).IsChain Retained.LeadsTo)
    (hlogged : ∀ r' ∈ r :: retained.take t.storage.keepVersions.toNat,
      r'.Logged redb content undoTable)
    (hcovers : Covers (storedNodes content nodes) ((r :: retained.take
      t.storage.keepVersions.toNat).map (Retained.logged content keyLength))) :
    Retains redb content keyLength ⟨⟨⟨nodes, undoTable, metadataOf r.commit r.lsn
      (t.storage.newChain digest)⟩, t.storage.keepVersions, some digest,
      t.storage.newChain digest⟩, commitOf prover blockHeight :: t.commits⟩
      (r :: retained.take t.storage.keepVersions.toNat) := by
  have hversion : r.commit.version = digest := by rw [hcommit, commitOf, hdigest, Option.getD_some]
  have hchain := h.newChain_eq hlsn hversion
  have hfresh : ∀ r' ∈ retained, r'.commit.version ≠ digest := by
    intro r' hr' heq
    refine hcommits.fresh digest hdigest ?_
    rw [h.chain_eq, map_map]
    exact mem_map.2 ⟨r', hr', heq⟩
  constructor
  case chain_eq => exact hchain
  case current_eq => exact congrArg some hversion.symm
  case metadata_eq => exact congrArg (metadataOf r.commit r.lsn) hchain
  case committed_eq =>
    intro r' hr'
    show find? _ _ = _
    rcases mem_cons.1 hr' with rfl | hold
    · rw [find?_cons_of_pos (by rw [hcommit, decide_eq_true_eq]), hcommit]
    · have hold := mem_of_mem_take hold
      have hne : (commitOf prover blockHeight).version ≠ r'.commit.version := by
        rw [← hcommit, hversion]
        exact (hfresh r' hold).symm
      rw [find?_cons_of_neg (by rwa [decide_eq_true_eq])]
      exact h.committed_eq r' hold
  case nodup =>
    rw [map_cons, nodup_cons]
    refine ⟨fun hmem => ?_, (h.nodup.sublist ((take_sublist _ _).map _))⟩
    obtain ⟨r', hr', heq⟩ := mem_map.1 hmem
    exact hfresh r' (mem_of_mem_take hr') (heq.trans hversion)
  case follows =>
    have htake := (h.follows_cons hlsn).take (t.storage.keepVersions.toNat + 1)
    rwa [take_succ_cons] at htake
  case leads => exact hleads
  case logged => exact hlogged
  case covers => exact hcovers
  case metadata_accepted => exact hmetadata
  case versions_accepted =>
    intro r' hr'
    rcases mem_cons.1 hr' with rfl | hold
    · exact hmetadata .currentVersion _ rfl
    · exact h.versions_accepted r' (mem_of_mem_take hold)
  case nodes_accepted => exact rowsAccepted_writeNodes h.nodes_accepted hnodes

/-- **An update keeps the invariant.** -/
theorem update {s' : RedbAVLStorage}
    (hcommits : CommitsTree content keyLength t.storage prover additionalData)
    (hok : t.storage.updateWithHeight redb prover additionalData blockHeight = .ok s') :
    ∃ retained', Retains redb content keyLength
      ⟨s', commitOf prover blockHeight :: t.commits⟩ retained' := by
  obtain ⟨digest, prev, undo, nodes, hdigest, hprev, hundo, hnodes, rfl, hmetadata⟩ :=
    updateInternal_eq_ok hok
  have hcommit : (⟨digest, prover.topNode.label, UInt32.ofNat prover.height,
      (some blockHeight).getD prev⟩ : StateCommit) = commitOf prover blockHeight := by
    rw [commitOf, hdigest]
    rfl
  rw [hcommit] at hmetadata ⊢
  have hcomplete : ∀ undo, (Retained.logged content keyLength
      ⟨t.storage.newLsn, commitOf prover blockHeight, undo⟩).parts ⊆ storedNodes content nodes :=
    fun undo label hreach => hcommits.complete (fun _ => h.stored_of_inTree) hnodes hreach
  unfold writeUndo at hundo
  split at hundo
  · -- a record is written for the new version
    obtain ⟨u, hu, hundo⟩ := bind_eq_ok.1 hundo
    obtain ⟨table, htable, hundo⟩ := bind_eq_ok.1 hundo
    cases hundo
    obtain ⟨hleads, hremoved, hgiven⟩ := h.undoRecord_eq_ok hcommits hprev hu
    refine ⟨_, h.of_update hcommits hdigest hnodes
      (r := ⟨t.storage.newLsn, commitOf prover blockHeight, some u⟩) rfl rfl hmetadata ?_
      (h.logged_writeUndo rfl htable rfl hremoved) ?_⟩
    · have hpushed : (⟨t.storage.newLsn, commitOf prover blockHeight, some u⟩ :: retained).IsChain
          LeadsTo := by
        match retained, h, hleads with
        | [], _, _ => exact .singleton _
        | r :: rest, h, hleads => exact isChain_cons_cons.2 ⟨hleads r rest _ _ rfl, h.leads⟩
      have htake := hpushed.take (t.storage.keepVersions.toNat + 1)
      rwa [take_succ_cons] at htake
    · -- whatever leaves the table is in the record
      have hkept : storedNodes content t.storage.db.nodes ⊆ storedNodes content nodes ∪
          (Retained.logged content keyLength
            ⟨t.storage.newLsn, commitOf prover blockHeight, some u⟩).givesBack := by
        intro label hstored
        by_cases hgone : label ∈ prover.removedNodes
        · exact .inr ⟨u, rfl, hgiven label hgone⟩
        · exact .inl (stored_writeNodes hcommits.addressed hnodes hstored hgone)
      have hpushed := h.covers.commit (hcomplete (some u)) hkept
      have htake := hpushed.take (t.storage.keepVersions.toNat + 1)
      rwa [take_succ_cons, ← map_take] at htake
  · -- no record, and the chain is cut down to the new version
    rename_i hzero
    have hkeep : t.storage.keepVersions.toNat = 0 := by
      exact Nat.eq_zero_of_not_pos hzero
    refine ⟨_, h.of_update hcommits hdigest hnodes
      (r := ⟨t.storage.newLsn, commitOf prover blockHeight, none⟩) rfl rfl hmetadata ?_ ?_ ?_⟩
    · rw [hkeep]
      exact .singleton _
    · rw [hkeep]
      intro r hr u hu
      obtain rfl := mem_singleton.1 hr
      cases hu
    · rw [hkeep]
      exact ⟨hcomplete none, trivial⟩

/-! ### Rollback -/

lemma metadataOf_accepted (hr : r ∈ retained) (pos : ℕ) (key : MetaKey) {value : Bytes}
    (hvalue : metadataOf r.commit r.lsn ((retained.drop pos).map Retained.entry) key = some value) :
    redb.accepts key.name.length value.length = true := by
  obtain ⟨head, rest, rfl⟩ := exists_cons_of_ne_nil (ne_nil_of_mem hr)
  -- all rows but two have the length of the current version's
  have hcurrent : ∀ key value', metadataOf head.commit head.lsn
      ((head :: rest).map entry) key = some value' → value.length ≤ value'.length →
      redb.accepts key.name.length value.length = true := by
    intro key value' hvalue' hle
    refine redb.accepts_of_le hle (h.metadata_accepted key value' ?_)
    rwa [h.metadata_eq]
  cases key with
  | topNodeHash =>
    cases hvalue
    exact hcurrent .topNodeHash _ rfl (by rw [r.commit.rootHash.2, head.commit.rootHash.2])
  | topNodeHeight =>
    cases hvalue
    exact hcurrent .topNodeHeight _ rfl (by simp)
  | currentVersion =>
    cases hvalue
    exact h.versions_accepted r hr
  | lsn =>
    cases hvalue
    exact hcurrent .lsn _ rfl (by simp)
  | versions =>
    cases hvalue
    refine hcurrent .versions _ rfl ?_
    rw [map_drop]
    exact length_serializeVersionChain_drop_le _ pos
  | blockHeight =>
    cases hvalue
    exact hcurrent .blockHeight _ rfl (by simp)

lemma rollbackTransaction_eq_ok {pos : ℕ} (hpos : 0 < pos) (hr : retained[pos]? = some r) :
    ∃ undo s', t.storage.rollbackTransaction redb r.commit.version pos = .ok (undo, s') ∧
      undo.prevTopNodeHash = r.commit.rootHash ∧ undo.prevTopNodeHeight = r.commit.treeHeight ∧
      Retains redb content keyLength { t with storage := s' } (retained.drop pos) := by
  obtain ⟨hlt, hget⟩ := List.getElem?_eq_some_iff.1 hr
  obtain ⟨nodes, undoTable, last, hreplay, hstored, hlogged, hnodes, hlast⟩ :=
    replayUndo_eq_ok keyLength hlt none h.leads h.logged h.nodup_lsn h.nodes_accepted
  obtain ⟨rfl, -⟩ | ⟨newer, older, holder, ⟨u, hu, hhash, hheight, hversion, hblock⟩, hundo⟩ := hlast
  · exact absurd hpos (Nat.lt_irrefl 0)
  obtain rfl : older = r := Option.some.inj (holder.symm.trans hr)
  obtain rfl : last = some u := hundo.symm.trans hu
  have haccepted : ∀ key value, metadataOf older.commit older.lsn
      ((retained.drop pos).map entry) key = some value →
      redb.accepts key.name.length value.length = true :=
    fun key _ hvalue => h.metadataOf_accepted (mem_of_getElem? hr) pos key hvalue
  refine ⟨u, ⟨⟨nodes, undoTable, metadataOf older.commit older.lsn
    ((retained.drop pos).map entry)⟩, t.storage.keepVersions, some older.commit.version,
    (retained.drop pos).map entry⟩, ?_, hhash, hheight, ?_⟩
  · have hentry : t.storage.versionChain[pos]? = some older.entry := by
      rw [h.chain_eq, getElem?_map, hr]
      rfl
    have htake : t.storage.versionChain.take pos = (retained.take pos).map entry := by
      rw [h.chain_eq, map_take]
    have hdrop : t.storage.versionChain.drop pos = (retained.drop pos).map entry := by
      rw [h.chain_eq, map_drop]
    rw [rollbackTransaction, htake]
    refine bind_eq_ok.2 ⟨_, hreplay, ?_⟩
    simp only [hentry, entry, hdrop, hhash, hheight, hversion, hblock, bind_eq_ok,
      insertMeta_eq_ok]
    refine ⟨_, ⟨haccepted .topNodeHash _ rfl, rfl⟩, _, ⟨haccepted .topNodeHeight _ rfl, rfl⟩, _,
      ⟨haccepted .currentVersion _ rfl, rfl⟩, _, ⟨haccepted .blockHeight _ rfl, rfl⟩, _,
      ⟨haccepted .lsn _ rfl, rfl⟩, _, ⟨haccepted .versions _ rfl, rfl⟩, ?_⟩
    congr 4
    ext1 key
    cases key <;> rfl
  · have hcons : retained.drop pos = older :: retained.drop (pos + 1) := by
      rw [drop_eq_getElem_cons hlt, hget]
    constructor
    case chain_eq => rfl
    case current_eq => rw [hcons]; rfl
    case metadata_eq => rw [hcons]; rfl
    case committed_eq => exact fun r hr => h.committed_eq r (mem_of_mem_drop hr)
    case nodup => exact h.nodup.sublist ((drop_sublist _ _).map _)
    case follows => exact h.follows.drop pos
    case leads => exact h.leads.drop pos
    case logged => exact hlogged
    case covers =>
      have hundone := h.covers.undo pos
      rw [← map_take, ← map_drop] at hundone
      exact hundone.mono hstored
    case metadata_accepted => exact haccepted
    case versions_accepted => exact fun r hr => h.versions_accepted r (mem_of_mem_drop hr)
    case nodes_accepted => exact hnodes

omit h in
lemma rootNode_eq (h : Retains redb content keyLength t (r :: rest)) (height : ℕ) :
    ∃ packed, content r.commit.rootHash.1 = some packed ∧
      t.storage.rootNode r.commit.rootHash height = .ok (packed, height) := by
  obtain ⟨packed, hcontent, hrow⟩ := h.covers.1 (NodeBelow.root)
  refine ⟨packed, hcontent, ?_⟩
  rw [rootNode, getNode, hrow]

/-- **A rollback to an older version of the chain succeeds and keeps the invariant.** -/
theorem rollback {pos : ℕ} (hpos : 0 < pos) (hr : retained[pos]? = some r) :
    ∃ packed s', t.storage.rollback redb r.commit.version =
        (.ok (packed, r.commit.treeHeight.toNat), s') ∧
      content r.commit.rootHash.1 = some packed ∧
      Retains redb content keyLength { t with storage := s' } (retained.drop pos) := by
  obtain ⟨hlt, hget⟩ := List.getElem?_eq_some_iff.1 hr
  obtain ⟨undo, s', htransaction, hhash, hheight, hretains⟩ := h.rollbackTransaction_eq_ok hpos hr
  have hcons : retained.drop pos = r :: retained.drop (pos + 1) := by
    rw [drop_eq_getElem_cons hlt, hget]
  obtain ⟨packed, hcontent, hroot⟩ := (hcons ▸ hretains).rootNode_eq r.commit.treeHeight.toNat
  -- the version is that of one place in the chain
  have hindex : ∀ i (hi : i < retained.length), retained[i].commit.version = r.commit.version →
      i = pos := by
    intro i hi heq
    have hinj := nodup_iff_injective_getElem.1 h.nodup
    have := @hinj ⟨i, by simpa using hi⟩ ⟨pos, by simpa using hlt⟩ (by simpa [hget] using heq)
    exact Fin.mk.inj_iff.1 this
  have hcurrent : t.storage.currentVersion ≠ some r.commit.version := by
    intro heq
    rw [h.current_eq, Option.map_eq_some_iff] at heq
    obtain ⟨head, hhead, heq⟩ := heq
    rw [head?_eq_getElem?, getElem?_eq_some_iff] at hhead
    obtain ⟨hzero, rfl⟩ := hhead
    exact absurd (hindex 0 hzero heq) (Nat.ne_of_lt hpos)
  have hfind : t.storage.versionChain.findIdx? (fun entry => entry.2 = r.commit.version) =
      some pos := by
    rw [h.chain_eq, findIdx?_eq_some_iff_getElem]
    refine ⟨by simpa using hlt, by simp [entry, hget], fun j hj => ?_⟩
    rw [decide_eq_true_eq, getElem_map]
    exact fun heq => absurd (hindex j (Nat.lt_trans hj hlt) heq) (Nat.ne_of_lt hj)
  refine ⟨packed, s', ?_, hcontent, hretains⟩
  rw [RedbAVLStorage.rollback, if_neg hcurrent, hfind]
  simp only [htransaction, hhash, hheight]
  exact Prod.ext hroot rfl

lemma rollback_cases (version : Bytes) :
    (t.storage.rollback redb version).2 = t.storage ∨
      ∃ pos r, 0 < pos ∧ retained[pos]? = some r ∧ r.commit.version = version := by
  by_cases hcurrent : t.storage.currentVersion = some version
  · exact .inl (by rw [RedbAVLStorage.rollback, if_pos hcurrent])
  · cases hfind : t.storage.versionChain.findIdx? (fun entry => entry.2 = version) with
    | none => exact .inl (by rw [RedbAVLStorage.rollback, if_neg hcurrent, hfind])
    | some pos =>
      rw [h.chain_eq, findIdx?_eq_some_iff_getElem] at hfind
      obtain ⟨hlt, hversion, -⟩ := hfind
      rw [length_map] at hlt
      have hversion : retained[pos].commit.version = version := by
        simpa [entry] using hversion
      refine .inr ⟨pos, retained[pos], Nat.pos_of_ne_zero ?_, getElem?_eq_getElem hlt, hversion⟩
      rintro rfl
      rw [h.current_eq, head?_eq_getElem?, getElem?_eq_getElem hlt] at hcurrent
      exact hcurrent (congrArg some hversion)

lemma reopen_eq_ok (keepVersions : UInt32) :
    t.storage.reopen redb keepVersions = .ok (t.storage.setKeepVersions keepVersions) := by
  have hheight : (t.storage.currentVersion.isSome &&
      (t.storage.db.metadata .blockHeight).isNone) = false := by
    rw [h.current_eq, h.metadata_eq]
    cases retained <;> rfl
  rw [reopen, openFile, h.restoreState_eq, ok_bind]
  simp only [hheight]
  rfl

lemma setKeepVersions (keepVersions : UInt32) :
    Retains redb content keyLength { t with storage := t.storage.setKeepVersions keepVersions }
      retained :=
  { h with }

/-- **One call.** -/
theorem step {e : StorageEvent} (hcommits : t.CommitsTrees content keyLength e) :
    ∃ retained', Retains redb content keyLength (t.step redb e) retained' := by
  cases e with
  | update prover additionalData blockHeight =>
    cases hok : t.storage.updateWithHeight redb prover additionalData blockHeight with
    | ok s' =>
      simp only [TrackedStorage.step, hok]
      exact h.update hcommits hok
    | error e =>
      simp only [TrackedStorage.step, hok]
      exact ⟨retained, h⟩
  | rollback version =>
    rcases h.rollback_cases version with hsame | ⟨pos, r, hpos, hr, rfl⟩
    · simp only [TrackedStorage.step, hsame]
      exact ⟨retained, h⟩
    · obtain ⟨packed, s', hrollback, -, hretains⟩ := h.rollback hpos hr
      simp only [TrackedStorage.step, hrollback]
      exact ⟨_, hretains⟩
  | setKeepVersions keepVersions => exact ⟨retained, h.setKeepVersions keepVersions⟩
  | reopen keepVersions =>
    simp only [TrackedStorage.step, h.reopen_eq_ok keepVersions]
    exact ⟨retained, h.setKeepVersions keepVersions⟩

end Retains

/-! ## Runs -/

/-- Going back to a version gives what it committed: root node, heights, version, every node of the
tree in the table, and in memory what opening the file would load. -/
def RollsBackTo (redb : Redb) (content : Bytes → Option Bytes) (keyLength : ℕ) (t : TrackedStorage)
    (version : Bytes) : Prop :=
  ∃ c packed s', t.committed version = some c ∧
    t.storage.rollback redb version = (.ok (packed, c.treeHeight.toNat), s') ∧
    content c.rootHash.1 = some packed ∧
    s'.rootState = some (c.rootHash, c.treeHeight.toNat) ∧
    s'.blockHeight = some c.blockHeight ∧
    s'.version = some version ∧
    (∀ label, NodeBelow content keyLength c.rootHash label →
      ∃ node, content label.1 = some node ∧ s'.getNode label = some node) ∧
    RedbAVLStorage.restoreState s'.db = .ok (s'.currentVersion, s'.versionChain)

lemma Retains.rollsBackTo (h : Retains redb content keyLength t retained) {version : Bytes}
    (hversion : version ∈ t.storage.rollbackVersions) : t.RollsBackTo redb content keyLength version := by
  rw [rollbackVersions, h.chain_eq, ← map_drop, map_map] at hversion
  obtain ⟨r, hr, rfl⟩ := mem_map.1 hversion
  obtain ⟨i, hi⟩ := getElem?_of_mem hr
  rw [getElem?_drop] at hi
  obtain ⟨packed, s', hrollback, hcontent, hretains⟩ := h.rollback (Nat.lt_add_right i Nat.one_pos) hi
  obtain ⟨hlt, hget⟩ := List.getElem?_eq_some_iff.1 hi
  rw [drop_eq_getElem_cons hlt, hget] at hretains
  exact ⟨r.commit, packed, s', h.committed_eq r (mem_of_getElem? hi), hrollback, hcontent,
    hretains.rootState_eq, hretains.blockHeight_eq, hretains.current_eq,
    fun label hreach => hretains.covers.1 hreach, hretains.restoreState_eq⟩

lemma length_rollbackVersions_le {s s' : RedbAVLStorage} {prover : BatchAVLProver}
    {additionalData : List (Bytes × Bytes)} {blockHeight : UInt32}
    (hok : s.updateWithHeight redb prover additionalData blockHeight = .ok s') :
    s'.rollbackVersions.length ≤ s'.keepVersions.toNat := by
  obtain ⟨digest, prev, undo, nodes, -, -, -, -, rfl, -⟩ := updateInternal_eq_ok hok
  show _ ≤ s.keepVersions.toNat
  rw [rollbackVersions, length_map, length_drop, newChain, length_take, maxChainLen_eq]
  omega

/-- **Undo log correctness.** In every run in which each update commits a prover's tree, every
target can be gone back to, the memory is what opening the file loads, and an update leaves at most
`keep_versions` targets. -/
theorem rollsBack_of_run (redb : Redb) (content : Bytes → Option Bytes) (keyLength : ℕ)
    {keepVersions : UInt32} {events : List StorageEvent}
    (hmeets : MeetsAll (step redb) (CommitsTrees content keyLength) (.new keepVersions) events) :
    (∀ version ∈ (events.foldl (step redb) (.new keepVersions)).storage.rollbackVersions,
      (events.foldl (step redb) (.new keepVersions)).RollsBackTo redb content keyLength version) ∧
    RedbAVLStorage.restoreState (events.foldl (step redb) (.new keepVersions)).storage.db =
      .ok ((events.foldl (step redb) (.new keepVersions)).storage.currentVersion,
        (events.foldl (step redb) (.new keepVersions)).storage.versionChain) ∧
    ∀ prover additionalData blockHeight s',
      (events.foldl (step redb) (.new keepVersions)).storage.updateWithHeight redb prover
        additionalData blockHeight = .ok s' →
      s'.rollbackVersions.length ≤ s'.keepVersions.toNat := by
  obtain ⟨retained, h⟩ := hmeets.invariant
    (P := fun t => ∃ retained, Retains redb content keyLength t retained)
    (fun _ _ ⟨_, h⟩ hcommits => h.step hcommits) ⟨[], .new redb content keyLength keepVersions⟩
  exact ⟨fun version hversion => h.rollsBackTo hversion, h.restoreState_eq,
    fun _ _ _ _ hok => length_rollbackVersions_le hok⟩

end TrackedStorage

/-! ## A run -/

def subtreeLabels (content : Bytes → Option Bytes) (keyLength : ℕ) : ℕ → Digest32 → List Digest32
  | 0, label => [label]
  | depth + 1, label =>
    label :: (((content label.1).map (childLabels keyLength)).getD []).flatMap
      (subtreeLabels content keyLength depth)

section Check

variable {content : Bytes → Option Bytes} {keyLength : ℕ} {root : Digest32}

lemma NodeBelow.of_mem_subtreeLabels {depth : ℕ} {label label' : Digest32}
    (h : NodeBelow content keyLength root label)
    (hmem : label' ∈ subtreeLabels content keyLength depth label) :
    NodeBelow content keyLength root label' := by
  induction depth generalizing label with
  | zero => exact mem_singleton.1 hmem ▸ h
  | succ depth ih =>
    rcases mem_cons.1 hmem with rfl | hmem
    · exact h
    · obtain ⟨child, hchild, hmem⟩ := mem_flatMap.1 hmem
      cases hcontent : content label.1 with
      | none => simp [hcontent] at hchild
      | some packed => exact ih (h.child hcontent (by simpa [hcontent] using hchild)) hmem

lemma nodeBelow_iff_mem_subtreeLabels (depth : ℕ)
    (hclosed : ∀ label ∈ subtreeLabels content keyLength depth root,
      ∀ child ∈ ((content label.1).map (childLabels keyLength)).getD [],
        child ∈ subtreeLabels content keyLength depth root) {label : Digest32} :
    NodeBelow content keyLength root label ↔ label ∈ subtreeLabels content keyLength depth root := by
  constructor
  · intro h
    induction h with
    | root =>
      cases depth with
      | zero => exact mem_singleton_self _
      | succ depth => exact mem_cons_self
    | child h hpacked hchild ih => exact hclosed _ ih _ (by simpa [hpacked] using hchild)
  · exact NodeBelow.root.of_mem_subtreeLabels

end Check

lemma length_replicate_32 (n : UInt8) : (List.replicate 32 n).length = 32 :=
  length_replicate

def exampleLabel (n : UInt8) : Digest32 := ⟨List.replicate 32 n, length_replicate_32 n⟩

def exampleLeaf (key : UInt8) : Bytes := [1, key, 0, 0, 0, 0, key + 1]

def exampleInternal (left right : UInt8) : Bytes :=
  [0, 0, right] ++ (exampleLabel left).1 ++ (exampleLabel right).1

def exampleContent (label : Bytes) : Option Bytes :=
  [((exampleLabel 1).1, exampleLeaf 1), ((exampleLabel 2).1, exampleLeaf 2),
    ((exampleLabel 3).1, exampleLeaf 3), ((exampleLabel 12).1, exampleInternal 1 2),
    ((exampleLabel 23).1, exampleInternal 2 3)].lookup label

def exampleRedb : Redb where
  accepts _ valueLength := decide (valueLength ≤ 3 * 2 ^ 30)
  accepts_of_le hle h := by
    rw [decide_eq_true_eq] at h ⊢
    omega
  lt_of_accepts h := by
    rw [decide_eq_true_eq] at h
    omega

def proverLeaf (key : UInt8) : ProverNode := .leaf (exampleLabel key) (exampleLeaf key) true false

def leafProver (digest : Bytes) (key : UInt8) (removed : List Digest32) : BatchAVLProver :=
  ⟨some digest, proverLeaf key, removed, 0⟩

def internalProver (digest : Bytes) (label left right : UInt8) (removed : List Digest32) :
    BatchAVLProver :=
  ⟨some digest, .internal (exampleLabel label) (exampleInternal left right) true false
    (proverLeaf left) (proverLeaf right), removed, 1⟩

/-- Three updates, a rollback over two, a reopening, and an update that takes a sequence number
again and removes a node whose removal was undone. -/
def exampleCalls : List StorageEvent :=
  [.update (leafProver [1] 1 []) [] 1, .update (internalProver [2] 12 1 2 []) [] 2,
    .update (internalProver [3] 23 2 3 [exampleLabel 1, exampleLabel 12]) [] 3,
    .rollback [1],
    .reopen 2,
    .update (internalProver [4] 23 2 3 [exampleLabel 1]) [] 2]

namespace TrackedStorage

lemma commitsTree_example {s : RedbAVLStorage} {prover : BatchAVLProver} {old : List Digest32}
    (hold : s.rootState.elim [] (fun root => subtreeLabels exampleContent 1 1 root.1) = old)
    (hclosed : ∀ root ∈ (s.rootState.map Prod.fst).toList ++ [prover.topNode.label],
      ∀ label ∈ subtreeLabels exampleContent 1 1 root,
        ∀ child ∈ ((exampleContent label.1).map (childLabels 1)).getD [],
          child ∈ subtreeLabels exampleContent 1 1 root)
    (hknown : ∀ label ∈ subtreeLabels exampleContent 1 1 prover.topNode.label,
      (exampleContent label.1).isSome ∧
        (label ∉ old → label ∈ prover.changedNodes.map Prod.fst))
    (hremoved : ∀ label ∈ prover.removedNodes,
      label ∈ old ∧ label ∉ subtreeLabels exampleContent 1 1 prover.topNode.label)
    (haddressed : ∀ row ∈ RedbAVLStorage.nodeRows prover.changedNodes,
      exampleContent row.1 = some row.2)
    (hfresh : ∀ digest ∈ prover.digest.toList, digest ∉ s.versionChain.map Prod.snd) :
    CommitsTree exampleContent 1 s prover [] := by
  have hnew : ∀ {label}, NodeBelow exampleContent 1 prover.topNode.label label ↔
      label ∈ subtreeLabels exampleContent 1 1 prover.topNode.label :=
    nodeBelow_iff_mem_subtreeLabels 1 (hclosed _ (by simp))
  have hin : ∀ {label}, s.InTree exampleContent 1 label ↔ label ∈ old := by
    intro label
    rw [← hold]
    cases hroot : s.rootState with
    | none => simp [InTree, hroot]
    | some root =>
      have hiff : NodeBelow exampleContent 1 root.1 label ↔
          label ∈ subtreeLabels exampleContent 1 1 root.1 :=
        nodeBelow_iff_mem_subtreeLabels 1 (hclosed root.1 (by simp [hroot]))
      rw [Option.elim_some, ← hiff]
      constructor
      · rintro ⟨_, _, heq, hreach⟩
        cases hroot.symm.trans heq
        exact hreach
      · exact fun hreach => ⟨root.1, root.2, hroot, hreach⟩
  constructor
  case known => exact fun label h => (hknown label (hnew.1 h)).1
  case changed => exact fun label h hnot => (hknown label (hnew.1 h)).2 (fun hmem => hnot (hin.2 hmem))
  case removed =>
    intro label hlabel
    obtain ⟨hmem, hgone⟩ := hremoved label hlabel
    exact ⟨hin.2 hmem, fun h => hgone (hnew.1 h)⟩
  case addressed =>
    intro row hrow packed hpacked
    rw [append_nil] at hrow
    exact Option.some.inj ((haddressed row hrow).symm.trans hpacked)
  case fresh => exact fun digest hdigest => hfresh digest (by simp [hdigest])

/-- The run goes back to its first version over the sequence number that was used twice. -/
theorem rollsBack_of_run_example :
    (exampleCalls.foldl (step exampleRedb) (.new 5)).storage.rollbackVersions = [[1]] ∧
      (exampleCalls.foldl (step exampleRedb) (.new 5)).RollsBackTo exampleRedb exampleContent 1 [1] := by
  have htargets : (exampleCalls.foldl (step exampleRedb) (.new 5)).storage.rollbackVersions = [[1]] := by
    decide +kernel
  refine ⟨htargets, (rollsBack_of_run exampleRedb exampleContent 1 ?_).1 [1] (by rw [htargets]; simp)⟩
  refine ⟨?_, ?_, ?_, trivial, trivial, ?_, trivial⟩
  · exact commitsTree_example rfl (by decide +kernel) (by decide +kernel) (by decide +kernel)
      (by decide +kernel) (by decide +kernel)
  · exact commitsTree_example rfl (by decide +kernel) (by decide +kernel) (by decide +kernel)
      (by decide +kernel) (by decide +kernel)
  · exact commitsTree_example rfl (by decide +kernel) (by decide +kernel) (by decide +kernel)
      (by decide +kernel) (by decide +kernel)
  · exact commitsTree_example rfl (by decide +kernel) (by decide +kernel) (by decide +kernel)
      (by decide +kernel) (by decide +kernel)

end TrackedStorage

end ErgoNode
