import ErgoNode.Snapshot.RoundTrip
import ErgoNode.Snapshot.Store

/-!
# The task that creates snapshots

A background task reads the height of the last validated block, rounds it down to a snapshot
boundary and starts a job that dumps the state and stores the dump under the boundary. Meanwhile
blocks are applied and rolled back. The two share the height, set after a block is applied, and the
database, which the job reads in one transaction. The job dumps the state of the applied tip,
whatever boundary it was started for. So a stored snapshot is the state at its height exactly if the
block at that height has the state root of the tip when the job runs.
-/

namespace ErgoNode

/-- What the state database holds: a tree whose root is in the metadata, walked within the call
stack. -/
structure CommittedState (hash : Bytes → Digest32) (stack : ℕ) where
  tree : AvlTree
  treeHeight : UInt32
  db : Database
  stored : tree.Stored hash db treeHeight
  depth_lt : tree.depth < stack

def ADDigest.of (rootHash : Digest32) (treeHeight : UInt8) : ADDigest :=
  natOfBytes (StateRoot.of rootHash treeHeight).1

def CommittedState.digest {hash : Bytes → Digest32} {stack : ℕ} (state : CommittedState hash stack) :
    ADDigest :=
  .of (state.tree.label hash) state.treeHeight.toUInt8

/-- A call of `write_snapshot` by the task, with the applied chain at that time. -/
structure StoredSnapshot where
  height : UInt32
  dump : SnapshotDump
  /-- Headers of the applied blocks, newest first. -/
  chain : List Header

namespace StoredSnapshot

/-- The snapshot is the state after the block at its height, by the state root of that header. -/
def IsStateAt (s : StoredSnapshot) : Prop :=
  ∃ header ∈ s.chain, header.height = s.height.toNat ∧
    header.stateRoot = .of s.dump.rootHash s.dump.treeHeight

instance (s : StoredSnapshot) : Decidable s.IsStateAt :=
  inferInstanceAs (Decidable (∃ header ∈ s.chain, _))

def IsTree (hash : Bytes → Digest32) (s : StoredSnapshot) : Prop :=
  ∃ (t : AvlTree) (manifest : VerifiedManifest) (data : SnapshotData),
    t.label hash = s.dump.rootHash ∧
      verifyManifest hash s.dump.manifest (.of s.dump.rootHash s.dump.treeHeight) = .ok manifest ∧
      assembleSnapshot hash manifest (writeRows (fun _ => none) s.dump.chunks) s.height = .ok data ∧
      data.nodes.Perm (t.rows hash)

end StoredSnapshot

structure SnapshotTaskConfig where
  snapshotInterval : UInt32
  storingSnapshots : UInt32

/-- The latest boundary at or below the validated height, if above zero. An interval of zero ends
the task. -/
def SnapshotTaskConfig.boundary (config : SnapshotTaskConfig) (validated : UInt32) : Option UInt32 :=
  -- `saturating_sub`
  let first := if config.snapshotInterval = 0 then 0 else config.snapshotInterval - 1
  if validated < first then none
  else if config.snapshotInterval = 0 then none
  else
    let snapshotHeight := validated - (validated + 1) % config.snapshotInterval
    if snapshotHeight = 0 then none else some snapshotHeight

structure SnapshotNode (hash : Bytes → Digest32) (stack : ℕ) where
  /-- Headers of the applied blocks, newest first. -/
  chain : List Header
  state : CommittedState hash stack
  sharedHeight : UInt32
  /-- A reader of the database is installed; not so during the reopening at the tip. -/
  reader : Bool
  lastSnapshotBoundary : UInt32
  /-- The height that the running job was started for. -/
  job : Option UInt32
  store : SnapshotStore
  /-- What the task has stored, newest first. -/
  stored : List StoredSnapshot

inductive SnapshotEvent (hash : Bytes → Digest32) (stack : ℕ) where
  | commit (header : Header) (state : CommittedState hash stack)
  /-- A number of blocks is rolled back, by a reorg or because the last one fails after its commit. -/
  | rollBack (blocks : ℕ) (state : CommittedState hash stack)
  | publish
  | swapReader (installed : Bool)
  | wake
  /-- The job that the task waits for reads the database and stores the dump. -/
  | dump

namespace SnapshotNode

variable {hash : Bytes → Digest32} {stack : ℕ}

/-- An iteration of the task up to the start of the job. The task waits for a job before it sleeps
again. -/
def wake (config : SnapshotTaskConfig) (node : SnapshotNode hash stack) : SnapshotNode hash stack :=
  match node.job, config.boundary node.sharedHeight with
  | none, some snapshotHeight =>
    if snapshotHeight ≤ node.lastSnapshotBoundary then node
    else if node.store.snapshotsInfo.any (fun entry => entry.1 = snapshotHeight) || !node.reader then
      { node with lastSnapshotBoundary := snapshotHeight }
    else { node with lastSnapshotBoundary := snapshotHeight, job := some snapshotHeight }
  | _, _ => node

def dump (config : SnapshotTaskConfig) (node : SnapshotNode hash stack) : SnapshotNode hash stack :=
  match node.job with
  | none => node
  | some height =>
    match SnapshotReader.dumpSnapshot stack node.state.db 14 with
    | .ok (some dump) =>
      { node with
        job := none
        store := node.store.writeSnapshot height dump.rootHash dump.manifest dump.chunks
          config.storingSnapshots
        stored := ⟨height, dump, node.chain⟩ :: node.stored }
    | _ => { node with job := none }

def step (config : SnapshotTaskConfig) (node : SnapshotNode hash stack) :
    SnapshotEvent hash stack → SnapshotNode hash stack
  | .commit header state => { node with chain := header :: node.chain, state := state }
  | .rollBack blocks state => { node with chain := node.chain.drop blocks, state := state }
  | .publish => { node with sharedHeight := UInt32.ofNat ((node.chain.head?.map Header.height).getD 0) }
  | .swapReader installed => { node with reader := installed }
  | .wake => node.wake config
  | .dump => node.dump config

def Consistent (node : SnapshotNode hash stack) : Prop :=
  ∀ tip ∈ node.chain.head?, tip.stateRoot = node.state.digest

/-- What the validator guarantees: it ends in the state root of the block applied or rolled back to.
-/
def Valid (node : SnapshotNode hash stack) : SnapshotEvent hash stack → Prop
  | .commit header state => header.stateRoot = state.digest
  | .rollBack blocks state => ∀ tip ∈ (node.chain.drop blocks).head?, tip.stateRoot = state.digest
  | _ => True

/-- When a job runs, the block at its height has the state root of the tip. The tip itself does. -/
def DumpsBoundary (node : SnapshotNode hash stack) : SnapshotEvent hash stack → Prop
  | .dump => ∀ height ∈ node.job, ∃ header ∈ node.chain, header.height = height.toNat ∧
      ∃ tip ∈ node.chain.head?, header.stateRoot = tip.stateRoot
  | _ => True

variable {config : SnapshotTaskConfig} {node : SnapshotNode hash stack} {height : UInt32}

lemma wake_eq (config : SnapshotTaskConfig) (node : SnapshotNode hash stack) :
    ∃ boundary job, node.wake config =
      { node with lastSnapshotBoundary := boundary, job := job } := by
  rw [wake]
  split
  · split_ifs
    · exact ⟨_, _, rfl⟩
    · exact ⟨_, _, rfl⟩
    · exact ⟨_, _, rfl⟩
  · exact ⟨_, _, rfl⟩

lemma dumpSnapshot_state (state : CommittedState hash stack) :
    ∃ dump, SnapshotReader.dumpSnapshot stack state.db 14 = .ok (some dump) ∧
      .of dump.rootHash dump.treeHeight = state.digest ∧
      ∀ height chain, StoredSnapshot.IsTree hash ⟨height, dump, chain⟩ := by
  have hdump := SnapshotReader.dumpSnapshot_eq_ok state.stored 14 state.depth_lt
  refine ⟨_, hdump, rfl, fun height chain => ?_⟩
  obtain ⟨dump, manifest, data, hdump', hverify, -, -, hassemble, hperm, -⟩ :=
    assembleSnapshot_dumpSnapshot state.stored (by decide : (1 : UInt8) ≤ 14) state.depth_lt height
  obtain rfl := Option.some.inj (Except.ok.inj (hdump.symm.trans hdump'))
  exact ⟨state.tree, manifest, data, rfl, hverify, hassemble, hperm⟩

lemma dump_eq (config : SnapshotTaskConfig) (hjob : node.job = some height) :
    ∃ dump, .of dump.rootHash dump.treeHeight = node.state.digest ∧
      StoredSnapshot.IsTree hash ⟨height, dump, node.chain⟩ ∧
      node.dump config =
        { node with
          job := none
          store := node.store.writeSnapshot height dump.rootHash dump.manifest dump.chunks
            config.storingSnapshots
          stored := ⟨height, dump, node.chain⟩ :: node.stored } := by
  obtain ⟨dump, hdump, hdigest, htree⟩ := dumpSnapshot_state node.state
  refine ⟨dump, hdigest, htree height node.chain, ?_⟩
  rw [SnapshotNode.dump, hjob]
  simp only [hdump]

lemma dump_eq_self (config : SnapshotTaskConfig) (hjob : node.job = none) :
    node.dump config = node := by
  rw [dump, hjob]

lemma stored_step (config : SnapshotTaskConfig) (node : SnapshotNode hash stack)
    (e : SnapshotEvent hash stack) :
    ((node.step config e).stored = node.stored ∧ (node.step config e).store = node.store ∧
        node.DumpsBoundary e) ∨
      ∃ height dump, e = .dump ∧ node.job = some height ∧
        .of dump.rootHash dump.treeHeight = node.state.digest ∧
        StoredSnapshot.IsTree hash ⟨height, dump, node.chain⟩ ∧
        (node.step config e).stored = ⟨height, dump, node.chain⟩ :: node.stored ∧
        (node.step config e).store = node.store.writeSnapshot height dump.rootHash dump.manifest
          dump.chunks config.storingSnapshots := by
  cases e with
  | commit header state => exact .inl ⟨rfl, rfl, trivial⟩
  | rollBack blocks state => exact .inl ⟨rfl, rfl, trivial⟩
  | publish => exact .inl ⟨rfl, rfl, trivial⟩
  | swapReader installed => exact .inl ⟨rfl, rfl, trivial⟩
  | wake =>
    obtain ⟨boundary, job, heq⟩ := wake_eq config node
    rw [step, heq]
    exact .inl ⟨rfl, rfl, trivial⟩
  | dump =>
    rw [step]
    cases hjob : node.job with
    | none =>
      rw [dump_eq_self config hjob]
      refine .inl ⟨rfl, rfl, fun height hheight => ?_⟩
      cases hjob.symm.trans hheight
    | some height =>
      obtain ⟨dump, hdigest, htree, heq⟩ := dump_eq config hjob
      rw [heq]
      exact .inr ⟨height, dump, rfl, rfl, hdigest, htree, rfl, rfl⟩

lemma Consistent.step (config : SnapshotTaskConfig) (h : node.Consistent)
    {e : SnapshotEvent hash stack} (hvalid : node.Valid e) : (node.step config e).Consistent := by
  cases e with
  | commit header state =>
    rintro tip ⟨⟩
    exact hvalid
  | rollBack blocks state => exact hvalid
  | publish => exact h
  | swapReader installed => exact h
  | wake =>
    obtain ⟨boundary, job, heq⟩ := wake_eq config node
    rwa [SnapshotNode.step, heq]
  | dump =>
    rw [SnapshotNode.step]
    cases hjob : node.job with
    | none => rwa [dump_eq_self config hjob]
    | some height =>
      obtain ⟨dump, -, -, heq⟩ := dump_eq config hjob
      rwa [heq]

/-- A dump of the state at the tip is the state at a height exactly if the block there has the state
root of the tip. -/
theorem isStateAt_iff (h : node.Consistent) {dump : SnapshotDump} (hjob : node.job = some height)
    (hdigest : .of dump.rootHash dump.treeHeight = node.state.digest) :
    StoredSnapshot.IsStateAt ⟨height, dump, node.chain⟩ ↔ node.DumpsBoundary .dump := by
  constructor
  · rintro ⟨header, hmem, hheight, hroot⟩ height' hheight'
    cases hjob.symm.trans hheight'
    refine ⟨header, hmem, hheight, ?_⟩
    -- the chain has a block, so it has a tip
    have hne : node.chain ≠ [] := List.ne_nil_of_mem hmem
    obtain ⟨tip, below, hchain⟩ := List.exists_cons_of_ne_nil hne
    have htip : tip ∈ node.chain.head? := by rw [hchain]; rfl
    exact ⟨tip, htip, by rw [hroot, h tip htip]; exact hdigest⟩
  · intro hboundary
    obtain ⟨header, hmem, hheight, tip, htip, hroot⟩ := hboundary height hjob
    exact ⟨header, hmem, hheight, by rw [hroot, h tip htip]; exact hdigest.symm⟩

/-- A step stores only states at their heights exactly if a job that runs in it meets the condition. -/
theorem isStateAt_step_iff (h : node.Consistent) (e : SnapshotEvent hash stack) :
    (∀ s ∈ (node.step config e).stored, s.IsStateAt) ↔
      (∀ s ∈ node.stored, s.IsStateAt) ∧ node.DumpsBoundary e := by
  rcases stored_step config node e with ⟨hstored, -, hboundary⟩ |
    ⟨height, dump, rfl, hjob, hdigest, -, hstored, -⟩
  · rw [hstored]
    exact (and_iff_left hboundary).symm
  · rw [hstored, List.forall_mem_cons, isStateAt_iff h hjob hdigest]
    exact and_comm

def StoresTrees (node : SnapshotNode hash stack) : Prop := ∀ s ∈ node.stored, s.IsTree hash

def ListsStored (node : SnapshotNode hash stack) : Prop :=
  ∀ entry ∈ node.store.snapshotsInfo, ∃ s ∈ node.stored, entry = (s.height, s.dump.rootHash)

lemma StoresTrees.step (h : node.StoresTrees) (e : SnapshotEvent hash stack) :
    (node.step config e).StoresTrees := by
  rcases stored_step config node e with ⟨hstored, -, -⟩ | ⟨height, dump, -, -, -, htree, hstored, -⟩
  · intro s hs
    rw [hstored] at hs
    exact h s hs
  · intro s hs
    rw [hstored] at hs
    rcases List.mem_cons.1 hs with rfl | hs
    · exact htree
    · exact h s hs

lemma ListsStored.step (h : node.ListsStored) (e : SnapshotEvent hash stack) :
    (node.step config e).ListsStored := by
  intro entry hentry
  rcases stored_step config node e with ⟨hstored, hstore, -⟩ |
    ⟨height, dump, -, -, -, -, hstored, hstore⟩
  · rw [hstore] at hentry
    rw [hstored]
    exact h entry hentry
  · rw [hstore] at hentry
    rw [hstored]
    rcases SnapshotStore.mem_snapshotsInfo_writeSnapshot hentry with hold | rfl
    · obtain ⟨s, hs, heq⟩ := h entry hold
      exact ⟨s, List.mem_cons_of_mem _ hs, heq⟩
    · exact ⟨_, List.mem_cons_self, rfl⟩

structure Fresh (node : SnapshotNode hash stack) : Prop where
  consistent : node.Consistent
  stored_eq : node.stored = []
  snapshotsInfo_eq : node.store.snapshotsInfo = []

/-- **Stored snapshots and the states at their heights.** In any interleaving of commits, rollbacks
and iterations of the task, every snapshot stored under a height is the state after the applied
block at that height, if and only if whenever a job runs, that block has the state root of the tip.
What is stored is in any case a tree with the manifest id as its root, and nothing else is listed.
-/
theorem stored_run_iff (hfresh : node.Fresh) {events : List (SnapshotEvent hash stack)}
    (hvalid : MeetsAll (step config) Valid node events) :
    ((∀ s ∈ (events.foldl (step config) node).stored, s.IsStateAt) ↔
        MeetsAll (step config) DumpsBoundary node events) ∧
      (∀ s ∈ (events.foldl (step config) node).stored, s.IsTree hash) ∧
      ∀ entry ∈ (events.foldl (step config) node).store.snapshotsInfo,
        ∃ s ∈ (events.foldl (step config) node).stored, entry = (s.height, s.dump.rootHash) := by
  have hnone : ∀ P : StoredSnapshot → Prop, ∀ s ∈ node.stored, P s := by
    rw [hfresh.stored_eq]
    exact fun P => List.forall_mem_nil P
  refine ⟨?_, ?_, ?_⟩
  · rw [MeetsAll.foldl_iff (P := fun node => ∀ s ∈ node.stored, s.IsStateAt) (I := Consistent)
      (fun _ _ h hv => h.step config hv) (fun _ e h _ => isStateAt_step_iff h e)
      hfresh.consistent hvalid]
    exact and_iff_right (hnone _)
  · exact hvalid.invariant (P := StoresTrees) (fun _ e h _ => h.step e) (hnone _)
  · refine hvalid.invariant (P := ListsStored) (fun _ e h _ => h.step e) ?_
    intro entry hentry
    rw [hfresh.snapshotsInfo_eq] at hentry
    cases hentry

/-! ## Two blocks and an interval of two -/

def oneLeaf : AvlTree := .leaf (firstBytes [1]) (oneByte 7) (firstBytes [255])

def oneLeafState : CommittedState firstBytes 2 where
  tree := oneLeaf
  treeHeight := 0
  db := databaseOf firstBytes oneLeaf 0
  stored := ⟨by unfold AvlTree.InTable; decide +kernel, rfl, rfl⟩
  depth_lt := by decide

def twoLeavesState : CommittedState firstBytes 2 where
  tree := twoLeaves
  treeHeight := 1
  db := databaseOf firstBytes twoLeaves 1
  stored := stored_twoLeaves
  depth_lt := by decide

def headerOver (state : CommittedState firstBytes 2) (height : ℕ) : Header where
  version := 1
  id := height
  parentId := height - 1
  stateRoot := state.digest
  timestamp := 1000 * height
  nBits := 5
  height := height
  votes := ⟨0, 0, 0⟩

def beforeBlocks : SnapshotNode firstBytes 2 where
  chain := []
  state := oneLeafState
  sharedHeight := 0
  reader := true
  lastSnapshotBoundary := 0
  job := none
  store := .empty
  stored := []

lemma fresh_beforeBlocks : beforeBlocks.Fresh := by
  refine ⟨?_, rfl, rfl⟩
  rintro tip ⟨⟩

/-- The task wakes up at the boundary, and its job runs before the next block. -/
theorem stored_run_iff_at_boundary :
    let events : List (SnapshotEvent firstBytes 2) :=
      [.commit (headerOver twoLeavesState 1) twoLeavesState, .publish, .wake, .dump]
    let node := events.foldl (step ⟨2, 1⟩) beforeBlocks
    beforeBlocks.Fresh ∧ MeetsAll (step ⟨2, 1⟩) Valid beforeBlocks events ∧
      node.stored.map StoredSnapshot.height = [1] ∧ ∀ s ∈ node.stored, s.IsStateAt := by
  intro events node
  have hvalid : MeetsAll (step ⟨2, 1⟩) Valid beforeBlocks events :=
    ⟨rfl, trivial, trivial, trivial, trivial⟩
  refine ⟨fresh_beforeBlocks, hvalid, by decide +kernel,
    (stored_run_iff fresh_beforeBlocks hvalid).1.2 ⟨trivial, trivial, trivial, ?_, trivial⟩⟩
  rintro height hheight
  obtain rfl : 1 = height := Option.some.inj hheight
  exact ⟨headerOver twoLeavesState 1, List.mem_singleton_self _, rfl, _, rfl, rfl⟩

/-- **The task wakes up one block late.** The state after block 2 is stored under the boundary 1. -/
theorem stored_after_boundary :
    let events : List (SnapshotEvent firstBytes 2) :=
      [.commit (headerOver oneLeafState 1) oneLeafState, .publish,
        .commit (headerOver twoLeavesState 2) twoLeavesState, .publish, .wake, .dump]
    let node := events.foldl (step ⟨2, 1⟩) beforeBlocks
    MeetsAll (step ⟨2, 1⟩) Valid beforeBlocks events ∧
      node.store.snapshotsInfo = [(1, twoLeaves.label firstBytes)] ∧
      ¬∀ s ∈ node.stored, s.IsStateAt := by
  exact ⟨⟨rfl, trivial, rfl, trivial, trivial, trivial, trivial⟩, by decide +kernel,
    by decide +kernel⟩

end SnapshotNode

end ErgoNode
