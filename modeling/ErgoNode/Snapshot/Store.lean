import ErgoNode.Library.Run
import ErgoNode.State.Undo

/-!
# The snapshot store

Manifests by id, chunks by the label of their subtree, and metadata with the list of snapshots,
oldest first, and the chunk ids of each. A write adds a snapshot and then prunes the oldest ones.
Two snapshots share a chunk whenever they share a subtree, and pruning deletes all chunks of the
pruned one. A listed snapshot can be served exactly as long as no pruned snapshot shared a chunk
with a kept one. The count of the list is cut to 32 bits when it is written.
-/

namespace ErgoNode

open List Function

/-! ## The operations -/

/-- The keys of the metadata table: the list of snapshots, and the chunk ids of one. -/
inductive SnapshotMetaKey where
  | snapshotsInfo
  | snapshot (manifestId : Digest32)
  deriving DecidableEq

structure SnapshotStore where
  manifests : Digest32 → Option Bytes
  chunks : Digest32 → Option Bytes
  metadata : SnapshotMetaKey → Option Bytes

def serializeEntry (entry : UInt32 × Digest32) : Bytes := u32Bytes entry.1 ++ entry.2.1

def serializeInfo (info : List (UInt32 × Digest32)) : Bytes :=
  u32Bytes (UInt32.ofNat info.length) ++ info.flatMap serializeEntry

def parseEntry (bytes : { bytes : Bytes // bytes.length = 36 }) : UInt32 × Digest32 :=
  (u32OfBytes (bytes.1.take 4), ⟨bytes.1.drop 4, by rw [List.length_drop, bytes.2]⟩)

def parseInfo (data : Bytes) : List (UInt32 × Digest32) :=
  if data.length < 4 then []
  else readRecords 36 parseEntry (u32OfBytes (data.take 4)).toNat (data.drop 4)

def parseChunkIdList (data : Bytes) : List Digest32 := readRecords 32 id (data.length / 32) data

namespace SnapshotStore

def empty : SnapshotStore := ⟨fun _ => none, fun _ => none, fun _ => none⟩

def snapshotsInfo (s : SnapshotStore) : List (UInt32 × Digest32) :=
  ((s.metadata .snapshotsInfo).map parseInfo).getD []

def getManifest (s : SnapshotStore) (id : Digest32) : Option Bytes := s.manifests id

def getChunk (s : SnapshotStore) (id : Digest32) : Option Bytes := s.chunks id

def chunkIds (s : SnapshotStore) (manifestId : Digest32) : List Digest32 :=
  ((s.metadata (.snapshot manifestId)).map parseChunkIdList).getD []

def pruneSnapshot (s : SnapshotStore) (manifestId : Digest32) : SnapshotStore where
  manifests := Function.update s.manifests manifestId none
  chunks := (s.chunkIds manifestId).foldl (fun chunks id => Function.update chunks id none) s.chunks
  metadata :=
    Function.update (Function.update s.metadata (.snapshot manifestId) none) .snapshotsInfo
      (some (serializeInfo (s.snapshotsInfo.filter (fun entry => entry.2 ≠ manifestId))))

def insertSnapshot (s : SnapshotStore) (height : UInt32) (manifestId : Digest32)
    (manifestBytes : Bytes) (chunks : List (Digest32 × Bytes)) : SnapshotStore where
  manifests := Function.update s.manifests manifestId (some manifestBytes)
  chunks := chunks.foldl (fun table chunk => Function.update table chunk.1 (some chunk.2)) s.chunks
  metadata :=
    Function.update (Function.update s.metadata .snapshotsInfo
      (some (serializeInfo (s.snapshotsInfo ++ [(height, manifestId)])))) (.snapshot manifestId)
      (some (chunks.flatMap (fun chunk => chunk.1.1)))

def surplus (s : SnapshotStore) (storingSnapshots : UInt32) : List Digest32 :=
  (s.snapshotsInfo.take (s.snapshotsInfo.length - storingSnapshots.toNat)).map Prod.snd

def writeSnapshot (s : SnapshotStore) (height : UInt32) (manifestId : Digest32)
    (manifestBytes : Bytes) (chunks : List (Digest32 × Bytes)) (storingSnapshots : UInt32) :
    SnapshotStore :=
  let written := s.insertSnapshot height manifestId manifestBytes chunks
  (written.surplus storingSnapshots).foldl pruneSnapshot written

/-! ## The metadata -/

lemma length_serializeEntry (entry : UInt32 × Digest32) : (serializeEntry entry).length = 36 := by
  rw [serializeEntry, length_append, length_u32Bytes, entry.2.2]

lemma parseEntry_serializeEntry (entry : UInt32 × Digest32) :
    parseEntry ⟨serializeEntry entry, length_serializeEntry entry⟩ = entry := by
  obtain ⟨height, id⟩ := entry
  have htake : (serializeEntry (height, id)).take 4 = u32Bytes height :=
    take_left' (length_u32Bytes height)
  have hdrop : (serializeEntry (height, id)).drop 4 = id.1 :=
    drop_left' (length_u32Bytes height)
  simp only [parseEntry, htake, hdrop, u32OfBytes_u32Bytes]

lemma parseInfo_serializeInfo (info : List (UInt32 × Digest32)) :
    parseInfo (serializeInfo info) = info.take (UInt32.ofNat info.length).toNat := by
  have hlen : ¬ (serializeInfo info).length < 4 := by
    rw [serializeInfo, length_append, length_u32Bytes]
    omega
  rw [parseInfo, if_neg hlen, serializeInfo, take_left' (length_u32Bytes _),
    drop_left' (length_u32Bytes _), u32OfBytes_u32Bytes,
    readRecords_flatMap (by decide) length_serializeEntry parseEntry_serializeEntry]

lemma length_parseInfo_lt (data : Bytes) : (parseInfo data).length < 2 ^ 32 := by
  rw [parseInfo]
  split
  · simp
  · exact Nat.lt_of_le_of_lt (length_readRecords_le _ _ _) (UInt32.toNat_lt _)

lemma length_snapshotsInfo_lt (s : SnapshotStore) : s.snapshotsInfo.length < 2 ^ 32 := by
  rw [snapshotsInfo]
  cases s.metadata .snapshotsInfo with
  | none => simp
  | some data => exact length_parseInfo_lt data

lemma parseChunkIdList_flatMap (chunks : List (Digest32 × Bytes)) :
    parseChunkIdList (chunks.flatMap (fun chunk => chunk.1.1)) = chunks.map Prod.fst := by
  have hflat : chunks.flatMap (fun chunk => chunk.1.1) = (chunks.map Prod.fst).flatMap Subtype.val := by
    rw [flatMap_map]
  have hlen : ((chunks.map Prod.fst).flatMap Subtype.val).length = 32 * (chunks.map Prod.fst).length := by
    generalize chunks.map Prod.fst = ids
    induction ids with
    | nil => rfl
    | cons id ids ih =>
      rw [flatMap_cons, length_append, ih, id.2, length_cons]
      omega
  rw [hflat, parseChunkIdList, hlen, Nat.mul_div_cancel_left _ (by decide),
    readRecords_flatMap (by decide) (fun d : Digest32 => d.2) (fun _ => rfl), take_length]

/-! ## One write -/

section Write

variable {s : SnapshotStore} {height : UInt32} {manifestId id : Digest32} {manifestBytes : Bytes}
  {chunks : List (Digest32 × Bytes)} {storingSnapshots : UInt32}

lemma snapshotsInfo_insertSnapshot :
    (s.insertSnapshot height manifestId manifestBytes chunks).snapshotsInfo =
      (s.snapshotsInfo ++ [(height, manifestId)]).take
        (UInt32.ofNat (s.snapshotsInfo.length + 1)).toNat := by
  have hread : (s.insertSnapshot height manifestId manifestBytes chunks).metadata .snapshotsInfo =
      some (serializeInfo (s.snapshotsInfo ++ [(height, manifestId)])) := by
    simp [insertSnapshot, update_of_ne]
  rw [snapshotsInfo, hread, Option.map_some, Option.getD_some, parseInfo_serializeInfo,
    length_append, length_singleton]

lemma chunkIds_insertSnapshot :
    (s.insertSnapshot height manifestId manifestBytes chunks).chunkIds id =
      if id = manifestId then chunks.map Prod.fst else s.chunkIds id := by
  split
  next hid =>
    subst hid
    simp [chunkIds, insertSnapshot, parseChunkIdList_flatMap]
  next hid =>
    simp [chunkIds, insertSnapshot, update_of_ne, hid]

lemma isSome_manifests_insertSnapshot :
    ((s.insertSnapshot height manifestId manifestBytes chunks).getManifest id).isSome ↔
      id = manifestId ∨ (s.getManifest id).isSome := by
  rw [getManifest, getManifest, insertSnapshot]
  by_cases hid : id = manifestId
  · subst hid
    simp
  · simp [update_of_ne, hid]

lemma isSome_getChunk_insertSnapshot :
    ((s.insertSnapshot height manifestId manifestBytes chunks).getChunk id).isSome ↔
      id ∈ chunks.map Prod.fst ∨ (s.getChunk id).isSome := by
  rw [getChunk, getChunk, insertSnapshot]
  generalize s.chunks = table
  induction chunks generalizing table with
  | nil => simp
  | cons chunk chunks ih =>
    rw [foldl_cons, ih, map_cons, mem_cons]
    by_cases hid : id = chunk.1
    · simp [hid]
    · simp [update_of_ne, hid]

/-! ### Pruning -/

lemma snapshotsInfo_pruneSnapshot :
    (s.pruneSnapshot manifestId).snapshotsInfo =
      s.snapshotsInfo.filter (fun entry => entry.2 ≠ manifestId) := by
  have hread : (s.pruneSnapshot manifestId).metadata .snapshotsInfo =
      some (serializeInfo (s.snapshotsInfo.filter (fun entry => entry.2 ≠ manifestId))) := by
    simp [pruneSnapshot]
  have hlt : (s.snapshotsInfo.filter (fun entry => entry.2 ≠ manifestId)).length < 2 ^ 32 :=
    Nat.lt_of_le_of_lt (length_filter_le _ _) (length_snapshotsInfo_lt s)
  rw [snapshotsInfo, hread, Option.map_some, Option.getD_some, parseInfo_serializeInfo,
    toNat_u32_of_lt hlt, take_length]

lemma chunkIds_pruneSnapshot :
    (s.pruneSnapshot manifestId).chunkIds id = if id = manifestId then [] else s.chunkIds id := by
  split
  next hid =>
    subst hid
    simp [chunkIds, pruneSnapshot, update_of_ne]
  next hid =>
    simp [chunkIds, pruneSnapshot, update_of_ne, hid]

lemma getManifest_pruneSnapshot :
    (s.pruneSnapshot manifestId).getManifest id =
      if id = manifestId then none else s.getManifest id :=
  update_apply s.manifests manifestId none id

lemma getChunk_pruneSnapshot :
    (s.pruneSnapshot manifestId).getChunk id =
      if id ∈ s.chunkIds manifestId then none else s.getChunk id := by
  rw [getChunk, getChunk, pruneSnapshot]
  generalize s.chunks = table, s.chunkIds manifestId = ids
  induction ids generalizing table with
  | nil => simp
  | cons a ids ih =>
    rw [foldl_cons, ih]
    by_cases hid : id = a
    · simp [hid]
    · simp [update_of_ne, hid]

/-- What the pruning loop leaves: nothing of the pruned snapshots, and of the chunks those that no
pruned snapshot has. -/
structure Pruned (s : SnapshotStore) (ids : List Digest32) (s' : SnapshotStore) : Prop where
  snapshotsInfo_eq : s'.snapshotsInfo = s.snapshotsInfo.filter (fun entry => entry.2 ∉ ids)
  chunkIds_eq : ∀ id, s'.chunkIds id = if id ∈ ids then [] else s.chunkIds id
  getManifest_eq : ∀ id, s'.getManifest id = if id ∈ ids then none else s.getManifest id
  getChunk_eq : ∀ id, s'.getChunk id =
    if ∃ pruned ∈ ids, id ∈ s.chunkIds pruned then none else s.getChunk id

lemma pruned_foldl (ids : List Digest32) (s : SnapshotStore) :
    Pruned s ids (ids.foldl pruneSnapshot s) := by
  induction ids generalizing s with
  | nil => exact ⟨(filter_eq_self.2 (by simp)).symm, by simp, by simp, by simp⟩
  | cons a ids ih =>
    have htail := ih (s.pruneSnapshot a)
    rw [foldl_cons]
    refine ⟨?_, fun id => ?_, fun id => ?_, fun id => ?_⟩
    · rw [htail.snapshotsInfo_eq, snapshotsInfo_pruneSnapshot, filter_filter]
      refine filter_congr (fun entry _ => ?_)
      simp [not_or, Bool.and_comm]
    · rw [htail.chunkIds_eq, chunkIds_pruneSnapshot]
      by_cases hid : id = a <;> simp [hid]
    · rw [htail.getManifest_eq, getManifest_pruneSnapshot]
      by_cases hid : id = a <;> simp [hid]
    · rw [htail.getChunk_eq, getChunk_pruneSnapshot]
      by_cases hhead : id ∈ s.chunkIds a
      · simp [hhead]
      · -- the ids noted for `a` itself are gone, and those of the others are as before
        have hsame : (∃ pruned ∈ ids, id ∈ (s.pruneSnapshot a).chunkIds pruned) ↔
            ∃ pruned ∈ a :: ids, id ∈ s.chunkIds pruned := by
          constructor
          · rintro ⟨pruned, hmem, hchunk⟩
            rw [chunkIds_pruneSnapshot] at hchunk
            split at hchunk
            · cases hchunk
            · exact ⟨pruned, mem_cons_of_mem a hmem, hchunk⟩
          · rintro ⟨pruned, hmem, hchunk⟩
            have hne : pruned ≠ a := by
              rintro rfl
              exact hhead hchunk
            refine ⟨pruned, (mem_cons.1 hmem).resolve_left hne, ?_⟩
            rwa [chunkIds_pruneSnapshot, if_neg hne]
        simp only [hsame, if_neg hhead]

variable {entry : UInt32 × Digest32}

lemma mem_snapshotsInfo_insertSnapshot
    (h : entry ∈ (s.insertSnapshot height manifestId manifestBytes chunks).snapshotsInfo) :
    entry ∈ s.snapshotsInfo ∨ entry = (height, manifestId) := by
  rw [snapshotsInfo_insertSnapshot] at h
  rcases mem_append.1 (mem_of_mem_take h) with hold | hnew
  · exact .inl hold
  · exact .inr (mem_singleton.1 hnew)

lemma mem_snapshotsInfo_writeSnapshot (h : entry ∈
      (s.writeSnapshot height manifestId manifestBytes chunks storingSnapshots).snapshotsInfo) :
    entry ∈ s.snapshotsInfo ∨ entry = (height, manifestId) := by
  rw [writeSnapshot, (pruned_foldl _ _).snapshotsInfo_eq] at h
  exact mem_snapshotsInfo_insertSnapshot (mem_of_mem_filter h)

/-- **The list is within the limit after every write.** -/
theorem length_snapshotsInfo_writeSnapshot :
    (s.writeSnapshot height manifestId manifestBytes chunks storingSnapshots).snapshotsInfo.length ≤
      storingSnapshots.toNat := by
  set written := s.insertSnapshot height manifestId manifestBytes chunks with hwritten
  have hpruned := pruned_foldl (written.surplus storingSnapshots) written
  rw [writeSnapshot, ← hwritten, hpruned.snapshotsInfo_eq]
  -- the oldest entries are all dropped
  set n := written.snapshotsInfo.length - storingSnapshots.toNat with hn
  have hdropped : (written.snapshotsInfo.take n).filter
      (fun entry => entry.2 ∉ written.surplus storingSnapshots) = [] := by
    rw [filter_eq_nil_iff]
    intro entry hentry
    simp only [decide_eq_true_eq, not_not]
    exact mem_map_of_mem hentry
  rw [← take_append_drop n written.snapshotsInfo, filter_append, hdropped, nil_append]
  refine Nat.le_trans (length_filter_le _ _) ?_
  rw [length_drop]
  omega

end Write

end SnapshotStore

/-! ## Runs -/

structure SnapshotCall where
  height : UInt32
  manifestId : Digest32
  manifestBytes : Bytes
  chunks : List (Digest32 × Bytes)
  storingSnapshots : UInt32

/-- The store, and which chunks belong to a snapshot by the last call that wrote it. -/
structure TrackedSnapshots where
  store : SnapshotStore
  belongs : Digest32 → List Digest32

namespace TrackedSnapshots

def empty : TrackedSnapshots := ⟨.empty, fun _ => []⟩

def written (t : TrackedSnapshots) (call : SnapshotCall) : SnapshotStore :=
  t.store.insertSnapshot call.height call.manifestId call.manifestBytes call.chunks

def step (t : TrackedSnapshots) (call : SnapshotCall) : TrackedSnapshots where
  store := t.store.writeSnapshot call.height call.manifestId call.manifestBytes call.chunks
    call.storingSnapshots
  belongs := Function.update t.belongs call.manifestId (call.chunks.map Prod.fst)

/-- Every listed snapshot can be served: its manifest is there, and so are its chunks. -/
def Served (t : TrackedSnapshots) : Prop :=
  ∀ entry ∈ t.store.snapshotsInfo, (t.store.getManifest entry.2).isSome ∧
    ∀ id ∈ t.belongs entry.2, (t.store.getChunk id).isSome

/-- No snapshot that the call prunes has a chunk of a snapshot that it keeps. -/
def PrunesApart (t : TrackedSnapshots) (call : SnapshotCall) : Prop :=
  ∀ pruned ∈ (t.written call).surplus call.storingSnapshots,
    ∀ entry ∈ (t.written call).snapshotsInfo,
      entry.2 ∉ (t.written call).surplus call.storingSnapshots →
        ∀ id ∈ (t.step call).belongs entry.2, id ∉ (t.step call).belongs pruned

/-- What holds in every state: the store notes the chunks of what it lists, and has the manifests. -/
structure Noted (t : TrackedSnapshots) : Prop where
  chunkIds_eq : ∀ entry ∈ t.store.snapshotsInfo, t.store.chunkIds entry.2 = t.belongs entry.2
  isSome_manifest : ∀ entry ∈ t.store.snapshotsInfo, (t.store.getManifest entry.2).isSome

lemma noted_empty : Noted empty := by
  refine ⟨?_, ?_⟩ <;> intro entry hentry <;> cases hentry

variable {t : TrackedSnapshots} {call : SnapshotCall}

lemma belongs_step (id : Digest32) :
    (t.step call).belongs id =
      if id = call.manifestId then call.chunks.map Prod.fst else t.belongs id :=
  update_apply t.belongs call.manifestId _ id

lemma mem_written (h : entry ∈ (t.written call).snapshotsInfo) :
    entry ∈ t.store.snapshotsInfo ∨ entry.2 = call.manifestId := by
  rcases SnapshotStore.mem_snapshotsInfo_insertSnapshot h with hold | rfl
  · exact .inl hold
  · exact .inr rfl

lemma Noted.written (h : t.Noted) (call : SnapshotCall) : Noted ⟨t.written call, (t.step call).belongs⟩ := by
  refine ⟨?_, ?_⟩ <;> intro entry hentry
  · show (t.written call).chunkIds entry.2 = (t.step call).belongs entry.2
    rw [TrackedSnapshots.written, SnapshotStore.chunkIds_insertSnapshot, belongs_step]
    split
    · rfl
    next hne =>
      exact h.chunkIds_eq entry ((mem_written hentry).resolve_right hne)
  · rw [TrackedSnapshots.written, SnapshotStore.isSome_manifests_insertSnapshot]
    rcases mem_written hentry with hold | hnew
    · exact .inr (h.isSome_manifest entry hold)
    · exact .inl hnew

lemma pruned_step (t : TrackedSnapshots) (call : SnapshotCall) :
    SnapshotStore.Pruned (t.written call) ((t.written call).surplus call.storingSnapshots)
      (t.step call).store :=
  SnapshotStore.pruned_foldl _ _

lemma mem_snapshotsInfo_step :
    entry ∈ (t.step call).store.snapshotsInfo ↔ entry ∈ (t.written call).snapshotsInfo ∧
      entry.2 ∉ (t.written call).surplus call.storingSnapshots := by
  rw [(pruned_step t call).snapshotsInfo_eq, mem_filter, decide_eq_true_eq]

lemma Noted.step (h : t.Noted) (call : SnapshotCall) : (t.step call).Noted := by
  have hwritten := h.written call
  refine ⟨?_, ?_⟩ <;> intro entry hentry <;> obtain ⟨hmem, hkept⟩ := mem_snapshotsInfo_step.1 hentry
  · rw [(pruned_step t call).chunkIds_eq, if_neg hkept]
    exact hwritten.chunkIds_eq entry hmem
  · rw [(pruned_step t call).getManifest_eq, if_neg hkept]
    exact hwritten.isSome_manifest entry hmem

lemma Served.written (h : t.Served) (hentry : entry ∈ (t.written call).snapshotsInfo) :
    ∀ id ∈ (t.step call).belongs entry.2, ((t.written call).getChunk id).isSome := by
  intro id hid
  rw [TrackedSnapshots.written, SnapshotStore.isSome_getChunk_insertSnapshot]
  rw [belongs_step] at hid
  split at hid
  · exact .inl hid
  next hne =>
    exact .inr ((h entry ((mem_written hentry).resolve_right hne)).2 id hid)

lemma exists_of_mem_surplus {pruned : Digest32}
    (h : pruned ∈ (t.written call).surplus call.storingSnapshots) :
    ∃ entry ∈ (t.written call).snapshotsInfo, entry.2 = pruned := by
  obtain ⟨entry, hentry, heq⟩ := mem_map.1 h
  exact ⟨entry, mem_of_mem_take hentry, heq⟩

lemma served_step_iff (hnoted : t.Noted) (h : t.Served) :
    (t.step call).Served ↔ t.PrunesApart call := by
  have hwritten := hnoted.written call
  have hids : ∀ pruned ∈ (t.written call).surplus call.storingSnapshots,
      (t.written call).chunkIds pruned = (t.step call).belongs pruned := by
    intro pruned hpruned
    obtain ⟨entry, hentry, rfl⟩ := exists_of_mem_surplus hpruned
    exact hwritten.chunkIds_eq entry hentry
  constructor
  · intro hserved pruned hpruned entry hentry hkept id hid hshared
    have hchunk := (hserved entry (mem_snapshotsInfo_step.2 ⟨hentry, hkept⟩)).2 id hid
    rw [(pruned_step t call).getChunk_eq, if_pos ⟨pruned, hpruned, hids pruned hpruned ▸ hshared⟩]
      at hchunk
    cases hchunk
  · intro hapart entry hentry
    obtain ⟨hmem, hkept⟩ := mem_snapshotsInfo_step.1 hentry
    refine ⟨(hnoted.step call).isSome_manifest entry hentry, fun id hid => ?_⟩
    rw [(pruned_step t call).getChunk_eq, if_neg]
    · exact h.written hmem id hid
    · rintro ⟨pruned, hpruned, hshared⟩
      exact hapart pruned hpruned entry hmem hkept id hid (hids pruned hpruned ▸ hshared)

lemma served_empty : Served empty := by
  intro entry hentry
  cases hentry

lemma served_run_from (hnoted : t.Noted) (h : t.Served) (calls : List SnapshotCall) :
    (∀ past, past <+: calls → (past.foldl step t).Served) ↔ MeetsAll step PrunesApart t calls := by
  induction calls generalizing t with
  | nil =>
    refine ⟨fun _ => trivial, fun _ past hpast => ?_⟩
    rwa [prefix_nil.1 hpast]
  | cons call calls ih =>
    constructor
    · intro hall
      have hfirst : (t.step call).Served := hall [call] (prefix_cons_inj call |>.2 nil_prefix)
      refine ⟨(served_step_iff hnoted h).1 hfirst, (ih (hnoted.step call) hfirst).1 ?_⟩
      exact fun past hpast => hall (call :: past) ((prefix_cons_inj call).2 hpast)
    · rintro ⟨hapart, hrest⟩ past hpast
      have hfirst := (served_step_iff hnoted h).2 hapart
      cases past with
      | nil => exact h
      | cons first past =>
        obtain ⟨rfl, htail⟩ := cons_prefix_cons.1 hpast
        exact (ih (hnoted.step first) hfirst).2 hrest past htail

/-- **What is listed can be served** in every state of a run from an empty store, if and only if no
call prunes a snapshot that shares a chunk with one it keeps. The list is within the limit in any
case. -/
theorem served_run_iff (calls : List SnapshotCall) :
    ((∀ past, past <+: calls → (past.foldl step empty).Served) ↔
        MeetsAll step PrunesApart empty calls) ∧
      ∀ past call, past ++ [call] <+: calls →
        ((past ++ [call]).foldl step empty).store.snapshotsInfo.length ≤
          call.storingSnapshots.toNat := by
  refine ⟨served_run_from noted_empty served_empty calls, fun past call _ => ?_⟩
  rw [foldl_append]
  exact SnapshotStore.length_snapshotsInfo_writeSnapshot

def repeatedLabel (byte : UInt8) : Digest32 := ⟨List.replicate 32 byte, List.length_replicate⟩

/-- **Two snapshots that share a subtree.** With one snapshot kept, the second write prunes the
first and the common chunk with it. -/
theorem not_served_of_shared_chunk :
    let common := (repeatedLabel 9, [9])
    let calls : List SnapshotCall :=
      [⟨51199, repeatedLabel 1, [1], [(repeatedLabel 3, [3]), common], 1⟩,
        ⟨102399, repeatedLabel 2, [2], [(repeatedLabel 4, [4]), common], 1⟩]
    let t := calls.foldl step empty
    t.store.snapshotsInfo = [(102399, repeatedLabel 2)] ∧
      t.store.getChunk (repeatedLabel 9) = none ∧ ¬t.Served := by
  intro common calls t
  have hinfo : t.store.snapshotsInfo = [(102399, repeatedLabel 2)] := by decide +kernel
  have hgone : t.store.getChunk (repeatedLabel 9) = none := by decide +kernel
  refine ⟨hinfo, hgone, fun hserved => ?_⟩
  have hentry : ((102399 : UInt32), repeatedLabel 2) ∈ t.store.snapshotsInfo := by
    rw [hinfo]
    exact mem_singleton_self _
  have hchunk := (hserved _ hentry).2 (repeatedLabel 9) (by decide +kernel)
  rw [hgone] at hchunk
  cases hchunk

end TrackedSnapshots

end ErgoNode
