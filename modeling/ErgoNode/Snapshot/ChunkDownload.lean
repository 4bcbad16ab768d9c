import ErgoNode.Peers.Wire
import ErgoNode.Snapshot.Verify

/-!
# Downloading the chunks of a snapshot

The ids of the chunks are asked for from several peers in turn, a batch at a time. A chunk is stored
if its id is in flight and the chunk is verified against it; an id whose request was not sent, whose
chunk was rejected or whose time is up is asked for again. So each id is pending, in flight or
stored, and in one of the three only. Database calls are taken to succeed.
-/

namespace ErgoNode

open List

def chunksInParallel : ℕ := 16

def chunksPerPeer : ℕ := 4

abbrev ChunkStore := Digest32 → Option Bytes

structure ChunkQueue where
  pending : List Digest32
  /-- The ids that were asked for, with the time. -/
  inFlight : List (Digest32 × ℕ)
  /-- Who sent the last chunk for an id, if it was rejected. -/
  rejectedBy : Digest32 → Option PeerId

/-- `Vec::swap_remove`: the last element takes the place of the one that is removed. -/
def swapRemove (l : List Digest32) (i : ℕ) : List Digest32 :=
  match l.getLast? with
  | none => []
  | some last => l.dropLast.set i last

namespace ChunkQueue

def new (allSubtreeIds : List Digest32) (store : ChunkStore) : ChunkQueue :=
  ⟨allSubtreeIds.filter fun id => (store id).isNone, [], fun _ => none⟩

def isDone (q : ChunkQueue) : Bool := q.pending.isEmpty && q.inFlight.isEmpty

/-- The loop of `take_batch`, below index `i`: the batch, and what stays pending. -/
def takeBatchLoop (rejectedBy : Digest32 → Option PeerId) (peer : PeerId) (solePeer : Bool) :
    (i : ℕ) → (pending batch : List Digest32) → List Digest32 × List Digest32
  | 0, pending, batch => (batch, pending)
  | i + 1, pending, batch =>
    match pending[i]? with
    | none => (batch, pending)
    | some id =>
      if chunksPerPeer ≤ batch.length then (batch, pending)
      else if solePeer ∨ rejectedBy id ≠ some peer then
        takeBatchLoop rejectedBy peer solePeer i (swapRemove pending i) (batch ++ [id])
      else takeBatchLoop rejectedBy peer solePeer i pending batch

def takeBatch (q : ChunkQueue) (peer : PeerId) (solePeer : Bool) : List Digest32 × List Digest32 :=
  takeBatchLoop q.rejectedBy peer solePeer q.pending.length q.pending []

def sent (now : ℕ) (inFlight : List (Digest32 × ℕ)) (id : Digest32) : List (Digest32 × ℕ) :=
  (id, now) :: inFlight.filter (·.1 ≠ id)

/-- Ask a peer for a batch. The first `accepted` requests are sent, then one fails. The second
component says whether any was sent. -/
def ask (q : ChunkQueue) (peer : PeerId) (solePeer : Bool) (accepted now : ℕ) : ChunkQueue × Bool :=
  let (batch, pending) := q.takeBatch peer solePeer
  ({ q with
      pending := pending ++ batch.drop accepted
      inFlight := (batch.take accepted).foldl (sent now) q.inFlight }, batch.take accepted ≠ [])

def deliver (hash : Bytes → Digest32) (q : ChunkQueue) (peer : PeerId) (data : Bytes)
    (store : ChunkStore) : ChunkQueue × ChunkStore :=
  match parseNode hash data with
  | .error _ => (q, store)
  | .ok (root, _) =>
    let id := root.label
    if id ∉ q.inFlight.map Prod.fst then (q, store)
    else
      match verifyChunk hash data id with
      | .ok _ =>
        ({ q with inFlight := q.inFlight.filter (·.1 ≠ id) }, Function.update store id (some data))
      | .error _ =>
        (⟨q.pending ++ [id], q.inFlight.filter (·.1 ≠ id),
          Function.update q.rejectedBy id (some peer)⟩, store)

/-- Requests that are too old are pending again, in the order in which the map is iterated. -/
def requeueTimedOut (q : ChunkQueue) (chunkTimeout now : ℕ) (order : List Digest32) : ChunkQueue :=
  let timedOut := (q.inFlight.filter fun r => chunkTimeout < now - r.2).map Prod.fst
  { q with
    inFlight := q.inFlight.filter fun r => ¬chunkTimeout < now - r.2
    pending := q.pending ++ if order.Perm timedOut then order else timedOut }

end ChunkQueue

inductive ChunkDownloadError where
  | noPeers
  | streamClosed
deriving DecidableEq

inductive ChunkEvent where
  | chunk (peer : PeerId) (data : Bytes)
  /-- Another message, or none within a second. -/
  | other
  | closed

/-- What happens in a step: how many requests are sent, or what arrives. -/
structure ChunkEnv where
  accepted : ℕ := 0
  event : ChunkEvent := .other
  now : ℕ := 0
  order : List Digest32 := []

structure ChunkDownload where
  queue : ChunkQueue
  store : ChunkStore
  peerIdx : ℕ := 0
  idlePeers : ℕ := 0
  result : Option (Except ChunkDownloadError Unit) := none

namespace ChunkDownload

/-- The checks before the requests of a round. -/
def beginRound (peers : List PeerId) (s : ChunkDownload) : ChunkDownload :=
  if s.queue.isDone then { s with result := some (.ok ()) }
  else if s.queue.pending ≠ [] ∧ peers = [] then { s with result := some (.error .noPeers) }
  else { s with idlePeers := 0 }

def start (allSubtreeIds : List Digest32) (store : ChunkStore) (peers : List PeerId) :
    ChunkDownload :=
  beginRound peers { queue := .new allSubtreeIds store, store := store }

/-- A step of `download_chunks`: ask one peer, or wait for an event. -/
def step (hash : Bytes → Digest32) (peers : List PeerId) (chunkTimeout : ℕ) (s : ChunkDownload)
    (env : ChunkEnv) : ChunkDownload :=
  if s.result.isSome then s
  else if s.queue.inFlight.length < chunksInParallel ∧ s.queue.pending ≠ [] ∧
      s.idlePeers < peers.length then
    let peer := peers.getD (s.peerIdx % peers.length) 0
    let (queue, sentAny) := s.queue.ask peer (peers.length = 1) env.accepted env.now
    { s with
      queue := queue
      peerIdx := s.peerIdx + 1
      idlePeers := if sentAny then 0 else s.idlePeers + 1 }
  else
    match env.event with
    | .closed => { s with result := some (.error .streamClosed) }
    | .chunk peer data =>
      let (queue, store) := s.queue.deliver hash peer data s.store
      beginRound peers
        { s with queue := queue.requeueTimedOut chunkTimeout env.now env.order, store := store }
    | .other =>
      beginRound peers { s with queue := s.queue.requeueTimedOut chunkTimeout env.now env.order }

end ChunkDownload

/-! ## Where the ids are -/

def VerifiedChunks (hash : Bytes → Digest32) (store : ChunkStore) : Prop :=
  ∀ id data, store id = some data → ∃ tree, verifyChunk hash data id = .ok tree

/-- Each id is in one place, stored chunks are verified, and few are in flight. -/
structure ChunkQueue.Placed (hash : Bytes → Digest32) (allSubtreeIds : List Digest32)
    (q : ChunkQueue) (store : ChunkStore) : Prop where
  verified : VerifiedChunks hash store
  places : ∀ id ∈ allSubtreeIds, q.pending.count id + (q.inFlight.map Prod.fst).count id +
    (store id).toList.length = 1
  few : q.inFlight.length < chunksInParallel + chunksPerPeer

lemma count_swapRemove {l : List Digest32} {i : ℕ} {x : Digest32} (h : l[i]? = some x)
    (id : Digest32) : (swapRemove l i).count id + [x].count id = l.count id := by
  obtain ⟨init, last, rfl⟩ := (eq_nil_or_concat' l).resolve_left (by rintro rfl; cases h)
  rw [swapRemove, getLast?_concat]
  dsimp only
  rw [dropLast_concat, count_append]
  by_cases hi : i < init.length
  · rw [getElem?_append_left hi, getElem?_eq_getElem hi] at h
    obtain rfl := Option.some.inj h
    obtain ⟨before, after, hinit, -, hset⟩ := exists_of_set hi
    rw [hset]
    conv_rhs => rw [hinit]
    simp only [count_append, count_cons, count_nil]
    omega
  · rw [getElem?_append_right (Nat.not_lt.1 hi)] at h
    have hx := mem_singleton.1 (mem_of_getElem? h)
    rw [set_eq_of_length_le (Nat.not_lt.1 hi), hx]

namespace ChunkQueue

variable {id : Digest32} {inFlight : List (Digest32 × ℕ)}

lemma takeBatchLoop_spec (rejectedBy : Digest32 → Option PeerId) (peer : PeerId) (solePeer : Bool)
    {i : ℕ} {pending batch : List Digest32} (hbatch : batch.length ≤ chunksPerPeer) :
    (takeBatchLoop rejectedBy peer solePeer i pending batch).1.length ≤ chunksPerPeer ∧
      ∀ id, (takeBatchLoop rejectedBy peer solePeer i pending batch).1.count id +
        (takeBatchLoop rejectedBy peer solePeer i pending batch).2.count id =
          batch.count id + pending.count id := by
  fun_induction takeBatchLoop with
  | case1 | case2 | case3 => exact ⟨hbatch, fun id => rfl⟩
  | case4 i pending batch x hx hroom _ ih =>
    have hlen : (batch ++ [x]).length ≤ chunksPerPeer := by
      rw [length_append]
      exact Nat.not_le.1 hroom
    refine ⟨(ih hlen).1, fun id => ?_⟩
    have hcount := count_swapRemove hx id
    rw [(ih hlen).2 id, count_append]
    omega
  | case5 i pending batch x _ _ _ ih => exact ih hbatch

lemma count_remove (x : Digest32) : ((inFlight.filter (·.1 ≠ x)).map Prod.fst).count id =
    if x = id then 0 else (inFlight.map Prod.fst).count id := by
  have hmap : (inFlight.filter (·.1 ≠ x)).map Prod.fst =
      (inFlight.map Prod.fst).filter (· ≠ x) := by
    rw [filter_map]
    rfl
  rw [hmap]
  split
  next heq => exact count_eq_zero.2 (by simp [heq])
  next hne => exact count_filter (by simpa using Ne.symm hne)

lemma count_foldl_sent (now : ℕ) {ids : List Digest32}
    (h : ids.count id + (inFlight.map Prod.fst).count id ≤ 1) :
    ((ids.foldl (sent now) inFlight).map Prod.fst).count id =
      ids.count id + (inFlight.map Prod.fst).count id := by
  induction ids generalizing inFlight with
  | nil => simp
  | cons x ids ih =>
    have hsent : ((sent now inFlight x).map Prod.fst).count id =
        [x].count id + (inFlight.map Prod.fst).count id := by
      rw [sent, map_cons, count_cons, count_remove]
      rw [count_cons] at h
      simp only [count_cons, count_nil, beq_iff_eq] at h ⊢
      split_ifs at h ⊢ <;> omega
    rw [foldl_cons, ih]
    all_goals
      rw [hsent]
      simp only [count_cons, count_nil] at h ⊢
      omega

lemma length_foldl_sent (now : ℕ) (ids : List Digest32) :
    (ids.foldl (sent now) inFlight).length ≤ inFlight.length + ids.length := by
  induction ids generalizing inFlight with
  | nil => exact Nat.le_refl _
  | cons x ids ih =>
    have hsent : (sent now inFlight x).length ≤ inFlight.length + 1 :=
      Nat.succ_le_succ (length_filter_le _ _)
    have hrest := @ih (sent now inFlight x)
    rw [foldl_cons, length_cons]
    omega

namespace Placed

variable {hash : Bytes → Digest32} {allSubtreeIds : List Digest32} {q : ChunkQueue}
  {store : ChunkStore}

lemma ask (h : q.Placed hash allSubtreeIds store) (hfew : q.inFlight.length < chunksInParallel)
    (peer : PeerId) (solePeer : Bool) (accepted now : ℕ) :
    (q.ask peer solePeer accepted now).1.Placed hash allSubtreeIds store := by
  obtain ⟨hlen, hbatch⟩ := @takeBatchLoop_spec q.rejectedBy peer solePeer q.pending.length q.pending
    [] (Nat.zero_le _)
  refine ⟨h.verified, fun id hid => ?_, ?_⟩ <;> simp only [ChunkQueue.ask, takeBatch]
  · have hplaces := h.places id hid
    have hsplit := congrArg (count id) (take_append_drop accepted (takeBatchLoop
      q.rejectedBy peer solePeer q.pending.length q.pending []).1)
    have hcount := hbatch id
    rw [count_append] at hsplit
    rw [count_nil, Nat.zero_add] at hcount
    rw [count_foldl_sent now (by omega), count_append]
    omega
  · have hsent := @length_foldl_sent q.inFlight now ((takeBatchLoop
      q.rejectedBy peer solePeer q.pending.length q.pending []).1.take accepted)
    rw [length_take] at hsent
    omega

lemma deliver (h : q.Placed hash allSubtreeIds store) (peer : PeerId) (data : Bytes) :
    (q.deliver hash peer data store).1.Placed hash allSubtreeIds
      (q.deliver hash peer data store).2 := by
  rw [ChunkQueue.deliver]
  split
  · exact h
  next root _ _ =>
    by_cases hmem : root.label ∈ q.inFlight.map Prod.fst
    · have hpos := count_pos_iff.2 hmem
      have hfew := (length_filter_le (fun r => decide (r.1 ≠ root.label)) q.inFlight).trans_lt h.few
      rw [if_neg (not_not.2 hmem)]
      split
      next tree htree =>
        refine ⟨fun id data' hdata => ?_, fun id hid => ?_, hfew⟩
        · dsimp only at hdata
          rw [Function.update_apply] at hdata
          split at hdata
          next hid => exact hid ▸ Option.some.inj hdata ▸ ⟨tree, htree⟩
          · exact h.verified id data' hdata
        · have hplaces := h.places id hid
          rw [count_remove]
          by_cases heq : root.label = id
          · rw [heq] at hpos
            simp only [heq, if_true, Function.update_self, Option.toList_some, length_singleton]
            omega
          · simpa only [if_neg heq, Function.update_of_ne (Ne.symm heq)] using hplaces
      · refine ⟨h.verified, fun id hid => ?_, hfew⟩
        have hplaces := h.places id hid
        rw [count_remove, count_append]
        by_cases heq : root.label = id
        · rw [heq] at hpos
          simp only [heq, if_true, count_singleton_self]
          omega
        · have hnot : [root.label].count id = 0 := count_eq_zero.2 (by simpa using Ne.symm heq)
          simpa only [if_neg heq, hnot, Nat.add_zero] using hplaces
    · rwa [if_pos hmem]

lemma requeueTimedOut (h : q.Placed hash allSubtreeIds store) (chunkTimeout now : ℕ)
    (order : List Digest32) :
    (q.requeueTimedOut chunkTimeout now order).Placed hash allSubtreeIds store := by
  refine ⟨h.verified, fun id hid => ?_, (length_filter_le _ _).trans_lt h.few⟩
  have hplaces := h.places id hid
  have hsplit := ((filter_append_perm (fun r => decide (chunkTimeout < now - r.2))
    q.inFlight).map Prod.fst).count_eq id
  rw [map_append, count_append] at hsplit
  have horder : ∀ ids : List Digest32, (if order.Perm ids then order else ids).count id =
      ids.count id := fun ids => by
    split
    next hperm => exact hperm.count_eq id
    · rfl
  simp only [ChunkQueue.requeueTimedOut, count_append, horder, decide_not]
  omega

end Placed

end ChunkQueue

namespace ChunkDownload

variable {hash : Bytes → Digest32} {allSubtreeIds : List Digest32} {peers : List PeerId}

def Placed (hash : Bytes → Digest32) (allSubtreeIds : List Digest32) (s : ChunkDownload) : Prop :=
  s.queue.Placed hash allSubtreeIds s.store ∧ (s.result = some (.ok ()) → s.queue.isDone)

lemma placed_beginRound {s : ChunkDownload} (h : s.queue.Placed hash allSubtreeIds s.store)
    (hresult : s.result = none) : (beginRound peers s).Placed hash allSubtreeIds := by
  rw [beginRound]
  split_ifs with hdone
  · exact ⟨h, fun _ => hdone⟩
  · exact ⟨h, by simp⟩
  · exact ⟨h, by simp [hresult]⟩

lemma Placed.step {s : ChunkDownload} (h : s.Placed hash allSubtreeIds) (chunkTimeout : ℕ)
    (env : ChunkEnv) : (step hash peers chunkTimeout s env).Placed hash allSubtreeIds := by
  rw [ChunkDownload.step]
  split_ifs with hresult hroom
  · exact h
  · exact ⟨h.1.ask hroom.1 .., fun hok => absurd (by rw [hok]; rfl) hresult⟩
  · have hresult := Option.not_isSome_iff_eq_none.1 hresult
    split
    · exact ⟨h.1, by simp⟩
    next peer data _ =>
      exact placed_beginRound ((h.1.deliver peer data).requeueTimedOut ..) hresult
    · exact placed_beginRound (h.1.requeueTimedOut ..) hresult

/-- **The chunks of a snapshot.** In every state of a download each id is in one place, the stored
chunks are verified, and few are in flight. It ends well only with all chunks. -/
theorem download_placed (hash : Bytes → Digest32) {allSubtreeIds : List Digest32}
    (hids : allSubtreeIds.Nodup) {store : ChunkStore} (hstore : VerifiedChunks hash store)
    (peers : List PeerId) (chunkTimeout : ℕ) (envs : List ChunkEnv) (s : ChunkDownload)
    (hs : envs.foldl (step hash peers chunkTimeout) (start allSubtreeIds store peers) = s) :
    s.queue.Placed hash allSubtreeIds s.store ∧
      (s.result = some (.ok ()) → ∀ id ∈ allSubtreeIds, (s.store id).isSome) := by
  have hstart : (start allSubtreeIds store peers).Placed hash allSubtreeIds := by
    refine placed_beginRound ⟨hstore, fun id hid => ?_, by simp [ChunkQueue.new]; decide⟩ rfl
    have hcount := count_eq_one_of_mem hids hid
    cases hdata : store id with
    | none => simpa [ChunkQueue.new, count_filter, hdata] using hcount
    | some data => simp [ChunkQueue.new, count_eq_zero, hdata]
  have h : s.Placed hash allSubtreeIds :=
    hs ▸ foldlRecOn envs _ hstart fun _ h env _ => h.step chunkTimeout env
  refine ⟨h.1, fun hok id hid => ?_⟩
  have hplaces := h.1.places id hid
  have hdone := h.2 hok
  simp only [ChunkQueue.isDone, Bool.and_eq_true, List.isEmpty_iff] at hdone
  rw [hdone.1, hdone.2] at hplaces
  cases hdata : s.store id with
  | none => simp [hdata] at hplaces
  | some data => rfl

theorem download_placed_one : ∃ s : ChunkDownload, s.result = some (.ok ()) ∧
    (s.store (twoLeaves.label firstBytes)).isSome := by
  let data := (twoLeaves.nodes firstBytes).flatMap AvlNode.pack
  refine ⟨_, ?_, (download_placed firstBytes (nodup_singleton (twoLeaves.label firstBytes))
    (show VerifiedChunks firstBytes fun _ => none by simp [VerifiedChunks]) [1] 10
    [{ accepted := 1 }, { event := .chunk 1 data }] _ rfl).2 ?_ _ mem_cons_self⟩ <;>
  decide +kernel

/-- **A download that ends well can be assembled**, whatever the peers sent. -/
theorem assembles_of_download {bytes : Bytes} {root : Digest32} {rootHeight : UInt8}
    {manifest : VerifiedManifest} {s s' : ChunkDownload}
    (hmanifest : verifyManifest hash bytes (.of root rootHeight) = .ok manifest)
    (hs : s.Placed hash manifest.subtreeIds) (peers : List PeerId) (chunkTimeout : ℕ)
    (envs : List ChunkEnv) (hs' : envs.foldl (step hash peers chunkTimeout) s = s')
    (hok : s'.result = some (.ok ())) (snapshotHeight : UInt32) :
    ∃ data, assembleSnapshot hash manifest s'.store snapshotHeight = .ok data := by
  obtain ⟨depth, nodes, ids, -, hstreamed, rfl, rfl⟩ := verifyManifest_eq_ok_iff.1 hmanifest
  have h : s'.Placed hash ids :=
    hs' ▸ foldlRecOn envs _ hs fun _ h env _ => h.step chunkTimeout env
  have hdone := h.2 hok
  simp only [ChunkQueue.isDone, Bool.and_eq_true, List.isEmpty_iff] at hdone
  have hchunk : ∀ id ∈ ids, ∃ chunk, Streamed hash none 1 id chunk [] ∧
      s'.store id = some (chunk.flatMap AvlNode.pack) := by
    intro id hid
    have hplaces := h.1.places id hid
    rw [hdone.1, hdone.2] at hplaces
    obtain ⟨data, hdata⟩ := Option.isSome_iff_exists.1 (by simpa using hplaces)
    obtain ⟨tree, htree⟩ := h.1.verified id data hdata
    obtain ⟨chunk, ids', hchunk, rfl, -⟩ := walkTree_eq_ok_iff.1 htree
    obtain rfl := hchunk.ids_eq_nil
    exact ⟨chunk, hchunk, hdata⟩
  choose! chunkOf hchunkOf using hchunk
  exact ⟨_, (assembleSnapshot_eq_ok_iff hstreamed).2 ⟨ids.map chunkOf,
    forall₂_map_right_iff.2 (forall₂_same.2 hchunkOf), rfl⟩⟩

theorem assembles_of_download_twoLeaves : ∃ (manifest : VerifiedManifest) (s : ChunkDownload),
    manifest.subtreeIds.length = 2 ∧ s.result = some (.ok ()) ∧
      ∃ data, assembleSnapshot firstBytes manifest s.store 0 = .ok data := by
  let leaf (key : UInt8) := AvlNode.leaf (firstBytes [key]) (oneByte key) (firstBytes [9])
  let ids := [(leaf 1).label firstBytes, (leaf 2).label firstBytes]
  have hstart : (start ids (fun _ => none) [1]).Placed firstBytes ids :=
    placed_beginRound ⟨nofun, by decide +kernel, by decide +kernel⟩ rfl
  have hmanifest : verifyManifest firstBytes _ (.of _ 1) = _ := verifyManifest_eq_ok_iff.2
    ⟨1, _, ids, by decide, .cut rfl 0 (firstBytes [2]) _ _, rfl, rfl⟩
  refine ⟨_, _, rfl, ?_, assembles_of_download hmanifest hstart [1] 10 [{ accepted := 2 },
    { event := .chunk 1 (leaf 1).pack }, { event := .chunk 1 (leaf 2).pack }] rfl ?_ 0⟩ <;>
  decide +kernel

end ChunkDownload

end ErgoNode
