import ErgoNode.Chain.Header

/-!
# Header ids for the sections gap

Before it fetches block sections, the fast-sync addon asks peers for the ids of the headers of a
range of heights, a chunk at a time. A peer that fails is not asked again. The endpoint of a peer
takes the height before the first header that is wanted, and the loop passes the first height of the
chunk, so the first header of every chunk is missing.
-/

namespace ErgoNode

structure FastsyncPeer where
  healthy : Bool
  requestCount : ℕ
  errors : ℕ
deriving DecidableEq, Repr

structure PeerPool where
  peers : List FastsyncPeer
  chunkSize : ℕ
deriving DecidableEq, Repr

namespace PeerPool

def healthyIndices (pool : PeerPool) : List ℕ :=
  (List.range pool.peers.length).filter fun i => (pool.peers[i]?).any (·.healthy)

def recordSuccess (pool : PeerPool) (i : ℕ) : PeerPool :=
  { pool with peers := pool.peers.modify i fun p => { p with requestCount := p.requestCount + 1 } }

def recordFailure (pool : PeerPool) (i : ℕ) : PeerPool :=
  { pool with
    peers := pool.peers.modify i fun p => { p with healthy := false, errors := p.errors + 1 } }

def refresh (pool : PeerPool) (added : ℕ) : PeerPool :=
  { pool with peers := pool.peers ++ List.replicate added ⟨true, 0, 0⟩ }

end PeerPool

/-- One turn of the loop: whether the request fails, and how many peers are found after it. -/
structure FetchTurn where
  fails : Bool
  added : ℕ
deriving DecidableEq, Repr

section Collect

variable (headers : ℕ → BlockId)

/-- What a peer answers: the canonical headers above `fromHeight`, up to `toHeight`. -/
def chainSlice (fromHeight toHeight : ℕ) : List (ℕ × BlockId) :=
  (List.range' (fromHeight + 1) (toHeight - fromHeight)).map fun h => (h, headers h)

/-- The loop, `none` while it still runs when the turns are over. -/
def collectHeaderIds (toHeight : ℕ) : List FetchTurn → PeerPool → (height : ℕ) →
    (ids : List (ℕ × BlockId)) → Option (Except String (List (ℕ × BlockId)))
  | [], _, height, ids => if height ≤ toHeight then none else some (.ok ids)
  | turn :: turns, pool, height, ids =>
    if height ≤ toHeight then
      let chunkTo := min (height + pool.chunkSize - 1) toHeight
      match pool.healthyIndices.head? with
      | none => some (.error "no healthy peers for header ID fetch")
      | some peerIdx =>
        if turn.fails then
          collectHeaderIds toHeight turns ((pool.recordFailure peerIdx).refresh turn.added)
            height ids
        else
          collectHeaderIds toHeight turns ((pool.recordSuccess peerIdx).refresh turn.added)
            (chunkTo + 1) (ids ++ chainSlice headers height chunkTo)
    else some (.ok ids)

def headerIdsForRange (pool : PeerPool) (turns : List FetchTurn) (fromHeight toHeight : ℕ) :
    Option (Except String (List (ℕ × BlockId))) :=
  collectHeaderIds headers toHeight turns pool fromHeight []

/-- The loop ends with one entry for every height of the range, in ascending order. -/
def CoversRange (fromHeight toHeight : ℕ) (r : Option (Except String (List (ℕ × BlockId)))) :
    Prop :=
  r = some (.ok ((List.range' fromHeight (toHeight + 1 - fromHeight)).map fun h => (h, headers h)))

variable {headers} {fromHeight toHeight : ℕ}

lemma lt_of_mem_chainSlice {entry : ℕ × BlockId}
    (h : entry ∈ chainSlice headers fromHeight toHeight) : fromHeight < entry.1 := by
  obtain ⟨height, hheight, rfl⟩ := List.mem_map.1 h
  exact (List.mem_range'_1.1 hheight).1

lemma lt_of_mem_collectHeaderIds {turns : List FetchTurn} {pool : PeerPool} {height : ℕ}
    {ids ids' : List (ℕ × BlockId)} (hheight : fromHeight ≤ height)
    (hids : ∀ entry ∈ ids, fromHeight < entry.1)
    (h : collectHeaderIds headers toHeight turns pool height ids = some (.ok ids')) :
    ∀ entry ∈ ids', fromHeight < entry.1 := by
  induction turns generalizing pool height ids with
  | nil =>
    rw [collectHeaderIds] at h
    split at h
    · cases h
    · cases h
      exact hids
  | cons turn turns ih =>
    rw [collectHeaderIds] at h
    split at h
    next hle =>
      dsimp only at h
      split at h
      · cases h
      · split at h
        · exact ih hheight hids h
        · refine ih ?_ ?_ h
          · omega
          · rw [List.forall_mem_append]
            exact ⟨hids, fun entry hmem => Nat.lt_of_le_of_lt hheight (lt_of_mem_chainSlice hmem)⟩
    next =>
      cases h
      exact hids

end Collect

end ErgoNode
