import ErgoNode.Library.Call
import ErgoNode.Library.LazyCache
import ErgoNode.Library.Table
import ErgoNode.Chain.HeaderChain

/-!
# The header chain with its caches

The chain as the source keeps it: a base height, a map from id to height, and two bounded caches of
headers and scores, each in front of a loader that reads the store. `HeaderChain` is this chain with
every read resolved; here a read may miss, or find a header that the chain did not accept. An error
does not undo what was done before it. Debug assertions are left out.
-/

namespace ErgoNode

def defaultCacheCapacity : ℕ := 16384

/-- The caches of headers and of cumulative scores, by height. -/
structure LazyHeaderStore where
  headers : LazyCache ℕ Header
  scores : LazyCache ℕ ℕ

namespace LazyHeaderStore

def withCapacity (capacity : ℕ) (h : 0 < capacity) : LazyHeaderStore where
  headers := ⟨.empty capacity h, none⟩
  scores := ⟨.empty capacity h, none⟩

def getHeader (l : LazyHeaderStore) (height : ℕ) : Option Header × LazyHeaderStore :=
  ((l.headers.get height).1, { l with headers := (l.headers.get height).2 })

def getScore (l : LazyHeaderStore) (height : ℕ) : Option ℕ × LazyHeaderStore :=
  ((l.scores.get height).1, { l with scores := (l.scores.get height).2 })

def put (l : LazyHeaderStore) (height : ℕ) (header : Header) (score : ℕ) : LazyHeaderStore where
  headers := l.headers.put height header
  scores := l.scores.put height score

def evict (l : LazyHeaderStore) (height : ℕ) : LazyHeaderStore where
  headers := l.headers.evict height
  scores := l.scores.evict height

def clear (l : LazyHeaderStore) : LazyHeaderStore where
  headers := l.headers.clear
  scores := l.scores.clear

def resize (l : LazyHeaderStore) (capacity : ℕ) (h : 0 < capacity) : LazyHeaderStore where
  headers := l.headers.resize capacity h
  scores := l.scores.resize capacity h

end LazyHeaderStore

/-- The rules, with the heights that the difficulty of the child of a header is calculated from. -/
structure CachedRules extends HeaderRules where
  /-- Heights read for the child of a header, in reading order. -/
  difficultyHeights : ChainConfig → Header → List ℕ

structure CachedChain where
  config : ChainConfig
  baseHeight : Option ℕ
  byId : Table ℕ
  activeParameters : Parameters
  lightClientMode : Bool
  lazy : LazyHeaderStore

structure InstalledHeader where
  id : BlockId
  height : ℕ
  /-- Cumulative score from the installed head on. -/
  score : ℕ
deriving DecidableEq, Repr

namespace CachedChain

/-! ## Reads -/

def new (config : ChainConfig) : CachedChain where
  config := config
  baseHeight := none
  byId := ∅
  activeParameters := defaultParameters config.network
  lightClientMode := false
  lazy := .withCapacity defaultCacheCapacity (by decide)

def height (c : CachedChain) : ℕ :=
  match c.baseHeight with
  | some base => if c.byId.size = 0 then 0 else base + c.byId.size - 1
  | none => 0

def heightOf (c : CachedChain) (id : BlockId) : Option ℕ := c.byId[id]?

def contains (c : CachedChain) (id : BlockId) : Bool := (c.byId[id]?).isSome

def reorgFloor (c : CachedChain) : ℕ := c.baseHeight.getD 1

/-- The header at a height. A header that the chain did not accept at this height is not
returned. -/
def headerAt (c : CachedChain) (h : ℕ) : Option Header × CachedChain :=
  match c.baseHeight with
  | none => (none, c)
  | some base =>
    if h < base ∨ c.height < h then (none, c)
    else
      let (found, lazy) := c.lazy.getHeader h
      match found with
      | none => (none, { c with lazy := lazy })
      | some header =>
        if c.byId[header.id]? = some h then (some header, { c with lazy := lazy })
        else (none, { c with lazy := lazy })

def scoreAt (c : CachedChain) (h : ℕ) : Option ℕ × CachedChain :=
  match c.baseHeight with
  | none => (none, c)
  | some base =>
    if h < base ∨ c.height < h then (none, c)
    else
      let (found, lazy) := c.lazy.getScore h
      (found, { c with lazy := lazy })

def readHeaders : List ℕ → CachedChain → List (ℕ × Option Header) × CachedChain
  | [], c => ([], c)
  | h :: hs, c =>
    let (header, c') := c.headerAt h
    let (rest, c'') := readHeaders hs c'
    ((h, header) :: rest, c'')

def settings (c : CachedChain) : HeaderChain where
  config := c.config
  entries := []
  activeParameters := c.activeParameters
  activeProposedUpdateBytes := []
  lightClientMode := c.lightClientMode

abbrev ChainCall := Call ChainError CachedChain

def tip : ChainCall Header := do
  match ← Call.read (fun c => c.headerAt c.height) with
  | some header => pure header
  | none => .crash

/-! ## Header checks -/

section Checks

variable (rules : CachedRules)

/-- Compact difficulty required of the child of a header. Heights that cannot be resolved are left
out of the calculation. -/
def expectedDifficulty (tip : Header) : ChainCall ℕ := do
  let c ← .state
  let found ← .read (readHeaders (rules.difficultyHeights c.config tip))
  .ofExcept ((rules.expectedDifficulty c.config (fun h => (found.lookup h).join) tip).mapError
    .difficultyCalc)

def checkDifficulty (tip header : Header) : ChainCall Unit := do
  let expected ← expectedDifficulty rules tip
  .ofExcept (require (header.nBits = expected) (.wrongDifficulty header.height expected header.nBits))

/-- The difficulty check of a child. A light chain lacks the ancestors the calculation needs. -/
def checkChildDifficulty (tip header : Header) : ChainCall Unit := do
  let c ← .state
  if c.lightClientMode then pure () else checkDifficulty rules tip header

def validateChild (now : ℕ) (header : Header) : ChainCall Unit := do
  let tip ← tip
  let c ← .state
  .ofExcept (require (header.parentId = tip.id) (.parentNotFound header.parentId))
  .ofExcept (require (header.height = tip.height + 1)
    (.nonSequentialHeight (tip.height + 1) header.height))
  .ofExcept (c.settings.checkTimestamp now tip header)
  checkChildDifficulty rules tip header
  .ofExcept (HeaderChain.checkPow rules.toHeaderRules header)
  .ofExcept (checkHeaderVotes header.votes)
  .ofExcept (c.settings.checkForkVoteGate header)

def validateReorgHeader (now : ℕ) (header : Header) : ChainCall Unit := do
  let tip ← tip
  let c ← .state
  .ofExcept (c.settings.checkTimestamp now tip header)
  checkDifficulty rules tip header
  .ofExcept (HeaderChain.checkPow rules.toHeaderRules header)
  .ofExcept (checkHeaderVotes header.votes)
  .ofExcept (c.settings.checkForkVoteGate header)

/-! ## Changes at the tip -/

/-- The score a header builds on: 0 for the first one. Panics when it cannot be resolved. -/
def parentScore (header : Header) : ChainCall ℕ := do
  let c ← .state
  match c.baseHeight with
  | none => pure 0
  | some _ =>
    match ← Call.read (fun c => c.scoreAt (header.height - 1)) with
    | some score => pure score
    | none => .crash

def addHeader (c : CachedChain) (header : Header) (score : ℕ) : CachedChain :=
  { c with
    baseHeight := some (c.baseHeight.getD header.height)
    byId := c.byId.insert header.id header.height
    lazy := c.lazy.put header.height header score }

def pushHeader (header : Header) : ChainCall Unit := do
  let score ← parentScore header
  .modify (fun c => c.addHeader header (score + rules.headerDifficulty header))

def removeHeader (c : CachedChain) (id : BlockId) (height : ℕ) : CachedChain :=
  { c with
    baseHeight := if (c.byId.erase id).size = 0 then none else c.baseHeight
    byId := c.byId.erase id
    lazy := c.lazy.evict height }

/-- Pop the tip with its score, which counts as 0 when it cannot be resolved. Panics when the tip
cannot be resolved. -/
def popHeader : ChainCall (Option (Header × ℕ)) := do
  let c ← .state
  if c.byId.size = 0 then pure none
  else
    match ← Call.read (fun c => c.headerAt c.height) with
    | none => .crash
    | some header =>
      let score ← Call.read (fun c => c.scoreAt c.height)
      .modify (fun c => c.removeHeader header.id c.height)
      pure (some (header, score.getD 0))

/-! ## Appending -/

def tryAppend (now : ℕ) (header : Header) : ChainCall AppendResult := do
  let c ← .state
  if c.byId.size = 0 then
    .ofExcept (HeaderChain.validateGenesis rules.toHeaderRules c.settings header)
    pushHeader rules header
    pure .extended
  else
    let tip ← tip
    if header.parentId = tip.id then
      validateChild rules now header
      pushHeader rules header
      pure .extended
    else
      match c.byId[header.parentId]? with
      | some parentHeight =>
        .ofExcept (require (header.height = parentHeight + 1)
          (.nonSequentialHeight (parentHeight + 1) header.height))
        pure (.forked parentHeight)
      | none => .throw (.parentNotFound header.parentId)

/-! ## Reorganising -/

/-- Replace the tip by a sibling with a child. Returns the id of the replaced tip. -/
def tryReorg (now : ℕ) (alternativeTip continuation : Header) : ChainCall BlockId := do
  let c ← .state
  .ofExcept (require (2 ≤ c.byId.size)
    (.reorg "chain too short for reorg (need at least 2 headers)"))
  let tip ← tip
  .ofExcept (require (alternativeTip.height = c.height)
    (.reorg s!"alternative height {alternativeTip.height} != tip height {c.height}"))
  .ofExcept (require (alternativeTip.parentId = tip.parentId)
    (.reorg "alternative parent doesn't match tip's parent"))
  .ofExcept (require (continuation.parentId = alternativeTip.id)
    (.reorg "continuation doesn't build on alternative"))
  .ofExcept (require (continuation.height = alternativeTip.height + 1)
    (.nonSequentialHeight (alternativeTip.height + 1) continuation.height))
  match ← popHeader with
  | none => .crash
  | some (oldTip, oldScore) =>
    match ← Call.attempt (validateReorgHeader rules now alternativeTip) with
    | .error e =>
      .modify (fun c => c.addHeader oldTip oldScore)
      .throw e
    | .ok _ =>
      pushHeader rules alternativeTip
      match ← Call.attempt (validateReorgHeader rules now continuation) with
      | .error e =>
        match ← popHeader with
        | none => .crash
        | some _ =>
          .modify (fun c => c.addHeader oldTip oldScore)
          .throw e
      | .ok _ =>
        pushHeader rules continuation
        pure oldTip.id

def saveHeights : List ℕ → ChainCall (List (Header × ℕ))
  | [] => pure []
  | h :: hs => do
    match ← Call.read (fun c => c.headerAt h) with
    | none => .throw (.reorg s!"header at height {h} unavailable for reorg drain")
    | some header =>
      match ← Call.read (fun c => c.scoreAt h) with
      | none => .throw (.reorg s!"score at height {h} unavailable for reorg drain")
      | some score =>
        let rest ← saveHeights hs
        pure ((header, score) :: rest)

/-- Take saved headers off the chain. The fork point stays, so the chain does not become empty. -/
def dropSaved (c : CachedChain) (saved : List (Header × ℕ)) : CachedChain :=
  saved.foldl (fun c e =>
    { c with byId := c.byId.erase e.1.id, lazy := c.lazy.evict e.1.height }) c

def putSaved (c : CachedChain) (saved : List (Header × ℕ)) : CachedChain :=
  saved.foldl (fun c e =>
    { c with
      byId := c.byId.insert e.1.id e.1.height
      lazy := c.lazy.put e.1.height e.1 e.2 }) c

/-- Whether a header of a branch names the current tip; the first one was checked before. -/
def linksToTip (i : ℕ) (header : Header) : ChainCall Bool :=
  if i = 0 then pure true
  else do
    let tip ← tip
    pure (decide (header.parentId = tip.id))

/-- Validate and push the headers of a branch, `i` counting from the fork point. The result is the
error that stopped it. -/
def appendBranch (now forkPointHeight : ℕ) : ℕ → List Header → ChainCall (Option ChainError)
  | _, [] => pure none
  | i, header :: rest => do
    let links ← linksToTip i header
    if links = false then pure (some (.parentNotFound header.parentId))
    else if header.height ≠ forkPointHeight + 1 + i then
      pure (some (.nonSequentialHeight (forkPointHeight + 1 + i) header.height))
    else
      match ← Call.attempt (validateReorgHeader rules now header) with
      | .error e => pure (some e)
      | .ok _ =>
        pushHeader rules header
        appendBranch now forkPointHeight (i + 1) rest

/-- Pop headers while the tip is above a height. Each round takes one header off, so their number
bounds the rounds. -/
def popTo (forkPointHeight : ℕ) : (fuel : ℕ) → ChainCall Unit
  | 0 => pure ()
  | fuel + 1 => do
    let c ← .state
    if c.height ≤ forkPointHeight then pure ()
    else
      let _ ← popHeader
      popTo forkPointHeight fuel

/-- Replace everything above `forkPointHeight` by `newBranch`. Returns the ids of the headers that
left the chain. -/
def tryReorgDeep (now forkPointHeight : ℕ) (newBranch : List Header) :
    ChainCall (List BlockId) := do
  match newBranch with
  | [] => .throw (.reorg "new branch is empty")
  | first :: _ =>
    let c ← .state
    .ofExcept (require (c.byId.size ≠ 0) (.reorg "chain is empty"))
    .ofExcept (require (c.reorgFloor ≤ forkPointHeight)
      (.reorg s!"fork point height {forkPointHeight} below reorg floor {c.reorgFloor}"))
    .ofExcept (require (forkPointHeight ≤ c.height)
      (.reorg s!"fork point height {forkPointHeight} not in chain"))
    match ← Call.read (fun c => c.headerAt forkPointHeight) with
    | none => .throw (.reorg (s!"fork-point header at {forkPointHeight} unavailable " ++
        "(cache evicted with no loader wired, or store/chain divergence)"))
    | some forkPoint =>
      .ofExcept (require (first.parentId = forkPoint.id)
        (.reorg "first header in branch doesn't connect to fork point"))
      let saved ← saveHeights (List.range' (forkPointHeight + 1) (c.height - forkPointHeight))
      .modify (fun c => c.dropSaved saved)
      match ← appendBranch rules now forkPointHeight 0 newBranch with
      | none => pure (saved.map (·.1.id))
      | some e =>
        let pushed ← .state
        popTo forkPointHeight pushed.byId.size
        .modify (fun c => c.putSaved saved)
        .throw e

/-! ## Installing from a proof -/

def rollbackInstall (c : CachedChain) : CachedChain :=
  { c with baseHeight := none, byId := ∅, lightClientMode := false, lazy := c.lazy.clear }

/-- Put the head of a proof's suffix on the empty chain, with score 0. -/
def installHead (c : CachedChain) (head : Header) : CachedChain :=
  { c with
    baseHeight := some head.height
    byId := c.byId.insert head.id head.height
    lightClientMode := true
    lazy := c.lazy.put head.height head 0 }

def failInstall (e : ChainError) : ChainCall (List InstalledHeader) := do
  .modify rollbackInstall
  .throw e

def installTail : List Header → ChainCall (List InstalledHeader)
  | [] => pure []
  | header :: rest => do
    let tip ← tip
    if header.parentId ≠ tip.id then failInstall (.parentNotFound header.parentId)
    else if header.height ≠ tip.height + 1 then
      failInstall (.nonSequentialHeight (tip.height + 1) header.height)
    else
      match HeaderChain.checkPow rules.toHeaderRules header with
      | .error e => failInstall e
      | .ok _ =>
        pushHeader rules header
        match ← Call.read (fun c => c.scoreAt header.height) with
        | none => .crash
        | some score =>
          let installed ← installTail rest
          pure (⟨header.id, header.height, score⟩ :: installed)

def installFromNipopowProof (suffixHead : Header) (suffixTail : List Header) :
    ChainCall (List InstalledHeader) := do
  let c ← .state
  .ofExcept (require (c.byId.size = 0) .chainNotEmpty)
  .ofExcept (HeaderChain.checkPow rules.toHeaderRules suffixHead)
  .modify (fun c => c.installHead suffixHead)
  let installed ← installTail rules suffixTail
  pure (⟨suffixHead.id, suffixHead.height, 0⟩ :: installed)

end Checks

/-! ## Verifying and restoring -/

/-- Resolve a header for the linkage walk, and check that it is filed where it belongs. -/
def loadForLinkageWalk (h : ℕ) : ChainCall Header := do
  let c ← .state
  match ← Call.read (fun c =>
    ((c.lazy.getHeader h).1, { c with lazy := (c.lazy.getHeader h).2 })) with
  | none => .throw (.indexInconsistency h
      "header unresolvable (cache miss and loader returned None)")
  | some header =>
    if header.height ≠ h then
      .throw (.indexInconsistency h
        s!"header {header.id} is mis-filed: its height field says {header.height}")
    else
      match c.byId[header.id]? with
      | some mapped =>
        if mapped = h then pure header
        else .throw (.indexInconsistency h
          s!"height view holds {header.id} but by_id maps it to height {mapped}")
      | none => .throw (.indexInconsistency h
          s!"height view holds {header.id} which the chain's id index does not contain")

/-- Check `links` parent links, downwards from the child at height `h`. -/
def linkageWalk : (links h : ℕ) → (child : Header) → ChainCall Unit
  | 0, _, _ => pure ()
  | links + 1, h, child => do
    let parent ← loadForLinkageWalk (h - 1)
    .ofExcept (require (child.parentId = parent.id)
      (.brokenParentLink h child.id child.parentId parent.id))
    linkageWalk links (h - 1) parent

/-- Walk down from the tip and check the parent links, all of them or the `maxDepth` closest to the
tip. -/
def verifyBestChainLinkage (maxDepth : Option ℕ) : ChainCall Unit := do
  let c ← .state
  match c.baseHeight with
  | none => pure ()
  | some base =>
    let links := match maxDepth with
      | some depth => min (c.height - base) depth
      | none => c.height - base
    if c.height ≤ base ∨ links = 0 then pure ()
    else
      let child ← loadForLinkageWalk c.height
      linkageWalk links c.height child

/-- Reconstruct the chain from the stored best chain. Parent links are not checked. -/
def restore (config : ChainConfig) (entries : List (ℕ × BlockId)) :
    Except HeaderChain.RestoreError CachedChain :=
  (HeaderChain.restore entries).map (fun idx =>
    { CachedChain.new config with
      baseHeight := idx.baseHeight
      byId := idx.byId.foldr (fun e t => t.insert e.1 e.2) ∅
      lightClientMode := decide (1 < idx.baseHeight.getD 1) })

def setCacheCapacity (c : CachedChain) (capacity : ℕ) (h : 0 < capacity) : CachedChain :=
  { c with lazy := c.lazy.resize capacity h }

def setLoaders (c : CachedChain) (headers : ℕ → Option Header) (scores : ℕ → Option ℕ) :
    CachedChain :=
  { c with
    lazy :=
      { headers := c.lazy.headers.setLoader headers
        scores := c.lazy.scores.setLoader scores } }

end CachedChain

end ErgoNode
