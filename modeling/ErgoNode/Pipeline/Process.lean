import ErgoNode.Library.LruCache
import ErgoNode.Store.Modifier
import ErgoNode.Chain.Difficulty
import ErgoNode.Chain.Section

/-!
# The validation pipeline

Batches of modifiers from the network: headers are parsed, checked for proof of work, sorted by
height and chained one after the other; fork headers are stored with their cumulative score and
may make the batch end in a reorg; headers with an unknown parent wait in a buffer. Sections are
bound to their header and stored.
-/

namespace ErgoNode

def bufferCapacity : ℕ := 8192

def maxParentRequests : ℕ := 3

def parentRequestTtl : ℕ := 60000

abbrev RawHeader := Header × Bytes

abbrev ForkBranch := ℕ × List RawHeader

/-- The chain's rules together with the decoders of the pipeline. -/
structure PipelineRules extends HeaderRules where
  parseHeader : Bytes → Option Header
  /-- Identity of a section body, if it parses. -/
  sectionIdFromBody : ℕ → Bytes → Option SectionIdentity

inductive DeliveryControl where
  | needModifier (typeId : ℕ) (id : BlockId)
  | reorg (forkPoint oldTip newTip : ℕ)
deriving DecidableEq, Repr

inductive DeliveryData where
  | received (ids : List BlockId)
  | evicted (ids : List BlockId)
deriving DecidableEq, Repr

/-- Outstanding unknown-parent requests with the time each was made. -/
structure ParentRequests where
  inFlight : List (BlockId × ℕ)
deriving DecidableEq, Repr

namespace ParentRequests

def shouldRequest (r : ParentRequests) (parentId : BlockId) (now : ℕ) : Bool × ParentRequests :=
  let live := r.inFlight.filter (fun e => now - e.2 < parentRequestTtl)
  if parentId ∈ live.map Prod.fst ∨ maxParentRequests ≤ live.length then (false, ⟨live⟩)
  else (true, ⟨(parentId, now) :: live⟩)

def resolved (r : ParentRequests) (id : BlockId) : ParentRequests :=
  ⟨r.inFlight.filter (fun e => e.1 ≠ id)⟩

end ParentRequests

/-- The pipeline with the state it shares: the chain, the store and the channels it sends on. -/
structure ValidationPipeline where
  chain : HeaderChain
  store : ModifierStore
  /-- Headers waiting for their parent, by parent id. -/
  buffer : LruCache BlockId RawHeader
  reorgRequested : ParentRequests
  control : List DeliveryControl
  data : List DeliveryData
  progress : List ℕ

def ValidationPipeline.new (config : ChainConfig) : ValidationPipeline where
  chain := .new config
  store := .empty
  buffer := .empty bufferCapacity (by decide)
  reorgRequested := ⟨[]⟩
  control := []
  data := []
  progress := []

structure BatchState where
  /-- The best chain, locked for the whole batch. -/
  chain : HeaderChain
  store : ModifierStore
  buffer : LruCache BlockId RawHeader
  reorgRequested : ParentRequests
  control : List DeliveryControl
  /-- Headers chained by this batch, not yet in the store. -/
  storeEntries : List ModifierBatchEntry
  /-- The reorg recorded for the end of the batch. -/
  pendingReorg : Option ForkBranch
  evictedIds : List BlockId

/-- The number a new fork header gets at a height: one above the highest in use. -/
def nextForkNum (store : ModifierStore) (height : ℕ) : ℕ :=
  (((store.headerIdsAtHeight height).getLast?).map (fun e => e.2 + 1)).getD 1

/-- The score of a stored header. A row without a score does not count. -/
def storedScore (store : ModifierStore) (id : BlockId) : Option ℕ :=
  (store.headerScore id).bind (fun bytes => bytes)

def chainedEntry (chain : HeaderChain) (header : Header) (raw : Bytes) : ModifierBatchEntry where
  typeId := headerTypeId
  id := header.id
  height := header.height
  data := raw
  score := some (chain.scoreAt header.height)

section Rules

variable (rules : PipelineRules)

/-- Walk back from the last header of `branch` (tip first) through the store to the chain, `fuel`
headers at most. -/
def walkForkBranch (chain : HeaderChain) (store : ModifierStore) :
    (fuel : ℕ) → (currentParent : BlockId) → (branch : List RawHeader) → Option ForkBranch
  | 0, _, _ => none
  | fuel + 1, currentParent, branch =>
    if chain.contains currentParent then
      match branch.getLast? with
      | none => none
      | some (firstForkHeader, _) =>
        let forkPointHeight := firstForkHeader.height - 1
        if (chain.headerAt forkPointHeight).map (·.id) = some currentParent then
          some (forkPointHeight, branch.reverse)
        else none
    else
      match store.get headerTypeId currentParent with
      | none => none
      | some parentData =>
        match rules.parseHeader parentData with
        | none => none
        | some parentHeader =>
          walkForkBranch chain store fuel parentHeader.parentId
            (branch ++ [(parentHeader, parentData)])

def assembleForkBranch (chain : HeaderChain) (store : ModifierStore) (tipHeader : Header)
    (tipRaw : Bytes) : Option ForkBranch :=
  walkForkBranch rules chain store 1000 tipHeader.parentId [(tipHeader, tipRaw)]

/-! ## One header -/

def chainHeader (s : BatchState) (chain : HeaderChain) (header : Header) (raw : Bytes) :
    BatchState :=
  { s with
    chain := chain
    reorgRequested := s.reorgRequested.resolved header.id
    storeEntries := s.storeEntries ++ [chainedEntry chain header raw] }

/-- Follow the buffered children of a chained header. Each round takes one entry out of the buffer.
-/
def drainBuffer (now : ℕ) : (fuel : ℕ) → (nextParent : BlockId) → BatchState → BatchState
  | 0, _, s => s
  | fuel + 1, nextParent, s =>
    match s.buffer.pop nextParent with
    | none => s
    | some ((buf, bufRaw), buffer) =>
      match s.chain.tryAppend rules.toHeaderRules now buf with
      | (.ok .extended, chain) =>
        drainBuffer now fuel buf.id (chainHeader { s with buffer := buffer } chain buf bufRaw)
      -- the entry taken out is dropped
      | _ => { s with buffer := buffer }

/-- Store a fork header with its score. The first that beats the chain has its branch recorded. -/
def storeFork (s : BatchState) (header : Header) (raw : Bytes) (parentScore : ℕ)
    (assemble : ModifierStore → Option ForkBranch) : BatchState :=
  let forkScore := parentScore + rules.headerDifficulty header
  let store := s.store.putHeader header.id header.height (nextForkNum s.store header.height)
    (some forkScore) raw
  { s with
    store := store
    pendingReorg :=
      if s.chain.cumulativeScore < forkScore ∧ s.pendingReorg = none then assemble store
      else s.pendingReorg }

def bufferHeader (s : BatchState) (header : Header) (raw : Bytes) : BatchState :=
  let (buffer, displaced) := s.buffer.push header.parentId (header, raw)
  { s with
    buffer := buffer
    evictedIds := s.evictedIds ++ (displaced.map (fun e => e.2.1.id)).toList }

def requestParent (now : ℕ) (s : BatchState) (parentId : BlockId) : BatchState :=
  let (ask, requests) := s.reorgRequested.shouldRequest parentId now
  { s with
    reorgRequested := requests
    control :=
      if ask then s.control ++ [.needModifier headerTypeId parentId] else s.control }

def processHeader (now : ℕ) (s : BatchState) (rawHeader : RawHeader) : BatchState :=
  let (header, raw) := rawHeader
  if s.chain.contains header.id then s
  else
    match s.chain.tryAppend rules.toHeaderRules now header with
    | (.ok .extended, chain) =>
      drainBuffer rules now s.buffer.entries.length header.id (chainHeader s chain header raw)
    | (.ok (.forked forkHeight), _) =>
      storeFork rules { s with reorgRequested := s.reorgRequested.resolved header.id } header raw
        ((s.chain.scoreAt forkHeight).getD 0) (fun _ => some (forkHeight, [(header, raw)]))
    | (.error (.parentNotFound _), _) =>
      match storedScore s.store header.parentId with
      | some parentScore =>
        storeFork rules s header raw parentScore
          (fun store => assembleForkBranch rules s.chain store header raw)
      | none => bufferHeader (requestParent now s header.parentId) header raw
    | (.error (.invalidGenesisParent _), _) => bufferHeader s header raw
    | (.error (.invalidGenesisHeight _), _) => bufferHeader s header raw
    | (.error _, _) => s

/-! ## The end of a batch -/

/-- Execute the recorded reorg. The second component is its fork point when the chain accepted
the branch. -/
def executeReorg (now : ℕ) (s : BatchState) : BatchState × Option ℕ :=
  match s.pendingReorg with
  | none => (s, none)
  | some (forkPoint, branch) =>
    match s.chain.tryReorgDeep rules.toHeaderRules now forkPoint (branch.map Prod.fst) with
    | (.ok _, chain) =>
      let entries := branch.map (fun e => chainedEntry chain e.1 e.2)
      ({ s with
          chain := chain
          store := (s.store.putBatch entries).toOption.getD s.store
          control := s.control ++ [.reorg forkPoint s.chain.height chain.height] }, some forkPoint)
    | (.error _, chain) => ({ s with chain := chain }, none)

/-- Store a header that the reorg of its own batch took off the best chain. -/
def storeDemoted (store : ModifierStore) (e : ModifierBatchEntry) : ModifierStore :=
  store.putHeader e.id e.height (nextForkNum store e.height) (e.score.getD none) e.data

/-- Persist the headers the batch chained. Those that a reorg demoted are stored as forks. -/
def flush (store : ModifierStore) (entries : List ModifierBatchEntry) (reorgForkPoint : Option ℕ) :
    ModifierStore :=
  let best : List ModifierBatchEntry := match reorgForkPoint with
    | some forkPoint => entries.filter (fun e => e.height ≤ forkPoint)
    | none => entries
  let demoted : List ModifierBatchEntry := match reorgForkPoint with
    | some forkPoint => entries.filter (fun e => forkPoint < e.height)
    | none => []
  let store := demoted.foldl storeDemoted store
  if best = [] then store else (store.putBatch best).toOption.getD store

def acceptRaw (data : Bytes) : Option RawHeader :=
  match rules.parseHeader data with
  | none => none
  | some header =>
    match rules.verifyPow header with
    | .error _ => none
    | .ok _ => some (header, data)

def startBatch (p : ValidationPipeline) : BatchState where
  chain := p.chain
  store := p.store
  buffer := p.buffer
  reorgRequested := p.reorgRequested
  control := p.control
  storeEntries := []
  pendingReorg := none
  evictedIds := []

/-- The pipeline after the loop: reorg, purge of the buffer, flush, notifications. -/
def finishBatch (now : ℕ) (p : ValidationPipeline) (s : BatchState) : ValidationPipeline :=
  let (s', reorgForkPoint) := executeReorg rules now s
  let heightAfter := s'.chain.height
  { chain := s'.chain
    store := flush s'.store s'.storeEntries reorgForkPoint
    buffer := s'.buffer.filterEntries (fun e => decide (heightAfter < e.2.1.height))
    reorgRequested := s'.reorgRequested
    control := s'.control
    data := if s'.evictedIds = [] then p.data else p.data ++ [.evicted s'.evictedIds]
    progress := if p.chain.height < heightAfter then p.progress ++ [heightAfter] else p.progress }

/-- The headers of a batch in processing order: ascending height, arrival order within one. -/
def sortByHeight (headers : List RawHeader) : List RawHeader :=
  headers.insertionSort (fun a b => a.1.height ≤ b.1.height)

/-- Parse, verify and chain a batch of raw headers. The second component is the ids that parsed
and passed proof of work. -/
def processHeaders (now : ℕ) (p : ValidationPipeline) (rawHeaders : List Bytes) :
    ValidationPipeline × List BlockId :=
  let valid := rawHeaders.filterMap (acceptRaw rules)
  let accepted := valid.map (·.1.id)
  if valid = [] then (p, accepted)
  else
    (finishBatch rules now p ((sortByHeight valid).foldl (processHeader rules now) (startBatch p)),
      accepted)

/-! ## Sections -/

/-- One delivered modifier: its type, the id it was delivered under, and its bytes. -/
structure ModifierBatchItem where
  typeId : ℕ
  id : BlockId
  data : Bytes
deriving DecidableEq, Repr

def transactionTypeId : ℕ := 2

/-- The row of a delivered section, if its bytes hash to its id and its header is known. A fork's
section has no height. -/
def bindSection (chain : HeaderChain) (store : ModifierStore) (item : ModifierBatchItem) :
    Option ModifierBatchEntry :=
  match rules.sectionIdFromBody item.typeId item.data with
  | none => none
  | some identity =>
    if identity.id ≠ item.id then none
    else
      match chain.heightOf identity.headerId with
      | some height =>
        some { typeId := item.typeId, id := item.id, height := height, data := item.data,
               score := none }
      | none =>
        if (store.get headerTypeId identity.headerId).isSome then
          some { typeId := item.typeId, id := item.id, height := 0, data := item.data,
                 score := none }
        else none

def bindAndStoreSections (chain : HeaderChain) (store : ModifierStore)
    (sections : List ModifierBatchItem) : ModifierStore × List BlockId :=
  let entries := sections.filterMap (bindSection rules chain store)
  if entries = [] then (store, [])
  else
    match store.putBatch entries with
    | .ok store' => (store', entries.map (·.id))
    | .error _ => (store, [])

/-- Process one batch: headers first, then sections, which so find their headers known. -/
def processBatch (now : ℕ) (p : ValidationPipeline) (batch : List ModifierBatchItem) :
    ValidationPipeline :=
  let rawHeaders := (batch.filter (fun i => i.typeId = headerTypeId)).map (·.data)
  let sections := batch.filter
    (fun i => i.typeId ≠ headerTypeId ∧ i.typeId ≠ transactionTypeId ∧ i.data ≠ [])
  let (p', accepted) := processHeaders rules now p rawHeaders
  let (store, stored) := bindAndStoreSections rules p'.chain p'.store sections
  let received := accepted ++ stored
  { p' with
    store := store
    data := if received = [] then p'.data else p'.data ++ [.received received] }

def runBatches (p : ValidationPipeline) (batches : List (ℕ × List ModifierBatchItem)) :
    ValidationPipeline :=
  batches.foldl (fun p b => processBatch rules b.1 p b.2) p

end Rules

/-! ## Concrete rules

A concrete choice of the decoders, for runs on given headers: the compact difficulty format, a
parser that looks bytes up in a list of headers, proof of work accepted, and the difficulty of the
parent, which is what the calculation returns inside a difficulty epoch. -/

def listRules (headers : List Header) : PipelineRules where
  verifyPow _ := .ok ()
  decodeCompactBits := decodeCompactBits
  expectedDifficulty _ _ parent := .ok parent.nBits
  parseHeader
    | [i] => headers[i.toNat]?
    | _ => none
  sectionIdFromBody _ _ := none

def headerItems (indices : List UInt8) : List ModifierBatchItem :=
  indices.map (fun i => { typeId := headerTypeId, id := 0, data := [i] })

end ErgoNode
