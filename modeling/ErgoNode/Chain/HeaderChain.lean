import ErgoNode.Chain.Voting

/-!
# The in-memory header chain

The best chain, with its two mutating operations: appending a header and replacing everything above
a fork point. The source keeps a base height, a map from id to height and a store of headers and
scores by height. Every read of the three resolves to an accepted header, so they are one list here,
lowest height first.
-/

namespace ErgoNode

@[ext]
structure ChainEntry where
  header : Header
  /-- Difficulty of the chain up to and including the header. -/
  score : ℕ
deriving DecidableEq, Repr

structure HeaderChain where
  config : ChainConfig
  entries : List ChainEntry
  activeParameters : Parameters
  /-- Proposed validation-settings update currently installed. -/
  activeProposedUpdateBytes : Bytes
  /-- The chain starts above genesis, so difficulties cannot be recomputed. -/
  lightClientMode : Bool
deriving DecidableEq

structure HeaderRules where
  verifyPow : Header → Except String Unit
  /-- Difficulty encoded by the compact form. -/
  decodeCompactBits : ℕ → ℤ
  /-- Compact difficulty required of the child of a header, from the configuration and the headers
  of the chain by height. -/
  expectedDifficulty : ChainConfig → (ℕ → Option Header) → Header → Except String ℕ

/-- Difficulty contribution of a header: a negative compact value contributes nothing. -/
def HeaderRules.headerDifficulty (rules : HeaderRules) (header : Header) : ℕ :=
  (rules.decodeCompactBits header.nBits).toNat

inductive AppendResult where
  | extended
  /-- The parent is in the chain below the tip; the header was not added. -/
  | forked (forkHeight : ℕ)
deriving DecidableEq, Repr

namespace HeaderChain

/-! ## Reads -/

def new (config : ChainConfig) : HeaderChain where
  config := config
  entries := []
  activeParameters := defaultParameters config.network
  activeProposedUpdateBytes := defaultProposedUpdateBytes config.network
  lightClientMode := false

def baseHeight (c : HeaderChain) : Option ℕ := c.entries.head?.map (·.header.height)

def height (c : HeaderChain) : ℕ :=
  match c.baseHeight with
  | some base => base + c.entries.length - 1
  | none => 0

def tip? (c : HeaderChain) : Option Header := c.entries.getLast?.map (·.header)

def entryAt (c : HeaderChain) (h : ℕ) : Option ChainEntry :=
  c.entries.find? (fun e => e.header.height = h)

def headerAt (c : HeaderChain) (h : ℕ) : Option Header := (c.entryAt h).map (·.header)

def idAt (c : HeaderChain) (h : ℕ) : Option BlockId := (c.headerAt h).map (·.id)

def scoreAt (c : HeaderChain) (h : ℕ) : Option ℕ := (c.entryAt h).map (·.score)

def cumulativeScore (c : HeaderChain) : ℕ := (c.scoreAt c.height).getD 0

def heightOf (c : HeaderChain) (id : BlockId) : Option ℕ :=
  (c.entries.find? (fun e => e.header.id = id)).map (·.header.height)

def contains (c : HeaderChain) (id : BlockId) : Bool :=
  c.entries.any (fun e => e.header.id = id)

def reorgFloor (c : HeaderChain) : ℕ := c.baseHeight.getD 1

/-! ## Header checks -/

section Checks

variable (rules : HeaderRules)

def checkPow (header : Header) : Except ChainError Unit :=
  (rules.verifyPow header).mapError .powInvalid

def validateGenesis (c : HeaderChain) (header : Header) : Except ChainError Unit := do
  require (header.parentId = genesisParentId) (.invalidGenesisParent header.parentId)
  require (header.height = 1) (.invalidGenesisHeight header.height)
  require (header.nBits = c.config.initialNBits)
    (.wrongDifficulty header.height c.config.initialNBits header.nBits)
  checkPow rules header
  match c.config.genesisId with
  | some expectedId => require (header.id = expectedId) (.genesisIdMismatch expectedId header.id)
  | none => .ok ()

def checkForkVoteGate (c : HeaderChain) (header : Header) : Except ChainError Unit := do
  let pass ← checkForkVote c.config.voting header.height header.votes c.activeParameters
  require (pass = true) (.voting s!"voting for fork is prohibited at height {header.height}")

def checkTimestamp (c : HeaderChain) (now : ℕ) (tip header : Header) : Except ChainError Unit := do
  require (tip.timestamp < header.timestamp)
    (.timestampNotIncreasing tip.timestamp header.timestamp)
  require (header.timestamp ≤ now + c.config.maxTimeDriftMs)
    (.timestampTooFarInFuture header.timestamp (now + c.config.maxTimeDriftMs))

def checkDifficulty (c : HeaderChain) (tip header : Header) : Except ChainError Unit := do
  let expected ← (rules.expectedDifficulty c.config c.headerAt tip).mapError .difficultyCalc
  require (header.nBits = expected) (.wrongDifficulty header.height expected header.nBits)

def checkChildDifficulty (c : HeaderChain) (tip header : Header) : Except ChainError Unit :=
  if c.lightClientMode then .ok () else checkDifficulty rules c tip header

def validateChild (now : ℕ) (c : HeaderChain) (tip header : Header) : Except ChainError Unit := do
  require (header.parentId = tip.id) (.parentNotFound header.parentId)
  require (header.height = tip.height + 1) (.nonSequentialHeight (tip.height + 1) header.height)
  c.checkTimestamp now tip header
  checkChildDifficulty rules c tip header
  checkPow rules header
  checkHeaderVotes header.votes
  c.checkForkVoteGate header

/-- Checks on a header that becomes the tip in a reorg. The caller checks its parent and height. -/
def validateReorgHeader (now : ℕ) (c : HeaderChain) (tip header : Header) :
    Except ChainError Unit := do
  c.checkTimestamp now tip header
  checkDifficulty rules c tip header
  checkPow rules header
  checkHeaderVotes header.votes
  c.checkForkVoteGate header

/-! ## Appending -/

/-- Add a header at the tip. Its score is that of its parent plus its own difficulty. -/
def pushHeader (c : HeaderChain) (header : Header) : HeaderChain :=
  let parentScore := if c.entries = [] then 0 else (c.scoreAt (header.height - 1)).getD 0
  { c with
    entries := c.entries ++
      [{ header := header, score := parentScore + rules.headerDifficulty header }] }

/-- Validate a header and append it to the best chain if it extends the tip. -/
def tryAppend (now : ℕ) (c : HeaderChain) (header : Header) :
    Except ChainError AppendResult × HeaderChain :=
  match c.tip? with
  | none =>
    match validateGenesis rules c header with
    | .error e => (.error e, c)
    | .ok _ => (.ok .extended, c.pushHeader rules header)
  | some tip =>
    if header.parentId = tip.id then
      match validateChild rules now c tip header with
      | .error e => (.error e, c)
      | .ok _ => (.ok .extended, c.pushHeader rules header)
    else
      match c.heightOf header.parentId with
      | some parentHeight =>
        if header.height ≠ parentHeight + 1 then
          (.error (.nonSequentialHeight (parentHeight + 1) header.height), c)
        else (.ok (.forked parentHeight), c)
      | none => (.error (.parentNotFound header.parentId), c)

/-! ## Reorganising -/

def truncate (c : HeaderChain) (h : ℕ) : HeaderChain :=
  { c with entries := c.entries.filter (fun e => e.header.height ≤ h) }

def entriesAbove (c : HeaderChain) (h : ℕ) : List ChainEntry :=
  c.entries.filter (fun e => h < e.header.height)

/-- Validate and push the headers of a branch, `i` counting from the fork point, up to the first
that fails. -/
def appendBranch (now forkPointHeight : ℕ) :
    ℕ → List Header → HeaderChain → Option ChainError × HeaderChain
  | _, [], c => (none, c)
  | i, header :: rest, c =>
    match c.tip? with
    | none => (some (.reorg "chain is empty"), c)
    | some tip =>
      -- the first header was checked against the fork point
      if 0 < i ∧ header.parentId ≠ tip.id then (some (.parentNotFound header.parentId), c)
      else if header.height ≠ forkPointHeight + 1 + i then
        (some (.nonSequentialHeight (forkPointHeight + 1 + i) header.height), c)
      else
        match validateReorgHeader rules now c tip header with
        | .error e => (some e, c)
        | .ok _ => appendBranch now forkPointHeight (i + 1) rest (c.pushHeader rules header)

/-- Replace everything above the fork point. Returns the ids that left; an invalid branch is undone.
-/
def tryReorgDeep (now : ℕ) (c : HeaderChain) (forkPointHeight : ℕ) (newBranch : List Header) :
    Except ChainError (List BlockId) × HeaderChain :=
  match newBranch with
  | [] => (.error (.reorg "new branch is empty"), c)
  | first :: _ =>
    if c.entries = [] then (.error (.reorg "chain is empty"), c)
    else if forkPointHeight < c.reorgFloor then
      (.error (.reorg s!"fork point height {forkPointHeight} below reorg floor {c.reorgFloor}"), c)
    else if c.height < forkPointHeight then
      (.error (.reorg s!"fork point height {forkPointHeight} not in chain"), c)
    else
      match c.headerAt forkPointHeight with
      | none => (.error (.reorg s!"fork-point header at {forkPointHeight} unavailable"), c)
      | some forkPoint =>
        if first.parentId ≠ forkPoint.id then
          (.error (.reorg "first header in branch doesn't connect to fork point"), c)
        else
          let saved := c.entriesAbove forkPointHeight
          match appendBranch rules now forkPointHeight 0 newBranch (c.truncate forkPointHeight) with
          | (none, c') => (.ok (saved.map (·.header.id)), c')
          | (some e, c') =>
            -- pop what was pushed above the fork point, then put the saved headers back
            let popped := c'.truncate forkPointHeight
            (.error e, { popped with entries := popped.entries ++ saved })

end Checks

/-! ## Restoring -/

inductive RestoreError where
  | nonContiguousHeights (expected got : ℕ)
  | duplicateHeight (height : ℕ)
deriving DecidableEq, Repr

/-- What `restore` rebuilds: the base height and the map from id to height, newest entry first. -/
structure RestoredIndex where
  baseHeight : Option ℕ
  byId : List (BlockId × ℕ)
deriving DecidableEq, Repr

def RestoredIndex.heightOf (idx : RestoredIndex) (id : BlockId) : Option ℕ :=
  (idx.byId.find? (fun e => e.1 = id)).map Prod.snd

/-- Rebuild the index from `(height, id)` pairs: heights must be contiguous, ids distinct. -/
def restoreFrom (prevHeight : Option ℕ) (acc : RestoredIndex) :
    List (ℕ × BlockId) → Except RestoreError RestoredIndex
  | [] => .ok acc
  | (height, id) :: rest =>
    match prevHeight with
    | some prev =>
      if height ≠ prev + 1 then .error (.nonContiguousHeights (prev + 1) height)
      else if id ∈ acc.byId.map Prod.fst then .error (.duplicateHeight height)
      else restoreFrom (some height) { acc with byId := (id, height) :: acc.byId } rest
    | none => restoreFrom (some height) { baseHeight := some height, byId := [(id, height)] } rest

def restore (entries : List (ℕ × BlockId)) : Except RestoreError RestoredIndex :=
  restoreFrom none { baseHeight := none, byId := [] } entries

end HeaderChain

end ErgoNode
