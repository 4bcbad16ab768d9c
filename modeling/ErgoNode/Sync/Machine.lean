import ErgoNode.Library.Run
import ErgoNode.Pipeline.Frame
import ErgoNode.Validation.Validator
import ErgoNode.Sync.Pacing

/-!
# The sync machine

The task that turns stored sections into applied blocks, next to the pipeline that changes the
header chain. The pipeline tells the machine about a reorg through a queue. Every read of the chain
or the store is a point where the pipeline may run: `SyncTask` says where the task is suspended and
what it holds, and one step runs it to the next such point. Consecutive reads are one step where
their order cannot be told apart.
-/

namespace ErgoNode

inductive StateType where
  | utxo
  | digest
  | light
deriving DecidableEq, Repr

/-- The rules of the pipeline and of the validators, with the ids of sections. -/
structure NodeRules extends PipelineRules, BlockRules where
  /-- Id of the section of a type that a header commits to. -/
  sectionId : ℕ → Header → BlockId
  /-- The sigma library's decoder of rule statuses. -/
  sigmaParse : Bytes → Option (RuleStatus × Bytes)

structure SyncConfig where
  stateType : StateType
  dial : FlushDial
  genesisDigest : ADDigest

def requiredSectionIds (rules : NodeRules) (header : Header) : StateType → List (ℕ × BlockId)
  | .light => []
  | .digest => [blockTransactionsTypeId, adProofsTypeId, extensionTypeId].map
      (fun t => (t, rules.sectionId t header))
  | .utxo => [blockTransactionsTypeId, extensionTypeId].map (fun t => (t, rules.sectionId t header))

/-! ## The task -/

structure Sweep where
  appliedTip : ℕ
  sweepTo : ℕ
deriving DecidableEq, Repr

structure LoadedBlock where
  height : ℕ
  header : Header
  blockTxs : Bytes
  adProofs : Option Bytes
  extension : Bytes
  /-- The headers before it read so far, newest first. -/
  preceding : List Header
deriving DecidableEq, Repr

inductive FlushOutcome where
  | flushed (height : ℕ)
  /-- The validator owns no database; its height counts as flushed. -/
  | nothingToPersist (height : ℕ)
  | failed
deriving DecidableEq, Repr

def FlushOutcome.committedHeight : FlushOutcome → Option ℕ
  | .flushed m => some m
  | .nothingToPersist m => some m
  | .failed => none

/-- Where a flush was started, and so where the task goes on after it. -/
inductive FlushPoint where
  | midSweep (sweep : Sweep) (height : ℕ)
  | sweepEnd
deriving DecidableEq, Repr

inductive SyncTask where
  | idle
  | advanceDownloaded
  /-- Looking for the header of a height; everything up to `newHeight` is complete. -/
  | scanHeader (height chainHeight newHeight : ℕ)
  | scanSections (height chainHeight newHeight : ℕ) (header : Header)
  | startSweep
  | readHeader (sweep : Sweep) (height : ℕ)
  | readSections (sweep : Sweep) (height : ℕ) (header : Header)
  /-- Reading the headers before a block; `heights` are still to be read. -/
  | readPreceding (sweep : Sweep) (block : LoadedBlock) (heights : List ℕ)
  | applyBlock (sweep : Sweep) (block : LoadedBlock)
  | install (sweep : Sweep) (height : ℕ) (params : Parameters) (proposedUpdate : Bytes)
  | applied (sweep : Sweep) (height : ℕ)
  | recordHeight (point : FlushPoint) (outcome : FlushOutcome)
  | flushStore (point : FlushPoint) (outcome : FlushOutcome)
  | prune (point : FlushPoint) (outcome : FlushOutcome)
deriving DecidableEq

/-! ## The node -/

/-- The pipeline with what it shares, the validator and the sync machine. -/
structure Node where
  pipeline : ValidationPipeline
  validator : Validator
  /-- All sections up to this height are in the store. -/
  downloadedHeight : ℕ
  /-- The machine's copy of the applied height. -/
  stateAppliedHeight : ℕ
  lastFlushHeight : ℕ
  sweepBackoff : SweepBackoff
  task : SyncTask

structure StepEnv where
  now : ℕ
  heap : Option ℕ
  /-- A flush of the state database succeeds. -/
  flushOk : Bool
deriving DecidableEq, Repr

inductive SyncEvent where
  | batch (now : ℕ) (items : List ModifierBatchItem)
  | control
  /-- A timer or a delivery makes the idle task look for downloaded blocks. -/
  | advance
  | sweep
  | resume (env : StepEnv)
deriving DecidableEq

namespace Node

abbrev chain (s : Node) : HeaderChain := s.pipeline.chain

def queuedForkPoints (s : Node) : List ℕ := forkPoints s.pipeline.control

def new (pipeline : ValidationPipeline) (validator : Validator) (lastFlushHeight : ℕ) : Node where
  pipeline := pipeline
  validator := validator
  downloadedHeight := validator.validatedHeight
  stateAppliedHeight := validator.validatedHeight
  lastFlushHeight := lastFlushHeight
  sweepBackoff := {}
  task := .idle

section Steps

variable (rules : NodeRules) (cfg : SyncConfig)

def sectionsComplete (s : Node) (header : Header) : Bool :=
  (requiredSectionIds rules header cfg.stateType).all
    (fun e => (s.pipeline.store.get e.1 e.2).isSome)

/-- The sections of a header; `none` when one that is required is missing, or transactions or
extension. -/
def loadSections (s : Node) (height : ℕ) (header : Header) : Option LoadedBlock :=
  let required := requiredSectionIds rules header cfg.stateType
  let read (typeId : ℕ) : Option Bytes :=
    (required.find? (fun e => e.1 = typeId)).bind (fun e => s.pipeline.store.get e.1 e.2)
  if s.sectionsComplete rules cfg header then
    match read blockTransactionsTypeId, read extensionTypeId with
    | some blockTxs, some extension =>
      some {
        height := height
        header := header
        blockTxs := blockTxs
        adProofs := read adProofsTypeId
        extension := extension
        preceding := [] }
    | _, _ => none
  else none

def tryFlushValidator (s : Node) (flushOk : Bool) : FlushOutcome :=
  match s.validator with
  | .utxo v => if flushOk then .flushed v.validatedHeight else .failed
  | .digest v => .nothingToPersist v.validatedHeight

/-- Start a sweep at the validator's height, unless the last one stalled here too recently. -/
def beginSweep (s : Node) (now : ℕ) : Node :=
  let appliedTip := s.validator.validatedHeight
  if s.downloadedHeight ≤ appliedTip then
    { s with stateAppliedHeight := appliedTip, task := .idle }
  else if s.sweepBackoff.shouldDefer appliedTip now then { s with task := .idle }
  else
    { s with
      task := .readHeader { appliedTip := appliedTip, sweepTo := s.downloadedHeight }
        (appliedTip + 1) }

/-- End a sweep: reconcile the copy of the applied height, record progress, flush. -/
def finishSweep (s : Node) (w : Sweep) (env : StepEnv) : Node :=
  let trueTip := s.validator.validatedHeight
  { s with
    stateAppliedHeight := trueTip
    sweepBackoff := (s.sweepBackoff.record w.appliedTip trueTip env.now).2
    task := .recordHeight .sweepEnd (s.tryFlushValidator env.flushOk) }

/-- The parameters a block at an epoch boundary must carry; `none` away from one. -/
def expectedBoundary (s : Node) (block : LoadedBlock) : Except ChainError (Option Parameters) :=
  if s.chain.isEpochBoundary block.height then do
    let (_, fields) ← parseExtensionBytes block.extension
    let params ← s.chain.computeExpectedParameters rules.sigmaParse block.height
      (extractDisablingRulesFromKv fields)
    .ok (some params)
  else .ok none

def blockArgs (s : Node) (block : LoadedBlock) (expected : Option Parameters) : BlockArgs where
  header := block.header
  blockTxs := block.blockTxs
  adProofs := block.adProofs
  extension := block.extension
  precedingHeaders := block.preceding
  activeParams := s.chain.activeParameters
  expectedBoundaryParams := expected

/-- Apply a block. A boundary that cannot be computed and a rejected block end the sweep. -/
def applyBlock (s : Node) (w : Sweep) (block : LoadedBlock) (env : StepEnv) : Node :=
  match s.expectedBoundary rules block with
  | .error _ => s.finishSweep w env
  | .ok expected =>
    match s.validator.applyState rules.toBlockRules (s.blockArgs block expected) with
    | (.error _, validator) => finishSweep { s with validator := validator } w env
    | (.ok outcome, validator) =>
      match outcome.epochBoundary with
      | some (params, update) =>
        { s with validator := validator, task := .install w block.height params update }
      | none => { s with validator := validator, task := .applied w block.height }

/-- Where the task goes on after a flush. A flush that did not fail moves the flush mark. -/
def afterFlush (s : Node) (point : FlushPoint) (outcome : FlushOutcome) : Node :=
  match point with
  | .midSweep w height =>
    { s with
      lastFlushHeight := if outcome = .failed then s.lastFlushHeight else height
      task := .readHeader w (height + 1) }
  | .sweepEnd =>
    { s with
      lastFlushHeight := if outcome = .failed then s.lastFlushHeight else s.stateAppliedHeight
      task := .idle }

def pruneAtHorizon (s : Node) (flushed : ℕ) : ModifierStore :=
  if cfg.dial.blocksToKeep < 0 then s.pipeline.store
  else
    let horizon := computePruneHorizon flushed cfg.dial.blocksToKeep.toNat
      s.chain.config.voting.votingLength
    (s.pipeline.store.pruneBelowHeight horizon
      [blockTransactionsTypeId, adProofsTypeId, extensionTypeId]).toOption.getD s.pipeline.store

/-- Run the task to the next point where the pipeline may run. -/
def resume (s : Node) (env : StepEnv) : Node :=
  match s.task with
  | .idle => s
  | .advanceDownloaded =>
    if s.chain.height ≤ s.downloadedHeight then { s with task := .idle }
    else
      { s with
        task := .scanHeader (s.downloadedHeight + 1) s.chain.height s.downloadedHeight }
  | .scanHeader height chainHeight newHeight =>
    match (if height ≤ chainHeight then s.chain.headerAt height else none) with
    | some header => { s with task := .scanSections height chainHeight newHeight header }
    | none =>
      if s.downloadedHeight < newHeight then
        beginSweep { s with downloadedHeight := newHeight } env.now
      else { s with task := .idle }
  | .scanSections height chainHeight newHeight header =>
    if s.sectionsComplete rules cfg header then
      { s with task := .scanHeader (height + 1) chainHeight height }
    else if s.downloadedHeight < newHeight then
      beginSweep { s with downloadedHeight := newHeight } env.now
    else { s with task := .idle }
  | .startSweep => s.beginSweep env.now
  | .readHeader w height =>
    match (if height ≤ w.sweepTo then s.chain.headerAt height else none) with
    | some header => { s with task := .readSections w height header }
    | none => s.finishSweep w env
  | .readSections w height header =>
    match s.loadSections rules cfg height header with
    | some block =>
      { s with
        task := .readPreceding w block
          (List.range' (max (height - 9) 1) (height - max (height - 9) 1)).reverse }
    -- an early return of the source: the copy of the applied height is not reconciled
    | none => { s with task := .idle }
  | .readPreceding w block (h :: heights) =>
    { s with
      task := .readPreceding w
        { block with preceding := block.preceding ++ (s.chain.headerAt h).toList } heights }
  | .readPreceding w block [] => { s with task := .applyBlock w block }
  | .applyBlock w block => s.applyBlock rules w block env
  | .install w height params update =>
    { s with
      pipeline := { s.pipeline with
        chain := s.chain.applyEpochBoundaryParameters params update }
      task := .applied w height }
  | .applied w height =>
    if cfg.dial.shouldFlush s.lastFlushHeight height env.heap then
      { s with task := .recordHeight (.midSweep w height) (s.tryFlushValidator env.flushOk) }
    else { s with task := .readHeader w (height + 1) }
  | .recordHeight point outcome =>
    { s with
      pipeline := { s.pipeline with
        store := outcome.committedHeight.elim s.pipeline.store s.pipeline.store.setValidatedHeight }
      task := .flushStore point outcome }
  | .flushStore point outcome => { s with task := .prune point outcome }
  | .prune point outcome =>
    match outcome.committedHeight with
    | some m =>
      afterFlush { s with pipeline := { s.pipeline with store := s.pruneAtHorizon cfg m } }
        point outcome
    | none => s.afterFlush point outcome

/-- Roll the validator back to a fork point. The second component says whether it moved. -/
def rollbackTo (s : Node) (forkPoint : ℕ) : Validator × Bool :=
  match s.chain.headerAt forkPoint with
  | none => (s.validator, false)
  | some forkHeader =>
    match s.validator.resetTo forkPoint forkHeader.stateRoot with
    | (.ok _, validator) => (validator, true)
    | (.error _, validator) => (validator, false)

/-- Handle a reorg: lower the marks above the fork point, rolling back what the copy shows above it.
-/
def handleReorg (s : Node) (forkPoint : ℕ) : Node :=
  let s := { s with downloadedHeight := min s.downloadedHeight forkPoint, task := .advanceDownloaded }
  if forkPoint < s.stateAppliedHeight then
    let (validator, rolledBack) := s.rollbackTo forkPoint
    { s with
      validator := validator
      stateAppliedHeight := if rolledBack then forkPoint else s.stateAppliedHeight }
  else s

def handleControl (s : Node) : Node :=
  match s.pipeline.control with
  | [] => s
  | .needModifier _ _ :: control => { s with pipeline := { s.pipeline with control := control } }
  | .reorg forkPoint _ _ :: control =>
    handleReorg { s with pipeline := { s.pipeline with control := control } } forkPoint

/-- One step. An event that cannot happen where the task is suspended changes nothing. -/
def step (s : Node) : SyncEvent → Node
  | .batch now items =>
    { s with pipeline := processBatch rules.toPipelineRules now s.pipeline items }
  | .control => if s.task = .idle then s.handleControl else s
  | .advance => if s.task = .idle then { s with task := .advanceDownloaded } else s
  | .sweep => if s.task = .idle then { s with task := .startSweep } else s
  | .resume env => s.resume rules cfg env

def run (s : Node) (events : List SyncEvent) : Node := events.foldl (step rules cfg) s

end Steps

end Node

/-! ## Concrete rules

Rules under which a machine can be run: the headers are those of a list, a section starts with the
id of its header, and applying a block adds that id to the state digest. -/

def listNodeRules (headers : List Header) : NodeRules where
  toPipelineRules := { listRules headers with
    sectionIdFromBody := fun typeId data =>
      if data.length < 33 then none
      else some { id := sectionHeaderId data * 256 + typeId, headerId := sectionHeaderId data } }
  parseBlockTransactions data := .ok [data]
  performOperations digest txs := (.ok (), digest + sectionHeaderId txs.flatten)
  verifyOperations digest _ txs := .ok (digest + sectionHeaderId txs.flatten)
  generateProof _ _ := []
  proofDigest _ := 0
  adProofsRoot _ := 0
  evaluateScripts _ _ _ _ _ := .ok 0
  sectionId typeId header := header.id * 256 + typeId
  sigmaParse _ := none

def listHeader (id parentId height stateRoot : ℕ) : Header where
  version := 4
  id := id
  parentId := parentId
  stateRoot := stateRoot
  timestamp := 1000 * height
  nBits := 16842752
  height := height
  votes := ⟨0, 0, 0⟩

def sectionBody (headerId : UInt8) (tail : Bytes) : Bytes :=
  List.replicate 31 0 ++ headerId :: tail

def sectionItems (ids : List UInt8) : List ModifierBatchItem :=
  ids.flatMap (fun id =>
    [blockTransactionsTypeId, adProofsTypeId, extensionTypeId].map (fun typeId =>
      { typeId := typeId, id := id.toNat * 256 + typeId, data := sectionBody id [0] }))

def genesisUtxo (digest : ADDigest) : Validator :=
  .utxo {
    storage := { versionChain := [⟨digest, 0⟩], keepVersions := 256 }
    prover := digest
    validatedHeight := 0
    checkpointHeight := 0
    currentDigest := digest }

def lineHeader (h : ℕ) : Header := listHeader h (h - 1) h (1000 + h * (h + 1) / 2)

def lineChain (n : ℕ) : HeaderChain :=
  { HeaderChain.new .testnet with
    entries := (List.range' 1 n).map (fun h => { header := lineHeader h, score := h }) }

def lineUtxo (h : ℕ) : Validator :=
  .utxo {
    storage := { versionChain := [⟨(lineHeader h).stateRoot, h⟩], keepVersions := 256 }
    prover := (lineHeader h).stateRoot
    validatedHeight := h
    checkpointHeight := 0
    currentDigest := (lineHeader h).stateRoot }

def parameterField (id : UInt8) (value : ℕ) : Bytes :=
  [0, id, 4] ++ [2 ^ 24, 2 ^ 16, 2 ^ 8, 1].map (fun unit => UInt8.ofNat (value / unit))

/-- The fields of an extension that carries the launch parameters of the test network, and `n`
fields more. -/
def testnetFields (n : UInt8) (more : Bytes) : Bytes :=
  (10 + n) :: parameterField 1 1250000 ++ parameterField 2 360 ++ parameterField 3 524288 ++
    parameterField 4 1000000 ++ parameterField 5 100 ++ parameterField 6 2000 ++
    parameterField 7 100 ++ parameterField 8 100 ++ parameterField 9 30 ++ parameterField 123 4 ++
    more

def listConfig (stateType : StateType) (genesisDigest : ADDigest) : SyncConfig where
  stateType := stateType
  dial := { blocksToKeep := -1, flushMinBlocks := 10, flushMaxBlocks := 100, flushHeapThresholdMb := 0 }
  genesisDigest := genesisDigest

def plainEnv : StepEnv where
  now := 0
  heap := none
  flushOk := true

def resumes (n : ℕ) : List SyncEvent := List.replicate n (.resume plainEnv)

/-! ## What a step can do -/

def SyncTask.held : SyncTask → Option Header
  | .readSections _ _ header => some header
  | .readPreceding _ block _ => some block.header
  | .applyBlock _ block => some block.header
  | _ => none

def SyncTask.toInstall : SyncTask → Option (Parameters × Bytes)
  | .install _ _ params update => some (params, update)
  | _ => none

namespace Node

/-- A step of the task that leaves chain, queue and validator alone. -/
structure Quiet (s s' : Node) : Prop where
  chain_eq : s'.chain = s.chain
  control_eq : s'.pipeline.control = s.pipeline.control
  validator_eq : s'.validator = s.validator
  /-- The copy of the applied height is the same, or the validator's. -/
  cache : s'.stateAppliedHeight = s.stateAppliedHeight ∨
    s'.stateAppliedHeight = s.validator.validatedHeight
  held : ∀ header, s'.task.held = some header →
    s.task.held = some header ∨ s.chain.headerAt header.height = some header
  installed : s.task.toInstall = none ∧ s'.task.toInstall = none

/-- A step of the task does nothing outside it, applies or rejects a block, or installs parameters.
-/
inductive Resumed (rules : NodeRules) (s : Node) (env : StepEnv) : Node → Prop
  | quiet {s' : Node} (h : s.Quiet s') : Resumed rules s env s'
  | applied {w : Sweep} {block : LoadedBlock} {expected : Option Parameters}
      {outcome : ApplyStateOutcome} {validator : Validator} {task : SyncTask}
      (htask : s.task = .applyBlock w block)
      (hexpected : s.expectedBoundary rules block = .ok expected)
      (happly : s.validator.applyState rules.toBlockRules (s.blockArgs block expected) =
        (.ok outcome, validator))
      (hheld : task.held = none) (hinstall : task.toInstall = outcome.epochBoundary) :
      Resumed rules s env { s with validator := validator, task := task }
  | rejected {w : Sweep} {block : LoadedBlock} {expected : Option Parameters}
      {e : ValidationError} {validator : Validator}
      (htask : s.task = .applyBlock w block)
      (hexpected : s.expectedBoundary rules block = .ok expected)
      (happly : s.validator.applyState rules.toBlockRules (s.blockArgs block expected) =
        (.error e, validator)) :
      Resumed rules s env (finishSweep { s with validator := validator } w env)
  | installed {w : Sweep} {height : ℕ} {params : Parameters} {update : Bytes}
      (htask : s.task = .install w height params update) :
      Resumed rules s env
        { s with
          pipeline := { s.pipeline with
            chain := s.chain.applyEpochBoundaryParameters params update }
          task := .applied w height }

variable {rules : NodeRules} {cfg : SyncConfig} {s : Node} {env : StepEnv} {block : LoadedBlock}
  {task : SyncTask}

lemma Quiet.move (hinstall : s.task.toInstall = none)
    (hinstall' : task.toInstall = none)
    (hheld : ∀ header, task.held = some header →
      s.task.held = some header ∨ s.chain.headerAt header.height = some header) :
    s.Quiet { s with task := task } :=
  ⟨rfl, rfl, rfl, .inl rfl, hheld, hinstall, hinstall'⟩

lemma Quiet.beginSweep (hinstall : s.task.toInstall = none) (downloaded now : ℕ) :
    s.Quiet (beginSweep { s with downloadedHeight := downloaded } now) := by
  unfold Node.beginSweep
  dsimp only
  split
  · exact ⟨rfl, rfl, rfl, .inr rfl, by simp [SyncTask.held], hinstall, rfl⟩
  · split
    · exact ⟨rfl, rfl, rfl, .inl rfl, by simp [SyncTask.held], hinstall, rfl⟩
    · exact ⟨rfl, rfl, rfl, .inl rfl, by simp [SyncTask.held], hinstall, rfl⟩

lemma Quiet.finishSweep (hinstall : s.task.toInstall = none) (w : Sweep) :
    s.Quiet (s.finishSweep w env) :=
  ⟨rfl, rfl, rfl, .inr rfl, by simp [Node.finishSweep, SyncTask.held], hinstall, rfl⟩

lemma header_of_loadSections {height : ℕ} {header : Header}
    (h : s.loadSections rules cfg height header = some block) :
    block.header = header ∧ block.height = height := by
  unfold loadSections at h
  dsimp only at h
  split at h
  · split at h
    · cases h
      exact ⟨rfl, rfl⟩
    · cases h
  · cases h

lemma resumed_applyBlock {w : Sweep} (htask : s.task = .applyBlock w block) :
    Resumed rules s env (s.applyBlock rules w block env) := by
  have hinstall : s.task.toInstall = none := by rw [htask]; rfl
  unfold Node.applyBlock
  split
  · exact .quiet (.finishSweep hinstall w)
  next expected hexpected =>
    split
    next e validator happly =>
      exact .rejected htask hexpected happly
    next outcome validator happly =>
      split
      next params update hboundary =>
        exact .applied htask hexpected happly rfl (by rw [hboundary]; rfl)
      next hboundary =>
        exact .applied htask hexpected happly rfl (by rw [hboundary]; rfl)

lemma Quiet.drop (hinstall : s.task.toInstall = none)
    (hinstall' : task.toInstall = none) (hheld : task.held = none) :
    s.Quiet { s with task := task } :=
  .move hinstall hinstall' (fun header h => by simp [hheld] at h)

lemma Quiet.endScan (hinstall : s.task.toInstall = none) (newHeight now : ℕ) :
    s.Quiet (if s.downloadedHeight < newHeight then
      Node.beginSweep { s with downloadedHeight := newHeight } now else { s with task := .idle }) := by
  split
  · exact .beginSweep hinstall newHeight now
  · exact .drop hinstall rfl rfl

lemma Quiet.afterFlush (hinstall : s.task.toInstall = none) (store : ModifierStore)
    (point : FlushPoint) (outcome : FlushOutcome) :
    s.Quiet (Node.afterFlush { s with pipeline := { s.pipeline with store := store } }
      point outcome) := by
  unfold Node.afterFlush
  cases point with
  | midSweep w height => exact ⟨rfl, rfl, rfl, .inl rfl, by simp [SyncTask.held], hinstall, rfl⟩
  | sweepEnd => exact ⟨rfl, rfl, rfl, .inl rfl, by simp [SyncTask.held], hinstall, rfl⟩

lemma step_resume (rules : NodeRules) (cfg : SyncConfig) (s : Node) (env : StepEnv) :
    s.step rules cfg (.resume env) = s.resume rules cfg env := rfl

lemma resumed_resume (rules : NodeRules) (cfg : SyncConfig) (s : Node) (env : StepEnv) :
    Resumed rules s env (s.resume rules cfg env) := by
  have hinstall : ∀ task, s.task = task → task.toInstall = none → s.task.toInstall = none :=
    fun task h h' => h ▸ h'
  unfold resume
  cases htask : s.task with
  | idle =>
    exact .quiet ⟨rfl, rfl, rfl, .inl rfl, fun header h => .inl h, hinstall _ htask rfl,
      hinstall _ htask rfl⟩
  | advanceDownloaded =>
    dsimp only
    split
    · exact .quiet (.drop (hinstall _ htask rfl) rfl rfl)
    · exact .quiet (.drop (hinstall _ htask rfl) rfl rfl)
  | scanHeader height chainHeight newHeight =>
    dsimp only
    split
    · exact .quiet (.drop (hinstall _ htask rfl) rfl rfl)
    · exact .quiet (.endScan (hinstall _ htask rfl) newHeight env.now)
  | scanSections height chainHeight newHeight header =>
    dsimp only
    split
    · exact .quiet (.drop (hinstall _ htask rfl) rfl rfl)
    · exact .quiet (.endScan (hinstall _ htask rfl) newHeight env.now)
  | startSweep => exact .quiet (.beginSweep (hinstall _ htask rfl) s.downloadedHeight env.now)
  | readHeader w height =>
    dsimp only
    split
    next header hread =>
      split at hread
      · -- the header was just read, at its own height
        refine .quiet (.move (hinstall _ htask rfl) rfl (fun header' hheld => .inr ?_))
        obtain rfl : header = header' := by simpa [SyncTask.held] using hheld
        rwa [HeaderChain.height_of_headerAt hread]
      · cases hread
    · exact .quiet (.finishSweep (hinstall _ htask rfl) w)
  | readSections w height header =>
    dsimp only
    split
    next block hload =>
      refine .quiet (.move (hinstall _ htask rfl) rfl (fun header' hheld => .inl ?_))
      obtain ⟨hheader, -⟩ := header_of_loadSections hload
      rw [htask, ← hheld]
      exact congrArg some hheader.symm
    · exact .quiet (.drop (hinstall _ htask rfl) rfl rfl)
  | readPreceding w block heights =>
    cases heights with
    | nil => exact .quiet (.move (hinstall _ htask rfl) rfl (fun header h => .inl (htask ▸ h)))
    | cons h heights =>
      exact .quiet (.move (hinstall _ htask rfl) rfl (fun header h => .inl (htask ▸ h)))
  | applyBlock w block => exact resumed_applyBlock htask
  | install w height params update => exact .installed htask
  | applied w height =>
    dsimp only
    split
    · exact .quiet (.drop (hinstall _ htask rfl) rfl rfl)
    · exact .quiet (.drop (hinstall _ htask rfl) rfl rfl)
  | recordHeight point outcome =>
    exact .quiet ⟨rfl, rfl, rfl, .inl rfl, by simp [SyncTask.held], hinstall _ htask rfl, rfl⟩
  | flushStore point outcome => exact .quiet (.drop (hinstall _ htask rfl) rfl rfl)
  | prune point outcome =>
    dsimp only
    split
    · exact .quiet (.afterFlush (hinstall _ htask rfl) _ point outcome)
    · exact .quiet (.afterFlush (hinstall _ htask rfl) s.pipeline.store point outcome)

end Node

end ErgoNode
