import ErgoNode.Mempool.Pool

/-!
# Calls on the mempool

`process` validates a transaction, resolves conflicts and keeps the pool within its capacity;
`returnToPool` puts back what a reorg took out of the chain and checks nothing but that it is not
there yet. Transactions leave when a block confirms them or a conflict, when they are invalidated,
and when a revalidation finds them invalid. Validation and the UTXO set are parameters. How far the
walk over ancestors comes before its time is up is part of the event.
-/

namespace ErgoNode

/-- What scripts see of the chain. -/
structure ErgoStateContext where
  /-- The header of the block to come, as far as it is known. -/
  preHeader : Header
  headers : List Header
  parameters : Parameters

/-- `validate_single_transaction`: the cost in block cost units, or why the transaction is invalid. -/
abbrev TxRules :=
  ErgoTransaction → List ErgoBox → List ErgoBox → ErgoStateContext → Except String ℕ

abbrev UtxoReader := BoxRef → Option ErgoBox

namespace ErgoTransaction

def extractFee (tx : ErgoTransaction) (feeProposition : Bytes) : ℕ :=
  ((tx.outputs.filter (·.ergoTree = feeProposition)).map (·.value)).sum % 2 ^ 64

def outputAbovePreheader (tx : ErgoTransaction) (ctx : ErgoStateContext) : Option ℕ :=
  (tx.outputs.map (·.creationHeight)).find? (fun h => wrapI32 ctx.preHeader.height < wrapI32 h)

end ErgoTransaction

/-! ## Ids found invalid -/

/-- Ids with the time they were inserted, oldest first. -/
structure ExpiringCache where
  entries : List (TxId × ℕ)
  ttl : ℕ
  capacity : ℕ

namespace ExpiringCache

def insert (cache : ExpiringCache) (key : TxId) (now : ℕ) : ExpiringCache :=
  if key ∈ cache.entries.map Prod.fst then cache
  else
    { cache with
      entries := cache.entries.drop (cache.entries.length - (cache.capacity - 1)) ++ [(key, now)] }

def contains (cache : ExpiringCache) (key : TxId) (now : ℕ) : Bool :=
  cache.entries.any (fun entry => entry.1 = key ∧ now - entry.2 < cache.ttl)

def prune (cache : ExpiringCache) (now : ℕ) : ExpiringCache :=
  { cache with entries := cache.entries.filter (fun entry => now - entry.2 < cache.ttl) }

end ExpiringCache

/-! ## The mempool -/

structure MempoolConfig where
  capacity : ℕ := 1000
  minFee : ℕ := 1000000
  feeStrategy : FeeStrategy := .feePerByte
  /-- Milliseconds between validations of a transaction. -/
  cleanupInterval : ℕ := 30000
  /-- Milliseconds an invalid id is remembered. -/
  invalidationTtl : ℕ := 1800000
  invalidationCapacity : ℕ := 10000
  /-- Validation cost of remote transactions between blocks. -/
  costPerBlock : ℕ := 12000000
  costPerPeerPerBlock : ℕ := 10000000

structure Mempool where
  pool : OrderedPool
  invalidated : ExpiringCache
  config : MempoolConfig
  feeProposition : Bytes
  interblockCost : ℕ
  perPeerCost : ℕ → Option ℕ

/-- Why a transaction may be offered again. -/
inductive DeclineReason where
  | interblockCost
  | perPeerCost
  | tooManyInputs (n : ℕ)
  | inputNotFound (b : BoxRef)
  | creationHeight (h p : ℕ)
  | feeBelowMinimum (f m : ℕ)
  | poolFull
  deriving DecidableEq, Repr

inductive ProcessingOutcome where
  | accepted (txId : TxId)
  | replaced (txId : TxId) (removed : List TxId)
  | doubleSpendLoser (winnerIds : List TxId)
  | declined (reason : DeclineReason)
  | invalidated (reason : String)
  | alreadyInPool
  deriving DecidableEq, Repr

namespace OrderedPool

def removeAll (p : OrderedPool) (txIds : List TxId) : OrderedPool :=
  txIds.foldl (fun p txId => (p.remove txId).2) p

def addConflict (p : OrderedPool) (found : List TxId) (boxId : BoxRef) : List TxId :=
  match p.spendingTx boxId with
  | some w => if w.txId ∈ found then found else found ++ [w.txId]
  | none => found

def conflicts (p : OrderedPool) (inputIds : List BoxRef) : List TxId :=
  inputIds.foldl p.addConflict []

def maxParentScanDepth : ℕ := 500

/-- The parents of boxes among the transactions of the pool, with a weight to add. -/
def parents (p : OrderedPool) (inputIds : List BoxRef) (weight : ℕ) : List (TxId × ℕ) :=
  inputIds.filterMap (fun boxId => (p.byOutput boxId).map (fun row => (row.1.txId, weight)))

/-- The walk over ancestors. `toVisit` is a stack with its top first; `budget` is the number of
turns before the time is up. -/
def propagateLoop : (budget depth : ℕ) → List (TxId × ℕ) → OrderedPool → OrderedPool
  | 0, _, _, p => p
  | _, _, [], p => p
  | budget + 1, depth, (parentId, weightToAdd) :: toVisit, p =>
    if maxParentScanDepth ≤ depth then p
    else match p.byId parentId with
      | none => propagateLoop budget depth toVisit p
      | some w =>
        let p' := p.updateWeight parentId ((w.weight + weightToAdd) % 2 ^ 64)
        let next := match p'.get parentId with
          | some utx => (p'.parents utx.tx.inputs weightToAdd).reverse ++ toVisit
          | none => toVisit
        propagateLoop budget (depth + 1) next p'

def propagateFamilyWeight (p : OrderedPool) (inputIds : List BoxRef) (feePerFactor budget : ℕ) :
    OrderedPool :=
  propagateLoop budget 0 (p.parents inputIds feePerFactor).reverse p

/-- Evict while the pool is over capacity. Each turn takes one transaction out. -/
def evictOver (capacity : ℕ) : (turns : ℕ) → OrderedPool → List TxId × OrderedPool
  | 0, p => ([], p)
  | turns + 1, p =>
    if capacity < p.len then
      let (evicted, p') := p.evictLowest
      let (rest, p'') := evictOver capacity turns p'
      (evicted.toList ++ rest, p'')
    else ([], p)

end OrderedPool

namespace Mempool

def new (config : MempoolConfig) (feeProposition : Bytes) : Mempool where
  pool := .new config.capacity
  invalidated := ⟨[], config.invalidationTtl, config.invalidationCapacity⟩
  config := config
  feeProposition := feeProposition
  interblockCost := 0
  perPeerCost := fun _ => none

/-- A box of the UTXO set or, failing that, an unconfirmed one. -/
def resolve (m : Mempool) (utxo : UtxoReader) (boxId : BoxRef) : Option ErgoBox :=
  (utxo boxId).or (m.pool.unconfirmedBox boxId)

/-- The budget a remote transaction finds exhausted. -/
def rateLimited (m : Mempool) (source : Option ℕ) : Option DeclineReason :=
  match source with
  | none => none
  | some peer =>
    if m.config.costPerBlock ≤ m.interblockCost then some .interblockCost
    else if (m.perPeerCost peer).any (m.config.costPerPeerPerBlock ≤ ·) then some .perPeerCost
    else none

def charge (m : Mempool) (source : Option ℕ) (cost : ℕ) : Mempool :=
  match source with
  | none => m
  | some peer =>
    { m with
      interblockCost := (m.interblockCost + cost) % 2 ^ 64
      perPeerCost := Function.update m.perPeerCost peer
        (some (((m.perPeerCost peer).getD 0 + cost) % 2 ^ 64)) }

/-- Steps 10 to 13 of `process`: the transaction won against its conflicts, which are removed. -/
def enter (m : Mempool) (utx : UnconfirmedTx) (weight : TxWeight) (conflicts : List TxId)
    (scanBudget : ℕ) : ProcessingOutcome × Mempool :=
  if m.pool.isFull ∧ m.pool.lowestWeight.any (weight.weight ≤ ·) then (.declined .poolFull, m)
  else
    let inserted := m.pool.insert weight utx utx.tx.inputs utx.tx.outputBoxes
    let weighed := inserted.propagateFamilyWeight utx.tx.inputs weight.feePerFactor scanBudget
    let (evicted, pool) := weighed.evictOver m.config.capacity weighed.len
    let outcome := if conflicts = [] then .accepted utx.tx.id
      else .replaced utx.tx.id (conflicts ++ evicted)
    (outcome, { m with pool := pool })

/-- Steps 7 to 9 of `process`, for a transaction that passed validation. -/
def weigh (m : Mempool) (tx : ErgoTransaction) (txBytes : Bytes) (cost validationCost : ℕ)
    (source : Option ℕ) (now scanBudget : ℕ) : ProcessingOutcome × Mempool :=
  let fee := tx.extractFee m.feeProposition
  if fee < m.config.minFee then (.declined (.feeBelowMinimum fee m.config.minFee), m)
  else
    let weight := TxWeight.new tx.id fee txBytes.length cost m.config.feeStrategy
    let utx : UnconfirmedTx := ⟨tx, txBytes, fee, cost, some validationCost, now, now, source⟩
    let conflicts := m.pool.conflicts tx.inputs
    if conflicts = [] then m.enter utx weight [] scanBudget
    else
      let total := ((conflicts.filterMap m.pool.byId).map (·.weight)).sum % 2 ^ 64
      if weight.weight ≤ total / conflicts.length then (.doubleSpendLoser conflicts, m)
      else { m with pool := m.pool.removeAll conflicts }.enter utx weight conflicts scanBudget

def maxTxInputs : ℕ := 5000

def process (rules : TxRules) (m : Mempool) (tx : ErgoTransaction) (txBytes : Bytes)
    (utxo : UtxoReader) (ctx : ErgoStateContext) (source : Option ℕ) (now scanBudget : ℕ) :
    ProcessingOutcome × Mempool :=
  if m.invalidated.contains tx.id now then (.invalidated "previously invalidated", m)
  else if m.pool.contains tx.id then (.alreadyInPool, m)
  else match m.rateLimited source with
  | some reason => (.declined reason, m)
  | none =>
    if maxTxInputs < tx.inputs.length then (.declined (.tooManyInputs tx.inputs.length), m)
    else match tx.inputs.find? (fun boxId => (m.resolve utxo boxId).isNone) with
    | some boxId => (.declined (.inputNotFound boxId), m)
    | none =>
      match tx.outputAbovePreheader ctx with
      | some height => (.declined (.creationHeight height ctx.preHeader.height), m)
      | none =>
        match rules tx (tx.inputs.filterMap (m.resolve utxo))
            (tx.dataInputs.filterMap (m.resolve utxo)) ctx with
        | .error e => (.invalidated e, { m with invalidated := m.invalidated.insert tx.id now })
        | .ok validationCost =>
          let cost := max validationCost txBytes.length % 2 ^ 32
          (m.charge source cost).weigh tx txBytes cost validationCost source now scanBudget

def invalidate (m : Mempool) (txId : TxId) (now : ℕ) : Mempool :=
  { m with
    pool := (m.pool.remove txId).2
    invalidated := m.invalidated.insert txId now }

/-- What one confirmed transaction takes out of the pool: itself, and what spends its inputs. -/
def confirm (p : OrderedPool) (tx : ErgoTransaction) : OrderedPool :=
  tx.inputs.foldl (fun p boxId =>
    match p.spendingTx boxId with
    | some w => if w.txId ≠ tx.id then (p.remove w.txId).2 else p
    | none => p) (p.remove tx.id).2

def applyBlock (m : Mempool) (confirmed : List ErgoTransaction) (now : ℕ) : Mempool :=
  { m with
    pool := confirmed.foldl confirm m.pool
    interblockCost := 0
    perPeerCost := fun _ => none
    invalidated := m.invalidated.prune now }

def returnOne (strategy : FeeStrategy) (p : OrderedPool) (utx : UnconfirmedTx) : OrderedPool :=
  if p.contains utx.tx.id then p
  else
    let weight := TxWeight.new utx.tx.id utx.fee utx.txBytes.length utx.cost strategy
    p.insert weight utx utx.tx.inputs utx.tx.outputBoxes

def returnToPool (m : Mempool) (txs : List UnconfirmedTx) : Mempool :=
  { m with pool := txs.foldl (returnOne m.config.feeStrategy) m.pool }

def cleanupCostLimit : ℕ := 7000000

/-- The loop of `revalidate_within` over the ids that are left, with the cost spent so far. -/
def revalidateLoop (rules : TxRules) (now limit : ℕ) (utxo : UtxoReader) (ctx : ErgoStateContext) :
    List TxId → (spent : ℕ) → Mempool → Mempool
  | [], _, m => m
  | txId :: rest, spent, m =>
    match m.pool.get txId with
    | none => revalidateLoop rules now limit utxo ctx rest spent m
    | some utx =>
      if now - utx.lastChecked ≤ m.config.cleanupInterval then
        revalidateLoop rules now limit utxo ctx rest spent m
      else if limit ≤ spent then m
      -- built ahead of the tip: early, not invalid
      else if (utx.tx.outputAbovePreheader ctx).isSome then
        revalidateLoop rules now limit utxo ctx rest spent m
      else
        let spentRemoving := min (spent + utx.validationCost.getD 0) (2 ^ 64 - 1)
        let removed := { m with pool := (m.pool.remove txId).2 }
        if utx.tx.inputs.any (fun boxId => (m.resolve utxo boxId).isNone) then
          revalidateLoop rules now limit utxo ctx rest spentRemoving removed
        else match rules utx.tx (utx.tx.inputs.filterMap (m.resolve utxo))
            (utx.tx.dataInputs.filterMap (m.resolve utxo)) ctx with
          | .ok measured =>
            let checked := m.pool.modifyEntry txId (fun utx =>
              { utx with validationCost := some measured, lastChecked := now })
            revalidateLoop rules now limit utxo ctx rest (min (spent + measured) (2 ^ 64 - 1))
              { m with pool := checked }
          | .error _ =>
            revalidateLoop rules now limit utxo ctx rest spentRemoving
              { removed with invalidated := m.invalidated.insert txId now }

def revalidate (rules : TxRules) (m : Mempool) (now : ℕ) (utxo : UtxoReader)
    (ctx : ErgoStateContext) : Mempool :=
  revalidateLoop rules now cleanupCostLimit utxo ctx (m.pool.ordered.map (·.1.txId)) 0 m

end Mempool

inductive MempoolEvent where
  | process (tx : ErgoTransaction) (txBytes : Bytes) (utxo : UtxoReader) (ctx : ErgoStateContext)
    (source : Option ℕ) (now scanBudget : ℕ)
  | applyBlock (confirmed : List ErgoTransaction) (now : ℕ)
  | returnToPool (txs : List UnconfirmedTx)
  | invalidate (txId : TxId) (now : ℕ)
  | revalidate (now : ℕ) (utxo : UtxoReader) (ctx : ErgoStateContext)

def Mempool.step (rules : TxRules) (m : Mempool) : MempoolEvent → Mempool
  | .process tx txBytes utxo ctx source now scanBudget =>
    (m.process rules tx txBytes utxo ctx source now scanBudget).2
  | .applyBlock confirmed now => m.applyBlock confirmed now
  | .returnToPool txs => m.returnToPool txs
  | .invalidate txId now => m.invalidate txId now
  | .revalidate now utxo ctx => m.revalidate rules now utxo ctx

end ErgoNode
