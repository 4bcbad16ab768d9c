import ErgoNode.Mempool.Process
import ErgoNode.Validation.Sections

/-!
# Selection of transactions for a block

The miner walks over the mempool's transactions in their order and takes each one that fits: it
spends no box that is spent in the block, its boxes are in the UTXO set or created earlier in the
block, it validates, and neither limit of the block is passed. Validation also says what the
transaction costs, so a selected transaction carries its cost and its size.
-/

namespace ErgoNode

open List

structure CostedTx where
  tx : ErgoTransaction
  cost : ℕ
  size : ℕ

def saturatingAdd (a b : ℕ) : ℕ := min (a + b) (2 ^ 64 - 1)

/-! ## Framing -/

def vlqLenLoop : (turns rest : ℕ) → ℕ
  | 0, _ => 0
  | turns + 1, rest => if rest = 0 then 0 else 1 + vlqLenLoop turns (rest >>> 7)

def vlqLen (v : ℕ) : ℕ := 1 + vlqLenLoop 9 (v >>> 7)

def blockTransactionsOverhead (blockVersion : UInt8) (txCount : ℕ) : ℕ :=
  let versionBytes := if 1 < blockVersion.toNat
    then vlqLen (blockVersionSentinel + blockVersion.toNat) else 0
  32 + versionBytes + vlqLen txCount

lemma length_putVlqGroups (turns n : ℕ) :
    (putVlqGroups (turns + 1) n).length = 1 + vlqLenLoop turns (n >>> 7) := by
  induction turns generalizing n with
  | zero =>
    rw [putVlqGroups]
    split <;> simp [putVlqGroups, vlqLenLoop]
  | succ turns ih =>
    rw [putVlqGroups, vlqLenLoop, Nat.shiftRight_eq_div_pow]
    have hzero : n / 2 ^ 7 = 0 ↔ n < 128 := by omega
    split
    next hlast =>
      rw [if_pos (hzero.2 hlast)]
      rfl
    next hmore =>
      rw [if_neg (mt hzero.1 hmore), length_cons, ih]
      exact Nat.add_comm _ _

lemma vlqLen_eq_length (n : ℕ) : vlqLen n = (putVlq n).length := (length_putVlqGroups 9 n).symm

lemma vlqLen_sentinel (blockVersion : UInt8) :
    vlqLen (blockVersionSentinel + blockVersion.toNat) = 4 := by
  have hlt : blockVersion.toNat < 256 := blockVersion.toNat_lt
  have h1 : (10000000 + blockVersion.toNat) / 2 ^ 7 ≠ 0 := by omega
  have h2 : (10000000 + blockVersion.toNat) / 2 ^ 7 / 2 ^ 7 ≠ 0 := by omega
  have h3 : (10000000 + blockVersion.toNat) / 2 ^ 7 / 2 ^ 7 / 2 ^ 7 ≠ 0 := by omega
  have h4 : (10000000 + blockVersion.toNat) / 2 ^ 7 / 2 ^ 7 / 2 ^ 7 / 2 ^ 7 = 0 := by omega
  simp only [vlqLen, vlqLenLoop, blockVersionSentinel, Nat.shiftRight_eq_div_pow, if_neg h1,
    if_neg h2, if_neg h3, if_pos h4]

/-! ## Boxes of a block -/

def outputsOf (txs : List ErgoTransaction) : BoxRef → Option ErgoBox :=
  txs.foldl (fun m tx => writeRows m (tx.outputBoxes.map (fun b => (b.boxId, b)))) (fun _ => none)

lemma outputsOf_concat (txs : List ErgoTransaction) (tx : ErgoTransaction) :
    outputsOf (txs ++ [tx]) =
      writeRows (outputsOf txs) (tx.outputBoxes.map (fun b => (b.boxId, b))) := by
  rw [outputsOf, foldl_append]
  rfl

lemma exists_of_outputsOf {txs : List ErgoTransaction} {boxId : BoxRef} {b : ErgoBox}
    (h : outputsOf txs boxId = some b) : ∃ tx ∈ txs, b ∈ tx.outputBoxes ∧ b.boxId = boxId := by
  induction txs using reverseRecOn with
  | nil => cases h
  | append_singleton txs tx ih =>
    rw [outputsOf_concat] at h
    by_cases hmem : ∃ b' ∈ tx.outputBoxes, b'.boxId = boxId
    · obtain ⟨b', hb', rfl⟩ := hmem
      have hrow : (b'.boxId, b') ∈ tx.outputBoxes.map (fun b => (b.boxId, b)) :=
        mem_map.2 ⟨b', hb', rfl⟩
      -- outputs of one transaction have distinct ids
      have hsame : ∀ b'', (b'.boxId, b'') ∈ tx.outputBoxes.map (fun b => (b.boxId, b)) →
          b'' = b' := by
        intro b'' hb''
        obtain ⟨c, hc, heq⟩ := mem_map.1 hb''
        obtain ⟨hid, rfl⟩ := Prod.mk.inj heq
        exact ErgoTransaction.eq_of_mem_outputBoxes hc hb' hid
      rw [writeRows_of_mem hrow hsame] at h
      cases h
      exact ⟨tx, mem_append_right _ (mem_singleton_self _), hb', rfl⟩
    · have habsent : ∀ b', (boxId, b') ∉ tx.outputBoxes.map (fun b => (b.boxId, b)) := by
        intro b' hb'
        obtain ⟨c, hc, heq⟩ := mem_map.1 hb'
        exact hmem ⟨c, hc, (Prod.mk.inj heq).1⟩
      rw [writeRows_of_notMem habsent] at h
      obtain ⟨tx', htx', hb⟩ := ih h
      exact ⟨tx', mem_append_left _ htx', hb⟩

def lookupAfter (utxo : UtxoReader) (before : List ErgoTransaction) (boxId : BoxRef) :
    Option ErgoBox :=
  (outputsOf before boxId).or (utxo boxId)

def txCost (rules : TxRules) (ctx : ErgoStateContext) (utxo : UtxoReader)
    (before : List ErgoTransaction) (tx : ErgoTransaction) : Option ℕ := do
  let inputBoxes ← tx.inputs.mapM (lookupAfter utxo before)
  let dataBoxes ← tx.dataInputs.mapM (lookupAfter utxo before)
  (rules tx inputBoxes dataBoxes ctx).toOption

def blockCost (rules : TxRules) (ctx : ErgoStateContext) (utxo : UtxoReader) :
    (before txs : List ErgoTransaction) → Option ℕ
  | _, [] => some 0
  | before, tx :: txs => do
    let cost ← txCost rules ctx utxo before tx
    let rest ← blockCost rules ctx utxo (before ++ [tx]) txs
    some (cost + rest)

/-! ## The walk -/

structure SelectionState where
  selected : List CostedTx
  invalidIds : List TxId
  /-- Bytes of the transactions in the block. -/
  accumulatedTxBytes : ℕ
  accumulatedCost : ℕ
  availableOutputs : BoxRef → Option ErgoBox
  spentIds : List BoxRef

def SelectionState.record (s : SelectionState) (tx : ErgoTransaction) : SelectionState :=
  { s with
    availableOutputs := writeRows s.availableOutputs (tx.outputBoxes.map (fun b => (b.boxId, b)))
    spentIds := s.spentIds ++ tx.inputs }

def SelectionState.accept (s : SelectionState) (t : CostedTx) : SelectionState :=
  { s with
    accumulatedCost := s.accumulatedCost + t.cost
    accumulatedTxBytes := s.accumulatedTxBytes + t.size
    selected := s.selected ++ [t] }.record t.tx

structure SelectionContext where
  rules : TxRules
  ctx : ErgoStateContext
  utxo : UtxoReader
  blockVersion : UInt8
  maxBlockSize : ℕ
  maxBlockCost : ℕ

namespace SelectionContext

def start (committed : List CostedTx) : SelectionState :=
  committed.foldl (fun s c =>
    { s with
      accumulatedCost := saturatingAdd s.accumulatedCost c.cost
      accumulatedTxBytes := saturatingAdd s.accumulatedTxBytes c.size }.record c.tx)
    ⟨[], [], 0, 0, fun _ => none, []⟩

def consider (c : SelectionContext) (committed : ℕ) (s : SelectionState)
    (candidate : ErgoTransaction × ℕ) : SelectionState :=
  let (tx, txSize) := candidate
  let overhead := blockTransactionsOverhead c.blockVersion (committed + s.selected.length + 1)
  if c.maxBlockSize < saturatingAdd (saturatingAdd overhead s.accumulatedTxBytes) txSize then s
  else if tx.inputs.any (· ∈ s.spentIds) then s
  else
    let lookup := fun boxId => (s.availableOutputs boxId).or (c.utxo boxId)
    match tx.inputs.mapM lookup, tx.dataInputs.mapM lookup with
    | some inputBoxes, some dataBoxes =>
      match c.rules tx inputBoxes dataBoxes c.ctx with
      | .ok txCost =>
        let total := s.accumulatedCost + txCost
        if total < 2 ^ 64 ∧ total ≤ c.maxBlockCost then s.accept ⟨tx, txCost, txSize⟩
        -- over budget, but valid: it stays in the mempool
        else s
      | .error _ => { s with invalidIds := s.invalidIds ++ [tx.id] }
    | _, _ => s

def selectTransactions (c : SelectionContext) (candidates : List (ErgoTransaction × ℕ))
    (committed : List CostedTx) : List CostedTx × List TxId :=
  let s := candidates.foldl (c.consider committed.length) (start committed)
  (s.selected, s.invalidIds)

/-! ## What is selected -/

/-- Transactions that cost what they carry, after the ones before them. -/
def Measured (c : SelectionContext) : (before : List ErgoTransaction) → List CostedTx → Prop
  | _, [] => True
  | before, t :: ts =>
    txCost c.rules c.ctx c.utxo before t.tx = some t.cost ∧ c.Measured (before ++ [t.tx]) ts

variable {c : SelectionContext} {candidates : List (ErgoTransaction × ℕ)}
  {committed before : List ErgoTransaction} {s : SelectionState}

lemma measured_append {ts ts' : List CostedTx} :
    c.Measured before (ts ++ ts') ↔
      c.Measured before ts ∧ c.Measured (before ++ ts.map (·.tx)) ts' := by
  induction ts generalizing before with
  | nil => simp [Measured]
  | cons t ts ih => simp [Measured, ih, and_assoc]

lemma blockCost_of_measured {ts : List CostedTx} (h : c.Measured before ts) :
    blockCost c.rules c.ctx c.utxo before (ts.map (·.tx)) = some (ts.map (·.cost)).sum := by
  induction ts generalizing before with
  | nil => rfl
  | cons t ts ih => simp [blockCost, h.1, ih h.2]

/-- The invariant of the walk: what is selected are candidates without common inputs, and the
accumulators are theirs. -/
structure Selects (c : SelectionContext) (committed : List ErgoTransaction)
    (candidates : List (ErgoTransaction × ℕ)) (s : SelectionState) : Prop where
  mem : ∀ t ∈ s.selected, (t.tx, t.size) ∈ candidates
  disjoint : (committed ++ s.selected.map (·.tx)).Pairwise (fun a b => a.inputs.Disjoint b.inputs)
  measured : c.Measured committed s.selected
  available : s.availableOutputs = outputsOf (committed ++ s.selected.map (·.tx))
  spent : ∀ tx ∈ committed ++ s.selected.map (·.tx), tx.inputs ⊆ s.spentIds

lemma Selects.accept
    (h : c.Selects committed candidates s) {t : CostedTx}
    (hmem : (t.tx, t.size) ∈ candidates) (hfree : ∀ boxId ∈ t.tx.inputs, boxId ∉ s.spentIds)
    (hcost : txCost c.rules c.ctx c.utxo (committed ++ s.selected.map CostedTx.tx) t.tx =
      some t.cost) : c.Selects committed candidates (s.accept t) := by
  have hlist : committed ++ (s.accept t).selected.map CostedTx.tx =
      (committed ++ s.selected.map CostedTx.tx) ++ [t.tx] := by
    simp [SelectionState.accept, SelectionState.record]
  constructor
  case mem =>
    intro t' ht'
    rcases mem_append.1 ht' with ht' | ht'
    · exact h.mem t' ht'
    · obtain rfl := mem_singleton.1 ht'
      exact hmem
  case disjoint =>
    rw [hlist, pairwise_append]
    refine ⟨h.disjoint, pairwise_singleton _ _, ?_⟩
    intro a ha b hb boxId hboxId hboxId'
    obtain rfl := mem_singleton.1 hb
    exact hfree boxId hboxId' (h.spent a ha hboxId)
  case measured => exact measured_append.2 ⟨h.measured, hcost, trivial⟩
  case available =>
    rw [hlist, outputsOf_concat, ← h.available]
    rfl
  case spent =>
    rw [hlist]
    intro tx htx
    rcases mem_append.1 htx with htx | htx
    · exact subset_append_of_subset_left _ (h.spent tx htx)
    · obtain rfl := mem_singleton.1 htx
      exact subset_append_right _ _

lemma selects_consider (h : c.Selects committed candidates s) {candidate : ErgoTransaction × ℕ}
    (hmem : candidate ∈ candidates) (n : ℕ) :
    c.Selects committed candidates (c.consider n s candidate) := by
  obtain ⟨tx, txSize⟩ := candidate
  rw [consider]
  dsimp only
  split
  · exact h
  split
  · exact h
  rename_i hany
  have hfree : ∀ boxId ∈ tx.inputs, boxId ∉ s.spentIds := by
    intro boxId hboxId hspent
    exact hany (any_eq_true.2 ⟨boxId, hboxId, decide_eq_true hspent⟩)
  have hlookup : (fun boxId => (s.availableOutputs boxId).or (c.utxo boxId)) =
      lookupAfter c.utxo (committed ++ s.selected.map CostedTx.tx) := by
    funext boxId
    rw [h.available, lookupAfter]
  rw [hlookup]
  split
  next inputBoxes dataBoxes hinputs hdata =>
    split
    next cost hcost =>
      split
      · refine h.accept hmem hfree ?_
        simp [txCost, hinputs, hdata, hcost, Except.toOption]
      · exact h
    · exact { h with }
  · exact h

/-- **What selection returns after one committed transaction.** -/
theorem selectTransactions_selected (c : SelectionContext)
    (candidates : List (ErgoTransaction × ℕ)) (first : CostedTx) :
    ∃ s, c.Selects [first.tx] candidates s ∧
      (c.selectTransactions candidates [first]).1 = s.selected := by
  have hstart : c.Selects [first.tx] candidates (start [first]) := by
    refine ⟨?_, ?_, trivial, rfl, ?_⟩
    · intro t ht
      cases ht
    · exact pairwise_singleton _ _
    · intro t ht
      obtain rfl := mem_singleton.1 ht
      exact subset_append_right _ _
  -- every prefix of the walk keeps the invariant
  have hwalk : ∀ (rest : List (ErgoTransaction × ℕ)) (s : SelectionState), rest ⊆ candidates →
      c.Selects [first.tx] candidates s →
      c.Selects [first.tx] candidates (rest.foldl (c.consider [first].length) s) := by
    intro rest
    induction rest with
    | nil => exact fun s _ h => h
    | cons candidate rest ih =>
      intro s hsub h
      exact ih _ (fun x hx => hsub (mem_cons_of_mem _ hx))
        (selects_consider h (hsub mem_cons_self) _)
  exact ⟨_, hwalk candidates _ (Subset.refl _) hstart, rfl⟩

end SelectionContext

end ErgoNode
