import ErgoNode.Mining.Selection

/-!
# The fee transaction

The fee outputs of a block's transactions that nothing in the block spends are collected by one
transaction into a box of the miner. It carries their tokens, in the order they are first seen, as
many as the size of one box allows.

Scripts, box serialization and the construction of boxes and transactions are the library's.
-/

namespace ErgoNode

open List

inductive MiningError where
  | emission (message : String)
  | assemblyFailed (message : String)
  | unavailable (message : String)
  | validation (message : String)
  deriving DecidableEq, Repr

structure FeeRules where
  /-- Serialized fee proposition, or why it cannot be built or serialized. -/
  feeProposition : Except String Bytes
  rewardOutputScript : Except String Bytes
  boxValue : ℕ → Except String ℕ
  tokenAmount : ℕ → Except String ℕ
  boxTokens : List (ℕ × ℕ) → Except String (List (ℕ × ℕ))
  /-- Bytes of a box with transaction id zero and index 0. -/
  boxBytes : BoxCandidate → Except String Bytes
  maxTokensCount : ℕ
  maxBoxSize : ℕ
  build : BoxCandidate → Except String BoxCandidate
  /-- A transaction with these inputs, no data inputs and one output. -/
  newTransaction : List BoxRef → BoxCandidate → Except String ErgoTransaction
  /-- It has these inputs and no data inputs. -/
  newTransaction_inputs : ∀ {inputIds : List BoxRef} {output : BoxCandidate} {tx : ErgoTransaction},
    newTransaction inputIds output = .ok tx → tx.inputs = inputIds ∧ tx.dataInputs = []

def atStep {α : Type} (step : String) (x : Except String α) : Except MiningError α :=
  x.mapError (fun e => .emission (step ++ ": " ++ e))

lemma atStep_eq_ok {α : Type} {step : String} {x : Except String α} {a : α} :
    atStep step x = .ok a ↔ x = .ok a := by
  cases x with
  | ok b => simp [atStep, Except.mapError]
  | error e => simp [atStep, Except.mapError]

/-- The fee outputs of a block that nothing in the block spends. -/
def feeBoxes (feeTree : Bytes) (blockTxs : List ErgoTransaction) : List ErgoBox :=
  let spentIds := blockTxs.flatMap (·.inputs)
  blockTxs.flatMap (fun tx => tx.outputBoxes.filter (fun b =>
    b.candidate.ergoTree = feeTree ∧ b.boxId ∉ spentIds))

/-- Add a token to an aggregate, at the place where its id was first seen. -/
def addToken (aggregated : List (ℕ × ℕ)) (token : ℕ × ℕ) : List (ℕ × ℕ) :=
  if token.1 ∈ aggregated.map Prod.fst then
    aggregated.map (fun t => if t.1 = token.1 then (t.1, saturatingAdd t.2 token.2) else t)
  else aggregated ++ [token]

namespace FeeRules

variable (rules : FeeRules)

def rewardBoxSize (value : ℕ) (script : Bytes) (tokens : List (ℕ × ℕ)) (height : ℕ) :
    Except MiningError ℕ := do
  let boxTokens ← match tokens with
    | [] => .ok []
    | _ :: _ => atStep "fee tokens" (rules.boxTokens tokens)
  let bytes ← atStep "fee reward box measure" (rules.boxBytes ⟨value, script, height, boxTokens⟩)
  .ok bytes.length

def fitTokensLoop (value : ℕ) (script : Bytes) (height : ℕ) :
    (rest kept : List (ℕ × ℕ)) → Except MiningError (List (ℕ × ℕ))
  | [], kept => .ok kept
  | (tokenId, amount) :: rest, kept => do
    let tokenAmount ← atStep "fee token amount" (rules.tokenAmount amount)
    let size ← rules.rewardBoxSize value script (kept ++ [(tokenId, tokenAmount)]) height
    if rules.maxBoxSize < size then .ok kept
    else fitTokensLoop value script height rest (kept ++ [(tokenId, tokenAmount)])

def fitTokens (aggregated : List (ℕ × ℕ)) (value : ℕ) (script : Bytes) (height : ℕ) :
    Except MiningError (List (ℕ × ℕ)) :=
  rules.fitTokensLoop value script height (aggregated.take rules.maxTokensCount) []

def buildFeeTx (blockTxs : List ErgoTransaction) (height : ℕ) :
    Except MiningError (Option ErgoTransaction) := do
  let feeTree ← atStep "fee proposition" rules.feeProposition
  let boxes := feeBoxes feeTree blockTxs
  -- the sum is one of 64-bit signed integers
  let totalFee : ℤ := ((boxes.map (·.candidate.value)).sum : ℤ).bmod (2 ^ 64)
  if boxes = [] ∨ totalFee ≤ 0 then .ok none
  else do
    let aggregated := (boxes.flatMap (·.candidate.tokens)).foldl addToken []
    let script ← atStep "reward script" rules.rewardOutputScript
    let value ← atStep "fee value" (rules.boxValue totalFee.toNat)
    let kept ← rules.fitTokens aggregated value script height
    let reward ← atStep "fee reward box build" (rules.build ⟨value, script, height, kept⟩)
    let tx ← atStep "fee transaction" (rules.newTransaction (boxes.map (·.boxId)) reward)
    .ok (some tx)

variable {rules}

variable {blockTxs : List ErgoTransaction}

lemma buildFeeTx_eq_ok {height : ℕ} {tx : ErgoTransaction}
    (h : rules.buildFeeTx blockTxs height = .ok (some tx)) :
    ∃ feeTree, tx.inputs = (feeBoxes feeTree blockTxs).map (·.boxId) ∧ tx.dataInputs = [] := by
  rw [buildFeeTx, bind_eq_ok] at h
  obtain ⟨feeTree, -, h⟩ := h
  dsimp only at h
  split at h
  · cases h
  · simp only [bind_eq_ok, atStep_eq_ok] at h
    obtain ⟨script, -, value, -, kept, -, reward, -, tx', htx, heq⟩ := h
    cases heq
    exact ⟨feeTree, rules.newTransaction_inputs htx⟩

end FeeRules

/-! ## Fee boxes -/

lemma mem_feeBoxes {feeTree : Bytes} {b : ErgoBox} (h : b ∈ feeBoxes feeTree blockTxs) :
    (∃ tx ∈ blockTxs, b ∈ tx.outputBoxes) ∧ ∀ tx ∈ blockTxs, b.boxId ∉ tx.inputs := by
  obtain ⟨tx, htx, hb⟩ := mem_flatMap.1 h
  obtain ⟨hout, hfee⟩ := mem_filter.1 hb
  refine ⟨⟨tx, htx, hout⟩, fun tx' htx' hspent => ?_⟩
  exact (of_decide_eq_true hfee).2 (mem_flatMap.2 ⟨tx', htx', hspent⟩)

lemma ErgoTransaction.nodup_outputBoxes (tx : ErgoTransaction) :
    (tx.outputBoxes.map (·.boxId)).Nodup := by
  have hids : tx.outputBoxes.map (·.boxId) =
      (tx.outputs.zipIdx.map Prod.snd).map (fun i => (⟨tx.id, i⟩ : BoxRef)) := by
    rw [outputBoxes, map_map, map_map]
    rfl
  rw [hids, zipIdx_map_snd]
  refine Nodup.map ?_ nodup_range'
  intro i j heq
  exact congrArg BoxRef.index heq

lemma nodup_feeBoxes {feeTree : Bytes} (hids : blockTxs.Pairwise (fun a b => a.id ≠ b.id)) :
    ((feeBoxes feeTree blockTxs).map (·.boxId)).Nodup := by
  simp only [feeBoxes, map_flatMap]
  rw [nodup_flatMap]
  constructor
  · intro tx _
    exact tx.nodup_outputBoxes.sublist (filter_sublist.map _)
  · refine hids.imp ?_
    intro a b hne boxId ha hb
    -- a box id names the transaction that created the box
    obtain ⟨box, hbox, rfl⟩ := mem_map.1 ha
    obtain ⟨box', hbox', heq⟩ := mem_map.1 hb
    have hid := ErgoTransaction.txId_of_mem_outputBoxes (mem_filter.1 hbox).1
    have hid' := ErgoTransaction.txId_of_mem_outputBoxes (mem_filter.1 hbox').1
    exact hne (hid.symm.trans ((congrArg BoxRef.txId heq.symm).trans hid'))

end ErgoNode
