import ErgoNode.Validation.Boundary

/-!
# The block validators

A validator applies blocks one height at a time. In UTXO mode the state is an authenticated tree in
a versioned database; in digest mode only the root digest is kept and every block brings a proof. A
tree is represented by its root digest. Executing transactions, verifying proofs and evaluating
scripts is a parameter, `BlockRules`.
-/

namespace ErgoNode

/-- A transaction, as the bytes it was parsed from. -/
abbrev Transaction := Bytes

/-- What the validators call outside this repository, and the header fields only they read. -/
structure BlockRules where
  /-- Transactions of a block-transactions section. -/
  parseBlockTransactions : Bytes → Except ValidationError (List Transaction)
  /-- Apply the state changes of transactions to the tree; the root is returned also after a
  failure. -/
  performOperations : ADDigest → List Transaction → Except ValidationError Unit × ADDigest
  /-- Replay the state changes over a proof, starting from a root. -/
  verifyOperations : ADDigest → Bytes → List Transaction → Except ValidationError ADDigest
  /-- The proof the prover emits for the state changes, starting from a root. -/
  generateProof : ADDigest → List Transaction → Bytes
  proofDigest : Bytes → ℕ
  adProofsRoot : Header → ℕ
  /-- Evaluate the scripts of a block over the boxes of a state; returns the cost. -/
  evaluateScripts : ADDigest → Header → List Header → Parameters → List Transaction →
    Except ValidationError ℕ

/-! ## The state database -/

structure StateVersion where
  digest : ADDigest
  blockHeight : ℕ
deriving DecidableEq, Repr

/-- The state database: the versions that can be rolled back to, the current one first. -/
structure AvlStorage where
  /-- The current version and its predecessors, newest first. -/
  versionChain : List StateVersion
  keepVersions : ℕ
deriving DecidableEq, Repr

namespace AvlStorage

def version (s : AvlStorage) : Option ADDigest := s.versionChain.head?.map (·.digest)

def blockHeight (s : AvlStorage) : Option ℕ := s.versionChain.head?.map (·.blockHeight)

def updateWithHeight (s : AvlStorage) (digest : ADDigest) (blockHeight : ℕ) : AvlStorage :=
  { s with
    versionChain :=
      ({ digest := digest, blockHeight := blockHeight } :: s.versionChain).take (s.keepVersions + 1) }

/-- Go back to the newest version with a digest, if there is one. -/
def rollback (s : AvlStorage) (digest : ADDigest) : Option AvlStorage :=
  if digest ∈ s.versionChain.map (·.digest) then
    some { s with versionChain := s.versionChain.dropWhile (fun v => v.digest ≠ digest) }
  else none

lemma exists_dropWhile_eq_cons {chain : List StateVersion} {digest : ADDigest}
    (h : digest ∈ chain.map (·.digest)) :
    ∃ v rest, chain.dropWhile (fun v => v.digest ≠ digest) = v :: rest ∧ v.digest = digest := by
  induction chain with
  | nil => simp at h
  | cons v rest ih =>
    by_cases hv : v.digest = digest
    · exact ⟨v, rest, by simp [hv], hv⟩
    · have hrest : digest ∈ rest.map (·.digest) := by
        rcases List.mem_cons.1 h with heq | hmem
        · exact absurd heq.symm hv
        · exact hmem
      simpa [hv] using ih hrest

lemma rollback_eq_some {s s' : AvlStorage} {digest : ADDigest} (h : s.rollback digest = some s') :
    s'.keepVersions = s.keepVersions ∧ s'.versionChain <:+ s.versionChain ∧
      ∃ v rest, s'.versionChain = v :: rest ∧ v.digest = digest := by
  unfold rollback at h
  split at h
  next hmem =>
    cases h
    exact ⟨rfl, List.dropWhile_suffix _, exists_dropWhile_eq_cons hmem⟩
  · cases h

end AvlStorage

/-! ## Applying a block -/

structure BlockArgs where
  header : Header
  blockTxs : Bytes
  adProofs : Option Bytes
  extension : Bytes
  precedingHeaders : List Header
  activeParams : Parameters
  /-- At an epoch boundary, the table the block must carry. -/
  expectedBoundaryParams : Option Parameters

structure ApplyStateOutcome where
  /-- At an epoch boundary, the parameters and the proposed update to install. -/
  epochBoundary : BoundaryOutcome
  /-- Cost of the scripts, unless they were skipped. -/
  blockCost : Option ℕ

structure ParsedAdProofs where
  headerId : BlockId
  proofBytes : Bytes
deriving DecidableEq, Repr

def parseAdProofs (data : Bytes) : Except ValidationError ParsedAdProofs :=
  if data.length < 33 then
    .error (.sectionParse adProofsTypeId "too short for header_id + proof_size")
  else
    match getU32 (data.drop 32) with
    | none => .error (.sectionParse adProofsTypeId "proof_size VLQ")
    | some (proofSize, rest) =>
      if rest.length < proofSize then
        .error (.sectionParse adProofsTypeId
          s!"proof_size={proofSize} but only {rest.length} bytes remain")
      else .ok { headerId := sectionHeaderId data, proofBytes := rest.take proofSize }

section Rules

variable (rules : BlockRules) {boundary : BoundaryOutcome} {txs : List Transaction}

/-- Decode the transactions and the extension of a block and check the epoch boundary. -/
def parseSections (block : BlockArgs) :
    Except ValidationError (List Transaction × BoundaryOutcome) := do
  let txs ← rules.parseBlockTransactions block.blockTxs
  let extension ← parseExtension block.extension
  let boundary ← checkBoundary block.header extension block.expectedBoundaryParams
  .ok (txs, boundary)

def evaluateAbove (checkpointHeight : ℕ) (digest : ADDigest) (block : BlockArgs)
    (txs : List Transaction) : Except ValidationError (Option ℕ) :=
  if checkpointHeight < block.header.height then
    (rules.evaluateScripts digest block.header block.precedingHeaders block.activeParams txs).map
      some
  else .ok none

structure UtxoValidator where
  storage : AvlStorage
  prover : ADDigest
  validatedHeight : ℕ
  checkpointHeight : ℕ
  /-- State root after the last applied block. -/
  currentDigest : ADDigest
deriving DecidableEq

namespace UtxoValidator

/-- Apply a block. The state is committed before the proof is compared, and an error undoes
nothing. -/
def applyStateInternal (v : UtxoValidator) (block : BlockArgs) :
    Except ValidationError ApplyStateOutcome × UtxoValidator :=
  let header := block.header
  if header.height ≠ v.validatedHeight + 1 then
    (.error (.heightMismatch (v.validatedHeight + 1) header.height), v)
  else
    match parseSections rules block with
    | .error e => (.error e, v)
    | .ok (txs, boundary) =>
      let (performed, root) := rules.performOperations v.prover txs
      match performed with
      | .error e => (.error e, { v with prover := root })
      | .ok _ =>
        if root ≠ header.stateRoot then
          (.error (.stateRootMismatch header.stateRoot root), { v with prover := root })
        else
          match evaluateAbove rules v.checkpointHeight v.prover block txs with
          | .error e => (.error e, { v with prover := root })
          | .ok cost =>
            let storage := v.storage.updateWithHeight root header.height
            let proofDigest := rules.proofDigest (rules.generateProof v.prover txs)
            if proofDigest ≠ rules.adProofsRoot header then
              (.error (.proofDigestMismatch (rules.adProofsRoot header) proofDigest),
                { v with prover := root, storage := storage })
            else
              (.ok { epochBoundary := boundary, blockCost := cost }, { v with
                  prover := root
                  storage := storage
                  currentDigest := header.stateRoot
                  validatedHeight := header.height })

/-- Restore the prover to the stored state with a digest. A failure is only logged. -/
def rollbackProverTo (v : UtxoValidator) (digest : ADDigest) : UtxoValidator :=
  match v.storage.rollback digest with
  | some storage => { v with storage := storage, prover := digest }
  | none => v

/-- Apply a block, restoring the prover when it is rejected. -/
def applyState (v : UtxoValidator) (block : BlockArgs) :
    Except ValidationError ApplyStateOutcome × UtxoValidator :=
  match v.applyStateInternal rules block with
  | (.ok outcome, v') => (.ok outcome, v')
  | (.error e, v') => (.error e, v'.rollbackProverTo v.currentDigest)

/-- Roll back to an earlier state. On failure nothing changes. -/
def resetTo (v : UtxoValidator) (height : ℕ) (digest : ADDigest) :
    Except ValidationError Unit × UtxoValidator :=
  match v.storage.rollback digest with
  | some storage =>
    (.ok (), { v with
      storage := storage
      prover := digest
      validatedHeight := height
      currentDigest := digest })
  | none =>
    (.error (.stateOperationFailed s!"rollback to height {height} failed"), v)

end UtxoValidator

structure DigestValidator where
  /-- State root after the last applied block. -/
  currentDigest : ADDigest
  validatedHeight : ℕ
  checkpointHeight : ℕ
deriving DecidableEq

namespace DigestValidator

def checkBlock (v : DigestValidator) (block : BlockArgs) :
    Except ValidationError ApplyStateOutcome := do
  let header := block.header
  require (header.height = v.validatedHeight + 1)
    (.heightMismatch (v.validatedHeight + 1) header.height)
  let proofData ← block.adProofs.elim (.error .missingProof) .ok
  let parsed ← parseAdProofs proofData
  let (txs, boundary) ← parseSections rules block
  let proofDigest := rules.proofDigest parsed.proofBytes
  require (proofDigest = rules.adProofsRoot header)
    (.proofDigestMismatch (rules.adProofsRoot header) proofDigest)
  let root ← rules.verifyOperations v.currentDigest parsed.proofBytes txs
  require (root = header.stateRoot) (.stateRootMismatch header.stateRoot root)
  let cost ← evaluateAbove rules v.checkpointHeight v.currentDigest block txs
  .ok { epochBoundary := boundary, blockCost := cost }

/-- Apply a block. The state only changes when every check passed. -/
def applyState (v : DigestValidator) (block : BlockArgs) :
    Except ValidationError ApplyStateOutcome × DigestValidator :=
  match v.checkBlock rules block with
  | .ok outcome =>
    (.ok outcome, { v with
      currentDigest := block.header.stateRoot
      validatedHeight := block.header.height })
  | .error e => (.error e, v)

/-- Roll back to an earlier state: nothing is stored, so this never fails. -/
def resetTo (v : DigestValidator) (height : ℕ) (digest : ADDigest) : DigestValidator :=
  { v with currentDigest := digest, validatedHeight := height }

end DigestValidator

/-! ## Either validator -/

inductive Validator where
  | utxo (v : UtxoValidator)
  | digest (v : DigestValidator)
deriving DecidableEq

namespace Validator

def validatedHeight : Validator → ℕ
  | .utxo v => v.validatedHeight
  | .digest v => v.validatedHeight

def currentDigest : Validator → ADDigest
  | .utxo v => v.currentDigest
  | .digest v => v.currentDigest

def applyState (v : Validator) (block : BlockArgs) :
    Except ValidationError ApplyStateOutcome × Validator :=
  match v with
  | .utxo v => ((v.applyState rules block).1, .utxo (v.applyState rules block).2)
  | .digest v => ((v.applyState rules block).1, .digest (v.applyState rules block).2)

def resetTo (v : Validator) (height : ℕ) (digest : ADDigest) :
    Except ValidationError Unit × Validator :=
  match v with
  | .utxo v => ((v.resetTo height digest).1, .utxo (v.resetTo height digest).2)
  | .digest v => (.ok (), .digest (v.resetTo height digest))

end Validator

/-! ## What the operations do -/

section Specs

variable {rules} {block : BlockArgs} {outcome : ApplyStateOutcome} {e : ValidationError}

lemma parseSections_none (h : parseSections rules block = .ok (txs, boundary))
    (hexpected : block.expectedBoundaryParams = none) : boundary = none := by
  unfold parseSections at h
  simp only [bind_eq_ok, hexpected, checkBoundary] at h
  obtain ⟨_, -, _, -, _, hnone, hout⟩ := h
  cases hnone
  exact (Prod.mk.inj (Except.ok.inj hout)).2.symm

/-- At a boundary, what is handed over is from the extension and has every computed entry. -/
theorem parseSections_boundary {table : Parameters} {headerId : BlockId}
    {fields : List ExtensionField} (h : parseSections rules block = .ok (txs, boundary))
    (hexpected : block.expectedBoundaryParams = some table)
    (hfields : parseExtensionBytes block.extension = .ok (headerId, fields)) :
    ∃ params, boundary = some (params, extractDisablingRulesFromKv fields) ∧
      (∀ p, params.get p = fieldValue fields (parameterId p)) ∧
      (∀ f ∈ fields, f.IsParameter → f.value.length = 4) ∧
      ∀ p v, table.get p = some v → params.get p = some v := by
  unfold parseSections at h
  simp only [bind_eq_ok] at h
  obtain ⟨_, -, extension, hextension, boundary', hcheck, hout⟩ := h
  obtain rfl := (Prod.mk.inj (Except.ok.inj hout)).2
  obtain ⟨rfl, -⟩ := fields_of_parseExtension hextension hfields
  rw [hexpected] at hcheck
  cases boundary' with
  | none => simp [checkBoundary] at hcheck
  | some handed =>
    obtain ⟨params, update⟩ := handed
    obtain ⟨table', htable, hparsed, rfl, hmatch, -⟩ := checkBoundary_eq_ok hcheck
    cases htable
    exact ⟨params, rfl, get_parseParametersFromExtension hparsed,
      length_of_parseParametersFromExtension hparsed, hmatch⟩

lemma UtxoValidator.applyStateInternal_ok {v v' : UtxoValidator}
    (h : v.applyStateInternal rules block = (.ok outcome, v')) :
    block.header.height = v.validatedHeight + 1 ∧
      (∃ txs, parseSections rules block = .ok (txs, outcome.epochBoundary)) ∧
      v' = { v with
        prover := block.header.stateRoot
        storage := v.storage.updateWithHeight block.header.stateRoot block.header.height
        currentDigest := block.header.stateRoot
        validatedHeight := block.header.height } := by
  unfold applyStateInternal at h
  simp only [ne_eq, ite_not] at h
  split at h
  next hheight =>
    split at h
    · cases h
    next txs boundary hsections =>
      split at h
      · cases h
      · split at h
        next hroot =>
          split at h
          · cases h
          · split at h
            · obtain ⟨hout, rfl⟩ := Prod.mk.inj h
              cases hout
              exact ⟨hheight, ⟨txs, hsections⟩, by rw [hroot]⟩
            · cases h
        · cases h
  · cases h

lemma UtxoValidator.applyStateInternal_performed {v v' : UtxoValidator}
    (h : v.applyStateInternal rules block = (.ok outcome, v')) :
    ∃ txs, rules.parseBlockTransactions block.blockTxs = .ok txs ∧
      rules.performOperations v.prover txs = (.ok (), block.header.stateRoot) := by
  unfold applyStateInternal at h
  simp only [ne_eq, ite_not] at h
  split at h
  · split at h
    · cases h
    next txs boundary hsections =>
      split at h
      · cases h
      next hperformed =>
        split at h
        next hroot =>
          refine ⟨txs, ?_, Prod.ext hperformed hroot⟩
          simp only [parseSections, bind_eq_ok] at hsections
          obtain ⟨txs', htxs, _, -, _, -, hout⟩ := hsections
          rwa [← (Prod.mk.inj (Except.ok.inj hout)).1]
        · cases h
  · cases h

lemma UtxoValidator.applyStateInternal_error {v v' : UtxoValidator}
    (h : v.applyStateInternal rules block = (.error e, v')) :
    v'.validatedHeight = v.validatedHeight ∧ v'.currentDigest = v.currentDigest ∧
      (v'.storage = v.storage ∨ block.header.height = v.validatedHeight + 1 ∧
        v'.storage = v.storage.updateWithHeight block.header.stateRoot block.header.height) := by
  unfold applyStateInternal at h
  simp only [ne_eq, ite_not] at h
  split at h
  next hheight =>
    split at h
    · cases h
      exact ⟨rfl, rfl, .inl rfl⟩
    · split at h
      · cases h
        exact ⟨rfl, rfl, .inl rfl⟩
      · split at h
        next hroot =>
          split at h
          · cases h
            exact ⟨rfl, rfl, .inl rfl⟩
          · split at h
            · cases h
            -- the proof is compared after the commit
            · cases h
              exact ⟨rfl, rfl, .inr ⟨hheight, by rw [hroot]⟩⟩
        · cases h
          exact ⟨rfl, rfl, .inl rfl⟩
  · cases h
    exact ⟨rfl, rfl, .inl rfl⟩

lemma UtxoValidator.applyState_ok {v v' : UtxoValidator}
    (h : v.applyState rules block = (.ok outcome, v')) :
    v.applyStateInternal rules block = (.ok outcome, v') := by
  unfold applyState at h
  split at h
  next heq =>
    rw [heq, h]
  · cases h

lemma UtxoValidator.rollbackProverTo_frame (v : UtxoValidator) (digest : ADDigest) :
    (v.rollbackProverTo digest).validatedHeight = v.validatedHeight ∧
      (v.rollbackProverTo digest).currentDigest = v.currentDigest := by
  unfold rollbackProverTo
  split <;> exact ⟨rfl, rfl⟩

lemma UtxoValidator.applyState_error {v v' : UtxoValidator}
    (h : v.applyState rules block = (.error e, v')) :
    v'.validatedHeight = v.validatedHeight ∧ v'.currentDigest = v.currentDigest := by
  unfold applyState at h
  split at h
  · cases h
  next internal heq =>
    obtain ⟨hheight, hdigest, -⟩ := applyStateInternal_error heq
    obtain ⟨hheight', hdigest'⟩ := rollbackProverTo_frame internal v.currentDigest
    cases h
    exact ⟨hheight'.trans hheight, hdigest'.trans hdigest⟩

lemma DigestValidator.checkBlock_ok {v : DigestValidator}
    (h : v.checkBlock rules block = .ok outcome) :
    block.header.height = v.validatedHeight + 1 ∧
      ∃ txs, parseSections rules block = .ok (txs, outcome.epochBoundary) := by
  simp only [checkBlock, bind_eq_ok, require_eq_ok] at h
  obtain ⟨_, hheight, _, -, _, -, ⟨txs, boundary⟩, hsections, h⟩ := h
  obtain ⟨_, -, _, -, _, -, _, -, hout⟩ := h
  cases hout
  exact ⟨hheight, txs, hsections⟩

namespace Validator

variable {v v' : Validator}

/-- An applied block is the next one, and leads to the state its header commits to. -/
theorem applyState_ok (h : v.applyState rules block = (.ok outcome, v')) :
    block.header.height = v.validatedHeight + 1 ∧ v'.validatedHeight = block.header.height ∧
      v'.currentDigest = block.header.stateRoot ∧
      ∃ txs, parseSections rules block = .ok (txs, outcome.epochBoundary) := by
  cases v with
  | utxo v =>
    obtain ⟨hout, rfl⟩ := Prod.mk.inj h
    have hinternal := UtxoValidator.applyState_ok (Prod.ext hout rfl)
    obtain ⟨hheight, hsections, hv'⟩ := UtxoValidator.applyStateInternal_ok hinternal
    refine ⟨hheight, ?_, ?_, hsections⟩ <;> simp only [validatedHeight, currentDigest, hv']
  | digest v =>
    obtain ⟨hout, rfl⟩ := Prod.mk.inj h
    unfold DigestValidator.applyState at hout ⊢
    split at hout
    next heq =>
      cases hout
      obtain ⟨hheight, hsections⟩ := DigestValidator.checkBlock_ok heq
      exact ⟨hheight, rfl, rfl, hsections⟩
    · cases hout

lemma applyState_error (h : v.applyState rules block = (.error e, v')) :
    v'.validatedHeight = v.validatedHeight ∧ v'.currentDigest = v.currentDigest := by
  cases v with
  | utxo v =>
    obtain ⟨hout, rfl⟩ := Prod.mk.inj h
    exact UtxoValidator.applyState_error (Prod.ext hout rfl)
  | digest v =>
    obtain ⟨hout, rfl⟩ := Prod.mk.inj h
    unfold DigestValidator.applyState at hout ⊢
    split at hout
    · cases hout
    · exact ⟨rfl, rfl⟩

lemma resetTo_ok {height : ℕ} {digest : ADDigest} {u : Unit}
    (h : v.resetTo height digest = (.ok u, v')) :
    v'.validatedHeight = height ∧ v'.currentDigest = digest := by
  cases v with
  | utxo v =>
    obtain ⟨hout, rfl⟩ := Prod.mk.inj h
    unfold UtxoValidator.resetTo at hout ⊢
    split at hout
    · exact ⟨rfl, rfl⟩
    · cases hout
  | digest v =>
    cases h
    exact ⟨rfl, rfl⟩

lemma resetTo_error {height : ℕ} {digest : ADDigest}
    (h : v.resetTo height digest = (.error e, v')) : v' = v := by
  cases v with
  | utxo v =>
    obtain ⟨hout, rfl⟩ := Prod.mk.inj h
    unfold UtxoValidator.resetTo at hout ⊢
    split at hout
    · cases hout
    · rfl
  | digest v => cases h

end Validator

end Specs

end Rules

end ErgoNode
