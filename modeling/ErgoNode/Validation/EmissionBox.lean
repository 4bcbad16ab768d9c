import ErgoNode.Library.Run
import ErgoNode.Validation.StateChanges
import ErgoNode.Validation.Validator

/-!
# The tracked emission box

A miner spends the box that carries the emission contract. Every applied block is scanned for an
output with the contract, and the first one found becomes the tracked id. A rollback leaves the id
where it was, and a block that does not move the emission box leaves no id at all. `TracksEmission`
says that the tracked id is right. A step keeps it under `KeepsTracking`.
-/

namespace ErgoNode

open List UtxoValidator AvlStorage

structure EmissionRules extends BlockRules where
  /-- Inputs and serialized outputs of a transaction. -/
  summary : Transaction → Except ValidationError TxSummary
  /-- The contract of a serialized box, if the box can be read. -/
  ergoTreeBytes : Bytes → Option Bytes
  boxes : ADDigest → Table Bytes
  /-- The tree performs the operations of the block one after the other. -/
  performOperations_ok : ∀ root txs root', performOperations root txs = (.ok (), root') →
    ∃ summaries changes, txs.mapM summary = .ok summaries ∧
      computeStateChanges summaries = .ok changes ∧ changes.perform (boxes root) = some (boxes root')

structure EmissionValidator where
  core : UtxoValidator
  emissionBoxId : Option BoxId
  /-- The emission contract, empty when it could not be built. -/
  emissionTreeBytes : Bytes

inductive EmissionSource where
  | tipBlock (sectionBytes : Bytes)
  | genesisBoxes (boxes : List Insertion)
  | unavailable (reason : String)

section Rules

variable (rules : EmissionRules)

def CarriesTree (treeBytes boxBytes : Bytes) : Prop := rules.ergoTreeBytes boxBytes = some treeBytes

instance (treeBytes boxBytes : Bytes) : Decidable (CarriesTree rules treeBytes boxBytes) :=
  inferInstanceAs (Decidable (_ = _))

def findEmissionBox (insertions : List Insertion) (treeBytes : Bytes) : Option BoxId :=
  insertions.findSome? (fun e => if CarriesTree rules treeBytes e.2 then some e.1 else none)

def changesOfBlock (sectionBytes : Bytes) : Except ValidationError StateChanges := do
  let txs ← rules.parseBlockTransactions sectionBytes
  let summaries ← txs.mapM rules.summary
  computeStateChanges summaries

def recoverEmissionBoxId (source : EmissionSource) (treeBytes : Bytes) : Option BoxId :=
  if treeBytes = [] then none
  else
    match source with
    | .tipBlock sectionBytes =>
      match changesOfBlock rules sectionBytes with
      | .ok changes => findEmissionBox rules changes.insertions treeBytes
      | .error _ => none
    | .genesisBoxes boxes => findEmissionBox rules boxes treeBytes
    | .unavailable _ => none

namespace EmissionValidator

/-- Apply a block. Its insertions are scanned for the contract when everything else is done. -/
def applyState (v : EmissionValidator) (block : BlockArgs) :
    Except ValidationError ApplyStateOutcome × EmissionValidator :=
  match v.core.applyState rules.toBlockRules block with
  | (.error e, core) => (.error e, { v with core := core })
  | (.ok outcome, core) =>
    (.ok outcome, { v with
      core := core
      emissionBoxId :=
        if v.emissionTreeBytes = [] then v.emissionBoxId
        else
          match changesOfBlock rules block.blockTxs with
          | .ok changes => findEmissionBox rules changes.insertions v.emissionTreeBytes
          | .error _ => v.emissionBoxId })

/-- Roll back to an earlier state. The tracked id stays. -/
def resetTo (v : EmissionValidator) (height : ℕ) (digest : ADDigest) :
    Except ValidationError Unit × EmissionValidator :=
  ((v.core.resetTo height digest).1, { v with core := (v.core.resetTo height digest).2 })

end EmissionValidator

inductive EmissionEvent where
  | apply (block : BlockArgs)
  | reset (height : ℕ) (digest : ADDigest)

namespace EmissionValidator

def step (v : EmissionValidator) : EmissionEvent → EmissionValidator
  | .apply block => (v.applyState rules block).2
  | .reset height digest => (v.resetTo height digest).2

/-! ## The property and the condition -/

def Carries (treeBytes : Bytes) (root : ADDigest) (id : BoxId) : Prop :=
  ∃ boxBytes, (rules.boxes root)[id]? = some boxBytes ∧ CarriesTree rules treeBytes boxBytes

/-- The id is that of a box of the state that carries the contract; without an id there is no such
box. -/
def Right (treeBytes : Bytes) (root : ADDigest) : Option BoxId → Prop
  | some id => Carries rules treeBytes root id
  | none => ∀ id, ¬Carries rules treeBytes root id

def TracksEmission (v : EmissionValidator) : Prop :=
  Right rules v.emissionTreeBytes v.core.prover v.emissionBoxId

structure Settled (v : EmissionValidator) : Prop where
  prover : v.core.prover = v.core.currentDigest
  version : v.core.storage.version = some v.core.currentDigest

/-- The condition under which a step keeps the tracked id right: an applied block creates an
emission box or leaves none, a rollback leads to a state in which the tracked id is right, the
contract could be built, and a version is kept to return to. -/
def KeepsTracking (v : EmissionValidator) : EmissionEvent → Prop
  | .apply block =>
    v.emissionTreeBytes ≠ [] ∧ 0 < v.core.storage.keepVersions ∧
      ∀ changes, changesOfBlock rules block.blockTxs = .ok changes →
        (∃ e ∈ changes.insertions, CarriesTree rules v.emissionTreeBytes e.2) ∨
          ∀ id, Carries rules v.emissionTreeBytes v.core.prover id → id ∈ changes.removals
  | .reset _ digest =>
    digest ∈ v.core.storage.versionChain.map (·.digest) →
      Right rules v.emissionTreeBytes digest v.emissionBoxId

end EmissionValidator

variable {rules} {treeBytes : Bytes} {insertions : List Insertion} {outcome : ApplyStateOutcome}
  {changes : StateChanges}

/-! ## The scan -/

lemma findEmissionBox_eq_some {id : BoxId}
    (h : findEmissionBox rules insertions treeBytes = some id) :
    ∃ boxBytes, (id, boxBytes) ∈ insertions ∧ CarriesTree rules treeBytes boxBytes := by
  obtain ⟨⟨id', boxBytes⟩, hmem, hfound⟩ := exists_of_findSome?_eq_some h
  split at hfound
  next hcarries =>
    cases hfound
    exact ⟨boxBytes, hmem, hcarries⟩
  · cases hfound

lemma findEmissionBox_eq_none (h : findEmissionBox rules insertions treeBytes = none) :
    ∀ e ∈ insertions, ¬CarriesTree rules treeBytes e.2 := by
  intro e he hcarries
  have hnone := findSome?_eq_none_iff.1 h e he
  rw [if_pos hcarries] at hnone
  cases hnone

lemma getElem?_apply {utxo : Table Bytes}
    (hnodup : (changes.insertions.map Prod.fst).Nodup) (id : BoxId) (boxBytes : Bytes) :
    (changes.apply utxo)[id]? = some boxBytes ↔
      (id, boxBytes) ∈ changes.insertions ∨
        id ∉ changes.insertions.map Prod.fst ∧ id ∉ changes.removals ∧ utxo[id]? = some boxBytes := by
  by_cases hmem : id ∈ changes.insertions.map Prod.fst
  · obtain ⟨⟨_, bytes⟩, he, rfl⟩ := mem_map.1 hmem
    rw [StateChanges.apply, getElem?_insertAll_of_mem _ hnodup he]
    constructor
    · rintro ⟨⟩
      exact .inl he
    · rintro (he' | ⟨hout, -⟩)
      · rw [congrArg Prod.snd (inj_on_of_nodup_map hnodup he he' rfl)]
      · exact absurd hmem hout
  · rw [StateChanges.apply, getElem?_insertAll_of_notMem _ hmem, getElem?_eraseAll]
    have hout : (id, boxBytes) ∉ changes.insertions :=
      fun he => hmem (mem_map_of_mem (f := Prod.fst) he)
    by_cases hremoved : id ∈ changes.removals
    · simp [hremoved, hout]
    · simp [hremoved, hout, hmem]

/-- The scan over a block's insertions is right if it found something, or if no emission box is
left. -/
theorem right_of_changes {root root' : ADDigest}
    (hperform : changes.perform (rules.boxes root) = some (rules.boxes root'))
    (hmoved : (∃ e ∈ changes.insertions, CarriesTree rules treeBytes e.2) ∨
      ∀ id, EmissionValidator.Carries rules treeBytes root id → id ∈ changes.removals) :
    EmissionValidator.Right rules treeBytes root'
      (findEmissionBox rules changes.insertions treeBytes) := by
  obtain ⟨hboxes, hnodup⟩ := StateChanges.perform_eq_some hperform
  cases hfind : findEmissionBox rules changes.insertions treeBytes with
  | some id =>
    obtain ⟨boxBytes, hmem, hcarries⟩ := findEmissionBox_eq_some hfind
    refine ⟨boxBytes, ?_, hcarries⟩
    rw [hboxes, getElem?_apply hnodup]
    exact .inl hmem
  | none =>
    have hnone := findEmissionBox_eq_none hfind
    rintro id ⟨boxBytes, hread, hcarries⟩
    rw [hboxes, getElem?_apply hnodup] at hread
    rcases hread with hmem | ⟨-, hkept, hold⟩
    · exact hnone _ hmem hcarries
    · -- an old box that was not removed
      rcases hmoved with ⟨e, he, hfound⟩ | hgone
      · exact hnone e he hfound
      · exact hkept (hgone id ⟨boxBytes, hold, hcarries⟩)

namespace EmissionValidator

variable {v v' : EmissionValidator} {block : BlockArgs}

/-! ## Steps -/

lemma applyState_eq_ok
    (h : v.applyState rules block = (.ok outcome, v')) (hcontract : v.emissionTreeBytes ≠ []) :
    Settled v' ∧ v'.emissionTreeBytes = v.emissionTreeBytes ∧
      ∃ changes, changesOfBlock rules block.blockTxs = .ok changes ∧
        changes.perform (rules.boxes v.core.prover) = some (rules.boxes v'.core.prover) ∧
        v'.emissionBoxId = findEmissionBox rules changes.insertions v.emissionTreeBytes := by
  unfold applyState at h
  split at h
  · cases h
  next outcome' core hcore =>
    cases h
    have hinternal := applyState_ok hcore
    obtain ⟨-, -, hv'⟩ := applyStateInternal_ok hinternal
    obtain ⟨txs, htxs, hperformed⟩ := applyStateInternal_performed hinternal
    obtain ⟨summaries, changes, hsummaries, hchanges, hboxes⟩ :=
      rules.performOperations_ok _ _ _ hperformed
    have hblock : changesOfBlock rules block.blockTxs = .ok changes := by
      simp only [changesOfBlock, htxs, hsummaries, ok_bind, hchanges]
    refine ⟨⟨?_, ?_⟩, rfl, changes, hblock, ?_, ?_⟩
    · simp only [hv']
    · simp only [hv', version, updateWithHeight, take_succ_cons, head?_cons, Option.map_some]
    · simpa only [hv'] using hboxes
    · simp only [if_neg hcontract, hblock]

lemma settled_of_rollbackProverTo {core : UtxoValidator} {digest : ADDigest}
    (hmem : digest ∈ core.storage.versionChain.map (·.digest)) :
    (core.rollbackProverTo digest).prover = digest ∧
      (core.rollbackProverTo digest).storage.version = some digest := by
  obtain ⟨version, rest, hrest, hdigest⟩ := exists_dropWhile_eq_cons hmem
  have hrollback : core.storage.rollback digest =
      some { core.storage with
        versionChain := core.storage.versionChain.dropWhile (fun v => v.digest ≠ digest) } :=
    if_pos hmem
  unfold rollbackProverTo
  rw [hrollback]
  refine ⟨rfl, ?_⟩
  show ((core.storage.versionChain.dropWhile _).head?.map (·.digest)) = some digest
  rw [hrest, head?_cons, Option.map_some, hdigest]

/-- A rejected block leaves the state of the last applied one, as long as a version is kept to return
to. -/
theorem applyState_eq_error {e : ValidationError} (h : v.applyState rules block = (.error e, v'))
    (hsettled : Settled v) (hkeep : 0 < v.core.storage.keepVersions) :
    Settled v' ∧ v'.core.prover = v.core.prover ∧ v'.emissionBoxId = v.emissionBoxId ∧
      v'.emissionTreeBytes = v.emissionTreeBytes := by
  unfold applyState at h
  split at h
  next e' core hcore =>
    cases h
    unfold UtxoValidator.applyState at hcore
    split at hcore
    · cases hcore
    next e'' internal hinternal =>
      cases hcore
      obtain ⟨-, hdigest, hstorage⟩ := applyStateInternal_error hinternal
      -- the version of the last applied block is the newest, or right below the rejected one
      have hmem : v.core.currentDigest ∈ internal.storage.versionChain.map (·.digest) := by
        have hversion := hsettled.version
        rw [version, Option.map_eq_some_iff] at hversion
        obtain ⟨version, hhead, hdigest⟩ := hversion
        obtain ⟨rest, hchain⟩ := head?_eq_some_iff.1 hhead
        rcases hstorage with hsame | ⟨-, hcommitted⟩
        · rw [hsame, hchain, ← hdigest]
          exact mem_map_of_mem mem_cons_self
        · obtain ⟨n, hn⟩ := Nat.exists_eq_succ_of_ne_zero (Nat.ne_of_gt hkeep)
          rw [hcommitted, updateWithHeight, hn, hchain, ← hdigest]
          exact mem_map_of_mem (mem_cons_of_mem _ mem_cons_self)
      obtain ⟨hprover, hversion⟩ := settled_of_rollbackProverTo hmem
      obtain ⟨-, hdigest'⟩ := rollbackProverTo_frame internal v.core.currentDigest
      have hcurrent := hdigest'.trans hdigest
      refine ⟨⟨?_, ?_⟩, hprover.trans hsettled.prover.symm, rfl, rfl⟩
      · show (internal.rollbackProverTo _).prover = (internal.rollbackProverTo _).currentDigest
        rw [hprover, hcurrent]
      · show (internal.rollbackProverTo _).storage.version =
          some (internal.rollbackProverTo _).currentDigest
        rw [hversion, hcurrent]
  · cases h

lemma resetTo_outcome (v : EmissionValidator) (height : ℕ) (digest : ADDigest) :
    (v.resetTo height digest).2 = v ∨
      digest ∈ v.core.storage.versionChain.map (·.digest) ∧
        Settled (v.resetTo height digest).2 ∧ (v.resetTo height digest).2.core.prover = digest ∧
        (v.resetTo height digest).2.emissionBoxId = v.emissionBoxId ∧
        (v.resetTo height digest).2.emissionTreeBytes = v.emissionTreeBytes := by
  unfold resetTo UtxoValidator.resetTo
  split
  next storage hrollback =>
    obtain ⟨-, hsuffix, version, rest, hchain, hdigest⟩ := rollback_eq_some hrollback
    have hmem : version ∈ v.core.storage.versionChain :=
      hsuffix.subset (hchain ▸ mem_cons_self)
    refine .inr ⟨hdigest ▸ mem_map_of_mem hmem, ⟨rfl, ?_⟩, rfl, rfl, rfl⟩
    show (storage.versionChain.head?.map (·.digest)) = some digest
    rw [hchain, head?_cons, Option.map_some, hdigest]
  · exact .inl rfl

lemma tracksEmission_step {event : EmissionEvent}
    (h : Settled v ∧ TracksEmission rules v) (hcond : KeepsTracking rules v event) :
    Settled (v.step rules event) ∧ TracksEmission rules (v.step rules event) := by
  obtain ⟨hsettled, htracks⟩ := h
  cases event with
  | apply block =>
    obtain ⟨hcontract, hkeep, hmoved⟩ := hcond
    show Settled (v.applyState rules block).2 ∧ TracksEmission rules (v.applyState rules block).2
    cases hcall : v.applyState rules block with
    | mk result v' =>
      cases result with
      | ok outcome =>
        obtain ⟨hsettled', htree, changes, hchanges, hperform, hid⟩ :=
          applyState_eq_ok hcall hcontract
        refine ⟨hsettled', ?_⟩
        rw [TracksEmission, htree, hid]
        exact right_of_changes hperform (hmoved changes hchanges)
      | error e =>
        obtain ⟨hsettled', hprover, hid, htree⟩ := applyState_eq_error hcall hsettled hkeep
        refine ⟨hsettled', ?_⟩
        rwa [TracksEmission, htree, hprover, hid]
  | reset height digest =>
    rcases resetTo_outcome v height digest with hsame | ⟨hstored, hsettled', hprover, hid, htree⟩
    · show Settled (v.resetTo height digest).2 ∧ TracksEmission rules (v.resetTo height digest).2
      rw [hsame]
      exact ⟨hsettled, htracks⟩
    · refine ⟨hsettled', ?_⟩
      show Right rules (v.resetTo height digest).2.emissionTreeBytes
        (v.resetTo height digest).2.core.prover (v.resetTo height digest).2.emissionBoxId
      rw [htree, hprover, hid]
      exact hcond hstored

lemma recover_eq_of_applyState
    (h : v.applyState rules block = (.ok outcome, v')) (hcontract : v.emissionTreeBytes ≠ []) :
    recoverEmissionBoxId rules (.tipBlock block.blockTxs) v.emissionTreeBytes = v'.emissionBoxId := by
  obtain ⟨-, -, changes, hchanges, -, hid⟩ := applyState_eq_ok h hcontract
  rw [recoverEmissionBoxId, if_neg hcontract, hid]
  simp only [hchanges]

end EmissionValidator

end Rules

/-! ## A rollback, and a block without an emission transaction -/

/-- The boxes of four states. Box 5 is an ordinary one, the others of the first two states carry the
contract `[7]`. -/
def exampleBoxes (root : ADDigest) : Table Bytes :=
  if root = 1 then insertAll ∅ [(5, [8]), (10, [7])]
  else if root = 2 then insertAll ∅ [(5, [8]), (20, [7])]
  else if root = 3 then insertAll ∅ [(10, [7]), (30, [8])]
  else ∅

/-- Transaction `[1]` moves the emission box of the first state, transaction `[2]` spends box 5. -/
def exampleSummary (tx : Transaction) : Except ValidationError TxSummary :=
  if tx = [1] then .ok ⟨[10], [], [(20, [7])]⟩
  else if tx = [2] then .ok ⟨[5], [], [(30, [8])]⟩
  else .error (.stateOperationFailed "unknown transaction")

def examplePerform (root : ADDigest) (txs : List Transaction) : Except ValidationError Unit × ADDigest :=
  match txs.mapM exampleSummary with
  | .error e => (.error e, root)
  | .ok summaries =>
    match computeStateChanges summaries with
    | .error e => (.error e, root)
    | .ok changes =>
      match [1, 2, 3].find? (fun root' => changes.perform (exampleBoxes root) =
        some (exampleBoxes root')) with
      | some root' => (.ok (), root')
      | none => (.error (.stateOperationFailed "operation failed"), root)

def exampleEmissionRules : EmissionRules where
  parseBlockTransactions bytes := .ok [bytes]
  performOperations := examplePerform
  verifyOperations root _ _ := .ok root
  generateProof _ _ := []
  proofDigest _ := 0
  adProofsRoot _ := 0
  evaluateScripts _ _ _ _ _ := .ok 0
  summary := exampleSummary
  ergoTreeBytes bytes := some bytes
  boxes := exampleBoxes
  performOperations_ok root txs root' h := by
    unfold examplePerform at h
    split at h
    · cases h
    next summaries hsummaries =>
      split at h
      · cases h
      next changes hchanges =>
        split at h
        next root'' hfound =>
          obtain rfl := (Prod.mk.inj h).2
          have hperform := List.find?_some hfound
          exact ⟨summaries, changes, hsummaries, hchanges, of_decide_eq_true hperform⟩
        · cases h

def exampleBlock (height : ℕ) (root : ADDigest) (tx : Transaction) : BlockArgs where
  header :=
    { version := 1, id := 7, parentId := 0, stateRoot := root, timestamp := 1000, nBits := 5,
      height := height, votes := ⟨0, 0, 0⟩ }
  blockTxs := tx
  adProofs := none
  extension := bytesOfId 7 ++ [0]
  precedingHeaders := []
  activeParams := .empty
  expectedBoundaryParams := none

def exampleValidator : EmissionValidator where
  core :=
    { storage := ⟨[⟨1, 0⟩], 2⟩, prover := 1, validatedHeight := 0, checkpointHeight := 0,
      currentDigest := 1 }
  emissionBoxId := some 10
  emissionTreeBytes := [7]

namespace EmissionValidator

lemma settled_exampleValidator : exampleValidator.Settled := ⟨rfl, rfl⟩

lemma tracksEmission_exampleValidator : TracksEmission exampleEmissionRules exampleValidator :=
  ⟨[7], by decide +kernel, rfl⟩

end EmissionValidator

end ErgoNode
