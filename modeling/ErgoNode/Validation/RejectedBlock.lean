import ErgoNode.Validation.EmissionBox

/-!
# A rejected block leaves no trace

`applyState` answers every error with a rollback to the digest it started from. Before the commit
that is the stored version, and nothing changed. After it the version is the one below the block's,
unless the block ends at the same digest: then the storage takes the block's own version for the one
it started from. And without a version to keep there is nothing to return to. The write transaction
of the commit may fail as well, and then changes nothing.
-/

namespace ErgoNode

open UtxoValidator AvlStorage

namespace AvlStorage

variable {s : AvlStorage} {digest root : ADDigest}

lemma rollback_of_version (h : s.version = some digest) : s.rollback digest = some s := by
  obtain ⟨v, hhead, rfl⟩ := Option.map_eq_some_iff.1 h
  obtain ⟨rest, hchain⟩ := List.head?_eq_some_iff.1 hhead
  obtain ⟨chain, keepVersions⟩ := s
  obtain rfl : chain = v :: rest := hchain
  simp [rollback]

lemma version_updateWithHeight (height : ℕ) :
    (s.updateWithHeight root height).version = some root := by
  simp [version, updateWithHeight, List.take_succ_cons]

lemma blockHeight_updateWithHeight (height : ℕ) :
    (s.updateWithHeight root height).blockHeight = some height := by
  simp [blockHeight, updateWithHeight, List.take_succ_cons]

/-- Returning from a committed version to the one before: the oldest version is lost if the chain
was full. -/
theorem rollback_updateWithHeight (h : s.version = some digest) (hkeep : 0 < s.keepVersions)
    (hroot : root ≠ digest) (height : ℕ) : (s.updateWithHeight root height).rollback digest =
      some { s with versionChain := s.versionChain.take s.keepVersions } := by
  obtain ⟨v, hhead, rfl⟩ := Option.map_eq_some_iff.1 h
  obtain ⟨rest, hchain⟩ := List.head?_eq_some_iff.1 hhead
  obtain ⟨n, hn⟩ := Nat.exists_eq_succ_of_ne_zero (Nat.ne_of_gt hkeep)
  simp [rollback, updateWithHeight, hchain, hn, hroot]

lemma rollback_eq_none (hkeep : s.keepVersions = 0) (hroot : root ≠ digest) (height : ℕ) :
    (s.updateWithHeight root height).rollback digest = none := by
  simp [rollback, updateWithHeight, hkeep, hroot.symm]

lemma updateWithHeight_take (height : ℕ) :
    { s with versionChain := s.versionChain.take s.keepVersions }.updateWithHeight root height =
      s.updateWithHeight root height := by
  simp [updateWithHeight, List.take_succ_cons]

end AvlStorage

namespace UtxoValidator

section Call

variable (rules : BlockRules)

/-- The stages before the commit. An error comes with the root the prover was left at. -/
def beforeCommit (v : UtxoValidator) (block : BlockArgs) :
    Except (ValidationError × ADDigest) (List Transaction × BoundaryOutcome × Option ℕ) :=
  let header := block.header
  if header.height ≠ v.validatedHeight + 1 then
    .error (.heightMismatch (v.validatedHeight + 1) header.height, v.prover)
  else
    match parseSections rules block with
    | .error e => .error (e, v.prover)
    | .ok (txs, boundary) =>
      let (performed, root) := rules.performOperations v.prover txs
      match performed with
      | .error e => .error (e, root)
      | .ok _ =>
        if root ≠ header.stateRoot then .error (.stateRootMismatch header.stateRoot root, root)
        else
          match evaluateAbove rules v.checkpointHeight v.prover block txs with
          | .error e => .error (e, root)
          | .ok cost => .ok (txs, boundary, cost)

/-- `apply_state_internal`, where `dbError` is the error of the commit's transaction if it fails. -/
def applyStateInternalWith (dbError : Option String) (v : UtxoValidator) (block : BlockArgs) :
    Except ValidationError ApplyStateOutcome × UtxoValidator :=
  let header := block.header
  match v.beforeCommit rules block with
  | .error (e, root) => (.error e, { v with prover := root })
  | .ok (txs, boundary, cost) =>
    match dbError with
    | some e =>
      (.error (.stateOperationFailed s!"persist failed: {e}"),
        { v with prover := header.stateRoot })
    | none =>
      let storage := v.storage.updateWithHeight header.stateRoot header.height
      let proofDigest := rules.proofDigest (rules.generateProof v.prover txs)
      if proofDigest ≠ rules.adProofsRoot header then
        (.error (.proofDigestMismatch (rules.adProofsRoot header) proofDigest),
          { v with prover := header.stateRoot, storage := storage })
      else
        (.ok { epochBoundary := boundary, blockCost := cost }, { v with
            prover := header.stateRoot
            storage := storage
            currentDigest := header.stateRoot
            validatedHeight := header.height })

lemma applyStateInternalWith_none (v : UtxoValidator) (block : BlockArgs) :
    v.applyStateInternalWith rules none block = v.applyStateInternal rules block := by
  unfold applyStateInternalWith beforeCommit applyStateInternal
  by_cases hheight : block.header.height = v.validatedHeight + 1
  · rcases parseSections rules block with e | ⟨txs, boundary⟩
    · simp [hheight]
    rcases hperform : rules.performOperations v.prover txs with ⟨e | u, root⟩
    · simp [hheight, hperform]
    by_cases hroot : root = block.header.stateRoot
    · rcases hscripts : evaluateAbove rules v.checkpointHeight v.prover block txs with e | cost
      · simp [hheight, hperform, hroot, hscripts]
      · simp [hheight, hperform, hroot, hscripts]
    · simp [hheight, hperform, hroot]
  · simp [hheight]

variable (dbError : Option String) (v : UtxoValidator) (block : BlockArgs)

lemma applyStateInternalWith_cases :
    (∃ e root, v.applyStateInternalWith rules dbError block = (.error e, { v with prover := root }) ∧
        ¬(dbError = none ∧ (v.beforeCommit rules block).isOk = true)) ∨
      dbError = none ∧ (v.beforeCommit rules block).isOk = true ∧
        block.header.height = v.validatedHeight + 1 ∧
        ((∃ e, v.applyStateInternalWith rules dbError block = (.error e, { v with
            prover := block.header.stateRoot
            storage := v.storage.updateWithHeight block.header.stateRoot block.header.height })) ∨
        ∃ outcome, v.applyStateInternalWith rules dbError block =
          (.ok outcome, { v with
            prover := block.header.stateRoot
            storage := v.storage.updateWithHeight block.header.stateRoot block.header.height
            currentDigest := block.header.stateRoot
            validatedHeight := block.header.height })) := by
  unfold applyStateInternalWith
  cases hbefore : v.beforeCommit rules block with
  | error e => exact .inl ⟨e.1, e.2, rfl, by simp [Except.isOk, Except.toBool]⟩
  | ok passed =>
    cases dbError with
    | some e => exact .inl ⟨_, _, rfl, by simp⟩
    | none =>
      have hheight : block.header.height = v.validatedHeight + 1 := by
        by_contra hne
        rw [beforeCommit, if_pos hne] at hbefore
        cases hbefore
      refine .inr ⟨rfl, rfl, hheight, ?_⟩
      dsimp only
      split
      · exact .inl ⟨_, rfl⟩
      · exact .inr ⟨_, rfl⟩

/-- No stage reads the stored versions: storages with the same commits give the same result. -/
theorem applyStateInternalWith_storage {s : AvlStorage}
    (hsame : ∀ root height, s.updateWithHeight root height = v.storage.updateWithHeight root height) :
    ({ v with storage := s }.applyStateInternalWith rules dbError block).1 =
        (v.applyStateInternalWith rules dbError block).1 ∧
      ∀ outcome, (v.applyStateInternalWith rules dbError block).1 = .ok outcome →
        ({ v with storage := s }.applyStateInternalWith rules dbError block).2 =
          (v.applyStateInternalWith rules dbError block).2 := by
  have hbefore : { v with storage := s }.beforeCommit rules block = v.beforeCommit rules block := rfl
  unfold applyStateInternalWith
  rw [hbefore]
  rcases v.beforeCommit rules block with e | ⟨txs, boundary, cost⟩
  · exact ⟨rfl, nofun⟩
  rcases dbError with _ | e
  · dsimp only
    rw [hsame]
    split
    · exact ⟨rfl, nofun⟩
    · exact ⟨rfl, fun _ _ => rfl⟩
  · exact ⟨rfl, nofun⟩

end Call

end UtxoValidator

namespace EmissionValidator

/-- `apply_state`, where `dbError` is the error of the commit's transaction if it fails. -/
def applyStateWith (rules : EmissionRules) (dbError : Option String) (v : EmissionValidator)
    (block : BlockArgs) : Except ValidationError ApplyStateOutcome × EmissionValidator :=
  match v.core.applyStateInternalWith rules.toBlockRules dbError block with
  | (.error e, core) => (.error e, { v with core := core.rollbackProverTo v.core.currentDigest })
  | (.ok outcome, core) =>
    (.ok outcome, { v with
      core := core
      emissionBoxId :=
        if v.emissionTreeBytes = [] then v.emissionBoxId
        else
          match changesOfBlock rules block.blockTxs with
          | .ok changes => findEmissionBox rules changes.insertions v.emissionTreeBytes
          | .error _ => v.emissionBoxId })

lemma applyStateWith_none (rules : EmissionRules) (v : EmissionValidator) (block : BlockArgs) :
    v.applyStateWith rules none block = v.applyState rules block := by
  unfold applyStateWith applyState UtxoValidator.applyState
  rw [applyStateInternalWith_none]
  rcases v.core.applyStateInternal rules.toBlockRules block with ⟨e | outcome, core⟩ <;> rfl

structure InStep (v : EmissionValidator) : Prop extends Settled v where
  blockHeight : v.core.storage.blockHeight = some v.core.validatedHeight

structure SameState (v v' : EmissionValidator) : Prop where
  prover : v'.core.prover = v.core.prover
  version : v'.core.storage.version = v.core.storage.version
  blockHeight : v'.core.storage.blockHeight = v.core.storage.blockHeight
  validatedHeight : v'.core.validatedHeight = v.core.validatedHeight
  currentDigest : v'.core.currentDigest = v.core.currentDigest
  emissionBoxId : v'.emissionBoxId = v.emissionBoxId

/-- The block passes every stage and is committed, and the version before it is the block's own or
not kept. -/
def LeavesTrace (rules : EmissionRules) (dbError : Option String) (v : EmissionValidator)
    (block : BlockArgs) : Prop :=
  (dbError = none ∧ (v.core.beforeCommit rules.toBlockRules block).isOk = true) ∧
    (v.core.storage.keepVersions = 0 ∨ block.header.stateRoot = v.core.currentDigest)

variable {rules : EmissionRules} {dbError : Option String} {v v' : EmissionValidator}
  {block : BlockArgs} {e : ValidationError}

/-- The validator with the versions that are left after a commit was undone. -/
def forgetOldest (v : EmissionValidator) : EmissionValidator :=
  { v with core := { v.core with storage := { v.core.storage with
    versionChain := v.core.storage.versionChain.take v.core.storage.keepVersions } } }

/-- A rejected block that leaves no trace changes nothing, or loses the oldest version. -/
theorem eq_of_rejected (hstep : v.InStep)
    (h : v.applyStateWith rules dbError block = (.error e, v'))
    (hclean : ¬LeavesTrace rules dbError v block) :
    v' = v ∨ 0 < v.core.storage.keepVersions ∧ v' = v.forgetOldest := by
  obtain ⟨⟨storage, prover, validatedHeight, checkpointHeight, currentDigest⟩, id, tree⟩ := v
  obtain ⟨⟨hprover, hversion⟩, -⟩ := hstep
  dsimp only at hprover hversion
  subst hprover
  unfold applyStateWith at h
  rcases applyStateInternalWith_cases rules.toBlockRules dbError _ block with
    ⟨e', root, hcall, -⟩ | ⟨hnone, hpassed, -, ⟨e', hcall⟩ | ⟨outcome, hcall⟩⟩
  · rw [hcall] at h
    cases h
    left
    simp only [rollbackProverTo, rollback_of_version hversion]
  · rw [hcall] at h
    cases h
    -- the commit is undone: the block's version differs and one below it is kept
    have hboth := not_or.1 fun htrace => hclean ⟨⟨hnone, hpassed⟩, htrace⟩
    have hkeep := Nat.pos_of_ne_zero hboth.1
    refine .inr ⟨hkeep, ?_⟩
    simp only [rollbackProverTo, rollback_updateWithHeight hversion hkeep hboth.2]
    rfl
  · rw [hcall] at h
    cases (Prod.mk.inj h).1

lemma sameState_forgetOldest (hkeep : 0 < v.core.storage.keepVersions) :
    SameState v v.forgetOldest := by
  obtain ⟨n, hn⟩ := Nat.exists_eq_succ_of_ne_zero (Nat.ne_of_gt hkeep)
  refine ⟨rfl, ?_, ?_, rfl, rfl, rfl⟩
  · simp [forgetOldest, version, hn, List.head?_take]
  · simp [forgetOldest, blockHeight, hn, List.head?_take]

lemma InStep.of_sameState (hstep : v.InStep) (h : SameState v v') : v'.InStep where
  prover := by rw [h.prover, h.currentDigest, hstep.prover]
  version := by rw [h.version, h.currentDigest, hstep.version]
  blockHeight := by rw [h.blockHeight, h.validatedHeight, hstep.blockHeight]

lemma applyStateWith_forgetOldest (dbError : Option String) (next : BlockArgs) :
    (v.forgetOldest.applyStateWith rules dbError next).1 = (v.applyStateWith rules dbError next).1 ∧
      ∀ outcome, (v.applyStateWith rules dbError next).1 = .ok outcome →
        (v.forgetOldest.applyStateWith rules dbError next).2 =
          (v.applyStateWith rules dbError next).2 := by
  have hsame := applyStateInternalWith_storage rules.toBlockRules dbError v.core next
    (fun root height => updateWithHeight_take (s := v.core.storage) height)
  change (v.forgetOldest.core.applyStateInternalWith rules.toBlockRules dbError next).1 = _ ∧
    ∀ outcome, _ → (v.forgetOldest.core.applyStateInternalWith rules.toBlockRules dbError next).2 = _
    at hsame
  unfold applyStateWith
  generalize v.core.applyStateInternalWith rules.toBlockRules dbError next = result at hsame ⊢
  generalize v.forgetOldest.core.applyStateInternalWith rules.toBlockRules dbError next = result'
    at hsame ⊢
  obtain ⟨r, core⟩ := result
  obtain ⟨r', core'⟩ := result'
  obtain ⟨hresult, hstate⟩ := hsame
  obtain rfl : r' = r := hresult
  cases r' with
  | error e => exact ⟨rfl, nofun⟩
  | ok outcome =>
    obtain rfl : core' = core := hstate outcome rfl
    exact ⟨rfl, fun _ _ => rfl⟩

/-- A block that was committed at the digest it started from, or with nothing below it, is seen. -/
theorem not_sameState_of_leavesTrace (hstep : v.InStep)
    (h : v.applyStateWith rules dbError block = (.error e, v'))
    (htrace : LeavesTrace rules dbError v block) : ¬SameState v v' := by
  obtain ⟨hpassed, htrace⟩ := htrace
  unfold applyStateWith at h
  rcases applyStateInternalWith_cases rules.toBlockRules dbError v.core block with
    ⟨e', root, -, hnot⟩ | ⟨-, -, hheight, ⟨e', hcall⟩ | ⟨outcome, hcall⟩⟩
  · exact absurd hpassed hnot
  · rw [hcall] at h
    cases h
    intro hsame
    by_cases hroot : block.header.stateRoot = v.core.currentDigest
    · -- the rollback ends at the block's own version
      have hblock := hsame.blockHeight
      simp only [rollbackProverTo, ← hroot, rollback_of_version (version_updateWithHeight _),
        blockHeight_updateWithHeight, hstep.blockHeight, hheight] at hblock
      simp at hblock
    · -- the rollback fails and the prover stays
      have hprover := hsame.prover
      simp only [rollbackProverTo,
        rollback_eq_none (htrace.resolve_right hroot) hroot, hstep.prover] at hprover
      exact hroot hprover
  · rw [hcall] at h
    cases (Prod.mk.inj h).1

lemma inStep_of_applied {outcome : ApplyStateOutcome}
    (h : v.applyStateWith rules dbError block = (.ok outcome, v')) : v'.InStep := by
  unfold applyStateWith at h
  rcases applyStateInternalWith_cases rules.toBlockRules dbError v.core block with
    ⟨e', root, hcall, -⟩ | ⟨-, -, -, ⟨e', hcall⟩ | ⟨outcome', hcall⟩⟩
  · rw [hcall] at h
    cases (Prod.mk.inj h).1
  · rw [hcall] at h
    cases (Prod.mk.inj h).1
  · rw [hcall] at h
    cases h
    exact ⟨⟨rfl, version_updateWithHeight _⟩, blockHeight_updateWithHeight _⟩

/-- **A rejected block leaves no trace**, from any consistent state, exactly if it was rejected
before the commit, or ends at another digest with a version kept to return to. Then every next block
gets the same answer, and leads to the same state, as without it; and the state is consistent again,
as after an applied block. -/
theorem rejected_leaves_no_trace (rules : EmissionRules) {v : EmissionValidator} (hstep : v.InStep)
    (dbError : Option String) (block : BlockArgs) :
    (∀ outcome v', v.applyStateWith rules dbError block = (.ok outcome, v') → v'.InStep) ∧
      ∀ e v', v.applyStateWith rules dbError block = (.error e, v') →
        (SameState v v' ↔ ¬LeavesTrace rules dbError v block) ∧
        (¬LeavesTrace rules dbError v block → v'.InStep ∧ ∀ dbError' next,
          (v'.applyStateWith rules dbError' next).1 = (v.applyStateWith rules dbError' next).1 ∧
          ∀ outcome, (v.applyStateWith rules dbError' next).1 = .ok outcome →
            (v'.applyStateWith rules dbError' next).2 =
              (v.applyStateWith rules dbError' next).2) := by
  refine ⟨fun outcome v' h => inStep_of_applied h, fun e v' h => ?_⟩
  have hclean : ¬LeavesTrace rules dbError v block → SameState v v' := by
    intro hclean
    rcases eq_of_rejected hstep h hclean with rfl | ⟨hkeep, rfl⟩
    · exact ⟨rfl, rfl, rfl, rfl, rfl, rfl⟩
    · exact sameState_forgetOldest hkeep
  refine ⟨⟨fun hsame htrace => not_sameState_of_leavesTrace hstep h htrace hsame, hclean⟩,
    fun hnot => ⟨hstep.of_sameState (hclean hnot), fun dbError' next => ?_⟩⟩
  rcases eq_of_rejected hstep h hnot with rfl | ⟨-, rfl⟩
  · exact ⟨rfl, fun _ _ => rfl⟩
  · exact applyStateWith_forgetOldest dbError' next

/-! ## Two proofs that do not match -/

def otherProofRules : EmissionRules := { exampleEmissionRules with adProofsRoot := fun _ => 1 }

/-- A rejected block that moves the emission box is forgotten: the next one is applied. -/
theorem rejected_leaves_no_trace_moved :
    SameState exampleValidator
      (exampleValidator.applyStateWith otherProofRules none (exampleBlock 1 2 [1])).2 := by
  have hstep : exampleValidator.InStep := ⟨settled_exampleValidator, rfl⟩
  refine (((rejected_leaves_no_trace otherProofRules hstep none (exampleBlock 1 2 [1])).2
    (.proofDigestMismatch 1 0) _ ?_).1).2 ?_
  · exact Prod.ext rfl rfl
  · rintro ⟨-, hkeep | hroot⟩
    · exact absurd hkeep (by decide)
    · exact absurd hroot (by decide)

def idleRules : EmissionRules where
  parseBlockTransactions _ := .ok []
  performOperations root txs := if txs = [] then (.ok (), root) else (.error .missingProof, root)
  verifyOperations root _ _ := .ok root
  generateProof _ _ := []
  proofDigest _ := 0
  adProofsRoot _ := 1
  evaluateScripts _ _ _ _ _ := .ok 0
  summary _ := .error .missingProof
  ergoTreeBytes bytes := some bytes
  boxes _ := ∅
  performOperations_ok root txs root' h := by
    split at h
    next hnil =>
      subst hnil
      exact ⟨[], ⟨[], [], []⟩, rfl, rfl, rfl⟩
    · cases (Prod.mk.inj h).1

/-- Its proof does not match and it is rejected, and the storage is at its height. -/
theorem rejected_leaves_trace_idle :
    exampleValidator.InStep ∧
      (exampleValidator.applyStateWith idleRules none (exampleBlock 1 1 [])).1 =
        .error (.proofDigestMismatch 1 0) ∧
      exampleValidator.core.storage.blockHeight = some 0 ∧
      (exampleValidator.applyStateWith idleRules none (exampleBlock 1 1 [])).2.core.storage.blockHeight =
        some 1 :=
  ⟨⟨settled_exampleValidator, rfl⟩, rfl, rfl, by decide +kernel⟩

end EmissionValidator

end ErgoNode
