import ErgoNode.Sync.Machine

/-!
# The parameters a boundary block installs

At an epoch boundary the chain computes the table the block must carry, the validator checks that
the block carries it, and the sync machine installs what the block carried. The check only looks
at the entries of the computed table: an extension may carry more, and all of it is installed.
-/

namespace ErgoNode

/-- Every known parameter that the fields carry is an entry of the table. -/
def NoExtraParameter (table : Parameters) (fields : List ExtensionField) : Prop :=
  ∀ f ∈ fields, f.IsParameter → ∀ p, i8OfByte f.fieldId = parameterId p → (table.get p).isSome

instance (table : Parameters) (fields : List ExtensionField) :
    Decidable (NoExtraParameter table fields) := by
  unfold NoExtraParameter
  infer_instance

variable {fields : List ExtensionField}

/-- A table read from the fields with all computed entries is the computed one exactly if no field
is beyond it. -/
theorem eq_iff_noExtraParameter {table params : Parameters}
    (hget : ∀ p, params.get p = fieldValue fields (parameterId p))
    (hmatch : ∀ p v, table.get p = some v → params.get p = some v) :
    params = table ↔ NoExtraParameter table fields := by
  constructor
  · rintro rfl f hf hparam p hid
    rw [Option.isSome_iff_ne_none, hget]
    intro hnone
    exact fieldValue_eq_none.1 hnone f hf hparam hid
  · intro hextra
    ext p : 1
    cases htable : table.get p with
    | some v => exact hmatch p v htable
    | none =>
      rw [hget, fieldValue_eq_none]
      intro f hf hparam hid
      have := hextra f hf hparam p hid
      rw [htable] at this
      cases this

namespace Node

variable {rules : NodeRules} {cfg : SyncConfig} {s : Node} {w : Sweep} {block : LoadedBlock}
  {expected : Option Parameters} {outcome : ApplyStateOutcome} {validator : Validator}
  {table : Parameters} {headerId : BlockId}

/-- What the machine computes before it applies a block: at a boundary, the table from its
extension. -/
theorem expectedBoundary_cases (h : s.expectedBoundary rules block = .ok expected) :
    s.chain.isEpochBoundary block.height = false ∧ expected = none ∨
      s.chain.isEpochBoundary block.height = true ∧ ∃ fields table,
        parseExtensionBytes block.extension = .ok (sectionHeaderId block.extension, fields) ∧
        s.chain.computeExpectedParameters rules.sigmaParse block.height
          (extractDisablingRulesFromKv fields) = .ok table ∧ expected = some table := by
  unfold expectedBoundary at h
  split at h
  next hboundary =>
    obtain ⟨⟨headerId, fields⟩, hfields, hcompute⟩ := bind_eq_ok.1 h
    obtain ⟨table, htable, hout⟩ := bind_eq_ok.1 hcompute
    obtain rfl := fst_of_parseExtensionBytes hfields
    exact .inr ⟨hboundary, fields, table, hfields, htable, (Except.ok.inj hout).symm⟩
  next hboundary =>
    exact .inl ⟨by simpa using hboundary, (Except.ok.inj h).symm⟩

/-- What an accepted block hands over: at a boundary, a table from its extension with every computed
entry. -/
theorem outcome_cases
    (hexpected : s.expectedBoundary rules block = .ok expected)
    (happly : s.validator.applyState rules.toBlockRules (s.blockArgs block expected) =
      (.ok outcome, validator)) :
    s.chain.isEpochBoundary block.height = false ∧ outcome.epochBoundary = none ∨
      s.chain.isEpochBoundary block.height = true ∧ ∃ fields table params,
        parseExtensionBytes block.extension = .ok (sectionHeaderId block.extension, fields) ∧
        s.chain.computeExpectedParameters rules.sigmaParse block.height
          (extractDisablingRulesFromKv fields) = .ok table ∧
        outcome.epochBoundary = some (params, extractDisablingRulesFromKv fields) ∧
        (∀ p, params.get p = fieldValue fields (parameterId p)) ∧
        (∀ f ∈ fields, f.IsParameter → f.value.length = 4) ∧
        ∀ p v, table.get p = some v → params.get p = some v := by
  obtain ⟨-, -, -, txs, hsections⟩ := Validator.applyState_ok happly
  rcases expectedBoundary_cases hexpected with ⟨hno, rfl⟩ |
    ⟨hboundary, fields, table, hfields, htable, rfl⟩
  · exact .inl ⟨hno, parseSections_none hsections rfl⟩
  · obtain ⟨params, hsome, hget, hlength, hmatch⟩ := parseSections_boundary hsections rfl hfields
    exact .inr ⟨hboundary, fields, table, params, hfields, htable, hsome, hget, hlength, hmatch⟩

lemma expectedBoundary_eq_ok
    (hboundary : s.chain.isEpochBoundary block.height = true)
    (hfields : parseExtensionBytes block.extension = .ok (headerId, fields))
    (htable : s.chain.computeExpectedParameters rules.sigmaParse block.height
      (extractDisablingRulesFromKv fields) = .ok table) :
    s.expectedBoundary rules block = .ok (some table) := by
  unfold expectedBoundary
  rw [if_pos hboundary, hfields]
  show (s.chain.computeExpectedParameters _ _ _ >>= _) = _
  rw [htable]
  rfl

/-- After an accepted boundary block the task installs what the block's own extension carries. -/
theorem step_applyBlock_boundary (cfg : SyncConfig)

    (htask : s.task = .applyBlock w block)
    (hexpected : s.expectedBoundary rules block = .ok (some table))
    (hfields : parseExtensionBytes block.extension = .ok (headerId, fields))
    (happly : s.validator.applyState rules.toBlockRules (s.blockArgs block (some table)) =
      (.ok outcome, validator)) (env : StepEnv) :
    ∃ params, outcome.epochBoundary = some (params, extractDisablingRulesFromKv fields) ∧
      s.step rules cfg (.resume env) = { s with
        validator := validator
        task := .install w block.height params (extractDisablingRulesFromKv fields) } ∧
      (∀ p, params.get p = fieldValue fields (parameterId p)) ∧
      (∀ f ∈ fields, f.IsParameter → f.value.length = 4) ∧
      ∀ p v, table.get p = some v → params.get p = some v := by
  obtain ⟨-, -, -, txs, hsections⟩ := Validator.applyState_ok happly
  obtain ⟨params, hboundary, hget, hlength, hmatch⟩ :=
    parseSections_boundary hsections rfl hfields
  refine ⟨params, hboundary, ?_, hget, hlength, hmatch⟩
  rw [step_resume]
  unfold resume
  rw [htask]
  show s.applyBlock rules w block env = _
  unfold applyBlock
  simp only [hexpected, happly, hboundary]

lemma task_run_batches (rules : NodeRules) (cfg : SyncConfig) (s : Node)
    (batches : List (ℕ × List ModifierBatchItem)) :
    (s.run rules cfg (batches.map (fun b => .batch b.1 b.2))).task = s.task := by
  induction batches generalizing s with
  | nil => rfl
  | cons b batches ih => exact ih (s.step rules cfg (.batch b.1 b.2))

lemma chain_step_install {height : ℕ} {params : Parameters} {update : Bytes}
    (htask : s.task = .install w height params update) (env : StepEnv) :
    (s.step rules cfg (.resume env)).chain = s.chain.applyEpochBoundaryParameters params update := by
  rw [step_resume]
  unfold resume
  rw [htask]

/-- **What a boundary block installs is the computed table exactly if its extension carries no
parameter beyond it.** Batches may come between its application and the installation. -/
theorem activeParameters_eq_computed_iff (rules : NodeRules) (cfg : SyncConfig) (s : Node)
    (w : Sweep) (block : LoadedBlock) {headerId : BlockId} {fields : List ExtensionField}
    {table : Parameters} (htask : s.task = .applyBlock w block)
    (hboundary : s.chain.isEpochBoundary block.height = true)
    (hfields : parseExtensionBytes block.extension = .ok (headerId, fields))
    (htable : s.chain.computeExpectedParameters rules.sigmaParse block.height
      (extractDisablingRulesFromKv fields) = .ok table)
    (haccepted :
      (s.validator.applyState rules.toBlockRules (s.blockArgs block (some table))).1.isOk = true)
    (env env' : StepEnv) (batches : List (ℕ × List ModifierBatchItem)) :
    (s.run rules cfg ([.resume env] ++ batches.map (fun b => .batch b.1 b.2) ++
        [.resume env'])).chain.activeParameters = table ↔ NoExtraParameter table fields := by
  obtain ⟨outcome, validator, happly⟩ : ∃ outcome validator,
      s.validator.applyState rules.toBlockRules (s.blockArgs block (some table)) =
        (.ok outcome, validator) := by
    generalize s.validator.applyState rules.toBlockRules _ = result at haccepted
    obtain ⟨e | outcome, validator⟩ := result
    · cases haccepted
    · exact ⟨outcome, validator, rfl⟩
  obtain ⟨params, -, hstep, hget, -, hmatch⟩ := step_applyBlock_boundary cfg htask
    (expectedBoundary_eq_ok hboundary hfields htable) hfields happly env
  rw [← eq_iff_noExtraParameter hget hmatch]
  -- the task waits with the parsed table until the batches are done
  have hwaiting := task_run_batches rules cfg (s.step rules cfg (.resume env)) batches
  rw [hstep] at hwaiting
  have hinstalled : (s.run rules cfg ([.resume env] ++ batches.map (fun b => .batch b.1 b.2) ++
      [.resume env'])).chain.activeParameters = params := by
    simp only [run, List.foldl_append, List.foldl_cons, List.foldl_nil, hstep]
    exact congrArg HeaderChain.activeParameters (chain_step_install hwaiting env')
  rw [hinstalled]

/-- The boundary block at height 128 of the test network; `tail` is what its extension holds after
the header id. -/
def boundaryBlock (tail : Bytes) : LoadedBlock where
  height := 128
  header := lineHeader 128
  blockTxs := sectionBody 128 [0]
  adProofs := none
  extension := sectionBody 128 tail
  preceding := []

def atBoundary (tail : Bytes) : Node :=
  { Node.new { ValidationPipeline.new .testnet with chain := lineChain 128 } (lineUtxo 127) 127 with
    task := .applyBlock { appliedTip := 127, sweepTo := 128 } (boundaryBlock tail) }

/-- A block that carries the launch parameters and nothing else installs them. -/
theorem activeParameters_eq_computed_atBoundary :
    ((atBoundary (testnetFields 0 [])).run (listNodeRules []) (listConfig .utxo 1000)
      (resumes 2)).chain.activeParameters = defaultParameters .testnet := by
  have hfields : ∃ headerId fields,
      parseExtensionBytes (boundaryBlock (testnetFields 0 [])).extension = .ok (headerId, fields) ∧
        extractDisablingRulesFromKv fields = [] ∧
        NoExtraParameter (defaultParameters .testnet) fields := by
    refine ⟨_, _, rfl, ?_, ?_⟩ <;> decide +kernel
  obtain ⟨headerId, fields, hfields, hupdate, hextra⟩ := hfields
  have htable : (atBoundary (testnetFields 0 [])).chain.computeExpectedParameters (fun _ => none) 128
      (extractDisablingRulesFromKv fields) = .ok (defaultParameters .testnet) := by
    rw [hupdate]
    decide +kernel
  have hiff := activeParameters_eq_computed_iff (listNodeRules []) (listConfig .utxo 1000)
    (atBoundary (testnetFields 0 [])) { appliedTip := 127, sweepTo := 128 }
    (boundaryBlock (testnetFields 0 [])) rfl (by decide +kernel) hfields htable (by decide +kernel)
    plainEnv plainEnv []
  have hevents : resumes 2 = [.resume plainEnv] ++
      ([] : List (ℕ × List ModifierBatchItem)).map (fun b => .batch b.1 b.2) ++
      [.resume plainEnv] := rfl
  rw [hevents]
  exact hiff.2 hextra

/-- Two more fields, of a soft-fork round, pass the check and are installed, although nobody voted.
-/
theorem extraParameter_installed :
    let s := atBoundary (testnetFields 2 (parameterField 121 4000 ++ parameterField 122 128))
    let s' := s.run (listNodeRules []) (listConfig .utxo 1000) (resumes 2)
    s.chain.computeExpectedParameters (fun _ => none) 128 [] = .ok (defaultParameters .testnet) ∧
      s'.validator.validatedHeight = 128 ∧
      s'.chain.activeParameters.get .softForkVotesCollected = some 4000 ∧
      s'.chain.activeParameters.get .softForkStartingHeight = some 128 ∧
      s'.chain.activeParameters ≠ defaultParameters .testnet := by
  decide +kernel

end Node

end ErgoNode
