import ErgoNode.Chain.Difficulty
import ErgoNode.Chain.Linked
import ErgoNode.Mining.Fee

/-!
# Mining candidates

A candidate is built on the block that the validator applied last, with the difficulty of the
chain's tip, the version of the parent, and configured votes. At an epoch boundary the extension
carries the parameters that the chain computes for those votes. The transactions, the state root
after them, the serialized header and the interlinks are parameters.
-/

namespace ErgoNode

/-! ## The extension -/

def parameterOrder : List Parameter :=
  [.storageFeeFactor, .minValuePerByte, .maxBlockSize, .maxBlockCost, .tokenAccessCost, .inputCost,
    .dataInputCost, .outputCost, .subblocksPerBlock, .softForkVotesCollected,
    .softForkStartingHeight, .blockVersion]

/-- The field of an entry: its id, and its value as a big-endian `i32`. -/
def entryField (p : Parameter) (v : ℤ) : ExtensionField where
  subId := 0
  fieldId := UInt8.ofNat (parameterId p).toNat
  value := bytesOfNat 4 (v % 2 ^ 32).toNat

def packParameters (params : Parameters) : List ExtensionField :=
  parameterOrder.filterMap (fun p => (params.get p).map (entryField p))

structure InterlinkRules where
  /-- `unpack_interlinks`, from the fields of an extension. -/
  unpackInterlinks : List ExtensionField → Except String (List BlockId)
  updateInterlinks : Header → List BlockId → Except String (List BlockId)
  packInterlinks : List BlockId → List ExtensionField
  subId_packInterlinks : ∀ {links : List BlockId}, ∀ f ∈ packInterlinks links, f.subId = 1
  length_value_packInterlinks : ∀ {links : List BlockId}, ∀ f ∈ packInterlinks links,
    f.value.length ≤ 64
  /-- The second key byte numbers the fields. -/
  length_packInterlinks : ∀ {links : List BlockId}, (packInterlinks links).length ≤ 256

def updateField (proposedUpdate : Bytes) : ExtensionField := ⟨0, 124, proposedUpdate⟩

def extensionFields (interlinks : List ExtensionField) (boundaryParams : Option Parameters)
    (proposedUpdate : Bytes) : List ExtensionField :=
  interlinks ++ (boundaryParams.map packParameters).getD [] ++
    if proposedUpdate = [] then [] else [updateField proposedUpdate]

def InterlinkRules.buildExtension (links : InterlinkRules) (parent : Header)
    (parentInterlinks : List BlockId) (boundaryParams : Option Parameters) (proposedUpdate : Bytes) :
    Except MiningError (List ExtensionField) := do
  let updated ← (links.updateInterlinks parent parentInterlinks).mapError (fun e =>
    .assemblyFailed ("interlinks: " ++ e))
  .ok (extensionFields (links.packInterlinks updated) boundaryParams proposedUpdate)

/-- `unpack_parent_interlinks`. An extension that cannot be read has none. -/
def InterlinkRules.unpackParentInterlinks (links : InterlinkRules) (bytes : Bytes) :
    List BlockId :=
  match parseExtension bytes with
  | .error _ => []
  | .ok parsed => (links.unpackInterlinks parsed.fields).toOption.getD []

/-! ## The candidate -/

structure CandidateBlock where
  parent : Header
  version : ℕ
  nBits : ℕ
  stateRoot : ADDigest
  adProofBytes : Bytes
  transactions : List ErgoTransaction
  timestamp : ℕ
  extension : List ExtensionField
  votes : Votes
  /-- Serialized header without the proof of work. -/
  headerBytes : Bytes
deriving DecidableEq

def CandidateBlock.header (candidate : CandidateBlock) (id : BlockId) : Header where
  version := candidate.version
  id := id
  parentId := candidate.parent.id
  stateRoot := candidate.stateRoot
  timestamp := candidate.timestamp
  nBits := candidate.nBits
  height := candidate.parent.height + 1
  votes := candidate.votes

abbrev ProofSource := List ErgoTransaction → Except String (Bytes × ADDigest)

structure MiningEnv where
  links : InterlinkRules
  sigmaParse : Bytes → Option (RuleStatus × Bytes)
  /-- The stored extension of the parent, if there is one and it can be read. -/
  parentExtension : Option Bytes
  /-- Access to the state, absent while its storage is reopened. -/
  reader : Option ProofSource
  /-- The transactions of the block: emission, selected, fees. -/
  transactions : Except MiningError (List ErgoTransaction)
  /-- The header of a candidate without its proof of work. -/
  serializeWithoutPow : CandidateBlock → Except String Bytes
  now : ℕ

def buildWorkMessage (env : MiningEnv) (candidate : CandidateBlock) : Except MiningError Bytes := do
  require (candidate.transactions ≠ []) (.assemblyFailed "no transactions")
  (env.serializeWithoutPow candidate).mapError (fun e => .assemblyFailed ("header serialize: " ++ e))

/-- What the validator proves about a block; without a state there is nothing to prove with. -/
def proofsOf (validatorProofs : Option (Except String (Bytes × ADDigest))) :
    Except MiningError (Bytes × ADDigest) :=
  match validatorProofs with
  | none => .error (.unavailable "UTXO mode required for mining")
  | some proofs => proofs.mapError .validation

def generateCandidate (env : MiningEnv) (votes : Votes) (parent : Header) (nBits : ℕ)
    (parentInterlinks : List BlockId) (boundaryParams : Option Parameters) (proposedUpdate : Bytes)
    (validatorProofs : List ErgoTransaction → Option (Except String (Bytes × ADDigest))) :
    Except MiningError CandidateBlock := do
  let transactions ← env.transactions
  let proofs ← proofsOf (validatorProofs transactions)
  let extension ← env.links.buildExtension parent parentInterlinks boundaryParams proposedUpdate
  let block : CandidateBlock := {
    parent := parent
    version := parent.version
    nBits := nBits
    stateRoot := proofs.2
    adProofBytes := proofs.1
    transactions := transactions
    timestamp := max env.now (parent.timestamp + 1)
    extension := extension
    votes := votes
    headerBytes := [] }
  let headerBytes ← buildWorkMessage env block
  .ok { block with headerBytes := headerBytes }

namespace HeaderChain

/-- `compute_boundary_parameters_at`: the boundary computation for a given fork vote. -/
def computeBoundaryParametersAt (sigmaParse : Bytes → Option (RuleStatus × Bytes))
    (c : HeaderChain) (boundary : ℕ) (blockProposedUpdate : Bytes) (forkVote : Bool) :
    Except ChainError (Parameters × ValidationSettingsUpdate) := do
  let tally ← c.tallyJustEndedEpoch boundary
  let proposedUpdate :=
    match parseValidationSettingsUpdate sigmaParse blockProposedUpdate with
    | .ok _ => blockProposedUpdate
    | .error _ => encodeDisabledRules []
  computeBoundaryParameters sigmaParse c.config.voting boundary c.activeParameters tally forkVote
    proposedUpdate

/-- `compute_expected_parameters_for_candidate`: the fork vote is that of the candidate. -/
def computeExpectedParametersForCandidate (sigmaParse : Bytes → Option (RuleStatus × Bytes))
    (c : HeaderChain) (boundary : ℕ) (blockProposedUpdate : Bytes) (candidateVotes : Votes) :
    Except ChainError (Parameters × ValidationSettingsUpdate) :=
  c.computeBoundaryParametersAt sigmaParse boundary blockProposedUpdate
    ((120 : UInt8) ∈ candidateVotes.toList)

lemma computeExpectedParameters_eq (sigmaParse : Bytes → Option (RuleStatus × Bytes))
    (c : HeaderChain) (boundary : ℕ) (update : Bytes) :
    c.computeExpectedParameters sigmaParse boundary update =
      (c.computeBoundaryParametersAt sigmaParse boundary update
        ((c.headerAt boundary).any (fun h => (120 : UInt8) ∈ h.votes.toList))).map Prod.fst := by
  unfold computeExpectedParameters computeBoundaryParametersAt
  cases c.tallyJustEndedEpoch boundary with
  | error e => rfl
  | ok tally =>
    simp only [ok_bind]
    generalize computeBoundaryParameters _ _ _ _ _ _ _ = result
    cases result with
    | error e => rfl
    | ok out => rfl

end HeaderChain

/-- What the validator left for the task: the block it applied last. -/
structure MiningProofData where
  parent : Header
  tipHeight : ℕ

namespace MiningTask

def boundaryParams (env : MiningEnv) (c : HeaderChain) (votes : Votes) (height : ℕ) :
    Except ChainError (Option Parameters) :=
  if c.isEpochBoundary height then
    (c.computeExpectedParametersForCandidate env.sigmaParse height c.activeProposedUpdateBytes
      votes).map (fun out => some out.1)
  else .ok none

/-- One turn of the mining task at the height `current` of the state; `stale` says that nothing
cached is fresh. A turn that skips or fails caches nothing, and one on an empty chain neither, where
the source panics. -/
def poll (env : MiningEnv) (c : HeaderChain) (votes : Votes) (proofData : Option MiningProofData)
    (current lastHeight : ℕ) (stale : Bool) : Option CandidateBlock := do
  guard (current ≠ 0)
  guard (current ≠ lastHeight ∨ stale)
  let data ← proofData
  guard (data.tipHeight = current)
  -- the difficulty of the tip, whatever the candidate's height
  let tip ← c.tip?
  let params ← (boundaryParams env c votes (data.parent.height + 1)).toOption
  let interlinks := (env.parentExtension.map env.links.unpackParentInterlinks).getD []
  let reader ← env.reader
  (generateCandidate env votes data.parent tip.nBits interlinks params c.activeProposedUpdateBytes
    (fun txs => some (reader txs))).toOption

structure Built (env : MiningEnv) (c : HeaderChain) (votes : Votes) (candidate : CandidateBlock) :
    Prop where
  nBits_eq : ∀ tip, c.tip? = some tip → candidate.nBits = tip.nBits
  version_eq : candidate.version = candidate.parent.version
  timestamp_eq : candidate.timestamp = max env.now (candidate.parent.timestamp + 1)
  votes_eq : candidate.votes = votes
  /-- Its extension has interlinks, the boundary parameters and the installed update. -/
  extension_eq : ∃ links params,
    boundaryParams env c votes (candidate.parent.height + 1) = .ok params ∧
      candidate.extension =
        extensionFields (env.links.packInterlinks links) params c.activeProposedUpdateBytes

lemma built_of_poll {env : MiningEnv} {c : HeaderChain} {votes : Votes}
    {proofData : Option MiningProofData} {current lastHeight : ℕ} {stale : Bool}
    {candidate : CandidateBlock}
    (h : poll env c votes proofData current lastHeight stale = some candidate) :
    Built env c votes candidate := by
  simp only [poll, Option.bind_eq_bind, Option.bind_eq_some_iff, toOption_eq_some_iff] at h
  obtain ⟨_, -, _, -, data, -, _, -, tip, htip, params, hparams, reader, -, hgenerate⟩ := h
  simp only [generateCandidate, bind_eq_ok] at hgenerate
  obtain ⟨transactions, -, proofs, -, extension, hextension, headerBytes, -, heq⟩ := hgenerate
  cases heq
  obtain ⟨updated, -, hfields⟩ := bind_eq_ok.1 hextension
  exact {
    nBits_eq := fun tip' htip' => by rw [Option.some.inj (htip'.symm.trans htip)]
    version_eq := rfl
    timestamp_eq := rfl
    votes_eq := rfl
    extension_eq := ⟨updated, params, hparams, (Except.ok.inj hfields).symm⟩ }

end MiningTask

/-! ## Reading a packed table -/

lemma i8OfByte_parameterId (p : Parameter) :
    i8OfByte (UInt8.ofNat (parameterId p).toNat) = parameterId p := by
  cases p <;> decide

lemma isParameter_entryField (p : Parameter) (v : ℤ) : (entryField p v).IsParameter := by
  refine ⟨rfl, ?_⟩
  rw [entryField, i8OfByte_parameterId]
  cases p <;> decide

lemma i32OfBytes_entryField (p : Parameter) (v : ℤ) :
    i32OfBytes (entryField p v).value = wrapI32 v := by
  have hnonneg : 0 ≤ v % 2 ^ 32 := Int.emod_nonneg _ (by decide)
  have hlt : (v % 2 ^ 32).toNat < 256 ^ 4 := by omega
  rw [i32OfBytes, entryField, natOfBytes_bytesOfNat, Nat.mod_eq_of_lt hlt,
    Int.toNat_of_nonneg hnonneg, wrapI32, wrapI32]
  exact Int.emod_bmod v (2 ^ 32)

lemma fieldValue_append (kv kv' : List ExtensionField) (id : ℤ) :
    fieldValue (kv ++ kv') id = (fieldValue kv' id).or (fieldValue kv id) := by
  induction kv with
  | nil => simp [fieldValue]
  | cons f kv ih => rw [List.cons_append, fieldValue, fieldValue, ih, Option.or_assoc]

lemma fieldValue_packed (params : Parameters) {order : List Parameter} (hnodup : order.Nodup)
    (p : Parameter) :
    fieldValue (order.filterMap (fun q => (params.get q).map (entryField q))) (parameterId p) =
      if p ∈ order then (params.get p).map wrapI32 else none := by
  induction order with
  | nil => rfl
  | cons q order ih =>
    obtain ⟨hnot, hnodup⟩ := List.nodup_cons.1 hnodup
    have hid : ∀ v, i8OfByte (entryField q v).fieldId = parameterId p ↔ p = q := by
      intro v
      rw [entryField, i8OfByte_parameterId, parameterId_injective.eq_iff, eq_comm]
    rw [List.filterMap_cons]
    cases hv : params.get q with
    | none =>
      simp only [Option.map_none, ih hnodup, List.mem_cons]
      by_cases hpq : p = q
      · subst hpq
        simp [hnot, hv]
      · simp [hpq]
    | some v =>
      simp only [Option.map_some, fieldValue, ih hnodup, hid, isParameter_entryField, true_and,
        i32OfBytes_entryField, List.mem_cons]
      by_cases hpq : p = q
      · subst hpq
        simp [hnot, hv]
      · simp [hpq]

/-- **A packed table is read back, with its values cut to 32 bits.** -/
theorem fieldValue_packParameters (params : Parameters) (p : Parameter) :
    fieldValue (packParameters params) (parameterId p) = (params.get p).map wrapI32 := by
  rw [packParameters, fieldValue_packed params (by decide) p, if_pos (by cases p <;> decide)]

lemma length_packParameters_le (params : Parameters) : (packParameters params).length ≤ 12 :=
  (List.length_filterMap_le _ _).trans (by decide)

lemma mem_packParameters {params : Parameters} {f : ExtensionField}
    (h : f ∈ packParameters params) : f.IsParameter ∧ f.value.length = 4 := by
  obtain ⟨p, -, hf⟩ := List.mem_filterMap.1 h
  obtain ⟨v, -, rfl⟩ := Option.map_eq_some_iff.1 hf
  exact ⟨isParameter_entryField p v, length_bytesOfNat 4 _⟩

end ErgoNode
