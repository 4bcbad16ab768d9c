import ErgoNode.Sync.BoundaryParameters

/-!
# The parameters a restart rebuilds

A restart rebuilds the parameters from the stored extension of the last epoch boundary: from the
launch parameters, with the ids 1 to 8 by their absolute value, in the iteration order of a hash
map, and the launch value in place of a missing proposed update. The running node installed what the
validator's decoder read from the same bytes, where a negative id is no parameter and a missing
update is the empty one.
-/

namespace ErgoNode

open List HeaderChain

/-- A field with a negated id repeats the value of the entry it is taken for. -/
def RecomputeAgrees (fields : List ExtensionField) : Prop :=
  ∀ p, parameterId p ≤ 8 → ∀ v ∈ fieldValue fields (-parameterId p),
    fieldValue fields (parameterId p) = some v

instance (fields : List ExtensionField) : Decidable (RecomputeAgrees fields) := by
  unfold RecomputeAgrees
  infer_instance

variable {fields : List ExtensionField}

lemma get_overlay_of_agrees {map written : List (ℤ × ℤ)} {table : Parameters}
    (hmap : parseParametersFromKv fields = .ok map) (hperm : written.Perm map)
    (hagree : RecomputeAgrees fields)
    (hdefault : ∀ p, (table.get p).isSome → (fieldValue fields (parameterId p)).isSome)
    (p : Parameter) :
    (overlayParameters table written).get p = fieldValue fields (parameterId p) := by
  have hmem : ∀ id v, (id, v) ∈ written ↔ fieldValue fields id = some v :=
    fun id v => (hperm.mem_iff).trans (mem_parseParametersFromKv hmap id v)
  -- whatever is written for the entry is the value of its own field
  have hwritten : ∀ e ∈ written, recomputedParam e.1 = some p →
      fieldValue fields (parameterId p) = some e.2 := by
    intro e he hparam
    have hvalue : fieldValue fields e.1 = some e.2 := (hmem e.1 e.2).1 he
    rcases recomputedParam_eq_some.1 hparam with hid | ⟨hordinary, hid⟩
    · rw [← hid, hvalue]
    · rw [hid] at hvalue
      exact hagree p hordinary e.2 hvalue
  cases hvalue : fieldValue fields (parameterId p) with
  | some v =>
    apply get_overlayParameters_of_mem
    · exact ⟨(parameterId p, v), (hmem _ _).2 hvalue, recomputedParam_eq_some.2 (.inl rfl)⟩
    · intro e he hparam
      exact Option.some.inj ((hwritten e he hparam).symm.trans hvalue)
  | none =>
    rw [get_overlayParameters_of_not_mem]
    · by_contra htable
      have hsome := hdefault p (Option.isSome_iff_ne_none.2 htable)
      rw [hvalue] at hsome
      cases hsome
    · intro e he hparam
      have := hwritten e he hparam
      rw [hvalue] at this
      cases this

def visitLast (id : ℤ) (map : List (ℤ × ℤ)) : List (ℤ × ℤ) :=
  map.filter (fun e => e.1 ≠ id) ++ map.filter (fun e => e.1 = id)

lemma visitLast_perm (id : ℤ) (map : List (ℤ × ℤ)) : (visitLast id map).Perm map := by
  unfold visitLast
  refine perm_append_comm.trans ?_
  simpa using filter_append_perm (fun e : ℤ × ℤ => decide (e.1 = id)) map

lemma get_overlay_visitLast {map : List (ℤ × ℤ)} {id v : ℤ} {p : Parameter}
    (hmap : parseParametersFromKv fields = .ok map) (hvalue : fieldValue fields id = some v)
    (hparam : recomputedParam id = some p) (table : Parameters) :
    (overlayParameters table (visitLast id map)).get p = some v := by
  unfold visitLast overlayParameters
  rw [foldl_append]
  apply get_overlayParameters_of_mem
  · refine ⟨(id, v), ?_, hparam⟩
    simpa using (mem_parseParametersFromKv hmap id v).2 hvalue
  · intro e he _
    obtain ⟨hin, hid⟩ : e ∈ map ∧ e.1 = id := by simpa using he
    have hown : fieldValue fields e.1 = some e.2 := (mem_parseParametersFromKv hmap e.1 e.2).1 hin
    rw [hid, hvalue] at hown
    exact (Option.some.inj hown).symm

lemma ne_of_launch {network : Network} {p : Parameter}
    (h : ((defaultParameters network).get p).isSome) :
    p ≠ .softForkVotesCollected ∧ p ≠ .softForkStartingHeight := by
  constructor
  · rintro rfl
    cases h
  · rintro rfl
    cases h

/-- What a boundary block leaves installed: the table and the update of its own extension, with
every launch entry. -/
structure InstalledFrom (c₀ c : HeaderChain) (fields : List ExtensionField) : Prop where
  length_eq : ∀ f ∈ fields, f.IsParameter → f.value.length = 4
  chain_eq : ∃ params, c = c₀.applyEpochBoundaryParameters params
      (extractDisablingRulesFromKv fields) ∧
    ∀ p, params.get p = fieldValue fields (parameterId p)
  launch : ∀ p, ((defaultParameters c₀.config.network).get p).isSome →
    (fieldValue fields (parameterId p)).isSome

/-- The chain with the launch value in place of an empty proposed update. -/
def HeaderChain.launchUpdate (c : HeaderChain) : HeaderChain :=
  { c with
    activeProposedUpdateBytes :=
      if c.activeProposedUpdateBytes = [] then defaultProposedUpdateBytes c.config.network
      else c.activeProposedUpdateBytes }

lemma HeaderChain.applyEpochBoundaryParameters_inj {c : HeaderChain} {params params' : Parameters}
    {update update' : Bytes} :
    c.applyEpochBoundaryParameters params update = c.applyEpochBoundaryParameters params' update' ↔
      params = params' ∧ update = update' := by
  simp [applyEpochBoundaryParameters]

/-- **Rebuilding from one boundary extension** gives what the block installed, in every iteration
order and up to a missing update, exactly if the two decoders agree. -/
theorem recompute_eq_installed_iff {c₀ c : HeaderChain} {loader : ℕ → Option Bytes} {h : ℕ}
    {bytes : Bytes} {header : Header} (hpast : c₀.config.voting.votingLength ≤ h)
    (hboundary : c₀.lastBoundary h ≠ 0) (hloader : loader (c₀.lastBoundary h) = some bytes)
    (hfields : parseExtensionBytes bytes = .ok (header.id, fields))
    (hheader : c₀.headerAt (c₀.lastBoundary h) = some header)
    (hinstalled : InstalledFrom c₀ c fields) :
    (∀ iterate : List (ℤ × ℤ) → List (ℤ × ℤ), (∀ map, (iterate map).Perm map) →
        c₀.recomputeActiveParametersFromStorage iterate loader h = .ok c.launchUpdate) ↔
      RecomputeAgrees fields := by
  obtain ⟨params, hc, hget⟩ := hinstalled.chain_eq
  obtain ⟨map, hmap⟩ := exists_parseParametersFromKv hinstalled.length_eq
  have hlaunch : c.launchUpdate = c₀.applyEpochBoundaryParameters params
      (if extractDisablingRulesFromKv fields = [] then
        defaultProposedUpdateBytes c₀.config.network
      else extractDisablingRulesFromKv fields) := by
    rw [hc]
    rfl
  have hrecompute : ∀ iterate, c₀.recomputeActiveParametersFromStorage iterate loader h =
      .ok (c₀.applyEpochBoundaryParameters
        (overlayParameters (defaultParameters c₀.config.network) (iterate map))
        (if extractDisablingRulesFromKv fields = [] then
          defaultProposedUpdateBytes c₀.config.network
        else extractDisablingRulesFromKv fields)) := by
    intro iterate
    have hpast' : ¬(h < c₀.config.voting.votingLength ∨ c₀.lastBoundary h = 0) := by
      push Not
      exact ⟨hpast, hboundary⟩
    simp only [recomputeActiveParametersFromStorage, if_neg hpast', hloader, hfields,
      hheader, hmap, bind, Except.bind, require, if_true]
  simp only [hrecompute, hlaunch, Except.ok.injEq, applyEpochBoundaryParameters_inj, and_true]
  constructor
  · intro hall p hordinary v hv
    -- a negated id that is visited last decides
    have hparams := hall (visitLast (-parameterId p)) (visitLast_perm _)
    rw [← hget, ← hparams]
    exact get_overlay_visitLast hmap hv (recomputedParam_eq_some.2 (.inr ⟨hordinary, rfl⟩)) _
  · intro hagree iterate hperm
    ext p : 1
    rw [hget, get_overlay_of_agrees hmap (hperm map) hagree hinstalled.launch]

/-! ## A chain of accepted blocks -/

/-- The section ids of extensions bind the header: a body whose id is the one a header commits to
names that header. -/
def ExtensionIdsBind (rules : NodeRules) : Prop :=
  ∀ data identity header, rules.sectionIdFromBody extensionTypeId data = some identity →
    identity.id = rules.sectionId extensionTypeId header → sectionHeaderId data = header.id

/-- The extension of a block is one that the store accepts under the id its header commits to. -/
def LoadedBlock.ExtensionStored (rules : NodeRules) (b : LoadedBlock) : Prop :=
  (rules.sectionIdFromBody extensionTypeId b.extension).map (·.id) =
    some (rules.sectionId extensionTypeId b.header)

instance (rules : NodeRules) (b : LoadedBlock) : Decidable (b.ExtensionStored rules) := by
  unfold LoadedBlock.ExtensionStored
  infer_instance

namespace Node

/-- Apply a block and install what it hands over; `none` when the block is not accepted. -/
def acceptBlock (rules : NodeRules) (s : Node) (block : LoadedBlock) : Option Node :=
  match s.expectedBoundary rules block with
  | .error _ => none
  | .ok expected =>
    match s.validator.applyState rules.toBlockRules (s.blockArgs block expected) with
    | (.error _, _) => none
    | (.ok outcome, validator) =>
      some { s with
        validator := validator
        pipeline := { s.pipeline with
          chain := outcome.epochBoundary.elim s.chain
            (fun b => s.chain.applyEpochBoundaryParameters b.1 b.2) } }

def acceptBlocks (rules : NodeRules) : Node → List LoadedBlock → Option Node
  | s, [] => some s
  | s, block :: blocks => (s.acceptBlock rules block).bind (acceptBlocks rules · blocks)

variable {rules : NodeRules} {cfg : SyncConfig} {s s' : Node} {block : LoadedBlock}

/-- The machine after a number of accepted blocks, with what the last boundary among them
installed. -/
structure Live (c₀ : HeaderChain) (done : List LoadedBlock) (s : Node) : Prop where
  height_eq : s.validator.validatedHeight = done.length
  launch : ∀ p, ((defaultParameters c₀.config.network).get p).isSome →
    (s.chain.activeParameters.get p).isSome
  fresh : c₀.lastBoundary done.length = 0 → s.chain = c₀
  installed : c₀.lastBoundary done.length ≠ 0 → ∃ b ∈ done,
    b.height = c₀.lastBoundary done.length ∧ ∃ fields,
      parseExtensionBytes b.extension = .ok (sectionHeaderId b.extension, fields) ∧
      InstalledFrom c₀ s.chain fields

namespace Live

variable {c₀ : HeaderChain} {done : List LoadedBlock}

lemma chain_eq (h : Live c₀ done s) : ∃ params update,
    s.chain = c₀.applyEpochBoundaryParameters params update := by
  by_cases hzero : c₀.lastBoundary done.length = 0
  · exact ⟨c₀.activeParameters, c₀.activeProposedUpdateBytes, h.fresh hzero⟩
  · obtain ⟨-, -, -, fields, -, hinstalled⟩ := h.installed hzero
    obtain ⟨params, hc, -⟩ := hinstalled.chain_eq
    exact ⟨params, _, hc⟩

lemma accept (h : Live c₀ done s) (hheight : block.height = block.header.height)
    (haccept : s.acceptBlock rules block = some s') : Live c₀ (done ++ [block]) s' := by
  obtain ⟨params, update, hchain⟩ := h.chain_eq
  have hboundary_eq : ∀ n, s.chain.isEpochBoundary n = c₀.isEpochBoundary n := by
    intro n
    rw [hchain]
    rfl
  unfold acceptBlock at haccept
  split at haccept
  · cases haccept
  next expected hexpected =>
    split at haccept
    · cases haccept
    next outcome validator happly =>
      cases haccept
      obtain ⟨hnext, hvalidated, -, -⟩ := Validator.applyState_ok happly
      have hlength : block.height = done.length + 1 := by
        rwa [hheight, ← h.height_eq]
      have hlast : c₀.lastBoundary (done ++ [block]).length =
          if c₀.isEpochBoundary block.height = true then block.height
          else c₀.lastBoundary done.length := by
        rw [length_append, length_singleton, c₀.lastBoundary_succ, hlength]
      have hvalidated' : validator.validatedHeight = (done ++ [block]).length := by
        rw [hvalidated, length_append, length_singleton, ← hlength, hheight]
        rfl
      rcases outcome_cases hexpected happly with ⟨hno, hnone⟩ |
        ⟨hboundary, fields, table, params', hfields, htable, hsome, hget, hlen, hmatch⟩
      · -- away from a boundary the chain stays
        rw [hboundary_eq] at hno
        rw [if_neg (by simp [hno])] at hlast
        refine ⟨hvalidated', ?_, ?_, ?_⟩
        · simpa [hnone] using h.launch
        · intro hzero
          simpa [hnone] using h.fresh (hlast ▸ hzero)
        · intro hne
          obtain ⟨b, hb, hbheight, hinstalled⟩ := h.installed (hlast ▸ hne)
          exact ⟨b, mem_append_left _ hb, hlast ▸ hbheight, by simpa [hnone] using hinstalled⟩
      · -- the block is the last boundary now
        rw [hboundary_eq] at hboundary
        rw [if_pos hboundary] at hlast
        have hlaunch : ∀ p, ((defaultParameters c₀.config.network).get p).isSome →
            (params'.get p).isSome := by
          intro p hp
          have hcomputed := keeps_computeExpectedParameters htable p
            (ne_of_launch hp).1 (ne_of_launch hp).2 (h.launch p hp)
          obtain ⟨v, hv⟩ := Option.isSome_iff_exists.1 hcomputed
          rw [hmatch p v hv]
          rfl
        refine ⟨hvalidated', ?_, ?_, ?_⟩
        · simpa [hsome, applyEpochBoundaryParameters] using hlaunch
        · intro hzero
          rw [hlast] at hzero
          omega
        · intro _
          refine ⟨block, by simp, hlast.symm, fields, hfields, hlen, ⟨params', ?_, hget⟩, ?_⟩
          · simp [hsome, hchain, applyEpochBoundaryParameters]
          · exact fun p hp => hget p ▸ hlaunch p hp

end Live

lemma Live.acceptBlocks {c₀ : HeaderChain} {done blocks : List LoadedBlock} (h : Live c₀ done s)
    (hheight : ∀ b ∈ blocks, b.height = b.header.height)
    (haccept : s.acceptBlocks rules blocks = some s') : Live c₀ (done ++ blocks) s' := by
  induction blocks generalizing s done with
  | nil =>
    cases haccept
    rwa [append_nil]
  | cons block blocks ih =>
    obtain ⟨next, hnext, hrest⟩ := Option.bind_eq_some_iff.1 haccept
    have hlive := h.accept (hheight block mem_cons_self) hnext
    rw [append_cons]
    exact ih hlive (forall_mem_cons.1 hheight).2 hrest

/-- **Restart equivalence of the parameters.** Blocks are accepted from the first height on over a
chain with the launch parameters; `loader` returns the stored boundary extensions, none of which
gives a negated id a value of its own. Rebuilding at the height reached gives the parameters of the
running node in every iteration order, with the launch value in place of an empty proposed update.
-/
theorem recompute_eq_live (rules : NodeRules) (hbind : ExtensionIdsBind rules)
    (config : ChainConfig) (entries : List ChainEntry) (pipeline : ValidationPipeline)
    (validator : Validator) (lastFlush : ℕ) (blocks : List LoadedBlock) (s' : Node)
    (loader : ℕ → Option Bytes)
    (hchain : pipeline.chain = { HeaderChain.new config with entries := entries })
    (hgenesis : validator.validatedHeight = 0)
    (haccept : (Node.new pipeline validator lastFlush).acceptBlocks rules blocks = some s')
    (honchain : ∀ b ∈ blocks, pipeline.chain.headerAt b.height = some b.header)
    (hstored : ∀ b ∈ blocks, b.ExtensionStored rules)
    (hloader : ∀ b ∈ blocks, pipeline.chain.isEpochBoundary b.height = true →
      loader b.height = some b.extension)
    (hagree : ∀ b ∈ blocks, pipeline.chain.isEpochBoundary b.height = true →
      ∀ headerId fields, parseExtensionBytes b.extension = .ok (headerId, fields) →
        RecomputeAgrees fields)
    (iterate : List (ℤ × ℤ) → List (ℤ × ℤ)) (hperm : ∀ map, (iterate map).Perm map) :
    pipeline.chain.recomputeActiveParametersFromStorage iterate loader blocks.length =
      .ok s'.chain.launchUpdate := by
  have hstart : Live pipeline.chain [] (Node.new pipeline validator lastFlush) := by
    have hzero : pipeline.chain.lastBoundary 0 = 0 := by simp [lastBoundary]
    refine ⟨hgenesis, ?_, fun _ => rfl, fun hne => absurd hzero hne⟩
    show ∀ p, ((defaultParameters pipeline.chain.config.network).get p).isSome →
      (pipeline.chain.activeParameters.get p).isSome
    rw [hchain]
    exact fun p hp => hp
  have hlive := hstart.acceptBlocks
    (fun b hb => (height_of_headerAt (honchain b hb)).symm) haccept
  rw [nil_append] at hlive
  by_cases hzero : pipeline.chain.lastBoundary blocks.length = 0
  · -- no boundary yet: nothing is rebuilt and nothing was installed
    have hsame : pipeline.chain.launchUpdate = pipeline.chain := by
      rw [hchain]
      rfl
    rw [hlive.fresh hzero, hsame, recomputeActiveParametersFromStorage, if_pos (.inr hzero)]
  · obtain ⟨b, hb, hheight, fields, hfields, hinstalled⟩ := hlive.installed hzero
    have hboundary : pipeline.chain.isEpochBoundary b.height = true := by
      rw [hheight]
      exact isEpochBoundary_lastBoundary hzero
    have hid : sectionHeaderId b.extension = b.header.id := by
      obtain ⟨identity, hidentity, hsame⟩ := Option.map_eq_some_iff.1 (hstored b hb)
      exact hbind _ _ _ hidentity hsame
    exact (recompute_eq_installed_iff (votingLength_le_of_lastBoundary hzero) hzero
      (hheight ▸ hloader b hb hboundary) (hid ▸ hfields) (hheight ▸ honchain b hb) hinstalled).2
      (hagree b hb hboundary _ _ hfields) iterate hperm

lemma extensionIdsBind_listNodeRules (headers : List Header) :
    ExtensionIdsBind (listNodeRules headers) := by
  intro data identity header hidentity hsame
  simp only [listNodeRules] at hidentity hsame
  split at hidentity
  · cases hidentity
  · cases hidentity
    have hmul : sectionHeaderId data * 256 + extensionTypeId = header.id * 256 + extensionTypeId :=
      hsame
    exact Nat.eq_of_mul_eq_mul_right (by decide) (Nat.add_right_cancel hmul)

/-- The blocks of the line of headers up to the first boundary of the test network, whose
extension holds `tail`. -/
def lineBlocks (tail : Bytes) : List LoadedBlock :=
  (List.range' 1 128).map fun h => {
    height := h
    header := lineHeader h
    blockTxs := sectionBody (UInt8.ofNat h) [0]
    adProofs := none
    extension := sectionBody (UInt8.ofNat h) (if h = 128 then tail else [0])
    preceding := [] }

def linePipeline (n : ℕ) : ValidationPipeline :=
  { ValidationPipeline.new .testnet with chain := lineChain n }

def lineLoader (tail : Bytes) (h : ℕ) : Option Bytes :=
  ((lineBlocks tail).find? (fun b => b.height = h)).map (·.extension)

def launchUpdateField : Bytes :=
  [0, 124, UInt8.ofNat (defaultProposedUpdateBytes .testnet).length] ++
    defaultProposedUpdateBytes .testnet

def lineLive (tail : Bytes) : Option Node :=
  (Node.new (linePipeline 128) (genesisUtxo 1000) 0).acceptBlocks (listNodeRules []) (lineBlocks tail)

/-- With the proposed update in its extension, the boundary block is rebuilt as it was installed. -/
theorem recompute_eq_live_withUpdate :
    ∃ s', lineLive (testnetFields 1 launchUpdateField) = some s' ∧
      s'.chain.activeProposedUpdateBytes = defaultProposedUpdateBytes .testnet ∧
      (lineChain 128).recomputeActiveParametersFromStorage List.reverse
        (lineLoader (testnetFields 1 launchUpdateField)) 128 = .ok s'.chain.launchUpdate := by
  obtain ⟨s', hs'⟩ : ∃ s', lineLive (testnetFields 1 launchUpdateField) = some s' :=
    Option.isSome_iff_exists.1 (by decide +kernel)
  have hupdate : (lineLive (testnetFields 1 launchUpdateField)).map
      (·.chain.activeProposedUpdateBytes) = some (defaultProposedUpdateBytes .testnet) := by
    decide +kernel
  rw [hs'] at hupdate
  have hagree : ∀ b ∈ lineBlocks (testnetFields 1 launchUpdateField),
      (lineChain 128).isEpochBoundary b.height = true →
        (parseExtensionBytes b.extension).toOption.all (fun r => RecomputeAgrees r.2) := by
    decide +kernel
  refine ⟨s', hs', Option.some.inj hupdate, ?_⟩
  refine recompute_eq_live (listNodeRules []) (extensionIdsBind_listNodeRules [])
    .testnet (lineChain 128).entries (linePipeline 128) (genesisUtxo 1000) 0
    (lineBlocks (testnetFields 1 launchUpdateField)) s'
    (lineLoader (testnetFields 1 launchUpdateField)) rfl rfl hs' (by decide +kernel)
    (by decide +kernel) (by decide +kernel) ?_ reverse reverse_perm
  intro b hb hboundary headerId fields hfields
  have hb' := hagree b hb hboundary
  rw [hfields] at hb'
  simpa [Except.toOption] using hb'

/-- Without a proposed update in the extension the node holds the empty one and a restart the launch
value. -/
theorem recompute_ne_live_noUpdate :
    (lineLive (testnetFields 0 [])).map (·.chain.activeProposedUpdateBytes) = some [] ∧
      ((lineChain 128).recomputeActiveParametersFromStorage id (lineLoader (testnetFields 0 []))
        128).toOption.map (·.activeProposedUpdateBytes) =
          some (defaultProposedUpdateBytes .testnet) := by
  decide +kernel

end Node

end ErgoNode
