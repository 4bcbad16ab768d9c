import ErgoNode.Chain.ParameterRanges
import ErgoNode.Mining.Candidate

/-!
# A mined block before its own node

The header of a solved candidate goes through the checks of any other header, and at an epoch
boundary its extension through both parsers and the parameter check. The candidate takes the
difficulty of its parent, so it fails where the difficulty changes. It takes the version of its
parent, so it fails at a boundary that changes the version. The configured votes and the length of
the installed update are not looked at before they are checked, and a parent far in the future pulls
its child along.
-/

namespace ErgoNode

open List HeaderChain Option

/-! ## The two parsers -/

variable {extension : ParsedExtension}

/-- The chain's parser reads what the validator's reads, if no value is too long for it. -/
theorem parseExtensionBytes_of_parseExtension {data : Bytes}
    (h : parseExtension data = .ok extension) (hlen : ∀ f ∈ extension.fields, f.value.length ≤ 64) :
    parseExtensionBytes data = .ok (sectionHeaderId data, extension.fields) := by
  unfold parseExtension at h
  split at h
  · cases h
  · split at h
    · cases h
    next count rest hcount =>
      obtain ⟨fields, hfields, heq⟩ := bind_eq_ok.1 h
      cases heq
      rw [parseExtensionBytes, if_neg (by omega), getU32_of_getU16 hcount]
      dsimp only
      rw [getFields_of_getFields chainFieldFormat 0 _ hfields hlen, ok_bind]

lemma length_value_of_parseExtensionBytes {data : Bytes} {headerId : BlockId}
    {kv : List ExtensionField} (h : parseExtensionBytes data = .ok (headerId, kv)) :
    ∀ f ∈ kv, f.value.length ≤ 64 := by
  unfold parseExtensionBytes at h
  split at h
  · cases h
  · split at h
    · cases h
    · obtain ⟨fields, hfields, heq⟩ := bind_eq_ok.1 h
      cases heq
      exact length_le_of_getFields hfields

/-! ## The parameter check -/

lemma exists_foldlM_addParameterField {fields : List ExtensionField}
    (h : ∀ f ∈ fields, f.IsParameter → f.value.length = 4) (params : Parameters) :
    ∃ table, fields.foldlM addParameterField params = .ok table := by
  induction fields generalizing params with
  | nil => exact ⟨params, rfl⟩
  | cons f fields ih =>
    have hrest := ih (fun g hg => h g (mem_cons_of_mem f hg))
    rw [foldlM_cons]
    by_cases hparam : f.IsParameter
    · have hlen := h f mem_cons_self hparam
      cases hid : signedIdToParameter (i8OfByte f.fieldId) with
      | none => simpa [addParameterField, hparam, hlen, hid] using hrest params
      | some p =>
        simpa [addParameterField, hparam, hlen, hid] using hrest (params.insert p (i32OfBytes f.value))
    · simpa [addParameterField, hparam] using hrest params

lemma Parameters.len_ne_zero {t : Parameters} {p : Parameter} {v : ℤ} (h : t.get p = some v) :
    t.len ≠ 0 := by
  rw [Parameters.len, Finset.card_ne_zero]
  exact ⟨p, by simp [h]⟩

lemma checkBoundary_isOk_iff {header : Header} {table : Parameters}
    (hlen : ∀ f ∈ extension.fields, f.IsParameter → f.value.length = 4)
    (htable : ∀ p, fieldValue extension.fields (parameterId p) = table.get p) :
    (∃ outcome, checkBoundary header extension (some table) = .ok outcome) ↔
      table.get .blockVersion = some (header.version : ℤ) := by
  constructor
  · rintro ⟨outcome, h⟩
    simp only [checkBoundary, bind_eq_ok] at h
    obtain ⟨parsed, -, _, -, _, hversion, -⟩ := h
    unfold checkBlockVersion at hversion
    split at hversion
    next v hv =>
      rw [hv, require_eq_ok.1 hversion]
    · cases hversion
  · intro hversion
    obtain ⟨parsed, hfold⟩ := exists_foldlM_addParameterField hlen .empty
    -- the parsed table is the computed one
    obtain rfl : parsed = table := by
      ext p
      rw [get_foldlM_addParameterField hfold, Parameters.get_empty, or_none, htable]
    have hparsed : parseParametersFromExtension extension = .ok parsed := by
      rw [parseParametersFromExtension, hfold, ok_bind,
        require_eq_ok (u := ()).2 (Parameters.len_ne_zero hversion), ok_bind]
    have hmatch : checkParametersV6 parsed parsed header.height = .ok () := by
      rw [checkParametersV6, require_eq_ok (u := ()).2 le_rfl, ok_bind, require_eq_ok]
      intro p
      cases parsed.get p <;> simp
    have hblock : checkBlockVersion parsed header.version header.height = .ok () := by
      rw [checkBlockVersion, hversion]
      exact require_eq_ok.2 rfl
    exact ⟨some (parsed, extractProposedUpdate extension), by
      simp only [checkBoundary, hparsed, ok_bind, hmatch, hblock]⟩

/-! ## The fields of a candidate -/

section Fields

variable {links : InterlinkRules} {interlinks : List BlockId} {table : Parameters} {update : Bytes}
  {f : ExtensionField}

lemma mem_extensionFields
    (h : f ∈ extensionFields (links.packInterlinks interlinks) (some table) update) :
    (f.subId = 1 ∧ f.value.length ≤ 64) ∨ (f.IsParameter ∧ f.value.length = 4) ∨
      f = updateField update ∧ update ≠ [] := by
  simp only [extensionFields, map_some, getD_some, mem_append] at h
  obtain (h | h) | h := h
  · exact .inl ⟨links.subId_packInterlinks f h, links.length_value_packInterlinks f h⟩
  · exact .inr (.inl (mem_packParameters h))
  · split at h
    · cases h
    next hne =>
      exact .inr (.inr ⟨mem_singleton.1 h, hne⟩)

lemma updateField_mem_extensionFields (hne : update ≠ []) :
    updateField update ∈ extensionFields (links.packInterlinks interlinks) (some table) update := by
  simp [extensionFields, hne]

lemma length_extensionFields_le :
    (extensionFields (links.packInterlinks interlinks) (some table) update).length ≤ 65535 := by
  have hlinks : (links.packInterlinks interlinks).length ≤ 256 := links.length_packInterlinks
  have hparams := length_packParameters_le table
  have hupdate : (if update = [] then [] else [updateField update]).length ≤ 1 := by
    split <;> simp
  simp only [extensionFields, map_some, getD_some, length_append]
  omega

lemma not_isParameter_of_subId (h : f.subId = 1) : ¬f.IsParameter := by
  rintro ⟨hsub, -⟩
  rw [h] at hsub
  exact absurd hsub (by decide)

lemma not_isParameter_updateField (update : Bytes) : ¬(updateField update).IsParameter :=
  fun h => h.2 rfl

lemma length_value_of_isParameter :
    ∀ f ∈ extensionFields (links.packInterlinks interlinks) (some table) update,
      f.IsParameter → f.value.length = 4 := by
  intro f hf hparam
  obtain ⟨hsub, -⟩ | ⟨-, hlen⟩ | ⟨rfl, -⟩ := mem_extensionFields hf
  · exact absurd hparam (not_isParameter_of_subId hsub)
  · exact hlen
  · exact absurd hparam (not_isParameter_updateField update)

lemma length_value_extensionFields_iff :
    (∀ f ∈ extensionFields (links.packInterlinks interlinks) (some table) update,
      f.value.length ≤ 64) ↔ update.length ≤ 64 := by
  constructor
  · intro h
    by_cases hne : update = []
    · simp [hne]
    · exact h _ (updateField_mem_extensionFields hne)
  · intro hupdate f hf
    obtain ⟨-, hlen⟩ | ⟨-, hlen⟩ | ⟨rfl, -⟩ := mem_extensionFields hf
    · exact hlen
    · omega
    · exact hupdate

lemma fieldValue_extensionFields (htable : table.I32Valued) (p : Parameter) :
    fieldValue (extensionFields (links.packInterlinks interlinks) (some table) update)
      (parameterId p) = table.get p := by
  have hlinks : fieldValue (links.packInterlinks interlinks) (parameterId p) = none :=
    fieldValue_eq_none.2 (fun f hf hparam =>
      absurd hparam (not_isParameter_of_subId (links.subId_packInterlinks f hf)))
  have hupdate : fieldValue (if update = [] then [] else [updateField update]) (parameterId p) =
      none := by
    refine fieldValue_eq_none.2 (fun f hf hparam => absurd hparam ?_)
    split at hf
    · cases hf
    · rw [mem_singleton.1 hf]
      exact not_isParameter_updateField update
  rw [extensionFields, fieldValue_append, fieldValue_append, hlinks, hupdate, none_or,
    or_none, map_some, getD_some, fieldValue_packParameters]
  cases hv : table.get p with
  | none => rfl
  | some v => rw [map_some, wrapI32_eq_self (htable p v hv)]

lemma extractDisablingRules_extensionFields :
    extractDisablingRulesFromKv
      (extensionFields (links.packInterlinks interlinks) (some table) update) = update := by
  have hlinks : (links.packInterlinks interlinks).find? (fun f =>
      f.subId = 0 ∧ i8OfByte f.fieldId = idSoftForkDisablingRules) = none := by
    refine find?_eq_none.2 (fun f hf => ?_)
    rw [links.subId_packInterlinks f hf]
    simp
  have hparams : (packParameters table).find? (fun f =>
      f.subId = 0 ∧ i8OfByte f.fieldId = idSoftForkDisablingRules) = none := by
    refine find?_eq_none.2 (fun f hf => ?_)
    have hne := (mem_packParameters hf).1.2
    simp [hne]
  rw [extractDisablingRulesFromKv, extensionFields, map_some, getD_some,
    find?_append, find?_append, hlinks, hparams]
  split
  next hnil =>
    rw [hnil]
    rfl
  · rfl

end Fields

/-! ## The chain after the header -/

namespace HeaderChain

variable {rules : HeaderRules} {c : HeaderChain}

lemma tallyJustEndedEpoch_pushHeader (header : Header) :
    (c.pushHeader rules header).tallyJustEndedEpoch header.height =
      c.tallyJustEndedEpoch header.height := by
  have hbelow : ∀ k, k < header.height →
      (c.pushHeader rules header).headerAt k = c.headerAt k := by
    intro k hk
    rw [entryAt_pushHeader, if_neg (by omega), or_none]
  have hconfig : (c.pushHeader rules header).config = c.config := rfl
  unfold tallyJustEndedEpoch
  rw [hconfig]
  dsimp only
  split_ifs
  · rfl
  · rfl
  · rw [mapM_congr (fun k hk => ?_)]
    rw [mem_range'_1] at hk
    rw [hbelow k (by omega)]

/-- Once its header is in the chain, a block at a boundary is computed for as a candidate with its
votes. -/
theorem computeExpectedParameters_pushHeader (sigmaParse : Bytes → Option (RuleStatus × Bytes))
    {header : Header} (hnew : c.headerAt header.height = none) (update : Bytes) :
    (c.pushHeader rules header).computeExpectedParameters sigmaParse header.height update =
      (c.computeExpectedParametersForCandidate sigmaParse header.height update
        header.votes).map Prod.fst := by
  rw [computeExpectedParameters_eq, entryAt_pushHeader, hnew, none_or, if_pos rfl,
    any_some, computeExpectedParametersForCandidate]
  unfold computeBoundaryParametersAt
  rw [tallyJustEndedEpoch_pushHeader]
  rfl

lemma Linked.headerAt_above (hc : c.Linked rules) {tip : Header} (htip : c.tip? = some tip) :
    c.headerAt (tip.height + 1) = none := by
  obtain ⟨e, he, rfl⟩ := tip?_eq_some_iff.1 htip
  rw [headerAt, map_eq_none_iff, ← not_isSome_iff_eq_none, hc.isSome_entryAt_iff_spans]
  rintro ⟨b, -, -, hle⟩
  rw [hc.getLast_height he] at hle
  omega

lemma validateChild_eq_ok_iff {now : ℕ} {tip header : Header} :
    validateChild rules now c tip header = .ok () ↔
      header.parentId = tip.id ∧ header.height = tip.height + 1 ∧
      (tip.timestamp < header.timestamp ∧ header.timestamp ≤ now + c.config.maxTimeDriftMs) ∧
      checkChildDifficulty rules c tip header = .ok () ∧ checkPow rules header = .ok () ∧
      checkHeaderVotes header.votes = .ok () ∧
      checkForkVote c.config.voting header.height header.votes c.activeParameters = .ok true := by
  simp only [validateChild, checkTimestamp, checkForkVoteGate, bind_eq_ok, require_eq_ok,
    Unique.exists_iff, exists_eq_right]

end HeaderChain

/-! ## Acceptance -/

/-- The extension of a boundary block passes both parsers and the parameter check. -/
def BoundaryExtensionAccepted (sigmaParse : Bytes → Option (RuleStatus × Bytes)) (c : HeaderChain)
    (header : Header) (fields : List ExtensionField) : Prop :=
  ∃ bytes extension headerId kv table outcome,
    serializeExtension header.id fields = .ok bytes ∧ parseExtension bytes = .ok extension ∧
      parseExtensionBytes bytes = .ok (headerId, kv) ∧
      c.computeExpectedParameters sigmaParse header.height (extractDisablingRulesFromKv kv) =
        .ok table ∧
      checkBoundary header extension (some table) = .ok outcome

section Acceptance

variable (s : DifficultySettings) (bits : CompactBits) (verifyPow : Header → Except String Unit)
  (sigmaParse : Bytes → Option (RuleStatus × Bytes)) (now : ℕ) (c : HeaderChain)

/-- The node accepts a header as a child of the tip, and its extension where there is something to
check. -/
structure AcceptedByNode (parent header : Header) (fields : List ExtensionField) : Prop where
  validates : HeaderChain.validateChild (s.rules bits verifyPow) now c parent header = .ok ()
  nBits_eq : s.expectedDifficulty bits c.config c.headerAt parent = .ok header.nBits
  boundary : c.isEpochBoundary header.height = true →
    BoundaryExtensionAccepted sigmaParse (c.pushHeader (s.rules bits verifyPow) header) header fields

/-- What a candidate on top of `parent` with these votes relies on. -/
structure Minable (votes : Votes) (parent : Header) : Prop where
  carries : s.Carries bits c.config c.headerAt parent
  timestamp_lt : parent.timestamp < now + c.config.maxTimeDriftMs
  votes_ok : checkHeaderVotes votes = .ok ()
  forkVote_ok :
    checkForkVote c.config.voting (parent.height + 1) votes c.activeParameters = .ok true
  /-- At a boundary the installed update is short and the version stays that of the parent. -/
  boundary : c.isEpochBoundary (parent.height + 1) = true →
    c.activeProposedUpdateBytes.length ≤ 64 ∧
      ∃ computed, c.computeExpectedParametersForCandidate sigmaParse (parent.height + 1)
          c.activeProposedUpdateBytes votes = .ok computed ∧
        computed.1.get .blockVersion = some (parent.version : ℤ)

end Acceptance

section OwnBlock

variable {s : DifficultySettings} {bits : CompactBits} {verifyPow : Header → Except String Unit}
  {env : MiningEnv} {c : HeaderChain} {votes : Votes} {candidate : CandidateBlock} {id : BlockId}
  {now : ℕ}

/-- The header of a candidate passes validation exactly if the parent's difficulty, the clock and
the votes allow it. -/
theorem validateChild_header_iff (hbuilt : MiningTask.Built env c votes candidate)
    (hpow : verifyPow (candidate.header id) = .ok ())
    (hclock : env.now ≤ now)
    (hcarries : s.expectedDifficulty bits c.config c.headerAt candidate.parent =
      .ok (candidate.header id).nBits) :
    HeaderChain.validateChild (s.rules bits verifyPow) now c candidate.parent
        (candidate.header id) = .ok () ↔
      candidate.parent.timestamp < now + c.config.maxTimeDriftMs ∧
      checkHeaderVotes votes = .ok () ∧
      checkForkVote c.config.voting (candidate.parent.height + 1) votes c.activeParameters =
        .ok true := by
  have hdifficulty : checkChildDifficulty (s.rules bits verifyPow) c candidate.parent
      (candidate.header id) = .ok () := by
    unfold checkChildDifficulty
    split
    · rfl
    · show ((s.expectedDifficulty bits c.config c.headerAt candidate.parent).mapError _ >>= _) = _
      rw [hcarries]
      exact require_eq_ok.2 rfl
  have hchecked : checkPow (s.rules bits verifyPow) (candidate.header id) = .ok () := by
    show (verifyPow (candidate.header id)).mapError _ = _
    rw [hpow]
    rfl
  have htimestamp : (candidate.header id).timestamp =
      max env.now (candidate.parent.timestamp + 1) := hbuilt.timestamp_eq
  have hvotes : (candidate.header id).votes = votes := hbuilt.votes_eq
  rw [validateChild_eq_ok_iff, hvotes, htimestamp]
  constructor
  · rintro ⟨-, -, ⟨-, htime⟩, -, -, hrules, hfork⟩
    exact ⟨by omega, hrules, hfork⟩
  · rintro ⟨htime, hrules, hfork⟩
    exact ⟨rfl, rfl, ⟨by omega, by omega⟩, hdifficulty, hchecked, hrules, hfork⟩

/-- At a boundary the extension of a candidate passes exactly if the update is short and the
version stays that of the parent. -/
theorem boundaryExtensionAccepted_iff {rules : HeaderRules} (hc : c.Linked rules)
    (hbuilt : MiningTask.Built env c votes candidate) (htip : c.tip? = some candidate.parent)
    (hid : id < 2 ^ 256) (hparams : c.activeParameters.I32Valued)
    (hboundary : c.isEpochBoundary (candidate.parent.height + 1) = true) :
    BoundaryExtensionAccepted env.sigmaParse (c.pushHeader rules (candidate.header id))
        (candidate.header id) candidate.extension ↔
      c.activeProposedUpdateBytes.length ≤ 64 ∧
        ∃ computed, c.computeExpectedParametersForCandidate env.sigmaParse
            (candidate.parent.height + 1) c.activeProposedUpdateBytes votes = .ok computed ∧
          computed.1.get .blockVersion = some (candidate.parent.version : ℤ) := by
  obtain ⟨interlinks, params, hparams', hextension⟩ := hbuilt.extension_eq
  rw [MiningTask.boundaryParams, if_pos hboundary, map_eq_ok] at hparams'
  obtain ⟨⟨table, activated⟩, hcomputed, rfl⟩ := hparams'
  dsimp only at hextension
  -- the block is computed for as the candidate was
  have hexpected : (c.pushHeader rules (candidate.header id)).computeExpectedParameters
      env.sigmaParse (candidate.header id).height c.activeProposedUpdateBytes = .ok table := by
    have hvotes : (candidate.header id).votes = votes := hbuilt.votes_eq
    rw [computeExpectedParameters_pushHeader _ (hc.headerAt_above htip), hvotes]
    exact map_eq_ok.2 ⟨_, hcomputed, rfl⟩
  have htable : table.I32Valued := by
    obtain ⟨tally, -, hcompute⟩ := bind_eq_ok.1 hcomputed
    exact hparams.computeBoundaryParameters hcompute
  have hcheck : (∃ outcome, checkBoundary (candidate.header id) ⟨id, candidate.extension⟩
      (some table) = .ok outcome) ↔
      table.get .blockVersion = some (candidate.parent.version : ℤ) := by
    have hversion : (candidate.header id).version = candidate.parent.version := hbuilt.version_eq
    rw [← hversion, hextension]
    exact checkBoundary_isOk_iff length_value_of_isParameter (fieldValue_extensionFields htable)
  have hparse : ∀ {bytes : Bytes}, serializeExtension id candidate.extension = .ok bytes →
      parseExtension bytes = .ok ⟨id, candidate.extension⟩ := by
    intro bytes hbytes
    obtain ⟨fieldBytes, hfields, rfl⟩ := serializeExtension_eq_ok.1 hbytes
    exact parseExtension_of_fieldsBytes hid (hextension ▸ length_extensionFields_le) hfields
  constructor
  · rintro ⟨bytes, extension, headerId, kv, table', outcome, hbytes, hsection, hchain, htable', hok⟩
    cases (hparse hbytes).symm.trans hsection
    obtain ⟨rfl, -⟩ := fields_of_parseExtension hsection hchain
    have hshort := length_value_of_parseExtensionBytes hchain
    have hextract : extractDisablingRulesFromKv candidate.extension = c.activeProposedUpdateBytes := by
      rw [hextension, extractDisablingRules_extensionFields]
    rw [hextract, hexpected] at htable'
    cases htable'
    exact ⟨length_value_extensionFields_iff.1 (hextension ▸ hshort),
      (table, activated), hcomputed, hcheck.1 ⟨outcome, hok⟩⟩
  · rintro ⟨hupdate, computed, hcomputed', hversion⟩
    cases hcomputed.symm.trans hcomputed'
    have hshort : ∀ f ∈ candidate.extension, f.value.length ≤ 64 := by
      rw [hextension]
      exact length_value_extensionFields_iff.2 hupdate
    obtain ⟨fieldBytes, hfields⟩ := exists_fieldsBytes
      (fun f hf => (hshort f hf).trans (by decide)) 0
    have hbytes : serializeExtension id candidate.extension = .ok _ :=
      serializeExtension_eq_ok.2 ⟨fieldBytes, hfields, rfl⟩
    obtain ⟨outcome, hok⟩ := hcheck.2 hversion
    refine ⟨_, _, _, _, table, outcome, hbytes, hparse hbytes,
      parseExtensionBytes_of_parseExtension (hparse hbytes) hshort, ?_, hok⟩
    rwa [hextension, extractDisablingRules_extensionFields]

/-- **Whether a node accepts what it mines.** For every candidate the mining task caches on the tip
of a linked chain, with a solution that verifies, the node accepts the header and the extension
exactly if the difficulty stays that of the parent, the parent is not too far in the future, the
configured votes are allowed and, at an epoch boundary, the installed update has at most 64 bytes
and the computed block version is that of the parent. -/
theorem acceptedByNode_iff_minable {proofData : Option MiningProofData} {current lastHeight : ℕ}
    {stale : Bool}
    (hpoll : MiningTask.poll env c votes proofData current lastHeight stale = some candidate)
    (hc : c.Linked (s.rules bits verifyPow)) (htip : c.tip? = some candidate.parent)
    (hparams : c.activeParameters.I32Valued) (hid : id < 2 ^ 256)
    (hpow : verifyPow (candidate.header id) = .ok ()) (hclock : env.now ≤ now) :
    AcceptedByNode s bits verifyPow env.sigmaParse now c candidate.parent (candidate.header id)
        candidate.extension ↔
      Minable s bits env.sigmaParse now c votes candidate.parent := by
  have hbuilt := MiningTask.built_of_poll hpoll
  have hnBits : (candidate.header id).nBits = candidate.parent.nBits := hbuilt.nBits_eq _ htip
  constructor
  · intro haccepted
    have hcarries := haccepted.nBits_eq
    obtain ⟨htime, hrules, hfork⟩ :=
      (validateChild_header_iff hbuilt hpow hclock hcarries).1 haccepted.validates
    rw [hnBits] at hcarries
    exact ⟨hcarries, htime, hrules, hfork, fun hboundary =>
      (boundaryExtensionAccepted_iff hc hbuilt htip hid hparams hboundary).1
        (haccepted.boundary hboundary)⟩
  · intro hminable
    have hcarries : s.expectedDifficulty bits c.config c.headerAt candidate.parent =
        .ok (candidate.header id).nBits := by
      rw [hnBits]
      exact hminable.carries
    exact ⟨(validateChild_header_iff hbuilt hpow hclock hcarries).2
        ⟨hminable.timestamp_lt, hminable.votes_ok, hminable.forkVote_ok⟩, hcarries,
      fun hboundary => (boundaryExtensionAccepted_iff hc hbuilt htip hid hparams hboundary).2
        (hminable.boundary hboundary)⟩

end OwnBlock

/-! ## Two candidates -/

def plainBits : CompactBits := ⟨fun n => n, Int.toNat⟩

lemma oneInput_ne_nil : [(⟨0, 0⟩ : BoxRef)] ≠ [] := cons_ne_nil _ _

def oneInputTx : ErgoTransaction :=
  { id := 1, inputs := [⟨0, 0⟩], dataInputs := [], outputs := [], inputs_ne_nil := oneInput_ne_nil }

def noLinks : InterlinkRules where
  unpackInterlinks _ := .ok []
  updateInterlinks _ _ := .ok []
  packInterlinks _ := []
  subId_packInterlinks := by simp
  length_value_packInterlinks := by simp
  length_packInterlinks := by simp

def miningEnv (now : ℕ) : MiningEnv where
  links := noLinks
  sigmaParse _ := none
  parentExtension := none
  reader := some (fun _ => .ok ([], 0))
  transactions := .ok [oneInputTx]
  serializeWithoutPow _ := .ok []
  now := now

def secondsHeader (height : ℕ) : Header where
  version := 4
  id := height
  parentId := height - 1
  stateRoot := 0
  timestamp := 1000 * height
  nBits := 1000
  height := height
  votes := ⟨0, 0, 0⟩

def secondsChain (config : ChainConfig) (height : ℕ) : HeaderChain :=
  { HeaderChain.new config with
    entries := (List.range' 1 height).map (fun h => ⟨secondsHeader h, 1000 * h⟩) }

def secondsCandidate (now height : ℕ) (extension : List ExtensionField) : CandidateBlock where
  parent := secondsHeader height
  version := 4
  nBits := 1000
  stateRoot := 0
  adProofBytes := []
  transactions := [oneInputTx]
  timestamp := max now (1000 * height + 1)
  extension := extension
  votes := ⟨0, 0, 0⟩
  headerBytes := []

def twoBlockEpochs : ChainConfig := { ChainConfig.testnet with voting := ⟨2, 1, 1, 0⟩ }

/-- At the first boundary of a network with epochs of two blocks the node accepts its block. -/
theorem acceptedByNode_iff_minable_boundary :
    let candidate := secondsCandidate 5000 1
      (extensionFields [] (some (defaultParameters .testnet)) (defaultProposedUpdateBytes .testnet))
    (secondsChain twoBlockEpochs 1).isEpochBoundary (candidate.header 2).height = true ∧
      AcceptedByNode .testnet plainBits (fun _ => .ok ()) (fun _ => none) 5000
        (secondsChain twoBlockEpochs 1) candidate.parent (candidate.header 2) candidate.extension := by
  intro candidate
  have hpoll : MiningTask.poll (miningEnv 5000) (secondsChain twoBlockEpochs 1) ⟨0, 0, 0⟩
      (some ⟨secondsHeader 1, 1⟩) 1 0 false = some candidate := by decide +kernel
  have hcomputed : (secondsChain twoBlockEpochs 1).computeExpectedParametersForCandidate
      (fun _ => none) 2 (defaultProposedUpdateBytes .testnet) ⟨0, 0, 0⟩ =
        .ok (defaultParameters .testnet, {}) := eq_ok_of_any (by decide +kernel)
  refine ⟨by decide, (acceptedByNode_iff_minable hpoll (isChain_singleton _) rfl
    (Parameters.i32Valued_defaultParameters .testnet) (by decide) rfl le_rfl).2 ?_⟩
  exact {
    carries := DifficultySettings.carries_of_plain (by decide) (by decide)
    timestamp_lt := by decide
    votes_ok := eq_ok_of_any (by decide)
    forkVote_ok := eq_ok_of_any (by decide)
    boundary := fun _ => ⟨by decide, _, hcomputed, by decide⟩ }

/-- **The first block of a difficulty epoch.** On the test network, with a block a second for two
epochs, the mining task caches a candidate with the difficulty of its parent, and the node rejects
the solved block, since the difficulty is raised 45 times. -/
theorem rejected_after_epoch :
    let c := secondsChain .testnet 256
    let candidate := secondsCandidate 257000 256 [updateField (defaultProposedUpdateBytes .testnet)]
    MiningTask.poll (miningEnv 257000) c ⟨0, 0, 0⟩ (some ⟨secondsHeader 256, 256⟩) 256 255 false =
        some candidate ∧
      c.tip? = some candidate.parent ∧
      validateChild (DifficultySettings.testnet.rules plainBits (fun _ => .ok ())) 257000 c
        candidate.parent (candidate.header 257) = .error (.wrongDifficulty 257 45000 1000) := by
  intro c candidate
  exact ⟨by decide +kernel, by decide +kernel, eq_error_of_isError (by decide +kernel)⟩

end ErgoNode
