import ErgoNode.Chain.Extension
import ErgoNode.Chain.Section

/-!
# The epoch-boundary checks of the validator

Both validators decode the extension of a block with a decoder of their own and, at an epoch
boundary, compare the parameters it carries with the table the chain computed. What passes is
handed back to the caller, who installs it.
-/

namespace ErgoNode

variable {params : Parameters} {extension : ParsedExtension} {fields : List ExtensionField}
  {params' : Parameters}

inductive ValidationError where
  | sectionParse (sectionType : ℕ) (reason : String)
  | proofDigestMismatch (expected got : ℕ)
  | stateRootMismatch (expected got : ADDigest)
  | proofVerificationFailed (reason : String)
  | intraBlockDoubleSpend (boxId : String)
  | transactionInvalid (index : ℕ) (reason : String)
  | blockCostExceeded (cost maxCost : ℕ)
  | blockVersionMismatch (expected : ℤ) (got : ℕ)
  | missingProof
  | heightMismatch (expected got : ℕ)
  | stateOperationFailed (reason : String)
  | parameterMismatch (height : ℕ) (expected actual : Parameters)
deriving DecidableEq

structure ParsedExtension where
  headerId : BlockId
  fields : List ExtensionField
deriving DecidableEq, Repr

/-- Field errors of the validator's decoder; the length byte is the only bound on a value. -/
def sectionFieldFormat : FieldFormat ValidationError where
  maxValueLen := 255
  truncatedField i _ := .sectionParse extensionTypeId s!"field {i}: truncated"
  valueTooLong i _ := .sectionParse extensionTypeId s!"field {i}: truncated"
  truncatedValue i _ valueLen remaining :=
    .sectionParse extensionTypeId
      s!"field {i}: value_len={valueLen} but only {remaining} bytes remain"

def parseExtension (data : Bytes) : Except ValidationError ParsedExtension :=
  if data.length < 33 then .error (.sectionParse extensionTypeId "too short for header_id")
  else
    match getU16 (data.drop 32) with
    | none => .error (.sectionParse extensionTypeId "field_count VLQ")
    | some (fieldCount, rest) => do
      let fields ← getFields sectionFieldFormat fieldCount 0 (data.length - rest.length) rest
      .ok { headerId := sectionHeaderId data, fields := fields }

/-- The entry of the table a signed parameter id stands for. Negative ids are votes, not entries. -/
def signedIdToParameter (id : ℤ) : Option Parameter :=
  if id = 1 then some .storageFeeFactor
  else if id = 2 then some .minValuePerByte
  else if id = 3 then some .maxBlockSize
  else if id = 4 then some .maxBlockCost
  else if id = 5 then some .tokenAccessCost
  else if id = 6 then some .inputCost
  else if id = 7 then some .dataInputCost
  else if id = 8 then some .outputCost
  else if id = 9 then some .subblocksPerBlock
  else if id = 121 then some .softForkVotesCollected
  else if id = 122 then some .softForkStartingHeight
  else if id = 123 then some .blockVersion
  else none

/-- Add the parameter of one field to the table. Other fields and unknown ids are passed over. -/
def addParameterField (params : Parameters) (f : ExtensionField) :
    Except ValidationError Parameters :=
  if ¬f.IsParameter then .ok params
  else if f.value.length ≠ 4 then
    .error (.sectionParse extensionTypeId s!"parameter id {i8OfByte f.fieldId} has wrong value length: expected 4, got {f.value.length}")
  else
    match signedIdToParameter (i8OfByte f.fieldId) with
    | some param => .ok (params.insert param (i32OfBytes f.value))
    | none => .ok params

def parseParametersFromExtension (extension : ParsedExtension) :
    Except ValidationError Parameters := do
  let params ← extension.fields.foldlM addParameterField .empty
  require (params.len ≠ 0)
    (.sectionParse extensionTypeId "extension contains no parameter fields")
  .ok params

def extractProposedUpdate (extension : ParsedExtension) : Bytes :=
  extractDisablingRulesFromKv extension.fields

/-- Every entry of the computed table is in the parsed one with the same value. The parsed table
may have more entries. -/
def checkParametersV6 (expected parsed : Parameters) (height : ℕ) : Except ValidationError Unit := do
  require (expected.len ≤ parsed.len) (.parameterMismatch height expected parsed)
  require (∀ p, (expected.get p).all (fun v => parsed.get p = some v))
    (.parameterMismatch height expected parsed)

def checkBlockVersion (governing : Parameters) (headerVersion height : ℕ) :
    Except ValidationError Unit :=
  match governing.get .blockVersion with
  | some expected =>
    require (expected = headerVersion) (.blockVersionMismatch expected headerVersion)
  | none =>
    .error (.stateOperationFailed
      s!"governing parameters table has no BlockVersion entry at height {height}")

/-- The parameters and the proposed update a boundary block hands to the caller. -/
abbrev BoundaryOutcome := Option (Parameters × Bytes)

/-- The boundary steps of `apply_state`: decode the extension, compare it with what the chain
computed, and check the block version. -/
def checkBoundary (header : Header) (extension : ParsedExtension)
    (expectedBoundaryParams : Option Parameters) : Except ValidationError BoundaryOutcome :=
  match expectedBoundaryParams with
  | none => .ok none
  | some expected => do
    let parsed ← parseParametersFromExtension extension
    let parsedUpdate := extractProposedUpdate extension
    checkParametersV6 expected parsed header.height
    checkBlockVersion expected header.version header.height
    .ok (some (parsed, parsedUpdate))

/-! ## What the decoder reads -/

lemma signedIdToParameter_parameterId (p : Parameter) :
    signedIdToParameter (parameterId p) = some p := by
  cases p <;> rfl

lemma parameterId_injective : Function.Injective parameterId := by
  intro p q h
  rw [← Option.some_inj, ← signedIdToParameter_parameterId, h, signedIdToParameter_parameterId]

lemma signedIdToParameter_eq_some {id : ℤ} {p : Parameter} :
    signedIdToParameter id = some p ↔ id = parameterId p := by
  constructor
  · intro h
    have hbranch : ∀ {c : Prop} [Decidable c] {q : Parameter} {rest : Option Parameter},
        (if c then some q else rest) = some p → c ∧ q = p ∨ rest = some p := by
      intro c _ q rest hif
      by_cases hc : c
      · exact .inl ⟨hc, Option.some.inj ((if_pos hc).symm.trans hif)⟩
      · exact .inr ((if_neg hc).symm.trans hif)
    -- one branch for each id, and none at the end
    iterate 12
      obtain ⟨hid, rfl⟩ | h := hbranch h
      · exact hid
    cases h
  · rintro rfl
    exact signedIdToParameter_parameterId p

lemma get_addParameterField {f : ExtensionField}
    (h : addParameterField params f = .ok params') (p : Parameter) :
    params'.get p =
      if f.IsParameter ∧ i8OfByte f.fieldId = parameterId p then some (i32OfBytes f.value)
      else params.get p := by
  unfold addParameterField at h
  split at h
  next hnot =>
    cases h
    simp [hnot]
  next hparam =>
    split at h
    · cases h
    · split at h
      next q hq =>
        cases h
        rw [signedIdToParameter_eq_some] at hq
        rw [Parameters.get_insert, hq]
        by_cases hpq : p = q
        · simp [hpq, hparam]
        · simp [hpq, parameterId_injective.ne (Ne.symm hpq)]
      next hnone =>
        cases h
        rw [if_neg]
        rintro ⟨-, hid⟩
        rw [signedIdToParameter_eq_some.2 hid] at hnone
        cases hnone

lemma get_foldlM_addParameterField
    (h : fields.foldlM addParameterField params = .ok params') (p : Parameter) :
    params'.get p = (fieldValue fields (parameterId p)).or (params.get p) := by
  induction fields generalizing params with
  | nil =>
    cases h
    rfl
  | cons f fields ih =>
    rw [List.foldlM_cons, bind_eq_ok] at h
    obtain ⟨next, hnext, h⟩ := h
    rw [ih h, get_addParameterField hnext, fieldValue, Option.or_assoc]
    split
    · rfl
    · rfl

lemma get_parseParametersFromExtension
    (h : parseParametersFromExtension extension = .ok params) (p : Parameter) :
    params.get p = fieldValue extension.fields (parameterId p) := by
  unfold parseParametersFromExtension at h
  simp only [bind_eq_ok] at h
  obtain ⟨table, htable, _, -, h⟩ := h
  cases h
  rw [get_foldlM_addParameterField htable, Parameters.get_empty, Option.or_none]

lemma length_of_parseParametersFromExtension
    (h : parseParametersFromExtension extension = .ok params) :
    ∀ f ∈ extension.fields, f.IsParameter → f.value.length = 4 := by
  obtain ⟨table, htable, -⟩ := bind_eq_ok.1 h
  generalize extension.fields = fields, Parameters.empty = start at htable
  induction fields generalizing start with
  | nil => simp
  | cons f fields ih =>
    rw [List.foldlM_cons, bind_eq_ok] at htable
    obtain ⟨next, hnext, htable⟩ := htable
    intro g hg hparam
    rcases List.mem_cons.1 hg with rfl | hg
    · by_contra hlen
      simp [addParameterField, hparam, hlen] at hnext
    · exact ih next htable g hg hparam

lemma fields_of_parseExtension {data : Bytes} {headerId : BlockId}
    (hsection : parseExtension data = .ok extension)
    (hchain : parseExtensionBytes data = .ok (headerId, fields)) :
    extension.fields = fields ∧ headerId = sectionHeaderId data := by
  unfold parseExtension at hsection
  unfold parseExtensionBytes at hchain
  split at hsection
  · cases hsection
  · split at hsection
    · cases hsection
    next count rest hcount =>
      rw [if_neg (by omega), getU32_of_getU16 hcount] at hchain
      obtain ⟨fs, hfs, hext⟩ := bind_eq_ok.1 hsection
      obtain ⟨fs', hfs', hout⟩ := bind_eq_ok.1 hchain
      cases hext
      cases hout
      have hsame := getFields_of_getFields sectionFieldFormat 0 (data.length - rest.length) hfs'
        (fun f hf => le_trans (length_le_of_getFields hfs' f hf) (by decide))
      exact ⟨Except.ok.inj (hfs.symm.trans hsame), rfl⟩

lemma get_of_checkParametersV6 {expected parsed : Parameters} {height : ℕ} {u : Unit}
    (h : checkParametersV6 expected parsed height = .ok u) {p : Parameter} {v : ℤ}
    (hv : expected.get p = some v) : parsed.get p = some v := by
  obtain ⟨_, -, hmatch⟩ := bind_eq_ok.1 h
  have hp := require_eq_ok.1 hmatch p
  rw [hv] at hp
  simpa using hp

/-- What a boundary block hands over is from its own extension and has every computed entry. -/
theorem checkBoundary_eq_ok {header : Header} {expected : Option Parameters} {update : Bytes}
    (h : checkBoundary header extension expected = .ok (some (params, update))) :
    ∃ table, expected = some table ∧ parseParametersFromExtension extension = .ok params ∧
      update = extractProposedUpdate extension ∧
      (∀ p v, table.get p = some v → params.get p = some v) ∧
      table.get .blockVersion = some (header.version : ℤ) := by
  unfold checkBoundary at h
  split at h
  · cases h
  next table =>
    simp only [bind_eq_ok] at h
    obtain ⟨parsed, hparsed, _, hmatch, _, hversion, hout⟩ := h
    obtain ⟨rfl, rfl⟩ : parsed = params ∧ extractProposedUpdate extension = update := by
      simpa using hout
    refine ⟨table, rfl, hparsed, rfl, fun p v => get_of_checkParametersV6 hmatch, ?_⟩
    unfold checkBlockVersion at hversion
    split at hversion
    next v hv =>
      rw [hv, require_eq_ok.1 hversion]
    · cases hversion

end ErgoNode
