import Mathlib.Tactic.IntervalCases
import ErgoNode.Chain.HeaderChain

/-!
# Extension sections and the parameters a boundary installs

The decoder of extension sections on the chain side, and the operations by which the chain's
parameters change: computing what a boundary block must carry, installing what it carried, and
rebuilding from the stored extension. The validator's decoder reads the same fields with other
bounds and errors, so the field loop is one definition over a `FieldFormat`.
-/

namespace ErgoNode

open List

/-! ## Fields -/

/-- Bounds and errors of one decoder of extension fields. Positions are byte offsets. -/
structure FieldFormat (ε : Type) where
  maxValueLen : ℕ
  /-- Fewer than three bytes left for the key and the length. -/
  truncatedField : (i pos : ℕ) → ε
  valueTooLong : (i valueLen : ℕ) → ε
  truncatedValue : (i pos valueLen remaining : ℕ) → ε

/-- Read `count` fields, the first of them the `i`-th of the section and at offset `pos`. -/
def getFields {ε : Type} (fmt : FieldFormat ε) :
    (count i pos : ℕ) → Bytes → Except ε (List ExtensionField)
  | 0, _, _, _ => .ok []
  | count + 1, i, pos, subId :: fieldId :: len :: rest =>
    if fmt.maxValueLen < len.toNat then .error (fmt.valueTooLong i len.toNat)
    else if rest.length < len.toNat then
      .error (fmt.truncatedValue i (pos + 3) len.toNat rest.length)
    else do
      let fields ← getFields fmt count (i + 1) (pos + 3 + len.toNat) (rest.drop len.toNat)
      .ok ({ subId := subId, fieldId := fieldId, value := rest.take len.toNat } :: fields)
  | _ + 1, i, pos, _ => .error (fmt.truncatedField i pos)

variable {fields : List ExtensionField} {bytes : Bytes}

lemma getFields_succ_eq_ok {ε : Type} {fmt : FieldFormat ε} {count i pos : ℕ}
    (h : getFields fmt (count + 1) i pos bytes = .ok fields) :
    ∃ subId fieldId len rest tail, bytes = subId :: fieldId :: len :: rest ∧
      len.toNat ≤ fmt.maxValueLen ∧ len.toNat ≤ rest.length ∧
      getFields fmt count (i + 1) (pos + 3 + len.toNat) (rest.drop len.toNat) = .ok tail ∧
      fields = { subId := subId, fieldId := fieldId, value := rest.take len.toNat } :: tail := by
  match bytes, h with
  | subId :: fieldId :: len :: rest, h =>
    rw [getFields] at h
    split at h
    · cases h
    next hmax =>
      split at h
      · cases h
      next hlen =>
        obtain ⟨tail, htail, heq⟩ := bind_eq_ok.1 h
        cases heq
        exact ⟨subId, fieldId, len, rest, tail, rfl, by omega, by omega, htail, rfl⟩
  | [], h => cases h
  | [_], h => cases h
  | [_, _], h => cases h

/-- Two formats read the same fields, where the second accepts the lengths the first one read. -/
theorem getFields_of_getFields {ε ε' : Type} {fmt : FieldFormat ε} (fmt' : FieldFormat ε')
    {count i pos : ℕ} (i' pos' : ℕ) (h : getFields fmt count i pos bytes = .ok fields)
    (hlen : ∀ f ∈ fields, f.value.length ≤ fmt'.maxValueLen) :
    getFields fmt' count i' pos' bytes = .ok fields := by
  induction count generalizing i pos i' pos' bytes fields with
  | zero => simpa [getFields] using h
  | succ count ih =>
    obtain ⟨subId, fieldId, len, rest, tail, rfl, -, hrest, htail, rfl⟩ := getFields_succ_eq_ok h
    have hfirst : len.toNat ≤ fmt'.maxValueLen := by
      have hvalue := hlen _ mem_cons_self
      rwa [length_take, Nat.min_eq_left hrest] at hvalue
    have htail' := ih (i' + 1) (pos' + 3 + len.toNat) htail
      (forall_mem_cons.1 hlen).2
    rw [getFields, if_neg (by omega), if_neg (by omega), htail']
    rfl

lemma length_le_of_getFields {ε : Type} {fmt : FieldFormat ε} {count i pos : ℕ}
    (h : getFields fmt count i pos bytes = .ok fields) :
    ∀ f ∈ fields, f.value.length ≤ fmt.maxValueLen := by
  induction count generalizing i pos bytes fields with
  | zero =>
    cases h
    simp
  | succ count ih =>
    obtain ⟨subId, fieldId, len, rest, tail, rfl, hmax, hrest, htail, rfl⟩ :=
      getFields_succ_eq_ok h
    intro f hf
    rcases mem_cons.1 hf with rfl | hf
    · simpa using le_trans (Nat.min_le_left _ _) hmax
    · exact ih htail f hf

/-! ## The chain's decoder -/

/-- Field errors of the chain's decoder; a value has at most 64 bytes. -/
def chainFieldFormat : FieldFormat ChainError where
  maxValueLen := 64
  truncatedField i pos :=
    .extensionParse s!"truncated field header for field {i} at offset {pos}"
  valueTooLong i valueLen :=
    .extensionParse s!"field {i} value length {valueLen} exceeds max 64"
  truncatedValue i pos valueLen _ :=
    .extensionParse s!"truncated field {i} value at offset {pos}: need {valueLen} bytes"

def sectionHeaderId (bytes : Bytes) : BlockId := natOfBytes (bytes.take 32)

/-- Parse an extension body into the id of its header and its fields. Bytes after the last field
are not looked at. -/
def parseExtensionBytes (bytes : Bytes) : Except ChainError (BlockId × List ExtensionField) :=
  if bytes.length < 32 then
    .error (.extensionParse
      s!"extension body too short: {bytes.length} bytes, need at least 32 for header_id")
  else
    match getU32 (bytes.drop 32) with
    | none => .error (.extensionParse "VLQ field_count")
    | some (fieldCount, rest) => do
      let fields ← getFields chainFieldFormat fieldCount 0 (bytes.length - rest.length) rest
      .ok (sectionHeaderId bytes, fields)

def ExtensionField.IsParameter (f : ExtensionField) : Prop :=
  f.subId = 0 ∧ i8OfByte f.fieldId ≠ idSoftForkDisablingRules

instance (f : ExtensionField) : Decidable f.IsParameter := by
  unfold ExtensionField.IsParameter
  infer_instance

def insertKv (map : List (ℤ × ℤ)) (id value : ℤ) : List (ℤ × ℤ) :=
  (id, value) :: map.filter (fun e => e.1 ≠ id)

def addKvField (out : List (ℤ × ℤ)) (f : ExtensionField) : Except ChainError (List (ℤ × ℤ)) :=
  if ¬f.IsParameter then .ok out
  else if f.value.length ≠ 4 then
    .error (.extensionParse s!"param id {i8OfByte f.fieldId} has wrong value length: expected 4, got {f.value.length}")
  else .ok (insertKv out (i8OfByte f.fieldId) (i32OfBytes f.value))

/-- The map from parameter id to value, later fields overwriting earlier ones. -/
def parseParametersFromKv (kv : List ExtensionField) : Except ChainError (List (ℤ × ℤ)) :=
  kv.foldlM addKvField []

/-- The bytes of the first field with the id of the disabling rules, empty without one. -/
def extractDisablingRulesFromKv (kv : List ExtensionField) : Bytes :=
  ((kv.find? (fun f => f.subId = 0 ∧ i8OfByte f.fieldId = idSoftForkDisablingRules)).map
    (·.value)).getD []

/-- The entry that the rebuilding of the table gives to a signed parameter id. Ids 1 to 8 are
taken by their absolute value. -/
def recomputedParam (signedId : ℤ) : Option Parameter :=
  if signedId.natAbs ≤ 8 then ordinaryParam signedId
  else if signedId = idSubblocksPerBlock then some .subblocksPerBlock
  else if signedId = idBlockVersion then some .blockVersion
  else if signedId = idSoftForkVotesCollected then some .softForkVotesCollected
  else if signedId = idSoftForkStartingHeight then some .softForkStartingHeight
  else none

def overlayParameters (table : Parameters) (parsed : List (ℤ × ℤ)) : Parameters :=
  parsed.foldl (fun t e =>
    match recomputedParam e.1 with
    | some p => t.insert p e.2
    | none => t) table

/-! ## What the fields say about a parameter -/

def parameterId : Parameter → ℤ
  | .storageFeeFactor => 1
  | .minValuePerByte => 2
  | .maxBlockSize => 3
  | .maxBlockCost => 4
  | .tokenAccessCost => 5
  | .inputCost => 6
  | .dataInputCost => 7
  | .outputCost => 8
  | .subblocksPerBlock => 9
  | .softForkVotesCollected => 121
  | .softForkStartingHeight => 122
  | .blockVersion => 123

/-- The value that the last parameter field with a signed id gives. -/
def fieldValue : List ExtensionField → ℤ → Option ℤ
  | [], _ => none
  | f :: kv, id =>
    (fieldValue kv id).or
      (if f.IsParameter ∧ i8OfByte f.fieldId = id then some (i32OfBytes f.value) else none)

variable {kv : List ExtensionField}

lemma fieldValue_eq_none {id : ℤ} :
    fieldValue kv id = none ↔ ∀ f ∈ kv, f.IsParameter → i8OfByte f.fieldId ≠ id := by
  induction kv with
  | nil => simp [fieldValue]
  | cons f kv ih => simp only [fieldValue, Option.or_eq_none_iff, ih]; aesop

lemma mem_addKvField {out out' : List (ℤ × ℤ)} {f : ExtensionField}
    (h : addKvField out f = .ok out') (id v : ℤ) :
    (id, v) ∈ out' ↔
      if f.IsParameter ∧ i8OfByte f.fieldId = id then v = i32OfBytes f.value else (id, v) ∈ out := by
  unfold addKvField at h
  split at h
  next hnot =>
    cases h
    simp [hnot]
  next hparam =>
    split at h
    · cases h
    · cases h
      by_cases hid : i8OfByte f.fieldId = id
      · simp [insertKv, hparam, hid]
      · simp [insertKv, hid, Ne.symm hid]

lemma mem_of_foldlM_addKvField {out map : List (ℤ × ℤ)}
    (h : kv.foldlM addKvField out = .ok map) (id v : ℤ) :
    (id, v) ∈ map ↔ fieldValue kv id = some v ∨ fieldValue kv id = none ∧ (id, v) ∈ out := by
  induction kv generalizing out with
  | nil =>
    cases h
    simp [fieldValue]
  | cons f kv ih =>
    rw [foldlM_cons, bind_eq_ok] at h
    obtain ⟨out', hout, h⟩ := h
    rw [ih h, mem_addKvField hout, fieldValue]
    cases fieldValue kv id with
    | some w => simp
    | none =>
      split
      · simp only [reduceCtorEq, true_and, false_or, Option.none_or, Option.some.injEq, false_and,
          or_false]
        exact eq_comm
      · simp

lemma mem_parseParametersFromKv {map : List (ℤ × ℤ)}
    (h : parseParametersFromKv kv = .ok map) (id v : ℤ) :
    (id, v) ∈ map ↔ fieldValue kv id = some v := by
  rw [mem_of_foldlM_addKvField h]
  simp

lemma exists_parseParametersFromKv (h : ∀ f ∈ kv, f.IsParameter → f.value.length = 4) :
    ∃ map, parseParametersFromKv kv = .ok map := by
  have hfold : ∀ out, ∃ map, kv.foldlM addKvField out = .ok map := by
    induction kv with
    | nil => exact fun out => ⟨out, rfl⟩
    | cons f kv ih =>
      intro out
      have hstep : ∃ out', addKvField out f = .ok out' := by
        unfold addKvField
        split
        · exact ⟨_, rfl⟩
        next hparam =>
          rw [if_neg (by simpa using h f mem_cons_self (by simpa using hparam))]
          exact ⟨_, rfl⟩
      obtain ⟨out', hout⟩ := hstep
      obtain ⟨map, hmap⟩ := ih (forall_mem_cons.1 h).2 out'
      exact ⟨map, by rw [foldlM_cons, hout]; exact hmap⟩
  exact hfold []

variable {p : Parameter}

/-- The ids that the rebuilding takes for an entry: its own, and for the ordinary entries the
negated one. -/
theorem recomputedParam_eq_some {id : ℤ} :
    recomputedParam id = some p ↔
      id = parameterId p ∨ parameterId p ≤ 8 ∧ id = -parameterId p := by
  by_cases hordinary : id.natAbs ≤ 8
  · have hrange : -8 ≤ id ∧ id ≤ 8 := by omega
    obtain ⟨hlow, hhigh⟩ := hrange
    interval_cases id <;> cases p <;> decide
  · unfold recomputedParam idSubblocksPerBlock idBlockVersion idSoftForkVotesCollected
      idSoftForkStartingHeight
    split_ifs with h9 h123 h121 h122
    · cases p <;> simp [parameterId, h9]
    · cases p <;> simp [parameterId, h123]
    · cases p <;> simp [parameterId, h121]
    · cases p <;> simp [parameterId, h122]
    · cases p <;> simp only [parameterId, false_iff] <;> omega

variable {parsed : List (ℤ × ℤ)}

lemma get_overlayParameters_of_not_mem
    (h : ∀ e ∈ parsed, recomputedParam e.1 ≠ some p) (table : Parameters) :
    (overlayParameters table parsed).get p = table.get p := by
  induction parsed generalizing table with
  | nil => rfl
  | cons e parsed ih =>
    have htail := ih (fun e' he' => h e' (mem_cons_of_mem _ he'))
    show (overlayParameters _ parsed).get p = _
    rw [htail]
    dsimp only
    split
    next q hq =>
      have hne : p ≠ q := fun heq => h e mem_cons_self (heq ▸ hq)
      rw [Parameters.get_insert, if_neg hne]
    · rfl

/-- Entries that all give one value to an entry of the table decide it, in whatever order they
are written. -/
theorem get_overlayParameters_of_mem {v : ℤ} (hmem : ∃ e ∈ parsed, recomputedParam e.1 = some p)
    (h : ∀ e ∈ parsed, recomputedParam e.1 = some p → e.2 = v) (table : Parameters) :
    (overlayParameters table parsed).get p = some v := by
  induction parsed generalizing table with
  | nil => simp at hmem
  | cons e parsed ih =>
    show (overlayParameters _ parsed).get p = some v
    by_cases htail : ∃ e' ∈ parsed, recomputedParam e'.1 = some p
    · exact ih htail (fun e' he' => h e' (mem_cons_of_mem _ he')) _
    · -- the first entry is the only one
      obtain ⟨e', he', hparam⟩ := hmem
      obtain rfl : e' = e := by
        rcases mem_cons.1 he' with heq | hin
        · exact heq
        · exact absurd ⟨e', hin, hparam⟩ htail
      push Not at htail
      rw [get_overlayParameters_of_not_mem htail, ← h e' mem_cons_self hparam]
      simp [hparam, Parameters.get_insert]

namespace HeaderChain

/-! ## The chain's parameters -/

def isEpochBoundary (c : HeaderChain) (height : ℕ) : Bool :=
  0 < height ∧ height % c.config.voting.votingLength = 0

def tallyJustEndedEpoch (c : HeaderChain) (boundary : ℕ) : Except ChainError (List (ℤ × ℕ)) :=
  let length := c.config.voting.votingLength
  let start := max (boundary - length) 1
  if boundary = 0 then .error (.voting "epoch boundary cannot be 0")
  else if boundary - 1 < start then .ok []
  else do
    let window ← (List.range' start (boundary - start)).mapM fun h =>
      match c.headerAt h with
      | some header => .ok (h, header.votes)
      | none =>
        .error (.voting s!"header at height {h} missing from chain (epoch boundary {boundary})")
    .ok (tallyVotesSeeded window boundary length)

/-- The parameters a boundary block must carry. An update that does not parse counts as empty. -/
def computeExpectedParameters (sigmaParse : Bytes → Option (RuleStatus × Bytes))
    (c : HeaderChain) (boundary : ℕ) (blockProposedUpdate : Bytes) :
    Except ChainError Parameters := do
  let forkVote := (c.headerAt boundary).any (fun h => (120 : UInt8) ∈ h.votes.toList)
  let tally ← c.tallyJustEndedEpoch boundary
  let proposedUpdate :=
    match parseValidationSettingsUpdate sigmaParse blockProposedUpdate with
    | .ok _ => blockProposedUpdate
    | .error _ => encodeDisabledRules []
  let (params, _) ← computeBoundaryParameters sigmaParse c.config.voting boundary
    c.activeParameters tally forkVote proposedUpdate
  .ok params

def applyEpochBoundaryParameters (c : HeaderChain) (params : Parameters)
    (proposedUpdateBytes : Bytes) : HeaderChain :=
  { c with activeParameters := params, activeProposedUpdateBytes := proposedUpdateBytes }

/-- The last epoch boundary at or below a height, 0 when there is none. -/
def lastBoundary (c : HeaderChain) (height : ℕ) : ℕ :=
  height / c.config.voting.votingLength * c.config.voting.votingLength

/-- Rebuild the parameters from the stored extension of the last boundary, with the map in the order
`iterate`. -/
def recomputeActiveParametersFromStorage (iterate : List (ℤ × ℤ) → List (ℤ × ℤ))
    (loader : ℕ → Option Bytes) (c : HeaderChain) (targetHeight : ℕ) :
    Except ChainError HeaderChain :=
  let boundary := c.lastBoundary targetHeight
  if targetHeight < c.config.voting.votingLength ∨ boundary = 0 then .ok c
  else
    match loader boundary with
    | none =>
      .error (.voting s!"extension loader returned None for boundary height {boundary}")
    | some bytes => do
      let (headerId, fields) ← parseExtensionBytes bytes
      match c.headerAt boundary with
      | none => .error (.voting s!"no header at boundary height {boundary}")
      | some expected =>
        require (headerId = expected.id)
          (.voting s!"extension header_id mismatch at height {boundary}: extension says {headerId}, chain says {expected.id}")
        let parsed ← parseParametersFromKv fields
        let extracted := extractDisablingRulesFromKv fields
        .ok (c.applyEpochBoundaryParameters
          (overlayParameters (defaultParameters c.config.network) (iterate parsed))
          (if extracted = [] then defaultProposedUpdateBytes c.config.network else extracted))

/-! ## Facts about boundaries -/

variable {c : HeaderChain}

lemma keeps_computeExpectedParameters {sigmaParse : Bytes → Option (RuleStatus × Bytes)}
    {boundary : ℕ} {update : Bytes} {table : Parameters}
    (h : c.computeExpectedParameters sigmaParse boundary update = .ok table) :
    c.activeParameters.Keeps table := by
  unfold computeExpectedParameters at h
  simp only [bind_eq_ok] at h
  obtain ⟨_, -, ⟨params, _⟩, hcompute, hout⟩ := h
  cases hout
  exact keeps_computeBoundaryParameters hcompute

lemma lastBoundary_succ (c : HeaderChain) (n : ℕ) :
    c.lastBoundary (n + 1) =
      if c.isEpochBoundary (n + 1) = true then n + 1 else c.lastBoundary n := by
  unfold lastBoundary isEpochBoundary
  simp only [Nat.succ_pos, true_and, decide_eq_true_eq]
  split
  next hdvd =>
    exact Nat.div_mul_cancel (Nat.dvd_of_mod_eq_zero hdvd)
  next hdvd =>
    rw [Nat.succ_div, if_neg (fun hd => hdvd (Nat.mod_eq_zero_of_dvd hd)), Nat.add_zero]

lemma isEpochBoundary_lastBoundary {n : ℕ} (h : c.lastBoundary n ≠ 0) :
    c.isEpochBoundary (c.lastBoundary n) = true := by
  unfold isEpochBoundary
  rw [decide_eq_true_eq]
  exact ⟨Nat.pos_of_ne_zero h, Nat.mul_mod_left _ _⟩

lemma votingLength_le_of_lastBoundary {n : ℕ} (h : c.lastBoundary n ≠ 0) :
    c.config.voting.votingLength ≤ n := by
  by_contra hlt
  exact h (by rw [lastBoundary, Nat.div_eq_of_lt (Nat.lt_of_not_le hlt), Nat.zero_mul])

end HeaderChain

lemma fst_of_parseExtensionBytes {headerId : BlockId}
    (h : parseExtensionBytes bytes = .ok (headerId, fields)) :
    headerId = sectionHeaderId bytes := by
  unfold parseExtensionBytes at h
  split at h
  · cases h
  · split at h
    · cases h
    · obtain ⟨_, -, hout⟩ := bind_eq_ok.1 h
      exact (Prod.mk.inj (Except.ok.inj hout)).1.symm

end ErgoNode
