import Mathlib.Data.Fintype.Pi
import ErgoNode.Library.Result
import ErgoNode.Library.Vlq
import ErgoNode.Chain.Header

/-!
# Miner voting and the parameters table

The blockchain parameters miners vote on, the computation of the table an epoch-boundary block
must carry, and the two vote checks every header passes.
-/

namespace ErgoNode

inductive Parameter where
  | storageFeeFactor
  | minValuePerByte
  | maxBlockSize
  | maxBlockCost
  | tokenAccessCost
  | inputCost
  | dataInputCost
  | outputCost
  | subblocksPerBlock
  | softForkVotesCollected
  | softForkStartingHeight
  | blockVersion
deriving DecidableEq, Repr

instance : Fintype Parameter where
  elems := {.storageFeeFactor, .minValuePerByte, .maxBlockSize, .maxBlockCost, .tokenAccessCost,
    .inputCost, .dataInputCost, .outputCost, .subblocksPerBlock, .softForkVotesCollected,
    .softForkStartingHeight, .blockVersion}
  complete := by
    intro p
    cases p <;> decide

/-- The parameters table: which entries it has, and their `i32` values. -/
structure Parameters where
  parametersTable : Parameter → Option ℤ

namespace Parameters

def get (t : Parameters) (p : Parameter) : Option ℤ := t.parametersTable p

def empty : Parameters := ⟨fun _ => none⟩

def insert (t : Parameters) (p : Parameter) (v : ℤ) : Parameters :=
  ⟨fun q => if q = p then some v else t.parametersTable q⟩

def remove (t : Parameters) (p : Parameter) : Parameters :=
  ⟨fun q => if q = p then none else t.parametersTable q⟩

def len (t : Parameters) : ℕ :=
  (Finset.univ.filter (fun p => (t.get p).isSome)).card

@[ext]
lemma ext_get {s t : Parameters} (h : ∀ p, s.get p = t.get p) : s = t := by
  cases s
  cases t
  simpa [get, funext_iff] using h

instance : DecidableEq Parameters := fun s t =>
  decidable_of_iff (∀ p, s.get p = t.get p) ⟨ext_get, fun h _ => h ▸ rfl⟩

@[simp]
lemma get_empty (p : Parameter) : empty.get p = none := rfl

lemma get_insert (t : Parameters) (p q : Parameter) (v : ℤ) :
    (t.insert p v).get q = if q = p then some v else t.get q := rfl

lemma get_remove (t : Parameters) (p q : Parameter) :
    (t.remove p).get q = if q = p then none else t.get q := rfl

lemma isSome_get_insert {t : Parameters} {p q : Parameter} {v : ℤ} (h : (t.get q).isSome) :
    ((t.insert p v).get q).isSome := by
  rw [get_insert]
  split
  · rfl
  · exact h

end Parameters

def wrapI32 (x : ℤ) : ℤ := x.bmod (2 ^ 32)

def i8OfByte (b : UInt8) : ℤ := if b.toNat < 128 then b.toNat else (b.toNat : ℤ) - 256

def i32OfBytes (bytes : Bytes) : ℤ := wrapI32 (natOfBytes bytes)

def softForkVote : ℤ := 120

def paramVotesCount : ℕ := 2

def idSubblocksPerBlock : ℤ := 9

def idSoftForkVotesCollected : ℤ := 121

def idSoftForkStartingHeight : ℤ := 122

def idBlockVersion : ℤ := 123

def idSoftForkDisablingRules : ℤ := 124

structure ExtensionField where
  subId : UInt8
  /-- Second key byte: the id within the kind. -/
  fieldId : UInt8
  value : Bytes
deriving DecidableEq, Repr

def VotingConfig.softForkApproved (c : VotingConfig) (votes : ℤ) : Bool :=
  ((c.votingLength * c.softForkEpochs * 9 / 10 : ℕ) : ℤ) < votes

def VotingConfig.changeApproved (c : VotingConfig) (votes : ℕ) : Bool :=
  c.votingLength / 2 < votes

/-- Hardcoded step of a parameter. The other parameters step by a hundredth of their value. -/
def parameterStep (id : ℤ) : Option ℤ :=
  match id.natAbs with
  | 1 => some 25000
  | 2 => some 10
  | 9 => some 1
  | _ => none

def parameterMin (id : ℤ) : Option ℤ :=
  match id.natAbs with
  | 1 => some 0
  | 2 => some 0
  | 3 => some (16 * 1024)
  | 4 => some (16 * 1024)
  | 5 => some 0
  | 6 => some 0
  | 7 => some 0
  | 8 => some 0
  | 9 => some 2
  | _ => none

def halfMaxI32 : ℤ := 1073741823

def parameterMax (id : ℤ) : Option ℤ :=
  match id.natAbs with
  | 1 => some 2500000
  | 2 => some 10000
  | 9 => some 2048
  | 3 | 4 | 5 | 6 | 7 | 8 => some halfMaxI32
  | _ => none

/-- The parameter an ordinary vote id (1 to 9, either sign) is about. -/
def ordinaryParam (id : ℤ) : Option Parameter :=
  match id.natAbs with
  | 1 => some .storageFeeFactor
  | 2 => some .minValuePerByte
  | 3 => some .maxBlockSize
  | 4 => some .maxBlockCost
  | 5 => some .tokenAccessCost
  | 6 => some .inputCost
  | 7 => some .dataInputCost
  | 8 => some .outputCost
  | 9 => some .subblocksPerBlock
  | _ => none

def subblocksPerBlockDefault : ℤ := 30

def defaultBlockVersion : Network → ℤ
  | .mainnet => 1
  | .testnet => 4

def defaultParameters (network : Network) : Parameters where
  parametersTable
    | .storageFeeFactor => some 1250000
    | .minValuePerByte => some 360
    | .maxBlockSize => some 524288
    | .maxBlockCost => some 1000000
    | .tokenAccessCost => some 100
    | .inputCost => some 2000
    | .dataInputCost => some 100
    | .outputCost => some 100
    | .subblocksPerBlock =>
      match network with
      | .mainnet => none
      | .testnet => some subblocksPerBlockDefault
    | .softForkVotesCollected => none
    | .softForkStartingHeight => none
    | .blockVersion => some (defaultBlockVersion network)

/-! ## Validation settings updates -/

/-- Status of a validation rule, as the sigma library decodes it. -/
inductive RuleStatus where
  | enabled
  | disabled
  | replaced (newRuleId : ℕ)
  | changed (newValue : Bytes)
deriving DecidableEq, Repr

/-- A parsed validation-settings update: the rules to disable and the status changes. -/
structure ValidationSettingsUpdate where
  rules : List ℕ := []
  /-- Rule ids with their new status, in input order. -/
  statuses : List (ℤ × RuleStatus) := []
deriving DecidableEq, Repr

def ruleMayNotBeDisabled (id : ℕ) : Bool :=
  (100 ≤ id ∧ id ≤ 109) ∨ (112 ≤ id ∧ id ≤ 117) ∨ id = 119 ∨ id = 122 ∨ id = 200 ∨ id = 201 ∨
    (203 ≤ id ∧ id ≤ 211) ∨ id = 213 ∨ id = 214 ∨ id = 216 ∨ (300 ≤ id ∧ id ≤ 305) ∨ id = 307 ∨
    id = 403 ∨ id = 500 ∨ id = 501

def getMany {α : Type} (get : Bytes → Option (α × Bytes)) : ℕ → Bytes → Option (List α × Bytes)
  | 0, bytes => some ([], bytes)
  | n + 1, bytes => do
    let (a, rest) ← get bytes
    let (as, rest') ← getMany get n rest
    some (a :: as, rest')

/-- A count read as a signed 32-bit integer: from `2 ^ 31` on it is negative and counts nothing. -/
def signedCount (raw : ℕ) : ℕ := if raw < 2 ^ 31 then raw else 0

def firstRuleId : ℕ := 1000

/-- One status update: the offset rule id, wrapped to 16 bits, and the status as `sigmaParse` reads
it. -/
def getStatusUpdate (sigmaParse : Bytes → Option (RuleStatus × Bytes)) (bytes : Bytes) :
    Option ((ℤ × RuleStatus) × Bytes) := do
  let (offset, rest) ← getU16 bytes
  let (status, rest') ← sigmaParse rest
  some ((((offset + firstRuleId : ℕ) : ℤ).bmod (2 ^ 16), status), rest')

/-- Strict deserialization of a validation-settings update. Empty input is the empty update;
trailing bytes are not an error. -/
def parseValidationSettingsUpdate (sigmaParse : Bytes → Option (RuleStatus × Bytes))
    (bytes : Bytes) : Except ChainError ValidationSettingsUpdate :=
  if bytes = [] then .ok {}
  else match getU32 bytes with
  | none => .error (.extensionParse "settings update: disabled rules count")
  | some (rawCount, rest) =>
    match getMany getU16 (signedCount rawCount) rest with
    | none => .error (.extensionParse "settings update: disabled rule id")
    | some (rules, rest) =>
      match rules.find? ruleMayNotBeDisabled with
      | some rule =>
        .error (.extensionParse
          s!"settings update: trying to deactivate rule {rule}, that may not be disabled")
      | none =>
        match getU32 rest with
        | none => .error (.extensionParse "settings update: status updates count")
        | some (rawStatusCount, rest) =>
          match getMany (getStatusUpdate sigmaParse) (signedCount rawStatusCount) rest with
          | none => .error (.extensionParse "settings update: status update")
          | some (statuses, _) => .ok { rules := rules, statuses := statuses }

/-- Encoding of an update that disables the given rules and changes no status. -/
def encodeDisabledRules (rules : List ℕ) : Bytes :=
  putVlq rules.length ++ rules.flatMap putVlq ++ putVlq 0

/-- Launch value of the proposed update: rules 215 and 409 disabled, on both networks. -/
def defaultProposedUpdateBytes (_network : Network) : Bytes := encodeDisabledRules [215, 409]

/-! ## The boundary computation -/

/-- The vote tally of a closing epoch. Its first header, the previous boundary, seeds the ids that
count. -/
def tallyVotesSeeded (window : List (ℕ × Votes)) (boundaryHeight votingLength : ℕ) :
    List (ℤ × ℕ) :=
  match window with
  | [] => []
  | (seedHeight, seedVotes) :: rest =>
    -- at chain start there is no previous boundary, and nothing seeds
    if boundaryHeight < votingLength ∨ boundaryHeight - votingLength ≠ seedHeight then []
    else
      let seed := (seedVotes.toList.filter (· ≠ 0)).map (fun slot => (i8OfByte slot, 1))
      (rest.flatMap (fun w => w.2.toList.filter (· ≠ 0))).foldl
        (fun tally slot => tally.map fun e => if e.1 = i8OfByte slot then (e.1, e.2 + 1) else e)
        seed

/-- The soft-fork part of the boundary computation, and whether voting activated a version. -/
def updateFork (voting : VotingConfig) (boundaryHeight : ℕ) (current : Parameters)
    (tally : List (ℤ × ℕ)) (boundaryForkVote : Bool) : Except ChainError (Parameters × Bool) :=
  match current.get .softForkStartingHeight with
  | some start => do
    let h : ℤ := boundaryHeight
    let l : ℤ := voting.votingLength
    let ve : ℤ := voting.softForkEpochs
    let ae : ℤ := voting.activationEpochs
    let votesInPrevEpoch := ((tally.find? (fun e => e.1 = softForkVote)).map Prod.snd).getD 0
    -- the running total is read lazily: a missing counter is an error only where it is used
    let forceVotes : Except ChainError ℤ :=
      match current.get .softForkVotesCollected with
      | some c => .ok (wrapI32 (wrapI32 votesInPrevEpoch + c))
      | none => .error (.voting s!"SoftForkVotesCollected (121) absent from parameters table at boundary {boundaryHeight} (JVM lazy `votes` force)")
    let approvedWhen (cond : Bool) : Except ChainError (Option Bool) :=
      if cond then forceVotes.map (fun v => some (voting.softForkApproved v)) else .ok none
    let midEnd := start + l * ve
    let activation := start + l * (ve + ae)
    let cleanupFail := start + l * (ve + 1)
    let cleanupSuccess := start + l * (ve + ae + 1)
    let clear (t : Parameters) := (t.remove .softForkStartingHeight).remove .softForkVotesCollected
    let restart (t : Parameters) :=
      (t.insert .softForkStartingHeight (wrapI32 boundaryHeight)).insert .softForkVotesCollected 0
    let atSuccess ← approvedWhen (h = cleanupSuccess)
    let table := if atSuccess = some true then clear current else current
    let atFail ← approvedWhen (h = cleanupFail)
    let table := if atFail = some false then clear table else table
    -- a fork vote at the late-cleanup height restarts the round without an approval check
    let failed ← approvedWhen (boundaryForkVote && h != cleanupSuccess && h == cleanupFail)
    let table :=
      if boundaryForkVote && (h == cleanupSuccess || failed = some false) then restart table
      else table
    let table ← if h ≤ midEnd then
        forceVotes.map (fun v => table.insert .softForkVotesCollected v)
      else .ok table
    let atActivation ← approvedWhen (h = activation)
    if atActivation = some true then
      match table.get .blockVersion with
      | some bv => .ok (table.insert .blockVersion (wrapI32 (bv + 1)), true)
      | none => .error (.voting "BlockVersion missing from parameters table at soft-fork activation")
    else .ok (table, false)
  | none =>
    if boundaryForkVote ∧ boundaryHeight % voting.votingLength = 0 then
      .ok ((current.insert .softForkStartingHeight (wrapI32 boundaryHeight)).insert
        .softForkVotesCollected 0, false)
    else .ok (current, false)

def forceVersion2 (voting : VotingConfig) (boundaryHeight : ℕ) (table : Parameters) :
    Except ChainError Parameters :=
  if boundaryHeight = voting.version2ActivationHeight then
    match table.get .blockVersion with
    | some bv => .ok (if bv = 1 then table.insert .blockVersion 2 else table)
    | none => .error (.voting "BlockVersion missing from parameters table at forced-v2 height")
  else .ok table

/-- The value an approved vote moves a parameter to: one step towards its bound. -/
def steppedValue (signedId currentValue : ℤ) : ℤ :=
  let min := (parameterMin signedId).getD 0
  let max := (parameterMax signedId).getD halfMaxI32
  let step := (parameterStep signedId).getD (Max.max 1 (currentValue.tdiv 100))
  if 0 < signedId then
    if currentValue < max then wrapI32 (currentValue + step) else currentValue
  else if min < currentValue then wrapI32 (currentValue - step) else currentValue

/-- Ordinary parameter steps, in tally order, from the values in `base`. -/
def updateParams (voting : VotingConfig) (boundaryHeight : ℕ) (base : Parameters) :
    List (ℤ × ℕ) → Parameters → Except ChainError Parameters
  | [], table => .ok table
  | (signedId, count) :: tally, table =>
    if softForkVote ≤ signedId ∨ voting.changeApproved count = false then
      updateParams voting boundaryHeight base tally table
    else
      match ordinaryParam signedId with
      | none => .error (.voting s!"approved vote for unknown parameter id {signedId} at boundary {boundaryHeight}")
      | some param =>
        match base.get param with
        | none => .error (.voting s!"approved vote for parameter id {signedId} absent from table at boundary {boundaryHeight}")
        | some currentValue =>
          updateParams voting boundaryHeight base tally
            (table.insert param (steppedValue signedId currentValue))

/-- Insert the sub-blocks entry on the epoch after protocol version 4 activates. -/
def insertSubblocks (activatedUpdate : ValidationSettingsUpdate) (table : Parameters) :
    Parameters :=
  if table.get .blockVersion = some 4 ∧ table.get .subblocksPerBlock = none ∧
      409 ∉ activatedUpdate.rules then
    table.insert .subblocksPerBlock subblocksPerBlockDefault
  else table

/-- The parameters an epoch-boundary block must emit, and the validation-settings update it
activates. -/
def computeBoundaryParameters (sigmaParse : Bytes → Option (RuleStatus × Bytes))
    (voting : VotingConfig) (boundaryHeight : ℕ) (current : Parameters) (tally : List (ℤ × ℕ))
    (boundaryForkVote : Bool) (proposedUpdate : Bytes) :
    Except ChainError (Parameters × ValidationSettingsUpdate) := do
  let parsedUpdate ← parseValidationSettingsUpdate sigmaParse proposedUpdate
  require (0 < voting.votingLength) (.voting "voting_length must be > 0")
  let (table, activated) ← updateFork voting boundaryHeight current tally boundaryForkVote
  let table ← forceVersion2 voting boundaryHeight table
  let table ← updateParams voting boundaryHeight table tally table
  let activatedUpdate := if activated then parsedUpdate else {}
  .ok (insertSubblocks activatedUpdate table, activatedUpdate)

/-- `t` has every entry of `s` apart from the two soft-fork counters. -/
def Parameters.Keeps (s t : Parameters) : Prop :=
  ∀ p, p ≠ .softForkVotesCollected → p ≠ .softForkStartingHeight →
    (s.get p).isSome → (t.get p).isSome

namespace Parameters.Keeps

variable {s t u : Parameters}

lemma refl (s : Parameters) : s.Keeps s := fun _ _ _ h => h

lemma insert (h : s.Keeps t) (p : Parameter) (v : ℤ) : s.Keeps (t.insert p v) :=
  fun q hq hq' hs => isSome_get_insert (h q hq hq' hs)

lemma remove {p : Parameter} (h : s.Keeps t)
    (hp : p = .softForkVotesCollected ∨ p = .softForkStartingHeight) : s.Keeps (t.remove p) := by
  intro q hq hq' hs
  have hne : q ≠ p := by
    rcases hp with rfl | rfl
    · exact hq
    · exact hq'
  rw [get_remove, if_neg hne]
  exact h q hq hq' hs

lemma ite {c : Prop} [Decidable c] (ht : s.Keeps t) (hu : s.Keeps u) :
    s.Keeps (if c then t else u) := by
  split
  · exact ht
  · exact hu

end Parameters.Keeps

/-! ### What a boundary writes -/

def IsForkEntry (p : Parameter) : Prop :=
  p = .softForkVotesCollected ∨ p = .softForkStartingHeight ∨ p = .blockVersion

lemma ne_of_ordinaryParam {id : ℤ} {p q : Parameter} (hid : ordinaryParam id = some p)
    (hfork : IsForkEntry q) : p ≠ q := by
  unfold ordinaryParam at hid
  split at hid
  all_goals cases hid
  all_goals rcases hfork with rfl | rfl | rfl <;> decide

/-- A property of tables that no write to the block version and the two counters destroys. -/
structure ForkStable (P : Parameters → Prop) : Prop where
  insert : ∀ {t p}, P t → IsForkEntry p → ∀ v, P (t.insert p v)
  remove : ∀ {t p}, P t → p = .softForkVotesCollected ∨ p = .softForkStartingHeight → P (t.remove p)

/-- A property of tables that survives the writes of the soft-fork part, whose values are all cut to
32 bits. -/
structure WrapStable (P : Parameters → Prop) : Prop where
  insert : ∀ {t p}, P t → IsForkEntry p → ∀ x, P (t.insert p (wrapI32 x))
  remove : ∀ {t p}, P t → p = .softForkVotesCollected ∨ p = .softForkStartingHeight → P (t.remove p)

namespace WrapStable

variable {P : Parameters → Prop} {voting : VotingConfig} {boundary : ℕ} {current t table : Parameters}
  {tally : List (ℤ × ℕ)} {forkVote activated : Bool} {e : ChainError}

lemma ite {c : Prop} [Decidable c] {u : Parameters} (ht : P t) (hu : P u) :
    P (if c then t else u) := by
  split
  · exact ht
  · exact hu

lemma clear (hP : WrapStable P) (ht : P t) :
    P ((t.remove .softForkStartingHeight).remove .softForkVotesCollected) :=
  hP.remove (hP.remove ht (.inr rfl)) (.inl rfl)

lemma restart (hP : WrapStable P) (ht : P t) (x : ℤ) :
    P ((t.insert .softForkStartingHeight (wrapI32 x)).insert .softForkVotesCollected 0) :=
  hP.insert (hP.insert ht (.inr (.inl rfl)) x) (.inl rfl) 0

lemma activate (hP : WrapStable P) {atActivation : Option Bool} (ht : P t)
    (h : (if atActivation = some true then
        match t.get .blockVersion with
        | some bv => .ok (t.insert .blockVersion (wrapI32 (bv + 1)), true)
        | none => .error e
      else .ok (t, false)) = Except.ok (table, activated)) : P table := by
  split at h
  · split at h
    · cases h
      exact hP.insert ht (.inr (.inr rfl)) _
    · cases h
  · cases h
    exact ht

lemma updateFork (hP : WrapStable P) (hcurrent : P current)
    (h : updateFork voting boundary current tally forkVote = .ok (table, activated)) : P table := by
  unfold ErgoNode.updateFork at h
  split at h
  · simp only [bind_eq_ok] at h
    obtain ⟨atSuccess, -, atFail, -, failed, -, h⟩ := h
    -- cleanup and restart only touch the counters; what follows inserts
    have hsuccess := ite (c := atSuccess = some true) (hP.clear hcurrent) hcurrent
    have hfail := ite (c := atFail = some false) (hP.clear hsuccess) hsuccess
    have hrestarted : ∀ again : Bool, P (if again = true then _ else _) :=
      fun again => ite (hP.restart hfail boundary) hfail
    split at h
    · obtain ⟨t, ht, h⟩ := bind_eq_ok.1 h
      obtain ⟨atActivation, -, h⟩ := bind_eq_ok.1 h
      obtain ⟨votes, hvotes, rfl⟩ := map_eq_ok.1 ht
      split at hvotes
      · obtain rfl := Except.ok.inj hvotes
        exact hP.activate (hP.insert (hrestarted _) (.inl rfl) _) h
      · cases hvotes
    · obtain ⟨t, ht, h⟩ := bind_eq_ok.1 h
      obtain ⟨atActivation, -, h⟩ := bind_eq_ok.1 h
      cases ht
      exact hP.activate (hrestarted _) h
  · split at h
    · cases h
      exact hP.restart hcurrent _
    · cases h
      exact hcurrent

lemma forceVersion2 (hP : WrapStable P) (ht : P t)
    (h : forceVersion2 voting boundary t = .ok table) : P table := by
  unfold ErgoNode.forceVersion2 at h
  split at h
  · split at h
    · cases h
      exact ite (hP.insert ht (.inr (.inr rfl)) 2) ht
    · cases h
  · cases h
    exact ht

end WrapStable

lemma ForkStable.wrapStable {P : Parameters → Prop} (hP : ForkStable P) : WrapStable P :=
  ⟨fun ht hp x => hP.insert ht hp (wrapI32 x), hP.remove⟩

lemma Parameters.Keeps.forkStable (s : Parameters) : ForkStable s.Keeps :=
  ⟨fun ht _ _ => ht.insert _ _, fun ht hp => ht.remove hp⟩

lemma keeps_updateParams {voting : VotingConfig} {boundary : ℕ} {current base t table : Parameters}
    {tally : List (ℤ × ℕ)} (ht : current.Keeps t)
    (h : updateParams voting boundary base tally t = .ok table) : current.Keeps table := by
  induction tally generalizing t with
  | nil =>
    cases h
    exact ht
  | cons vote tally ih =>
    rw [updateParams] at h
    split at h
    · exact ih ht h
    · split at h
      · cases h
      · split at h
        · cases h
        · exact ih (ht.insert _ _) h

variable {update : ValidationSettingsUpdate}

lemma keeps_insertSubblocks {current t : Parameters} (ht : current.Keeps t) :
    current.Keeps (insertSubblocks update t) :=
  (ht.insert _ _).ite ht

/-- **A boundary only ever removes the two soft-fork counters.** -/
theorem keeps_computeBoundaryParameters {sigmaParse : Bytes → Option (RuleStatus × Bytes)}
    {voting : VotingConfig} {boundary : ℕ} {current table : Parameters} {tally : List (ℤ × ℕ)}
    {forkVote : Bool} {proposedUpdate : Bytes}
    (h : computeBoundaryParameters sigmaParse voting boundary current tally forkVote
      proposedUpdate = .ok (table, update)) : current.Keeps table := by
  unfold computeBoundaryParameters at h
  simp only [bind_eq_ok] at h
  obtain ⟨_, -, _, -, ⟨t₁, activated⟩, hfork, t₂, hversion, t₃, hparams, h⟩ := h
  cases h
  have hstable := (Parameters.Keeps.forkStable current).wrapStable
  have hbase := hstable.forceVersion2 (hstable.updateFork (.refl current) hfork) hversion
  exact keeps_insertSubblocks (keeps_updateParams hbase hparams)

/-! ## Header-level vote checks -/

/-- The fork-vote gate: no fork votes while the round is closing or activating. -/
def checkForkVote (voting : VotingConfig) (headerHeight : ℕ) (headerVotes : Votes)
    (current : Parameters) : Except ChainError Bool :=
  if (120 : UInt8) ∉ headerVotes.toList then .ok true
  else match current.get .softForkStartingHeight with
  | none => .ok true
  | some start =>
    match current.get .softForkVotesCollected with
    | none => .error (.voting s!"SoftForkVotesCollected (121) absent with SoftForkStartingHeight present at height {headerHeight} (JVM checkForkVote `.get` throw)")
    | some collected =>
      let approved := voting.softForkApproved collected
      let h : ℤ := headerHeight
      let l : ℤ := voting.votingLength
      let finishing := start + l * voting.softForkEpochs
      let afterActivation := finishing + l * (voting.activationEpochs + 1)
      if (finishing ≤ h ∧ h < finishing + l ∧ !approved) ∨
          (finishing ≤ h ∧ h < afterActivation ∧ approved) then .ok false
      else .ok true

/-- Negation of a signed byte, wrapping: `-128` is its own negation. -/
def wrappingNegI8 (v : ℤ) : ℤ := (-v).bmod (2 ^ 8)

/-- Rules 212 to 214 on the three vote slots: at most two ordinary votes, none twice, none
together with its negation. -/
def checkHeaderVotes (votes : Votes) : Except ChainError Unit := do
  let vs := (votes.toList.filter (· ≠ 0)).map i8OfByte
  let votesCount := (vs.filter (· ≠ softForkVote)).length
  require (votesCount ≤ paramVotesCount)
    (.voting s!"hdrVotesNumber (212): {votesCount} ordinary votes exceed ParamVotesCount=2 (votes={vs})")
  vs.forM fun v => do
    require (vs.count v = 1)
      (.voting s!"hdrVotesDuplicates (213): id {v} appears more than once (votes={vs})")
    require (wrappingNegI8 v ∉ vs)
      (.voting s!"hdrVotesContradictory (214): id {v} present with its negation (votes={vs})")

end ErgoNode
