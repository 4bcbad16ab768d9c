import Mathlib.Tactic.Linarith
import ErgoNode.Chain.ParameterRanges

/-!
# The life of a soft-fork round

A round of soft-fork voting is two entries of the parameters table: its start and its votes. It
starts at a boundary whose header votes for a fork, counts for the voting epochs, and is removed one
epoch later when it failed, or one epoch after its activation. A round that is not removed at one of
these two heights is never removed. The fork-vote gate excludes that: no header votes for a fork
from the last counting boundary on. `Phase` is the invariant of the boundaries.
-/

namespace ErgoNode

open Parameters

/-! ## Chains of headers -/

section Chain

variable (sigmaParse : Bytes → Option (RuleStatus × Bytes)) (voting : VotingConfig)
  (network : Network) (votes : ℕ → Votes) (updates : ℕ → Bytes)

def ForkVote (v : Votes) : Prop := (120 : UInt8) ∈ v.toList

instance (v : Votes) : Decidable (ForkVote v) := inferInstanceAs (Decidable (_ ∈ _))

def epochTally (boundary : ℕ) : List (ℤ × ℕ) :=
  let start := max (boundary - voting.votingLength) 1
  tallyVotesSeeded ((List.range' start (boundary - start)).map (fun h => (h, votes h))) boundary
    voting.votingLength

/-- The table in force after `k` boundaries of a chain with the given votes and proposed updates. -/
def tableAfter : ℕ → Except ChainError Parameters
  | 0 => .ok (defaultParameters network)
  | k + 1 => do
    let current ← tableAfter k
    let boundary := (k + 1) * voting.votingLength
    let (next, _) ← computeBoundaryParameters sigmaParse voting boundary current
      (epochTally voting votes boundary) (ForkVote (votes boundary)) (updates (k + 1))
    .ok next

/-- The headers of the first `n` epochs pass the fork-vote gate under the tables in force. -/
def ForkVotesPass (n : ℕ) : Prop :=
  ∀ k < n, ∀ t, tableAfter sigmaParse voting network votes updates k = .ok t →
    ∀ i < voting.votingLength, checkForkVote voting (k * voting.votingLength + (i + 1))
      (votes (k * voting.votingLength + (i + 1))) t = .ok true

instance (n : ℕ) : Decidable (ForkVotesPass sigmaParse voting network votes updates n) :=
  decidable_of_iff (∀ k < n, ∀ t ∈ (tableAfter sigmaParse voting network votes updates k).toOption,
      ∀ i < voting.votingLength, checkForkVote voting (k * voting.votingLength + (i + 1))
        (votes (k * voting.votingLength + (i + 1))) t = .ok true)
    ⟨fun h k hk t ht => h k hk t (toOption_eq_some_iff.2 ht),
      fun h k hk t ht => h k hk t (toOption_eq_some_iff.1 ht)⟩

/-- What holds of the table after the boundary at a height. -/
structure Lifecycle (height : ℕ) (t : Parameters) : Prop where
  counters : (t.get .softForkStartingHeight).isSome ↔ (t.get .softForkVotesCollected).isSome
  aligned : ∀ start ∈ t.get .softForkStartingHeight, (voting.votingLength : ℤ) ∣ start
  ends : ∀ start ∈ t.get .softForkStartingHeight, (height : ℤ) <
    start + voting.votingLength * (voting.softForkEpochs + voting.activationEpochs + 1)

/-- The activation boundary of an approved round: the version goes up by one. -/
def Activates (height : ℕ) (t t' : Parameters) : Prop :=
  ∃ start collected version, t.get .softForkStartingHeight = some start ∧
    (height : ℤ) = start + voting.votingLength * (voting.softForkEpochs + voting.activationEpochs) ∧
    t'.get .softForkVotesCollected = some collected ∧ voting.softForkApproved collected = true ∧
    t.get .blockVersion = some version ∧ t'.get .blockVersion = some (version + 1)

def ForcesVersion2 (height : ℕ) (t t' : Parameters) : Prop :=
  height = voting.version2ActivationHeight ∧ t.get .blockVersion = some 1 ∧
    t'.get .blockVersion = some 2

def VersionStep (height : ℕ) (t t' : Parameters) : Prop :=
  t'.get .blockVersion = t.get .blockVersion ∨ Activates voting height t t' ∨
    ForcesVersion2 voting height t t'

/-- Where the table is in the life of a round. A round takes at least two epochs. -/
inductive Phase (k : ℕ) (t : Parameters) : Prop
  | idle (version : ℤ) (hstart : t.get .softForkStartingHeight = none)
      (hcollected : t.get .softForkVotesCollected = none)
      (hversion : t.get .blockVersion = some version) (hpos : 1 ≤ version)
      (hbound : 2 * version ≤ 8 + k)
  /-- A round that started at boundary `s`. -/
  | round (s : ℕ) (collected version : ℤ) (hlength : 0 < voting.votingLength)
      (hstart : t.get .softForkStartingHeight = some (s * voting.votingLength : ℕ))
      (hcollected : t.get .softForkVotesCollected = some collected)
      (hwrap : wrapI32 collected = collected)
      (hle : s ≤ k) (hk : k ≤ s + voting.softForkEpochs + voting.activationEpochs)
      (hquiet : s + voting.softForkEpochs ≤ k → ¬ForkVote (votes (k * voting.votingLength)))
      (happroved : s + voting.softForkEpochs < k → voting.softForkApproved collected = true)
      (hversion : t.get .blockVersion = some version) (hpos : 1 ≤ version)
      (hbound : 2 * version ≤
        if k < s + voting.softForkEpochs + voting.activationEpochs then 8 + (s : ℤ) else 10 + s)

end Chain

/-! ## Votes and the gate -/

section Votes

variable {voting : VotingConfig} {votes : ℕ → Votes}

lemma i8OfByte_eq_softForkVote {slot : UInt8} (h : i8OfByte slot = softForkVote) : slot = 120 := by
  unfold i8OfByte softForkVote at h
  have hlt := slot.toNat_lt
  split at h
  · exact UInt8.toNat_inj.1 (by simpa using (by omega : slot.toNat = 120))
  · omega

lemma ids_countVotes (slots : List UInt8) (tally : List (ℤ × ℕ)) :
    (slots.foldl (fun tally slot =>
      tally.map fun e => if e.1 = i8OfByte slot then (e.1, e.2 + 1) else e) tally).map Prod.fst =
        tally.map Prod.fst := by
  induction slots generalizing tally with
  | nil => rfl
  | cons slot slots ih =>
    rw [List.foldl_cons, ih, List.map_map]
    refine List.map_congr_left (fun e _ => ?_)
    show (if e.1 = i8OfByte slot then (e.1, e.2 + 1) else e).1 = e.1
    split <;> rfl

lemma seed_of_mem_tallyVotesSeeded {window : List (ℕ × Votes)} {boundary length : ℕ} {e : ℤ × ℕ}
    (he : e ∈ tallyVotesSeeded window boundary length) :
    ∃ seed ∈ window, seed.1 = boundary - length ∧ ∃ slot ∈ seed.2.toList, i8OfByte slot = e.1 := by
  unfold tallyVotesSeeded at he
  split at he
  · simp at he
  next seedHeight seedVotes rest =>
    split at he
    · simp at he
    next hseed =>
      have hheight : seedHeight = boundary - length := by
        by_contra hne
        exact hseed (.inr (Ne.symm hne))
      have hid := List.mem_map_of_mem (f := Prod.fst) he
      rw [ids_countVotes, List.map_map] at hid
      obtain ⟨slot, hslot, heq⟩ := List.mem_map.1 hid
      exact ⟨(seedHeight, seedVotes), List.mem_cons_self, hheight, slot,
        (List.mem_filter.1 hslot).1, heq⟩

lemma find?_epochTally {boundary : ℕ}
    (hquiet : ¬ForkVote (votes (boundary - voting.votingLength))) :
    (epochTally voting votes boundary).find? (fun e => e.1 = softForkVote) = none := by
  rw [List.find?_eq_none]
  intro e he hfork
  obtain ⟨seed, hseed, hheight, slot, hslot, heq⟩ := seed_of_mem_tallyVotesSeeded he
  obtain ⟨h, -, rfl⟩ := List.mem_map.1 hseed
  obtain rfl := i8OfByte_eq_softForkVote (heq.trans (of_decide_eq_true hfork))
  exact hquiet (hheight ▸ hslot)

/-- A header that passes the gate does not vote for a fork while the round is closing. -/
theorem not_forkVote_of_checkForkVote {height : ℕ} {v : Votes} {t : Parameters} {start collected : ℤ}
    (h : checkForkVote voting height v t = .ok true)
    (hstart : t.get .softForkStartingHeight = some start)
    (hcollected : t.get .softForkVotesCollected = some collected)
    (hfinishing : start + voting.votingLength * voting.softForkEpochs ≤ height)
    (hwindow : height < start + voting.votingLength * voting.softForkEpochs + voting.votingLength ∨
      voting.softForkApproved collected = true ∧
        height < start + voting.votingLength * voting.softForkEpochs +
          voting.votingLength * (voting.activationEpochs + 1)) : ¬ForkVote v := by
  intro hvote
  unfold ForkVote at hvote
  rw [checkForkVote, if_neg (not_not_intro hvote)] at h
  simp only [hstart, hcollected] at h
  split at h
  · cases h
  next hpass =>
    refine hpass ?_
    have hnonneg : (0 : ℤ) ≤ voting.votingLength * voting.activationEpochs :=
      Int.mul_nonneg (Int.natCast_nonneg _) (Int.natCast_nonneg _)
    rw [mul_add, mul_one] at hwindow ⊢
    cases happroved : voting.softForkApproved collected with
    | true =>
      right
      refine ⟨hfinishing, ?_, rfl⟩
      omega
    | false =>
      left
      refine ⟨hfinishing, ?_, rfl⟩
      rcases hwindow with hlt | ⟨htrue, -⟩
      · exact hlt
      · cases happroved.symm.trans htrue

end Votes

/-! ## One boundary -/

section Boundary

variable {voting : VotingConfig} {boundary j : ℕ} {current : Parameters} {tally : List (ℤ × ℕ)}
  {forkVote : Bool} {start collected version : ℤ} {p : Parameter}

def roundTotal (tally : List (ℤ × ℕ)) (collected : ℤ) : ℤ :=
  wrapI32 (wrapI32 (((tally.find? (fun e => e.1 = softForkVote)).map Prod.snd).getD 0 : ℕ) + collected)

lemma roundTotal_of_find?_eq_none
    (h : tally.find? (fun e => e.1 = softForkVote) = none) (hwrap : wrapI32 collected = collected) :
    roundTotal tally collected = collected := by
  rw [roundTotal, h]
  show wrapI32 (wrapI32 0 + collected) = collected
  rw [show wrapI32 0 = 0 from rfl, zero_add, hwrap]

lemma wrapI32_roundTotal : wrapI32 (roundTotal tally collected) = roundTotal tally collected := by
  unfold roundTotal wrapI32
  rw [Int.bmod_bmod]

def cleared (t : Parameters) : Parameters :=
  (t.remove .softForkStartingHeight).remove .softForkVotesCollected

def started (t : Parameters) (boundary : ℕ) : Parameters :=
  (t.insert .softForkStartingHeight (wrapI32 boundary)).insert .softForkVotesCollected 0

def raised (voting : VotingConfig) (j : ℕ) (total version : ℤ) (t : Parameters) : Parameters :=
  if j = voting.softForkEpochs + voting.activationEpochs ∧ voting.softForkApproved total = true then
    t.insert .blockVersion (wrapI32 (version + 1))
  else t

def counted (voting : VotingConfig) (j : ℕ) (total : ℤ) (t : Parameters) : Parameters :=
  if j ≤ voting.softForkEpochs then t.insert .softForkVotesCollected total else t

lemma get_counted (voting : VotingConfig) (j : ℕ) (total : ℤ) (t : Parameters)
    (hp : p ≠ .softForkVotesCollected) : (counted voting j total t).get p = t.get p := by
  unfold counted
  split
  · rw [get_insert, if_neg hp]
  · rfl

lemma get_raised (voting : VotingConfig) (j : ℕ) (total version : ℤ) (t : Parameters)
    (hp : p ≠ .blockVersion) : (raised voting j total version t).get p = t.get p := by
  unfold raised
  split
  · rw [get_insert, if_neg hp]
  · rfl

section Round

variable (hL : 0 < voting.votingLength)
  (hstart : current.get .softForkStartingHeight = some start)
  (hcollected : current.get .softForkVotesCollected = some collected)
  (hboundary : (boundary : ℤ) = start + voting.votingLength * j)

include hL hboundary

lemma boundary_eq_iff (n : ℤ) :
    (boundary : ℤ) = start + voting.votingLength * n ↔ (j : ℤ) = n := by
  have hL' : (0 : ℤ) < voting.votingLength := by exact_mod_cast hL
  rw [hboundary, add_right_inj, mul_right_inj' hL'.ne']

lemma boundary_le_iff (n : ℤ) :
    (boundary : ℤ) ≤ start + voting.votingLength * n ↔ (j : ℤ) ≤ n := by
  have hL' : (0 : ℤ) < voting.votingLength := by exact_mod_cast hL
  rw [hboundary, add_le_add_iff_left, mul_le_mul_iff_right₀ hL']

include hstart hcollected

/-- The same for a boundary header, up to the activation boundary of an approved round. -/
theorem not_forkVote_of_gate {v : Votes} (hgate : checkForkVote voting boundary v current = .ok true)
    (hlate : voting.softForkEpochs ≤ j)
    (hwindow : j = voting.softForkEpochs ∨ voting.softForkApproved collected = true ∧
      j ≤ voting.softForkEpochs + voting.activationEpochs) : ¬ForkVote v := by
  have hL' : (0 : ℤ) < voting.votingLength := by exact_mod_cast hL
  refine not_forkVote_of_checkForkVote hgate hstart hcollected ?_ ?_
  · rw [hboundary]
    exact Int.add_le_add_left (Int.mul_le_mul_of_nonneg_left (by exact_mod_cast hlate) hL'.le) _
  · rcases hwindow with rfl | ⟨happroved, hj⟩
    · left
      omega
    · right
      have hmul : (voting.votingLength : ℤ) * j ≤
          voting.votingLength * (voting.softForkEpochs + voting.activationEpochs) :=
        Int.mul_le_mul_of_nonneg_left (by exact_mod_cast hj) hL'.le
      refine ⟨happroved, ?_⟩
      rw [hboundary, mul_add, mul_one]
      rw [mul_add] at hmul
      omega

/-- A boundary at which the round goes on: votes are counted, or an approved round is activated. -/
theorem updateFork_goesOn (hversion : current.get .blockVersion = some version)
    (hgo : j ≤ voting.softForkEpochs ∨ j ≤ voting.softForkEpochs + voting.activationEpochs ∧
      voting.softForkApproved (roundTotal tally collected) = true) :
    updateFork voting boundary current tally forkVote =
      .ok (raised voting j (roundTotal tally collected) version
          (counted voting j (roundTotal tally collected) current),
        decide (j = voting.softForkEpochs + voting.activationEpochs ∧
          voting.softForkApproved (roundTotal tally collected) = true)) := by
  have hsuccess : ¬(j : ℤ) = voting.softForkEpochs + voting.activationEpochs + 1 := by omega
  have hfail : ¬((j : ℤ) = voting.softForkEpochs + 1 ∧
      voting.softForkApproved (roundTotal tally collected) = false) := by
    rintro ⟨hj, hnot⟩
    rcases hgo with hle | ⟨-, happroved⟩
    · omega
    · cases hnot.symm.trans happroved
  have hactivation : (j : ℤ) = voting.softForkEpochs + voting.activationEpochs ↔
      j = voting.softForkEpochs + voting.activationEpochs := by omega
  have hmid : (j : ℤ) ≤ voting.softForkEpochs ↔ j ≤ voting.softForkEpochs := by omega
  have htotal : wrapI32 (wrapI32 (((tally.find? (fun e => e.1 = softForkVote)).map
    Prod.snd).getD 0 : ℕ) + collected) = roundTotal tally collected := rfl
  have hcounted : ∀ v, (current.insert .softForkVotesCollected v).get .blockVersion = some version :=
    fun _ => hversion
  unfold raised counted
  generalize roundTotal tally collected = total at *
  unfold updateFork
  simp only [hstart, hcollected, htotal, bne, beq_eq_decide, boundary_eq_iff hL hboundary,
    boundary_le_iff hL hboundary, hsuccess, hactivation, hmid, Except.map, decide_false, Bool.false_or,
    Bool.not_false, Bool.and_true, Bool.false_eq_true, if_false, ok_bind, reduceCtorEq, ite_ok,
    decide_eq_true_eq, Bool.and_eq_true, Option.ite_none_right_eq_some, Option.some.injEq, and_assoc,
    hfail, and_false]
  by_cases hj : j ≤ voting.softForkEpochs
  · simp only [if_pos hj, hcounted]
    split <;> simp_all
  · simp only [if_neg hj, hversion]
    split <;> simp_all

/-- A boundary at which the round ends. A fork vote of its header starts the next round. -/
theorem updateFork_ends (hend : j = voting.softForkEpochs + 1 ∧
        voting.softForkApproved (roundTotal tally collected) = false ∨
      j = voting.softForkEpochs + voting.activationEpochs + 1 ∧
        voting.softForkApproved (roundTotal tally collected) = true) :
    updateFork voting boundary current tally forkVote =
      .ok (if forkVote then started (cleared current) boundary else cleared current, false) := by
  have hmid : ¬(j : ℤ) ≤ voting.softForkEpochs := by omega
  have hactivation : ¬((j : ℤ) = voting.softForkEpochs + voting.activationEpochs ∧
      voting.softForkApproved (roundTotal tally collected) = true) := by
    rintro ⟨hj, happroved⟩
    rcases hend with ⟨-, hnot⟩ | ⟨hj', -⟩
    · cases happroved.symm.trans hnot
    · omega
  have htotal : wrapI32 (wrapI32 (((tally.find? (fun e => e.1 = softForkVote)).map
    Prod.snd).getD 0 : ℕ) + collected) = roundTotal tally collected := rfl
  generalize roundTotal tally collected = total at *
  unfold updateFork
  simp only [hstart, hcollected, htotal, bne, beq_eq_decide, boundary_eq_iff hL hboundary,
    boundary_le_iff hL hboundary, hmid, Except.map, if_false, ok_bind, ite_ok, decide_eq_true_eq,
    Bool.and_eq_true, Option.ite_none_right_eq_some, Option.some.injEq, hactivation,
    Bool.not_eq_true', decide_eq_false_iff_not, Bool.or_eq_true]
  rcases hend with ⟨hj, happroved⟩ | ⟨hj, happroved⟩
  · have hj' : (j : ℤ) = voting.softForkEpochs + 1 := by omega
    by_cases hae : voting.activationEpochs = 0
    · simp [hj', happroved, hae, started, cleared]
    · cases forkVote <;> simp [hj', happroved, hae, started, cleared]
  · have hj' : (j : ℤ) = voting.softForkEpochs + voting.activationEpochs + 1 := by omega
    simp [hj', happroved, started, cleared]

end Round

lemma updateFork_idle (hstart : current.get .softForkStartingHeight = none) (k : ℕ) :
    updateFork voting (k * voting.votingLength) current tally forkVote =
      .ok (if forkVote then started current (k * voting.votingLength) else current, false) := by
  unfold updateFork
  simp only [hstart, Nat.mul_mod_left, and_true, started]
  split <;> rfl

lemma get_updateParams {base t table : Parameters} (hp : IsForkEntry p)
    (h : updateParams voting boundary base tally t = .ok table) : table.get p = t.get p := by
  induction tally generalizing t with
  | nil =>
    cases h
    rfl
  | cons vote tally ih =>
    rw [updateParams] at h
    split at h
    · exact ih h
    · split at h
      · cases h
      next q hid =>
        split at h
        · cases h
        · rw [ih h, get_insert, if_neg (ne_of_ordinaryParam hid hp).symm]

variable {update : ValidationSettingsUpdate}

lemma get_insertSubblocks {t : Parameters} (hp : IsForkEntry p) :
    (insertSubblocks update t).get p = t.get p := by
  unfold insertSubblocks
  split
  · have hid : ordinaryParam 9 = some .subblocksPerBlock := rfl
    rw [get_insert, if_neg (ne_of_ordinaryParam hid hp).symm]
  · rfl

lemma forceVersion2_eq_ok {t table : Parameters} (h : forceVersion2 voting boundary t = .ok table) :
    (∀ p, p ≠ .blockVersion → table.get p = t.get p) ∧
      ∀ v, t.get .blockVersion = some v → table.get .blockVersion =
        some (if boundary = voting.version2ActivationHeight ∧ v = 1 then 2 else v) := by
  unfold forceVersion2 at h
  split at h
  next hforced =>
    split at h
    next version hversion =>
      cases h
      refine ⟨?_, ?_⟩
      · intro p hp
        split
        · rw [get_insert, if_neg hp]
        · rfl
      · intro v hv
        cases hversion.symm.trans hv
        simp only [hforced, true_and]
        split
        · rfl
        · exact hv
    · cases h
  next hforced =>
    cases h
    refine ⟨fun _ _ => rfl, ?_⟩
    intro v hv
    rwa [if_neg (fun hboth => hforced hboth.1)]

lemma get_computeBoundaryParameters {sigmaParse : Bytes → Option (RuleStatus × Bytes)}
    {proposedUpdate : Bytes} {next : Parameters}
    (h : computeBoundaryParameters sigmaParse voting boundary current tally forkVote proposedUpdate =
      .ok (next, update)) :
    0 < voting.votingLength ∧ ∃ table activated,
      updateFork voting boundary current tally forkVote = .ok (table, activated) ∧
      next.get .softForkStartingHeight = table.get .softForkStartingHeight ∧
      next.get .softForkVotesCollected = table.get .softForkVotesCollected ∧
      ∀ v, table.get .blockVersion = some v → next.get .blockVersion =
        some (if boundary = voting.version2ActivationHeight ∧ v = 1 then 2 else v) := by
  unfold computeBoundaryParameters at h
  simp only [bind_eq_ok] at h
  obtain ⟨_, -, _, hL, ⟨t₁, activated⟩, hfork, t₂, hforced, t₃, hparams, h⟩ := h
  cases h
  have hsame : ∀ {u p}, IsForkEntry p → (insertSubblocks u t₃).get p = t₂.get p :=
    fun hp => (get_insertSubblocks hp).trans (get_updateParams hp hparams)
  refine ⟨require_eq_ok.1 hL, t₁, activated, hfork, ?_, ?_, ?_⟩
  · rw [hsame (.inr (.inl rfl))]
    exact (forceVersion2_eq_ok hforced).1 _ (by decide)
  · rw [hsame (.inl rfl)]
    exact (forceVersion2_eq_ok hforced).1 _ (by decide)
  · intro v hv
    rw [hsame (.inr (.inr rfl))]
    exact (forceVersion2_eq_ok hforced).2 v hv

end Boundary

/-! ## The phases -/

section Phase

variable {sigmaParse : Bytes → Option (RuleStatus × Bytes)} {voting : VotingConfig}
  {network : Network} {votes : ℕ → Votes} {updates : ℕ → Bytes} {k : ℕ} {t t' : Parameters}

lemma phase_defaultParameters : Phase voting votes 0 (defaultParameters network) := by
  cases network with
  | mainnet => exact .idle 1 rfl rfl rfl (by omega) (by omega)
  | testnet => exact .idle 4 rfl rfl rfl (by omega) (by omega)

lemma phase_of_cleared {version : ℤ} {forkVote : Bool} (hepochs : 0 < voting.softForkEpochs)
    (hL : 0 < voting.votingLength)
    (hheight : (k + 1) * voting.votingLength < 2 ^ 31)
    (hstart : t.get .softForkStartingHeight = none) (hcollected : t.get .softForkVotesCollected = none)
    (hversion : t.get .blockVersion = some version) (hpos : 1 ≤ version)
    (hbound : 2 * version ≤ 8 + (k + 1 : ℕ)) :
    Phase voting votes (k + 1)
      (if forkVote then started t ((k + 1) * voting.votingLength) else t) := by
  split
  · have hfits : wrapI32 ((k + 1) * voting.votingLength : ℕ) = ((k + 1) * voting.votingLength : ℕ) :=
      wrapI32_eq_self ⟨by omega, by omega⟩
    refine .round (k + 1) 0 version hL (congrArg some hfits) rfl rfl le_rfl (by omega) (by omega)
      (by omega) hversion hpos ?_
    rwa [if_pos (by omega)]
  · exact .idle version hstart hcollected hversion hpos hbound

/-- A boundary at which a round goes on keeps it in its phase. -/
theorem phase_of_goesOn {s j : ℕ} {total version : ℤ} (hL : 0 < voting.votingLength)
    (hstart : t.get .softForkStartingHeight = some (s * voting.votingLength : ℕ))
    (hcollected : t.get .softForkVotesCollected = some total) (hwrap : wrapI32 total = total)
    (hversion : t.get .blockVersion = some version) (hpos : 1 ≤ version)
    (hbound : 2 * version ≤ 8 + s) (hj : k + 1 = s + j)
    (hlast : j ≤ voting.softForkEpochs + voting.activationEpochs) (hfits : FitsI32 (version + 1))
    (hquiet : voting.softForkEpochs ≤ j → ¬ForkVote (votes ((k + 1) * voting.votingLength)))
    (happroved : voting.softForkEpochs < j → voting.softForkApproved total = true) :
    Phase voting votes (k + 1) (raised voting j total version t) ∧
      ((raised voting j total version t).get .blockVersion = some version ∨
        (j = voting.softForkEpochs + voting.activationEpochs ∧
          voting.softForkApproved total = true) ∧
          (raised voting j total version t).get .blockVersion = some (version + 1)) := by
  have hround : ∀ v, 1 ≤ v → (2 * v ≤ if k + 1 < s + voting.softForkEpochs + voting.activationEpochs
      then 8 + (s : ℤ) else 10 + s) → ∀ t' : Parameters, (∀ p, p ≠ .blockVersion → t'.get p = t.get p) →
      t'.get .blockVersion = some v → Phase voting votes (k + 1) t' := by
    intro v hv hbound' t' hsame hversion'
    refine .round s total v hL ((hsame _ (by decide)).trans hstart)
      ((hsame _ (by decide)).trans hcollected) hwrap (by omega) (by omega) ?_ ?_ hversion' hv hbound'
    · intro hlate
      exact hquiet (by omega)
    · intro hlate
      exact happroved (by omega)
  unfold raised
  split
  next hactivates =>
    have hraised : (t.insert .blockVersion (wrapI32 (version + 1))).get .blockVersion =
        some (version + 1) := congrArg some (wrapI32_eq_self hfits)
    refine ⟨hround (version + 1) (by omega) ?_ _ (fun p hp => ?_) hraised, .inr ⟨hactivates, hraised⟩⟩
    · rw [if_neg (by omega)]
      omega
    · rw [get_insert, if_neg hp]
  · refine ⟨hround version hpos ?_ t (fun _ _ => rfl) hversion, .inl hversion⟩
    split <;> omega

lemma Phase.updateFork {activated : Bool} (hepochs : 0 < voting.softForkEpochs)
    (hL : 0 < voting.votingLength) (hheight : (k + 1) * voting.votingLength < 2 ^ 31)
    (hphase : Phase voting votes k t)
    (hgate : checkForkVote voting ((k + 1) * voting.votingLength)
      (votes ((k + 1) * voting.votingLength)) t = .ok true)
    (h : updateFork voting ((k + 1) * voting.votingLength) t
      (epochTally voting votes ((k + 1) * voting.votingLength))
      (ForkVote (votes ((k + 1) * voting.votingLength))) = .ok (t', activated)) :
    Phase voting votes (k + 1) t' ∧ (t'.get .blockVersion = t.get .blockVersion ∨
      Activates voting ((k + 1) * voting.votingLength) t t') := by
  cases hphase with
  | idle version hstart hcollected hversion hpos hbound =>
    rw [updateFork_idle hstart] at h
    cases h
    refine ⟨phase_of_cleared hepochs hL hheight hstart hcollected hversion hpos (by omega), .inl ?_⟩
    split <;> rfl
  | round s collected version hlength hstart hcollected hwrap hle hk hquiet happroved hversion hpos hbound =>
    obtain ⟨j, hj⟩ : ∃ j, k + 1 = s + j := ⟨k + 1 - s, by omega⟩
    have hboundary : (((k + 1) * voting.votingLength : ℕ) : ℤ) =
        (s * voting.votingLength : ℕ) + voting.votingLength * j := by
      rw [hj]
      push_cast
      ring
    have hgate' := not_forkVote_of_gate hL hstart hcollected hboundary hgate
    -- after the voting epochs nothing is added to the total
    have htotal : voting.softForkEpochs < j →
        roundTotal (epochTally voting votes ((k + 1) * voting.votingLength)) collected = collected := by
      intro hlate
      refine roundTotal_of_find?_eq_none (find?_epochTally ?_) hwrap
      rw [Nat.succ_mul, Nat.add_sub_cancel]
      exact hquiet (by omega)
    have hwrap' : wrapI32 (roundTotal (epochTally voting votes ((k + 1) * voting.votingLength))
      collected) = _ := wrapI32_roundTotal
    generalize hsum : roundTotal (epochTally voting votes ((k + 1) * voting.votingLength)) collected =
      total at htotal hwrap'
    have hk' : k + 1 ≤ (k + 1) * voting.votingLength := Nat.le_mul_of_pos_right _ hL
    by_cases hgo : j ≤ voting.softForkEpochs ∨ j ≤ voting.softForkEpochs + voting.activationEpochs ∧
      voting.softForkApproved total = true
    · rw [updateFork_goesOn hL hstart hcollected hboundary hversion (hsum.symm ▸ hgo), hsum] at h
      cases h
      have hcollected' : (counted voting j total t).get .softForkVotesCollected = some total := by
        unfold counted
        split
        · rfl
        · rw [hcollected, htotal (by omega)]
      have hlate : voting.softForkEpochs < j → voting.softForkApproved total = true := by
        intro hlt
        rcases hgo with hle' | ⟨-, happroved'⟩
        · omega
        · exact happroved'
      have hquiet' : voting.softForkEpochs ≤ j →
          ¬ForkVote (votes ((k + 1) * voting.votingLength)) := by
        intro hle'
        rcases hle'.eq_or_lt with heq | hlt
        · exact hgate' hle' (.inl heq.symm)
        · exact hgate' hle' (.inr ⟨htotal hlt ▸ hlate hlt, by omega⟩)
      rw [if_pos (by omega)] at hbound
      obtain ⟨hphase, hstep⟩ := phase_of_goesOn hL
        ((get_counted voting j total t (by decide)).trans hstart) hcollected' hwrap'
        ((get_counted voting j total t (by decide)).trans hversion) hpos hbound hj (by omega)
        ⟨by omega, by omega⟩ hquiet' hlate
      refine ⟨hphase, ?_⟩
      rcases hstep with hsame | ⟨⟨hactivation, happroved'⟩, hraised⟩
      · exact .inl (hsame.trans hversion.symm)
      · refine .inr ⟨_, total, version, hstart, ?_, ?_, happroved', hversion, hraised⟩
        · rw [hboundary, hactivation]
          push_cast
          rfl
        · rw [get_raised _ _ _ _ _ (by decide), hcollected']
    · -- the total is final, so the round ends at the one height or at the other
      have hlate : voting.softForkEpochs < j := by omega
      have hend : j = voting.softForkEpochs + 1 ∧ voting.softForkApproved total = false ∨
          j = voting.softForkEpochs + voting.activationEpochs + 1 ∧
            voting.softForkApproved total = true := by
        cases hcase : voting.softForkApproved total with
        | true =>
          right
          have hover : ¬j ≤ voting.softForkEpochs + voting.activationEpochs :=
            fun hle' => hgo (.inr ⟨hle', hcase⟩)
          exact ⟨by omega, rfl⟩
        | false =>
          left
          refine ⟨?_, rfl⟩
          by_contra hne
          have := happroved (by omega)
          rw [← htotal hlate, hcase] at this
          cases this
      rw [updateFork_ends hL hstart hcollected hboundary (hsum.symm ▸ hend)] at h
      cases h
      refine ⟨phase_of_cleared hepochs hL hheight rfl rfl hversion hpos ?_, .inl ?_⟩
      · split at hbound <;> omega
      · split <;> rfl

lemma Phase.force {boundary : ℕ} (hphase : Phase voting votes k t)
    (hstart' : t'.get .softForkStartingHeight = t.get .softForkStartingHeight)
    (hcollected' : t'.get .softForkVotesCollected = t.get .softForkVotesCollected)
    (hversion' : ∀ v, t.get .blockVersion = some v → t'.get .blockVersion =
      some (if boundary = voting.version2ActivationHeight ∧ v = 1 then 2 else v)) :
    Phase voting votes k t' := by
  cases hphase with
  | idle version hstart hcollected hversion hpos hbound =>
    refine .idle _ (hstart'.trans hstart) (hcollected'.trans hcollected) (hversion' _ hversion) ?_ ?_
    · split <;> omega
    · split <;> omega
  | round s collected version hlength hstart hcollected hwrap hle hk hquiet happroved hversion hpos hbound =>
    refine .round s collected _ hlength (hstart'.trans hstart) (hcollected'.trans hcollected) hwrap hle hk
      hquiet happroved (hversion' _ hversion) ?_ ?_
    · split <;> omega
    · split at hbound
      next hlt =>
        rw [if_pos hlt]
        split <;> omega
      next hlt =>
        rw [if_neg hlt]
        split <;> omega

lemma Phase.exists_version (hphase : Phase voting votes k t) :
    ∃ version, t.get .blockVersion = some version ∧ 1 ≤ version := by
  cases hphase with
  | idle version _ _ hversion hpos _ => exact ⟨version, hversion, hpos⟩
  | round _ _ version _ _ _ _ _ _ _ _ hversion hpos _ => exact ⟨version, hversion, hpos⟩

/-- **One boundary** keeps the phases in step, and changes the version by activation or by force
only. -/
theorem Phase.boundary {proposedUpdate : Bytes}
    (hepochs : 0 < voting.softForkEpochs) (hheight : (k + 1) * voting.votingLength < 2 ^ 31)
    (hphase : Phase voting votes k t)
    (hgate : checkForkVote voting ((k + 1) * voting.votingLength)
      (votes ((k + 1) * voting.votingLength)) t = .ok true)
    (h : computeBoundaryParameters sigmaParse voting ((k + 1) * voting.votingLength) t
      (epochTally voting votes ((k + 1) * voting.votingLength))
      (ForkVote (votes ((k + 1) * voting.votingLength))) proposedUpdate = .ok (t', update)) :
    Phase voting votes (k + 1) t' ∧ VersionStep voting ((k + 1) * voting.votingLength) t t' := by
  obtain ⟨hL, table, activated, hfork, hstart, hcollected, hversion⟩ := get_computeBoundaryParameters h
  obtain ⟨htable, hstep⟩ := hphase.updateFork hepochs hL hheight hgate hfork
  refine ⟨htable.force hstart hcollected hversion, ?_⟩
  obtain ⟨version, hget, hpos⟩ := hphase.exists_version
  rcases hstep with hsame | ⟨start, collected, version', hround, hat, hcollected', happroved, hget', hraised⟩
  · have hforced := hversion version (hsame.trans hget)
    split at hforced
    next hboth =>
      obtain ⟨hat, rfl⟩ := hboth
      exact .inr (.inr ⟨hat, hget, hforced⟩)
    · exact .inl (hforced.trans hget.symm)
  · -- the version is at least 2, and is not forced
    cases hget.symm.trans hget'
    have hforced := hversion (version + 1) hraised
    rw [if_neg (by omega)] at hforced
    exact .inr (.inl ⟨start, collected, version, hround, hat, hcollected.trans hcollected', happroved,
      hget, hforced⟩)

lemma Phase.lifecycle (hphase : Phase voting votes k t) :
    Lifecycle voting (k * voting.votingLength) t := by
  cases hphase with
  | idle version hstart hcollected hversion hpos hbound =>
    refine ⟨by rw [hstart, hcollected], ?_, ?_⟩
    · intro start hmem
      cases hstart.symm.trans hmem
    · intro start hmem
      cases hstart.symm.trans hmem
  | round s collected version hlength hstart hcollected hwrap hle hk hquiet happroved hversion hpos hbound =>
    refine ⟨by rw [hstart, hcollected]; rfl, ?_, ?_⟩
    · intro start hmem
      cases hstart.symm.trans hmem
      exact Int.natCast_dvd_natCast.2 (Nat.dvd_mul_left _ _)
    · intro start hmem
      cases hstart.symm.trans hmem
      have hlt : k * voting.votingLength <
          (s + voting.softForkEpochs + voting.activationEpochs + 1) * voting.votingLength :=
        Nat.mul_lt_mul_of_pos_right (by omega) hlength
      have heq : (s + voting.softForkEpochs + voting.activationEpochs + 1) * voting.votingLength =
          s * voting.votingLength +
            voting.votingLength * (voting.softForkEpochs + voting.activationEpochs + 1) := by ring
      rw [heq] at hlt
      exact_mod_cast hlt

lemma tableAfter_succ (h : tableAfter sigmaParse voting network votes updates (k + 1) = .ok t') :
    ∃ t update, tableAfter sigmaParse voting network votes updates k = .ok t ∧
      computeBoundaryParameters sigmaParse voting ((k + 1) * voting.votingLength) t
        (epochTally voting votes ((k + 1) * voting.votingLength))
        (ForkVote (votes ((k + 1) * voting.votingLength))) (updates (k + 1)) = .ok (t', update) := by
  rw [tableAfter] at h
  obtain ⟨t, ht, h⟩ := bind_eq_ok.1 h
  obtain ⟨⟨next, update⟩, hnext, h⟩ := bind_eq_ok.1 h
  cases h
  exact ⟨t, update, ht, hnext⟩

section Gate

variable {n : ℕ} (hepochs : 0 < voting.softForkEpochs) (hheight : n * voting.votingLength < 2 ^ 31)
  (hgate : ForkVotesPass sigmaParse voting network votes updates n)

include hepochs hheight hgate

lemma phase_tableAfter_succ (hk : k < n)
    (ht : tableAfter sigmaParse voting network votes updates k = .ok t)
    (ht' : tableAfter sigmaParse voting network votes updates (k + 1) = .ok t')
    (hphase : Phase voting votes k t) :
    Phase voting votes (k + 1) t' ∧ VersionStep voting ((k + 1) * voting.votingLength) t t' := by
  obtain ⟨current, update, hcurrent, hboundary⟩ := tableAfter_succ ht'
  cases ht.symm.trans hcurrent
  obtain ⟨hL, -⟩ := get_computeBoundaryParameters hboundary
  have hlast := hgate k hk t ht (voting.votingLength - 1) (by omega)
  rw [Nat.sub_add_cancel hL, ← Nat.succ_mul] at hlast
  have hle : (k + 1) * voting.votingLength ≤ n * voting.votingLength :=
    Nat.mul_le_mul_right _ hk
  exact hphase.boundary hepochs (by omega) hlast hboundary

lemma phase_tableAfter (hk : k ≤ n)
    (ht : tableAfter sigmaParse voting network votes updates k = .ok t) : Phase voting votes k t := by
  induction k generalizing t with
  | zero =>
    cases ht
    exact phase_defaultParameters
  | succ k ih =>
    obtain ⟨current, -, hcurrent, -⟩ := tableAfter_succ ht
    exact (phase_tableAfter_succ hepochs hheight hgate hk hcurrent ht (ih (by omega) hcurrent)).1

/-- **The life of a soft-fork round.** Along a chain whose headers pass the fork-vote gate, with at
least one voting epoch and heights that an `i32` holds, a round has both counters, starts at a
boundary and is removed in time, and the version changes by activation of an approved round or by
force only. -/
theorem lifecycle_of_run (hk : k ≤ n)
    (ht : tableAfter sigmaParse voting network votes updates k = .ok t) :
    Lifecycle voting (k * voting.votingLength) t ∧
      ∀ t', k < n → tableAfter sigmaParse voting network votes updates (k + 1) = .ok t' →
        VersionStep voting ((k + 1) * voting.votingLength) t t' := by
  have hphase := phase_tableAfter hepochs hheight hgate hk ht
  refine ⟨hphase.lifecycle, ?_⟩
  intro t' hlt ht'
  exact (phase_tableAfter_succ hepochs hheight hgate hlt ht ht' hphase).2

end Gate

end Phase

/-! ## Three rounds -/

def forkVotesAt (heights : List ℕ) (height : ℕ) : Votes :=
  if height ∈ heights then ⟨120, 0, 0⟩ else ⟨0, 0, 0⟩

def shortVoting : VotingConfig := ⟨2, 1, 1, 0⟩

/-- A round that is approved raises the version at its activation boundary. -/
theorem lifecycle_of_run_activation :
    ∃ t t', tableAfter (fun _ => none) shortVoting .mainnet (forkVotesAt [2, 3]) (fun _ => []) 2 = .ok t ∧
      tableAfter (fun _ => none) shortVoting .mainnet (forkVotesAt [2, 3]) (fun _ => []) 3 = .ok t' ∧
      t.get .blockVersion = some 1 ∧ t'.get .blockVersion = some 2 ∧ Lifecycle shortVoting 4 t ∧
      VersionStep shortVoting 6 t t' := by
  have hgate : ForkVotesPass (fun _ => none) shortVoting .mainnet (forkVotesAt [2, 3]) (fun _ => []) 3 := by
    decide +kernel
  have hrun : ∀ t, tableAfter (fun _ => none) shortVoting .mainnet (forkVotesAt [2, 3])
      (fun _ => []) 2 = .ok t → _ :=
    fun t ht => lifecycle_of_run (by decide) (by decide) hgate (by decide) ht
  exact ⟨_, _, rfl, rfl, by decide +kernel, by decide +kernel, (hrun _ rfl).1,
    (hrun _ rfl).2 _ (by decide) rfl⟩

/-- Without a voting epoch a round is approved at once and not removed; and a start above the `i32`
range is stored as a negative height. -/
theorem not_lifecycle_of_no_epoch_or_wrap :
    (ForkVotesPass (fun _ => none) ⟨2, 0, 1, 0⟩ .mainnet (forkVotesAt [2]) (fun _ => []) 3 ∧
      ∃ t, tableAfter (fun _ => none) ⟨2, 0, 1, 0⟩ .mainnet (forkVotesAt [2]) (fun _ => []) 3 = .ok t ∧
        ¬Lifecycle ⟨2, 0, 1, 0⟩ 6 t) ∧
    (ForkVotesPass (fun _ => none) ⟨2 ^ 31, 1, 0, 0⟩ .mainnet (forkVotesAt [2 ^ 31]) (fun _ => []) 1 ∧
      ∃ t, tableAfter (fun _ => none) ⟨2 ^ 31, 1, 0, 0⟩ .mainnet (forkVotesAt [2 ^ 31])
        (fun _ => []) 1 = .ok t ∧ ¬Lifecycle ⟨2 ^ 31, 1, 0, 0⟩ (2 ^ 31) t) := by
  refine ⟨⟨by decide +kernel, _, rfl, ?_⟩, ?_, _, rfl, ?_⟩
  · intro h
    have hlt := h.ends 2 (by decide +kernel)
    revert hlt
    decide
  · intro k hk t ht i _
    obtain rfl : k = 0 := by omega
    cases ht
    unfold checkForkVote
    split <;> rfl
  · intro h
    have hlt := h.ends (-2 ^ 31) (by decide +kernel)
    revert hlt
    decide

end ErgoNode
