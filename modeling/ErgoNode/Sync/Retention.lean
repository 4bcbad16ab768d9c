import ErgoNode.Store.Operations
import ErgoNode.Sync.Machine

/-!
# What pruning leaves for a restart

After a flush the machine deletes the bodies below a horizon. A restart at a height reads the
extension of the last epoch boundary at or below it. Since the horizon is moved back to the start of
its epoch, that survives for every height from there on. This covers the heights that can still be
reached unless the horizon, one above the lowest of them, starts an epoch.
-/

namespace ErgoNode

/-! ## Rounding down to an epoch -/

def alignToEpoch (votingLength raw : ℕ) : ℕ :=
  if votingLength < raw then raw / votingLength * votingLength else raw

lemma computePruneHorizon_eq (flushed keep votingLength : ℕ) :
    computePruneHorizon flushed keep votingLength =
      alignToEpoch votingLength (min (flushed - keep + 1) (2 ^ 32 - 1)) := by
  simp only [computePruneHorizon, alignToEpoch, min_eq_right (Nat.div_mul_le_self _ _)]

lemma alignToEpoch_le (votingLength raw : ℕ) : alignToEpoch votingLength raw ≤ raw := by
  unfold alignToEpoch
  split
  · exact Nat.div_mul_le_self _ _
  · exact le_rfl

lemma alignToEpoch_mono (votingLength : ℕ) : Monotone (alignToEpoch votingLength) := by
  intro raw raw' h
  unfold alignToEpoch
  split
  case isTrue hlt =>
    rw [if_pos (hlt.trans_le h)]
    exact Nat.mul_le_mul_right _ (Nat.div_le_div_right h)
  case isFalse hle =>
    split
    case isTrue hlt' =>
      -- The first epoch ends at or below every later boundary.
      rcases Nat.eq_zero_or_pos votingLength with rfl | hpos
      · omega
      · calc raw ≤ 1 * votingLength := by omega
          _ ≤ raw' / votingLength * votingLength :=
            Nat.mul_le_mul_right _ (Nat.div_pos hlt'.le hpos)
    case isFalse => exact h

lemma alignToEpoch_le_boundary {votingLength raw height : ℕ} (hpos : 0 < votingLength)
    (hraw : raw ≤ height) (hheight : votingLength ≤ height) :
    alignToEpoch votingLength raw ≤ height / votingLength * votingLength := by
  unfold alignToEpoch
  split
  · exact Nat.mul_le_mul_right _ (Nat.div_le_div_right hraw)
  · calc raw ≤ 1 * votingLength := by omega
      _ ≤ height / votingLength * votingLength :=
        Nat.mul_le_mul_right _ (Nat.div_pos hheight hpos)

/-- The boundary below `raw` is at or above the aligned `raw`, unless `raw` starts a later epoch. -/
theorem alignToEpoch_succ_le_boundary_iff {votingLength height : ℕ} (hpos : 0 < votingLength)
    (hheight : votingLength ≤ height) :
    alignToEpoch votingLength (height + 1) ≤ height / votingLength * votingLength ↔
      ¬votingLength ∣ height + 1 := by
  rw [alignToEpoch, if_pos (Nat.lt_succ_of_le hheight), Nat.mul_le_mul_right_iff hpos]
  by_cases hdvd : votingLength ∣ height + 1
  · simp [Nat.succ_div_of_dvd hdvd, hdvd]
  · simp [Nat.succ_div_of_not_dvd hdvd, hdvd]

/-! ## What survives -/

/-- A prune after a flush leaves what a restart needs: the last `keep` bodies, no lower horizon than
before, and the boundary extension of every height down to `keep` under the flushed one. -/
structure KeepsForRestart (flushed keep votingLength : ℕ) : Prop where
  bodies : computePruneHorizon flushed keep votingLength ≤ flushed - keep + 1
  mono : ∀ later, flushed ≤ later →
    computePruneHorizon flushed keep votingLength ≤ computePruneHorizon later keep votingLength
  /-- The boundary extension of every height that is left survives. -/
  boundary : ∀ height, flushed - keep ≤ height → height ≤ flushed → votingLength ≤ height →
    computePruneHorizon flushed keep votingLength ≤ height / votingLength * votingLength

lemma computePruneHorizon_le (flushed keep votingLength : ℕ) :
    computePruneHorizon flushed keep votingLength ≤ flushed - keep + 1 := by
  rw [computePruneHorizon_eq]
  exact (alignToEpoch_le _ _).trans (min_le_left _ _)

lemma computePruneHorizon_mono (keep votingLength : ℕ) :
    Monotone (fun flushed => computePruneHorizon flushed keep votingLength) := by
  intro flushed later h
  simp only [computePruneHorizon_eq]
  exact alignToEpoch_mono _ (min_le_min_right _ (by omega))

/-- A prune leaves what a restart needs unless its horizon starts an epoch after the first. -/
theorem keepsForRestart_iff (flushed keep votingLength : ℕ) (hpos : 0 < votingLength) :
    KeepsForRestart flushed keep votingLength ↔
      ¬(votingLength < flushed - keep + 1 ∧ votingLength ∣ flushed - keep + 1 ∧
        flushed - keep + 1 < 2 ^ 32) := by
  constructor
  · rintro hkeeps ⟨hlt, hdvd, hmax⟩
    -- The lowest height that is left is the last one of the epoch before the horizon.
    have hlow := hkeeps.boundary (flushed - keep) le_rfl (Nat.sub_le _ _) (by omega)
    rw [computePruneHorizon_eq, min_eq_left (by omega),
      alignToEpoch_succ_le_boundary_iff hpos (by omega)] at hlow
    exact hlow hdvd
  · intro hcond
    refine ⟨computePruneHorizon_le _ _ _, fun later h => computePruneHorizon_mono _ _ h, ?_⟩
    intro height hlow _ hheight
    rw [computePruneHorizon_eq]
    by_cases hraw : min (flushed - keep + 1) (2 ^ 32 - 1) ≤ height
    · exact alignToEpoch_le_boundary hpos hraw hheight
    · -- Only the lowest height is below the horizon before it is moved back.
      obtain rfl : height = flushed - keep := by omega
      rw [min_eq_left (by omega), alignToEpoch_succ_le_boundary_iff hpos hheight]
      exact fun hdvd => hcond ⟨by omega, hdvd, by omega⟩

/-- Pruning to the last hundred bodies in the middle of an epoch keeps its extension. -/
theorem keepsForRestart_iff_midEpoch :
    (0 < 1024) ∧ (KeepsForRestart 2500 100 1024 ↔
      ¬(1024 < 2500 - 100 + 1 ∧ 1024 ∣ 2500 - 100 + 1 ∧ 2500 - 100 + 1 < 2 ^ 32)) :=
  ⟨by decide, keepsForRestart_iff 2500 100 1024 (by decide)⟩

/-- Keeping no bodies, a flush of an epoch's last block deletes the extension that a restart reads.
-/
theorem not_keepsForRestart_epochEnd : ¬KeepsForRestart 2047 0 1024 := by
  intro h
  exact absurd (h.boundary 2047 (by decide) (by decide) (by decide)) (by decide)

namespace Node

/-- After such a prune the store still names the boundary extension of every height that is left. -/
theorem heightIndex_pruneAtHorizon_boundary {cfg : SyncConfig} {s : Node} {flushed height : ℕ}
    (hkeeps : KeepsForRestart flushed cfg.dial.blocksToKeep.toNat
      s.chain.config.voting.votingLength)
    (hlow : flushed - cfg.dial.blocksToKeep.toNat ≤ height) (hhigh : height ≤ flushed)
    (hheight : s.chain.config.voting.votingLength ≤ height) :
    (s.pruneAtHorizon cfg flushed).heightIndex[(extensionTypeId, s.chain.lastBoundary height)]? =
      s.pipeline.store.heightIndex[(extensionTypeId, s.chain.lastBoundary height)]? := by
  unfold pruneAtHorizon
  split
  · rfl
  · obtain ⟨store, hprune⟩ : ∃ store, s.pipeline.store.pruneBelowHeight
        (computePruneHorizon flushed cfg.dial.blocksToKeep.toNat s.chain.config.voting.votingLength)
        [blockTransactionsTypeId, adProofsTypeId, extensionTypeId] = .ok store := ⟨_, rfl⟩
    simp only [hprune, Except.toOption, Option.getD_some]
    rw [ModifierStore.heightIndex_pruneBelowHeight hprune, if_neg]
    rintro ⟨-, hbelow⟩
    exact absurd hbelow (not_lt.2 (hkeeps.boundary height hlow hhigh hheight))

end Node

end ErgoNode
