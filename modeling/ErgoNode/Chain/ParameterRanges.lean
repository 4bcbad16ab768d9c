import ErgoNode.Chain.Voting

/-!
# The range of the voted parameters

An approved vote moves a parameter by one step. The bound is compared before the step, so a value
may pass it once: most steps are a hundredth of the value. Parameters with a fixed step stay on its
multiples and meet the bounds exactly. Only the table before the ordinary steps is read, so
contradictory votes do not add up.
-/

namespace ErgoNode

def stepAt (id v : ℤ) : ℤ := (parameterStep id).getD (max 1 (v.tdiv 100))

/-- A value within the declared range, widened by one step at either end. A parameter that may go
down to 0 is not negative. -/
structure InRange (id v : ℤ) : Prop where
  lower : ∀ bound ∈ parameterMin id, bound - stepAt id bound ≤ v
  upper : ∀ bound ∈ parameterMax id, v ≤ bound + stepAt id bound
  nonneg : parameterMin id = some 0 → 0 ≤ v

def FitsI32 (x : ℤ) : Prop := -2 ^ 31 ≤ x ∧ x < 2 ^ 31

instance (x : ℤ) : Decidable (FitsI32 x) := inferInstanceAs (Decidable (_ ∧ _))

/-- The value an approved vote moves a parameter to, as an integer. -/
def exactStep (signedId currentValue : ℤ) : ℤ :=
  let min := (parameterMin signedId).getD 0
  let max := (parameterMax signedId).getD halfMaxI32
  if 0 < signedId then
    if currentValue < max then currentValue + stepAt signedId currentValue else currentValue
  else if min < currentValue then currentValue - stepAt signedId currentValue else currentValue

/-- The values of a parameter with a fixed step are multiples of it. -/
def OnGrid (id v : ℤ) : Prop := ∀ step ∈ parameterStep id, step ∣ v

instance (id v : ℤ) : Decidable (InRange id v) :=
  decidable_of_iff ((∀ bound ∈ parameterMin id, bound - stepAt id bound ≤ v) ∧
      (∀ bound ∈ parameterMax id, v ≤ bound + stepAt id bound) ∧ (parameterMin id = some 0 → 0 ≤ v))
    ⟨fun ⟨hlower, hupper, hnonneg⟩ => ⟨hlower, hupper, hnonneg⟩,
      fun ⟨hlower, hupper, hnonneg⟩ => ⟨hlower, hupper, hnonneg⟩⟩

instance (id v : ℤ) : Decidable (OnGrid id v) :=
  inferInstanceAs (Decidable (∀ step ∈ parameterStep id, step ∣ v))

def Parameters.AllInRange (t : Parameters) : Prop :=
  ∀ id p v, ordinaryParam id = some p → t.get p = some v → InRange id v

structure EpochBoundary where
  voting : VotingConfig
  height : ℕ
  tally : List (ℤ × ℕ)
  /-- Whether the boundary header votes for a fork. -/
  forkVote : Bool
  proposedUpdate : Bytes

namespace EpochBoundary

/-- The table after a boundary. A boundary that cannot be computed has no block, and changes
nothing. -/
def next (sigmaParse : Bytes → Option (RuleStatus × Bytes)) (current : Parameters)
    (b : EpochBoundary) : Parameters :=
  match computeBoundaryParameters sigmaParse b.voting b.height current b.tally b.forkVote
    b.proposedUpdate with
  | .ok (table, _) => table
  | .error _ => current

/-- The table from which the ordinary steps of a boundary read. -/
def base (b : EpochBoundary) (current : Parameters) : Except ChainError Parameters := do
  let (table, _) ← updateFork b.voting b.height current b.tally b.forkVote
  forceVersion2 b.voting b.height table

/-- No sum or difference that the ordinary steps of the boundary compute overflows. -/
def NoOverflow (b : EpochBoundary) (current : Parameters) : Prop :=
  ∀ base, b.base current = .ok base → ∀ vote ∈ b.tally, ∀ p v, ordinaryParam vote.1 = some p →
    base.get p = some v → FitsI32 (exactStep vote.1 v)

end EpochBoundary

/-! ## One step -/

/-- What the tables of bounds and steps declare for one parameter. -/
structure Declares (id min max : ℤ) : Prop where
  min_eq : parameterMin id = some min
  max_eq : parameterMax id = some max
  /-- Bounds are in order, and far from the ends of `i32`. -/
  bounds : 0 ≤ min ∧ min < max ∧ max ≤ halfMaxI32
  fixed : ∀ step ∈ parameterStep id, 0 < step ∧ step ≤ max ∧ step ∣ min ∧ step ∣ max

variable {p : Parameter} {update : ValidationSettingsUpdate} {boundary : ℕ}

lemma exists_declares {id : ℤ} (h : ordinaryParam id = some p) :
    ∃ min max, Declares id min max := by
  unfold ordinaryParam at h
  split at h
  case h_10 => cases h
  all_goals
    rename_i hid
    refine ⟨_, _, by rw [parameterMin, hid]; rfl, by rw [parameterMax, hid]; rfl, by decide, ?_⟩
    rw [parameterStep, hid]
    decide

lemma natAbs_of_ordinaryParam {id : ℤ} (h : ordinaryParam id = some p) :
    1 ≤ id.natAbs ∧ id.natAbs ≤ 9 := by
  unfold ordinaryParam at h
  split at h
  all_goals first | omega | cases h

lemma natAbs_eq_of_ordinaryParam {id id' : ℤ} (h : ordinaryParam id = some p)
    (h' : ordinaryParam id' = some p) : id.natAbs = id'.natAbs := by
  unfold ordinaryParam at h h'
  split at h <;> cases h <;> split at h' <;> first | omega | cases h'

lemma wrapI32_eq_self {x : ℤ} (h : FitsI32 x) : wrapI32 x = x := by
  obtain ⟨hlo, hhi⟩ := h
  exact Int.bmod_eq_of_le (by omega) (by omega)

lemma fitsI32_wrapI32 (x : ℤ) : FitsI32 (wrapI32 x) :=
  ⟨Int.le_bmod (by decide), Int.bmod_lt (by decide)⟩

lemma steppedValue_eq_exactStep {id v : ℤ} (h : FitsI32 (exactStep id v)) :
    steppedValue id v = exactStep id v := by
  simp only [steppedValue, exactStep, stepAt] at h ⊢
  split_ifs at h ⊢
  all_goals first | rfl | exact wrapI32_eq_self h

lemma stepAt_eq_ediv {id v : ℤ} (hstep : parameterStep id = none) (hv : 0 ≤ v) :
    stepAt id v = max 1 (v / 100) := by
  rw [stepAt, hstep, Option.getD_none, Int.tdiv_eq_ediv_of_nonneg hv]

lemma stepAt_eq_step {id v step : ℤ} (hstep : parameterStep id = some step) :
    stepAt id v = step := by
  rw [stepAt, hstep, Option.getD_some]

section Step

variable {id v min max : ℤ}

lemma nonneg_of_inRange (hid : Declares id min max) (hrange : InRange id v) : 0 ≤ v := by
  obtain ⟨hmin, -, -⟩ := hid.bounds
  rcases hmin.eq_or_lt with rfl | hpos
  · exact hrange.nonneg hid.min_eq
  · have hlower := hrange.lower min hid.min_eq
    cases hstep : parameterStep id with
    | none =>
      rw [stepAt_eq_ediv hstep hmin] at hlower
      omega
    | some step =>
      obtain ⟨-, -, hdvd, -⟩ := hid.fixed step hstep
      have hle := Int.le_of_dvd hpos hdvd
      rw [stepAt_eq_step hstep] at hlower
      omega

lemma inRange_iff (hid : Declares id min max) :
    InRange id v ↔ min - stepAt id min ≤ v ∧ v ≤ max + stepAt id max ∧ (min = 0 → 0 ≤ v) := by
  constructor
  · intro h
    refine ⟨h.lower min hid.min_eq, h.upper max hid.max_eq, ?_⟩
    rintro rfl
    exact h.nonneg hid.min_eq
  · rintro ⟨hlower, hupper, hnonneg⟩
    refine ⟨?_, ?_, ?_⟩
    · intro bound hbound
      cases hid.min_eq.symm.trans hbound
      exact hlower
    · intro bound hbound
      cases hid.max_eq.symm.trans hbound
      exact hupper
    · intro hzero
      exact hnonneg (Option.some.inj (hid.min_eq.symm.trans hzero))

lemma exactStep_of_fixed (hid : Declares id min max) {step : ℤ} (hstep : parameterStep id = some step)
    (hrange : InRange id v) (hgrid : step ∣ v) :
    InRange id (exactStep id v) ∧ step ∣ exactStep id v := by
  obtain ⟨hpos, hle, hmin, hmax⟩ := hid.fixed step hstep
  rw [inRange_iff hid, stepAt_eq_step hstep, stepAt_eq_step hstep] at hrange ⊢
  simp only [exactStep, hid.min_eq, hid.max_eq, Option.getD_some, stepAt_eq_step hstep]
  split_ifs with hsign hlt hlt
  · -- towards the upper bound: the distance is a multiple of the step
    exact ⟨by omega, Int.dvd_add hgrid (Int.dvd_refl step)⟩
  · exact ⟨hrange, hgrid⟩
  · have hroom := Int.le_of_dvd (by omega) (Int.dvd_sub hgrid hmin)
    exact ⟨by omega, Int.dvd_sub hgrid (Int.dvd_refl step)⟩
  · exact ⟨hrange, hgrid⟩

/-- One step of a hundredth passes a bound by less than the step at the bound. -/
theorem exactStep_of_hundredth (hid : Declares id min max) (hstep : parameterStep id = none)
    (hrange : InRange id v) : InRange id (exactStep id v) := by
  obtain ⟨hmin, hlt, hmax⟩ := hid.bounds
  have hnonneg := nonneg_of_inRange hid hrange
  rw [inRange_iff hid, stepAt_eq_ediv hstep hmin, stepAt_eq_ediv hstep (by omega)] at hrange ⊢
  simp only [exactStep, hid.min_eq, hid.max_eq, Option.getD_some, stepAt_eq_ediv hstep hnonneg]
  split_ifs
  · omega
  · exact hrange
  · omega
  · exact hrange

lemma fitsI32_of_inRange (hid : Declares id min max) (hrange : InRange id v) : FitsI32 v := by
  have hnonneg := nonneg_of_inRange hid hrange
  obtain ⟨hmin, hlt, hmax⟩ := hid.bounds
  have hupper := hrange.upper max hid.max_eq
  unfold halfMaxI32 at hmax
  cases hstep : parameterStep id with
  | none =>
    rw [stepAt_eq_ediv hstep (by omega)] at hupper
    constructor <;> omega
  | some step =>
    obtain ⟨-, hle, -, -⟩ := hid.fixed step hstep
    rw [stepAt_eq_step hstep] at hupper
    constructor <;> omega

end Step

lemma inRange_exactStep {id v : ℤ} (hid : ordinaryParam id = some p)
    (hrange : InRange id v) (hgrid : OnGrid id v) :
    InRange id (exactStep id v) ∧ OnGrid id (exactStep id v) ∧ FitsI32 (exactStep id v) := by
  obtain ⟨min, max, hdeclares⟩ := exists_declares hid
  cases hstep : parameterStep id with
  | none =>
    have hrange' := exactStep_of_hundredth hdeclares hstep hrange
    refine ⟨hrange', ?_, fitsI32_of_inRange hdeclares hrange'⟩
    intro step hsome
    cases hstep.symm.trans hsome
  | some step =>
    obtain ⟨hrange', hgrid'⟩ := exactStep_of_fixed hdeclares hstep hrange (hgrid step hstep)
    refine ⟨hrange', ?_, fitsI32_of_inRange hdeclares hrange'⟩
    intro step' hsome
    cases hstep.symm.trans hsome
    exact hgrid'

/-! ## The table -/

/-- In range and on the grid: what the steps of a parameter preserve. -/
def Reachable (id v : ℤ) : Prop := InRange id v ∧ OnGrid id v

instance (id v : ℤ) : Decidable (Reachable id v) :=
  inferInstanceAs (Decidable (InRange id v ∧ OnGrid id v))

def Parameters.Sound (t : Parameters) : Prop :=
  ∀ id p v, ordinaryParam id = some p → t.get p = some v → Reachable id v

lemma reachable_steppedValue {id v : ℤ} (hid : ordinaryParam id = some p)
    (h : Reachable id v) : Reachable id (steppedValue id v) := by
  obtain ⟨hrange, hgrid, hfits⟩ := inRange_exactStep hid h.1 h.2
  rw [steppedValue_eq_exactStep hfits]
  exact ⟨hrange, hgrid⟩

lemma Reachable.congr {id id' v : ℤ} (h : Reachable id v) (hid : id.natAbs = id'.natAbs) :
    Reachable id' v := by
  have hmin : parameterMin id = parameterMin id' := by rw [parameterMin, hid, parameterMin]
  have hmax : parameterMax id = parameterMax id' := by rw [parameterMax, hid, parameterMax]
  have hstep : parameterStep id = parameterStep id' := by rw [parameterStep, hid, parameterStep]
  have hat : ∀ v, stepAt id v = stepAt id' v := fun v => by rw [stepAt, hstep, stepAt]
  obtain ⟨⟨hlower, hupper, hnonneg⟩, hgrid⟩ := h
  simp only [OnGrid, hmin, hmax, hstep, hat] at hlower hupper hnonneg hgrid
  exact ⟨⟨hlower, hupper, hnonneg⟩, hgrid⟩

namespace Parameters

variable {current t table : Parameters} {tally : List (ℤ × ℕ)} {voting : VotingConfig}

lemma Sound.insert {id v : ℤ} (ht : t.Sound) (hid : ordinaryParam id = some p)
    (hv : Reachable id v) : (t.insert p v).Sound := by
  intro id' q w hid' hget
  rw [get_insert] at hget
  split at hget
  next heq =>
    cases hget
    exact hv.congr (natAbs_eq_of_ordinaryParam hid (heq ▸ hid'))
  · exact ht id' q w hid' hget

lemma forkStable_ordinary (current : Parameters) :
    ForkStable (fun t => ∀ id p, ordinaryParam id = some p → t.get p = current.get p) := by
  refine ⟨?_, ?_⟩
  · intro t q ht hfork v id p hid
    rw [get_insert, if_neg (ne_of_ordinaryParam hid hfork), ht id p hid]
  · intro t q ht hcounter id p hid
    rw [get_remove, if_neg (ne_of_ordinaryParam hid (hcounter.imp_right .inl)), ht id p hid]

lemma Sound.base {b : EpochBoundary} {base : Parameters} (ht : t.Sound)
    (h : b.base t = .ok base) : base.Sound := by
  obtain ⟨⟨t', activated⟩, hfork, hversion⟩ := bind_eq_ok.1 h
  have hstable := (forkStable_ordinary t).wrapStable
  have hsame := hstable.forceVersion2 (hstable.updateFork (fun _ _ _ => rfl) hfork) hversion
  intro id p v hid hget
  exact ht id p v hid ((hsame id p hid).symm.trans hget)

lemma sound_updateParams {base : Parameters} (hbase : base.Sound) (ht : t.Sound)
    (h : updateParams voting boundary base tally t = .ok table) : table.Sound := by
  induction tally generalizing t with
  | nil =>
    cases h
    exact ht
  | cons vote tally ih =>
    rw [updateParams] at h
    split at h
    · exact ih ht h
    · split at h
      · cases h
      next p hid =>
        split at h
        · cases h
        next v hv =>
          exact ih (ht.insert hid (reachable_steppedValue hid (hbase _ _ _ hid hv))) h

lemma sound_insertSubblocks (ht : t.Sound) :
    (insertSubblocks update t).Sound := by
  unfold insertSubblocks
  split
  · have hid : ordinaryParam 9 = some .subblocksPerBlock := rfl
    exact ht.insert hid (by decide)
  · exact ht

lemma sound_defaultParameters (network : Network) : (defaultParameters network).Sound := by
  have hlaunch : ∀ n ∈ List.range' 1 9, ∀ p ∈ ordinaryParam n, ∀ v ∈ (defaultParameters network).get p,
      Reachable n v := by
    cases network <;> decide
  intro id p v hid hget
  obtain ⟨hone, hnine⟩ := natAbs_of_ordinaryParam hid
  have hn : id.natAbs ∈ List.range' 1 9 := by
    rw [List.mem_range'_1]
    omega
  have habs : ordinaryParam (id.natAbs : ℤ) = some p := by
    rw [← hid, ordinaryParam, ordinaryParam, Int.natAbs_natCast]
  exact (hlaunch _ hn p habs v hget).congr (Int.natAbs_natCast _)

lemma Sound.next (sigmaParse : Bytes → Option (RuleStatus × Bytes)) (ht : t.Sound)
    (b : EpochBoundary) : (b.next sigmaParse t).Sound := by
  unfold EpochBoundary.next
  split
  next table update h =>
    unfold computeBoundaryParameters at h
    simp only [bind_eq_ok] at h
    obtain ⟨_, -, _, -, ⟨t₁, activated⟩, hfork, t₂, hversion, t₃, hparams, h⟩ := h
    cases h
    have hbase : t₂.Sound := ht.base (b := b) (by simp [EpochBoundary.base, hfork, hversion])
    exact sound_insertSubblocks (sound_updateParams hbase hbase hparams)
  · exact ht

/-! ### Values of 32 bits -/

def I32Valued (t : Parameters) : Prop := ∀ p v, t.get p = some v → FitsI32 v

lemma I32Valued.insert {v : ℤ} (ht : t.I32Valued) (hv : FitsI32 v) :
    (t.insert p v).I32Valued := by
  intro q w hget
  rw [get_insert] at hget
  split at hget
  · exact Option.some.inj hget ▸ hv
  · exact ht q w hget

lemma I32Valued.remove (ht : t.I32Valued) (p : Parameter) : (t.remove p).I32Valued := by
  intro q w hget
  rw [get_remove] at hget
  split at hget
  · cases hget
  · exact ht q w hget

lemma wrapStable_i32Valued : WrapStable I32Valued :=
  ⟨fun ht _ x => ht.insert (fitsI32_wrapI32 x), fun ht _ => ht.remove _⟩

lemma fitsI32_steppedValue {id v : ℤ} (hv : FitsI32 v) : FitsI32 (steppedValue id v) := by
  simp only [steppedValue]
  split
  · split
    · exact fitsI32_wrapI32 _
    · exact hv
  · split
    · exact fitsI32_wrapI32 _
    · exact hv

lemma I32Valued.updateParams {base : Parameters} (hbase : base.I32Valued)
    (ht : t.I32Valued) (h : updateParams voting boundary base tally t = .ok table) :
    table.I32Valued := by
  induction tally generalizing t with
  | nil =>
    cases h
    exact ht
  | cons vote tally ih =>
    rw [ErgoNode.updateParams] at h
    split at h
    · exact ih ht h
    · split at h
      · cases h
      · split at h
        · cases h
        next v hv =>
          exact ih (ht.insert (fitsI32_steppedValue (hbase _ v hv))) h

lemma i32Valued_defaultParameters (network : Network) : (defaultParameters network).I32Valued := by
  have hlaunch : ∀ p, ∀ v ∈ (defaultParameters network).get p, FitsI32 v := by
    cases network <;> decide
  exact fun p v hv => hlaunch p v hv

lemma I32Valued.computeBoundaryParameters {sigmaParse : Bytes → Option (RuleStatus × Bytes)}
    {forkVote : Bool}
    {proposedUpdate : Bytes} (ht : t.I32Valued)
    (h : computeBoundaryParameters sigmaParse voting boundary t tally forkVote proposedUpdate =
      .ok (table, update)) : table.I32Valued := by
  unfold ErgoNode.computeBoundaryParameters at h
  simp only [bind_eq_ok] at h
  obtain ⟨_, -, _, -, ⟨t₁, activated⟩, hfork, t₂, hversion, t₃, hparams, h⟩ := h
  cases h
  have hbase := wrapStable_i32Valued.forceVersion2 (wrapStable_i32Valued.updateFork ht hfork) hversion
  have hstepped := hbase.updateParams hbase hparams
  exact WrapStable.ite (hstepped.insert ⟨by decide, by decide⟩) hstepped

end Parameters

/-- **Voted parameters stay in range.** After every run of boundaries from the launch parameters
every ordinary parameter is in range, and the next boundary computes without an overflow. -/
theorem allInRange_of_run (sigmaParse : Bytes → Option (RuleStatus × Bytes)) (network : Network)
    (boundaries : List EpochBoundary) :
    (boundaries.foldl (EpochBoundary.next sigmaParse) (defaultParameters network)).AllInRange ∧
      ∀ b : EpochBoundary,
        b.NoOverflow (boundaries.foldl (EpochBoundary.next sigmaParse) (defaultParameters network)) := by
  have hsound : (boundaries.foldl (EpochBoundary.next sigmaParse) (defaultParameters network)).Sound :=
    List.foldlRecOn boundaries (EpochBoundary.next sigmaParse)
      (Parameters.sound_defaultParameters network) (fun _ ht b _ => ht.next sigmaParse b)
  refine ⟨fun id p v hid hget => (hsound id p v hid hget).1, ?_⟩
  intro b base hbase vote _ p v hid hget
  obtain ⟨hrange, hgrid⟩ := hsound.base hbase _ _ _ hid hget
  exact (inRange_exactStep hid hrange hgrid).2.2

/-- The maximal block size passes its lower bound once. -/
example : exactStep (-3) 16385 = 16222 ∧ exactStep (-3) 16222 = 16222 := by decide

end ErgoNode
