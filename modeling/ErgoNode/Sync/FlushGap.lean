import ErgoNode.Sync.FollowsChain

/-!
# Blocks that are not flushed

The machine flushes after a block when the blocks since the last flush reach an interval, and at the
end of a sweep, so that a crash loses a bounded number of blocks. It counts from the height of the
last flush, which a reorg leaves where it was: until the state is above it again no block counts.
The interval changes once, close to the tip, and a gap that was open then may be more than the new
interval allows.
-/

namespace ErgoNode

/-- The flush settings to use near the tip, where they differ. -/
structure SyncedSettings where
  flushHeapThresholdMb : Option ℕ := none
  flushMaxBlocks : Option ℕ := none
  flushMinBlocks : Option ℕ := none
deriving DecidableEq, Repr

def SyncedSettings.override (synced : SyncedSettings) (dial : FlushDial) : FlushDial :=
  { dial with
    flushHeapThresholdMb := synced.flushHeapThresholdMb.getD dial.flushHeapThresholdMb
    flushMaxBlocks := synced.flushMaxBlocks.getD dial.flushMaxBlocks
    flushMinBlocks := synced.flushMinBlocks.getD dial.flushMinBlocks }

/-- Blocks between the state and the tip of the chain below which the settings change. -/
def atTipWindow : ℕ := 16

structure PacedNode where
  node : Node
  dial : FlushDial
  synced : SyncedSettings
  /-- The state database is still to be reopened with a smaller cache. -/
  reopen : Bool
  /-- The applied blocks up to this height are covered by a flush. -/
  covered : ℕ

inductive PacedEvent where
  | sync (e : SyncEvent)
  | atTip
deriving DecidableEq

namespace PacedNode

def new (pipeline : ValidationPipeline) (validator : Validator) (dial : FlushDial)
    (synced : SyncedSettings) (reopen : Bool) : PacedNode where
  node := .new pipeline validator validator.validatedHeight
  dial := dial
  synced := synced
  reopen := reopen
  covered := validator.validatedHeight

def unflushed (p : PacedNode) : ℕ := p.node.validator.validatedHeight - p.covered

def interval (p : PacedNode) : ℕ := p.dial.effectiveFlushBounds.2

def flushedBy (s' : Node) : SyncEvent → Option ℕ
  | .resume _ =>
    match s'.task with
    | .recordHeight _ outcome => outcome.committedHeight
    | _ => none
  | _ => none

def Fires (p : PacedNode) : Prop :=
  p.node.task = .idle ∧ p.node.chain.height ≤ p.node.validator.validatedHeight + atTipWindow

instance (p : PacedNode) : Decidable p.Fires := by
  unfold Fires
  infer_instance

/-- Switch to the settings near the tip. Reopening the database flushes it first. -/
def maybeFireAtTip (p : PacedNode) : PacedNode :=
  if p.Fires then
    { p with
      dial := p.synced.override p.dial
      synced := {}
      reopen := false
      covered := if p.reopen then p.node.validator.validatedHeight else p.covered }
  else p

section Steps

variable (rules : NodeRules) (cfg : SyncConfig)

/-- One step of the node. A flush covers what the validator holds, and a rollback leaves what is
below it covered. -/
def syncStep (p : PacedNode) (e : SyncEvent) : PacedNode :=
  let node := p.node.step rules { cfg with dial := p.dial } e
  { p with
    node := node
    covered := min ((flushedBy node e).getD p.covered) node.validator.validatedHeight }

def step (p : PacedNode) : PacedEvent → PacedNode
  | .sync e => p.syncStep rules cfg e
  | .atTip => p.maybeFireAtTip

end Steps

/-- Flushes succeed, and at the change of settings the open gap is within the new interval. -/
def FlushesInTime (p : PacedNode) : PacedEvent → Prop
  | .sync (.resume env) => env.flushOk = true
  | .sync _ => True
  | .atTip => p.Fires → p.reopen = false →
      p.unflushed ≤ (p.synced.override p.dial).effectiveFlushBounds.2

def RollsBackAboveFlush (p : PacedNode) : PacedEvent → Prop
  | .sync e => ∀ f ∈ p.node.handledReorg e, f < p.node.stateAppliedHeight →
      (p.node.rollbackTo f).2 = true → p.node.lastFlushHeight ≤ f
  | .atTip => True

def KeepsGap (p : PacedNode) (e : PacedEvent) : Prop :=
  p.FlushesInTime e ∧ p.RollsBackAboveFlush e

instance (p : PacedNode) : (e : PacedEvent) → Decidable (p.FlushesInTime e)
  | .sync (.resume env) => inferInstanceAs (Decidable (env.flushOk = true))
  | .sync (.batch _ _) | .sync .control | .sync .advance | .sync .sweep => .isTrue trivial
  | .atTip => inferInstanceAs (Decidable (p.Fires → p.reopen = false → p.unflushed ≤ _))

instance (p : PacedNode) : (e : PacedEvent) → Decidable (p.RollsBackAboveFlush e)
  | .sync e => inferInstanceAs (Decidable (∀ f ∈ p.node.handledReorg e,
      f < p.node.stateAppliedHeight → (p.node.rollbackTo f).2 = true → p.node.lastFlushHeight ≤ f))
  | .atTip => .isTrue trivial

instance (p : PacedNode) (e : PacedEvent) : Decidable (p.KeepsGap e) :=
  inferInstanceAs (Decidable (_ ∧ _))

end PacedNode

/-! ## The invariant -/

def FlushPoint.MarksState (validated cached : ℕ) : FlushPoint → Prop
  | .midSweep _ height => height = validated
  | .sweepEnd => cached = validated

def FlushOutcome.Settles (outcome : FlushOutcome) (point : FlushPoint)
    (validated cached covered : ℕ) : Prop :=
  outcome ≠ .failed ∧ covered = validated ∧ point.MarksState validated cached

/-- What the heights in a suspended task have to do with the state. -/
def SyncTask.Consistent (validated cached covered : ℕ) : SyncTask → Prop
  | .readSections _ height header => header.height = height
  | .readPreceding _ block _ => block.header.height = block.height
  | .applyBlock _ block => block.header.height = block.height
  | .install _ height _ _ => height = validated
  | .applied _ height => height = validated
  | .recordHeight point outcome => outcome.Settles point validated cached covered
  | .flushStore point outcome => outcome.Settles point validated cached covered
  | .prune point outcome => outcome.Settles point validated cached covered
  | _ => True

/-- The block that is being applied: it was added to the state, and the flush is not decided yet. -/
def SyncTask.applying : SyncTask → ℕ
  | .install _ _ _ _ => 1
  | .applied _ _ => 1
  | _ => 0

namespace PacedNode

variable {s' : Node} {e : SyncEvent} {env : StepEnv} {w : Sweep}

structure Paced (p : PacedNode) : Prop where
  covered_le : p.covered ≤ p.node.validator.validatedHeight
  cache_le : p.node.stateAppliedHeight ≤ p.node.validator.validatedHeight
  /-- The state is at most the interval above what is covered or counts as flushed. -/
  bound : p.node.validator.validatedHeight ≤
    max p.covered p.node.lastFlushHeight + p.interval + p.node.task.applying
  task : p.node.task.Consistent p.node.validator.validatedHeight p.node.stateAppliedHeight p.covered

variable {rules : NodeRules} {cfg : SyncConfig} {p : PacedNode} {outcome : FlushOutcome}
  {validator : Validator} {point : FlushPoint} {task : SyncTask}

/-- **The gap in every state**: the interval, the block being applied, and what a rollback took from
below the last flush. -/
theorem Paced.unflushed_le (h : p.Paced) :
    p.unflushed ≤ p.interval + 1 + (p.node.lastFlushHeight - p.covered) := by
  have hbound := h.bound
  have happlying : p.node.task.applying ≤ 1 := by
    unfold SyncTask.applying
    split <;> omega
  unfold unflushed
  omega

lemma paced_new (pipeline : ValidationPipeline) (validator : Validator) (dial : FlushDial)
    (synced : SyncedSettings) (reopen : Bool) :
    (PacedNode.new pipeline validator dial synced reopen).Paced :=
  ⟨Nat.le_refl _, Nat.le_refl _, Nat.le_trans (Nat.le_max_left _ _)
    (Nat.le_trans (Nat.le_add_right _ _) (Nat.le_add_right _ _)), trivial⟩

/-- What every step but a deep rollback keeps: the invariant, and that nothing counts as flushed
that is not covered. -/
structure Keeps (p p' : PacedNode) : Prop where
  paced : p'.Paced
  counted : p.node.lastFlushHeight ≤ p.covered → p'.node.lastFlushHeight ≤ p'.covered

/-! ## Steps of the task -/

def withNode (p : PacedNode) (node : Node) (e : SyncEvent) : PacedNode :=
  { p with
    node := node
    covered := min ((flushedBy node e).getD p.covered) node.validator.validatedHeight }

lemma Paced.still (h : p.Paced) (hflush : flushedBy s' e = none)
    (hvalidator : s'.validator.validatedHeight = p.node.validator.validatedHeight)
    (hlast : s'.lastFlushHeight = p.node.lastFlushHeight)
    (hcache : s'.stateAppliedHeight = p.node.stateAppliedHeight ∨
      s'.stateAppliedHeight = p.node.validator.validatedHeight)
    (hbound : p.node.validator.validatedHeight ≤
      max p.covered p.node.lastFlushHeight + p.interval + s'.task.applying)
    (htask : s'.task.Consistent p.node.validator.validatedHeight s'.stateAppliedHeight p.covered) :
    p.Keeps (p.withNode s' e) := by
  have hcovered : (p.withNode s' e).covered = p.covered := by
    show min ((flushedBy s' e).getD p.covered) s'.validator.validatedHeight = p.covered
    rw [hflush, Option.getD_none, hvalidator]
    exact Nat.min_eq_left h.covered_le
  have hle := h.cache_le
  refine ⟨⟨?_, ?_, ?_, ?_⟩, ?_⟩
  · rw [hcovered]
    exact hvalidator ▸ h.covered_le
  · show s'.stateAppliedHeight ≤ s'.validator.validatedHeight
    omega
  · show s'.validator.validatedHeight ≤ max (p.withNode s' e).covered s'.lastFlushHeight + _ + _
    rwa [hcovered, hvalidator, hlast]
  · show s'.task.Consistent s'.validator.validatedHeight s'.stateAppliedHeight _
    rwa [hcovered, hvalidator]
  · intro hcounted
    rw [hcovered]
    exact hlast ▸ hcounted

lemma Paced.move (h : p.Paced) (hbefore : p.node.task.applying = 0)
    (hflush : ∀ point outcome, task ≠ .recordHeight point outcome)
    (htask : task.Consistent p.node.validator.validatedHeight p.node.stateAppliedHeight p.covered) :
    p.Keeps (p.withNode { p.node with task := task } (.resume env)) := by
  refine h.still ?_ rfl rfl (.inl rfl) ?_ htask
  · show (match task with | .recordHeight _ outcome => outcome.committedHeight | _ => none) = none
    split
    · exact absurd rfl (hflush _ _)
    · rfl
  · have hbound := h.bound
    omega

lemma Paced.flush
    (h : p.Paced) (hvalidator : s'.validator.validatedHeight = p.node.validator.validatedHeight)
    (hcache : s'.stateAppliedHeight ≤ p.node.validator.validatedHeight)
    (hlast : s'.lastFlushHeight = p.node.lastFlushHeight)
    (htask : s'.task = .recordHeight point outcome)
    (houtcome : outcome.committedHeight = some p.node.validator.validatedHeight)
    (hpoint : point.MarksState p.node.validator.validatedHeight s'.stateAppliedHeight) :
    p.Keeps (p.withNode s' (.resume env)) := by
  have hcovered : (p.withNode s' (.resume env)).covered = p.node.validator.validatedHeight := by
    show min ((flushedBy s' (.resume env)).getD p.covered) s'.validator.validatedHeight = _
    rw [flushedBy, htask, hvalidator]
    simp only [houtcome, Option.getD_some, Nat.min_self]
  have hok : outcome ≠ .failed := by
    rintro rfl
    cases houtcome
  refine ⟨⟨?_, ?_, ?_, ?_⟩, ?_⟩
  · rw [hcovered]
    exact hvalidator.ge
  · exact hvalidator ▸ hcache
  · show s'.validator.validatedHeight ≤ max (p.withNode s' _).covered s'.lastFlushHeight + _ + _
    omega
  · show s'.task.Consistent s'.validator.validatedHeight s'.stateAppliedHeight _
    rw [htask, hcovered, hvalidator]
    exact ⟨hok, rfl, hpoint⟩
  · intro hcounted
    rw [hcovered]
    exact hlast ▸ Nat.le_trans hcounted h.covered_le

lemma committedHeight_tryFlushValidator (s : Node) :
    (s.tryFlushValidator true).committedHeight = some s.validator.validatedHeight := by
  unfold Node.tryFlushValidator
  cases hvalidator : s.validator with
  | utxo v => rfl
  | digest v => rfl

lemma Paced.finishSweep (h : p.Paced) (henv : env.flushOk = true)
    (hvalidator : validator.validatedHeight = p.node.validator.validatedHeight) :
    p.Keeps (p.withNode (Node.finishSweep { p.node with validator := validator } w env)
      (.resume env)) := by
  refine h.flush hvalidator hvalidator.le rfl rfl ?_ hvalidator
  rw [henv, committedHeight_tryFlushValidator]
  exact congrArg some hvalidator

lemma Paced.beginSweep (h : p.Paced) (hbefore : p.node.task.applying = 0) (downloaded now : ℕ) :
    p.Keeps (p.withNode (Node.beginSweep { p.node with downloadedHeight := downloaded } now)
      (.resume env)) := by
  have hbound := h.bound
  rw [hbefore] at hbound
  unfold Node.beginSweep
  dsimp only
  split
  · exact h.still rfl rfl rfl (.inr rfl) hbound trivial
  · split
    · exact h.still rfl rfl rfl (.inl rfl) hbound trivial
    · exact h.still rfl rfl rfl (.inl rfl) hbound trivial

lemma Paced.endScan (h : p.Paced) (hbefore : p.node.task.applying = 0) (newHeight now : ℕ) :
    p.Keeps (p.withNode (if p.node.downloadedHeight < newHeight then
        Node.beginSweep { p.node with downloadedHeight := newHeight } now
      else { p.node with task := .idle }) (.resume env)) := by
  split
  · exact h.beginSweep hbefore newHeight now
  · exact h.move hbefore (by simp) trivial

lemma Paced.grow (h : p.Paced) (hbefore : p.node.task.applying = 0)
    (hnext : validator.validatedHeight = p.node.validator.validatedHeight + 1)
    (happlying : task.applying = 1)
    (htask : task.Consistent validator.validatedHeight p.node.stateAppliedHeight p.covered) :
    p.Keeps (p.withNode { p.node with validator := validator, task := task } (.resume env)) := by
  have hbound := h.bound
  have hle := h.covered_le
  have hcache := h.cache_le
  have hcovered : (p.withNode { p.node with validator := validator, task := task }
      (.resume env)).covered = p.covered := by
    show min (Option.getD (match task with
      | .recordHeight _ outcome => outcome.committedHeight | _ => none) p.covered)
        validator.validatedHeight = p.covered
    split
    · cases happlying
    · rw [Option.getD_none]
      omega
  refine ⟨⟨?_, ?_, ?_, ?_⟩, ?_⟩
  · show _ ≤ validator.validatedHeight
    omega
  · show p.node.stateAppliedHeight ≤ validator.validatedHeight
    omega
  · show validator.validatedHeight ≤ max (p.withNode _ _).covered p.node.lastFlushHeight + p.interval +
      task.applying
    omega
  · rwa [hcovered]
  · intro hcounted
    rwa [hcovered]

lemma Paced.applyBlock {block : LoadedBlock} (h : p.Paced)
    (henv : env.flushOk = true) (htask : p.node.task = .applyBlock w block) :
    p.Keeps (p.withNode (p.node.applyBlock rules w block env) (.resume env)) := by
  have hheader : block.header.height = block.height := by
    have := h.task
    rwa [htask] at this
  have hbefore : p.node.task.applying = 0 := by
    rw [htask]
    rfl
  unfold Node.applyBlock
  split
  · exact h.finishSweep henv rfl
  next expected hexpected =>
    split
    next e validator happly =>
      exact h.finishSweep henv (Validator.applyState_error happly).1
    next outcome validator happly =>
      obtain ⟨hnext, hheight, -⟩ := Validator.applyState_ok happly
      have hat : block.height = validator.validatedHeight := by
        rw [hheight]
        exact hheader.symm
      split
      · exact h.grow hbefore (hheight.trans hnext) rfl hat
      · exact h.grow hbefore (hheight.trans hnext) rfl hat

lemma Paced.decide {height : ℕ} (h : p.Paced)
    (henv : env.flushOk = true) (htask : p.node.task = .applied w height) :
    p.Keeps (p.withNode (if p.dial.shouldFlush p.node.lastFlushHeight height env.heap then
        { p.node with
          task := .recordHeight (.midSweep w height) (p.node.tryFlushValidator env.flushOk) }
      else { p.node with task := .readHeader w (height + 1) }) (.resume env)) := by
  have hheight : height = p.node.validator.validatedHeight := by
    have := h.task
    rwa [htask] at this
  split
  · refine h.flush rfl h.cache_le rfl rfl ?_ hheight
    rw [henv, committedHeight_tryFlushValidator]
  next hno =>
    -- the interval is not reached, counted from the last flush
    have hinterval : height - p.node.lastFlushHeight < p.interval := by
      by_contra hreached
      exact hno (if_pos (Nat.le_of_not_lt hreached))
    refine h.still rfl rfl rfl (.inl rfl) ?_ trivial
    omega

lemma Paced.afterFlush
    (h : p.Paced) (hvalidator : s'.validator = p.node.validator)
    (hcache : s'.stateAppliedHeight = p.node.stateAppliedHeight)
    (hsettles : outcome.Settles point p.node.validator.validatedHeight p.node.stateAppliedHeight
      p.covered) :
    p.Keeps (p.withNode (s'.afterFlush point outcome) (.resume env)) := by
  obtain ⟨hok, hcovered, hpoint⟩ := hsettles
  -- both points set the mark to the height of the state and go on with no flush pending
  have hmarked : (s'.afterFlush point outcome).lastFlushHeight = p.covered ∧
      (s'.afterFlush point outcome).validator = p.node.validator ∧
      (s'.afterFlush point outcome).stateAppliedHeight = p.node.stateAppliedHeight ∧
      flushedBy (s'.afterFlush point outcome) (.resume env) = none ∧
      (s'.afterFlush point outcome).task.applying = 0 ∧
      ∀ v c d, (s'.afterFlush point outcome).task.Consistent v c d := by
    cases point with
    | midSweep w height =>
      have hheight : height = p.covered := Eq.trans hpoint hcovered.symm
      exact ⟨(if_neg hok).trans hheight, hvalidator, hcache, rfl, rfl, fun _ _ _ => trivial⟩
    | sweepEnd =>
      have hheight : p.node.stateAppliedHeight = p.covered := Eq.trans hpoint hcovered.symm
      exact ⟨(if_neg hok).trans (hcache.trans hheight), hvalidator, hcache, rfl, rfl,
        fun _ _ _ => trivial⟩
  generalize s'.afterFlush point outcome = s'' at hmarked
  obtain ⟨hlast, hvalidator', hcache', hflush, happlying, htask⟩ := hmarked
  have hcovered' : (p.withNode s'' (.resume env)).covered = p.covered := by
    show min ((flushedBy s'' (.resume env)).getD p.covered) s''.validator.validatedHeight = p.covered
    rw [hflush, hvalidator', hcovered, Option.getD_none, Nat.min_self]
  refine ⟨⟨?_, ?_, ?_, htask _ _ _⟩, ?_⟩
  · rw [hcovered']
    exact hvalidator' ▸ h.covered_le
  · show s''.stateAppliedHeight ≤ s''.validator.validatedHeight
    rw [hcache', hvalidator']
    exact h.cache_le
  · show s''.validator.validatedHeight ≤ max (p.withNode s'' _).covered s''.lastFlushHeight + _ + _
    rw [hcovered', hvalidator', hcovered]
    omega
  · intro _
    rw [hcovered']
    exact hlast.le

lemma Paced.resume (h : p.Paced) (henv : env.flushOk = true) :
    p.Keeps (p.withNode (p.node.resume rules { cfg with dial := p.dial } env) (.resume env)) := by
  have hconsistent := h.task
  have hbefore : ∀ task, p.node.task = task → task.applying = 0 → p.node.task.applying = 0 :=
    fun task htask h => htask ▸ h
  have hbound := h.bound
  unfold Node.resume
  cases htask : p.node.task with
  | idle =>
    refine h.still ?_ rfl rfl (.inl rfl) hbound hconsistent
    simp only [flushedBy, htask]
  | advanceDownloaded =>
    dsimp only
    split
    · exact h.move (hbefore _ htask rfl) (by simp) trivial
    · exact h.move (hbefore _ htask rfl) (by simp) trivial
  | scanHeader height chainHeight newHeight =>
    dsimp only
    split
    · exact h.move (hbefore _ htask rfl) (by simp) trivial
    · exact h.endScan (hbefore _ htask rfl) newHeight env.now
  | scanSections height chainHeight newHeight header =>
    dsimp only
    split
    · exact h.move (hbefore _ htask rfl) (by simp) trivial
    · exact h.endScan (hbefore _ htask rfl) newHeight env.now
  | startSweep => exact h.beginSweep (hbefore _ htask rfl) p.node.downloadedHeight env.now
  | readHeader w height =>
    dsimp only
    split
    next header hread =>
      split at hread
      · exact h.move (hbefore _ htask rfl) (by simp) (HeaderChain.height_of_headerAt hread)
      · cases hread
    · exact h.finishSweep henv rfl
  | readSections w height header =>
    dsimp only
    split
    next block hload =>
      obtain ⟨hheader, hheight⟩ := Node.header_of_loadSections hload
      rw [htask] at hconsistent
      refine h.move (hbefore _ htask rfl) (by simp) ?_
      show block.header.height = block.height
      rwa [hheader, hheight]
    · exact h.move (hbefore _ htask rfl) (by simp) trivial
  | readPreceding w block heights =>
    rw [htask] at hconsistent
    cases heights with
    | nil => exact h.move (hbefore _ htask rfl) (by simp) hconsistent
    | cons head heights => exact h.move (hbefore _ htask rfl) (by simp) hconsistent
  | applyBlock w block => exact h.applyBlock henv htask
  | install w height params update =>
    rw [htask] at hconsistent hbound
    exact h.still rfl rfl rfl (.inl rfl) hbound hconsistent
  | applied w height => exact h.decide henv htask
  | recordHeight point outcome =>
    rw [htask] at hconsistent hbound
    exact h.still rfl rfl rfl (.inl rfl) hbound hconsistent
  | flushStore point outcome =>
    rw [htask] at hconsistent
    exact h.move (hbefore _ htask rfl) (by simp) hconsistent
  | prune point outcome =>
    rw [htask] at hconsistent
    dsimp only
    split
    · exact h.afterFlush rfl rfl hconsistent
    · exact h.afterFlush rfl rfl hconsistent

/-! ## The other steps -/

/-- A reorg is handled. Only a rollback below the last flush leaves something that counts as flushed
and is not covered. -/
theorem Paced.handleReorg {s : Node} (h : p.Paced) (f : ℕ) (hvalidator : s.validator = p.node.validator)
    (hcache : s.stateAppliedHeight = p.node.stateAppliedHeight)
    (hlast : s.lastFlushHeight = p.node.lastFlushHeight) (hbefore : p.node.task.applying = 0) :
    (p.withNode (s.handleReorg f) .control).Paced ∧
      ((f < p.node.stateAppliedHeight → (s.rollbackTo f).2 = true → p.node.lastFlushHeight ≤ f) →
        p.node.lastFlushHeight ≤ p.covered → (p.withNode (s.handleReorg f) .control).node.lastFlushHeight ≤
          (p.withNode (s.handleReorg f) .control).covered) := by
  have hlast' : (s.handleReorg f).lastFlushHeight = p.node.lastFlushHeight := by
    unfold Node.handleReorg
    dsimp only
    split <;> exact hlast
  have hbound := h.bound
  have hcache' := h.cache_le
  obtain ⟨-, htask, hcases⟩ := Node.handleReorg_cases s f
  generalize s.handleReorg f = s' at *
  rcases hcases with ⟨-, hsame, hsame'⟩ | ⟨habove, hmoved, hrolled, header, u, -, hreset⟩
  · have hkeeps : p.Keeps (p.withNode s' .control) := by
      refine h.still rfl (by rw [hsame, hvalidator]) hlast' (.inl (hsame'.trans hcache)) ?_ ?_
      · rw [htask]
        omega
      · rw [htask]
        trivial
    exact ⟨hkeeps.paced, fun _ => hkeeps.counted⟩
  · have hheight : s'.validator.validatedHeight = f := (Validator.resetTo_ok hreset).1
    rw [hcache] at habove
    have hmin : (p.withNode s' .control).covered = min p.covered f := by
      show min p.covered s'.validator.validatedHeight = _
      rw [hheight]
    refine ⟨⟨?_, ?_, ?_, ?_⟩, ?_⟩
    · rw [hmin]
      show _ ≤ s'.validator.validatedHeight
      omega
    · show s'.stateAppliedHeight ≤ s'.validator.validatedHeight
      omega
    · show s'.validator.validatedHeight ≤ max (p.withNode s' _).covered s'.lastFlushHeight +
        p.interval + s'.task.applying
      omega
    · show s'.task.Consistent _ _ _
      rw [htask]
      trivial
    · intro hdeep hcounted
      have hle := hdeep habove hmoved
      show s'.lastFlushHeight ≤ _
      omega

lemma Paced.start (h : p.Paced) (task : SyncTask) (happlying : task.applying = 0)
    (htask : ∀ {v c d}, task.Consistent v c d) (hflush : ∀ s' : Node, flushedBy s' e = none) :
    p.Keeps (p.withNode (if p.node.task = .idle then { p.node with task := task } else p.node) e) := by
  have hbound := h.bound
  split
  next hidle =>
    rw [hidle] at hbound
    refine h.still (hflush _) rfl rfl (.inl rfl) ?_ htask
    rwa [happlying]
  · exact h.still (hflush _) rfl rfl (.inl rfl) hbound h.task

lemma Paced.syncStep (rules : NodeRules) (cfg : SyncConfig) (h : p.Paced) (hflush : p.FlushesInTime (.sync e)) :
    (p.syncStep rules cfg e).Paced ∧ (p.RollsBackAboveFlush (.sync e) →
      p.node.lastFlushHeight ≤ p.covered →
        (p.syncStep rules cfg e).node.lastFlushHeight ≤ (p.syncStep rules cfg e).covered) := by
  have hkeep : ∀ {p'}, p.Keeps p' → p'.Paced ∧ (p.RollsBackAboveFlush (.sync e) →
      p.node.lastFlushHeight ≤ p.covered → p'.node.lastFlushHeight ≤ p'.covered) :=
    fun hkeeps => ⟨hkeeps.paced, fun _ => hkeeps.counted⟩
  cases e with
  | batch now items => exact hkeep (h.still rfl rfl rfl (.inl rfl) h.bound h.task)
  | advance => exact hkeep (h.start .advanceDownloaded rfl trivial (fun _ => rfl))
  | sweep => exact hkeep (h.start .startSweep rfl trivial (fun _ => rfl))
  | control =>
    rcases Node.step_control_cases rules { cfg with dial := p.dial } p.node with
      ⟨-, control, -, heq⟩ | ⟨f, control, hhandled, -, hidle, heq⟩
    · have hkeeps : p.Keeps (p.withNode (p.node.step rules { cfg with dial := p.dial } .control)
          .control) := by
        rw [heq]
        exact h.still rfl rfl rfl (.inl rfl) h.bound h.task
      exact hkeep hkeeps
    · have hreorg := h.handleReorg (s := { p.node with
        pipeline := { p.node.pipeline with control := control } }) f rfl rfl rfl (by rw [hidle]; rfl)
      rw [← heq] at hreorg
      exact ⟨hreorg.1, fun hrolls => hreorg.2 (hrolls f hhandled)⟩
  | resume env => exact hkeep (h.resume hflush)

lemma Paced.maybeFireAtTip (h : p.Paced) (hintime : p.FlushesInTime .atTip) :
    p.Keeps p.maybeFireAtTip := by
  have hcovered := h.covered_le
  unfold PacedNode.maybeFireAtTip
  split
  next hfires =>
    have hidle := hfires.1
    cases hreopen : p.reopen with
    | true =>
      refine ⟨⟨Nat.le_refl _, h.cache_le, ?_, ?_⟩, fun hcounted => ?_⟩
      · show p.node.validator.validatedHeight ≤ max p.node.validator.validatedHeight _ + _ + _
        omega
      · show p.node.task.Consistent _ _ _
        rw [hidle]
        trivial
      · exact Nat.le_trans hcounted hcovered
    | false =>
      have hgap := hintime hfires hreopen
      unfold unflushed at hgap
      refine ⟨⟨hcovered, h.cache_le, ?_, ?_⟩, id⟩
      · show p.node.validator.validatedHeight ≤ max p.covered _ +
          (p.synced.override p.dial).effectiveFlushBounds.2 + _
        omega
      · show p.node.task.Consistent _ _ _
        rw [hidle]
        trivial
  · exact ⟨h, id⟩

/-- **One step.** -/
theorem paced_step {e : PacedEvent} (h : p.Paced ∧ p.node.lastFlushHeight ≤ p.covered)
    (hcond : p.KeepsGap e) :
    (p.step rules cfg e).Paced ∧
      (p.step rules cfg e).node.lastFlushHeight ≤ (p.step rules cfg e).covered := by
  obtain ⟨hflush, hrolls⟩ := hcond
  cases e with
  | sync e =>
    obtain ⟨hpaced, hcounted⟩ := h.1.syncStep rules cfg hflush
    exact ⟨hpaced, hcounted hrolls h.2⟩
  | atTip =>
    have hkeeps := h.1.maybeFireAtTip hflush
    exact ⟨hkeeps.paced, hkeeps.counted h.2⟩

/-- **The gap is bounded.** In every run in which flushes succeed, no rollback goes below the last
flush, and the settings change while the gap is within the new interval, the blocks that no flush
covers are at most the interval and the one being applied. -/
theorem unflushed_le_of_run (rules : NodeRules) (cfg : SyncConfig) {pipeline : ValidationPipeline}
    {validator : Validator} {dial : FlushDial} {synced : SyncedSettings} {reopen : Bool}
    {events : List PacedEvent}
    (hmeets : MeetsAll (step rules cfg) KeepsGap (.new pipeline validator dial synced reopen) events) :
    (events.foldl (step rules cfg) (.new pipeline validator dial synced reopen)).unflushed ≤
      (events.foldl (step rules cfg) (.new pipeline validator dial synced reopen)).interval + 1 := by
  obtain ⟨hpaced, hcounted⟩ := hmeets.invariant
    (P := fun p => p.Paced ∧ p.node.lastFlushHeight ≤ p.covered)
    (fun _ _ h hcond => paced_step h hcond)
    ⟨paced_new pipeline validator dial synced reopen, Nat.le_refl _⟩
  have hle := hpaced.unflushed_le
  omega

end PacedNode

/-! ## Three runs -/

def flushDial (maxBlocks : ℕ) : FlushDial where
  blocksToKeep := -1
  flushMinBlocks := 0
  flushMaxBlocks := maxBlocks
  flushHeapThresholdMb := 0

def pacedGenesis (maxBlocks : ℕ) (synced : SyncedSettings) : PacedNode :=
  .new (.new .testnet) (genesisUtxo 1000) (flushDial maxBlocks) synced false

def pacedStep : PacedNode → PacedEvent → PacedNode :=
  PacedNode.step (listNodeRules branchHeaders) (listConfig .utxo 1000)

def flushedEvents : List PacedEvent := (branchRun 30).dropLast.map .sync ++ [.atTip]

def reappliedEvents : List PacedEvent :=
  (branchRun 40 ++ SyncEvent.batch 10000 (sectionItems [12, 13, 14]) :: resumes 28).map .sync

def switchedEvents : List PacedEvent := (branchRun 19).dropLast.map .sync ++ [.atTip]

namespace PacedNode

theorem unflushed_le_of_run_flushed :
    (flushedEvents.foldl pacedStep (pacedGenesis 2 ⟨none, some 1, none⟩)).node.validator.validatedHeight =
        3 ∧
      (flushedEvents.foldl pacedStep (pacedGenesis 2 ⟨none, some 1, none⟩)).unflushed ≤
        (flushedEvents.foldl pacedStep (pacedGenesis 2 ⟨none, some 1, none⟩)).interval + 1 :=
  ⟨by decide +kernel, unflushed_le_of_run (listNodeRules branchHeaders) (listConfig .utxo 1000)
    (by decide +kernel)⟩

/-- With an interval of one block, three are applied and not flushed; with none, two are. -/
theorem unflushed_gt_of_rollback_or_switch :
    (MeetsAll pacedStep FlushesInTime (pacedGenesis 1 {}) reappliedEvents ∧
      (reappliedEvents.foldl pacedStep (pacedGenesis 1 {})).interval + 1 <
        (reappliedEvents.foldl pacedStep (pacedGenesis 1 {})).unflushed) ∧
    (MeetsAll pacedStep RollsBackAboveFlush (pacedGenesis 100 ⟨none, some 0, none⟩) switchedEvents ∧
      (switchedEvents.foldl pacedStep (pacedGenesis 100 ⟨none, some 0, none⟩)).interval + 1 <
        (switchedEvents.foldl pacedStep (pacedGenesis 100 ⟨none, some 0, none⟩)).unflushed) := by
  decide +kernel

end PacedNode

end ErgoNode
