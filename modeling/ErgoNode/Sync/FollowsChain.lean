import ErgoNode.Sync.Machine

/-!
# The state follows the chain

A reorg changes the chain at once and reaches the sync machine later, as an event. Once all events
are handled, the applied state should be on the new chain again. Whether to roll back is decided by
the machine's own copy of the applied height, which is reconciled at the end of a sweep, but not by
a sweep that finds a section missing. If the copy is at or below the fork point while the validator
is above it, the validator stays on the branch that left the chain.
-/

namespace ErgoNode

open List Validator

def HeaderChain.stateRootAt (c : HeaderChain) (genesisDigest : ADDigest) (h : ℕ) :
    Option ADDigest :=
  if h = 0 then some genesisDigest else (c.headerAt h).map (·.stateRoot)

namespace Node

/-- The validator's digest is the state root of the chain at the validator's height. -/
def OnChain (cfg : SyncConfig) (s : Node) : Prop :=
  s.chain.stateRootAt cfg.genesisDigest s.validator.validatedHeight =
    some s.validator.currentDigest

instance (cfg : SyncConfig) (s : Node) : Decidable (s.OnChain cfg) := by
  unfold OnChain
  infer_instance

def handledReorg (s : Node) : SyncEvent → Option ℕ
  | .control =>
    if s.task = .idle then
      match s.pipeline.control with
      | .reorg forkPoint _ _ :: _ => some forkPoint
      | _ => none
    else none
  | _ => none

def RollbackSucceeds (s : Node) (e : SyncEvent) : Prop :=
  ∀ f ∈ s.handledReorg e, f < s.stateAppliedHeight → (s.rollbackTo f).2 = true

/-- A handled reorg whose fork point is below the validator is also below the copy of the applied
height. -/
def CacheSeesReorg (s : Node) (e : SyncEvent) : Prop :=
  ∀ f ∈ s.handledReorg e, f < s.validator.validatedHeight → f < s.stateAppliedHeight

instance (s : Node) (e : SyncEvent) : Decidable (s.RollbackSucceeds e) := by
  unfold RollbackSucceeds
  infer_instance

instance (s : Node) (e : SyncEvent) : Decidable (s.CacheSeesReorg e) := by
  unfold CacheSeesReorg
  infer_instance

/-! ## Handling a reorg -/

variable {rules : NodeRules} {cfg : SyncConfig} {s : Node} {validator : Validator} {f : ℕ}

lemma step_control_cases (rules : NodeRules) (cfg : SyncConfig) (s : Node) :
    (s.handledReorg .control = none ∧ ∃ control, forkPoints control = s.queuedForkPoints ∧
        s.step rules cfg .control = { s with pipeline := { s.pipeline with control := control } }) ∨
      ∃ f control, s.handledReorg .control = some f ∧ s.queuedForkPoints = f :: forkPoints control ∧
        s.task = .idle ∧ s.step rules cfg .control =
          handleReorg { s with pipeline := { s.pipeline with control := control } } f := by
  unfold step
  by_cases hidle : s.task = .idle
  · rw [if_pos hidle]
    unfold handleControl
    cases hcontrol : s.pipeline.control with
    | nil => exact .inl ⟨by simp [handledReorg, hcontrol], s.pipeline.control, rfl, rfl⟩
    | cons event control =>
      cases event with
      | needModifier typeId id =>
        refine .inl ⟨by simp [handledReorg, hidle, hcontrol], control, ?_, rfl⟩
        rw [queuedForkPoints, hcontrol, forkPoints_needModifier]
      | reorg f oldTip newTip =>
        refine .inr ⟨f, control, by simp [handledReorg, hidle, hcontrol], ?_, hidle, rfl⟩
        rw [queuedForkPoints, hcontrol, forkPoints_reorg]
  · rw [if_neg hidle]
    exact .inl ⟨by simp [handledReorg, hidle], s.pipeline.control, rfl, rfl⟩

lemma rollbackTo_eq_true (h : s.rollbackTo f = (validator, true)) :
    ∃ header u, s.chain.headerAt f = some header ∧
      s.validator.resetTo f header.stateRoot = (.ok u, validator) := by
  unfold rollbackTo at h
  split at h
  · cases h
  next header hheader =>
    split at h
    next u v hreset =>
      cases h
      exact ⟨header, u, hheader, hreset⟩
    · cases h

lemma rollbackTo_eq_false (h : s.rollbackTo f = (validator, false)) :
    validator = s.validator := by
  unfold rollbackTo at h
  split at h
  · cases h
    rfl
  · split at h
    · cases h
    next e v hreset =>
      cases h
      exact resetTo_error hreset

lemma handleReorg_cases (s : Node) (f : ℕ) :
    (handleReorg s f).pipeline = s.pipeline ∧ (handleReorg s f).task = .advanceDownloaded ∧
      ((s.stateAppliedHeight ≤ f ∨ (s.rollbackTo f).2 = false) ∧
          (handleReorg s f).validator = s.validator ∧
          (handleReorg s f).stateAppliedHeight = s.stateAppliedHeight ∨
        f < s.stateAppliedHeight ∧ (s.rollbackTo f).2 = true ∧
          (handleReorg s f).stateAppliedHeight = f ∧
          ∃ header u, s.chain.headerAt f = some header ∧
            s.validator.resetTo f header.stateRoot = (.ok u, (handleReorg s f).validator)) := by
  by_cases habove : f < s.stateAppliedHeight
  · cases hroll : s.rollbackTo f with
    | mk validator moved =>
      have heq : handleReorg s f = { s with
          downloadedHeight := min s.downloadedHeight f
          task := .advanceDownloaded
          validator := validator
          stateAppliedHeight := if moved then f else s.stateAppliedHeight } := by
        have hframe : Node.rollbackTo { s with
            downloadedHeight := min s.downloadedHeight f, task := .advanceDownloaded } f =
            (validator, moved) := hroll
        simp only [handleReorg, habove, if_true, hframe]
      rw [heq]
      cases moved with
      | true =>
        exact ⟨rfl, rfl, .inr ⟨habove, rfl, rfl, rollbackTo_eq_true hroll⟩⟩
      | false => exact ⟨rfl, rfl, .inl ⟨.inr rfl, rollbackTo_eq_false hroll, rfl⟩⟩
  · have heq : handleReorg s f = { s with
        downloadedHeight := min s.downloadedHeight f, task := .advanceDownloaded } := by
      simp only [handleReorg, habove, if_false]
    rw [heq]
    exact ⟨rfl, rfl, .inl ⟨.inl (Nat.le_of_not_lt habove), rfl, rfl⟩⟩

/-- Handling a reorg that the copy sees and whose rollback succeeds. -/
theorem handled_cases (rules : NodeRules) (cfg : SyncConfig) (hf : s.handledReorg .control = some f)
    (hsees : s.CacheSeesReorg .control) (hrolls : s.RollbackSucceeds .control) :
    ∃ control, s.queuedForkPoints = f :: forkPoints control ∧
      (s.step rules cfg .control).pipeline = { s.pipeline with control := control } ∧
      (s.step rules cfg .control).task = .advanceDownloaded ∧
      (s.validator.validatedHeight ≤ f ∧ (s.step rules cfg .control).validator = s.validator ∧
          (s.step rules cfg .control).stateAppliedHeight = s.stateAppliedHeight ∨
        f < s.stateAppliedHeight ∧ (s.step rules cfg .control).stateAppliedHeight = f ∧
          ∃ header u, s.chain.headerAt f = some header ∧
            s.validator.resetTo f header.stateRoot =
              (.ok u, (s.step rules cfg .control).validator)) := by
  rcases step_control_cases rules cfg s with ⟨hnone, -⟩ | ⟨f', control, hhandled, hqueue, -, heq⟩
  · cases hnone.symm.trans hf
  · obtain rfl : f' = f := Option.some.inj (hhandled.symm.trans hf)
    obtain ⟨hpipeline, htask, hcases⟩ :=
      handleReorg_cases { s with pipeline := { s.pipeline with control := control } } f'
    rw [heq]
    refine ⟨control, hqueue, hpipeline, htask, ?_⟩
    rcases hcases with ⟨hkept, hvalidator, hcache⟩ | ⟨habove, -, hcache, hreset⟩
    · refine .inl ⟨?_, hvalidator, hcache⟩
      -- not rolled back, so the validator was not above the fork point
      by_contra hlt
      have habove := hsees f' hf (Nat.lt_of_not_le hlt)
      have hmoved := hrolls f' hf habove
      rcases hkept with hcached | hfailed
      · exact absurd habove (Nat.not_lt.2 hcached)
      · rw [show (s.rollbackTo f').2 = false from hfailed] at hmoved
        cases hmoved
    · exact .inr ⟨habove, hcache, hreset⟩

/-! ## The invariant -/

/-- Between the steps the copy is not ahead of the validator, and what validator and task rely on is
on the chain as long as no queued reorg is below it. -/
structure Follows (cfg : SyncConfig) (s : Node) : Prop where
  positive : ∀ e ∈ s.chain.entries, 0 < e.header.height
  /-- The copy of the applied height is at most the validator's height. -/
  cache_le : s.stateAppliedHeight ≤ s.validator.validatedHeight
  onChain : (∀ q ∈ s.queuedForkPoints, s.validator.validatedHeight ≤ q) → s.OnChain cfg
  /-- The header the task holds is on the chain unless a queued reorg is below it. -/
  held : ∀ header, s.task.held = some header →
    (∀ q ∈ s.queuedForkPoints, header.height ≤ q) →
    s.chain.headerAt header.height = some header

lemma OnChain.of_headerAt {s' : Node} (h : s.OnChain cfg) (hvalidator : s'.validator = s.validator)
    (hkept : ∀ x, s.chain.headerAt s.validator.validatedHeight = some x →
      s'.chain.headerAt s.validator.validatedHeight = some x) : s'.OnChain cfg := by
  unfold OnChain HeaderChain.stateRootAt at h ⊢
  rw [hvalidator]
  split at h
  next hzero =>
    rwa [if_pos hzero]
  next hpos =>
    obtain ⟨x, hx, hroot⟩ := Option.map_eq_some_iff.1 h
    rw [if_neg hpos, hkept x hx, ← hroot]
    rfl

lemma onChain_of_headerAt {header : Header} (hheader : s.chain.headerAt header.height = some header)
    (hpos : header.height ≠ 0) (hheight : s.validator.validatedHeight = header.height)
    (hdigest : s.validator.currentDigest = header.stateRoot) : s.OnChain cfg := by
  unfold OnChain HeaderChain.stateRootAt
  rw [hheight, if_neg hpos, hheader, hdigest]
  rfl

namespace Follows

lemma batch (h : s.Follows cfg) (now : ℕ) (items : List ModifierBatchItem) :
    (s.step rules cfg (.batch now items)).Follows cfg := by
  obtain ⟨-, hpositive, new, hnew, hkept⟩ :=
    processBatch_frame rules.toPipelineRules now s.pipeline items
  have hqueue : (s.step rules cfg (.batch now items)).queuedForkPoints =
      s.queuedForkPoints ++ forkPoints new := by
    show forkPoints (processBatch rules.toPipelineRules now s.pipeline items).control = _
    rw [hnew, forkPoints_append]
    rfl
  refine ⟨fun e he => (hpositive e he).elim (h.positive e) id, h.cache_le, ?_, ?_⟩
  · intro hbelow
    rw [hqueue] at hbelow
    have hon := h.onChain (fun q hq => hbelow q (mem_append_left _ hq))
    have hvalidator : (s.step rules cfg (.batch now items)).validator = s.validator := rfl
    exact hon.of_headerAt hvalidator
      (fun x hx => hkept _ x hx (fun f hf => hbelow f (mem_append_right _ hf)))
  · intro header hheld hbelow
    rw [hqueue] at hbelow
    exact hkept _ _ (h.held header hheld (fun q hq => hbelow q (mem_append_left _ hq)))
      (fun f hf => hbelow f (mem_append_right _ hf))

lemma quiet (h : s.Follows cfg) {s' : Node} (hq : s.Quiet s') : s'.Follows cfg := by
  have hqueue : s'.queuedForkPoints = s.queuedForkPoints := by
    rw [queuedForkPoints, hq.control_eq]
    rfl
  refine ⟨?_, ?_, ?_, ?_⟩
  · rw [hq.chain_eq]
    exact h.positive
  · rw [hq.validator_eq]
    rcases hq.cache with hcache | hcache
    · rw [hcache]
      exact h.cache_le
    · exact hcache.le
  · rw [hqueue, hq.validator_eq]
    intro hbelow
    apply (h.onChain hbelow).of_headerAt hq.validator_eq
    rw [hq.chain_eq]
    exact fun _ hx => hx
  · rw [hqueue, hq.chain_eq]
    intro header hheld hbelow
    rcases hq.held header hheld with hold | hread
    · exact h.held header hold hbelow
    · exact hread

lemma resume (h : s.Follows cfg) (env : StepEnv) :
    (s.step rules cfg (.resume env)).Follows cfg := by
  have hresumed := resumed_resume rules cfg s env
  show (s.resume rules cfg env).Follows cfg
  generalize s.resume rules cfg env = s' at hresumed
  cases hresumed with
  | quiet hq => exact h.quiet hq
  | @applied w block expected outcome validator task htask hexpected happly hheld hinstall =>
    obtain ⟨hnext, hheight, hdigest, -⟩ := applyState_ok happly
    have hcache := h.cache_le
    refine ⟨h.positive, ?_, ?_, by simp [hheld]⟩
    · show s.stateAppliedHeight ≤ validator.validatedHeight
      omega
    · intro hbelow
      -- no queued reorg is below the block, so its header is still the chain's
      have hheader := h.held block.header (by rw [htask]; rfl)
        (fun q hq => hheight ▸ hbelow q hq)
      refine onChain_of_headerAt hheader ?_ hheight hdigest
      have : block.header.height = s.validator.validatedHeight + 1 := hnext
      omega
  | @rejected w block expected e validator htask hexpected happly =>
    obtain ⟨hheight, hdigest⟩ := applyState_error happly
    refine ⟨h.positive, Nat.le_refl _, ?_, by simp [finishSweep, SyncTask.held]⟩
    intro hbelow
    have hon := h.onChain (fun q hq => by
      have : validator.validatedHeight ≤ q := hbelow q hq
      omega)
    show s.chain.stateRootAt cfg.genesisDigest validator.validatedHeight =
      some validator.currentDigest
    rwa [hheight, hdigest]
  | installed htask =>
    exact ⟨h.positive, h.cache_le,
      fun hbelow => (h.onChain hbelow).of_headerAt rfl (fun _ hx => hx), by simp [SyncTask.held]⟩

lemma control (h : s.Follows cfg) (hsees : s.CacheSeesReorg .control)
    (hrolls : s.RollbackSucceeds .control) : (s.step rules cfg .control).Follows cfg := by
  rcases step_control_cases rules cfg s with ⟨-, control, hqueue, heq⟩ | ⟨f, -, hhandled, -⟩
  · rw [heq]
    refine ⟨h.positive, h.cache_le, ?_, ?_⟩
    · intro hbelow
      exact (h.onChain (hqueue ▸ hbelow)).of_headerAt rfl (fun _ hx => hx)
    · intro header hheld hbelow
      exact h.held header hheld (hqueue ▸ hbelow)
  · obtain ⟨control, hqueue, hpipeline, htask, hcases⟩ :=
      handled_cases rules cfg hhandled hsees hrolls
    generalize s.step rules cfg .control = s' at hpipeline htask hcases
    have hchain : s'.chain = s.chain := by rw [chain, hpipeline]
    rcases hcases with ⟨hle, hvalidator, hcache⟩ | ⟨-, hcache, header, u, hheader, hreset⟩
    · refine ⟨hchain ▸ h.positive, ?_, ?_, by simp [htask, SyncTask.held]⟩
      · rw [hcache, hvalidator]
        exact h.cache_le
      · intro hbelow
        have hon : s.OnChain cfg := by
          apply h.onChain
          rw [hqueue]
          intro q hq
          rcases mem_cons.1 hq with rfl | hq
          · exact hle
          · rw [← hvalidator]
            exact hbelow q (by rw [queuedForkPoints, hpipeline]; exact hq)
        exact hon.of_headerAt hvalidator (by rw [hchain]; exact fun _ hx => hx)
    · -- the validator is at the state of the header at the fork point
      obtain ⟨hheight, hdigest⟩ := resetTo_ok hreset
      have hat := HeaderChain.height_of_headerAt hheader
      refine ⟨hchain ▸ h.positive, by rw [hcache, hheight], ?_, by simp [htask, SyncTask.held]⟩
      intro _
      have hpos : header.height ≠ 0 := by
        obtain ⟨e, he, rfl⟩ := Option.map_eq_some_iff.1 hheader
        exact Nat.ne_of_gt (h.positive e (mem_of_find?_eq_some he))
      refine onChain_of_headerAt ?_ hpos (hheight.trans hat.symm) hdigest
      rwa [hchain, hat]

lemma step (h : s.Follows cfg) (e : SyncEvent) (hsees : s.CacheSeesReorg e)
    (hrolls : s.RollbackSucceeds e) : (s.step rules cfg e).Follows cfg := by
  have hmove : ∀ task : SyncTask, task.held = none → Follows cfg { s with task := task } := by
    intro task hheld
    exact ⟨h.positive, h.cache_le, fun hbelow => (h.onChain hbelow).of_headerAt rfl
      (fun _ hx => hx), by simp [hheld]⟩
  cases e with
  | batch now items => exact h.batch now items
  | control => exact h.control hsees hrolls
  | advance =>
    unfold Node.step
    dsimp only
    split
    · exact hmove .advanceDownloaded rfl
    · exact h
  | sweep =>
    unfold Node.step
    dsimp only
    split
    · exact hmove .startSweep rfl
    · exact h
  | resume env => exact h.resume env

end Follows

end Node

/-! ## Runs -/

/-- A node with the fork points of the reorgs made since its state was last on the chain. -/
structure Tracked where
  node : Node
  reorgsSince : List ℕ

namespace Tracked

def announced (s s' : Node) : List ℕ := s'.queuedForkPoints.drop s.queuedForkPoints.length

/-- One step, recording the reorgs it makes. A state on the chain starts a new record. -/
def step (rules : NodeRules) (cfg : SyncConfig) (t : Tracked) (e : SyncEvent) : Tracked where
  node := t.node.step rules cfg e
  reorgsSince := (if t.node.OnChain cfg then [] else t.reorgsSince) ++
    announced t.node (t.node.step rules cfg e)

def run (rules : NodeRules) (cfg : SyncConfig) (t : Tracked) (events : List SyncEvent) : Tracked :=
  events.foldl (step rules cfg) t

/-- A recorded reorg is at or above the validator, or above one that is still queued. -/
structure Inv (cfg : SyncConfig) (t : Tracked) : Prop where
  follows : t.node.Follows cfg
  /-- The validator is below every recorded fork point, unless a queued reorg is. -/
  recorded : ∀ f ∈ t.reorgsSince, t.node.validator.validatedHeight ≤ f ∨
    ∃ q ∈ t.node.queuedForkPoints, q ≤ f

variable {rules : NodeRules} {cfg : SyncConfig} {t : Tracked}

lemma Inv.exists_queued (h : t.Inv cfg) (hoff : ¬t.node.OnChain cfg) :
    ∃ q ∈ t.node.queuedForkPoints, q < t.node.validator.validatedHeight := by
  by_contra hnone
  push Not at hnone
  exact hoff (h.follows.onChain hnone)

/-- In one step the queue grows, or the validator's height grows by at most one, or a reorg is
handled. -/
theorem step_moves (rules : NodeRules) {s : Node} (h : s.Follows cfg) (e : SyncEvent)
    (hsees : s.CacheSeesReorg e) (hrolls : s.RollbackSucceeds e) :
    (∃ new, (s.step rules cfg e).queuedForkPoints = s.queuedForkPoints ++ new ∧
        (s.step rules cfg e).validator.validatedHeight = s.validator.validatedHeight) ∨
      ((s.step rules cfg e).queuedForkPoints = s.queuedForkPoints ∧
        (s.step rules cfg e).validator.validatedHeight = s.validator.validatedHeight + 1) ∨
      ∃ f, s.queuedForkPoints = f :: (s.step rules cfg e).queuedForkPoints ∧
        (s.step rules cfg e).validator.validatedHeight ≤ f ∧
        (s.step rules cfg e).validator.validatedHeight ≤ s.validator.validatedHeight := by
  cases e with
  | batch now items =>
    obtain ⟨-, -, new, hnew, -⟩ := processBatch_frame rules.toPipelineRules now s.pipeline items
    refine .inl ⟨forkPoints new, ?_, rfl⟩
    show forkPoints (processBatch rules.toPipelineRules now s.pipeline items).control = _
    rw [hnew, forkPoints_append]
    rfl
  | control =>
    rcases Node.step_control_cases rules cfg s with ⟨-, control, hqueue, heq⟩ |
      ⟨f, -, hhandled, -⟩
    · rw [heq]
      exact .inl ⟨[], by rw [append_nil, ← hqueue]; rfl, rfl⟩
    · obtain ⟨control, hqueue, hpipeline, -, hcases⟩ :=
        Node.handled_cases rules cfg hhandled hsees hrolls
      refine .inr (.inr ⟨f, ?_, ?_⟩)
      · rw [hqueue, Node.queuedForkPoints, hpipeline]
      · rcases hcases with ⟨hle, hvalidator, -⟩ | ⟨habove, -, header, u, -, hreset⟩
        · rw [hvalidator]
          exact ⟨hle, Nat.le_refl _⟩
        · rw [(resetTo_ok hreset).1]
          exact ⟨Nat.le_refl _, Nat.le_of_lt (Nat.lt_of_lt_of_le habove h.cache_le)⟩
  | advance =>
    refine .inl ⟨[], ?_, ?_⟩ <;> unfold Node.step <;> dsimp only <;> split <;>
      simp [Node.queuedForkPoints]
  | sweep =>
    refine .inl ⟨[], ?_, ?_⟩ <;> unfold Node.step <;> dsimp only <;> split <;>
      simp [Node.queuedForkPoints]
  | resume env =>
    have hresumed := Node.resumed_resume rules cfg s env
    rw [Node.step_resume]
    generalize s.resume rules cfg env = s' at hresumed
    cases hresumed with
    | quiet hq =>
      refine .inl ⟨[], ?_, by rw [hq.validator_eq]⟩
      rw [append_nil, Node.queuedForkPoints, hq.control_eq]
      rfl
    | applied htask hexpected happly hheld hinstall =>
      obtain ⟨hnext, hheight, -⟩ := applyState_ok happly
      exact .inr (.inl ⟨rfl, hheight.trans hnext⟩)
    | rejected htask hexpected happly =>
      exact .inl ⟨[], by rw [append_nil]; rfl, (applyState_error happly).1⟩
    | installed htask => exact .inl ⟨[], by rw [append_nil]; rfl, rfl⟩

lemma Inv.step (h : t.Inv cfg) (e : SyncEvent) (hsees : t.node.CacheSeesReorg e)
    (hrolls : t.node.RollbackSucceeds e) : (t.step rules cfg e).Inv cfg := by
  refine ⟨h.follows.step e hsees hrolls, ?_⟩
  intro f hf
  -- a recorded reorg was recorded while off the chain, or made by this step
  have hsplit : f ∈ t.reorgsSince ∧ ¬t.node.OnChain cfg ∨
      f ∈ announced t.node (t.node.step rules cfg e) := by
    rcases mem_append.1 hf with hold | hnew
    · split at hold
      · cases hold
      next hoff =>
        exact .inl ⟨hold, hoff⟩
    · exact .inr hnew
  show (t.node.step rules cfg e).validator.validatedHeight ≤ f ∨
    ∃ q ∈ (t.node.step rules cfg e).queuedForkPoints, q ≤ f
  rcases hsplit with ⟨hold, hoff⟩ | hnew
  · obtain ⟨below, hbelow, hlt⟩ := h.exists_queued hoff
    rcases step_moves rules h.follows e hsees hrolls with ⟨new, hqueue, hheight⟩ |
      ⟨hqueue, hheight⟩ | ⟨g, hqueue, hle, hle'⟩
    · rw [hqueue, hheight]
      rcases h.recorded f hold with hf | ⟨q, hq, hqf⟩
      · exact .inl hf
      · exact .inr ⟨q, mem_append_left _ hq, hqf⟩
    · -- one more block: off the chain a queued reorg is below the validator anyway
      rw [hqueue]
      rcases h.recorded f hold with hf | hq
      · exact .inr ⟨below, hbelow, by omega⟩
      · exact .inr hq
    · rcases h.recorded f hold with hf | ⟨q, hq, hqf⟩
      · exact .inl (by omega)
      · rw [hqueue] at hq
        rcases mem_cons.1 hq with rfl | hq
        · exact .inl (by omega)
        · exact .inr ⟨q, hq, hqf⟩
  · unfold announced at hnew
    exact .inr ⟨f, mem_of_mem_drop hnew, Nat.le_refl f⟩

end Tracked

/-- **The state follows the chain.** Take a node at a state on its chain, and any interleaving in
which every handled reorg below the validator is below the machine's copy of the applied height and
every rollback succeeds. Whenever no reorg is queued, the validator is at or below the fork point of
every reorg since it was last on the chain, and its digest is the state root of the chain at its
height. -/
theorem tracked_followsChain (rules : NodeRules) (cfg : SyncConfig) (p : ValidationPipeline)
    (v : Validator) (lastFlush : ℕ) (events : List SyncEvent)
    (hpositive : ∀ e ∈ p.chain.entries, 0 < e.header.height)
    (hstart : (Node.new p v lastFlush).OnChain cfg)
    (hrun : MeetsAll (Node.step rules cfg)
      (fun s e => s.CacheSeesReorg e ∧ s.RollbackSucceeds e) (.new p v lastFlush) events) :
    let t := Tracked.run rules cfg ⟨.new p v lastFlush, []⟩ events
    t.node = (Node.new p v lastFlush).run rules cfg events ∧
      (t.node.queuedForkPoints = [] →
        (∀ f ∈ t.reorgsSince, t.node.validator.validatedHeight ≤ f) ∧ t.node.OnChain cfg) := by
  intro t
  have hproject : ∀ (t : Tracked) e, (t.step rules cfg e).node = t.node.step rules cfg e :=
    fun _ _ => rfl
  refine ⟨MeetsAll.foldl_project hproject _ events, fun hhandled => ?_⟩
  have hinit : Tracked.Inv cfg ⟨.new p v lastFlush, []⟩ :=
    ⟨⟨hpositive, Nat.le_refl _, fun _ => hstart, by simp [Node.new, SyncTask.held]⟩, by simp⟩
  have hinv : t.Inv cfg :=
    (MeetsAll.lift hproject hrun).invariant (fun t e ht hmeets => ht.step e hmeets.1 hmeets.2) hinit
  refine ⟨fun f hf => ?_, hinv.follows.onChain (by simp [hhandled])⟩
  rcases hinv.recorded f hf with hle | ⟨q, hq, -⟩
  · exact hle
  · rw [hhandled] at hq
    cases hq

def branchHeaders : List Header :=
  [listHeader 1 0 1 1001, listHeader 2 1 2 1003, listHeader 3 2 3 1006,
    listHeader 12 1 2 1013, listHeader 13 12 3 1026, listHeader 14 13 4 1040]

/-- Three blocks arrive and a sweep runs for `n` steps; then a branch replaces the chain, the sweep
runs on, and the reorg is handled. -/
def branchRun (n : ℕ) : List SyncEvent :=
  [.batch 10000 (headerItems [0, 1, 2]), .batch 10000 (sectionItems [1, 2, 3]), .advance] ++
    resumes n ++ [.batch 10000 (headerItems [3, 4, 5])] ++ resumes 2 ++ [.control]

/-- After 30 steps the sweep has applied 1, 2, 3 and ended: the reorg rolls the state back to 1. -/
theorem tracked_followsChain_branchRun :
    let t := Tracked.run (listNodeRules branchHeaders) (listConfig .utxo 1000)
      ⟨.new (.new .testnet) (genesisUtxo 1000) 0, []⟩ (branchRun 30)
    t.reorgsSince = [1] ∧ t.node.validator.validatedHeight = 1 ∧
      t.node.OnChain (listConfig .utxo 1000) := by
  intro t
  have hqueue : t.node.queuedForkPoints = [] := by decide +kernel
  have hfollows := (tracked_followsChain (listNodeRules branchHeaders) (listConfig .utxo 1000)
    (.new .testnet) (genesisUtxo 1000) 0 (branchRun 30) (by decide) (by decide)
    (by decide +kernel)).2 hqueue
  exact ⟨by decide +kernel, by decide +kernel, hfollows.2⟩

/-- After 19 steps the sweep has applied 1 and 2, and returns early at 13, whose sections are
missing; the copy is still 0 when the reorg is handled, and the validator stays at 2. No rollback
failed. -/
theorem staleCache_not_onChain :
    let t := Tracked.run (listNodeRules branchHeaders) (listConfig .utxo 1000)
      ⟨.new (.new .testnet) (genesisUtxo 1000) 0, []⟩ (branchRun 19)
    MeetsAll (Node.step (listNodeRules branchHeaders) (listConfig .utxo 1000)) Node.RollbackSucceeds
        (.new (.new .testnet) (genesisUtxo 1000) 0) (branchRun 19) ∧
      t.node.queuedForkPoints = [] ∧ t.reorgsSince = [1] ∧
      t.node.validator.validatedHeight = 2 ∧ ¬t.node.OnChain (listConfig .utxo 1000) := by
  decide +kernel

end ErgoNode
