import ErgoNode.Pipeline.Scores

/-!
# Fork choice by cumulative score

A batch records a reorg when a fork header beats the best chain, and executes it after its last
header. In between, later headers of the batch may extend the best chain, and the recorded score is
not compared again. This file says exactly when an executed reorg gains work.
-/

namespace ErgoNode

open List Option

variable {rules : PipelineRules} {now : ℕ}
variable {s s' : BatchState} {c₀ : HeaderChain} {score : ℕ} {xs : List RawHeader}
  {p : ValidationPipeline} {branch : List RawHeader} {es : List ChainEntry}

/-! ## Definitions -/

/-- The score that the branch recorded for a reorg is stored with. -/
def recordedScore (s : BatchState) : Option ℕ :=
  s.pendingReorg.bind (fun b => b.2.getLast?.bind (fun x => storedScore s.store x.1.id))

/-- If the reorg recorded by the loop is executed, the new chain has more work than the one it
replaces. -/
def ReorgGains (rules : PipelineRules) (now : ℕ) (s : BatchState) : Prop :=
  (executeReorg rules now s).2 ≠ none →
    s.chain.cumulativeScore < (executeReorg rules now s).1.chain.cumulativeScore

def RunGainsWork (rules : PipelineRules) :
    ValidationPipeline → List (ℕ × List ModifierBatchItem) → Prop
  | _, [] => True
  | p, b :: rest => ReorgGains rules b.1 (loopEnd rules b.1 p b.2) ∧
      RunGainsWork rules (processBatch rules b.1 p b.2) rest

instance (s : BatchState) : Decidable (ReorgGains rules now s) := by
  unfold ReorgGains
  infer_instance

def decideRunGainsWork (rules : PipelineRules) : (p : ValidationPipeline) →
    (batches : List (ℕ × List ModifierBatchItem)) → Decidable (RunGainsWork rules p batches)
  | _, [] => inferInstanceAs (Decidable True)
  | p, b :: rest =>
    have := decideRunGainsWork rules (processBatch rules b.1 p b.2) rest
    inferInstanceAs (Decidable (ReorgGains rules b.1 (loopEnd rules b.1 p b.2) ∧ _))

instance (p : ValidationPipeline) (batches : List (ℕ × List ModifierBatchItem)) :
    Decidable (RunGainsWork rules p batches) :=
  decideRunGainsWork rules p batches

/-- A header that comes after the recorded one leaves the best chain below the recorded score. -/
def StepKeepsLead (rules : PipelineRules) (now : ℕ) (s : BatchState) (x : RawHeader) : Prop :=
  ∀ score ∈ recordedScore s, (processHeader rules now s x).chain.cumulativeScore < score

def LoopKeepsLead (rules : PipelineRules) (now : ℕ) : BatchState → List RawHeader → Prop
  | _, [] => True
  | s, x :: xs => StepKeepsLead rules now s x ∧
      LoopKeepsLead rules now (processHeader rules now s x) xs

def AcceptsReorg (rules : PipelineRules) (now : ℕ) (s : BatchState) : Prop :=
  ∃ b ∈ s.pendingReorg,
    (s.chain.tryReorgDeep rules.toHeaderRules now b.1 (b.2.map Prod.fst)).1.isOk = true

def BatchKeepsLead (rules : PipelineRules) (now : ℕ) (p : ValidationPipeline)
    (batch : List ModifierBatchItem) : Prop :=
  AcceptsReorg rules now (loopEnd rules now p batch) →
    LoopKeepsLead rules now (startBatch p) (batchHeaders rules batch)

def RunKeepsLead (rules : PipelineRules) :
    ValidationPipeline → List (ℕ × List ModifierBatchItem) → Prop
  | _, [] => True
  | p, b :: rest => BatchKeepsLead rules b.1 p b.2 ∧
      RunKeepsLead rules (processBatch rules b.1 p b.2) rest

/-! ## What a step does to the lead -/

lemma cumulativeScore_le_append {hrules : HeaderRules} {c : HeaderChain}
    (hlinked : ({ c with entries := c.entries ++ es } : HeaderChain).Linked hrules) :
    c.cumulativeScore ≤ ({ c with entries := c.entries ++ es } : HeaderChain).cumulativeScore := by
  induction es generalizing c with
  | nil => simp
  | cons e es ih =>
    have hsplit : c.entries ++ e :: es = (c.entries ++ [e]) ++ es := by simp
    simp only [hsplit] at hlinked ⊢
    refine Nat.le_trans ?_ (ih (c := { c with entries := c.entries ++ [e] }) hlinked)
    have hleft : ({ c with entries := c.entries ++ [e] } : HeaderChain).Linked hrules :=
      hlinked.left_of_append
    rw [hleft.cumulativeScore_eq (e := e) (by simp)]
    cases hlast : c.entries.getLast? with
    | none =>
      rw [getLast?_eq_none_iff] at hlast
      simp [HeaderChain.cumulativeScore, HeaderChain.scoreAt,
        HeaderChain.entryAt_of_entries_nil hlast]
    | some last =>
      have hc : c.Linked hrules := hleft.left_of_append
      rw [hc.cumulativeScore_eq hlast]
      obtain ⟨init, hinit⟩ := getLast?_eq_some_iff.1 hlast
      rw [HeaderChain.Linked] at hleft
      rw [hinit, append_assoc, singleton_append] at hleft
      have hfollows := (isChain_cons_cons.1 hleft.right_of_append).1
      rw [hfollows.score_eq]
      omega

/-- What every iteration keeps: scores in the store, the recorded reorg, and the chain up to its
tip. -/
structure Grows (s s' : BatchState) : Prop where
  keepsScores : KeepsScores s.store s'.store
  pending : s.pendingReorg ≠ none → s'.pendingReorg = s.pendingReorg
  chain : ∃ es, s'.chain = { s.chain with entries := s.chain.entries ++ es }

lemma Grows.refl (s : BatchState) : Grows s s :=
  ⟨fun _ _ h => h, fun _ => rfl, [], by simp⟩

lemma Grows.trans {s₁ s₂ s₃ : BatchState} (h : Grows s₁ s₂) (h' : Grows s₂ s₃) :
    Grows s₁ s₃ := by
  refine ⟨fun id sc hsc => h'.keepsScores id sc (h.keepsScores id sc hsc), ?_, ?_⟩
  · intro hne
    have heq := h.pending hne
    rw [← heq]
    exact h'.pending (heq ▸ hne)
  · obtain ⟨es, hes⟩ := h.chain
    obtain ⟨es', hes'⟩ := h'.chain
    exact ⟨es ++ es', by rw [hes', hes]; simp⟩

lemma Grows.chainHeader {header : Header} {raw : Bytes} {chain : HeaderChain}
    (hlinked : s.chain.Linked rules.toHeaderRules)
    (h : s.chain.tryAppend rules.toHeaderRules now header = (.ok .extended, chain)) :
    Grows s (chainHeader s chain header raw) := by
  obtain ⟨-, -, score, hchain⟩ := exists_entries_of_tryAppend hlinked h
  exact ⟨fun _ _ h => h, fun _ => rfl, [⟨header, score⟩], hchain⟩

lemma grows_drainBuffer (hloop : LoopInv rules c₀ s) (fuel : ℕ) (nextParent : BlockId) :
    Grows s (drainBuffer rules now fuel nextParent s) ∧
      (drainBuffer rules now fuel nextParent s).pendingReorg = s.pendingReorg := by
  refine (drainBuffer_induction
    (P := fun s' => LoopInv rules c₀ s' ∧ Grows s s' ∧ s'.pendingReorg = s.pendingReorg)
    ?_ ?_ fuel nextParent s ⟨hloop, .refl s, rfl⟩).2
  · rintro s' k header raw chain ⟨hloop', hgrows, hpending⟩ hmem happend
    have hremove : Grows s' { s' with buffer := s'.buffer.remove k } :=
      ⟨fun _ _ h => h, fun _ => rfl, [], by simp⟩
    exact ⟨(hloop'.remove k).chainHeader (hloop'.buffered _ _ hmem).1 happend,
      (hgrows.trans hremove).trans (.chainHeader hloop'.linked happend), hpending⟩
  · rintro s' k ⟨hloop', hgrows, hpending⟩
    exact ⟨hloop'.remove k, ⟨hgrows.keepsScores, hgrows.pending, hgrows.chain⟩, hpending⟩

def Leads (s : BatchState) : Prop := ∀ score ∈ recordedScore s, s.chain.cumulativeScore < score

/-- One iteration grows the state. If it records a reorg, the branch leads and beats every chain
before it. -/
theorem grows_processHeader {x : RawHeader} (hfree : CollisionFree rules)
    (hloop : LoopInv rules c₀ s) (inv : ScoreInv rules c₀ s) (hparsed : IsParsed rules x) :
    Grows s (processHeader rules now s x) ∧
      (s.pendingReorg = none → Leads (processHeader rules now s x)) := by
  obtain ⟨header, raw⟩ := x
  have hnone : ∀ s' : BatchState, s'.pendingReorg = none → Leads s' := by
    intro s' hs' score hscore
    simp [recordedScore, hs'] at hscore
  refine processHeader_cases
    (P := fun s' => Grows s s' ∧ (s.pendingReorg = none → Leads s')) ⟨.refl s, hnone s⟩ ?_ ?_ ?_
  · intro chain happend
    obtain ⟨hgrows, hpending⟩ :=
      grows_drainBuffer (hloop.chainHeader hparsed happend) s.buffer.entries.length header.id
    exact ⟨(Grows.chainHeader hloop.linked happend).trans hgrows,
      fun h => hnone _ (hpending.trans h)⟩
  · intro requests parentScore assemble hnew hforks
    have hloop' : LoopInv rules c₀ { s with reorgRequested := requests } :=
      { hloop with }
    have inv' : ScoreInv rules c₀ { s with reorgRequested := requests } :=
      { inv with }
    have hkeeps := (inv'.storeFork hfree hloop' (hforks.frame requests) hnew hparsed).2
    refine ⟨⟨hkeeps, ?_, [], ?_⟩, ?_⟩
    · intro hne
      simp [storeFork, hne]
    · simp [storeFork]
    · -- the recorded branch ends in this header, which beats the chain
      intro hpending score hscore
      simp only [recordedScore, mem_def, bind_eq_some_iff] at hscore
      obtain ⟨⟨f, branch⟩, hbranch, x, hx, hstored⟩ := hscore
      simp only [storeFork, hpending, and_true] at hbranch
      split at hbranch
      next hbeats =>
        rw [(hforks.branch hparsed hbranch).1, some_inj] at hx
        subst hx
        have hself := (writesHeader_storeFork rules s header raw parentScore
          assemble).storedScore_self
        rwa [← some.inj (hself.symm.trans hstored)]
      · simp at hbranch
  · intro requests control _
    exact ⟨⟨fun _ _ h => h, fun _ => rfl, [], by simp [bufferHeader]⟩, hnone _⟩

lemma ScoreInv.exists_recordedScore (inv : ScoreInv rules c₀ s) {f : ℕ}
    (hpending : s.pendingReorg = some (f, branch)) : ∃ score, recordedScore s = some score := by
  obtain ⟨hne, e, -, hbranch⟩ := inv.pending f branch hpending
  have hstored : ∀ (acc : ℕ) (branch : List RawHeader), BranchScored rules s.store acc branch →
      ∀ x ∈ branch, ∃ score, storedScore s.store x.1.id = some score := by
    intro acc branch
    induction branch generalizing acc with
    | nil => simp
    | cons y ys ih =>
      rintro ⟨hy, hys⟩ x hx
      rcases mem_cons.1 hx with rfl | hx
      · exact ⟨_, hy⟩
      · exact ih _ hys x hx
  obtain ⟨score, hscore⟩ := hstored _ _ hbranch _ (getLast_mem hne)
  exact ⟨score, by simp [recordedScore, hpending, getLast?_eq_some_getLast hne, hscore]⟩

lemma Grows.recordedScore (h : Grows s s') (hscore : recordedScore s = some score) :
    recordedScore s' = some score := by
  simp only [ErgoNode.recordedScore, bind_eq_some_iff] at hscore ⊢
  obtain ⟨b, hb, x, hx, hstored⟩ := hscore
  exact ⟨b, (h.pending (by simp [hb])).trans hb, x, hx, h.keepsScores _ _ hstored⟩

lemma Grows.cumulativeScore_le (h : Grows s s') (hlinked : s'.chain.Linked rules.toHeaderRules) :
    s.chain.cumulativeScore ≤ s'.chain.cumulativeScore := by
  obtain ⟨es, hes⟩ := h.chain
  rw [hes] at hlinked ⊢
  exact cumulativeScore_le_append hlinked

lemma grows_foldl (hfree : CollisionFree rules) (hloop : LoopInv rules c₀ s)
    (inv : ScoreInv rules c₀ s) (hparsed : ∀ x ∈ xs, IsParsed rules x) :
    Grows s (xs.foldl (processHeader rules now) s) := by
  induction xs generalizing s with
  | nil => exact .refl s
  | cons x xs ih =>
    have hx := hparsed x mem_cons_self
    exact (grows_processHeader hfree hloop inv hx).1.trans
      (ih (hloop.processHeader hx) (inv.processHeader hfree hloop hx) (forall_mem_cons.1 hparsed).2)

lemma Grows.known (h : Grows s s') {id : BlockId} (hk : Known s.chain s.store id score) :
    Known s'.chain s'.store id score := by
  obtain ⟨es, hes⟩ := h.chain
  refine hk.mono ?_ h.keepsScores
  rw [hes]
  exact fun e he => mem_append_left _ he

lemma known_loopEnd (hfree : CollisionFree rules) (hwf : p.WellFormed rules)
    (hscores : ScoresConsistent rules p) (batch : List ModifierBatchItem) {id : BlockId}
    (hk : Known p.chain p.store id score) :
    Known (loopEnd rules now p batch).chain (loopEnd rules now p batch).store id score :=
  (grows_foldl hfree hwf.loopInv_startBatch hscores.scoreInv_startBatch
    (fun _ hx => isParsed_of_mem_batchHeaders hx) : Grows (startBatch p) _).known hk

/-- If the recorded branch leads, it leads at every step of the loop exactly when it does at the
end. -/
theorem loopKeepsLead_iff (hfree : CollisionFree rules) (hloop : LoopInv rules c₀ s)
    (inv : ScoreInv rules c₀ s) (hparsed : ∀ x ∈ xs, IsParsed rules x) (hleads : Leads s) :
    LoopKeepsLead rules now s xs ↔ Leads (xs.foldl (processHeader rules now) s) := by
  induction xs generalizing s with
  | nil => simp [LoopKeepsLead, hleads]
  | cons x xs ih =>
    have hx := hparsed x mem_cons_self
    have hxs : ∀ y ∈ xs, IsParsed rules y := fun y hy => hparsed y (mem_cons_of_mem _ hy)
    have hloop' : LoopInv rules c₀ (processHeader rules now s x) := hloop.processHeader hx
    have inv' : ScoreInv rules c₀ (processHeader rules now s x) :=
      inv.processHeader hfree hloop hx
    obtain ⟨hgrows, hrecords⟩ :
        Grows s (processHeader rules now s x) ∧ (s.pendingReorg = none → Leads _) :=
      grows_processHeader hfree hloop inv hx
    constructor
    · rintro ⟨hstep, hrest⟩
      refine (ih hloop' inv' hxs ?_).1 hrest
      -- recorded before this header, or by it
      cases hpending : s.pendingReorg with
      | none => exact hrecords hpending
      | some b =>
        obtain ⟨score, hscore⟩ := inv.exists_recordedScore hpending
        intro score' hscore'
        rw [hgrows.recordedScore hscore, mem_def, some_inj] at hscore'
        exact hscore' ▸ hstep score hscore
    · intro hend
      have hgrowsRest : Grows _ (xs.foldl (processHeader rules now) _) :=
        grows_foldl hfree hloop' inv' hxs
      have hstep : ∀ score, recordedScore (processHeader rules now s x) = some score →
          (processHeader rules now s x).chain.cumulativeScore < score := fun score hscore =>
        Nat.lt_of_le_of_lt (hgrowsRest.cumulativeScore_le (hloop'.foldl hxs).linked)
          (hend score (hgrowsRest.recordedScore hscore))
      exact ⟨fun score hscore => hstep score (hgrows.recordedScore hscore),
        (ih hloop' inv' hxs hstep).2 hend⟩

/-- Whatever the best chain does, a recorded branch beats every chain that was there before it
was recorded. -/
theorem lt_recordedScore_foldl
    (hfree : CollisionFree rules) (hloop : LoopInv rules c₀ s) (inv : ScoreInv rules c₀ s)
    (hparsed : ∀ x ∈ xs, IsParsed rules x) {bound : ℕ} (hbound : bound ≤ s.chain.cumulativeScore)
    (hrecorded : ∀ score ∈ recordedScore s, bound < score) :
    ∀ score ∈ recordedScore (xs.foldl (processHeader rules now) s), bound < score := by
  induction xs generalizing s with
  | nil => exact hrecorded
  | cons x xs ih =>
    have hx := hparsed x mem_cons_self
    have hloop' : LoopInv rules c₀ (processHeader rules now s x) := hloop.processHeader hx
    obtain ⟨hgrows, hrecords⟩ :
        Grows s (processHeader rules now s x) ∧ (s.pendingReorg = none → Leads _) :=
      grows_processHeader hfree hloop inv hx
    have hbound' := Nat.le_trans hbound (hgrows.cumulativeScore_le hloop'.linked)
    refine ih hloop' (inv.processHeader hfree hloop hx)
      (forall_mem_cons.1 hparsed).2 hbound' ?_
    intro score hscore
    cases hpending : s.pendingReorg with
    | none => exact Nat.lt_of_le_of_lt hbound' (hrecords hpending score hscore)
    | some b =>
      obtain ⟨old, hold⟩ := inv.exists_recordedScore hpending
      rw [hgrows.recordedScore hold, mem_def, some_inj] at hscore
      exact hscore ▸ hrecorded old hold

/-! ## The reorg at the end of a batch -/

lemma cumulativeScore_of_switched {c' : HeaderChain} (hloop : LoopInv rules c₀ s)
    (inv : ScoreInv rules c₀ s) {f : ℕ} (hpending : s.pendingReorg = some (f, branch))
    (hheaders : es.map (·.header) = branch.map Prod.fst)
    (hswitch : HeaderChain.Switched rules.toHeaderRules s.chain f es c') :
    recordedScore s = some c'.cumulativeScore := by
  obtain ⟨hne, -⟩ := inv.pending f branch hpending
  have hlast := congrArg getLast? hheaders
  rw [getLast?_map, getLast?_map, getLast?_eq_some_getLast hne, map_some] at hlast
  obtain ⟨e, he, hheader⟩ := map_eq_some_iff.1 hlast
  have hstored := inv.storedScore_branch hloop.linked hpending hheaders hswitch e
    (mem_of_getLast? he)
  have htip : c'.entries.getLast? = some e := by
    rw [hswitch.chain_eq, getLast?_append, he, some_or]
  rw [hswitch.linked.cumulativeScore_eq htip, ← hstored, hheader]
  simp [recordedScore, hpending, getLast?_eq_some_getLast hne]

/-- After the loop the chain stays, or the recorded branch was accepted with its score. -/
theorem executeReorg_score (now : ℕ) (hloop : LoopInv rules c₀ s) (inv : ScoreInv rules c₀ s) :
    (¬AcceptsReorg rules now s ∧ (executeReorg rules now s).2 = none ∧
        (executeReorg rules now s).1.chain = s.chain) ∨
      (AcceptsReorg rules now s ∧ (executeReorg rules now s).2 ≠ none ∧
        recordedScore s = some (executeReorg rules now s).1.chain.cumulativeScore) := by
  have hout := executeReorg_outcome now hloop
  generalize executeReorg rules now s = out at hout
  cases hout with
  | kept hrefused =>
    refine Or.inl ⟨?_, rfl, rfl⟩
    rintro ⟨⟨f, branch⟩, hb, hok⟩
    obtain ⟨e, he⟩ := hrefused f branch hb
    simp [he, Except.isOk, Except.toBool] at hok
  | @switched f branch ids chain es hpending hreorg hheaders hswitch hrows control =>
    refine Or.inr ⟨⟨(f, branch), hpending, ?_⟩, by simp, ?_⟩
    · simp [hreorg, Except.isOk, Except.toBool]
    · exact cumulativeScore_of_switched hloop inv hpending hheaders hswitch

lemma reorgGains_iff (hfree : CollisionFree rules) (hwf : p.WellFormed rules)
    (hscores : ScoresConsistent rules p) (batch : List ModifierBatchItem) :
    ReorgGains rules now (loopEnd rules now p batch) ↔ BatchKeepsLead rules now p batch := by
  have hloop : LoopInv rules p.chain (loopEnd rules now p batch) := hwf.loopInv_loopEnd batch
  have inv : ScoreInv rules p.chain (loopEnd rules now p batch) :=
    hscores.scoreInv_loopEnd hfree hwf batch
  have hlead : LoopKeepsLead rules now (startBatch p) (batchHeaders rules batch) ↔
      Leads (loopEnd rules now p batch) :=
    loopKeepsLead_iff hfree hwf.loopInv_startBatch hscores.scoreInv_startBatch
      (fun _ hx => isParsed_of_mem_batchHeaders hx) (by simp [Leads, recordedScore, startBatch])
  unfold ReorgGains BatchKeepsLead
  rcases executeReorg_score now hloop inv with ⟨haccepts, hnone, -⟩ | ⟨haccepts, hsome, hscore⟩
  · simp [haccepts, hnone]
  · simp only [haccepts, hsome, ne_eq, not_false_eq_true, forall_const]
    rw [hlead]
    simp [Leads, hscore]

/-- From batch to batch the score never decreases, also when the reorg loses work that the batch
itself had added. -/
theorem cumulativeScore_le_processBatch (hfree : CollisionFree rules) (hwf : p.WellFormed rules)
    (hscores : ScoresConsistent rules p) (batch : List ModifierBatchItem) :
    p.chain.cumulativeScore ≤ (processBatch rules now p batch).chain.cumulativeScore := by
  rw [(processBatch_eq rules now p batch).1]
  unfold afterHeaders
  split
  · exact Nat.le_refl _
  · change _ ≤ (executeReorg rules now (loopEnd rules now p batch)).1.chain.cumulativeScore
    have hparsed : ∀ x ∈ batchHeaders rules batch, IsParsed rules x :=
      fun _ hx => isParsed_of_mem_batchHeaders hx
    have hloop : LoopInv rules p.chain (loopEnd rules now p batch) := hwf.loopInv_loopEnd batch
    rcases executeReorg_score now hloop (hscores.scoreInv_loopEnd hfree hwf batch) with
      ⟨-, -, hchain⟩ | ⟨-, -, hscore⟩
    · rw [hchain]
      have hgrows : Grows (startBatch p) (loopEnd rules now p batch) :=
        grows_foldl hfree hwf.loopInv_startBatch hscores.scoreInv_startBatch hparsed
      exact hgrows.cumulativeScore_le hloop.linked
    · exact Nat.le_of_lt (lt_recordedScore_foldl hfree hwf.loopInv_startBatch
        hscores.scoreInv_startBatch hparsed (Nat.le_refl _)
        (by simp [recordedScore, startBatch]) _ hscore)

/-! ## Runs -/

/-- In every run, all reorgs gain work exactly when every batch keeps the lead of the reorg it
records; and from batch to batch the score never decreases. -/
theorem runGainsWork_iff (hfree : CollisionFree rules) {p : ValidationPipeline}
    (hwf : p.WellFormed rules) (hscores : ScoresConsistent rules p)
    (batches : List (ℕ × List ModifierBatchItem)) :
    (RunGainsWork rules p batches ↔ RunKeepsLead rules p batches) ∧
      ∀ i j, i ≤ j → (runBatches rules p (batches.take i)).chain.cumulativeScore ≤
        (runBatches rules p (batches.take j)).chain.cumulativeScore := by
  induction batches generalizing p with
  | nil => simp [RunGainsWork, RunKeepsLead]
  | cons b batches ih =>
    obtain ⟨hiff, hmono⟩ :=
      ih (hwf.processBatch b.1 b.2) (hscores.processBatch hfree hwf b.1 b.2)
    refine ⟨and_congr (reorgGains_iff hfree hwf hscores b.2) hiff, ?_⟩
    intro i j hij
    rcases i with _ | i <;> rcases j with _ | j
    · exact Nat.le_refl _
    · exact Nat.le_trans (cumulativeScore_le_processBatch hfree hwf hscores b.2)
        (hmono 0 j (Nat.zero_le j))
    · omega
    · exact hmono i j (by omega)

/-! ## A race within one batch

Five mainnet headers of one difficulty above genesis: the chain 2, 3, 4 and the fork 12, 13. With 2
on the chain and 12 stored, a batch that brings 13 first records a reorg to 13; 3 and 4, processed
after it, put more work on the chain than the fork has, and the reorg throws it away. -/

def raceHeaders : List Header :=
  let genesis := 0xb0244dfc267baca974a4caee06120321562784303a8a688976ae56170e4d175b
  let header (id parentId height : ℕ) : Header :=
    { version := 1, id := id, parentId := parentId, stateRoot := 0, timestamp := 1000 * height,
      nBits := 100734821, height := height, votes := ⟨0, 0, 0⟩ }
  [header genesis 0 1, header 2 genesis 2, header 3 2 3, header 4 3 4, header 12 genesis 2,
    header 13 12 3]

def raceRun (last : List UInt8) : List (ℕ × List ModifierBatchItem) :=
  [(10000, headerItems [0, 1]), (10000, headerItems [4]), (10000, headerItems last)]

/-- When 13 is the last header, the reorg gains work: the batch keeps the lead. -/
theorem runKeepsLead_race :
    RunKeepsLead (listRules raceHeaders) (.new .mainnet) (raceRun [5]) ∧
      (runBatches (listRules raceHeaders) (.new .mainnet) (raceRun [5])).chain.idAt 3 = some 13 :=
  ⟨(runGainsWork_iff (collisionFree_listRules (by decide)) (.new _) (.new _) _).1.1
    (by decide +kernel), by decide +kernel⟩

/-- With 3 and 4 behind it in the batch, the executed reorg loses work. -/
theorem not_runGainsWork_race :
    ¬RunGainsWork (listRules raceHeaders) (.new .mainnet) (raceRun [5, 2, 3]) := by
  decide +kernel

end ErgoNode
