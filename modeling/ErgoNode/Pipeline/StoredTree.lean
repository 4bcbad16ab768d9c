import ErgoNode.Pipeline.Scores
import ErgoNode.Pipeline.BestChainIndex
import ErgoNode.Store.HeaderSlots

/-!
# The stored header tree

Every header the pipeline accepts is filed under its height. Branch reconstruction walks this tree
from parent to parent, so a parent has to be stored one height below its child, and the scores have
to add up. A header on top of a stored fork is stored under whatever height it claims; every other
way checks the height against that of the parent.
-/

namespace ErgoNode

open List ModifierStore Option

variable {rules : PipelineRules} {now : ℕ}
variable {e : ChainEntry} {s : BatchState} {header : Header} {raw : Bytes} {c₀ : HeaderChain}
  {es : List ChainEntry} {rows : List ModifierBatchEntry} {p : ValidationPipeline} {score : ℕ}
  {r : ModifierBatchEntry} {xs : List RawHeader} {c' : HeaderChain}

def storedHeader (rules : PipelineRules) (store : ModifierStore) (id : BlockId) : Option Header :=
  (store.get headerTypeId id).bind rules.parseHeader

/-- Every header row is filed under its header's height; above the base the parent is stored one
height below, and the score is the parent's plus the difficulty. -/
def StoredTree (rules : PipelineRules) (p : ValidationPipeline) : Prop :=
  ∀ (height fork : ℕ) (id : BlockId), p.store.headerForks[(height, fork)]? = some id →
    ∃ header, storedHeader rules p.store id = some header ∧ header.id = id ∧
      header.height = height ∧
      ∀ base ∈ p.chain.baseHeight, base < height →
        ∃ parent parentScore, storedHeader rules p.store header.parentId = some parent ∧
          parent.id = header.parentId ∧ parent.height + 1 = height ∧
          storedScore p.store parent.id = some parentScore ∧
          storedScore p.store id = some (parentScore + rules.headerDifficulty header)

/-- Above the base, the parent of a filed header is filed one height below. -/
def ParentsFiled (rules : PipelineRules) (p : ValidationPipeline) : Prop :=
  ∀ (height fork : ℕ) (id : BlockId), p.store.headerForks[(height, fork)]? = some id →
    ∀ header ∈ storedHeader rules p.store id, ∀ base ∈ p.chain.baseHeight, base < height →
      ∃ fork' : ℕ, p.store.headerForks[(height - 1, fork')]? = some header.parentId

/-! ## The condition -/

/-- A header that will be stored as a fork has the height after its parent's, if the parent is
stored. -/
def StepKeepsHeights (rules : PipelineRules) (now : ℕ) (s : BatchState) (x : RawHeader) : Prop :=
  storesFork rules now s x.1 = true →
    ∀ parent ∈ storedHeader rules s.store x.1.parentId, x.1.height = parent.height + 1

instance (s : BatchState) (x : RawHeader) : Decidable (StepKeepsHeights rules now s x) := by
  unfold StepKeepsHeights
  infer_instance

def BatchKeepsHeights (rules : PipelineRules) (now : ℕ) (p : ValidationPipeline)
    (batch : List ModifierBatchItem) : Prop :=
  MeetsAll (processHeader rules now) (StepKeepsHeights rules now) (startBatch p)
    (batchHeaders rules batch)

instance (p : ValidationPipeline) (batch : List ModifierBatchItem) :
    Decidable (BatchKeepsHeights rules now p batch) := by
  unfold BatchKeepsHeights
  infer_instance

def batchStep (rules : PipelineRules) (p : ValidationPipeline) (b : ℕ × List ModifierBatchItem) :
    ValidationPipeline := processBatch rules b.1 p b.2

/-! ## What the rows say -/

/-- Rows are filed under the height of a header with a score, and forks have the height after their
parent's. -/
structure StoredTreeInv (rules : PipelineRules) (c : HeaderChain) (store : ModifierStore) : Prop where
  filed : ∀ (slot : ℕ × ℕ) (id : BlockId), store.headerForks[slot]? = some id →
    (∃ header, Parsed rules header ∧ header.id = id ∧ header.height = slot.1) ∧
      (storedScore store id).isSome
  heights : ∀ header, Parsed rules header → (storedScore store header.id).isSome →
    c.contains header.id = false → ∀ parent, Parsed rules parent → parent.id = header.parentId →
      header.height = parent.height + 1

/-- `store'` is `store` with one header written and filed under its height. -/
structure FilesHeader (store : ModifierStore) (header : Header) (score : ℕ) (raw : Bytes)
    (store' : ModifierStore) : Prop extends WritesHeader store header.id score raw store' where
  forks : ∀ (slot : ℕ × ℕ) (id : BlockId), store'.headerForks[slot]? = some id →
    store.headerForks[slot]? = some id ∨ slot.1 = header.height ∧ id = header.id

lemma filesHeader_putHeader (store : ModifierStore) (header : Header) (fork score : ℕ)
    (raw : Bytes) : FilesHeader store header score raw
      (store.putHeader header.id header.height fork (some score) raw) where
  toWritesHeader := writesHeader_putHeader ..
  forks slot id hid := by
    simp only [putHeader, getElem?_insert_pair] at hid
    split at hid
    next hslot =>
      exact .inr ⟨by rw [← hslot], (some.inj hid).symm⟩
    · exact .inl hid

lemma filesHeader_putEntry (hrow : RowOf rules e r) (store : ModifierStore) :
    FilesHeader store e.header e.score r.data (store.putEntry r) where
  toWritesHeader := writesHeader_putEntry hrow store
  forks slot id hid := by
    have hforks := headerForks_putOne store r slot
    rw [show (store.putOne r).headerForks = (store.putEntry r).headerForks from rfl, hid] at hforks
    split at hforks
    next hslot =>
      have hslot' : (r.height, 0) = slot := by
        simpa [entrySlot, hrow.typeId_eq, hrow.height_pos] using hslot
      rw [← hslot', ← hrow.height_eq, ← hrow.id_eq]
      exact .inr ⟨rfl, some.inj hforks⟩
    · exact .inl hforks.symm

lemma filesHeader_storeDemoted (hrow : RowOf rules e r) (store : ModifierStore) :
    FilesHeader store e.header e.score r.data (storeDemoted store r) := by
  rw [storeDemoted, hrow.score_eq, hrow.id_eq, hrow.height_eq]
  exact filesHeader_putHeader ..

namespace StoredTreeInv

variable {c : HeaderChain} {store store' : ModifierStore}

lemma write (h : StoredTreeInv rules c store) (hfree : CollisionFree rules) {header : Header}
    {score : ℕ} {raw : Bytes} (hw : FilesHeader store header score raw store')
    (hparse : rules.parseHeader raw = some header)
    (hheight : c.contains header.id = false → ∀ parent, Parsed rules parent →
      parent.id = header.parentId → header.height = parent.height + 1) :
    StoredTreeInv rules c store' where
  filed slot id hid := by
    rw [hw.score_eq]
    rcases hw.forks slot id hid with hold | ⟨hslot, rfl⟩
    · obtain ⟨hheader, hscore⟩ := h.filed slot id hold
      refine ⟨hheader, ?_⟩
      split
      · rfl
      · exact hscore
    · exact ⟨⟨header, ⟨raw, hparse⟩, rfl, hslot.symm⟩, by simp⟩
  heights hd hparsed hscore hoff := by
    rw [hw.score_eq] at hscore
    by_cases hid : header.id = hd.id
    · obtain rfl := hfree _ _ ⟨raw, hparse⟩ hparsed hid
      exact hheight hoff
    · rw [if_neg hid] at hscore
      exact h.heights hd hparsed hscore hoff

lemma foldl_write (hfree : CollisionFree rules)
    {w : ModifierStore → ModifierBatchEntry → ModifierStore}
    (hw : ∀ store e r, RowOf rules e r → FilesHeader store e.header e.score r.data (w store r))
    {rows : List ModifierBatchEntry}
    (hrows : ∀ r ∈ rows, ∃ e, RowOf rules e r ∧
      (c.contains e.header.id = true ∨ (storedScore store e.header.id).isSome))
    (h : StoredTreeInv rules c store) : StoredTreeInv rules c (rows.foldl w store) := by
  induction rows generalizing store with
  | nil => exact h
  | cons r rows ih =>
    obtain ⟨e, hrow, hknown⟩ := hrows r mem_cons_self
    have hwr := hw store e r hrow
    refine ih (fun r' hr' => ?_) (h.write hfree hwr hrow.data_eq ?_)
    · obtain ⟨e', hrow', hknown'⟩ := hrows r' (mem_cons_of_mem _ hr')
      refine ⟨e', hrow', hknown'.imp_right (fun hscore => ?_)⟩
      rw [hwr.score_eq]
      split
      · rfl
      · exact hscore
    · intro hoff
      rcases hknown with hon | hscore
      · cases hoff.symm.trans hon
      · exact h.heights e.header ⟨_, hrow.data_eq⟩ hscore hoff

lemma of_sameHeaders (h : StoredTreeInv rules c store) (hsame : SameHeaders store store')
    (hforks : store'.headerForks = store.headerForks) : StoredTreeInv rules c store' where
  filed slot id hid := by
    rw [hforks] at hid
    rw [hsame.storedScore_eq]
    exact h.filed slot id hid
  heights header hparsed hscore := by
    rw [hsame.storedScore_eq] at hscore
    exact h.heights header hparsed hscore

lemma mono (h : StoredTreeInv rules c store) (hsub : ∀ e ∈ c.entries, e ∈ c'.entries) :
    StoredTreeInv rules c' store where
  filed := h.filed
  heights header hparsed hscore hoff := by
    apply h.heights header hparsed hscore
    rw [contains_eq_false_iff] at hoff ⊢
    exact fun e he => hoff e (hsub e he)

/-- The headers that a reorg takes off the chain had their parents below them on it. -/
theorem switch (h : StoredTreeInv rules c store) (hfree : CollisionFree rules)
    (hlinked : c.Linked rules.toHeaderRules) (hparsed : ∀ e ∈ c.entries, Parsed rules e.header)
    {f : ℕ} {es : List ChainEntry} (hswitch : HeaderChain.Switched rules.toHeaderRules c f es c') :
    StoredTreeInv rules c' store where
  filed := h.filed
  heights header hheader hscore hoff parent hparent hid := by
    by_cases hon : c.contains header.id = false
    · exact h.heights header hheader hscore hon parent hparent hid
    · simp only [contains_eq_false_iff, not_forall, not_not] at hon
      obtain ⟨e, he, heid⟩ := hon
      obtain rfl := hfree _ _ (hparsed e he) hheader heid
      have habove : f < e.header.height := by
        by_contra hle
        refine contains_eq_false_iff.1 hoff e ?_ rfl
        rw [hswitch.chain_eq]
        exact mem_append_left _ (mem_filter.2 ⟨he, by simpa using hle⟩)
      obtain ⟨fork, hfork⟩ := isSome_iff_exists.1 hswitch.forkPoint
      obtain ⟨hforkMem, hforkHeight⟩ := hlinked.entryAt_eq_some_iff.1 hfork
      obtain ⟨e', he', hfollows⟩ := hlinked.exists_follows he hforkMem (by omega)
      have hparentEq : parent = e'.header :=
        hfree _ _ hparent (hparsed e' he') (hid.trans hfollows.parentId_eq)
      rw [hparentEq]
      exact hfollows.height_eq

end StoredTreeInv

/-! ## The loop -/

lemma ForksFrom.height_eq {parentScore : ℕ} {assemble : ModifierStore → Option ForkBranch}
    (hforks : ForksFrom rules now s header raw parentScore assemble)
    (hnew : s.chain.contains header.id = false) (hfree : CollisionFree rules)
    (hparsed : ∀ e ∈ s.chain.entries, Parsed rules e.header)
    (hadd : ScoresAdd rules s.chain s.store) (hcond : StepKeepsHeights rules now s (header, raw))
    {parent : Header} (hparent : Parsed rules parent) (hid : parent.id = header.parentId) :
    header.height = parent.height + 1 := by
  have hstores := hforks.storesFork hnew
  cases hforks with
  | chain happend =>
    -- the chain compares the height with that of its own header
    obtain ⟨-, hheight, hnext⟩ := HeaderChain.tryAppend_forked happend
    obtain ⟨e, hfind, rfl⟩ := map_eq_some_iff.1 hheight
    have heid : e.header.id = header.parentId := by simpa using find?_some hfind
    obtain rfl := hfree _ _ (hparsed e (mem_of_find?_eq_some hfind)) hparent
      (heid.trans hid.symm)
    exact hnext
  | store hne hmissing hscore =>
    obtain ⟨bytes, hbytes⟩ := isSome_iff_exists.1 (hadd.hasBytes _ _ hscore)
    obtain ⟨stored, hstored, hstoredId⟩ := hadd.bytes _ _ hbytes
    obtain rfl := hfree _ _ ⟨bytes, hstored⟩ hparent (hstoredId.trans hid.symm)
    exact hcond hstores _ (by simp [storedHeader, hbytes, hstored])

lemma storedTreeInv_processHeader {x : RawHeader}
    (hfree : CollisionFree rules) (hloop : LoopInv rules c₀ s) (hscores : ScoreInv rules c₀ s)
    (htree : StoredTreeInv rules s.chain s.store) (hparsed : IsParsed rules x)
    (hcond : StepKeepsHeights rules now s x) :
    StoredTreeInv rules (processHeader rules now s x).chain (processHeader rules now s x).store := by
  obtain ⟨header, raw⟩ := x
  refine processHeader_cases (P := fun s' => StoredTreeInv rules s'.chain s'.store) htree ?_ ?_ ?_
  · -- the chain grows, the store stays as it is
    intro chain happend
    have hstart : LoopInv rules c₀ (chainHeader s chain header raw) ∧
        StoredTreeInv rules (chainHeader s chain header raw).chain
          (chainHeader s chain header raw).store := by
      obtain ⟨-, -, score, rfl⟩ := exists_entries_of_tryAppend hloop.linked happend
      exact ⟨hloop.chainHeader hparsed happend, htree.mono (fun e he => mem_append_left _ he)⟩
    refine (drainBuffer_induction
      (P := fun s => LoopInv rules c₀ s ∧ StoredTreeInv rules s.chain s.store) ?_ ?_ _ _ _ hstart).2
    · rintro s k header raw chain ⟨hloop, htree⟩ hmem happend
      refine ⟨(hloop.remove k).chainHeader (hloop.buffered _ _ hmem).1 happend, ?_⟩
      obtain ⟨-, -, score, rfl⟩ := exists_entries_of_tryAppend hloop.linked happend
      exact htree.mono (fun e he => mem_append_left _ he)
    · rintro s k ⟨hloop, htree⟩
      exact ⟨hloop.remove k, htree⟩
  · intro requests parentScore assemble hnew hforks
    exact htree.write hfree (filesHeader_putHeader ..) hparsed (fun _ parent hparent hid =>
      hforks.height_eq hnew hfree hloop.parsed hscores.add hcond hparent hid)
  · intro requests control _
    exact htree

lemma storedTreeInv_foldl
    (hfree : CollisionFree rules) (hloop : LoopInv rules c₀ s) (hscores : ScoreInv rules c₀ s)
    (htree : StoredTreeInv rules s.chain s.store) (hparsed : ∀ x ∈ xs, IsParsed rules x)
    (hcond : MeetsAll (processHeader rules now) (StepKeepsHeights rules now) s xs) :
    StoredTreeInv rules (xs.foldl (processHeader rules now) s).chain
      (xs.foldl (processHeader rules now) s).store := by
  induction xs generalizing s with
  | nil => exact htree
  | cons x xs ih =>
    have hx := hparsed x mem_cons_self
    exact ih (hloop.processHeader hx) (hscores.processHeader hfree hloop hx)
      (storedTreeInv_processHeader hfree hloop hscores htree hx hcond.1)
      (forall_mem_cons.1 hparsed).2 hcond.2

/-! ## The end of a batch -/

lemma headerForks_flush_none (hrows : RowsOf rules es rows) (store : ModifierStore) :
    (flush store rows none).headerForks =
      (rows.foldl ModifierStore.putEntry store).headerForks := by
  simp only [flush, foldl_nil]
  split
  next hnil =>
    rw [hnil]
    rfl
  · rw [putBatch_rows hrows]
    rfl

lemma headerForks_flush_some (hrows : RowsOf rules es rows) (store : ModifierStore) (f : ℕ) :
    (flush store rows (some f)).headerForks =
      ((rows.filter (fun r => r.height ≤ f)).foldl ModifierStore.putEntry
        ((rows.filter (fun r => f < r.height)).foldl storeDemoted store)).headerForks := by
  simp only [flush]
  split
  next hnil =>
    rw [hnil]
    rfl
  · rw [putBatch_rows (hrows.filter (fun k => decide (k ≤ f)))]
    rfl

lemma StoredTreeInv.flush {c : HeaderChain} {store : ModifierStore}
    (h : StoredTreeInv rules c store) (hfree : CollisionFree rules) (hrows : RowsOf rules es rows)
    (hon : ∀ e ∈ es, c.contains e.header.id = true) (reorgForkPoint : Option ℕ) :
    StoredTreeInv rules c (flush store rows reorgForkPoint) := by
  have hknown : ∀ store : ModifierStore, ∀ rows' ⊆ rows, ∀ r ∈ rows', ∃ e, RowOf rules e r ∧
      (c.contains e.header.id = true ∨ (storedScore store e.header.id).isSome) := by
    intro store rows' hsub r hr
    obtain ⟨e, he, hrow⟩ := hrows.exists_entry r (hsub hr)
    exact ⟨e, hrow, .inl (hon e he)⟩
  cases reorgForkPoint with
  | none =>
    have hwritten := h.foldl_write hfree
      (fun store _ _ hrow => filesHeader_putEntry hrow store) (hknown store rows (fun _ hr => hr))
    exact hwritten.of_sameHeaders (sameHeaders_flush_none hrows store)
      (headerForks_flush_none hrows store)
  | some f =>
    have hdemoted := h.foldl_write hfree
      (fun store _ _ hrow => filesHeader_storeDemoted hrow store)
      (hknown store (rows.filter (fun r => f < r.height)) (filter_subset_self _))
    have hwritten := hdemoted.foldl_write hfree
      (fun store _ _ hrow => filesHeader_putEntry hrow store)
      (hknown _ (rows.filter (fun r => r.height ≤ f)) (filter_subset_self _))
    exact hwritten.of_sameHeaders (sameHeaders_flush_some hrows store f)
      (headerForks_flush_some hrows store f)

lemma contains_of_mem {c : HeaderChain} (he : e ∈ c.entries) :
    c.contains e.header.id = true := by
  rw [← Bool.not_eq_false]
  exact fun hoff => contains_eq_false_iff.1 hoff e he rfl

lemma storedTreeInv_finishBatch (hfree : CollisionFree rules) (hloop : LoopInv rules p.chain s)
    (hscores : ScoreInv rules p.chain s) (htree : StoredTreeInv rules s.chain s.store) :
    StoredTreeInv rules (finishBatch rules now p s).chain (finishBatch rules now p s).store := by
  obtain ⟨es, hchain, hrows⟩ := hloop.grown
  have hon : ∀ e ∈ es, s.chain.contains e.header.id = true := by
    intro e he
    apply contains_of_mem
    rw [hchain]
    exact mem_append_right _ he
  have hout := executeReorg_outcome now hloop
  unfold finishBatch
  generalize executeReorg rules now s = out at hout
  cases hout with
  | kept hrefused => exact htree.flush hfree hrows hon none
  | @switched f branch ids chain es' hpending hreorg hheaders hswitch hrows' control =>
    -- the branch was stored before, and is written once more
    have hbranch := hscores.storedScore_branch hloop.linked hpending hheaders hswitch
    have hwritten : StoredTreeInv rules s.chain
        ((branchRows chain branch).foldl putEntry s.store) :=
      htree.foldl_write hfree (fun store _ _ hrow => filesHeader_putEntry hrow store) (fun r hr => by
        obtain ⟨e, he, hrow⟩ := hrows'.exists_entry r hr
        exact ⟨e, hrow, .inr (by rw [hbranch e he]; rfl)⟩)
    have hrefreshed := hwritten.of_sameHeaders (sameHeaders_refreshTips _ (branchRows chain branch))
      rfl
    exact (hrefreshed.flush hfree hrows hon (some f)).switch hfree hloop.linked hloop.parsed hswitch

lemma headerForks_foldl_putOne_of_sections {es : List ModifierBatchEntry}
    (hes : ∀ e ∈ es, e.typeId ≠ headerTypeId) (store : ModifierStore) :
    (es.foldl ModifierStore.putOne store).headerForks = store.headerForks := by
  induction es generalizing store with
  | nil => rfl
  | cons e es ih =>
    rw [foldl_cons, ih (fun e' he' => hes e' (mem_cons_of_mem _ he'))]
    show (store.putEntry e).headerForks = store.headerForks
    have htype := hes e mem_cons_self
    unfold putEntry
    by_cases hpos : 0 < e.height
    · simp [htype, hpos]
    · simp [htype, hpos]

lemma typeId_of_bindSection {chain : HeaderChain} {store : ModifierStore}
    {item : ModifierBatchItem} {e : ModifierBatchEntry}
    (h : bindSection rules chain store item = some e) : e.typeId = item.typeId := by
  unfold bindSection at h
  grind

lemma headerForks_bindAndStoreSections (chain : HeaderChain) (store : ModifierStore)
    {sections : List ModifierBatchItem} (hsections : ∀ i ∈ sections, i.typeId ≠ headerTypeId) :
    (bindAndStoreSections rules chain store sections).1.headerForks = store.headerForks := by
  have htypes : ∀ e ∈ sections.filterMap (bindSection rules chain store),
      e.typeId ≠ headerTypeId := by
    intro e he
    obtain ⟨item, hitem, hbind⟩ := mem_filterMap.1 he
    rw [typeId_of_bindSection hbind]
    exact hsections item hitem
  unfold bindAndStoreSections
  dsimp only
  split
  · rfl
  · split
    next store' hput =>
      rw [putBatch_cases] at hput
      split at hput
      · cases hput
        exact headerForks_foldl_putOne_of_sections htypes store
      · cases hput
    · rfl

lemma headerForks_processBatch (rules : PipelineRules) (now : ℕ) (p : ValidationPipeline)
    (batch : List ModifierBatchItem) :
    (processBatch rules now p batch).store.headerForks =
      (afterHeaders rules now p batch).store.headerForks := by
  rw [← processHeaders_fst]
  apply headerForks_bindAndStoreSections
  intro i hi
  have := (mem_filter.1 hi).2
  simp only [decide_eq_true_eq] at this
  exact this.1

lemma storedTreeInv_processBatch {batch : List ModifierBatchItem}
    (hfree : CollisionFree rules) (hwf : p.WellFormed rules) (hscores : ScoresConsistent rules p)
    (htree : StoredTreeInv rules p.chain p.store) (hcond : BatchKeepsHeights rules now p batch) :
    StoredTreeInv rules (processBatch rules now p batch).chain
      (processBatch rules now p batch).store := by
  obtain ⟨hchain, -, hsame⟩ := processBatch_eq rules now p batch
  rw [hchain]
  refine StoredTreeInv.of_sameHeaders ?_ hsame (headerForks_processBatch rules now p batch)
  unfold afterHeaders
  split
  · exact htree
  · exact storedTreeInv_finishBatch hfree (hwf.loopInv_loopEnd batch)
      (hscores.scoreInv_loopEnd hfree hwf batch)
      (storedTreeInv_foldl hfree hwf.loopInv_startBatch hscores.scoreInv_startBatch htree
        (fun _ hx => isParsed_of_mem_batchHeaders hx) hcond)

/-! ## Reading the tree off the invariants -/

lemma ScoresAdd.storedHeader_eq {c : HeaderChain} {store : ModifierStore}
    (hadd : ScoresAdd rules c store) (hfree : CollisionFree rules)
    (hparsed : Parsed rules header) (h : storedScore store header.id = some score) :
    storedHeader rules store header.id = some header := by
  obtain ⟨raw, hraw⟩ := isSome_iff_exists.1 (hadd.hasBytes _ _ h)
  obtain ⟨stored, hstored, hid⟩ := hadd.bytes _ _ hraw
  obtain rfl := hfree _ _ ⟨raw, hstored⟩ hparsed hid
  simp [storedHeader, hraw, hstored]

lemma ScoresConsistent.storedScore_of_known (h : ScoresConsistent rules p) {id : BlockId}
    (hknown : Known p.chain p.store id score) : storedScore p.store id = some score := by
  rcases hknown with ⟨e, he, rfl, rfl⟩ | hstored
  · exact h.persisted e he
  · exact hstored

lemma storedTree_of_inv (hfree : CollisionFree rules) (hwf : p.WellFormed rules)
    (hscores : ScoresConsistent rules p) (htree : StoredTreeInv rules p.chain p.store) :
    StoredTree rules p := by
  intro height fork id hrow
  obtain ⟨⟨header, hparsed, rfl, rfl⟩, hscore⟩ := htree.filed (height, fork) id hrow
  obtain ⟨score, hscore⟩ := isSome_iff_exists.1 hscore
  have hstored := hscores.add.storedHeader_eq hfree hparsed hscore
  refine ⟨header, hstored, rfl, rfl, fun base hbase hlt => ?_⟩
  by_cases hoff : p.chain.contains header.id = false
  · -- off the chain: the parent's score is known, so the parent is stored
    obtain ⟨parentScore, hknown, rfl⟩ := hscores.add.parent header score hparsed hscore hoff
    have hparentScore := hscores.storedScore_of_known hknown
    obtain ⟨raw, hraw⟩ := isSome_iff_exists.1 (hscores.add.hasBytes _ _ hparentScore)
    obtain ⟨parent, hparent, hid⟩ := hscores.add.bytes _ _ hraw
    have hheight := htree.heights header hparsed (by rw [hscore]; rfl) hoff parent ⟨raw, hparent⟩ hid
    exact ⟨parent, parentScore, by simp [storedHeader, hraw, hparent], hid, hheight.symm,
      hid ▸ hparentScore, hscore⟩
  · -- on the chain, above its first header
    simp only [contains_eq_false_iff, not_forall, not_not] at hoff
    obtain ⟨e, he, hid⟩ := hoff
    obtain rfl := hfree _ _ (hwf.parsed e he) hparsed hid
    obtain ⟨first, hfirst, rfl⟩ := map_eq_some_iff.1 (mem_def.1 hbase)
    obtain ⟨e', he', hfollows⟩ := hwf.linked.exists_follows he (mem_of_mem_head? hfirst) hlt
    have hparentScore := hscores.persisted e' he'
    refine ⟨e'.header, e'.score, ?_, hfollows.parentId_eq.symm, hfollows.height_eq.symm,
      hparentScore, ?_⟩
    · rw [hfollows.parentId_eq]
      exact hscores.add.storedHeader_eq hfree (hwf.parsed e' he') hparentScore
    · rw [hscores.persisted e he, hfollows.score_eq]

/-! ## Rows of the parents -/

def KeepsRows (store store' : ModifierStore) : Prop :=
  ∀ (slot : ℕ × ℕ) (id : BlockId), store.headerForks[slot]? = some id →
    store'.headerForks[slot]? = some id

def AllFiled (rules : PipelineRules) (store : ModifierStore) : Prop :=
  ∀ id header, storedHeader rules store id = some header → header.id = id →
    ∃ fork : ℕ, store.headerForks[(header.height, fork)]? = some id

lemma headerForks_nextForkNum (store : ModifierStore) (height : ℕ) :
    store.headerForks[(height, nextForkNum store height)]? = none := by
  have hlast := isLastRow_rowsOf store.headerForks height
  have hids : store.headerIdsAtHeight height =
      (rowsOf store.headerForks height).map (fun r => (r.2, r.1)) := by
    simp [headerIdsAtHeight, rowsOf]
  unfold nextForkNum
  rw [hids, getLast?_map]
  cases hrow : (rowsOf store.headerForks height).getLast? with
  | none =>
    rw [hrow] at hlast
    exact hlast _
  | some row =>
    rw [hrow] at hlast
    by_contra hused
    have hle : row.1 + 1 ≤ row.1 := hlast.2 _ hused
    omega

lemma keepsRows_putHeader (store : ModifierStore) (id : BlockId) (height : ℕ)
    (score : ScoreBytes) (raw : Bytes) :
    KeepsRows store (store.putHeader id height (nextForkNum store height) score raw) := by
  intro slot k hk
  simp only [putHeader, getElem?_insert_pair]
  split
  next hslot =>
    rw [← hslot, headerForks_nextForkNum] at hk
    cases hk
  · exact hk

lemma AllFiled.write {store store' : ModifierStore} (h : AllFiled rules store)
    (hw : WritesHeader store header.id score raw store')
    (hparse : rules.parseHeader raw = some header) (hkeeps : KeepsRows store store')
    (hrow : ∃ fork : ℕ, store'.headerForks[(header.height, fork)]? = some header.id) :
    AllFiled rules store' := by
  intro id hd hstored hid
  rw [storedHeader, hw.get_eq] at hstored
  by_cases heq : header.id = id
  · rw [if_pos heq, bind_some, hparse] at hstored
    cases hstored
    rwa [← heq]
  · rw [if_neg heq] at hstored
    obtain ⟨fork, hfork⟩ := h id hd hstored hid
    exact ⟨fork, hkeeps _ _ hfork⟩

lemma AllFiled.putHeader {store : ModifierStore} (h : AllFiled rules store)
    (hparse : rules.parseHeader raw = some header) (score : ℕ) :
    AllFiled rules (store.putHeader header.id header.height (nextForkNum store header.height)
      (some score) raw) :=
  h.write (writesHeader_putHeader ..) hparse
    (keepsRows_putHeader store header.id header.height (some score) raw)
    ⟨nextForkNum store header.height, by simp [ModifierStore.putHeader]⟩

lemma AllFiled.foldl_storeDemoted {store : ModifierStore} (h : AllFiled rules store)
    (hrows : ∀ r ∈ rows, ∃ e, RowOf rules e r) :
    AllFiled rules (rows.foldl storeDemoted store) := by
  induction rows generalizing store with
  | nil => exact h
  | cons r rows ih =>
    obtain ⟨e, hrow⟩ := hrows r mem_cons_self
    refine ih ?_ (fun r' hr' => hrows r' (mem_cons_of_mem _ hr'))
    rw [storeDemoted, hrow.score_eq, hrow.id_eq, hrow.height_eq]
    exact h.putHeader hrow.data_eq e.score

lemma AllFiled.foldl_putEntry {store : ModifierStore} (h : AllFiled rules store)
    (hrows : ∀ r ∈ rows, ∃ e, RowOf rules e r) (hslots : store.BatchKeepsSlots rows) :
    AllFiled rules (rows.foldl ModifierStore.putEntry store) := by
  -- the condition is on the rows one by one, with the caches refreshed after each
  suffices hone : AllFiled rules (rows.foldl putOne store) by
    rwa [foldl_putOne] at hone
  induction rows generalizing store with
  | nil => exact h
  | cons r rows ih =>
    obtain ⟨e, hrow⟩ := hrows r mem_cons_self
    refine ih ?_ (fun r' hr' => hrows r' (mem_cons_of_mem _ hr')) hslots.2
    have hslot : entrySlot r = some (e.header.height, 0) := by
      simp [entrySlot, hrow.typeId_eq, hrow.height_pos, ← hrow.height_eq]
    have hw : WritesHeader store e.header.id e.score r.data (store.putOne r) :=
      ⟨(writesHeader_putEntry hrow store).get_eq, (writesHeader_putEntry hrow store).score_eq⟩
    refine h.write hw hrow.data_eq ?_ ⟨0, ?_⟩
    · intro slot id hid
      rw [headerForks_putOne]
      split
      next hs =>
        rw [hslots.1 slot hs id hid]
      · exact hid
    · rw [headerForks_putOne, if_pos hslot, hrow.id_eq]

lemma AllFiled.of_sameHeaders {store store' : ModifierStore} (h : AllFiled rules store)
    (hsame : SameHeaders store store') (hforks : store'.headerForks = store.headerForks) :
    AllFiled rules store' := by
  intro id header hstored
  rw [storedHeader, hsame.get_eq] at hstored
  rw [hforks]
  exact h id header hstored

/-- The headers that the reorg at the end of a batch writes find their slots empty or their own. -/
def ReorgKeepsSlots (rules : PipelineRules) (now : ℕ) (s : BatchState) : Prop :=
  ∀ b ∈ s.pendingReorg,
    match s.chain.tryReorgDeep rules.toHeaderRules now b.1 (b.2.map Prod.fst) with
    | (.ok _, chain) => s.store.BatchKeepsSlots (branchRows chain b.2)
    | (.error _, _) => True

def FlushKeepsSlots (store : ModifierStore) (entries : List ModifierBatchEntry) :
    (reorgForkPoint : Option ℕ) → Prop
  | none => store.BatchKeepsSlots entries
  | some f => ((entries.filter (fun r => f < r.height)).foldl storeDemoted store).BatchKeepsSlots
      (entries.filter (fun r => r.height ≤ f))

/-- The headers that a batch puts on the best chain take no slot from another header. -/
def PipelineKeepsSlots (rules : PipelineRules) (p : ValidationPipeline)
    (b : ℕ × List ModifierBatchItem) : Prop :=
  let s := loopEnd rules b.1 p b.2
  ReorgKeepsSlots rules b.1 s ∧
    let out := executeReorg rules b.1 s
    FlushKeepsSlots out.1.store out.1.storeEntries out.2

instance (s : BatchState) : Decidable (ReorgKeepsSlots rules now s) :=
  match hpending : s.pendingReorg with
  | none => isTrue (by simp [ReorgKeepsSlots, hpending])
  | some b =>
    match hreorg : s.chain.tryReorgDeep rules.toHeaderRules now b.1 (b.2.map Prod.fst) with
    | (.ok _, chain) => decidable_of_iff (s.store.BatchKeepsSlots (branchRows chain b.2))
        (by simp [ReorgKeepsSlots, hpending, hreorg])
    | (.error _, _) => isTrue (by simp [ReorgKeepsSlots, hpending, hreorg])

instance (store : ModifierStore) (entries : List ModifierBatchEntry) (f : Option ℕ) :
    Decidable (FlushKeepsSlots store entries f) := by
  unfold FlushKeepsSlots
  split <;> infer_instance

instance (p : ValidationPipeline) (b : ℕ × List ModifierBatchItem) :
    Decidable (PipelineKeepsSlots rules p b) := by
  unfold PipelineKeepsSlots
  infer_instance

lemma AllFiled.flush {store : ModifierStore} (h : AllFiled rules store)
    (hrows : RowsOf rules es rows)
    {reorgForkPoint : Option ℕ} (hslots : FlushKeepsSlots store rows reorgForkPoint) :
    AllFiled rules (flush store rows reorgForkPoint) := by
  have hrow : ∀ rows' ⊆ rows, ∀ r ∈ rows', ∃ e, RowOf rules e r := by
    intro rows' hsub r hr
    obtain ⟨e, -, hrow⟩ := hrows.exists_entry r (hsub hr)
    exact ⟨e, hrow⟩
  cases reorgForkPoint with
  | none =>
    exact (h.foldl_putEntry (hrow rows (fun _ hr => hr)) hslots).of_sameHeaders
      (sameHeaders_flush_none hrows store) (headerForks_flush_none hrows store)
  | some f =>
    have hdemoted := h.foldl_storeDemoted
      (hrow (rows.filter (fun r => f < r.height)) (filter_subset_self _))
    exact (hdemoted.foldl_putEntry
      (hrow (rows.filter (fun r => r.height ≤ f)) (filter_subset_self _)) hslots).of_sameHeaders
      (sameHeaders_flush_some hrows store f) (headerForks_flush_some hrows store f)

lemma allFiled_foldl (hloop : LoopInv rules c₀ s) (hparsed : ∀ x ∈ xs, IsParsed rules x)
    (h : AllFiled rules s.store) :
    AllFiled rules (xs.foldl (processHeader rules now) s).store := by
  induction xs generalizing s with
  | nil => exact h
  | cons x xs ih =>
    have hx := hparsed x mem_cons_self
    refine ih (hloop.processHeader hx) (forall_mem_cons.1 hparsed).2 ?_
    obtain ⟨header, raw⟩ := x
    refine processHeader_cases (P := fun s' => AllFiled rules s'.store) h ?_ ?_ ?_
    · intro chain happend
      exact drainBuffer_induction (P := fun s' => AllFiled rules s'.store)
        (fun _ _ _ _ _ h _ _ => h) (fun _ _ h => h) _ _ _ h
    · intro requests parentScore assemble _ _
      exact h.putHeader hx _
    · intro requests control _
      exact h

lemma allFiled_processBatch {b : ℕ × List ModifierBatchItem} (hwf : p.WellFormed rules)
    (h : AllFiled rules p.store) (hslots : PipelineKeepsSlots rules p b) :
    AllFiled rules (batchStep rules p b).store := by
  obtain ⟨now, batch⟩ := b
  obtain ⟨-, -, hsame⟩ := processBatch_eq rules now p batch
  refine AllFiled.of_sameHeaders ?_ hsame (headerForks_processBatch rules now p batch)
  unfold afterHeaders
  split
  · exact h
  · have hloop : LoopInv rules p.chain (loopEnd rules now p batch) := hwf.loopInv_loopEnd batch
    have hend : AllFiled rules (loopEnd rules now p batch).store :=
      allFiled_foldl hwf.loopInv_startBatch (fun _ hx => isParsed_of_mem_batchHeaders hx) h
    obtain ⟨hreorgSlots, hflushSlots⟩ := hslots
    obtain ⟨es, -, hrows⟩ := hloop.grown
    have hout := executeReorg_outcome now hloop
    unfold finishBatch
    dsimp only at hflushSlots ⊢
    generalize executeReorg rules now (loopEnd rules now p batch) = out at hout hflushSlots
    cases hout with
    | kept hrefused => exact hend.flush hrows hflushSlots
    | @switched f branch ids chain es' hpending hreorg hheaders hswitch hrows' control =>
      have hbranch := hreorgSlots (f, branch) hpending
      dsimp only at hbranch
      rw [hreorg] at hbranch
      have hwritten := hend.foldl_putEntry (fun r hr => by
        obtain ⟨e, -, hrow⟩ := hrows'.exists_entry r hr
        exact ⟨e, hrow⟩) hbranch
      exact (hwritten.of_sameHeaders (sameHeaders_refreshTips _ (branchRows chain branch))
        rfl).flush hrows hflushSlots

lemma parentsFiled_of_allFiled (htree : StoredTree rules p) (hfiled : AllFiled rules p.store) :
    ParentsFiled rules p := by
  intro height fork id hrow header hheader base hbase hlt
  obtain ⟨header', hstored, -, -, hparent⟩ := htree height fork id hrow
  cases hstored.symm.trans hheader
  obtain ⟨parent, -, hparentStored, hid, hheight, -⟩ := hparent base hbase hlt
  obtain ⟨fork', hfork'⟩ := hfiled _ parent hparentStored hid
  exact ⟨fork', by rw [← hheight]; exact hfork'⟩

/-! ## Runs -/

/-- **In every run whose headers keep heights the stored tree is well formed**; if no slot is taken
from another header, every parent above the base has a row one height below. -/
theorem storedTree_runBatches (hfree : CollisionFree rules) {p : ValidationPipeline}
    (hwf : p.WellFormed rules) (hscores : ScoresConsistent rules p)
    (htree : StoredTreeInv rules p.chain p.store) {batches : List (ℕ × List ModifierBatchItem)}
    (hcond : MeetsAll (batchStep rules) (fun p b => BatchKeepsHeights rules b.1 p b.2) p batches) :
    StoredTree rules (runBatches rules p batches) ∧
      (AllFiled rules p.store → MeetsAll (batchStep rules) (PipelineKeepsSlots rules) p batches →
        ParentsFiled rules (runBatches rules p batches)) := by
  have hinv : ∀ p : ValidationPipeline, p.WellFormed rules ∧ ScoresConsistent rules p →
      ∀ b, (batchStep rules p b).WellFormed rules ∧ ScoresConsistent rules (batchStep rules p b) :=
    fun p h b => ⟨h.1.processBatch b.1 b.2, h.2.processBatch hfree h.1 b.1 b.2⟩
  have htree' := hcond.invariant
    (P := fun p => (p.WellFormed rules ∧ ScoresConsistent rules p) ∧
      StoredTreeInv rules p.chain p.store)
    (fun p b h hb => ⟨hinv p h.1 b, storedTreeInv_processBatch hfree h.1.1 h.1.2 h.2 hb⟩)
    ⟨⟨hwf, hscores⟩, htree⟩
  have hstored : StoredTree rules (runBatches rules p batches) :=
    storedTree_of_inv hfree htree'.1.1 htree'.1.2 htree'.2
  refine ⟨hstored, fun hfiled hslots => parentsFiled_of_allFiled hstored ?_⟩
  exact (hslots.invariant
    (P := fun p => (p.WellFormed rules ∧ ScoresConsistent rules p) ∧ AllFiled rules p.store)
    (fun p b h hb => ⟨hinv p h.1 b, allFiled_processBatch h.1.1 h.2 hb⟩)
    ⟨⟨hwf, hscores⟩, hfiled⟩).2

lemma storedTreeInv_new (config : ChainConfig) :
    StoredTreeInv rules (ValidationPipeline.new config).chain
      (ValidationPipeline.new config).store where
  filed slot id hid := by
    rw [show (ValidationPipeline.new config).store.headerForks[slot]? = none from
      Std.ExtTreeMap.getElem?_empty] at hid
    cases hid
  heights header _ hscore := by
    simp [ValidationPipeline.new, empty, storedScore, headerScore]
      at hscore

lemma allFiled_new (config : ChainConfig) :
    AllFiled rules (ValidationPipeline.new config).store := by
  intro id header hstored
  simp [ValidationPipeline.new, ModifierStore.empty, storedHeader, ModifierStore.get] at hstored

/-- A fork of two headers overtakes a chain of one; and before it does, all headers are filed. -/
theorem storedTree_heavyFork :
    StoredTree (listRules (forkHeaders 100734821))
        (runBatches (listRules (forkHeaders 100734821)) (.new .mainnet) forkRun) ∧
      ParentsFiled (listRules (forkHeaders 100734821))
        (runBatches (listRules (forkHeaders 100734821)) (.new .mainnet) (forkRun.take 1)) :=
  have hfree : CollisionFree (listRules (forkHeaders 100734821)) :=
    collisionFree_listRules (by decide)
  ⟨(storedTree_runBatches hfree (.new _) (.new _) (storedTreeInv_new _) (by decide +kernel)).1,
    (storedTree_runBatches hfree (.new _) (.new _) (storedTreeInv_new _)
      (by decide +kernel)).2 (allFiled_new _) (by decide +kernel)⟩

def skippedHeights : List Header :=
  (forkHeaders 16842752).map (fun h => if h.id = 13 then { h with height := 7 } else h)

/-- It is stored under height 7, with a parent of height 2. -/
theorem not_storedTree_skippedHeights :
    (let p := runBatches (listRules skippedHeights) (.new .mainnet) forkRun
     p.store.headerForks[(7, 1)]? = some 13 ∧
      (storedHeader (listRules skippedHeights) p.store 12).map (·.height) = some 2) ∧
    ¬StoredTree (listRules skippedHeights)
      (runBatches (listRules skippedHeights) (.new .mainnet) forkRun) := by
  refine ⟨by decide +kernel, fun htree => ?_⟩
  obtain ⟨header, hheader, -, -, hparent⟩ := htree 7 1 13 (by decide +kernel)
  have hparentId : (storedHeader (listRules skippedHeights)
      (runBatches (listRules skippedHeights) (.new .mainnet) forkRun).store 13).map (·.parentId) =
      some 12 := by decide +kernel
  rw [hheader] at hparentId
  have hid : header.parentId = 12 := some.inj hparentId
  obtain ⟨parent, -, hstored, -, hheight, -⟩ := hparent 1 (by decide +kernel) (by decide)
  rw [hid] at hstored
  have hparentHeight : (storedHeader (listRules skippedHeights)
      (runBatches (listRules skippedHeights) (.new .mainnet) forkRun).store 12).map (·.height) =
      some 2 := by decide +kernel
  rw [hstored] at hparentHeight
  have hlow : parent.height = 2 := some.inj hparentHeight
  omega

end ErgoNode
