import ErgoNode.Pipeline.Process
import ErgoNode.Chain.Linked

/-!
# What one iteration of the header loop can do

Case rules for `processHeader` and `drainBuffer`, and the invariant every batch keeps: the chain
grows at its tip only, stays linked, and the rows waiting for the store are those of the new
entries.
-/

namespace ErgoNode

open List HeaderChain ModifierStore

variable {rules : PipelineRules} {now : ℕ}
variable {header : Header} {raw : Bytes} {parentScore : ℕ}
  {assemble : ModifierStore → Option ForkBranch} {c : HeaderChain} {P : BatchState → Prop}
  {headers : List Header} {chain : HeaderChain} {x : RawHeader} {store : ModifierStore}
  {b : List RawHeader}

def IsParsed (rules : PipelineRules) (x : RawHeader) : Prop := rules.parseHeader x.2 = some x.1

def Parsed (rules : PipelineRules) (header : Header) : Prop :=
  ∃ raw, rules.parseHeader raw = some header

def CollisionFree (rules : PipelineRules) : Prop :=
  ∀ a b, Parsed rules a → Parsed rules b → a.id = b.id → a = b

lemma IsParsed.parsed (h : IsParsed rules x) : Parsed rules x.1 := ⟨x.2, h⟩

/-! ## Case rules -/

/-- The header was stored as a fork: its parent is below the tip, or off the chain with a score. -/
inductive ForksFrom (rules : PipelineRules) (now : ℕ) (s : BatchState) (header : Header)
    (raw : Bytes) : (parentScore : ℕ) → (assemble : ModifierStore → Option ForkBranch) → Prop
  | chain {forkHeight : ℕ}
      (happend : s.chain.tryAppend rules.toHeaderRules now header =
        (.ok (.forked forkHeight), s.chain)) :
      ForksFrom rules now s header raw ((s.chain.scoreAt forkHeight).getD 0)
        (fun _ => some (forkHeight, [(header, raw)]))
  | store {parentScore : ℕ} (hne : s.chain.entries ≠ [])
      (hmissing : s.chain.heightOf header.parentId = none)
      (hscore : storedScore s.store header.parentId = some parentScore) :
      ForksFrom rules now s header raw parentScore
        (fun store => assembleForkBranch rules s.chain store header raw)

def storesFork (rules : PipelineRules) (now : ℕ) (s : BatchState) (header : Header) : Bool :=
  !s.chain.contains header.id &&
    match (s.chain.tryAppend rules.toHeaderRules now header).1 with
    | .ok (.forked _) => true
    | .error (.parentNotFound _) => (storedScore s.store header.parentId).isSome
    | _ => false

lemma ForksFrom.storesFork {s : BatchState}
    (h : ForksFrom rules now s header raw parentScore assemble)
    (hnew : s.chain.contains header.id = false) : storesFork rules now s header = true := by
  cases h with
  | chain happend => simp [ErgoNode.storesFork, hnew, happend]
  | store hne hmissing hscore =>
    simp [ErgoNode.storesFork, hnew, tryAppend_of_heightOf_eq_none hne hmissing, hscore]

lemma ForksFrom.frame {s : BatchState}
    (h : ForksFrom rules now s header raw parentScore assemble) (requests : ParentRequests) :
    ForksFrom rules now { s with reorgRequested := requests } header raw parentScore assemble := by
  cases h with
  | chain happend => exact .chain happend
  | store hne hmissing hscore => exact .store hne hmissing hscore

lemma processHeader_arms {s : BatchState} (hkeep : P s)
    (hextend : ∀ chain, s.chain.tryAppend rules.toHeaderRules now header = (.ok .extended, chain) →
      P (drainBuffer rules now s.buffer.entries.length header.id (chainHeader s chain header raw)))
    (hfork : ∀ forkHeight, s.chain.contains header.id = false →
      s.chain.tryAppend rules.toHeaderRules now header = (.ok (.forked forkHeight), s.chain) →
      P (storeFork rules { s with reorgRequested := s.reorgRequested.resolved header.id } header raw
        ((s.chain.scoreAt forkHeight).getD 0) (fun _ => some (forkHeight, [(header, raw)]))))
    (hstore : ∀ parentScore, s.chain.contains header.id = false → s.chain.entries ≠ [] →
      s.chain.heightOf header.parentId = none →
      storedScore s.store header.parentId = some parentScore →
      P (storeFork rules s header raw parentScore
        (fun store => assembleForkBranch rules s.chain store header raw)))
    (hask : s.chain.heightOf header.parentId = none → storedScore s.store header.parentId = none →
      P (bufferHeader (requestParent now s header.parentId) header raw))
    (hgenesis : s.chain.entries = [] → P (bufferHeader s header raw)) :
    P (processHeader rules now s (header, raw)) := by
  unfold processHeader
  dsimp only
  split
  · exact hkeep
  rename_i hnew
  have hnew : s.chain.contains header.id = false := by simpa using hnew
  split
  next chain happend =>
    exact hextend chain happend
  next forkHeight chain happend =>
    obtain ⟨rfl, -, -⟩ := tryAppend_forked happend
    exact hfork _ hnew happend
  next parentId chain happend =>
    obtain ⟨hmissing, hne⟩ := tryAppend_parentNotFound happend
    split
    next parentScore hscore =>
      exact hstore _ hnew hne hmissing hscore
    next hscore =>
      exact hask hmissing hscore
  next parentId chain happend =>
    exact hgenesis (tryAppend_invalidGenesis (Or.inl happend))
  next height chain happend =>
    exact hgenesis (tryAppend_invalidGenesis (Or.inr happend))
  · exact hkeep

/-- One iteration: the header is passed over, joins the chain, is stored as a fork, or is buffered.
-/
theorem processHeader_cases {s : BatchState} (hkeep : P s)
    (hextend : ∀ chain, s.chain.tryAppend rules.toHeaderRules now header = (.ok .extended, chain) →
      P (drainBuffer rules now s.buffer.entries.length header.id (chainHeader s chain header raw)))
    (hfork : ∀ requests parentScore assemble, s.chain.contains header.id = false →
      ForksFrom rules now s header raw parentScore assemble →
      P (storeFork rules { s with reorgRequested := requests } header raw parentScore assemble))
    (hbuffer : ∀ requests control, s.chain.entries = [] ∨ s.chain.heightOf header.parentId = none ∧
        storedScore s.store header.parentId = none →
      P (bufferHeader { s with reorgRequested := requests, control := control } header raw)) :
    P (processHeader rules now s (header, raw)) :=
  processHeader_arms hkeep hextend
    (fun _ hnew happend => hfork _ _ _ hnew (.chain happend))
    (fun _ hnew hne hmissing hscore =>
      hfork s.reorgRequested _ _ hnew (.store hne hmissing hscore))
    (fun hmissing hscore => hbuffer _ _ (Or.inr ⟨hmissing, hscore⟩))
    (fun hempty => hbuffer s.reorgRequested s.control (Or.inl hempty))

lemma drainBuffer_induction
    (happend : ∀ s k header raw chain, P s → (k, (header, raw)) ∈ s.buffer.entries →
      s.chain.tryAppend rules.toHeaderRules now header = (.ok .extended, chain) →
      P (chainHeader { s with buffer := s.buffer.remove k } chain header raw))
    (hdrop : ∀ s k, P s → P { s with buffer := s.buffer.remove k })
    (fuel : ℕ) (nextParent : BlockId) (s : BatchState) (hs : P s) :
    P (drainBuffer rules now fuel nextParent s) := by
  induction fuel generalizing nextParent s with
  | zero => exact hs
  | succ fuel ih =>
    unfold drainBuffer
    split
    · exact hs
    next header raw buffer hpop =>
      obtain ⟨hmem, rfl⟩ := LruCache.pop_eq_some_iff.1 hpop
      split
      next chain hext =>
        exact ih _ _ (happend s nextParent header raw chain hs hmem hext)
      · exact hdrop s nextParent hs

/-! ## The invariant of the loop -/

/-- The store row of a chain entry, with bytes that parse to its header. -/
structure RowOf (rules : PipelineRules) (e : ChainEntry) (r : ModifierBatchEntry) : Prop where
  typeId_eq : r.typeId = headerTypeId
  id_eq : r.id = e.header.id
  height_eq : r.height = e.header.height
  height_pos : 0 < r.height
  score_eq : r.score = some (some e.score)
  data_eq : rules.parseHeader r.data = some e.header

structure RowsOf (rules : PipelineRules) (es : List ChainEntry) (rows : List ModifierBatchEntry) :
    Prop where
  exists_entry : ∀ r ∈ rows, ∃ e ∈ es, RowOf rules e r
  exists_row : ∀ e ∈ es, ∃ r ∈ rows, RowOf rules e r

namespace RowsOf

variable {es : List ChainEntry} {rows : List ModifierBatchEntry}

lemma nil : RowsOf rules [] [] := ⟨by simp, by simp⟩

lemma concat (h : RowsOf rules es rows) {e : ChainEntry} {r : ModifierBatchEntry}
    (hr : RowOf rules e r) : RowsOf rules (es ++ [e]) (rows ++ [r]) where
  exists_entry r' hr' := by
    rcases mem_append.1 hr' with hr' | hr'
    · obtain ⟨e', he', h'⟩ := h.exists_entry r' hr'
      exact ⟨e', mem_append_left _ he', h'⟩
    · obtain rfl := mem_singleton.1 hr'
      exact ⟨e, by simp, hr⟩
  exists_row e' he' := by
    rcases mem_append.1 he' with he' | he'
    · obtain ⟨r', hr', h'⟩ := h.exists_row e' he'
      exact ⟨r', mem_append_left _ hr', h'⟩
    · obtain rfl := mem_singleton.1 he'
      exact ⟨r, by simp, hr⟩

lemma filter (h : RowsOf rules es rows) (p : ℕ → Bool) :
    RowsOf rules (es.filter (fun e => p e.header.height)) (rows.filter (fun r => p r.height)) where
  exists_entry r hr := by
    obtain ⟨hr, hp⟩ := mem_filter.1 hr
    obtain ⟨e, he, hrow⟩ := h.exists_entry r hr
    exact ⟨e, mem_filter.2 ⟨he, hrow.height_eq ▸ hp⟩, hrow⟩
  exists_row e he := by
    obtain ⟨he, hp⟩ := mem_filter.1 he
    obtain ⟨r, hr, hrow⟩ := h.exists_row e he
    exact ⟨r, mem_filter.2 ⟨hr, hrow.height_eq.symm ▸ hp⟩, hrow⟩

end RowsOf

/-- What holds between two headers of a batch that started from the chain `c₀`. -/
structure LoopInv (rules : PipelineRules) (c₀ : HeaderChain) (s : BatchState) : Prop where
  linked : s.chain.Linked rules.toHeaderRules
  /-- It grew at its tip, and the rows for the store are those of the new entries. -/
  grown : ∃ es, s.chain = { c₀ with entries := c₀.entries ++ es } ∧
    RowsOf rules es s.storeEntries
  parsed : ∀ e ∈ s.chain.entries, Parsed rules e.header
  /-- Buffered headers were parsed, and are filed under their parent. -/
  buffered : ∀ k x, (k, x) ∈ s.buffer.entries → IsParsed rules x ∧ k = x.1.parentId
  pending : ∀ f branch, s.pendingReorg = some (f, branch) → ∀ x ∈ branch, IsParsed rules x

lemma exists_entries_of_tryAppend (hc : c.Linked rules.toHeaderRules)
    (h : c.tryAppend rules.toHeaderRules now header = (.ok .extended, chain)) :
    chain.Linked rules.toHeaderRules ∧ 0 < header.height ∧
      ∃ score, chain = { c with entries := c.entries ++ [⟨header, score⟩] } := by
  obtain ⟨rfl, ⟨hnil, hgenesis⟩ | ⟨tip, hfits, -⟩⟩ := tryAppend_extended h
  · simp only [validateGenesis, bind_eq_ok, require_eq_ok, exists_and_left] at hgenesis
    exact ⟨linked_pushHeader_of_nil hnil header, by omega, _, rfl⟩
  · exact ⟨hc.pushHeader hfits, by rw [hfits.height_eq]; omega, _, rfl⟩

lemma rowOf_chainedEntry {score : ℕ}
    (hc : c.Linked rules.toHeaderRules) (hmem : ⟨header, score⟩ ∈ c.entries)
    (hpos : 0 < header.height) (hparsed : IsParsed rules (header, raw)) :
    RowOf rules ⟨header, score⟩ (chainedEntry c header raw) := by
  have hentry : c.entryAt header.height = some ⟨header, score⟩ :=
    hc.entryAt_eq_some_iff.2 ⟨hmem, rfl⟩
  exact ⟨rfl, rfl, rfl, hpos, by simp [chainedEntry, scoreAt, hentry], hparsed⟩

namespace LoopInv

variable {c₀ : HeaderChain} {s : BatchState}

lemma start_linked (inv : LoopInv rules c₀ s) : c₀.Linked rules.toHeaderRules := by
  obtain ⟨es, hchain, -⟩ := inv.grown
  have h := inv.linked
  rw [hchain] at h
  exact IsChain.left_of_append h

lemma remove (inv : LoopInv rules c₀ s) (k : BlockId) :
    LoopInv rules c₀ { s with buffer := s.buffer.remove k } :=
  { inv with buffered := fun k' x hx => inv.buffered k' x (LruCache.mem_filterEntries.1 hx).1 }

lemma chainHeader (inv : LoopInv rules c₀ s) {header : Header} {raw : Bytes}
    (hparsed : IsParsed rules (header, raw))
    (h : s.chain.tryAppend rules.toHeaderRules now header = (.ok .extended, chain)) :
    LoopInv rules c₀ (chainHeader s chain header raw) := by
  obtain ⟨hlinked, hpos, score, rfl⟩ := exists_entries_of_tryAppend inv.linked h
  obtain ⟨es, hes, hrows⟩ := inv.grown
  refine ⟨hlinked, ⟨es ++ [⟨header, score⟩], ?_, ?_⟩, ?_, inv.buffered, inv.pending⟩
  · simp [ErgoNode.chainHeader, hes]
  · exact hrows.concat (rowOf_chainedEntry hlinked (by simp) hpos hparsed)
  · intro e he
    rcases mem_append.1 he with he | he
    · exact inv.parsed e he
    · obtain rfl := mem_singleton.1 he
      exact hparsed.parsed

lemma drainBuffer (inv : LoopInv rules c₀ s) (fuel : ℕ) (nextParent : BlockId) :
    LoopInv rules c₀ (drainBuffer rules now fuel nextParent s) :=
  drainBuffer_induction
    (fun _ k _ _ _ inv hmem happend =>
      (inv.remove k).chainHeader (inv.buffered _ _ hmem).1 happend)
    (fun _ k inv => inv.remove k) fuel nextParent s inv

lemma bufferHeader (inv : LoopInv rules c₀ s) {header : Header} {raw : Bytes}
    (hparsed : IsParsed rules (header, raw)) :
    LoopInv rules c₀ (bufferHeader s header raw) where
  __ := inv
  buffered k x hx := by
    rcases LruCache.mem_push hx with heq | hx
    · cases heq
      exact ⟨hparsed, rfl⟩
    · exact inv.buffered k x hx

end LoopInv

/-! ## The recorded branch -/

lemma walkForkBranch_eq_some {fuel : ℕ} {currentParent : BlockId} {branch : List RawHeader}
    {f : ℕ} (h : walkForkBranch rules chain store fuel currentParent branch = some (f, b)) :
    ∃ ext, b = (branch ++ ext).reverse ∧ ∀ x ∈ ext, IsParsed rules x := by
  induction fuel generalizing currentParent branch with
  | zero => simp [walkForkBranch] at h
  | succ fuel ih =>
    unfold walkForkBranch at h
    split at h
    · split at h
      · simp at h
      · dsimp only at h
        split at h
        · simp only [Option.some.injEq, Prod.mk.injEq] at h
          exact ⟨[], by simp [h.2], by simp⟩
        · simp at h
    · split at h
      · simp at h
      · split at h
        · simp at h
        next parentData _ _ parentHeader hparse =>
          obtain ⟨ext, rfl, hext⟩ := ih h
          refine ⟨(parentHeader, parentData) :: ext, by simp, ?_⟩
          intro x hx
          rcases mem_cons.1 hx with rfl | hx
          · exact hparse
          · exact hext x hx

lemma ForksFrom.branch {s : BatchState}
    (h : ForksFrom rules now s header raw parentScore assemble)
    (hparsed : IsParsed rules (header, raw)) {f : ℕ} (hb : assemble store = some (f, b)) :
    b.getLast? = some (header, raw) ∧ ∀ x ∈ b, IsParsed rules x := by
  cases h with
  | chain happend =>
    cases hb
    exact ⟨rfl, by simpa using hparsed⟩
  | store hne hmissing hscore =>
    obtain ⟨ext, rfl, hext⟩ := walkForkBranch_eq_some hb
    refine ⟨by simp, ?_⟩
    intro x hx
    rcases mem_append.1 (mem_reverse.1 hx) with hx | hx
    · obtain rfl := mem_singleton.1 hx
      exact hparsed
    · exact hext x hx

namespace LoopInv

variable {c₀ : HeaderChain} {s : BatchState}

lemma storeFork (inv : LoopInv rules c₀ s) {header : Header} {raw : Bytes} {parentScore : ℕ}
    {assemble : ModifierStore → Option ForkBranch}
    (hforks : ForksFrom rules now s header raw parentScore assemble)
    (hparsed : IsParsed rules (header, raw)) :
    LoopInv rules c₀ (storeFork rules s header raw parentScore assemble) where
  __ := inv
  pending f branch hpending := by
    simp only [ErgoNode.storeFork] at hpending
    split at hpending
    · exact (hforks.branch hparsed hpending).2
    · exact inv.pending f branch hpending

lemma processHeader (inv : LoopInv rules c₀ s) (hparsed : IsParsed rules x) :
    LoopInv rules c₀ (processHeader rules now s x) := by
  have frame : ∀ requests control, LoopInv rules c₀
      { s with reorgRequested := requests, control := control } :=
    fun _ _ => { inv with }
  refine processHeader_cases inv ?_ ?_ ?_
  · intro chain happend
    exact (inv.chainHeader hparsed happend).drainBuffer _ _
  · intro requests parentScore assemble _ hforks
    exact (frame requests s.control).storeFork (hforks.frame requests) hparsed
  · intro requests control _
    exact (frame requests control).bufferHeader hparsed

lemma foldl (inv : LoopInv rules c₀ s) {xs : List RawHeader}
    (hparsed : ∀ x ∈ xs, IsParsed rules x) :
    LoopInv rules c₀ (xs.foldl (ErgoNode.processHeader rules now) s) := by
  induction xs generalizing s with
  | nil => exact inv
  | cons x xs ih =>
    exact ih (inv.processHeader (hparsed x mem_cons_self))
      (forall_mem_cons.1 hparsed).2

end LoopInv

/-! ## The reorg at the end of a batch -/

lemma putBatch_rows {es : List ChainEntry} {rows : List ModifierBatchEntry}
    (hrows : RowsOf rules es rows) (store : ModifierStore) :
    store.putBatch rows = .ok ((rows.foldl ModifierStore.putEntry store).refreshTips rows) :=
  putBatch_eq_ok fun r hr => by
    obtain ⟨e, -, hrow⟩ := hrows.exists_entry r hr
    simp [hrow.score_eq]

lemma rowsOf_branch (hc : c.Linked rules.toHeaderRules)
    {es : List ChainEntry} (hsub : ∀ e ∈ es, e ∈ c.entries) {branch : List RawHeader}
    (hheaders : es.map (·.header) = branch.map Prod.fst)
    (hpos : ∀ e ∈ es, 0 < e.header.height) (hparsed : ∀ x ∈ branch, IsParsed rules x) :
    RowsOf rules es (branch.map (fun x => chainedEntry c x.1 x.2)) where
  exists_entry r hr := by
    obtain ⟨x, hx, rfl⟩ := mem_map.1 hr
    obtain ⟨e, he, hex⟩ := mem_map.1 (hheaders ▸ mem_map_of_mem hx)
    obtain ⟨header, raw⟩ := x
    subst hex
    exact ⟨_, he, rowOf_chainedEntry hc (hsub _ he) (hpos _ he) (hparsed _ hx)⟩
  exists_row e he := by
    obtain ⟨x, hx, hex⟩ := mem_map.1 (hheaders.symm ▸ mem_map_of_mem he)
    obtain ⟨header, raw⟩ := x
    subst hex
    exact ⟨_, mem_map.2 ⟨_, hx, rfl⟩, rowOf_chainedEntry hc (hsub _ he) (hpos _ he) (hparsed _ hx)⟩

def branchRows (chain : HeaderChain) (branch : List RawHeader) : List ModifierBatchEntry :=
  branch.map (fun x => chainedEntry chain x.1 x.2)

inductive ReorgOutcome (rules : PipelineRules) (now : ℕ) (s : BatchState) :
    BatchState × Option ℕ → Prop
  /-- Nothing was recorded, or the chain refused the branch: nothing changes. -/
  | kept (hrefused : ∀ f branch, s.pendingReorg = some (f, branch) →
      ∃ e, (s.chain.tryReorgDeep rules.toHeaderRules now f (branch.map Prod.fst)).1 = .error e) :
      ReorgOutcome rules now s (s, none)
  | switched {f : ℕ} {branch : List RawHeader} {ids : List BlockId} {chain : HeaderChain}
      {es : List ChainEntry} (hpending : s.pendingReorg = some (f, branch))
      (hreorg : s.chain.tryReorgDeep rules.toHeaderRules now f (branch.map Prod.fst) =
        (.ok ids, chain))
      (hheaders : es.map (·.header) = branch.map Prod.fst)
      (hswitch : HeaderChain.Switched rules.toHeaderRules s.chain f es chain)
      (hrows : RowsOf rules es (branchRows chain branch)) (control : List DeliveryControl) :
      ReorgOutcome rules now s
        ({ s with
            chain := chain
            store := ((branchRows chain branch).foldl ModifierStore.putEntry s.store).refreshTips
              (branchRows chain branch)
            control := control }, some f)

lemma executeReorg_outcome (now : ℕ) {c₀ : HeaderChain} {s : BatchState}
    (hloop : LoopInv rules c₀ s) :
    ReorgOutcome rules now s (executeReorg rules now s) := by
  unfold executeReorg
  split
  next hpending =>
    exact .kept (by simp [hpending])
  next f branch hpending =>
    split
    next ids chain hreorg =>
      obtain ⟨es, hheaders, hswitch⟩ := tryReorgDeep_ok hloop.linked hreorg
      have hsub : ∀ e ∈ es, e ∈ chain.entries := by
        rw [hswitch.chain_eq]
        exact fun e he => mem_append_right _ he
      have hrows : RowsOf rules es (branchRows chain branch) :=
        rowsOf_branch hswitch.linked hsub hheaders
          (fun e he => Nat.zero_lt_of_lt (hswitch.above e he)) (hloop.pending f branch hpending)
      have hput := putBatch_rows hrows s.store
      simp only [branchRows] at hput
      dsimp only
      rw [hput]
      exact .switched hpending hreorg hheaders hswitch hrows _
    next e chain hreorg =>
      obtain rfl := tryReorgDeep_error hloop.linked hreorg
      refine .kept ?_
      intro f' branch' hpending'
      cases hpending.symm.trans hpending'
      exact ⟨e, by rw [hreorg]⟩

/-! ## Whole batches -/

/-- The chain is linked, and all headers the pipeline holds were parsed. -/
structure ValidationPipeline.WellFormed (rules : PipelineRules) (p : ValidationPipeline) :
    Prop where
  linked : p.chain.Linked rules.toHeaderRules
  parsed : ∀ e ∈ p.chain.entries, Parsed rules e.header
  /-- Buffered headers were parsed, and are filed under their parent. -/
  buffered : ∀ k x, (k, x) ∈ p.buffer.entries → IsParsed rules x ∧ k = x.1.parentId

def batchHeaders (rules : PipelineRules) (batch : List ModifierBatchItem) : List RawHeader :=
  sortByHeight
    (((batch.filter (fun i => i.typeId = headerTypeId)).map (·.data)).filterMap (acceptRaw rules))

lemma isParsed_of_mem_batchHeaders {batch : List ModifierBatchItem}
    (hx : x ∈ batchHeaders rules batch) : IsParsed rules x := by
  rw [batchHeaders, sortByHeight, mem_insertionSort, mem_filterMap] at hx
  obtain ⟨data, -, haccept⟩ := hx
  unfold acceptRaw at haccept
  split at haccept
  · simp at haccept
  next header hparse =>
    split at haccept
    · simp at haccept
    · cases haccept
      exact hparse

def loopEnd (rules : PipelineRules) (now : ℕ) (p : ValidationPipeline)
    (batch : List ModifierBatchItem) : BatchState :=
  (batchHeaders rules batch).foldl (processHeader rules now) (startBatch p)

namespace ValidationPipeline.WellFormed

variable {p : ValidationPipeline}

lemma new (config : ChainConfig) : (ValidationPipeline.new config).WellFormed rules where
  linked := isChain_nil
  parsed := by simp [ValidationPipeline.new, HeaderChain.new]
  buffered := by simp [ValidationPipeline.new]

lemma loopInv_startBatch (hwf : p.WellFormed rules) : LoopInv rules p.chain (startBatch p) where
  __ := hwf
  grown := ⟨[], by simp [startBatch], .nil⟩
  pending := by simp [startBatch]

lemma loopInv_loopEnd (hwf : p.WellFormed rules) (batch : List ModifierBatchItem) :
    LoopInv rules p.chain (loopEnd rules now p batch) :=
  hwf.loopInv_startBatch.foldl (fun _ hx => isParsed_of_mem_batchHeaders hx)

end ValidationPipeline.WellFormed

def afterHeaders (rules : PipelineRules) (now : ℕ) (p : ValidationPipeline)
    (batch : List ModifierBatchItem) : ValidationPipeline :=
  if batchHeaders rules batch = [] then p
  else finishBatch rules now p (loopEnd rules now p batch)

lemma processHeaders_fst (p : ValidationPipeline) (batch : List ModifierBatchItem) :
    (processHeaders rules now p
      ((batch.filter (fun i => i.typeId = headerTypeId)).map (·.data))).1 =
      afterHeaders rules now p batch := by
  unfold processHeaders afterHeaders loopEnd batchHeaders
  have hnil : ∀ l : List RawHeader, sortByHeight l = [] ↔ l = [] := fun l => by
    rw [← length_eq_zero_iff, sortByHeight, length_insertionSort, length_eq_zero_iff]
  simp only [hnil]
  split <;> rfl

/-- Two stores with the same headers: bytes, scores and best-chain index. -/
structure SameHeaders (s s' : ModifierStore) : Prop where
  bestHeaderAt_eq : ∀ h, s'.bestHeaderAt h = s.bestHeaderAt h
  headerScore_eq : ∀ id, s'.headerScore id = s.headerScore id
  get_eq : ∀ id, s'.get headerTypeId id = s.get headerTypeId id

lemma SameHeaders.refl (s : ModifierStore) : SameHeaders s s :=
  ⟨fun _ => rfl, fun _ => rfl, fun _ => rfl⟩

lemma sameHeaders_refreshTips (store : ModifierStore) (rows : List ModifierBatchEntry) :
    SameHeaders store (store.refreshTips rows) :=
  ⟨fun _ => rfl, fun _ => rfl, fun _ => rfl⟩

lemma sameHeaders_flush_none {es : List ChainEntry} {rows : List ModifierBatchEntry}
    (hrows : RowsOf rules es rows) (store : ModifierStore) :
    SameHeaders (rows.foldl ModifierStore.putEntry store) (flush store rows none) := by
  simp only [flush, foldl_nil]
  split
  next hnil =>
    rw [hnil]
    exact .refl store
  · rw [putBatch_rows hrows]
    exact sameHeaders_refreshTips _ _

/-- After a reorg the flush stores the rows above the fork point as forks, and writes the others
as main-chain rows. -/
theorem sameHeaders_flush_some {es : List ChainEntry} {rows : List ModifierBatchEntry}
    (hrows : RowsOf rules es rows) (store : ModifierStore) (f : ℕ) :
    SameHeaders ((rows.filter (fun r => r.height ≤ f)).foldl ModifierStore.putEntry
        ((rows.filter (fun r => f < r.height)).foldl storeDemoted store))
      (flush store rows (some f)) := by
  simp only [flush]
  split
  next hnil =>
    rw [hnil]
    exact .refl _
  · rw [putBatch_rows (hrows.filter (fun k => decide (k ≤ f)))]
    exact sameHeaders_refreshTips _ _

lemma sameHeaders_foldl_putEntry {rows : List ModifierBatchEntry}
    (hrows : ∀ r ∈ rows, r.typeId ≠ headerTypeId) (store : ModifierStore) :
    SameHeaders store (rows.foldl ModifierStore.putEntry store) where
  bestHeaderAt_eq h := read_foldl_of_none (r := fun s => s.bestHeaderAt h)
    (bestChain_putEntry h) rows store
    (fun r hr => by simp [bestChainWrite, hrows r hr])
  headerScore_eq id := read_foldl_of_none (r := fun s => s.headerScore id)
    (headerScores_putEntry id) rows store
    (fun r hr => by simp [headerScoreWrite, hrows r hr])
  get_eq id := read_foldl_of_none (r := fun s => s.get headerTypeId id)
    (get_putEntry headerTypeId id) rows store
    (fun r hr => by simp [primaryWrite, hrows r hr])

lemma sameHeaders_bindAndStoreSections (chain : HeaderChain) (store : ModifierStore)
    {sections : List ModifierBatchItem} (hsections : ∀ i ∈ sections, i.typeId ≠ headerTypeId) :
    SameHeaders store (bindAndStoreSections rules chain store sections).1 := by
  unfold bindAndStoreSections
  dsimp only
  split
  · exact .refl store
  · split
    next store' hput =>
      unfold putBatch at hput
      split at hput
      · simp at hput
      · cases hput
        have hrows : ∀ r ∈ sections.filterMap (bindSection rules chain store),
            r.typeId ≠ headerTypeId := by
          intro r hr
          obtain ⟨i, hi, hbind⟩ := mem_filterMap.1 hr
          have htype : r.typeId = i.typeId := by
            unfold bindSection at hbind
            grind
          exact htype ▸ hsections i hi
        have hsame := sameHeaders_foldl_putEntry hrows store
        exact ⟨hsame.bestHeaderAt_eq, hsame.headerScore_eq, hsame.get_eq⟩
    · exact .refl store

lemma processBatch_eq (rules : PipelineRules) (now : ℕ) (p : ValidationPipeline)
    (batch : List ModifierBatchItem) :
    (processBatch rules now p batch).chain = (afterHeaders rules now p batch).chain ∧
      (processBatch rules now p batch).buffer = (afterHeaders rules now p batch).buffer ∧
      SameHeaders (afterHeaders rules now p batch).store
        (processBatch rules now p batch).store := by
  rw [← processHeaders_fst]
  refine ⟨rfl, rfl, sameHeaders_bindAndStoreSections _ _ ?_⟩
  intro i hi
  have := (mem_filter.1 hi).2
  simp only [decide_eq_true_eq] at this
  exact this.1

namespace ValidationPipeline.WellFormed

variable {p : ValidationPipeline}

lemma finishBatch {s : BatchState} (hloop : LoopInv rules p.chain s) :
    (finishBatch rules now p s).WellFormed rules := by
  have hout := executeReorg_outcome now hloop
  unfold ErgoNode.finishBatch
  generalize executeReorg rules now s = out at hout
  cases hout with
  | kept hrefused =>
    exact ⟨hloop.linked, hloop.parsed, fun k x hx =>
      hloop.buffered k x (LruCache.mem_filterEntries.1 hx).1⟩
  | switched hpending hreorg hheaders hswitch hrows control =>
    refine ⟨hswitch.linked, ?_, fun k x hx =>
      hloop.buffered k x (LruCache.mem_filterEntries.1 hx).1⟩
    intro e he
    rw [hswitch.chain_eq] at he
    rcases mem_append.1 he with he | he
    · exact hloop.parsed e (mem_of_mem_filter he)
    · obtain ⟨r, -, hrow⟩ := hrows.exists_row e he
      exact ⟨r.data, hrow.data_eq⟩

lemma processBatch (hwf : p.WellFormed rules) (now : ℕ) (batch : List ModifierBatchItem) :
    (processBatch rules now p batch).WellFormed rules := by
  obtain ⟨hchain, hbuffer, -⟩ := processBatch_eq rules now p batch
  have hafter : (afterHeaders rules now p batch).WellFormed rules := by
    unfold afterHeaders
    split
    · exact hwf
    · exact finishBatch (hwf.loopInv_loopEnd batch)
  exact ⟨hchain ▸ hafter.linked, hchain ▸ hafter.parsed, hbuffer ▸ hafter.buffered⟩

/-- From an empty chain every run of batches, whatever they bring and at whatever times, leaves a
linked chain of parsed headers, and a buffer that is filed by parents. -/
theorem runBatches_new (rules : PipelineRules) (config : ChainConfig)
    (batches : List (ℕ × List ModifierBatchItem)) :
    (runBatches rules (.new config) batches).WellFormed rules :=
  foldlRecOn batches _ (new config) (fun _ hwf b _ => hwf.processBatch b.1 b.2)

end ValidationPipeline.WellFormed

lemma mem_of_parsed_listRules {h : Header} (hparsed : Parsed (listRules headers) h) :
    h ∈ headers := by
  obtain ⟨raw, hraw⟩ := hparsed
  simp only [listRules] at hraw
  split at hraw
  · exact mem_of_getElem? hraw
  · simp at hraw

lemma collisionFree_listRules (h : (headers.map (·.id)).Nodup) :
    CollisionFree (listRules headers) := fun _ _ ha hb =>
  inj_on_of_nodup_map h (mem_of_parsed_listRules ha) (mem_of_parsed_listRules hb)

end ErgoNode
