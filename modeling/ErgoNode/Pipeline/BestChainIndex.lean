import ErgoNode.Pipeline.Steps

/-!
# The best-chain index of the store

The store keeps an index from height to header id, from which the chain is rebuilt at restart. It
goes wrong in two ways. A fork header stored at a height without a row gets the row, also above the
tip; and no write removes a row, so a reorg to a shorter branch leaves the rows of the longer one
behind. A batch that does neither keeps the index exact.
-/

namespace ErgoNode

open List HeaderChain ModifierStore

variable {rules : PipelineRules} {now : ℕ}
variable {es : List ChainEntry} {e : ChainEntry} {h : ℕ} {c : HeaderChain} {p : ValidationPipeline}
  {rows : List ModifierBatchEntry} {header : Header}

/-- The best-chain index is exactly the chain, with no row above the tip, and `restore` on its rows
rebuilds the chain's base height and id map. -/
structure BestChainExact (p : ValidationPipeline) : Prop where
  rows : ∀ h, p.store.bestHeaderAt h = p.chain.idAt h
  above : ∀ h, p.chain.height < h → p.store.bestHeaderAt h = none
  restores : ∃ idx, HeaderChain.restore p.store.bestChainEntries = .ok idx ∧
    idx.baseHeight = p.chain.baseHeight ∧ ∀ id, idx.heightOf id = p.chain.heightOf id

/-! ## The condition -/

/-- A header to be stored as a fork lies within the chain's heights, or is the one recorded for a
reorg. -/
def StepKeepsIndex (rules : PipelineRules) (now : ℕ) (s : BatchState) (x : RawHeader) : Prop :=
  storesFork rules now s x.1 = true →
    s.chain.Spans x.1.height ∨
      s.pendingReorg = none ∧ (processHeader rules now s x).pendingReorg ≠ none

/-- The recorded reorg does not shorten the chain; if it is refused, its headers lie within the
chain. -/
def ReorgKeepsIndex (rules : PipelineRules) (now : ℕ) (s : BatchState) : Prop :=
  ∀ b ∈ s.pendingReorg,
    match (s.chain.tryReorgDeep rules.toHeaderRules now b.1 (b.2.map Prod.fst)).1 with
    | .ok _ => s.chain.height ≤ b.1 + b.2.length
    | .error _ => ∀ x ∈ b.2, s.chain.Spans x.1.height

/-- Every step of the loop, and the reorg after it, keeps the index. -/
def LoopKeepsIndex (rules : PipelineRules) (now : ℕ) : BatchState → List RawHeader → Prop
  | s, [] => ReorgKeepsIndex rules now s
  | s, x :: xs => StepKeepsIndex rules now s x ∧
      LoopKeepsIndex rules now (processHeader rules now s x) xs

def BatchKeepsIndex (rules : PipelineRules) (now : ℕ) (p : ValidationPipeline)
    (batch : List ModifierBatchItem) : Prop :=
  LoopKeepsIndex rules now (startBatch p) (batchHeaders rules batch)

def RunKeepsIndex (rules : PipelineRules) :
    ValidationPipeline → List (ℕ × List ModifierBatchItem) → Prop
  | _, [] => True
  | p, b :: rest => BatchKeepsIndex rules b.1 p b.2 ∧
      RunKeepsIndex rules (processBatch rules b.1 p b.2) rest

instance (s : BatchState) (x : RawHeader) : Decidable (StepKeepsIndex rules now s x) := by
  unfold StepKeepsIndex
  infer_instance

instance (s : BatchState) : Decidable (ReorgKeepsIndex rules now s) :=
  match hpending : s.pendingReorg with
  | none => isTrue (by simp [ReorgKeepsIndex, hpending])
  | some b =>
    match hreorg : (s.chain.tryReorgDeep rules.toHeaderRules now b.1 (b.2.map Prod.fst)).1 with
    | .ok _ => decidable_of_iff (s.chain.height ≤ b.1 + b.2.length)
        (by simp [ReorgKeepsIndex, hpending, hreorg])
    | .error _ => decidable_of_iff (∀ x ∈ b.2, s.chain.Spans x.1.height)
        (by simp [ReorgKeepsIndex, hpending, hreorg])

def decideLoopKeepsIndex (rules : PipelineRules) (now : ℕ) :
    (s : BatchState) → (xs : List RawHeader) → Decidable (LoopKeepsIndex rules now s xs)
  | s, [] => inferInstanceAs (Decidable (ReorgKeepsIndex rules now s))
  | s, x :: xs =>
    have := decideLoopKeepsIndex rules now (processHeader rules now s x) xs
    inferInstanceAs (Decidable (StepKeepsIndex rules now s x ∧ _))

instance (p : ValidationPipeline) (batch : List ModifierBatchItem) :
    Decidable (BatchKeepsIndex rules now p batch) :=
  decideLoopKeepsIndex rules now _ _

def decideRunKeepsIndex (rules : PipelineRules) : (p : ValidationPipeline) →
    (batches : List (ℕ × List ModifierBatchItem)) → Decidable (RunKeepsIndex rules p batches)
  | _, [] => inferInstanceAs (Decidable True)
  | p, b :: rest =>
    have := decideRunKeepsIndex rules (processBatch rules b.1 p b.2) rest
    inferInstanceAs (Decidable (BatchKeepsIndex rules b.1 p b.2 ∧ _))

instance (p : ValidationPipeline) (batches : List (ℕ × List ModifierBatchItem)) :
    Decidable (RunKeepsIndex rules p batches) :=
  decideRunKeepsIndex rules p batches

/-! ## The loop -/

/-- The rows of the index during a batch that started from the chain `c₀`. -/
structure IndexInv (c₀ : HeaderChain) (s : BatchState) : Prop where
  kept : ∀ h id, c₀.idAt h = some id → s.store.bestHeaderAt h = some id
  /-- Every row is within the heights of the chain, or is that of the recorded header. -/
  covered : ∀ h, (s.store.bestHeaderAt h).isSome → s.chain.Spans h ∨
    ∃ f branch x, s.pendingReorg = some (f, branch) ∧ branch.getLast? = some x ∧ x.1.height = h

namespace IndexInv

variable {c₀ : HeaderChain} {s : BatchState}

lemma chainHeader (inv : IndexInv c₀ s) (hlinked : s.chain.Linked rules.toHeaderRules)
    {raw : Bytes} {chain : HeaderChain}
    (h : s.chain.tryAppend rules.toHeaderRules now header = (.ok .extended, chain)) :
    IndexInv c₀ (chainHeader s chain header raw) where
  kept := inv.kept
  covered k hk := by
    obtain ⟨-, -, score, rfl⟩ := exists_entries_of_tryAppend hlinked h
    exact (inv.covered k hk).imp_left (fun hspans => hspans.append _)

lemma storeFork (inv : IndexInv c₀ s) {raw : Bytes} {parentScore : ℕ}
    {assemble : ModifierStore → Option ForkBranch}
    (hforks : ForksFrom rules now s header raw parentScore assemble)
    (hparsed : IsParsed rules (header, raw))
    (hcond : s.chain.Spans header.height ∨ s.pendingReorg = none ∧
      (storeFork rules s header raw parentScore assemble).pendingReorg ≠ none) :
    IndexInv c₀ (storeFork rules s header raw parentScore assemble) where
  kept h id hid := by
    simp only [ErgoNode.storeFork, bestHeaderAt, bestChain_putHeader]
    rw [show s.store.bestChain[h]? = some id from inv.kept h id hid, Option.some_or]
  covered h hh := by
    simp only [ErgoNode.storeFork, bestHeaderAt, bestChain_putHeader] at hh
    -- what is recorded stays recorded
    have hkeep : ∀ f branch, s.pendingReorg = some (f, branch) →
        (ErgoNode.storeFork rules s header raw parentScore assemble).pendingReorg =
          some (f, branch) := by
      intro f branch hpending
      simp [ErgoNode.storeFork, hpending]
    by_cases hrow : (s.store.bestChain[h]?).isSome
    · refine (inv.covered h hrow).imp_right ?_
      rintro ⟨f, branch, x, hpending, hx⟩
      exact ⟨f, branch, x, hkeep f branch hpending, hx⟩
    · have hheight : h = header.height := by
        by_contra hne
        simp [hne] at hh
        exact hrow (by simpa using hh)
      subst hheight
      refine hcond.imp_right ?_
      rintro ⟨hnone, hsome⟩
      obtain ⟨⟨f, branch⟩, hpending⟩ := Option.ne_none_iff_exists'.1 hsome
      refine ⟨f, branch, (header, raw), hpending, ?_, rfl⟩
      simp only [ErgoNode.storeFork] at hpending
      split at hpending
      · exact (hforks.branch hparsed hpending).1
      · simp [hnone] at hpending

end IndexInv

lemma indexInv_processHeader {c₀ : HeaderChain} {s : BatchState} {x : RawHeader}
    (hloop : LoopInv rules c₀ s) (hindex : IndexInv c₀ s) (hparsed : IsParsed rules x)
    (hcond : StepKeepsIndex rules now s x) : IndexInv c₀ (processHeader rules now s x) := by
  obtain ⟨header, raw⟩ := x
  -- the condition speaks of the step's own result, so the cases carry the equation along
  refine processHeader_cases
    (P := fun s' => processHeader rules now s (header, raw) = s' → IndexInv c₀ s')
    (fun _ => hindex) ?_ ?_ ?_ rfl
  · intro chain happend _
    have hstart : LoopInv rules c₀ (chainHeader s chain header raw) ∧
        IndexInv c₀ (chainHeader s chain header raw) :=
      ⟨hloop.chainHeader hparsed happend, hindex.chainHeader hloop.linked happend⟩
    refine (drainBuffer_induction (P := fun s => LoopInv rules c₀ s ∧ IndexInv c₀ s)
      ?_ ?_ _ _ _ hstart).2
    · rintro s k header raw chain ⟨hloop, hindex⟩ hmem happend
      have hremoved : IndexInv c₀ { s with buffer := s.buffer.remove k } :=
        ⟨hindex.kept, hindex.covered⟩
      exact ⟨(hloop.remove k).chainHeader (hloop.buffered _ _ hmem).1 happend,
        hremoved.chainHeader hloop.linked happend⟩
    · rintro s k ⟨hloop, hindex⟩
      exact ⟨hloop.remove k, hindex.kept, hindex.covered⟩
  · intro requests parentScore assemble hnew hforks heq
    have hresolved : IndexInv c₀ { s with reorgRequested := requests } :=
      ⟨hindex.kept, hindex.covered⟩
    exact hresolved.storeFork (hforks.frame requests) hparsed
      (heq ▸ hcond (hforks.storesFork hnew))
  · intro requests control _ _
    exact ⟨hindex.kept, hindex.covered⟩

/-! ## Writing rows -/

lemma bestHeaderAt_rows_of_mem (hrows : RowsOf rules es rows)
    (huniq : ∀ e ∈ es, ∀ e' ∈ es, e.header.height = e'.header.height → e = e')
    (he : e ∈ es) (store : ModifierStore) :
    (rows.foldl ModifierStore.putEntry store).bestHeaderAt e.header.height =
      some e.header.id := by
  refine read_foldl_of_some (r := fun s => s.bestHeaderAt e.header.height)
    (bestChain_putEntry e.header.height) rows store ?_ ?_
  · intro r hr id hid
    obtain ⟨e', he', hrow⟩ := hrows.exists_entry r hr
    simp only [bestChainWrite, Option.ite_none_right_eq_some, Option.some.injEq]
      at hid
    rw [← hid.2, hrow.id_eq, huniq e' he' e he (by rw [← hrow.height_eq]; exact hid.1.2.2)]
  · obtain ⟨r, hr, hrow⟩ := hrows.exists_row e he
    refine ⟨r, hr, ?_⟩
    simp [bestChainWrite, hrow.typeId_eq, hrow.height_eq, hrow.id_eq,
      hrow.height_eq ▸ hrow.height_pos]

lemma bestHeaderAt_rows_of_forall_ne (hrows : RowsOf rules es rows)
    (hne : ∀ e ∈ es, e.header.height ≠ h) (store : ModifierStore) :
    (rows.foldl ModifierStore.putEntry store).bestHeaderAt h = store.bestHeaderAt h := by
  refine read_foldl_of_none (r := fun s => s.bestHeaderAt h)
    (bestChain_putEntry h) rows store ?_
  intro r hr
  obtain ⟨e, he, hrow⟩ := hrows.exists_entry r hr
  have := hne e he
  simp only [bestChainWrite, ite_eq_right_iff, reduceCtorEq, imp_false]
  rintro ⟨-, -, hheight⟩
  exact this (hrow.height_eq ▸ hheight)

lemma bestHeaderAt_demoted_of_some (rows : List ModifierBatchEntry) (store : ModifierStore)
    {id : BlockId} (hid : store.bestHeaderAt h = some id) :
    (rows.foldl storeDemoted store).bestHeaderAt h = some id := by
  induction rows generalizing store with
  | nil => exact hid
  | cons r rows ih =>
    refine ih _ ?_
    simp only [storeDemoted, bestHeaderAt, bestChain_putHeader]
    rw [show store.bestChain[h]? = some id from hid, Option.some_or]

lemma isSome_bestHeaderAt_demoted (rows : List ModifierBatchEntry) (store : ModifierStore)
    (hsome : ((rows.foldl storeDemoted store).bestHeaderAt h).isSome) :
    (store.bestHeaderAt h).isSome ∨ ∃ r ∈ rows, r.height = h := by
  induction rows generalizing store with
  | nil => exact Or.inl hsome
  | cons r rows ih =>
    rcases ih _ hsome with hsome | ⟨r', hr', hheight⟩
    · simp only [storeDemoted, bestHeaderAt, bestChain_putHeader]
        at hsome
      by_cases hh : h = r.height
      · exact Or.inr ⟨r, mem_cons_self, hh.symm⟩
      · refine Or.inl ?_
        simpa [hh, bestHeaderAt] using hsome
    · exact Or.inr ⟨r', mem_cons_of_mem _ hr', hheight⟩

/-! ## The end of a batch -/

lemma eq_of_height_eq_of_subset (hc : c.Linked rules.toHeaderRules)
    (hsub : ∀ e ∈ es, e ∈ c.entries) :
    ∀ e ∈ es, ∀ e' ∈ es, e.header.height = e'.header.height → e = e' :=
  fun e he e' he' => hc.eq_of_height_eq (hsub e he) (hsub e' he')

lemma idAt_eq_none_of_not_spans (hc : c.Linked rules.toHeaderRules) (hspans : ¬c.Spans h) :
    c.idAt h = none := by
  rwa [← Option.not_isSome_iff_eq_none, hc.isSome_idAt_iff]

lemma spans_of_mem (hc : c.Linked rules.toHeaderRules) (he : e ∈ c.entries) :
    c.Spans e.header.height := by
  rw [← hc.isSome_idAt_iff, hc.idAt_eq_some_iff.2 ⟨e, he, rfl, rfl⟩]
  rfl

lemma bestHeaderAt_flush_of_no_reorg {c₀ : HeaderChain} {s : BatchState}
    (hloop : LoopInv rules c₀ s) (hindex : IndexInv c₀ s)
    (hcovered : ∀ h, (s.store.bestHeaderAt h).isSome → s.chain.Spans h) (h : ℕ) :
    (flush s.store s.storeEntries none).bestHeaderAt h = s.chain.idAt h := by
  obtain ⟨es, hchain, hrows⟩ := hloop.grown
  have hsub : ∀ e ∈ es, e ∈ s.chain.entries := by
    rw [hchain]
    exact fun e he => mem_append_right _ he
  rw [(sameHeaders_flush_none hrows _).bestHeaderAt_eq]
  by_cases hnew : ∃ e ∈ es, e.header.height = h
  · obtain ⟨e, he, rfl⟩ := hnew
    rw [bestHeaderAt_rows_of_mem hrows (eq_of_height_eq_of_subset hloop.linked hsub) he,
      hloop.linked.idAt_eq_some_iff.2 ⟨e, hsub e he, rfl, rfl⟩]
  · have hne : ∀ e ∈ es, e.header.height ≠ h := fun e he heq => hnew ⟨e, he, heq⟩
    rw [bestHeaderAt_rows_of_forall_ne hrows hne]
    by_cases hspans : s.chain.Spans h
    · -- an old height: its row was kept
      obtain ⟨e, hentry⟩ := Option.isSome_iff_exists.1
        (hloop.linked.isSome_entryAt_iff_spans.2 hspans)
      obtain ⟨he, rfl⟩ := hloop.linked.entryAt_eq_some_iff.1 hentry
      have hold : e ∈ c₀.entries := by
        rw [hchain] at he
        exact (mem_append.1 he).resolve_right (fun he => hne e he rfl)
      rw [hloop.linked.idAt_eq_some_iff.2 ⟨e, he, rfl, rfl⟩]
      exact hindex.kept _ _ ((hloop.start_linked).idAt_eq_some_iff.2 ⟨e, hold, rfl, rfl⟩)
    · rw [idAt_eq_none_of_not_spans hloop.linked hspans, ← Option.not_isSome_iff_eq_none]
      exact fun hsome => hspans (hcovered h hsome)

lemma bestHeaderAt_flush_of_reorg {c₀ chain : HeaderChain} {s : BatchState}
    (hloop : LoopInv rules c₀ s) (hindex : IndexInv c₀ s) {f : ℕ} {branch : List RawHeader}
    (hpending : s.pendingReorg = some (f, branch)) {es' : List ChainEntry}
    (hheaders : es'.map (·.header) = branch.map Prod.fst)
    (hswitch : HeaderChain.Switched rules.toHeaderRules s.chain f es' chain)
    (hlong : s.chain.height ≤ f + branch.length) {store : ModifierStore}
    {rows' : List ModifierBatchEntry} (hrows' : RowsOf rules es' rows')
    (hstore : ∀ h, store.bestHeaderAt h =
      (rows'.foldl ModifierStore.putEntry s.store).bestHeaderAt h) (h : ℕ) :
    (flush store s.storeEntries (some f)).bestHeaderAt h = chain.idAt h := by
  obtain ⟨es, hchain, hrows⟩ := hloop.grown
  have hlen : es'.length = branch.length := by
    simpa using congrArg length hheaders
  have hsub : ∀ e ∈ es, e ∈ s.chain.entries := by
    rw [hchain]
    exact fun e he => mem_append_right _ he
  have hsub' : ∀ e ∈ es', e ∈ chain.entries := by
    rw [hswitch.chain_eq]
    exact fun e he => mem_append_right _ he
  have hkept : ∀ e ∈ s.chain.entries, e.header.height ≤ f → e ∈ chain.entries := by
    intro e he hle
    rw [hswitch.chain_eq]
    exact mem_append_left _ (by simp [truncate, he, hle])
  -- the old chain reaches no height the new one does not
  have hspans : ∀ k, s.chain.Spans k → chain.Spans k := by
    rintro k ⟨b, hb, hle, hge⟩
    exact ⟨b, by rw [hswitch.baseHeight_eq, hb], hle, by rw [hswitch.height_eq]; omega⟩
  have hbest := hrows.filter (fun k => decide (k ≤ f))
  have hsubBest : ∀ e ∈ es.filter (fun e => decide (e.header.height ≤ f)), e ∈ chain.entries := by
    intro e he
    obtain ⟨he, hle⟩ := mem_filter.1 he
    exact hkept e (hsub e he) (by simpa using hle)
  rw [(sameHeaders_flush_some hrows _ f).bestHeaderAt_eq]
  by_cases hlow : ∃ e ∈ es.filter (fun e => decide (e.header.height ≤ f)), e.header.height = h
  · -- chained by this batch below the fork point
    obtain ⟨e, he, rfl⟩ := hlow
    rw [bestHeaderAt_rows_of_mem hbest (eq_of_height_eq_of_subset hswitch.linked hsubBest) he,
      hswitch.linked.idAt_eq_some_iff.2 ⟨e, hsubBest e he, rfl, rfl⟩]
  rw [bestHeaderAt_rows_of_forall_ne hbest (fun e he heq => hlow ⟨e, he, heq⟩)]
  by_cases hhigh : ∃ e ∈ es', e.header.height = h
  · -- on the new branch
    obtain ⟨e, he, rfl⟩ := hhigh
    rw [hswitch.linked.idAt_eq_some_iff.2 ⟨e, hsub' e he, rfl, rfl⟩]
    refine bestHeaderAt_demoted_of_some _ _ ?_
    rw [hstore]
    exact bestHeaderAt_rows_of_mem hrows' (eq_of_height_eq_of_subset hswitch.linked hsub') he _
  have hstore' : store.bestHeaderAt h = s.store.bestHeaderAt h := by
    rw [hstore]
    exact bestHeaderAt_rows_of_forall_ne hrows' (fun e he heq => hhigh ⟨e, he, heq⟩) _
  by_cases hin : chain.Spans h
  · -- on the chain before the batch, at or below the fork point
    obtain ⟨e, hentry⟩ := Option.isSome_iff_exists.1
      (hswitch.linked.isSome_entryAt_iff_spans.2 hin)
    obtain ⟨he, rfl⟩ := hswitch.linked.entryAt_eq_some_iff.1 hentry
    have hold : e ∈ c₀.entries := by
      have he' := he
      rw [hswitch.chain_eq] at he'
      have htrunc := (mem_append.1 he').resolve_right (fun he => hhigh ⟨e, he, rfl⟩)
      obtain ⟨hmem, hle⟩ := mem_filter.1 htrunc
      rw [hchain] at hmem
      refine (mem_append.1 hmem).resolve_right (fun hes => hlow ⟨e, ?_, rfl⟩)
      exact mem_filter.2 ⟨hes, hle⟩
    rw [hswitch.linked.idAt_eq_some_iff.2 ⟨e, he, rfl, rfl⟩]
    refine bestHeaderAt_demoted_of_some _ _ ?_
    rw [hstore']
    exact hindex.kept _ _ (hloop.start_linked.idAt_eq_some_iff.2 ⟨e, hold, rfl, rfl⟩)
  · rw [idAt_eq_none_of_not_spans hswitch.linked hin, ← Option.not_isSome_iff_eq_none]
    intro hsome
    rcases isSome_bestHeaderAt_demoted _ _ hsome with hsome | ⟨r, hr, rfl⟩
    · rw [hstore'] at hsome
      rcases hindex.covered h hsome with hold | ⟨f', branch', x, hpending', hx, rfl⟩
      · exact hin (hspans h hold)
      · -- the row of the recorded header, which is now the tip
        cases hpending.symm.trans hpending'
        have hmem : x.1 ∈ es'.map (·.header) :=
          hheaders ▸ mem_map_of_mem (mem_of_getLast? hx)
        obtain ⟨e, he, hex⟩ := mem_map.1 hmem
        exact hhigh ⟨e, he, by rw [hex]⟩
    · obtain ⟨e, he, hrow⟩ := hrows.exists_entry r (mem_filter.1 hr).1
      exact hin (hspans _ (hrow.height_eq ▸ spans_of_mem hloop.linked (hsub e he)))

lemma bestHeaderAt_finishBatch {c₀ : HeaderChain} {s : BatchState} (hloop : LoopInv rules c₀ s)
    (hindex : IndexInv c₀ s) (hcond : ReorgKeepsIndex rules now s) (h : ℕ) :
    (finishBatch rules now p s).store.bestHeaderAt h =
      (finishBatch rules now p s).chain.idAt h := by
  have hout := executeReorg_outcome now hloop
  unfold finishBatch
  generalize executeReorg rules now s = out at hout
  cases hout with
  | kept hrefused =>
    refine bestHeaderAt_flush_of_no_reorg hloop hindex ?_ h
    intro k hk
    rcases hindex.covered k hk with hspans | ⟨f, branch, x, hpending, hx, rfl⟩
    · exact hspans
    · obtain ⟨e, he⟩ := hrefused f branch hpending
      have := hcond (f, branch) hpending
      rw [he] at this
      exact this x (mem_of_getLast? hx)
  | @switched f branch ids chain es hpending hreorg hheaders hswitch hrows control =>
    refine bestHeaderAt_flush_of_reorg hloop hindex hpending hheaders hswitch ?_ hrows ?_ h
    · have := hcond (f, branch) hpending
      rwa [hreorg] at this
    · exact fun _ => rfl

lemma indexInv_foldl {c₀ : HeaderChain} {s : BatchState} {xs : List RawHeader}
    (hloop : LoopInv rules c₀ s) (hindex : IndexInv c₀ s) (hparsed : ∀ x ∈ xs, IsParsed rules x)
    (hcond : LoopKeepsIndex rules now s xs) :
    IndexInv c₀ (xs.foldl (processHeader rules now) s) ∧
      ReorgKeepsIndex rules now (xs.foldl (processHeader rules now) s) := by
  induction xs generalizing s with
  | nil => exact ⟨hindex, hcond⟩
  | cons x xs ih =>
    obtain ⟨hstep, hrest⟩ := hcond
    have hx := hparsed x mem_cons_self
    exact ih (hloop.processHeader hx) (indexInv_processHeader hloop hindex hx hstep)
      (forall_mem_cons.1 hparsed).2 hrest

lemma bestHeaderAt_processBatch {batch : List ModifierBatchItem}
    (hwf : p.WellFormed rules) (hrows : ∀ h, p.store.bestHeaderAt h = p.chain.idAt h)
    (hcond : BatchKeepsIndex rules now p batch) (h : ℕ) :
    (processBatch rules now p batch).store.bestHeaderAt h =
      (processBatch rules now p batch).chain.idAt h := by
  obtain ⟨hchain, -, hsame⟩ := processBatch_eq rules now p batch
  rw [hchain, hsame.bestHeaderAt_eq]
  unfold afterHeaders
  split
  · exact hrows h
  · have hloop := hwf.loopInv_startBatch
    have hindex : IndexInv p.chain (startBatch p) := by
      refine ⟨fun k id hid => (hrows k).trans hid, fun k hk => Or.inl ?_⟩
      rw [show (startBatch p).store.bestHeaderAt k = p.chain.idAt k from hrows k,
        hwf.linked.isSome_idAt_iff] at hk
      exact hk
    obtain ⟨hend, hreorg⟩ :=
      indexInv_foldl hloop hindex (fun _ hx => isParsed_of_mem_batchHeaders hx) hcond
    exact bestHeaderAt_finishBatch (hwf.loopInv_loopEnd batch) hend hreorg h

/-! ## Restoring -/

lemma nodup_ids (hfree : CollisionFree rules)
    (hc : c.Linked rules.toHeaderRules) (hparsed : ∀ e ∈ c.entries, Parsed rules e.header) :
    (c.entries.map (·.header.id)).Nodup := by
  rw [nodup_map_iff_inj_on (hc.pairwise.imp (fun {a b} hab heq => by simp [heq] at hab))]
  intro a ha b hb hid
  refine hc.eq_of_height_eq ha hb ?_
  rw [hfree _ _ (hparsed a ha) (hparsed b hb) hid]

lemma restoreFrom_entries {hrules : HeaderRules}
    (hchain : (e :: es).IsChain (ChainEntry.Follows hrules)) (acc : HeaderChain.RestoredIndex)
    (hnodup : (es.map (·.header.id)).Nodup)
    (hfresh : ∀ x ∈ es, x.header.id ∉ acc.byId.map Prod.fst) :
    HeaderChain.restoreFrom (some e.header.height) acc
        (es.map (fun x => (x.header.height, x.header.id))) =
      .ok { acc with
        byId := (es.map (fun x => (x.header.id, x.header.height))).reverse ++ acc.byId } := by
  induction es generalizing e acc with
  | nil => simp [restoreFrom]
  | cons x es ih =>
    obtain ⟨hfollows, htail⟩ := isChain_cons_cons.1 hchain
    obtain ⟨hx, hnodup⟩ := nodup_cons.1 hnodup
    rw [map_cons, restoreFrom]
    simp only [hfollows.height_eq, ne_eq, not_true_eq_false, if_false, hfresh x mem_cons_self]
    rw [← hfollows.height_eq, ih htail _ hnodup]
    · simp
    · intro y hy
      simp only [map_cons, mem_cons, not_or]
      exact ⟨fun heq => hx (mem_map.2 ⟨y, hy, heq⟩), hfresh y (mem_cons_of_mem _ hy)⟩

lemma restore_entries (hc : c.Linked rules.toHeaderRules)
    (hnodup : (c.entries.map (·.header.id)).Nodup) :
    HeaderChain.restore (c.entries.map (fun x => (x.header.height, x.header.id))) =
      .ok { baseHeight := c.baseHeight
            byId := (c.entries.map (fun x => (x.header.id, x.header.height))).reverse } := by
  rw [Linked] at hc
  unfold restore baseHeight
  cases hentries : c.entries with
  | nil => rfl
  | cons e es =>
    rw [hentries] at hc hnodup
    obtain ⟨he, hnodup⟩ := nodup_cons.1 hnodup
    rw [map_cons, restoreFrom, restoreFrom_entries hc _ hnodup]
    · simp
    · intro x hx
      simp only [map_cons, map_nil, mem_singleton]
      exact fun heq => he (mem_map.2 ⟨x, hx, heq⟩)

lemma bestChainExact_of_rows (hfree : CollisionFree rules)
    (hwf : p.WellFormed rules) (hrows : ∀ h, p.store.bestHeaderAt h = p.chain.idAt h) :
    BestChainExact p := by
  have hnodup := nodup_ids hfree hwf.linked hwf.parsed
  have hentries : p.store.bestChainEntries =
      p.chain.entries.map (fun x => (x.header.height, x.header.id)) := by
    refine toList_eq_of_forall_getElem? (pairwise_map.2 hwf.linked.pairwise) ?_
    intro h id
    rw [show p.store.bestChain[h]? = p.chain.idAt h from hrows h, hwf.linked.idAt_eq_some_iff]
    simp [mem_map, Prod.ext_iff]
  refine ⟨hrows, ?_, _, hentries ▸ restore_entries hwf.linked hnodup, rfl, ?_⟩
  · intro h hh
    rw [hrows]
    refine idAt_eq_none_of_not_spans hwf.linked ?_
    rintro ⟨b, -, -, hle⟩
    omega
  · intro id
    -- ids are distinct, so the first entry found from either end is the same
    have hfind : p.chain.entries.reverse.find? (fun e => e.header.id = id) =
        p.chain.entries.find? (fun e => e.header.id = id) := by
      cases hfound : p.chain.entries.find? (fun e => e.header.id = id) with
      | none =>
        rw [find?_eq_none] at hfound ⊢
        exact fun e he => hfound e (mem_reverse.1 he)
      | some e =>
        obtain ⟨e', he'⟩ : ∃ e', p.chain.entries.reverse.find? (fun e => e.header.id = id) =
            some e' := by
          rw [← Option.isSome_iff_exists, find?_isSome]
          exact ⟨e, mem_reverse.2 (mem_of_find?_eq_some hfound), by simpa using find?_some hfound⟩
        have hid : e'.header.id = id := by simpa using find?_some he'
        have hid' : e.header.id = id := by simpa using find?_some hfound
        rw [he', inj_on_of_nodup_map hnodup (mem_reverse.1 (mem_of_find?_eq_some he'))
          (mem_of_find?_eq_some hfound) (hid.trans hid'.symm)]
    simp only [RestoredIndex.heightOf, heightOf, ← map_reverse,
      find?_map, Option.map_map, Function.comp_def, hfind]

/-- In every run whose batches all keep the index, the index is exact after each batch. -/
theorem bestChainExact_runBatches (hfree : CollisionFree rules) {p : ValidationPipeline}
    (hwf : p.WellFormed rules) (hstart : BestChainExact p)
    {batches : List (ℕ × List ModifierBatchItem)} (hcond : RunKeepsIndex rules p batches) (k : ℕ) :
    BestChainExact (runBatches rules p (batches.take k)) := by
  induction batches generalizing p k with
  | nil => simpa [runBatches] using hstart
  | cons b batches ih =>
    obtain ⟨hbatch, hrest⟩ := hcond
    cases k with
    | zero => simpa [runBatches] using hstart
    | succ k =>
      have hwf' := hwf.processBatch b.1 b.2
      exact ih hwf' (bestChainExact_of_rows hfree hwf'
        (bestHeaderAt_processBatch hwf hstart.rows hbatch)) hrest k

lemma bestChainExact_new (config : ChainConfig) :
    BestChainExact (ValidationPipeline.new config) where
  rows _ := Std.ExtTreeMap.getElem?_empty
  above _ _ := Std.ExtTreeMap.getElem?_empty
  restores := ⟨_, rfl, rfl, fun _ => rfl⟩

/-! ## Two forks

Mainnet headers: the genesis header and its child, then a fork of two headers above genesis. With
the launch difficulty the fork overtakes the chain, and the reorg rewrites the index. With
difficulty 1 it never does, so it is only stored; but its second header is the first to be stored
at height 3, and gets the row. -/

def forkHeaders (forkNBits : ℕ) : List Header :=
  let genesis := 0xb0244dfc267baca974a4caee06120321562784303a8a688976ae56170e4d175b
  let noVotes : Votes := ⟨0, 0, 0⟩
  [{ version := 1, id := genesis, parentId := 0, stateRoot := 0, timestamp := 1000,
     nBits := 100734821, height := 1, votes := noVotes },
   { version := 1, id := 2, parentId := genesis, stateRoot := 0, timestamp := 2000,
     nBits := 100734821, height := 2, votes := noVotes },
   { version := 1, id := 12, parentId := genesis, stateRoot := 0, timestamp := 2000,
     nBits := forkNBits, height := 2, votes := noVotes },
   { version := 1, id := 13, parentId := 12, stateRoot := 0, timestamp := 3000,
     nBits := forkNBits, height := 3, votes := noVotes }]

def forkRun : List (ℕ × List ModifierBatchItem) :=
  [(10000, headerItems [0, 1]), (10000, headerItems [2, 3])]

/-- The heavy fork takes over, and the index follows. -/
theorem bestChainExact_heavyFork :
    BestChainExact (runBatches (listRules (forkHeaders 100734821)) (.new .mainnet)
      (forkRun.take 2)) ∧
    (runBatches (listRules (forkHeaders 100734821)) (.new .mainnet)
      (forkRun.take 2)).chain.idAt 3 = some 13 :=
  ⟨bestChainExact_runBatches (collisionFree_listRules (by decide)) (.new _) (bestChainExact_new _)
    (by decide +kernel) 2, by decide +kernel⟩

/-- The light fork is only stored: the chain ends at height 2, and the index has the fork header
at height 3. -/
theorem not_bestChainExact_lightFork :
    BestChainExact (ValidationPipeline.new .mainnet) ∧
      ¬BestChainExact
        (runBatches (listRules (forkHeaders 16842752)) (.new .mainnet) forkRun) := by
  refine ⟨bestChainExact_new _, fun hexact => ?_⟩
  have hrow := hexact.rows 3
  revert hrow
  decide +kernel

end ErgoNode
