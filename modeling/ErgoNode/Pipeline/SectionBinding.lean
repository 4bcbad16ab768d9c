import ErgoNode.Pipeline.StoredTree
import ErgoNode.Store.Indexes

/-!
# Sections are bound to their ids

A peer may deliver any bytes under any id. Whatever it delivers, the sections in the store have the
id that is computed from their bytes and name a header whose bytes are stored; the content stored
for an id is not replaced by another; and an id is only reported as received for a header that
passed proof of work or a section that was bound and stored.
-/

namespace ErgoNode

open List ModifierStore

variable {Tx : Type} {srules : SectionRules Tx} {rules : PipelineRules} {now : ℕ}
variable {es : List ModifierBatchEntry} {typeId : ℕ} {id : BlockId} {e : ModifierBatchEntry}
  {batch : List ModifierBatchItem} {item : ModifierBatchItem}

def PipelineRules.withSections (rules : PipelineRules) (srules : SectionRules Tx) :
    PipelineRules :=
  { rules with
    sectionIdFromBody := fun typeId body =>
      (ErgoNode.sectionIdFromBody srules typeId body).toOption }

/-- Every section of the store has the id its bytes hash to and names a stored header. -/
def SectionsBound (srules : SectionRules Tx) (store : ModifierStore) : Prop :=
  ∀ typeId id body, typeId ≠ headerTypeId → store.get typeId id = some body →
    ∃ identity, sectionIdFromBody srules typeId body = .ok identity ∧ identity.id = id ∧
      (store.get headerTypeId identity.headerId).isSome

/-- Every section of the first store is in the second, with the content it commits to. -/
def KeepsContent (srules : SectionRules Tx) (store store' : ModifierStore) : Prop :=
  ∀ typeId id body, typeId ≠ headerTypeId → store.get typeId id = some body →
    ∃ body', store'.get typeId id = some body' ∧
      committedContent srules typeId body' = committedContent srules typeId body

/-- The batch keeps this section: it binds, with chain and store as the batch's headers leave them.
-/
def KeptSection (rules : PipelineRules) (now : ℕ) (p : ValidationPipeline)
    (batch : List ModifierBatchItem) (item : ModifierBatchItem) : Prop :=
  item ∈ batch ∧ item.typeId ≠ headerTypeId ∧
    (bindSection rules (afterHeaders rules now p batch).chain
      (afterHeaders rules now p batch).store item).isSome

/-- What is reported as received is a header that parsed with proof of work, or a kept and stored
section. -/
def ReportsBound (rules : PipelineRules) (now : ℕ) (p : ValidationPipeline)
    (batch : List ModifierBatchItem) : Prop :=
  ∃ events, (processBatch rules now p batch).data = p.data ++ events ∧
    ∀ ids, .received ids ∈ events → ∀ id ∈ ids,
      (∃ x ∈ batchHeaders rules batch, x.1.id = id) ∨
      ∃ item, KeptSection rules now p batch item ∧ item.id = id ∧
        ((processBatch rules now p batch).store.get item.typeId id).isSome

def storedBodies (store : ModifierStore) : Set (ℕ × Bytes) :=
  {b | b.1 ≠ headerTypeId ∧ ∃ id, store.get b.1 id = some b.2}

def deliveredBodies (batches : List (ℕ × List ModifierBatchItem)) : Set (ℕ × Bytes) :=
  {b | ∃ batch ∈ batches, ∃ item ∈ batch.2, (item.typeId, item.data) = b}

/-! ## The header phase does not touch sections -/

/-- The step from the first store to the second wrote header rows only. -/
structure WritesHeadersOnly (store store' : ModifierStore) : Prop where
  sections : ∀ typeId id, typeId ≠ headerTypeId → store'.get typeId id = store.get typeId id
  headers : ∀ id, (store.get headerTypeId id).isSome → (store'.get headerTypeId id).isSome

namespace WritesHeadersOnly

variable {store store' store'' : ModifierStore}

lemma refl (store : ModifierStore) : WritesHeadersOnly store store := ⟨fun _ _ _ => rfl, fun _ => id⟩

lemma trans (h : WritesHeadersOnly store store') (h' : WritesHeadersOnly store' store'') :
    WritesHeadersOnly store store'' :=
  ⟨fun typeId id htype => (h'.sections typeId id htype).trans (h.sections typeId id htype),
    fun id hid => h'.headers id (h.headers id hid)⟩

lemma putHeader (store : ModifierStore) (id : BlockId) (height fork : ℕ) (score : ScoreBytes)
    (data : Bytes) : WritesHeadersOnly store (store.putHeader id height fork score data) where
  sections typeId k htype := by
    rw [get_putHeader, if_neg (fun h => htype h.1.symm)]
  headers k hk := by
    rw [get_putHeader]
    split
    · rfl
    · exact hk

lemma putOne (store : ModifierStore) {e : ModifierBatchEntry} (he : e.typeId = headerTypeId) :
    WritesHeadersOnly store (store.putOne e) where
  sections typeId k htype := by
    have hwrite : primaryWrite typeId k e = none :=
      if_neg (fun h => htype (h.1.symm.trans he))
    rw [get_putOne, hwrite, Option.none_or]
  headers k hk := by
    rw [get_putOne, Option.isSome_or, hk, Bool.or_true]

lemma foldl {write : ModifierStore → ModifierBatchEntry → ModifierStore}
    {es : List ModifierBatchEntry} (hwrite : ∀ s, ∀ e ∈ es, WritesHeadersOnly s (write s e))
    (store : ModifierStore) : WritesHeadersOnly store (es.foldl write store) := by
  induction es generalizing store with
  | nil => exact .refl store
  | cons e es ih =>
    have hfirst := hwrite store e mem_cons_self
    exact hfirst.trans (ih (fun s e' he' => hwrite s e' (mem_cons_of_mem _ he')) _)

lemma putBatch (store : ModifierStore) {es : List ModifierBatchEntry}
    (hes : ∀ e ∈ es, e.typeId = headerTypeId) :
    WritesHeadersOnly store ((store.putBatch es).toOption.getD store) := by
  rw [putBatch_cases]
  split
  · exact foldl (fun s e he => putOne s (hes e he)) store
  · exact .refl store

lemma flush (store : ModifierStore) {es : List ModifierBatchEntry}
    (hes : ∀ e ∈ es, e.typeId = headerTypeId) (reorgForkPoint : Option ℕ) :
    WritesHeadersOnly store (flush store es reorgForkPoint) := by
  have hdemoted : ∀ demoted : List ModifierBatchEntry,
      WritesHeadersOnly store (demoted.foldl storeDemoted store) :=
    fun _ => foldl (fun s e _ => putHeader s e.id e.height _ _ e.data) store
  cases reorgForkPoint with
  | none =>
    simp only [ErgoNode.flush, foldl_nil]
    split
    · exact .refl store
    · exact putBatch store hes
  | some f =>
    simp only [ErgoNode.flush]
    split
    · exact hdemoted _
    · exact (hdemoted _).trans (putBatch _ (fun e he => hes e (mem_of_mem_filter he)))

end WritesHeadersOnly

/-- The loop over the headers of a batch writes header rows and collects header rows. -/
structure LoopWrites (store : ModifierStore) (s : BatchState) : Prop where
  written : WritesHeadersOnly store s.store
  entries : ∀ e ∈ s.storeEntries, e.typeId = headerTypeId

namespace LoopWrites

variable {store : ModifierStore} {s : BatchState}

lemma chainHeader (inv : LoopWrites store s) (chain : HeaderChain) (header : Header)
    (raw : Bytes) : LoopWrites store (chainHeader s chain header raw) where
  written := inv.written
  entries e he := by
    rcases mem_append.1 he with he | he
    · exact inv.entries e he
    · rw [mem_singleton.1 he]
      rfl

lemma processHeader (inv : LoopWrites store s) (x : RawHeader) :
    LoopWrites store (processHeader rules now s x) := by
  apply processHeader_cases
  · exact inv
  · intro chain _
    apply drainBuffer_induction (P := LoopWrites store)
    · intro s k header raw chain hs _ _
      have hremoved : LoopWrites store { s with buffer := s.buffer.remove k } :=
        ⟨hs.written, hs.entries⟩
      exact hremoved.chainHeader chain header raw
    · intro s k hs
      exact ⟨hs.written, hs.entries⟩
    · exact inv.chainHeader chain x.1 x.2
  · intro requests parentScore assemble _ _
    exact ⟨inv.written.trans (.putHeader _ _ _ _ _ _), inv.entries⟩
  · intro requests control _
    exact ⟨inv.written, inv.entries⟩

lemma foldl (inv : LoopWrites store s) (xs : List RawHeader) :
    LoopWrites store (xs.foldl (ErgoNode.processHeader rules now) s) := by
  induction xs generalizing s with
  | nil => exact inv
  | cons x xs ih => exact ih (inv.processHeader x)

lemma executeReorg (inv : LoopWrites store s) :
    LoopWrites store (executeReorg rules now s).1 := by
  unfold ErgoNode.executeReorg
  split
  · exact inv
  · split
    · refine ⟨inv.written.trans (.putBatch _ ?_), inv.entries⟩
      intro e he
      obtain ⟨x, -, rfl⟩ := mem_map.1 he
      rfl
    · exact ⟨inv.written, inv.entries⟩

end LoopWrites

lemma writesHeadersOnly_afterHeaders (rules : PipelineRules) (now : ℕ) (p : ValidationPipeline)
    (batch : List ModifierBatchItem) :
    WritesHeadersOnly p.store (afterHeaders rules now p batch).store := by
  unfold afterHeaders
  split
  · exact .refl p.store
  · have hstart : LoopWrites p.store (startBatch p) := ⟨.refl p.store, by simp [startBatch]⟩
    have hend : LoopWrites p.store (executeReorg rules now (loopEnd rules now p batch)).1 :=
      (hstart.foldl (batchHeaders rules batch)).executeReorg
    exact hend.written.trans (.flush _ hend.entries _)

/-! ## The sections of a batch -/

lemma get_foldl_putOne {store : ModifierStore} {data : Bytes}
    (h : (es.foldl ModifierStore.putOne store).get typeId id = some data) :
    store.get typeId id = some data ∨
      ∃ e ∈ es, e.typeId = typeId ∧ e.id = id ∧ e.data = data := by
  induction es generalizing store with
  | nil => exact .inl h
  | cons e es ih =>
    rcases ih h with h | ⟨e', he', hrow⟩
    · rw [get_putOne] at h
      rcases Option.or_eq_some_iff.1 h with hwrite | ⟨-, hold⟩
      · unfold primaryWrite at hwrite
        split at hwrite
        next hkey =>
          exact .inr ⟨e, mem_cons_self, hkey.1, hkey.2, Option.some.inj hwrite⟩
        · cases hwrite
      · exact .inl hold
    · exact .inr ⟨e', mem_cons_of_mem _ he', hrow⟩

lemma isSome_get_foldl_putOne {store : ModifierStore} (h : (store.get typeId id).isSome) :
    ((es.foldl ModifierStore.putOne store).get typeId id).isSome := by
  induction es generalizing store with
  | nil => exact h
  | cons e es ih =>
    apply ih
    rw [get_putOne, Option.isSome_or, h, Bool.or_true]

lemma isSome_get_of_mem_foldl_putOne (he : e ∈ es) (store : ModifierStore) :
    ((es.foldl ModifierStore.putOne store).get e.typeId e.id).isSome := by
  obtain ⟨before, after, rfl⟩ := append_of_mem he
  rw [foldl_append, foldl_cons]
  apply isSome_get_foldl_putOne
  rw [get_putOne, primaryWrite, if_pos ⟨rfl, rfl⟩]
  rfl

lemma bindSection_eq_some {chain : HeaderChain} {store : ModifierStore}
    (h : bindSection rules chain store item = some e) :
    e.typeId = item.typeId ∧ e.id = item.id ∧ e.data = item.data ∧
      ∃ identity, rules.sectionIdFromBody item.typeId item.data = some identity ∧
        identity.id = item.id ∧
        ((chain.heightOf identity.headerId).isSome ∨
          (store.get headerTypeId identity.headerId).isSome) := by
  unfold bindSection at h
  split at h
  · cases h
  next identity hidentity =>
    split at h
    · cases h
    next hid =>
      refine ⟨?_, ?_, ?_, identity, hidentity, Decidable.not_not.1 hid, ?_⟩ <;> split at h
      all_goals grind

lemma bindAndStoreSections_eq (rules : PipelineRules) (chain : HeaderChain)
    (store : ModifierStore) {sections : List ModifierBatchItem} (hsections : ∀ i ∈ sections, i.typeId ≠ headerTypeId) :
    bindAndStoreSections rules chain store sections =
      ((sections.filterMap (bindSection rules chain store)).foldl ModifierStore.putOne store,
        (sections.filterMap (bindSection rules chain store)).map (·.id)) := by
  have hscored : BatchScored (sections.filterMap (bindSection rules chain store)) := by
    intro e he htype
    obtain ⟨item, hitem, hbind⟩ := mem_filterMap.1 he
    exact absurd ((bindSection_eq_some hbind).1.symm.trans htype) (hsections item hitem)
  unfold bindAndStoreSections
  dsimp only
  split
  next hnil =>
    rw [hnil]
    rfl
  · rw [putBatch_cases, if_pos hscored]

def deliveredSections (batch : List ModifierBatchItem) : List ModifierBatchItem :=
  batch.filter (fun i => i.typeId ≠ headerTypeId ∧ i.typeId ≠ transactionTypeId ∧ i.data ≠ [])

lemma of_mem_deliveredSections (h : item ∈ deliveredSections batch) :
    item ∈ batch ∧ item.typeId ≠ headerTypeId := by
  obtain ⟨hmem, hkind⟩ := mem_filter.1 h
  simp only [decide_eq_true_eq] at hkind
  exact ⟨hmem, hkind.1⟩

def boundRows (rules : PipelineRules) (now : ℕ) (p : ValidationPipeline)
    (batch : List ModifierBatchItem) : List ModifierBatchEntry :=
  (deliveredSections batch).filterMap (bindSection rules (afterHeaders rules now p batch).chain
    (afterHeaders rules now p batch).store)

lemma keptSection_of_mem_boundRows {p : ValidationPipeline}
    (he : e ∈ boundRows rules now p batch) :
    ∃ item, KeptSection rules now p batch item ∧
      bindSection rules (afterHeaders rules now p batch).chain
        (afterHeaders rules now p batch).store item = some e := by
  obtain ⟨item, hitem, hbind⟩ := mem_filterMap.1 he
  obtain ⟨hmem, htype⟩ := of_mem_deliveredSections hitem
  exact ⟨item, ⟨hmem, htype, by rw [hbind]; rfl⟩, hbind⟩

def acceptedIds (rules : PipelineRules) (batch : List ModifierBatchItem) : List BlockId :=
  (((batch.filter (fun i => i.typeId = headerTypeId)).map (·.data)).filterMap
    (acceptRaw rules)).map (·.1.id)

lemma processHeaders_snd (p : ValidationPipeline) (batch : List ModifierBatchItem) :
    (processHeaders rules now p
      ((batch.filter (fun i => i.typeId = headerTypeId)).map (·.data))).2 =
      acceptedIds rules batch := by
  unfold processHeaders
  dsimp only
  split <;> rfl

lemma mem_acceptedIds (h : id ∈ acceptedIds rules batch) :
    ∃ x ∈ batchHeaders rules batch, x.1.id = id := by
  obtain ⟨x, hx, rfl⟩ := mem_map.1 h
  exact ⟨x, mem_insertionSort _ |>.2 hx, rfl⟩

lemma processBatch_sections (rules : PipelineRules) (now : ℕ) (p : ValidationPipeline)
    (batch : List ModifierBatchItem) :
    (processBatch rules now p batch).store =
        (boundRows rules now p batch).foldl ModifierStore.putOne
          (afterHeaders rules now p batch).store ∧
      ∃ events, (processBatch rules now p batch).data =
          (afterHeaders rules now p batch).data ++ events ∧
        ∀ ids, .received ids ∈ events →
          ids = acceptedIds rules batch ++ (boundRows rules now p batch).map (·.id) := by
  have hitems : ∀ i ∈ deliveredSections batch, i.typeId ≠ headerTypeId :=
    fun i hi => (of_mem_deliveredSections hi).2
  have hstored := bindAndStoreSections_eq rules (afterHeaders rules now p batch).chain
    (afterHeaders rules now p batch).store hitems
  unfold deliveredSections at hstored
  unfold processBatch
  dsimp only
  rw [processHeaders_snd, processHeaders_fst, hstored]
  refine ⟨rfl, ?_⟩
  split
  · exact ⟨[], (append_nil _).symm, by simp⟩
  · refine ⟨_, rfl, fun ids hids => ?_⟩
    rw [mem_singleton] at hids
    exact DeliveryData.received.inj hids

lemma data_afterHeaders (rules : PipelineRules) (now : ℕ) (p : ValidationPipeline)
    (batch : List ModifierBatchItem) :
    ∃ events, (afterHeaders rules now p batch).data = p.data ++ events ∧
      ∀ ids, .received ids ∉ events := by
  unfold afterHeaders
  split
  · exact ⟨[], (append_nil _).symm, by simp⟩
  · unfold finishBatch
    dsimp only
    split
    · exact ⟨[], (append_nil _).symm, by simp⟩
    · exact ⟨_, rfl, by simp⟩

/-- **What is reported as received was accepted.** -/
theorem reportsBound (rules : PipelineRules) (now : ℕ) (p : ValidationPipeline)
    (batch : List ModifierBatchItem) : ReportsBound rules now p batch := by
  obtain ⟨hstore, events', hdata', hreceived⟩ := processBatch_sections rules now p batch
  obtain ⟨events, hdata, hnone⟩ := data_afterHeaders rules now p batch
  refine ⟨events ++ events', by rw [hdata', hdata, append_assoc], ?_⟩
  intro ids hids id hid
  rcases mem_append.1 hids with hids | hids
  · exact absurd hids (hnone ids)
  · rw [hreceived ids hids] at hid
    rcases mem_append.1 hid with hid | hid
    · exact .inl (mem_acceptedIds hid)
    · obtain ⟨e, he, rfl⟩ := mem_map.1 hid
      obtain ⟨item, hkept, hbind⟩ := keptSection_of_mem_boundRows he
      obtain ⟨htype, hid, -⟩ := bindSection_eq_some hbind
      refine .inr ⟨item, hkept, hid.symm, ?_⟩
      rw [hstore, ← htype]
      exact isSome_get_of_mem_foldl_putOne he _

/-! ## One batch -/

lemma isSome_get_processBatch {p : ValidationPipeline}
    (h : (p.store.get typeId id).isSome) (batch : List ModifierBatchItem) :
    ((processBatch rules now p batch).store.get typeId id).isSome := by
  have hheaders := writesHeadersOnly_afterHeaders rules now p batch
  rw [(processBatch_sections rules now p batch).1]
  apply isSome_get_foldl_putOne
  by_cases htype : typeId = headerTypeId
  · subst htype
    exact hheaders.headers id h
  · rwa [hheaders.sections typeId id htype]

lemma get_processBatch {p : ValidationPipeline} {body : Bytes} (htype : typeId ≠ headerTypeId)
    (h : (processBatch rules now p batch).store.get typeId id = some body) :
    p.store.get typeId id = some body ∨
      ∃ item ∈ batch, item.typeId = typeId ∧ item.data = body ∧
        ∃ identity, rules.sectionIdFromBody typeId body = some identity ∧ identity.id = id ∧
          (((processBatch rules now p batch).chain.heightOf identity.headerId).isSome ∨
            ((processBatch rules now p batch).store.get headerTypeId identity.headerId).isSome) := by
  obtain ⟨hchain, -, hsame⟩ := processBatch_eq rules now p batch
  have hget := h
  rw [(processBatch_sections rules now p batch).1] at hget
  rcases get_foldl_putOne hget with hold | ⟨e, he, rfl, rfl, rfl⟩
  · rw [(writesHeadersOnly_afterHeaders rules now p batch).sections typeId id htype] at hold
    exact .inl hold
  · obtain ⟨item, hkept, hbind⟩ := keptSection_of_mem_boundRows he
    obtain ⟨htype', hid, hdata, identity, hidentity, hid', hknown⟩ := bindSection_eq_some hbind
    refine .inr ⟨item, hkept.1, htype'.symm, hdata.symm, identity, ?_, hid'.trans hid.symm, ?_⟩
    · rwa [htype', hdata]
    · rwa [hchain, hsame.get_eq]

lemma ScoresConsistent.isSome_get_of_heightOf {p : ValidationPipeline}
    (h : ScoresConsistent rules p) (hid : (p.chain.heightOf id).isSome) :
    (p.store.get headerTypeId id).isSome := by
  obtain ⟨height, hheight⟩ := Option.isSome_iff_exists.1 hid
  obtain ⟨e, hfind, -⟩ := Option.map_eq_some_iff.1 hheight
  have hmem := mem_of_find?_eq_some hfind
  have hkey := find?_some hfind
  obtain rfl : e.header.id = id := by simpa using hkey
  exact h.add.hasBytes _ _ (h.persisted e hmem)

lemma SectionsBound.processBatch {p : ValidationPipeline} (hbound : SectionsBound srules p.store)
    (hscores : ScoresConsistent (rules.withSections srules)
      (processBatch (rules.withSections srules) now p batch)) :
    SectionsBound srules (processBatch (rules.withSections srules) now p batch).store := by
  intro typeId id body htype hget
  rcases get_processBatch htype hget with hold | ⟨item, -, -, -, identity, hidentity, hid, hknown⟩
  · obtain ⟨identity, hidentity, hid, hheader⟩ := hbound typeId id body htype hold
    exact ⟨identity, hidentity, hid, isSome_get_processBatch hheader batch⟩
  · refine ⟨identity, ?_, hid, ?_⟩
    · exact toOption_eq_some_iff.1 hidentity
    · rcases hknown with hon | hstored
      · exact hscores.isSome_get_of_heightOf hon
      · exact hstored

/-! ## Runs -/

/-- What holds between the batches of a run that delivers only these bodies. -/
structure BoundRun (srules : SectionRules Tx) (rules : PipelineRules) (bodies : Set (ℕ × Bytes))
    (p : ValidationPipeline) : Prop where
  wellFormed : p.WellFormed (rules.withSections srules)
  scores : ScoresConsistent (rules.withSections srules) p
  bound : SectionsBound srules p.store
  stored : storedBodies p.store ⊆ bodies

namespace BoundRun

variable {bodies : Set (ℕ × Bytes)} {p : ValidationPipeline}

lemma processBatch (inv : BoundRun srules rules bodies p)
    (hfree : CollisionFree (rules.withSections srules)) {batch : List ModifierBatchItem}
    (hdelivered : ∀ item ∈ batch, (item.typeId, item.data) ∈ bodies) :
    BoundRun srules rules bodies (processBatch (rules.withSections srules) now p batch) where
  wellFormed := inv.wellFormed.processBatch now batch
  scores := inv.scores.processBatch hfree inv.wellFormed now batch
  bound := inv.bound.processBatch (inv.scores.processBatch hfree inv.wellFormed now batch)
  stored := by
    rintro ⟨typeId, body⟩ ⟨htype, id, hget⟩
    rcases get_processBatch htype hget with hold | ⟨item, hitem, rfl, rfl, -⟩
    · exact inv.stored ⟨htype, id, hold⟩
    · exact hdelivered item hitem

lemma runBatches (inv : BoundRun srules rules bodies p)
    (hfree : CollisionFree (rules.withSections srules)) {batches : List (ℕ × List ModifierBatchItem)}
    (hdelivered : deliveredBodies batches ⊆ bodies) :
    BoundRun srules rules bodies (runBatches (rules.withSections srules) p batches) := by
  induction batches generalizing p with
  | nil => exact inv
  | cons b batches ih =>
    have hfirst : ∀ item ∈ b.2, (item.typeId, item.data) ∈ bodies :=
      fun item hitem => hdelivered ⟨b, mem_cons_self, item, hitem, rfl⟩
    have hrest : deliveredBodies batches ⊆ bodies := by
      rintro _ ⟨b', hb', item, hitem, rfl⟩
      exact hdelivered ⟨b', mem_cons_of_mem _ hb', item, hitem, rfl⟩
    exact ih (inv.processBatch hfree hfirst) hrest

end BoundRun

lemma isSome_get_runBatches {p : ValidationPipeline}
    (h : (p.store.get typeId id).isSome) (batches : List (ℕ × List ModifierBatchItem)) :
    ((runBatches rules p batches).store.get typeId id).isSome := by
  induction batches generalizing p with
  | nil => exact h
  | cons b batches ih => exact ih (isSome_get_processBatch h b.2)

lemma keepsContent_of_bound {bodies : Set (ℕ × Bytes)} (hhash : CollisionFreeOn srules bodies)
    {store store' : ModifierStore} (hbound : SectionsBound srules store)
    (hbound' : SectionsBound srules store') (hstored : storedBodies store ⊆ bodies)
    (hstored' : storedBodies store' ⊆ bodies)
    (hkept : ∀ typeId id, (store.get typeId id).isSome → (store'.get typeId id).isSome) :
    KeepsContent srules store store' := by
  intro typeId id body htype hget
  obtain ⟨body', hget'⟩ := Option.isSome_iff_exists.1 (hkept typeId id (by rw [hget]; rfl))
  obtain ⟨identity, hidentity, hid, -⟩ := hbound typeId id body htype hget
  obtain ⟨identity', hidentity', hid', -⟩ := hbound' typeId id body' htype hget'
  refine ⟨body', hget', ?_⟩
  exact committedContent_eq_of_id_eq hhash (hstored' ⟨htype, id, hget'⟩) (hstored ⟨htype, id, hget⟩)
    hidentity' hidentity (hid'.trans hid.symm)

/-- **Received sections are bound to their ids.** Along every run, the stored sections have the ids
of their bytes and name stored headers, the content an id commits to is not replaced, and what is
reported as received was accepted. -/
theorem sectionsBound_runBatches (srules : SectionRules Tx) (rules : PipelineRules)
    (hfree : CollisionFree (rules.withSections srules)) {p : ValidationPipeline}
    (hwf : p.WellFormed (rules.withSections srules))
    (hscores : ScoresConsistent (rules.withSections srules) p)
    (hbound : SectionsBound srules p.store) (batches : List (ℕ × List ModifierBatchItem))
    (hhash : CollisionFreeOn srules (storedBodies p.store ∪ deliveredBodies batches)) :
    (∀ k, SectionsBound srules (runBatches (rules.withSections srules) p (batches.take k)).store) ∧
    (∀ j k, j ≤ k → KeepsContent srules
      (runBatches (rules.withSections srules) p (batches.take j)).store
      (runBatches (rules.withSections srules) p (batches.take k)).store) ∧
    ∀ k b, batches[k]? = some b → ReportsBound (rules.withSections srules) b.1
      (runBatches (rules.withSections srules) p (batches.take k)) b.2 := by
  have hstart : BoundRun srules rules (storedBodies p.store ∪ deliveredBodies batches) p :=
    ⟨hwf, hscores, hbound, Set.subset_union_left⟩
  have hrun : ∀ k, BoundRun srules rules (storedBodies p.store ∪ deliveredBodies batches)
      (runBatches (rules.withSections srules) p (batches.take k)) := by
    intro k
    apply hstart.runBatches hfree
    rintro _ ⟨b, hb, item, hitem, rfl⟩
    exact .inr ⟨b, mem_of_mem_take hb, item, hitem, rfl⟩
  refine ⟨fun k => (hrun k).bound, ?_, fun k b _ => reportsBound _ _ _ _⟩
  intro j k hjk
  apply keepsContent_of_bound hhash (hrun j).bound (hrun k).bound (hrun j).stored (hrun k).stored
  intro typeId id hget
  -- the longer run continues the shorter one
  have hsplit : batches.take k = batches.take j ++ (batches.drop j).take (k - j) := by
    rw [← take_add, Nat.add_sub_cancel' hjk]
  rw [hsplit, runBatches, foldl_append]
  exact isSome_get_runBatches hget _

def forkProofId : BlockId := sectionId byteRules adProofsTypeId 12 (adProofsDigest byteRules [9])

/-- The proof comes after the fork, with two bodies that are dropped: one of another id and one cut
short. -/
def forkSectionRun : List (ℕ × List ModifierBatchItem) :=
  forkRun ++ [(10000,
    [{ typeId := adProofsTypeId, id := forkProofId, data := bytesOfId 12 ++ [1, 9] },
     { typeId := adProofsTypeId, id := forkProofId, data := bytesOfId 12 ++ [1, 8] },
     { typeId := adProofsTypeId, id := 7, data := bytesOfId 12 ++ [2, 7] }])]

def forkSectionRules (forkNBits : ℕ) : PipelineRules :=
  (listRules (forkHeaders forkNBits)).withSections byteRules

lemma sectionsBound_new (srules : SectionRules Tx) (config : ChainConfig) :
    SectionsBound srules (ValidationPipeline.new config).store := by
  intro typeId id body _ hget
  simp [ValidationPipeline.new, ModifierStore.empty, ModifierStore.get] at hget

lemma collisionFreeOn_forkSectionRun :
    CollisionFreeOn byteRules
      (storedBodies (ValidationPipeline.new .mainnet).store ∪ deliveredBodies forkSectionRun) := by
  apply collisionFreeOn_of_list
    (l := forkSectionRun.flatMap (fun b => b.2.map (fun item => (item.typeId, item.data))))
  · rintro b (⟨-, id, hget⟩ | ⟨batch, hbatch, item, hitem, rfl⟩)
    · simp [ValidationPipeline.new, ModifierStore.empty, ModifierStore.get] at hget
    · exact mem_flatMap.2 ⟨batch, hbatch, mem_map.2 ⟨item, hitem, rfl⟩⟩
  · decide +kernel
  · decide +kernel

/-- The heavy fork's section is stored under its id, and reported. -/
theorem sectionsBound_heavyFork :
    SectionsBound byteRules
        (runBatches (forkSectionRules 100734821) (.new .mainnet) (forkSectionRun.take 3)).store ∧
      (runBatches (forkSectionRules 100734821) (.new .mainnet) (forkSectionRun.take 3)).store.get
        adProofsTypeId forkProofId = some (bytesOfId 12 ++ [1, 9]) ∧
      (runBatches (forkSectionRules 100734821) (.new .mainnet) (forkSectionRun.take 3)).data.getLast? =
        some (.received [forkProofId]) :=
  have hfree : CollisionFree ((listRules (forkHeaders 100734821)).withSections byteRules) :=
    collisionFree_listRules (by decide)
  ⟨(sectionsBound_runBatches byteRules (listRules (forkHeaders 100734821)) hfree (.new _) (.new _)
    (sectionsBound_new _ _) forkSectionRun collisionFreeOn_forkSectionRun).1 3,
    by decide +kernel, by decide +kernel⟩

/-- The light fork's section is stored, while its header is off the chain. -/
theorem not_contains_lightFork :
    (runBatches (forkSectionRules 16842752) (.new .mainnet) forkSectionRun).store.get
        adProofsTypeId forkProofId = some (bytesOfId 12 ++ [1, 9]) ∧
      sectionIdFromBody byteRules adProofsTypeId (bytesOfId 12 ++ [1, 9]) = .ok ⟨forkProofId, 12⟩ ∧
      (runBatches (forkSectionRules 16842752) (.new .mainnet) forkSectionRun).chain.contains 12 =
        false :=
  ⟨by decide +kernel, eq_ok_of_any (by decide +kernel), by decide +kernel⟩

end ErgoNode
