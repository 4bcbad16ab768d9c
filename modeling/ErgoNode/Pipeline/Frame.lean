import ErgoNode.Pipeline.Steps

/-!
# What a batch leaves alone

A batch only ever appends to the chain, except for at most one reorg at its end, which replaces
what lies above its fork point and tells the sync machine so in the same step. So a header that is
on the chain below every fork point announced by a batch is still there after the batch. The
chain's configuration and its installed parameters are never touched.
-/

namespace ErgoNode

open List HeaderChain

def forkPoints (control : List DeliveryControl) : List ℕ :=
  control.filterMap fun
    | .reorg forkPoint _ _ => some forkPoint
    | .needModifier _ _ => none

@[simp]
lemma forkPoints_nil : forkPoints [] = [] := rfl

@[simp]
lemma forkPoints_append (a b : List DeliveryControl) :
    forkPoints (a ++ b) = forkPoints a ++ forkPoints b := by
  simp [forkPoints]

@[simp]
lemma forkPoints_needModifier (typeId : ℕ) (id : BlockId) (cs : List DeliveryControl) :
    forkPoints (.needModifier typeId id :: cs) = forkPoints cs := rfl

@[simp]
lemma forkPoints_reorg (f oldTip newTip : ℕ) (cs : List DeliveryControl) :
    forkPoints (.reorg f oldTip newTip :: cs) = f :: forkPoints cs := rfl

/-- The chains have the same configuration and the same installed parameters. -/
structure SameSettings (c c' : HeaderChain) : Prop where
  config_eq : c'.config = c.config
  activeParameters_eq : c'.activeParameters = c.activeParameters
  activeProposedUpdateBytes_eq : c'.activeProposedUpdateBytes = c.activeProposedUpdateBytes

namespace SameSettings

variable {c c' c'' : HeaderChain}

lemma refl (c : HeaderChain) : SameSettings c c := ⟨rfl, rfl, rfl⟩

lemma trans (h : SameSettings c c') (h' : SameSettings c' c'') : SameSettings c c'' :=
  ⟨h'.config_eq.trans h.config_eq, h'.activeParameters_eq.trans h.activeParameters_eq,
    h'.activeProposedUpdateBytes_eq.trans h.activeProposedUpdateBytes_eq⟩

end SameSettings

namespace HeaderChain

variable {c : HeaderChain}
variable {h f : ℕ} {c' : HeaderChain} {es : List ChainEntry}

lemma height_of_headerAt {x : Header} (hx : c.headerAt h = some x) : x.height = h := by
  obtain ⟨e, he, rfl⟩ := Option.map_eq_some_iff.1 hx
  simpa using find?_some he

lemma height_pos_of_tryAppend {rules : HeaderRules} {now : ℕ} {header : Header}
    (h : c.tryAppend rules now header = (.ok .extended, c')) :
    0 < header.height := by
  obtain ⟨-, ⟨-, hgenesis⟩ | ⟨tip, hfits, -⟩⟩ := tryAppend_extended h
  · simp only [validateGenesis, bind_eq_ok, require_eq_ok, exists_and_left] at hgenesis
    omega
  · have := hfits.height_eq
    omega

lemma headerAt_append
    (hes : c'.entries = c.entries ++ es) {x : Header} (hx : c.headerAt h = some x) :
    c'.headerAt h = some x := by
  obtain ⟨e, he, rfl⟩ := Option.map_eq_some_iff.1 hx
  have hfind : c.entries.find? (fun e => e.header.height = h) = some e := he
  simp [headerAt, entryAt, hes, find?_append, hfind]

lemma find?_eq_none_of_above (habove : ∀ e ∈ es, f < e.header.height) (hle : h ≤ f) :
    es.find? (fun e => e.header.height = h) = none := by
  rw [find?_eq_none]
  intro e he
  have := habove e he
  simp only [decide_eq_true_eq]
  omega

lemma headerAt_truncate_append (hes : c'.entries = (c.truncate f).entries ++ es)
    (habove : ∀ e ∈ es, f < e.header.height) (hle : h ≤ f) : c'.headerAt h = c.headerAt h := by
  unfold headerAt entryAt
  rw [hes, find?_append, find?_eq_none_of_above habove hle, Option.or_none, truncate, find?_filter]
  congr 2
  funext e
  by_cases he : e.header.height = h
  · simp [he, hle]
  · simp [he]

lemma headerAt_truncate_append_above
    (hes : c'.entries = (c.truncate f).entries ++ c.entriesAbove f) (h : ℕ) :
    c'.headerAt h = c.headerAt h := by
  rcases Nat.lt_or_ge f h with hlt | hle
  · unfold headerAt entryAt
    have hbelow : (c.truncate f).entries.find? (fun e => e.header.height = h) = none := by
      rw [find?_eq_none]
      intro e he
      have hf : e.header.height ≤ f := by simpa using (mem_filter.1 he).2
      simp only [decide_eq_true_eq]
      omega
    rw [hes, find?_append, hbelow, Option.none_or, entriesAbove, find?_filter]
    congr 2
    funext e
    by_cases he : e.header.height = h
    · simp [he, hlt]
    · simp [he]
  · exact headerAt_truncate_append hes (fun e he => by simpa using (mem_filter.1 he).2) hle

end HeaderChain

variable {rules : PipelineRules} {now : ℕ}

/-! ## The loop -/

/-- The loop state of a batch: since its start the chain has grown, and no reorg was announced. -/
structure LoopFrame (c : HeaderChain) (control : List DeliveryControl) (s : BatchState) : Prop where
  grown : ∃ es, s.chain.entries = c.entries ++ es ∧ ∀ e ∈ es, 0 < e.header.height
  settings : SameSettings c s.chain
  events : ∃ new, s.control = control ++ new ∧ forkPoints new = []

namespace LoopFrame

variable {c : HeaderChain} {control : List DeliveryControl} {s : BatchState}

lemma extend (inv : LoopFrame c control s) {header : Header} {chain : HeaderChain} (raw : Bytes)
    (happend : s.chain.tryAppend rules.toHeaderRules now header = (.ok .extended, chain)) :
    LoopFrame c control (chainHeader s chain header raw) := by
  have hpos : 0 < header.height := height_pos_of_tryAppend happend
  obtain ⟨rfl, -⟩ := tryAppend_extended happend
  obtain ⟨es, hes, habove⟩ := inv.grown
  obtain ⟨e, he, hheader⟩ : ∃ e, (s.chain.pushHeader rules.toHeaderRules header).entries =
      s.chain.entries ++ [e] ∧ e.header = header := ⟨_, rfl, rfl⟩
  refine ⟨⟨es ++ [e], ?_, ?_⟩, inv.settings.trans ⟨rfl, rfl, rfl⟩, inv.events⟩
  · rwa [← append_assoc, ← hes]
  · intro e' he'
    rcases mem_append.1 he' with he' | he'
    · exact habove e' he'
    · rwa [mem_singleton.1 he', hheader]

lemma drainBuffer (inv : LoopFrame c control s) (fuel : ℕ) (nextParent : BlockId) :
    LoopFrame c control (drainBuffer rules now fuel nextParent s) := by
  apply drainBuffer_induction (P := LoopFrame c control) _ _ fuel nextParent s inv
  · intro s k header raw chain hs _ happend
    exact extend (s := { s with buffer := s.buffer.remove k }) { hs with }
      raw happend
  · intro s k hs
    exact { hs with }

lemma storeFork (inv : LoopFrame c control s) (header : Header) (raw : Bytes) (parentScore : ℕ)
    (assemble : ModifierStore → Option ForkBranch) :
    LoopFrame c control (storeFork rules s header raw parentScore assemble) :=
  { inv with }

lemma bufferHeader (inv : LoopFrame c control s) (header : Header) (raw : Bytes) :
    LoopFrame c control (bufferHeader s header raw) :=
  { inv with }

lemma requestParent (inv : LoopFrame c control s) (parentId : BlockId) :
    LoopFrame c control (requestParent now s parentId) := by
  obtain ⟨new, hnew, hforks⟩ := inv.events
  refine ⟨inv.grown, inv.settings, ?_⟩
  unfold ErgoNode.requestParent
  dsimp only
  split
  · exact ⟨new ++ [.needModifier headerTypeId parentId], by rw [hnew, append_assoc],
      by simp [hforks]⟩
  · exact ⟨new, hnew, hforks⟩

lemma processHeader (inv : LoopFrame c control s) (x : RawHeader) :
    LoopFrame c control (processHeader rules now s x) := by
  obtain ⟨header, raw⟩ := x
  have hresolved : LoopFrame c control
      { s with reorgRequested := s.reorgRequested.resolved header.id } :=
    { inv with }
  unfold ErgoNode.processHeader
  dsimp only
  split
  · exact inv
  split
  next chain happend =>
    exact (inv.extend raw happend).drainBuffer _ _
  · exact hresolved.storeFork header raw _ _
  · split
    · exact inv.storeFork header raw _ _
    · exact (inv.requestParent header.parentId).bufferHeader header raw
  · exact inv.bufferHeader header raw
  · exact inv.bufferHeader header raw
  · exact inv

lemma foldl (inv : LoopFrame c control s) (xs : List RawHeader) :
    LoopFrame c control (xs.foldl (ErgoNode.processHeader rules now) s) := by
  induction xs generalizing s with
  | nil => exact inv
  | cons x xs ih => exact ih (inv.processHeader x)

end LoopFrame

lemma loopFrame_loopEnd (p : ValidationPipeline) (batch : List ModifierBatchItem) :
    LoopFrame p.chain p.control (loopEnd rules now p batch) := by
  have hstart : LoopFrame p.chain p.control (startBatch p) :=
    ⟨⟨[], by simp [startBatch], by simp⟩, .refl _, [], by simp [startBatch]⟩
  exact hstart.foldl _

/-! ## The reorg -/

namespace HeaderChain

variable {rules : HeaderRules} {now : ℕ} {c c' : HeaderChain} {f : ℕ} {branch : List Header}

lemma tryReorgDeep_ok_entries {ids : List BlockId}
    (h : c.tryReorgDeep rules now f branch = (.ok ids, c')) :
    ∃ es, c' = { c with entries := (c.truncate f).entries ++ es } ∧
      ∀ e ∈ es, f < e.header.height := by
  cases branch with
  | nil => simp [tryReorgDeep] at h
  | cons first rest =>
    simp only [tryReorgDeep] at h
    iterate 4
      split at h
      · simp at h
    split at h
    · simp at h
    obtain ⟨es, hes, habove, -⟩ :=
      appendBranch_entries rules now f (first :: rest) 0 (c.truncate f)
    split at h
    next c₁ happend =>
      rw [happend] at hes
      cases h
      exact ⟨es, hes, habove⟩
    · simp at h

lemma tryReorgDeep_error_frame {e : ChainError}
    (h : c.tryReorgDeep rules now f branch = (.error e, c')) :
    SameSettings c c' ∧ (∀ k, c'.headerAt k = c.headerAt k) ∧
      ∀ e ∈ c'.entries, e ∈ c.entries := by
  have hkept : SameSettings c c ∧ (∀ k, c.headerAt k = c.headerAt k) ∧
      ∀ e ∈ c.entries, e ∈ c.entries := ⟨.refl c, fun _ => rfl, fun _ he => he⟩
  cases branch with
  | nil =>
    cases h
    exact hkept
  | cons first rest =>
    simp only [tryReorgDeep] at h
    iterate 5
      split at h
      · cases h
        exact hkept
    obtain ⟨es, hes, habove, -⟩ :=
      appendBranch_entries rules now f (first :: rest) 0 (c.truncate f)
    split at h
    · simp at h
    next c₁ happend =>
      rw [happend] at hes
      subst hes
      cases h
      -- popping what was pushed gives the truncated entries back
      have hnil : es.filter (fun e => e.header.height ≤ f) = [] :=
        filter_eq_nil_iff.2 (fun x hx => by simpa using habove x hx)
      refine ⟨⟨rfl, rfl, rfl⟩, headerAt_truncate_append_above (f := f) ?_, ?_⟩
      · simp [truncate, filter_filter, hnil]
      · intro e he
        rcases mem_append.1 he with he | he
        · have hmem := mem_of_mem_filter he
          rcases mem_append.1 hmem with hold | hnew
          · exact mem_of_mem_filter hold
          · have hin : e ∈ es.filter (fun e => e.header.height ≤ f) :=
              mem_filter.2 ⟨hnew, (mem_filter.1 he).2⟩
            rw [hnil] at hin
            cases hin
        · exact mem_of_mem_filter he

end HeaderChain

/-! ## The batch -/

/-- A header on the chain at or below every fork point that a batch announces stays there. -/
structure PipelineFrame (p p' : ValidationPipeline) : Prop where
  settings : SameSettings p.chain p'.chain
  positive : ∀ e ∈ p'.chain.entries, e ∈ p.chain.entries ∨ 0 < e.header.height
  /-- New events come after the old ones, and headers below the new fork points stay. -/
  events : ∃ new, p'.control = p.control ++ new ∧
    ∀ h x, p.chain.headerAt h = some x → (∀ f ∈ forkPoints new, h ≤ f) →
      p'.chain.headerAt h = some x

lemma PipelineFrame.refl (p : ValidationPipeline) : PipelineFrame p p :=
  ⟨.refl _, fun _ he => .inl he, [], by simp, fun _ _ hx _ => hx⟩

lemma executeReorg_frame (rules : PipelineRules) (now : ℕ) (s : BatchState) :
    SameSettings s.chain (executeReorg rules now s).1.chain ∧
      (∀ e ∈ (executeReorg rules now s).1.chain.entries,
        e ∈ s.chain.entries ∨ 0 < e.header.height) ∧
      ∃ new, (executeReorg rules now s).1.control = s.control ++ new ∧
        ∀ h x, s.chain.headerAt h = some x → (∀ f ∈ forkPoints new, h ≤ f) →
          (executeReorg rules now s).1.chain.headerAt h = some x := by
  unfold executeReorg
  split
  · exact ⟨.refl _, fun _ he => .inl he, [], by simp, fun _ _ hx _ => hx⟩
  next f branch hpending =>
    split
    next ids chain hreorg =>
      obtain ⟨es, rfl, habove⟩ := tryReorgDeep_ok_entries hreorg
      refine ⟨⟨rfl, rfl, rfl⟩, ?_, [_], rfl, ?_⟩
      · intro e he
        rcases mem_append.1 he with he | he
        · exact .inl (mem_of_mem_filter he)
        · exact .inr (Nat.zero_lt_of_lt (habove e he))
      intro h x hx hbelow
      have hle : h ≤ f := hbelow f (by simp)
      dsimp only
      rwa [headerAt_truncate_append rfl habove hle]
    next e chain hreorg =>
      obtain ⟨hsettings, hsame, hmem⟩ := tryReorgDeep_error_frame hreorg
      refine ⟨hsettings, fun e he => .inl (hmem e he), [], by simp, fun h x hx _ => ?_⟩
      dsimp only
      rwa [hsame]

lemma finishBatch_frame {p : ValidationPipeline} {s : BatchState}
    (hloop : LoopFrame p.chain p.control s) : PipelineFrame p (finishBatch rules now p s) := by
  obtain ⟨es, hes, hpos⟩ := hloop.grown
  obtain ⟨asked, hasked, hrequests⟩ := hloop.events
  obtain ⟨hsettings, hmem, new, hnew, hkept⟩ := executeReorg_frame rules now s
  refine ⟨hloop.settings.trans hsettings, ?_, asked ++ new, ?_, ?_⟩
  · intro e he
    rcases hmem e he with hold | hnew
    · rcases mem_append.1 (hes ▸ hold) with hold | hnew
      · exact .inl hold
      · exact .inr (hpos e hnew)
    · exact .inr hnew
  · show (executeReorg rules now s).1.control = _
    rw [hnew, hasked, append_assoc]
  · intro h x hx hbelow
    apply hkept h x (headerAt_append hes hx)
    simpa [hrequests] using hbelow

lemma processBatch_frame (rules : PipelineRules) (now : ℕ) (p : ValidationPipeline)
    (batch : List ModifierBatchItem) : PipelineFrame p (processBatch rules now p batch) := by
  have hafter : PipelineFrame p (afterHeaders rules now p batch) := by
    unfold afterHeaders
    split
    · exact .refl p
    · exact finishBatch_frame (loopFrame_loopEnd p batch)
  rw [← processHeaders_fst] at hafter
  exact ⟨hafter.settings, hafter.positive, hafter.events⟩

end ErgoNode
