import ErgoNode.Pipeline.ForkChoice
import ErgoNode.Pipeline.HeaderTree

/-!
# Order independence of fork choice

When the chain that the pipeline ends with is the heaviest branch of a tree, in whatever order and
batching its headers are delivered. Two things stand in the way. A batch records one reorg only, so
a later header with a greater score is stored and passed over. And the buffer is drained when a
header joins the best chain but not when it is stored as a fork, so a header that arrived before
such a parent stays in the buffer.
-/

namespace ErgoNode

open List HeaderChain LruCache Option

variable {rules : PipelineRules} {now : ℕ} {store : ModifierStore} {nextParent : BlockId}
  {xs : List RawHeader}

/-! ## The condition -/

/-- Once a reorg is recorded, the header gets no greater score than it; and a header that is stored
as a fork has no child in the buffer. -/
structure StepSettles (rules : PipelineRules) (now : ℕ) (s : BatchState) (x : RawHeader) :
    Prop where
  chain_le : ∀ r ∈ recordedScore s, (processHeader rules now s x).chain.cumulativeScore ≤ r
  stored_le : ∀ r ∈ recordedScore s,
    ∀ score ∈ storedScore (processHeader rules now s x).store x.1.id, score ≤ r
  no_child : storesFork rules now s x.1 = true → ∀ e ∈ s.buffer.entries, e.1 ≠ x.1.id

def LoopSettles (rules : PipelineRules) (now : ℕ) : BatchState → List RawHeader → Prop
  | _, [] => True
  | s, x :: xs => StepSettles rules now s x ∧ LoopSettles rules now (processHeader rules now s x) xs

def RunSettles (rules : PipelineRules) :
    ValidationPipeline → List (ℕ × List ModifierBatchItem) → Prop
  | _, [] => True
  | p, b :: rest => LoopSettles rules b.1 (startBatch p) (batchHeaders rules b.2) ∧
      RunSettles rules (processBatch rules b.1 p b.2) rest

instance (s : BatchState) (x : RawHeader) : Decidable (StepSettles rules now s x) :=
  decidable_of_iff
    ((∀ r ∈ recordedScore s, (processHeader rules now s x).chain.cumulativeScore ≤ r) ∧
      (∀ r ∈ recordedScore s,
        ∀ score ∈ storedScore (processHeader rules now s x).store x.1.id, score ≤ r) ∧
      (storesFork rules now s x.1 = true → ∀ e ∈ s.buffer.entries, e.1 ≠ x.1.id))
    ⟨fun ⟨h₁, h₂, h₃⟩ => ⟨h₁, h₂, h₃⟩, fun h => ⟨h.chain_le, h.stored_le, h.no_child⟩⟩

def decideLoopSettles (rules : PipelineRules) (now : ℕ) :
    (s : BatchState) → (xs : List RawHeader) → Decidable (LoopSettles rules now s xs)
  | _, [] => inferInstanceAs (Decidable True)
  | s, x :: xs =>
    have := decideLoopSettles rules now (processHeader rules now s x) xs
    inferInstanceAs (Decidable (StepSettles rules now s x ∧ _))

def decideRunSettles (rules : PipelineRules) : (p : ValidationPipeline) →
    (batches : List (ℕ × List ModifierBatchItem)) → Decidable (RunSettles rules p batches)
  | _, [] => inferInstanceAs (Decidable True)
  | p, b :: rest =>
    have := decideLoopSettles rules b.1 (startBatch p) (batchHeaders rules b.2)
    have := decideRunSettles rules (processBatch rules b.1 p b.2) rest
    inferInstanceAs (Decidable (LoopSettles rules b.1 (startBatch p) (batchHeaders rules b.2) ∧ _))

instance (p : ValidationPipeline) (batches : List (ℕ × List ModifierBatchItem)) :
    Decidable (RunSettles rules p batches) :=
  decideRunSettles rules p batches

/-! ## Deliveries -/

def DeliveredInLoop (rules : PipelineRules) (now : ℕ) (h : Header) :
    BatchState → List RawHeader → Prop
  | _, [] => False
  | s, x :: xs => (x.1 = h ∧ ∃ score, Known s.chain s.store h.parentId score) ∨
      DeliveredInLoop rules now h (processHeader rules now s x) xs

def DeliveredInRun (rules : PipelineRules) (h : Header) :
    ValidationPipeline → List (ℕ × List ModifierBatchItem) → Prop
  | _, [] => False
  | p, b :: rest => DeliveredInLoop rules b.1 h (startBatch p) (batchHeaders rules b.2) ∨
      DeliveredInRun rules h (processBatch rules b.1 p b.2) rest

/-- The run delivers the headers of `T`. One that it ends without, neither on the chain nor stored
nor buffered, was delivered when its parent was known. -/
structure Fair (rules : PipelineRules) (clock : ℕ → Prop) (T : List Header)
    (p : ValidationPipeline) (batches : List (ℕ × List ModifierBatchItem)) : Prop where
  clock : ∀ b ∈ batches, clock b.1
  delivers : ∀ b ∈ batches, ∀ x ∈ batchHeaders rules b.2, x.1 ∈ T
  complete : ∀ h ∈ T, DeliveredInRun rules h p batches ∨
    (∃ k x, (k, x) ∈ (runBatches rules p batches).buffer.entries ∧ x.1 = h) ∨
    ∃ score, Known (runBatches rules p batches).chain (runBatches rules p batches).store h.id score

/-! ## The invariant of the loop -/

/-- What holds between two headers of a batch. The children of `exception` may still be in the
buffer, while the drain is at it. -/
structure TreeInv (rules : PipelineRules) (base : ChainEntry) (T : List Header)
    (exception : Option BlockId) (s : BatchState) : Prop where
  branch : IsBranch rules.toHeaderRules base T s.chain.entries
  stored : ∀ h score, Parsed rules h → storedScore s.store h.id = some score → h ∈ T
  buffered : ∀ k x, (k, x) ∈ s.buffer.entries → x.1 ∈ T
  orphaned : ∀ k x, (k, x) ∈ s.buffer.entries → ∀ score, Known s.chain s.store k score →
    exception = some k
  max : ∀ id score, Known s.chain s.store id score →
    score ≤ s.chain.cumulativeScore ∨ ∃ r ∈ recordedScore s, score ≤ r
  pending : ∀ f branch, s.pendingReorg = some (f, branch) →
    ∃ e es, s.chain.entryAt f = some e ∧ es.map (·.header) = branch.map Prod.fst ∧
      (e :: es).IsChain (ChainEntry.Follows rules.toHeaderRules) ∧ ∀ x ∈ es, x.header ∈ T

namespace TreeInv

variable {c₀ : HeaderChain} {base : ChainEntry} {T : List Header} {s : BatchState}

lemma chain_eq (hloop : LoopInv rules c₀ s) :
    s.chain = { c₀ with entries := s.chain.entries } := by
  obtain ⟨es, hes, -⟩ := hloop.grown
  rw [hes]

/-- A header that joins the chain. Its children in the buffer are the only ones whose parent is
known now. -/
theorem chainHeader (inv : TreeInv rules base T none s)
    (hlinked : s.chain.Linked rules.toHeaderRules) {header : Header} {raw : Bytes}
    {chain : HeaderChain} (hmem : header ∈ T)
    (h : s.chain.tryAppend rules.toHeaderRules now header = (.ok .extended, chain)) :
    TreeInv rules base T (some header.id) (chainHeader s chain header raw) := by
  obtain ⟨hlinked', -, score, hchain⟩ := exists_entries_of_tryAppend hlinked h
  have hentry : ∀ e, e ∈ chain.entries ↔ e ∈ s.chain.entries ∨ e = ⟨header, score⟩ := by
    simp [hchain]
  have hcum : chain.cumulativeScore = score :=
    hlinked'.cumulativeScore_eq (e := ⟨header, score⟩) (by simp [hchain])
  have hmono : s.chain.cumulativeScore ≤ chain.cumulativeScore := by
    rw [hchain] at hlinked' ⊢
    exact cumulativeScore_le_append hlinked'
  refine ⟨⟨?_, hlinked', ?_⟩, inv.stored, inv.buffered, ?_, ?_, ?_⟩
  · change chain.entries.head? = _
    rw [hchain, head?_append_of_ne_nil _ inv.branch.ne_nil, inv.branch.head]
  · intro e he
    rcases (hentry e).1 he with he | rfl
    · exact inv.branch.mem e he
    · exact hmem
  · rintro k x hx sc (⟨e, he, rfl, rfl⟩ | hs)
    · rcases (hentry e).1 he with he | rfl
      · exact absurd (inv.orphaned _ x hx _ (Or.inl ⟨e, he, rfl, rfl⟩)) (by simp)
      · rfl
    · exact absurd (inv.orphaned k x hx sc (Or.inr hs)) (by simp)
  · have hold : ∀ id sc, Known s.chain s.store id sc →
        sc ≤ chain.cumulativeScore ∨ ∃ r ∈ recordedScore s, sc ≤ r :=
      fun id sc hk => (inv.max id sc hk).imp_left (fun hle => Nat.le_trans hle hmono)
    rintro id sc (⟨e, he, rfl, rfl⟩ | hs)
    · rcases (hentry e).1 he with he | rfl
      · exact hold _ _ (Or.inl ⟨e, he, rfl, rfl⟩)
      · exact Or.inl (Nat.le_of_eq hcum.symm)
    · exact hold id sc (Or.inr hs)
  · intro f branch hpending
    obtain ⟨e, es, he, hes⟩ := inv.pending f branch hpending
    obtain ⟨hmem, hheight⟩ := hlinked.entryAt_eq_some_iff.1 he
    exact ⟨e, es, hlinked'.entryAt_eq_some_iff.2 ⟨(hentry e).2 (Or.inl hmem), hheight⟩, hes⟩

lemma remove (inv : TreeInv rules base T (some nextParent) s) :
    TreeInv rules base T none { s with buffer := s.buffer.remove nextParent } where
  __ := inv
  buffered k x hx := inv.buffered k x (mem_filterEntries.1 hx).1
  orphaned k x hx score hk := by
    have heq := inv.orphaned k x (mem_filterEntries.1 hx).1 score hk
    cases heq
    exact absurd (mem_map_of_mem hx) (not_mem_keys_remove _ _)

lemma drainBuffer (hloop : LoopInv rules c₀ s) {fuel : ℕ}
    (inv : TreeInv rules base T (some nextParent) s) (hfuel : s.buffer.entries.length ≤ fuel) :
    TreeInv rules base T none (drainBuffer rules now fuel nextParent s) := by
  induction fuel generalizing nextParent s with
  | zero =>
    have hnil : s.buffer.entries = [] := length_eq_zero_iff.1 (Nat.le_zero.1 hfuel)
    refine ⟨inv.branch, inv.stored, inv.buffered, fun k x hx => ?_, inv.max, inv.pending⟩
    exact absurd (show (k, x) ∈ s.buffer.entries from hx) (by simp [hnil])
  | succ fuel ih =>
    unfold ErgoNode.drainBuffer
    split
    next hpop =>
      refine ⟨inv.branch, inv.stored, inv.buffered, ?_, inv.max, inv.pending⟩
      intro k x hx score hk
      obtain rfl := some.inj (inv.orphaned k x hx score hk)
      exact absurd hx (pop_eq_none_iff.1 hpop x)
    next header raw buffer hpop =>
      obtain ⟨hmem, rfl⟩ := pop_eq_some_iff.1 hpop
      split
      next chain happend =>
        refine ih ((hloop.remove nextParent).chainHeader (hloop.buffered _ _ hmem).1 happend)
          (inv.remove.chainHeader hloop.linked (inv.buffered _ _ hmem) happend) ?_
        have hlt := length_remove_lt hmem
        change (s.buffer.remove nextParent).entries.length ≤ fuel
        omega
      · exact inv.remove

end TreeInv

/-! ## The branch of a fork header is found -/

section Tree

variable {clock : ℕ → Prop} {c₀ : HeaderChain} {base : ChainEntry} {T : List Header}
variable {c : HeaderChain} {es : List ChainEntry} {e : ChainEntry} {header : Header}
  {s : BatchState} {raw : Bytes} {parentScore f : ℕ} {assemble : ModifierStore → Option ForkBranch}
  {batches : List (ℕ × List ModifierBatchItem)}

/-- From a known header of the tree, the walk through the store finds the part of its branch off the
chain. -/
theorem walkForkBranch_of_known (tree : HeaderTree rules clock c₀ base T)
    (hfree : CollisionFree rules) (hchain : IsBranch rules.toHeaderRules base T c.entries)
    (hadd : ScoresAdd rules c store) {fuel : ℕ} (hes : IsBranch rules.toHeaderRules base T es)
    (he : es.getLast? = some e) (hfuel : (es.filter (fun x => x ∉ c.entries)).length < fuel)
    {score : ℕ} (hknown : Known c store e.header.id score) {branch : List RawHeader}
    {first : RawHeader} (hfirst : branch.getLast? = some first)
    (hheight : first.1.height = e.header.height + 1) {acc : List ChainEntry}
    (hacc : acc.map (·.header) = branch.reverse.map Prod.fst)
    (hfollows : (e :: acc).IsChain (ChainEntry.Follows rules.toHeaderRules))
    (hmem : ∀ x ∈ acc, x.header ∈ T) :
    ∃ f b fork above, walkForkBranch rules c store fuel e.header.id branch = some (f, b) ∧
      c.entryAt f = some fork ∧ above.map (·.header) = b.map Prod.fst ∧
      (fork :: above).IsChain (ChainEntry.Follows rules.toHeaderRules) ∧
      ∀ x ∈ above, x.header ∈ T := by
  have hlinked : c.Linked rules.toHeaderRules := hchain.isChain
  induction fuel generalizing es e score branch first acc with
  | zero => omega
  | succ fuel ih =>
    have heT : e.header ∈ T := hes.mem e (mem_of_getLast? he)
    unfold walkForkBranch
    by_cases hon : c.contains e.header.id = true
    · -- the chain has it, with the same entry
      obtain ⟨y, hy, hid⟩ : ∃ y ∈ c.entries, y.header.id = e.header.id := by
        simpa [HeaderChain.contains] using hon
      have hheader : y.header = e.header :=
        hfree _ _ (tree.parsed _ (hchain.mem y hy)) (tree.parsed _ heT) hid
      have hscore : y.score = e.score :=
        Known.eq_of_isBranch hfree tree.parsed hchain hadd hes he (Or.inl ⟨y, hy, hid, rfl⟩)
      obtain rfl : y = e := ChainEntry.ext hheader hscore
      have hentry : c.entryAt y.header.height = some y := hlinked.entryAt_eq_some_iff.2 ⟨hy, rfl⟩
      have hf : first.1.height - 1 = y.header.height := by omega
      refine ⟨y.header.height, branch.reverse, y, acc, ?_, hentry, hacc, hfollows, hmem⟩
      simp [hon, hfirst, hf, headerAt, hentry]
    · -- it is stored: go on to its parent
      have hoff : c.contains e.header.id = false := by simpa using hon
      have hstored : storedScore store e.header.id = some score := by
        refine hknown.resolve_left ?_
        rintro ⟨y, hy, hid, -⟩
        exact contains_eq_false_iff.1 hoff y hy hid
      obtain ⟨raw, hraw⟩ := isSome_iff_exists.1 (hadd.hasBytes _ _ hstored)
      obtain ⟨header, hparse, hid⟩ := hadd.bytes _ _ hraw
      have hheader : header = e.header := hfree _ _ ⟨_, hparse⟩ (tree.parsed _ heT) hid
      rw [hheader] at hparse
      have hnot : e ∉ c.entries := fun hc => contains_eq_false_iff.1 hoff e hc rfl
      rcases hes.eq_singleton_or_concat with rfl | ⟨init, last, x, rfl, hinit, hlast, hlf⟩
      · obtain rfl : base = e := by simpa using he
        exact absurd hchain.base_mem hnot
      obtain rfl : x = e := by simpa using he
      obtain ⟨parentScore, hparent, -⟩ :=
        hadd.parent x.header score (tree.parsed _ heT) hstored hoff
      have hfuel' : (init.filter (fun x => x ∉ c.entries)).length < fuel := by
        rw [filter_append, length_append] at hfuel
        simp only [filter_cons, hnot, not_false_eq_true, decide_true, if_true,
          filter_nil, length_singleton] at hfuel
        omega
      have hfirst' : (branch ++ [(x.header, raw)]).getLast? = some (x.header, raw) := by simp
      have hacc' : (x :: acc).map (·.header) = (branch ++ [(x.header, raw)]).reverse.map Prod.fst := by
        simp [hacc]
      obtain ⟨f, b, fork, above, hwalk, hrest⟩ := ih hinit hlast hfuel'
        (hlf.parentId_eq ▸ hparent) hfirst' hlf.height_eq hacc'
        (isChain_cons_cons.2 ⟨hlf, hfollows⟩)
        (fun y hy => (mem_cons.1 hy).elim (fun h => h ▸ heT) (hmem y))
      refine ⟨f, b, fork, above, ?_, hrest⟩
      simp only [hoff, Bool.false_eq_true, if_false, hraw, hparse]
      rwa [hlf.parentId_eq]

lemma ne_base_of_contains (hchain : IsBranch rules.toHeaderRules base T c.entries)
    (hnew : c.contains header.id = false) : header ≠ base.header := by
  rintro rfl
  exact contains_eq_false_iff.1 hnew base hchain.base_mem rfl

lemma ForksFrom.assembles (tree : HeaderTree rules clock c₀ base T) (hfree : CollisionFree rules)
    (inv : TreeInv rules base T none s) (hmem : header ∈ T)
    (hnew : s.chain.contains header.id = false)
    (h : ForksFrom rules now s header raw parentScore assemble)
    (hadd₀ : ScoresAdd rules s.chain s.store) (hadd : ScoresAdd rules s.chain store)
    (hkeeps : KeepsScores s.store store) :
    ∃ f b fork above, assemble store = some (f, b) ∧ s.chain.entryAt f = some fork ∧
      above.map (·.header) = b.map Prod.fst ∧
      (fork :: above).IsChain (ChainEntry.Follows rules.toHeaderRules) ∧
      ∀ x ∈ above, x.header ∈ T := by
  have hlinked : s.chain.Linked rules.toHeaderRules := inv.branch.isChain
  cases h with
  | @chain forkHeight happend =>
    obtain ⟨-, hheight, hnext⟩ := tryAppend_forked happend
    obtain ⟨e, hfind, rfl⟩ := map_eq_some_iff.1 hheight
    have hid : e.header.id = header.parentId := by simpa using find?_some hfind
    refine ⟨_, _, e, [⟨header, e.score + rules.headerDifficulty header⟩], rfl,
      hlinked.entryAt_eq_some_iff.2 ⟨mem_of_find?_eq_some hfind, rfl⟩, rfl, ?_, ?_⟩
    · exact isChain_pair.2 ⟨hid.symm, hnext, rfl⟩
    · simpa using hmem
  | store hne hmissing hscore =>
    -- the parent is a header of the tree, with a branch of its own
    obtain ⟨data, hdata⟩ := isSome_iff_exists.1 (hadd₀.hasBytes _ _ hscore)
    obtain ⟨parent, hparse, hid⟩ := hadd₀.bytes _ _ hdata
    have hparentT : parent ∈ T := inv.stored parent parentScore ⟨_, hparse⟩ (hid ▸ hscore)
    obtain ⟨es, e, hes, he, rfl⟩ := tree.rooted parent hparentT
    have hfollows := tree.follows hfree hmem (ne_base_of_contains inv.branch hnew) hes he hid.symm
    have hdepth := tree.depth _ _ (hes.concat he hfollows hmem) inv.branch
    have hoff : (⟨header, e.score + rules.headerDifficulty header⟩ : ChainEntry) ∉
        s.chain.entries := fun hc => contains_eq_false_iff.1 hnew _ hc rfl
    have hfuel : (es.filter (fun x => x ∉ s.chain.entries)).length < 1000 := by
      rw [filter_append, length_append] at hdepth
      simp only [filter_cons, hoff, not_false_eq_true, decide_true, if_true, filter_nil,
        length_singleton] at hdepth
      omega
    have hknown : Known s.chain store e.header.id parentScore :=
      Or.inr (hkeeps _ _ (hid ▸ hscore))
    have hfirst : [(header, raw)].getLast? = some (header, raw) := rfl
    have hacc : [(⟨header, e.score + rules.headerDifficulty header⟩ : ChainEntry)].map (·.header) =
        [(header, raw)].reverse.map Prod.fst := rfl
    have hwalk := walkForkBranch_of_known tree hfree inv.branch hadd hes he hfuel hknown hfirst
      hfollows.height_eq hacc (isChain_pair.2 hfollows) (by simpa using hmem)
    rwa [hid] at hwalk

lemma recordedScore_storeFork (h : ForksFrom rules now s header raw parentScore assemble)
    (hparsed : IsParsed rules (header, raw)) (hnone : s.pendingReorg = none)
    (hbeats : s.chain.cumulativeScore < parentScore + rules.headerDifficulty header)
    {b : List RawHeader}
    (hb : assemble (s.store.putHeader header.id header.height (nextForkNum s.store header.height)
      (some (parentScore + rules.headerDifficulty header)) raw) = some (f, b)) :
    recordedScore (storeFork rules s header raw parentScore assemble) =
      some (parentScore + rules.headerDifficulty header) := by
  have hself := (writesHeader_storeFork rules s header raw parentScore assemble).storedScore_self
  simp only [storeFork] at hself
  simp only [recordedScore, storeFork, hnone, hbeats, and_self, if_true, hb, bind_some,
    (h.branch hparsed hb).1, hself]

/-- Storing a fork header keeps the invariant, if it does not beat a recorded score and has no
buffered child. -/
theorem TreeInv.storeFork (tree : HeaderTree rules clock c₀ base T) (hfree : CollisionFree rules)
    (hloop : LoopInv rules c s) (sinv : ScoreInv rules c s) (inv : TreeInv rules base T none s)
    (hmem : header ∈ T) (hparsed : IsParsed rules (header, raw))
    (hnew : s.chain.contains header.id = false)
    (h : ForksFrom rules now s header raw parentScore assemble)
    (hbound : ∀ r ∈ recordedScore s, parentScore + rules.headerDifficulty header ≤ r)
    (hchild : ∀ e ∈ s.buffer.entries, e.1 ≠ header.id) :
    TreeInv rules base T none (storeFork rules s header raw parentScore assemble) := by
  obtain ⟨sinv', hkeeps⟩ := sinv.storeFork hfree hloop h hnew hparsed
  have hw : WritesHeader s.store header.id (parentScore + rules.headerDifficulty header) raw
      (ErgoNode.storeFork rules s header raw parentScore assemble).store :=
    writesHeader_storeFork ..
  -- what is known now was known before, or is this header
  have hknown : ∀ id sc, Known s.chain (ErgoNode.storeFork rules s header raw parentScore
      assemble).store id sc → Known s.chain s.store id sc ∨
        id = header.id ∧ sc = parentScore + rules.headerDifficulty header := by
    rintro id sc (hon | hs)
    · exact Or.inl (Or.inl hon)
    · rw [hw.score_eq] at hs
      split at hs
      next hid =>
        exact Or.inr ⟨hid.symm, (some.inj hs).symm⟩
      · exact Or.inl (Or.inr hs)
  obtain ⟨f, b, fork, above, hassemble, hfork⟩ :=
    h.assembles tree hfree inv hmem hnew sinv.add sinv'.add hkeeps
  refine ⟨inv.branch, ?_, inv.buffered, ?_, ?_, ?_⟩
  · intro hd sc hparsedh hs
    rcases hknown _ _ (Or.inr hs) with (⟨e, he, hid, -⟩ | hs) | ⟨hid, -⟩
    · rw [← hfree _ _ (tree.parsed _ (inv.branch.mem e he)) hparsedh hid]
      exact inv.branch.mem e he
    · exact inv.stored hd sc hparsedh hs
    · rwa [hfree _ _ hparsedh hparsed.parsed hid]
  · intro k x hx sc hk
    rcases hknown k sc hk with hk | ⟨rfl, -⟩
    · exact inv.orphaned k x hx sc hk
    · exact absurd rfl (hchild _ hx)
  · -- a score above the chain is recorded, unless a reorg with no smaller one already is
    intro id sc hk
    cases hpending : s.pendingReorg with
    | none =>
      have hrecorded : recordedScore s = none := by simp [recordedScore, hpending]
      by_cases hbeats : s.chain.cumulativeScore < parentScore + rules.headerDifficulty header
      · rcases hknown id sc hk with hk | ⟨-, rfl⟩
        · refine Or.inl ((inv.max id sc hk).resolve_right ?_)
          simp [hrecorded]
        · exact Or.inr ⟨_, recordedScore_storeFork h hparsed hpending hbeats hassemble,
            Nat.le_refl _⟩
      · refine Or.inl ?_
        rcases hknown id sc hk with hk | ⟨-, rfl⟩
        · refine (inv.max id sc hk).resolve_right ?_
          simp [hrecorded]
        · exact Nat.le_of_not_lt hbeats
    | some b =>
      obtain ⟨r, hr⟩ := sinv.exists_recordedScore hpending
      have hgrows : Grows s (ErgoNode.storeFork rules s header raw parentScore assemble) :=
        ⟨hkeeps, fun hne => by simp [ErgoNode.storeFork, hne], [], by simp [ErgoNode.storeFork]⟩
      rcases hknown id sc hk with hk | ⟨-, rfl⟩
      · refine (inv.max id sc hk).imp_right ?_
        rintro ⟨r', hr', hle⟩
        exact ⟨r', hgrows.recordedScore hr', hle⟩
      · exact Or.inr ⟨r, hgrows.recordedScore hr, hbound r hr⟩
  · intro f' branch hpending
    simp only [ErgoNode.storeFork] at hpending
    split at hpending
    · obtain ⟨rfl, rfl⟩ := Prod.mk.inj (some.inj (hassemble.symm.trans hpending))
      exact ⟨fork, above, hfork⟩
    · exact inv.pending f' branch hpending

/-! ## One header -/

lemma TreeInv.processHeader (tree : HeaderTree rules clock c₀ base T)
    (hfree : CollisionFree rules) (hloop : LoopInv rules c s)
    (sinv : ScoreInv rules c s) (inv : TreeInv rules base T none s) {x : RawHeader}
    (hmem : x.1 ∈ T) (hparsed : IsParsed rules x) (hcond : StepSettles rules now s x) :
    TreeInv rules base T none (processHeader rules now s x) := by
  obtain ⟨header, raw⟩ := x
  refine processHeader_cases
    (P := fun s' => ErgoNode.processHeader rules now s (header, raw) = s' →
      TreeInv rules base T none s') (fun _ => inv) ?_ ?_ ?_ rfl
  · intro chain happend _
    exact (inv.chainHeader hloop.linked hmem happend).drainBuffer
      (hloop.chainHeader hparsed happend) (Nat.le_refl _)
  · intro requests parentScore assemble hnew hforks heq
    have hloop' : LoopInv rules c { s with reorgRequested := requests } :=
      { hloop with }
    have sinv' : ScoreInv rules c { s with reorgRequested := requests } :=
      { sinv with }
    have inv' : TreeInv rules base T none { s with reorgRequested := requests } :=
      { inv with }
    refine inv'.storeFork tree hfree hloop' sinv' hmem hparsed hnew (hforks.frame requests) ?_
      (hcond.no_child (hforks.storesFork hnew))
    intro r hr
    refine hcond.stored_le r hr _ ?_
    rw [heq]
    exact (writesHeader_storeFork rules _ header raw parentScore assemble).storedScore_self
  · -- the parent of a buffered header is neither on the chain nor stored
    intro requests control hunknown _
    obtain ⟨hmissing, hscore⟩ := hunknown.resolve_left inv.branch.ne_nil
    refine ⟨inv.branch, inv.stored, ?_, ?_, inv.max, inv.pending⟩
    · intro k x hx
      rcases mem_push hx with heq | hx
      · rwa [(Prod.mk.inj heq).2]
      · exact inv.buffered k x hx
    · intro k x hx sc hk
      rcases mem_push hx with heq | hx
      · cases heq
        rcases hk with ⟨e, he, hid, -⟩ | hs
        · exact absurd hid (heightOf_eq_none_iff.1 hmissing e he)
        · exact absurd (hscore.symm.trans hs) (by simp)
      · exact inv.orphaned k x hx sc hk

lemma cumulativeScore_le_recordedScore {x : RawHeader}
    (hfree : CollisionFree rules) (hloop : LoopInv rules c s) (sinv : ScoreInv rules c s)
    (hparsed : IsParsed rules x) (hcond : StepSettles rules now s x) :
    ∀ r ∈ recordedScore (processHeader rules now s x),
      (processHeader rules now s x).chain.cumulativeScore ≤ r := by
  obtain ⟨hgrows, hleads⟩ :
      Grows s (processHeader rules now s x) ∧ (s.pendingReorg = none → Leads _) :=
    grows_processHeader hfree hloop sinv hparsed
  intro r hr
  cases hpending : s.pendingReorg with
  | none => exact Nat.le_of_lt (hleads hpending r hr)
  | some b =>
    obtain ⟨old, hold⟩ := sinv.exists_recordedScore hpending
    rw [hgrows.recordedScore hold, mem_def, some_inj] at hr
    exact hr ▸ hcond.chain_le old hold

lemma known_processHeader (tree : HeaderTree rules clock c₀ base T) (hfree : CollisionFree rules)
    (hclock : clock now) (hloop : LoopInv rules c s) (inv : TreeInv rules base T none s)
    (hconfig : s.chain = { c₀ with entries := s.chain.entries }) (hmem : header ∈ T)
    (hparsed : IsParsed rules (header, raw))
    (hparent : Known s.chain s.store header.parentId parentScore) :
    ∃ score, Known (processHeader rules now s (header, raw)).chain
      (processHeader rules now s (header, raw)).store header.id score := by
  unfold processHeader
  by_cases hon : s.chain.contains header.id = true
  · obtain ⟨e, he, hid⟩ : ∃ e ∈ s.chain.entries, e.header.id = header.id := by
      simpa [HeaderChain.contains] using hon
    simp only [hon, if_true]
    exact ⟨e.score, Or.inl ⟨e, he, hid, rfl⟩⟩
  have hnew : s.chain.contains header.id = false := by simpa using hon
  have hnb := ne_base_of_contains inv.branch hnew
  obtain ⟨last, hlast⟩ := inv.branch.exists_last
  have htip : s.chain.tip? = some last.header := by simp [tip?, hlast]
  simp only [hnew, Bool.false_eq_true, if_false]
  by_cases hext : header.parentId = last.header.id
  · -- on top of the tip: valid, so it extends the chain
    have hfollows := tree.follows hfree hmem hnb inv.branch hlast hext
    have hvalid := (tree.valid now hclock _ _ _ inv.branch hlast hmem hext hfollows.height_eq).1
    rw [← hconfig] at hvalid
    have happend : s.chain.tryAppend rules.toHeaderRules now header =
        (.ok .extended, s.chain.pushHeader rules.toHeaderRules header) := by
      simp [tryAppend, htip, hext, hvalid]
    obtain ⟨-, -, score, hchain⟩ := exists_entries_of_tryAppend hloop.linked happend
    rw [happend]
    refine ⟨score, (grows_drainBuffer (hloop.chainHeader hparsed happend) _ _).1.known
      (Or.inl ⟨⟨header, score⟩, ?_, rfl, rfl⟩)⟩
    change _ ∈ (s.chain.pushHeader rules.toHeaderRules header).entries
    rw [hchain]
    simp
  · cases hheight : s.chain.heightOf header.parentId with
    | some parentHeight =>
      -- below the tip: its height fits, so it is stored as a fork
      obtain ⟨y, hfind, rfl⟩ := map_eq_some_iff.1 hheight
      have hid : y.header.id = header.parentId := by simpa using find?_some hfind
      obtain ⟨init, e, hinit, he, hfollows⟩ := tree.exists_parent hmem hnb
      have hye : y.header = e.header :=
        hfree _ _ (tree.parsed _ (inv.branch.mem y (mem_of_find?_eq_some hfind)))
          (tree.parsed _ (hinit.mem e (mem_of_getLast? he)))
          (hid.trans hfollows.parentId_eq)
      have hnext : header.height = y.header.height + 1 := hye ▸ hfollows.height_eq
      have happend : s.chain.tryAppend rules.toHeaderRules now header =
          (.ok (.forked y.header.height), s.chain) := by
        simp [tryAppend, htip, hext, hheight, hnext]
      rw [happend]
      exact ⟨_, Or.inr (writesHeader_storeFork rules _ header raw _ _).storedScore_self⟩
    | none =>
      -- off the chain: the parent is stored
      have hstored : storedScore s.store header.parentId = some parentScore := by
        refine hparent.resolve_left ?_
        rintro ⟨e, he, hid, -⟩
        exact heightOf_eq_none_iff.1 hheight e he hid
      rw [tryAppend_of_heightOf_eq_none inv.branch.ne_nil hheight]
      simp only [hstored]
      exact ⟨_, Or.inr (writesHeader_storeFork rules _ header raw _ _).storedScore_self⟩

/-! ## The end of a batch -/

lemma appendBranch_of_isBranch (tree : HeaderTree rules clock c₀ base T) (hclock : clock now)
    {i : ℕ} (hconfig : c = { c₀ with entries := c.entries })
    (hbranch : IsBranch rules.toHeaderRules base T c.entries)
    (he : c.entries.getLast? = some e) (hheight : e.header.height = f + i)
    (hes : (e :: es).IsChain (ChainEntry.Follows rules.toHeaderRules))
    (hmem : ∀ x ∈ es, x.header ∈ T) :
    (c.appendBranch rules.toHeaderRules now f i (es.map (·.header))).1 = none := by
  induction es generalizing c e i with
  | nil => rfl
  | cons x es ih =>
    obtain ⟨hfollows, hrest⟩ := isChain_cons_cons.1 hes
    have hx : x.header ∈ T := hmem x mem_cons_self
    have htip : c.tip? = some e.header := by simp [tip?, he]
    have hvalid := (tree.valid now hclock _ _ _ hbranch he hx hfollows.parentId_eq
      hfollows.height_eq).2
    rw [← hconfig] at hvalid
    have hnext : x.header.height = f + 1 + i := by rw [hfollows.height_eq, hheight]; omega
    have hpush : (c.pushHeader rules.toHeaderRules x.header).entries = c.entries ++ [x] := by
      have hlinked : c.Linked rules.toHeaderRules := hbranch.isChain
      rw [hlinked.entries_pushHeader ⟨htip, hfollows.parentId_eq, hfollows.height_eq⟩ he,
        ← hfollows.score_eq]
    simp only [map_cons, appendBranch, htip, hfollows.parentId_eq, ne_eq,
      not_true_eq_false, and_false, if_false, hnext, hvalid]
    refine ih ?_ (hpush ▸ hbranch.concat he hfollows hx) (by simp [hpush]) ?_ hrest
      (forall_mem_cons.1 hmem).2
    · rw [hconfig]
      rfl
    · omega

lemma tryReorgDeep_of_isBranch (tree : HeaderTree rules clock c₀ base T) (hclock : clock now)
    (hconfig : c = { c₀ with entries := c.entries })
    (hbranch : IsBranch rules.toHeaderRules base T c.entries) (he : c.entryAt f = some e)
    (hne : es ≠ []) (hes : (e :: es).IsChain (ChainEntry.Follows rules.toHeaderRules))
    (hmem : ∀ x ∈ es, x.header ∈ T) :
    ∃ ids, (c.tryReorgDeep rules.toHeaderRules now f (es.map (·.header))).1 = .ok ids := by
  have hlinked : c.Linked rules.toHeaderRules := hbranch.isChain
  obtain ⟨hmemE, hheight⟩ := hlinked.entryAt_eq_some_iff.1 he
  have hb : c.baseHeight = some base.header.height := by
    simp [baseHeight, hbranch.head]
  have hrange := (hlinked.isSome_entryAt_iff hb).1 (by rw [he]; rfl)
  have hlast := hlinked.getLast_truncate he
  have htrunc : IsBranch rules.toHeaderRules base T (c.truncate f).entries := by
    refine ⟨?_, (hlinked.truncate f), fun x hx => hbranch.mem x (mem_of_mem_filter hx)⟩
    have hne' : (c.truncate f).entries ≠ [] := fun hnil => by simp [hnil] at hlast
    rw [← hbranch.head, ← hlinked.truncate_append_entriesAbove f, head?_append_of_ne_nil _ hne']
  have happend := appendBranch_of_isBranch tree hclock (f := f) (i := 0) (c := c.truncate f)
    (by rw [hconfig]; rfl) htrunc hlast (by rw [hheight, Nat.add_zero]) hes hmem
  cases es with
  | nil => exact absurd rfl hne
  | cons x es =>
    have hfollows := (isChain_cons_cons.1 hes).1
    have hfloor : ¬f < c.reorgFloor := by
      simp only [reorgFloor, hb, getD_some]
      omega
    simp only [map_cons, tryReorgDeep, hbranch.ne_nil, if_false, hfloor,
      Nat.not_lt.2 hrange.2, headerAt, he, map_some, hfollows.parentId_eq,
      ne_eq, not_true_eq_false]
    rw [map_cons] at happend
    split
    · exact ⟨_, rfl⟩
    next err c' heq =>
      rw [heq] at happend
      simp at happend

/-- The end of the loop leaves the chain a branch of the tree with the greatest known score. -/
theorem TreeInv.executeReorg (tree : HeaderTree rules clock c₀ base T) (hclock : clock now)
    (hloop : LoopInv rules c s) (sinv : ScoreInv rules c s)
    (inv : TreeInv rules base T none s) (hconfig : s.chain = { c₀ with entries := s.chain.entries })
    (hlead : ∀ r ∈ recordedScore s, s.chain.cumulativeScore ≤ r) :
    ((executeReorg rules now s).1.chain =
        { c₀ with entries := (executeReorg rules now s).1.chain.entries }) ∧
      IsBranch rules.toHeaderRules base T (executeReorg rules now s).1.chain.entries ∧
      (∀ id score, Known s.chain s.store id score →
        score ≤ (executeReorg rules now s).1.chain.cumulativeScore) ∧
      (executeReorg rules now s).1.buffer = s.buffer := by
  have hout := executeReorg_outcome now hloop
  generalize ErgoNode.executeReorg rules now s = out at hout
  cases hout with
  | kept hrefused =>
    refine ⟨hconfig, inv.branch, ?_, rfl⟩
    -- a recorded branch would have been accepted
    have hnone : s.pendingReorg = none := by
      by_contra hsome
      obtain ⟨⟨f, branch⟩, hpending⟩ := ne_none_iff_exists'.1 hsome
      obtain ⟨e, es, he, hheaders, hes, hmem⟩ := inv.pending f branch hpending
      have hne : es ≠ [] := by
        rintro rfl
        exact (sinv.pending f branch hpending).1 (by simpa using hheaders.symm)
      obtain ⟨ids, hok⟩ := tryReorgDeep_of_isBranch tree hclock hconfig inv.branch he hne hes hmem
      obtain ⟨err, herr⟩ := hrefused f branch hpending
      rw [← hheaders, hok] at herr
      simp at herr
    intro id score hk
    refine (inv.max id score hk).resolve_right ?_
    simp [recordedScore, hnone]
  | @switched f branch ids chain es hpending hreorg hheaders hswitch hrows control =>
    have hscore := cumulativeScore_of_switched hloop sinv hpending hheaders hswitch
    obtain ⟨e, es', he, hheaders', -, hmem⟩ := inv.pending f branch hpending
    refine ⟨?_, ⟨?_, hswitch.linked, ?_⟩, ?_, rfl⟩
    · dsimp only
      rw [hswitch.chain_eq, hconfig]
    · have hlast := hloop.linked.getLast_truncate he
      have hne : (s.chain.truncate f).entries ≠ [] := fun hnil => by simp [hnil] at hlast
      change chain.entries.head? = _
      rw [hswitch.chain_eq, head?_append_of_ne_nil _ hne, ← inv.branch.head,
        ← hloop.linked.truncate_append_entriesAbove f, head?_append_of_ne_nil _ hne]
    · intro x hx
      dsimp only at hx
      rw [hswitch.chain_eq] at hx
      rcases mem_append.1 hx with hx | hx
      · exact inv.branch.mem x (mem_of_mem_filter hx)
      · have hx' : x.header ∈ es'.map (·.header) := by
          rw [hheaders', ← hheaders]
          exact mem_map_of_mem hx
        obtain ⟨y, hy, hyx⟩ := mem_map.1 hx'
        exact hyx ▸ hmem y hy
    · intro id score hk
      rcases inv.max id score hk with hle | ⟨r, hr, hle⟩
      · exact Nat.le_trans hle (hlead _ hscore)
      · rw [hscore, mem_def, some_inj] at hr
        exact hr ▸ hle

/-- Between two batches the chain is the heaviest known branch, and no buffered header has a known
parent. -/
structure TreeState (rules : PipelineRules) (c₀ : HeaderChain) (base : ChainEntry)
    (T : List Header) (p : ValidationPipeline) : Prop where
  config : p.chain = { c₀ with entries := p.chain.entries }
  branch : IsBranch rules.toHeaderRules base T p.chain.entries
  stored : ∀ h score, Parsed rules h → storedScore p.store h.id = some score → h ∈ T
  buffered : ∀ k x, (k, x) ∈ p.buffer.entries → x.1 ∈ T
  orphaned : ∀ k x, (k, x) ∈ p.buffer.entries → ∀ score, ¬Known p.chain p.store k score
  max : ∀ id score, Known p.chain p.store id score → score ≤ p.chain.cumulativeScore

namespace TreeState

variable {p : ValidationPipeline}

lemma treeInv_startBatch (h : TreeState rules c₀ base T p) :
    TreeInv rules base T none (startBatch p) where
  __ := h
  orphaned k x hx score hk := absurd hk (h.orphaned k x hx score)
  max id score hk := Or.inl (h.max id score hk)
  pending := by simp [startBatch]

lemma treeInv_foldl (tree : HeaderTree rules clock c₀ base T) (hfree : CollisionFree rules)
    {c : HeaderChain} {s : BatchState} (hloop : LoopInv rules c s)
    (sinv : ScoreInv rules c s) (inv : TreeInv rules base T none s)
    (hlead : ∀ r ∈ recordedScore s, s.chain.cumulativeScore ≤ r) (hmem : ∀ x ∈ xs, x.1 ∈ T)
    (hparsed : ∀ x ∈ xs, IsParsed rules x) (hcond : LoopSettles rules now s xs) :
    TreeInv rules base T none (xs.foldl (processHeader rules now) s) ∧
      ∀ r ∈ recordedScore (xs.foldl (processHeader rules now) s),
        (xs.foldl (processHeader rules now) s).chain.cumulativeScore ≤ r := by
  induction xs generalizing s with
  | nil => exact ⟨inv, hlead⟩
  | cons x xs ih =>
    obtain ⟨hstep, hrest⟩ := hcond
    have hx := hparsed x mem_cons_self
    exact ih (hloop.processHeader hx) (sinv.processHeader hfree hloop hx)
      (inv.processHeader tree hfree hloop sinv (hmem x mem_cons_self) hx hstep)
      (cumulativeScore_le_recordedScore hfree hloop sinv hx hstep)
      (forall_mem_cons.1 hmem).2
      (forall_mem_cons.1 hparsed).2 hrest

lemma known_finishBatch_iff (now : ℕ) (hfree : CollisionFree rules) {s : BatchState}
    (hloop : LoopInv rules p.chain s) (sinv : ScoreInv rules p.chain s) (id : BlockId) (score : ℕ) :
    Known (finishBatch rules now p s).chain (finishBatch rules now p s).store id score ↔
      Known s.chain s.store id score := by
  obtain ⟨hscores, hstored⟩ := ScoresConsistent.finishBatch now hfree hloop sinv
  rw [← hstored]
  constructor
  · rintro (⟨e, he, rfl, rfl⟩ | hs)
    · exact hscores.persisted e he
    · exact hs
  · exact Or.inr

lemma processBatch (tree : HeaderTree rules clock c₀ base T) (hfree : CollisionFree rules)
    (hclock : clock now) (h : TreeState rules c₀ base T p) (hwf : p.WellFormed rules)
    (hscores : ScoresConsistent rules p) {batch : List ModifierBatchItem}
    (hmem : ∀ x ∈ batchHeaders rules batch, x.1 ∈ T)
    (hcond : LoopSettles rules now (startBatch p) (batchHeaders rules batch)) :
    TreeState rules c₀ base T (processBatch rules now p batch) ∧
      ∀ id score, Known (loopEnd rules now p batch).chain (loopEnd rules now p batch).store id score →
        Known (ErgoNode.processBatch rules now p batch).chain
          (ErgoNode.processBatch rules now p batch).store id score := by
  obtain ⟨hchain, hbuffer, hsame⟩ := processBatch_eq rules now p batch
  -- sections change neither scores nor the chain
  have hknown : ∀ id score, Known (ErgoNode.processBatch rules now p batch).chain
      (ErgoNode.processBatch rules now p batch).store id score ↔
      Known (afterHeaders rules now p batch).chain (afterHeaders rules now p batch).store
        id score := by
    intro id score
    rw [Known, Known, hchain, hsame.storedScore_eq]
  suffices hafter : TreeState rules c₀ base T (afterHeaders rules now p batch) ∧
      ∀ id score, Known (loopEnd rules now p batch).chain (loopEnd rules now p batch).store
          id score →
        Known (afterHeaders rules now p batch).chain (afterHeaders rules now p batch).store
          id score by
    obtain ⟨hstate, hkeep⟩ := hafter
    refine ⟨⟨?_, ?_, ?_, ?_, ?_, ?_⟩, fun id score hk => (hknown id score).2 (hkeep id score hk)⟩
    · rw [hchain]
      exact hstate.config
    · rw [hchain]
      exact hstate.branch
    · exact fun hd score hparsed hs => hstate.stored hd score hparsed (hsame.storedScore_eq _ ▸ hs)
    · rw [hbuffer]
      exact hstate.buffered
    · rw [hbuffer]
      exact fun k x hx score hk => hstate.orphaned k x hx score ((hknown k score).1 hk)
    · rw [hchain]
      exact fun id score hk => hstate.max id score ((hknown id score).1 (hchain ▸ hk))
  unfold afterHeaders
  split
  next hnil =>
    refine ⟨h, fun id score hk => ?_⟩
    rwa [loopEnd, hnil] at hk
  have hparsed : ∀ x ∈ batchHeaders rules batch, IsParsed rules x :=
    fun _ hx => isParsed_of_mem_batchHeaders hx
  have hloop : LoopInv rules p.chain (loopEnd rules now p batch) := hwf.loopInv_loopEnd batch
  have sinv : ScoreInv rules p.chain (loopEnd rules now p batch) :=
    hscores.scoreInv_loopEnd hfree hwf batch
  obtain ⟨inv, hlead⟩ : TreeInv rules base T none (loopEnd rules now p batch) ∧ _ :=
    treeInv_foldl tree hfree hwf.loopInv_startBatch hscores.scoreInv_startBatch
      h.treeInv_startBatch (by simp [recordedScore, startBatch]) hmem hparsed hcond
  have hconfig : (loopEnd rules now p batch).chain =
      { c₀ with entries := (loopEnd rules now p batch).chain.entries } := by
    rw [TreeInv.chain_eq hloop, h.config]
  obtain ⟨hconfig', hbranch, hmax, hbuf⟩ :=
    inv.executeReorg tree hclock hloop sinv hconfig hlead
  have hiff := known_finishBatch_iff now hfree hloop sinv
  have hbuffered : ∀ e, e ∈ (finishBatch rules now p (loopEnd rules now p batch)).buffer.entries →
      e ∈ (loopEnd rules now p batch).buffer.entries := by
    intro e he
    rw [← hbuf]
    exact (mem_filterEntries.1 he).1
  refine ⟨⟨hconfig', hbranch, ?_, ?_, ?_, ?_⟩, fun id score => (hiff id score).2⟩
  · intro hd score hparsedh hs
    rcases (hiff _ _).1 (Or.inr hs) with ⟨e, he, hid, -⟩ | hs
    · rw [← hfree _ _ (tree.parsed _ (inv.branch.mem e he)) hparsedh hid]
      exact inv.branch.mem e he
    · exact inv.stored hd score hparsedh hs
  · exact fun k x hx => inv.buffered k x (hbuffered _ hx)
  · intro k x hx score hk
    exact absurd (inv.orphaned k x (hbuffered _ hx) score ((hiff k score).1 hk)) (by simp)
  · exact fun id score hk => hmax id score ((hiff id score).1 hk)

end TreeState

/-! ## Runs -/

lemma known_of_deliveredInLoop (tree : HeaderTree rules clock c₀ base T)
    (hfree : CollisionFree rules) (hclock : clock now)
    (hloop : LoopInv rules c s) (sinv : ScoreInv rules c s)
    (inv : TreeInv rules base T none s) (hconfig : c = { c₀ with entries := c.entries })
    (hmem : ∀ x ∈ xs, x.1 ∈ T) (hparsed : ∀ x ∈ xs, IsParsed rules x)
    (hcond : LoopSettles rules now s xs) {h : Header} (hdel : DeliveredInLoop rules now h s xs) :
    ∃ score, Known (xs.foldl (processHeader rules now) s).chain
      (xs.foldl (processHeader rules now) s).store h.id score := by
  induction xs generalizing s with
  | nil => exact absurd hdel not_false
  | cons x xs ih =>
    obtain ⟨hstep, hrest⟩ := hcond
    have hx := hparsed x mem_cons_self
    have hxT := hmem x mem_cons_self
    have hxs : ∀ y ∈ xs, IsParsed rules y := fun y hy => hparsed y (mem_cons_of_mem _ hy)
    have hloop' : LoopInv rules c (processHeader rules now s x) := hloop.processHeader hx
    have sinv' : ScoreInv rules c (processHeader rules now s x) :=
      sinv.processHeader hfree hloop hx
    rw [foldl_cons]
    rcases hdel with ⟨rfl, parentScore, hparent⟩ | hdel
    · have hconfig' : s.chain = { c₀ with entries := s.chain.entries } := by
        rw [TreeInv.chain_eq hloop, hconfig]
      obtain ⟨score, hk⟩ :=
        known_processHeader tree hfree hclock hloop inv hconfig' hxT hx hparent
      exact ⟨score, (grows_foldl hfree hloop' sinv' hxs).known hk⟩
    · exact ih hloop' sinv' (inv.processHeader tree hfree hloop sinv hxT hx hstep)
        (forall_mem_cons.1 hmem).2 hxs hrest hdel

/-- A run that settles ends in a tree state that knows all that was known or delivered to a known
parent. -/
theorem TreeState.runBatches (tree : HeaderTree rules clock c₀ base T) (hfree : CollisionFree rules)
    {p : ValidationPipeline} (h : TreeState rules c₀ base T p) (hwf : p.WellFormed rules)
    (hscores : ScoresConsistent rules p) (hclock : ∀ b ∈ batches, clock b.1)
    (hmem : ∀ b ∈ batches, ∀ x ∈ batchHeaders rules b.2, x.1 ∈ T)
    (hcond : RunSettles rules p batches) :
    TreeState rules c₀ base T (runBatches rules p batches) ∧
      (runBatches rules p batches).WellFormed rules ∧
      ScoresConsistent rules (runBatches rules p batches) ∧
      ∀ hd, (DeliveredInRun rules hd p batches ∨ ∃ score, Known p.chain p.store hd.id score) →
        ∃ score, Known (ErgoNode.runBatches rules p batches).chain
          (ErgoNode.runBatches rules p batches).store hd.id score := by
  induction batches generalizing p with
  | nil => exact ⟨h, hwf, hscores, fun hd hk => hk.resolve_left not_false⟩
  | cons b batches ih =>
    obtain ⟨hbatch, hrest⟩ := hcond
    have hclockb := hclock b mem_cons_self
    have hmemb := hmem b mem_cons_self
    obtain ⟨hstate, hkeep⟩ := h.processBatch tree hfree hclockb hwf hscores hmemb hbatch
    obtain ⟨hend, hwf', hscores', hknown⟩ := ih hstate (hwf.processBatch b.1 b.2)
      (hscores.processBatch hfree hwf b.1 b.2) (fun b' hb' => hclock b' (mem_cons_of_mem _ hb'))
      (fun b' hb' => hmem b' (mem_cons_of_mem _ hb')) hrest
    refine ⟨hend, hwf', hscores', fun hd hk => hknown hd ?_⟩
    rcases hk with (hdel | hdel) | ⟨score, hk⟩
    · obtain ⟨score, hk⟩ := known_of_deliveredInLoop tree hfree hclockb hwf.loopInv_startBatch
        hscores.scoreInv_startBatch h.treeInv_startBatch h.config hmemb
        (fun _ hx => isParsed_of_mem_batchHeaders hx) hbatch hdel
      exact Or.inr ⟨score, hkeep _ _ hk⟩
    · exact Or.inl hdel
    · exact Or.inr ⟨score, hkeep _ _ (known_loopEnd hfree hwf hscores b.2 hk)⟩

lemma known_of_fair (tree : HeaderTree rules clock c₀ base T) (hfree : CollisionFree rules)
    {p : ValidationPipeline} (hstart : TreeState rules c₀ base T p) (hwf : p.WellFormed rules)
    (hscores : ScoresConsistent rules p) (hfair : Fair rules clock T p batches)
    (hcond : RunSettles rules p batches) (hes : IsBranch rules.toHeaderRules base T es)
    (he : es.getLast? = some e) :
    ∃ score, Known (runBatches rules p batches).chain (runBatches rules p batches).store
      e.header.id score := by
  obtain ⟨hend, hwf', -, hknown⟩ :=
    hstart.runBatches tree hfree hwf hscores hfair.clock hfair.delivers hcond
  induction hn : es.length generalizing es e with
  | zero => exact absurd (length_eq_zero_iff.1 hn) hes.ne_nil
  | succ n ih =>
    rcases hes.eq_singleton_or_concat with rfl | ⟨init, last, x, rfl, hinit, hlast, hfollows⟩
    · obtain rfl : base = e := by simpa using he
      exact ⟨base.score, Or.inl ⟨base, hend.branch.base_mem, rfl, rfl⟩⟩
    · obtain rfl : x = e := by simpa using he
      obtain ⟨parentScore, hparent⟩ := ih hinit hlast (by simpa using hn)
      rcases hfair.complete x.header (hes.mem x (by simp)) with hdel | ⟨k, y, hy, hyx⟩ | hk
      · exact hknown _ (Or.inl hdel)
      · -- it cannot wait in the buffer for a parent that is known
        refine absurd ?_ (hend.orphaned k y hy parentScore)
        rwa [(hwf'.buffered k y hy).2, hyx, hfollows.parentId_eq]
      · exact hk

lemma score_le_of_fair (tree : HeaderTree rules clock c₀ base T) (hfree : CollisionFree rules)
    {p : ValidationPipeline} (hstart : TreeState rules c₀ base T p) (hwf : p.WellFormed rules)
    (hscores : ScoresConsistent rules p) (hfair : Fair rules clock T p batches)
    (hcond : RunSettles rules p batches) (hes : IsBranch rules.toHeaderRules base T es)
    (he : es.getLast? = some e) :
    e.score ≤ (runBatches rules p batches).chain.cumulativeScore := by
  obtain ⟨hend, -, hscores', -⟩ :=
    hstart.runBatches tree hfree hwf hscores hfair.clock hfair.delivers hcond
  obtain ⟨score, hk⟩ := known_of_fair tree hfree hstart hwf hscores hfair hcond hes he
  rw [← Known.eq_of_isBranch hfree tree.parsed hend.branch hscores'.add hes he hk]
  exact hend.max _ _ hk

/-- Two fair runs from one state that settle end with one chain: the branch with the greatest score.
-/
theorem runBatches_chain_eq (hfree : CollisionFree rules) {p : ValidationPipeline}
    (tree : HeaderTree rules clock p.chain base T) (hwf : p.WellFormed rules)
    (hscores : ScoresConsistent rules p) (hstart : TreeState rules p.chain base T p)
    (htips : ∀ es es' e e', IsBranch rules.toHeaderRules base T es →
      IsBranch rules.toHeaderRules base T es' → es.getLast? = some e → es'.getLast? = some e' →
      IsTip T e → IsTip T e' → e.score = e'.score → es = es')
    {b₁ b₂ : List (ℕ × List ModifierBatchItem)} (hfair₁ : Fair rules clock T p b₁)
    (hfair₂ : Fair rules clock T p b₂) (hcond₁ : RunSettles rules p b₁)
    (hcond₂ : RunSettles rules p b₂) :
    (runBatches rules p b₁).chain = (runBatches rules p b₂).chain ∧
      IsBranch rules.toHeaderRules base T (runBatches rules p b₁).chain.entries ∧
      ∀ es e, IsBranch rules.toHeaderRules base T es → es.getLast? = some e →
        e.score ≤ (runBatches rules p b₁).chain.cumulativeScore := by
  obtain ⟨hend₁, hwf₁, -, -⟩ :=
    hstart.runBatches tree hfree hwf hscores hfair₁.clock hfair₁.delivers hcond₁
  obtain ⟨hend₂, hwf₂, -, -⟩ :=
    hstart.runBatches tree hfree hwf hscores hfair₂.clock hfair₂.delivers hcond₂
  -- the chain of a run has the greatest score, so it ends in a tip
  have htip : ∀ b, TreeState rules p.chain base T (runBatches rules p b) →
      Fair rules clock T p b → RunSettles rules p b → ∀ e,
      (runBatches rules p b).chain.entries.getLast? = some e →
      IsTip T e ∧ (runBatches rules p b).chain.cumulativeScore = e.score := by
    intro b hend hfair hcond e he
    have hlinked : (runBatches rules p b).chain.Linked rules.toHeaderRules := hend.branch.isChain
    have hcum := hlinked.cumulativeScore_eq he
    refine ⟨?_, hcum⟩
    rintro h hmem ⟨hparent, hheight⟩
    -- a header on top of it would have a greater score
    have hchild := hend.branch.concat he
      (e := ⟨h, e.score + rules.headerDifficulty h⟩) ⟨hparent, hheight, rfl⟩ hmem
    have hle := score_le_of_fair tree hfree hstart hwf hscores hfair hcond hchild
      getLast?_concat
    have := tree.difficulty_pos h hmem
    dsimp only at hle
    omega
  obtain ⟨e₁, he₁⟩ := hend₁.branch.exists_last
  obtain ⟨e₂, he₂⟩ := hend₂.branch.exists_last
  obtain ⟨htip₁, hcum₁⟩ := htip b₁ hend₁ hfair₁ hcond₁ e₁ he₁
  obtain ⟨htip₂, hcum₂⟩ := htip b₂ hend₂ hfair₂ hcond₂ e₂ he₂
  have hle₁ := score_le_of_fair tree hfree hstart hwf hscores hfair₁ hcond₁ hend₂.branch he₂
  have hle₂ := score_le_of_fair tree hfree hstart hwf hscores hfair₂ hcond₂ hend₁.branch he₁
  have hentries := htips _ _ _ _ hend₁.branch hend₂.branch he₁ he₂ htip₁ htip₂ (by omega)
  refine ⟨?_, hend₁.branch, fun es e hes he =>
    score_le_of_fair tree hfree hstart hwf hscores hfair₁ hcond₁ hes he⟩
  rw [hend₁.config, hend₂.config, hentries]

end Tree

/-- A check of the stored headers shows that a pipeline without buffered headers starts from a
tree state. -/
theorem treeState_listRules {headers T : List Header} {base : ChainEntry} {p : ValidationPipeline}
    (hscores : ScoresConsistent (listRules headers) p)
    (hbranch : IsBranch (listRules headers).toHeaderRules base T p.chain.entries)
    (hbuffer : p.buffer.entries = [])
    (hstored : ∀ h ∈ headers, ∀ score ∈ storedScore p.store h.id,
      h ∈ T ∧ score ≤ p.chain.cumulativeScore) :
    TreeState (listRules headers) p.chain base T p where
  config := rfl
  branch := hbranch
  stored h score hparsed hs := (hstored h (mem_of_parsed_listRules hparsed) score hs).1
  buffered := by simp [hbuffer]
  orphaned := by simp [hbuffer]
  max id score hk := by
    have hs : storedScore p.store id = some score := by
      rcases hk with ⟨e, he, rfl, rfl⟩ | hs
      · exact hscores.persisted e he
      · exact hs
    obtain ⟨raw, hraw⟩ := isSome_iff_exists.1 (hscores.add.hasBytes id score hs)
    obtain ⟨h, hparse, rfl⟩ := hscores.add.bytes id raw hraw
    exact (hstored h (mem_of_parsed_listRules ⟨raw, hparse⟩) score hs).2

/-- A run is fair if it ends with every header of the tree stored or in the buffer. -/
theorem fair_of_end {clock : ℕ → Prop} {T : List Header} {p : ValidationPipeline}
    {batches : List (ℕ × List ModifierBatchItem)} (hclock : ∀ b ∈ batches, clock b.1)
    (hdelivers : ∀ b ∈ batches, ∀ x ∈ batchHeaders rules b.2, x.1 ∈ T)
    (hend : ∀ h ∈ T, (∃ e ∈ (runBatches rules p batches).buffer.entries, e.2.1 = h) ∨
      (storedScore (runBatches rules p batches).store h.id).isSome = true) :
    Fair rules clock T p batches where
  clock := hclock
  delivers := hdelivers
  complete h hmem := by
    rcases hend h hmem with ⟨⟨k, x⟩, hx, hxh⟩ | hs
    · exact Or.inr (Or.inl ⟨k, x, hx, hxh⟩)
    · obtain ⟨score, hscore⟩ := isSome_iff_exists.1 hs
      exact Or.inr (Or.inr ⟨score, Or.inr hscore⟩)

/-! ## Orders of a small tree

The headers of `raceHeaders`, delivered in batches above genesis. -/

def raceStart : ValidationPipeline :=
  processBatch (listRules raceHeaders) 10000 (.new .mainnet) (headerItems [0])

def raceRoot : ChainEntry := ⟨raceHeaders.get ⟨0, by decide⟩, 1199990374400⟩

def deliver (indices : List (List UInt8)) : List (ℕ × List ModifierBatchItem) :=
  indices.map (fun l => (10000, headerItems l))

def shortRace : List Header := [raceHeaders.get ⟨0, by decide⟩, raceHeaders.get ⟨1, by decide⟩,
  raceHeaders.get ⟨2, by decide⟩, raceHeaders.get ⟨4, by decide⟩]

lemma headerTree_race : HeaderTree (listRules raceHeaders) (· = 10000) raceStart.chain raceRoot
    raceHeaders := by
  refine headerTree_of_allBranches (n := 3) (by decide) (by decide)
    (fun h hmem => parsed_listRules (by decide) hmem) (by decide +kernel) ?_ (by decide +kernel)
  rintro _ rfl
  decide +kernel

lemma headerTree_shortRace : HeaderTree (listRules raceHeaders) (· = 10000) raceStart.chain
    raceRoot shortRace := by
  refine headerTree_of_allBranches (n := 2) (by decide) (by decide)
    (fun h hmem => parsed_listRules (by decide) ?_) (by decide +kernel) ?_ (by decide +kernel)
  · revert h
    decide
  · rintro _ rfl
    decide +kernel

lemma collisionFree_race : CollisionFree (listRules raceHeaders) :=
  collisionFree_listRules (by decide)

lemma wellFormed_raceStart : raceStart.WellFormed (listRules raceHeaders) :=
  ValidationPipeline.WellFormed.processBatch (.new .mainnet) 10000 (headerItems [0])

lemma scoresConsistent_raceStart : ScoresConsistent (listRules raceHeaders) raceStart :=
  ScoresConsistent.processBatch (.new .mainnet) collisionFree_race (.new .mainnet) 10000
    (headerItems [0])

/-- Both branches in one order or the other: the chain ends with 4. -/
theorem runBatches_chain_eq_race :
    (runBatches (listRules raceHeaders) raceStart (deliver [[1, 2, 3], [4], [5]])).chain =
        (runBatches (listRules raceHeaders) raceStart (deliver [[4, 5], [1], [2], [3]])).chain ∧
      (runBatches (listRules raceHeaders) raceStart
        (deliver [[1, 2, 3], [4], [5]])).chain.idAt 4 = some 4 := by
  refine ⟨(runBatches_chain_eq collisionFree_race headerTree_race wellFormed_raceStart
    scoresConsistent_raceStart
    (treeState_listRules scoresConsistent_raceStart (by decide +kernel) (by decide +kernel)
      (by decide +kernel)) ?_
    (fair_of_end (by decide) (by decide +kernel) (by decide +kernel))
    (fair_of_end (by decide) (by decide +kernel) (by decide +kernel))
    (by decide +kernel) (by decide +kernel)).1, by decide +kernel⟩
  -- the two tips have different scores
  have hdistinct : ∀ es ∈ allBranches (listRules raceHeaders).toHeaderRules raceRoot raceHeaders 3,
      ∀ es' ∈ allBranches (listRules raceHeaders).toHeaderRules raceRoot raceHeaders 3,
      ∀ e ∈ es.getLast?, ∀ e' ∈ es'.getLast?,
      (∀ h ∈ raceHeaders, ¬(h.parentId = e.header.id ∧ h.height = e.header.height + 1)) →
      (∀ h ∈ raceHeaders, ¬(h.parentId = e'.header.id ∧ h.height = e'.header.height + 1)) →
      e.score = e'.score → es = es' := by
    decide +kernel
  have hreach : ∀ x ∈ raceHeaders, x.height ≤ raceRoot.header.height + 3 := by decide
  intro es es' e e' hes hes' he he' htip htip' hscore
  exact hdistinct es (hes.mem_allBranches (hes.length_le hreach)) es'
    (hes'.mem_allBranches (hes'.length_le hreach)) e he e' he' htip htip' hscore

/-- Fair runs that end with different chains. In the first pair, 3 is recorded and 4, behind it in
the batch, is passed over. In the second, 3 stays in the buffer when its parent 2 is stored as a
fork. -/
theorem runBatches_chain_ne_race :
    (HeaderTree (listRules raceHeaders) (· = 10000) raceStart.chain raceRoot raceHeaders ∧
      Fair (listRules raceHeaders) (· = 10000) raceHeaders raceStart
        (deliver [[1, 2, 3], [4], [5]]) ∧
      Fair (listRules raceHeaders) (· = 10000) raceHeaders raceStart
        (deliver [[4], [1], [2, 3], [5]]) ∧
      (runBatches (listRules raceHeaders) raceStart (deliver [[1, 2, 3], [4], [5]])).chain ≠
        (runBatches (listRules raceHeaders) raceStart (deliver [[4], [1], [2, 3], [5]])).chain) ∧
    (HeaderTree (listRules raceHeaders) (· = 10000) raceStart.chain raceRoot shortRace ∧
      Fair (listRules raceHeaders) (· = 10000) shortRace raceStart (deliver [[1, 2], [4]]) ∧
      Fair (listRules raceHeaders) (· = 10000) shortRace raceStart (deliver [[4], [2], [1]]) ∧
      (runBatches (listRules raceHeaders) raceStart (deliver [[1, 2], [4]])).chain ≠
        (runBatches (listRules raceHeaders) raceStart (deliver [[4], [2], [1]])).chain) := by
  have hne : ∀ c c' : HeaderChain, c.idAt 3 ≠ c'.idAt 3 ∨ c.idAt 4 ≠ c'.idAt 4 → c ≠ c' := by
    rintro c _ h rfl
    simp at h
  refine ⟨⟨headerTree_race, fair_of_end (by decide) (by decide +kernel) (by decide +kernel),
    fair_of_end (by decide) (by decide +kernel) (by decide +kernel), hne _ _ (by decide +kernel)⟩,
    headerTree_shortRace, fair_of_end (by decide) (by decide +kernel) (by decide +kernel),
    fair_of_end (by decide) (by decide +kernel) (by decide +kernel), hne _ _ (by decide +kernel)⟩

end ErgoNode
