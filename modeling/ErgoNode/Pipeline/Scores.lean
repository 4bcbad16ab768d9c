import ErgoNode.Pipeline.Steps

/-!
# Cumulative scores

A header's cumulative score is that of its parent plus its own difficulty. The chain keeps the
scores of its headers; the store keeps those of every header it has. This file shows that the two
never disagree and that scores never change: what the loop and the end of a batch write for a
header is what was known for it before.
-/

namespace ErgoNode

open List HeaderChain ModifierStore Option

variable {rules : PipelineRules} {now : ℕ}
variable {c c' : HeaderChain} {e : ChainEntry} {branch : List RawHeader} {f : ℕ}
  {r : ModifierBatchEntry} {header : Header} {es : List ChainEntry}
  {assemble : ModifierStore → Option ForkBranch} {parentScore : ℕ} {rows : List ModifierBatchEntry}
  {hrules : HeaderRules} {chain : HeaderChain}

/-- The score is known for the id: a chain entry or the store has it. -/
def Known (c : HeaderChain) (store : ModifierStore) (id : BlockId) (score : ℕ) : Prop :=
  (∃ e ∈ c.entries, e.header.id = id ∧ e.score = score) ∨ storedScore store id = some score

/-- The scores of the chain and of the store agree and add up along parent links. -/
structure ScoresAdd (rules : PipelineRules) (c : HeaderChain) (store : ModifierStore) : Prop where
  agree : ∀ e ∈ c.entries, ∀ score, storedScore store e.header.id = some score → score = e.score
  /-- Stored header bytes parse to a header with the id they are stored under. -/
  bytes : ∀ id raw, store.get headerTypeId id = some raw →
    ∃ h, rules.parseHeader raw = some h ∧ h.id = id
  hasBytes : ∀ id score, storedScore store id = some score → (store.get headerTypeId id).isSome
  /-- Off the chain, a score is the parent's plus the header's difficulty. -/
  parent : ∀ h score, Parsed rules h → storedScore store h.id = some score →
    c.contains h.id = false →
    ∃ parentScore, Known c store h.parentId parentScore ∧
      score = parentScore + rules.headerDifficulty h
  empty : c.entries = [] → ∀ id, storedScore store id = none

/-- The headers of a branch are stored with scores that add up from `acc`. -/
def BranchScored (rules : PipelineRules) (store : ModifierStore) : ℕ → List RawHeader → Prop
  | _, [] => True
  | acc, x :: xs => storedScore store x.1.id = some (acc + rules.headerDifficulty x.1) ∧
      BranchScored rules store (acc + rules.headerDifficulty x.1) xs

def KeepsScores (store store' : ModifierStore) : Prop :=
  ∀ id score, storedScore store id = some score → storedScore store' id = some score

/-! ## Known scores -/

lemma contains_eq_false_iff {id : BlockId} :
    c.contains id = false ↔ ∀ e ∈ c.entries, e.header.id ≠ id := by
  simp [HeaderChain.contains]

lemma eq_of_id_eq (hfree : CollisionFree rules) (hlinked : c.Linked rules.toHeaderRules)
    (hparsed : ∀ e ∈ c.entries, Parsed rules e.header) {e' : ChainEntry} (he : e ∈ c.entries)
    (he' : e' ∈ c.entries) (hid : e.header.id = e'.header.id) : e = e' := by
  apply hlinked.eq_of_height_eq he he'
  rw [hfree _ _ (hparsed e he) (hparsed e' he') hid]

lemma Known.unique {store : ModifierStore} (hfree : CollisionFree rules)
    (hlinked : c.Linked rules.toHeaderRules) (hparsed : ∀ e ∈ c.entries, Parsed rules e.header)
    (hadd : ScoresAdd rules c store) {id : BlockId} {a b : ℕ} (ha : Known c store id a)
    (hb : Known c store id b) : a = b := by
  rcases ha with ⟨e, he, rfl, rfl⟩ | ha <;> rcases hb with ⟨e', he', hid, rfl⟩ | hb
  · rw [eq_of_id_eq hfree hlinked hparsed he he' hid.symm]
  · exact (hadd.agree e he b hb).symm
  · exact hadd.agree e' he' a (hid ▸ ha)
  · exact some.inj (ha.symm.trans hb)

lemma Known.mono {store store' : ModifierStore} {id : BlockId} {score : ℕ}
    (h : Known c store id score) (hsub : ∀ e ∈ c.entries, e ∈ c'.entries)
    (hkeeps : KeepsScores store store') : Known c' store' id score :=
  h.imp (fun ⟨e, he, heq⟩ => ⟨e, hsub e he, heq⟩) (hkeeps id score)

lemma BranchScored.mono {store store' : ModifierStore} {acc : ℕ}
    (h : BranchScored rules store acc branch) (hkeeps : KeepsScores store store') :
    BranchScored rules store' acc branch := by
  induction branch generalizing acc with
  | nil => trivial
  | cons x xs ih => exact ⟨hkeeps _ _ h.1, ih h.2⟩

/-- The walk through the store finds a branch whose scores add up from its fork point. -/
theorem walkForkBranch_scored {store : ModifierStore} (hfree : CollisionFree rules)
    (hlinked : c.Linked rules.toHeaderRules) (hparsed : ∀ e ∈ c.entries, Parsed rules e.header)
    (hadd : ScoresAdd rules c store) {fuel : ℕ} {currentParent : BlockId} {b : List RawHeader}
    (h : walkForkBranch rules c store fuel currentParent branch = some (f, b))
    (hknown : Known c store currentParent parentScore)
    (hbranch : BranchScored rules store parentScore branch.reverse) :
    ∃ e, c.entryAt f = some e ∧ BranchScored rules store e.score b := by
  induction fuel generalizing currentParent branch parentScore with
  | zero => simp [walkForkBranch] at h
  | succ fuel ih =>
    unfold walkForkBranch at h
    split at h
    · -- the parent is on the chain: the walk ends at its entry
      split at h
      · simp at h
      · dsimp only at h
        split at h
        next hfork =>
          obtain ⟨rfl, rfl⟩ := h
          obtain ⟨header, hheader, hid⟩ := map_eq_some_iff.1 hfork
          obtain ⟨e, he, rfl⟩ := map_eq_some_iff.1 hheader
          have hmem := (hlinked.entryAt_eq_some_iff.1 he).1
          have hscore : e.score = parentScore :=
            Known.unique hfree hlinked hparsed hadd (Or.inl ⟨e, hmem, hid, rfl⟩) hknown
          exact ⟨e, he, hscore ▸ hbranch⟩
        · simp at h
    next hoff =>
      split at h
      · simp at h
      rename_i parentData hget
      split at h
      · simp at h
      rename_i parentHeader hparse
      -- the parent is off the chain: its score is its own parent's plus its difficulty
      obtain ⟨header, hparse', hid⟩ := hadd.bytes _ _ hget
      cases hparse.symm.trans hparse'
      have hoff : c.contains currentParent = false := by simpa using hoff
      have hstored : storedScore store currentParent = some parentScore := by
        refine hknown.resolve_left ?_
        rintro ⟨e, he, heid, -⟩
        exact contains_eq_false_iff.1 hoff e he heid
      obtain ⟨grandScore, hgrand, hsum⟩ :=
        hadd.parent parentHeader parentScore ⟨_, hparse⟩ (hid ▸ hstored) (hid ▸ hoff)
      refine ih h hgrand ?_
      rw [reverse_append, reverse_singleton, singleton_append]
      refine ⟨?_, ?_⟩
      · rw [hid, hstored, hsum]
      · rwa [← hsum]

/-! ## Writing a header -/

/-- `store'` is `store` with the bytes and the score of one header written. -/
structure WritesHeader (store : ModifierStore) (id : BlockId) (score : ℕ) (raw : Bytes)
    (store' : ModifierStore) : Prop where
  get_eq : ∀ k, store'.get headerTypeId k =
    if id = k then some raw else store.get headerTypeId k
  score_eq : ∀ k, storedScore store' k = if id = k then some score else storedScore store k

lemma writesHeader_putHeader (store : ModifierStore) (id : BlockId) (height fork score : ℕ)
    (raw : Bytes) :
    WritesHeader store id score raw (store.putHeader id height fork (some score) raw) where
  get_eq k := by simp [get_putHeader]
  score_eq k := by
    simp only [storedScore, headerScore, headerScores_putHeader]
    split <;> rfl

lemma writesHeader_storeFork (rules : PipelineRules) (s : BatchState) (header : Header) (raw : Bytes) (parentScore : ℕ)
    (assemble : ModifierStore → Option ForkBranch) :
    WritesHeader s.store header.id (parentScore + rules.headerDifficulty header) raw
      (storeFork rules s header raw parentScore assemble).store :=
  writesHeader_putHeader ..

lemma writesHeader_putEntry (hrow : RowOf rules e r) (store : ModifierStore) :
    WritesHeader store e.header.id e.score r.data (store.putEntry r) where
  get_eq k := by
    simp only [get_putEntry, primaryWrite, hrow.typeId_eq, hrow.id_eq, true_and]
    split <;> simp
  score_eq k := by
    simp only [storedScore, headerScore, headerScores_putEntry,
      headerScoreWrite, hrow.typeId_eq, hrow.id_eq, hrow.score_eq, true_and]
    split <;> simp

lemma writesHeader_storeDemoted (hrow : RowOf rules e r) (store : ModifierStore) :
    WritesHeader store e.header.id e.score r.data (storeDemoted store r) := by
  rw [storeDemoted, hrow.score_eq, hrow.id_eq]
  exact writesHeader_putHeader ..

namespace WritesHeader

variable {store store' : ModifierStore} {id : BlockId} {score : ℕ} {raw : Bytes}

lemma storedScore_self (h : WritesHeader store id score raw store') :
    storedScore store' id = some score := by
  simp [h.score_eq]

lemma keepsScores (h : WritesHeader store id score raw store')
    (hsame : ∀ old, storedScore store id = some old → old = score) :
    KeepsScores store store' := by
  intro k s hk
  rw [h.score_eq]
  split
  next hid =>
    subst hid
    rw [hsame s hk]
  · exact hk

end WritesHeader

/-- Writing a header with the score that its parent gives it, or that the chain has for it, keeps
the scores adding up. -/
theorem ScoresAdd.write {store store' : ModifierStore}
    {score : ℕ} {raw : Bytes} (hadd : ScoresAdd rules c store) (hfree : CollisionFree rules)
    (hw : WritesHeader store header.id score raw store')
    (hparse : rules.parseHeader raw = some header) (hne : c.entries ≠ [])
    (hsame : ∀ old, storedScore store header.id = some old → old = score)
    (hchain : ∀ e ∈ c.entries, e.header.id = header.id → e.score = score)
    (hparent : c.contains header.id = false → ∃ parentScore,
      Known c store header.parentId parentScore ∧
        score = parentScore + rules.headerDifficulty header) :
    ScoresAdd rules c store' := by
  have hkeeps := hw.keepsScores hsame
  have hmono : ∀ id s, Known c store id s → Known c store' id s :=
    fun _ _ h => h.mono (fun _ he => he) hkeeps
  refine ⟨?_, ?_, ?_, ?_, fun hnil => absurd hnil hne⟩
  · intro e he s hs
    rw [hw.score_eq] at hs
    split at hs
    next hid =>
      rw [hchain e he hid.symm]
      exact (some.inj hs).symm
    · exact hadd.agree e he s hs
  · intro id raw' hget
    rw [hw.get_eq] at hget
    split at hget
    next hid =>
      cases hget
      exact ⟨header, hparse, hid⟩
    · exact hadd.bytes id raw' hget
  · intro id s hs
    rw [hw.get_eq]
    by_cases hid : header.id = id
    · simp [hid]
    · rw [hw.score_eq, if_neg hid] at hs
      rw [if_neg hid]
      exact hadd.hasBytes id s hs
  · intro h s hparsed hs hoff
    rw [hw.score_eq] at hs
    split at hs
    next hid =>
      obtain rfl := hfree _ _ ⟨raw, hparse⟩ hparsed hid
      cases hs
      obtain ⟨parentScore, hknown, hsum⟩ := hparent hoff
      exact ⟨parentScore, hmono _ _ hknown, hsum⟩
    · obtain ⟨parentScore, hknown, hsum⟩ := hadd.parent h s hparsed hs hoff
      exact ⟨parentScore, hmono _ _ hknown, hsum⟩

lemma ScoresAdd.append {store : ModifierStore} (hadd : ScoresAdd rules c store)
    (hsame : ∀ old, storedScore store e.header.id = some old → old = e.score) :
    ScoresAdd rules { c with entries := c.entries ++ [e] } store where
  __ := hadd
  agree e' he' s hs := by
    rcases mem_append.1 he' with he' | he'
    · exact hadd.agree e' he' s hs
    · obtain rfl := mem_singleton.1 he'
      exact hsame s hs
  parent h s hparsed hs hoff := by
    have hoff' : c.contains h.id = false :=
      contains_eq_false_iff.2 fun e' he' =>
        contains_eq_false_iff.1 hoff e' (mem_append_left _ he')
    obtain ⟨parentScore, hknown, hsum⟩ := hadd.parent h s hparsed hs hoff'
    exact ⟨parentScore, hknown.mono (fun _ he => mem_append_left _ he) (fun _ _ h => h), hsum⟩
  empty hnil := by simp at hnil

/-! ## The loop -/

/-- What holds of the scores between two headers of a batch that started from the chain `c₀`. -/
structure ScoreInv (rules : PipelineRules) (c₀ : HeaderChain) (s : BatchState) : Prop where
  add : ScoresAdd rules s.chain s.store
  persisted : ∀ e ∈ c₀.entries, storedScore s.store e.header.id = some e.score
  /-- The scores of the recorded branch add up from its fork point. -/
  pending : ∀ f branch, s.pendingReorg = some (f, branch) → branch ≠ [] ∧
    ∃ e, s.chain.entryAt f = some e ∧ BranchScored rules s.store e.score branch

lemma ForksFrom.known {s : BatchState} {raw : Bytes}
    (h : ForksFrom rules now s header raw parentScore assemble)
    (hlinked : s.chain.Linked rules.toHeaderRules) :
    Known s.chain s.store header.parentId parentScore ∧ s.chain.entries ≠ [] := by
  cases h with
  | chain happend =>
    obtain ⟨-, hheight, -⟩ := tryAppend_forked happend
    obtain ⟨e, hfind, rfl⟩ := map_eq_some_iff.1 hheight
    have hmem := mem_of_find?_eq_some hfind
    have hid : e.header.id = header.parentId := by simpa using find?_some hfind
    refine ⟨Or.inl ⟨e, hmem, hid, ?_⟩, ne_nil_of_mem hmem⟩
    simp [scoreAt, hlinked.entryAt_eq_some_iff.2 ⟨hmem, rfl⟩]
  | store hne hmissing hscore => exact ⟨Or.inr hscore, hne⟩

lemma storedScore_of_tryAppend {store : ModifierStore} (hfree : CollisionFree rules)
    (hlinked : c.Linked rules.toHeaderRules) (hparsed : ∀ e ∈ c.entries, Parsed rules e.header)
    (hadd : ScoresAdd rules c store) (hheader : Parsed rules header)
    (h : c.tryAppend rules.toHeaderRules now header = (.ok .extended, chain)) :
    ∃ score, chain = { c with entries := c.entries ++ [⟨header, score⟩] } ∧
      ∀ old, storedScore store header.id = some old → old = score := by
  obtain ⟨rfl, ⟨hnil, -⟩ | ⟨tip, hfits, -⟩⟩ := tryAppend_extended h
  · refine ⟨_, rfl, fun old hold => ?_⟩
    simp [hadd.empty hnil] at hold
  · obtain ⟨last, hlast, rfl⟩ := tip?_eq_some_iff.1 hfits.tip_eq
    have hmem := mem_of_getLast? hlast
    refine ⟨last.score + rules.headerDifficulty header, ?_, ?_⟩
    · have hentries := hlinked.entries_pushHeader hfits hlast
      rw [← hentries]
      rfl
    · intro old hold
      have hoff : c.contains header.id = false := by
        rw [contains_eq_false_iff]
        intro e he hid
        -- the same header would sit at two heights
        have heq := hfree _ _ (hparsed e he) hheader hid
        obtain ⟨b, hb⟩ := ne_none_iff_exists'.1
          (fun hnone => ne_nil_of_mem he (baseHeight_eq_none_iff.1 hnone))
        have hrange := (hlinked.mem_range hb).1 ⟨e, he, rfl⟩
        have htip := hlinked.getLast_height hlast
        rw [height_eq hb] at htip
        have := hfits.height_eq
        rw [heq] at hrange
        omega
      obtain ⟨parentScore, hknown, rfl⟩ := hadd.parent header old hheader hold hoff
      rw [Known.unique hfree hlinked hparsed hadd hknown
        (Or.inl ⟨last, hmem, hfits.parentId_eq.symm, rfl⟩)]

namespace ScoreInv

variable {c₀ : HeaderChain} {s : BatchState}

lemma remove (inv : ScoreInv rules c₀ s) (k : BlockId) :
    ScoreInv rules c₀ { s with buffer := s.buffer.remove k } :=
  { inv with }

lemma chainHeader (inv : ScoreInv rules c₀ s) (hfree : CollisionFree rules)
    (hloop : LoopInv rules c₀ s) {header : Header} {raw : Bytes}
    (hparsed : IsParsed rules (header, raw))
    (h : s.chain.tryAppend rules.toHeaderRules now header = (.ok .extended, chain)) :
    ScoreInv rules c₀ (chainHeader s chain header raw) := by
  obtain ⟨hlinked, -, -⟩ := exists_entries_of_tryAppend hloop.linked h
  obtain ⟨score, rfl, hsame⟩ := storedScore_of_tryAppend hfree hloop.linked hloop.parsed inv.add
    hparsed.parsed h
  refine ⟨inv.add.append hsame, inv.persisted, ?_⟩
  intro f branch hpending
  obtain ⟨hne, e, he, hbranch⟩ := inv.pending f branch hpending
  obtain ⟨hmem, hheight⟩ := hloop.linked.entryAt_eq_some_iff.1 he
  exact ⟨hne, e, hlinked.entryAt_eq_some_iff.2 ⟨mem_append_left _ hmem, hheight⟩, hbranch⟩

lemma storeFork (inv : ScoreInv rules c₀ s) (hfree : CollisionFree rules)
    (hloop : LoopInv rules c₀ s) {header : Header} {raw : Bytes}
    (hforks : ForksFrom rules now s header raw parentScore assemble)
    (hnew : s.chain.contains header.id = false) (hparsed : IsParsed rules (header, raw)) :
    ScoreInv rules c₀ (storeFork rules s header raw parentScore assemble) ∧
      KeepsScores s.store (storeFork rules s header raw parentScore assemble).store := by
  obtain ⟨hknown, hne⟩ := hforks.known hloop.linked
  have hw : WritesHeader s.store header.id (parentScore + rules.headerDifficulty header) raw
      (ErgoNode.storeFork rules s header raw parentScore assemble).store :=
    writesHeader_storeFork ..
  have hsame : ∀ old, storedScore s.store header.id = some old →
      old = parentScore + rules.headerDifficulty header := by
    intro old hold
    obtain ⟨parentScore', hknown', rfl⟩ := inv.add.parent header old hparsed.parsed hold hnew
    rw [Known.unique hfree hloop.linked hloop.parsed inv.add hknown' hknown]
  have hkeeps := hw.keepsScores hsame
  have hadd := inv.add.write hfree hw hparsed hne hsame
    (fun e he hid => absurd hid (contains_eq_false_iff.1 hnew e he))
    (fun _ => ⟨parentScore, hknown, rfl⟩)
  refine ⟨⟨hadd, fun e he => hkeeps _ _ (inv.persisted e he), ?_⟩, hkeeps⟩
  intro f branch hpending
  simp only [ErgoNode.storeFork] at hpending
  split at hpending
  · -- the branch recorded now ends in this header
    refine ⟨?_, ?_⟩
    · intro hnil
      simpa [hnil] using (hforks.branch hparsed hpending).1
    have hself := hw.storedScore_self
    cases hforks with
    | @chain forkHeight happend =>
      cases hpending
      obtain ⟨-, hheight, -⟩ := tryAppend_forked happend
      obtain ⟨e, hfind, rfl⟩ := map_eq_some_iff.1 hheight
      have hentry := hloop.linked.entryAt_eq_some_iff.2 ⟨mem_of_find?_eq_some hfind, rfl⟩
      have hscore : (s.chain.scoreAt e.header.height).getD 0 = e.score := by
        simp [scoreAt, hentry]
      exact ⟨e, hentry, hself.trans (by rw [hscore]), trivial⟩
    | store _ hmissing hscore =>
      exact walkForkBranch_scored hfree hloop.linked hloop.parsed hadd hpending
        (hknown.mono (fun _ he => he) hkeeps) ⟨hself, trivial⟩
  · obtain ⟨hne, e, he, hbranch⟩ := inv.pending f branch hpending
    exact ⟨hne, e, he, hbranch.mono hkeeps⟩

lemma drainBuffer (inv : ScoreInv rules c₀ s) (hfree : CollisionFree rules)
    (hloop : LoopInv rules c₀ s) (fuel : ℕ) (nextParent : BlockId) :
    ScoreInv rules c₀ (drainBuffer rules now fuel nextParent s) := by
  refine (drainBuffer_induction (P := fun s => LoopInv rules c₀ s ∧ ScoreInv rules c₀ s)
    ?_ ?_ fuel nextParent s ⟨hloop, inv⟩).2
  · rintro s k header raw chain ⟨hloop, inv⟩ hmem happend
    have hparsed := (hloop.buffered _ _ hmem).1
    exact ⟨(hloop.remove k).chainHeader hparsed happend,
      (inv.remove k).chainHeader hfree (hloop.remove k) hparsed happend⟩
  · rintro s k ⟨hloop, inv⟩
    exact ⟨hloop.remove k, inv.remove k⟩

lemma processHeader (inv : ScoreInv rules c₀ s) (hfree : CollisionFree rules)
    (hloop : LoopInv rules c₀ s) {x : RawHeader} (hparsed : IsParsed rules x) :
    ScoreInv rules c₀ (processHeader rules now s x) := by
  refine processHeader_cases inv ?_ ?_ ?_
  · intro chain happend
    exact (inv.chainHeader hfree hloop hparsed happend).drainBuffer hfree
      (hloop.chainHeader hparsed happend) _ _
  · intro requests parentScore assemble hnew hforks
    have hloop' : LoopInv rules c₀ { s with reorgRequested := requests } :=
      { hloop with }
    have inv' : ScoreInv rules c₀ { s with reorgRequested := requests } :=
      { inv with }
    exact (inv'.storeFork hfree hloop' (hforks.frame requests) hnew hparsed).1
  · intro requests control _
    exact { inv with }

lemma foldl (inv : ScoreInv rules c₀ s) (hfree : CollisionFree rules)
    (hloop : LoopInv rules c₀ s) {xs : List RawHeader} (hparsed : ∀ x ∈ xs, IsParsed rules x) :
    ScoreInv rules c₀ (xs.foldl (ErgoNode.processHeader rules now) s) := by
  induction xs generalizing s with
  | nil => exact inv
  | cons x xs ih =>
    have hx := hparsed x mem_cons_self
    exact ih (inv.processHeader hfree hloop hx) (hloop.processHeader hx)
      (forall_mem_cons.1 hparsed).2

end ScoreInv

/-! ## The end of a batch -/

lemma SameHeaders.storedScore_eq {store store' : ModifierStore} (h : SameHeaders store store')
    (id : BlockId) : storedScore store' id = storedScore store id := by
  rw [storedScore, storedScore, h.headerScore_eq]

lemma SameHeaders.keepsScores {store store' : ModifierStore} (h : SameHeaders store store') :
    KeepsScores store store' :=
  fun id _ hs => (h.storedScore_eq id).trans hs

lemma ScoresAdd.of_sameHeaders {store store' : ModifierStore}
    (hadd : ScoresAdd rules c store) (h : SameHeaders store store') :
    ScoresAdd rules c store' where
  agree e he s hs := hadd.agree e he s (h.storedScore_eq _ ▸ hs)
  bytes id raw hraw := hadd.bytes id raw (h.get_eq id ▸ hraw)
  hasBytes id s hs := h.get_eq id ▸ hadd.hasBytes id s (h.storedScore_eq id ▸ hs)
  parent hd s hparsed hs hoff := by
    obtain ⟨parentScore, hknown, hsum⟩ := hadd.parent hd s hparsed (h.storedScore_eq _ ▸ hs) hoff
    exact ⟨parentScore, hknown.mono (fun _ he => he) h.keepsScores, hsum⟩
  empty hnil id := (h.storedScore_eq id).trans (hadd.empty hnil id)

lemma ScoresAdd.write_row {store store' : ModifierStore} (hfree : CollisionFree rules)
    (hlinked : c.Linked rules.toHeaderRules) (hparsed : ∀ e ∈ c.entries, Parsed rules e.header)
    (hadd : ScoresAdd rules c store) (hrow : RowOf rules e r)
    (hknown : Known c store e.header.id e.score)
    (hw : WritesHeader store e.header.id e.score r.data store') :
    ScoresAdd rules c store' ∧ KeepsScores store store' ∧
      ∀ id s, storedScore store' id = some s → Known c store id s := by
  have hunique : ∀ s, Known c store e.header.id s → s = e.score :=
    fun s hs => Known.unique hfree hlinked hparsed hadd hs hknown
  have hsame : ∀ old, storedScore store e.header.id = some old → old = e.score :=
    fun old hold => hunique old (Or.inr hold)
  refine ⟨hadd.write hfree hw hrow.data_eq ?_ hsame ?_ ?_, hw.keepsScores hsame, ?_⟩
  · intro hnil
    rcases hknown with ⟨e', he', -⟩ | hstored
    · exact ne_nil_of_mem he' hnil
    · simp [hadd.empty hnil] at hstored
  · exact fun e' he' hid => hunique e'.score (Or.inl ⟨e', he', hid, rfl⟩)
  · intro hoff
    have hstored : storedScore store e.header.id = some e.score := by
      refine hknown.resolve_left ?_
      rintro ⟨e', he', hid, -⟩
      exact contains_eq_false_iff.1 hoff e' he' hid
    exact hadd.parent e.header e.score ⟨_, hrow.data_eq⟩ hstored hoff
  · intro id s hs
    rw [hw.score_eq] at hs
    split at hs
    next hid =>
      rwa [← hid, ← some.inj hs]
    · exact Or.inr hs

/-- Writing rows whose scores are known keeps the scores, and stores those of the rows. -/
theorem ScoresAdd.foldl_write (hfree : CollisionFree rules) (hlinked : c.Linked rules.toHeaderRules)
    (hparsed : ∀ e ∈ c.entries, Parsed rules e.header)
    {w : ModifierStore → ModifierBatchEntry → ModifierStore}
    (hw : ∀ store e r, RowOf rules e r → WritesHeader store e.header.id e.score r.data (w store r))
    (hrows : RowsOf rules es rows) {store : ModifierStore} (hadd : ScoresAdd rules c store)
    (hknown : ∀ e ∈ es, Known c store e.header.id e.score) :
    ScoresAdd rules c (rows.foldl w store) ∧ KeepsScores store (rows.foldl w store) ∧
      (∀ id s, storedScore (rows.foldl w store) id = some s → Known c store id s) ∧
      ∀ e ∈ es, storedScore (rows.foldl w store) e.header.id = some e.score := by
  -- generalise from the entries to the rows, which is what the fold goes through
  suffices h : ∀ rows : List ModifierBatchEntry, ∀ store : ModifierStore,
      ScoresAdd rules c store →
      (∀ r ∈ rows, ∃ e, RowOf rules e r ∧ Known c store e.header.id e.score) →
      ScoresAdd rules c (rows.foldl w store) ∧ KeepsScores store (rows.foldl w store) ∧
        (∀ id s, storedScore (rows.foldl w store) id = some s → Known c store id s) ∧
        ∀ r ∈ rows, ∀ e, RowOf rules e r →
          storedScore (rows.foldl w store) e.header.id = some e.score by
    obtain ⟨hadd', hkeeps, honly, hstored⟩ := h rows store hadd (fun r hr => by
      obtain ⟨e, he, hrow⟩ := hrows.exists_entry r hr
      exact ⟨e, hrow, hknown e he⟩)
    refine ⟨hadd', hkeeps, honly, fun e he => ?_⟩
    obtain ⟨r, hr, hrow⟩ := hrows.exists_row e he
    exact hstored r hr e hrow
  intro rows
  induction rows with
  | nil => exact fun store hadd _ => ⟨hadd, fun _ _ h => h, fun _ _ h => Or.inr h, by simp⟩
  | cons r rows ih =>
    intro store hadd hknown
    obtain ⟨e, hrow, hk⟩ := hknown r mem_cons_self
    obtain ⟨hadd', hkeeps, honly⟩ := hadd.write_row hfree hlinked hparsed hrow hk (hw store e r hrow)
    obtain ⟨hend, hkeeps', honly', hstored⟩ := ih (w store r) hadd' (fun r' hr' => by
      obtain ⟨e', hrow', hk'⟩ := hknown r' (mem_cons_of_mem _ hr')
      exact ⟨e', hrow', hk'.mono (fun _ he => he) hkeeps⟩)
    refine ⟨hend, fun id s hs => hkeeps' id s (hkeeps id s hs), ?_, ?_⟩
    · intro id s hs
      exact (honly' id s hs).elim Or.inl (honly id s)
    intro r' hr' e' hrow'
    rcases mem_cons.1 hr' with rfl | hr'
    · exact hkeeps' _ _ (hw store e' _ hrow').storedScore_self
    · exact hstored r' hr' e' hrow'

/-- The flush keeps the scores, stores those of its rows, and stores no score that was not
known. -/
theorem ScoresAdd.flush (hfree : CollisionFree rules) (hlinked : c.Linked rules.toHeaderRules)
    (hparsed : ∀ e ∈ c.entries, Parsed rules e.header) (hrows : RowsOf rules es rows)
    {store : ModifierStore} (hadd : ScoresAdd rules c store)
    (hknown : ∀ e ∈ es, Known c store e.header.id e.score) (reorgForkPoint : Option ℕ) :
    ScoresAdd rules c (flush store rows reorgForkPoint) ∧
      KeepsScores store (flush store rows reorgForkPoint) ∧
      (∀ id s, storedScore (flush store rows reorgForkPoint) id = some s → Known c store id s) ∧
      ∀ e ∈ es, storedScore (flush store rows reorgForkPoint) e.header.id = some e.score := by
  cases reorgForkPoint with
  | none =>
    have hsame := sameHeaders_flush_none hrows store
    obtain ⟨hadd', hkeeps, honly, hstored⟩ := ScoresAdd.foldl_write hfree hlinked hparsed
      (fun store _ _ hrow => writesHeader_putEntry hrow store) hrows hadd hknown
    exact ⟨hadd'.of_sameHeaders hsame, fun id s hs => hsame.keepsScores id s (hkeeps id s hs),
      fun id s hs => honly id s (hsame.storedScore_eq id ▸ hs), fun e he => hsame.keepsScores _ _ (hstored e he)⟩
  | some f =>
    have hsame := sameHeaders_flush_some hrows store f
    obtain ⟨hadd₁, hkeeps₁, honly₁, hstored₁⟩ := ScoresAdd.foldl_write hfree hlinked hparsed
      (fun store _ _ hrow => writesHeader_storeDemoted hrow store)
      (hrows.filter (fun k => decide (f < k))) hadd
      (fun e he => hknown e (mem_of_mem_filter he))
    obtain ⟨hadd₂, hkeeps₂, honly₂, hstored₂⟩ := ScoresAdd.foldl_write hfree hlinked hparsed
      (fun store _ _ hrow => writesHeader_putEntry hrow store)
      (hrows.filter (fun k => decide (k ≤ f))) hadd₁
      (fun e he => (hknown e (mem_of_mem_filter he)).mono (fun _ h => h) hkeeps₁)
    refine ⟨hadd₂.of_sameHeaders hsame,
      fun id s hs => hsame.keepsScores id s (hkeeps₂ id s (hkeeps₁ id s hs)), ?_, ?_⟩
    · intro id s hs
      exact (honly₂ id s (hsame.storedScore_eq id ▸ hs)).elim Or.inl (honly₁ id s)
    intro e he
    apply hsame.keepsScores
    by_cases hle : e.header.height ≤ f
    · exact hstored₂ e (mem_filter.2 ⟨he, by simpa using hle⟩)
    · exact hkeeps₂ _ _ (hstored₁ e (mem_filter.2 ⟨he, by simpa using hle⟩))

structure ScoresConsistent (rules : PipelineRules) (p : ValidationPipeline) : Prop where
  add : ScoresAdd rules p.chain p.store
  persisted : ∀ e ∈ p.chain.entries, storedScore p.store e.header.id = some e.score

lemma HeaderChain.Linked.exists_follows (hc : c.Linked hrules) {e₀ : ChainEntry}
    (he : e ∈ c.entries) (he₀ : e₀ ∈ c.entries) (hlt : e₀.header.height < e.header.height) :
    ∃ e' ∈ c.entries, ChainEntry.Follows hrules e' e := by
  obtain ⟨i, hi, rfl⟩ := getElem_of_mem he
  cases i with
  | zero =>
    -- the first entry is the lowest
    obtain ⟨j, hj, rfl⟩ := getElem_of_mem he₀
    rcases Nat.eq_zero_or_pos j with rfl | hpos
    · omega
    · have := pairwise_iff_getElem.1 hc.pairwise 0 j hi hj hpos
      omega
  | succ i => exact ⟨c.entries[i], getElem_mem _, isChain_iff_getElem.1 hc i hi⟩

/-- The scores of a chain that the store has still add up after a switch to a branch whose scores it
has too. -/
theorem ScoresAdd.switch {store : ModifierStore} (hfree : CollisionFree rules)
    (hlinked : c.Linked rules.toHeaderRules) (hparsed : ∀ e ∈ c.entries, Parsed rules e.header)
    (hadd : ScoresAdd rules c store)
    (hstored : ∀ e ∈ c.entries, storedScore store e.header.id = some e.score)
    (hbranch : ∀ e ∈ es, storedScore store e.header.id = some e.score)
    (hswitch : HeaderChain.Switched rules.toHeaderRules c f es c') :
    ScoresAdd rules c' store ∧ ∀ e ∈ c'.entries, storedScore store e.header.id = some e.score := by
  have hstored' : ∀ e ∈ c'.entries, storedScore store e.header.id = some e.score := by
    intro e he
    rw [hswitch.chain_eq] at he
    rcases mem_append.1 he with he | he
    · exact hstored e (mem_of_mem_filter he)
    · exact hbranch e he
  have hknown : ∀ id s, Known c store id s → Known c' store id s := by
    rintro id s (⟨e, he, rfl, rfl⟩ | hs)
    · exact Or.inr (hstored e he)
    · exact Or.inr hs
  obtain ⟨fork, hfork⟩ := isSome_iff_exists.1 hswitch.forkPoint
  obtain ⟨hforkMem, hforkHeight⟩ := hlinked.entryAt_eq_some_iff.1 hfork
  refine ⟨⟨?_, hadd.bytes, hadd.hasBytes, ?_, ?_⟩, hstored'⟩
  · intro e he s hs
    exact some.inj (hs.symm.trans (hstored' e he))
  · intro h s hparsedh hs hoff
    by_cases hon : c.contains h.id = false
    · obtain ⟨parentScore, hk, hsum⟩ := hadd.parent h s hparsedh hs hon
      exact ⟨parentScore, hknown _ _ hk, hsum⟩
    · -- demoted by the switch: its parent was the entry below it
      simp only [contains_eq_false_iff, not_forall, not_not] at hon
      obtain ⟨e, he, hid⟩ := hon
      obtain rfl := hfree _ _ (hparsed e he) hparsedh hid
      have habove : f < e.header.height := by
        by_contra hle
        refine contains_eq_false_iff.1 hoff e ?_ rfl
        rw [hswitch.chain_eq]
        exact mem_append_left _ (mem_filter.2 ⟨he, by simpa using hle⟩)
      obtain ⟨e', he', hfollows⟩ := hlinked.exists_follows he hforkMem (by omega)
      refine ⟨e'.score, Or.inr ?_, ?_⟩
      · rw [hfollows.parentId_eq]
        exact hstored e' he'
      · rw [← hfollows.score_eq]
        exact hadd.agree e he s hs
  · intro hnil
    have hmem : fork ∈ c'.entries := by
      rw [hswitch.chain_eq]
      exact mem_append_left _ (mem_filter.2 ⟨hforkMem, by simp [hforkHeight]⟩)
    exact absurd hnil (ne_nil_of_mem hmem)

lemma storedScore_of_branchScored {store : ModifierStore}
    (hchain : (e :: es).IsChain (ChainEntry.Follows rules.toHeaderRules))
    (hheaders : es.map (·.header) = branch.map Prod.fst)
    (hbranch : BranchScored rules store e.score branch) :
    ∀ x ∈ es, storedScore store x.header.id = some x.score := by
  induction es generalizing e branch with
  | nil => simp
  | cons y ys ih =>
    cases branch with
    | nil => simp at hheaders
    | cons b bs =>
      obtain ⟨hfollows, htail⟩ := isChain_cons_cons.1 hchain
      simp only [map_cons, cons.injEq] at hheaders
      obtain ⟨hheader, hrest⟩ := hheaders
      obtain ⟨hstored, hbranch⟩ := hbranch
      rw [← hheader, ← hfollows.score_eq] at hstored hbranch
      intro x hx
      rcases mem_cons.1 hx with rfl | hx
      · exact hstored
      · exact ih htail hrest hbranch x hx

lemma HeaderChain.Switched.isChain (hswitch : HeaderChain.Switched hrules c f es c')
    (hlinked : c.Linked hrules) (he : c.entryAt f = some e) :
    (e :: es).IsChain (ChainEntry.Follows hrules) := by
  have hlast := hlinked.getLast_truncate he
  obtain ⟨init, hinit⟩ := getLast?_eq_some_iff.1 hlast
  have h := hswitch.linked
  rw [Linked, hswitch.chain_eq] at h
  rw [hinit, append_assoc, singleton_append] at h
  exact h.right_of_append

lemma ScoreInv.storedScore_branch {c₀ : HeaderChain} {s : BatchState} (inv : ScoreInv rules c₀ s)
    (hlinked : s.chain.Linked rules.toHeaderRules) (hpending : s.pendingReorg = some (f, branch))
    (hheaders : es.map (·.header) = branch.map Prod.fst)
    (hswitch : HeaderChain.Switched rules.toHeaderRules s.chain f es c') :
    ∀ e ∈ es, storedScore s.store e.header.id = some e.score := by
  obtain ⟨-, fork, hfork, hbranch⟩ := inv.pending f branch hpending
  exact storedScore_of_branchScored (hswitch.isChain hlinked hfork) hheaders hbranch

namespace ScoresConsistent

variable {p : ValidationPipeline}

lemma new (config : ChainConfig) : ScoresConsistent rules (.new config) where
  add :=
    { agree := by simp [ValidationPipeline.new, HeaderChain.new]
      bytes := fun id raw hraw => by
        simp [ValidationPipeline.new, ModifierStore.empty, ModifierStore.get] at hraw
      hasBytes := fun id s hs => by
        simp [ValidationPipeline.new, ModifierStore.empty, storedScore, ModifierStore.headerScore]
          at hs
      parent := fun h s _ hs => by
        simp [ValidationPipeline.new, empty, storedScore, headerScore]
          at hs
      empty := fun _ id => by
        simp [ValidationPipeline.new, empty, storedScore, headerScore] }
  persisted := by simp [ValidationPipeline.new, HeaderChain.new]

lemma scoreInv_startBatch (h : ScoresConsistent rules p) :
    ScoreInv rules p.chain (startBatch p) :=
  ⟨h.add, h.persisted, by simp [startBatch]⟩

lemma scoreInv_loopEnd (h : ScoresConsistent rules p) (hfree : CollisionFree rules)
    (hwf : p.WellFormed rules) (batch : List ModifierBatchItem) :
    ScoreInv rules p.chain (loopEnd rules now p batch) :=
  h.scoreInv_startBatch.foldl hfree hwf.loopInv_startBatch
    (fun _ hx => isParsed_of_mem_batchHeaders hx)

/-- The end of a batch leaves the scores consistent, and stores exactly the known ones. -/
theorem finishBatch (now : ℕ) {s : BatchState} (hfree : CollisionFree rules)
    (hloop : LoopInv rules p.chain s) (inv : ScoreInv rules p.chain s) :
    ScoresConsistent rules (finishBatch rules now p s) ∧
      ∀ id score, storedScore (ErgoNode.finishBatch rules now p s).store id = some score ↔
        Known s.chain s.store id score := by
  obtain ⟨es, hchain, hrows⟩ := hloop.grown
  have hmem : ∀ e, e ∈ s.chain.entries ↔ e ∈ p.chain.entries ∨ e ∈ es := by
    rw [hchain]
    simp
  have hknown : ∀ store, KeepsScores s.store store →
      ∀ e ∈ es, Known s.chain store e.header.id e.score :=
    fun _ _ e he => Or.inl ⟨e, (hmem e).2 (Or.inr he), rfl, rfl⟩
  -- the flush leaves the whole chain of the loop stored
  have hall : ∀ store, KeepsScores s.store store →
      (∀ e ∈ es, storedScore store e.header.id = some e.score) →
      ∀ e ∈ s.chain.entries, storedScore store e.header.id = some e.score := by
    intro store hkeeps hes e he
    rcases (hmem e).1 he with he | he
    · exact hkeeps _ _ (inv.persisted e he)
    · exact hes e he
  have hknownStored : ∀ store, KeepsScores s.store store →
      (∀ e ∈ s.chain.entries, storedScore store e.header.id = some e.score) →
      ∀ id score, Known s.chain s.store id score → storedScore store id = some score := by
    rintro store hkeeps hchain id score (⟨e, he, rfl, rfl⟩ | hs)
    · exact hchain e he
    · exact hkeeps id score hs
  have hout := executeReorg_outcome now hloop
  unfold ErgoNode.finishBatch
  generalize executeReorg rules now s = out at hout
  cases hout with
  | kept hrefused =>
    obtain ⟨hadd, hkeeps, honly, hstored⟩ := ScoresAdd.flush hfree hloop.linked hloop.parsed hrows inv.add
      (hknown _ (fun _ _ h => h)) none
    have hstored' := hall _ hkeeps hstored
    exact ⟨⟨hadd, hstored'⟩, fun id score =>
      ⟨honly id score, hknownStored _ hkeeps hstored' id score⟩⟩
  | @switched f branch ids chain es' hpending hreorg hheaders hswitch hrows' control =>
    have hbranch := inv.storedScore_branch hloop.linked hpending hheaders hswitch
    obtain ⟨hadd₁, hkeeps₁, honly₁, -⟩ := ScoresAdd.foldl_write hfree hloop.linked hloop.parsed
      (fun store _ _ hrow => writesHeader_putEntry hrow store) hrows' inv.add
      (fun e he => Or.inr (hbranch e he))
    have hsame := sameHeaders_refreshTips
      ((branchRows chain branch).foldl putEntry s.store) (branchRows chain branch)
    have hkeeps₁' : KeepsScores s.store _ :=
      fun id score hs => hsame.keepsScores id score (hkeeps₁ id score hs)
    obtain ⟨hadd₂, hkeeps₂, honly₂, hstored⟩ := ScoresAdd.flush hfree hloop.linked hloop.parsed hrows
      (hadd₁.of_sameHeaders hsame) (hknown _ hkeeps₁') (some f)
    have hkeeps : KeepsScores s.store _ :=
      fun id score hs => hkeeps₂ id score (hkeeps₁' id score hs)
    have hstored' := hall _ hkeeps hstored
    obtain ⟨hadd, hpersisted⟩ := hadd₂.switch hfree hloop.linked hloop.parsed hstored'
      (fun e he => hkeeps _ _ (hbranch e he)) hswitch
    refine ⟨⟨hadd, hpersisted⟩, fun id score =>
      ⟨fun hs => ?_, hknownStored _ hkeeps hstored' id score⟩⟩
    rcases honly₂ id score hs with hon | hs
    · exact Or.inl hon
    · exact honly₁ id score (hsame.storedScore_eq id ▸ hs)

lemma processBatch (h : ScoresConsistent rules p) (hfree : CollisionFree rules)
    (hwf : p.WellFormed rules) (now : ℕ) (batch : List ModifierBatchItem) :
    ScoresConsistent rules (processBatch rules now p batch) := by
  obtain ⟨hchain, -, hsame⟩ := processBatch_eq rules now p batch
  have hafter : ScoresConsistent rules (afterHeaders rules now p batch) := by
    unfold afterHeaders
    split
    · exact h
    · exact (finishBatch now hfree (hwf.loopInv_loopEnd batch)
        (h.scoreInv_loopEnd hfree hwf batch)).1
  refine ⟨hchain ▸ hafter.add.of_sameHeaders hsame, ?_⟩
  rw [hchain]
  exact fun e he => hsame.keepsScores _ _ (hafter.persisted e he)

end ScoresConsistent

end ErgoNode
