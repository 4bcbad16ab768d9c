import ErgoNode.Store.TipCache

/-!
# The indexes and the rows they point to

If every modifier is always stored under one height, the indexes never point to a row that is not
there: a height-index row names stored bytes, and a best-chain row a header with bytes and a score.
A prune deletes the rows that the height index holds below its horizon, with the bytes they name. A
section that lost its row to another section of its height is out of reach of every prune.
-/

namespace ErgoNode

/-- The operation stores each modifier under the height it always has, 0 if that is unknown. -/
def StoreOp.UsesHeight (heightOf : ℕ → BlockId → ℕ) : StoreOp → Prop
  | .put typeId id height _ => height = heightOf typeId id
  | .putBatch es => ∀ e ∈ es, e.height = heightOf e.typeId e.id
  | .putHeader id height _ _ _ => height = heightOf headerTypeId id
  | _ => True

instance (heightOf : ℕ → BlockId → ℕ) : ∀ op : StoreOp, Decidable (op.UsesHeight heightOf)
  | .put typeId id height _ => inferInstanceAs (Decidable (height = heightOf typeId id))
  | .putBatch es =>
    inferInstanceAs (Decidable (∀ e ∈ es, e.height = heightOf e.typeId e.id))
  | .putHeader id height _ _ _ => inferInstanceAs (Decidable (height = heightOf headerTypeId id))
  | .putHeaderScore _ _ | .putHeaderScoreBatch _ | .pruneBelowHeight _ _ | .setValidatedHeight _ =>
    .isTrue trivial

namespace ModifierStore

variable {s s' : ModifierStore} {horizon : ℕ} {typeIds : List ℕ}

/-- An id found at a height has its bytes, and a best-chain header has bytes and a score. -/
structure IndexConsistent (s : ModifierStore) : Prop where
  stored : ∀ typeId height id, s.getIdAt typeId height = some id → s.get typeId id ≠ none
  bestChain : ∀ height id, s.bestHeaderAt height = some id →
    s.get headerTypeId id ≠ none ∧ s.headerScore id ≠ none

structure IndexRows (heightOf : ℕ → BlockId → ℕ) (s : ModifierStore) : Prop where
  heightIndex : ∀ (typeId height : ℕ) (id : BlockId), s.heightIndex[(typeId, height)]? = some id →
    s.get typeId id ≠ none ∧ height = heightOf typeId id ∧ 0 < height
  bestChain : ∀ (height : ℕ) (id : BlockId), s.bestChain[height]? = some id →
    s.get headerTypeId id ≠ none ∧ s.headerScores[id]? ≠ none
  migrated : s.Migrated

variable {heightOf : ℕ → BlockId → ℕ}

lemma IndexRows.indexConsistent (h : IndexRows heightOf s) :
    s.IndexConsistent := by
  refine ⟨fun typeId height id hid => ?_, h.bestChain⟩
  unfold getIdAt at hid
  split at hid
  next htype =>
    rw [htype]
    exact (h.bestChain height id hid).1
  · exact (h.heightIndex typeId height id hid).1

/-! ## The writes -/

lemma get_putOne (s : ModifierStore) (e : ModifierBatchEntry) (typeId : ℕ) (id : BlockId) :
    (s.putOne e).get typeId id = (primaryWrite typeId id e).or (s.get typeId id) :=
  get_putEntry typeId id s e

lemma headerScores_putOne (s : ModifierStore) (e : ModifierBatchEntry) (id : BlockId) :
    (s.putOne e).headerScores[id]? = (headerScoreWrite id e).or s.headerScores[id]? :=
  headerScores_putEntry id s e

lemma bestChain_putOne (s : ModifierStore) (e : ModifierBatchEntry) (height : ℕ) :
    (s.putOne e).bestChain[height]? = (bestChainWrite height e).or s.bestChain[height]? :=
  bestChain_putEntry height s e

lemma or_ne_none_of_right {α : Type*} {a b : Option α} (h : b ≠ none) : a.or b ≠ none := by
  cases a with
  | none => exact h
  | some x => simp

lemma IndexRows.putOne (h : IndexRows heightOf s) {e : ModifierBatchEntry}
    (he : e.height = heightOf e.typeId e.id) : IndexRows heightOf (s.putOne e) where
  heightIndex typeId height id hid := by
    rw [heightIndex_putOne] at hid
    rw [get_putOne]
    rcases Option.or_eq_some_iff.1 hid with hwrite | ⟨-, hold⟩
    · unfold heightIndexWrite at hwrite
      split at hwrite
      next hc =>
        obtain ⟨-, hpos, rfl, rfl⟩ := hc
        cases hwrite
        exact ⟨by simp [primaryWrite], he, hpos⟩
      · cases hwrite
    · obtain ⟨hget, hheight⟩ := h.heightIndex typeId height id hold
      exact ⟨or_ne_none_of_right hget, hheight⟩
  bestChain height id hid := by
    rw [bestChain_putOne] at hid
    rw [get_putOne, headerScores_putOne]
    rcases Option.or_eq_some_iff.1 hid with hwrite | ⟨-, hold⟩
    · unfold bestChainWrite at hwrite
      split at hwrite
      next hc =>
        obtain ⟨htype, hpos, rfl⟩ := hc
        cases hwrite
        exact ⟨by simp [primaryWrite, htype], by simp [headerScoreWrite, htype]⟩
      · cases hwrite
    · obtain ⟨hget, hscore⟩ := h.bestChain height id hold
      exact ⟨or_ne_none_of_right hget, or_ne_none_of_right hscore⟩
  migrated := h.migrated.putOne e

lemma IndexRows.foldl_putOne (h : IndexRows heightOf s)
    {es : List ModifierBatchEntry} (hes : ∀ e ∈ es, e.height = heightOf e.typeId e.id) :
    IndexRows heightOf (es.foldl ModifierStore.putOne s) := by
  induction es generalizing s with
  | nil => exact h
  | cons e es ih =>
    exact ih (h.putOne (hes e List.mem_cons_self)) (fun e' he' => hes e' (List.mem_cons_of_mem _ he'))

lemma IndexRows.putHeader (h : IndexRows heightOf s) (id : BlockId)
    (height fork : ℕ) (score : ScoreBytes) (data : Bytes) :
    IndexRows heightOf (s.putHeader id height fork score data) where
  heightIndex typeId k id' hid := by
    obtain ⟨hget, hheight⟩ := h.heightIndex typeId k id' hid
    refine ⟨?_, hheight⟩
    rw [get_putHeader]
    split
    · simp
    · exact hget
  bestChain k id' hid := by
    rw [bestChain_putHeader] at hid
    rw [get_putHeader, headerScores_putHeader]
    rcases Option.or_eq_some_iff.1 hid with hold | ⟨-, hnew⟩
    · obtain ⟨hget, hscore⟩ := h.bestChain k id' hold
      constructor
      · split
        · simp
        · exact hget
      · split
        · simp
        · exact hscore
    · split at hnew
      · cases hnew
        simp
      · cases hnew
  migrated := h.migrated

lemma headerScores_foldl_insert_ne_none (entries : List (BlockId × ScoreBytes))
    {t : Table ScoreBytes} {id : BlockId} (h : t[id]? ≠ none) :
    (entries.foldl (fun t (e : BlockId × ScoreBytes) => t.insert e.1 e.2) t)[id]? ≠ none := by
  induction entries generalizing t with
  | nil => exact h
  | cons e entries ih =>
    apply ih
    rw [getElem?_insert_nat]
    split
    · simp
    · exact h

lemma IndexRows.prune (h : IndexRows heightOf s)
    (hprune : s.pruneBelowHeight horizon typeIds = .ok s') :
    IndexRows heightOf s' where
  heightIndex typeId height id hid := by
    rw [heightIndex_pruneBelowHeight hprune] at hid
    split at hid
    · cases hid
    next hkept =>
      obtain ⟨hget, hheight, hpos⟩ := h.heightIndex typeId height id hid
      refine ⟨?_, hheight, hpos⟩
      rw [(get_pruneBelowHeight hprune typeId id).2 ?_]
      · exact hget
      · rintro ⟨k, hpruned, hrow⟩
        obtain ⟨-, hk, -⟩ := h.heightIndex typeId k id hrow
        exact hkept (hheight.trans hk.symm ▸ hpruned)
  bestChain height id hid := by
    obtain ⟨hheader, hs'⟩ := pruneBelowHeight_eq_ok hprune
    have hbest : s'.bestChain = s.bestChain := by rw [hs']
    have hscores : s'.headerScores = s.headerScores := by rw [hs']
    rw [hbest] at hid
    obtain ⟨hget, hscore⟩ := h.bestChain height id hid
    rw [hscores, (get_pruneBelowHeight hprune headerTypeId id).2 (fun hc => ?_)]
    · exact ⟨hget, hscore⟩
    · obtain ⟨k, hpruned, -⟩ := hc
      exact hheader hpruned.1
  migrated height := by
    rw [heightIndex_pruneBelowHeight hprune, h.migrated height, ite_self]

lemma IndexRows.perform (h : IndexRows heightOf s) {op : StoreOp} (hop : op.UsesHeight heightOf) :
    IndexRows heightOf (s.perform op) := by
  have hperformed := s.performed_perform op
  generalize s.perform op = s' at hperformed
  cases hperformed with
  | rejected => exact h
  | put => exact h.putOne hop
  | putBatch => exact h.foldl_putOne hop
  | putHeader id height fork score data => exact h.putHeader id height fork score data
  | scores entries =>
    refine ⟨h.heightIndex, fun height id hid => ?_, h.migrated⟩
    obtain ⟨hget, hscore⟩ := h.bestChain height id hid
    exact ⟨hget, headerScores_foldl_insert_ne_none entries hscore⟩
  | pruned hprune => exact h.prune hprune
  | recorded => exact { h with }

lemma indexRows_empty : IndexRows heightOf empty where
  heightIndex typeId height id hid := by
    cases hid
  bestChain height id hid := by
    cases hid
  migrated := migrated_empty

lemma indexRows_performAll {ops : List StoreOp} (h : ∀ op ∈ ops, op.UsesHeight heightOf) :
    IndexRows heightOf (empty.performAll ops) := by
  -- from any state that has the invariant
  suffices hgen : ∀ s : ModifierStore, IndexRows heightOf s →
      IndexRows heightOf (s.performAll ops) from hgen empty indexRows_empty
  induction ops with
  | nil => exact fun _ hs => hs
  | cons op ops ih =>
    intro s hs
    exact ih (fun op' hop' => h op' (List.mem_cons_of_mem _ hop')) _
      (hs.perform (h op List.mem_cons_self))

/-! ## Pruning -/

/-- A section of one of the types with a height below the horizon. -/
def BelowHorizon (heightOf : ℕ → BlockId → ℕ) (horizon : ℕ) (typeIds : List ℕ)
    (_ : ModifierStore) (typeId : ℕ) (id : BlockId) : Prop :=
  typeId ∈ typeIds ∧ heightOf typeId id < horizon

/-- A section below the horizon that the height index holds at its height. -/
def IndexedBelow (heightOf : ℕ → BlockId → ℕ) (horizon : ℕ) (typeIds : List ℕ)
    (s : ModifierStore) (typeId : ℕ) (id : BlockId) : Prop :=
  BelowHorizon heightOf horizon typeIds s typeId id ∧
    s.heightIndex[(typeId, heightOf typeId id)]? = some id

/-- The bytes of the deleted sections and the index rows below the horizon are gone, and nothing
else. -/
structure PruneExact (deleted : ModifierStore → ℕ → BlockId → Prop) (horizon : ℕ)
    (typeIds : List ℕ) (s s' : ModifierStore) : Prop where
  gone : ∀ typeId id, deleted s typeId id → s'.get typeId id = none
  kept : ∀ typeId id, ¬deleted s typeId id → s'.get typeId id = s.get typeId id
  heightIndex : ∀ typeId height : ℕ, s'.heightIndex[(typeId, height)]? =
    if typeId ∈ typeIds ∧ height < horizon then none else s.heightIndex[(typeId, height)]?
  headerForks : s'.headerForks = s.headerForks
  headerScores : s'.headerScores = s.headerScores
  bestChain : s'.bestChain = s.bestChain
  validatedHeight : s'.validatedHeight = s.validatedHeight

lemma prune_idempotent (hprune : s.pruneBelowHeight horizon typeIds = .ok s') :
    s'.pruneBelowHeight horizon typeIds = .ok s' := by
  have hheader := (pruneBelowHeight_eq_ok hprune).1
  have hnone : s'.heightIndex.toList.filter
      (fun e => e.1.1 ∈ typeIds ∧ e.1.2 < horizon) = [] := by
    rw [List.filter_eq_nil_iff]
    rintro ⟨⟨typeId, height⟩, id⟩ hmem
    have hrow := Std.ExtTreeMap.mem_toList_iff_getElem?_eq_some.1 hmem
    rw [heightIndex_pruneBelowHeight hprune] at hrow
    split at hrow
    · cases hrow
    next hkept =>
      simpa [Pruned] using hkept
  unfold pruneBelowHeight
  rw [if_neg hheader]
  simp only [hnone, List.foldl_nil]

lemma pruneExact_indexedBelow (h : IndexRows heightOf s)
    (hprune : s.pruneBelowHeight horizon typeIds = .ok s') :
    PruneExact (IndexedBelow heightOf horizon typeIds) horizon typeIds s s' := by
  obtain ⟨-, hs'⟩ := pruneBelowHeight_eq_ok hprune
  refine ⟨fun typeId id hdeleted => ?_, fun typeId id hkept => ?_,
    heightIndex_pruneBelowHeight hprune, by rw [hs'], by rw [hs'], by rw [hs'], by rw [hs']⟩
  · obtain ⟨hbelow, hrow⟩ := hdeleted
    exact (get_pruneBelowHeight hprune typeId id).1 ⟨heightOf typeId id, hbelow, hrow⟩
  · apply (get_pruneBelowHeight hprune typeId id).2
    rintro ⟨height, hpruned, hrow⟩
    -- the row is at the height of its section
    obtain ⟨-, rfl, -⟩ := h.heightIndex typeId height id hrow
    exact hkept ⟨hpruned, hrow⟩

/-- **The indexes are consistent in every run, and a prune deletes exactly the sections indexed
below its horizon, and is idempotent.** -/
theorem indexConsistent_and_pruneExact (ops : List StoreOp)
    (hops : ∀ op ∈ ops, op.UsesHeight heightOf) :
    (empty.performAll ops).IndexConsistent ∧
      ∀ horizon typeIds s', (empty.performAll ops).pruneBelowHeight horizon typeIds = .ok s' →
        PruneExact (IndexedBelow heightOf horizon typeIds) horizon typeIds
          (empty.performAll ops) s' ∧ s'.pruneBelowHeight horizon typeIds = .ok s' := by
  have hrows := indexRows_performAll hops
  exact ⟨hrows.indexConsistent, fun horizon typeIds s' hprune =>
    ⟨pruneExact_indexedBelow hrows hprune, prune_idempotent hprune⟩⟩

def neighbours : List StoreOp := [.put 102 5 5 [1], .put 102 6 6 [2]]

theorem pruneExact_neighbours :
    (∀ op ∈ neighbours, op.UsesHeight (fun _ id => id)) ∧
      (empty.performAll neighbours).IndexConsistent ∧
      PruneExact (IndexedBelow (fun _ id => id) 6 [102]) 6 [102] (empty.performAll neighbours)
        (empty.performAll (neighbours ++ [.pruneBelowHeight 6 [102]])) :=
  have hops : ∀ op ∈ neighbours, op.UsesHeight (fun _ id => id) := by decide
  have hprune := indexConsistent_and_pruneExact neighbours hops
  ⟨hops, hprune.1, (hprune.2 6 [102] _ rfl).1⟩

/-- Two sections of one height: the first lost its index row to the second, and a prune leaves its
bytes behind. -/
theorem not_pruneExact_competingSections :
    (∀ op ∈ [StoreOp.put 102 1 5 [1], .put 102 2 5 [2]], op.UsesHeight (fun _ _ => 5)) ∧
      competingSections.pruneBelowHeight 10 [102] =
        .ok (competingSections.perform (.pruneBelowHeight 10 [102])) ∧
      (competingSections.perform (.pruneBelowHeight 10 [102])).get 102 1 = some [1] ∧
      ¬PruneExact (BelowHorizon (fun _ _ => 5) 10 [102]) 10 [102] competingSections
        (competingSections.perform (.pruneBelowHeight 10 [102])) := by
  refine ⟨by decide, rfl, by decide +kernel, fun h => ?_⟩
  exact absurd (h.gone 102 1 ⟨by decide, by decide⟩) (by decide +kernel)

end ModifierStore

end ErgoNode
