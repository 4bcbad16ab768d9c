import ErgoNode.Store.Modifier
import ErgoNode.Library.Run

/-!
# Runs of store operations

The write operations of the modifier store as one type, and what each of them does to each table.
A rejected operation changes nothing.

A batch is one transaction, but its rows are written one after the other and its effect is that of
writing its entries one by one (`foldl_putOne`), so what holds of every entry holds of every batch.
-/

namespace ErgoNode

open List

inductive StoreOp where
  | put (typeId : ℕ) (id : BlockId) (height : ℕ) (data : Bytes)
  | putBatch (entries : List ModifierBatchEntry)
  | putHeader (id : BlockId) (height fork : ℕ) (score : ScoreBytes) (data : Bytes)
  | putHeaderScore (id : BlockId) (score : ScoreBytes)
  | putHeaderScoreBatch (entries : List (BlockId × ScoreBytes))
  | pruneBelowHeight (horizon : ℕ) (typeIds : List ℕ)
  | setValidatedHeight (height : ℕ)
deriving DecidableEq, Repr

namespace ModifierStore

def tryPerform (s : ModifierStore) : StoreOp → Except StoreError ModifierStore
  | .put typeId id height data => s.put typeId id height data
  | .putBatch entries => s.putBatch entries
  | .putHeader id height fork score data => .ok (s.putHeader id height fork score data)
  | .putHeaderScore id score => s.putHeaderScore id score
  | .putHeaderScoreBatch entries => s.putHeaderScoreBatch entries
  | .pruneBelowHeight horizon typeIds => s.pruneBelowHeight horizon typeIds
  | .setValidatedHeight height => .ok (s.setValidatedHeight height)

/-- The store after an operation. A rejected one is rolled back. -/
def perform (s : ModifierStore) (op : StoreOp) : ModifierStore := (s.tryPerform op).toOption.getD s

def putOne (s : ModifierStore) (e : ModifierBatchEntry) : ModifierStore :=
  (s.putEntry e).refreshTips [e]

/-! ## A batch is its entries one by one -/

def higherTip (old new : Option (ℕ × BlockId)) : Option (ℕ × BlockId) :=
  match new with
  | some tip => if old.all (fun t => t.1 < tip.1) then some tip else old
  | none => old

def tipOffer (typeId : ℕ) (e : ModifierBatchEntry) : Option (ℕ × BlockId) :=
  if e.typeId = typeId ∧ 0 < e.height then some (e.height, e.id) else none

lemma higherTip_assoc (a b c : Option (ℕ × BlockId)) :
    higherTip (higherTip a b) c = higherTip a (higherTip b c) := by
  unfold higherTip
  cases a <;> cases b <;> cases c <;> simp <;> grind

@[simp]
lemma higherTip_none_left (a : Option (ℕ × BlockId)) : higherTip none a = a := by
  cases a <;> rfl

lemma higherTip_foldl (typeId : ℕ) (es : List ModifierBatchEntry) (a b : Option (ℕ × BlockId)) :
    higherTip a (es.foldl (fun tip e => higherTip tip (tipOffer typeId e)) b) =
      es.foldl (fun tip e => higherTip tip (tipOffer typeId e)) (higherTip a b) := by
  induction es generalizing b with
  | nil => rfl
  | cons e es ih =>
    rw [foldl_cons, foldl_cons, ih, higherTip_assoc]

lemma bestHeaderTip_refreshTips (s : ModifierStore) (es : List ModifierBatchEntry) :
    (s.refreshTips es).bestHeaderTip =
      es.foldl (fun tip e => higherTip tip (tipOffer headerTypeId e)) s.bestHeaderTip := by
  have hstep : (fun (tip : Option (ℕ × BlockId)) (e : ModifierBatchEntry) =>
      if e.typeId = headerTypeId ∧ 0 < e.height ∧ tip.all (fun t => t.1 < e.height)
      then some (e.height, e.id) else tip) =
      fun tip e => higherTip tip (tipOffer headerTypeId e) := by
    funext tip e
    by_cases hoffer : e.typeId = headerTypeId ∧ 0 < e.height
    · simp [higherTip, tipOffer, hoffer]
    · have hrefused : ¬(e.typeId = headerTypeId ∧ 0 < e.height ∧
          tip.all (fun t => t.1 < e.height)) := fun h => hoffer ⟨h.1, h.2.1⟩
      rw [if_neg hrefused, tipOffer, if_neg hoffer]
      rfl
  show higherTip s.bestHeaderTip (es.foldl _ none) = _
  rw [hstep, higherTip_foldl]
  rfl

lemma tips_refreshTips (s : ModifierStore) (es : List ModifierBatchEntry) {typeId : ℕ}
    (htype : typeId ≠ headerTypeId) :
    (s.refreshTips es).tips[typeId]? =
      es.foldl (fun tip e => higherTip tip (tipOffer typeId e)) s.tips[typeId]? := by
  show (es.foldl _ s.tips)[typeId]? = _
  generalize s.tips = tips
  induction es generalizing tips with
  | nil => rfl
  | cons e es ih =>
    rw [foldl_cons, foldl_cons, ih]
    split
    next h =>
      rw [getElem?_insert_nat]
      by_cases heq : e.typeId = typeId
      · subst heq
        simp [higherTip, tipOffer, h.2.1, h.2.2]
      · simp [higherTip, tipOffer, heq]
    next h =>
      by_cases heq : e.typeId = typeId ∧ 0 < e.height
      · obtain ⟨rfl, hpos⟩ := heq
        have hhigh : ¬(tips[e.typeId]?).all (fun t => t.1 < e.height) = true :=
          fun hall => h ⟨htype, hpos, hall⟩
        simp [higherTip, tipOffer, hpos, hhigh]
      · simp [higherTip, tipOffer, heq]

lemma putEntry_refreshTips (s : ModifierStore) (es : List ModifierBatchEntry)
    (e : ModifierBatchEntry) : (s.refreshTips es).putEntry e = (s.putEntry e).refreshTips es := by
  unfold putEntry
  by_cases htype : e.typeId = headerTypeId
  · by_cases hpos : 0 < e.height
    · simp only [htype, hpos, if_true]
      rfl
    · simp only [htype, hpos, if_true, if_false]
      rfl
  · by_cases hpos : 0 < e.height
    · simp only [htype, hpos, if_true, if_false]
      rfl
    · simp only [htype, hpos, if_false]
      rfl

lemma refreshTips_concat (s : ModifierStore) (es : List ModifierBatchEntry)
    (e : ModifierBatchEntry) : (s.refreshTips es).refreshTips [e] = s.refreshTips (es ++ [e]) := by
  have hbest : ((s.refreshTips es).refreshTips [e]).bestHeaderTip =
      (s.refreshTips (es ++ [e])).bestHeaderTip := by
    simp only [bestHeaderTip_refreshTips, foldl_append]
  have htips : ((s.refreshTips es).refreshTips [e]).tips = (s.refreshTips (es ++ [e])).tips := by
    simp only [refreshTips, foldl_append]
  show { s with
    tips := ((s.refreshTips es).refreshTips [e]).tips
    bestHeaderTip := ((s.refreshTips es).refreshTips [e]).bestHeaderTip } = _
  rw [hbest, htips]
  rfl

/-- **A batch has the effect of its entries, written one by one.** -/
theorem foldl_putOne (s : ModifierStore) (es : List ModifierBatchEntry) :
    es.foldl putOne s = (es.foldl putEntry s).refreshTips es := by
  induction es using reverseRecOn with
  | nil => rfl
  | append_singleton es e ih =>
    rw [foldl_append, foldl_append, ih, foldl_cons, foldl_nil, foldl_cons,
      foldl_nil, putOne, putEntry_refreshTips, refreshTips_concat]

def BatchScored (es : List ModifierBatchEntry) : Prop :=
  ∀ e ∈ es, e.typeId = headerTypeId → e.score ≠ none

instance (es : List ModifierBatchEntry) : Decidable (BatchScored es) := by
  unfold BatchScored
  infer_instance

lemma putBatch_cases (s : ModifierStore) (es : List ModifierBatchEntry) :
    s.putBatch es =
      if BatchScored es then .ok (es.foldl putOne s) else .error .scoreRequiredForHeader := by
  unfold putBatch
  have hiff : (es.any (fun e => e.typeId = headerTypeId ∧ e.score = none)) = true ↔
      ¬BatchScored es := by
    simp [BatchScored]
  by_cases hscored : BatchScored es
  · rw [if_pos hscored, if_neg (fun h => hiff.1 h hscored), foldl_putOne]
  · rw [if_neg hscored, if_pos (hiff.2 hscored)]

/-! ## The height index -/

def heightIndexWrite (typeId height : ℕ) (e : ModifierBatchEntry) : Option BlockId :=
  if e.typeId ≠ headerTypeId ∧ 0 < e.height ∧ e.typeId = typeId ∧ e.height = height then some e.id
  else none

lemma heightIndex_putOne (s : ModifierStore) (e : ModifierBatchEntry) (typeId height : ℕ) :
    (s.putOne e).heightIndex[(typeId, height)]? =
      (heightIndexWrite typeId height e).or s.heightIndex[(typeId, height)]? := by
  show (s.putEntry e).heightIndex[(typeId, height)]? = _
  unfold putEntry heightIndexWrite
  by_cases htype : e.typeId = headerTypeId
  · by_cases hpos : 0 < e.height
    · simp [htype, hpos]
    · simp [htype, hpos]
  · by_cases hpos : 0 < e.height
    · simp only [htype, hpos, if_true, if_false, getElem?_insert_pair, Prod.mk.injEq,
        not_false_eq_true, ne_eq, true_and]
      split
      · simp
      · simp
    · simp [htype, hpos]

/-- A row that a prune deletes from the height index. -/
def Pruned (horizon : ℕ) (typeIds : List ℕ) (typeId height : ℕ) : Prop :=
  typeId ∈ typeIds ∧ height < horizon

instance (horizon : ℕ) (typeIds : List ℕ) (typeId height : ℕ) :
    Decidable (Pruned horizon typeIds typeId height) := by
  unfold Pruned
  infer_instance

section Prune

variable {s s' : ModifierStore} {horizon : ℕ} {typeIds : List ℕ}

lemma pruneBelowHeight_eq_ok (h : s.pruneBelowHeight horizon typeIds = .ok s') :
    headerTypeId ∉ typeIds ∧ s' = { s with
      primary := (s.heightIndex.toList.filter (fun e => e.1.1 ∈ typeIds ∧ e.1.2 < horizon)).foldl
        (fun t e => t.erase (e.1.1, e.2)) s.primary
      heightIndex := (s.heightIndex.toList.filter
        (fun e => e.1.1 ∈ typeIds ∧ e.1.2 < horizon)).foldl (fun t e => t.erase e.1)
        s.heightIndex } := by
  unfold pruneBelowHeight at h
  split at h
  · cases h
  next hheader =>
    exact ⟨hheader, (Except.ok.inj h).symm⟩

lemma heightIndex_pruneBelowHeight (h : s.pruneBelowHeight horizon typeIds = .ok s')
    (typeId height : ℕ) :
    s'.heightIndex[(typeId, height)]? =
      if Pruned horizon typeIds typeId height then none
      else s.heightIndex[(typeId, height)]? := by
  obtain ⟨-, rfl⟩ := pruneBelowHeight_eq_ok h
  rw [getElem?_foldl_erase]
  by_cases hrow : s.heightIndex[(typeId, height)]? = none
  · simp [hrow]
  · obtain ⟨id, hid⟩ := Option.ne_none_iff_exists'.1 hrow
    have hiff : (typeId, height) ∈ (s.heightIndex.toList.filter
        (fun e => e.1.1 ∈ typeIds ∧ e.1.2 < horizon)).map (fun e => e.1) ↔
        Pruned horizon typeIds typeId height := by
      simp only [mem_map, mem_filter, decide_eq_true_eq, Prod.exists]
      constructor
      · rintro ⟨t, k, v, ⟨-, hp⟩, heq⟩
        obtain ⟨rfl, rfl⟩ := Prod.mk.injEq .. ▸ heq
        exact hp
      · intro hp
        exact ⟨typeId, height, id, ⟨Std.ExtTreeMap.mem_toList_iff_getElem?_eq_some.2 hid, hp⟩, rfl⟩
    simp only [hiff]

lemma get_pruneBelowHeight (h : s.pruneBelowHeight horizon typeIds = .ok s') (typeId : ℕ)
    (id : BlockId) :
    ((∃ height, Pruned horizon typeIds typeId height ∧
        s.heightIndex[(typeId, height)]? = some id) → s'.get typeId id = none) ∧
      ((¬∃ height, Pruned horizon typeIds typeId height ∧
        s.heightIndex[(typeId, height)]? = some id) → s'.get typeId id = s.get typeId id) := by
  obtain ⟨-, rfl⟩ := pruneBelowHeight_eq_ok h
  have hiff : (typeId, id) ∈ (s.heightIndex.toList.filter
      (fun e => e.1.1 ∈ typeIds ∧ e.1.2 < horizon)).map (fun e => (e.1.1, e.2)) ↔
      ∃ height, Pruned horizon typeIds typeId height ∧
        s.heightIndex[(typeId, height)]? = some id := by
    simp only [mem_map, mem_filter, decide_eq_true_eq, Prod.exists, Prod.mk.injEq]
    constructor
    · rintro ⟨t, k, v, ⟨hmem, hp⟩, rfl, rfl⟩
      exact ⟨k, hp, Std.ExtTreeMap.mem_toList_iff_getElem?_eq_some.1 hmem⟩
    · rintro ⟨k, hp, hrow⟩
      exact ⟨typeId, k, id, ⟨Std.ExtTreeMap.mem_toList_iff_getElem?_eq_some.2 hrow, hp⟩, rfl, rfl⟩
  have hget : ∀ t : PairTable Bytes, t = (s.heightIndex.toList.filter
      (fun e => e.1.1 ∈ typeIds ∧ e.1.2 < horizon)).foldl (fun t e => t.erase (e.1.1, e.2))
        s.primary → t[(typeId, id)]? = if (typeId, id) ∈ (s.heightIndex.toList.filter
      (fun e => e.1.1 ∈ typeIds ∧ e.1.2 < horizon)).map (fun e => (e.1.1, e.2)) then none
        else s.primary[(typeId, id)]? := by
    rintro t rfl
    exact getElem?_foldl_erase (fun e : (ℕ × ℕ) × BlockId => (e.1.1, e.2)) _ _ _
  constructor
  · intro hrow
    exact (hget _ rfl).trans (if_pos (hiff.2 hrow))
  · intro hrow
    exact (hget _ rfl).trans (if_neg (fun hmem => hrow (hiff.1 hmem)))

end Prune

/-! ## Invariants of runs -/

/-- What an operation does to the indexed tables. -/
inductive Performed (s : ModifierStore) : StoreOp → ModifierStore → Prop
  | rejected (op : StoreOp) : Performed s op s
  | put {typeId height : ℕ} {id : BlockId} {data : Bytes} (htype : typeId ≠ headerTypeId) :
      Performed s (.put typeId id height data) (s.putOne ⟨typeId, id, height, data, none⟩)
  | putBatch {es : List ModifierBatchEntry} (hscored : BatchScored es) :
      Performed s (.putBatch es) (es.foldl putOne s)
  | putHeader (id : BlockId) (height fork : ℕ) (score : ScoreBytes) (data : Bytes) :
      Performed s (.putHeader id height fork score data) (s.putHeader id height fork score data)
  | scores {op : StoreOp} (entries : List (BlockId × ScoreBytes))
      (hop : op = .putHeaderScoreBatch entries ∨ ∃ id score, op = .putHeaderScore id score) :
      Performed s op { s with
        headerScores := entries.foldl (fun t (e : BlockId × ScoreBytes) => t.insert e.1 e.2)
          s.headerScores }
  | pruned {horizon : ℕ} {typeIds : List ℕ} {s' : ModifierStore}
      (h : s.pruneBelowHeight horizon typeIds = .ok s') :
      Performed s (.pruneBelowHeight horizon typeIds) s'
  | recorded (height : ℕ) : Performed s (.setValidatedHeight height) (s.setValidatedHeight height)

lemma perform_put (s : ModifierStore) {typeId : ℕ} (htype : typeId ≠ headerTypeId) (id : BlockId)
    (height : ℕ) (data : Bytes) :
    s.perform (.put typeId id height data) = s.putOne ⟨typeId, id, height, data, none⟩ := by
  have hscored : BatchScored [⟨typeId, id, height, data, none⟩] := by
    intro e he htype'
    obtain rfl := mem_singleton.1 he
    exact absurd htype' htype
  rw [perform, tryPerform, ModifierStore.put, if_neg htype, putBatch_cases, if_pos hscored]
  rfl

lemma performed_perform (s : ModifierStore) (op : StoreOp) : Performed s op (s.perform op) := by
  have hscores : ∀ op entries, (op = .putHeaderScoreBatch entries ∨
      ∃ id score, op = .putHeaderScore id score) →
      Performed s op ((s.putHeaderScoreBatch entries).toOption.getD s) := by
    intro op entries hop
    unfold putHeaderScoreBatch
    split
    · exact .rejected op
    · exact .scores entries hop
  cases op with
  | put typeId id height data =>
    by_cases htype : typeId = headerTypeId
    · simp only [perform, tryPerform, ModifierStore.put, htype, if_true]
      exact .rejected _
    · rw [perform_put s htype]
      exact .put htype
  | putBatch es =>
    simp only [perform, tryPerform, putBatch_cases]
    split
    next hscored =>
      exact .putBatch hscored
    · exact .rejected _
  | putHeader id height fork score data => exact .putHeader id height fork score data
  | putHeaderScore id score => exact hscores _ _ (.inr ⟨id, score, rfl⟩)
  | putHeaderScoreBatch entries => exact hscores _ entries (.inl rfl)
  | pruneBelowHeight horizon typeIds =>
    simp only [perform, tryPerform]
    cases h : s.pruneBelowHeight horizon typeIds with
    | error e => exact .rejected _
    | ok s' => exact .pruned h
  | setValidatedHeight height => exact .recorded height

end ModifierStore

end ErgoNode
