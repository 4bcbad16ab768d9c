import ErgoNode.Store.Operations

/-!
# The slots of the header table

The store files the headers of a height under fork numbers. A main-chain batch always takes number
0, a fork header the number its caller chose. Nothing deletes a row, so a header can only be lost
by losing its slot: when a batch puts another header of the same height into slot 0. That is what
a reorg does to the headers it takes off the chain.
-/

namespace ErgoNode

open List ModifierStore

namespace ModifierStore

lemma mem_headerIdsAtHeight {s : ModifierStore} {height fork : ℕ} {id : BlockId} :
    (id, fork) ∈ s.headerIdsAtHeight height ↔ s.headerForks[(height, fork)]? = some id := by
  unfold headerIdsAtHeight
  simp only [mem_map, mem_filter, decide_eq_true_eq, Prod.mk.injEq, Prod.exists]
  constructor
  · rintro ⟨h, f, k, ⟨hmem, rfl⟩, rfl, rfl⟩
    exact Std.ExtTreeMap.mem_toList_iff_getElem?_eq_some.1 hmem
  · intro h
    exact ⟨height, fork, id, ⟨Std.ExtTreeMap.mem_toList_iff_getElem?_eq_some.2 h, rfl⟩, rfl, rfl⟩

/-- The slot a batch entry takes: number 0 at the height of a header, if the height is known. -/
def entrySlot (e : ModifierBatchEntry) : Option (ℕ × ℕ) :=
  if e.typeId = headerTypeId ∧ 0 < e.height then some (e.height, 0) else none

lemma headerForks_putOne (s : ModifierStore) (e : ModifierBatchEntry) (slot : ℕ × ℕ) :
    (s.putOne e).headerForks[slot]? =
      if entrySlot e = some slot then some e.id else s.headerForks[slot]? := by
  show (s.putEntry e).headerForks[slot]? = _
  unfold putEntry entrySlot
  by_cases htype : e.typeId = headerTypeId
  · by_cases hpos : 0 < e.height
    · simp only [htype, hpos, if_true, and_self, getElem?_insert_pair, Option.some.injEq]
    · simp [htype, hpos]
  · by_cases hpos : 0 < e.height
    · simp [htype, hpos]
    · simp [htype, hpos]

lemma headerForks_pruneBelowHeight {s s' : ModifierStore} {horizon : ℕ} {typeIds : List ℕ}
    (h : s.pruneBelowHeight horizon typeIds = .ok s') : s'.headerForks = s.headerForks := by
  unfold pruneBelowHeight at h
  split at h
  · cases h
  · cases h
    rfl

/-- At its turn in the batch, every header finds its slot empty or its own. -/
def BatchKeepsSlots : ModifierStore → List ModifierBatchEntry → Prop
  | _, [] => True
  | s, e :: es =>
    (∀ slot ∈ entrySlot e, ∀ id ∈ s.headerForks[slot]?, id = e.id) ∧
      BatchKeepsSlots (s.putOne e) es

instance decidableBatchKeepsSlots :
    ∀ (s : ModifierStore) (es : List ModifierBatchEntry), Decidable (s.BatchKeepsSlots es)
  | _, [] => .isTrue trivial
  | s, e :: es =>
    have := decidableBatchKeepsSlots (s.putOne e) es
    inferInstanceAs (Decidable ((∀ slot ∈ entrySlot e, ∀ id ∈ s.headerForks[slot]?, id = e.id) ∧
      BatchKeepsSlots (s.putOne e) es))

namespace BatchKeepsSlots

variable {s : ModifierStore} {es : List ModifierBatchEntry}

variable {slot : ℕ × ℕ}

lemma kept (h : s.BatchKeepsSlots es) {id : BlockId}
    (hid : s.headerForks[slot]? = some id) : (es.foldl putOne s).headerForks[slot]? = some id := by
  induction es generalizing s with
  | nil => exact hid
  | cons e es ih =>
    apply ih h.2
    rw [headerForks_putOne]
    split
    next hslot =>
      rw [h.1 slot hslot id hid]
    · exact hid

lemma stored (h : s.BatchKeepsSlots es) {e : ModifierBatchEntry} (he : e ∈ es)
    (hslot : entrySlot e = some slot) :
    (es.foldl putOne s).headerForks[slot]? = some e.id := by
  induction es generalizing s with
  | nil => cases he
  | cons e' es ih =>
    rcases mem_cons.1 he with rfl | he
    · apply kept h.2
      rw [headerForks_putOne, if_pos hslot]
    · exact ih h.2 he

/-- If all that was ever stored has one id for each slot, the batch takes no slot from another
header. -/
theorem of_functional {stored : List ((ℕ × ℕ) × BlockId)}
    (htable : ∀ slot id, s.headerForks[slot]? = some id → (slot, id) ∈ stored)
    (hbatch : ∀ e ∈ es, ∀ slot, entrySlot e = some slot → (slot, e.id) ∈ stored)
    (hone : ∀ r ∈ stored, ∀ r' ∈ stored, r.1 = r'.1 → r.2 = r'.2) : s.BatchKeepsSlots es := by
  induction es generalizing s with
  | nil => trivial
  | cons e es ih =>
    constructor
    · intro slot hslot id hid
      exact hone (slot, id) (htable slot id hid) (slot, e.id)
        (hbatch e mem_cons_self slot hslot) rfl
    · refine ih ?_ (fun e' he' => hbatch e' (mem_cons_of_mem _ he'))
      intro slot id hid
      rw [headerForks_putOne] at hid
      split at hid
      next hslot =>
        cases hid
        exact hbatch e mem_cons_self slot hslot
      · exact htable slot id hid

end BatchKeepsSlots

end ModifierStore

open ModifierStore (entrySlot BatchScored)

/-! ## Runs -/

/-- A store, and the headers that were stored in it with the slot each was assigned. -/
structure SlotLedger where
  store : ModifierStore
  stored : List ((ℕ × ℕ) × BlockId)

namespace SlotLedger

variable {op : StoreOp} {l : SlotLedger}

def empty : SlotLedger := ⟨.empty, []⟩

def assigned (es : List ModifierBatchEntry) : List ((ℕ × ℕ) × BlockId) :=
  es.filterMap (fun e => (entrySlot e).map (fun slot => (slot, e.id)))

/-- The record after an operation. An explicit write takes the slot over from the header that had
it. -/
def record (stored : List ((ℕ × ℕ) × BlockId)) : StoreOp → List ((ℕ × ℕ) × BlockId)
  | .putBatch es => if BatchScored es then assigned es ++ stored else stored
  | .putHeader id height fork _ _ =>
    ((height, fork), id) :: stored.filter (fun r => r.1 ≠ (height, fork))
  | _ => stored

def step (l : SlotLedger) (op : StoreOp) : SlotLedger := ⟨l.store.perform op, record l.stored op⟩

def run (l : SlotLedger) (ops : List StoreOp) : SlotLedger := ops.foldl step l

/-- Every stored header is returned at its height, under its number, which no other header was
assigned. -/
def NothingLost (l : SlotLedger) : Prop :=
  (∀ r ∈ l.stored, (r.2, r.1.2) ∈ l.store.headerIdsAtHeight r.1.1) ∧
    ∀ r ∈ l.stored, ∀ r' ∈ l.stored, r.1 = r'.1 → r.2 = r'.2

instance (l : SlotLedger) : Decidable l.NothingLost := by
  unfold NothingLost
  infer_instance

/-- A batch that is accepted takes no slot from another header. -/
def KeepsSlots (l : SlotLedger) : StoreOp → Prop
  | .putBatch es => BatchScored es → l.store.BatchKeepsSlots es
  | _ => True

instance (l : SlotLedger) (op : StoreOp) : Decidable (l.KeepsSlots op) := by
  unfold KeepsSlots
  split <;> infer_instance

def TableRecorded (l : SlotLedger) : Prop :=
  ∀ slot id, l.store.headerForks[slot]? = some id → (slot, id) ∈ l.stored

lemma mem_assigned {es : List ModifierBatchEntry} {id : BlockId} :
    (slot, id) ∈ assigned es ↔ ∃ e ∈ es, entrySlot e = some slot ∧ e.id = id := by
  simp only [assigned, mem_filterMap, Option.map_eq_some_iff, Prod.mk.injEq]
  constructor
  · rintro ⟨e, he, slot', hslot, rfl, hid⟩
    exact ⟨e, he, hslot, hid⟩
  · rintro ⟨e, he, hslot, hid⟩
    exact ⟨e, he, slot, hslot, rfl, hid⟩

lemma headerForks_perform (s : ModifierStore) (hbatch : ∀ es, op ≠ .putBatch es)
    (hheader : ∀ id height fork score data, op ≠ .putHeader id height fork score data) :
    (s.perform op).headerForks = s.headerForks := by
  have hperformed := s.performed_perform op
  generalize s.perform op = s' at hperformed
  cases hperformed with
  | rejected => rfl
  | @put typeId height id data htype =>
    show (s.putEntry _).headerForks = s.headerForks
    unfold putEntry
    by_cases hpos : 0 < height
    · simp [htype, hpos]
    · simp [htype, hpos]
  | putBatch => exact absurd rfl (hbatch _)
  | putHeader => exact absurd rfl (hheader _ _ _ _ _)
  | scores => rfl
  | pruned h => exact headerForks_pruneBelowHeight h
  | recorded => rfl

lemma perform_putBatch {s : ModifierStore} {es : List ModifierBatchEntry} (h : BatchScored es) :
    s.perform (.putBatch es) = es.foldl ModifierStore.putOne s := by
  rw [perform, tryPerform, putBatch_cases, if_pos h]
  rfl

lemma step_cases (l : SlotLedger) (op : StoreOp) :
    (∃ es, op = .putBatch es ∧ BatchScored es ∧
        l.step op = ⟨es.foldl ModifierStore.putOne l.store, assigned es ++ l.stored⟩) ∨
      (∃ id height fork score data, op = .putHeader id height fork score data) ∨
      (l.KeepsSlots op ∧ (l.step op).store.headerForks = l.store.headerForks ∧
        (l.step op).stored = l.stored) := by
  cases op with
  | putBatch es =>
    by_cases hscored : BatchScored es
    · refine .inl ⟨es, rfl, hscored, ?_⟩
      simp only [step, record, hscored, if_true, perform_putBatch hscored]
    · refine .inr (.inr ⟨fun h => absurd h hscored, ?_, by simp [step, record, hscored]⟩)
      simp [step, perform, tryPerform, putBatch_cases, hscored, Except.toOption]
  | putHeader id height fork score data => exact .inr (.inl ⟨_, _, _, _, _, rfl⟩)
  | put => exact .inr (.inr ⟨trivial, headerForks_perform _ (by simp) (by simp), rfl⟩)
  | putHeaderScore => exact .inr (.inr ⟨trivial, headerForks_perform _ (by simp) (by simp), rfl⟩)
  | putHeaderScoreBatch =>
    exact .inr (.inr ⟨trivial, headerForks_perform _ (by simp) (by simp), rfl⟩)
  | pruneBelowHeight => exact .inr (.inr ⟨trivial, headerForks_perform _ (by simp) (by simp), rfl⟩)
  | setValidatedHeight =>
    exact .inr (.inr ⟨trivial, headerForks_perform _ (by simp) (by simp), rfl⟩)

lemma headerForks_step_putHeader (l : SlotLedger) (id : BlockId) (height fork : ℕ)
    (score : ScoreBytes) (data : Bytes) (slot : ℕ × ℕ) :
    (l.step (.putHeader id height fork score data)).store.headerForks[slot]? =
      if (height, fork) = slot then some id else l.store.headerForks[slot]? :=
  getElem?_insert_pair _ _ _ _

lemma TableRecorded.step (h : l.TableRecorded) (op : StoreOp) :
    (l.step op).TableRecorded := by
  rcases l.step_cases op with ⟨es, rfl, hscored, heq⟩ | ⟨id, height, fork, score, data, rfl⟩ |
    ⟨-, hforks, hstored⟩
  · rw [heq]
    -- a row of the table is an old one or that of an entry
    have hrows : ∀ (es : List ModifierBatchEntry) (s : ModifierStore) slot k,
        (es.foldl putOne s).headerForks[slot]? = some k →
          (slot, k) ∈ assigned es ∨ s.headerForks[slot]? = some k := by
      intro es
      induction es with
      | nil => exact fun s slot k hk => .inr hk
      | cons e es ih =>
        intro s slot k hk
        rcases ih (s.putOne e) slot k hk with hmem | hold
        · obtain ⟨e', he', hslot⟩ := mem_assigned.1 hmem
          exact .inl (mem_assigned.2 ⟨e', mem_cons_of_mem _ he', hslot⟩)
        · rw [headerForks_putOne] at hold
          split at hold
          next hslot =>
            exact .inl (mem_assigned.2 ⟨e, mem_cons_self, hslot, Option.some.inj hold⟩)
          · exact .inr hold
    intro slot k hk
    rcases hrows es l.store slot k hk with hmem | hold
    · exact mem_append_left _ hmem
    · exact mem_append_right _ (h slot k hold)
  · intro slot k hk
    rw [headerForks_step_putHeader] at hk
    split at hk
    next hslot =>
      cases hk
      rw [← hslot]
      exact mem_cons_self
    next hslot =>
      apply mem_cons_of_mem
      rw [mem_filter]
      exact ⟨h slot k hk, by simpa using fun heq => hslot heq.symm⟩
  · intro slot k hk
    rw [hforks] at hk
    rw [hstored]
    exact h slot k hk

lemma nothingLost_of_rows (h : ∀ r ∈ l.stored, l.store.headerForks[r.1]? = some r.2) :
    l.NothingLost := by
  refine ⟨fun r hr => mem_headerIdsAtHeight.2 (h r hr), ?_⟩
  intro r hr r' hr' hslot
  have hrow := h r hr
  rw [hslot, h r' hr'] at hrow
  exact (Option.some.inj hrow).symm

lemma NothingLost.row (h : l.NothingLost) {r : (ℕ × ℕ) × BlockId} (hr : r ∈ l.stored) :
    l.store.headerForks[r.1]? = some r.2 :=
  mem_headerIdsAtHeight.1 (h.1 r hr)

lemma NothingLost.step (h : l.NothingLost) (hkeeps : l.KeepsSlots op) :
    (l.step op).NothingLost := by
  apply nothingLost_of_rows
  rcases l.step_cases op with ⟨es, rfl, hscored, heq⟩ | ⟨id, height, fork, score, data, rfl⟩ |
    ⟨-, hforks, hstored⟩
  · rw [heq]
    have hslots := hkeeps hscored
    rintro ⟨slot, k⟩ hr
    rcases mem_append.1 hr with hnew | hold
    · obtain ⟨e, he, hslot, rfl⟩ := mem_assigned.1 hnew
      exact hslots.stored he hslot
    · exact hslots.kept (h.row hold)
  · intro r hr
    rw [headerForks_step_putHeader]
    rcases mem_cons.1 hr with rfl | hr
    · rw [if_pos rfl]
    · obtain ⟨hold, hne⟩ := mem_filter.1 hr
      rw [if_neg (fun heq => by simp [heq] at hne)]
      exact h.row hold
  · rw [hforks, hstored]
    exact fun r hr => h.row hr

lemma keepsSlots_of_nothingLost (htable : l.TableRecorded) (h : (l.step op).NothingLost) :
    l.KeepsSlots op := by
  rcases l.step_cases op with ⟨es, rfl, hscored, heq⟩ | ⟨id, height, fork, score, data, rfl⟩ |
    ⟨hkeeps, -⟩
  · intro _
    rw [heq] at h
    apply BatchKeepsSlots.of_functional _ _ h.2
    · exact fun slot id hid => mem_append_right _ (htable slot id hid)
    · exact fun e he slot hslot => mem_append_left _ (mem_assigned.2 ⟨e, he, hslot, rfl⟩)
  · trivial
  · exact hkeeps

/-- **Stored headers stay, in every run, exactly if no batch takes a slot from another header.** -/
theorem nothingLost_iff_keepsSlots (ops : List StoreOp) :
    (∀ k, (SlotLedger.empty.run (ops.take k)).NothingLost) ↔
      MeetsAll step KeepsSlots .empty ops := by
  have hstart : SlotLedger.empty.TableRecorded := fun slot id h => by
    cases h
  have hnothing : SlotLedger.empty.NothingLost :=
    nothingLost_of_rows (fun r hr => by cases hr)
  generalize SlotLedger.empty = l at hstart hnothing
  induction ops generalizing l with
  | nil => simpa [run, MeetsAll] using hnothing
  | cons op ops ih =>
    constructor
    · intro h
      have hfirst : (l.step op).NothingLost := h 1
      exact ⟨keepsSlots_of_nothingLost hstart hfirst,
        (ih _ (hstart.step op) hfirst).1 (fun k => h (k + 1))⟩
    · rintro ⟨hkeeps, hrest⟩ k
      have hfirst := hnothing.step hkeeps
      cases k with
      | zero => exact hnothing
      | succ k => exact (ih _ (hstart.step op) hfirst).2 hrest k

/-- The writes of a reorg at height 2: the fork header of that height becomes the main-chain header.
-/
def reorgWrites : List StoreOp :=
  [.putBatch [⟨headerTypeId, 1, 1, [1], some (some 10)⟩, ⟨headerTypeId, 2, 2, [2], some (some 20)⟩],
   .putHeader 12 2 1 (some 30) [12],
   .putBatch [⟨headerTypeId, 12, 2, [12], some (some 30)⟩]]

/-- The header that the reorg replaced is not found any more, and number 0 was assigned twice. -/
theorem reorgWrites_lose_header :
    ¬(SlotLedger.empty.run reorgWrites).NothingLost ∧
      (SlotLedger.empty.run (reorgWrites.take 2)).store.headerIdsAtHeight 2 = [(2, 0), (12, 1)] ∧
      (SlotLedger.empty.run reorgWrites).store.headerIdsAtHeight 2 = [(12, 0), (12, 1)] := by
  decide +kernel

end SlotLedger

end ErgoNode
