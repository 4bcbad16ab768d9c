import ErgoNode.Mempool.Consistent

/-!
# What `process` answers

An answer is truthful when it says what happened to the pool. It is, unless a transaction that
conflicts with none is accepted by a full pool. Then one transaction is evicted without being
reported, and since the fee of the new one has been added to its ancestors by then, it can be the
new one itself.
-/

namespace ErgoNode

open List

namespace OrderedPool

variable {p : OrderedPool}

def txs (p : OrderedPool) : List ErgoTransaction := p.ordered.map (·.2.tx)

lemma mem_txs {tx : ErgoTransaction} : tx ∈ p.txs ↔ ∃ e ∈ p.ordered, e.2.tx = tx := mem_map

lemma length_txs (p : OrderedPool) : p.txs.length = p.len := length_map _

lemma Consistent.nodup_txs (h : p.Consistent) : (p.txs.map (·.id)).Nodup := by
  have hids : p.txs.map (·.id) = p.ordered.map (·.1.txId) := by
    rw [txs, map_map]
    exact map_congr_left (fun e he => (h.keyed e he).symm)
  rw [hids]
  exact h.nodup

lemma Consistent.perm_removeOrdered (h : p.Consistent) {e : PoolEntry} (he : e ∈ p.ordered) :
    p.ordered.Perm (e :: removeOrdered e.1 p.ordered) := by
  have hnodup := h.nodup.of_map
  have hrest : (removeOrdered e.1 p.ordered).Nodup := hnodup.filter _
  refine (perm_ext_iff_of_nodup hnodup (nodup_cons.2 ⟨fun hmem => ?_, hrest⟩)).2 (fun e' => ?_)
  · exact ((h.mem_removeOrdered he).1 hmem).2 rfl
  · rw [mem_cons, h.mem_removeOrdered he]
    refine ⟨fun he' => ?_, fun hmem => hmem.elim (fun heq => heq ▸ he) And.left⟩
    by_cases heq : e'.1.txId = e.1.txId
    · exact .inl (h.eq_of_txId he' he heq)
    · exact .inr ⟨he', heq⟩

lemma Consistent.txs_updateWeight (h : p.Consistent) (txId : TxId) (newWeight : ℕ) :
    (p.updateWeight txId newWeight).txs.Perm p.txs := by
  cases hw : p.byId txId with
  | none => rw [OrderedPool.updateWeight, hw]
  | some w =>
    obtain ⟨utx, he, rfl⟩ := h.byId_eq_some.1 hw
    exact ((h.updateWeight_perm he newWeight).map (·.2.tx)).trans
      ((h.perm_removeOrdered he).symm.map (·.2.tx))

lemma Consistent.txs_propagateFamilyWeight (h : p.Consistent) (inputIds : List BoxRef)
    (feePerFactor budget : ℕ) :
    (p.propagateFamilyWeight inputIds feePerFactor budget).txs.Perm p.txs :=
  (propagateLoop_of_updateWeight (P := fun q => q.Consistent ∧ q.txs.Perm p.txs)
    (fun txId w hq => ⟨hq.1.updateWeight txId w, (hq.1.txs_updateWeight txId w).trans hq.2⟩)
    budget _ _ ⟨h, .refl _⟩).2

lemma Consistent.txs_remove (h : p.Consistent) {e : PoolEntry} (he : e ∈ p.ordered) :
    p.txs.Perm (e.2.tx :: (p.remove e.1.txId).2.txs) := by
  rw [OrderedPool.remove, h.byId_eq_some.2 ⟨e.2, he, (h.keyed e he).symm⟩]
  simp only [h.lookup_of_mem he]
  exact (h.perm_removeOrdered he).map _

/-- Over capacity by one, one transaction is evicted. -/
theorem Consistent.txs_evictOver (h : p.Consistent) {capacity : ℕ} (hlen : p.len = capacity + 1) :
    ∃ gone, p.txs.Perm (gone :: (p.evictOver capacity p.len).2.txs) := by
  obtain ⟨e, he⟩ : ∃ e, p.ordered.getLast? = some e := by
    rw [← Option.isSome_iff_exists, getLast?_isSome]
    rintro hnil
    rw [len, hnil] at hlen
    cases hlen
  have hgone := h.txs_remove (mem_of_getLast? he)
  have hless : ¬capacity < (p.remove e.1.txId).2.len := by
    have hlength := hgone.length_eq
    rw [length_cons, length_txs, length_txs] at hlength
    omega
  refine ⟨e.2.tx, ?_⟩
  rw [hlen, OrderedPool.evictOver, if_pos (by omega)]
  simp only [evictLowest, he]
  cases capacity with
  | zero => exact hgone
  | succ capacity =>
    rwa [OrderedPool.evictOver, if_neg hless]

lemma exists_of_mem_conflicts (h : p.Consistent) {inputIds : List BoxRef} {txId : TxId}
    (hmem : txId ∈ p.conflicts inputIds) : ∃ e ∈ p.ordered, e.1.txId = txId := by
  have hall : ∀ found : List TxId, (∀ id ∈ found, ∃ e ∈ p.ordered, e.1.txId = id) →
      ∀ id ∈ inputIds.foldl p.addConflict found, ∃ e ∈ p.ordered, e.1.txId = id := by
    clear hmem
    induction inputIds with
    | nil => exact fun found hfound => hfound
    | cons boxId inputIds ih =>
      refine fun found hfound => ih _ (fun id hid => ?_)
      rw [addConflict, spendingTx] at hid
      split at hid
      next w hspent =>
        obtain ⟨e, he, hrow⟩ := (h.byInput_eq boxId w).1 hspent
        obtain ⟨_, _, heq⟩ := mem_map.1 hrow
        split at hid
        · exact hfound id hid
        · rcases mem_append.1 hid with hid | hid
          · exact hfound id hid
          · rw [mem_singleton.1 hid, ← (Prod.mk.inj heq).2]
            exact ⟨e, he, rfl⟩
      · exact hfound id hid
  exact hall [] (by simp) txId hmem

lemma capacity_propagateFamilyWeight (p : OrderedPool) (inputIds : List BoxRef)
    (feePerFactor budget : ℕ) :
    (p.propagateFamilyWeight inputIds feePerFactor budget).capacity = p.capacity := by
  refine propagateLoop_of_updateWeight (P := fun q => q.capacity = p.capacity) ?_ budget _ _ rfl
  intro q txId w hq
  rw [updateWeight]
  split
  · exact hq
  · split <;> exact hq

lemma capacity_remove {capacity : ℕ} (p : OrderedPool) (txId : TxId) (h : p.capacity = capacity) :
    (p.remove txId).2.capacity = capacity := by
  rw [remove]
  split
  · exact h
  · split <;> exact h

end OrderedPool

def ProcessingOutcome.removed : ProcessingOutcome → List TxId
  | .replaced _ removed => removed
  | _ => []

/-- The calls a pool is reached by here. -/
def MempoolEvent.Plain : MempoolEvent → Prop
  | .process .. | .applyBlock .. | .invalidate .. => True
  | _ => False

namespace Mempool

open OrderedPool

variable {rules : TxRules} {m : Mempool} {utx : UnconfirmedTx} {weight : TxWeight}

/-- An answer to a transaction, with the mempool it leaves, says what happened to the pool. -/
def Truthful (before : OrderedPool) (tx : ErgoTransaction) (r : ProcessingOutcome × Mempool) : Prop :=
  if r.1.entered then
    tx ∈ r.2.pool.txs ∧
      ∀ id, id ∈ r.1.removed ↔ ∃ t ∈ before.txs, t ∉ r.2.pool.txs ∧ t.id = id
  else ∀ t, t ∈ r.2.pool.txs ↔ t ∈ before.txs

/-- The mempool of a run. The pool has its own copy of the capacity. -/
structure Settled (m : Mempool) : Prop extends Invariants m where
  capacity_eq : m.pool.capacity = m.config.capacity

/-- An admission: declined by a full pool, entered with room, or entered at the cost of one. -/
theorem Settled.enter_cases (h : m.Settled) (hkey : weight.txId = utx.tx.id)
    (hnew : m.pool.contains utx.tx.id = false)
    (hfree : ∀ boxId ∈ utx.tx.inputs, m.pool.byInput boxId = none) (conflicts : List TxId)
    (scanBudget : ℕ) :
    let r := m.enter utx weight conflicts scanBudget
    (m.config.capacity ≤ m.pool.len ∧ r = (.declined .poolFull, m)) ∨
      (m.pool.len < m.config.capacity ∧ r.2.pool.txs.Perm (utx.tx :: m.pool.txs) ∧
        r.1 = if conflicts = [] then .accepted utx.tx.id else .replaced utx.tx.id conflicts) ∨
      m.config.capacity ≤ m.pool.len ∧ (conflicts = [] → r.1 = .accepted utx.tx.id) ∧
        ∃ gone, (utx.tx :: m.pool.txs).Perm (gone :: r.2.pool.txs) := by
  have hlen := h.len_le
  rw [enter]
  split
  next hfull =>
    rw [isFull, decide_eq_true_eq, h.capacity_eq] at hfull
    exact .inl ⟨hfull.1, rfl⟩
  · have hins := h.consistent.insert hkey hnew hfree
    have hfresh : weight.txId ∉ m.pool.ordered.map (·.1.txId) := by
      rintro hmem
      obtain ⟨e, he, heq⟩ := mem_map.1 hmem
      exact h.consistent.notMem_of_contains_eq_false hnew e he
        ((h.consistent.keyed e he).symm.trans (heq.trans hkey))
    have hadded : (m.pool.insert weight utx utx.tx.inputs utx.tx.outputBoxes).txs.Perm
        (utx.tx :: m.pool.txs) := (insertOrdered_perm hfresh).map _
    have hweighed := (hins.txs_propagateFamilyWeight utx.tx.inputs weight.feePerFactor
      scanBudget).trans hadded
    have hcons := hins.propagateFamilyWeight utx.tx.inputs weight.feePerFactor scanBudget
    dsimp only
    generalize propagateFamilyWeight _ _ _ _ = q at hweighed hcons ⊢
    have hlenq : q.len = m.pool.len + 1 := by
      rw [← length_txs, hweighed.length_eq, length_cons, length_txs]
    rcases Nat.lt_or_ge m.pool.len m.config.capacity with hroom | hfull
    · have hstay : q.evictOver m.config.capacity q.len = ([], q) := by
        rw [hlenq, evictOver, if_neg (by omega)]
      rw [hstay, append_nil]
      exact .inr (.inl ⟨hroom, hweighed, rfl⟩)
    · have hover : q.len = m.config.capacity + 1 := by omega
      obtain ⟨gone, hgone⟩ := hcons.txs_evictOver hover
      exact .inr (.inr ⟨hfull, fun hnone => if_pos hnone, gone, hweighed.symm.trans hgone⟩)

/-- **An answer is truthful unless a full pool accepts a transaction.** -/
theorem Settled.truthful_iff (h : m.Settled) (tx : ErgoTransaction) (txBytes : Bytes)
    (utxo : UtxoReader) (ctx : ErgoStateContext) (source : Option ℕ) (now scanBudget : ℕ) :
    let r := m.process rules tx txBytes utxo ctx source now scanBudget
    Truthful m.pool tx r ↔ m.pool.len < m.config.capacity ∨ r.1 ≠ .accepted tx.id := by
  intro r
  have hcons := h.consistent
  obtain ⟨hout, hpool, -⟩ | ⟨hnew, ⟨weight, utx⟩, he, m₁, hpool, hconfig, heq⟩ :=
    process_cases rules m tx txBytes utxo ctx source now scanBudget
  · change r.1.entered = false at hout
    change r.2.pool = m.pool at hpool
    rw [Truthful, hout, if_neg Bool.false_ne_true, hpool]
    refine iff_of_true (fun t => Iff.rfl) (.inr fun hacc => ?_)
    rw [hacc] at hout
    cases hout
  · have hother := hcons.notMem_of_contains_eq_false hnew
    obtain ⟨hinv, hkey, hfresh, hfree⟩ := h.toInvariants.admission hnew he hpool hconfig
    obtain ⟨rfl, -⟩ := of_mem_entryOf he
    have hsettled : m₁.Settled := ⟨hinv, by
      rw [hpool, hconfig]
      exact removeAll_of_remove capacity_remove _ h.capacity_eq⟩
    have hmem : ∀ t, t ∈ m₁.pool.txs ↔ t ∈ m.pool.txs ∧ t.id ∉ m.pool.conflicts utx.tx.inputs := by
      intro t
      rw [mem_txs, mem_txs, hpool]
      constructor
      · rintro ⟨e, he, rfl⟩
        obtain ⟨he, hnot⟩ := (mem_removeAll hcons).1 he
        exact ⟨⟨e, he, rfl⟩, hcons.keyed e he ▸ hnot⟩
      · rintro ⟨⟨e, he, rfl⟩, hnot⟩
        exact ⟨e, (mem_removeAll hcons).2 ⟨he, (hcons.keyed e he).symm ▸ hnot⟩, rfl⟩
    have hnot : utx.tx ∉ m.pool.txs := by
      rintro hmem
      obtain ⟨e, he, heq⟩ := mem_txs.1 hmem
      exact hother e he (congrArg ErgoTransaction.id heq)
    change r = _ at heq
    have hcases := hsettled.enter_cases hkey hfresh hfree (m.pool.conflicts utx.tx.inputs) scanBudget
    dsimp only at hcases
    rw [← heq, hconfig] at hcases
    by_cases hnone : m.pool.conflicts utx.tx.inputs = []
    · have hsame : m₁.pool = m.pool := by rw [hpool, hnone]; rfl
      rw [hsame] at hcases
      obtain ⟨-, hr⟩ | ⟨hroom, hperm, hr⟩ | ⟨hfull, hr, gone, hperm⟩ := hcases
      · rw [hr]
        exact iff_of_true (fun t => by rw [hsame]) (.inr (by simp))
      · refine iff_of_true ?_ (.inl hroom)
        rw [Truthful, hr, if_pos hnone]
        refine ⟨hperm.mem_iff.2 mem_cons_self, fun id => iff_of_false not_mem_nil ?_⟩
        rintro ⟨t, ht, hgone, -⟩
        exact hgone (hperm.mem_iff.2 (mem_cons_of_mem _ ht))
      · refine iff_of_false (fun htrue => ?_) (not_or.2 ⟨by omega, not_not.2 (hr hnone)⟩)
        rw [Truthful, hr hnone] at htrue
        obtain ⟨hentered, hreported⟩ := htrue
        -- one transaction is gone, and none is reported
        have hgone : gone ∉ r.2.pool.txs := by
          have hnodup : (utx.tx :: m.pool.txs).Nodup := nodup_cons.2 ⟨hnot, hcons.nodup_txs.of_map⟩
          exact (nodup_cons.1 (hperm.nodup_iff.1 hnodup)).1
        rcases mem_cons.1 (hperm.mem_iff.2 mem_cons_self) with rfl | hold
        · exact hgone hentered
        · exact (not_mem_nil : gone.id ∉ []) ((hreported gone.id).2 ⟨gone, hold, hgone, rfl⟩)
    · -- what it conflicts with makes room
      have hless : m₁.pool.len < m.config.capacity := by
        obtain ⟨txId, rest, hlist⟩ := exists_cons_of_ne_nil hnone
        obtain ⟨e, he, rfl⟩ := exists_of_mem_conflicts hcons (hlist ▸ mem_cons_self)
        rw [hpool, hlist]
        exact ((len_removeAll_le _ rest).trans_lt (len_remove_lt hcons he)).trans_le h.len_le
      obtain ⟨hfull, -⟩ | ⟨-, hperm, hr⟩ | ⟨hfull, -⟩ := hcases
      · omega
      · rw [if_neg hnone] at hr
        refine iff_of_true ?_ (.inr (by simp [hr]))
        rw [Truthful, hr]
        refine ⟨hperm.mem_iff.2 mem_cons_self, fun id => ?_⟩
        constructor
        · intro hid
          obtain ⟨e, he, rfl⟩ := exists_of_mem_conflicts hcons hid
          refine ⟨e.2.tx, mem_txs.2 ⟨e, he, rfl⟩, fun hin => ?_, (hcons.keyed e he).symm⟩
          rcases mem_cons.1 (hperm.mem_iff.1 hin) with heq' | hin
          · exact hother e he (congrArg ErgoTransaction.id heq')
          · exact ((hmem _).1 hin).2 (hcons.keyed e he ▸ hid)
        · rintro ⟨t, ht, hgone, rfl⟩
          by_contra hid
          exact hgone (hperm.mem_iff.2 (mem_cons_of_mem _ ((hmem t).2 ⟨ht, hid⟩)))
      · omega

/-! ## Runs -/

lemma Settled.step (h : m.Settled) {e : MempoolEvent} (he : e.Plain) : (m.step rules e).Settled := by
  have hinv : m.ReturnsFit e → (m.step rules e).Invariants := step_invariants h.toInvariants e
  cases e with
  | process tx txBytes utxo ctx source now scanBudget =>
    refine ⟨hinv trivial, ?_⟩
    rw [Mempool.step]
    obtain ⟨-, hpool, hconfig⟩ | ⟨-, e, -, m₁, hpool, hconfig, heq⟩ :=
      process_cases rules m tx txBytes utxo ctx source now scanBudget
    · rw [hpool, hconfig, h.capacity_eq]
    · have hcap : m₁.pool.capacity = m₁.config.capacity := by
        rw [hpool, hconfig]
        exact removeAll_of_remove capacity_remove _ h.capacity_eq
      rw [heq, enter]
      split
      · exact hcap
      · exact evictOver_of_remove capacity_remove _ _
          ((capacity_propagateFamilyWeight _ _ _ _).trans hcap)
  | applyBlock confirmed now =>
    exact ⟨hinv trivial, confirm_of_remove capacity_remove confirmed h.capacity_eq⟩
  | invalidate txId now => exact ⟨hinv trivial, capacity_remove _ _ h.capacity_eq⟩
  | returnToPool txs => exact he.elim
  | revalidate now utxo ctx => exact he.elim

lemma settled_of_run (rules : TxRules) (config : MempoolConfig) (feeProposition : Bytes)
    {events : List MempoolEvent} (hplain : ∀ e ∈ events, e.Plain) :
    (events.foldl (step rules) (Mempool.new config feeProposition)).Settled :=
  foldlRecOn events _ (motive := Settled) ⟨new_invariants config feeProposition, rfl⟩
    (fun _ h e he => h.step (hplain e he))

def fullPool : Mempool :=
  [offer 1 ⟨0, 0⟩ 5].foldl (step fun _ _ _ _ => .ok 1)
    (.new { capacity := 1, minFee := 1 } [0])

def processChild (m : Mempool) : ProcessingOutcome × Mempool :=
  m.process (fun _ _ _ _ => .ok 1) (payment 2 ⟨1, 0⟩ 9) [0] (fun boxId => some ⟨boxId, ⟨9, [], 0, []⟩⟩)
    ⟨⟨1, 0, 0, 0, 0, 0, 1, ⟨0, 0, 0⟩⟩, [], .empty⟩ none 0 10

end Mempool

end ErgoNode
