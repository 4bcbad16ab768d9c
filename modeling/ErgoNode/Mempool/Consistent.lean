import ErgoNode.Library.Run
import ErgoNode.Mempool.Process

/-!
# The mempool's invariants

No two transactions spend the same box, the indexes have exactly the entries of the transactions,
and there are at most as many as the capacity allows. Every call keeps this but `returnToPool`,
which inserts without looking whether a box it spends is spent already and whether there is room.
-/

namespace ErgoNode

open List OrderedPool

/-- Whether the answer says that the transaction is now in the pool. -/
def ProcessingOutcome.entered : ProcessingOutcome → Bool
  | .accepted _ | .replaced _ _ => true
  | _ => false

namespace OrderedPool

variable {p : OrderedPool} {boxId : BoxRef} {inputIds : List BoxRef}

/-! ## Sequences of pool operations -/

section Removals

variable {P : OrderedPool → Prop} (hremove : ∀ (p : OrderedPool) (txId : TxId), P p → P (p.remove txId).2)

include hremove

lemma removeAll_of_remove (txIds : List TxId) (h : P p) : P (p.removeAll txIds) :=
  foldlRecOn txIds _ (motive := P) h (fun q hq txId _ => hremove q txId hq)

lemma evictOver_of_remove (capacity turns : ℕ) :
    ∀ {p : OrderedPool}, P p → P (p.evictOver capacity turns).2 := by
  induction turns with
  | zero => exact fun h => h
  | succ turns ih =>
    intro p h
    rw [evictOver]
    split
    · refine ih ?_
      rw [evictLowest]
      split
      · exact h
      · exact hremove p _ h
    · exact h

lemma confirm_of_remove (confirmed : List ErgoTransaction) (h : P p) :
    P (confirmed.foldl Mempool.confirm p) := by
  refine foldlRecOn confirmed _ (motive := P) h (fun q hq tx _ => ?_)
  refine foldlRecOn tx.inputs _ (motive := P) (hremove q tx.id hq) (fun q hq boxId _ => ?_)
  split
  · split
    · exact hremove q _ hq
    · exact hq
  · exact hq

end Removals

lemma Consistent.removeAll (h : p.Consistent) (txIds : List TxId) :
    (p.removeAll txIds).Consistent := removeAll_of_remove (fun _ txId h => h.remove txId) txIds h

lemma ordered_remove_sublist (p : OrderedPool) (txId : TxId) :
    (p.remove txId).2.ordered.Sublist p.ordered := by
  rw [remove]
  split
  · exact .refl _
  · split
    · exact .refl _
    · exact filter_sublist

lemma len_remove_le (p : OrderedPool) (txId : TxId) : (p.remove txId).2.len ≤ p.len :=
  (ordered_remove_sublist p txId).length_le

lemma len_removeAll_le (p : OrderedPool) (txIds : List TxId) :
    (p.removeAll txIds).len ≤ p.len :=
  removeAll_of_remove (P := fun q => q.len ≤ p.len) (fun q txId hq => (len_remove_le q txId).trans hq)
    txIds (le_refl _)

lemma len_remove_lt (h : p.Consistent) {e : PoolEntry} (he : e ∈ p.ordered) :
    (p.remove e.1.txId).2.len < p.len := by
  have hrow : p.byId e.1.txId = some e.1 := h.byId_eq_some.2 ⟨e.2, he, (h.keyed e he).symm⟩
  rw [remove, hrow]
  simp only [h.lookup_of_mem he]
  refine length_filter_lt_length_iff_exists.2 ⟨e, he, ?_⟩
  simp [TxWeight.cmp_self]

variable {txIds : List TxId}

lemma mem_removeAll (h : p.Consistent) {e : PoolEntry} :
    e ∈ (p.removeAll txIds).ordered ↔ e ∈ p.ordered ∧ e.1.txId ∉ txIds := by
  induction txIds generalizing p with
  | nil => simp [removeAll]
  | cons txId txIds ih =>
    refine (ih (h.remove txId)).trans ?_
    rw [h.mem_remove, mem_cons, not_or, and_assoc]

lemma subset_addConflict (found : List TxId) (boxId : BoxRef) :
    found ⊆ p.addConflict found boxId := by
  rw [addConflict]
  split
  · split
    · exact Subset.refl _
    · exact subset_append_left _ _
  · exact Subset.refl _

lemma mem_addConflict {w : TxWeight} (hspent : p.byInput boxId = some w) (found : List TxId) :
    w.txId ∈ p.addConflict found boxId := by
  simp only [addConflict, spendingTx, hspent]
  split
  · assumption
  · exact mem_append_right _ (mem_singleton_self _)

lemma subset_foldl_addConflict (inputIds : List BoxRef) :
    ∀ found : List TxId, found ⊆ inputIds.foldl p.addConflict found := by
  induction inputIds with
  | nil => exact fun found => Subset.refl _
  | cons boxId inputIds ih =>
    exact fun found => Subset.trans (subset_addConflict found boxId) (ih _)

lemma mem_conflicts (hmem : boxId ∈ inputIds) {w : TxWeight} (hspent : p.byInput boxId = some w) :
    w.txId ∈ p.conflicts inputIds := by
  -- the turn of the box finds it, and the turns after that keep it
  obtain ⟨before, after, rfl⟩ := append_of_mem hmem
  rw [conflicts, foldl_append, foldl_cons]
  exact subset_foldl_addConflict after _ (mem_addConflict hspent _)

lemma byInput_removeAll_conflicts (h : p.Consistent) (hmem : boxId ∈ inputIds) :
    (p.removeAll (p.conflicts inputIds)).byInput boxId = none := by
  have hleft := h.removeAll (p.conflicts inputIds)
  cases hspent : (p.removeAll (p.conflicts inputIds)).byInput boxId with
  | none => rfl
  | some w =>
    obtain ⟨e, he, hrow⟩ := (hleft.byInput_eq boxId w).1 hspent
    obtain ⟨hold, hnot⟩ := (mem_removeAll h).1 he
    have hspent' : p.byInput boxId = some e.1 := by
      obtain ⟨boxId', hboxId', heq⟩ := mem_map.1 hrow
      obtain ⟨rfl, rfl⟩ := Prod.mk.inj heq
      exact (h.byInput_eq boxId' e.1).2 ⟨e, hold, hrow⟩
    exact absurd (mem_conflicts hmem hspent') hnot

lemma contains_removeAll (h : p.Consistent) {txId : TxId} (hnot : p.contains txId = false) :
    (p.removeAll txIds).contains txId = false := by
  by_contra hmem
  obtain ⟨e, he, heq, -⟩ := (h.removeAll txIds).exists_entry (Bool.eq_true_of_not_eq_false hmem)
  have hold := ((mem_removeAll h).1 he).1
  exact h.notMem_of_contains_eq_false hnot e hold ((h.keyed e hold).symm.trans heq)

lemma propagateLoop_of_updateWeight {P : OrderedPool → Prop}
    (hstep : ∀ {p : OrderedPool} (txId : TxId) (w : ℕ), P p → P (p.updateWeight txId w))
    (budget : ℕ) : ∀ (depth : ℕ) (toVisit : List (TxId × ℕ)) {p : OrderedPool}, P p →
      P (propagateLoop budget depth toVisit p) := by
  induction budget with
  | zero =>
    intro depth toVisit p h
    exact h
  | succ budget ih =>
    intro depth toVisit p h
    cases toVisit with
    | nil =>
      rw [propagateLoop]
      · exact h
      · simp
    | cons top toVisit =>
      rw [propagateLoop]
      split
      · exact h
      · split
        · exact ih depth toVisit h
        · exact ih _ _ (hstep _ _ h)

lemma Consistent.propagateFamilyWeight (h : p.Consistent) (inputIds : List BoxRef)
    (feePerFactor budget : ℕ) :
    (p.propagateFamilyWeight inputIds feePerFactor budget).Consistent :=
  propagateLoop_of_updateWeight (fun txId w h => h.updateWeight txId w) budget _ _ h

lemma len_evictOver_le (capacity turns : ℕ) :
    ∀ {p : OrderedPool}, p.Consistent → p.len ≤ turns + capacity →
      (p.evictOver capacity turns).2.len ≤ capacity := by
  induction turns with
  | zero =>
    intro p h hlen
    exact show p.len ≤ capacity by omega
  | succ turns ih =>
    intro p h hlen
    rw [evictOver]
    split
    next hover =>
      -- over capacity there is a last transaction, and it goes
      obtain ⟨e, he⟩ : ∃ e, p.ordered.getLast? = some e := by
        rw [← Option.isSome_iff_exists, getLast?_isSome]
        rintro hnil
        rw [len, hnil] at hover
        cases hover
      have hless := len_remove_lt h (mem_of_getLast? he)
      simp only [evictLowest, he]
      exact ih (h.remove _) (by omega)
    next hwithin =>
      exact Nat.not_lt.1 hwithin

end OrderedPool

namespace Mempool

variable {rules : TxRules} {m : Mempool}

structure Invariants (m : Mempool) : Prop where
  spends : ∀ e ∈ m.pool.ordered, ∀ e' ∈ m.pool.ordered, ∀ boxId ∈ e.2.tx.inputs,
    boxId ∈ e'.2.tx.inputs → e = e'
  consistent : m.pool.Consistent
  len_le : m.pool.len ≤ m.config.capacity

lemma Invariants.mk' (hcons : m.pool.Consistent) (hlen : m.pool.len ≤ m.config.capacity) :
    m.Invariants where
  spends := fun _ he _ he' _ hspends hspends' => hcons.eq_of_spends he he' hspends hspends'
  consistent := hcons
  len_le := hlen

/-! ## `process` -/

lemma Invariants.enter (h : m.Invariants) {utx : UnconfirmedTx} {weight : TxWeight}
    (hkey : weight.txId = utx.tx.id) (hnew : m.pool.contains utx.tx.id = false)
    (hfree : ∀ boxId ∈ utx.tx.inputs, m.pool.byInput boxId = none) (conflicts : List TxId)
    (scanBudget : ℕ) : (m.enter utx weight conflicts scanBudget).2.Invariants := by
  rw [Mempool.enter]
  split
  · exact h
  · have hweighed := (h.consistent.insert hkey hnew hfree).propagateFamilyWeight utx.tx.inputs
      weight.feePerFactor scanBudget
    exact .mk' (evictOver_of_remove (fun _ txId h => h.remove txId) _ _ hweighed)
      (len_evictOver_le _ _ hweighed (Nat.le_add_right _ _))

def entryOf (rules : TxRules) (m : Mempool) (tx : ErgoTransaction) (txBytes : Bytes)
    (utxo : UtxoReader) (ctx : ErgoStateContext) (source : Option ℕ) (now : ℕ) : Option PoolEntry :=
  match rules tx (tx.inputs.filterMap (m.resolve utxo)) (tx.dataInputs.filterMap (m.resolve utxo))
      ctx with
  | .error _ => none
  | .ok validationCost =>
    let cost := max validationCost txBytes.length % 2 ^ 32
    let fee := tx.extractFee m.feeProposition
    some (.new tx.id fee txBytes.length cost m.config.feeStrategy,
      ⟨tx, txBytes, fee, cost, some validationCost, now, now, source⟩)

section Process

variable {tx : ErgoTransaction} {txBytes : Bytes} {utxo : UtxoReader} {ctx : ErgoStateContext}
  {source : Option ℕ} {now : ℕ} {e : PoolEntry}

lemma of_mem_entryOf (h : e ∈ m.entryOf rules tx txBytes utxo ctx source now) :
    e.2.tx = tx ∧ e.1.txId = tx.id ∧ e.1.weight = e.1.feePerFactor := by
  rw [entryOf] at h
  split at h
  · cases h
  · cases h
    exact ⟨rfl, rfl, rfl⟩

/-- A call of `process` leaves the pool, or takes out the conflicts and goes on to the admission. -/
theorem process_cases (rules : TxRules) (m : Mempool) (tx : ErgoTransaction) (txBytes : Bytes)
    (utxo : UtxoReader) (ctx : ErgoStateContext) (source : Option ℕ) (now scanBudget : ℕ) :
    let r := m.process rules tx txBytes utxo ctx source now scanBudget
    (r.1.entered = false ∧ r.2.pool = m.pool ∧ r.2.config = m.config) ∨
      m.pool.contains tx.id = false ∧ ∃ e ∈ m.entryOf rules tx txBytes utxo ctx source now,
        ∃ m₁ : Mempool, m₁.pool = m.pool.removeAll (m.pool.conflicts tx.inputs) ∧
          m₁.config = m.config ∧
          r = m₁.enter e.2 e.1 (m.pool.conflicts tx.inputs) scanBudget := by
  rw [Mempool.process]
  split
  · exact .inl ⟨rfl, rfl, rfl⟩
  split
  · exact .inl ⟨rfl, rfl, rfl⟩
  rename_i hnew
  split
  · exact .inl ⟨rfl, rfl, rfl⟩
  split
  · exact .inl ⟨rfl, rfl, rfl⟩
  split
  · exact .inl ⟨rfl, rfl, rfl⟩
  split
  · exact .inl ⟨rfl, rfl, rfl⟩
  split
  · exact .inl ⟨rfl, rfl, rfl⟩
  next validationCost hvalid =>
    rw [entryOf, hvalid]
    dsimp only
    generalize max validationCost txBytes.length % 2 ^ 32 = cost
    -- only the counters of the cost are charged
    obtain ⟨hpool, hconfig, hfee⟩ : (m.charge source cost).pool = m.pool ∧
        (m.charge source cost).config = m.config ∧
        (m.charge source cost).feeProposition = m.feeProposition := by
      cases source <;> exact ⟨rfl, rfl, rfl⟩
    rw [← hpool, ← hconfig, ← hfee]
    generalize m.charge source cost = m₀ at *
    simp only [weigh]
    split
    · exact .inl ⟨rfl, rfl, rfl⟩
    split
    next hnone =>
      rw [hnone]
      exact .inr ⟨by simpa [hpool] using hnew, (_, _), rfl, m₀, rfl, rfl, rfl⟩
    split
    · exact .inl ⟨rfl, rfl, rfl⟩
    · exact .inr ⟨by simpa [hpool] using hnew, (_, _), rfl,
        { m₀ with pool := m₀.pool.removeAll (m₀.pool.conflicts tx.inputs) }, rfl, rfl, rfl⟩

lemma Invariants.removeAll (h : m.Invariants) {m₁ : Mempool}
    (hpool : m₁.pool = m.pool.removeAll txIds) (hconfig : m₁.config = m.config) : m₁.Invariants :=
  .mk' (hpool ▸ h.consistent.removeAll txIds)
    (by rw [hpool, hconfig]; exact (len_removeAll_le _ _).trans h.len_le)

lemma Invariants.admission (h : m.Invariants) (hnew : m.pool.contains tx.id = false)
    (he : e ∈ m.entryOf rules tx txBytes utxo ctx source now) {m₁ : Mempool}
    (hpool : m₁.pool = m.pool.removeAll (m.pool.conflicts tx.inputs))
    (hconfig : m₁.config = m.config) :
    m₁.Invariants ∧ e.1.txId = e.2.tx.id ∧ m₁.pool.contains e.2.tx.id = false ∧
      ∀ boxId ∈ e.2.tx.inputs, m₁.pool.byInput boxId = none := by
  obtain ⟨rfl, hkey, -⟩ := of_mem_entryOf he
  refine ⟨h.removeAll hpool hconfig, hkey, ?_, fun boxId hmem => ?_⟩
  · rw [hpool]
    exact contains_removeAll h.consistent hnew
  · rw [hpool]
    exact byInput_removeAll_conflicts h.consistent hmem

lemma Invariants.process (h : m.Invariants) (tx : ErgoTransaction) (txBytes : Bytes)
    (utxo : UtxoReader) (ctx : ErgoStateContext) (source : Option ℕ) (now scanBudget : ℕ) :
    (m.process rules tx txBytes utxo ctx source now scanBudget).2.Invariants := by
  obtain ⟨-, hpool, hconfig⟩ | ⟨hnew, e, he, m₁, hpool, hconfig, heq⟩ :=
    process_cases rules m tx txBytes utxo ctx source now scanBudget
  · exact .mk' (hpool ▸ h.consistent) (by rw [hpool, hconfig]; exact h.len_le)
  · obtain ⟨hinv, hkey, hfresh, hfree⟩ := h.admission hnew he hpool hconfig
    rw [heq]
    exact hinv.enter hkey hfresh hfree _ _

end Process

/-! ## The other calls -/

lemma Invariants.remove (h : m.Invariants) (txId : TxId) :
    Invariants { m with pool := (m.pool.remove txId).2 } :=
  .mk' (h.consistent.remove txId) ((len_remove_le _ txId).trans h.len_le)

lemma Invariants.applyBlock (h : m.Invariants) (confirmed : List ErgoTransaction) (now : ℕ) :
    (m.applyBlock confirmed now).Invariants :=
  .mk' (confirm_of_remove (fun _ txId h => h.remove txId) confirmed h.consistent)
    (confirm_of_remove (P := fun p => p.len ≤ m.config.capacity)
      (fun p txId hp => (len_remove_le p txId).trans hp) confirmed h.len_le)

lemma Invariants.invalidate (h : m.Invariants) (txId : TxId) (now : ℕ) :
    (m.invalidate txId now).Invariants :=
  .mk' (h.remove txId).consistent (h.remove txId).len_le

lemma len_modifyEntry (p : OrderedPool) (txId : TxId) (f : UnconfirmedTx → UnconfirmedTx) :
    (p.modifyEntry txId f).len = p.len := by
  rw [modifyEntry]
  split
  · rfl
  · exact length_map _

def recheck (measured now : ℕ) (utx : UnconfirmedTx) : UnconfirmedTx :=
  { utx with validationCost := some measured, lastChecked := now }

lemma revalidateLoop_of_remove (rules : TxRules) {P : OrderedPool → Prop}
    (hremove : ∀ (p : OrderedPool) (txId : TxId), P p → P (p.remove txId).2) {now : ℕ}
    (hcheck : ∀ (p : OrderedPool) (txId : TxId) (measured : ℕ), P p →
      P (p.modifyEntry txId (recheck measured now)))
    (limit : ℕ) (utxo : UtxoReader) (ctx : ErgoStateContext) (txIds : List TxId) :
    ∀ (spent : ℕ) {m : Mempool}, P m.pool →
      P (Mempool.revalidateLoop rules now limit utxo ctx txIds spent m).pool ∧
        (Mempool.revalidateLoop rules now limit utxo ctx txIds spent m).config = m.config := by
  induction txIds with
  | nil => exact fun _ _ h => ⟨h, rfl⟩
  | cons txId txIds ih =>
    intro spent m h
    have hremoved := hremove m.pool txId h
    rw [Mempool.revalidateLoop]
    split
    · exact ih _ h
    split
    · exact ih _ h
    split
    · exact ⟨h, rfl⟩
    split
    · exact ih _ h
    split
    · exact ih _ (m := { m with pool := (m.pool.remove txId).2 }) hremoved
    split
    next measured _ =>
      exact ih _ (m := { m with pool := m.pool.modifyEntry txId (recheck measured now) })
        (hcheck m.pool txId measured h)
    · exact ih _ (m := { m with
        pool := (m.pool.remove txId).2, invalidated := m.invalidated.insert txId now }) hremoved

lemma Invariants.revalidateLoop (now limit : ℕ) (utxo : UtxoReader) (ctx : ErgoStateContext)
    (txIds : List TxId) (spent : ℕ) (h : m.Invariants) :
    (Mempool.revalidateLoop rules now limit utxo ctx txIds spent m).Invariants := by
  obtain ⟨⟨hcons, hlen⟩, hconfig⟩ := revalidateLoop_of_remove rules
    (P := fun p => p.Consistent ∧ p.len ≤ m.config.capacity)
    (fun p txId hp => ⟨hp.1.remove txId, (len_remove_le p txId).trans hp.2⟩)
    (fun p txId measured hp => ⟨hp.1.modifyEntry txId (fun _ => rfl) (fun _ => rfl),
      (len_modifyEntry p txId _).trans_le hp.2⟩)
    limit utxo ctx txIds spent ⟨h.consistent, h.len_le⟩
  exact .mk' hcons (hconfig ▸ hlen)

/-! ## Returning transactions -/

/-- Transactions that can be returned one after the other without conflicts, with room for each. -/
def Fits (capacity : ℕ) (strategy : FeeStrategy) : OrderedPool → List UnconfirmedTx → Prop
  | _, [] => True
  | p, utx :: txs =>
    (p.contains utx.tx.id = true ∨
      (∀ boxId ∈ utx.tx.inputs, p.byInput boxId = none) ∧ p.len < capacity) ∧
      Fits capacity strategy (returnOne strategy p utx) txs

def decideFits (capacity : ℕ) (strategy : FeeStrategy) :
    ∀ (p : OrderedPool) (txs : List UnconfirmedTx), Decidable (Fits capacity strategy p txs)
  | _, [] => .isTrue trivial
  | p, utx :: txs =>
    have := decideFits capacity strategy (returnOne strategy p utx) txs
    inferInstanceAs (Decidable (_ ∧ Fits capacity strategy (returnOne strategy p utx) txs))

instance (capacity : ℕ) (strategy : FeeStrategy) (p : OrderedPool) (txs : List UnconfirmedTx) :
    Decidable (Fits capacity strategy p txs) := decideFits capacity strategy p txs

def ReturnsFit (m : Mempool) : MempoolEvent → Prop
  | .returnToPool txs => Fits m.config.capacity m.config.feeStrategy m.pool txs
  | _ => True

instance (m : Mempool) : ∀ e : MempoolEvent, Decidable (m.ReturnsFit e)
  | .returnToPool txs =>
    inferInstanceAs (Decidable (Fits m.config.capacity m.config.feeStrategy m.pool txs))
  | .process .. => .isTrue trivial
  | .applyBlock .. => .isTrue trivial
  | .invalidate .. => .isTrue trivial
  | .revalidate .. => .isTrue trivial

lemma returnOnes_consistent {capacity : ℕ} {strategy : FeeStrategy} {txs : List UnconfirmedTx} :
    ∀ {p : OrderedPool}, p.Consistent → p.len ≤ capacity → Fits capacity strategy p txs →
      (txs.foldl (returnOne strategy) p).Consistent ∧
        (txs.foldl (returnOne strategy) p).len ≤ capacity := by
  induction txs with
  | nil => exact fun hcons hlen _ => ⟨hcons, hlen⟩
  | cons utx txs ih =>
    intro p hcons hlen hfits
    obtain ⟨hutx, hrest⟩ := hfits
    rw [foldl_cons]
    by_cases hmem : p.contains utx.tx.id = true
    · have hsame : returnOne strategy p utx = p := if_pos hmem
      rw [hsame] at hrest ⊢
      exact ih hcons hlen hrest
    · obtain ⟨hfree, hroom⟩ := hutx.resolve_left hmem
      have hnew := Bool.eq_false_of_not_eq_true hmem
      have hinsert : returnOne strategy p utx = p.insert
          (TxWeight.new utx.tx.id utx.fee utx.txBytes.length utx.cost strategy) utx utx.tx.inputs
          utx.tx.outputBoxes := if_neg hmem
      have hcons' : (returnOne strategy p utx).Consistent := hinsert ▸ hcons.insert rfl hnew hfree
      refine ih hcons' ?_ hrest
      have hfresh : utx.tx.id ∉ p.ordered.map (·.1.txId) := by
        rintro hid
        obtain ⟨e, he, heq⟩ := mem_map.1 hid
        exact hcons.notMem_of_contains_eq_false hnew e he ((hcons.keyed e he).symm.trans heq)
      rw [hinsert]
      exact (insertOrdered_perm hfresh).length_eq.trans_le hroom

/-! ## Runs -/

lemma new_invariants (config : MempoolConfig) (feeProposition : Bytes) :
    (Mempool.new config feeProposition).Invariants :=
  .mk' (.new _) (Nat.zero_le _)

/-- **A call that meets the condition keeps the invariants.** -/
theorem step_invariants (h : m.Invariants) (e : MempoolEvent) (hfit : m.ReturnsFit e) :
    (m.step rules e).Invariants := by
  cases e with
  | process tx txBytes utxo ctx source now scanBudget => exact h.process ..
  | applyBlock confirmed now => exact h.applyBlock confirmed now
  | returnToPool txs =>
    obtain ⟨hcons, hlen⟩ := returnOnes_consistent h.consistent h.len_le hfit
    exact .mk' hcons hlen
  | invalidate txId now => exact h.invalidate txId now
  | revalidate now utxo ctx => exact Invariants.revalidateLoop now _ utxo ctx _ 0 h

/-- **The invariants hold after every sequence of calls in which what is returned fits.** -/
theorem invariants_of_run (rules : TxRules) (config : MempoolConfig) (feeProposition : Bytes)
    (events : List MempoolEvent)
    (h : MeetsAll (step rules) ReturnsFit (Mempool.new config feeProposition) events) :
    (events.foldl (step rules) (Mempool.new config feeProposition)).Invariants :=
  h.invariant (fun _ e hm hfit => step_invariants hm e hfit) (new_invariants config feeProposition)

/-! ## Runs on a small pool -/

def payment (id : TxId) (spent : BoxRef) (fee : ℕ) : ErgoTransaction :=
  ⟨id, [spent], [], [⟨fee, [0], 0, []⟩], by simp⟩

def returned (id : TxId) (spent : BoxRef) (fee : ℕ) : UnconfirmedTx :=
  ⟨payment id spent fee, [0], fee, 1, none, 0, 0, none⟩

def offer (id : TxId) (spent : BoxRef) (fee : ℕ) : MempoolEvent :=
  .process (payment id spent fee) [0]
    (fun boxId => if boxId.txId = 0 then some ⟨boxId, ⟨fee, [], 0, []⟩⟩ else none)
    ⟨⟨1, 0, 0, 0, 0, 0, 1, ⟨0, 0, 0⟩⟩, [], .empty⟩ none 0 10

/-- A payment, one that spends its output, one that replaces the first, and one that is returned. -/
theorem invariants_of_run_example :
    let config : MempoolConfig := { capacity := 3, minFee := 1 }
    let events := [offer 1 ⟨0, 0⟩ 5, offer 2 ⟨1, 0⟩ 9, offer 3 ⟨0, 0⟩ 20,
      .returnToPool [returned 4 ⟨0, 1⟩ 4]]
    let run := events.foldl (step fun _ _ _ _ => .ok 1) (Mempool.new config [0])
    run.pool.ordered.map (·.1.txId) = [3, 2, 4] ∧ run.Invariants :=
  ⟨by decide +kernel, invariants_of_run _ _ _ _ (by decide +kernel)⟩

/-- Two transactions that spend one box are returned to a pool for one: it is over its capacity, and
the index has lost the first. -/
theorem returnToPool_conflict :
    let config : MempoolConfig := { capacity := 1 }
    let run := step (fun _ _ _ _ => .ok 1) (Mempool.new config [0])
      (.returnToPool [returned 1 ⟨0, 0⟩ 5, returned 2 ⟨0, 0⟩ 4])
    (run.pool.ordered.map fun e => (e.1.txId, e.2.tx.inputs)) = [(1, [⟨0, 0⟩]), (2, [⟨0, 0⟩])] ∧
      (run.pool.byInput ⟨0, 0⟩).map TxWeight.txId = some 2 ∧
      run.config.capacity < run.pool.len ∧ ¬run.Invariants := by
  refine ⟨by decide +kernel, by decide +kernel, by decide +kernel, fun h => ?_⟩
  exact absurd h.len_le (by decide +kernel)

end Mempool

end ErgoNode
