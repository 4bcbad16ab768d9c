import ErgoNode.Library.Table
import ErgoNode.Validation.Boundary

/-!
# State changes of a block

A block's transactions are turned into one batch of lookups, removals and insertions. A box that is
created and spent inside the block never reaches the state, and removals and insertions are sorted
by box id. The sequential meaning is `applyTxs`: each transaction spends its inputs, which must be
there at that moment, and then adds its outputs. `Nets` relates the two; the batch goes on where the
sequential application has stopped, which shows up as a removal that the state does not have. Box
ids are ordered as the numbers they encode.
-/

namespace ErgoNode

open List

abbrev BoxId := ℕ

structure TxSummary where
  inputIds : List BoxId
  dataInputIds : List BoxId
  outputEntries : List (BoxId × Bytes)
deriving DecidableEq, Repr

abbrev Insertion := BoxId × Bytes

structure StateChanges where
  lookups : List BoxId
  removals : List BoxId
  insertions : List Insertion
deriving DecidableEq, Repr

def hexEncode (bytes : Bytes) : String :=
  String.ofList (bytes.flatMap (fun b => [Nat.digitChar (b.toNat / 16), Nat.digitChar (b.toNat % 16)]))

/-! ## The batch -/

structure Netting where
  created : Finset BoxId
  netted : Finset BoxId
  spent : Finset BoxId
  /-- Inputs that no earlier transaction created, in order. -/
  removals : List BoxId
  lookups : List BoxId
  allInserts : List Insertion

namespace Netting

def empty : Netting := ⟨∅, ∅, ∅, [], [], []⟩

def spendInput (n : Netting) (inputId : BoxId) : Except ValidationError Netting :=
  if inputId ∈ n.spent then .error (.intraBlockDoubleSpend (hexEncode (bytesOfId inputId)))
  else if inputId ∈ n.created then
    .ok { n with spent := insert inputId n.spent, netted := insert inputId n.netted }
  else .ok { n with spent := insert inputId n.spent, removals := n.removals ++ [inputId] }

def addOutputs (n : Netting) (summary : TxSummary) : Netting :=
  { n with
    created := n.created ∪ (summary.outputEntries.map Prod.fst).toFinset
    allInserts := n.allInserts ++ summary.outputEntries
    lookups := n.lookups ++ summary.dataInputIds }

def addSummary (n : Netting) (summary : TxSummary) : Except ValidationError Netting :=
  (summary.inputIds.foldlM spendInput n).map (fun n => n.addOutputs summary)

/-- The sorted batch: created boxes that were spent in the block are left out. -/
def changes (n : Netting) : StateChanges where
  lookups := n.lookups
  removals := n.removals.insertionSort (· ≤ ·)
  insertions := (n.allInserts.filter (fun e => e.1 ∉ n.netted)).insertionSort (fun a b => a.1 ≤ b.1)

end Netting

def computeStateChanges (txSummaries : List TxSummary) : Except ValidationError StateChanges :=
  (txSummaries.foldlM Netting.addSummary .empty).map Netting.changes

def StateChanges.apply (changes : StateChanges) (utxo : Table Bytes) : Table Bytes :=
  insertAll (eraseAll utxo changes.removals) changes.insertions

/-! ## The sequential meaning -/

def spendBox (utxo : Table Bytes) (id : BoxId) : Option (Table Bytes) :=
  if id ∈ utxo then some (utxo.erase id) else none

/-- Apply one transaction: spend its inputs, then add its outputs. -/
def applyTx (utxo : Table Bytes) (summary : TxSummary) : Option (Table Bytes) :=
  (summary.inputIds.foldlM spendBox utxo).map (fun utxo => insertAll utxo summary.outputEntries)

def applyTxs (utxo : Table Bytes) (txSummaries : List TxSummary) : Option (Table Bytes) :=
  txSummaries.foldlM applyTx utxo

/-! ## Lockstep -/

section Nets

variable {utxo v v' : Table Bytes} {n n' : Netting} {summary : TxSummary} {id : BoxId}

/-- After the same transactions, `n` is what was collected and `v` is the state reached from
`utxo`. -/
structure Nets (utxo : Table Bytes) (n : Netting) (v : Table Bytes) : Prop where
  removed : ∀ id ∈ n.removals, id ∈ utxo
  nodup : n.removals.Nodup
  spent : ∀ id, id ∈ n.spent ↔ id ∈ n.removals ∨ id ∈ n.netted
  netted : n.netted ⊆ n.created
  created : ∀ id, id ∈ n.created ↔ id ∈ n.allInserts.map Prod.fst
  keys : (n.allInserts.map Prod.fst).Nodup
  fresh : ∀ id ∈ n.created, id ∉ utxo
  read_created : ∀ e ∈ n.allInserts, v[e.1]? = if e.1 ∈ n.netted then none else some e.2
  read_old : ∀ id ∉ n.created, v[id]? = if id ∈ n.removals then none else utxo[id]?

lemma nets_empty (utxo : Table Bytes) : Nets utxo .empty utxo := by
  constructor <;> simp [Netting.empty]

namespace Nets

/-- A box that is there is one that can be spent: it was created or is in the old state, and was not
spent before. -/
theorem mem_iff (h : Nets utxo n v) :
    id ∈ v ↔ id ∉ n.spent ∧ (id ∈ n.created ∨ id ∈ utxo) := by
  rw [← Std.ExtTreeMap.isSome_getElem?_iff_mem, h.spent]
  by_cases hcreated : id ∈ n.created
  · have hkept : id ∉ n.removals := fun hr => h.fresh id hcreated (h.removed id hr)
    obtain ⟨e, he, rfl⟩ := mem_map.1 ((h.created id).1 hcreated)
    rw [h.read_created e he]
    by_cases hnetted : e.1 ∈ n.netted
    · simp [hnetted]
    · simp [hnetted, hcreated, hkept]
  · have hnetted : id ∉ n.netted := fun hn => hcreated (h.netted hn)
    rw [h.read_old id hcreated, ← Std.ExtTreeMap.isSome_getElem?_iff_mem]
    by_cases hremoved : id ∈ n.removals
    · simp [hremoved]
    · simp [hremoved, hcreated, hnetted]

lemma spend_created (h : Nets utxo n v) (hcreated : id ∈ n.created) :
    Nets utxo { n with spent := insert id n.spent, netted := insert id n.netted } (v.erase id) where
  __ := h
  spent id' := by
    simp only [Finset.mem_insert, h.spent]
    tauto
  netted := Finset.insert_subset hcreated h.netted
  read_created e he := by
    rw [Std.ExtTreeMap.getElem?_erase]
    by_cases heq : e.1 = id
    · simp [heq]
    · have hne : ¬compare id e.1 = .eq := by
        rw [Nat.compare_eq_eq]
        exact fun h => heq h.symm
      rw [if_neg hne, h.read_created e he]
      simp [heq]
  read_old id' hid' := by
    have hne : ¬compare id id' = .eq := by
      rw [Nat.compare_eq_eq]
      exact fun h => hid' (h ▸ hcreated)
    rw [Std.ExtTreeMap.getElem?_erase, if_neg hne, h.read_old id' hid']

lemma spend_old (h : Nets utxo n v) (hcreated : id ∉ n.created)
    (hspent : id ∉ n.spent) (hmem : id ∈ utxo) :
    Nets utxo { n with spent := insert id n.spent, removals := n.removals ++ [id] } (v.erase id)
    where
  removed id' hid' := by
    rcases mem_append.1 hid' with hid' | hid'
    · exact h.removed id' hid'
    · rwa [mem_singleton.1 hid']
  nodup := by
    have hnew : id ∉ n.removals := fun hr => hspent ((h.spent id).2 (.inl hr))
    rw [← concat_eq_append]
    exact h.nodup.concat hnew
  spent id' := by
    simp only [Finset.mem_insert, h.spent, mem_append, mem_singleton]
    tauto
  netted := h.netted
  created := h.created
  keys := h.keys
  fresh := h.fresh
  read_created e he := by
    have hne : ¬compare id e.1 = .eq := by
      rw [Nat.compare_eq_eq]
      exact fun heq => hcreated (heq ▸ (h.created _).2 (mem_map_of_mem he))
    rw [Std.ExtTreeMap.getElem?_erase, if_neg hne, h.read_created e he]
  read_old id' hid' := by
    rw [Std.ExtTreeMap.getElem?_erase, h.read_old id' hid']
    simp only [Nat.compare_eq_eq, mem_append, mem_singleton, eq_comm (a := id)]
    by_cases hremoved : id' ∈ n.removals
    · simp [hremoved]
    · simp [hremoved]

lemma addOutputs (h : Nets utxo n v) (hnodup : (summary.outputEntries.map Prod.fst).Nodup)
    (hnew : ∀ id ∈ summary.outputEntries.map Prod.fst, id ∉ utxo ∧ id ∉ n.created) :
    Nets utxo (n.addOutputs summary) (insertAll v summary.outputEntries) where
  __ := h
  netted := h.netted.trans Finset.subset_union_left
  created id := by
    show id ∈ n.created ∪ _ ↔ id ∈ (n.allInserts ++ summary.outputEntries).map Prod.fst
    rw [Finset.mem_union, h.created, map_append, mem_append, mem_toFinset]
  keys := by
    show ((n.allInserts ++ summary.outputEntries).map Prod.fst).Nodup
    rw [map_append, nodup_append]
    refine ⟨h.keys, hnodup, ?_⟩
    rintro a ha b hb rfl
    exact (hnew a hb).2 ((h.created a).2 ha)
  fresh id hid := by
    rcases Finset.mem_union.1 hid with hid | hid
    · exact h.fresh id hid
    · exact (hnew id (mem_toFinset.1 hid)).1
  read_created e he := by
    rcases mem_append.1 he with he | he
    · have hcreated := (h.created e.1).2 (mem_map_of_mem he)
      rw [getElem?_insertAll_of_notMem _ (fun hin => (hnew e.1 hin).2 hcreated)]
      exact h.read_created e he
    · have hkept : e.1 ∉ (n.addOutputs summary).netted :=
        fun hn => (hnew e.1 (mem_map_of_mem he)).2 (h.netted hn)
      rw [getElem?_insertAll_of_mem _ hnodup he, if_neg hkept]
  read_old id hid := by
    obtain ⟨hold, hout⟩ := not_or.1 (fun h => hid (Finset.mem_union.2 h))
    rw [getElem?_insertAll_of_notMem _ (fun hin => hout (mem_toFinset.2 hin))]
    exact h.read_old id hold

end Nets

def RemovalsIn (utxo : Table Bytes) (n : Netting) : Prop := ∀ id ∈ n.removals, id ∈ utxo

lemma removals_of_spendInput (h : n.spendInput id = .ok n') :
    ∀ r ∈ n.removals, r ∈ n'.removals := by
  unfold Netting.spendInput at h
  split at h
  · cases h
  · split at h
    · cases h
      exact fun r hr => hr
    · cases h
      exact fun r hr => mem_append_left _ hr

lemma Nets.spend (h : Nets utxo n v) (id : BoxId) :
    ((∃ v', spendBox v id = some v') ↔ ∃ n', n.spendInput id = .ok n' ∧ RemovalsIn utxo n') ∧
      ∀ n' v', n.spendInput id = .ok n' → RemovalsIn utxo n' → spendBox v id = some v' →
        Nets utxo n' v' := by
  have hspend : ∀ {v'}, spendBox v id = some v' ↔ id ∈ v ∧ v' = v.erase id := by
    unfold spendBox
    split
    next hmem =>
      simp [hmem, eq_comm]
    next hmem =>
      simp [hmem]
  by_cases hspent : id ∈ n.spent
  · have herror : ∀ n', n.spendInput id ≠ .ok n' := by
      intro n' hok
      rw [Netting.spendInput, if_pos hspent] at hok
      cases hok
    refine ⟨⟨?_, ?_⟩, fun n' _ hok => absurd hok (herror n')⟩
    · rintro ⟨v', hv'⟩
      exact absurd hspent (h.mem_iff.1 (hspend.1 hv').1).1
    · rintro ⟨n', hok, -⟩
      exact absurd hok (herror n')
  by_cases hcreated : id ∈ n.created
  · have hok : n.spendInput id =
        .ok { n with spent := insert id n.spent, netted := insert id n.netted } := by
      rw [Netting.spendInput, if_neg hspent, if_pos hcreated]
    have hmem : id ∈ v := h.mem_iff.2 ⟨hspent, .inl hcreated⟩
    refine ⟨⟨fun _ => ⟨_, hok, h.removed⟩, fun _ => ⟨_, hspend.2 ⟨hmem, rfl⟩⟩⟩, ?_⟩
    intro n' v' hn' _ hv'
    cases hok.symm.trans hn'
    rw [(hspend.1 hv').2]
    exact h.spend_created hcreated
  · have hok : n.spendInput id =
        .ok { n with spent := insert id n.spent, removals := n.removals ++ [id] } := by
      rw [Netting.spendInput, if_neg hspent, if_neg hcreated]
    refine ⟨⟨?_, ?_⟩, ?_⟩
    · rintro ⟨v', hv'⟩
      have hold : id ∈ utxo := ((h.mem_iff.1 (hspend.1 hv').1).2).resolve_left hcreated
      exact ⟨_, hok, (h.spend_old hcreated hspent hold).removed⟩
    · rintro ⟨n', hn', hin⟩
      cases hok.symm.trans hn'
      have hold : id ∈ utxo := hin id (mem_append_right _ (mem_singleton.2 rfl))
      exact ⟨_, hspend.2 ⟨h.mem_iff.2 ⟨hspent, .inr hold⟩, rfl⟩⟩
    · intro n' v' hn' hin hv'
      cases hok.symm.trans hn'
      rw [(hspend.1 hv').2]
      exact h.spend_old hcreated hspent (hin id (mem_append_right _ (mem_singleton.2 rfl)))

lemma removalsIn_of_spendInput (h : n.spendInput id = .ok n') (hn' : RemovalsIn utxo n') :
    RemovalsIn utxo n :=
  fun r hr => hn' r (removals_of_spendInput h r hr)

lemma created_of_foldlM {ids : List BoxId} (h : ids.foldlM Netting.spendInput n = .ok n') :
    n'.created = n.created := by
  induction ids generalizing n with
  | nil =>
    cases h
    rfl
  | cons id ids ih =>
    rw [foldlM_cons, bind_eq_ok] at h
    obtain ⟨n₁, hstep, h⟩ := h
    rw [ih h]
    unfold Netting.spendInput at hstep
    split at hstep
    · cases hstep
    · split at hstep <;> (obtain rfl := Except.ok.inj hstep; rfl)

lemma Nets.spendAll (h : Nets utxo n v) (ids : List BoxId) :
    ((∃ v', ids.foldlM spendBox v = some v') ↔
        ∃ n', ids.foldlM Netting.spendInput n = .ok n' ∧ RemovalsIn utxo n') ∧
      ∀ n' v', ids.foldlM Netting.spendInput n = .ok n' → RemovalsIn utxo n' →
        ids.foldlM spendBox v = some v' → Nets utxo n' v' :=
  foldlM_lockstep (R := fun _ n v => Nets utxo n v)
    (fun _ _ _ hstep hn' => removalsIn_of_spendInput hstep hn') (fun _ _ _ h => h.removed)
    (fun id _ _ _ h => h.spend id) h

def outputIds (txSummaries : List TxSummary) : List BoxId :=
  txSummaries.flatMap (fun summary => summary.outputEntries.map Prod.fst)

/-- The two states, and outputs of the remaining transactions that are all new. -/
structure NetsBefore (utxo : Table Bytes) (rest : List TxSummary) (n : Netting) (v : Table Bytes) :
    Prop where
  nets : Nets utxo n v
  nodup : (outputIds rest).Nodup
  fresh : ∀ id ∈ outputIds rest, id ∉ utxo ∧ id ∉ n.created

lemma NetsBefore.step {rest : List TxSummary} (h : NetsBefore utxo (summary :: rest) n v) :
    ((∃ v', applyTx v summary = some v') ↔
        ∃ n', n.addSummary summary = .ok n' ∧ RemovalsIn utxo n') ∧
      ∀ n' v', n.addSummary summary = .ok n' → RemovalsIn utxo n' → applyTx v summary = some v' →
        NetsBefore utxo rest n' v' := by
  obtain ⟨hiff, hnext⟩ := h.nets.spendAll summary.inputIds
  have hids : outputIds (summary :: rest) =
      summary.outputEntries.map Prod.fst ++ outputIds rest := flatMap_cons
  have hnodup := h.nodup
  rw [hids, nodup_append] at hnodup
  obtain ⟨hown, hrest, hapart⟩ := hnodup
  refine ⟨⟨?_, ?_⟩, ?_⟩
  · rintro ⟨v', hv'⟩
    obtain ⟨v₁, hv₁, -⟩ := Option.map_eq_some_iff.1 hv'
    obtain ⟨n₁, hn₁, hin⟩ := hiff.1 ⟨v₁, hv₁⟩
    exact ⟨_, map_eq_ok.2 ⟨n₁, hn₁, rfl⟩, hin⟩
  · rintro ⟨n', hn', hin⟩
    obtain ⟨n₁, hn₁, rfl⟩ := map_eq_ok.1 hn'
    obtain ⟨v₁, hv₁⟩ := hiff.2 ⟨n₁, hn₁, hin⟩
    exact ⟨_, Option.map_eq_some_iff.2 ⟨v₁, hv₁, rfl⟩⟩
  · intro n' v' hn' hin hv'
    obtain ⟨n₁, hn₁, rfl⟩ := map_eq_ok.1 hn'
    obtain ⟨v₁, hv₁, rfl⟩ := Option.map_eq_some_iff.1 hv'
    have hcreated := created_of_foldlM hn₁
    refine ⟨(hnext n₁ v₁ hn₁ hin hv₁).addOutputs hown ?_, hrest, ?_⟩
    · intro id hid
      rw [hcreated]
      exact h.fresh id (hids ▸ mem_append_left _ hid)
    · intro id hid
      obtain ⟨hold, hnew⟩ := h.fresh id (hids ▸ mem_append_right _ hid)
      refine ⟨hold, fun hmem => ?_⟩
      rcases Finset.mem_union.1 hmem with hmem | hmem
      · exact hnew (hcreated ▸ hmem)
      · exact hapart id (mem_toFinset.1 hmem) id hid rfl

/-! ## The sorted batch -/

lemma pairwise_lt_insertionSort {α : Type} {key : α → ℕ} {xs : List α}
    (hnodup : (xs.map key).Nodup) :
    ((xs.insertionSort (fun a b => key a ≤ key b)).map key).Pairwise (· < ·) := by
  have hsorted := pairwise_insertionSort (fun a b : α => key a ≤ key b) xs
  have hkeys : ((xs.insertionSort (fun a b => key a ≤ key b)).map key).Nodup :=
    ((perm_insertionSort _ xs).map key).nodup_iff.2 hnodup
  rw [pairwise_map]
  exact (hsorted.and (pairwise_map.1 hkeys)).imp (fun {a b} h => Nat.lt_of_le_of_ne h.1 h.2)

namespace Nets

lemma mem_insertions (n : Netting) {e : Insertion} :
    e ∈ n.changes.insertions ↔ e ∈ n.allInserts ∧ e.1 ∉ n.netted := by
  show e ∈ (n.allInserts.filter _).insertionSort _ ↔ _
  rw [mem_insertionSort, mem_filter, decide_eq_true_eq]

lemma mem_removals (n : Netting) : id ∈ n.changes.removals ↔ id ∈ n.removals :=
  mem_insertionSort _

lemma pairwise_removals (h : Nets utxo n v) : n.changes.removals.Pairwise (· < ·) := by
  have hnodup : (n.removals.map id).Nodup := by
    rw [map_id]
    exact h.nodup
  have hsorted := pairwise_lt_insertionSort hnodup
  rwa [map_id] at hsorted

lemma pairwise_insertions (h : Nets utxo n v) :
    (n.changes.insertions.map Prod.fst).Pairwise (· < ·) :=
  pairwise_lt_insertionSort (h.keys.sublist (filter_sublist.map Prod.fst))

/-- The sorted batch leads to the state reached one transaction after the other. -/
theorem apply_changes (h : Nets utxo n v) : n.changes.apply utxo = v := by
  have hnodup : (n.changes.insertions.map Prod.fst).Nodup :=
    h.pairwise_insertions.imp (fun {a b} hab => Nat.ne_of_lt hab)
  apply Std.ExtTreeMap.ext_getElem?
  intro id
  by_cases hcreated : id ∈ n.created
  · obtain ⟨e, he, rfl⟩ := mem_map.1 ((h.created id).1 hcreated)
    rw [h.read_created e he]
    by_cases hnetted : e.1 ∈ n.netted
    · -- created and spent in the block: neither inserted nor there before
      have hout : e.1 ∉ n.changes.insertions.map Prod.fst := by
        intro hmem
        obtain ⟨e', he', heq⟩ := mem_map.1 hmem
        exact ((mem_insertions n).1 he').2 (heq ▸ hnetted)
      have hnone : utxo[e.1]? = none := by
        rw [← Option.not_isSome_iff_eq_none, Std.ExtTreeMap.isSome_getElem?_iff_mem]
        exact h.fresh e.1 hcreated
      rw [StateChanges.apply, getElem?_insertAll_of_notMem _ hout, getElem?_eraseAll, hnone,
        if_pos hnetted, ite_self]
    · rw [StateChanges.apply, if_neg hnetted]
      exact getElem?_insertAll_of_mem _ hnodup ((mem_insertions n).2 ⟨he, hnetted⟩)
  · have hout : id ∉ n.changes.insertions.map Prod.fst := by
      intro hmem
      obtain ⟨e', he', heq⟩ := mem_map.1 hmem
      exact hcreated ((h.created id).2 (heq ▸ mem_map_of_mem ((mem_insertions n).1 he').1))
    rw [StateChanges.apply, getElem?_insertAll_of_notMem _ hout, getElem?_eraseAll,
      h.read_old id hcreated]
    simp only [mem_removals]

end Nets

end Nets

/-- **The batch refines the sequential application.** When output ids are distinct and new, the
transactions apply in sequence if and only if the batch is computed and the state has every box it
removes. The batch is sorted without duplicates, and leads to the same state. -/
theorem computeStateChanges_refines (utxo : Table Bytes) (txSummaries : List TxSummary)
    (hnodup : (outputIds txSummaries).Nodup) (hfresh : ∀ id ∈ outputIds txSummaries, id ∉ utxo) :
    ((∃ v, applyTxs utxo txSummaries = some v) ↔
      ∃ changes, computeStateChanges txSummaries = .ok changes ∧
        ∀ id ∈ changes.removals, id ∈ utxo) ∧
    ∀ v changes, applyTxs utxo txSummaries = some v → computeStateChanges txSummaries = .ok changes →
      changes.apply utxo = v ∧ changes.removals.Pairwise (· < ·) ∧
        (changes.insertions.map Prod.fst).Pairwise (· < ·) := by
  have hstart : NetsBefore utxo txSummaries .empty utxo :=
    ⟨nets_empty utxo, hnodup, fun id hid => ⟨hfresh id hid, Finset.notMem_empty id⟩⟩
  obtain ⟨hiff, hend⟩ := foldlM_lockstep (f := Netting.addSummary) (g := applyTx)
    (R := NetsBefore utxo)
    (by
      intro n summary n' hn' hin
      obtain ⟨n₁, hn₁, rfl⟩ := map_eq_ok.1 hn'
      exact good_of_foldlM (fun _ _ _ hstep hgood => removalsIn_of_spendInput hstep hgood) hn₁ hin)
    (fun _ _ _ (h : NetsBefore utxo _ _ _) => (h.nets.removed : RemovalsIn utxo _))
    (fun _ _ _ _ h => h.step) hstart
  constructor
  · rw [applyTxs, hiff]
    constructor
    · rintro ⟨n, hn, hin⟩
      exact ⟨n.changes, map_eq_ok.2 ⟨n, hn, rfl⟩, fun id hid => hin id ((Nets.mem_removals n).1 hid)⟩
    · rintro ⟨changes, hchanges, hin⟩
      obtain ⟨n, hn, rfl⟩ := map_eq_ok.1 hchanges
      exact ⟨n, hn, fun id hid => hin id ((Nets.mem_removals n).2 hid)⟩
  · intro v changes hv hchanges
    obtain ⟨n, hn, rfl⟩ := map_eq_ok.1 hchanges
    obtain ⟨n', hn', hin⟩ := hiff.1 ⟨v, hv⟩
    cases hn.symm.trans hn'
    have hnets := (hend n v hn hin hv).nets
    exact ⟨hnets.apply_changes, hnets.pairwise_removals, hnets.pairwise_insertions⟩

/-! ## Performing the batch -/

def insertBox (utxo : Table Bytes) (e : Insertion) : Option (Table Bytes) :=
  if e.1 ∈ utxo then none else some (utxo.insert e.1 e.2)

/-- Perform a batch as a tree does: a removal needs its box, and an insertion must not find one. -/
def StateChanges.perform (changes : StateChanges) (utxo : Table Bytes) : Option (Table Bytes) :=
  (changes.removals.foldlM spendBox utxo).bind (fun utxo => changes.insertions.foldlM insertBox utxo)

lemma foldlM_spendBox {ids : List BoxId} {utxo v : Table Bytes}
    (h : ids.foldlM spendBox utxo = some v) : v = eraseAll utxo ids := by
  induction ids generalizing utxo with
  | nil => exact (Option.some.inj h).symm
  | cons id ids ih =>
    rw [foldlM_cons, Option.bind_eq_bind, Option.bind_eq_some_iff] at h
    obtain ⟨utxo₁, hstep, h⟩ := h
    unfold spendBox at hstep
    split at hstep
    · cases hstep
      exact ih h
    · cases hstep

lemma foldlM_insertBox {es : List Insertion} {utxo v : Table Bytes}
    (h : es.foldlM insertBox utxo = some v) :
    v = insertAll utxo es ∧ (es.map Prod.fst).Nodup ∧ ∀ id ∈ es.map Prod.fst, id ∉ utxo := by
  induction es generalizing utxo with
  | nil => exact ⟨(Option.some.inj h).symm, nodup_nil, by simp⟩
  | cons e es ih =>
    rw [foldlM_cons, Option.bind_eq_bind, Option.bind_eq_some_iff] at h
    obtain ⟨utxo₁, hstep, h⟩ := h
    unfold insertBox at hstep
    split at hstep
    · cases hstep
    next hnew =>
      cases hstep
      obtain ⟨hv, hnodup, hfresh⟩ := ih h
      simp only [Std.ExtTreeMap.mem_insert, not_or, Nat.compare_eq_eq] at hfresh
      refine ⟨hv, nodup_cons.2 ⟨fun hmem => (hfresh e.1 hmem).1 rfl, hnodup⟩, ?_⟩
      intro id hid
      rcases mem_cons.1 hid with rfl | hid
      · exact hnew
      · exact (hfresh id hid).2

lemma StateChanges.perform_eq_some {changes : StateChanges} {utxo v : Table Bytes}
    (h : changes.perform utxo = some v) :
    v = changes.apply utxo ∧ (changes.insertions.map Prod.fst).Nodup := by
  obtain ⟨utxo₁, hremoved, hinserted⟩ := Option.bind_eq_some_iff.1 h
  rw [foldlM_spendBox hremoved] at hinserted
  obtain ⟨hv, hnodup, -⟩ := foldlM_insertBox hinserted
  exact ⟨hv, hnodup⟩

/-! ## A chain of two transactions -/

def chainedSummaries : List TxSummary :=
  [⟨[7], [], [(20, [1]), (10, [2])]⟩, ⟨[20, 5], [7], [(15, [3])]⟩]

theorem computeStateChanges_refines_chained :
    computeStateChanges chainedSummaries =
        .ok { lookups := [7], removals := [5, 7], insertions := [(10, [2]), (15, [3])] } ∧
      ∃ v, applyTxs (insertAll ∅ [(5, [0]), (7, [0])]) chainedSummaries = some v ∧
        (StateChanges.mk [7] [5, 7] [(10, [2]), (15, [3])]).apply
          (insertAll ∅ [(5, [0]), (7, [0])]) = v := by
  have hchanges : computeStateChanges chainedSummaries =
      .ok { lookups := [7], removals := [5, 7], insertions := [(10, [2]), (15, [3])] } := by
    decide +kernel
  obtain ⟨hiff, hend⟩ := computeStateChanges_refines (insertAll ∅ [(5, [0]), (7, [0])])
    chainedSummaries (by decide) (by decide)
  obtain ⟨v, hv⟩ := hiff.2 ⟨_, hchanges, by decide⟩
  exact ⟨hchanges, v, hv, (hend v _ hv hchanges).1⟩

end ErgoNode
