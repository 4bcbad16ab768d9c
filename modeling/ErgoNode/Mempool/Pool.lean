import ErgoNode.Chain.Voting
import ErgoNode.Library.Index

/-!
# The ordered pool

Transactions ordered by the fee they pay, with four redundant indexes: by transaction id, by spent
box, by created box, and the bytes that are served to peers. A box id is a hash of the box's content
with the id of its transaction and its position. The hash is taken to be free of collisions, so an
id is a pair of the two (`BoxRef`).
-/

namespace ErgoNode

open List

abbrev TxId := ℕ

structure BoxRef where
  txId : TxId
  index : ℕ
  deriving DecidableEq, Repr

structure BoxCandidate where
  value : ℕ
  ergoTree : Bytes
  creationHeight : ℕ
  tokens : List (ℕ × ℕ)
  deriving DecidableEq, Repr

structure ErgoBox where
  boxId : BoxRef
  candidate : BoxCandidate
  deriving DecidableEq, Repr

/-- A transaction. It has at least one input. -/
structure ErgoTransaction where
  /-- Hash of the transaction without its proofs. -/
  id : TxId
  inputs : List BoxRef
  dataInputs : List BoxRef
  outputs : List BoxCandidate
  inputs_ne_nil : inputs ≠ []
  deriving DecidableEq

def ErgoTransaction.outputBoxes (tx : ErgoTransaction) : List ErgoBox :=
  tx.outputs.zipIdx.map (fun output => ⟨⟨tx.id, output.2⟩, output.1⟩)

lemma ErgoTransaction.txId_of_mem_outputBoxes {tx : ErgoTransaction} {b : ErgoBox}
    (h : b ∈ tx.outputBoxes) : b.boxId.txId = tx.id := by
  obtain ⟨output, -, rfl⟩ := mem_map.1 h
  rfl

lemma ErgoTransaction.eq_of_mem_outputBoxes {tx : ErgoTransaction} {b b' : ErgoBox}
    (h : b ∈ tx.outputBoxes) (h' : b' ∈ tx.outputBoxes) (heq : b.boxId = b'.boxId) : b = b' := by
  obtain ⟨⟨output, i⟩, hmem, rfl⟩ := mem_map.1 h
  obtain ⟨⟨output', i'⟩, hmem', rfl⟩ := mem_map.1 h'
  obtain rfl : i = i' := congrArg BoxRef.index heq
  rw [mem_zipIdx_iff_getElem?] at hmem hmem'
  cases hmem.symm.trans hmem'
  rfl

/-! ## Weights -/

structure TxWeight where
  weight : ℕ
  feePerFactor : ℕ
  txId : TxId
  deriving DecidableEq, Repr

inductive FeeStrategy where
  | feePerByte
  | feePerCycle
  deriving DecidableEq, Repr

namespace TxWeight

/-- Heavier first, then by id. The fee per factor does not count. -/
def cmp (a b : TxWeight) : Ordering := (compare b.weight a.weight).then (compare a.txId b.txId)

def new (txId : TxId) (fee txByteSize cost : ℕ) (strategy : FeeStrategy) : TxWeight :=
  let feeFactor := match strategy with
    | .feePerByte => txByteSize
    | .feePerCycle => if cost = 0 then 1000 else cost
  -- a quotient that does not fit in 64 bits saturates
  let feePerFactor := if feeFactor = 0 then 0 else min (fee * 1024 / feeFactor) (2 ^ 64 - 1)
  ⟨feePerFactor, feePerFactor, txId⟩

lemma txId_eq_of_cmp_eq {a b : TxWeight} (h : a.cmp b = .eq) : a.txId = b.txId :=
  Nat.compare_eq_eq.1 (Ordering.then_eq_eq.1 h).2

lemma cmp_self (a : TxWeight) : a.cmp a = .eq :=
  Ordering.then_eq_eq.2 ⟨Nat.compare_eq_eq.2 rfl, Nat.compare_eq_eq.2 rfl⟩

end TxWeight

structure UnconfirmedTx where
  tx : ErgoTransaction
  /-- Its bytes, as a peer sent them or the node serialized them. -/
  txBytes : Bytes
  fee : ℕ
  cost : ℕ
  validationCost : Option ℕ
  created : ℕ
  lastChecked : ℕ
  source : Option ℕ
  deriving DecidableEq

/-! ## The ordered map -/

abbrev PoolEntry := TxWeight × UnconfirmedTx

/-- Insert into the ordered map. An equal key keeps its place and gets the new value. -/
def insertOrdered (key : TxWeight) (utx : UnconfirmedTx) : List PoolEntry → List PoolEntry
  | [] => [(key, utx)]
  | entry :: rest =>
    match key.cmp entry.1 with
    | .lt => (key, utx) :: entry :: rest
    | .eq => (entry.1, utx) :: rest
    | .gt => entry :: insertOrdered key utx rest

def lookupOrdered (key : TxWeight) (entries : List PoolEntry) : Option UnconfirmedTx :=
  (entries.find? (fun entry => key.cmp entry.1 = .eq)).map Prod.snd

def removeOrdered (key : TxWeight) (entries : List PoolEntry) : List PoolEntry :=
  entries.filter (fun entry => ¬ key.cmp entry.1 = .eq)

lemma insertOrdered_perm {key : TxWeight} {utx : UnconfirmedTx} {entries : List PoolEntry}
    (h : key.txId ∉ entries.map (·.1.txId)) :
    (insertOrdered key utx entries).Perm ((key, utx) :: entries) := by
  induction entries with
  | nil => exact .refl _
  | cons entry rest ih =>
    rw [map_cons, mem_cons, not_or] at h
    rw [insertOrdered]
    split
    · exact .refl _
    next heq =>
      exact absurd (TxWeight.txId_eq_of_cmp_eq heq) h.1
    · exact ((ih h.2).cons entry).trans (.swap _ _ _)

/-! ## The pool -/

structure OrderedPool where
  ordered : List PoolEntry
  byId : TxId → Option TxWeight
  byInput : BoxRef → Option TxWeight
  byOutput : BoxRef → Option (TxWeight × ErgoBox)
  /-- Bytes by transaction id, shared with the readers. -/
  index : TxId → Option Bytes
  capacity : ℕ

namespace OrderedPool

def new (capacity : ℕ) : OrderedPool :=
  ⟨[], fun _ => none, fun _ => none, fun _ => none, fun _ => none, capacity⟩

def len (p : OrderedPool) : ℕ := p.ordered.length

def isFull (p : OrderedPool) : Bool := p.capacity ≤ p.len

def contains (p : OrderedPool) (txId : TxId) : Bool := (p.byId txId).isSome

def get (p : OrderedPool) (txId : TxId) : Option UnconfirmedTx := do
  let weight ← p.byId txId
  lookupOrdered weight p.ordered

def spendingTx (p : OrderedPool) (boxId : BoxRef) : Option TxWeight := p.byInput boxId

def unconfirmedBox (p : OrderedPool) (boxId : BoxRef) : Option ErgoBox := (p.byOutput boxId).map Prod.snd

def lowestWeight (p : OrderedPool) : Option ℕ := p.ordered.getLast?.map (·.1.weight)

def insert (p : OrderedPool) (weight : TxWeight) (utx : UnconfirmedTx) (inputIds : List BoxRef)
    (outputBoxes : List ErgoBox) : OrderedPool where
  ordered := insertOrdered weight utx p.ordered
  byId := Function.update p.byId weight.txId (some weight)
  byInput := writeRows p.byInput (inputIds.map (fun boxId => (boxId, weight)))
  byOutput := writeRows p.byOutput (outputBoxes.map (fun b => (b.boxId, (weight, b))))
  index := Function.update p.index weight.txId (some utx.txBytes)
  capacity := p.capacity

def remove (p : OrderedPool) (txId : TxId) : Option UnconfirmedTx × OrderedPool :=
  match p.byId txId with
  | none => (none, p)
  | some weight =>
    let p' := { p with
      byId := Function.update p.byId txId none
      index := Function.update p.index txId none }
    match lookupOrdered weight p.ordered with
    | none => (none, p')
    | some utx =>
      (some utx, { p' with
        ordered := removeOrdered weight p.ordered
        byInput := fun boxId => (p.byInput boxId).filter (fun w => w.txId ≠ txId)
        byOutput := fun boxId => (p.byOutput boxId).filter (fun row => row.1.txId ≠ txId) })

def evictLowest (p : OrderedPool) : Option TxId × OrderedPool :=
  match p.ordered.getLast? with
  | none => (none, p)
  | some entry => (some entry.1.txId, (p.remove entry.1.txId).2)

/-- The key of one transaction replaced in the values of an index. -/
def reweigh (txId : TxId) (updated w : TxWeight) : TxWeight := if w.txId = txId then updated else w

def updateWeight (p : OrderedPool) (txId : TxId) (newWeight : ℕ) : OrderedPool :=
  match p.byId txId with
  | none => p
  | some oldWeight =>
    match lookupOrdered oldWeight p.ordered with
    | none => p
    | some utx =>
      let updated := { oldWeight with weight := newWeight }
      { p with
        ordered := insertOrdered updated utx (removeOrdered oldWeight p.ordered)
        byId := Function.update p.byId txId (some updated)
        byInput := fun boxId => (p.byInput boxId).map (reweigh txId updated)
        byOutput := fun boxId => (p.byOutput boxId).map
          (fun row => (reweigh txId updated row.1, row.2)) }

/-- `get_mut`, for the fields no index copies: change the entry of a transaction. -/
def modifyEntry (p : OrderedPool) (txId : TxId) (f : UnconfirmedTx → UnconfirmedTx) : OrderedPool :=
  match p.byId txId with
  | none => p
  | some weight =>
    { p with ordered := p.ordered.map (fun entry =>
        if weight.cmp entry.1 = .eq then (entry.1, f entry.2) else entry) }

/-! ## Consistency -/

def entries (p : OrderedPool) : Set PoolEntry := { e | e ∈ p.ordered }

def idRows (e : PoolEntry) : List (TxId × TxWeight) := [(e.2.tx.id, e.1)]

def inputRows (e : PoolEntry) : List (BoxRef × TxWeight) := e.2.tx.inputs.map (fun boxId => (boxId, e.1))

def outputRows (e : PoolEntry) : List (BoxRef × (TxWeight × ErgoBox)) :=
  e.2.tx.outputBoxes.map (fun b => (b.boxId, (e.1, b)))

def bytesRows (e : PoolEntry) : List (TxId × Bytes) := [(e.2.tx.id, e.2.txBytes)]

/-- The four indexes have exactly the entries of the transactions in the ordered map. -/
structure Consistent (p : OrderedPool) : Prop where
  keyed : ∀ e ∈ p.ordered, e.1.txId = e.2.tx.id
  nodup : (p.ordered.map (·.1.txId)).Nodup
  byId_eq : IndexOf p.entries idRows p.byId
  byInput_eq : IndexOf p.entries inputRows p.byInput
  byOutput_eq : IndexOf p.entries outputRows p.byOutput
  index_eq : IndexOf p.entries bytesRows p.index

namespace Consistent

variable {p : OrderedPool} {txId : TxId}

lemma new (capacity : ℕ) : (OrderedPool.new capacity).Consistent where
  keyed := by simp [OrderedPool.new]
  nodup := by simp [OrderedPool.new]
  byId_eq := (IndexOf.empty _).congr (by simp [entries, OrderedPool.new])
  byInput_eq := (IndexOf.empty _).congr (by simp [entries, OrderedPool.new])
  byOutput_eq := (IndexOf.empty _).congr (by simp [entries, OrderedPool.new])
  index_eq := (IndexOf.empty _).congr (by simp [entries, OrderedPool.new])

variable (h : p.Consistent) {e : PoolEntry}

include h

lemma eq_of_txId {e' : PoolEntry} (he : e ∈ p.ordered) (he' : e' ∈ p.ordered)
    (heq : e.1.txId = e'.1.txId) : e = e' :=
  inj_on_of_nodup_map h.nodup he he' heq

lemma byId_eq_some {w : TxWeight} :
    p.byId txId = some w ↔ ∃ utx, (w, utx) ∈ p.ordered ∧ utx.tx.id = txId := by
  rw [h.byId_eq txId w]
  constructor
  · rintro ⟨⟨w', utx⟩, he, hrow⟩
    cases mem_singleton.1 hrow
    exact ⟨utx, he, rfl⟩
  · rintro ⟨utx, he, rfl⟩
    exact ⟨(w, utx), he, mem_singleton_self _⟩

lemma lookup_of_mem (he : e ∈ p.ordered) :
    lookupOrdered e.1 p.ordered = some e.2 := by
  rw [lookupOrdered, Option.map_eq_some_iff]
  cases hfind : p.ordered.find? (fun entry => e.1.cmp entry.1 = .eq) with
  | none =>
    have := find?_eq_none.1 hfind e he
    simp [TxWeight.cmp_self] at this
  | some e' =>
    have hcmp : e.1.cmp e'.1 = .eq := by simpa using find?_some hfind
    obtain rfl := h.eq_of_txId he (mem_of_find?_eq_some hfind) (TxWeight.txId_eq_of_cmp_eq hcmp)
    exact ⟨e, rfl, rfl⟩

lemma mem_removeOrdered (he : e ∈ p.ordered) {e' : PoolEntry} :
    e' ∈ removeOrdered e.1 p.ordered ↔ e' ∈ p.ordered ∧ e'.1.txId ≠ e.1.txId := by
  rw [removeOrdered, mem_filter, decide_eq_true_eq]
  refine and_congr_right (fun he' => not_congr ⟨fun hcmp => ?_, fun heq => ?_⟩)
  · exact (TxWeight.txId_eq_of_cmp_eq hcmp).symm
  · rw [h.eq_of_txId he' he heq]
    exact TxWeight.cmp_self _

lemma eq_of_spends {e' : PoolEntry} (he : e ∈ p.ordered) (he' : e' ∈ p.ordered) {boxId : BoxRef}
    (hspends : boxId ∈ e.2.tx.inputs) (hspends' : boxId ∈ e'.2.tx.inputs) : e = e' := by
  have hrow := (h.byInput_eq boxId e.1).2 ⟨e, he, mem_map.2 ⟨boxId, hspends, rfl⟩⟩
  have hrow' := (h.byInput_eq boxId e'.1).2 ⟨e', he', mem_map.2 ⟨boxId, hspends', rfl⟩⟩
  exact h.eq_of_txId he he' (congrArg TxWeight.txId (Option.some.inj (hrow.symm.trans hrow')))

lemma exists_entry (hmem : p.contains txId = true) :
    ∃ e ∈ p.ordered, e.1.txId = txId ∧ p.byId txId = some e.1 := by
  obtain ⟨w, hw⟩ := Option.isSome_iff_exists.1 hmem
  obtain ⟨utx, he, rfl⟩ := h.byId_eq_some.1 hw
  exact ⟨(w, utx), he, h.keyed _ he, hw⟩

lemma notMem_of_contains_eq_false (hnot : p.contains txId = false) :
    ∀ e ∈ p.ordered, e.2.tx.id ≠ txId := by
  rintro e he rfl
  have hrow : p.byId e.2.tx.id = some e.1 := h.byId_eq_some.2 ⟨e.2, he, rfl⟩
  simp [contains, hrow] at hnot

lemma mem_remove :
    e ∈ (p.remove txId).2.ordered ↔ e ∈ p.ordered ∧ e.1.txId ≠ txId := by
  cases hw : p.byId txId with
  | none =>
    have hnot : ∀ e ∈ p.ordered, e.2.tx.id ≠ txId :=
      h.notMem_of_contains_eq_false (by simp [contains, hw])
    rw [OrderedPool.remove, hw]
    exact ⟨fun he => ⟨he, fun heq => hnot e he ((h.keyed e he).symm.trans heq)⟩, And.left⟩
  | some w =>
    obtain ⟨utx, he, rfl⟩ := h.byId_eq_some.1 hw
    rw [OrderedPool.remove, hw]
    simp only [h.lookup_of_mem he]
    rw [h.mem_removeOrdered he, h.keyed _ he]

/-- **A removal keeps the indexes consistent.** -/
theorem remove (txId : TxId) : (p.remove txId).2.Consistent := by
  have hmem : ∀ e, e ∈ (p.remove txId).2.ordered ↔ e ∈ p.ordered ∧ e.1.txId ≠ txId :=
    fun e => h.mem_remove
  have hentries : { e ∈ p.entries | e.1.txId ≠ txId } = (p.remove txId).2.entries := by
    ext e
    exact (hmem e).symm
  cases hw : p.byId txId with
  | none =>
    have hsame : (p.remove txId).2 = p := by rw [OrderedPool.remove, hw]
    rwa [hsame]
  | some w =>
    obtain ⟨utx, he, rfl⟩ := h.byId_eq_some.1 hw
    have hremove : (p.remove utx.tx.id).2 = { p with
        ordered := removeOrdered w p.ordered
        byId := Function.update p.byId utx.tx.id none
        byInput := fun boxId => (p.byInput boxId).filter (fun w => w.txId ≠ utx.tx.id)
        byOutput := fun boxId => (p.byOutput boxId).filter (fun row => row.1.txId ≠ utx.tx.id)
        index := Function.update p.index utx.tx.id none } := by
      rw [OrderedPool.remove, hw]
      simp only [h.lookup_of_mem he]
    constructor
    case keyed => exact fun e he' => h.keyed e ((hmem e).1 he').1
    case nodup =>
      rw [hremove]
      exact h.nodup.sublist ((filter_sublist).map _)
    case byId_eq =>
      rw [← hentries, hremove]
      simp only [update_none_eq_filter]
      refine h.byId_eq.retain (fun e he' row hrow => ?_)
      obtain rfl := mem_singleton.1 hrow
      rw [decide_eq_true_eq, h.keyed e he']
    case byInput_eq =>
      rw [← hentries, hremove]
      refine h.byInput_eq.retain (fun e _ row hrow => ?_)
      obtain ⟨boxId, -, rfl⟩ := mem_map.1 hrow
      rw [decide_eq_true_eq]
    case byOutput_eq =>
      rw [← hentries, hremove]
      refine h.byOutput_eq.retain (fun e _ row hrow => ?_)
      obtain ⟨b, -, rfl⟩ := mem_map.1 hrow
      rw [decide_eq_true_eq]
    case index_eq =>
      rw [← hentries, hremove]
      simp only [update_none_eq_filter]
      refine h.index_eq.retain (fun e he' row hrow => ?_)
      obtain rfl := mem_singleton.1 hrow
      rw [decide_eq_true_eq, h.keyed e he']

/-- **An insertion keeps the indexes consistent**, if the transaction is new and conflicts with
none. -/
theorem insert {weight : TxWeight} {utx : UnconfirmedTx}
    (hkey : weight.txId = utx.tx.id) (hnew : p.contains utx.tx.id = false)
    (hfree : ∀ boxId ∈ utx.tx.inputs, p.byInput boxId = none) :
    (p.insert weight utx utx.tx.inputs utx.tx.outputBoxes).Consistent := by
  have hother := h.notMem_of_contains_eq_false hnew
  have hfresh : weight.txId ∉ p.ordered.map (·.1.txId) := by
    rintro hmem
    obtain ⟨e, he, heq⟩ := mem_map.1 hmem
    exact hother e he ((h.keyed e he).symm.trans (heq.trans hkey))
  have hperm : (insertOrdered weight utx p.ordered).Perm ((weight, utx) :: p.ordered) :=
    insertOrdered_perm hfresh
  have hentries : Insert.insert (weight, utx) p.entries =
      (p.insert weight utx utx.tx.inputs utx.tx.outputBoxes).entries := by
    ext e
    exact (mem_cons (a := e)).symm.trans hperm.mem_iff.symm
  constructor
  case keyed =>
    intro e he
    rcases mem_cons.1 (hperm.mem_iff.1 he) with rfl | he
    · exact hkey
    · exact h.keyed e he
  case nodup =>
    refine (hperm.map _).nodup_iff.2 ?_
    rw [map_cons, nodup_cons]
    exact ⟨hfresh, h.nodup⟩
  case byId_eq =>
    rw [← hentries, OrderedPool.insert, hkey]
    refine h.byId_eq.insert (e := (weight, utx)) ?_ ?_
    · intro e he row' hrow' row hrow
      obtain rfl := mem_singleton.1 hrow'
      obtain rfl := mem_singleton.1 hrow
      exact hother e he
    · intro k v v' hv hv'
      exact (Prod.mk.inj ((mem_singleton.1 hv').trans (mem_singleton.1 hv).symm)).2
  case byInput_eq =>
    rw [← hentries]
    refine h.byInput_eq.insert (e := (weight, utx)) ?_ ?_
    · intro e he row' hrow' row hrow heq
      obtain ⟨boxId, hboxId, rfl⟩ := mem_map.1 hrow
      have hspent := (h.byInput_eq row'.1 row'.2).2 ⟨e, he, hrow'⟩
      rw [heq, hfree boxId hboxId] at hspent
      cases hspent
    · intro k v v' hv hv'
      obtain ⟨_, _, heq⟩ := mem_map.1 hv
      obtain ⟨_, _, heq'⟩ := mem_map.1 hv'
      rw [← (Prod.mk.inj heq).2, ← (Prod.mk.inj heq').2]
  case byOutput_eq =>
    rw [← hentries]
    refine h.byOutput_eq.insert (e := (weight, utx)) ?_ ?_
    · -- outputs of different transactions have different ids
      intro e he row' hrow' row hrow heq
      obtain ⟨b', hb', rfl⟩ := mem_map.1 hrow'
      obtain ⟨b, hb, rfl⟩ := mem_map.1 hrow
      have hid := ErgoTransaction.txId_of_mem_outputBoxes hb
      have hid' := ErgoTransaction.txId_of_mem_outputBoxes hb'
      exact hother e he (by rw [← hid', ← hid]; exact congrArg BoxRef.txId heq)
    · intro k v v' hv hv'
      obtain ⟨b, hb, heq⟩ := mem_map.1 hv
      obtain ⟨b', hb', heq'⟩ := mem_map.1 hv'
      obtain ⟨hk, rfl⟩ := Prod.mk.inj heq
      obtain ⟨hk', rfl⟩ := Prod.mk.inj heq'
      rw [ErgoTransaction.eq_of_mem_outputBoxes hb' hb (hk'.trans hk.symm)]
  case index_eq =>
    rw [← hentries, OrderedPool.insert, hkey]
    refine h.index_eq.insert (e := (weight, utx)) ?_ ?_
    · intro e he row' hrow' row hrow
      obtain rfl := mem_singleton.1 hrow'
      obtain rfl := mem_singleton.1 hrow
      exact hother e he
    · intro k v v' hv hv'
      exact (Prod.mk.inj ((mem_singleton.1 hv').trans (mem_singleton.1 hv).symm)).2

lemma updateWeight_eq (he : e ∈ p.ordered) (newWeight : ℕ) :
    p.updateWeight e.2.tx.id newWeight = { p with
      ordered := insertOrdered { e.1 with weight := newWeight } e.2 (removeOrdered e.1 p.ordered)
      byId := Function.update p.byId e.2.tx.id (some { e.1 with weight := newWeight })
      byInput := fun boxId => (p.byInput boxId).map
        (reweigh e.2.tx.id { e.1 with weight := newWeight })
      byOutput := fun boxId => (p.byOutput boxId).map
        (fun row => (reweigh e.2.tx.id { e.1 with weight := newWeight } row.1, row.2)) } := by
  rw [OrderedPool.updateWeight, h.byId_eq_some.2 ⟨e.2, he, rfl⟩]
  simp only [h.lookup_of_mem he]

lemma updateWeight_perm (he : e ∈ p.ordered) (newWeight : ℕ) :
    (p.updateWeight e.2.tx.id newWeight).ordered.Perm
      (({ e.1 with weight := newWeight }, e.2) :: removeOrdered e.1 p.ordered) := by
  rw [h.updateWeight_eq he]
  refine insertOrdered_perm ?_
  rintro hmem
  obtain ⟨e', he', heq⟩ := mem_map.1 hmem
  exact ((h.mem_removeOrdered he).1 he').2 heq

lemma entries_updateWeight (he : e ∈ p.ordered) (newWeight : ℕ) :
    (fun e' => (reweigh e.2.tx.id { e.1 with weight := newWeight } e'.1, e'.2)) '' p.entries =
      (p.updateWeight e.2.tx.id newWeight).entries := by
  have hkey := h.keyed e he
  ext e'
  refine Iff.trans ?_ (h.updateWeight_perm he newWeight).mem_iff.symm
  rw [mem_cons, h.mem_removeOrdered he, hkey]
  constructor
  · rintro ⟨e₀, he₀, rfl⟩
    by_cases hsame : e₀.1.txId = e.2.tx.id
    · obtain rfl := h.eq_of_txId he₀ he (hsame.trans hkey.symm)
      exact .inl (by simp only [reweigh, if_pos hkey])
    · refine .inr ?_
      simp only [reweigh, if_neg hsame]
      exact ⟨he₀, hsame⟩
  · rintro (rfl | ⟨he', hne⟩)
    · exact ⟨e, he, by simp only [reweigh, if_pos hkey]⟩
    · exact ⟨e', he', by simp only [reweigh, if_neg hne]⟩

/-- **A new weight keeps the indexes consistent.** -/
theorem updateWeight (txId : TxId) (newWeight : ℕ) :
    (p.updateWeight txId newWeight).Consistent := by
  cases hw : p.byId txId with
  | none =>
    rwa [OrderedPool.updateWeight, hw]
  | some w =>
    obtain ⟨utx, he, rfl⟩ := h.byId_eq_some.1 hw
    have hkey : w.txId = utx.tx.id := h.keyed _ he
    have hentries := h.entries_updateWeight he newWeight
    have hupdate := h.updateWeight_eq he newWeight
    have hperm := h.updateWeight_perm he newWeight
    -- the row of the transaction's own key is the only one of that key
    have hbyId : Function.update p.byId utx.tx.id (some { w with weight := newWeight }) =
        fun k => (p.byId k).map (reweigh utx.tx.id { w with weight := newWeight }) := by
      funext k
      by_cases hk : k = utx.tx.id
      · subst hk
        rw [Function.update_self, hw, Option.map_some, reweigh, if_pos hkey]
      · rw [Function.update_of_ne hk]
        cases hrow : p.byId k with
        | none => rfl
        | some w' =>
          obtain ⟨utx', he', rfl⟩ := h.byId_eq_some.1 hrow
          rw [Option.map_some, reweigh, if_neg (fun heq => hk ((h.keyed _ he').symm.trans heq))]
    constructor
    case keyed =>
      intro e' he'
      rcases mem_cons.1 (hperm.mem_iff.1 he') with rfl | hrest
      · exact hkey
      · exact h.keyed e' ((h.mem_removeOrdered he).1 hrest).1
    case nodup =>
      refine (hperm.map _).nodup_iff.2 ?_
      rw [map_cons, nodup_cons]
      refine ⟨fun hmem => ?_, h.nodup.sublist ((filter_sublist).map _)⟩
      obtain ⟨e', he', heq⟩ := mem_map.1 hmem
      exact ((h.mem_removeOrdered he).1 he').2 heq
    case byId_eq =>
      rw [← hentries, hupdate, hbyId]
      exact h.byId_eq.map (fun _ _ => rfl)
    case byInput_eq =>
      rw [← hentries, hupdate]
      refine h.byInput_eq.map (fun e _ => ?_)
      rw [inputRows, inputRows, map_map]
      rfl
    case byOutput_eq =>
      rw [← hentries, hupdate]
      refine h.byOutput_eq.map (fun e _ => ?_)
      rw [outputRows, outputRows, map_map]
      rfl
    case index_eq =>
      rw [← hentries, hupdate]
      exact h.index_eq.image (fun _ _ => rfl)

/-- **A change of what no index holds keeps the indexes consistent.** -/
theorem modifyEntry (txId : TxId) {f : UnconfirmedTx → UnconfirmedTx}
    (htx : ∀ utx, (f utx).tx = utx.tx) (hbytes : ∀ utx, (f utx).txBytes = utx.txBytes) :
    (p.modifyEntry txId f).Consistent := by
  rw [OrderedPool.modifyEntry]
  split
  · exact h
  next w _ =>
    let rewrite : PoolEntry → PoolEntry := fun e =>
      if w.cmp e.1 = .eq then (e.1, f e.2) else e
    have hkey : ∀ e, (rewrite e).1 = e.1 := by
      intro e
      simp only [rewrite]
      split <;> rfl
    have htx' : ∀ e, (rewrite e).2.tx = e.2.tx := by
      intro e
      simp only [rewrite]
      split
      · exact htx _
      · rfl
    have hbytes' : ∀ e, (rewrite e).2.txBytes = e.2.txBytes := by
      intro e
      simp only [rewrite]
      split
      · exact hbytes _
      · rfl
    have hentries : rewrite '' p.entries = { e | e ∈ p.ordered.map rewrite } := by
      ext e
      exact mem_map.symm
    constructor
    case keyed =>
      intro e hmem
      obtain ⟨e', he', rfl⟩ := mem_map.1 hmem
      rw [hkey, htx']
      exact h.keyed e' he'
    case nodup =>
      have hids : (p.ordered.map rewrite).map (·.1.txId) = p.ordered.map (·.1.txId) := by
        rw [map_map]
        exact map_congr_left (fun e _ => congrArg TxWeight.txId (hkey e))
      exact hids ▸ h.nodup
    case byId_eq =>
      exact (h.byId_eq.image (fun e _ => by rw [idRows, idRows, hkey, htx'])).congr hentries
    case byInput_eq =>
      exact (h.byInput_eq.image (fun e _ => by rw [inputRows, inputRows, hkey, htx'])).congr hentries
    case byOutput_eq =>
      exact (h.byOutput_eq.image
        (fun e _ => by rw [outputRows, outputRows, hkey, htx'])).congr hentries
    case index_eq =>
      exact (h.index_eq.image
        (fun e _ => by rw [bytesRows, bytesRows, hbytes', htx'])).congr hentries

end Consistent

end OrderedPool

end ErgoNode
