import ErgoNode.Mining.Fee

/-!
# Assembling the transactions of a block

The emission transaction comes first, then the selected ones, and last the transaction that collects
their fees. It is known only once the selection is, so the whole is measured, and selected
transactions are dropped from the end until it fits. The measured size leaves the version field out
for blocks of version 1 and below, where the section may be four bytes over the limit.
-/

namespace ErgoNode

open List SelectionContext

/-! ## Sums that saturate -/

lemma add_le_of_saturatingAdd_le {a b bound : ℕ} (hbound : bound < 2 ^ 64 - 1)
    (h : saturatingAdd a b ≤ bound) : a + b ≤ bound := by
  rw [saturatingAdd] at h
  omega

lemma saturatingAdd_eq {a b : ℕ} (h : a + b < 2 ^ 64) : saturatingAdd a b = a + b := by
  rw [saturatingAdd]
  omega

lemma sum_le_of_foldl_saturatingAdd_le {bound : ℕ} (hbound : bound < 2 ^ 64 - 1) (xs : List ℕ) :
    ∀ {a : ℕ}, xs.foldl saturatingAdd a ≤ bound → a + xs.sum ≤ bound := by
  induction xs with
  | nil => exact fun h => by simpa using h
  | cons x xs ih =>
    intro a h
    have hstep := ih h
    have hle : saturatingAdd a x ≤ bound := by omega
    have hadd := add_le_of_saturatingAdd_le hbound hle
    rw [saturatingAdd_eq (by omega)] at hstep
    rw [sum_cons]
    omega

/-! ## The assembly -/

/-- What the assembly is given beside the emission transaction and the candidates. -/
structure Assembler where
  rules : TxRules
  fees : FeeRules
  sections : SectionRules ErgoTransaction
  ctx : ErgoStateContext
  utxo : UtxoReader
  height : ℕ
  blockVersion : UInt8
  maxBlockCost : Int32
  maxBlockSize : Int32
  serialize_ne_nil : ∀ {tx : ErgoTransaction}, sections.serializeTransaction tx ≠ .ok []

namespace Assembler

variable (a : Assembler)
variable {txs : List ErgoTransaction} {tx : ErgoTransaction}

def costLimit : ℕ := a.maxBlockCost.toNatClampNeg

def sizeLimit : ℕ := a.maxBlockSize.toNatClampNeg

def serializedSize (tx : ErgoTransaction) : Except MiningError ℕ :=
  match a.sections.serializeTransaction tx with
  | .ok bytes => .ok bytes.length
  | .error e => .error (.assemblyFailed ("transaction serialize: " ++ e))

/-- `none` when there is no fee transaction, also when it is unusable. -/
def measureFeeTx (blockTxs : List ErgoTransaction) : Option CostedTx :=
  match a.fees.buildFeeTx blockTxs a.height with
  | .ok (some feeTx) => do
    let inputBoxes ← feeTx.inputs.mapM (outputsOf blockTxs)
    let cost ← (a.rules feeTx inputBoxes [] a.ctx).toOption
    let size ← (a.serializedSize feeTx).toOption
    some ⟨feeTx, cost, size⟩
  | _ => none

def totalSize (emission : CostedTx) (selected : List CostedTx) (fee : Option CostedTx) : ℕ :=
  let txCount := 1 + selected.length + fee.toList.length
  saturatingAdd
    (saturatingAdd ((selected.map (·.size)).foldl saturatingAdd emission.size)
      ((fee.map (·.size)).getD 0))
    (blockTransactionsOverhead a.blockVersion txCount)

def totalCost (emission : CostedTx) (selected : List CostedTx) (fee : Option CostedTx) : ℕ :=
  saturatingAdd ((selected.map (·.cost)).foldl saturatingAdd emission.cost)
    ((fee.map (·.cost)).getD 0)

def feeOf (emission : CostedTx) (selected : List CostedTx) : Option CostedTx :=
  a.measureFeeTx (emission.tx :: selected.map (·.tx))

def Fits (emission : CostedTx) (selected : List CostedTx) : Prop :=
  totalCost emission selected (a.feeOf emission selected) ≤ a.costLimit ∧
    a.totalSize emission selected (a.feeOf emission selected) ≤ a.sizeLimit

instance (emission : CostedTx) (selected : List CostedTx) : Decidable (a.Fits emission selected) :=
  inferInstanceAs (Decidable (_ ∧ _))

/-- The loop that drops selected transactions from the end, here the front of the reversed list. -/
def fitLoop (emission : CostedTx) : List CostedTx → List CostedTx × Option CostedTx
  -- nothing is left to drop: the emission transaction is shipped whatever it takes
  | [] => if a.Fits emission [] then ([], a.feeOf emission []) else ([], none)
  | t :: rest =>
    if a.Fits emission (t :: rest).reverse then
      ((t :: rest).reverse, a.feeOf emission (t :: rest).reverse)
    else fitLoop emission rest

def selection : SelectionContext :=
  ⟨a.rules, a.ctx, a.utxo, a.blockVersion, a.sizeLimit, a.costLimit⟩

def selectAndCollectFees (emissionTx : ErgoTransaction) (emissionBox : ErgoBox)
    (candidates : List (ErgoTransaction × ℕ)) :
    Except MiningError (List ErgoTransaction × List TxId) :=
  match a.rules emissionTx [emissionBox] [] a.ctx with
  -- its cost cannot be measured, so nothing is added to it
  | .error _ => .ok ([emissionTx], [])
  | .ok cost => do
    let size ← a.serializedSize emissionTx
    let emission : CostedTx := ⟨emissionTx, cost, size⟩
    let (selected, invalid) := a.selection.selectTransactions candidates [emission]
    let (kept, fee) := a.fitLoop emission selected.reverse
    .ok (emissionTx :: kept.map (·.tx) ++ (fee.map (·.tx)).toList, invalid)

def selectionOrder (emissionTx : ErgoTransaction) (emissionBox : ErgoBox)
    (candidates : List (ErgoTransaction × ℕ)) : List ErgoTransaction :=
  match a.rules emissionTx [emissionBox] [] a.ctx, a.serializedSize emissionTx with
  | .ok cost, .ok size =>
    (a.selection.selectTransactions candidates [⟨emissionTx, cost, size⟩]).1.map (·.tx)
  | _, _ => []

structure WithinLimits (emissionTx : ErgoTransaction) (emissionBox : ErgoBox)
    (candidates : List (ErgoTransaction × ℕ)) (txs : List ErgoTransaction) : Prop where
  head : txs.head? = some emissionTx
  spendsOnce : (txs.flatMap (·.inputs)).Nodup
  /-- An input is in the UTXO set or an output of an earlier transaction. -/
  spendsKnown : ∀ before tx after, txs = before ++ tx :: after → ∀ boxId ∈ tx.inputs,
    (a.utxo boxId).isSome ∨ ∃ t ∈ before, ∃ b ∈ t.outputBoxes, b.boxId = boxId
  /-- Between the emission and the fee transaction is a prefix of the selection. -/
  selected : ∃ part, part <+: a.selectionOrder emissionTx emissionBox candidates ∧
    (txs = emissionTx :: part ∨ ∃ feeTx, txs = emissionTx :: part ++ [feeTx] ∧
      a.fees.buildFeeTx (emissionTx :: part) a.height = .ok (some feeTx))
  limits : txs = [emissionTx] ∨
    (∃ cost, blockCost a.rules a.ctx a.utxo [] txs = some cost ∧ cost ≤ a.costLimit) ∧
      ∀ headerId, ∃ bytes,
        serializeBlockTransactions a.sections headerId a.blockVersion.toNat txs = .ok bytes ∧
          bytes.length ≤ a.sizeLimit

def serializedLength (tx : ErgoTransaction) : ℕ :=
  match a.sections.serializeTransaction tx with
  | .ok bytes => bytes.length
  | .error _ => 0

def countedSize (txs : List ErgoTransaction) : ℕ :=
  blockTransactionsOverhead a.blockVersion txs.length + (txs.map a.serializedLength).sum

variable {a} {blockTxs before : List ErgoTransaction} {fee : CostedTx} {c : SelectionContext}

/-! ## What the list is made of -/

lemma fitLoop_cases (emission : CostedTx) (dropped : List CostedTx) :
    a.fitLoop emission dropped = ([], none) ∨
      ∃ kept, kept <+: dropped.reverse ∧ a.Fits emission kept ∧
        a.fitLoop emission dropped = (kept, a.feeOf emission kept) := by
  induction dropped with
  | nil =>
    rw [fitLoop]
    split
    next hfits =>
      exact .inr ⟨[], prefix_refl _, hfits, rfl⟩
    · exact .inl rfl
  | cons t rest ih =>
    rw [fitLoop]
    split
    next hfits =>
      exact .inr ⟨_, prefix_refl _, hfits, rfl⟩
    · refine ih.imp_right ?_
      rintro ⟨kept, hpre, hfits, heq⟩
      refine ⟨kept, hpre.trans ?_, hfits, heq⟩
      rw [reverse_cons]
      exact prefix_append _ _

/-- The list is the emission transaction, or that with a prefix of the selection and the fee
transaction. -/
theorem selectAndCollectFees_cases {emissionTx : ErgoTransaction} {emissionBox : ErgoBox}
    {candidates : List (ErgoTransaction × ℕ)} {invalid : List TxId}
    (h : a.selectAndCollectFees emissionTx emissionBox candidates = .ok (txs, invalid)) :
    txs = [emissionTx] ∨ ∃ (emission : CostedTx) (kept : List CostedTx),
      emission.tx = emissionTx ∧
      a.rules emissionTx [emissionBox] [] a.ctx = .ok emission.cost ∧
      a.serializedSize emissionTx = .ok emission.size ∧
      kept <+: (a.selection.selectTransactions candidates [emission]).1 ∧
      a.Fits emission kept ∧
      txs = (emission :: kept ++ (a.feeOf emission kept).toList).map (·.tx) := by
  rw [selectAndCollectFees] at h
  split at h
  · exact .inl (congrArg Prod.fst (Except.ok.inj h)).symm
  next cost hcost =>
    rw [bind_eq_ok] at h
    obtain ⟨size, hsize, h⟩ := h
    let emission : CostedTx := ⟨emissionTx, cost, size⟩
    let selected := (a.selection.selectTransactions candidates [emission]).1
    have htxs : txs = emissionTx :: (a.fitLoop emission selected.reverse).1.map (·.tx) ++
        ((a.fitLoop emission selected.reverse).2.map (·.tx)).toList :=
      (congrArg Prod.fst (Except.ok.inj h)).symm
    obtain hloop | ⟨kept, hpre, hfits, hloop⟩ := fitLoop_cases (a := a) emission selected.reverse
    · rw [hloop] at htxs
      exact .inl htxs
    · rw [hloop] at htxs
      rw [reverse_reverse] at hpre
      refine .inr ⟨emission, kept, rfl, hcost, hsize, hpre, hfits, ?_⟩
      rw [htxs]
      cases a.feeOf emission kept <;> simp [emission]

lemma serializedSize_eq_ok {size : ℕ} (h : a.serializedSize tx = .ok size) :
    ∃ bytes, a.sections.serializeTransaction tx = .ok bytes ∧ bytes.length = size := by
  rw [serializedSize] at h
  split at h
  next bytes hbytes =>
    exact ⟨bytes, hbytes, Except.ok.inj h⟩
  · cases h

lemma measureFeeTx_eq_some (h : a.measureFeeTx blockTxs = some fee) :
    a.fees.buildFeeTx blockTxs a.height = .ok (some fee.tx) ∧
      a.serializedSize fee.tx = .ok fee.size ∧
      ∃ inputBoxes, fee.tx.inputs.mapM (outputsOf blockTxs) = some inputBoxes ∧
        a.rules fee.tx inputBoxes [] a.ctx = .ok fee.cost := by
  rw [measureFeeTx] at h
  split at h
  next feeTx hbuild =>
    simp only [Option.bind_eq_bind, Option.bind_eq_some_iff, toOption_eq_some_iff] at h
    obtain ⟨inputBoxes, hboxes, cost, hcost, size, hsize, heq⟩ := h
    cases heq
    exact ⟨hbuild, hsize, inputBoxes, hboxes, hcost⟩
  · cases h

/-! ## Costs and boxes -/

lemma mapM_some_mono {α β : Type} {f g : α → Option β} (hfg : ∀ x y, f x = some y → g x = some y) :
    ∀ {xs : List α} {ys : List β}, xs.mapM f = some ys → xs.mapM g = some ys := by
  intro xs
  induction xs with
  | nil => exact fun h => h
  | cons x xs ih =>
    intro ys h
    simp only [mapM_cons, Option.bind_eq_bind, Option.bind_eq_some_iff] at h ⊢
    obtain ⟨y, hy, ys', hys', heq⟩ := h
    exact ⟨y, hfg x y hy, ys', ih hys', heq⟩

lemma isSome_of_mapM {α β : Type} {f : α → Option β} {xs : List α} :
    ∀ {ys : List β}, xs.mapM f = some ys → ∀ x ∈ xs, (f x).isSome := by
  induction xs with
  | nil => exact fun _ x hx => by cases hx
  | cons x xs ih =>
    intro ys h x' hx'
    simp only [mapM_cons, Option.bind_eq_bind, Option.bind_eq_some_iff] at h
    obtain ⟨y, hy, ys', hys', -⟩ := h
    rcases mem_cons.1 hx' with rfl | hx'
    · exact hy ▸ rfl
    · exact ih hys' x' hx'

lemma known_of_txCost {cost : ℕ} (h : txCost c.rules c.ctx c.utxo before tx = some cost) :
    ∀ boxId ∈ tx.inputs,
      (c.utxo boxId).isSome ∨ ∃ t ∈ before, ∃ b ∈ t.outputBoxes, b.boxId = boxId := by
  intro boxId hmem
  simp only [txCost, Option.bind_eq_bind, Option.bind_eq_some_iff] at h
  obtain ⟨inputBoxes, hboxes, -⟩ := h
  have hsome := isSome_of_mapM hboxes boxId hmem
  rw [lookupAfter, Option.isSome_or, Bool.or_eq_true] at hsome
  rcases hsome with hout | hutxo
  · obtain ⟨b, hb⟩ := Option.isSome_iff_exists.1 hout
    exact .inr ((exists_of_outputsOf hb).imp fun t ht => ⟨ht.1, b, ht.2⟩)
  · exact .inl hutxo

lemma known_of_measured {ts : List CostedTx} (h : c.Measured [] ts) {after : List ErgoTransaction}
    (hsplit : ts.map (·.tx) = before ++ tx :: after) :
    ∀ boxId ∈ tx.inputs,
      (c.utxo boxId).isSome ∨ ∃ t ∈ before, ∃ b ∈ t.outputBoxes, b.boxId = boxId := by
  obtain ⟨ts₁, ts₂, rfl, rfl, hrest⟩ := map_eq_append_iff.1 hsplit
  obtain ⟨t, ts₃, rfl, rfl, rfl⟩ := map_eq_cons_iff.1 hrest
  have hcost := (measured_append.1 h).2.1
  rw [nil_append] at hcost
  exact known_of_txCost hcost

lemma txCost_feeTx (h : a.measureFeeTx blockTxs = some fee) :
    txCost a.rules a.ctx a.utxo blockTxs fee.tx = some fee.cost := by
  obtain ⟨hbuild, -, inputBoxes, hboxes, hcost⟩ := measureFeeTx_eq_some h
  obtain ⟨-, -, hdata⟩ := FeeRules.buildFeeTx_eq_ok hbuild
  have hlookup : fee.tx.inputs.mapM (lookupAfter a.utxo blockTxs) = some inputBoxes := by
    refine mapM_some_mono (fun boxId b hb => ?_) hboxes
    rw [lookupAfter, hb]
    rfl
  simp [txCost, hlookup, hdata, hcost, Except.toOption]

/-! ## The section -/

lemma transactionsBytes_eq_ok
    (h : ∀ tx ∈ txs, ∃ bytes, a.sections.serializeTransaction tx = .ok bytes) (i : ℕ) :
    ∃ bytes, transactionsBytes a.sections i txs = .ok bytes ∧
      bytes.length = (txs.map a.serializedLength).sum := by
  induction txs generalizing i with
  | nil => exact ⟨[], rfl, rfl⟩
  | cons tx txs ih =>
    obtain ⟨bytes, hbytes⟩ := h tx mem_cons_self
    obtain ⟨rest, hrest, hlength⟩ := ih (forall_mem_cons.1 h).2 (i + 1)
    refine ⟨bytes ++ rest, ?_, ?_⟩
    · rw [transactionsBytes, hbytes, hrest]
      rfl
    · rw [length_append, hlength, map_cons, sum_cons, serializedLength, hbytes]

lemma length_le_sum_serializedLength
    (h : ∀ tx ∈ txs, ∃ bytes, a.sections.serializeTransaction tx = .ok bytes) :
    txs.length ≤ (txs.map a.serializedLength).sum := by
  induction txs with
  | nil => exact Nat.le_refl _
  | cons tx txs ih =>
    obtain ⟨bytes, hbytes⟩ := h tx mem_cons_self
    have hpos : 0 < a.serializedLength tx := by
      rw [serializedLength, hbytes]
      refine length_pos_iff.2 ?_
      rintro rfl
      exact a.serialize_ne_nil hbytes
    have hrest := ih (forall_mem_cons.1 h).2
    rw [map_cons, sum_cons, length_cons]
    omega

/-- The section is longer than what is counted by the version field, where that is left out. -/
theorem length_serializeBlockTransactions
    (h : ∀ tx ∈ txs, ∃ bytes, a.sections.serializeTransaction tx = .ok bytes)
    (hcount : txs.length < 2 ^ 32) (headerId : BlockId) :
    ∃ bytes, serializeBlockTransactions a.sections headerId a.blockVersion.toNat txs = .ok bytes ∧
      bytes.length = a.countedSize txs + if 1 < a.blockVersion.toNat then 0 else 4 := by
  obtain ⟨txBytes, htxBytes, hlength⟩ := transactionsBytes_eq_ok h 0
  refine ⟨_, by rw [serializeBlockTransactions, htxBytes]; rfl, ?_⟩
  have hversion : (putLen (blockVersionSentinel + a.blockVersion.toNat)).length = 4 := by
    have hlt : a.blockVersion.toNat < 256 := a.blockVersion.toNat_lt
    have hsmall : blockVersionSentinel + a.blockVersion.toNat < 2 ^ 32 := by
      rw [blockVersionSentinel]
      omega
    rw [putLen, Nat.mod_eq_of_lt hsmall, ← vlqLen_eq_length, vlqLen_sentinel]
  have hcount' : (putLen txs.length).length = vlqLen txs.length := by
    rw [putLen, Nat.mod_eq_of_lt hcount, vlqLen_eq_length]
  rw [length_append, length_append, length_append, length_bytesOfId, hversion,
    hcount', hlength, countedSize, blockTransactionsOverhead]
  split
  · rw [vlqLen_sentinel]
    omega
  · omega

/-! ## The list as a whole -/

/-- What the arguments are: an emission transaction for a box in the UTXO set, sizes of the
candidates, ids of one transaction each. -/
structure Inputs (a : Assembler) (emissionTx : ErgoTransaction) (emissionBox : ErgoBox)
    (candidates : List (ErgoTransaction × ℕ)) : Prop where
  emission_inputs : emissionTx.inputs = [emissionBox.boxId]
  emission_dataInputs : emissionTx.dataInputs = []
  emission_unspent : a.utxo emissionBox.boxId = some emissionBox
  sizes : ∀ candidate ∈ candidates, ∃ bytes,
    a.sections.serializeTransaction candidate.1 = .ok bytes ∧ bytes.length = candidate.2
  ids : ∀ tx ∈ emissionTx :: candidates.map Prod.fst, ∀ tx' ∈ emissionTx :: candidates.map Prod.fst,
    tx.id = tx'.id → tx.inputs = tx'.inputs

section Block

variable {emissionTx : ErgoTransaction} {emissionBox : ErgoBox}
  {candidates : List (ErgoTransaction × ℕ)} {emission : CostedTx} {kept : List CostedTx}

def block (a : Assembler) (emission : CostedTx) (kept : List CostedTx) : List CostedTx :=
  emission :: kept ++ (a.feeOf emission kept).toList

/-- What is known of the transactions before the fee transaction. -/
structure Kept (a : Assembler) (candidates : List (ErgoTransaction × ℕ)) (emission : CostedTx)
    (kept : List CostedTx) : Prop where
  mem : ∀ t ∈ kept, (t.tx, t.size) ∈ candidates
  disjoint : ((emission :: kept).map (·.tx)).Pairwise (fun x y => x.inputs.Disjoint y.inputs)
  measured : a.selection.Measured [emission.tx] kept

lemma kept_of_prefix (hpre : kept <+: (a.selection.selectTransactions candidates [emission]).1) :
    a.Kept candidates emission kept := by
  obtain ⟨s, hs, hselected⟩ :=
    selectTransactions_selected a.selection candidates emission
  rw [hselected] at hpre
  obtain ⟨dropped, hdropped⟩ := hpre
  constructor
  case mem => exact fun t ht => hs.mem t (hdropped ▸ mem_append_left _ ht)
  case disjoint =>
    refine hs.disjoint.sublist ?_
    rw [← hdropped, map_append]
    exact (sublist_append_left _ _).cons_cons _
  case measured =>
    have hmeasured := hs.measured
    rw [← hdropped] at hmeasured
    exact (measured_append.1 hmeasured).1

variable (hinputs : a.Inputs emissionTx emissionBox candidates) (htx : emission.tx = emissionTx)
  (hcost : a.rules emissionTx [emissionBox] [] a.ctx = .ok emission.cost)
  (hsize : a.serializedSize emissionTx = .ok emission.size)
  (hkept : a.Kept candidates emission kept)

include hinputs htx hcost hkept in
lemma block_measured : a.selection.Measured [] (a.block emission kept) := by
  refine measured_append.2 ⟨⟨?_, hkept.measured⟩, ?_⟩
  · have hlookup : lookupAfter a.utxo [] emissionBox.boxId = some emissionBox :=
      hinputs.emission_unspent
    rw [htx]
    show txCost a.rules a.ctx a.utxo [] emissionTx = some emission.cost
    simp [txCost, hinputs.emission_inputs, hinputs.emission_dataInputs, hlookup, hcost,
      Except.toOption]
  · cases hfee : a.feeOf emission kept with
    | none => trivial
    | some fee => exact ⟨txCost_feeTx hfee, trivial⟩

include hkept in
lemma block_disjoint :
    ((a.block emission kept).map (·.tx)).Pairwise (fun x y => x.inputs.Disjoint y.inputs) := by
  rw [block, map_append, pairwise_append]
  refine ⟨hkept.disjoint, ?_, ?_⟩
  · cases a.feeOf emission kept <;> simp
  · intro x hx y hy boxId hboxId hboxId'
    cases hfee : a.feeOf emission kept with
    | none => simp [hfee] at hy
    | some fee =>
      obtain rfl : y = fee.tx := by simpa [hfee] using hy
      obtain ⟨feeTree, hfeeInputs, -⟩ :=
        FeeRules.buildFeeTx_eq_ok (measureFeeTx_eq_some hfee).1
      rw [hfeeInputs] at hboxId'
      obtain ⟨b, hb, rfl⟩ := mem_map.1 hboxId'
      exact (mem_feeBoxes hb).2 x hx hboxId

include hinputs htx hkept in
lemma nodup_feeTx_inputs (hfee : a.feeOf emission kept = some fee) :
    fee.tx.inputs.Nodup := by
  obtain ⟨feeTree, hfeeInputs, -⟩ := FeeRules.buildFeeTx_eq_ok (measureFeeTx_eq_some hfee).1
  rw [hfeeInputs]
  refine nodup_feeBoxes ?_
  -- transactions with one id would share their inputs, of which there is one
  have hmem : ∀ x ∈ (emission :: kept).map (·.tx), x ∈ emissionTx :: candidates.map Prod.fst := by
    intro x hx
    obtain ⟨t, ht, rfl⟩ := mem_map.1 hx
    rcases mem_cons.1 ht with rfl | ht
    · exact htx ▸ mem_cons_self
    · exact mem_cons_of_mem _ (mem_map.2 ⟨_, hkept.mem t ht, rfl⟩)
  refine hkept.disjoint.imp_of_mem ?_
  intro x y hx hy hdisj hid
  obtain ⟨boxId, hboxId⟩ := exists_mem_of_ne_nil _ x.inputs_ne_nil
  exact hdisj hboxId (hinputs.ids x (hmem x hx) y (hmem y hy) hid ▸ hboxId)

include hinputs htx hsize hkept in
lemma block_sizes : ∀ t ∈ a.block emission kept, ∃ bytes,
    a.sections.serializeTransaction t.tx = .ok bytes ∧ bytes.length = t.size := by
  intro t ht
  rcases mem_append.1 ht with ht | ht
  · rcases mem_cons.1 ht with rfl | ht
    · exact htx ▸ serializedSize_eq_ok hsize
    · exact hinputs.sizes _ (hkept.mem t ht)
  · have hfee : a.feeOf emission kept = some t := Option.mem_toList.1 ht
    exact serializedSize_eq_ok (measureFeeTx_eq_some hfee).2.1

lemma limit_lt (limit : Int32) : limit.toNatClampNeg < 2 ^ 31 := by
  have hlt := limit.toInt_lt
  rw [← Int32.toNat_toInt]
  omega

lemma sums_of_fits (hfits : a.Fits emission kept) :
    ((a.block emission kept).map (·.cost)).sum ≤ a.costLimit ∧
      ((a.block emission kept).map (·.size)).sum +
        blockTransactionsOverhead a.blockVersion (a.block emission kept).length ≤ a.sizeLimit := by
  obtain ⟨hcost, hsize⟩ := hfits
  have hcostLimit : a.costLimit < 2 ^ 64 - 1 := (limit_lt _).trans (by decide)
  have hsizeLimit : a.sizeLimit < 2 ^ 64 - 1 := (limit_lt _).trans (by decide)
  have hlength : (a.block emission kept).length =
      1 + kept.length + (a.feeOf emission kept).toList.length := by
    rw [block, length_append, length_cons, Nat.add_comm kept.length]
  -- both totals are one fold over the parts
  have hcosts : (kept.map (·.cost) ++ [((a.feeOf emission kept).map (·.cost)).getD 0]).foldl
      saturatingAdd emission.cost ≤ a.costLimit := by
    rwa [foldl_append]
  have hsizes : (kept.map (·.size) ++ [((a.feeOf emission kept).map (·.size)).getD 0,
      blockTransactionsOverhead a.blockVersion (a.block emission kept).length]).foldl
      saturatingAdd emission.size ≤ a.sizeLimit := by
    rwa [foldl_append, hlength]
  have hcostSum := sum_le_of_foldl_saturatingAdd_le hcostLimit _ hcosts
  have hsizeSum := sum_le_of_foldl_saturatingAdd_le hsizeLimit _ hsizes
  have hblock : ∀ f : CostedTx → ℕ, ((a.block emission kept).map f).sum =
      f emission + (kept.map f).sum + ((a.feeOf emission kept).map f).getD 0 := by
    intro f
    rw [block]
    cases a.feeOf emission kept <;> simp [Nat.add_assoc]
  rw [hblock, hblock]
  simp only [sum_append, sum_cons, sum_nil] at hcostSum hsizeSum
  constructor
  · omega
  · omega

end Block

def tenBytes : SectionRules ErgoTransaction where
  blake2b256 := fun _ => 0
  merkleRoot := fun _ => 0
  transactionId := (·.id)
  spendingProofs := fun _ => []
  parseTransaction := fun _ => .error ""
  serializeTransaction := fun _ => .ok (List.replicate 10 0)
  blake2b256_lt := fun _ => by decide
  merkleRoot_lt := fun _ => by decide

/-- Fees are what is paid to the script `[0]`, and the transaction that collects them is number 9. -/
def plainFees : FeeRules where
  feeProposition := .ok [0]
  rewardOutputScript := .ok [1]
  boxValue := .ok
  tokenAmount := .ok
  boxTokens := .ok
  boxBytes := fun _ => .ok []
  maxTokensCount := 255
  maxBoxSize := 4096
  build := .ok
  newTransaction := fun inputIds output =>
    if h : inputIds ≠ [] then .ok ⟨9, inputIds, [], [output], h⟩ else .error "no inputs"
  newTransaction_inputs := by
    intro inputIds output tx h
    split at h
    · cases h
      exact ⟨rfl, rfl⟩
    · cases h

def plain (blockVersion : UInt8) (maxBlockSize : Int32) : Assembler where
  rules := fun _ _ _ _ => .ok 1
  fees := plainFees
  sections := tenBytes
  ctx := ⟨⟨1, 0, 0, 0, 0, 0, 1, ⟨0, 0, 0⟩⟩, [], .empty⟩
  utxo := fun boxId => if boxId.txId = 0 then some ⟨boxId, ⟨7, [2], 0, []⟩⟩ else none
  height := 1
  blockVersion := blockVersion
  maxBlockCost := 100
  maxBlockSize := maxBlockSize
  serialize_ne_nil := by
    intro tx h
    exact absurd (Except.ok.inj h) (by decide)

def plainEmissionBox : ErgoBox := ⟨⟨0, 0⟩, ⟨7, [2], 0, []⟩⟩

def paying (id : TxId) (first : BoxRef) (rest : List BoxRef) : ErgoTransaction :=
  ⟨id, first :: rest, [], [⟨5, [0], 0, []⟩], by simp⟩

def plainEmission : ErgoTransaction := ⟨1, [⟨0, 0⟩], [], [⟨7, [2], 0, []⟩], by simp⟩

end Assembler

end ErgoNode
