import ErgoNode.Store.Operations

/-!
# The cached tips and the tables

The store keeps the highest section of each type and the highest best-chain header in memory.
Reopening is the specification of these caches. They fall behind the tables in four ways: a write at
the height of the tip replaces the row but not the cache, a fork header with another number than 0
fills an empty height above the tip, a prune reaches the tip, and the sections of a type outside
`nonHeaderTypes` are not loaded.
-/

namespace ErgoNode

open Std.ExtTreeMap

def nonHeaderTypes : List ℕ := [102, 104, 108]

namespace ModifierStore

variable {s : ModifierStore}

/-! ## Opening a database -/

/-- The last height-index row of each section type. -/
def loadTips (s : ModifierStore) : Table (ℕ × BlockId) :=
  nonHeaderTypes.foldl (fun tips typeId =>
    match (rowsOf s.heightIndex typeId).getLast? with
    | some tip => tips.insert typeId tip
    | none => tips) ∅

def loadBestHeaderTip (s : ModifierStore) : Option (ℕ × BlockId) := s.bestChain.toList.getLast?

/-- Move the headers of an old database, if the header tables are empty, with empty scores. -/
def migrateHeadersIfNeeded (s : ModifierStore) : ModifierStore :=
  if s.headerForks.toList ≠ [] then s
  else
    let entries := rowsOf s.heightIndex headerTypeId
    if entries = [] then s
    else
      { s with
        headerForks := entries.foldl (fun t e => t.insert (e.1, 0) e.2) s.headerForks
        headerScores := entries.foldl (fun t e => t.insert e.2 none) s.headerScores
        bestChain := entries.foldl (fun t e => t.insert e.1 e.2) s.bestChain
        heightIndex := entries.foldl (fun t e => t.erase (headerTypeId, e.1)) s.heightIndex
        bestHeaderTip := entries.getLast? }

def reopen (s : ModifierStore) : ModifierStore :=
  migrateHeadersIfNeeded { s with tips := s.loadTips, bestHeaderTip := s.loadBestHeaderTip }

lemma tips_loadTips (s : ModifierStore) (typeId : ℕ) :
    s.loadTips[typeId]? =
      if typeId ∈ nonHeaderTypes then (rowsOf s.heightIndex typeId).getLast? else none := by
  -- loading one type changes the answer for that type only
  have hload : ∀ (types : List ℕ) (tips : Table (ℕ × BlockId)), typeId ∉ types →
      (types.foldl (fun (tips : Table (ℕ × BlockId)) t =>
        match (rowsOf s.heightIndex t).getLast? with
        | some tip => tips.insert t tip
        | none => tips) tips)[typeId]? = tips[typeId]? := by
    intro types
    induction types with
    | nil => exact fun _ _ => rfl
    | cons t types ih =>
      intro tips hnot
      rw [List.foldl_cons, ih _ (fun h => hnot (List.mem_cons_of_mem _ h))]
      have hne : t ≠ typeId := fun h => hnot (h ▸ List.mem_cons_self)
      cases (rowsOf s.heightIndex t).getLast? with
      | none => rfl
      | some tip => rw [getElem?_insert_nat, if_neg hne]
  have hloaded : ∀ (types : List ℕ) (tips : Table (ℕ × BlockId)), types.Nodup → typeId ∈ types →
      tips[typeId]? = none →
      (types.foldl (fun (tips : Table (ℕ × BlockId)) t =>
        match (rowsOf s.heightIndex t).getLast? with
        | some tip => tips.insert t tip
        | none => tips) tips)[typeId]? = (rowsOf s.heightIndex typeId).getLast? := by
    intro types
    induction types with
    | nil => exact fun _ _ h => absurd h List.not_mem_nil
    | cons t types ih =>
      intro tips hnodup hmem hempty
      obtain ⟨hnot, hnodup⟩ := List.nodup_cons.1 hnodup
      rw [List.foldl_cons]
      rcases List.mem_cons.1 hmem with rfl | hmem
      · rw [hload _ _ hnot]
        cases (rowsOf s.heightIndex typeId).getLast? with
        | none => exact hempty
        | some tip => rw [getElem?_insert_nat, if_pos rfl]
      · apply ih _ hnodup hmem
        have hne : t ≠ typeId := fun h => hnot (h ▸ hmem)
        cases (rowsOf s.heightIndex t).getLast? with
        | none => exact hempty
        | some tip => rw [getElem?_insert_nat, if_neg hne, hempty]
  have hnew : (∅ : Table (ℕ × BlockId))[typeId]? = none := getElem?_empty
  split
  next hmem => exact hloaded _ _ (by decide) hmem hnew
  next hmem => exact (hload _ _ hmem).trans hnew

def Migrated (s : ModifierStore) : Prop :=
  ∀ height : ℕ, s.heightIndex[(headerTypeId, height)]? = none

lemma Migrated.reopen (h : s.Migrated) :
    s.reopen = { s with tips := s.loadTips, bestHeaderTip := s.loadBestHeaderTip } := by
  have hnone : rowsOf s.heightIndex headerTypeId = [] := by
    rw [List.eq_nil_iff_forall_not_mem]
    rintro ⟨height, id⟩ hmem
    rw [mem_rowsOf, h] at hmem
    cases hmem
  unfold ModifierStore.reopen migrateHeadersIfNeeded
  simp only [hnone, if_true, ite_self]

/-! ## The caches and the tables -/

def tipRows (s : ModifierStore) (typeId height : ℕ) : Option BlockId :=
  if typeId = headerTypeId then s.bestChain[height]?
  else if typeId ∈ nonHeaderTypes then s.heightIndex[(typeId, height)]?
  else none

/-- Every cached tip, and the cached best header, is what reopening the store would load. -/
def TipsLoaded (s : ModifierStore) : Prop :=
  (∀ typeId, s.tip typeId = s.reopen.tip typeId) ∧ s.bestHeaderTip = s.reopen.bestHeaderTip

lemma isLastRow_reopen (h : s.Migrated) (typeId : ℕ) :
    IsLastRow (s.tipRows typeId) (s.reopen.tip typeId) := by
  rw [h.reopen]
  unfold tip tipRows
  by_cases htype : typeId = headerTypeId
  · simp only [htype, if_true]
    exact isLastRow_toList s.bestChain
  · simp only [htype, if_false, tips_loadTips]
    by_cases hmem : typeId ∈ nonHeaderTypes
    · simp only [hmem, if_true]
      exact isLastRow_rowsOf s.heightIndex typeId
    · simp only [hmem, if_false]
      exact fun _ => rfl

lemma tipsLoaded_iff (h : s.Migrated) :
    s.TipsLoaded ↔ ∀ typeId, IsLastRow (s.tipRows typeId) (s.tip typeId) := by
  constructor
  · intro hloaded typeId
    rw [hloaded.1 typeId]
    exact isLastRow_reopen h typeId
  · intro hlast
    have htips : ∀ typeId, s.tip typeId = s.reopen.tip typeId :=
      fun typeId => (hlast typeId).unique (isLastRow_reopen h typeId)
    exact ⟨htips, htips headerTypeId⟩

/-! ## What the writes do to the rows and the tip of a type -/

def HasTip (typeId : ℕ) : Prop := typeId = headerTypeId ∨ typeId ∈ nonHeaderTypes

instance (typeId : ℕ) : Decidable (HasTip typeId) := by
  unfold HasTip
  infer_instance

lemma tip_putOne (s : ModifierStore) (e : ModifierBatchEntry) (typeId : ℕ) :
    (s.putOne e).tip typeId = higherTip (s.tip typeId) (tipOffer typeId e) := by
  have hbest : (s.putEntry e).bestHeaderTip = s.bestHeaderTip := by
    unfold putEntry
    by_cases htype : e.typeId = headerTypeId <;> by_cases hpos : 0 < e.height <;>
      simp [htype, hpos]
  have htips : (s.putEntry e).tips = s.tips := by
    unfold putEntry
    by_cases htype : e.typeId = headerTypeId <;> by_cases hpos : 0 < e.height <;>
      simp [htype, hpos]
  unfold putOne tip
  by_cases htype : typeId = headerTypeId
  · simp only [htype, if_true, bestHeaderTip_refreshTips, hbest]
    rfl
  · simp only [htype, if_false, tips_refreshTips _ _ htype, htips]
    rfl

lemma tipRows_putOne (s : ModifierStore) (e : ModifierBatchEntry) (typeId height : ℕ) :
    (s.putOne e).tipRows typeId height =
      if HasTip typeId ∧ e.typeId = typeId ∧ 0 < e.height ∧ e.height = height then some e.id
      else s.tipRows typeId height := by
  unfold tipRows HasTip
  by_cases htype : typeId = headerTypeId
  · subst htype
    show (if _ then (s.putEntry e).bestChain[height]? else _) = _
    simp only [if_true, bestChain_putEntry, bestChainWrite, true_or, true_and]
    split
    · rfl
    · rfl
  · simp only [htype, if_false, heightIndex_putOne, heightIndexWrite, false_or]
    by_cases hmem : typeId ∈ nonHeaderTypes
    · simp only [hmem, if_true, true_and]
      by_cases heq : e.typeId = typeId
      · simp only [heq, htype, ne_eq, not_false_eq_true, true_and]
        split
        · rfl
        · rfl
      · simp [heq]
    · simp [hmem]

/-- The entry is of a type that has a tip, and does not replace the tip by another modifier of the
same height. -/
def EntryKeepsTip (s : ModifierStore) (e : ModifierBatchEntry) : Prop :=
  0 < e.height → HasTip e.typeId ∧ ∀ tip ∈ s.tip e.typeId, tip.1 = e.height → tip.2 = e.id

instance (s : ModifierStore) (e : ModifierBatchEntry) : Decidable (s.EntryKeepsTip e) := by
  unfold EntryKeepsTip
  infer_instance

lemma isLastRow_putOne_iff
    (h : ∀ typeId, IsLastRow (s.tipRows typeId) (s.tip typeId)) (e : ModifierBatchEntry) :
    (∀ typeId, IsLastRow ((s.putOne e).tipRows typeId) ((s.putOne e).tip typeId)) ↔
      s.EntryKeepsTip e := by
  constructor
  · intro hlast hpos
    have hown := hlast e.typeId
    rw [tip_putOne, tipOffer, if_pos ⟨rfl, hpos⟩] at hown
    by_cases hhas : HasTip e.typeId
    · refine ⟨hhas, ?_⟩
      rintro ⟨tipHeight, tipId⟩ htip hheight
      -- the tip stays in the cache, and the row under it is now the entry
      have hstays : higherTip (some (tipHeight, tipId)) (some (e.height, e.id)) =
          some (tipHeight, tipId) := by
        have : ¬tipHeight < e.height := by simp only at hheight; omega
        simp [higherTip, this]
      rw [htip, hstays] at hown
      have hrow := hown.1
      rw [tipRows_putOne, if_pos ⟨hhas, rfl, hpos, hheight.symm⟩] at hrow
      exact (Option.some.inj hrow).symm
    · -- a type without a tip has no rows to load, but its cache was raised
      have hrows : ∀ height, s.tipRows e.typeId height = none := by
        have hne : e.typeId ≠ headerTypeId := fun heq => hhas (.inl heq)
        have hnot : e.typeId ∉ nonHeaderTypes := fun hmem => hhas (.inr hmem)
        simp [tipRows, hne, hnot]
      have hempty : s.tip e.typeId = none := by
        cases htip : s.tip e.typeId with
        | none => rfl
        | some tip =>
          have hlast := h e.typeId
          rw [htip] at hlast
          exact absurd (hlast.1.symm.trans (hrows _)) (by simp)
      rw [hempty, higherTip_none_left] at hown
      have hrow := hown.1
      rw [tipRows_putOne, if_neg (fun hc => hhas hc.1), hrows] at hrow
      cases hrow
  · intro hkeeps typeId
    have hlast := h typeId
    rw [tip_putOne]
    by_cases hoffer : e.typeId = typeId ∧ 0 < e.height
    · obtain ⟨rfl, hpos⟩ := hoffer
      obtain ⟨hhas, hsame⟩ := hkeeps hpos
      have hrows : (s.putOne e).tipRows e.typeId =
          fun height => if e.height = height then some e.id else s.tipRows e.typeId height := by
        funext height
        rw [tipRows_putOne]
        simp only [hhas, hpos, true_and]
      rw [hrows, tipOffer, if_pos ⟨rfl, hpos⟩]
      cases htip : s.tip e.typeId with
      | none =>
        rw [htip] at hlast
        exact hlast.insert_above rfl
      | some tip =>
        rw [htip] at hlast
        by_cases hhigher : tip.1 < e.height
        · have hraise : higherTip (some tip) (some (e.height, e.id)) = some (e.height, e.id) := by
            simp [higherTip, hhigher]
          rw [hraise]
          exact hlast.insert_above (by simpa using hhigher)
        · have hstay : higherTip (some tip) (some (e.height, e.id)) = some tip := by
            simp [higherTip, hhigher]
          rw [hstay]
          exact hlast.insert_below (Nat.not_lt.1 hhigher)
            (fun heq => (hsame tip htip heq.symm).symm)
    · have hrows : (s.putOne e).tipRows typeId = s.tipRows typeId := by
        funext height
        rw [tipRows_putOne, if_neg (fun hc => hoffer ⟨hc.2.1, hc.2.2.1⟩)]
      rwa [hrows, tipOffer, if_neg hoffer]

def BatchKeepsTips : ModifierStore → List ModifierBatchEntry → Prop
  | _, [] => True
  | s, e :: es => s.EntryKeepsTip e ∧ BatchKeepsTips (s.putOne e) es

instance decidableBatchKeepsTips :
    ∀ (s : ModifierStore) (es : List ModifierBatchEntry), Decidable (s.BatchKeepsTips es)
  | _, [] => .isTrue trivial
  | s, e :: es =>
    have := decidableBatchKeepsTips (s.putOne e) es
    inferInstanceAs (Decidable (s.EntryKeepsTip e ∧ BatchKeepsTips (s.putOne e) es))

/-- The operation leaves the caches in step with the tables. -/
def KeepsTips (s : ModifierStore) : StoreOp → Prop
  | .put typeId id height data =>
    typeId ≠ headerTypeId → s.EntryKeepsTip ⟨typeId, id, height, data, none⟩
  | .putBatch es => BatchScored es → s.BatchKeepsTips es
  | .putHeader _ height fork _ _ => fork ≠ 0 → s.bestHeaderTip.any (fun tip => height ≤ tip.1)
  | .pruneBelowHeight horizon typeIds =>
    headerTypeId ∉ typeIds → ∀ typeId ∈ typeIds, ∀ tip ∈ s.tip typeId, horizon ≤ tip.1
  | _ => True

instance (s : ModifierStore) : ∀ op : StoreOp, Decidable (s.KeepsTips op)
  | .put typeId id height data =>
    inferInstanceAs (Decidable (typeId ≠ headerTypeId → s.EntryKeepsTip ⟨typeId, id, height, data, none⟩))
  | .putBatch es => inferInstanceAs (Decidable (BatchScored es → s.BatchKeepsTips es))
  | .putHeader _ height fork _ _ =>
    inferInstanceAs (Decidable (fork ≠ 0 → s.bestHeaderTip.any (fun tip => height ≤ tip.1)))
  | .pruneBelowHeight horizon typeIds => inferInstanceAs (Decidable
      (headerTypeId ∉ typeIds → ∀ typeId ∈ typeIds, ∀ tip ∈ s.tip typeId, horizon ≤ tip.1))
  | .putHeaderScore _ _ | .putHeaderScoreBatch _ | .setValidatedHeight _ => .isTrue trivial

lemma isLastRow_putHeader_iff (h : ∀ typeId, IsLastRow (s.tipRows typeId) (s.tip typeId))
    (id : BlockId) (height fork : ℕ) (score : ScoreBytes) (data : Bytes) :
    (∀ typeId, IsLastRow ((s.putHeader id height fork score data).tipRows typeId)
        ((s.putHeader id height fork score data).tip typeId)) ↔
      s.KeepsTips (.putHeader id height fork score data) := by
  set s' := s.putHeader id height fork score data with hs'
  have hbest : IsLastRow (fun k => s.bestChain[k]?) s.bestHeaderTip := h headerTypeId
  -- the tip is the best header's, so the rows above it are empty
  have hempty : s.bestHeaderTip.all (fun t => t.1 < height) = true →
      s.bestChain[height]? = none := by
    intro habove
    cases htip : s.bestHeaderTip with
    | none => rw [htip] at hbest; exact hbest height
    | some tip =>
      rw [htip] at hbest habove
      by_contra hrow
      have hle : height ≤ tip.1 := hbest.2 height hrow
      have : tip.1 < height := by simpa using habove
      omega
  have hsection : ∀ typeId, typeId ≠ headerTypeId →
      IsLastRow (s'.tipRows typeId) (s'.tip typeId) := by
    intro typeId htype
    have hold := h typeId
    unfold tipRows tip at hold ⊢
    simp only [htype, if_false] at hold ⊢
    exact hold
  have hheader : (∀ typeId, IsLastRow (s'.tipRows typeId) (s'.tip typeId)) ↔
      IsLastRow (fun k => s'.bestChain[k]?) s'.bestHeaderTip := by
    constructor
    · exact fun hall => hall headerTypeId
    · intro hlast typeId
      by_cases htype : typeId = headerTypeId
      · subst htype
        exact hlast
      · exact hsection typeId htype
  rw [hheader]
  have hrows : (fun k => s'.bestChain[k]?) = fun k =>
      if height = k then some ((s.bestChain[height]?).getD id) else s.bestChain[k]? := by
    funext k
    rw [hs', bestChain_putHeader]
    by_cases hk : height = k
    · subst hk
      cases s.bestChain[height]? <;> simp
    · have hk' : k ≠ height := fun heq => hk heq.symm
      simp [hk, hk']
  by_cases habove : s.bestHeaderTip.all (fun t => t.1 < height) = true
  · -- a new highest row
    have hnew : (fun k => s'.bestChain[k]?) = fun k =>
        if height = k then some id else s.bestChain[k]? := by
      rw [hrows, hempty habove]
      rfl
    have hlast : IsLastRow (fun k => s'.bestChain[k]?) (some (height, id)) := by
      rw [hnew]
      exact hbest.insert_above habove
    have hnotbelow : ¬s.bestHeaderTip.any (fun tip => height ≤ tip.1) = true := by
      intro hany
      cases htip : s.bestHeaderTip with
      | none => simp [htip] at hany
      | some tip =>
        simp only [htip, Option.any_some, Option.all_some, decide_eq_true_eq] at hany habove
        omega
    by_cases hfork : fork = 0
    · have htip : s'.bestHeaderTip = some (height, id) := by
        exact if_pos ⟨hfork, habove⟩
      rw [htip]
      exact ⟨fun _ hne => absurd hfork hne, fun _ => hlast⟩
    · have htip : s'.bestHeaderTip = s.bestHeaderTip := by
        exact if_neg (fun hc => hfork hc.1)
      constructor
      · intro hstale
        have heq := hstale.unique hlast
        rw [htip] at heq
        rw [heq] at habove
        simp at habove
      · intro hkeeps
        exact absurd (hkeeps hfork) hnotbelow
  · -- a row at or below the tip: it is filled only where it was empty
    have htip : s'.bestHeaderTip = s.bestHeaderTip := by
      exact if_neg (fun hc => habove hc.2)
    cases hcached : s.bestHeaderTip with
    | none => simp [hcached] at habove
    | some tip =>
      rw [hcached] at hbest habove
      have hle : height ≤ tip.1 := by simpa using habove
      constructor
      · intro _ _
        rw [hcached]
        simpa using hle
      · intro _
        rw [hrows, htip, hcached]
        refine hbest.insert_below hle (fun heq => ?_)
        have hrow : s.bestChain[tip.1]? = some tip.2 := hbest.1
        rw [heq, hrow]
        rfl

lemma isLastRow_prune_iff {s' : ModifierStore} {horizon : ℕ} {typeIds : List ℕ}
    (hprune : s.pruneBelowHeight horizon typeIds = .ok s')
    (h : ∀ typeId, IsLastRow (s.tipRows typeId) (s.tip typeId)) :
    (∀ typeId, IsLastRow (s'.tipRows typeId) (s'.tip typeId)) ↔
      s.KeepsTips (.pruneBelowHeight horizon typeIds) := by
  obtain ⟨hheader, hs'⟩ := pruneBelowHeight_eq_ok hprune
  have htip : ∀ typeId, s'.tip typeId = s.tip typeId := by
    intro typeId
    rw [hs']
    rfl
  have hrows : ∀ typeId ∈ typeIds, s'.tipRows typeId =
      fun height => if height < horizon then none else s.tipRows typeId height := by
    intro typeId hmem
    funext height
    have hne : typeId ≠ headerTypeId := fun heq => hheader (heq ▸ hmem)
    simp only [tipRows, hne, if_false, heightIndex_pruneBelowHeight hprune, Pruned, hmem, true_and]
    by_cases hloaded : typeId ∈ nonHeaderTypes
    · simp only [hloaded, if_true]
    · simp only [hloaded, if_false, ite_self]
  have hkept : ∀ typeId, typeId ∉ typeIds → s'.tipRows typeId = s.tipRows typeId := by
    intro typeId hmem
    funext height
    have hbest : s'.bestChain = s.bestChain := by rw [hs']
    simp only [tipRows, hbest, heightIndex_pruneBelowHeight hprune, Pruned, hmem, false_and, if_false]
  constructor
  · intro hlast _ typeId hmem tip hmemTip
    have hnew := hlast typeId
    rw [htip, hrows typeId hmem, Option.mem_def.1 hmemTip] at hnew
    -- the row under the tip would be gone
    by_contra hreached
    have hrow := hnew.1
    simp only [Nat.not_le.1 hreached, if_true] at hrow
    cases hrow
  · intro hkeeps typeId
    rw [htip]
    by_cases hmem : typeId ∈ typeIds
    · rw [hrows typeId hmem]
      apply (h typeId).delete_below
      cases hcached : s.tip typeId with
      | none => rfl
      | some tip => simpa using hkeeps hheader typeId hmem tip hcached
    · rw [hkept typeId hmem]
      exact h typeId

/-! ## Runs -/

lemma Migrated.putOne (h : s.Migrated) (e : ModifierBatchEntry) :
    (s.putOne e).Migrated := by
  intro height
  have hwrite : heightIndexWrite headerTypeId height e = none := by
    exact if_neg (fun hc => hc.1 hc.2.2.1)
  rw [heightIndex_putOne, hwrite, h height]
  rfl

lemma Migrated.foldl_putOne (h : s.Migrated) (es : List ModifierBatchEntry) :
    (es.foldl ModifierStore.putOne s).Migrated := by
  induction es generalizing s with
  | nil => exact h
  | cons e es ih => exact ih (h.putOne e)

lemma Migrated.perform (h : s.Migrated) (op : StoreOp) :
    (s.perform op).Migrated := by
  have hperformed := s.performed_perform op
  generalize s.perform op = s' at hperformed
  cases hperformed with
  | rejected => exact h
  | put => exact h.putOne _
  | putBatch => exact h.foldl_putOne _
  | putHeader => exact h
  | scores => exact h
  | pruned hprune =>
    intro height
    rw [heightIndex_pruneBelowHeight hprune, h height, ite_self]
  | recorded => exact h

lemma isLastRow_foldl_putOne {es : List ModifierBatchEntry}
    (h : ∀ typeId, IsLastRow (s.tipRows typeId) (s.tip typeId)) (hkeeps : s.BatchKeepsTips es) :
    ∀ typeId, IsLastRow ((es.foldl putOne s).tipRows typeId) ((es.foldl putOne s).tip typeId) := by
  induction es generalizing s with
  | nil => exact h
  | cons e es ih => exact ih ((isLastRow_putOne_iff h e).2 hkeeps.1) hkeeps.2

lemma isLastRow_perform (h : ∀ typeId, IsLastRow (s.tipRows typeId) (s.tip typeId)) {op : StoreOp}
    (hkeeps : s.KeepsTips op) :
    ∀ typeId, IsLastRow ((s.perform op).tipRows typeId) ((s.perform op).tip typeId) := by
  have hperformed := s.performed_perform op
  generalize s.perform op = s' at hperformed
  cases hperformed with
  | rejected => exact h
  | put htype => exact (isLastRow_putOne_iff h _).2 (hkeeps htype)
  | putBatch hscored => exact isLastRow_foldl_putOne h (hkeeps hscored)
  | putHeader id height fork score data =>
    exact (isLastRow_putHeader_iff h id height fork score data).2 hkeeps
  | scores => exact h
  | pruned hprune => exact (isLastRow_prune_iff hprune h).2 hkeeps
  | recorded => exact h

def performAll (s : ModifierStore) (ops : List StoreOp) : ModifierStore := ops.foldl perform s

lemma migrated_empty : empty.Migrated := fun _ => getElem?_empty

lemma isLastRow_empty (typeId : ℕ) : IsLastRow (empty.tipRows typeId) (empty.tip typeId) := by
  have htip : empty.tip typeId = none := by
    unfold tip
    split
    · rfl
    · exact getElem?_empty
  rw [htip]
  intro height
  unfold tipRows
  split
  · exact getElem?_empty
  · split
    · exact getElem?_empty
    · rfl

/-- **The caches are what reopening would load, in every state of a run whose operations keep the
tips.** -/
theorem tipsLoaded_of_keepsTips (ops : List StoreOp) (h : MeetsAll perform KeepsTips empty ops) :
    (empty.performAll ops).TipsLoaded := by
  have hinv := h.invariant
    (P := fun s => s.Migrated ∧ ∀ typeId, IsLastRow (s.tipRows typeId) (s.tip typeId))
    (fun s op hs hkeeps => ⟨hs.1.perform op, isLastRow_perform hs.2 hkeeps⟩)
    ⟨migrated_empty, isLastRow_empty⟩
  exact (tipsLoaded_iff hinv.1).2 hinv.2

/-- A run that writes sections and headers of two heights, a fork header below the tip, and prunes
below the tip. -/
def twoHeights : List StoreOp :=
  [.putBatch [⟨headerTypeId, 1, 1, [1], some (some 10)⟩, ⟨headerTypeId, 2, 2, [2], some (some 20)⟩],
   .put 102 101 1 [5], .put 102 102 2 [6], .putHeader 12 2 1 (some 15) [12],
   .pruneBelowHeight 2 [102]]

theorem tipsLoaded_twoHeights :
    MeetsAll perform KeepsTips empty twoHeights ∧ (empty.performAll twoHeights).TipsLoaded :=
  have h : MeetsAll perform KeepsTips empty twoHeights := by decide +kernel
  ⟨h, tipsLoaded_of_keepsTips _ h⟩

def competingSections : ModifierStore := empty.performAll [.put 102 1 5 [1], .put 102 2 5 [2]]

def prunedTip : ModifierStore :=
  empty.performAll [.put 102 1 5 [1], .pruneBelowHeight 10 [102]]

def forkAboveTip : ModifierStore := empty.performAll [.putHeader 1 5 1 (some 10) [1]]

/-- In each of the three a cache answers something else than a reopened store. -/
theorem not_tipsLoaded_of_overwrite :
    (¬competingSections.TipsLoaded ∧ competingSections.tip 102 = some (5, 1) ∧
      competingSections.reopen.tip 102 = some (5, 2)) ∧
    (¬prunedTip.TipsLoaded ∧ prunedTip.tip 102 = some (5, 1) ∧ prunedTip.reopen.tip 102 = none) ∧
    ¬forkAboveTip.TipsLoaded ∧ forkAboveTip.bestHeaderTip = none ∧
      forkAboveTip.reopen.bestHeaderTip = some (5, 1) := by
  refine ⟨⟨fun h => ?_, ?_⟩, ⟨fun h => ?_, ?_⟩, fun h => ?_, ?_⟩
  · exact absurd (h.1 102) (by decide +kernel)
  · decide +kernel
  · exact absurd (h.1 102) (by decide +kernel)
  · decide +kernel
  · exact absurd h.2 (by decide +kernel)
  · decide +kernel

end ModifierStore

end ErgoNode
