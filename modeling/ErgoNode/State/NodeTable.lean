import ErgoNode.Library.UndoLog
import ErgoNode.State.Storage

/-!
# Trees in the node table

Nodes are content-addressed: `content` gives the packed node of a label, so a root determines its
tree. `storedNodes` are the labels whose nodes are in the table with their content. The chain of
versions is an undo log over the node table. Sequence numbers are used again after a rollback and
wrap, but no two versions of a chain share one.
-/

namespace ErgoNode

open List

/-! ## Trees -/

/-- `extract_child_labels`: the two labels after the type, the balance and the key. -/
def extractChildLabels (keyLength : ℕ) (packed : Bytes) : Option (Digest32 × Digest32) :=
  if h : 2 + keyLength + 64 ≤ packed.length then
    some (⟨(packed.drop (2 + keyLength)).take 32, by rw [List.length_take, List.length_drop]; omega⟩,
      ⟨(packed.drop (2 + keyLength + 32)).take 32, by rw [List.length_take, List.length_drop]; omega⟩)
  else none

def childLabels (keyLength : ℕ) (packed : Bytes) : List Digest32 :=
  if packed.head? = some 1 then []
  else
    match extractChildLabels keyLength packed with
    | some (left, right) => [left, right]
    | none => []

inductive NodeBelow (content : Bytes → Option Bytes) (keyLength : ℕ) (root : Digest32) :
    Digest32 → Prop where
  | root : NodeBelow content keyLength root root
  | child {label label' : Digest32} {packed : Bytes} (h : NodeBelow content keyLength root label)
      (hpacked : content label.1 = some packed) (hchild : label' ∈ childLabels keyLength packed) :
      NodeBelow content keyLength root label'

lemma NodeBelow.eq_or_child {content : Bytes → Option Bytes} {keyLength : ℕ}
    {root label : Digest32} (h : NodeBelow content keyLength root label) :
    label = root ∨ ∃ packed child, content root.1 = some packed ∧
      child ∈ childLabels keyLength packed ∧ NodeBelow content keyLength child label := by
  induction h with
  | root => exact .inl rfl
  | @child label label' packed _ hpacked hchild ih =>
    rcases ih with rfl | ⟨packed', child', hpacked', hchild', hbelow⟩
    · exact .inr ⟨packed, label', hpacked, hchild, .root⟩
    · exact .inr ⟨packed', child', hpacked', hchild', hbelow.child hpacked hchild⟩

def storedNodes (content : Bytes → Option Bytes) (nodes : ByteTable) : Set Digest32 :=
  { label | ∃ packed, content label.1 = some packed ∧ nodes[label.1]? = some packed }

def Addressed (content : Bytes → Option Bytes) (rows : List (Bytes × Bytes)) : Prop :=
  ∀ row ∈ rows, ∀ packed, content row.1 = some packed → row.2 = packed

/-! ## The node table -/

lemma getElem?_insert_bytes (t : ByteTable) (k a v : Bytes) :
    (t.insert k v)[a]? = if k = a then some v else t[a]? := by
  rw [Std.ExtTreeMap.getElem?_insert]
  simp only [Std.LawfulEqCmp.compare_eq_iff_eq]

lemma getElem?_insert_eq_update (t : ByteTable) (k v : Bytes) :
    (fun key => (t.insert k v)[key]?) = Function.update (fun key => t[key]?) k (some v) := by
  ext1 key
  rw [getElem?_insert_bytes, Function.update_apply]
  exact if_congr eq_comm rfl rfl

lemma getElem?_erase_bytes (t : ByteTable) (k a : Bytes) :
    (t.erase k)[a]? = if k = a then none else t[a]? := by
  rw [Std.ExtTreeMap.getElem?_erase]
  simp only [Std.LawfulEqCmp.compare_eq_iff_eq]

/-- Every row of the table is one the database accepts. -/
def RowsAccepted (redb : Redb) (nodes : ByteTable) : Prop :=
  ∀ k v : Bytes, nodes[k]? = some v → redb.accepts k.length v.length = true

section Rows

variable {redb : Redb} {content : Bytes → Option Bytes} {nodes nodes' : ByteTable}
  {rows : List (Bytes × Bytes)} {label : Digest32}

lemma check_eq_ok {k : ℕ} {v : Bytes} {u : Unit} :
    redb.check k v = .ok u ↔ redb.accepts k v.length = true := require_eq_ok

lemma exists_insertRows_eq_ok (h : ∀ row ∈ rows, redb.accepts row.1.length row.2.length = true)
    (nodes : ByteTable) : ∃ nodes', redb.insertRows rows nodes = .ok nodes' := by
  induction rows generalizing nodes with
  | nil => exact ⟨nodes, rfl⟩
  | cons row rows ih =>
    obtain ⟨nodes', hnodes'⟩ := ih (forall_mem_cons.1 h).2
      (nodes.insert row.1 row.2)
    exact ⟨nodes', bind_eq_ok.2 ⟨(), check_eq_ok.2 (h row mem_cons_self), hnodes'⟩⟩

lemma RowsAccepted.insertRows (h : RowsAccepted redb nodes)
    (hok : redb.insertRows rows nodes = .ok nodes') : RowsAccepted redb nodes' := by
  induction rows generalizing nodes with
  | nil => exact Except.ok.inj hok ▸ h
  | cons row rows ih =>
    obtain ⟨_, hrow, hrest⟩ := bind_eq_ok.1 hok
    refine ih (fun k v hkv => ?_) hrest
    rw [getElem?_insert_bytes] at hkv
    split at hkv
    next heq =>
      rw [← heq, ← Option.some.inj hkv]
      exact check_eq_ok.1 hrow
    · exact h k v hkv

lemma storedNodes_subset_insertRows (haddressed : Addressed content rows)
    (hok : redb.insertRows rows nodes = .ok nodes') :
    storedNodes content nodes ⊆ storedNodes content nodes' := by
  induction rows generalizing nodes with
  | nil => rw [Except.ok.inj hok]
  | cons row rows ih =>
    obtain ⟨_, -, hrest⟩ := bind_eq_ok.1 hok
    refine subset_trans ?_ (ih (forall_mem_cons.1 haddressed).2 hrest)
    rintro label ⟨packed, hcontent, hstored⟩
    refine ⟨packed, hcontent, ?_⟩
    rw [getElem?_insert_bytes]
    split
    next heq =>
      rw [haddressed row mem_cons_self packed (heq ▸ hcontent)]
    · exact hstored

lemma mem_storedNodes_of_insertRows (haddressed : Addressed content rows)
    (hok : redb.insertRows rows nodes = .ok nodes') (hmem : label.1 ∈ rows.map Prod.fst)
    {packed : Bytes} (hcontent : content label.1 = some packed) :
    label ∈ storedNodes content nodes' := by
  induction rows generalizing nodes with
  | nil => simp at hmem
  | cons row rows ih =>
    obtain ⟨_, -, hrest⟩ := bind_eq_ok.1 hok
    have htail : Addressed content rows := fun r hr => haddressed r (mem_cons_of_mem _ hr)
    rcases mem_cons.1 hmem with hhead | hmem
    · -- written here, and not overwritten by anything else later
      refine storedNodes_subset_insertRows htail hrest ⟨packed, hcontent, ?_⟩
      rw [getElem?_insert_bytes, if_pos hhead.symm,
        haddressed row mem_cons_self packed (hhead ▸ hcontent)]
    · exact ih htail hrest hmem

end Rows

section Removed

variable {written removed : List Digest32} {nodes : ByteTable}

lemma getElem?_deleteRemoved {label : Digest32} (h : label ∈ removed → label ∈ written) :
    (RedbAVLStorage.deleteRemoved written removed nodes)[label.1]? = nodes[label.1]? := by
  induction removed generalizing nodes with
  | nil => rfl
  | cons r removed ih =>
    refine (ih (fun hr => h (mem_cons_of_mem _ hr))).trans ?_
    show (if r ∈ written then nodes else nodes.erase r.1)[label.1]? = nodes[label.1]?
    split
    · rfl
    next hr =>
      rw [getElem?_erase_bytes, if_neg]
      intro heq
      obtain rfl : r = label := Subtype.ext heq
      exact hr (h mem_cons_self)

lemma getElem?_of_deleteRemoved {k v : Bytes}
    (h : (RedbAVLStorage.deleteRemoved written removed nodes)[k]? = some v) : nodes[k]? = some v := by
  induction removed generalizing nodes with
  | nil => exact h
  | cons r removed ih =>
    have htail : (if r ∈ written then nodes else nodes.erase r.1)[k]? = some v := ih h
    split at htail
    · exact htail
    · rw [getElem?_erase_bytes] at htail
      split at htail
      · cases htail
      · exact htail

end Removed

/-! ## Retained versions -/

def metadataOf (c : StateCommit) (lsn : UInt64) (chain : List (UInt64 × Bytes)) : Metadata
  | .topNodeHash => some c.rootHash.1
  | .topNodeHeight => some (u32Bytes c.treeHeight)
  | .currentVersion => some c.version
  | .lsn => some (u64Bytes lsn)
  | .versions => some (serializeVersionChain chain)
  | .blockHeight => some (u32Bytes c.blockHeight)

/-- A version of the chain, with its undo record if one was written. -/
structure Retained where
  lsn : UInt64
  commit : StateCommit
  undo : Option UndoRecord

namespace Retained

def entry (r : Retained) : UInt64 × Bytes := (r.lsn, r.commit.version)

def logged (content : Bytes → Option Bytes) (keyLength : ℕ) (r : Retained) : LoggedVersion Digest32 where
  parts := { label | NodeBelow content keyLength r.commit.rootHash label }
  givesBack := { label | ∃ u, r.undo = some u ∧ label ∈ u.removedNodes.map Prod.fst }

def LeadsTo (newer older : Retained) : Prop :=
  ∃ u, newer.undo = some u ∧ u.prevTopNodeHash = older.commit.rootHash ∧
    u.prevTopNodeHeight = older.commit.treeHeight ∧ u.prevVersion = older.commit.version ∧
    u.prevBlockHeight = older.commit.blockHeight

def Follows (newer older : Retained) : Prop := newer.lsn = older.lsn + 1

/-- The undo record of a version is in the table, and gives back nodes. -/
def Logged (redb : Redb) (content : Bytes → Option Bytes) (undoTable : Table Bytes) (r : Retained) :
    Prop :=
  ∀ u, r.undo = some u → undoTable[r.lsn.toNat]? = some u.serialize ∧
    u.serialize.length < 2 ^ 32 ∧
    ∀ node ∈ u.removedNodes, content node.1.1 = some node.2 ∧
      redb.accepts node.1.1.length node.2.length = true

end Retained

lemma nodup_of_follows {retained : List Retained} (h : retained.IsChain Retained.Follows)
    (hlen : retained.length ≤ 2 ^ 64) : (retained.map (·.lsn)).Nodup := by
  -- the number `i` places behind the head is `i` smaller
  have hoffset : ∀ (i : ℕ) (rs : List Retained) (hchain : rs.IsChain Retained.Follows)
      (r₀ rᵢ : Retained), rs[0]? = some r₀ → rs[i]? = some rᵢ → rᵢ.lsn + UInt64.ofNat i = r₀.lsn := by
    intro i
    induction i with
    | zero =>
      intro rs _ r₀ rᵢ h₀ hᵢ
      cases h₀.symm.trans hᵢ
      exact UInt64.add_zero _
    | succ i ih =>
      intro rs hchain r₀ rᵢ h₀ hᵢ
      match rs, hchain with
      | [_], _ => simp at hᵢ
      | a :: b :: rs, hchain =>
        rw [isChain_cons_cons] at hchain
        obtain rfl : a = r₀ := by simpa using h₀
        have hb := ih (b :: rs) hchain.2 b rᵢ rfl (by simpa using hᵢ)
        rw [hchain.1, ← hb, UInt64.ofNat_add, UInt64.add_assoc]
        rfl
  rw [nodup_iff_getElem?_ne_getElem?]
  intro i j hij hj
  rw [length_map] at hj
  have hi : i < retained.length := Nat.lt_trans hij hj
  have h₀ : 0 < retained.length := Nat.zero_lt_of_lt hj
  rw [getElem?_map, getElem?_map, getElem?_eq_getElem hi, getElem?_eq_getElem hj]
  intro heq
  have heq : retained[i].lsn = retained[j].lsn := by simpa using heq
  have hoi := hoffset i retained h _ _ (getElem?_eq_getElem h₀) (getElem?_eq_getElem hi)
  have hoj := hoffset j retained h _ _ (getElem?_eq_getElem h₀) (getElem?_eq_getElem hj)
  rw [heq, ← hoj] at hoi
  have hsame := (UInt64.add_right_inj _).1 hoi
  have hfits : ∀ n, n < retained.length → n < UInt64.size := fun n hn => Nat.lt_of_lt_of_le hn hlen
  have hindex := congrArg UInt64.toNat hsame
  rw [UInt64.toNat_ofNat', UInt64.toNat_ofNat', Nat.mod_eq_of_lt (hfits i hi),
    Nat.mod_eq_of_lt (hfits j hj)] at hindex
  exact absurd hindex (Nat.ne_of_lt hij)

/-! ## Replay -/

section Replay

variable {redb : Redb} {content : Bytes → Option Bytes} {undoTable : Table Bytes}

lemma Retained.Logged.addressed {r : Retained}
    (h : r.Logged redb content undoTable) {u : UndoRecord} (hu : r.undo = some u) :
    Addressed content (RedbAVLStorage.nodeRows u.removedNodes) := by
  intro row hrow packed hpacked
  obtain ⟨node, hnode, rfl⟩ := mem_map.1 hrow
  have hcontent := ((h u hu).2.2 node hnode).1
  exact Option.some.inj (hcontent.symm.trans hpacked)

/-- Undo records are replayed, newest first; those of other versions stay, and the last leads to the
target. -/
theorem replayUndo_eq_ok (keyLength : ℕ) {retained : List Retained} {k : ℕ} (hk : k < retained.length)
    {nodes : ByteTable} (last : Option UndoRecord)
    (hleads : retained.IsChain Retained.LeadsTo)
    (hlogged : ∀ r ∈ retained, r.Logged redb content undoTable)
    (hnodup : (retained.map (·.lsn)).Nodup) (haccepted : RowsAccepted redb nodes) :
    ∃ nodes' undoTable' last',
      RedbAVLStorage.replayUndo redb ((retained.take k).map Retained.entry) nodes undoTable last =
        .ok (nodes', undoTable', last') ∧
      giveBack (storedNodes content nodes) ((retained.take k).map (Retained.logged content keyLength)) ⊆
        storedNodes content nodes' ∧
      (∀ r ∈ retained.drop k, r.Logged redb content undoTable') ∧
      RowsAccepted redb nodes' ∧
      (k = 0 ∧ last' = last ∨ ∃ newer older : Retained, retained[k]? = some older ∧
        newer.LeadsTo older ∧ newer.undo = last') := by
  induction k generalizing retained nodes undoTable last with
  | zero => exact ⟨nodes, undoTable, last, rfl, subset_rfl, hlogged, haccepted, .inl ⟨rfl, rfl⟩⟩
  | succ k ih =>
    match retained, hleads with
    | newer :: older :: rest, hleads =>
      rw [isChain_cons_cons] at hleads
      obtain ⟨u, hu, -⟩ := id hleads.1
      have hnewer := hlogged newer mem_cons_self
      obtain ⟨hrow, hlen, hremoved⟩ := hnewer u hu
      obtain ⟨nodes₁, hnodes₁⟩ : ∃ nodes₁,
          redb.insertRows (RedbAVLStorage.nodeRows u.removedNodes) nodes = .ok nodes₁ := by
        refine exists_insertRows_eq_ok (fun row hmem => ?_) nodes
        obtain ⟨node, hnode, rfl⟩ := mem_map.1 hmem
        exact (hremoved node hnode).2
      rw [map_cons, nodup_cons] at hnodup
      -- the record of another version is another row
      have hothers : ∀ r ∈ older :: rest,
          r.Logged redb content (undoTable.erase newer.lsn.toNat) := by
        intro r hr u' hu'
        obtain ⟨hrow', hrest'⟩ := hlogged r (mem_cons_of_mem _ hr) u' hu'
        refine ⟨?_, hrest'⟩
        rw [Std.ExtTreeMap.getElem?_erase, if_neg, hrow']
        intro hsame
        have hlsn : newer.lsn = r.lsn := UInt64.toNat_inj.1 (Nat.compare_eq_eq.1 hsame)
        exact hnodup.1 (hlsn ▸ mem_map_of_mem hr)
      obtain ⟨nodes', undoTable', last', hreplay, hstored, hlogged', haccepted', hlast⟩ :=
        ih (by simpa using hk) (some u) hleads.2
          hothers hnodup.2 (haccepted.insertRows hnodes₁)
      refine ⟨nodes', undoTable', last', ?_, ?_, hlogged', haccepted', .inr ?_⟩
      · simp only [take_succ_cons, map_cons, Retained.entry, RedbAVLStorage.replayUndo, hrow]
        refine bind_eq_ok.2 ⟨u, UndoRecord.deserialize_serialize hlen, ?_⟩
        exact bind_eq_ok.2 ⟨nodes₁, hnodes₁, hreplay⟩
      · -- what the record gives back is written, and what was stored stays
        refine subset_trans ?_ hstored
        have hstep : storedNodes content nodes ∪ (newer.logged content keyLength).givesBack ⊆
            storedNodes content nodes₁ := by
          rintro label (hlabel | ⟨u', hu', hmem⟩)
          · exact storedNodes_subset_insertRows (hnewer.addressed hu) hnodes₁ hlabel
          · cases hu.symm.trans hu'
            obtain ⟨node, hnode, rfl⟩ := mem_map.1 hmem
            refine mem_storedNodes_of_insertRows (hnewer.addressed hu) hnodes₁ ?_
              (hremoved node hnode).1
            rw [RedbAVLStorage.nodeRows, map_map]
            exact mem_map_of_mem (f := fun n : Digest32 × Bytes => n.1.1) hnode
        exact giveBack_mono hstep _
      · rcases hlast with ⟨rfl, rfl⟩ | ⟨newer', older', hget, hleads', hundo⟩
        · exact ⟨newer, older, rfl, hleads.1, hu⟩
        · exact ⟨newer', older', by simpa using hget, hleads', hundo⟩

end Replay

end ErgoNode
