import ErgoNode.State.NodeTable

/-!
# The authenticated tree

A binary tree with the values in its leaves. A leaf also carries the key of the next leaf; an inner
node a key that separates its subtrees, and its balance. Nodes are stored packed, under a label: the
hash of what the node holds, with the labels of the children. The key of an inner node is packed but
not hashed. The hash is a parameter.
-/

namespace ErgoNode

open List

def keyLength : ℕ := 32

/-- A value with a length that its four bytes can hold. -/
abbrev AvlValue := { value : Bytes // value.length < 2 ^ 32 }

inductive AvlNode where
  | leaf (key : Digest32) (value : AvlValue) (nextKey : Digest32)
  | internal (balance : Int8) (key left right : Digest32)
  deriving DecidableEq

def packedInternalPrefix : UInt8 := 0x00

def packedLeafPrefix : UInt8 := 0x01

def labelLeafPrefix : UInt8 := 0x00

def labelInternalPrefix : UInt8 := 0x01

namespace AvlNode

def pack : AvlNode → Bytes
  | leaf key value nextKey =>
    packedLeafPrefix ::
      (key.1 ++ (u32Bytes (UInt32.ofNat value.1.length) ++ (value.1 ++ nextKey.1)))
  | internal balance key left right =>
    packedInternalPrefix :: balance.toUInt8 :: (key.1 ++ (left.1 ++ right.1))

/-- What is hashed; the key of an inner node is not. -/
def preimage : AvlNode → Bytes
  | leaf key value nextKey => labelLeafPrefix :: (key.1 ++ (value.1 ++ nextKey.1))
  | internal balance _ left right => labelInternalPrefix :: balance.toUInt8 :: (left.1 ++ right.1)

def label (hash : Bytes → Digest32) (node : AvlNode) : Digest32 := hash node.preimage

def row (hash : Bytes → Digest32) (node : AvlNode) : Digest32 × Bytes :=
  (node.label hash, node.pack)

lemma length_pack_leaf (key : Digest32) (value : AvlValue) (nextKey : Digest32) :
    (leaf key value nextKey).pack.length = 69 + value.1.length := by
  simp only [pack, length_cons, length_append, key.2, nextKey.2, length_u32Bytes]
  omega

lemma length_pack_internal (balance : Int8) (key left right : Digest32) :
    (internal balance key left right).pack.length = 98 := by
  simp only [pack, length_cons, length_append, key.2, left.2, right.2]

lemma pack_ne_nil (node : AvlNode) : node.pack ≠ [] := by
  cases node <;> simp [pack]

lemma childLabels_pack_leaf (key : Digest32) (value : AvlValue) (nextKey : Digest32) :
    childLabels keyLength (leaf key value nextKey).pack = [] := rfl

lemma extractChildLabels_pack (balance : Int8) (key left right : Digest32) :
    extractChildLabels keyLength (internal balance key left right).pack = some (left, right) := by
  have hlen : 2 + keyLength + 64 ≤ (internal balance key left right).pack.length := by
    rw [length_pack_internal]
    decide
  have hleft : (internal balance key left right).pack.drop (2 + keyLength) = left.1 ++ right.1 := by
    show ([packedInternalPrefix, balance.toUInt8] ++ (key.1 ++ (left.1 ++ right.1))).drop _ = _
    rw [← append_assoc]
    exact drop_left' (by simp [key.2, keyLength])
  have hright : (internal balance key left right).pack.drop (2 + keyLength + 32) = right.1 := by
    rw [← drop_drop, hleft]
    exact drop_left' left.2
  rw [extractChildLabels, dif_pos hlen]
  simp only [hleft, hright, take_left' left.2, take_of_length_le right.2.le]

lemma childLabels_pack_internal (balance : Int8) (key left right : Digest32) :
    childLabels keyLength (internal balance key left right).pack = [left, right] := by
  have hhead : (internal balance key left right).pack.head? ≠ some 1 := by
    simp [pack, packedInternalPrefix]
  rw [childLabels, if_neg hhead, extractChildLabels_pack]

lemma pack_injective : Function.Injective pack := by
  intro a b h
  cases a with
  | leaf key value nextKey =>
    cases b with
    | leaf key' value' nextKey' =>
      obtain ⟨hkey, hrest⟩ := append_inj (cons.inj h).2 (key.2.trans key'.2.symm)
      obtain ⟨-, hrest⟩ := append_inj hrest (by rw [length_u32Bytes, length_u32Bytes])
      obtain ⟨hvalue, hnext⟩ := append_inj' hrest (nextKey.2.trans nextKey'.2.symm)
      rw [Subtype.ext hkey, Subtype.ext hvalue, Subtype.ext hnext]
    | internal => cases (cons.inj h).1
  | internal balance key left right =>
    cases b with
    | leaf => cases (cons.inj h).1
    | internal balance' key' left' right' =>
      obtain ⟨hbalance, hrest⟩ := cons.inj (cons.inj h).2
      obtain ⟨hkey, hrest⟩ := append_inj hrest (key.2.trans key'.2.symm)
      obtain ⟨hleft, hright⟩ := append_inj hrest (left.2.trans left'.2.symm)
      have hbalance' : balance = balance' := by simpa using congrArg UInt8.toInt8 hbalance
      rw [hbalance', Subtype.ext hkey, Subtype.ext hleft, Subtype.ext hright]

lemma eq_or_of_preimage_eq {node node' : AvlNode} (h : node.preimage = node'.preimage) :
    node = node' ∨ ∃ balance key key' left right,
      node = internal balance key left right ∧ node' = internal balance key' left right := by
  cases node with
  | leaf key value nextKey =>
    cases node' with
    | leaf key' value' nextKey' =>
      obtain ⟨hkey, hrest⟩ := append_inj (cons.inj h).2 (key.2.trans key'.2.symm)
      obtain ⟨hvalue, hnext⟩ := append_inj' hrest (nextKey.2.trans nextKey'.2.symm)
      exact .inl (by rw [Subtype.ext hkey, Subtype.ext hvalue, Subtype.ext hnext])
    | internal => cases (cons.inj h).1
  | internal balance key left right =>
    cases node' with
    | leaf => cases (cons.inj h).1
    | internal balance' key' left' right' =>
      obtain ⟨hbalance, hrest⟩ := cons.inj (cons.inj h).2
      obtain ⟨hleft, hright⟩ := append_inj hrest (left.2.trans left'.2.symm)
      have hbalance' : balance = balance' := by simpa using congrArg UInt8.toInt8 hbalance
      refine .inr ⟨balance, key, key', left, right, rfl, ?_⟩
      rw [hbalance', Subtype.ext hleft, Subtype.ext hright]

end AvlNode

def TellsApart (hash : Bytes → Digest32) (preimages : Set Bytes) : Prop :=
  ∀ a ∈ preimages, ∀ b ∈ preimages, hash a = hash b → a = b

/-! ## Trees -/

inductive AvlTree where
  | leaf (key : Digest32) (value : AvlValue) (nextKey : Digest32)
  | internal (balance : Int8) (key : Digest32) (left right : AvlTree)
  deriving DecidableEq

namespace AvlTree

variable (hash : Bytes → Digest32)

def label : AvlTree → Digest32
  | leaf key value nextKey => (AvlNode.leaf key value nextKey).label hash
  | internal balance key left right =>
    (AvlNode.internal balance key left.label right.label).label hash

def node : AvlTree → AvlNode
  | leaf key value nextKey => .leaf key value nextKey
  | internal balance key left right => .internal balance key (left.label hash) (right.label hash)

def nodes : AvlTree → List AvlNode
  | leaf key value nextKey => [.leaf key value nextKey]
  | internal balance key left right =>
    .internal balance key (left.label hash) (right.label hash) :: (left.nodes ++ right.nodes)

def rows (t : AvlTree) : List (Digest32 × Bytes) := (t.nodes hash).map (AvlNode.row hash)

def depth : AvlTree → ℕ
  | leaf .. => 0
  | internal _ _ left right => max left.depth right.depth + 1

def entries : AvlTree → List (Digest32 × Bytes)
  | leaf key value _ => [(key, value.1)]
  | internal _ _ left right => left.entries ++ right.entries

lemma label_node (t : AvlTree) : (t.node hash).label hash = t.label hash := by
  cases t <;> rfl

lemma node_mem_nodes (t : AvlTree) : t.node hash ∈ t.nodes hash := by
  cases t <;> exact mem_cons_self

variable {hash} {label : Digest32}

lemma mem_rows_iff {t : AvlTree} {row : Digest32 × Bytes} :
    row ∈ t.rows hash ↔ ∃ node ∈ t.nodes hash, (node.label hash, node.pack) = row := mem_map

lemma mem_nodes_left {balance : Int8} {key : Digest32} {left right : AvlTree} {node : AvlNode}
    (h : node ∈ left.nodes hash) : node ∈ (internal balance key left right).nodes hash :=
  mem_cons_of_mem _ (mem_append_left _ h)

lemma mem_nodes_right {balance : Int8} {key : Digest32} {left right : AvlTree} {node : AvlNode}
    (h : node ∈ right.nodes hash) : node ∈ (internal balance key left right).nodes hash :=
  mem_cons_of_mem _ (mem_append_right _ h)

/-! ### Stored trees -/

/-- Every node of the tree is in the table, packed, under its label. -/
def InTable (hash : Bytes → Digest32) (table : ByteTable) (t : AvlTree) : Prop :=
  ∀ node ∈ t.nodes hash, table[(node.label hash).1]? = some node.pack

namespace InTable

variable {table : ByteTable} {t l r : AvlTree} {balance : Int8} {key : Digest32}

lemma root (h : t.InTable hash table) : table[(t.label hash).1]? = some (t.node hash).pack := by
  rw [← label_node]
  exact h _ (node_mem_nodes hash t)

lemma left (h : (internal balance key l r).InTable hash table) : l.InTable hash table :=
  fun node hnode => h node (mem_nodes_left hnode)

lemma right (h : (internal balance key l r).InTable hash table) : r.InTable hash table :=
  fun node hnode => h node (mem_nodes_right hnode)

lemma eq_of_label_eq {t t' : AvlTree} (h : t.InTable hash table) (h' : t'.InTable hash table)
    (hlabel : t.label hash = t'.label hash) : t = t' := by
  have hroot : ∀ {t t' : AvlTree}, t.InTable hash table → t'.InTable hash table →
      t.label hash = t'.label hash → t.node hash = t'.node hash := by
    intro t t' h h' hlabel
    have hpack := h.root
    rw [hlabel, h'.root] at hpack
    exact AvlNode.pack_injective (Option.some.inj hpack).symm
  induction t generalizing t' with
  | leaf key value nextKey =>
    have hnode := hroot h h' hlabel
    cases t' with
    | leaf =>
      cases hnode
      rfl
    | internal => cases hnode
  | internal balance key l r ihleft ihright =>
    have hnode := hroot h h' hlabel
    cases t' with
    | leaf => cases hnode
    | internal balance' key' l' r' =>
      injection hnode with hbalance hkey hleft hright
      rw [hbalance, hkey, ihleft h.left h'.left hleft, ihright h.right h'.right hright]

end InTable

/-- The database holds a tree of a height: the nodes, and the root in the metadata. -/
structure Stored (hash : Bytes → Digest32) (db : Database) (t : AvlTree) (height : UInt32) : Prop
    where
  nodes : t.InTable hash db.nodes
  topNodeHash : db.metadata .topNodeHash = some (t.label hash).1
  topNodeHeight : db.metadata .topNodeHeight = some (u32Bytes height)

lemma exists_subtree_of_nodeBelow {table : ByteTable} {t : AvlTree} (ht : t.InTable hash table)
    (h : NodeBelow (fun key => table[key]?) keyLength (t.label hash) label) :
    ∃ node ∈ t.nodes hash, node.label hash = label := by
  -- children are looked for among the nodes of subtrees, so the subtree is carried along
  suffices hsub : ∃ s : AvlTree, s.label hash = label ∧ ∀ node ∈ s.nodes hash, node ∈ t.nodes hash by
    obtain ⟨s, hs, hsub⟩ := hsub
    exact ⟨s.node hash, hsub _ (node_mem_nodes hash s), by rw [label_node, hs]⟩
  induction h with
  | root => exact ⟨t, rfl, fun _ h => h⟩
  | @child label label' packed _ hpacked hchild ih =>
    obtain ⟨s, rfl, hsub⟩ := ih
    have hs : s.InTable hash table := fun node hnode => ht node (hsub node hnode)
    cases hs.root.symm.trans hpacked
    cases s with
    | leaf key value nextKey =>
      rw [node, AvlNode.childLabels_pack_leaf] at hchild
      simp at hchild
    | internal balance key left right =>
      rw [node, AvlNode.childLabels_pack_internal] at hchild
      rcases mem_pair.1 hchild with rfl | rfl
      · exact ⟨left, rfl, fun node hnode => hsub node (mem_nodes_left hnode)⟩
      · exact ⟨right, rfl, fun node hnode => hsub node (mem_nodes_right hnode)⟩

lemma nodeBelow_of_mem_nodes {table : ByteTable} {root : Digest32} {t : AvlTree}
    (ht : t.InTable hash table)
    (hroot : NodeBelow (fun key => table[key]?) keyLength root (t.label hash)) :
    ∀ node ∈ t.nodes hash, NodeBelow (fun key => table[key]?) keyLength root (node.label hash) := by
  induction t with
  | leaf key value nextKey =>
    intro node hnode
    obtain rfl := mem_singleton.1 hnode
    exact hroot
  | internal balance key left right ihleft ihright =>
    have hchildren := AvlNode.childLabels_pack_internal balance key (left.label hash) (right.label hash)
    have hreach : ∀ child ∈ [left.label hash, right.label hash],
        NodeBelow (fun key => table[key]?) keyLength root child := fun child hchild =>
      hroot.child ht.root (hchildren ▸ hchild)
    have hleft := hreach _ mem_cons_self
    have hright := hreach _ (mem_cons_of_mem _ mem_cons_self)
    intro node hnode
    rcases mem_cons.1 hnode with rfl | hnode
    · exact hroot
    · rcases mem_append.1 hnode with hnode | hnode
      · exact ihleft ht.left hleft node hnode
      · exact ihright ht.right hright node hnode

lemma mem_rows_iff_nodeBelow {table : ByteTable} {t : AvlTree} (ht : t.InTable hash table)
    {packed : Bytes} :
    (label, packed) ∈ t.rows hash ↔
      NodeBelow (fun key => table[key]?) keyLength (t.label hash) label ∧
        table[label.1]? = some packed := by
  rw [mem_rows_iff]
  constructor
  · rintro ⟨node, hnode, hrow⟩
    cases hrow
    exact ⟨nodeBelow_of_mem_nodes ht .root node hnode, ht node hnode⟩
  · rintro ⟨hbelow, hpacked⟩
    obtain ⟨node, hnode, rfl⟩ := exists_subtree_of_nodeBelow ht hbelow
    have hpack : node.pack = packed := Option.some.inj ((ht node hnode).symm.trans hpacked)
    exact ⟨node, hnode, by rw [hpack]⟩

/-! ### Ordered trees -/

/-- The value a search ends at. Keys are compared as byte strings; a search goes right at its own
key. -/
def find : AvlTree → Digest32 → Option Bytes
  | leaf key value _, k => if key = k then some value.1 else none
  | internal _ key left right, k => if k.1 < key.1 then left.find k else right.find k

/-- The key of every inner node is above the keys to its left and not above those to its right. -/
def Ordered : AvlTree → Prop
  | leaf .. => True
  | internal _ key left right =>
    (∀ entry ∈ left.entries, entry.1.1 < key.1) ∧ (∀ entry ∈ right.entries, ¬ entry.1.1 < key.1) ∧
      left.Ordered ∧ right.Ordered

lemma find_eq_some_iff {t : AvlTree} (ht : t.Ordered) {k : Digest32} {v : Bytes} :
    t.find k = some v ↔ (k, v) ∈ t.entries := by
  induction t with
  | leaf key value nextKey =>
    rw [find, entries, mem_singleton, Prod.mk.injEq]
    split
    next hkey =>
      simp [hkey, eq_comm]
    next hkey =>
      simp [Ne.symm hkey]
  | internal balance key left right ihleft ihright =>
    obtain ⟨hleft, hright, hol, hor⟩ := ht
    rw [find, entries, mem_append]
    split
    · -- the key is below the node's, so it is not among those to the right
      rename_i hlt
      have hnot : (k, v) ∉ right.entries := fun h => hright _ h hlt
      rw [ihleft hol]
      simp [hnot]
    next hlt =>
      have hnot : (k, v) ∉ left.entries := fun h => hlt (hleft _ h)
      rw [ihright hor]
      simp [hnot]

/-! ### Trees with one label -/

def subtrees : AvlTree → List AvlTree
  | leaf key value nextKey => [leaf key value nextKey]
  | internal balance key left right =>
    internal balance key left right :: (left.subtrees ++ right.subtrees)

def preimages (hash : Bytes → Digest32) (t : AvlTree) : Set Bytes :=
  { preimage | ∃ node ∈ t.nodes hash, node.preimage = preimage }

def DistinctKeys (t : AvlTree) : Prop := (t.entries.map Prod.fst).Nodup

/-- The trees differ at most in the keys of inner nodes. -/
inductive AgreeUpToKeys : AvlTree → AvlTree → Prop
  | leaf (key : Digest32) (value : AvlValue) (nextKey : Digest32) :
    AgreeUpToKeys (leaf key value nextKey) (leaf key value nextKey)
  | internal (balance : Int8) (key key' : Digest32) {left left' right right' : AvlTree}
    (hleft : AgreeUpToKeys left left') (hright : AgreeUpToKeys right right') :
    AgreeUpToKeys (internal balance key left right) (internal balance key' left' right')

lemma nodes_eq_map_subtrees (t : AvlTree) : t.nodes hash = t.subtrees.map (node hash) := by
  induction t with
  | leaf => rfl
  | internal balance key left right ihleft ihright =>
    rw [nodes, subtrees, map_cons, map_append, ihleft, ihright]
    rfl

lemma preimage_node_mem_preimages (t : AvlTree) : (t.node hash).preimage ∈ t.preimages hash :=
  ⟨t.node hash, node_mem_nodes hash t, rfl⟩

lemma preimages_left_subset {balance : Int8} {key : Digest32} {left right : AvlTree} :
    left.preimages hash ⊆ (internal balance key left right).preimages hash :=
  fun _ ⟨node, hnode, h⟩ => ⟨node, mem_nodes_left hnode, h⟩

lemma preimages_right_subset {balance : Int8} {key : Digest32} {left right : AvlTree} :
    right.preimages hash ⊆ (internal balance key left right).preimages hash :=
  fun _ ⟨node, hnode, h⟩ => ⟨node, mem_nodes_right hnode, h⟩

/-- A label determines its tree, up to the keys of inner nodes, when the hash tells the preimages of
the two trees apart. -/
theorem agreeUpToKeys_of_label_eq {t t' : AvlTree} {preimages' : Set Bytes}
    (hhash : TellsApart hash preimages') (ht : t.preimages hash ⊆ preimages')
    (ht' : t'.preimages hash ⊆ preimages') (h : t.label hash = t'.label hash) :
    AgreeUpToKeys t t' := by
  have hroot : ∀ {t t' : AvlTree}, t.preimages hash ⊆ preimages' → t'.preimages hash ⊆ preimages' →
      t.label hash = t'.label hash → (t.node hash).preimage = (t'.node hash).preimage := by
    intro t t' ht ht' h
    rw [← label_node, ← label_node] at h
    exact hhash _ (ht t.preimage_node_mem_preimages) _ (ht' t'.preimage_node_mem_preimages) h
  induction t generalizing t' with
  | leaf key value nextKey =>
    -- a leaf carries all it is hashed from
    rcases AvlNode.eq_or_of_preimage_eq (hroot ht ht' h) with hnode | ⟨_, _, _, _, _, hnode, -⟩
    · cases t' with
      | leaf =>
        cases hnode
        exact .leaf key value nextKey
      | internal => cases hnode
    · cases hnode
  | internal balance key left right ihleft ihright =>
    have hchildren : ∃ key' left' right', t' = internal balance key' left' right' ∧
        left.label hash = left'.label hash ∧ right.label hash = right'.label hash := by
      cases t' with
      | leaf =>
        rcases AvlNode.eq_or_of_preimage_eq (hroot ht ht' h) with hnode | ⟨_, _, _, _, _, -, hnode⟩
        · cases hnode
        · cases hnode
      | internal balance' key' left' right' =>
        rcases AvlNode.eq_or_of_preimage_eq (hroot ht ht' h) with hnode | ⟨_, _, _, _, _, hnode, hnode'⟩
        · injection hnode with hbalance hkey hleft hright
          exact ⟨key', left', right', by rw [hbalance], hleft, hright⟩
        · injection hnode with hbalance hkey hleft hright
          injection hnode' with hbalance' hkey' hleft' hright'
          exact ⟨key', left', right', by rw [hbalance, hbalance'], hleft.trans hleft'.symm,
            hright.trans hright'.symm⟩
    obtain ⟨key', left', right', rfl, hleft, hright⟩ := hchildren
    exact .internal balance key key'
      (ihleft (preimages_left_subset.trans ht) (preimages_left_subset.trans ht') hleft)
      (ihright (preimages_right_subset.trans ht) (preimages_right_subset.trans ht') hright)

namespace AgreeUpToKeys

variable {t t' : AvlTree}

lemma entries_eq (h : AgreeUpToKeys t t') : t.entries = t'.entries := by
  induction h with
  | leaf => rfl
  | internal _ _ _ _ _ ihleft ihright => rw [entries, entries, ihleft, ihright]

lemma label_eq (h : AgreeUpToKeys t t') : t.label hash = t'.label hash := by
  induction h with
  | leaf => rfl
  | internal balance key key' _ _ ihleft ihright =>
    rw [label, label, ihleft, ihright]
    rfl

lemma eq_of_keys_eq (h : AgreeUpToKeys t t')
    (hkeys : ∀ balance key key' left right, AvlNode.internal balance key left right ∈ t.nodes hash →
      AvlNode.internal balance key' left right ∈ t'.nodes hash → key = key') : t = t' := by
  induction h with
  | leaf => rfl
  | @internal balance key key' left left' right right' hleft hright ihleft ihright =>
    have hroot : key = key' := by
      refine hkeys balance key key' (left.label hash) (right.label hash) mem_cons_self ?_
      rw [hleft.label_eq, hright.label_eq]
      exact mem_cons_self
    rw [hroot,
      ihleft (fun b k k' l r hk hk' => hkeys b k k' l r (mem_nodes_left hk) (mem_nodes_left hk')),
      ihright (fun b k k' l r hk hk' => hkeys b k k' l r (mem_nodes_right hk) (mem_nodes_right hk'))]

end AgreeUpToKeys

lemma entries_ne_nil (t : AvlTree) : t.entries ≠ [] := by
  induction t with
  | leaf => simp [entries]
  | internal _ _ _ _ ihleft _ => simp [entries, ihleft]

lemma subtrees_subset_of_mem_subtrees {t s : AvlTree} (hs : s ∈ t.subtrees) :
    s.subtrees ⊆ t.subtrees := by
  induction t with
  | leaf =>
    obtain rfl := mem_singleton.1 hs
    exact Subset.refl _
  | internal balance key left right ihleft ihright =>
    rcases mem_cons.1 hs with rfl | hs
    · exact Subset.refl _
    · refine subset_cons_of_subset _ ?_
      rcases mem_append.1 hs with hs | hs
      · exact subset_append_of_subset_left _ (ihleft hs)
      · exact subset_append_of_subset_right _ (ihright hs)

lemma entries_subset_of_mem_subtrees {t s : AvlTree} (hs : s ∈ t.subtrees) :
    s.entries ⊆ t.entries := by
  induction t with
  | leaf =>
    obtain rfl := mem_singleton.1 hs
    exact Subset.refl _
  | internal balance key left right ihleft ihright =>
    rcases mem_cons.1 hs with rfl | hs
    · exact Subset.refl _
    · rcases mem_append.1 hs with hs | hs
      · exact fun e he => mem_append_left _ (ihleft hs he)
      · exact fun e he => mem_append_right _ (ihright hs he)

lemma length_entries_le_of_mem_subtrees {t s : AvlTree} (hs : s ∈ t.subtrees) :
    s.entries.length ≤ t.entries.length := by
  induction t with
  | leaf =>
    obtain rfl := mem_singleton.1 hs
    exact Nat.le_refl _
  | internal balance key left right ihleft ihright =>
    rw [entries, length_append]
    rcases mem_cons.1 hs with rfl | hs
    · exact Nat.le_of_eq (length_append ..)
    · rcases mem_append.1 hs with hs | hs
      · exact Nat.le_trans (ihleft hs) (Nat.le_add_right _ _)
      · exact Nat.le_trans (ihright hs) (Nat.le_add_left _ _)

lemma length_entries_lt {balance : Int8} {key : Digest32} {left right s : AvlTree}
    (hs : s ∈ left.subtrees ++ right.subtrees) :
    s.entries.length < (internal balance key left right).entries.length := by
  have hl := length_pos_iff.2 left.entries_ne_nil
  have hr := length_pos_iff.2 right.entries_ne_nil
  rw [entries, length_append]
  rcases mem_append.1 hs with hs | hs
  · have := length_entries_le_of_mem_subtrees hs
    omega
  · have := length_entries_le_of_mem_subtrees hs
    omega

lemma distinctKeys_internal_iff {balance : Int8} {key : Digest32} {left right : AvlTree} :
    (internal balance key left right).DistinctKeys ↔ left.DistinctKeys ∧ right.DistinctKeys ∧
      (left.entries.map Prod.fst).Disjoint (right.entries.map Prod.fst) := by
  rw [DistinctKeys, entries, map_append, nodup_append']
  rfl

lemma entries_ne_of_disjoint {left right s s' : AvlTree}
    (hdisjoint : (left.entries.map Prod.fst).Disjoint (right.entries.map Prod.fst))
    (hs : s ∈ left.subtrees) (hs' : s' ∈ right.subtrees) : s.entries ≠ s'.entries := by
  intro h
  obtain ⟨e, he⟩ := exists_mem_of_ne_nil _ s.entries_ne_nil
  exact hdisjoint (mem_map_of_mem (entries_subset_of_mem_subtrees hs he))
    (mem_map_of_mem (entries_subset_of_mem_subtrees hs' (h ▸ he)))

lemma eq_of_entries_eq {t s s' : AvlTree} (ht : t.DistinctKeys) (hs : s ∈ t.subtrees)
    (hs' : s' ∈ t.subtrees) (h : s.entries = s'.entries) : s = s' := by
  induction t with
  | leaf => rw [mem_singleton.1 hs, mem_singleton.1 hs']
  | internal balance key left right ihleft ihright =>
    obtain ⟨hleft, hright, hdisjoint⟩ := distinctKeys_internal_iff.1 ht
    rcases mem_cons.1 hs with rfl | hs <;> rcases mem_cons.1 hs' with rfl | hs'
    · rfl
    · exact absurd (congrArg length h) (length_entries_lt hs').ne'
    · exact absurd (congrArg length h) (length_entries_lt hs).ne
    · rcases mem_append.1 hs with hs | hs <;> rcases mem_append.1 hs' with hs' | hs'
      · exact ihleft hleft hs hs'
      · exact absurd h (entries_ne_of_disjoint hdisjoint hs hs')
      · exact absurd h.symm (entries_ne_of_disjoint hdisjoint hs' hs)
      · exact ihright hright hs hs'

lemma nodup_subtrees {t : AvlTree} (ht : t.DistinctKeys) : t.subtrees.Nodup := by
  induction t with
  | leaf => exact nodup_singleton _
  | internal balance key left right ihleft ihright =>
    obtain ⟨hleft, hright, hdisjoint⟩ := distinctKeys_internal_iff.1 ht
    rw [subtrees, nodup_cons, nodup_append']
    refine ⟨fun h => absurd rfl (length_entries_lt h).ne, ihleft hleft, ihright hright, ?_⟩
    exact fun s hs hs' => entries_ne_of_disjoint hdisjoint hs hs' rfl

lemma nodes_subset_of_mem_subtrees {t s : AvlTree} (hs : s ∈ t.subtrees) :
    s.nodes hash ⊆ t.nodes hash := by
  rw [nodes_eq_map_subtrees, nodes_eq_map_subtrees]
  exact map_subset _ (subtrees_subset_of_mem_subtrees hs)

lemma preimages_subset_of_mem_subtrees {t s : AvlTree} (hs : s ∈ t.subtrees) :
    s.preimages hash ⊆ t.preimages hash :=
  fun _ ⟨node, hnode, h⟩ => ⟨node, nodes_subset_of_mem_subtrees hs hnode, h⟩

lemma node_eq_of_label_eq {t : AvlTree} (ht : t.DistinctKeys)
    (hhash : TellsApart hash (t.preimages hash)) {a b : AvlNode} (ha : a ∈ t.nodes hash)
    (hb : b ∈ t.nodes hash) (h : a.label hash = b.label hash) : a = b := by
  rw [nodes_eq_map_subtrees] at ha hb
  obtain ⟨s, hs, rfl⟩ := mem_map.1 ha
  obtain ⟨s', hs', rfl⟩ := mem_map.1 hb
  rw [label_node, label_node] at h
  have hagree := agreeUpToKeys_of_label_eq hhash (preimages_subset_of_mem_subtrees hs)
    (preimages_subset_of_mem_subtrees hs') h
  rw [eq_of_entries_eq ht hs hs' hagree.entries_eq]

lemma Ordered.distinctKeys {t : AvlTree} (ht : t.Ordered) : t.DistinctKeys := by
  induction t with
  | leaf => exact nodup_singleton _
  | internal balance key left right ihleft ihright =>
    obtain ⟨hleft, hright, hol, hor⟩ := ht
    refine distinctKeys_internal_iff.2 ⟨ihleft hol, ihright hor, ?_⟩
    intro k hk hk'
    obtain ⟨e, he, rfl⟩ := mem_map.1 hk
    obtain ⟨e', he', heq⟩ := mem_map.1 hk'
    exact hright e' he' (heq ▸ hleft e he)

lemma nodup_labels {table : ByteTable} {t : AvlTree} (ht : t.DistinctKeys)
    (htable : t.InTable hash table) : ((t.rows hash).map Prod.fst).Nodup := by
  have hsub : ∀ s ∈ t.subtrees, s.InTable hash table := fun s hs node hnode =>
    htable node (nodes_subset_of_mem_subtrees hs hnode)
  have hlabels : (t.rows hash).map Prod.fst = t.subtrees.map (label hash) := by
    rw [rows, nodes_eq_map_subtrees, map_map, map_map]
    exact map_congr_left (fun s _ => label_node hash s)
  rw [hlabels]
  exact Nodup.map_on (fun s hs s' hs' h => (hsub s hs).eq_of_label_eq (hsub s' hs') h)
    (nodup_subtrees ht)

end AvlTree

/-! ### An example -/

def firstBytes (bytes : Bytes) : Digest32 :=
  ⟨(bytes ++ List.replicate 32 0).take 32, by simp⟩

def oneByte (a : UInt8) : AvlValue := ⟨[a], by simp⟩

def twoBytes (a b : UInt8) : AvlValue := ⟨[a, b], by simp⟩

def twoLeaves : AvlTree :=
  .internal 0 (firstBytes [2]) (.leaf (firstBytes [1]) (oneByte 7) (firstBytes [2]))
    (.leaf (firstBytes [2]) (twoBytes 8 9) (firstBytes [255]))

def databaseOf (hash : Bytes → Digest32) (t : AvlTree) (height : UInt32) : Database where
  nodes := (t.rows hash).foldl (fun table row => table.insert row.1.1 row.2) ∅
  undo := ∅
  metadata
    | .topNodeHash => some (t.label hash).1
    | .topNodeHeight => some (u32Bytes height)
    | .currentVersion => some ((t.label hash).1 ++ [height.toUInt8])
    | _ => none

lemma stored_twoLeaves : twoLeaves.Stored firstBytes (databaseOf firstBytes twoLeaves 1) 1 where
  nodes := by
    unfold AvlTree.InTable
    decide +kernel
  topNodeHash := rfl
  topNodeHeight := rfl

end ErgoNode
