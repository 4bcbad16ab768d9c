import ErgoNode.Library.Worklist
import ErgoNode.State.AvlTree

/-!
# Verification of a snapshot

A snapshot comes from peers as a manifest, the nodes of the tree down to a depth, and a chunk for
every subtree below, each a stream of packed nodes in pre-order. A walk recomputes the label of
every node and compares it with the label its parent carries, the root's with one that is given.
`Streamed` says what such a walk accepts, as a recursion over the tree.
-/

namespace ErgoNode

open List AvlNode

/-! ## Nodes -/

inductive ParseError where
  | unexpectedEof
  | invalidPrefix (type : UInt8)
  deriving Repr, DecidableEq

structure ParsedNode where
  node : AvlNode
  label : Digest32
  packedBytes : Bytes
  deriving DecidableEq

def ParsedNode.intoParts (parsed : ParsedNode) : Digest32 × Bytes := (parsed.label, parsed.packedBytes)

def AvlNode.parsed (hash : Bytes → Digest32) (node : AvlNode) : ParsedNode :=
  ⟨node, node.label hash, node.pack⟩

def digestAt (data : Bytes) (offset : ℕ) (h : offset + 32 ≤ data.length) : Digest32 :=
  ⟨(data.drop offset).take 32, by rw [List.length_take, List.length_drop]; omega⟩

section

variable (hash : Bytes → Digest32)

def computeLeafLabel (key value nextKey : Bytes) : Digest32 :=
  hash (labelLeafPrefix :: (key ++ (value ++ nextKey)))

/-- `compute_internal_label`: without the key. -/
def computeInternalLabel (balance : Int8) (leftLabel rightLabel : Digest32) : Digest32 :=
  hash (labelInternalPrefix :: balance.toUInt8 :: (leftLabel.1 ++ rightLabel.1))

/-- An inner node at the front of the data: type, balance, key and the labels of the children. -/
def parseInternal (data : Bytes) : Except ParseError (ParsedNode × ℕ) :=
  if h : data.length < 1 + 1 + 32 + 32 + 32 then .error .unexpectedEof
  else
    let balance := (data.getD 1 0).toInt8
    let key := digestAt data 2 (by omega)
    let leftLabel := digestAt data (2 + 32) (by omega)
    let rightLabel := digestAt data (2 + 32 + 32) (by omega)
    .ok (⟨.internal balance key leftLabel rightLabel,
      computeInternalLabel hash balance leftLabel rightLabel,
      data.take (1 + 1 + 32 + 32 + 32)⟩, 1 + 1 + 32 + 32 + 32)

def leafValueLen (data : Bytes) : UInt32 := u32OfBytes ((data.drop (1 + 32)).take 4)

/-- A leaf at the front of the data: type, key, length of the value, value and key of the next
leaf. -/
def parseLeaf (data : Bytes) : Except ParseError (ParsedNode × ℕ) :=
  if data.length < 1 + 32 + 4 then .error .unexpectedEof
  else if h : data.length < 1 + 32 + 4 + (leafValueLen data).toNat + 32 then .error .unexpectedEof
  else
    let key := digestAt data 1 (by omega)
    let value : AvlValue := ⟨(data.drop (1 + 32 + 4)).take (leafValueLen data).toNat,
      Nat.lt_of_le_of_lt (List.length_take_le _ _) (leafValueLen data).toNat_lt⟩
    let nextKey := digestAt data (1 + 32 + 4 + (leafValueLen data).toNat) (by omega)
    .ok (⟨.leaf key value nextKey, computeLeafLabel hash key.1 value.1 nextKey.1,
      data.take (1 + 32 + 4 + (leafValueLen data).toNat + 32)⟩,
      1 + 32 + 4 + (leafValueLen data).toNat + 32)

/-- `parse_node`, for keys of 32 bytes: the node at the front of the data, and how many bytes it
takes. -/
def parseNode (data : Bytes) : Except ParseError (ParsedNode × ℕ) :=
  match data with
  | [] => .error .unexpectedEof
  | type :: _ =>
    if type = packedInternalPrefix then parseInternal hash data
    else if type = packedLeafPrefix then parseLeaf hash data
    else .error (.invalidPrefix type)

end

lemma digestAt_eq {data rest : Bytes} {offset : ℕ} {d : Digest32} (h : offset + 32 ≤ data.length)
    (hdata : data.drop offset = d.1 ++ rest) : digestAt data offset h = d := by
  ext1
  show (data.drop offset).take 32 = d.1
  rw [hdata, take_left' d.2]

section Parse

variable {hash : Bytes → Digest32} {data : Bytes}

lemma parseInternal_pack (balance : Int8) (key left right : Digest32) (rest : Bytes) :
    parseInternal hash ((AvlNode.internal balance key left right).pack ++ rest) =
      .ok ((AvlNode.internal balance key left right).parsed hash, 98) := by
  generalize hdata : (internal balance key left right).pack ++ rest = data
  have hlen : ¬ data.length < 1 + 1 + 32 + 32 + 32 := by
    rw [← hdata, length_append, length_pack_internal]
    omega
  have hkey : data.drop 2 = key.1 ++ (left.1 ++ (right.1 ++ rest)) := by
    rw [← hdata]
    simp [pack]
  have hleft : data.drop (2 + 32) = left.1 ++ (right.1 ++ rest) := by
    rw [← drop_drop, hkey, drop_left' key.2]
  have hright : data.drop (2 + 32 + 32) = right.1 ++ rest := by
    rw [← drop_drop, hleft, drop_left' left.2]
  have hbalance : (data.getD 1 0).toInt8 = balance := by
    rw [← hdata]
    simp [pack]
  have htake : data.take (1 + 1 + 32 + 32 + 32) = (internal balance key left right).pack := by
    rw [← hdata]
    exact take_left' (length_pack_internal ..)
  rw [parseInternal, dif_neg hlen]
  simp only [digestAt_eq _ hkey, digestAt_eq _ hleft, digestAt_eq _ hright, hbalance, htake]
  rfl

lemma parseLeaf_pack (key : Digest32) (value : AvlValue) (nextKey : Digest32) (rest : Bytes) :
    parseLeaf hash ((AvlNode.leaf key value nextKey).pack ++ rest) =
      .ok ((AvlNode.leaf key value nextKey).parsed hash, 69 + value.1.length) := by
  generalize hdata : (leaf key value nextKey).pack ++ rest = data
  have hkey : data.drop 1 =
      key.1 ++ (u32Bytes (UInt32.ofNat value.1.length) ++ (value.1 ++ (nextKey.1 ++ rest))) := by
    rw [← hdata]
    simp [pack]
  have hsized : data.drop (1 + 32) =
      u32Bytes (UInt32.ofNat value.1.length) ++ (value.1 ++ (nextKey.1 ++ rest)) := by
    rw [← drop_drop, hkey, drop_left' key.2]
  have hvalue : data.drop (1 + 32 + 4) = value.1 ++ (nextKey.1 ++ rest) := by
    rw [← drop_drop, hsized, drop_left' (length_u32Bytes _)]
  have hnext : data.drop (1 + 32 + 4 + value.1.length) = nextKey.1 ++ rest := by
    rw [← drop_drop, hvalue, drop_left' rfl]
  have hvalueLen : (leafValueLen data).toNat = value.1.length := by
    rw [leafValueLen, hsized, take_left' (length_u32Bytes _), u32OfBytes_u32Bytes,
      toNat_u32_of_lt value.2]
  have hlen : 69 + value.1.length ≤ data.length := by
    rw [← hdata, length_append, length_pack_leaf]
    omega
  have htotal : 1 + 32 + 4 + value.1.length + 32 = 69 + value.1.length := by omega
  have htake : data.take (69 + value.1.length) = (leaf key value nextKey).pack := by
    rw [← hdata]
    exact take_left' (length_pack_leaf ..)
  rw [parseLeaf, if_neg (by omega), dif_neg (by omega)]
  simp only [hvalueLen, htotal, digestAt_eq _ hkey, digestAt_eq _ hnext, htake, hvalue, take_left]
  rfl

lemma parseNode_pack (node : AvlNode) (rest : Bytes) :
    parseNode hash (node.pack ++ rest) = .ok (node.parsed hash, node.pack.length) := by
  cases node with
  | leaf key value nextKey =>
    rw [length_pack_leaf]
    exact parseLeaf_pack key value nextKey rest
  | internal balance key left right =>
    rw [length_pack_internal]
    exact parseInternal_pack balance key left right rest

lemma exists_eq_append {n : ℕ} {data : Bytes} (h : n ≤ data.length) :
    ∃ (first : { bytes : Bytes // bytes.length = n }) (rest : Bytes), data = first.1 ++ rest :=
  ⟨⟨data.take n, by rw [length_take, Nat.min_eq_left h]⟩, data.drop n,
    (take_append_drop n data).symm⟩

lemma exists_pack_of_internal {tail : Bytes}
    (hlen : ¬ (packedInternalPrefix :: tail).length < 1 + 1 + 32 + 32 + 32) :
    ∃ node rest, packedInternalPrefix :: tail = AvlNode.pack node ++ rest := by
  match tail with
  | [] => simp at hlen
  | balance :: data =>
    have hdata : 32 + 32 + 32 ≤ data.length := by
      simp only [length_cons] at hlen
      omega
    obtain ⟨key, data, rfl⟩ := exists_eq_append (show 32 ≤ data.length by omega)
    rw [length_append, key.2] at hdata
    obtain ⟨left, data, rfl⟩ := exists_eq_append (show 32 ≤ data.length by omega)
    rw [length_append, left.2] at hdata
    obtain ⟨right, rest, rfl⟩ := exists_eq_append (show 32 ≤ data.length by omega)
    exact ⟨.internal balance.toInt8 key left right, rest, by simp [pack]⟩

lemma exists_pack_of_leaf {tail : Bytes} (hlen : ¬ (packedLeafPrefix :: tail).length < 1 + 32 + 4)
    (hvalue : ¬ (packedLeafPrefix :: tail).length <
      1 + 32 + 4 + (leafValueLen (packedLeafPrefix :: tail)).toNat + 32) :
    ∃ node rest, packedLeafPrefix :: tail = AvlNode.pack node ++ rest := by
  simp only [length_cons] at hlen hvalue
  obtain ⟨key, tail, rfl⟩ := exists_eq_append (show 32 ≤ tail.length by omega)
  rw [length_append, key.2] at hlen hvalue
  obtain ⟨sized, tail, rfl⟩ := exists_eq_append (show 4 ≤ tail.length by omega)
  -- the length of the value is in the four bytes after the key
  have hlenBytes : leafValueLen (packedLeafPrefix :: (key.1 ++ (sized.1 ++ tail))) =
      u32OfBytes sized.1 := by
    have hdrop : (packedLeafPrefix :: (key.1 ++ (sized.1 ++ tail))).drop (1 + 32) = sized.1 ++ tail :=
      drop_left' key.2
    rw [leafValueLen, hdrop, take_left' sized.2]
  rw [hlenBytes, length_append, sized.2] at hvalue
  obtain ⟨value, tail, rfl⟩ :=
    exists_eq_append (show (u32OfBytes sized.1).toNat ≤ tail.length by omega)
  rw [length_append, value.2] at hvalue
  obtain ⟨nextKey, rest, rfl⟩ := exists_eq_append (show 32 ≤ tail.length by omega)
  have hlt : value.1.length < 2 ^ 32 := by
    rw [value.2]
    exact UInt32.toNat_lt _
  refine ⟨.leaf key ⟨value.1, hlt⟩ nextKey, rest, ?_⟩
  simp [pack, value.2, u32Bytes_u32OfBytes sized.2]

lemma parseNode_eq_ok_iff {r : ParsedNode × ℕ} :
    parseNode hash data = .ok r ↔
      ∃ node rest, data = AvlNode.pack node ++ rest ∧ r = (node.parsed hash, node.pack.length) := by
  constructor
  · intro h
    -- it is enough to find the node: parsing is a function
    suffices hpack : ∃ node rest, data = pack node ++ rest by
      obtain ⟨node, rest, rfl⟩ := hpack
      rw [parseNode_pack] at h
      exact ⟨node, rest, rfl, (Except.ok.inj h).symm⟩
    match data with
    | [] => cases h
    | type :: tail =>
      rw [parseNode] at h
      split_ifs at h with hinternal hleaf
      · subst hinternal
        rw [parseInternal] at h
        split_ifs at h with hlen
        exact exists_pack_of_internal hlen
      · subst hleaf
        rw [parseLeaf] at h
        split_ifs at h with hlen hvalue
        exact exists_pack_of_leaf hlen hvalue
  · rintro ⟨node, rest, rfl, rfl⟩
    exact parseNode_pack node rest

end Parse

/-! ## The walk -/

inductive Side where
  | left
  | right
  deriving Repr, DecidableEq

inductive TreeError where
  | parse (e : ParseError)
  | truncated
  | trailingBytes (count : ℕ)
  | rootMismatch
  /-- A child does not hash to the label its parent carries; the parent by its index in the
  stream. -/
  | brokenLink (parent : ℕ) (side : Side)
  deriving Repr, DecidableEq

structure VerifiedTree where
  rootLabel : Digest32
  subtreeIds : List Digest32
  nodes : List ParsedNode
  deriving DecidableEq

/-- What the walk owes the next node. -/
structure Owed where
  /-- The label it must hash to; none only for a root with no expectation. -/
  label : Option Digest32
  depth : ℕ
  /-- The node that carries the label, by its index, and the side. -/
  parent : Option (ℕ × Side)

def Owed.mismatch (owed : Owed) : TreeError :=
  match owed.parent with
  | none => .rootMismatch
  | some (parent, side) => .brokenLink parent side

structure WalkState where
  rest : Bytes
  nodes : List ParsedNode
  subtreeIds : List Digest32

section

variable (hash : Bytes → Digest32)

/-- The state after a node, and the nodes it owes, the left child first. At the boundary the children
are noted instead. -/
def descend (boundaryDepth : Option ℕ) (depth : ℕ) (s : WalkState) (parsed : ParsedNode) :
    WalkState × List Owed :=
  match parsed.node with
  | .leaf .. => ({ s with nodes := s.nodes ++ [parsed] }, [])
  | .internal _ _ leftLabel rightLabel =>
    if boundaryDepth = some depth then
      ({ s with
        nodes := s.nodes ++ [parsed]
        subtreeIds := s.subtreeIds ++ [leftLabel, rightLabel] }, [])
    else
      ({ s with nodes := s.nodes ++ [parsed] },
        [⟨some leftLabel, depth + 1, some (s.nodes.length, .left)⟩,
          ⟨some rightLabel, depth + 1, some (s.nodes.length, .right)⟩])

def visitNode (boundaryDepth : Option ℕ) (s : WalkState) (owed : Owed) :
    Except TreeError (WalkState × List Owed) :=
  if s.rest = [] then .error .truncated
  else
    match parseNode hash s.rest with
    | .error e => .error (.parse e)
    | .ok (parsed, consumed) =>
      if ∀ expected ∈ owed.label, parsed.label = expected then
        .ok (descend boundaryDepth owed.depth { s with rest := s.rest.drop consumed } parsed)
      else .error owed.mismatch

def finishWalk (s : WalkState) : Except TreeError VerifiedTree :=
  if s.rest ≠ [] then .error (.trailingBytes s.rest.length)
  else
    match s.nodes.head? with
    | none => .error .truncated
    | some root => .ok ⟨root.label, s.subtreeIds, s.nodes⟩

/-- `walk_tree`. Every round takes at least a byte off the data (`worklist_visitNode_ne_none`). -/
def walkTree (data : Bytes) (boundaryDepth : Option ℕ) (expectedRoot : Option Digest32) :
    Except TreeError VerifiedTree :=
  match worklist (visitNode hash boundaryDepth) (data.length + 1) ⟨data, [], []⟩
      [⟨expectedRoot, 1, none⟩] with
  | none => .error .truncated
  | some result => result >>= finishWalk

def verifyChunk (data : Bytes) (subtreeId : Digest32) : Except TreeError VerifiedTree :=
  walkTree hash data none (some subtreeId)

end

/-- The nodes of a tree in pre-order, cut at the boundary, with the labels below the cut. -/
inductive Streamed (hash : Bytes → Digest32) (boundaryDepth : Option ℕ) :
    ℕ → Digest32 → List AvlNode → List Digest32 → Prop
  | leaf (depth : ℕ) (key : Digest32) (value : AvlValue) (nextKey : Digest32) :
    Streamed hash boundaryDepth depth ((AvlNode.leaf key value nextKey).label hash)
      [.leaf key value nextKey] []
  | cut {depth : ℕ} (h : boundaryDepth = some depth) (balance : Int8) (key left right : Digest32) :
    Streamed hash boundaryDepth depth ((AvlNode.internal balance key left right).label hash)
      [.internal balance key left right] [left, right]
  | internal {depth : ℕ} (h : boundaryDepth ≠ some depth) (balance : Int8) (key : Digest32)
    {left right : Digest32} {nodes nodes' : List AvlNode} {ids ids' : List Digest32}
    (hleft : Streamed hash boundaryDepth (depth + 1) left nodes ids)
    (hright : Streamed hash boundaryDepth (depth + 1) right nodes' ids') :
    Streamed hash boundaryDepth depth ((AvlNode.internal balance key left right).label hash)
      (.internal balance key left right :: (nodes ++ nodes')) (ids ++ ids')

section Walk

variable {hash : Bytes → Digest32} {boundaryDepth : Option ℕ} {s t : WalkState} {owed : Owed}
  {label : Digest32} {nodes : List AvlNode} {ids : List Digest32} {r : WalkState × List Owed}
  {tree : VerifiedTree}

lemma visitNode_eq_ok_iff :
    visitNode hash boundaryDepth s owed = .ok r ↔
      ∃ node rest, s.rest = AvlNode.pack node ++ rest ∧ (∀ l ∈ owed.label, node.label hash = l) ∧
        r = descend boundaryDepth owed.depth { s with rest } (node.parsed hash) := by
  constructor
  · intro h
    rw [visitNode] at h
    split_ifs at h with hempty
    split at h
    · cases h
    next parsed consumed hparse =>
      obtain ⟨node, rest, hrest, hparsed⟩ := parseNode_eq_ok_iff.1 hparse
      cases hparsed
      split_ifs at h with hlabel
      rw [hrest, drop_left] at h
      exact ⟨node, rest, hrest, hlabel, (Except.ok.inj h).symm⟩
  · rintro ⟨node, rest, hrest, hlabel, rfl⟩
    have hall : ∀ expected ∈ owed.label, (node.parsed hash).label = expected := hlabel
    have hne : s.rest ≠ [] := by
      rw [hrest]
      simp [pack_ne_nil]
    rw [visitNode, if_neg hne, hrest, parseNode_pack]
    dsimp only
    rw [if_pos hall, drop_left]

variable {depth : ℕ}

lemma descend_cut (h : boundaryDepth = some depth) (balance : Int8) (key left right : Digest32) :
    descend boundaryDepth depth s ((AvlNode.internal balance key left right).parsed hash) =
      ({ s with
        nodes := s.nodes ++ [(AvlNode.internal balance key left right).parsed hash]
        subtreeIds := s.subtreeIds ++ [left, right] }, []) := if_pos h

lemma descend_internal (h : boundaryDepth ≠ some depth) (balance : Int8)
    (key left right : Digest32) :
    descend boundaryDepth depth s ((AvlNode.internal balance key left right).parsed hash) =
      ({ s with nodes := s.nodes ++ [(AvlNode.internal balance key left right).parsed hash] },
        [⟨some left, depth + 1, some (s.nodes.length, .left)⟩,
          ⟨some right, depth + 1, some (s.nodes.length, .right)⟩]) := if_neg h

@[simp]
lemma rest_descend (depth : ℕ) (parsed : ParsedNode) :
    (descend boundaryDepth depth s parsed).1.rest = s.rest := by
  rw [descend]
  split
  · rfl
  · split <;> rfl

lemma length_rest_of_visitNode (h : visitNode hash boundaryDepth s owed = .ok r) :
    r.1.rest.length < s.rest.length := by
  obtain ⟨node, rest, hrest, -, rfl⟩ := visitNode_eq_ok_iff.1 h
  have hpos := length_pos_iff.2 node.pack_ne_nil
  rw [rest_descend, hrest, length_append]
  exact Nat.lt_add_of_pos_left hpos

lemma worklist_visitNode_ne_none {n : ℕ} {stack : List Owed} (hn : s.rest.length < n) :
    worklist (visitNode hash boundaryDepth) n s stack ≠ none :=
  worklist_ne_none (fun s _ => s.rest.length) (fun _ _ _ _ _ h => length_rest_of_visitNode h) hn

lemma drains_of_streamed (h : Streamed hash boundaryDepth depth label nodes ids)
    {rest : Bytes} {parsed : List ParsedNode} {subtreeIds : List Digest32}
    (hdepth : owed.depth = depth) (hlabel : ∀ l ∈ owed.label, label = l) :
    Drains (visitNode hash boundaryDepth)
      ⟨nodes.flatMap AvlNode.pack ++ rest, parsed, subtreeIds⟩ [owed]
      ⟨rest, parsed ++ nodes.map (AvlNode.parsed hash), subtreeIds ++ ids⟩ := by
  induction h generalizing owed rest parsed subtreeIds with
  | leaf depth key value nextKey =>
    have hvisit : visitNode hash boundaryDepth
        ⟨(leaf key value nextKey).pack ++ rest, parsed, subtreeIds⟩ owed = .ok _ :=
      visitNode_eq_ok_iff.2 ⟨_, rest, rfl, hlabel, rfl⟩
    simpa using Drains.single hvisit (.nil _)
  | @cut depth hcut balance key left right =>
    have hvisit : visitNode hash boundaryDepth
        ⟨(internal balance key left right).pack ++ rest, parsed, subtreeIds⟩ owed = .ok _ :=
      visitNode_eq_ok_iff.2 ⟨_, rest, rfl, hlabel, rfl⟩
    rw [descend_cut (hdepth ▸ hcut)] at hvisit
    simpa using Drains.single hvisit (.nil _)
  | @internal depth hcut balance key left right nodes nodes' ids ids' _ _ ihleft ihright =>
    have hvisit : visitNode hash boundaryDepth
        ⟨(internal balance key left right).pack ++
          (nodes.flatMap pack ++ (nodes'.flatMap pack ++ rest)),
          parsed, subtreeIds⟩ owed = .ok _ :=
      visitNode_eq_ok_iff.2 ⟨_, _, rfl, hlabel, rfl⟩
    rw [descend_internal (hdepth ▸ hcut)] at hvisit
    -- the children are owed next, the left one first
    have hleft : Drains (visitNode hash boundaryDepth)
        ⟨nodes.flatMap pack ++ (nodes'.flatMap pack ++ rest),
          parsed ++ [(internal balance key left right).parsed hash], subtreeIds⟩
        [⟨some left, owed.depth + 1, some (parsed.length, .left)⟩] _ :=
      ihleft (congrArg (· + 1) hdepth) (by simp)
    have hright : Drains (visitNode hash boundaryDepth)
        ⟨nodes'.flatMap pack ++ rest, _, subtreeIds ++ ids⟩
        [⟨some right, owed.depth + 1, some (parsed.length, .right)⟩]
        ⟨rest, parsed ++ [(internal balance key left right).parsed hash] ++
          nodes.map (AvlNode.parsed hash) ++ nodes'.map (AvlNode.parsed hash), _⟩ :=
      ihright (congrArg (· + 1) hdepth) (by simp)
    simpa using Drains.single hvisit (hleft.append hright)

lemma streamed_of_drains (h : Drains (visitNode hash boundaryDepth) s [owed] t) :
    ∃ label nodes ids, Streamed hash boundaryDepth owed.depth label nodes ids ∧
      (∀ l ∈ owed.label, label = l) ∧ s.rest = nodes.flatMap AvlNode.pack ++ t.rest ∧
      t.nodes = s.nodes ++ nodes.map (AvlNode.parsed hash) ∧ t.subtreeIds = s.subtreeIds ++ ids := by
  -- a round leaves fewer bytes for the children
  induction hn : s.rest.length using Nat.strong_induction_on generalizing s t owed with
  | _ n ih =>
    subst hn
    obtain ⟨s', items, hvisit, hitems⟩ := h.of_single
    have hless := length_rest_of_visitNode hvisit
    obtain ⟨node, rest, hrest, hlabel, hdescend⟩ := visitNode_eq_ok_iff.1 hvisit
    cases node with
    | leaf key value nextKey =>
      cases hdescend
      obtain rfl := hitems.eq_of_nil
      exact ⟨_, _, _, .leaf _ key value nextKey, hlabel, by simpa using hrest, rfl, by simp⟩
    | internal balance key left right =>
      by_cases hcut : boundaryDepth = some owed.depth
      · rw [descend_cut hcut] at hdescend
        cases hdescend
        obtain rfl := hitems.eq_of_nil
        exact ⟨_, _, _, .cut hcut balance key left right, hlabel, by simpa using hrest, rfl, rfl⟩
      · rw [descend_internal hcut] at hdescend
        cases hdescend
        obtain ⟨mid, hleft, hright⟩ := hitems.of_pair
        obtain ⟨l, nodes, ids, hl, hll, hrestl, hnodesl, hidsl⟩ := ih _ hless hleft rfl
        dsimp only at hless hrestl hnodesl hidsl
        have hmid : mid.rest.length < s.rest.length := by
          rw [hrestl, length_append] at hless
          omega
        obtain ⟨r, nodes', ids', hr, hrr, hrestr, hnodesr, hidsr⟩ := ih _ hmid hright rfl
        obtain rfl : l = left := hll _ rfl
        obtain rfl : r = right := hrr _ rfl
        refine ⟨_, _, _, .internal hcut balance key hl hr, hlabel, ?_, ?_, ?_⟩
        · simp [hrest, hrestl, hrestr]
        · simp [hnodesr, hnodesl]
        · simp [hidsr, hidsl]

lemma finishWalk_eq_ok_iff :
    finishWalk s = .ok tree ↔
      s.rest = [] ∧ ∃ root, s.nodes.head? = some root ∧ tree = ⟨root.label, s.subtreeIds, s.nodes⟩ := by
  rw [finishWalk]
  split_ifs with hrest
  · simp [hrest]
  · have hrest' : s.rest = [] := not_not.1 hrest
    cases s.nodes.head? with
    | none => simp
    | some root => simp [hrest', eq_comm]

lemma Streamed.exists_head (h : Streamed hash boundaryDepth depth label nodes ids) :
    ∃ node tail, nodes = node :: tail ∧ node.label hash = label := by
  cases h with
  | leaf | cut | internal => exact ⟨_, _, rfl, rfl⟩

/-- A walk accepts exactly the packed nodes of a cut tree with the expected root. -/
theorem walkTree_eq_ok_iff {data : Bytes} {root : Digest32} :
    walkTree hash data boundaryDepth (some root) = .ok tree ↔
      ∃ nodes ids, Streamed hash boundaryDepth 1 root nodes ids ∧
        data = nodes.flatMap AvlNode.pack ∧ tree = ⟨root, ids, nodes.map (AvlNode.parsed hash)⟩ := by
  have hrounds : worklist (visitNode hash boundaryDepth) (data.length + 1) ⟨data, [], []⟩
      [⟨some root, 1, none⟩] ≠ none := worklist_visitNode_ne_none (Nat.lt_succ_self _)
  obtain ⟨result, hresult⟩ := Option.ne_none_iff_exists'.1 hrounds
  have hwalk : walkTree hash data boundaryDepth (some root) = .ok tree ↔
      ∃ s, Drains (visitNode hash boundaryDepth) ⟨data, [], []⟩ [⟨some root, 1, none⟩] s ∧
        finishWalk s = .ok tree := by
    rw [walkTree, hresult]
    simp only [bind_eq_ok, ← worklist_eq_ok_iff hrounds, hresult, Option.some.injEq]
  rw [hwalk]
  constructor
  · rintro ⟨s, hdrains, hfinish⟩
    obtain ⟨hrest, first, hfirst, rfl⟩ := finishWalk_eq_ok_iff.1 hfinish
    obtain ⟨label, nodes, ids, hstreamed, hlabel, hdata, hnodes, hids⟩ := streamed_of_drains hdrains
    obtain rfl : label = root := hlabel root rfl
    obtain ⟨node, tail, rfl, hnode⟩ := hstreamed.exists_head
    rw [hnodes] at hfirst
    obtain rfl : node.parsed hash = first := Option.some.inj hfirst
    refine ⟨_, ids, hstreamed, by simpa [hrest] using hdata, ?_⟩
    rw [hnodes, hids]
    simp [parsed, hnode]
  · rintro ⟨nodes, ids, hstreamed, rfl, rfl⟩
    obtain ⟨node, tail, rfl, hnode⟩ := hstreamed.exists_head
    have hdrains : Drains (visitNode hash boundaryDepth) _ [⟨some root, 1, none⟩]
        ⟨[], [] ++ (node :: tail).map (parsed hash), [] ++ ids⟩ :=
      drains_of_streamed hstreamed rfl (by simp)
    rw [append_nil] at hdrains
    exact ⟨_, hdrains, finishWalk_eq_ok_iff.2 ⟨rfl, node.parsed hash, rfl, by simp [parsed, hnode]⟩⟩

end Walk

/-! ## Manifests and assembly -/

inductive ManifestError where
  | tree (e : TreeError)
  | zeroDepth
  | rootHeightMismatch (expected got : UInt8)
  deriving Repr, DecidableEq

/-- A state root: the label of the root and the height of the tree. -/
abbrev StateRoot := { bytes : Bytes // bytes.length = 33 }

def StateRoot.of (rootHash : Digest32) (height : UInt8) : StateRoot :=
  ⟨rootHash.1 ++ [height], by rw [List.length_append, rootHash.2, List.length_singleton]⟩

def splitStateRoot (stateRoot : StateRoot) : Digest32 × UInt8 :=
  (⟨stateRoot.1.take 32, by rw [List.length_take, stateRoot.2]; rfl⟩, stateRoot.1.getD 32 0)

@[simp]
lemma splitStateRoot_of (rootHash : Digest32) (height : UInt8) :
    splitStateRoot (.of rootHash height) = (rootHash, height) := by
  have htake : (rootHash.1 ++ [height]).take 32 = rootHash.1 := take_left' rootHash.2
  have hget : (rootHash.1 ++ [height]).getD 32 0 = height := by
    simp [getD, rootHash.2]
  simp only [splitStateRoot, StateRoot.of, htake, hget]

def parseManifestHeader (data : Bytes) : Except ParseError (UInt8 × UInt8) :=
  match data with
  | rootHeight :: manifestDepth :: _ => .ok (rootHeight, manifestDepth)
  | _ => .error .unexpectedEof

structure VerifiedManifest where
  bytes : Bytes
  rootHash : Digest32
  rootHeight : UInt8
  manifestDepth : UInt8
  subtreeIds : List Digest32
  deriving DecidableEq

inductive SnapshotError where
  | manifest (e : ManifestError)
  | chunkInvalid (e : TreeError)
  | chunkMissing
  deriving Repr, DecidableEq

structure SnapshotData where
  nodes : List (Digest32 × Bytes)
  rootHash : Digest32
  treeHeight : UInt8
  snapshotHeight : UInt32
  deriving DecidableEq

section

variable (hash : Bytes → Digest32)

def walkManifest (manifestBytes : Bytes) (expectedRoot : Option Digest32) :
    Except ManifestError (UInt8 × VerifiedTree) := do
  let (rootHeight, manifestDepth) ←
    (parseManifestHeader manifestBytes).mapError (fun e => .tree (.parse e))
  if manifestDepth = 0 then .error .zeroDepth
  else
    let tree ← (walkTree hash (manifestBytes.drop 2) (some manifestDepth.toNat)
      expectedRoot).mapError .tree
    .ok (rootHeight, tree)

def verifyManifest (bytes : Bytes) (expectedStateRoot : StateRoot) :
    Except ManifestError VerifiedManifest := do
  let (rootHeight, tree) ← walkManifest hash bytes (some (splitStateRoot expectedStateRoot).1)
  if rootHeight ≠ (splitStateRoot expectedStateRoot).2 then
    .error (.rootHeightMismatch (splitStateRoot expectedStateRoot).2 rootHeight)
  else .ok ⟨bytes, tree.rootLabel, rootHeight, bytes.getD 1 0, tree.subtreeIds⟩

def VerifiedManifest.nodes (manifest : VerifiedManifest) : Except ManifestError (List ParsedNode) :=
  (walkTree hash (manifest.bytes.drop 2) (some manifest.manifestDepth.toNat)
    (some manifest.rootHash)).mapError .tree |>.map VerifiedTree.nodes

def collectChunk (getChunk : Digest32 → Option Bytes) (subtreeId : Digest32) :
    Except SnapshotError (List (Digest32 × Bytes)) :=
  match getChunk subtreeId with
  | none => .error .chunkMissing
  | some chunkData =>
    ((verifyChunk hash chunkData subtreeId).mapError .chunkInvalid).map
      (fun tree => tree.nodes.map ParsedNode.intoParts)

def assembleSnapshot (manifest : VerifiedManifest) (getChunk : Digest32 → Option Bytes)
    (snapshotHeight : UInt32) : Except SnapshotError SnapshotData := do
  let manifestNodes ← (manifest.nodes hash).mapError .manifest
  let chunkNodes ← manifest.subtreeIds.mapM (collectChunk hash getChunk)
  .ok {
    nodes := manifestNodes.map ParsedNode.intoParts ++ chunkNodes.flatten
    rootHash := manifest.rootHash
    treeHeight := manifest.rootHeight
    snapshotHeight }

end

section Assembly

variable {hash : Bytes → Digest32} {boundaryDepth : Option ℕ} {root : Digest32} {rootHeight : UInt8}
  {getChunk : Digest32 → Option Bytes}

lemma Streamed.ids_eq_nil {label : Digest32} {nodes : List AvlNode}
    {ids : List Digest32} (h : Streamed hash none depth label nodes ids) : ids = [] := by
  induction h with
  | leaf => rfl
  | cut h => cases h
  | internal _ _ _ _ _ ihleft ihright => rw [ihleft, ihright, append_nil]

lemma walkManifest_eq_ok_iff {bytes : Bytes} {r : UInt8 × VerifiedTree} :
    walkManifest hash bytes (some root) = .ok r ↔
      ∃ (height depth : UInt8) (nodes : List AvlNode) (ids : List Digest32), depth ≠ 0 ∧
        Streamed hash (some depth.toNat) 1 root nodes ids ∧
        bytes = height :: depth :: nodes.flatMap AvlNode.pack ∧
        r = (height, ⟨root, ids, nodes.map (AvlNode.parsed hash)⟩) := by
  rw [walkManifest]
  match bytes with
  | [] | [_] => simp [parseManifestHeader, Except.mapError]
  | height :: depth :: stream =>
    have hheader : (parseManifestHeader (height :: depth :: stream)).mapError
        (fun e => ManifestError.tree (.parse e)) = .ok (height, depth) := rfl
    rw [hheader, ok_bind]
    dsimp only
    split_ifs with hdepth
    · simp [hdepth]
    · simp only [bind_eq_ok, mapError_eq_ok, walkTree_eq_ok_iff]
      constructor
      · rintro ⟨_, ⟨nodes, ids, hstreamed, hstream, rfl⟩, hr⟩
        obtain rfl : stream = nodes.flatMap pack := hstream
        exact ⟨height, depth, nodes, ids, hdepth, hstreamed, rfl, (Except.ok.inj hr).symm⟩
      · rintro ⟨height', depth', nodes, ids, -, hstreamed, hbytes, rfl⟩
        obtain ⟨rfl, rfl, rfl⟩ :
            height = height' ∧ depth = depth' ∧ stream = nodes.flatMap pack := by
          simpa using hbytes
        exact ⟨_, ⟨nodes, ids, hstreamed, rfl, rfl⟩, rfl⟩

/-- An accepted manifest is the header and the packed nodes of a tree with the root, cut at a depth
above zero. -/
theorem verifyManifest_eq_ok_iff {bytes : Bytes} {manifest : VerifiedManifest} :
    verifyManifest hash bytes (.of root rootHeight) = .ok manifest ↔
      ∃ (depth : UInt8) (nodes : List AvlNode) (ids : List Digest32), depth ≠ 0 ∧
        Streamed hash (some depth.toNat) 1 root nodes ids ∧
        bytes = rootHeight :: depth :: nodes.flatMap AvlNode.pack ∧
        manifest = ⟨bytes, root, rootHeight, depth, ids⟩ := by
  rw [verifyManifest, splitStateRoot_of]
  simp only [bind_eq_ok, walkManifest_eq_ok_iff]
  constructor
  · rintro ⟨_, ⟨height, depth, nodes, ids, hdepth, hstreamed, rfl, rfl⟩, h⟩
    split_ifs at h with hheight
    obtain rfl : height = rootHeight := not_not.1 hheight
    exact ⟨depth, nodes, ids, hdepth, hstreamed, rfl, (Except.ok.inj h).symm⟩
  · rintro ⟨depth, nodes, ids, hdepth, hstreamed, rfl, rfl⟩
    refine ⟨_, ⟨rootHeight, depth, nodes, ids, hdepth, hstreamed, rfl, rfl⟩, ?_⟩
    rw [if_neg (not_not.2 rfl)]
    rfl

/-- A stored chunk is collected when it is the packed nodes of a tree with the label it is stored
under. -/
theorem collectChunk_eq_ok_iff {id : Digest32} {rows : List (Digest32 × Bytes)} :
    collectChunk hash getChunk id = .ok rows ↔
      ∃ chunk, (Streamed hash none 1 id chunk [] ∧ getChunk id = some (chunk.flatMap AvlNode.pack)) ∧
        rows = chunk.map (AvlNode.row hash) := by
  rw [collectChunk]
  cases getChunk id with
  | none => simp
  | some data =>
    simp only [map_eq_ok, mapError_eq_ok, verifyChunk, walkTree_eq_ok_iff, Option.some.injEq]
    constructor
    · rintro ⟨_, ⟨chunk, ids, hstreamed, rfl, rfl⟩, rfl⟩
      obtain rfl := hstreamed.ids_eq_nil
      exact ⟨chunk, ⟨hstreamed, rfl⟩, map_map ..⟩
    · rintro ⟨chunk, ⟨hstreamed, rfl⟩, rfl⟩
      exact ⟨_, ⟨chunk, [], hstreamed, rfl, rfl⟩, map_map ..⟩

lemma assembleSnapshot_eq_ok_iff {depth : UInt8} {nodes : List AvlNode} {ids : List Digest32}
    (hstreamed : Streamed hash (some depth.toNat) 1 root nodes ids)
    {snapshotHeight : UInt32} {data : SnapshotData} :
    assembleSnapshot hash ⟨rootHeight :: depth :: nodes.flatMap AvlNode.pack, root, rootHeight, depth, ids⟩
        getChunk snapshotHeight = .ok data ↔
      ∃ chunks : List (List AvlNode),
        List.Forall₂ (fun id chunk => Streamed hash none 1 id chunk [] ∧
          getChunk id = some (chunk.flatMap AvlNode.pack)) ids chunks ∧
        data = ⟨(nodes ++ chunks.flatten).map (AvlNode.row hash), root, rootHeight,
          snapshotHeight⟩ := by
  have hnodes : VerifiedManifest.nodes hash
      ⟨rootHeight :: depth :: nodes.flatMap pack, root, rootHeight, depth, ids⟩ =
        .ok (nodes.map (parsed hash)) :=
    map_eq_ok.2 ⟨_, mapError_eq_ok.2 (walkTree_eq_ok_iff.2 ⟨nodes, ids, hstreamed, rfl, rfl⟩), rfl⟩
  have hparts (nodes : List AvlNode) : (nodes.map (parsed hash)).map ParsedNode.intoParts =
      nodes.map (row hash) := map_map ..
  have hchunks {rows : List (List (Digest32 × Bytes))} :
      ids.mapM (collectChunk hash getChunk) = .ok rows ↔ ∃ chunks : List (List AvlNode),
        Forall₂ (fun id chunk => Streamed hash none 1 id chunk [] ∧
          getChunk id = some (chunk.flatMap pack)) ids chunks ∧
        rows = chunks.map (map (row hash)) := by
    simp only [mapM_eq_ok_iff, collectChunk_eq_ok_iff, forall₂_exists_iff]
  rw [assembleSnapshot, hnodes]
  constructor
  · intro h
    obtain ⟨_, hmanifest, h⟩ := bind_eq_ok.1 h
    cases hmanifest
    obtain ⟨_, hrows, h⟩ := bind_eq_ok.1 h
    obtain ⟨chunks, hforall, rfl⟩ := hchunks.1 hrows
    refine ⟨chunks, hforall, ?_⟩
    rw [← Except.ok.inj h, hparts, map_append, map_flatten]
  · rintro ⟨chunks, hforall, rfl⟩
    refine bind_eq_ok.2 ⟨_, rfl, bind_eq_ok.2 ⟨_, hchunks.2 ⟨chunks, hforall, rfl⟩, ?_⟩⟩
    rw [hparts, map_append, map_flatten]

end Assembly

end ErgoNode
