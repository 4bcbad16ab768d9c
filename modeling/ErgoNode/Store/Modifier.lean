import ErgoNode.Library.Table
import ErgoNode.Chain.Header

/-!
# The modifier store

The tables of the modifier database and its writes. Headers live in four tables: the bytes by id,
the ids at each height by fork number, the cumulative scores by id, and the best-chain index from
height to id. Block sections live in the bytes table and a height index.
-/

namespace ErgoNode

def headerTypeId : ℕ := 101

/-- A stored score: `none` is the empty byte string of a migrated row, `some s` the big-endian bytes
of `s`. -/
abbrev ScoreBytes := Option ℕ

structure ModifierBatchEntry where
  typeId : ℕ
  id : BlockId
  height : ℕ
  data : Bytes
  /-- Cumulative score, required for headers. -/
  score : Option ScoreBytes
deriving DecidableEq, Repr

structure ModifierStore where
  primary : PairTable Bytes
  heightIndex : PairTable BlockId
  headerForks : PairTable BlockId
  headerScores : Table ScoreBytes
  bestChain : Table BlockId
  /-- The `validated_height` row of the metadata table. -/
  validatedHeight : Option ℕ
  tips : Table (ℕ × BlockId)
  bestHeaderTip : Option (ℕ × BlockId)

inductive StoreError where
  | singleHeaderPutForbidden
  | scoreRequiredForHeader
  | headerNotInPrimary (id : BlockId)
  | headerPruneForbidden
deriving DecidableEq, Repr

namespace ModifierStore

def empty : ModifierStore where
  primary := ∅
  heightIndex := ∅
  headerForks := ∅
  headerScores := ∅
  bestChain := ∅
  validatedHeight := none
  tips := ∅
  bestHeaderTip := none

/-! ## Reads -/

def get (s : ModifierStore) (typeId : ℕ) (id : BlockId) : Option Bytes := s.primary[(typeId, id)]?

def headerScore (s : ModifierStore) (id : BlockId) : Option ScoreBytes := s.headerScores[id]?

def headerIdsAtHeight (s : ModifierStore) (height : ℕ) : List (BlockId × ℕ) :=
  (s.headerForks.toList.filter (fun e => e.1.1 = height)).map (fun e => (e.2, e.1.2))

def bestHeaderAt (s : ModifierStore) (height : ℕ) : Option BlockId := s.bestChain[height]?

def bestChainEntries (s : ModifierStore) : List (ℕ × BlockId) := s.bestChain.toList

/-- The id of a type at a height. Headers are looked up in the best-chain index. -/
def getIdAt (s : ModifierStore) (typeId height : ℕ) : Option BlockId :=
  if typeId = headerTypeId then s.bestHeaderAt height else s.heightIndex[(typeId, height)]?

def tip (s : ModifierStore) (typeId : ℕ) : Option (ℕ × BlockId) :=
  if typeId = headerTypeId then s.bestHeaderTip else s.tips[typeId]?

def readHeaderAt (s : ModifierStore) (height : ℕ) : Option Bytes :=
  (s.bestHeaderAt height).bind (s.get headerTypeId)

/-! ## Writes -/

/-- The table writes of one entry. Height 0 is unknown and leaves the height-indexed tables alone.
-/
def putEntry (s : ModifierStore) (e : ModifierBatchEntry) : ModifierStore :=
  let s := { s with primary := s.primary.insert (e.typeId, e.id) e.data }
  if e.typeId = headerTypeId then
    let s := { s with headerScores := s.headerScores.insert e.id (e.score.getD none) }
    if 0 < e.height then
      { s with
        headerForks := s.headerForks.insert (e.height, 0) e.id
        -- unconditional: a main-chain header owns its height
        bestChain := s.bestChain.insert e.height e.id }
    else s
  else if 0 < e.height then
    { s with heightIndex := s.heightIndex.insert (e.typeId, e.height) e.id }
  else s

/-- The cached tips after a batch: they only move up. -/
def refreshTips (s : ModifierStore) (entries : List ModifierBatchEntry) : ModifierStore :=
  let tips := entries.foldl (fun tips e =>
    if e.typeId ≠ headerTypeId ∧ 0 < e.height ∧ (tips[e.typeId]?).all (fun tip => tip.1 < e.height)
    then tips.insert e.typeId (e.height, e.id) else tips) s.tips
  let newBestTip := entries.foldl (fun (tip : Option (ℕ × BlockId)) e =>
    if e.typeId = headerTypeId ∧ 0 < e.height ∧ tip.all (fun t => t.1 < e.height)
    then some (e.height, e.id) else tip) none
  { s with
    tips := tips
    bestHeaderTip :=
      match newBestTip with
      | some tip => if s.bestHeaderTip.all (fun t => t.1 < tip.1) then some tip else s.bestHeaderTip
      | none => s.bestHeaderTip }

/-- Store a batch of modifiers atomically. A header without a score rejects the batch. -/
def putBatch (s : ModifierStore) (entries : List ModifierBatchEntry) :
    Except StoreError ModifierStore :=
  if entries.any (fun e => e.typeId = headerTypeId ∧ e.score = none) then
    .error .scoreRequiredForHeader
  else .ok ((entries.foldl putEntry s).refreshTips entries)

/-- Store a single section. Headers need a score and go through `putBatch`. -/
def put (s : ModifierStore) (typeId : ℕ) (id : BlockId) (height : ℕ) (data : Bytes) :
    Except StoreError ModifierStore :=
  if typeId = headerTypeId then .error .singleHeaderPutForbidden
  else s.putBatch [{ typeId := typeId, id := id, height := height, data := data, score := none }]

/-- Store a fork header. The index is written only at an empty height, the tip only for number 0. -/
def putHeader (s : ModifierStore) (id : BlockId) (height fork : ℕ) (score : ScoreBytes)
    (data : Bytes) : ModifierStore :=
  { s with
    primary := s.primary.insert (headerTypeId, id) data
    headerForks := s.headerForks.insert (height, fork) id
    headerScores := s.headerScores.insert id score
    bestChain := if s.bestChain[height]? = none then s.bestChain.insert height id else s.bestChain
    bestHeaderTip :=
      if fork = 0 ∧ s.bestHeaderTip.all (fun t => t.1 < height) then some (height, id)
      else s.bestHeaderTip }

/-- Update the scores of stored headers. An id without header bytes rejects the batch. -/
def putHeaderScoreBatch (s : ModifierStore) (entries : List (BlockId × ScoreBytes)) :
    Except StoreError ModifierStore :=
  match entries.find? (fun e => (s.get headerTypeId e.1).isNone) with
  | some e => .error (.headerNotInPrimary e.1)
  | none =>
    .ok { s with
      headerScores := entries.foldl (fun t (e : BlockId × ScoreBytes) => t.insert e.1 e.2)
        s.headerScores }

def putHeaderScore (s : ModifierStore) (id : BlockId) (score : ScoreBytes) :
    Except StoreError ModifierStore :=
  s.putHeaderScoreBatch [(id, score)]

def setValidatedHeight (s : ModifierStore) (height : ℕ) : ModifierStore :=
  { s with validatedHeight := some height }

/-- Delete the sections of the given types that are indexed below a height. Headers are never
pruned. -/
def pruneBelowHeight (s : ModifierStore) (horizon : ℕ) (typeIds : List ℕ) :
    Except StoreError ModifierStore :=
  if headerTypeId ∈ typeIds then .error .headerPruneForbidden
  else
    let toDelete := s.heightIndex.toList.filter (fun e => e.1.1 ∈ typeIds ∧ e.1.2 < horizon)
    .ok { s with
      primary := toDelete.foldl (fun t e => t.erase (e.1.1, e.2)) s.primary
      heightIndex := toDelete.foldl (fun t e => t.erase e.1) s.heightIndex }

/-! ## What the writes do to the header tables -/

lemma bestChain_putHeader (s : ModifierStore) (id : BlockId) (height fork : ℕ)
    (score : ScoreBytes) (data : Bytes) (h : ℕ) :
    (s.putHeader id height fork score data).bestChain[h]? =
      (s.bestChain[h]?).or (if h = height then some id else none) := by
  by_cases hempty : s.bestChain[height]? = none
  · simp only [putHeader, hempty, if_true, getElem?_insert_nat, eq_comm (a := height)]
    by_cases hh : h = height
    · simp [hh, hempty]
    · simp [hh]
  · obtain ⟨old, hold⟩ := Option.ne_none_iff_exists'.1 hempty
    simp only [putHeader, hold, reduceCtorEq, if_false]
    by_cases hh : h = height
    · simp [hh, hold]
    · simp [hh]

lemma headerScores_putHeader (s : ModifierStore) (id : BlockId) (height fork : ℕ)
    (score : ScoreBytes) (data : Bytes) (k : BlockId) :
    (s.putHeader id height fork score data).headerScores[k]? =
      if id = k then some score else s.headerScores[k]? :=
  getElem?_insert_nat _ _ _ _

lemma get_putHeader (s : ModifierStore) (id : BlockId) (height fork : ℕ)
    (score : ScoreBytes) (data : Bytes) (typeId : ℕ) (k : BlockId) :
    (s.putHeader id height fork score data).get typeId k =
      if headerTypeId = typeId ∧ id = k then some data else s.get typeId k := by
  simp only [get, putHeader, getElem?_insert_pair, Prod.mk.injEq]

def bestChainWrite (h : ℕ) (e : ModifierBatchEntry) : Option BlockId :=
  if e.typeId = headerTypeId ∧ 0 < e.height ∧ e.height = h then some e.id else none

def headerScoreWrite (k : BlockId) (e : ModifierBatchEntry) : Option ScoreBytes :=
  if e.typeId = headerTypeId ∧ e.id = k then some (e.score.getD none) else none

def primaryWrite (typeId : ℕ) (k : BlockId) (e : ModifierBatchEntry) : Option Bytes :=
  if e.typeId = typeId ∧ e.id = k then some e.data else none

lemma bestChain_putEntry (h : ℕ) (s : ModifierStore) (e : ModifierBatchEntry) :
    (s.putEntry e).bestChain[h]? = (bestChainWrite h e).or s.bestChain[h]? := by
  unfold putEntry bestChainWrite
  by_cases htype : e.typeId = headerTypeId
  · by_cases hpos : 0 < e.height
    · simp only [htype, hpos, if_true, true_and, getElem?_insert_nat]
      split <;> simp
    · simp [htype, hpos]
  · by_cases hpos : 0 < e.height <;> simp [htype, hpos]

lemma headerScores_putEntry (k : BlockId) (s : ModifierStore) (e : ModifierBatchEntry) :
    (s.putEntry e).headerScores[k]? = (headerScoreWrite k e).or s.headerScores[k]? := by
  unfold putEntry headerScoreWrite
  by_cases htype : e.typeId = headerTypeId
  · by_cases hpos : 0 < e.height <;>
      simp only [htype, hpos, if_true, if_false, true_and, getElem?_insert_nat] <;>
      split <;> simp
  · by_cases hpos : 0 < e.height <;> simp [htype, hpos]

lemma get_putEntry (typeId : ℕ) (k : BlockId) (s : ModifierStore) (e : ModifierBatchEntry) :
    (s.putEntry e).get typeId k = (primaryWrite typeId k e).or (s.get typeId k) := by
  have hprimary : (s.putEntry e).primary = s.primary.insert (e.typeId, e.id) e.data := by
    unfold putEntry
    by_cases htype : e.typeId = headerTypeId <;> by_cases hpos : 0 < e.height <;>
      simp [htype, hpos]
  rw [get, hprimary, getElem?_insert_pair, primaryWrite]
  simp only [Prod.mk.injEq]
  split <;> simp [get]

lemma putBatch_eq_ok {s : ModifierStore} {es : List ModifierBatchEntry}
    (h : ∀ e ∈ es, e.score ≠ none) :
    s.putBatch es = .ok ((es.foldl putEntry s).refreshTips es) := by
  unfold putBatch
  rw [if_neg]
  simp only [List.any_eq_true, decide_eq_true_eq, not_exists, not_and]
  exact fun e he _ => h e he

end ModifierStore

end ErgoNode
