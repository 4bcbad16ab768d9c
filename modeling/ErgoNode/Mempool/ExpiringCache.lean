import ErgoNode.Mempool.Process

/-!
# The two containers of the expiring cache

The source keeps the ids found invalid in a map of insertion times and a queue of keys. On tables
that agree, its operations are those of the one list the mempool uses. An insert of a stored key
changes nothing, also when the entry has expired: the key is then forgotten although it was just
inserted.
-/

namespace ErgoNode

open List

namespace ExpiringCache

/-- The cache as it is stored. The map is the list of its rows. -/
structure Tables (K : Type) where
  entries : List (K × ℕ)
  insertionOrder : List K
  ttl : ℕ
  capacity : ℕ

/-- The calls that change the cache. -/
inductive Op (K : Type) where
  | insert (key : K)
  | prune
  | clear
  deriving DecidableEq

namespace Tables

variable {K : Type} [DecidableEq K]

def new (ttl capacity : ℕ) : Tables K := ⟨[], [], ttl, capacity⟩

/-- The loop of `insert` that makes room, along the queue. -/
def evict (capacity : ℕ) : List K → List (K × ℕ) → List K × List (K × ℕ)
  | [], entries => ([], entries)
  | oldest :: order, entries =>
    if capacity ≤ entries.length then evict capacity order (entries.filter (·.1 ≠ oldest))
    else (oldest :: order, entries)

def insert (c : Tables K) (key : K) (now : ℕ) : Tables K :=
  if key ∈ c.entries.map Prod.fst then c
  else
    let (order, entries) := evict c.capacity c.insertionOrder c.entries
    { c with entries := entries ++ [(key, now)], insertionOrder := order ++ [key] }

def contains (c : Tables K) (key : K) (now : ℕ) : Bool :=
  match c.entries.lookup key with
  | some inserted => now - inserted < c.ttl
  | none => false

def prune (c : Tables K) (now : ℕ) : Tables K :=
  let entries := c.entries.filter (fun entry => now - entry.2 < c.ttl)
  { c with
    entries := entries
    insertionOrder := c.insertionOrder.filter (· ∈ entries.map Prod.fst) }

def clear (c : Tables K) : Tables K := { c with entries := [], insertionOrder := [] }

/-- One call, with the time at which it is made. -/
def step (c : Tables K) : Op K × ℕ → Tables K
  | (.insert key, now) => c.insert key now
  | (.prune, now) => c.prune now
  | (.clear, _) => c.clear

def run (c : Tables K) (ops : List (Op K × ℕ)) : Tables K := ops.foldl step c

/-! ## The containers agree -/

structure Coherent (ttl capacity : ℕ) (c : Tables K) : Prop where
  config : c.ttl = ttl ∧ c.capacity = capacity
  positive : 1 ≤ capacity
  keys : c.entries.map Prod.fst = c.insertionOrder
  nodup : (c.entries.map Prod.fst).Nodup
  bounded : c.entries.length ≤ capacity

variable {ttl capacity now t n : ℕ} {c : Tables K} {key k : K}

/-- Making room drops the oldest entries. -/
theorem evict_eq (capacity : ℕ) {entries : List (K × ℕ)} (h : (entries.map Prod.fst).Nodup) :
    evict capacity (entries.map Prod.fst) entries =
      ((entries.drop (entries.length - (capacity - 1))).map Prod.fst,
        entries.drop (entries.length - (capacity - 1))) := by
  induction entries with
  | nil => simp [evict]
  | cons entry entries ih =>
    obtain ⟨hoff, h⟩ := nodup_cons.mp h
    have hfilter : (entry :: entries).filter (·.1 ≠ entry.1) = entries := by
      rw [filter_cons_of_neg (by simp), filter_eq_self]
      intro e he
      exact decide_eq_true (fun heq => hoff (heq ▸ mem_map_of_mem he))
    rw [map_cons, evict, hfilter, ih h, length_cons]
    split
    next hfull =>
      rw [show entries.length + 1 - (capacity - 1) = entries.length - (capacity - 1) + 1 by omega,
        drop_succ_cons]
    next hroom =>
      rw [show entries.length + 1 - (capacity - 1) = 0 by omega]
      rfl

lemma Coherent.insert_eq (h : Coherent ttl capacity c) (hnew : key ∉ c.entries.map Prod.fst) :
    c.insert key now =
      let entries := c.entries.drop (c.entries.length - (capacity - 1)) ++ [(key, now)]
      { c with entries := entries, insertionOrder := entries.map Prod.fst } := by
  rw [insert, if_neg hnew, ← h.keys, evict_eq _ h.nodup, h.config.2]
  simp

lemma insert_of_mem (hmem : (key, t) ∈ c.entries) : c.insert key now = c :=
  if_pos (mem_map_of_mem hmem)

lemma Coherent.insert (h : Coherent ttl capacity c) :
    Coherent ttl capacity (c.insert key now) := by
  by_cases hnew : key ∈ c.entries.map Prod.fst
  · rwa [Tables.insert, if_pos hnew]
  · rw [h.insert_eq hnew]
    refine ⟨h.config, h.positive, rfl, ?_, ?_⟩
    · rw [map_append, map_drop]
      refine (h.nodup.sublist (drop_sublist ..)).append (nodup_singleton _) ?_
      rw [map_singleton, disjoint_singleton]
      exact fun hmem => hnew (mem_of_mem_drop hmem)
    · have := h.positive
      rw [length_append, length_drop, length_singleton]
      omega

lemma Coherent.prune (h : Coherent ttl capacity c) : Coherent ttl capacity (c.prune now) where
  config := h.config
  positive := h.positive
  keys := by
    show _ = filter _ c.insertionOrder
    rw [← h.keys, filter_map]
    refine congrArg _ (filter_congr fun e he => (decide_eq_decide.mpr ?_).symm)
    -- a key has one row, so its row is the one that was retained
    constructor
    · intro hmem
      obtain ⟨e', he', heq⟩ := mem_map.mp hmem
      obtain ⟨he', hlive⟩ := mem_filter.mp he'
      rw [inj_on_of_nodup_map h.nodup he' he heq] at hlive
      exact of_decide_eq_true hlive
    · intro hlive
      exact mem_map_of_mem (mem_filter.mpr ⟨he, decide_eq_true hlive⟩)
  nodup := h.nodup.sublist (filter_sublist.map _)
  bounded := (length_filter_le ..).trans h.bounded

lemma Coherent.step (h : Coherent ttl capacity c) (op : Op K × ℕ) :
    Coherent ttl capacity (c.step op) := by
  obtain ⟨_ | _ | _, now⟩ := op
  · exact h.insert
  · exact h.prune
  · exact ⟨h.config, h.positive, rfl, .nil, Nat.zero_le _⟩

lemma Coherent.run (h : Coherent ttl capacity c) (ops : List (Op K × ℕ)) :
    Coherent ttl capacity (c.run ops) :=
  foldlRecOn ops Tables.step h (fun _ h op _ => h.step op)

lemma Coherent.contains_of_mem (h : Coherent ttl capacity c) (hmem : (k, t) ∈ c.entries) :
    c.contains k now = decide (now - t < ttl) := by
  obtain ⟨older, newer, hentries⟩ := append_of_mem hmem
  have hnodup := h.nodup
  rw [hentries, map_append, nodup_append] at hnodup
  have hlookup : c.entries.lookup k = some t := by
    refine lookup_eq_some_iff.mpr ⟨older, newer, hentries, fun e he => bne_iff_ne.mpr ?_⟩
    exact (hnodup.2.2 _ (mem_map_of_mem he) k mem_cons_self).symm
  rw [contains, hlookup, h.config.1]

/-! ## The list of the mempool -/

/-- What the mempool's model has of the tables. -/
def toCache (c : Tables TxId) : ExpiringCache := ⟨c.entries, c.ttl, c.capacity⟩

lemma Coherent.toCache_insert {c : Tables TxId} (h : Coherent ttl capacity c) (key : TxId) :
    (c.insert key now).toCache = c.toCache.insert key now := by
  by_cases hnew : key ∈ c.entries.map Prod.fst
  · rw [Tables.insert, if_pos hnew]
    exact (if_pos hnew).symm
  · rw [h.insert_eq hnew, ← h.config.2]
    exact (if_neg hnew).symm

lemma Coherent.toCache_contains {c : Tables TxId} (h : Coherent ttl capacity c) (key : TxId) :
    c.contains key now = c.toCache.contains key now := by
  rw [Bool.eq_iff_iff, ExpiringCache.contains, any_eq_true]
  constructor
  · intro hcontains
    unfold Tables.contains at hcontains
    split at hcontains
    next inserted hget =>
      obtain ⟨older, newer, hentries, -⟩ := lookup_eq_some_iff.mp hget
      refine ⟨(key, inserted), ?_, decide_eq_true ⟨rfl, of_decide_eq_true hcontains⟩⟩
      rw [toCache, hentries]
      exact mem_append_right older mem_cons_self
    next => cases hcontains
  · rintro ⟨⟨_, inserted⟩, hmem, hlive⟩
    obtain ⟨rfl, hin⟩ := of_decide_eq_true hlive
    rw [h.contains_of_mem hmem, ← h.config.1]
    exact decide_eq_true hin

/-- The same call on the list. -/
def listStep (cache : ExpiringCache) : Op TxId × ℕ → ExpiringCache
  | (.insert key, now) => cache.insert key now
  | (.prune, now) => cache.prune now
  | (.clear, _) => { cache with entries := [] }

lemma Coherent.toCache_run {c : Tables TxId} (h : Coherent ttl capacity c)
    (ops : List (Op TxId × ℕ)) : (c.run ops).toCache = ops.foldl listStep c.toCache := by
  induction ops generalizing c with
  | nil => rfl
  | cons op ops ih =>
    refine (ih (h.step op)).trans (congrArg (foldl listStep · ops) ?_)
    obtain ⟨key | _ | _, now⟩ := op
    · exact h.toCache_insert key
    · rfl
    · rfl

/-- **Refinement**: after any calls the two containers answer as the one list does. -/
theorem contains_run_eq (ttl : ℕ) (hcapacity : 1 ≤ capacity) (ops : List (Op TxId × ℕ))
    (key : TxId) (now : ℕ) : (run (new ttl capacity) ops).contains key now =
      (ops.foldl listStep ⟨[], ttl, capacity⟩).contains key now := by
  have hnew : Coherent ttl capacity (new ttl capacity : Tables TxId) :=
    ⟨⟨rfl, rfl⟩, hcapacity, rfl, nodup_nil, Nat.zero_le _⟩
  rw [(hnew.run ops).toCache_contains, hnew.toCache_run]
  rfl

theorem contains_run_eq_one : ([(.insert 5, 0)].foldl listStep ⟨[], 2, 1⟩).contains 5 1 := by
  rw [← contains_run_eq 2 (by decide)]
  decide

/-! ## How long a key is kept -/

/-- The key is stored with time `t`, and at most `n` entries are newer. -/
def StoredSince (c : Tables K) (k : K) (t n : ℕ) : Prop :=
  ∃ older newer, c.entries = older ++ (k, t) :: newer ∧ newer.length ≤ n

def insertsOther (k : K) (op : Op K × ℕ) : Bool :=
  match op.1 with
  | .insert key => key ≠ k
  | _ => false

omit [DecidableEq K] in
lemma StoredSince.mem (h : StoredSince c k t n) : (k, t) ∈ c.entries := by
  obtain ⟨older, newer, hentries, -⟩ := h
  simp [hentries]

lemma StoredSince.insert (hc : Coherent ttl capacity c) (h : StoredSince c k t n)
    (hn : n + 1 < capacity) : StoredSince (c.insert key now) k t (n + 1) := by
  obtain ⟨older, newer, hentries, hnewer⟩ := h
  by_cases hnew : key ∈ c.entries.map Prod.fst
  · rw [Tables.insert, if_pos hnew]
    exact ⟨older, newer, hentries, by omega⟩
  · have hlength := congrArg length hentries
    have hbounded := hc.bounded
    rw [length_append, length_cons] at hlength
    have hdrop : c.entries.length - (capacity - 1) ≤ older.length := by omega
    rw [hc.insert_eq hnew]
    refine ⟨older.drop (c.entries.length - (capacity - 1)), newer ++ [(key, now)], ?_, ?_⟩
    · rw [hentries, drop_append_of_le_length (hentries ▸ hdrop), append_assoc]
      rfl
    · rw [length_append]
      exact Nat.succ_le_succ hnewer

lemma StoredSince.prune (h : StoredSince c k t n) (hlive : now - t < c.ttl) :
    StoredSince (c.prune now) k t n := by
  obtain ⟨older, newer, hentries, hnewer⟩ := h
  refine ⟨older.filter (fun e => now - e.2 < c.ttl), newer.filter (fun e => now - e.2 < c.ttl), ?_,
    (length_filter_le ..).trans hnewer⟩
  rw [Tables.prune, hentries]
  simp [hlive]

/-- The key stays while no clear comes, no prune finds it expired and fewer than `capacity` other
keys are inserted. -/
theorem StoredSince.run {later : List (Op K × ℕ)} (hc : Coherent ttl capacity c)
    (h : StoredSince c k t n) (hclear : ∀ op ∈ later, op.1 ≠ .clear)
    (hlive : ∀ op ∈ later, op.2 - t < ttl) (hn : n + later.countP (insertsOther k) < capacity) :
    StoredSince (c.run later) k t (n + later.countP (insertsOther k)) := by
  induction later generalizing c n with
  | nil => exact h
  | cons op later ih =>
    rw [forall_mem_cons] at hclear hlive
    rw [countP_cons] at hn ⊢
    have hrest {m : ℕ} (hm : m + later.countP (insertsOther k) < capacity)
        (hstep : StoredSince (c.step op) k t m) := ih (hc.step op) hstep hclear.2 hlive.2 hm
    obtain ⟨key | _ | _, now⟩ := op
    · by_cases hkey : key = k
      · subst hkey
        simp only [insertsOther, ne_eq, not_true_eq_false, decide_false] at hn ⊢
        exact hrest hn (by rwa [Tables.step, insert_of_mem h.mem])
      · simp [insertsOther, hkey] at hn ⊢
        rw [← Nat.add_assoc, Nat.add_right_comm] at hn ⊢
        exact hrest hn (h.insert hc (by omega))
    · exact hrest hn (h.prune (hc.config.1 ▸ hlive.1))
    · exact absurd rfl hclear.1

/-- What an insert of `k` at `t` promises: `k` is found at every time before `t + ttl`, if no clear
and fewer than `capacity` inserts of other keys came in between. -/
def Lasting (c : Tables K) (k : K) (t : ℕ) : Prop :=
  ∀ later now, (t :: later.map Prod.snd ++ [now]).Pairwise (· ≤ ·) →
    (∀ op ∈ later, op.1 ≠ .clear) → later.countP (insertsOther k) < c.capacity →
    now < t + c.ttl → (c.run later).contains k now

lemma StoredSince.lasting (hc : Coherent ttl capacity c) (h : StoredSince c k t 0) :
    Lasting c k t := by
  intro later now hclock hclear hothers hnow
  rw [hc.config.2, ← Nat.zero_add (countP _ _)] at hothers
  rw [hc.config.1] at hnow
  rw [cons_append, pairwise_cons, pairwise_append] at hclock
  obtain ⟨hfrom, -, -, hupto⟩ := hclock
  have hlive : ∀ op ∈ later, op.2 - t < ttl := by
    intro op hop
    have hmem := mem_map_of_mem (f := Prod.snd) hop
    have := hfrom _ (mem_append_left _ hmem)
    have := hupto _ hmem now mem_cons_self
    omega
  have := hfrom now (by simp)
  rw [(hc.run later).contains_of_mem (h.run hc hclear hlive hothers).mem]
  exact decide_eq_true (by omega)

/-- A key that is not stored gets the time of the insert and the last place. -/
theorem Coherent.lasting_insert (hc : Coherent ttl capacity c) (hnew : k ∉ c.insertionOrder) :
    Lasting (c.insert k t) k t := by
  rw [← hc.keys] at hnew
  refine StoredSince.lasting hc.insert ?_
  rw [hc.insert_eq hnew]
  exact ⟨_, [], rfl, Nat.le_refl 0⟩

lemma Coherent.not_lasting (hc : Coherent ttl capacity c) {inserted : ℕ}
    (hmem : (k, inserted) ∈ c.entries) (hlt : inserted < t) (httl : 0 < ttl) :
    ¬ Lasting (c.insert k t) k t := by
  rw [insert_of_mem hmem]
  intro h
  have hcontains := h [] (max t (inserted + ttl)) (by simp) nofun (hc.config.2 ▸ hc.positive)
    (by rw [hc.config.1]; omega)
  rw [Tables.run, foldl_nil, hc.contains_of_mem hmem, decide_eq_true_eq] at hcontains
  omega

/-- An insert keeps its promise if the key is not stored, and does not if it was stored earlier: the
entry keeps its time. -/
theorem run_lasting (ttl capacity : ℕ) (hcapacity : 1 ≤ capacity) (ops : List (Op K × ℕ)) :
    let c : Tables K := run (new ttl capacity) ops
    (∀ k, k ∈ c.entries.map Prod.fst ↔ k ∈ c.insertionOrder) ∧ (c.entries.map Prod.fst).Nodup ∧
    c.insertionOrder.Nodup ∧ c.entries.length ≤ capacity ∧
    (∀ k t, k ∉ c.insertionOrder → Lasting (c.insert k t) k t) ∧
    ∀ k t inserted, (k, inserted) ∈ c.entries → inserted < t → 0 < ttl →
      ¬ Lasting (c.insert k t) k t := by
  intro c
  have hnew : Coherent ttl capacity (new ttl capacity : Tables K) :=
    ⟨⟨rfl, rfl⟩, hcapacity, rfl, nodup_nil, Nat.zero_le _⟩
  have hc := hnew.run ops
  exact ⟨fun k => by rw [hc.keys], hc.nodup, hc.keys ▸ hc.nodup, hc.bounded,
    fun k t => hc.lasting_insert, fun k t inserted => hc.not_lasting⟩

theorem run_lasting_one : (run (new 2 1) [(.insert 5, 0), (.prune, 1)]).entries = [(5, 0)] ∧
    Lasting ((run (new 2 1) [(.insert 5, 0), (.prune, 1)]).insert 6 1) 6 1 :=
  ⟨by decide, (run_lasting 2 1 (by decide) _).2.2.2.2.1 6 1 (by decide)⟩

/-- An id found invalid again after its entry expired, and before a block pruned it, is not
remembered at all. -/
theorem insert_expired_forgotten :
    ((run (new 1800000 10000) [(.insert 5, 0)]).insert 5 1800000).contains 5 1800000 = false ∧
    ¬ Lasting ((run (new 1800000 10000) [(.insert 5, 0)]).insert 5 1800000) 5 1800000 := by
  refine ⟨by decide, fun h => ?_⟩
  have hcontains := h [] 1800000 (by decide) nofun (by decide) (by decide)
  exact absurd hcontains (by decide)

end Tables

end ExpiringCache

end ErgoNode
