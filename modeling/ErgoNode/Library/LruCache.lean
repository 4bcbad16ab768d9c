import Mathlib.Data.Finset.Card

/-!
# A bounded least-recently-used cache

A map from keys to values that holds at most `cap` entries, most recently used first. A consumer
that never reads in place uses `push`, which hands back the entry it displaces, `pop`, and the bulk
removal `filterEntries`; one that does uses `get`, which makes the entry the most recent one, `put`
and `resize`.
-/

namespace ErgoNode

open List

/-- A least-recently-used cache of at most `cap` entries. -/
structure LruCache (K V : Type*) where
  cap : ℕ
  /-- The entries, most recently written first. -/
  entries : List (K × V)
  cap_pos : 0 < cap
  nodup_keys : (entries.map Prod.fst).Nodup
  length_le : entries.length ≤ cap

namespace LruCache

variable {K V : Type*}
variable {c : LruCache K V} {k k' : K} {v : V}

def empty (cap : ℕ) (h : 0 < cap) : LruCache K V where
  cap := cap
  entries := []
  cap_pos := h
  nodup_keys := by simp
  length_le := by simp

def filterEntries (c : LruCache K V) (p : K × V → Bool) : LruCache K V where
  cap := c.cap
  entries := c.entries.filter p
  cap_pos := c.cap_pos
  nodup_keys := c.nodup_keys.sublist (List.filter_sublist.map Prod.fst)
  length_le := Nat.le_trans (List.length_filter_le _ _) c.length_le

@[simp]
lemma entries_empty (cap : ℕ) (h : 0 < cap) : (empty cap h : LruCache K V).entries = [] := rfl

@[simp]
lemma mem_filterEntries {p : K × V → Bool} {e : K × V} :
    e ∈ (c.filterEntries p).entries ↔ e ∈ c.entries ∧ p e = true := by
  simp [filterEntries]

variable [DecidableEq K] {T : Finset K}

/-- The value stored under a key, without touching the recency order. -/
def peek (c : LruCache K V) (k : K) : Option V :=
  (c.entries.find? (fun e => e.1 = k)).map Prod.snd

def remove (c : LruCache K V) (k : K) : LruCache K V :=
  c.filterEntries (fun e => decide (e.1 ≠ k))

def pop (c : LruCache K V) (k : K) : Option (V × LruCache K V) :=
  (c.peek k).map (fun v => (v, c.remove k))

lemma not_mem_keys_remove (c : LruCache K V) (k : K) :
    k ∉ (c.remove k).entries.map Prod.fst := by
  simp [remove]

lemma length_remove_lt (h : (k, v) ∈ c.entries) :
    (c.remove k).entries.length < c.entries.length := by
  refine length_filter_lt_length_iff_exists.2 ⟨(k, v), h, by simp⟩

lemma peek_eq_some_iff :
    c.peek k = some v ↔ (k, v) ∈ c.entries := by
  constructor
  · intro h
    obtain ⟨⟨k', v'⟩, hfind, rfl⟩ := Option.map_eq_some_iff.1 h
    have hk : k' = k := by simpa using find?_some hfind
    exact hk ▸ mem_of_find?_eq_some hfind
  · intro h
    cases hfind : c.entries.find? (fun e => e.1 = k) with
    | none => simpa using find?_eq_none.1 hfind _ h
    | some e =>
      have hk : e.1 = k := by simpa using find?_some hfind
      -- distinct keys make the entry found the one asked about
      have heq := inj_on_of_nodup_map c.nodup_keys (mem_of_find?_eq_some hfind) h hk
      simp [peek, hfind, heq]

lemma pop_eq_some_iff {c' : LruCache K V} :
    c.pop k = some (v, c') ↔ (k, v) ∈ c.entries ∧ c' = c.remove k := by
  rw [← peek_eq_some_iff]
  constructor
  · intro h
    obtain ⟨v', hv', heq⟩ := Option.map_eq_some_iff.1 h
    cases heq
    exact ⟨hv', rfl⟩
  · rintro ⟨hv, rfl⟩
    simp [pop, hv]

lemma pop_eq_none_iff :
    c.pop k = none ↔ ∀ v, (k, v) ∉ c.entries := by
  rw [pop, Option.map_eq_none_iff, Option.eq_none_iff_forall_ne_some]
  simp only [ne_eq, peek_eq_some_iff]

/-- Write `v` under `k`, as the most recent entry. The second component is the entry displaced. -/
def push (c : LruCache K V) (k : K) (v : V) : LruCache K V × Option (K × V) :=
  match hpeek : c.peek k with
  | some old =>
    ({ cap := c.cap
       entries := (k, v) :: (c.remove k).entries
       cap_pos := c.cap_pos
       nodup_keys := List.nodup_cons.2 ⟨not_mem_keys_remove c k, (c.remove k).nodup_keys⟩
       length_le := Nat.lt_of_lt_of_le (length_remove_lt (peek_eq_some_iff.1 hpeek)) c.length_le },
      some (k, old))
  | none =>
    have hfresh : k ∉ c.entries.map Prod.fst := by
      intro hmem
      obtain ⟨⟨k', v'⟩, he, rfl⟩ := List.mem_map.1 hmem
      simp [peek_eq_some_iff.2 he] at hpeek
    if hfull : c.entries.length < c.cap then
      ({ cap := c.cap
         entries := (k, v) :: c.entries
         cap_pos := c.cap_pos
         nodup_keys := List.nodup_cons.2 ⟨hfresh, c.nodup_keys⟩
         length_le := hfull },
        none)
    else
      ({ cap := c.cap
         entries := (k, v) :: c.entries.dropLast
         cap_pos := c.cap_pos
         nodup_keys := List.nodup_cons.2
           ⟨fun hmem => hfresh ((c.entries.dropLast_sublist.map Prod.fst).subset hmem),
             c.nodup_keys.sublist (c.entries.dropLast_sublist.map Prod.fst)⟩
         length_le := by
           have := c.length_le
           have := c.cap_pos
           simp only [List.length_cons, List.length_dropLast]
           omega },
        c.entries.getLast?)

lemma mem_push {e : K × V} (h : e ∈ (c.push k v).1.entries) : e = (k, v) ∨ e ∈ c.entries := by
  unfold push at h
  split at h
  · rcases mem_cons.1 h with rfl | h
    · exact Or.inl rfl
    · exact Or.inr (mem_filterEntries.1 h).1
  · dsimp only at h
    split at h
    · exact mem_cons.1 h
    · rcases mem_cons.1 h with rfl | h
      · exact Or.inl rfl
      · exact Or.inr (c.entries.dropLast_subset h)

/-! ## Reading in place -/

def put (c : LruCache K V) (k : K) (v : V) : LruCache K V := (c.push k v).1

/-- Change the capacity. The least recent entries that do not fit are dropped. -/
def resize (c : LruCache K V) (cap : ℕ) (h : 0 < cap) : LruCache K V where
  cap := cap
  entries := c.entries.take cap
  cap_pos := h
  nodup_keys := c.nodup_keys.sublist ((List.take_sublist _ _).map Prod.fst)
  length_le := List.length_take_le _ _

def clear (c : LruCache K V) : LruCache K V := empty c.cap c.cap_pos

@[simp]
lemma cap_put (c : LruCache K V) (k : K) (v : V) : (c.put k v).cap = c.cap := by
  unfold put push
  split
  · rfl
  · dsimp only
    split <;> rfl

lemma entries_remove (c : LruCache K V) (k : K) :
    (c.remove k).entries = c.entries.filter (fun e => decide (e.1 ≠ k)) := rfl

lemma remove_eq_self (h : c.peek k = none) :
    (c.remove k).entries = c.entries := by
  apply filter_eq_self.2
  intro e he
  have hne : e.1 ≠ k := by
    rintro rfl
    have hpeek : c.peek e.1 = some e.2 := peek_eq_some_iff.2 he
    cases h.symm.trans hpeek
  simpa using hne

lemma entries_put (c : LruCache K V) (k : K) (v : V) :
    (c.put k v).entries = ((k, v) :: (c.remove k).entries).take c.cap := by
  unfold put push
  split
  next old hpeek =>
    have hlength := length_remove_lt (peek_eq_some_iff.1 hpeek)
    have hle := c.length_le
    exact (take_of_length_le (by rw [length_cons]; omega)).symm
  next hpeek =>
    rw [remove_eq_self hpeek]
    split
    next hroom =>
      exact (take_of_length_le (by rw [length_cons]; omega)).symm
    next hfull =>
      -- a full cache has exactly `cap` entries
      have hle := c.length_le
      have hpos := c.cap_pos
      have hcap : c.cap = c.entries.length - 1 + 1 := by omega
      show (k, v) :: c.entries.dropLast = _
      rw [hcap, take_succ_cons, dropLast_eq_take]

lemma peek_eq_none_iff :
    c.peek k = none ↔ ∀ v, (k, v) ∉ c.entries := by
  rw [Option.eq_none_iff_forall_ne_some]
  simp only [ne_eq, peek_eq_some_iff]

lemma isSome_peek_iff :
    (c.peek k).isSome ↔ k ∈ c.entries.map Prod.fst := by
  rw [Option.isSome_iff_exists, mem_map]
  constructor
  · rintro ⟨v, hv⟩
    exact ⟨(k, v), peek_eq_some_iff.1 hv, rfl⟩
  · rintro ⟨⟨_, v⟩, he, rfl⟩
    exact ⟨v, peek_eq_some_iff.2 he⟩

lemma peek_remove_self (c : LruCache K V) (k : K) : (c.remove k).peek k = none := by
  rw [peek_eq_none_iff]
  intro v hv
  exact not_mem_keys_remove c k (mem_map.2 ⟨(k, v), hv, rfl⟩)

lemma peek_remove_of_ne (c : LruCache K V) (h : k' ≠ k) :
    (c.remove k).peek k' = c.peek k' := by
  ext v
  rw [peek_eq_some_iff, peek_eq_some_iff, remove, mem_filterEntries]
  simp [h]

lemma peek_put_self (c : LruCache K V) (k : K) (v : V) : (c.put k v).peek k = some v := by
  have hpos : c.cap = c.cap - 1 + 1 := by have := c.cap_pos; omega
  rw [peek_eq_some_iff, entries_put, hpos, take_succ_cons]
  exact mem_cons_self

lemma peek_of_peek_put {v' : V} (hne : k' ≠ k) (h : (c.put k v).peek k' = some v') :
    c.peek k' = some v' := by
  rw [peek_eq_some_iff, entries_put] at h
  rcases mem_cons.1 (mem_of_mem_take h) with heq | hmem
  · exact absurd (Prod.mk.inj heq).1 hne
  · rw [← peek_remove_of_ne c hne]
    exact peek_eq_some_iff.2 hmem

lemma peek_put_of_fits {R : Finset K} (hkeys : ∀ k, (c.peek k).isSome → k ∈ R)
    (hfits : R.card ≤ c.cap) (hk : k ∈ R) (v : V) (hne : k' ≠ k) :
    (c.put k v).peek k' = c.peek k' := by
  have hnodup : (k :: (c.remove k).entries.map Prod.fst).Nodup :=
    nodup_cons.2 ⟨not_mem_keys_remove c k, (c.remove k).nodup_keys⟩
  have hsubset : (k :: (c.remove k).entries.map Prod.fst).toFinset ⊆ R := by
    intro x hx
    rcases mem_cons.1 (mem_toFinset.1 hx) with rfl | hx
    · exact hk
    · apply hkeys
      obtain ⟨e, he, rfl⟩ := mem_map.1 hx
      exact isSome_peek_iff.2 (mem_map.2 ⟨e, (mem_filterEntries.1 he).1, rfl⟩)
  have hlength : ((k, v) :: (c.remove k).entries).length ≤ c.cap := by
    have hcard := Finset.card_le_card hsubset
    rw [toFinset_card_of_nodup hnodup, length_cons, length_map] at hcard
    exact Nat.le_trans hcard hfits
  ext v'
  rw [← peek_remove_of_ne c hne, peek_eq_some_iff, peek_eq_some_iff, entries_put,
    take_of_length_le hlength, mem_cons]
  simp [hne]

lemma peek_of_peek_resize {cap : ℕ} {h : 0 < cap} (hpeek : (c.resize cap h).peek k = some v) :
    c.peek k = some v := by
  rw [peek_eq_some_iff] at hpeek ⊢
  exact mem_of_mem_take hpeek

/-! ## Recency -/

/-- The keys in `T` are in the cache and were used after all the others. -/
def Recent (c : LruCache K V) (T : Finset K) : Prop :=
  ∃ recent older, c.entries = recent ++ older ∧ (recent.map Prod.fst).toFinset = T

lemma recent_empty (c : LruCache K V) : c.Recent ∅ := ⟨[], c.entries, rfl, rfl⟩

lemma Recent.isSome_peek (h : c.Recent T) (hk : k ∈ T) : (c.peek k).isSome := by
  obtain ⟨recent, older, hentries, rfl⟩ := h
  rw [isSome_peek_iff, hentries, map_append]
  exact mem_append_left _ (mem_toFinset.1 hk)

lemma Recent.remove (h : c.Recent T) (hk : k ∉ T) :
    (c.remove k).Recent T := by
  obtain ⟨recent, older, hentries, rfl⟩ := h
  refine ⟨recent, older.filter (fun e => decide (e.1 ≠ k)), ?_, rfl⟩
  have hkept : recent.filter (fun e => decide (e.1 ≠ k)) = recent := by
    apply filter_eq_self.2
    intro e he
    have hne : e.1 ≠ k := by
      rintro rfl
      exact hk (mem_toFinset.2 (mem_map.2 ⟨e, he, rfl⟩))
    simpa using hne
  rw [entries_remove, hentries, filter_append, hkept]

lemma Recent.put (h : c.Recent T) (v : V) (hfits : (insert k T).card ≤ c.cap) :
    (c.put k v).Recent (insert k T) := by
  obtain ⟨recent, older, hentries, rfl⟩ := h
  have hremove : (c.remove k).entries = recent.filter (fun e => decide (e.1 ≠ k)) ++
      older.filter (fun e => decide (e.1 ≠ k)) := by
    rw [entries_remove, hentries, filter_append]
  have hkeys : (((k, v) :: recent.filter (fun e => decide (e.1 ≠ k))).map Prod.fst).toFinset =
      insert k (recent.map Prod.fst).toFinset := by
    ext x
    simp only [map_cons, toFinset_cons, Finset.mem_insert, mem_toFinset,
      mem_map, mem_filter, decide_eq_true_eq]
    by_cases hx : x = k
    · simp [hx]
    · simp only [hx, false_or]
      constructor
      · rintro ⟨e, ⟨he, -⟩, rfl⟩
        exact ⟨e, he, rfl⟩
      · rintro ⟨e, he, rfl⟩
        exact ⟨e, ⟨he, hx⟩, rfl⟩
  -- the new front has as many entries as the set has keys
  have hnodup : (((k, v) :: recent.filter (fun e => decide (e.1 ≠ k))).map Prod.fst).Nodup := by
    have hall : ((k, v) :: (c.remove k).entries |>.map Prod.fst).Nodup :=
      nodup_cons.2 ⟨not_mem_keys_remove c k, (c.remove k).nodup_keys⟩
    rw [hremove] at hall
    refine hall.sublist (Sublist.map _ ?_)
    exact (sublist_append_left _ _).cons_cons _
  have hlength : ((k, v) :: recent.filter (fun e => decide (e.1 ≠ k))).length ≤ c.cap := by
    rwa [← length_map (f := Prod.fst), ← toFinset_card_of_nodup hnodup, hkeys]
  have hsplit := entries_put c k v
  rw [hremove, ← cons_append, take_append, take_of_length_le hlength] at hsplit
  exact ⟨_, _, hsplit, hkeys⟩

end LruCache

end ErgoNode
