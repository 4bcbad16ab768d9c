import Mathlib.Tactic

/-!
# Ordered key-value tables

Tables of an embedded database: finite maps whose iteration is in ascending key order. A table
keyed by numbers is a `Table`, one keyed by pairs of numbers a `PairTable`.
-/

namespace ErgoNode

open List Std.ExtTreeMap

abbrev comparePair : ℕ × ℕ → ℕ × ℕ → Ordering :=
  compareLex (compareOn Prod.fst) (compareOn Prod.snd)

instance : Std.TransCmp comparePair :=
  inferInstanceAs (Std.TransCmp (compareLex (compareOn Prod.fst) (compareOn Prod.snd)))

instance : Std.LawfulEqCmp comparePair where
  eq_of_compare {a b} h := by
    obtain ⟨h₁, h₂⟩ := Ordering.then_eq_eq.1 h
    exact Prod.ext (Std.LawfulEqCmp.eq_of_compare h₁) (Std.LawfulEqCmp.eq_of_compare h₂)

abbrev Table (V : Type*) := Std.ExtTreeMap ℕ V

abbrev PairTable (V : Type*) := Std.ExtTreeMap (ℕ × ℕ) V comparePair

variable {V : Type*} {base : ℕ} {xs : List V} {k : ℕ} {v : V} {values : List V}

lemma getElem?_insert_nat (t : Table V) (k a : ℕ) (v : V) :
    (t.insert k v)[a]? = if k = a then some v else t[a]? := by
  rw [Std.ExtTreeMap.getElem?_insert]
  simp only [Nat.compare_eq_eq]

lemma getElem?_insert_pair (t : PairTable V) (k a : ℕ × ℕ) (v : V) :
    (t.insert k v)[a]? = if k = a then some v else t[a]? := by
  rw [Std.ExtTreeMap.getElem?_insert]
  simp only [Std.LawfulEqCmp.compare_eq_iff_eq]

lemma pairwise_toList (t : Table V) : t.toList.Pairwise (fun a b => a.1 < b.1) := by
  have h := ordered_keys_toList (t := t)
  exact h.imp (fun {a b} hab => Nat.compare_eq_lt.1 hab)

lemma toList_eq_of_forall_getElem? {t : Table V} {rows : List (ℕ × V)}
    (hsorted : rows.Pairwise (fun a b => a.1 < b.1))
    (hrows : ∀ k v, t[k]? = some v ↔ (k, v) ∈ rows) : t.toList = rows := by
  have hmem : ∀ e, e ∈ t.toList ↔ e ∈ rows := by
    rintro ⟨k, v⟩
    rw [mem_toList_iff_getElem?_eq_some, hrows]
  have hnodup : ∀ {l : List (ℕ × V)}, l.Pairwise (fun a b => a.1 < b.1) → l.Nodup :=
    fun h => h.imp (fun {a b} hab heq => absurd hab (by simp [heq]))
  have hperm := (perm_ext_iff_of_nodup (hnodup (pairwise_toList t)) (hnodup hsorted)).2 hmem
  exact hperm.eq_of_pairwise (fun a b _ _ hab hba => absurd hab (by omega))
    (pairwise_toList t) hsorted

/-! ## Sequences of writes -/

section Fold

variable {S E : Type*} {f : S → E → S} {r : S → Option V} {w : E → Option V}

lemma read_foldl_of_none (hstep : ∀ s e, r (f s e) = (w e).or (r s))
    (es : List E) (s : S) (hnone : ∀ e ∈ es, w e = none) :
    r (es.foldl f s) = r s := by
  induction es generalizing s with
  | nil => rfl
  | cons e es ih =>
    rw [foldl_cons, ih (f s e) (fun e' he' => hnone e' (mem_cons_of_mem _ he')),
      hstep, hnone e mem_cons_self, Option.none_or]

/-- A read that some write concerns, all of them with one value, returns that value. -/
theorem read_foldl_of_some (hstep : ∀ s e, r (f s e) = (w e).or (r s)) (es : List E) (s : S)
    (hagree : ∀ e ∈ es, ∀ v', w e = some v' → v' = v) (hsome : ∃ e ∈ es, w e = some v) :
    r (es.foldl f s) = some v := by
  induction es generalizing s with
  | nil => simp at hsome
  | cons e es ih =>
    rw [foldl_cons]
    by_cases htail : ∃ e' ∈ es, w e' = some v
    · exact ih (f s e) (fun e' he' => hagree e' (mem_cons_of_mem _ he')) htail
    · -- the head is the last write that concerns the read
      have hnone : ∀ e' ∈ es, w e' = none := by
        intro e' he'
        cases hw : w e' with
        | none => rfl
        | some v' =>
          exact absurd ⟨e', he', hagree e' (mem_cons_of_mem _ he') v' hw ▸ hw⟩ htail
      obtain ⟨e', he', hw⟩ := hsome
      rcases mem_cons.1 he' with rfl | he'
      · rw [read_foldl_of_none hstep es _ hnone, hstep, hw, Option.some_or]
      · exact absurd ⟨e', he', hw⟩ htail

end Fold

lemma getElem?_foldl_erase {E : Type*} (key : E → ℕ × ℕ) (es : List E) (t : PairTable V)
    (a : ℕ × ℕ) :
    (es.foldl (fun t e => t.erase (key e)) t)[a]? =
      if a ∈ es.map key then none else t[a]? := by
  induction es generalizing t with
  | nil => simp
  | cons e es ih =>
    rw [foldl_cons, ih, getElem?_erase]
    by_cases htail : a ∈ es.map key
    · simp [htail]
    · by_cases hhead : key e = a
      · simp [hhead]
      · have hhead' : a ≠ key e := fun h => hhead h.symm
        simp [htail, hhead, hhead']

def eraseAll (t : Table V) (keys : List ℕ) : Table V := keys.foldl (fun t k => t.erase k) t

def insertAll (t : Table V) (rows : List (ℕ × V)) : Table V :=
  rows.foldl (fun t r => t.insert r.1 r.2) t

lemma getElem?_eraseAll (t : Table V) (keys : List ℕ) (a : ℕ) :
    (eraseAll t keys)[a]? = if a ∈ keys then none else t[a]? := by
  unfold eraseAll
  induction keys generalizing t with
  | nil => simp
  | cons k keys ih =>
    rw [foldl_cons, ih, getElem?_erase]
    simp only [Nat.compare_eq_eq, mem_cons, eq_comm (a := k)]
    by_cases htail : a ∈ keys
    · simp [htail]
    · simp [htail]

lemma getElem?_insertAll_of_notMem (t : Table V) {rows : List (ℕ × V)} {a : ℕ}
    (h : a ∉ rows.map Prod.fst) : (insertAll t rows)[a]? = t[a]? := by
  apply read_foldl_of_none (r := fun t : Table V => t[a]?)
    (w := fun r : ℕ × V => if r.1 = a then some r.2 else none)
  · intro t r
    rw [getElem?_insert_nat]
    split <;> rfl
  · intro r hr
    refine if_neg (fun heq : r.1 = a => h ?_)
    rw [← heq]
    exact mem_map_of_mem hr

lemma getElem?_insertAll_of_mem (t : Table V) {rows : List (ℕ × V)}
    (hnodup : (rows.map Prod.fst).Nodup) {r : ℕ × V} (hr : r ∈ rows) :
    (insertAll t rows)[r.1]? = some r.2 := by
  apply read_foldl_of_some (r := fun t : Table V => t[r.1]?)
    (w := fun r' : ℕ × V => if r'.1 = r.1 then some r'.2 else none)
  · intro t r'
    rw [getElem?_insert_nat]
    split <;> rfl
  · intro r' hr' v hv
    split at hv
    next heq =>
      rw [← Option.some.inj hv, inj_on_of_nodup_map hnodup hr' hr heq]
    · cases hv
  · exact ⟨r, hr, if_pos rfl⟩

/-! ## The row with the greatest key -/

/-- `last` is the row with the greatest key among those that `rows` returns, if there is one. -/
def IsLastRow (rows : ℕ → Option V) : Option (ℕ × V) → Prop
  | none => ∀ k, rows k = none
  | some (k, v) => rows k = some v ∧ ∀ k', rows k' ≠ none → k' ≤ k

namespace IsLastRow

variable {rows : ℕ → Option V} {last last' : Option (ℕ × V)}

lemma unique (h : IsLastRow rows last) (h' : IsLastRow rows last') : last = last' := by
  match last, last' with
  | none, none => rfl
  | none, some (k, v) => exact absurd (h'.1.symm.trans (h k)) (by simp)
  | some (k, v), none => exact absurd (h.1.symm.trans (h' k)) (by simp)
  | some (k, v), some (k', v') =>
    have hle : k ≤ k' := h'.2 k (by rw [h.1]; simp)
    have hge : k' ≤ k := h.2 k' (by rw [h'.1]; simp)
    obtain rfl : k = k' := Nat.le_antisymm hle hge
    rw [Option.some.inj (h.1.symm.trans h'.1)]

lemma insert_above (h : IsLastRow rows last) (habove : last.all (fun r => r.1 < k) = true) :
    IsLastRow (fun a => if k = a then some v else rows a) (some (k, v)) := by
  refine ⟨if_pos rfl, fun k' hk' => ?_⟩
  by_cases heq : k = k'
  · exact heq.ge
  · replace hk' : rows k' ≠ none := by simpa [heq] using hk'
    match last with
    | none => exact absurd (h k') hk'
    | some (l, w) =>
      have hlast : k' ≤ l := h.2 k' hk'
      have : l < k := by simpa using habove
      omega

lemma insert_below {l : ℕ} {w : V} (h : IsLastRow rows (some (l, w)))
    (hle : k ≤ l) (hsame : k = l → v = w) :
    IsLastRow (fun a => if k = a then some v else rows a) (some (l, w)) := by
  constructor
  · show (if k = l then some v else rows l) = some w
    by_cases heq : k = l
    · rw [if_pos heq, hsame heq]
    · rw [if_neg heq, h.1]
  · intro k' hk'
    by_cases heq : k = k'
    · exact heq ▸ hle
    · exact h.2 k' (by simpa [heq] using hk')

lemma delete_below (h : IsLastRow rows last) {horizon : ℕ}
    (habove : last.all (fun r => horizon ≤ r.1) = true) :
    IsLastRow (fun a => if a < horizon then none else rows a) last := by
  match last with
  | none => exact fun k => by simp [h k]
  | some (l, w) =>
    have hle : horizon ≤ l := by simpa using habove
    refine ⟨(if_neg (Nat.not_lt.2 hle)).trans h.1, fun k' hk' => h.2 k' ?_⟩
    intro hnone
    simp [hnone] at hk'

end IsLastRow

lemma le_of_mem_of_getLast? {rows : List (ℕ × V)} (hsorted : rows.Pairwise (fun a b => a.1 < b.1))
    {last : ℕ × V} (hlast : rows.getLast? = some last) {r : ℕ × V} (hr : r ∈ rows) :
    r.1 ≤ last.1 := by
  obtain ⟨init, rfl⟩ := getLast?_eq_some_iff.1 hlast
  rcases mem_append.1 hr with hinit | hend
  · exact Nat.le_of_lt ((pairwise_append.1 hsorted).2.2 r hinit last (by simp))
  · rw [mem_singleton.1 hend]

lemma isLastRow_getLast? {rows : List (ℕ × V)} (hsorted : rows.Pairwise (fun a b => a.1 < b.1))
    {read : ℕ → Option V} (hread : ∀ k v, read k = some v ↔ (k, v) ∈ rows) :
    IsLastRow read rows.getLast? := by
  cases hlast : rows.getLast? with
  | none =>
    obtain rfl := getLast?_eq_none_iff.1 hlast
    intro k
    rw [Option.eq_none_iff_forall_ne_some]
    exact fun v hv => by simpa using (hread k v).1 hv
  | some last =>
    refine ⟨(hread _ _).2 (mem_of_getLast? hlast), fun k' hk' => ?_⟩
    obtain ⟨v', hv'⟩ := Option.ne_none_iff_exists'.1 hk'
    exact le_of_mem_of_getLast? hsorted hlast ((hread k' v').1 hv')

lemma isLastRow_toList (t : Table V) : IsLastRow (fun k => t[k]?) t.toList.getLast? :=
  isLastRow_getLast? (pairwise_toList t)
    (fun _ _ => mem_toList_iff_getElem?_eq_some.symm)

/-- The rows of a table of pairs with a given first component, by the second. -/
def rowsOf (t : PairTable V) (a : ℕ) : List (ℕ × V) :=
  (t.toList.filter (fun e => e.1.1 = a)).map (fun e => (e.1.2, e.2))

lemma mem_rowsOf {t : PairTable V} {a : ℕ} :
    (k, v) ∈ rowsOf t a ↔ t[(a, k)]? = some v := by
  simp only [rowsOf, mem_map, mem_filter, decide_eq_true_eq, Prod.mk.injEq, Prod.exists]
  constructor
  · rintro ⟨b, k', v', ⟨hmem, rfl⟩, rfl, rfl⟩
    exact mem_toList_iff_getElem?_eq_some.1 hmem
  · intro h
    exact ⟨a, k, v, ⟨mem_toList_iff_getElem?_eq_some.2 h, rfl⟩, rfl, rfl⟩

lemma pairwise_rowsOf (t : PairTable V) (a : ℕ) :
    (rowsOf t a).Pairwise (fun r r' => r.1 < r'.1) := by
  have hordered := ordered_keys_toList (t := t)
  rw [rowsOf, pairwise_map]
  refine (hordered.filter _).imp_of_mem (fun {r r'} hr hr' hlt => ?_)
  have hr : r.1.1 = a := by simpa using (mem_filter.1 hr).2
  have hr' : r'.1.1 = a := by simpa using (mem_filter.1 hr').2
  -- the first components agree, so the order is that of the second
  rcases Ordering.then_eq_lt.1 hlt with hfst | ⟨-, hsnd⟩
  · have := Nat.compare_eq_lt.1 hfst
    omega
  · exact Nat.compare_eq_lt.1 hsnd

lemma isLastRow_rowsOf (t : PairTable V) (a : ℕ) :
    IsLastRow (fun k => t[(a, k)]?) (rowsOf t a).getLast? :=
  isLastRow_getLast? (pairwise_rowsOf t a) (fun _ _ => mem_rowsOf.symm)

/-! ## The keys of a list -/

/-- The table has exactly the keys of a list, each with its value. -/
structure Filed (value : ℕ → V) (keys : List ℕ) (t : Table V) : Prop where
  rows : ∀ k v, t[k]? = some v ↔ k ∈ keys ∧ value k = v
  size_eq : t.size = keys.length

namespace Filed

variable {value : ℕ → V} {keys : List ℕ} {t t' : Table V}

lemma empty (value : ℕ → V) : Filed value [] (∅ : Table V) where
  rows := by simp
  size_eq := size_empty

lemma isSome_iff (h : Filed value keys t) (k : ℕ) : t[k]?.isSome ↔ k ∈ keys := by
  rw [Option.isSome_iff_exists]
  constructor
  · rintro ⟨v, hv⟩
    exact ((h.rows k v).1 hv).1
  · intro hk
    exact ⟨value k, (h.rows k _).2 ⟨hk, rfl⟩⟩

lemma ext (h : Filed value keys t) (h' : Filed value keys t') : t = t' := by
  apply Std.ExtTreeMap.ext_getElem?
  intro k
  ext v
  rw [h.rows, h'.rows]

lemma insert (h : Filed value keys t) (hk : k ∉ keys) (hv : value k = v) :
    Filed value (keys ++ [k]) (t.insert k v) where
  rows k' v' := by
    rw [getElem?_insert_nat, mem_append, mem_singleton]
    by_cases heq : k = k'
    · subst heq
      simp [hv]
    · rw [if_neg heq, h.rows]
      simp [Ne.symm heq]
  size_eq := by
    have habsent : t.contains k = false := by
      rw [contains_eq_isSome_getElem?, Bool.eq_false_iff]
      exact fun hsome => hk ((h.isSome_iff k).1 hsome)
    rw [size_insert, habsent, h.size_eq, length_append, length_singleton]
    rfl

lemma erase {before after : List ℕ} (h : Filed value (before ++ k :: after) t)
    (hnodup : (before ++ k :: after).Nodup) : Filed value (before ++ after) (t.erase k) where
  rows k' v' := by
    have hfresh : k ∉ before ++ after := (nodup_middle.1 hnodup |> nodup_cons.1).1
    rw [getElem?_erase]
    by_cases heq : k = k'
    · subst heq
      simp [hfresh]
    · rw [if_neg (fun h => heq (Nat.compare_eq_eq.1 h)), h.rows]
      simp [Ne.symm heq]
  size_eq := by
    have hpresent : t.contains k = true := by
      rw [contains_eq_isSome_getElem?]
      exact (h.isSome_iff k).2 (by simp)
    rw [size_erase, hpresent, h.size_eq]
    simp only [if_true, length_append, length_cons]
    omega

end Filed

/-! ## The rows of a list -/

/-- The elements of a list as rows, the first one at `base`. -/
def rowAt (base : ℕ) (xs : List V) (k : ℕ) : Option V := if k < base then none else xs[k - base]?

lemma rowAt_eq_some {x : V} :
    rowAt base xs k = some x ↔ base ≤ k ∧ xs[k - base]? = some x := by
  unfold rowAt
  split
  next hlt =>
    constructor
    · rintro ⟨⟩
    · rintro ⟨hle, -⟩
      omega
  next hge =>
    simp only [Nat.not_lt.1 hge, true_and]

lemma isSome_rowAt :
    (rowAt base xs k).isSome ↔ base ≤ k ∧ k < base + xs.length := by
  rw [Option.isSome_iff_exists]
  constructor
  · rintro ⟨x, hx⟩
    obtain ⟨hle, hx⟩ := rowAt_eq_some.1 hx
    have := (List.getElem?_eq_some_iff.1 hx).1
    omega
  · rintro ⟨hle, hlt⟩
    exact ⟨xs[k - base], rowAt_eq_some.2 ⟨hle, getElem?_eq_getElem (by omega)⟩⟩

@[simp]
lemma rowAt_nil (base k : ℕ) : rowAt base ([] : List V) k = none := by
  unfold rowAt
  split <;> simp

lemma rowAt_injective {base' : ℕ} {ys : List V} (hxs : xs ≠ [])
    (h : ∀ k, rowAt base xs k = rowAt base' ys k) : base = base' ∧ xs = ys := by
  have hbound : ∀ k, base ≤ k ∧ k < base + xs.length ↔ base' ≤ k ∧ k < base' + ys.length := by
    intro k
    rw [← isSome_rowAt, ← isSome_rowAt, h k]
  have hxpos := length_pos_iff.2 hxs
  obtain rfl : base = base' := by
    have hfirst := (hbound base).1 ⟨Nat.le_refl _, by omega⟩
    have hfirst' := (hbound base').2 ⟨Nat.le_refl _, by omega⟩
    omega
  refine ⟨rfl, ext_getElem? (fun i => ?_)⟩
  have hrow := h (base + i)
  unfold rowAt at hrow
  rwa [if_neg (by omega), if_neg (by omega), Nat.add_sub_cancel_left] at hrow

lemma rowAt_append (base : ℕ) (xs ys : List V) (k : ℕ) :
    rowAt base (xs ++ ys) k = (rowAt base xs k).or (rowAt (base + xs.length) ys k) := by
  unfold rowAt
  by_cases hlt : k < base
  · rw [if_pos hlt, if_pos hlt, if_pos (by omega)]
    rfl
  · rw [if_neg hlt, if_neg hlt, getElem?_append]
    by_cases hin : k - base < xs.length
    · rw [if_pos hin, if_pos (by omega), Option.or_none]
    · have hout : xs[k - base]? = none := getElem?_eq_none (by omega)
      rw [if_neg hin, if_neg (by omega), hout, Option.none_or, Nat.sub_add_eq]

lemma rowAt_append_of_some {ys : List V} {x : V} (h : rowAt base xs k = some x) :
    rowAt base (xs ++ ys) k = some x := by
  rw [rowAt_append, h, Option.some_or]

lemma rowAt_concat (base : ℕ) (xs : List V) (x : V) :
    rowAt base (xs ++ [x]) (base + xs.length) = some x ∧
      ∀ k y, k ≠ base + xs.length → rowAt base (xs ++ [x]) k = some y → rowAt base xs k = some y := by
  constructor
  · rw [rowAt_eq_some]
    exact ⟨Nat.le_add_right _ _, by simp⟩
  · intro k y hne hy
    obtain ⟨hle, hy⟩ := rowAt_eq_some.1 hy
    have hlt := (List.getElem?_eq_some_iff.1 hy).1
    rw [length_append, length_singleton] at hlt
    rw [getElem?_append_left (by omega)] at hy
    exact rowAt_eq_some.2 ⟨hle, hy⟩

lemma lookup_eq_rowAt {rows : List (ℕ × V)}
    (h : rows.map Prod.fst = List.range' base rows.length) (k : ℕ) :
    rows.lookup k = rowAt base (rows.map Prod.snd) k := by
  induction rows generalizing base with
  | nil => simp
  | cons row rows ih =>
    obtain ⟨key, v⟩ := row
    rw [map_cons, length_cons, range'_succ, cons.injEq] at h
    obtain ⟨rfl, h⟩ := h
    have hsplit : rowAt key (v :: rows.map Prod.snd) k =
        (rowAt key [v] k).or (rowAt (key + 1) (rows.map Prod.snd) k) := rowAt_append key [v] _ k
    rw [lookup_cons, map_cons, hsplit, ih h]
    by_cases hk : k = key
    · have hrow : rowAt key [v] k = some v := by
        rw [rowAt_eq_some, hk]
        simp
      rw [hrow, Option.some_or, beq_iff_eq.2 hk]
    · have hrow : rowAt key [v] k = none := by
        rw [← Option.not_isSome_iff_eq_none, isSome_rowAt, length_singleton]
        omega
      rw [hrow, Option.none_or, beq_eq_false_iff_ne.2 hk]

def record (rows : List (ℕ × V)) (store : ℕ → Option V) (k : ℕ) : Option V :=
  (rows.lookup k).or (store k)

/-- A store of a list's rows has the rows of an extended list once the new ones are written. -/
theorem record_eq_some {store : ℕ → Option V} {rows : List (ℕ × V)}
    (hstore : ∀ k x, rowAt base xs k = some x → store k = some x)
    (hrows : rows.map Prod.fst = List.range' (base + xs.length) rows.length) {x : V}
    (h : rowAt base (xs ++ rows.map Prod.snd) k = some x) : record rows store k = some x := by
  rw [record, lookup_eq_rowAt hrows]
  rw [rowAt_append] at h
  cases hnew : rowAt (base + xs.length) (rows.map Prod.snd) k with
  | some y =>
    have hold : rowAt base xs k = none := by
      have hbound := isSome_rowAt.1 (by rw [hnew]; rfl)
      rw [← Option.not_isSome_iff_eq_none, isSome_rowAt]
      omega
    rw [hold, hnew, Option.none_or] at h
    rw [h, Option.some_or]
  | none =>
    rw [hnew, Option.or_none] at h
    rw [Option.none_or, hstore k x h]

/-! ## Maps without an order

A hash map is the list of its values in the order of its iteration, each with its key in it. -/

section Keyed

variable {K : Type*} [DecidableEq K]

def findKeyed (key : V → K) (k : K) (values : List V) : Option V := values.find? (key · = k)

def eraseKeyed (key : V → K) (k : K) (values : List V) : List V := values.filter (key · ≠ k)

def insertKeyed (key : V → K) (v : V) (values : List V) : List V :=
  v :: eraseKeyed key (key v) values

lemma findKeyed_eq_some {key : V → K} {k : K}
    (h : findKeyed key k values = some v) : v ∈ values ∧ key v = k :=
  ⟨mem_of_find?_eq_some h, by simpa using find?_some h⟩

lemma mem_of_mem_eraseKeyed {key : V → K} {k : K}
    (h : v ∈ eraseKeyed key k values) : v ∈ values := mem_of_mem_filter h

lemma mem_insertKeyed {key : V → K} {w : V}
    (h : w ∈ insertKeyed key v values) : w = v ∨ w ∈ values :=
  (mem_cons.1 h).imp_right mem_of_mem_eraseKeyed

end Keyed

end ErgoNode
