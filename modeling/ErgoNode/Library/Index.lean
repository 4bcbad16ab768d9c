import Mathlib.Data.Set.Insert

/-!
# Secondary indexes

A primary store holds entries, and an index maps keys to values that are taken from the entries:
`rows e` are the rows that entry `e` contributes. An index is exact when it has the rows of the
entries and no others.

The rules say how an index has to be changed when an entry is added, entries are dropped, or entries
are rewritten in place.
-/

namespace ErgoNode

variable {E K V : Type*} {rewrite : E → E}

def IndexOf (entries : Set E) (rows : E → List (K × V)) (m : K → Option V) : Prop :=
  ∀ k v, m k = some v ↔ ∃ e ∈ entries, (k, v) ∈ rows e

def writeRows [DecidableEq K] (m : K → Option V) (rows : List (K × V)) : K → Option V :=
  rows.foldl (fun m row => Function.update m row.1 (some row.2)) m

section WriteRows

variable [DecidableEq K] {m : K → Option V} {rows : List (K × V)} {k : K} {v : V}

lemma writeRows_of_notMem (h : ∀ v, (k, v) ∉ rows) : writeRows m rows k = m k := by
  induction rows generalizing m with
  | nil => rfl
  | cons row rows ih =>
    have hne : k ≠ row.1 := by
      rintro rfl
      exact h row.2 List.mem_cons_self
    exact (ih (fun v hv => h v (List.mem_cons_of_mem _ hv))).trans (Function.update_of_ne hne _ _)

lemma writeRows_of_mem (hmem : (k, v) ∈ rows) (hsame : ∀ v', (k, v') ∈ rows → v' = v) :
    writeRows m rows k = some v := by
  induction rows generalizing m with
  | nil => cases hmem
  | cons row rows ih =>
    by_cases htail : (k, v) ∈ rows
    · exact ih htail (fun v' hv' => hsame v' (List.mem_cons_of_mem _ hv'))
    · -- the head is the last row with this key
      have hhead : row = (k, v) := ((List.mem_cons.1 hmem).resolve_right htail).symm
      have habsent : ∀ v', (k, v') ∉ rows := by
        intro v' hv'
        obtain rfl := hsame v' (List.mem_cons_of_mem _ hv')
        exact htail hv'
      refine (writeRows_of_notMem habsent).trans ?_
      rw [hhead]
      exact Function.update_self _ _ _

lemma update_none_eq_filter (m : K → Option V) (key : K) :
    Function.update m key none = fun k => (m k).filter (fun _ => decide (k ≠ key)) := by
  funext k
  by_cases hk : k = key
  · subst hk
    simp
  · rw [Function.update_of_ne hk]
    cases m k <;> simp [hk, Option.filter]

end WriteRows

namespace IndexOf

variable {entries : Set E} {rows : E → List (K × V)} {m : K → Option V}

lemma empty (rows : E → List (K × V)) : IndexOf ∅ rows (fun _ => none) := by
  intro k v
  simp

lemma insert [DecidableEq K] (h : IndexOf entries rows m) {e : E}
    (hfresh : ∀ e' ∈ entries, ∀ row' ∈ rows e', ∀ row ∈ rows e, row'.1 ≠ row.1)
    (hsame : ∀ k v v', (k, v) ∈ rows e → (k, v') ∈ rows e → v' = v) :
    IndexOf (Insert.insert e entries) rows (writeRows m (rows e)) := by
  intro k v
  by_cases hk : ∃ v', (k, v') ∈ rows e
  · obtain ⟨v', hv'⟩ := hk
    rw [writeRows_of_mem hv' (fun w hw => hsame k v' w hv' hw), Option.some.injEq]
    constructor
    · rintro rfl
      exact ⟨e, Set.mem_insert _ _, hv'⟩
    · rintro ⟨e', he' | he', hrow⟩
      · exact hsame k v v' (he' ▸ hrow) hv'
      · exact absurd rfl (hfresh e' he' (k, v) hrow (k, v') hv')
  · have hnot : ∀ v', (k, v') ∉ rows e := fun v' hv' => hk ⟨v', hv'⟩
    rw [writeRows_of_notMem hnot, h k v]
    constructor
    · rintro ⟨e', he', hrow⟩
      exact ⟨e', Set.mem_insert_of_mem _ he', hrow⟩
    · rintro ⟨e', he' | he', hrow⟩
      · exact absurd (he' ▸ hrow) (hnot v)
      · exact ⟨e', he', hrow⟩

lemma retain (h : IndexOf entries rows m) {kept : E → Prop} {keep : K → V → Bool}
    (hkeep : ∀ e ∈ entries, ∀ row ∈ rows e, keep row.1 row.2 = true ↔ kept e) :
    IndexOf { e ∈ entries | kept e } rows (fun k => (m k).filter (keep k)) := by
  intro k v
  rw [Option.filter_eq_some_iff, h k v]
  constructor
  · rintro ⟨⟨e, he, hrow⟩, hv⟩
    exact ⟨e, ⟨he, (hkeep e he _ hrow).1 hv⟩, hrow⟩
  · rintro ⟨e, ⟨he, hkept⟩, hrow⟩
    exact ⟨⟨e, he, hrow⟩, (hkeep e he _ hrow).2 hkept⟩

lemma map (h : IndexOf entries rows m) {f : V → V}
    (hrows : ∀ e ∈ entries, rows (rewrite e) = (rows e).map (fun row => (row.1, f row.2))) :
    IndexOf (rewrite '' entries) rows (fun k => (m k).map f) := by
  intro k v
  rw [Option.map_eq_some_iff]
  constructor
  · rintro ⟨v', hv', rfl⟩
    obtain ⟨e, he, hrow⟩ := (h k v').1 hv'
    refine ⟨rewrite e, ⟨e, he, rfl⟩, ?_⟩
    rw [hrows e he]
    exact List.mem_map.2 ⟨_, hrow, rfl⟩
  · rintro ⟨_, ⟨e, he, rfl⟩, hrow⟩
    rw [hrows e he] at hrow
    obtain ⟨⟨k', v'⟩, hold, heq⟩ := List.mem_map.1 hrow
    cases heq
    exact ⟨v', (h k' v').2 ⟨e, he, hold⟩, rfl⟩

lemma image (h : IndexOf entries rows m) (hrows : ∀ e ∈ entries, rows (rewrite e) = rows e) :
    IndexOf (rewrite '' entries) rows m := by
  intro k v
  rw [h k v]
  constructor
  · rintro ⟨e, he, hrow⟩
    exact ⟨rewrite e, ⟨e, he, rfl⟩, (hrows e he).symm ▸ hrow⟩
  · rintro ⟨_, ⟨e, he, rfl⟩, hrow⟩
    exact ⟨e, he, hrows e he ▸ hrow⟩

lemma congr (h : IndexOf entries rows m) {entries' : Set E} (heq : entries = entries') :
    IndexOf entries' rows m := heq ▸ h

end IndexOf

end ErgoNode
