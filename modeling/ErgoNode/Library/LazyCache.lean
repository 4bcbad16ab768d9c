import ErgoNode.Library.LruCache

/-!
# A cache in front of a loader

A bounded cache whose misses are answered by a loader and then kept. What a key shows (`view`) is
the cached value, or the loader's when there is none; a value that is only cached is gone once it is
displaced. `Undisturbed` compares a cache with an earlier one: a key shows what it showed before, as
long as the loader agrees with the cache or the cache has room for all keys. `Backed` compares a
cache with the contents it stands for: the loader has them, or the key was used recently enough.
-/

namespace ErgoNode

open LruCache Option

/-- A cache with the loader that answers its misses, if one is wired. -/
structure LazyCache (K V : Type*) where
  cache : LruCache K V
  loader : Option (K → Option V)

namespace LazyCache

variable {K V : Type*} [DecidableEq K] {k : K} {v x : V}

def load (c : LazyCache K V) (k : K) : Option V := c.loader.bind (fun f => f k)

def view (c : LazyCache K V) (k : K) : Option V := (c.cache.peek k).or (c.load k)

/-- Read a key: a hit makes the entry the most recent one, a miss asks the loader and keeps the
answer. -/
def get (c : LazyCache K V) (k : K) : Option V × LazyCache K V :=
  match c.cache.peek k with
  | some v => (some v, { c with cache := c.cache.put k v })
  | none =>
    match c.load k with
    | none => (none, c)
    | some v => (some v, { c with cache := c.cache.put k v })

def put (c : LazyCache K V) (k : K) (v : V) : LazyCache K V := { c with cache := c.cache.put k v }

def evict (c : LazyCache K V) (k : K) : LazyCache K V := { c with cache := c.cache.remove k }

def clear (c : LazyCache K V) : LazyCache K V := { c with cache := c.cache.clear }

def resize (c : LazyCache K V) (cap : ℕ) (h : 0 < cap) : LazyCache K V :=
  { c with cache := c.cache.resize cap h }

def setLoader (c : LazyCache K V) (loader : K → Option V) : LazyCache K V :=
  { c with loader := some loader }

@[simp]
lemma get_fst (c : LazyCache K V) (k : K) : (c.get k).1 = c.view k := by
  unfold get view
  split
  next v hpeek =>
    rw [hpeek]
    rfl
  next hpeek =>
    rw [hpeek, none_or]
    split
    next hload =>
      exact hload.symm
    next v hload =>
      exact hload.symm

lemma get_snd (c : LazyCache K V) (k : K) :
    (c.get k).2 = match c.view k with
      | some v => c.put k v
      | none => c := by
  unfold get view
  split
  next v hpeek =>
    rw [hpeek]
    rfl
  next hpeek =>
    rw [hpeek, none_or]
    split
    next hload =>
      rw [hload]
    next v hload =>
      rw [hload]
      rfl

@[simp]
lemma cap_put (c : LazyCache K V) (k : K) (v : V) : (c.put k v).cache.cap = c.cache.cap :=
  LruCache.cap_put _ _ _

lemma cap_get (c : LazyCache K V) (k : K) : (c.get k).2.cache.cap = c.cache.cap := by
  rw [get_snd]
  split
  · exact cap_put _ _ _
  · rfl

lemma cap_foldl_evict (c : LazyCache K V) (keys : List K) :
    (keys.foldl evict c).cache.cap = c.cache.cap := by
  induction keys generalizing c with
  | nil => rfl
  | cons k keys ih => exact ih (c.evict k)

lemma view_eq_some {c : LazyCache K V} (h : c.view k = some v) :
    c.cache.peek k = some v ∨ c.cache.peek k = none ∧ c.load k = some v :=
  (or_eq_some_iff.1 h)

/-- The values the cache may show for a key, now or after its entry was displaced. -/
def Serves (c : LazyCache K V) (k : K) (v : V) : Prop := c.cache.peek k = some v ∨ c.load k = some v

lemma serves_of_view {c : LazyCache K V} (h : c.view k = some v) :
    c.Serves k v :=
  (view_eq_some h).imp id And.right

lemma serves_put {c : LazyCache K V} {k' : K} {v' : V} (h : (c.put k v).Serves k' v') :
    k' = k ∧ v' = v ∨ c.Serves k' v' := by
  by_cases heq : k' = k
  · subst heq
    rcases h with hpeek | hload
    · exact .inl ⟨rfl, some.inj (hpeek.symm.trans (peek_put_self _ _ _))⟩
    · exact .inr (.inr hload)
  · exact .inr (h.imp (peek_of_peek_put heq) id)

lemma serves_get {c : LazyCache K V} {k' : K} {v' : V} (h : (c.get k).2.Serves k' v') :
    c.Serves k' v' := by
  rw [get_snd] at h
  split at h
  next v hv =>
    rcases serves_put h with ⟨rfl, rfl⟩ | h
    · exact serves_of_view hv
    · exact h
  · exact h

lemma serves_evict {c : LazyCache K V} {k' : K} {v' : V} (h : (c.evict k).Serves k' v') :
    c.Serves k' v' := by
  by_cases heq : k' = k
  · subst heq
    rcases h with hpeek | hload
    · rw [evict, peek_remove_self] at hpeek
      cases hpeek
    · exact .inr hload
  · refine h.imp (fun hpeek => ?_) id
    rwa [evict, peek_remove_of_ne _ heq] at hpeek

/-! ## Sequences of reads -/

/-- The second cache is the first after reads of keys that satisfy `P`. -/
inductive Reads (P : K → Prop) : LazyCache K V → LazyCache K V → Prop
  | refl (c : LazyCache K V) : Reads P c c
  | get {c c' : LazyCache K V} {k : K} (hk : P k) (h : Reads P (c.get k).2 c') : Reads P c c'

namespace Reads

variable {P Q : K → Prop} {c c' c'' : LazyCache K V}

lemma single (c : LazyCache K V) (hk : P k) : Reads P c (c.get k).2 := .get hk (.refl _)

lemma trans (h : Reads P c c') (h' : Reads P c' c'') : Reads P c c'' := by
  induction h with
  | refl => exact h'
  | get hk _ ih => exact .get hk (ih h')

lemma mono (h : Reads P c c') (hPQ : ∀ k, P k → Q k) : Reads Q c c' := by
  induction h with
  | refl => exact .refl _
  | get hk _ ih => exact .get (hPQ _ hk) ih

lemma invariant {I : LazyCache K V → Prop} (h : Reads P c c')
    (hget : ∀ c k, P k → I c → I (c.get k).2) (hc : I c) : I c' := by
  induction h with
  | refl => exact hc
  | get hk _ ih => exact ih (hget _ _ hk hc)

lemma cap_eq (h : Reads P c c') : c'.cache.cap = c.cache.cap := by
  induction h with
  | refl => rfl
  | get _ _ ih => exact ih.trans (cap_get _ _)

lemma eq_of_forall_not (h : Reads P c c') (hP : ∀ k, ¬P k) : c' = c := by
  cases h with
  | refl => rfl
  | get hk _ => exact absurd hk (hP _)

lemma serves (h : Reads P c c') (hv : c'.Serves k v) : c.Serves k v := by
  induction h with
  | refl => exact hv
  | get _ _ ih => exact serves_get (ih hv)

end Reads

/-! ## Comparison with an earlier cache -/

/-- All keys that may be cached are in `R`, and the cache has room for them. -/
structure Fits (c : LazyCache K V) (R : Finset K) : Prop where
  keys : ∀ k, (c.cache.peek k).isSome → k ∈ R
  card_le : R.card ≤ c.cache.cap

/-- A value that `c₀` showed for a key, or might have shown after its entry was displaced. -/
structure Shown (c₀ : LazyCache K V) (R : Finset K) (k : K) (v : V) : Prop where
  value : c₀.view k = some v ∨ c₀.load k = some v
  cached : c₀.Fits R → ∀ v₀, c₀.cache.peek k = some v₀ → v = v₀

/-- The cache comes from `c₀` by reads of keys in `R`, apart from the keys in `D`. -/
structure Undisturbed (c₀ : LazyCache K V) (R : Finset K) (D : K → Prop) (c : LazyCache K V) :
    Prop where
  loader : c.loader = c₀.loader
  cap : c.cache.cap = c₀.cache.cap
  shown : ∀ k v, ¬D k → c.cache.peek k = some v → c₀.Shown R k v
  keys : c₀.Fits R → ∀ k, (c.cache.peek k).isSome → k ∈ R
  kept : c₀.Fits R → ∀ k, ¬D k → (c₀.cache.peek k).isSome → (c.cache.peek k).isSome

namespace Undisturbed

variable {c₀ c : LazyCache K V} {R : Finset K} {D D' : K → Prop}

lemma refl (c₀ : LazyCache K V) (R : Finset K) : Undisturbed c₀ R (fun _ => False) c₀ where
  loader := rfl
  cap := rfl
  shown k v _ hpeek := ⟨.inl (by rw [view, hpeek]; rfl), fun _ v₀ h => by
    rw [hpeek] at h
    exact some.inj h⟩
  keys hfits := hfits.keys
  kept _ _ _ h := h

lemma mono (h : Undisturbed c₀ R D c) (hD : ∀ k, D k → D' k) : Undisturbed c₀ R D' c where
  __ := h
  shown k v hk := h.shown k v (fun hd => hk (hD k hd))
  kept hfits k hk := h.kept hfits k (fun hd => hk (hD k hd))

lemma load_eq (h : Undisturbed c₀ R D c) (k : K) : c.load k = c₀.load k := by
  rw [load, load, h.loader]

lemma shown_of_view (h : Undisturbed c₀ R D c) (hk : ¬D k) (hv : c.view k = some v) :
    c₀.Shown R k v := by
  rcases view_eq_some hv with hpeek | ⟨hnone, hload⟩
  · exact h.shown k v hk hpeek
  · refine ⟨.inr (h.load_eq k ▸ hload), fun hfits v₀ hv₀ => ?_⟩
    -- a cached key would still be cached
    have hcached := h.kept hfits k hk (by rw [hv₀]; rfl)
    rw [hnone] at hcached
    cases hcached

/-- Writing a value that `c₀` showed, or any value for a key that is disregarded. -/
theorem put (h : Undisturbed c₀ R D c) (hk : c₀.Fits R → k ∈ R)
    (hv : ¬D' k → c₀.Shown R k v) (hD : ∀ k', k' ≠ k → D k' → D' k') :
    Undisturbed c₀ R D' (c.put k v) where
  loader := h.loader
  cap := (cap_put _ _ _).trans h.cap
  shown k' v' hk' hpeek := by
    by_cases heq : k' = k
    · subst heq
      cases (peek_put_self _ _ _).symm.trans hpeek
      exact hv hk'
    · exact h.shown k' v' (fun hd => hk' (hD k' heq hd)) (peek_of_peek_put heq hpeek)
  keys hfits k' hcached := by
    by_cases heq : k' = k
    · rw [heq]
      exact hk hfits
    · obtain ⟨v', hpeek⟩ := isSome_iff_exists.1 hcached
      exact h.keys hfits k' (by rw [peek_of_peek_put heq hpeek]; rfl)
  kept hfits k' hk' hcached := by
    by_cases heq : k' = k
    · rw [heq]
      show ((c.cache.put k v).peek k).isSome
      rw [peek_put_self]
      rfl
    · show ((c.cache.put k v).peek k').isSome
      rw [peek_put_of_fits (h.keys hfits) (h.cap ▸ hfits.card_le) (hk hfits) v heq]
      exact h.kept hfits k' (fun hd => hk' (hD k' heq hd)) hcached

lemma evict (h : Undisturbed c₀ R D c) (hk : D' k) (hD : ∀ k', D k' → D' k') :
    Undisturbed c₀ R D' (c.evict k) where
  __ := h
  shown k' v' hk' hpeek := by
    have hne : k' ≠ k := fun heq => hk' (heq ▸ hk)
    rw [LazyCache.evict, peek_remove_of_ne _ hne] at hpeek
    exact h.shown k' v' (fun hd => hk' (hD k' hd)) hpeek
  keys hfits k' hcached := by
    by_cases hne : k' = k
    · subst hne
      rw [LazyCache.evict, peek_remove_self] at hcached
      cases hcached
    · rw [LazyCache.evict, peek_remove_of_ne _ hne] at hcached
      exact h.keys hfits k' hcached
  kept hfits k' hk' hcached := by
    have hne : k' ≠ k := fun heq => hk' (heq ▸ hk)
    rw [LazyCache.evict, peek_remove_of_ne _ hne]
    exact h.kept hfits k' (fun hd => hk' (hD k' hd)) hcached

lemma get (h : Undisturbed c₀ R D c) (hk : c₀.Fits R → k ∈ R) :
    Undisturbed c₀ R D (c.get k).2 := by
  rw [get_snd]
  split
  next v hv =>
    exact h.put hk (fun hd => h.shown_of_view hd hv) (fun _ _ hd => hd)
  · exact h

lemma reads {P : K → Prop} {c' : LazyCache K V} (h : Undisturbed c₀ R D c)
    (hreads : Reads P c c') (hP : c₀.Fits R → ∀ k, P k → k ∈ R) : Undisturbed c₀ R D c' :=
  hreads.invariant (fun _ _ hk hc => hc.get (fun hfits => hP hfits _ hk)) h

/-- **An undisturbed key shows what it showed**, if its cached value is the loader's or there is room
for all keys. -/
theorem view_eq (h : Undisturbed c₀ R D c) (hk : ¬D k)
    (hagree : c₀.cache.peek k = none ∨ c₀.cache.peek k = c₀.load k ∨ c₀.Fits R) :
    c.view k = c₀.view k := by
  have hcached : ∀ v, c.cache.peek k = some v → c₀.view k = some v := by
    intro v hpeek
    obtain ⟨hvalue, hfits⟩ := h.shown k v hk hpeek
    cases hpeek₀ : c₀.cache.peek k with
    | none =>
      rw [view, hpeek₀, none_or] at hvalue ⊢
      exact hvalue.elim id id
    | some v₀ =>
      rw [view, hpeek₀, some_or] at hvalue ⊢
      rcases hagree with hnone | hload | hroom
      · cases hpeek₀.symm.trans hnone
      · rw [← hload, hpeek₀] at hvalue
        exact hvalue.elim id id
      · rw [hfits hroom v₀ hpeek₀]
  cases hpeek : c.cache.peek k with
  | some v =>
    rw [hcached v hpeek, view, hpeek, some_or]
  | none =>
    rw [view, hpeek, none_or, h.load_eq]
    rcases hagree with hnone | hload | hroom
    · rw [view, hnone, none_or]
    · rw [view, hload, Option.or_self]
    · have hnone : c₀.cache.peek k = none := by
        rw [← not_isSome_iff_eq_none]
        intro hsome
        have := h.kept hroom k hk hsome
        rw [hpeek] at this
        cases this
      rw [view, hnone, none_or]

end Undisturbed

/-! ## Comparison with contents -/

def Correct (contents : K → Option V) (c : LazyCache K V) : Prop :=
  ∀ k x v, contents k = some x → c.cache.peek k = some v → v = x

namespace Correct

variable {contents contents' : K → Option V} {c c' : LazyCache K V}

/-- Writing a key: its content changes, and the contents of other keys may be forgotten. -/
theorem put (h : Correct contents c) (hk : contents' k = some v)
    (hsub : ∀ k' x, k' ≠ k → contents' k' = some x → contents k' = some x) :
    Correct contents' (c.put k v) := by
  intro k' x v' hk' hpeek
  by_cases heq : k' = k
  · subst heq
    cases hk'.symm.trans hk
    exact some.inj (hpeek.symm.trans (peek_put_self _ _ _))
  · exact h k' x v' (hsub k' x heq hk') (peek_of_peek_put heq hpeek)

lemma view_eq_of_cached (h : Correct contents c) (hk : contents k = some x)
    (hcached : (c.cache.peek k).isSome) : c.view k = some x := by
  obtain ⟨v, hv⟩ := isSome_iff_exists.1 hcached
  rw [view, hv, h k x v hk hv, some_or]

lemma get (h : Correct contents c) (hk : contents k = some x) (hview : c.view k = some x) :
    Correct contents (c.get k).2 := by
  rw [get_snd, hview]
  exact h.put hk (fun _ _ _ h => h)

lemma reads_of_cached (h : Correct contents c) {P : K → Prop} (hk : contents k = some x)
    (hcached : (c.cache.peek k).isSome) (hreads : Reads P c c') (hP : ∀ k', P k' → k' = k) :
    Correct contents c' ∧ (c'.cache.peek k).isSome := by
  apply hreads.invariant (I := fun c => Correct contents c ∧ (c.cache.peek k).isSome)
  · rintro c k' hk' ⟨hcorrect, hcached⟩
    obtain rfl := hP k' hk'
    have hview := hcorrect.view_eq_of_cached hk hcached
    refine ⟨hcorrect.get hk hview, ?_⟩
    rw [get_snd, hview]
    exact (congrArg isSome (peek_put_self _ _ _)).trans rfl
  · exact ⟨h, hcached⟩

lemma mono (h : Correct contents c) (hsub : ∀ k x, contents' k = some x → contents k = some x) :
    Correct contents' c := fun k x v hk => h k x v (hsub k x hk)

end Correct

/-- The cache stands for these contents: it is right, the keys in `T` were used last, the loader has
the others. -/
structure Backed (contents : K → Option V) (T : Finset K) (c : LazyCache K V) : Prop where
  correct : Correct contents c
  loaded : ∀ k x, contents k = some x → k ∉ T → c.load k = some x
  recent : c.cache.Recent T

lemma Correct.setLoader {contents : K → Option V} {c : LazyCache K V} (h : Correct contents c)
    {loader : K → Option V} (hloader : ∀ k x, contents k = some x → loader k = some x) :
    Backed contents ∅ (c.setLoader loader) where
  correct := h
  loaded k x hk _ := hloader k x hk
  recent := recent_empty _

namespace Backed

variable {contents contents' : K → Option V} {T S : Finset K} {c c' : LazyCache K V}
  {P : K → Prop}

/-- **A backed key shows its content.** -/
theorem view_eq (h : Backed contents T c) (hk : contents k = some x) :
    c.view k = some x := by
  by_cases hcached : (c.cache.peek k).isSome
  · exact h.correct.view_eq_of_cached hk hcached
  · have hold : k ∉ T := fun hT => hcached (h.recent.isSome_peek hT)
    rw [view, not_isSome_iff_eq_none.1 hcached, none_or, h.loaded k x hk hold]

/-- Writing a key: its content changes, it becomes one of the last used, and the contents of other
keys may be forgotten. -/
theorem put (h : Backed contents T c) (hk : contents' k = some v)
    (hsub : ∀ k' x, k' ≠ k → contents' k' = some x → contents k' = some x)
    (hroom : (insert k T).card ≤ c.cache.cap) : Backed contents' (insert k T) (c.put k v) where
  correct := h.correct.put hk hsub
  loaded k' x hk' hold := by
    rw [Finset.mem_insert, not_or] at hold
    exact h.loaded k' x (hsub k' x hold.1 hk') hold.2
  recent := h.recent.put v hroom

lemma get (h : Backed contents T c) (hk : contents k = some x)
    (hroom : (insert k T).card ≤ c.cache.cap) : Backed contents (insert k T) (c.get k).2 := by
  rw [get_snd, h.view_eq hk]
  exact h.put hk (fun _ _ _ h => h) hroom

/-- Reads of keys with content, with nothing to protect from being displaced. -/
theorem reads (h : Backed contents ∅ c) (hreads : Reads P c c')
    (hP : ∀ k, P k → (contents k).isSome) : Backed contents ∅ c' := by
  apply hreads.invariant (I := Backed contents ∅) ?_ h
  intro c k hk hc
  obtain ⟨x, hx⟩ := isSome_iff_exists.1 (hP k hk)
  refine ⟨hc.correct.get hx (hc.view_eq hx), fun k' y hk' hT => ?_, recent_empty _⟩
  rw [get_snd, hc.view_eq hx]
  exact hc.loaded k' y hk' hT

/-- Reads of keys with content. When some keys were used last, there must be room for them and for
all that is read. -/
theorem reads_of_room (h : Backed contents T c) (hreads : Reads P c c')
    (hP : ∀ k, P k → (contents k).isSome) (hT : T ⊆ S) (hS : T = ∅ ∨ ∀ k, P k → k ∈ S)
    (hroom : S.card ≤ c.cache.cap) : ∃ T' ⊆ S, Backed contents T' c' := by
  rcases hS with rfl | hS
  · exact ⟨∅, hT, h.reads hreads hP⟩
  induction hreads generalizing T with
  | refl => exact ⟨T, hT, h⟩
  | @get c c' k hk _ ih =>
    obtain ⟨x, hx⟩ := isSome_iff_exists.1 (hP k hk)
    have hsub : insert k T ⊆ S := Finset.insert_subset (hS k hk) hT
    have hread := h.get hx ((Finset.card_le_card hsub).trans hroom)
    exact ih hread hsub (by rw [cap_get]; exact hroom)

lemma evict (h : Backed contents T c) (hk : k ∉ T)
    (hsub : ∀ k' x, contents' k' = some x → contents k' = some x ∧ k' ≠ k) :
    Backed contents' T (c.evict k) where
  correct k' x v hk' hpeek := by
    obtain ⟨hold, hne⟩ := hsub k' x hk'
    rw [LazyCache.evict, peek_remove_of_ne _ hne] at hpeek
    exact h.correct k' x v hold hpeek
  loaded k' x hk' hT := h.loaded k' x (hsub k' x hk').1 hT
  recent := h.recent.remove hk

lemma of_none (h : ∀ k, contents k = none) (c : LazyCache K V) : Backed contents ∅ c where
  correct k x v hk := by
    rw [h k] at hk
    cases hk
  loaded k x hk := by
    rw [h k] at hk
    cases hk
  recent := recent_empty _

lemma evictAll {keys : List K} (h : Backed contents ∅ c) (hkeys : ∀ k ∈ keys, contents k = none) :
    Backed contents ∅ (keys.foldl LazyCache.evict c) := by
  induction keys generalizing c with
  | nil => exact h
  | cons k keys ih =>
    refine ih (h.evict (Finset.notMem_empty k) (fun k' x hk' => ⟨hk', ?_⟩))
      (fun k' hk' => hkeys k' (List.mem_cons_of_mem _ hk'))
    rintro rfl
    rw [hkeys k' List.mem_cons_self] at hk'
    cases hk'

lemma mono (h : Backed contents T c) (hsub : ∀ k x, contents' k = some x → contents k = some x) :
    Backed contents' T c where
  correct := h.correct.mono hsub
  loaded k x hk := h.loaded k x (hsub k x hk)
  recent := h.recent

lemma resize (h : Backed contents ∅ c) (cap : ℕ) (hcap : 0 < cap) :
    Backed contents ∅ (c.resize cap hcap) where
  correct k x v hk hpeek := h.correct k x v hk (peek_of_peek_resize hpeek)
  loaded := h.loaded
  recent := recent_empty _

lemma undisturbed {c₀ : LazyCache K V} {R : Finset K} {D : K → Prop} (h : Backed contents ∅ c₀)
    (hc : Undisturbed c₀ R D c) (hD : ∀ k x, contents k = some x → ¬D k) :
    Backed contents ∅ c where
  correct k x v hk hpeek := by
    obtain ⟨hvalue, -⟩ := hc.shown k v (hD k x hk) hpeek
    rw [h.view_eq hk, h.loaded k x hk (Finset.notMem_empty k)] at hvalue
    exact (some.inj (hvalue.elim id id)).symm
  loaded k x hk hT := by
    rw [hc.load_eq]
    exact h.loaded k x hk hT
  recent := recent_empty _

end Backed

end LazyCache

end ErgoNode
