import Mathlib.Data.List.Forall2

/-!
# Sequences of checks in `Except`

A validator is a sequence of checks, each of which either lets the rest run or stops it with an
error. `require` is one check; the inversion rules say what a sequence that ended in `ok` passed.
-/

namespace ErgoNode

open List

universe u v

variable {ε : Type u} {α β : Type v} {x : Except ε α} {e : ε} {a : α}

def require (p : Prop) [Decidable p] (e : ε) : Except ε Unit :=
  if p then .ok () else .error e

@[simp]
lemma require_eq_ok {p : Prop} [Decidable p] {u : Unit} :
    require p e = .ok u ↔ p := by
  unfold require
  split <;> simp_all

@[simp]
lemma ok_bind (a : α) (f : α → Except ε β) : ((.ok a : Except ε α) >>= f) = f a := rfl

@[simp]
lemma bind_eq_ok {f : α → Except ε β} {b : β} :
    (x >>= f) = .ok b ↔ ∃ a, x = .ok a ∧ f a = .ok b := by
  cases x with
  | ok a => simp [bind, Except.bind]
  | error e => simp [bind, Except.bind]

@[simp]
lemma require_eq_error {p : Prop} [Decidable p] {e' : ε} :
    require p e = .error e' ↔ ¬p ∧ e = e' := by
  unfold require
  split <;> simp_all

@[simp]
lemma bind_eq_error {f : α → Except ε β} :
    (x >>= f) = .error e ↔ x = .error e ∨ ∃ a, x = .ok a ∧ f a = .error e := by
  cases x with
  | ok a => simp [bind, Except.bind]
  | error e => simp [bind, Except.bind]

lemma ite_ok (c : Prop) [Decidable c] (a b : α) :
    (if c then (.ok a : Except ε α) else .ok b) = .ok (if c then a else b) :=
  (apply_ite Except.ok c a b).symm

lemma map_eq_ok {f : α → β} {b : β} :
    x.map f = .ok b ↔ ∃ a, x = .ok a ∧ f a = b := by
  cases x with
  | ok a => simp [Except.map]
  | error e => simp [Except.map]

lemma toOption_eq_some_iff : x.toOption = some a ↔ x = .ok a := by
  cases x with
  | ok b => simp [Except.toOption]
  | error e => simp [Except.toOption]

@[simp]
lemma mapError_eq_ok {ε' : Type u} {f : ε → ε'} :
    x.mapError f = .ok a ↔ x = .ok a := by
  cases x with
  | ok b => simp [Except.mapError]
  | error e => simp [Except.mapError]

lemma mapM_eq_ok_iff {γ : Type v} {f : γ → Except ε α} {xs : List γ} {ys : List α} :
    xs.mapM f = .ok ys ↔ List.Forall₂ (fun x y => f x = .ok y) xs ys := by
  induction xs generalizing ys with
  | nil =>
    rw [mapM_nil, forall₂_nil_left_iff]
    exact ⟨fun h => (Except.ok.inj h).symm, fun h => h ▸ rfl⟩
  | cons x xs ih =>
    rw [mapM_cons, bind_eq_ok, forall₂_cons_left_iff]
    constructor
    · rintro ⟨y, hy, hrest⟩
      obtain ⟨ys', hys', hcons⟩ := bind_eq_ok.1 hrest
      exact ⟨y, ys', hy, ih.1 hys', (Except.ok.inj hcons).symm⟩
    · rintro ⟨y, ys', hy, hys', rfl⟩
      exact ⟨y, hy, bind_eq_ok.2 ⟨ys', ih.2 hys', rfl⟩⟩

lemma forall₂_exists_iff {α β γ : Type*} {R : α → γ → Prop} {f : γ → β} {xs : List α}
    {ys : List β} :
    List.Forall₂ (fun x y => ∃ z, R x z ∧ y = f z) xs ys ↔
      ∃ zs, List.Forall₂ R xs zs ∧ ys = zs.map f := by
  constructor
  · intro h
    induction h with
    | nil => exact ⟨[], .nil, rfl⟩
    | cons hxy _ ih =>
      obtain ⟨z, hz, rfl⟩ := hxy
      obtain ⟨zs, hzs, rfl⟩ := ih
      exact ⟨z :: zs, .cons hz hzs, rfl⟩
  · rintro ⟨zs, hzs, rfl⟩
    rw [forall₂_map_right_iff]
    exact hzs.imp (fun _ z hz => ⟨z, hz, rfl⟩)

lemma eq_ok_of_any [DecidableEq α] (h : x.toOption.any (fun b => b = a) = true) : x = .ok a := by
  cases x with
  | ok b => simpa [Except.toOption] using h
  | error e => simp [Except.toOption] at h

lemma eq_error_of_isError [DecidableEq ε]
    (h : (match x with | .error e' => decide (e' = e) | .ok _ => false) = true) : x = .error e := by
  cases x with
  | ok b => simp at h
  | error e' => simpa using h

lemma mapM_congr {γ : Type v} {f g : γ → Except ε α} {xs : List γ} (h : ∀ x ∈ xs, f x = g x) :
    xs.mapM f = xs.mapM g := by
  induction xs with
  | nil => rfl
  | cons x xs ih =>
    rw [mapM_cons, mapM_cons, h x mem_cons_self, ih (fun y hy => h y (mem_cons_of_mem x hy))]

lemma exists_of_forM_eq_error {γ : Type v} {f : γ → Except ε PUnit} {xs : List γ}
    (h : xs.forM f = .error e) : ∃ x ∈ xs, f x = .error e := by
  induction xs with
  | nil => simp [List.forM, pure, Except.pure] at h
  | cons x xs ih =>
    rw [List.forM, bind_eq_error] at h
    rcases h with h | ⟨_, -, h⟩
    · exact ⟨x, mem_cons_self, h⟩
    · obtain ⟨y, hy, hfy⟩ := ih h
      exact ⟨y, mem_cons_of_mem _ hy, hfy⟩

/-! ## Two folds in lockstep -/

section Lockstep

variable {σ τ γ : Type v} {f : σ → γ → Except ε σ} {g : τ → γ → Option τ} {good : σ → Prop}
  {R : List γ → σ → τ → Prop}

lemma good_of_foldlM (hgood : ∀ s a s', f s a = .ok s' → good s' → good s) {as : List γ}
    {s s' : σ} (h : as.foldlM f s = .ok s') (hs' : good s') : good s := by
  induction as generalizing s with
  | nil =>
    cases h
    exact hs'
  | cons a as ih =>
    rw [foldlM_cons, bind_eq_ok] at h
    obtain ⟨s₁, hstep, h⟩ := h
    exact hgood s a s₁ hstep (ih h)

/-- Two folds over one list: the second ends exactly if the first ends well. -/
theorem foldlM_lockstep (hgood : ∀ s a s', f s a = .ok s' → good s' → good s)
    (hR : ∀ as s t, R as s t → good s)
    (hstep : ∀ a as s t, R (a :: as) s t →
      ((∃ t', g t a = some t') ↔ ∃ s', f s a = .ok s' ∧ good s') ∧
        ∀ s' t', f s a = .ok s' → good s' → g t a = some t' → R as s' t')
    {as : List γ} {s : σ} {t : τ} (h : R as s t) :
    ((∃ t', as.foldlM g t = some t') ↔ ∃ s', as.foldlM f s = .ok s' ∧ good s') ∧
      ∀ s' t', as.foldlM f s = .ok s' → good s' → as.foldlM g t = some t' → R [] s' t' := by
  induction as generalizing s t with
  | nil =>
    refine ⟨⟨fun _ => ⟨s, rfl, hR _ s t h⟩, fun _ => ⟨t, rfl⟩⟩, ?_⟩
    intro s' t' hs' _ ht'
    cases hs'
    cases ht'
    exact h
  | cons a as ih =>
    obtain ⟨hiff, hnext⟩ := hstep a as s t h
    refine ⟨⟨?_, ?_⟩, ?_⟩
    · rintro ⟨t', ht'⟩
      rw [foldlM_cons, Option.bind_eq_bind, Option.bind_eq_some_iff] at ht'
      obtain ⟨t₁, ht₁, ht'⟩ := ht'
      obtain ⟨s₁, hs₁, hgood₁⟩ := hiff.1 ⟨t₁, ht₁⟩
      obtain ⟨s', hs', hgood'⟩ := (ih (hnext s₁ t₁ hs₁ hgood₁ ht₁)).1.1 ⟨t', ht'⟩
      exact ⟨s', by rw [foldlM_cons, hs₁]; exact hs', hgood'⟩
    · rintro ⟨s', hs', hgood'⟩
      rw [foldlM_cons, bind_eq_ok] at hs'
      obtain ⟨s₁, hs₁, hs'⟩ := hs'
      have hgood₁ := good_of_foldlM hgood hs' hgood'
      obtain ⟨t₁, ht₁⟩ := hiff.2 ⟨s₁, hs₁, hgood₁⟩
      obtain ⟨t', ht'⟩ := (ih (hnext s₁ t₁ hs₁ hgood₁ ht₁)).1.2 ⟨s', hs', hgood'⟩
      exact ⟨t', by rw [foldlM_cons, ht₁]; exact ht'⟩
    · intro s' t' hs' hgood' ht'
      rw [foldlM_cons, bind_eq_ok] at hs'
      obtain ⟨s₁, hs₁, hs'⟩ := hs'
      rw [foldlM_cons, Option.bind_eq_bind, Option.bind_eq_some_iff] at ht'
      obtain ⟨t₁, ht₁, ht'⟩ := ht'
      have hgood₁ := good_of_foldlM hgood hs' hgood'
      exact (ih (hnext s₁ t₁ hs₁ hgood₁ ht₁)).2 s' t' hs' hgood' ht'

end Lockstep

lemma mapM_eq_some_map {γ : Type u} {f : γ → Option α} {g : γ → α} {xs : List γ}
    (h : ∀ x ∈ xs, f x = some (g x)) : xs.mapM f = some (xs.map g) := by
  induction xs with
  | nil => rfl
  | cons x xs ih =>
    rw [mapM_cons, h x (by simp), ih (fun y hy => h y (by simp [hy]))]
    rfl

lemma mapM_eq_none {γ : Type u} {f : γ → Option α} {xs : List γ} {x : γ} (hmem : x ∈ xs)
    (h : f x = none) : xs.mapM f = none := by
  induction xs with
  | nil => cases hmem
  | cons y ys ih =>
    rw [mapM_cons]
    rcases mem_cons.1 hmem with rfl | hmem
    · rw [h]
      rfl
    · rw [ih hmem]
      cases f y <;> rfl

end ErgoNode
