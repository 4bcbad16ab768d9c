import Mathlib.Tactic.Common

/-!
# Depth-first worklists

A loop over a stack of items. Visiting the item on top may fail; otherwise it changes a state and
puts further items on the stack. `worklist` runs the loop for a number of visits, `Drains` is the
loop as a relation. Visiting `xs ++ ys` is visiting `xs` and then `ys`: this turns the loop into a
recursion over the tree that it walks.
-/

namespace ErgoNode

universe u v w

variable {ε : Type u} {σ : Type v} {ι : Type w}

/-- Visit the items of a stack, at most `n` times; `none` when that is not enough. -/
def worklist (visit : σ → ι → Except ε (σ × List ι)) : (n : ℕ) → σ → List ι → Option (Except ε σ)
  | _, s, [] => some (.ok s)
  | 0, _, _ :: _ => none
  | n + 1, s, item :: rest =>
    match visit s item with
    | .error e => some (.error e)
    | .ok (s', items) => worklist visit n s' (items ++ rest)

/-- The loop from a state and a stack ends in a state. -/
inductive Drains (visit : σ → ι → Except ε (σ × List ι)) : σ → List ι → σ → Prop
  | nil (s : σ) : Drains visit s [] s
  | cons {s s' t : σ} {item : ι} {items rest : List ι} (hvisit : visit s item = .ok (s', items))
      (hrest : Drains visit s' (items ++ rest) t) : Drains visit s (item :: rest) t

variable {visit : σ → ι → Except ε (σ × List ι)} {stack : List ι} {s : σ} {item : ι} {n : ℕ}

namespace Drains

lemma eq_of_nil {t : σ} (h : Drains visit s [] t) : t = s := by
  cases h
  rfl

lemma of_cons {t : σ} {rest : List ι} (h : Drains visit s (item :: rest) t) :
    ∃ s' items, visit s item = .ok (s', items) ∧ Drains visit s' (items ++ rest) t := by
  cases h with
  | cons hvisit hrest => exact ⟨_, _, hvisit, hrest⟩

lemma append {s' t : σ} {xs ys : List ι} (hxs : Drains visit s xs s')
    (hys : Drains visit s' ys t) : Drains visit s (xs ++ ys) t := by
  induction hxs with
  | nil s => exact hys
  | cons hvisit _ ih =>
    have hrest := ih hys
    rw [List.append_assoc] at hrest
    exact .cons hvisit hrest

lemma of_append {t : σ} {xs ys : List ι} (h : Drains visit s (xs ++ ys) t) :
    ∃ s', Drains visit s xs s' ∧ Drains visit s' ys t := by
  generalize hstack : xs ++ ys = stack at h
  induction h generalizing xs with
  | nil s =>
    obtain ⟨rfl, rfl⟩ := List.append_eq_nil_iff.1 hstack
    exact ⟨s, .nil s, .nil s⟩
  | @cons s s₁ t item items rest hvisit hrest ih =>
    cases xs with
    | nil =>
      obtain rfl : ys = item :: rest := hstack
      exact ⟨s, .nil s, .cons hvisit hrest⟩
    | cons x xs =>
      cases hstack
      obtain ⟨s', hfirst, hlast⟩ := ih (List.append_assoc items xs ys)
      exact ⟨s', .cons hvisit hfirst, hlast⟩

lemma of_pair {t : σ} {a b : ι} (h : Drains visit s [a, b] t) :
    ∃ s', Drains visit s [a] s' ∧ Drains visit s' [b] t := by
  exact h.of_append

lemma single {s' t : σ} {items : List ι} (hvisit : visit s item = .ok (s', items))
    (hitems : Drains visit s' items t) : Drains visit s [item] t :=
  .cons hvisit (by rwa [List.append_nil])

lemma of_single {t : σ} (h : Drains visit s [item] t) :
    ∃ s' items, visit s item = .ok (s', items) ∧ Drains visit s' items t := by
  obtain ⟨s', items, hvisit, hrest⟩ := h.of_cons
  rw [List.append_nil] at hrest
  exact ⟨s', items, hvisit, hrest⟩

lemma invariant {I : σ → Prop}
    (hvisit : ∀ s item s' items, visit s item = .ok (s', items) → I s → I s') {t : σ}
    (h : Drains visit s stack t) (hs : I s) : I t := by
  induction h with
  | nil s => exact hs
  | cons hok _ ih => exact ih (hvisit _ _ _ _ hok hs)

/-- What holds of an item once it holds of what its visit puts on the stack, holds of all items. -/
theorem visited {P : ι → Prop}
    (hvisit : ∀ s item s' items, visit s item = .ok (s', items) → (∀ i ∈ items, P i) → P item)
    {t : σ} (h : Drains visit s stack t) : ∀ item ∈ stack, P item := by
  induction h with
  | nil s => exact fun _ h => absurd h List.not_mem_nil
  | @cons s s' t item items rest hok _ ih =>
    have hitems : ∀ i ∈ items, P i := fun i hi => ih i (List.mem_append_left _ hi)
    intro i hi
    rcases List.mem_cons.1 hi with rfl | hi
    · exact hvisit s i s' items hok hitems
    · exact ih i (List.mem_append_right _ hi)

end Drains

lemma drains_of_worklist {t : σ} (h : worklist visit n s stack = some (.ok t)) :
    Drains visit s stack t := by
  induction n generalizing s stack with
  | zero =>
    cases stack with
    | nil =>
      obtain rfl := Except.ok.inj (Option.some.inj h)
      exact .nil s
    | cons item rest => cases h
  | succ n ih =>
    cases stack with
    | nil =>
      obtain rfl := Except.ok.inj (Option.some.inj h)
      exact .nil s
    | cons item rest =>
      rw [worklist] at h
      split at h
      · cases h
      next s' items hvisit =>
        exact .cons hvisit (ih h)

lemma worklist_of_drains {t : σ} (h : Drains visit s stack t) :
    ∀ {n : ℕ}, worklist visit n s stack ≠ none → worklist visit n s stack = some (.ok t) := by
  induction h with
  | nil s =>
    intro n _
    cases n <;> rfl
  | cons hvisit _ ih =>
    intro n hn
    cases n with
    | zero => exact absurd rfl hn
    | succ n =>
      rw [worklist, hvisit] at hn ⊢
      exact ih hn

/-- With enough visits the loop ends in a state exactly if the relation says so. -/
theorem worklist_eq_ok_iff {t : σ} (hn : worklist visit n s stack ≠ none) :
    worklist visit n s stack = some (.ok t) ↔ Drains visit s stack t :=
  ⟨drains_of_worklist, fun h => worklist_of_drains h hn⟩

lemma worklist_ne_none (measure : σ → List ι → ℕ)
    (hmeasure : ∀ s item rest s' items, visit s item = .ok (s', items) →
      measure s' (items ++ rest) < measure s (item :: rest))
    (hn : measure s stack < n) : worklist visit n s stack ≠ none := by
  induction n generalizing s stack with
  | zero => exact absurd hn (Nat.not_lt_zero _)
  | succ n ih =>
    cases stack with
    | nil => simp [worklist]
    | cons item rest =>
      rw [worklist]
      split
      · simp
      next s' items hvisit =>
        have hless := hmeasure s item rest s' items hvisit
        exact ih (by omega)

end ErgoNode
