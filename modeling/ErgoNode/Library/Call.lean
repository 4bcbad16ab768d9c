import Mathlib.Tactic.Common

/-!
# Calls on a mutable object

A method call on an object either panics, or ends with an error or a result and leaves the object in
some state. Unlike in `Except` over a state, an error does not undo what the call did before it.

`Call` is the monad of such calls. The rules below take a call that ended apart, one step at a time,
and never unfold the monad.
-/

namespace ErgoNode

/-- A call on an object with state `σ`: `none` when it panics. -/
def Call (ε σ α : Type) : Type := σ → Option (Except ε α × σ)

namespace Call

variable {ε σ α β : Type}
variable {m : Call ε σ α} {f : α → Call ε σ β}

instance : Monad (Call ε σ) where
  pure a := fun s => some (.ok a, s)
  bind m f := fun s =>
    match m s with
    | none => none
    | some (.error e, s') => some (.error e, s')
    | some (.ok a, s') => f a s'

def throw (e : ε) : Call ε σ α := fun s => some (.error e, s)

def crash : Call ε σ α := fun _ => none

def state : Call ε σ σ := fun s => some (.ok s, s)

def read (f : σ → α × σ) : Call ε σ α := fun s => some (.ok (f s).1, (f s).2)

def modify (f : σ → σ) : Call ε σ Unit := fun s => some (.ok (), f s)

/-- End with the error of a check, or go on with its result. -/
def ofExcept (x : Except ε α) : Call ε σ α := fun s => some (x, s)

def attempt (m : Call ε σ α) : Call ε σ (Except ε α) := fun s =>
  match m s with
  | none => none
  | some (r, s') => some (.ok r, s')

variable {s s' : σ} {r : Except ε α} {x : Except ε α}

lemma bind_apply (m : Call ε σ α) (f : α → Call ε σ β) (s : σ) :
    (m >>= f) s = match m s with
      | none => none
      | some (.error e, s') => some (.error e, s')
      | some (.ok a, s') => f a s' := rfl

/-! Steps that neither fail nor panic are executed. -/

lemma state_bind (f : σ → Call ε σ β) (s : σ) : (state >>= f) s = f s s := rfl

lemma read_bind (g : σ → α × σ) (f : α → Call ε σ β) (s : σ) :
    (read g >>= f) s = f (g s).1 (g s).2 := rfl

lemma modify_bind (g : σ → σ) (f : Unit → Call ε σ β) (s : σ) :
    (modify g >>= f) s = f () (g s) := rfl

lemma bind_eq_ok {b : β} :
    (m >>= f) s = some (.ok b, s') ↔
      ∃ a s₁, m s = some (.ok a, s₁) ∧ f a s₁ = some (.ok b, s') := by
  rw [bind_apply]
  constructor
  · intro h
    split at h
    · cases h
    · simp at h
    next a s₁ hm =>
      exact ⟨a, s₁, hm, h⟩
  · rintro ⟨a, s₁, hm, hf⟩
    rwa [hm]

lemma bind_eq_error {e : ε} :
    (m >>= f) s = some (.error e, s') ↔
      m s = some (.error e, s') ∨
        ∃ a s₁, m s = some (.ok a, s₁) ∧ f a s₁ = some (.error e, s') := by
  rw [bind_apply]
  constructor
  · intro h
    split at h
    · cases h
    next e' s₁ hm =>
      rw [hm]
      simpa using h
    next a s₁ hm =>
      exact .inr ⟨a, s₁, hm, h⟩
  · rintro (hm | ⟨a, s₁, hm, hf⟩)
    · rw [hm]
    · rwa [hm]

/-- A sequence of two calls ends in the error of the first, or as the second. -/
theorem bind_eq_some {r : Except ε β} (h : (m >>= f) s = some (r, s')) :
    (∃ e, m s = some (.error e, s') ∧ r = .error e) ∨
      ∃ a s₁, m s = some (.ok a, s₁) ∧ f a s₁ = some (r, s') := by
  cases r with
  | error e =>
    rcases bind_eq_error.1 h with hm | hf
    · exact .inl ⟨e, hm, rfl⟩
    · exact .inr hf
  | ok b => exact .inr (bind_eq_ok.1 h)

/-- After a call that ends with no error, a sequence goes on with its result. -/
theorem bind_eq_some_of_ok {P : α → σ → Prop} {r : Except ε β}
    (hm : ∀ r s₁, m s = some (r, s₁) → ∃ a, r = .ok a ∧ P a s₁) (h : (m >>= f) s = some (r, s')) :
    ∃ a s₁, P a s₁ ∧ f a s₁ = some (r, s') := by
  rcases bind_eq_some h with ⟨e, hcall, -⟩ | ⟨a, s₁, hcall, h⟩
  · obtain ⟨_, hr, -⟩ := hm _ _ hcall
    cases hr
  · obtain ⟨_, hr, ha⟩ := hm _ _ hcall
    cases hr
    exact ⟨a, s₁, ha, h⟩

lemma ofExcept_bind_eq_some {r : Except ε β} (h : (ofExcept x >>= f) s = some (r, s')) :
    (∃ e, r = .error e ∧ s' = s) ∨ ∃ a, x = .ok a ∧ f a s = some (r, s') := by
  cases x with
  | error e =>
    cases h
    exact .inl ⟨e, rfl, rfl⟩
  | ok a => exact .inr ⟨a, rfl, h⟩

lemma pure_eq_some {a : α} : (pure a : Call ε σ α) s = some (r, s') ↔ r = .ok a ∧ s' = s := by
  change some (.ok a, s) = some (r, s') ↔ _
  rw [Option.some_inj, Prod.mk.injEq, eq_comm, eq_comm (a := s)]

lemma throw_eq_some {e : ε} : (throw e : Call ε σ α) s = some (r, s') ↔ r = .error e ∧ s' = s := by
  change some (.error e, s) = some (r, s') ↔ _
  rw [Option.some_inj, Prod.mk.injEq, eq_comm, eq_comm (a := s)]

lemma crash_eq_some : (crash : Call ε σ α) s = some (r, s') ↔ False := by
  simp [crash]

lemma modify_eq_some {f : σ → σ} {r : Except ε Unit} :
    (modify f : Call ε σ Unit) s = some (r, s') ↔ r = .ok () ∧ s' = f s := by
  change some (.ok (), f s) = some (r, s') ↔ _
  rw [Option.some_inj, Prod.mk.injEq, eq_comm, eq_comm (a := f s)]

lemma ofExcept_eq_some :
    (ofExcept x : Call ε σ α) s = some (r, s') ↔ r = x ∧ s' = s := by
  change some (x, s) = some (r, s') ↔ _
  rw [Option.some_inj, Prod.mk.injEq, eq_comm, eq_comm (a := s)]

lemma attempt_eq_some {r : Except ε (Except ε α)} :
    (attempt m) s = some (r, s') ↔ ∃ r', m s = some (r', s') ∧ r = .ok r' := by
  unfold attempt
  constructor
  · intro h
    split at h
    · cases h
    next r' s₁ hm =>
      cases h
      exact ⟨r', hm, rfl⟩
  · rintro ⟨r', hm, rfl⟩
    rw [hm]

lemma attempt_bind_eq_some {f : Except ε α → Call ε σ β} {r : Except ε β}
    (h : (attempt m >>= f) s = some (r, s')) :
    ∃ r' s₁, m s = some (r', s₁) ∧ f r' s₁ = some (r, s') :=
  bind_eq_some_of_ok (fun _ _ hcall => (attempt_eq_some.1 hcall).imp fun _ h => h.symm) h

/-! ## Invariants

What a call keeps is proved from the steps it is made of, with a postcondition for the results that
later steps use. -/

/-- From a state in `I` the call ends in a state in `I`, whatever its result is, and a result that
is not an error is in `Q`. -/
def Keeps (I : σ → Prop) (Q : α → Prop) (m : Call ε σ α) : Prop :=
  ∀ s r s', I s → m s = some (r, s') → I s' ∧ ∀ a, r = .ok a → Q a

variable {I : σ → Prop} {Q : α → Prop} {R : β → Prop}

lemma keeps_bind {m : Call ε σ α} {f : α → Call ε σ β} (hm : Keeps I Q m)
    (hf : ∀ a, Q a → Keeps I R (f a)) : Keeps I R (m >>= f) := by
  intro s r s' hs h
  rcases bind_eq_some h with ⟨e, hmcall, rfl⟩ | ⟨a, s₁, hmcall, h⟩
  · exact ⟨(hm s _ s' hs hmcall).1, fun b hb => by cases hb⟩
  · obtain ⟨hs₁, hQ⟩ := hm s _ s₁ hs hmcall
    exact hf a (hQ a rfl) s₁ r s' hs₁ h

lemma keeps_pure {a : α} (ha : Q a) : Keeps I Q (pure a : Call ε σ α) := by
  intro s r s' hs h
  obtain ⟨rfl, rfl⟩ := pure_eq_some.1 h
  exact ⟨hs, fun b hb => Except.ok.inj hb ▸ ha⟩

lemma keeps_throw (e : ε) : Keeps I Q (throw e : Call ε σ α) := by
  intro s r s' hs h
  obtain ⟨rfl, rfl⟩ := throw_eq_some.1 h
  exact ⟨hs, fun b hb => by cases hb⟩

lemma keeps_crash : Keeps I Q (crash : Call ε σ α) :=
  fun _ _ _ _ h => (crash_eq_some.1 h).elim

lemma keeps_state : Keeps I I (state : Call ε σ σ) := by
  intro s r s' hs h
  cases h
  exact ⟨hs, fun a ha => Except.ok.inj ha ▸ hs⟩

lemma keeps_read {f : σ → α × σ} (hf : ∀ s, I s → I (f s).2 ∧ Q (f s).1) :
    Keeps I Q (read f : Call ε σ α) := by
  intro s r s' hs h
  cases h
  exact ⟨(hf s hs).1, fun a ha => Except.ok.inj ha ▸ (hf s hs).2⟩

lemma keeps_modify {f : σ → σ} (hf : ∀ s, I s → I (f s)) :
    Keeps I (fun _ => True) (modify f : Call ε σ Unit) := by
  intro s r s' hs h
  obtain ⟨-, rfl⟩ := modify_eq_some.1 h
  exact ⟨hf s hs, fun _ _ => trivial⟩

lemma keeps_ofExcept (x : Except ε α) : Keeps I (fun _ => True) (ofExcept x : Call ε σ α) := by
  intro s r s' hs h
  obtain ⟨-, rfl⟩ := ofExcept_eq_some.1 h
  exact ⟨hs, fun _ _ => trivial⟩

lemma keeps_attempt {m : Call ε σ α} (hm : Keeps I Q m) :
    Keeps I (fun _ => True) (attempt m) := by
  intro s r s' hs h
  obtain ⟨r', hcall, -⟩ := attempt_eq_some.1 h
  exact ⟨(hm s r' s' hs hcall).1, fun _ _ => trivial⟩

end Call

end ErgoNode
