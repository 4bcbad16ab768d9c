import Mathlib.Tactic.Common

/-!
# Runs of a transition function

A system is a total step function; an interleaving is a list of events, and a run is its fold. A
condition on steps is checked in the state each step starts from. `MeetsAll` says that every step
of a run meets the condition, and its invariant rule is the induction over the run.
-/

namespace ErgoNode

universe u v

variable {S : Type u} {E : Type v} {events : List E} {P : S → Prop}

/-- Every step of the run of `events` from `s` starts in a state that meets the condition. -/
def MeetsAll (step : S → E → S) (cond : S → E → Prop) : S → List E → Prop
  | _, [] => True
  | s, e :: events => cond s e ∧ MeetsAll step cond (step s e) events

namespace MeetsAll

variable {step : S → E → S} {cond : S → E → Prop}

def decideAll (step : S → E → S) (cond : S → E → Prop) [∀ s e, Decidable (cond s e)] :
    ∀ (s : S) (events : List E), Decidable (MeetsAll step cond s events)
  | _, [] => .isTrue trivial
  | s, e :: events =>
    have := decideAll step cond (step s e) events
    inferInstanceAs (Decidable (cond s e ∧ MeetsAll step cond (step s e) events))

instance [∀ s e, Decidable (cond s e)] (s : S) (events : List E) :
    Decidable (MeetsAll step cond s events) := decideAll step cond s events

lemma invariant (hstep : ∀ s e, P s → cond s e → P (step s e)) {s : S}
    (h : MeetsAll step cond s events) (hs : P s) : P (events.foldl step s) := by
  induction events generalizing s with
  | nil => exact hs
  | cons e events ih => exact ih h.2 (hstep s e hs h.1)

lemma invariant_of_mem {I : E → Prop} (hstep : ∀ s e, I e → P s → cond s e → P (step s e)) {s : S}
    (h : MeetsAll step cond s events) (hI : ∀ e ∈ events, I e) (hs : P s) :
    P (events.foldl step s) := by
  induction events generalizing s with
  | nil => exact hs
  | cons e events ih =>
    exact ih h.2 (fun e' he' => hI e' (List.mem_cons_of_mem _ he'))
      (hstep s e (hI e List.mem_cons_self) hs h.1)

/-- What a step keeps exactly when it meets the condition, a run keeps exactly when all its steps
do. -/
theorem foldl_iff {I : S → Prop} {valid : S → E → Prop} (hI : ∀ s e, I s → valid s e → I (step s e))
    (hstep : ∀ s e, I s → valid s e → (P (step s e) ↔ P s ∧ cond s e)) {s : S} (hs : I s)
    (h : MeetsAll step valid s events) :
    P (events.foldl step s) ↔ P s ∧ MeetsAll step cond s events := by
  induction events generalizing s with
  | nil => exact (and_iff_left trivial).symm
  | cons e events ih =>
    rw [List.foldl_cons, ih (hI s e hs h.1) h.2, hstep s e hs h.1, and_assoc]
    rfl

section Projection

variable {T : Type u} {step' : T → E → T} {f : T → S}

lemma foldl_project (hf : ∀ t e, f (step' t e) = step (f t) e) (t : T) (events : List E) :
    f (events.foldl step' t) = events.foldl step (f t) := by
  induction events generalizing t with
  | nil => rfl
  | cons e events ih => rw [List.foldl_cons, List.foldl_cons, ih, hf]

lemma lift (hf : ∀ t e, f (step' t e) = step (f t) e) {t : T}
    (h : MeetsAll step cond (f t) events) : MeetsAll step' (fun t e => cond (f t) e) t events := by
  induction events generalizing t with
  | nil => trivial
  | cons e events ih => exact ⟨h.1, ih (hf t e ▸ h.2)⟩

end Projection

end MeetsAll

end ErgoNode
