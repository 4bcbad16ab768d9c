import Mathlib.Data.Set.Lattice

/-!
# Undo logs over a shared store

A store holds the parts of several versions of a value. The newest is complete in it. Of an older
one some parts are gone, and the undo record of each younger version gives back what that version
took out. `Covers stored versions` says that this works out: `versions` are newest first, each with
its parts and with what its undo record gives back.
-/

namespace ErgoNode

variable {L : Type*}

/-- A version of a value over a store of parts. -/
structure LoggedVersion (L : Type*) where
  parts : Set L
  givesBack : Set L

/-- The store after the undo records of `undone` are given back. -/
def giveBack (stored : Set L) (undone : List (LoggedVersion L)) : Set L :=
  undone.foldl (fun s v => s ∪ v.givesBack) stored

lemma giveBack_mono {stored stored' : Set L} (h : stored ⊆ stored') (undone : List (LoggedVersion L)) :
    giveBack stored undone ⊆ giveBack stored' undone := by
  induction undone generalizing stored stored' with
  | nil => exact h
  | cons v vs ih => exact ih (Set.union_subset_union_left _ h)

/-- Every version is complete once the younger ones are undone. -/
def Covers : Set L → List (LoggedVersion L) → Prop
  | _, [] => True
  | stored, v :: vs => v.parts ⊆ stored ∧ Covers (stored ∪ v.givesBack) vs

namespace Covers

variable {stored stored' : Set L} {v : LoggedVersion L} {vs : List (LoggedVersion L)}

lemma mono (h : Covers stored vs) (hsub : stored ⊆ stored') : Covers stored' vs := by
  induction vs generalizing stored stored' with
  | nil => trivial
  | cons v vs ih => exact ⟨h.1.trans hsub, ih h.2 (Set.union_subset_union_left _ hsub)⟩

lemma commit (h : Covers stored vs) (hparts : v.parts ⊆ stored')
    (hkept : stored ⊆ stored' ∪ v.givesBack) : Covers stored' (v :: vs) :=
  ⟨hparts, h.mono hkept⟩

lemma take (h : Covers stored vs) (k : ℕ) : Covers stored (vs.take k) := by
  induction k generalizing stored vs with
  | zero => trivial
  | succ k ih =>
    cases vs with
    | nil => trivial
    | cons v vs => exact ⟨h.1, ih h.2⟩

lemma undo (h : Covers stored vs) (k : ℕ) : Covers (giveBack stored (vs.take k)) (vs.drop k) := by
  induction k generalizing stored vs with
  | zero => exact h
  | succ k ih =>
    cases vs with
    | nil => trivial
    | cons v vs => exact ih h.2

end Covers

end ErgoNode
