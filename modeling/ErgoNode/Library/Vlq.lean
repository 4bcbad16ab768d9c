import Mathlib.Tactic.Ring

/-!
# Variable-length quantities

Unsigned integers written seven bits a byte, least significant group first, the high bit of a
byte saying that another follows. A reader consumes the bytes of one integer and returns the rest.
-/

namespace ErgoNode

/-- Read continuation groups from shift `7 * k` on, at most `fuel` of them. -/
def getVlqGroups : (fuel k acc : ℕ) → List UInt8 → Option (ℕ × List UInt8)
  | 0, _, _, _ => none
  | _ + 1, _, _, [] => none
  | fuel + 1, k, acc, b :: rest =>
    -- a `u64` accumulator drops the bits that a tenth group pushes past bit 63
    let acc' := (acc + (b.toNat % 128) * 2 ^ (7 * k)) % 2 ^ 64
    if b.toNat < 128 then some (acc', rest) else getVlqGroups fuel (k + 1) acc' rest

/-- Read one unsigned 64-bit integer: groups at shifts 0, 7, ..., 63. -/
def getU64 (bytes : List UInt8) : Option (ℕ × List UInt8) :=
  getVlqGroups 10 0 0 bytes

def getBounded (bound : ℕ) (bytes : List UInt8) : Option (ℕ × List UInt8) :=
  (getU64 bytes).filter (fun r => r.1 < bound)

def getU32 (bytes : List UInt8) : Option (ℕ × List UInt8) := getBounded (2 ^ 32) bytes

def getU16 (bytes : List UInt8) : Option (ℕ × List UInt8) := getBounded (2 ^ 16) bytes

def putVlqGroups : (fuel n : ℕ) → List UInt8
  | 0, _ => []
  | fuel + 1, n =>
    if n < 128 then [UInt8.ofNat n]
    else UInt8.ofNat (n % 128 + 128) :: putVlqGroups fuel (n / 128)

def putVlq (n : ℕ) : List UInt8 := putVlqGroups 10 n

variable {n : ℕ}

lemma getBounded_eq_some {bound : ℕ} {bytes rest : List UInt8} :
    getBounded bound bytes = some (n, rest) ↔ getU64 bytes = some (n, rest) ∧ n < bound := by
  simp [getBounded, Option.filter_eq_some_iff]

lemma getU32_of_getU16 {bytes rest : List UInt8} (h : getU16 bytes = some (n, rest)) :
    getU32 bytes = some (n, rest) := by
  obtain ⟨hread, hlt⟩ := getBounded_eq_some.1 h
  exact getBounded_eq_some.2 ⟨hread, Nat.lt_trans hlt (by decide)⟩

lemma getVlqGroups_last (fuel k acc : ℕ) (rest : List UInt8) (hlast : n < 128)
    (hfits : acc + n * 2 ^ (7 * k) < 2 ^ 64) :
    getVlqGroups (fuel + 1) k acc (UInt8.ofNat n :: rest) = some (acc + n * 2 ^ (7 * k), rest) := by
  have hbyte : (UInt8.ofNat n).toNat = n := by
    rw [UInt8.toNat_ofNat']
    omega
  simp only [getVlqGroups, hbyte, hlast, if_true, Nat.mod_eq_of_lt hlast, Nat.mod_eq_of_lt hfits]

lemma getVlqGroups_putVlqGroups (fuel k acc n : ℕ) (rest : List UInt8)
    (hfuel : n < 128 ^ (fuel + 1)) (hfits : acc + n * 2 ^ (7 * k) < 2 ^ 64) :
    getVlqGroups (fuel + 1) k acc (putVlqGroups (fuel + 1) n ++ rest) =
      some (acc + n * 2 ^ (7 * k), rest) := by
  induction fuel generalizing k acc n with
  | zero =>
    have hlast : n < 128 := by simpa using hfuel
    rw [putVlqGroups, if_pos hlast]
    exact getVlqGroups_last 0 k acc rest hlast hfits
  | succ fuel ih =>
    by_cases hlast : n < 128
    · rw [putVlqGroups, if_pos hlast]
      exact getVlqGroups_last (fuel + 1) k acc rest hlast hfits
    · have hbyte : (UInt8.ofNat (n % 128 + 128)).toNat = n % 128 + 128 := by
        rw [UInt8.toNat_ofNat']
        omega
      -- the low group and the rest make up the number
      have hsplit : n % 128 * 2 ^ (7 * k) + n / 128 * 2 ^ (7 * (k + 1)) = n * 2 ^ (7 * k) := by
        have hpow : 2 ^ (7 * (k + 1)) = 128 * 2 ^ (7 * k) := by
          rw [Nat.mul_add, Nat.pow_add, Nat.mul_comm]
        calc n % 128 * 2 ^ (7 * k) + n / 128 * 2 ^ (7 * (k + 1))
            = (n % 128 + 128 * (n / 128)) * 2 ^ (7 * k) := by
              ring
          _ = n * 2 ^ (7 * k) := by rw [Nat.mod_add_div]
      have hlow : acc + n % 128 * 2 ^ (7 * k) < 2 ^ 64 := by omega
      have hmod : (n % 128 + 128) % 128 = n % 128 := by omega
      rw [putVlqGroups, if_neg hlast, List.cons_append, getVlqGroups]
      simp only [hbyte, hmod, Nat.mod_eq_of_lt hlow]
      rw [if_neg (by omega), ih (k + 1) _ (n / 128) ?_ (by omega)]
      · simp only [Option.some.injEq, Prod.mk.injEq, and_true]
        omega
      · rw [Nat.pow_succ] at hfuel
        exact Nat.div_lt_of_lt_mul (by omega)

lemma getU64_putVlq (h : n < 2 ^ 64) (rest : List UInt8) :
    getU64 (putVlq n ++ rest) = some (n, rest) := by
  have hread := getVlqGroups_putVlqGroups 9 0 0 n rest (Nat.lt_trans h (by decide)) (by simpa using h)
  simpa [getU64, putVlq] using hread

lemma getU64_lt {bytes rest : List UInt8} (h : getU64 bytes = some (n, rest)) :
    n < 2 ^ 64 := by
  suffices hgroups : ∀ fuel k acc bytes, getVlqGroups fuel k acc bytes = some (n, rest) → n < 2 ^ 64
    from hgroups 10 0 0 bytes h
  intro fuel
  induction fuel with
  | zero =>
    intro k acc bytes h
    cases h
  | succ fuel ih =>
    intro k acc bytes h
    match bytes with
    | [] => cases h
    | b :: bytes =>
      rw [getVlqGroups] at h
      split_ifs at h
      · cases h
        exact Nat.mod_lt _ (Nat.two_pow_pos 64)
      · exact ih _ _ _ h

lemma length_putVlq_pos (n : ℕ) : 0 < (putVlq n).length := by
  rw [putVlq, putVlqGroups]
  split
  · simp
  · simp

lemma getBounded_putVlq {bound : ℕ} (hbound : bound ≤ 2 ^ 64) (h : n < bound)
    (rest : List UInt8) : getBounded bound (putVlq n ++ rest) = some (n, rest) :=
  getBounded_eq_some.2 ⟨getU64_putVlq (Nat.lt_of_lt_of_le h hbound) rest, h⟩

lemma getU32_putVlq (h : n < 2 ^ 32) (rest : List UInt8) :
    getU32 (putVlq n ++ rest) = some (n, rest) :=
  getBounded_putVlq (by decide) h rest

lemma getU16_putVlq (h : n < 2 ^ 16) (rest : List UInt8) :
    getU16 (putVlq n ++ rest) = some (n, rest) :=
  getBounded_putVlq (by decide) h rest

end ErgoNode
