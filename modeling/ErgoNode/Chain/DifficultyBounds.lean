import ErgoNode.Chain.CheckedDifficulty
import Mathlib.Algebra.BigOperators.Ring.List
import Mathlib.Tactic.IntervalCases

/-!
# How far a difficulty moves

On epoch ends whose heights and timestamps increase: from EIP-37 on no division is by zero, and the
result is the compact form of a value between half and one and a half of the last difficulty. Before
it, the regression over epochs of the desired length at one difficulty returns that difficulty. The
compact form keeps the leading bytes of a value only.
-/

namespace ErgoNode

open List

/-! ## The bound of EIP-37 -/

/-- `w` is `v` without its trailing bits: between zero and `v`, and off by less than one part in
`2 ^ 15`. -/
structure Truncated (v w : ℤ) : Prop where
  between : w ∈ Set.uIcc 0 v
  close : |v - w| * 2 ^ 15 ≤ |v|

def dampedRange (reference : ℤ) : Set ℤ := Set.uIcc (reference.tdiv 2) ((reference * 3).tdiv 2)

lemma capDifficulty_mem_dampedRange (diff reference : ℤ) :
    capDifficulty diff reference ∈ dampedRange reference := by
  simp only [capDifficulty, dampedRange]
  split
  · exact Set.right_mem_uIcc
  · split
    · exact Set.left_mem_uIcc
    · exact Set.mem_uIcc.2 (.inl ⟨by omega, by omega⟩)

namespace DifficultySettings

variable {headers : List Header} {last : Header}

lemma combineEstimates_mem_dampedRange (lastDiff predictive classic : ℤ) :
    combineEstimates lastDiff predictive classic ∈ dampedRange lastDiff :=
  capDifficulty_mem_dampedRange _ _

/-- **The bound of EIP-37**: on two or more epoch ends of increasing heights and timestamps no
division is by zero, and the result decodes to the truncation of a value between half and one and a
half of the last difficulty, if the compact form truncates there. -/
theorem eip37Calculate?_bounded (s : DifficultySettings) (bits : CompactBits)
    (epochLength initialNBits : ℕ) (hlen : 2 ≤ headers.length)
    (hheights : headers.Pairwise (fun a b => a.height < b.height))
    (htimes : headers.Pairwise (fun a b => a.timestamp < b.timestamp))
    (hbound : ∀ h ∈ headers, h.timestamp < 2 ^ 64) (hlast : headers.getLast? = some last)
    (hbits : ∀ v ∈ dampedRange (bits.decode last.nBits),
      bits.encode v ≠ 0 ∧ Truncated v (bits.decode (bits.encode v))) :
    (∀ data : List (ℤ × ℤ), data ≠ [] → (data.map Prod.fst).Nodup →
      ∃ y, interpolate? data epochLength = some y) ∧
    (∃ classic, s.bitcoinCalculate? bits headers epochLength = some classic) ∧
    ∃ nBits v, s.eip37Calculate? bits headers epochLength initialNBits = some (.ok nBits) ∧
      v ∈ dampedRange (bits.decode last.nBits) ∧ Truncated v (bits.decode nBits) := by
  have hticking := ticking_of_isChain hbound htimes.isChain
  have hnodup : (headers.map (·.height)).Nodup := by
    rw [Nodup, pairwise_map]
    exact hheights.imp Nat.ne_of_lt
  have hne : headers ≠ [] := by
    rintro rfl
    simp at hlen
  obtain ⟨last', start, rest, hends⟩ := exists_ends hlen
  obtain rfl : last' = last := by
    rw [← head?_reverse, hends] at hlast
    exact Option.some.inj hlast
  obtain ⟨classic, hclassic⟩ := bitcoinCalculate?_isSome s bits hlen hticking epochLength
  obtain ⟨predictive, hpredictive⟩ := calculate?_eq_ok hne
    (calculate?_ne_none s bits hnodup hticking epochLength initialNBits)
  -- Both caps are around the last difficulty, so the estimates do not matter.
  have hmem := combineEstimates_mem_dampedRange (bits.decode last'.nBits) (bits.decode predictive)
    classic
  obtain ⟨hencode, htruncated⟩ := hbits _ hmem
  refine ⟨fun data hdata hdistinct => interpolate?_isSome hdata hdistinct _, ⟨classic, hclassic⟩,
    bits.encode _, _, ?_, hmem, htruncated⟩
  rw [eip37Calculate?, hends, hpredictive]
  simp only [Option.bind_eq_bind, Option.bind_some, hclassic, normalizeToNBits, if_neg hencode]

def epochEnd (height timestamp nBits : ℕ) : Header where
  version := 2
  id := height
  parentId := height - 1
  stateRoot := 0
  timestamp := timestamp
  nBits := nBits
  height := height
  votes := ⟨0, 0, 0⟩

def eip37Settings : DifficultySettings := ⟨128, 120000, 8, none, some 0, some 128⟩

def longEpochEnd : Header := epochEnd 256 (10 ^ 12) 16973824

def longEpoch : List Header := [epochEnd 128 0 16973824, longEpochEnd]

lemma truncated_of_mem_dampedRange_three (v : ℤ)
    (hv : v ∈ dampedRange (CompactBits.standard.decode longEpochEnd.nBits)) :
    CompactBits.standard.encode v ≠ 0 ∧
      Truncated v (CompactBits.standard.decode (CompactBits.standard.encode v)) := by
  obtain ⟨hlow, hhigh⟩ : 1 ≤ v ∧ v ≤ 4 := by
    rcases Set.mem_uIcc.1 hv with h | h
    · exact h
    · exact absurd (h.1.trans h.2) (by decide)
  have hexact : CompactBits.standard.encode v ≠ 0 ∧
      CompactBits.standard.decode (CompactBits.standard.encode v) = v := by
    interval_cases v <;> decide
  refine ⟨hexact.1, ?_⟩
  rw [hexact.2]
  exact ⟨Set.right_mem_uIcc, by simp⟩

theorem eip37Calculate?_bounded_longEpoch :
    ∃ nBits v, eip37Settings.eip37Calculate? .standard longEpoch 128 16842752 =
        some (.ok nBits) ∧
      v ∈ dampedRange (CompactBits.standard.decode longEpochEnd.nBits) ∧
      Truncated v (CompactBits.standard.decode nBits) := by
  have hlast : longEpoch.getLast? = some longEpochEnd := rfl
  exact (eip37Calculate?_bounded eip37Settings .standard 128 16842752 (by decide) (by decide)
    (by decide) (by decide) hlast truncated_of_mem_dampedRange_three).2.2

/-- After a very long epoch at difficulty 3 the difficulty is 1: the half of 3 is rounded down. -/
theorem eip37Calculate?_below_half :
    longEpoch.Pairwise (fun a b => a.height < b.height ∧ a.timestamp < b.timestamp) ∧
      longEpoch.getLast? = some longEpochEnd ∧
      CompactBits.standard.decode longEpochEnd.nBits = 3 ∧
      eip37Settings.eip37Calculate? .standard longEpoch 128 16842752 = some (.ok 16842752) ∧
      CompactBits.standard.encode 1 = 16842752 ∧ CompactBits.standard.decode 16842752 = 1 := by
  decide +kernel

/-! ## The fixed point of the regression -/

lemma interpolate?_const {xs : List ℤ} (hne : xs ≠ []) (hnodup : xs.Nodup) (c epochLength : ℤ) :
    interpolate? (xs.map (fun x => (x, c))) epochLength = some c := by
  by_cases hone : xs.length = 1
  · obtain ⟨x, rfl⟩ := length_eq_one_iff.1 hone
    rfl
  have hlen : 2 ≤ xs.length := by
    have := length_pos_iff.2 hne
    omega
  have hheights : (xs.map (fun x => (x, c))).map Prod.fst = xs := by simp [Function.comp_def]
  have hxy : ((xs.map (fun x => (x, c))).map (fun p => p.1 * p.2)).sum = xs.sum * c := by
    rw [map_map]
    exact sum_map_mul_right xs id c |>.trans (by rw [map_id])
  have hy : ((xs.map (fun x => (x, c))).map (fun p => p.2)).sum = xs.length * c := by
    simp [Function.comp_def]
  have hx : ((xs.map (fun x => (x, c))).map (fun p => p.1)).sum = xs.sum := by rw [hheights]
  rw [interpolate?_of_two_le (by rwa [hheights]) (by simpa using hlen)]
  simp only [hxy, hy, hx, length_map]
  -- The covariance cancels, so the slope is zero and the intercept is the value.
  have hcount : (xs.length : ℤ) ≠ 0 := by omega
  rw [show xs.sum * c * (xs.length : ℤ) - xs.sum * (xs.length * c) = 0 by ring, zero_mul,
    Int.zero_tdiv, zero_mul, zero_mul, sub_zero, Int.zero_tdiv, add_zero,
    show (xs.length : ℤ) * c * 1000000000 = c * 1000000000 * xs.length by ring,
    Int.mul_tdiv_cancel _ hcount, Int.mul_tdiv_cancel _ (by decide)]

/-- Every epoch took the desired time, at one difficulty in compact form. -/
structure SteadyHistory (s : DifficultySettings) (epochLength nBits : ℕ) (headers : List Header) :
    Prop where
  nonempty : headers ≠ []
  heights : (headers.map (·.height)).Nodup
  nBits_eq : ∀ h ∈ headers, h.nBits = nBits
  paced : headers.IsChain
    (fun a b => b.timestamp = a.timestamp + s.blockIntervalMs * epochLength)
  signed : ∀ h ∈ headers, h.timestamp < 2 ^ 63

namespace SteadyHistory

variable {s : DifficultySettings} {bits : CompactBits} {epochLength nBits : ℕ}

lemma mapM_epochPoint? (h : SteadyHistory s epochLength nBits headers)
    (hpace : s.blockIntervalMs * epochLength ≠ 0) :
    (headers.zip headers.tail).mapM (s.epochPoint? bits epochLength) =
      some ((headers.tail.map (fun x => (x.height : ℤ))).map (fun x => (x, bits.decode nBits))) := by
  have hpoint : ∀ pair ∈ headers.zip headers.tail, s.epochPoint? bits epochLength pair =
      some ((pair.2.height : ℤ), bits.decode nBits) := by
    intro pair hmem
    obtain ⟨hstart, hend⟩ := of_mem_zip hmem
    have hend := mem_of_mem_tail hend
    have hdelta : timeDelta pair.1 pair.2 = (s.blockIntervalMs : ℤ) * epochLength := by
      rw [timeDelta_eq (h.signed _ hstart) (h.signed _ hend), rel_of_mem_zip_tail h.paced hmem]
      push_cast
      ring
    have hne : (s.blockIntervalMs : ℤ) * epochLength ≠ 0 := by exact_mod_cast hpace
    rw [epochPoint?_eq (hdelta ▸ hne), hdelta, h.nBits_eq _ hend, Int.mul_tdiv_cancel _ hne]
  have hends : (headers.zip headers.tail).map Prod.snd = headers.tail := map_snd_zip (by simp)
  rw [mapM_eq_some_map hpoint, map_map]
  conv_rhs => rw [← hends, map_map]
  rfl

lemma timestamp_eq (h : SteadyHistory s epochLength nBits headers)
    (hpace : s.blockIntervalMs * epochLength = 0) {first last : Header}
    (hfirst : headers.head? = some first) (hlast : headers.getLast? = some last) :
    last.timestamp = first.timestamp := by
  have hpaced := h.paced
  rw [hpace] at hpaced
  clear h
  induction headers generalizing first with
  | nil => cases hfirst
  | cons x xs ih =>
    cases hfirst
    cases xs with
    | nil =>
      cases hlast
      rfl
    | cons y ys =>
      obtain ⟨hxy, htail⟩ := isChain_cons_cons.1 hpaced
      rw [ih rfl hlast htail, hxy, Nat.add_zero]

lemma predicted?_eq (h : SteadyHistory s epochLength nBits headers)
    (hpace : s.blockIntervalMs * epochLength ≠ 0) (hlen : 2 ≤ headers.length)
    (hpos : 1 ≤ bits.decode nBits) (initialNBits : ℕ) :
    s.predicted? bits headers epochLength initialNBits = some (bits.decode nBits) := by
  have hheights : (headers.tail.map (fun x => (x.height : ℤ))).Nodup := by
    rw [← Function.comp_def Nat.cast, ← map_map]
    exact (h.heights.sublist ((tail_sublist headers).map _)).map Nat.cast_injective
  have hne : headers.tail.map (fun x => (x.height : ℤ)) ≠ [] := by
    rw [Ne, map_eq_nil_iff, ← length_eq_zero_iff, length_tail]
    omega
  rw [predicted?, h.mapM_epochPoint? hpace, Option.bind_eq_bind, Option.bind_some,
    interpolate?_const hne hheights, Option.bind_eq_bind, Option.bind_some, if_pos hpos]

end SteadyHistory

/-- **The fixed point**: the regression on points of one value returns the value, and the
calculation on a steady history at a difficulty that has a compact form returns that form. -/
theorem calculate?_steady (s : DifficultySettings) (bits : CompactBits) {epochLength nBits : ℕ}
    (initialNBits : ℕ) {xs : List ℤ} (hne : xs ≠ []) (hnodup : xs.Nodup) (c l : ℤ)
    (hsteady : SteadyHistory s epochLength nBits headers)
    (hrepresentable : bits.encode (bits.decode nBits) = nBits) (hnBits : nBits ≠ 0)
    (hpos : 1 ≤ bits.decode nBits) :
    interpolate? (xs.map (fun x => (x, c))) l = some c ∧
      s.calculate? bits headers epochLength initialNBits = some (.ok nBits) := by
  refine ⟨interpolate?_const hne hnodup c l, ?_⟩
  obtain ⟨first, hfirst⟩ := Option.ne_none_iff_exists'.1
    (mt head?_eq_none_iff.1 hsteady.nonempty)
  obtain ⟨last, hlast⟩ := Option.ne_none_iff_exists'.1
    (mt getLast?_eq_none_iff.1 hsteady.nonempty)
  have hvalue : (if headers.length = 1 ∨ last.timestamp ≤ first.timestamp then
      some (bits.decode first.nBits) else s.predicted? bits headers epochLength initialNBits) =
      some (bits.decode nBits) := by
    split
    case isTrue => rw [hsteady.nBits_eq _ (mem_of_head? hfirst)]
    case isFalse htaken =>
      simp only [not_or, not_le] at htaken
      have hlen := length_pos_iff.2 hsteady.nonempty
      have hpace : s.blockIntervalMs * epochLength ≠ 0 := by
        intro hzero
        exact absurd (hsteady.timestamp_eq hzero hfirst hlast) htaken.2.ne'
      exact hsteady.predicted?_eq hpace (by omega) hpos initialNBits
  simp only [calculate?, hfirst, hlast, hvalue, Option.map_some, normalizeToNBits, hrepresentable,
    if_neg hnBits]

/-- Three epochs of the test network at difficulty 3. -/
theorem calculate?_steady_threeEpochs :
    interpolate? ([123, 246, 369, 492].map (fun x => (x, 1000000))) 123 = some 1000000 ∧
      testnet.calculate? .standard
        [epochEnd 128 0 16973824, epochEnd 256 5760000 16973824, epochEnd 384 11520000 16973824]
        128 16842752 = some (.ok 16973824) :=
  calculate?_steady testnet .standard 16842752 (by decide) (by decide) 1000000 123
    ⟨by decide, by decide, by decide, by decide, by decide⟩ (by decide) (by decide) (by decide)

end DifficultySettings

end ErgoNode
