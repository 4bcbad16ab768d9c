import ErgoNode.Chain.Difficulty
import ErgoNode.Library.Regression

/-!
# The difficulty calculation with its divisions

A division of big integers by zero panics, which is `none` here. Timestamps are unsigned 64-bit
numbers whose difference is taken between signed ones, so it wraps. A division by zero needs two
neighbouring epoch ends with one timestamp. Where no two have one, the calculation returns.
-/

namespace ErgoNode

open List

/-- Division of big integers, rounding towards zero. A zero divisor panics. -/
def bigDiv (a b : ℤ) : Option ℤ := if b = 0 then none else some (a.tdiv b)

lemma bigDiv_of_ne {b : ℤ} (hb : b ≠ 0) (a : ℤ) : bigDiv a b = some (a.tdiv b) := if_neg hb

lemma bigDiv_eq_none {a b : ℤ} : bigDiv a b = none ↔ b = 0 := by
  unfold bigDiv
  split <;> simp_all

/-! ## The calculation -/

/-- Milliseconds from one header to another: a difference of signed 64-bit numbers. -/
def timeDelta (start last : Header) : ℤ :=
  Int.bmod ((last.timestamp : ℤ) - start.timestamp) (2 ^ 64)

def interpolate? (data : List (ℤ × ℤ)) (epochLength : ℤ) : Option ℤ :=
  match data with
  | [point] => some point.2
  | _ => do
    let precision : ℤ := 1000000000
    let n : ℤ := data.length
    let xySum := (data.map (fun p => p.1 * p.2)).sum
    let xSum := (data.map (fun p => p.1)).sum
    let x2Sum := (data.map (fun p => p.1 * p.1)).sum
    let ySum := (data.map (fun p => p.2)).sum
    let b ← bigDiv ((xySum * n - xSum * ySum) * precision) (x2Sum * n - xSum * xSum)
    let mean ← bigDiv (ySum * precision - b * xSum) n
    let a ← bigDiv mean precision
    let maxHeight := (data.map (fun p => p.1)).max?.getD 0
    let rise ← bigDiv (b * (maxHeight + epochLength)) precision
    some (a + rise)

namespace DifficultySettings

variable (s : DifficultySettings) (bits : CompactBits)

def epochDifficulty? (epochLength : ℕ) (start last : Header) : Option ℤ :=
  bigDiv (bits.decode last.nBits * (s.blockIntervalMs * epochLength)) (timeDelta start last)

/-- The data point of an epoch: the height of its end and what it alone would ask for. -/
def epochPoint? (epochLength : ℕ) (pair : Header × Header) : Option (ℤ × ℤ) :=
  (s.epochDifficulty? bits epochLength pair.1 pair.2).map (fun d => ((pair.2.height : ℤ), d))

/-- The prediction of the regression over the epochs, or the initial difficulty below 1. -/
def predicted? (headers : List Header) (epochLength initialNBits : ℕ) : Option ℤ := do
  let data ← (headers.zip headers.tail).mapM (s.epochPoint? bits epochLength)
  let diff ← interpolate? data epochLength
  some (if 1 ≤ diff then diff else bits.decode initialNBits)

def calculate? (headers : List Header) (epochLength initialNBits : ℕ) :
    Option (Except String ℕ) :=
  match headers.head?, headers.getLast? with
  | some first, some last =>
    (if headers.length = 1 ∨ last.timestamp ≤ first.timestamp then some (bits.decode first.nBits)
      else s.predicted? bits headers epochLength initialNBits).map
      (fun uncompressed => .ok (normalizeToNBits bits uncompressed initialNBits))
  | _, _ => some (.error "no headers for difficulty calculation")

def bitcoinCalculate? (headers : List Header) (epochLength : ℕ) : Option ℤ :=
  match headers.reverse with
  | last :: start :: _ => s.epochDifficulty? bits epochLength start last
  | _ => none

/-- The mean of the two estimates, both kept within bounds of the last difficulty. -/
def combineEstimates (lastDiff predictive classic : ℤ) : ℤ :=
  capDifficulty ((classic + capDifficulty predictive lastDiff).tdiv 2) lastDiff

def eip37Calculate? (headers : List Header) (epochLength initialNBits : ℕ) :
    Option (Except String ℕ) :=
  match headers.reverse with
  | last :: _ :: _ => do
    match ← s.calculate? bits headers epochLength initialNBits with
    | .error e => some (.error e)
    | .ok predictiveNBits =>
      let classic ← s.bitcoinCalculate? bits headers epochLength
      some (.ok (normalizeToNBits bits
        (combineEstimates (bits.decode last.nBits) (bits.decode predictiveNBits) classic)
        initialNBits))
  | _ => some (.error "at least two headers needed for EIP-37 difficulty recalculation")

def recalculated? (config : ChainConfig) (headerAt : ℕ → Option Header) (parent : Header) :
    Option (Except String ℕ) :=
  let epochLength := s.epochLengthAt (parent.height + 1)
  let heights := previousHeightsForRecalculation (parent.height + 1) epochLength s.useLastEpochs
  let headers := heights.filterMap headerAt
  if headers = [] then some (.ok config.initialNBits)
  else if s.eip37Active (parent.height + 1) then
    s.eip37Calculate? bits headers epochLength config.initialNBits
  else s.calculate? bits headers epochLength config.initialNBits

def expectedDifficulty? (config : ChainConfig) (headerAt : ℕ → Option Header) (parent : Header) :
    Option (Except String ℕ) :=
  match s.activationNBits config parent with
  | some nBits => some (.ok nBits)
  | none =>
    if s.Recalculates parent then s.recalculated? bits config headerAt parent
    else some (.ok parent.nBits)

end DifficultySettings

/-! ## Time between headers -/

lemma timeDelta_eq {start last : Header} (hstart : start.timestamp < 2 ^ 63)
    (hlast : last.timestamp < 2 ^ 63) :
    timeDelta start last = (last.timestamp : ℤ) - start.timestamp :=
  Int.bmod_eq_of_le (by norm_num; omega) (by norm_num; omega)

lemma timeDelta_ne_zero {start last : Header} (hstart : start.timestamp < 2 ^ 64)
    (hlast : last.timestamp < 2 ^ 64) (hne : start.timestamp ≠ last.timestamp) :
    timeDelta start last ≠ 0 := by
  intro hzero
  have hdvd : ((2 ^ 64 : ℕ) : ℤ) ∣ (last.timestamp : ℤ) - start.timestamp := by
    exact Int.dvd_of_bmod_eq_zero hzero
  omega

def Ticking (headers : List Header) : Prop :=
  ∀ pair ∈ headers.zip headers.tail, timeDelta pair.1 pair.2 ≠ 0

lemma rel_of_mem_zip_tail {α : Type} {R : α → α → Prop} {xs : List α} (h : xs.IsChain R)
    {pair : α × α} (hmem : pair ∈ xs.zip xs.tail) : R pair.1 pair.2 := by
  obtain ⟨i, hi, rfl⟩ := mem_iff_getElem.1 hmem
  rw [length_zip, length_tail] at hi
  simp only [getElem_zip, getElem_tail]
  exact isChain_iff_getElem.1 h i (by omega)

lemma ticking_of_isChain {headers : List Header} (hbound : ∀ h ∈ headers, h.timestamp < 2 ^ 64)
    (htimes : headers.IsChain (fun a b => a.timestamp < b.timestamp)) : Ticking headers := by
  intro pair hmem
  have hmems := of_mem_zip hmem
  exact timeDelta_ne_zero (hbound _ hmems.1) (hbound _ (mem_of_mem_tail hmems.2))
    (rel_of_mem_zip_tail htimes hmem).ne

/-! ## The regression -/

section Regression

variable {data : List (ℤ × ℤ)}

lemma spread_ne_zero (hnodup : (data.map Prod.fst).Nodup) (hlen : 2 ≤ data.length) :
    (data.map (fun p => p.1 * p.1)).sum * (data.length : ℤ) -
      (data.map (fun p => p.1)).sum * (data.map (fun p => p.1)).sum ≠ 0 := by
  have h := (spread_pos hnodup (by simpa using hlen)).ne'
  rwa [spread, map_map, length_map] at h

lemma interpolate?_of_two_le (hnodup : (data.map Prod.fst).Nodup) (hlen : 2 ≤ data.length)
    (epochLength : ℤ) :
    interpolate? data epochLength =
      let n : ℤ := data.length
      let xSum := (data.map (fun p => p.1)).sum
      let ySum := (data.map (fun p => p.2)).sum
      let b := (((data.map (fun p => p.1 * p.2)).sum * n - xSum * ySum) * 1000000000).tdiv
        ((data.map (fun p => p.1 * p.1)).sum * n - xSum * xSum)
      some (((ySum * 1000000000 - b * xSum).tdiv n).tdiv 1000000000 +
        (b * ((data.map (fun p => p.1)).max?.getD 0 + epochLength)).tdiv 1000000000) := by
  have hcount : (data.length : ℤ) ≠ 0 := by omega
  match data, hnodup, hlen with
  | p :: q :: rest, hnodup, hlen =>
    simp only [interpolate?, bigDiv_of_ne (spread_ne_zero hnodup hlen), bigDiv_of_ne hcount,
      bigDiv_of_ne (show (1000000000 : ℤ) ≠ 0 by decide), Option.bind_eq_bind, Option.bind_some]

lemma interpolate?_isSome (hne : data ≠ []) (hnodup : (data.map Prod.fst).Nodup)
    (epochLength : ℤ) : ∃ y, interpolate? data epochLength = some y := by
  match data, hne, hnodup with
  | [point], _, _ => exact ⟨point.2, rfl⟩
  | p :: q :: rest, _, hnodup => exact ⟨_, interpolate?_of_two_le hnodup (by simp) epochLength⟩

end Regression

/-! ## The epochs -/

namespace DifficultySettings

variable {s : DifficultySettings} {bits : CompactBits} {headers : List Header} {epochLength : ℕ}
  {pair : Header × Header}

lemma epochPoint?_eq (h : timeDelta pair.1 pair.2 ≠ 0) :
    s.epochPoint? bits epochLength pair = some ((pair.2.height : ℤ),
      (bits.decode pair.2.nBits * (s.blockIntervalMs * epochLength)).tdiv
        (timeDelta pair.1 pair.2)) := by
  rw [epochPoint?, epochDifficulty?, bigDiv_of_ne h, Option.map_some]

lemma epochPoint?_eq_none (h : timeDelta pair.1 pair.2 = 0) :
    s.epochPoint? bits epochLength pair = none := by
  rw [epochPoint?, epochDifficulty?, bigDiv_eq_none.2 h, Option.map_none]

lemma mapM_epochPoint? (s : DifficultySettings) (bits : CompactBits) (epochLength : ℕ)
    (hticking : Ticking headers) :
    ∃ data, (headers.zip headers.tail).mapM (s.epochPoint? bits epochLength) = some data ∧
      data.map Prod.fst = headers.tail.map (fun h => (h.height : ℤ)) := by
  refine ⟨_, mapM_eq_some_map (fun pair hmem => epochPoint?_eq (hticking pair hmem)), ?_⟩
  rw [map_map]
  show (headers.zip headers.tail).map ((fun h : Header => (h.height : ℤ)) ∘ Prod.snd) = _
  rw [← map_map, map_snd_zip (by simp)]

lemma predicted?_isSome (s : DifficultySettings) (bits : CompactBits)
    (hnodup : (headers.map (·.height)).Nodup) (hlen : 2 ≤ headers.length)
    (hticking : Ticking headers) (epochLength initialNBits : ℕ) :
    ∃ v, s.predicted? bits headers epochLength initialNBits = some v := by
  obtain ⟨data, hdata, hheights⟩ := mapM_epochPoint? s bits epochLength hticking
  have hpoints : (data.map Prod.fst).Nodup := by
    rw [hheights, ← Function.comp_def Nat.cast, ← map_map]
    exact (hnodup.sublist ((tail_sublist headers).map _)).map Nat.cast_injective
  have hne : data ≠ [] := by
    rintro rfl
    have := congrArg length hheights
    simp at this
    omega
  obtain ⟨y, hy⟩ := interpolate?_isSome hne hpoints epochLength
  exact ⟨_, by rw [predicted?, hdata, Option.bind_eq_bind, Option.bind_some, hy,
    Option.bind_eq_bind, Option.bind_some]⟩

lemma predicted?_eq_none (hstalled : ¬Ticking headers) (epochLength initialNBits : ℕ) :
    s.predicted? bits headers epochLength initialNBits = none := by
  simp only [Ticking, not_forall, not_not] at hstalled
  obtain ⟨pair, hmem, hzero⟩ := hstalled
  rw [predicted?, mapM_eq_none hmem (epochPoint?_eq_none hzero)]
  rfl

lemma ticking_of_length_le_one (h : headers.length ≤ 1) : Ticking headers := by
  match headers, h with
  | [], _ => simp [Ticking]
  | [_], _ => simp [Ticking]

/-- The regression panics exactly when two neighbouring epoch ends have one timestamp. -/
theorem calculate?_eq_none_iff (hnodup : (headers.map (·.height)).Nodup)
    (epochLength initialNBits : ℕ) :
    s.calculate? bits headers epochLength initialNBits = none ↔
      ¬Ticking headers ∧ ∀ first ∈ headers.head?, ∀ last ∈ headers.getLast?,
        first.timestamp < last.timestamp := by
  cases hfirst : headers.head? with
  | none =>
    obtain rfl := head?_eq_none_iff.1 hfirst
    simp [calculate?, Ticking]
  | some first =>
    obtain ⟨last, hlast⟩ : ∃ last, headers.getLast? = some last := by
      apply Option.ne_none_iff_exists'.1
      intro hnil
      rw [getLast?_eq_none_iff.1 hnil] at hfirst
      cases hfirst
    simp only [calculate?, hfirst, hlast, Option.map_eq_none_iff, Option.mem_some, forall_eq']
    split
    next htaken =>
      simp only [reduceCtorEq, false_iff, not_and, not_lt]
      rcases htaken with hone | hle
      · exact fun hstalled => absurd (ticking_of_length_le_one hone.le) hstalled
      · exact fun _ => hle
    next htaken =>
      simp only [not_or, not_le] at htaken
      refine ⟨fun hnone => ⟨fun hticking => ?_, htaken.2⟩,
        fun hstalled => predicted?_eq_none hstalled.1 _ _⟩
      have hpos := length_pos_of_mem (mem_of_head? hfirst)
      obtain ⟨v, hv⟩ := predicted?_isSome s bits hnodup (by omega) hticking epochLength initialNBits
      cases hv.symm.trans hnone

lemma calculate?_eq_ok (hne : headers ≠ []) {initialNBits : ℕ}
    (h : s.calculate? bits headers epochLength initialNBits ≠ none) :
    ∃ nBits, s.calculate? bits headers epochLength initialNBits = some (.ok nBits) := by
  obtain ⟨first, hfirst⟩ := Option.ne_none_iff_exists'.1 (mt head?_eq_none_iff.1 hne)
  obtain ⟨last, hlast⟩ := Option.ne_none_iff_exists'.1 (mt getLast?_eq_none_iff.1 hne)
  obtain ⟨result, hresult⟩ := Option.ne_none_iff_exists'.1 h
  simp only [calculate?, hfirst, hlast] at hresult ⊢
  obtain ⟨uncompressed, huncompressed, rfl⟩ := Option.map_eq_some_iff.1 hresult
  exact ⟨_, hresult⟩

lemma exists_ends (hlen : 2 ≤ headers.length) :
    ∃ last start rest, headers.reverse = last :: start :: rest := by
  match hrev : headers.reverse with
  | last :: start :: rest => exact ⟨last, start, rest, rfl⟩
  | [] | [_] =>
    have hshort : headers.length = _ := length_reverse.symm.trans (congrArg length hrev)
    dsimp only [length] at hshort
    omega

lemma bitcoinCalculate?_eq_none_iff (hlen : 2 ≤ headers.length) (epochLength : ℕ) :
    s.bitcoinCalculate? bits headers epochLength = none ↔
      ∃ last start rest, headers.reverse = last :: start :: rest ∧ timeDelta start last = 0 := by
  obtain ⟨last, start, rest, hends⟩ := exists_ends hlen
  rw [bitcoinCalculate?, hends]
  simp only [epochDifficulty?, bigDiv_eq_none, cons.injEq]
  constructor
  · exact fun hzero => ⟨last, start, rest, ⟨rfl, rfl, rfl⟩, hzero⟩
  · rintro ⟨_, _, _, ⟨rfl, rfl, rfl⟩, hzero⟩
    exact hzero

lemma mem_zip_tail_of_reverse {last start : Header} {rest : List Header}
    (hends : headers.reverse = last :: start :: rest) :
    (start, last) ∈ headers.zip headers.tail := by
  obtain rfl : headers = rest.reverse ++ [start, last] := by
    rw [← reverse_reverse headers, hends]
    simp
  induction rest.reverse with
  | nil => simp
  | cons x xs ih =>
    obtain ⟨y, ys, hy⟩ := exists_cons_of_ne_nil (show xs ++ [start, last] ≠ [] by simp)
    rw [cons_append, tail_cons]
    rw [hy] at ih ⊢
    exact mem_cons_of_mem _ ih

lemma bitcoinCalculate?_isSome (s : DifficultySettings) (bits : CompactBits)
    (hlen : 2 ≤ headers.length) (hticking : Ticking headers) (epochLength : ℕ) :
    ∃ classic, s.bitcoinCalculate? bits headers epochLength = some classic := by
  apply Option.ne_none_iff_exists'.1
  rw [Ne, bitcoinCalculate?_eq_none_iff hlen]
  rintro ⟨last, start, rest, hends, hzero⟩
  exact hticking _ (mem_zip_tail_of_reverse hends) hzero

lemma calculate?_ne_none (s : DifficultySettings) (bits : CompactBits)
    (hnodup : (headers.map (·.height)).Nodup) (hticking : Ticking headers)
    (epochLength initialNBits : ℕ) :
    s.calculate? bits headers epochLength initialNBits ≠ none := by
  rw [Ne, calculate?_eq_none_iff hnodup]
  exact fun hstalled => hstalled.1 hticking

end DifficultySettings

end ErgoNode
