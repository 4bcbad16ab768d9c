import ErgoNode.Chain.HeaderChain

/-!
# Expected difficulty

A block carries the difficulty of its parent, except around the activation of protocol version 2 and
after the last block of a difficulty epoch. There the value is computed from the epoch ends before:
by a linear regression, and from EIP-37 on by the mean of the regression and of the last epoch
alone, within half and one and a half of the last difficulty. The compact form is a parameter;
`CompactBits.standard` is the format in use. Two epoch ends with one timestamp, on which the source
panics, give a quotient of 0 here.
-/

namespace ErgoNode

structure DifficultySettings where
  epochLength : ℕ
  blockIntervalMs : ℕ
  useLastEpochs : ℕ
  /-- Compact difficulty at the activation of version 2. -/
  version2ActivationNBits : Option ℕ
  eip37ActivationHeight : Option ℕ
  eip37EpochLength : Option ℕ
deriving DecidableEq, Repr

structure CompactBits where
  decode : ℕ → ℤ
  encode : ℤ → ℕ

/-- Decode a compact difficulty: a length byte and up to three leading bytes of a signed
big-endian magnitude. -/
def decodeCompactBits (nBits : ℕ) : ℤ :=
  let size := nBits / 2 ^ 24 % 256
  let word := nBits % 2 ^ 23
  let magnitude : ℕ := if size ≤ 3 then word / 256 ^ (3 - size) else word * 256 ^ (size - 3)
  if nBits / 2 ^ 23 % 2 = 1 ∧ size ≠ 0 then -magnitude else magnitude

/-- Encode a difficulty: the number of bytes of its signed form, and the three leading ones. -/
def encodeCompactBits (difficulty : ℤ) : ℕ :=
  let size := (difficulty.natAbs.log2 + 1) / 8 + 1
  let word := if size ≤ 3 then difficulty.natAbs * 256 ^ (3 - size)
    else difficulty.natAbs / 256 ^ (size - 3)
  size * 2 ^ 24 + (if difficulty < 0 then 2 ^ 23 else 0) + word

def CompactBits.standard : CompactBits := ⟨decodeCompactBits, encodeCompactBits⟩

-- The values that the network configurations name.
example : encodeCompactBits 1 = 16842752 ∧ encodeCompactBits 1199990374400 = 100734821 ∧
    encodeCompactBits 122702199259136 = 107976917 := by decide

def DifficultySettings.testnet : DifficultySettings := ⟨128, 45000, 8, none, none, none⟩

def interpolate (data : List (ℤ × ℤ)) (epochLength : ℤ) : ℤ :=
  match data with
  | [point] => point.2
  | _ =>
    let precision : ℤ := 1000000000
    let n : ℤ := data.length
    let xySum := (data.map (fun p => p.1 * p.2)).sum
    let xSum := (data.map (fun p => p.1)).sum
    let x2Sum := (data.map (fun p => p.1 * p.1)).sum
    let ySum := (data.map (fun p => p.2)).sum
    let b := ((xySum * n - xSum * ySum) * precision).tdiv (x2Sum * n - xSum * xSum)
    let a := ((ySum * precision - b * xSum).tdiv n).tdiv precision
    let maxHeight := (data.map (fun p => p.1)).foldl max 0
    a + (b * (maxHeight + epochLength)).tdiv precision

def capDifficulty (diff reference : ℤ) : ℤ :=
  let upper := (reference * 3).tdiv 2
  let lower := reference.tdiv 2
  if upper < diff then upper else if diff < lower then lower else diff

def previousHeightsForRecalculation (height epochLength useLastEpochs : ℕ) : List ℕ :=
  if epochLength ∣ height - 1 ∧ 1 < epochLength then
    ((List.range (useLastEpochs + 1)).filterMap (fun i =>
      if i * epochLength ≤ height - 1 then some (height - 1 - i * epochLength) else none)).reverse
  else if epochLength ∣ height - 1 ∧ epochLength * useLastEpochs < height then
    ((List.range (useLastEpochs + 1)).map (fun i => height - 1 - i * epochLength)).reverse
  else [height - 1]

namespace DifficultySettings

variable (s : DifficultySettings) (bits : CompactBits)

def epochLengthAt (height : ℕ) : ℕ :=
  match s.eip37ActivationHeight, s.eip37EpochLength with
  | some activation, some length => if activation ≤ height then length else s.epochLength
  | _, _ => s.epochLength

def eip37Active (height : ℕ) : Bool := s.eip37ActivationHeight.any (· ≤ height)

def normalizeToNBits (difficulty : ℤ) (initialNBits : ℕ) : ℕ :=
  if bits.encode difficulty = 0 then initialNBits else bits.encode difficulty

def epochDifficulty (epochLength : ℕ) (start last : Header) : ℤ :=
  (bits.decode last.nBits * (s.blockIntervalMs * epochLength)).tdiv
    ((last.timestamp : ℤ) - start.timestamp)

def calculate (headers : List Header) (epochLength initialNBits : ℕ) : Except String ℕ :=
  match headers.head?, headers.getLast? with
  | some first, some last =>
    let uncompressed :=
      if headers.length = 1 ∨ last.timestamp ≤ first.timestamp then bits.decode first.nBits
      else
        let data := (headers.zip headers.tail).map (fun pair =>
          ((pair.2.height : ℤ), s.epochDifficulty bits epochLength pair.1 pair.2))
        let diff := interpolate data epochLength
        if 1 ≤ diff then diff else bits.decode initialNBits
    .ok (normalizeToNBits bits uncompressed initialNBits)
  | _, _ => .error "no headers for difficulty calculation"

def eip37Calculate (headers : List Header) (epochLength initialNBits : ℕ) : Except String ℕ :=
  match headers.reverse with
  | last :: start :: _ => do
    let lastDiff := bits.decode last.nBits
    let predictiveNBits ← s.calculate bits headers epochLength initialNBits
    let limitedPredictive := capDifficulty (bits.decode predictiveNBits) lastDiff
    let classic := s.epochDifficulty bits epochLength start last
    let capped := capDifficulty ((classic + limitedPredictive).tdiv 2) lastDiff
    .ok (normalizeToNBits bits capped initialNBits)
  | _ => .error "at least two headers needed for EIP-37 difficulty recalculation"

/-- The value configured for the two blocks around the activation of version 2. -/
def activationNBits (config : ChainConfig) (parent : Header) : Option ℕ :=
  let v2Height := config.voting.version2ActivationHeight
  s.version2ActivationNBits.filter (fun _ =>
    0 < v2Height ∧ (parent.height = v2Height ∨ parent.height + 1 = v2Height))

def Recalculates (parent : Header) : Prop :=
  s.epochLengthAt (parent.height + 1) ∣ parent.height ∧ 0 < parent.height

instance (parent : Header) : Decidable (s.Recalculates parent) := inferInstanceAs (Decidable (_ ∧ _))

def recalculated (config : ChainConfig) (headerAt : ℕ → Option Header) (parent : Header) :
    Except String ℕ :=
  let epochLength := s.epochLengthAt (parent.height + 1)
  let heights := previousHeightsForRecalculation (parent.height + 1) epochLength s.useLastEpochs
  let headers := heights.filterMap headerAt
  if headers = [] then .ok config.initialNBits
  else if s.eip37Active (parent.height + 1) then
    s.eip37Calculate bits headers epochLength config.initialNBits
  else s.calculate bits headers epochLength config.initialNBits

def expectedDifficulty (config : ChainConfig) (headerAt : ℕ → Option Header) (parent : Header) :
    Except String ℕ :=
  match s.activationNBits config parent with
  | some nBits => .ok nBits
  | none =>
    if s.Recalculates parent then s.recalculated bits config headerAt parent
    else .ok parent.nBits

def rules (verifyPow : Header → Except String Unit) : HeaderRules where
  verifyPow := verifyPow
  decodeCompactBits := bits.decode
  expectedDifficulty := s.expectedDifficulty bits

/-- The difficulty that is computed for the child of a header is that of the header. -/
def Carries (config : ChainConfig) (headerAt : ℕ → Option Header) (parent : Header) : Prop :=
  s.expectedDifficulty bits config headerAt parent = .ok parent.nBits

variable {s bits} {config : ChainConfig} {headerAt : ℕ → Option Header} {parent : Header}

lemma carries_of_plain (hactivation : s.activationNBits config parent = none)
    (hrecalculates : ¬s.Recalculates parent) : s.Carries bits config headerAt parent := by
  rw [Carries, expectedDifficulty, hactivation]
  exact if_neg hrecalculates

end DifficultySettings

end ErgoNode
