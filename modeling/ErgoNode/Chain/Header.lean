import Mathlib.Algebra.Group.Nat.Defs
import Mathlib.Data.List.Induction

/-!
# Headers, networks and chain errors

The header record, the two networks and their chain configuration, and the errors of chain
operations. Block ids and state roots are digests that the node only compares and orders; they are
natural numbers here, the big-endian value of the bytes, as heights, timestamps and compact
difficulties are.
-/

namespace ErgoNode

abbrev Bytes := List UInt8

/-- A block id: the big-endian value of the 32 bytes. -/
abbrev BlockId := ℕ

/-- An authenticated-state digest: the big-endian value of the 33 bytes. -/
abbrev ADDigest := ℕ

def natOfBytes (bytes : Bytes) : ℕ :=
  bytes.foldl (fun acc b => acc * 256 + b.toNat) 0

def bytesOfNat : (n v : ℕ) → Bytes
  | 0, _ => []
  | n + 1, v => bytesOfNat n (v / 256) ++ [UInt8.ofNat (v % 256)]

def bytesOfId (id : BlockId) : Bytes := bytesOfNat 32 id

lemma natOfBytes_concat (bytes : Bytes) (b : UInt8) :
    natOfBytes (bytes ++ [b]) = natOfBytes bytes * 256 + b.toNat := by
  simp [natOfBytes]

@[simp]
lemma length_bytesOfNat (n v : ℕ) : (bytesOfNat n v).length = n := by
  induction n generalizing v with
  | zero => rfl
  | succ n ih => simp [bytesOfNat, ih]

@[simp]
lemma length_bytesOfId (id : BlockId) : (bytesOfId id).length = 32 := length_bytesOfNat 32 id

lemma natOfBytes_bytesOfNat (n v : ℕ) : natOfBytes (bytesOfNat n v) = v % 256 ^ n := by
  induction n generalizing v with
  | zero => simp [bytesOfNat, natOfBytes, Nat.mod_one]
  | succ n ih =>
    rw [bytesOfNat, natOfBytes_concat, ih, Nat.pow_succ', Nat.mod_mul, UInt8.toNat_ofNat']
    omega

lemma bytesOfNat_natOfBytes (bytes : Bytes) :
    bytesOfNat bytes.length (natOfBytes bytes) = bytes := by
  induction bytes using List.reverseRecOn with
  | nil => rfl
  | append_singleton bytes b ih =>
    have hbyte := b.toNat_lt
    have hdiv : (natOfBytes bytes * 256 + b.toNat) / 256 = natOfBytes bytes := by omega
    have hmod : (natOfBytes bytes * 256 + b.toNat) % 256 = b.toNat := by omega
    rw [List.length_append, List.length_singleton, bytesOfNat, natOfBytes_concat, hdiv, hmod, ih,
      UInt8.ofNat_toNat]

lemma natOfBytes_lt (bytes : Bytes) : natOfBytes bytes < 256 ^ bytes.length := by
  induction bytes using List.reverseRecOn with
  | nil => simp [natOfBytes]
  | append_singleton bytes b ih =>
    have hbyte := b.toNat_lt
    rw [natOfBytes_concat, List.length_append, List.length_singleton, Nat.pow_succ]
    omega

lemma natOfBytes_bytesOfId {id : BlockId} (h : id < 2 ^ 256) : natOfBytes (bytesOfId id) = id := by
  rw [bytesOfId, natOfBytes_bytesOfNat]
  exact Nat.mod_eq_of_lt (by simpa using h)

lemma bytesOfId_inj {a b : BlockId} (ha : a < 2 ^ 256) (hb : b < 2 ^ 256)
    (h : bytesOfId a = bytesOfId b) : a = b := by
  rw [← natOfBytes_bytesOfId ha, h, natOfBytes_bytesOfId hb]

structure Votes where
  slot0 : UInt8
  slot1 : UInt8
  slot2 : UInt8
deriving DecidableEq, Repr

def Votes.toList (v : Votes) : List UInt8 := [v.slot0, v.slot1, v.slot2]

/-- A block header: the fields the chain, the voting rules and the validators read. -/
structure Header where
  version : ℕ
  id : BlockId
  parentId : BlockId
  stateRoot : ADDigest
  timestamp : ℕ
  nBits : ℕ
  height : ℕ
  votes : Votes
deriving DecidableEq, Repr

inductive Network where
  | mainnet
  | testnet
deriving DecidableEq, Repr

structure VotingConfig where
  votingLength : ℕ
  /-- Voting epochs collected before a soft-fork can be approved. -/
  softForkEpochs : ℕ
  /-- Voting epochs after approval before the block version is incremented. -/
  activationEpochs : ℕ
  /-- Forced activation height of protocol version 2. -/
  version2ActivationHeight : ℕ
deriving DecidableEq, Repr

def VotingConfig.mainnet : VotingConfig where
  votingLength := 1024
  softForkEpochs := 32
  activationEpochs := 32
  version2ActivationHeight := 417792

def VotingConfig.testnet : VotingConfig where
  votingLength := 128
  softForkEpochs := 32
  activationEpochs := 32
  version2ActivationHeight := 0

/-- Network parameters of header validation. The epoch fields are read by the difficulty
calculation. -/
structure ChainConfig where
  network : Network
  /-- Difficulty of the very first block, in compact form. -/
  initialNBits : ℕ
  /-- Expected id of the genesis header, if pinned. -/
  genesisId : Option BlockId
  /-- Maximum allowed clock drift, in milliseconds. -/
  maxTimeDriftMs : ℕ
  voting : VotingConfig
deriving DecidableEq, Repr

def ChainConfig.testnet : ChainConfig where
  network := .testnet
  initialNBits := 16842752
  genesisId := none
  maxTimeDriftMs := 10 * 45000
  voting := .testnet

def ChainConfig.mainnet : ChainConfig where
  network := .mainnet
  initialNBits := 100734821
  genesisId := some 0xb0244dfc267baca974a4caee06120321562784303a8a688976ae56170e4d175b
  maxTimeDriftMs := 10 * 120000
  voting := .mainnet

inductive ChainError where
  | powInvalid (reason : String)
  | parentNotFound (parentId : BlockId)
  | nonSequentialHeight (expected got : ℕ)
  | timestampNotIncreasing (parentTs got : ℕ)
  | timestampTooFarInFuture (timestamp maxAllowed : ℕ)
  | wrongDifficulty (height expected got : ℕ)
  | invalidGenesisParent (got : BlockId)
  | invalidGenesisHeight (got : ℕ)
  | genesisIdMismatch (expected got : BlockId)
  | difficultyCalc (reason : String)
  | reorg (reason : String)
  | voting (reason : String)
  | extensionParse (reason : String)
  | sectionInvalid (typeId : ℕ) (reason : String)
  | chainNotEmpty
  | brokenParentLink (height : ℕ) (childId expectedParent foundParent : BlockId)
  | indexInconsistency (height : ℕ) (detail : String)
  | nipopow (reason : String)
deriving DecidableEq, Repr

def genesisParentId : BlockId := 0

end ErgoNode
