import ErgoNode.Library.Vlq
import ErgoNode.State.Undo

/-!
# Snapshot messages

The codec of the six messages that snapshots are exchanged with. The code uses 64-bit counts and
lengths before it compares them with the bytes there are: it reserves room for the announced number
of entries, and adds the announced length to an offset. The first can ask for any amount of memory,
the second wraps around. `none` is a panic.
-/

namespace ErgoNode

inductive ProtocolError where
  | tooShort
  | tooLarge (length : ℕ)
  | unknownCode (code : UInt8)
deriving DecidableEq

structure SnapshotEntry where
  height : UInt32
  manifestId : Digest32
deriving DecidableEq

inductive SnapshotMessage where
  | getSnapshotsInfo
  | snapshotsInfo (entries : List SnapshotEntry)
  | getManifest (id : Digest32)
  | manifest (data : Bytes)
  | getUtxoSnapshotChunk (id : Digest32)
  | utxoSnapshotChunk (data : Bytes)
deriving DecidableEq

def maxSnapshotsInfoSize : ℕ := 20000

def maxPayloadSize : ℕ := 4000000

def snapshotEntrySize : ℕ := 36

def zigzagDecode (n : ℕ) : ℤ := if n % 2 = 0 then n / 2 else -(n / 2) - 1

def zigzagEncode (n : ℤ) : ℕ := if 0 ≤ n then (2 * n).toNat else (-2 * n - 1).toNat

namespace SnapshotMessage

def vlqDecode : Reader ProtocolError ℕ := fun c =>
  match getU64 c.rest with
  | none => .error .tooShort
  | some (n, rest) => .ok (n, ⟨c.pos + (c.rest.length - rest.length), rest⟩)

def readId : Reader ProtocolError Digest32 := fun c =>
  if h : 32 ≤ c.rest.length then
    .ok (⟨c.rest.take 32, List.length_take_of_le h⟩, ⟨c.pos + 32, c.rest.drop 32⟩)
  else .error .tooShort

def readEntry : Reader ProtocolError SnapshotEntry := do
  let rawHeight ← vlqDecode
  let manifestId ← readId
  -- the cast to an unsigned number of 32 bits
  pure ⟨UInt32.ofNat (zigzagDecode rawHeight % 2 ^ 32).toNat, manifestId⟩

/-- Reserving room for more than half of the address space panics. -/
def parseSnapshotsInfo (body : Bytes) : Option (Except ProtocolError SnapshotMessage) :=
  match vlqDecode ⟨0, body⟩ with
  | .error e => some (.error e)
  | .ok (count, c) =>
    if 2 ^ 63 ≤ snapshotEntrySize * count then none
    else some ((Reader.many readEntry count c).map (fun r => snapshotsInfo r.1))

/-- The length and the bytes behind it. The end of the slice is computed modulo `2 ^ 64`. -/
def parsePayload (body : Bytes) (message : Bytes → SnapshotMessage) :
    Option (Except ProtocolError SnapshotMessage) :=
  match vlqDecode ⟨0, body⟩ with
  | .error e => some (.error e)
  | .ok (len, c) =>
    if body.length < (c.pos + len) % 2 ^ 64 then some (.error .tooShort)
    else if (c.pos + len) % 2 ^ 64 < c.pos then none
    else some (.ok (message ((body.drop c.pos).take ((c.pos + len) % 2 ^ 64 - c.pos))))

def parse (code : UInt8) (body : Bytes) : Option (Except ProtocolError SnapshotMessage) :=
  match code with
  | 76 => some (.ok getSnapshotsInfo)
  | 77 =>
    if maxSnapshotsInfoSize < body.length then some (.error (.tooLarge body.length))
    else parseSnapshotsInfo body
  | 78 => some ((readId.parse body).map getManifest)
  | 79 =>
    if maxPayloadSize < body.length then some (.error (.tooLarge body.length))
    else parsePayload body manifest
  | 80 => some ((readId.parse body).map getUtxoSnapshotChunk)
  | 81 =>
    if maxPayloadSize < body.length then some (.error (.tooLarge body.length))
    else parsePayload body utxoSnapshotChunk
  | code => some (.error (.unknownCode code))

def encodeEntry (entry : SnapshotEntry) : Bytes :=
  putVlq (zigzagEncode entry.height.toNat) ++ entry.manifestId.1

def encode : SnapshotMessage → UInt8 × Bytes
  | getSnapshotsInfo => (76, [])
  | snapshotsInfo entries => (77, putVlq entries.length ++ entries.flatMap encodeEntry)
  | getManifest id => (78, id.1)
  | manifest data => (79, putVlq data.length ++ data)
  | getUtxoSnapshotChunk id => (80, id.1)
  | utxoSnapshotChunk data => (81, putVlq data.length ++ data)

/-- The memory that is reserved for the entries of a message before they are read. -/
def reserved (code : UInt8) (body : Bytes) : ℕ :=
  if code = 77 ∧ body.length ≤ maxSnapshotsInfoSize then
    match vlqDecode ⟨0, body⟩ with
    | .error _ => 0
    | .ok (count, _) => snapshotEntrySize * count
  else 0

/-! ## Round trip -/

/-- The body of the message is within the limit that its receiver checks. -/
def Fits : SnapshotMessage → Prop
  | m@(snapshotsInfo _) => m.encode.2.length ≤ maxSnapshotsInfoSize
  | m@(manifest _) => m.encode.2.length ≤ maxPayloadSize
  | m@(utxoSnapshotChunk _) => m.encode.2.length ≤ maxPayloadSize
  | getSnapshotsInfo => True
  | getManifest _ => True
  | getUtxoSnapshotChunk _ => True

lemma parses_vlqDecode {n : ℕ} (h : n < 2 ^ 64) : Reader.Parses vlqDecode (putVlq n) n := by
  intro pos rest
  rw [vlqDecode, getU64_putVlq h]
  simp

lemma parses_readId (id : Digest32) : Reader.Parses readId id.1 id := by
  intro pos rest
  have hlen : 32 ≤ (id.1 ++ rest).length := by simp [id.2]
  simp only [readId, dif_pos hlen, List.take_left' id.2, List.drop_left' id.2, id.2]

lemma parses_readEntry (entry : SnapshotEntry) :
    Reader.Parses readEntry (encodeEntry entry) entry := by
  have hbound : entry.height.toNat < 2 ^ 32 := entry.height.toNat_lt
  have hencode : zigzagEncode entry.height.toNat = 2 * entry.height.toNat := by
    rw [zigzagEncode, if_pos (by omega)]
    omega
  have hdecode : (zigzagDecode (2 * entry.height.toNat) % 2 ^ 32).toNat = entry.height.toNat := by
    rw [zigzagDecode, if_pos (by omega)]
    omega
  have hheight := parses_vlqDecode (n := 2 * entry.height.toNat) (by omega)
  have hread := (parses_readId entry.manifestId).map (SnapshotEntry.mk entry.height)
  refine hheight.bind ?_
  simp only [hdecode, UInt32.ofNat_toNat]
  exact hread

lemma parsePayload_putVlq {data : Bytes} (message : Bytes → SnapshotMessage)
    (h : (putVlq data.length ++ data).length ≤ maxPayloadSize) :
    parsePayload (putVlq data.length ++ data) message = some (.ok (message data)) := by
  rw [List.length_append, maxPayloadSize] at h
  rw [parsePayload, parses_vlqDecode (by omega) 0 data]
  have hend : (0 + (putVlq data.length).length + data.length) % 2 ^ 64 =
      (putVlq data.length).length + data.length := by
    rw [Nat.zero_add]
    exact Nat.mod_eq_of_lt (by omega)
  simp only [hend]
  simp

lemma length_le_flatMap_encodeEntry (entries : List SnapshotEntry) :
    entries.length ≤ (entries.flatMap encodeEntry).length := by
  induction entries with
  | nil => exact Nat.le_refl 0
  | cons entry entries ih =>
    have hpos := length_putVlq_pos (zigzagEncode entry.height.toNat)
    rw [List.flatMap_cons, List.length_append, encodeEntry, List.length_append, List.length_cons]
    omega

lemma parse_encode {m : SnapshotMessage} (h : m.Fits) :
    parse m.encode.1 m.encode.2 = some (.ok m) := by
  cases m with
  | getSnapshotsInfo => rfl
  | snapshotsInfo entries =>
    have hlen := length_le_flatMap_encodeEntry entries
    have hbound : (putVlq entries.length).length + (entries.flatMap encodeEntry).length ≤ 20000 := by
      rwa [← List.length_append]
    show (if _ then _ else parseSnapshotsInfo (putVlq entries.length ++ _)) = _
    rw [if_neg (Nat.not_lt.2 h), parseSnapshotsInfo,
      parses_vlqDecode (by omega) 0 (entries.flatMap encodeEntry)]
    have hmany := (Reader.Parses.many (fun entry (_ : entry ∈ entries) => parses_readEntry entry))
      (0 + (putVlq entries.length).length) []
    rw [List.append_nil] at hmany
    have hcap : ¬2 ^ 63 ≤ snapshotEntrySize * entries.length := by
      rw [snapshotEntrySize]
      omega
    dsimp only
    rw [if_neg hcap, hmany]
    rfl
  | getManifest id => exact congrArg (fun r => some (Except.map _ r)) (parses_readId id).parse_eq
  | manifest data =>
    show (if _ then _ else _) = _
    rw [if_neg (Nat.not_lt.2 h)]
    exact parsePayload_putVlq manifest h
  | getUtxoSnapshotChunk id =>
    exact congrArg (fun r => some (Except.map _ r)) (parses_readId id).parse_eq
  | utxoSnapshotChunk data =>
    show (if _ then _ else _) = _
    rw [if_neg (Nat.not_lt.2 h)]
    exact parsePayload_putVlq utxoSnapshotChunk h

/-! ## Safety -/

/-- Parsing returns a message or an error, and reserves at most the memory of one entry for every
byte of the body. -/
def Safe (code : UInt8) (body : Bytes) : Prop :=
  parse code body ≠ none ∧ reserved code body ≤ snapshotEntrySize * body.length

/-- The body announces more entries than it has bytes, or a length that cannot be added to an
offset. -/
def Inflated (code : UInt8) (body : Bytes) : Prop :=
  ∃ n c, vlqDecode ⟨0, body⟩ = .ok (n, c) ∧
    (code = 77 ∧ body.length ≤ maxSnapshotsInfoSize ∧ body.length < n ∨
      (code = 79 ∨ code = 81) ∧ body.length ≤ maxPayloadSize ∧ 2 ^ 64 ≤ c.pos + n)

variable {body : Bytes}

lemma vlqDecode_bounds {n : ℕ} {c : Cursor} (h : vlqDecode ⟨0, body⟩ = .ok (n, c)) :
    n < 2 ^ 64 ∧ c.pos ≤ body.length := by
  rw [vlqDecode] at h
  split at h
  · cases h
  next hread =>
    cases h
    exact ⟨getU64_lt hread, by dsimp only; omega⟩

lemma parsePayload_eq_none_iff {message : Bytes → SnapshotMessage} :
    parsePayload body message = none ↔
      ∃ n c, vlqDecode ⟨0, body⟩ = .ok (n, c) ∧ 2 ^ 64 ≤ c.pos + n := by
  rw [parsePayload]
  cases hdecode : vlqDecode ⟨0, body⟩ with
  | error e => simp
  | ok r =>
    obtain ⟨n, c⟩ := r
    obtain ⟨hn, hpos⟩ := vlqDecode_bounds hdecode
    dsimp only
    constructor
    · intro h
      split_ifs at h
      exact ⟨n, c, rfl, by omega⟩
    · rintro ⟨_, _, hr, hwrap⟩
      cases hr
      rw [if_neg (by omega), if_pos (by omega)]

/-- The announced number of entries decides over the memory, and over the panic with it. -/
theorem safe_snapshotsInfo_iff (hsize : body.length ≤ maxSnapshotsInfoSize) :
    Safe 77 body ↔ ¬∃ n c, vlqDecode ⟨0, body⟩ = .ok (n, c) ∧ body.length < n := by
  have hparse : parse 77 body = parseSnapshotsInfo body := if_neg (Nat.not_lt.2 hsize)
  rw [Safe, hparse, reserved, if_pos ⟨rfl, hsize⟩, parseSnapshotsInfo]
  rw [maxSnapshotsInfoSize] at hsize
  cases hdecode : vlqDecode ⟨0, body⟩ with
  | error e => simp
  | ok r =>
    obtain ⟨n, c⟩ := r
    rw [show snapshotEntrySize = 36 from rfl]
    dsimp only
    constructor
    · rintro ⟨-, hreserved⟩ ⟨_, _, hr, hmore⟩
      cases hr
      omega
    · intro h
      have hn : n ≤ body.length := Nat.not_lt.1 (fun hmore => h ⟨n, c, rfl, hmore⟩)
      rw [if_neg (by omega)]
      exact ⟨Option.some_ne_none _, by omega⟩

lemma safe_of_ne {code : UInt8} (h : code ≠ 77) :
    Safe code body ↔ ¬((code = 79 ∨ code = 81) ∧ body.length ≤ maxPayloadSize ∧
      ∃ n c, vlqDecode ⟨0, body⟩ = .ok (n, c) ∧ 2 ^ 64 ≤ c.pos + n) := by
  have hreserved : reserved code body = 0 := if_neg (fun hcode => h hcode.1)
  rw [Safe, hreserved, and_iff_left (Nat.zero_le _), not_iff_not, ← not_lt]
  have hpayload : ∀ message,
      (if maxPayloadSize < body.length then some (.error (.tooLarge body.length))
        else parsePayload body message) = none ↔ ¬maxPayloadSize < body.length ∧
          ∃ n c, vlqDecode ⟨0, body⟩ = .ok (n, c) ∧ 2 ^ 64 ≤ c.pos + n := by
    intro message
    have hnone := @parsePayload_eq_none_iff body message
    rw [← hnone]
    split_ifs <;> simp_all
  unfold parse
  split
  case h_2 => exact absurd rfl h
  case h_4 => simpa using hpayload manifest
  case h_6 => simpa using hpayload utxoSnapshotChunk
  all_goals simp_all

/-- **The codec**: messages within the limits survive a round trip, and a body is parsed safely
unless it is inflated. -/
theorem parse_encode_and_safe_iff (code : UInt8) (body : Bytes) :
    (∀ m : SnapshotMessage, m.Fits → parse m.encode.1 m.encode.2 = some (.ok m)) ∧
      (Safe code body ↔ ¬Inflated code body) := by
  refine ⟨fun m h => parse_encode h, ?_⟩
  by_cases hcode : code = 77
  · subst hcode
    by_cases hsize : body.length ≤ maxSnapshotsInfoSize
    · rw [safe_snapshotsInfo_iff hsize]
      simp [Inflated, hsize]
    · -- such a body is refused before it is looked at
      have hparse : parse 77 body = some (.error (.tooLarge body.length)) :=
        if_pos (Nat.not_le.1 hsize)
      simp [Safe, Inflated, hparse, reserved, hsize]
  · rw [safe_of_ne hcode]
    simp only [Inflated, hcode, false_and, false_or]
    refine not_congr ⟨?_, ?_⟩
    · rintro ⟨hkind, hsize, n, c, hn, hwrap⟩
      exact ⟨n, c, hn, hkind, hsize, hwrap⟩
    · rintro ⟨n, c, hn, hkind, hsize, hwrap⟩
      exact ⟨hkind, hsize, n, c, hn, hwrap⟩

/-- Ten bytes announce `2 ^ 63` entries, or a payload of `2 ^ 64 - 1` bytes. -/
theorem parse_eq_none_of_ten_bytes :
    parse 77 (List.replicate 9 128 ++ [1]) = none ∧ parse 79 (List.replicate 9 255 ++ [1]) = none := by
  decide +kernel

end SnapshotMessage

end ErgoNode
