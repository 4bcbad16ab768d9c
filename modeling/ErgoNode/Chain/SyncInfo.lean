import ErgoNode.Chain.ReorgAsAppend
import ErgoNode.Library.Framing

/-!
# Sync messages

A node tells its peers where it is by the headers at four offsets below its tip. The message starts
with a zero, at which a reader of the first version of the format finds no ids, and a marker. The
codec of headers is a parameter.
-/

namespace ErgoNode

open List HeaderChain

inductive SyncInfo where
  | v1 (headerIds : List Bytes)
  | v2 (headers : List Header)
deriving DecidableEq

inductive SyncInfoError where
  | emptyBody
  | vlq
  | v1Count (count : ℕ)
  | v1Truncated
  | missingMode
  | mode (byte : UInt8)
  | missingCount
  | v2Count (count : ℕ)
  | headerSize (i : ℕ)
  | headerTooLarge (i size : ℕ)
  | headerTruncated (i : ℕ)
  | header (message : String)
deriving DecidableEq

namespace SyncInfo

def syncOffsets : List ℕ := [0, 16, 128, 512]

def maxV1HeaderIds : ℕ := 1001

def maxV2Headers : ℕ := 50

def maxV2HeaderSize : ℕ := 1000

def v2ModeByte : UInt8 := 0xFF

/-- A header behind its length, which is cast to 16 bits. -/
def encodeHeader (serialize : Header → Bytes) (header : Header) : Bytes :=
  putVlq ((serialize header).length % 2 ^ 16) ++ serialize header

def buildSyncInfo (serialize : Header → Bytes) (chain : HeaderChain) : Bytes :=
  if chain.entries = [] then putVlq 0 ++ [v2ModeByte] ++ [0]
  else
    let tipHeight := chain.height
    let baseHeight := ((chain.headerAt (tipHeight - (chain.entries.length - 1))).map (·.height)).getD 1
    let selected := syncOffsets.filterMap (fun offset =>
      if offset ≤ tipHeight ∧ baseHeight ≤ tipHeight - offset then chain.headerAt (tipHeight - offset)
      else none)
    putVlq 0 ++ [v2ModeByte] ++ [UInt8.ofNat selected.length] ++
      selected.flatMap (encodeHeader serialize)

def readU16 (e : SyncInfoError) : Reader SyncInfoError ℕ := fun c =>
  match getU16 c.rest with
  | none => .error e
  | some (n, rest) => .ok (n, ⟨c.pos + (c.rest.length - rest.length), rest⟩)

def parseV1 (count : ℕ) : Reader SyncInfoError SyncInfo :=
  if maxV1HeaderIds < count then throw (.v1Count count)
  else do
    let headerIds ← Reader.many (Reader.take 32 (fun _ => .v1Truncated)) count
    pure (.v1 headerIds)

variable (parse : Bytes → Except String Header)

def readHeader (i : ℕ) : Reader SyncInfoError Header := do
  let size ← readU16 (.headerSize i)
  if maxV2HeaderSize < size then throw (.headerTooLarge i size)
  else
    let headerBytes ← Reader.take size (fun _ => .headerTruncated i)
    match parse headerBytes with
    | .ok header => pure header
    | .error message => throw (.header message)

def readHeaders : (i count : ℕ) → Reader SyncInfoError (List Header)
  | _, 0 => pure []
  | i, count + 1 => do
    let header ← readHeader parse i
    let headers ← readHeaders (i + 1) count
    pure (header :: headers)

def parseV2 : Reader SyncInfoError SyncInfo := do
  let mode ← Reader.byte (fun _ => .missingMode)
  if mode ≠ v2ModeByte then throw (.mode mode)
  else
    let count ← Reader.byte (fun _ => .missingCount)
    if maxV2Headers < count.toNat then throw (.v2Count count.toNat)
    else
      let headers ← readHeaders parse 0 count.toNat
      pure (.v2 headers)

def readSyncInfo : Reader SyncInfoError SyncInfo := do
  let count ← readU16 .vlq
  if 0 < count then parseV1 count else parseV2 parse

def parseSyncInfo (body : Bytes) : Except SyncInfoError SyncInfo :=
  if body = [] then .error .emptyBody else (readSyncInfo parse).parse body

/-! ## Round trip -/

lemma parses_readU16 (e : SyncInfoError) {n : ℕ} (h : n < 2 ^ 16) :
    Reader.Parses (readU16 e) (putVlq n) n := by
  intro pos rest
  rw [readU16, getU16_putVlq h]
  simp

variable {parse} {serialize : Header → Bytes} {headers : List Header}

/-- The codec carries a header: it is parsed from what it is serialized to, which is not too long. -/
def Carries (serialize : Header → Bytes) (parse : Bytes → Except String Header) (header : Header) :
    Prop :=
  parse (serialize header) = .ok header ∧ (serialize header).length ≤ maxV2HeaderSize

lemma parses_readHeader {header : Header} (h : Carries serialize parse header) (i : ℕ) :
    Reader.Parses (readHeader parse i) (encodeHeader serialize header) header := by
  obtain ⟨hparse, hsize⟩ := h
  have hlt : (serialize header).length < 2 ^ 16 := lt_of_le_of_lt hsize (by decide)
  rw [encodeHeader, Nat.mod_eq_of_lt hlt]
  refine (parses_readU16 _ hlt).bind ?_
  rw [if_neg (Nat.not_lt.2 hsize)]
  intro pos rest
  rw [(Reader.Parses.take (serialize header) _).run_bind, hparse]
  rfl

lemma parses_readHeaders (h : ∀ x ∈ headers, Carries serialize parse x) (i : ℕ) :
    Reader.Parses (readHeaders parse i headers.length)
      (headers.flatMap (encodeHeader serialize)) headers := by
  induction headers generalizing i with
  | nil => exact Reader.Parses.pure []
  | cons header headers ih =>
    exact (parses_readHeader (h header mem_cons_self) i).bind
      ((ih (forall_mem_cons.1 h).2 (i + 1)).map (header :: ·))

lemma parseSyncInfo_v2 (h : ∀ x ∈ headers, Carries serialize parse x)
    (hcount : headers.length ≤ maxV2Headers) :
    parseSyncInfo parse (putVlq 0 ++ [v2ModeByte] ++ [UInt8.ofNat headers.length] ++
      headers.flatMap (encodeHeader serialize)) = .ok (.v2 headers) := by
  have hbyte : (UInt8.ofNat headers.length).toNat = headers.length :=
    Nat.mod_eq_of_lt (lt_of_le_of_lt hcount (by decide))
  have hbody : Reader.Parses (do
      let count ← Reader.byte (fun _ => .missingCount)
      if maxV2Headers < count.toNat then throw (.v2Count count.toNat)
      else
        let headers ← readHeaders parse 0 count.toNat
        pure (.v2 headers)) ([UInt8.ofNat headers.length] ++ headers.flatMap (encodeHeader serialize))
      (SyncInfo.v2 headers) := by
    refine (Reader.Parses.byte _ _).bind ?_
    rw [hbyte, if_neg (Nat.not_lt.2 hcount)]
    exact (parses_readHeaders h 0).map SyncInfo.v2
  have hall : Reader.Parses (readSyncInfo parse) (putVlq 0 ++ ([v2ModeByte] ++
      ([UInt8.ofNat headers.length] ++ headers.flatMap (encodeHeader serialize)))) (.v2 headers) :=
    (parses_readU16 .vlq (by decide)).bind ((Reader.Parses.byte _ _).bind hbody)
  rw [append_assoc, append_assoc, parseSyncInfo, if_neg (by simp [putVlq, putVlqGroups])]
  exact hall.parse_eq

def headersAtOffsets (chain : HeaderChain) : List Header :=
  syncOffsets.filterMap (fun offset =>
    if offset ≤ chain.height then chain.headerAt (chain.height - offset) else none)

/-- **The round trip of a sync message.** -/
theorem parseSyncInfo_buildSyncInfo {rules : HeaderRules} {chain : HeaderChain}
    (hlinked : chain.Linked rules) (h : ∀ e ∈ chain.entries, Carries serialize parse e.header) :
    parseSyncInfo parse (buildSyncInfo serialize chain) = .ok (.v2 (headersAtOffsets chain)) := by
  have hmem : ∀ {k x}, chain.headerAt k = some x → ∃ e ∈ chain.entries, e.header = x := by
    intro k x hx
    obtain ⟨e, he, rfl⟩ := Option.map_eq_some_iff.1 hx
    exact ⟨e, mem_of_find?_eq_some he, rfl⟩
  have hcarries : ∀ x ∈ headersAtOffsets chain, Carries serialize parse x := by
    intro x hx
    obtain ⟨offset, -, hx⟩ := mem_filterMap.1 hx
    split at hx
    · obtain ⟨e, he, rfl⟩ := hmem hx
      exact h e he
    · cases hx
  have hcount : (headersAtOffsets chain).length ≤ maxV2Headers :=
    (length_filterMap_le _ _).trans (by decide)
  rw [buildSyncInfo]
  split
  next hempty =>
    have hnone : headersAtOffsets chain = [] := by
      simp [headersAtOffsets, headerAt, entryAt_of_entries_nil hempty]
    have hv2 := parseSyncInfo_v2 hcarries hcount
    rw [hnone] at hv2 ⊢
    exact hv2
  next hne =>
    obtain ⟨e, es, hentries⟩ := exists_cons_of_ne_nil hne
    have hbase : chain.baseHeight = some e.header.height := by
      rw [baseHeight, hentries]
      rfl
    -- the header at the base is the first one
    have hfirst : chain.headerAt (chain.height - (chain.entries.length - 1)) = some e.header := by
      have hheight : chain.height - (chain.entries.length - 1) = e.header.height := by
        rw [height, hbase, hentries, length_cons]
        dsimp only
        omega
      rw [hheight, headerAt, hlinked.entryAt_eq_some_iff.2 ⟨hentries ▸ mem_cons_self, rfl⟩]
      rfl
    have hselected : headersAtOffsets chain = syncOffsets.filterMap (fun offset =>
        if offset ≤ chain.height ∧ e.header.height ≤ chain.height - offset then
          chain.headerAt (chain.height - offset) else none) := by
      refine filterMap_congr (fun offset _ => ?_)
      by_cases hle : e.header.height ≤ chain.height - offset
      · simp only [hle, and_true]
      · -- nothing is below the base
        have hnone : chain.headerAt (chain.height - offset) = none := by
          rw [headerAt, Option.map_eq_none_iff, ← Option.not_isSome_iff_eq_none,
            hlinked.isSome_entryAt_iff hbase]
          exact fun hin => hle hin.1
        simp only [hle, and_false, hnone, ite_self]
    simp only [hfirst, Option.map_some, Option.getD_some]
    rw [← hselected]
    exact parseSyncInfo_v2 hcarries hcount

/-- Two headers under a codec that knows only them: the offsets other than 0 are below genesis. -/
theorem parseSyncInfo_buildSyncInfo_twoHeaders :
    let serialize := fun header : Header => [UInt8.ofNat header.id]
    let parse : Bytes → Except String Header := fun bytes =>
      .ok (if bytes = [1] then plainHeader 1 0 1 else plainHeader 2 1 2)
    parseSyncInfo parse (buildSyncInfo serialize twoHeaders) =
      .ok (.v2 [plainHeader 2 1 2]) :=
  have hlinked : twoHeaders.Linked plainRules :=
    isChain_pair.2 ⟨rfl, rfl, rfl⟩
  parseSyncInfo_buildSyncInfo hlinked (by
    rw [twoHeaders, forall_mem_cons, forall_mem_singleton]
    exact ⟨⟨rfl, by decide⟩, ⟨rfl, by decide⟩⟩)

end SyncInfo

end ErgoNode
