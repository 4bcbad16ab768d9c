import ErgoNode.Validation.Validator

/-!
# Section wire formats

The validation side's parser of block transactions and the three serializers. A serialized section
has the id of its content on the chain side, and parses back on the validation side. The serializers
cut a length to 32 bits, so this is for proofs and transaction lists of fewer than `2 ^ 32` bytes
and entries.
-/

namespace ErgoNode

open List SectionBody

variable {Tx : Type} (rules : SectionRules Tx)
variable {fields : List ExtensionField} {bytes : Bytes} {headerId : BlockId}
  {read : Bytes → Option (ℕ × Bytes)} {n : ℕ} {rest : Bytes}

structure ParsedBlockTransactions (Tx : Type) where
  headerId : BlockId
  blockVersion : ℕ
  transactions : List Tx

/-- Parse a block-transactions section. Bytes after the last transaction are not looked at. -/
def parseBlockTransactions (data : Bytes) : Except ValidationError (ParsedBlockTransactions Tx) :=
  if data.length < 33 then
    .error (.sectionParse blockTransactionsTypeId "too short for header_id")
  else do
    let (verOrCount, rest) ← (getU32 (data.drop 32)).elim
      (.error (.sectionParse blockTransactionsTypeId "ver_or_count VLQ")) .ok
    let ((blockVersion, txCount), rest) ←
      if blockVersionSentinel < verOrCount then do
        let (count, rest) ← (getU32 rest).elim
          (.error (.sectionParse blockTransactionsTypeId "tx_count VLQ")) .ok
        .ok ((verOrCount - blockVersionSentinel, count), rest)
      else .ok ((1, verOrCount), rest)
    let (transactions, _) ← (getTransactions rules.parseTransaction txCount 0 rest).mapError
      (.sectionParse blockTransactionsTypeId)
    .ok { headerId := sectionHeaderId data, blockVersion := blockVersion,
          transactions := transactions }

/-! ## Serializers -/

def putLen (n : ℕ) : Bytes := putVlq (n % 2 ^ 32)

def serializeAdProofs (headerId : BlockId) (proofBytes : Bytes) : Bytes :=
  bytesOfId headerId ++ putLen proofBytes.length ++ proofBytes

/-- Write transactions one after the other, the first of them the `i`-th of the section. -/
def transactionsBytes : (i : ℕ) → List Tx → Except ValidationError Bytes
  | _, [] => .ok []
  | i, tx :: txs => do
    let bytes ← (rules.serializeTransaction tx).mapError (fun e =>
      .sectionParse blockTransactionsTypeId s!"transaction {i} serialize: {e}")
    let rest ← transactionsBytes (i + 1) txs
    .ok (bytes ++ rest)

def serializeBlockTransactions (headerId : BlockId) (blockVersion : ℕ) (transactions : List Tx) :
    Except ValidationError Bytes := do
  let txBytes ← transactionsBytes rules 0 transactions
  .ok (bytesOfId headerId ++ putLen (blockVersionSentinel + blockVersion) ++
    putLen transactions.length ++ txBytes)

def fieldsBytes : (i : ℕ) → List ExtensionField → Except ValidationError Bytes
  | _, [] => .ok []
  | i, f :: fs => do
    require (f.value.length ≤ 255) (.sectionParse extensionTypeId
      s!"field {i}: value length {f.value.length} exceeds 255")
    let rest ← fieldsBytes (i + 1) fs
    .ok (f.subId :: f.fieldId :: UInt8.ofNat f.value.length :: (f.value ++ rest))

def serializeExtension (headerId : BlockId) (fields : List ExtensionField) :
    Except ValidationError Bytes := do
  let fieldBytes ← fieldsBytes 0 fields
  .ok (bytesOfId headerId ++ putLen fields.length ++ fieldBytes)

/-! ## Reading back what was written -/

lemma getU32_putLen (h : n < 2 ^ 32) (rest : Bytes) :
    getU32 (putLen n ++ rest) = some (n, rest) := by
  rw [putLen, Nat.mod_eq_of_lt h]
  exact getU32_putVlq h rest

lemma getU16_putLen (h : n < 2 ^ 16) (rest : Bytes) :
    getU16 (putLen n ++ rest) = some (n, rest) := by
  rw [putLen, Nat.mod_eq_of_lt (Nat.lt_trans h (by decide))]
  exact getU16_putVlq h rest

namespace SectionBody

lemma take_append (b : SectionBody) {xs : Bytes} (h : b.remaining = xs ++ rest) :
    ∃ b' : SectionBody, (∀ what, b.take xs.length what = .ok (xs, b')) ∧ b'.typeId = b.typeId ∧
      b'.remaining = rest := by
  refine ⟨b.advance rest, fun what => ?_, rfl, rfl⟩
  unfold take
  simp [h]

lemma u8_cons (b : SectionBody) {x : UInt8} (h : b.remaining = x :: rest) :
    ∃ b' : SectionBody, (∀ what, b.u8 what = .ok (x, b')) ∧ b'.typeId = b.typeId ∧
      b'.remaining = rest := by
  have hone : b.remaining = [x] ++ rest := h
  obtain ⟨b', htake, htype, hrest⟩ := b.take_append hone
  refine ⟨b', fun what => ?_, htype, hrest⟩
  have hbyte : b.take 1 what = .ok ([x], b') := htake what
  rw [u8, hbyte]
  rfl

lemma vlq_eq (b : SectionBody) (h : read b.remaining = some (n, rest)) :
    ∃ b' : SectionBody, (∀ what, b.vlq read what = .ok (n, b')) ∧ b'.typeId = b.typeId ∧
      b'.remaining = rest :=
  ⟨b.advance rest, fun what => by simp only [vlq, h], rfl, rfl⟩

lemma fields_fieldsBytes {fields : List ExtensionField} {i : ℕ} {bytes : Bytes}
    (h : fieldsBytes i fields = .ok bytes) (j : ℕ) (b : SectionBody)
    (hb : b.remaining = bytes ++ rest) :
    ∃ b' : SectionBody, SectionBody.fields fields.length j b = .ok (fields, b') ∧
      b'.typeId = b.typeId ∧ b'.remaining = rest := by
  induction fields generalizing i j bytes b with
  | nil =>
    obtain rfl : [] = bytes := Except.ok.inj h
    exact ⟨b, rfl, rfl, hb⟩
  | cons f fs ih =>
    simp only [fieldsBytes, bind_eq_ok, require_eq_ok, Except.ok.injEq] at h
    obtain ⟨-, hlen, tail, htail, rfl⟩ := h
    have hbyte : (UInt8.ofNat f.value.length).toNat = f.value.length := by
      rw [UInt8.toNat_ofNat']
      omega
    -- key, length byte and value, each off the front of what is left
    have hparts : b.remaining = [f.subId, f.fieldId] ++
        (UInt8.ofNat f.value.length :: (f.value ++ (tail ++ rest))) := by
      simp [hb]
    obtain ⟨b₁, hkey, htype₁, hrest₁⟩ := b.take_append hparts
    obtain ⟨b₂, hlenByte, htype₂, hrest₂⟩ := b₁.u8_cons hrest₁
    obtain ⟨b₃, hvalue, htype₃, hrest₃⟩ := b₂.take_append hrest₂
    obtain ⟨b₄, hfields, htype₄, hrest₄⟩ := ih htail (j + 1) b₃ hrest₃
    refine ⟨b₄, ?_, by rw [htype₄, htype₃, htype₂, htype₁], hrest₄⟩
    have hkey' : ∀ what, b.take 2 what = .ok ([f.subId, f.fieldId], b₁) := hkey
    rw [length_cons, fields]
    simp only [hkey', hlenByte, hbyte, hvalue, hfields, ok_bind]
    rfl

end SectionBody

lemma getFields_fieldsBytes {i : ℕ} (h : fieldsBytes i fields = .ok bytes) (j pos : ℕ) :
    getFields sectionFieldFormat fields.length j pos bytes = .ok fields := by
  induction fields generalizing i j pos bytes with
  | nil => rfl
  | cons f fs ih =>
    simp only [fieldsBytes, bind_eq_ok, require_eq_ok, Except.ok.injEq] at h
    obtain ⟨-, hlen, tail, htail, rfl⟩ := h
    have hbyte : (UInt8.ofNat f.value.length).toNat = f.value.length := by
      rw [UInt8.toNat_ofNat']
      omega
    rw [length_cons, getFields]
    simp only [hbyte]
    rw [if_neg (by simpa [sectionFieldFormat] using hlen), if_neg (by simp), drop_left,
      ih htail, ok_bind, take_left]

def RoundTrips (rules : SectionRules Tx) (tx : Tx) : Prop :=
  ∃ bytes, rules.serializeTransaction tx = .ok bytes ∧
    ∀ rest, rules.parseTransaction (bytes ++ rest) = .ok (tx, rest)

variable {rules} {proofBytes : Bytes}

lemma getTransactions_transactionsBytes {txs : List Tx} (h : ∀ tx ∈ txs, RoundTrips rules tx)
    (i : ℕ) : ∃ bytes, transactionsBytes rules i txs = .ok bytes ∧
      ∀ j rest, getTransactions rules.parseTransaction txs.length j (bytes ++ rest) =
        .ok (txs, rest) := by
  induction txs generalizing i with
  | nil => exact ⟨[], rfl, fun _ _ => rfl⟩
  | cons tx txs ih =>
    obtain ⟨bytes, hbytes, hparse⟩ := h tx mem_cons_self
    obtain ⟨tail, htail, hread⟩ := ih (fun tx' htx' => h tx' (mem_cons_of_mem _ htx')) (i + 1)
    refine ⟨bytes ++ tail, ?_, fun j rest => ?_⟩
    · simp only [transactionsBytes, hbytes, Except.mapError, ok_bind, htail]
    · rw [length_cons, getTransactions, append_assoc, hparse]
      simp only [hread, ok_bind]

lemma exists_fieldsBytes (h : ∀ f ∈ fields, f.value.length ≤ 255) (i : ℕ) :
    ∃ bytes, fieldsBytes i fields = .ok bytes := by
  induction fields generalizing i with
  | nil => exact ⟨[], rfl⟩
  | cons f fs ih =>
    obtain ⟨tail, htail⟩ := ih (fun f' hf' => h f' (mem_cons_of_mem _ hf')) (i + 1)
    have hlen : require (f.value.length ≤ 255) (ValidationError.sectionParse extensionTypeId
        s!"field {i}: value length {f.value.length} exceeds 255") = .ok () :=
      if_pos (h f mem_cons_self)
    exact ⟨_, by rw [fieldsBytes, hlen, ok_bind, htail, ok_bind]⟩

/-! ## Identity -/

lemma sectionIdFromBody_of_readContent {typeId : ℕ}
    (hid : headerId < 2 ^ 256) {tail : Bytes} (content : SectionContent Tx)
    (hread : ∀ b : SectionBody, b.typeId = typeId → b.remaining = tail →
      ∃ b' : SectionBody, readContent rules b = .ok (content, b') ∧ b'.remaining = []) :
    sectionIdFromBody rules typeId (bytesOfId headerId ++ tail) =
      .ok ⟨sectionId rules typeId headerId (content.digest rules), headerId⟩ := by
  obtain ⟨b₁, htake, htype, hrest⟩ :=
    take_append ⟨typeId, 0, bytesOfId headerId ++ tail⟩ rfl
  rw [length_bytesOfId] at htake
  obtain ⟨b₂, hcontent, hend⟩ := hread b₁ htype hrest
  have hparse : parseSectionBody rules typeId (bytesOfId headerId ++ tail) =
      .ok (headerId, content) := by
    simp only [parseSectionBody, htake, ok_bind, hcontent, finish, require, hend,
      if_true, natOfBytes_bytesOfId hid]
  simp only [sectionIdFromBody, hparse, ok_bind]

lemma sectionHeaderId_append (hid : headerId < 2 ^ 256) (tail : Bytes) :
    sectionHeaderId (bytesOfId headerId ++ tail) = headerId := by
  rw [sectionHeaderId, take_left' (length_bytesOfId headerId), natOfBytes_bytesOfId hid]

lemma not_length_lt (headerId : BlockId) (n : ℕ) (tail : Bytes) :
    ¬(bytesOfId headerId ++ (putLen n ++ tail)).length < 33 := by
  have hpos := length_putVlq_pos (n % 2 ^ 32)
  simp only [putLen, length_append, length_bytesOfId]
  omega

lemma drop_bytesOfId_append (headerId : BlockId) (tail : Bytes) :
    (bytesOfId headerId ++ tail).drop 32 = tail :=
  drop_left' (length_bytesOfId headerId)

/-! ## The three sections -/

lemma serializeExtension_eq_ok {body : Bytes} :
    serializeExtension headerId fields = .ok body ↔
      ∃ bytes, fieldsBytes 0 fields = .ok bytes ∧
        bytesOfId headerId ++ (putLen fields.length ++ bytes) = body := by
  simp only [serializeExtension, bind_eq_ok, Except.ok.injEq, append_assoc]

lemma parseExtension_of_fieldsBytes (hid : headerId < 2 ^ 256) (hcount : fields.length ≤ 65535)
    (hbytes : fieldsBytes 0 fields = .ok bytes) :
    parseExtension (bytesOfId headerId ++ (putLen fields.length ++ bytes)) =
      .ok ⟨headerId, fields⟩ := by
  have hread := getU16_putLen (Nat.lt_succ_of_le hcount) bytes
  simp only [parseExtension, not_length_lt, if_false, drop_bytesOfId_append, hread,
    getFields_fieldsBytes hbytes, ok_bind, sectionHeaderId_append hid]

lemma serializeExtension_binds (hid : headerId < 2 ^ 256) (hcount : fields.length ≤ 65535)
    (hlen : ∀ f ∈ fields, f.value.length ≤ 255) :
    ∃ body, serializeExtension headerId fields = .ok body ∧
      sectionIdFromBody rules extensionTypeId body =
        .ok ⟨sectionId rules extensionTypeId headerId (extensionRoot rules fields), headerId⟩ ∧
      parseExtension body = .ok ⟨headerId, fields⟩ := by
  obtain ⟨bytes, hbytes⟩ := exists_fieldsBytes hlen 0
  have hread := getU16_putLen (Nat.lt_succ_of_le hcount) bytes
  refine ⟨_, serializeExtension_eq_ok.2 ⟨bytes, hbytes, rfl⟩, ?_,
    parseExtension_of_fieldsBytes hid hcount hbytes⟩
  apply sectionIdFromBody_of_readContent hid (.extension fields)
  intro b htype hrest
  obtain ⟨b₁, hvlq, htype₁, hrest₁⟩ := b.vlq_eq (hrest ▸ hread)
  obtain ⟨b₂, hfields, -, hrest₂⟩ := fields_fieldsBytes hbytes 0 b₁
    (hrest₁.trans (append_nil bytes).symm)
  refine ⟨b₂, ?_, hrest₂⟩
  simp only [readContent, htype, readExtension, hvlq, hfields, ok_bind]
  rfl

lemma serializeAdProofs_binds (hid : headerId < 2 ^ 256) (hsize : proofBytes.length < 2 ^ 32) :
    sectionIdFromBody rules adProofsTypeId (serializeAdProofs headerId proofBytes) =
        .ok ⟨sectionId rules adProofsTypeId headerId (adProofsDigest rules proofBytes), headerId⟩ ∧
      parseAdProofs (serializeAdProofs headerId proofBytes) = .ok ⟨headerId, proofBytes⟩ := by
  have hread := getU32_putLen hsize proofBytes
  rw [serializeAdProofs, append_assoc]
  constructor
  · apply sectionIdFromBody_of_readContent hid (.adProofs proofBytes)
    intro b htype hrest
    obtain ⟨b₁, hvlq, -, hrest₁⟩ := b.vlq_eq (hrest ▸ hread)
    obtain ⟨b₂, htake, -, hrest₂⟩ := b₁.take_append (hrest₁.trans (append_nil _).symm)
    refine ⟨b₂, ?_, hrest₂⟩
    simp only [readContent, htype, readAdProofs, hvlq, htake, ok_bind]
    rfl
  · simp only [parseAdProofs, not_length_lt, if_false, drop_bytesOfId_append, hread, Nat.lt_irrefl,
      take_length, sectionHeaderId_append hid]

lemma serializeBlockTransactions_binds (hid : headerId < 2 ^ 256)
    {blockVersion : ℕ} (hversion : 1 ≤ blockVersion) (hfits : blockVersion ≤ 255) {txs : List Tx}
    (hne : txs ≠ []) (hcount : txs.length < 2 ^ 32) (hcodec : ∀ tx ∈ txs, RoundTrips rules tx) :
    ∃ body, serializeBlockTransactions rules headerId blockVersion txs = .ok body ∧
      sectionIdFromBody rules blockTransactionsTypeId body =
        .ok ⟨sectionId rules blockTransactionsTypeId headerId
          (transactionsRoot rules txs blockVersion), headerId⟩ ∧
      parseBlockTransactions rules body = .ok ⟨headerId, blockVersion, txs⟩ := by
  obtain ⟨bytes, hbytes, htxs⟩ := getTransactions_transactionsBytes hcodec 0
  have hbody : serializeBlockTransactions rules headerId blockVersion txs =
      .ok (bytesOfId headerId ++ (putLen (blockVersionSentinel + blockVersion) ++
        (putLen txs.length ++ bytes))) := by
    simp only [serializeBlockTransactions, hbytes, ok_bind, append_assoc]
  have hread := getU32_putLen (n := blockVersionSentinel + blockVersion)
    (by unfold blockVersionSentinel; omega) (putLen txs.length ++ bytes)
  have hreadCount := getU32_putLen hcount bytes
  have hreadTxs := htxs 0 []
  rw [append_nil] at hreadTxs
  have habove : blockVersionSentinel < blockVersionSentinel + blockVersion := by omega
  have hminus : blockVersionSentinel + blockVersion - blockVersionSentinel = blockVersion := by omega
  refine ⟨_, hbody, ?_, ?_⟩
  · apply sectionIdFromBody_of_readContent hid (.blockTransactions blockVersion txs)
    intro b htype hrest
    obtain ⟨b₁, hvlq₁, -, hrest₁⟩ := b.vlq_eq (hrest ▸ hread)
    obtain ⟨b₂, hvlq₂, -, hrest₂⟩ := b₁.vlq_eq (hrest₁ ▸ hreadCount)
    have hnonzero : txs.length ≠ 0 := fun h => hne (length_eq_zero_iff.1 h)
    have hversion8 : blockVersion < 256 := by omega
    refine ⟨b₂.advance [], ?_, rfl⟩
    simp only [readContent, htype, if_true, readBlockTransactions, readVersionAndCount, hvlq₁,
      ok_bind, habove, hminus, require, hversion8, hvlq₂, hnonzero, ne_eq, not_false_eq_true,
      transactions, hrest₂, hreadTxs]
  · simp only [parseBlockTransactions, not_length_lt, if_false, drop_bytesOfId_append, hread,
      Option.elim_some, ok_bind, habove, if_true, hminus, hreadCount, hreadTxs, Except.mapError,
      sectionHeaderId_append hid]

/-- **A serialized section has the id of its content, and parses back to it**, for non-empty
transactions of a version between 1 and 255, as far as the 32-bit sizes reach and the codec reads
back what it writes. -/
theorem serialized_sections_bind (rules : SectionRules Tx) {headerId : BlockId}
    (hid : headerId < 2 ^ 256) :
    (∀ fields : List ExtensionField, fields.length ≤ 65535 → (∀ f ∈ fields, f.value.length ≤ 255) →
      ∃ body, serializeExtension headerId fields = .ok body ∧
        sectionIdFromBody rules extensionTypeId body =
          .ok ⟨sectionId rules extensionTypeId headerId (extensionRoot rules fields), headerId⟩ ∧
        parseExtension body = .ok ⟨headerId, fields⟩) ∧
    (∀ proofBytes : Bytes, proofBytes.length < 2 ^ 32 →
      sectionIdFromBody rules adProofsTypeId (serializeAdProofs headerId proofBytes) =
          .ok ⟨sectionId rules adProofsTypeId headerId (adProofsDigest rules proofBytes),
            headerId⟩ ∧
        parseAdProofs (serializeAdProofs headerId proofBytes) = .ok ⟨headerId, proofBytes⟩) ∧
    (∀ (blockVersion : ℕ) (txs : List Tx), 1 ≤ blockVersion → blockVersion ≤ 255 → txs ≠ [] →
      txs.length < 2 ^ 32 → (∀ tx ∈ txs, RoundTrips rules tx) →
      ∃ body, serializeBlockTransactions rules headerId blockVersion txs = .ok body ∧
        sectionIdFromBody rules blockTransactionsTypeId body =
          .ok ⟨sectionId rules blockTransactionsTypeId headerId
            (transactionsRoot rules txs blockVersion), headerId⟩ ∧
        parseBlockTransactions rules body = .ok ⟨headerId, blockVersion, txs⟩) :=
  ⟨fun _ hcount hlen => serializeExtension_binds hid hcount hlen,
    fun _ hsize => serializeAdProofs_binds hid hsize,
    fun _ _ hversion hfits hne hcount hcodec =>
      serializeBlockTransactions_binds hid hversion hfits hne hcount hcodec⟩

/-! ## Three decoders of one format -/

namespace SectionBody

variable {b b' : SectionBody} {what : String}

lemma take_eq_ok {xs : Bytes} (h : b.take n what = .ok (xs, b')) :
    n ≤ b.remaining.length ∧ xs = b.remaining.take n ∧ b'.remaining = b.remaining.drop n ∧
      b'.typeId = b.typeId := by
  unfold take at h
  split at h
  · cases h
  next hlen =>
    cases h
    exact ⟨by omega, rfl, rfl, rfl⟩

lemma u8_eq_ok {x : UInt8} (h : b.u8 what = .ok (x, b')) :
    b.remaining = x :: b'.remaining := by
  obtain ⟨⟨xs, b₁⟩, htake, hout⟩ := bind_eq_ok.1 h
  cases hout
  obtain ⟨hlen, rfl, hrest, -⟩ := take_eq_ok htake
  cases hbytes : b.remaining with
  | nil => simp [hbytes] at hlen
  | cons y tail => simp [hbytes, hrest]

lemma vlq_eq_ok (h : b.vlq read what = .ok (n, b')) :
    read b.remaining = some (n, b'.remaining) := by
  unfold vlq at h
  split at h
  · cases h
  next value rest hread =>
    cases h
    exact hread

lemma getFields_of_fields {count i : ℕ} {fields : List ExtensionField}
    (h : SectionBody.fields count i b = .ok (fields, b')) (j pos : ℕ) :
    getFields sectionFieldFormat count j pos b.remaining = .ok fields := by
  induction count generalizing i j pos b b' fields with
  | zero =>
    cases h
    rfl
  | succ count ih =>
    simp only [SectionBody.fields, bind_eq_ok, Prod.exists, Except.ok.injEq, Prod.mk.injEq] at h
    obtain ⟨key, b₁, hkey, len, b₂, hlen, value, b₃, hvalue, tail, b₄, htail, rfl, -⟩ := h
    obtain ⟨hroom, rfl, hrest₁, -⟩ := take_eq_ok hkey
    obtain ⟨hroom₂, rfl, hrest₃, -⟩ := take_eq_ok hvalue
    have hlen := u8_eq_ok hlen
    -- the bytes of the key in front of the length
    rcases hbytes : b.remaining with _ | ⟨subId, _ | ⟨fieldId, rest⟩⟩
    · simp [hbytes] at hroom
    · simp [hbytes] at hroom
    · rw [hrest₁, hbytes] at hlen
      obtain rfl : rest = len :: b₂.remaining := hlen
      have hbyte : ¬sectionFieldFormat.maxValueLen < len.toNat :=
        Nat.not_lt.2 (Nat.le_of_lt_succ len.toNat_lt)
      have htail := ih htail (j + 1) (pos + 3 + len.toNat)
      rw [hrest₃] at htail
      rw [getFields, if_neg hbyte, if_neg (by omega), htail]
      rfl

end SectionBody

lemma readExtension_of_sectionIdFromBody {identity : SectionIdentity}
    (h : sectionIdFromBody rules extensionTypeId bytes = .ok identity) :
    ∃ count rest fields, 32 ≤ bytes.length ∧ getU16 (bytes.drop 32) = some (count, rest) ∧
      (∀ j pos, getFields sectionFieldFormat count j pos rest = .ok fields) ∧
      identity = ⟨sectionId rules extensionTypeId (sectionHeaderId bytes)
        (extensionRoot rules fields), sectionHeaderId bytes⟩ := by
  obtain ⟨headerId, content, hparse, rfl⟩ := sectionIdFromBody_eq_ok_iff.1 h
  simp only [parseSectionBody, bind_eq_ok, Prod.exists, Except.ok.injEq, Prod.mk.injEq] at hparse
  obtain ⟨headerBytes, b, htake, content', b', hread, _, -, rfl, rfl⟩ := hparse
  obtain ⟨hlen, rfl, hrest, htype⟩ := take_eq_ok htake
  have hread' : readExtension b = .ok (content', b') := by
    simp only [readContent, htype] at hread
    exact hread
  simp only [readExtension, bind_eq_ok, Prod.exists, Except.ok.injEq, Prod.mk.injEq] at hread'
  obtain ⟨count, b₁, hcount, fields, b₂, hfields, rfl, -⟩ := hread'
  refine ⟨count, b₁.remaining, fields, hlen, ?_, getFields_of_fields hfields, rfl⟩
  rw [← hrest]
  exact vlq_eq_ok hcount

lemma roundTrips_byteRules (tx : UInt8) : RoundTrips byteRules tx := ⟨[tx], rfl, fun _ => rfl⟩

/-- Two transactions in a block of version 2. -/
theorem serialized_sections_bind_byteRules :
    ∃ body, serializeBlockTransactions byteRules 7 2 [3, 4] = .ok body ∧
      sectionIdFromBody byteRules blockTransactionsTypeId body =
        .ok ⟨sectionId byteRules blockTransactionsTypeId 7 (transactionsRoot byteRules [3, 4] 2),
          7⟩ ∧
      parseBlockTransactions byteRules body = .ok ⟨7, 2, [3, 4]⟩ :=
  (serialized_sections_bind byteRules (by decide)).2.2 2 [3, 4] (by decide) (by decide) (by decide)
    (by decide) (fun tx _ => roundTrips_byteRules tx)

def oneFieldExtension (value : Bytes) : Bytes :=
  bytesOfId 7 ++ 1 :: 0 :: 5 :: UInt8.ofNat value.length :: value

lemma sectionIdFromBody_of_cut_length (rules : SectionRules Tx) (headerId : BlockId)
    (hsize : 2 ^ 32 ≤ proofBytes.length) :
    ∃ e, sectionIdFromBody rules adProofsTypeId (serializeAdProofs headerId proofBytes) =
      .error e := by
  have hcut : proofBytes.length % 2 ^ 32 < proofBytes.length :=
    Nat.lt_of_lt_of_le (Nat.mod_lt _ (by decide)) hsize
  have hread : getU32 (putLen proofBytes.length ++ proofBytes) =
      some (proofBytes.length % 2 ^ 32, proofBytes) :=
    getU32_putVlq (Nat.mod_lt _ (by decide)) proofBytes
  rw [serializeAdProofs, append_assoc]
  obtain ⟨b, hheader, htype, hrest⟩ := take_append
    ⟨adProofsTypeId, 0, bytesOfId headerId ++ (putLen proofBytes.length ++ proofBytes)⟩ rfl
  rw [length_bytesOfId] at hheader
  obtain ⟨b₁, hvlq, -, hrest₁⟩ := b.vlq_eq (hrest ▸ hread)
  -- what the length says is taken, the rest is left over
  obtain ⟨b₂, htake, -, hrest₂⟩ := b₁.take_append
    (hrest₁.trans (take_append_drop (proofBytes.length % 2 ^ 32) proofBytes).symm)
  rw [length_take, Nat.min_eq_left (Nat.le_of_lt hcut)] at htake
  have hleft : b₂.remaining ≠ [] := by
    rw [hrest₂]
    intro hnil
    have := congrArg length hnil
    rw [length_drop, length_nil] at this
    omega
  have hcontent : readContent rules b =
      .ok (.adProofs (proofBytes.take (proofBytes.length % 2 ^ 32)), b₂) := by
    simp only [readContent, htype, readAdProofs, hvlq, htake, ok_bind]
    rfl
  obtain ⟨e, hfinish⟩ : ∃ e, b₂.finish = .error e := ⟨_, if_neg hleft⟩
  refine ⟨e, ?_⟩
  simp only [sectionIdFromBody, parseSectionBody, hheader, ok_bind, hcontent, hfinish]
  rfl

/-- A proof of `2 ^ 32` bytes has no id. -/
theorem sectionIdFromBody_oversizedProof :
    sectionIdFromBody byteRules adProofsTypeId (serializeAdProofs 7 (List.replicate (2 ^ 32) 0)) ≠
      .ok ⟨sectionId byteRules adProofsTypeId 7
        (adProofsDigest byteRules (List.replicate (2 ^ 32) 0)), 7⟩ := by
  have hsize : 2 ^ 32 ≤ (replicate (2 ^ 32) (0 : UInt8)).length := by
    rw [length_replicate]
  obtain ⟨e, he⟩ := sectionIdFromBody_of_cut_length byteRules 7 hsize
  rw [he]
  exact fun h => by cases h

end ErgoNode
