import ErgoNode.Chain.Voting

/-!
# The identity of block sections

The id of a section is a hash of its type, its header's id, and a digest of its content that the
header commits to. `sectionIdFromBody` recomputes it from delivered bytes. The hash, the Merkle tree
and the transaction codec are fields of `SectionRules`. Digests are below `2 ^ 256` as numbers.
-/

namespace ErgoNode

def blockTransactionsTypeId : ℕ := 102

def adProofsTypeId : ℕ := 104

def extensionTypeId : ℕ := 108

/-- A first number above this carries the block version, otherwise it is the transaction count of
a version-1 block. -/
def blockVersionSentinel : ℕ := 10000000

/-- What the section code calls outside this repository. -/
structure SectionRules (Tx : Type) where
  blake2b256 : Bytes → BlockId
  merkleRoot : List Bytes → BlockId
  transactionId : Tx → BlockId
  spendingProofs : Tx → List Bytes
  /-- Read one transaction off the front of a byte string. -/
  parseTransaction : Bytes → Except String (Tx × Bytes)
  serializeTransaction : Tx → Except String Bytes
  blake2b256_lt : ∀ bytes, blake2b256 bytes < 2 ^ 256
  merkleRoot_lt : ∀ leaves, merkleRoot leaves < 2 ^ 256

/-- What a section body says about itself. -/
structure SectionIdentity where
  id : BlockId
  headerId : BlockId
deriving DecidableEq, Repr

inductive SectionContent (Tx : Type) where
  | blockTransactions (blockVersion : ℕ) (txs : List Tx)
  | adProofs (proofBytes : Bytes)
  | extension (fields : List ExtensionField)

variable {Tx : Type} (rules : SectionRules Tx)

/-! ## Digests -/

def sectionPreimage (typeId : ℕ) (headerId digest : BlockId) : Bytes :=
  UInt8.ofNat typeId :: (bytesOfId headerId ++ bytesOfId digest)

def sectionId (typeId : ℕ) (headerId digest : BlockId) : BlockId :=
  rules.blake2b256 (sectionPreimage typeId headerId digest)

/-- Witness id of a transaction: the hash of its proofs without the first byte. -/
def witnessId (tx : Tx) : Bytes :=
  (bytesOfId (rules.blake2b256 (rules.spendingProofs tx).flatten)).drop 1

/-- The leaves under a transactions root: the ids, and after version 1 the witness ids behind
them. -/
def transactionLeaves (txs : List Tx) (blockVersion : ℕ) : List Bytes :=
  txs.map (fun tx => bytesOfId (rules.transactionId tx)) ++
    if blockVersion ≠ 1 then txs.map (witnessId rules) else []

def transactionsRoot (txs : List Tx) (blockVersion : ℕ) : BlockId :=
  rules.merkleRoot (transactionLeaves rules txs blockVersion)

def extensionLeaf (f : ExtensionField) : Bytes := 2 :: f.subId :: f.fieldId :: f.value

def extensionRoot (fields : List ExtensionField) : BlockId :=
  rules.merkleRoot (fields.map extensionLeaf)

def adProofsDigest (proofBytes : Bytes) : BlockId := rules.blake2b256 proofBytes

def SectionContent.digest : SectionContent Tx → BlockId
  | .blockTransactions blockVersion txs => transactionsRoot rules txs blockVersion
  | .adProofs proofBytes => adProofsDigest rules proofBytes
  | .extension fields => extensionRoot rules fields

def SectionContent.typeId : SectionContent Tx → ℕ
  | .blockTransactions _ _ => blockTransactionsTypeId
  | .adProofs _ => adProofsTypeId
  | .extension _ => extensionTypeId

/-- The part of the content that the digest commits to: the leaves under the root, or the proof. -/
def SectionContent.committed : SectionContent Tx → List Bytes
  | .blockTransactions blockVersion txs => transactionLeaves rules txs blockVersion
  | .adProofs proofBytes => [proofBytes]
  | .extension fields => fields.map extensionLeaf

/-! ## The cursor -/

structure SectionBody where
  typeId : ℕ
  pos : ℕ
  remaining : Bytes

namespace SectionBody

def err (b : SectionBody) (reason : String) : ChainError := .sectionInvalid b.typeId reason

def advance (b : SectionBody) (rest : Bytes) : SectionBody :=
  { b with pos := b.pos + (b.remaining.length - rest.length), remaining := rest }

/-- Take the next `n` bytes, or fail naming the field that ran short. -/
def take (b : SectionBody) (n : ℕ) (what : String) : Except ChainError (Bytes × SectionBody) :=
  if b.remaining.length < n then
    .error (b.err s!"{what}: need {n} bytes at offset {b.pos}, {b.remaining.length} remain")
  else .ok (b.remaining.take n, b.advance (b.remaining.drop n))

def u8 (b : SectionBody) (what : String) : Except ChainError (UInt8 × SectionBody) := do
  let (bytes, b) ← b.take 1 what
  .ok (bytes.headD 0, b)

def vlq (b : SectionBody) (read : Bytes → Option (ℕ × Bytes)) (what : String) :
    Except ChainError (ℕ × SectionBody) :=
  match read b.remaining with
  | none => .error (b.err s!"{what}: VLQ")
  | some (value, rest) => .ok (value, b.advance rest)

def finish (b : SectionBody) : Except ChainError Unit :=
  require (b.remaining = [])
    (b.err s!"{b.remaining.length} trailing bytes after the section at offset {b.pos}")

end SectionBody

def getTransactions (parse : Bytes → Except String (Tx × Bytes)) :
    (count i : ℕ) → Bytes → Except String (List Tx × Bytes)
  | 0, _, bytes => .ok ([], bytes)
  | count + 1, i, bytes =>
    match parse bytes with
    | .error e => .error s!"transaction {i}: {e}"
    | .ok (tx, rest) => do
      let (txs, rest) ← getTransactions parse count (i + 1) rest
      .ok (tx :: txs, rest)

namespace SectionBody

/-- Parse transactions, then advance past the bytes the codec consumed. -/
def transactions (b : SectionBody) (count : ℕ) : Except ChainError (List Tx × SectionBody) :=
  match getTransactions rules.parseTransaction count 0 b.remaining with
  | .error reason => .error (b.err reason)
  | .ok (txs, rest) => .ok (txs, b.advance rest)

def fields : (count i : ℕ) → SectionBody → Except ChainError (List ExtensionField × SectionBody)
  | 0, _, b => .ok ([], b)
  | count + 1, i, b => do
    let (key, b) ← b.take 2 s!"field {i} key"
    let (len, b) ← b.u8 s!"field {i} value length"
    let (value, b) ← b.take len.toNat s!"field {i} value"
    let (rest, b) ← fields count (i + 1) b
    .ok ({ subId := key.getD 0 0, fieldId := key.getD 1 0, value := value } :: rest, b)

end SectionBody

/-! ## Bodies -/

def readVersionAndCount (b : SectionBody) : Except ChainError ((ℕ × ℕ) × SectionBody) := do
  let (verOrCount, b) ← b.vlq getU32 "block version or transaction count"
  if blockVersionSentinel < verOrCount then
    let version := verOrCount - blockVersionSentinel
    require (version < 256) (b.err s!"block version {version} does not fit u8")
    let (count, b) ← b.vlq getU32 "transaction count"
    .ok ((version, count), b)
  else .ok ((1, verOrCount), b)

def readBlockTransactions (b : SectionBody) : Except ChainError (SectionContent Tx × SectionBody) := do
  let ((blockVersion, count), b) ← readVersionAndCount b
  require (count ≠ 0) (b.err "no transactions: a block carries at least one")
  let (txs, b) ← b.transactions rules count
  .ok (.blockTransactions blockVersion txs, b)

def readAdProofs (b : SectionBody) : Except ChainError (SectionContent Tx × SectionBody) := do
  let (size, b) ← b.vlq getU32 "proof size"
  let (proofBytes, b) ← b.take size "proof bytes"
  .ok (.adProofs proofBytes, b)

def readExtension (b : SectionBody) : Except ChainError (SectionContent Tx × SectionBody) := do
  let (count, b) ← b.vlq getU16 "field count"
  let (fields, b) ← b.fields count 0
  .ok (.extension fields, b)

def readContent (b : SectionBody) : Except ChainError (SectionContent Tx × SectionBody) :=
  if b.typeId = blockTransactionsTypeId then readBlockTransactions rules b
  else if b.typeId = adProofsTypeId then readAdProofs b
  else if b.typeId = extensionTypeId then readExtension b
  else .error (b.err "not a block section type (expected 102, 104 or 108)")

/-- Header id and content of a body that is read to its last byte. -/
def parseSectionBody (typeId : ℕ) (body : Bytes) :
    Except ChainError (BlockId × SectionContent Tx) := do
  let (headerBytes, b) ← SectionBody.take ⟨typeId, 0, body⟩ 32 "header id"
  let (content, b) ← readContent rules b
  b.finish
  .ok (natOfBytes headerBytes, content)

def sectionIdFromBody (typeId : ℕ) (body : Bytes) : Except ChainError SectionIdentity := do
  let (headerId, content) ← parseSectionBody rules typeId body
  .ok { id := sectionId rules typeId headerId (content.digest rules), headerId := headerId }

variable {rules} {typeId : ℕ} {content : SectionContent Tx} {body : Bytes}

lemma sectionIdFromBody_eq_ok_iff {identity : SectionIdentity} :
    sectionIdFromBody rules typeId body = .ok identity ↔
      ∃ headerId content, parseSectionBody rules typeId body = .ok (headerId, content) ∧
        identity = ⟨sectionId rules typeId headerId (content.digest rules), headerId⟩ := by
  simp only [sectionIdFromBody, bind_eq_ok, Prod.exists, Except.ok.injEq]
  constructor
  · rintro ⟨headerId, content, hparse, rfl⟩
    exact ⟨headerId, content, hparse, rfl⟩
  · rintro ⟨headerId, content, hparse, rfl⟩
    exact ⟨headerId, content, hparse, rfl⟩

/-! ## Collisions -/

lemma digest_lt (content : SectionContent Tx) : content.digest rules < 2 ^ 256 := by
  cases content with
  | blockTransactions => exact rules.merkleRoot_lt _
  | adProofs => exact rules.blake2b256_lt _
  | extension => exact rules.merkleRoot_lt _

lemma typeId_of_readContent {b b' : SectionBody} (h : readContent rules b = .ok (content, b')) :
    content.typeId = b.typeId := by
  unfold readContent at h
  split at h
  next htype =>
    simp only [readBlockTransactions, bind_eq_ok, Except.ok.injEq, Prod.mk.injEq] at h
    obtain ⟨_, -, _, -, _, -, rfl, -⟩ := h
    exact htype.symm
  · split at h
    next htype =>
      simp only [readAdProofs, bind_eq_ok, Except.ok.injEq, Prod.mk.injEq] at h
      obtain ⟨_, -, _, -, rfl, -⟩ := h
      exact htype.symm
    · split at h
      next htype =>
        simp only [readExtension, bind_eq_ok, Except.ok.injEq, Prod.mk.injEq] at h
        obtain ⟨_, -, _, -, rfl, -⟩ := h
        exact htype.symm
      · cases h

lemma parseSectionBody_eq_ok {headerId : BlockId}
    (h : parseSectionBody rules typeId body = .ok (headerId, content)) :
    headerId < 2 ^ 256 ∧ content.typeId = typeId := by
  simp only [parseSectionBody, bind_eq_ok, Except.ok.injEq, Prod.mk.injEq, Prod.exists] at h
  obtain ⟨headerBytes, b, htake, content', b', hread, _, -, rfl, rfl⟩ := h
  unfold SectionBody.take at htake
  split at htake
  · cases htake
  · cases htake
    refine ⟨Nat.lt_of_lt_of_le (natOfBytes_lt _) ?_, typeId_of_readContent hread⟩
    calc 256 ^ (body.take 32).length ≤ 256 ^ 32 :=
          Nat.pow_le_pow_right (by decide) (by simp)
      _ = 2 ^ 256 := by norm_num

variable (rules)

def hashedBytes (typeId : ℕ) (body : Bytes) : List Bytes :=
  match parseSectionBody rules typeId body with
  | .error _ => []
  | .ok (headerId, content) =>
    sectionPreimage typeId headerId (content.digest rules) ::
      match content with
      | .adProofs proofBytes => [proofBytes]
      | _ => []

def hashedLeaves (typeId : ℕ) (body : Bytes) : List (List Bytes) :=
  match parseSectionBody rules typeId body with
  | .error _ => []
  | .ok (_, content) =>
    match content with
    | .adProofs _ => []
    | content => [content.committed rules]

/-- No two hashes that are made for these bodies, each with its type, collide. -/
structure CollisionFreeOn (bodies : Set (ℕ × Bytes)) : Prop where
  blake2b256 : Set.InjOn rules.blake2b256 {x | ∃ b ∈ bodies, x ∈ hashedBytes rules b.1 b.2}
  merkleRoot : Set.InjOn rules.merkleRoot {x | ∃ b ∈ bodies, x ∈ hashedLeaves rules b.1 b.2}

def committedContent (typeId : ℕ) (body : Bytes) : Option (BlockId × List Bytes) :=
  (parseSectionBody rules typeId body).toOption.map (fun r => (r.1, r.2.committed rules))

variable {rules} {bodies : Set (ℕ × Bytes)}

/-- Content of one type with one digest is committed to the same, where hashes do not collide. -/
theorem committed_eq_of_digest_eq (hfree : CollisionFreeOn rules bodies) {body' : Bytes}
    (hbody : (typeId, body) ∈ bodies) (hbody' : (typeId, body') ∈ bodies)
    {headerId headerId' : BlockId} {content' : SectionContent Tx}
    (h : parseSectionBody rules typeId body = .ok (headerId, content))
    (h' : parseSectionBody rules typeId body' = .ok (headerId', content'))
    (hdigest : content.digest rules = content'.digest rules) :
    content.committed rules = content'.committed rules := by
  have htype : content.typeId = content'.typeId :=
    (parseSectionBody_eq_ok h).2.trans (parseSectionBody_eq_ok h').2.symm
  -- of the nine pairs only those of one type are left
  cases content with
  | blockTransactions version txs =>
    cases content' with
    | blockTransactions version' txs' =>
      exact hfree.merkleRoot ⟨_, hbody, by simp [hashedLeaves, h]⟩
        ⟨_, hbody', by simp [hashedLeaves, h']⟩ hdigest
    | adProofs => exact absurd htype (Nat.ne_of_beq_eq_false rfl)
    | extension => exact absurd htype (Nat.ne_of_beq_eq_false rfl)
  | adProofs proofBytes =>
    cases content' with
    | blockTransactions => exact absurd htype (Nat.ne_of_beq_eq_false rfl)
    | adProofs proofBytes' =>
      have heq : proofBytes = proofBytes' :=
        hfree.blake2b256 ⟨_, hbody, by simp [hashedBytes, h]⟩
          ⟨_, hbody', by simp [hashedBytes, h']⟩ hdigest
      rw [heq]
    | extension => exact absurd htype (Nat.ne_of_beq_eq_false rfl)
  | extension fields =>
    cases content' with
    | blockTransactions => exact absurd htype (Nat.ne_of_beq_eq_false rfl)
    | adProofs => exact absurd htype (Nat.ne_of_beq_eq_false rfl)
    | extension fields' =>
      exact hfree.merkleRoot ⟨_, hbody, by simp [hashedLeaves, h]⟩
        ⟨_, hbody', by simp [hashedLeaves, h']⟩ hdigest

/-- **Bodies of one type with one id name one header and commit to one content**, where hashes do
not collide. -/
theorem committedContent_eq_of_id_eq (hfree : CollisionFreeOn rules bodies) {body' : Bytes}
    (hbody : (typeId, body) ∈ bodies) (hbody' : (typeId, body') ∈ bodies)
    {identity identity' : SectionIdentity} (h : sectionIdFromBody rules typeId body = .ok identity)
    (h' : sectionIdFromBody rules typeId body' = .ok identity') (hid : identity.id = identity'.id) :
    committedContent rules typeId body = committedContent rules typeId body' := by
  obtain ⟨headerId, content, hparse, rfl⟩ := sectionIdFromBody_eq_ok_iff.1 h
  obtain ⟨headerId', content', hparse', rfl⟩ := sectionIdFromBody_eq_ok_iff.1 h'
  have hpreimage : sectionPreimage typeId headerId (content.digest rules) =
      sectionPreimage typeId headerId' (content'.digest rules) :=
    hfree.blake2b256 ⟨_, hbody, by simp [hashedBytes, hparse]⟩
      ⟨_, hbody', by simp [hashedBytes, hparse']⟩ hid
  -- the two digests in it have 32 bytes each
  obtain ⟨hheader, hdigest⟩ := List.append_inj (List.cons.inj hpreimage).2 (by simp)
  obtain rfl := bytesOfId_inj (parseSectionBody_eq_ok hparse).1 (parseSectionBody_eq_ok hparse').1
    hheader
  have hcommitted := committed_eq_of_digest_eq hfree hbody hbody' hparse hparse'
    (bytesOfId_inj (digest_lt content) (digest_lt content') hdigest)
  simp [committedContent, hparse, hparse', Except.toOption, hcommitted]

lemma collisionFreeOn_of_list {l : List (ℕ × Bytes)}
    (hl : ∀ b ∈ bodies, b ∈ l)
    (hbytes : ∀ x ∈ l.flatMap (fun b => hashedBytes rules b.1 b.2),
      ∀ y ∈ l.flatMap (fun b => hashedBytes rules b.1 b.2),
        rules.blake2b256 x = rules.blake2b256 y → x = y)
    (hleaves : ∀ x ∈ l.flatMap (fun b => hashedLeaves rules b.1 b.2),
      ∀ y ∈ l.flatMap (fun b => hashedLeaves rules b.1 b.2),
        rules.merkleRoot x = rules.merkleRoot y → x = y) : CollisionFreeOn rules bodies where
  blake2b256 := by
    rintro x ⟨b, hb, hx⟩ y ⟨b', hb', hy⟩ heq
    exact hbytes x (List.mem_flatMap.2 ⟨b, hl b hb, hx⟩) y (List.mem_flatMap.2 ⟨b', hl b' hb', hy⟩)
      heq
  merkleRoot := by
    rintro x ⟨b, hb, hx⟩ y ⟨b', hb', hy⟩ heq
    exact hleaves x (List.mem_flatMap.2 ⟨b, hl b hb, hx⟩) y
      (List.mem_flatMap.2 ⟨b', hl b' hb', hy⟩) heq

/-! ## Concrete rules

A transaction is a byte, its own id, without proofs, and the hashes are the value of the bytes, modulo
a prime of 32 bytes. -/

def byteRules : SectionRules UInt8 where
  blake2b256 bytes := natOfBytes bytes % (2 ^ 256 - 189)
  merkleRoot leaves := natOfBytes leaves.flatten % (2 ^ 256 - 189)
  transactionId tx := tx.toNat
  spendingProofs _ := []
  parseTransaction
    | [] => .error "unexpected end"
    | b :: rest => .ok (b, rest)
  serializeTransaction tx := .ok [tx]
  blake2b256_lt _ := Nat.lt_trans (Nat.mod_lt _ (by decide)) (by decide)
  merkleRoot_lt _ := Nat.lt_trans (Nat.mod_lt _ (by decide)) (by decide)

end ErgoNode
