import ErgoNode.Chain.HeaderChain

/-!
# Proofs of proof of work

A proof is a prefix of headers that shows the work of the chain, and a suffix of its last headers.
The message wraps it in an envelope with a length and a pad. Parsing, connections and the comparison
of two proofs are calls of a library, a parameter here. The code hands on one list of headers; the
parameters of the proof stay behind.
-/

namespace ErgoNode

/-- A header with the ids of earlier headers of higher levels. -/
structure PoPowHeader where
  header : Header
  interlinks : List BlockId
deriving DecidableEq, Repr

structure NipopowProof where
  m : ℕ
  k : ℕ
  proofPrefix : List PoPowHeader
  suffixHead : PoPowHeader
  suffixTail : List Header
deriving DecidableEq, Repr

namespace NipopowProof

def suffix (proof : NipopowProof) : List Header := proof.suffixHead.header :: proof.suffixTail

def headers (proof : NipopowProof) : List Header :=
  proof.proofPrefix.map PoPowHeader.header ++ proof.suffix

end NipopowProof

structure NipopowLibrary where
  scorexParseBytes : Bytes → Except String NipopowProof
  hasValidConnections : NipopowProof → Bool
  isBetterThan : NipopowProof → NipopowProof → Except String Bool

/-! ## The envelope -/

def nipopowProofMaxSize : ℕ := 2000000

inductive NipopowError where
  | bodyTooLarge (size max : ℕ)
  | invalidProofLength (length : ℕ)
  | truncated
  | vlq (reason : String)
deriving DecidableEq, Repr

def NipopowError.message : NipopowError → String
  | bodyTooLarge size max => s!"body too large: {size} bytes (max {max})"
  | invalidProofLength length => s!"proof length out of range: {length}"
  | truncated => "body truncated"
  | vlq reason => s!"VLQ decode failed: {reason}"

def parseNipopowProof (body : Bytes) : Except NipopowError Bytes :=
  if nipopowProofMaxSize < body.length then
    .error (.bodyTooLarge body.length nipopowProofMaxSize)
  else
    match getU32 body with
    | none => .error (.vlq "proof_len")
    | some (proofLen, rest) =>
      if proofLen = 0 ∨ nipopowProofMaxSize ≤ proofLen then .error (.invalidProofLength proofLen)
      else if rest.length < proofLen then .error .truncated
      else
        match getU16 (rest.drop proofLen) with
        | none => .error (.vlq "pad_len")
        | some (padLen, pad) =>
          if 0 < padLen ∧ padLen < nipopowProofMaxSize ∧ pad.length < padLen then .error .truncated
          else .ok (rest.take proofLen)

/-! ## Verification -/

structure NipopowVerificationResult where
  suffixTipHeight : ℕ
  totalHeaders : ℕ
  /-- Whether the proof carries headers for the difficulty; always `false`. -/
  continuous : Bool
  headers : List Header
deriving DecidableEq, Repr

section Verify

variable (lib : NipopowLibrary) (rules : HeaderRules)

def checkIncreasing : Option ℕ → (height : ℕ) → Except ChainError Unit
  | some prev, height =>
    require (prev < height) (.nipopow s!"non-increasing heights: {height} after {prev}")
  | none, _ => .ok ()

/-- The loop over the headers of a proof: heights increase, each header has its proof of work. -/
def checkProofHeaders : Option ℕ → List Header → Except ChainError (Option ℕ)
  | last, [] => .ok last
  | last, header :: rest => do
    checkIncreasing last header.height
    HeaderChain.checkPow rules header
    checkProofHeaders (some header.height) rest

def verifyNipopowProofBytes (bytes : Bytes) : Except ChainError NipopowVerificationResult := do
  require (bytes ≠ []) (.nipopow "empty proof bytes")
  let proof ← (lib.scorexParseBytes bytes).mapError (fun e => .nipopow s!"parse failed: {e}")
  require (lib.hasValidConnections proof) (.nipopow "invalid connections")
  require (proof.headers ≠ []) (.nipopow "empty proof headers chain")
  let last ← checkProofHeaders rules none proof.headers
  .ok ⟨last.getD 0, proof.headers.length, false, proof.headers⟩

def compareNipopowProofBytes (a b : Bytes) : Except ChainError Bool := do
  let proofA ← (lib.scorexParseBytes a).mapError (fun e => .nipopow s!"parse proof A failed: {e}")
  let proofB ← (lib.scorexParseBytes b).mapError (fun e => .nipopow s!"parse proof B failed: {e}")
  (lib.isBetterThan proofA proofB).mapError (fun e => .nipopow s!"comparison failed: {e}")

def verifyNipopowEnvelope (body : Bytes) : Except ChainError (List Header) := do
  let inner ← (parseNipopowProof body).mapError (fun e =>
    let message := e.message
    .nipopow s!"envelope parse: {message}")
  let result ← verifyNipopowProofBytes lib rules inner
  .ok result.headers

def isBetterNipopow (this than : Bytes) : Except ChainError Bool := do
  let innerA ← (parseNipopowProof this).mapError (fun e =>
    let message := e.message
    .nipopow s!"envelope parse (a): {message}")
  let innerB ← (parseNipopowProof than).mapError (fun e =>
    let message := e.message
    .nipopow s!"envelope parse (b): {message}")
  compareNipopowProofBytes lib innerA innerB

variable {lib rules}

lemma isChain_of_checkProofHeaders {last last' : Option ℕ} {headers : List Header}
    (h : checkProofHeaders rules last headers = .ok last') :
    headers.IsChain (fun a b => a.height < b.height) ∧
      ∀ prev ∈ last, ∀ header ∈ headers.head?, prev < header.height := by
  induction headers generalizing last with
  | nil => exact ⟨.nil, by simp⟩
  | cons header rest ih =>
    rw [checkProofHeaders, bind_eq_ok] at h
    obtain ⟨_, hheight, h⟩ := h
    obtain ⟨_, -, h⟩ := bind_eq_ok.1 h
    obtain ⟨hchain, hnext⟩ := ih h
    refine ⟨List.isChain_cons.2 ⟨fun next hmem => hnext _ rfl next hmem, hchain⟩, ?_⟩
    rintro prev hprev _ ⟨⟩
    obtain rfl := Option.mem_def.1 hprev
    exact require_eq_ok.1 hheight

/-- **What a verified proof is**: the library parses it and finds it connected, and the headers handed
on are those of prefix and suffix, with increasing heights. -/
theorem verifyNipopowProofBytes_eq_ok {bytes : Bytes} {result : NipopowVerificationResult}
    (h : verifyNipopowProofBytes lib rules bytes = .ok result) :
    ∃ proof, lib.scorexParseBytes bytes = .ok proof ∧ lib.hasValidConnections proof ∧
      result.headers = proof.headers ∧
      proof.headers.IsChain (fun a b => a.height < b.height) := by
  rw [verifyNipopowProofBytes] at h
  simp only [bind_eq_ok, require_eq_ok, mapError_eq_ok] at h
  obtain ⟨-, -, proof, hparse, -, hconnected, -, -, last, hcheck, h⟩ := h
  cases h
  exact ⟨proof, hparse, hconnected, rfl, (isChain_of_checkProofHeaders hcheck).1⟩

end Verify

end ErgoNode
