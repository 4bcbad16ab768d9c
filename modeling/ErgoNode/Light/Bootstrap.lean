import ErgoNode.Chain.ChainStructure
import ErgoNode.Light.Proof
import ErgoNode.Peers.Wire

/-!
# The bootstrap of a light client

A node without block bodies asks all its peers for a proof, takes the first answer of each within a
window, keeps those that pass verification, and installs the last ten headers of the best one. Ten
is the suffix length that was asked for, but the proof says itself how long its suffix is, and
neither that nor its first header is looked at. So the installed headers are the suffix of a proof
as it was asked for only if some verified first answer is such a proof and ends in the same ten
headers.
-/

namespace ErgoNode

open List

inductive ProtocolEvent where
  | message (peer : PeerId) (code : UInt8) (body : Bytes)
  | other
deriving DecidableEq, Repr

def p2pNipopowM : ℕ := 6

def p2pNipopowK : ℕ := 10

def nipopowProofCode : UInt8 := 91

inductive LightBootstrapError where
  | noPeers
  | allPeersStalled (peers : ℕ)
  | allPeersHostile (peers : ℕ)
  | installFailed (e : ChainError)
  | streamClosed
deriving DecidableEq, Repr

structure BootstrapInput where
  /-- The outbound peers, each time they are asked for before the deadline. -/
  polls : List (List PeerId)
  /-- Whether a request to a peer can be sent. -/
  sends : PeerId → Bool
  /-- The events within the window, in the order of their arrival. -/
  events : List ProtocolEvent
  /-- Whether the stream of events closes after these. -/
  closed : Bool

namespace BootstrapInput

def peers (input : BootstrapInput) : List PeerId := (input.polls.find? (fun ps => ps ≠ [])).getD []

def sentTo (input : BootstrapInput) : List PeerId := input.peers.filter input.sends

end BootstrapInput

structure ValidProof where
  peer : PeerId
  headers : List Header
  envelope : Bytes
deriving DecidableEq, Repr

structure Collected where
  validProofs : List ValidProof
  /-- Number of proofs that failed verification. -/
  hostile : ℕ
  responded : List PeerId

section Run

variable (lib : NipopowLibrary) (rules : CachedRules)

/-- What an event adds. Only the first proof of a polled peer counts. -/
def Collected.receive (sentTo : List PeerId) (c : Collected) : ProtocolEvent → Collected
  | .other => c
  | .message peer code body =>
    if peer ∉ sentTo then c
    else if code ≠ nipopowProofCode then c
    else if peer ∈ c.responded then c
    else
      match verifyNipopowEnvelope lib rules.toHeaderRules body with
      | .ok headers =>
        { c with
          responded := peer :: c.responded
          validProofs := c.validProofs ++ [⟨peer, headers, body⟩] }
      | .error _ => { c with responded := peer :: c.responded, hostile := c.hostile + 1 }

/-- The loop of the window. It ends when all peers have answered. -/
def collect (sentTo : List PeerId) (closed : Bool) :
    List ProtocolEvent → Collected → Except LightBootstrapError Collected
  | [], c =>
    if sentTo.length ≤ c.responded.length then .ok c
    else if closed then .error .streamClosed
    else .ok c
  | e :: events, c =>
    if sentTo.length ≤ c.responded.length then .ok c
    else collect sentTo closed events (c.receive lib rules sentTo e)

/-- `pick_best_proof`: the best so far against each of the others. A comparison that fails keeps the
best so far. -/
def pickBestProof : ValidProof → List ValidProof → ValidProof
  | best, [] => best
  | best, proof :: rest =>
    match isBetterNipopow lib proof.envelope best.envelope with
    | .ok true => pickBestProof proof rest
    | _ => pickBestProof best rest

def bestProof (input : BootstrapInput) : Except LightBootstrapError ValidProof := do
  require (input.peers ≠ []) .noPeers
  require (input.sentTo ≠ []) (.allPeersStalled input.peers.length)
  let collected ← collect lib rules input.sentTo input.closed input.events ⟨[], 0, []⟩
  match collected.validProofs with
  | [] =>
    if 0 < collected.hostile then .error (.allPeersHostile input.sentTo.length)
    else .error (.allPeersStalled input.sentTo.length)
  | best :: rest => .ok (pickBestProof lib best rest)

/-- The chain installs the headers, and they are stored with their scores; `none` when the chain
panics. -/
def installNipopowSuffix (s : StoredChain) (suffixHead : Header) (suffixTail : List Header) :
    Option (Except LightBootstrapError Unit × StoredChain) :=
  match CachedChain.installFromNipopowProof rules suffixHead suffixTail s.chain with
  | none => none
  | some (.error e, c) => some (.error (.installFailed e), { s with chain := c })
  | some (.ok installed, c) =>
    some (.ok (), s.store c (suffixHead :: suffixTail) (installed.map (fun i => (i.height, i.score))))

/-- The last headers, as many as the suffix that was asked for has. -/
def lastHeaders (headers : List Header) : List Header := headers.drop (headers.length - p2pNipopowK)

def runLightBootstrap (input : BootstrapInput) (s : StoredChain) :
    Option (Except LightBootstrapError Unit × StoredChain) :=
  if 0 < s.chain.height then some (.ok (), s)
  else
    match bestProof lib rules input with
    | .error e => some (.error e, s)
    | .ok best =>
      if best.headers.length < p2pNipopowK then some (.error (.allPeersHostile 1), s)
      else
        match lastHeaders best.headers with
        | [] => none
        | suffixHead :: suffixTail => installNipopowSuffix rules s suffixHead suffixTail

end Run

/-! ## What is collected -/

def proofOf (peer : PeerId) : ProtocolEvent → Option Bytes
  | .other => none
  | .message sender code body => if sender = peer ∧ code = nipopowProofCode then some body else none

def firstAnswer (peer : PeerId) (events : List ProtocolEvent) : Option Bytes :=
  events.findSome? (proofOf peer)

section Collect

variable {lib : NipopowLibrary} {rules : CachedRules} {sentTo : List PeerId}

/-- What was collected from events: who has answered, and the first answers that were verified. -/
structure Collected.From (lib : NipopowLibrary) (rules : CachedRules) (sentTo : List PeerId)
    (events : List ProtocolEvent) (c : Collected) : Prop where
  responded : ∀ peer ∈ sentTo, peer ∈ c.responded ↔ (firstAnswer peer events).isSome
  validProofs : ∀ proof ∈ c.validProofs, proof.peer ∈ sentTo ∧
    firstAnswer proof.peer events = some proof.envelope ∧
    verifyNipopowEnvelope lib rules.toHeaderRules proof.envelope = .ok proof.headers

lemma Collected.from_nil : Collected.From lib rules sentTo [] ⟨[], 0, []⟩ := by
  refine ⟨fun peer _ => by simp [firstAnswer], ?_⟩
  rintro proof ⟨⟩

lemma firstAnswer_concat (peer : PeerId) (events : List ProtocolEvent) (e : ProtocolEvent) :
    firstAnswer peer (events ++ [e]) = (firstAnswer peer events).or (proofOf peer e) := by
  rw [firstAnswer, findSome?_append, findSome?_singleton]
  rfl

variable {peer : PeerId}

lemma firstAnswer_append {events : List ProtocolEvent} {body : Bytes}
    (h : firstAnswer peer events = some body) (later : List ProtocolEvent) :
    firstAnswer peer (events ++ later) = some body := by
  rw [firstAnswer, findSome?_append]
  exact Option.or_of_isSome (by rw [show events.findSome? (proofOf peer) = _ from h]; rfl) |>.trans h

variable {events : List ProtocolEvent} {c c' : Collected}

lemma Collected.From.ignore (h : Collected.From lib rules sentTo events c) {e : ProtocolEvent}
    (hnone : ∀ peer ∈ sentTo, (firstAnswer peer events).isSome ∨ proofOf peer e = none) :
    Collected.From lib rules sentTo (events ++ [e]) c where
  responded peer hpeer := by
    rw [h.responded peer hpeer, firstAnswer_concat, Option.isSome_or]
    rcases hnone peer hpeer with hsome | hnone
    · simp [hsome]
    · simp [hnone]
  validProofs proof hproof := by
    obtain ⟨hpeer, hanswer, hverify⟩ := h.validProofs proof hproof
    exact ⟨hpeer, firstAnswer_append hanswer [e], hverify⟩

lemma Collected.From.answer (h : Collected.From lib rules sentTo events c)
    (body : Bytes) (hpeer : peer ∈ sentTo) (hfirst : peer ∉ c.responded) {added : List ValidProof}
    (hadded : ∀ proof ∈ added, proof.peer = peer ∧ proof.envelope = body ∧
      verifyNipopowEnvelope lib rules.toHeaderRules body = .ok proof.headers) (hostile : ℕ) :
    Collected.From lib rules sentTo (events ++ [.message peer nipopowProofCode body])
      ⟨c.validProofs ++ added, hostile, peer :: c.responded⟩ where
  responded other hother := by
    rw [mem_cons, h.responded other hother, firstAnswer_concat, Option.isSome_or]
    by_cases heq : other = peer
    · simp [heq, proofOf]
    · simp [heq, proofOf, Ne.symm heq]
  validProofs proof hproof := by
    rcases mem_append.1 hproof with hold | hnew
    · obtain ⟨hpeer, hanswer, hverify⟩ := h.validProofs proof hold
      exact ⟨hpeer, firstAnswer_append hanswer _, hverify⟩
    · obtain ⟨rfl, rfl, hverify⟩ := hadded proof hnew
      refine ⟨hpeer, ?_, hverify⟩
      have hnone : firstAnswer proof.peer events = none := by
        rwa [h.responded _ hpeer, Option.not_isSome_iff_eq_none] at hfirst
      rw [firstAnswer_concat, hnone, Option.none_or]
      exact if_pos ⟨rfl, rfl⟩

lemma Collected.From.receive (h : Collected.From lib rules sentTo events c) (e : ProtocolEvent) :
    Collected.From lib rules sentTo (events ++ [e]) (c.receive lib rules sentTo e) := by
  cases e with
  | other => exact h.ignore (fun _ _ => .inr rfl)
  | message peer code body =>
    rw [Collected.receive]
    by_cases hpeer : peer ∈ sentTo
    swap
    · rw [if_pos hpeer]
      refine h.ignore (fun other hother => .inr (if_neg ?_))
      rintro ⟨rfl, -⟩
      exact hpeer hother
    rw [if_neg (not_not.2 hpeer)]
    by_cases hcode : code = nipopowProofCode
    swap
    · rw [if_pos hcode]
      exact h.ignore (fun _ _ => .inr (if_neg (fun h => hcode h.2)))
    rw [if_neg (not_not.2 hcode)]
    subst hcode
    split
    next hresponded =>
      refine h.ignore (fun other hother => ?_)
      by_cases heq : other = peer
      · subst heq
        exact .inl ((h.responded other hother).1 hresponded)
      · exact .inr (if_neg (fun h => heq h.1.symm))
    next hresponded =>
      cases hverify : verifyNipopowEnvelope lib rules.toHeaderRules body with
      | ok headers =>
        refine h.answer body hpeer hresponded ?_ c.hostile
        intro proof hproof
        obtain rfl := mem_singleton.1 hproof
        exact ⟨rfl, rfl, hverify⟩
      | error e =>
        have hanswer := h.answer body hpeer hresponded (forall_mem_nil _) (c.hostile + 1)
        rwa [append_nil] at hanswer

lemma collect_eq_ok {closed : Bool} {seen : List ProtocolEvent}
    (h : Collected.From lib rules sentTo seen c)
    (hcollect : collect lib rules sentTo closed events c = .ok c') :
    ∃ past, past <+: events ∧ Collected.From lib rules sentTo (seen ++ past) c' := by
  induction events generalizing seen c with
  | nil =>
    rw [collect] at hcollect
    split_ifs at hcollect <;> cases hcollect <;>
      exact ⟨[], nil_prefix, by rwa [append_nil]⟩
  | cons e events ih =>
    rw [collect] at hcollect
    split_ifs at hcollect with hall
    · cases hcollect
      exact ⟨[], nil_prefix, by rwa [append_nil]⟩
    · obtain ⟨past, hpast, hfrom⟩ := ih (h.receive e) hcollect
      exact ⟨e :: past, (prefix_cons_inj e).2 hpast, by rwa [append_assoc] at hfrom⟩

lemma pickBestProof_mem (best : ValidProof) (rest : List ValidProof) :
    pickBestProof lib best rest ∈ best :: rest := by
  induction rest generalizing best with
  | nil => exact mem_singleton_self best
  | cons proof rest ih =>
    rw [pickBestProof]
    split
    · exact mem_cons_of_mem best (ih proof)
    · rcases mem_cons.1 (ih best) with heq | hmem
      · rw [heq]
        exact mem_cons_self
      · exact mem_cons_of_mem best (mem_cons_of_mem proof hmem)

end Collect

/-- A polled peer whose first answer is a proof that passes verification. -/
structure BootstrapInput.Answers (lib : NipopowLibrary) (rules : CachedRules) (input : BootstrapInput)
    (peer : PeerId) (proof : NipopowProof) : Prop where
  polled : peer ∈ input.sentTo
  answer : ∃ body inner result, firstAnswer peer input.events = some body ∧
    parseNipopowProof body = .ok inner ∧ lib.scorexParseBytes inner = .ok proof ∧
    verifyNipopowProofBytes lib rules.toHeaderRules inner = .ok result

section Installed

variable {lib : NipopowLibrary} {rules : CachedRules} {input : BootstrapInput}
  {heightOf : BlockId → ℕ} {config : ChainConfig} {s : StoredChain}

/-- **The chosen proof** is a verified first answer of a polled peer. -/
theorem bestProof_eq_ok {best : ValidProof} (h : bestProof lib rules input = .ok best) :
    ∃ proof, input.Answers lib rules best.peer proof ∧ best.headers = proof.headers ∧
      proof.headers.IsChain (fun a b => a.height < b.height) := by
  rw [bestProof] at h
  simp only [bind_eq_ok, require_eq_ok] at h
  obtain ⟨-, -, -, -, collected, hcollect, h⟩ := h
  have hmem : best ∈ collected.validProofs := by
    split at h
    · split_ifs at h
    next first rest heq =>
      rw [heq, ← Except.ok.inj h]
      exact pickBestProof_mem first rest
  obtain ⟨past, ⟨later, hevents⟩, hfrom⟩ := collect_eq_ok Collected.from_nil hcollect
  obtain ⟨hpolled, hanswer, hverify⟩ := hfrom.validProofs best hmem
  rw [nil_append] at hanswer
  have hfirst := firstAnswer_append hanswer later
  rw [hevents] at hfirst
  rw [verifyNipopowEnvelope] at hverify
  simp only [bind_eq_ok, mapError_eq_ok] at hverify
  obtain ⟨inner, henvelope, result, hresult, hheaders⟩ := hverify
  obtain ⟨proof, hparse, -, heq, hchain⟩ := verifyNipopowProofBytes_eq_ok hresult
  refine ⟨proof, ⟨hpolled, _, inner, result, hfirst, henvelope, hparse, hresult⟩, ?_, hchain⟩
  rw [← Except.ok.inj hheaders, heq]

def StoredChain.Holds (s : StoredChain) (headers : List Header) : Prop :=
  ∀ k, (s.chain.headerAt k).1 = rowAt ((headers.head?.map Header.height).getD 0) headers k

lemma StoredChain.Holds.unique {headers headers' : List Header}
    (h : s.Holds headers) (h' : s.Holds headers') (hne : headers ≠ []) :
    headers = headers' :=
  (rowAt_injective hne (fun k => (h k).symm.trans (h' k))).2

lemma installNipopowSuffix_eq_ok {head : Header} {tail : List Header} {s' : StoredChain}
    (hids : ∀ x ∈ head :: tail, heightOf x.id = x.height)
    (hheights : (head :: tail).IsChain (fun a b => a.height < b.height))
    (h : installNipopowSuffix rules (.new config) head tail = some (.ok (), s')) :
    s'.Holds (head :: tail) := by
  rw [installNipopowSuffix] at h
  split at h
  · cases h
  · cases h
  next installed c hcall =>
    obtain rfl := (Prod.mk.inj (Option.some.inj h)).2
    -- the headers in play are those that are installed
    have hintact := StoredChain.intact_new heightOf (fun x => x ∈ head :: tail) config
    have hnodup : ((head :: tail).map Header.height).Nodup :=
      pairwise_map.2 ((isChain_iff_pairwise.1 hheights).imp Nat.ne_of_lt)
    have hinj : Set.InjOn Header.id (fun x => x ∈ head :: tail) := by
      intro x hx y hy hid
      have hsame : x.height = y.height := by rw [← hids x hx, ← hids y hy, hid]
      exact inj_on_of_nodup_map hnodup hx hy hsame
    have hinstall := StoredChain.Transition.of_install hintact.coherent hids hcall
    have hroom : StoredChain.HeaderRoom rules (.new config) (.install head tail) :=
      fun hreorgs => False.elim hreorgs
    have hplay : ∀ x ∈ (ChainOp.install head tail).headers, x ∈ head :: tail := fun _ hx => hx
    have hend := hintact.transition hids hinj hplay hroom hinstall
    exact fun k => hend.coherent.headerAt_eq_rowAt (fun x hx => hend.backed.view_eq hx)

/-- The proof was made for what was asked for, and starts at the configured genesis. -/
structure NipopowProof.AsRequested (config : ChainConfig) (proof : NipopowProof) : Prop where
  m_eq : proof.m = p2pNipopowM
  k_eq : proof.k = p2pNipopowK
  genesis : ∀ genesisId ∈ config.genesisId, proof.headers.head?.map Header.id = some genesisId

/-- Some polled peer answered first with a verified proof as it was asked for, and the chain is the
suffix of this proof. -/
def BootstrapInput.Certified (lib : NipopowLibrary) (rules : CachedRules) (config : ChainConfig)
    (input : BootstrapInput) (s : StoredChain) : Prop :=
  ∃ peer proof, input.Answers lib rules peer proof ∧ proof.AsRequested config ∧ s.Holds proof.suffix

lemma length_lastHeaders {headers : List Header} (h : p2pNipopowK ≤ headers.length) :
    (lastHeaders headers).length = p2pNipopowK := by
  rw [lastHeaders, length_drop]
  omega

lemma lastHeaders_headers {proof : NipopowProof} (h : proof.suffix.length = p2pNipopowK) :
    lastHeaders proof.headers = proof.suffix := by
  rw [lastHeaders, NipopowProof.headers, length_append, h, Nat.add_sub_cancel]
  exact drop_left

/-- A bootstrap on an empty chain that succeeds installs the last headers of a verified first answer. -/
theorem runLightBootstrap_eq_ok
    (hids : ∀ bytes proof, lib.scorexParseBytes bytes = .ok proof →
      ∀ x ∈ proof.headers, heightOf x.id = x.height)
    (h : runLightBootstrap lib rules input (.new config) = some (.ok (), s)) :
    ∃ peer best, input.Answers lib rules peer best ∧ p2pNipopowK ≤ best.headers.length ∧
      s.Holds (lastHeaders best.headers) := by
  have hempty : ¬0 < (StoredChain.new config).chain.height := Nat.lt_irrefl 0
  rw [runLightBootstrap, if_neg hempty] at h
  cases hbest : bestProof lib rules input with
  | error e =>
    rw [hbest] at h
    cases h
  | ok chosen =>
    rw [hbest] at h
    obtain ⟨best, hanswers, hheaders, hchain⟩ := bestProof_eq_ok hbest
    dsimp only at h
    rw [hheaders] at h
    split_ifs at h with hshort
    · cases h
    refine ⟨chosen.peer, best, hanswers, Nat.not_lt.1 hshort, ?_⟩
    split at h
    · cases h
    next head tail heq =>
      obtain ⟨_, inner, _, _, _, hparse, _⟩ := hanswers.answer
      rw [heq]
      refine installNipopowSuffix_eq_ok (fun x hx => hids inner best hparse x ?_) ?_ h
      · rw [← heq] at hx
        exact mem_of_mem_drop hx
      · rw [← heq]
        exact hchain.drop _

/-- **What a bootstrap installs.** A bootstrap on an empty chain that succeeds installs the last ten
headers of a verified first answer of a polled peer. They are the suffix of a proof as it was asked
for, if and only if some verified first answer is such a proof with a suffix of ten headers, and the
installed answer ends in the same headers. -/
theorem runLightBootstrap_certified_iff {config : ChainConfig} {heightOf : BlockId → ℕ}
    (hids : ∀ bytes proof, lib.scorexParseBytes bytes = .ok proof →
      ∀ x ∈ proof.headers, heightOf x.id = x.height)
    {s : StoredChain} (h : runLightBootstrap lib rules input (.new config) = some (.ok (), s)) :
    ∃ peer best, input.Answers lib rules peer best ∧ s.Holds (lastHeaders best.headers) ∧
      (input.Certified lib rules config s ↔ ∃ peer proof, input.Answers lib rules peer proof ∧
        proof.AsRequested config ∧ proof.suffix.length = p2pNipopowK ∧
        lastHeaders proof.headers = lastHeaders best.headers) := by
  obtain ⟨peer, best, hanswers, hlong, hholds⟩ := runLightBootstrap_eq_ok hids h
  have hlength := length_lastHeaders hlong
  refine ⟨peer, best, hanswers, hholds, ?_⟩
  constructor
  · rintro ⟨peer', proof, hanswer, hrequested, hsuffix⟩
    have heq := hsuffix.unique hholds (cons_ne_nil _ _)
    have hten : proof.suffix.length = p2pNipopowK := by rw [heq, hlength]
    exact ⟨peer', proof, hanswer, hrequested, hten, (lastHeaders_headers hten).trans heq⟩
  · rintro ⟨peer', proof, hanswer, hrequested, hten, heq⟩
    refine ⟨peer', proof, hanswer, hrequested, ?_⟩
    rwa [← lastHeaders_headers hten, heq]

end Installed

/-! ## Proofs over chains of fourteen headers -/

def offsetHeader (offset height : ℕ) : Header :=
  HeaderChain.plainHeader (offset + height) (offset + height - 1) height

def offsetHeight (id : BlockId) : ℕ := id % 100

def offsetHeaders (offset start count : ℕ) : List Header :=
  (List.range' start count).map (offsetHeader offset)

def offsetProof (offset m before k : ℕ) : NipopowProof where
  m := m
  k := k
  proofPrefix := (offsetHeaders offset 1 before).map (fun header => ⟨header, []⟩)
  suffixHead := ⟨offsetHeader offset (before + 1), []⟩
  suffixTail := offsetHeaders offset (before + 2) (k - 1)

def threeProofs : NipopowLibrary where
  scorexParseBytes bytes :=
    if bytes = [1] then .ok (offsetProof 0 6 4 10)
    else if bytes = [2] then .ok (offsetProof 0 2 11 3)
    else if bytes = [3] then .ok (offsetProof 100 6 4 10)
    else .error "no proof"
  hasValidConnections proof :=
    (proof.headers.zip proof.headers.tail).all (fun link => link.2.parentId = link.1.id)
  isBetterThan _ _ := .ok false

def oneAnswer (proof : UInt8) : BootstrapInput where
  polls := [[], [7]]
  sends _ := true
  events := [.other, .message 7 91 [1, proof, 0]]
  closed := false

def genesisConfig : ChainConfig := { ChainConfig.mainnet with genesisId := some 1 }

lemma threeProofs_ids (bytes : Bytes) (proof : NipopowProof)
    (h : threeProofs.scorexParseBytes bytes = .ok proof) :
    ∀ x ∈ proof.headers, offsetHeight x.id = x.height := by
  simp only [threeProofs] at h
  split_ifs at h <;> cases h <;> decide

lemma parse_of_answers_oneAnswer {byte : UInt8} {proof : NipopowProof}
    (h : (oneAnswer byte).Answers threeProofs CachedChain.plainCachedRules peer proof) :
    threeProofs.scorexParseBytes [byte] = .ok proof := by
  obtain rfl : peer = 7 := mem_singleton.1 h.polled
  obtain ⟨body, inner, _, hbody, hinner, hparse, -⟩ := h.answer
  cases hbody
  cases hinner
  exact hparse

lemma exists_of_any {r : Option (Except LightBootstrapError Unit × StoredChain)}
    (h : r.any (fun outcome => outcome.1.toBool) = true) : ∃ s, r = some (.ok (), s) := by
  match r with
  | some (.ok (), s) => exact ⟨s, rfl⟩
  | some (.error e, s) => cases h
  | none => cases h

/-- The answer is a proof as it was asked for. -/
theorem runLightBootstrap_certified_iff_as_requested :
    ∃ s, runLightBootstrap threeProofs CachedChain.plainCachedRules (oneAnswer 1)
        (.new genesisConfig) = some (.ok (), s) ∧
      (oneAnswer 1).Certified threeProofs CachedChain.plainCachedRules genesisConfig s := by
  obtain ⟨s, hs⟩ := exists_of_any (by decide +kernel :
    (runLightBootstrap threeProofs CachedChain.plainCachedRules (oneAnswer 1)
      (.new genesisConfig)).any (fun outcome => outcome.1.toBool) = true)
  obtain ⟨peer, best, hanswers, -, hiff⟩ := runLightBootstrap_certified_iff threeProofs_ids hs
  refine ⟨s, hs, hiff.2 ⟨peer, best, hanswers, ?_, ?_, rfl⟩⟩
  all_goals obtain rfl := Except.ok.inj (parse_of_answers_oneAnswer hanswers)
  · exact ⟨rfl, rfl, fun genesisId hgenesis => by rw [← Option.some.inj hgenesis]; rfl⟩
  · rfl

/-- **What a peer can have installed**: seven headers of the prefix of a proof with a suffix of
three, and a proof over another genesis. -/
theorem runLightBootstrap_uncertified :
    (∃ s, runLightBootstrap threeProofs CachedChain.plainCachedRules (oneAnswer 2)
        (.new genesisConfig) = some (.ok (), s) ∧
      s.Holds (offsetHeaders 0 5 10) ∧ (offsetProof 0 2 11 3).suffix = offsetHeaders 0 12 3 ∧
      ¬(oneAnswer 2).Certified threeProofs CachedChain.plainCachedRules genesisConfig s) ∧
    ∃ s, runLightBootstrap threeProofs CachedChain.plainCachedRules (oneAnswer 3)
        (.new genesisConfig) = some (.ok (), s) ∧
      s.Holds (offsetHeaders 100 5 10) ∧
      ¬(oneAnswer 3).Certified threeProofs CachedChain.plainCachedRules genesisConfig s := by
  obtain ⟨s, hs⟩ := exists_of_any (by decide +kernel :
    (runLightBootstrap threeProofs CachedChain.plainCachedRules (oneAnswer 2)
      (.new genesisConfig)).any (fun outcome => outcome.1.toBool) = true)
  obtain ⟨t, ht⟩ := exists_of_any (by decide +kernel :
    (runLightBootstrap threeProofs CachedChain.plainCachedRules (oneAnswer 3)
      (.new genesisConfig)).any (fun outcome => outcome.1.toBool) = true)
  refine ⟨⟨s, hs, ?_, by decide, ?_⟩, t, ht, ?_, ?_⟩
  · obtain ⟨_, best, hanswers, -, hholds⟩ := runLightBootstrap_eq_ok threeProofs_ids hs
    obtain rfl := Except.ok.inj (parse_of_answers_oneAnswer hanswers)
    exact hholds
  · rintro ⟨peer, proof, hanswers, hrequested, -⟩
    obtain rfl := Except.ok.inj (parse_of_answers_oneAnswer hanswers)
    exact absurd hrequested.m_eq (by decide)
  · obtain ⟨_, best, hanswers, -, hholds⟩ := runLightBootstrap_eq_ok threeProofs_ids ht
    obtain rfl := Except.ok.inj (parse_of_answers_oneAnswer hanswers)
    exact hholds
  · rintro ⟨peer, proof, hanswers, hrequested, -⟩
    obtain rfl := Except.ok.inj (parse_of_answers_oneAnswer hanswers)
    exact absurd (hrequested.genesis 1 rfl) (by decide)

end ErgoNode
