import ErgoNode.Peers.Router

/-!
# Whether a reply about peers is accepted

A reply to `GetPeers` is rebuilt from records whose features came in through handshakes and gossip.
A node with the same configuration reads the body as the records it was built from. But records have
no size budget: a feature may be as long as a message, gossip overwrites the features of observed
entries, and the reply joins an eighth of the configured number of entries. So the body is within
the limit of the frame exactly when the sizes of the selected entries are.
-/

namespace ErgoNode

open List

def Feature.size (feature : Feature) : ℕ :=
  1 + (putVlq feature.body.length).length + feature.body.length

def PeerRecord.entrySize (r : PeerRecord) : ℕ :=
  (1 + r.agentName.1.length) + 3 + (1 + r.nodeName.1.length) +
    (2 + r.address.ip.octets.length + (putVlq r.address.port.toNat).length) +
    (1 + (r.features.map Feature.size).sum)

def replySize (records : List PeerRecord) : ℕ :=
  (putVlq records.length).length + (records.map PeerRecord.entrySize).sum

lemma length_writeFeature (feature : Feature) : (writeFeature feature).length = feature.size := by
  simp only [writeFeature, Feature.size, length_append, length_singleton]

lemma length_serializePeerEntry (r : PeerRecord) :
    (serializePeerEntry (recordToSpec r)).length = r.entrySize := by
  have hfeatures : (r.features.flatMap writeFeature).length = (r.features.map Feature.size).sum := by
    rw [length_flatMap]
    simp only [length_writeFeature]
  have haddress : (writeDeclaredAddress (some r.address)).length =
      2 + r.address.ip.octets.length + (putVlq r.address.port.toNat).length := by
    simp only [writeDeclaredAddress, length_append, length_singleton]
  simp only [serializePeerEntry, recordToSpec, length_append, writeShortString, writeVersion,
    length_cons, length_nil, hfeatures, haddress, PeerRecord.entrySize]
  omega

lemma length_buildPeersBody (records : List PeerRecord) :
    (buildPeersBody (records.map recordToSpec)).length = replySize records := by
  rw [buildPeersBody, replySize, length_append, length_map, length_flatMap, map_map]
  simp only [Function.comp_def, length_serializePeerEntry]

lemma length_le_replySize (records : List PeerRecord) : records.length ≤ replySize records := by
  have hpos : ∀ size ∈ records.map PeerRecord.entrySize, 1 ≤ size := by
    intro size hsize
    obtain ⟨r, -, rfl⟩ := mem_map.1 hsize
    rw [PeerRecord.entrySize]
    omega
  have hsum := length_le_sum_of_one_le _ hpos
  rw [length_map] at hsum
  exact hsum.trans (Nat.le_add_left _ _)

lemma PeerNode.step_message_peers {node : PeerNode} {source : PeerId} {entry : PeerEntry}
    {specs : List PeerSpec}
    (hsource : findKeyed Prod.fst source node.router.peers = some (source, entry))
    (hwf : ∀ spec ∈ specs, spec.WellFormed) (hlen : specs.length ≤ maxVlqLength)
    (hcap : specs.length ≤ node.router.config.maxPeerSpecObjects.toNat)
    (hsize : (buildPeersBody specs).length ≤ maxBodySize) (now : UInt64) :
    node.step (.message source (.peers (buildPeersBody specs)) now) =
      { node with
        router := { node.router with
          peerDb := specs.foldl (node.router.recordGossip now) node.router.peerDb } } := by
  have hframe : ¬ maxBodySize < (PeersMessage.peers (buildPeersBody specs)).bodySize :=
    Nat.not_lt.2 hsize
  rw [step, if_neg hframe, Router.routeMessage, hsource]
  simp only [parsePeersBody_buildPeersBody hwf hlen hcap]

lemma PeerDb.record_of_get {db : PeerDb} {r prior : PeerRecord} (hbanned : r.address ∉ db.blacklist)
    (hself : r.address ∉ db.selfAddresses) (hget : db.get r.address = some prior) :
    db.record r = db.store (r.merge prior) := by
  rw [PeerDb.record, if_neg hbanned, if_neg hself, hget]

def twoPorts : List PeerEvent :=
  [.handshake 1 .inbound (v4Socket 5 6 7 8 40001)
      (namelessHandshake (some (v4Socket 5 6 7 8 9030))) 1, .connected 0 1,
    .handshake 2 .inbound (v4Socket 5 6 7 8 40002)
      (namelessHandshake (some (v4Socket 5 6 7 8 9031))) 2, .connected 0 2,
    .handshake 3 .inbound (v4Socket 8 8 4 4 40000) (namelessHandshake none) 3]

def gossipTwoPorts (features : List Feature) : List PeerEvent :=
  [.message 1 (.peers (buildPeersBody [namelessSpec (some (v4Socket 5 6 7 8 9030)) features])) 4,
    .message 2 (.peers (buildPeersBody [namelessSpec (some (v4Socket 5 6 7 8 9031)) features])) 5]

def portRecord (port : UInt16) (seen handshake : UInt64) (features : List Feature) : PeerRecord :=
  (namelessSpec none features).toRecord (v4Socket 5 6 7 8 port) seen handshake

/-- What the selection of a reply depends on. -/
structure Router.HasEntries (router : Router) (entries : List PeerRecord) : Prop where
  entries : router.peerDb.entries = entries
  peers : router.peers = (PeerNode.run .default [] twoPorts).router.peers
  config : router.config = .default
  blacklist : router.peerDb.blacklist = []
  selfAddresses : router.peerDb.selfAddresses = []

lemma hasEntries_twoPorts : (PeerNode.run .default [] twoPorts).router.HasEntries
    [portRecord 9031 2 2 [], portRecord 9030 1 1 []] :=
  ⟨by decide +kernel, rfl, rfl, by decide +kernel, rfl⟩

variable {features : List Feature}

lemma Router.HasEntries.gossip {node : PeerNode} {entries : List PeerRecord}
    (h : node.router.HasEntries entries) {source : PeerId} {entry : PeerEntry}
    (hsource : findKeyed Prod.fst source (PeerNode.run .default [] twoPorts).router.peers =
      some (source, entry)) {port : UInt16} {prior : PeerRecord}
    (hprior : findKeyed PeerRecord.address (v4Socket 5 6 7 8 port) entries = some prior)
    (hcount : features.length ≤ 255)
    (hbodies : ∀ feature ∈ features, feature.body.length ≤ maxVlqLength)
    (hsize : replySize [portRecord port 0 0 features] ≤ maxBodySize) (now : UInt64) :
    (node.step (.message source (.peers
        (buildPeersBody [namelessSpec (some (v4Socket 5 6 7 8 port)) features])) now)).router.HasEntries
      (insertKeyed PeerRecord.address ((portRecord port now 0 features).merge prior) entries) := by
  have hframe : (buildPeersBody
      [namelessSpec (some (v4Socket 5 6 7 8 port)) features]).length ≤ maxBodySize :=
    (length_buildPeersBody [portRecord port 0 0 features]).trans_le hsize
  have hlen : 1 ≤ maxVlqLength := by decide
  have hcap : 1 ≤ node.router.config.maxPeerSpecObjects.toNat := by
    rw [h.config]
    decide
  have hfiltered : node.router.filtered (v4Socket 5 6 7 8 port) = false := by
    rw [Router.filtered, h.config]
    rfl
  have hbanned : v4Socket 5 6 7 8 port ∉ node.router.peerDb.blacklist := by
    rw [h.blacklist]
    exact not_mem_nil
  have hself : v4Socket 5 6 7 8 port ∉ node.router.peerDb.selfAddresses := by
    rw [h.selfAddresses]
    exact not_mem_nil
  have hget : node.router.peerDb.get (v4Socket 5 6 7 8 port) = some prior := by
    rwa [PeerDb.get, h.entries]
  have hgossip : node.router.recordGossip now node.router.peerDb
      (namelessSpec (some (v4Socket 5 6 7 8 port)) features) =
        node.router.peerDb.store ((portRecord port now 0 features).merge prior) := by
    rw [← PeerDb.record_of_get (r := portRecord port now 0 features) hbanned hself hget]
    change (if _ then _ else if _ then _ else _) = _
    rw [hfiltered, if_neg Bool.false_ne_true, if_neg hbanned]
    rfl
  rw [PeerNode.step_message_peers (h.peers ▸ hsource)
    (forall_mem_singleton.2 (wellFormed_namelessSpec _ hcount hbodies)) hlen hcap hframe,
    foldl_cons, foldl_nil, hgossip]
  refine ⟨?_, h.peers, h.config, h.blacklist, h.selfAddresses⟩
  change insertKeyed _ _ node.router.peerDb.entries = _
  rw [h.entries]

lemma Router.HasEntries.selectPeers {router : Router}
    (h : router.HasEntries [portRecord 9031 5 2 features, portRecord 9030 4 1 features]) :
    router.selectPeers (v4Socket 8 8 4 4 40000) =
      [portRecord 9031 5 2 features, portRecord 9030 4 1 features] := by
  have hpeers : router.peers.map (·.2.addr) =
      [v4Socket 8 8 4 4 40000, v4Socket 5 6 7 8 40002, v4Socket 5 6 7 8 40001] := by
    rw [h.peers]
    decide +kernel
  rw [Router.selectPeers, PeerDb.observed, Router.peersToSend, hpeers, h.entries, h.blacklist]
  simp only [Router.filtered, h.config]
  rfl

lemma hasEntries_gossipTwoPorts (hcount : features.length ≤ 255)
    (hbodies : ∀ feature ∈ features, feature.body.length ≤ maxVlqLength)
    (hsize : ∀ port ∈ [9030, 9031], replySize [portRecord port 0 0 features] ≤ maxBodySize) :
    (PeerNode.run .default [] (twoPorts ++ gossipTwoPorts features)).router.HasEntries
      [portRecord 9031 5 2 features, portRecord 9030 4 1 features] := by
  have hfirst : findKeyed Prod.fst 1 (PeerNode.run .default [] twoPorts).router.peers =
      some (1, ⟨.inbound, v4Socket 5 6 7 8 40001, some .empty⟩) := by decide +kernel
  have hsecond : findKeyed Prod.fst 2 (PeerNode.run .default [] twoPorts).router.peers =
      some (2, ⟨.inbound, v4Socket 5 6 7 8 40002, some .empty⟩) := by decide +kernel
  have hprior : findKeyed PeerRecord.address (v4Socket 5 6 7 8 9030)
      [portRecord 9031 2 2 [], portRecord 9030 1 1 []] = some (portRecord 9030 1 1 []) := rfl
  have hone := hasEntries_twoPorts.gossip hfirst hprior hcount hbodies (hsize 9030 (by decide)) 4
  have hprior' : findKeyed PeerRecord.address (v4Socket 5 6 7 8 9031)
      [portRecord 9030 4 1 features, portRecord 9031 2 2 []] = some (portRecord 9031 2 2 []) := rfl
  have htwo := hone.gossip hsecond hprior' hcount hbodies (hsize 9031 (by decide)) 5
  rwa [PeerNode.run, foldl_append]

lemma entrySize_portRecord (port : UInt16) (seen handshake : UInt64) (feature : Feature) :
    (portRecord port seen handshake [feature]).entrySize =
      13 + (putVlq port.toNat).length + (putVlq feature.body.length).length + feature.body.length := by
  have hsize : (portRecord port seen handshake [feature]).entrySize =
      1 + 3 + 1 + (2 + 4 + (putVlq port.toNat).length) + (1 + (feature.size + 0)) := rfl
  rw [hsize, Feature.size]
  omega

lemma PeerNode.oversized_of_length {feature : Feature} (hlength : feature.body.length = 9000000) :
    let router := (run .default [] (twoPorts ++ gossipTwoPorts [feature])).router
    router.peerDb.blacklist = [] ∧
      ∃ body, (router.routeMessage 3 .getPeers 6).2 = [.send 3 (.peers body)] ∧
        maxBodySize < body.length := by
  have hvlq : (putVlq 9000000).length = 4 := by decide
  have hport : ∀ port ∈ [(9030 : UInt16), 9031], (putVlq port.toNat).length = 2 := by
    simp only [forall_mem_cons, not_mem_nil, false_imp_iff, implies_true, and_true]
    exact ⟨rfl, rfl⟩
  have hentry : ∀ port ∈ [(9030 : UInt16), 9031], ∀ seen handshake,
      (portRecord port seen handshake [feature]).entrySize = 9000019 := by
    intro port hmem seen handshake
    rw [entrySize_portRecord, hlength, hvlq, hport port hmem]
  have hbodies : ∀ f ∈ [feature], f.body.length ≤ maxVlqLength :=
    forall_mem_singleton.2 (hlength.trans_le (by decide))
  have hfits : ∀ port ∈ [(9030 : UInt16), 9031],
      replySize [portRecord port 0 0 [feature]] ≤ maxBodySize := by
    intro port hmem
    change (putVlq 1).length + ((portRecord port 0 0 [feature]).entrySize + 0) ≤ maxBodySize
    rw [hentry port hmem]
    decide
  intro router
  have hentries : router.HasEntries _ :=
    hasEntries_gossipTwoPorts (show 1 ≤ 255 by decide) hbodies hfits
  have hsource : findKeyed Prod.fst 3 router.peers =
      some (3, ⟨.inbound, v4Socket 8 8 4 4 40000, some .empty⟩) := by
    rw [hentries.peers]
    decide +kernel
  refine ⟨hentries.blacklist, buildPeersBody ((router.selectPeers (v4Socket 8 8 4 4 40000)).map
    recordToSpec), ?_, ?_⟩
  · rw [Router.routeMessage, hsource]
  · rw [length_buildPeersBody, hentries.selectPeers]
    change maxBodySize < (putVlq 2).length + ((portRecord 9031 5 2 [feature]).entrySize +
      ((portRecord 9030 4 1 [feature]).entrySize + 0))
    rw [hentry 9031 (by decide), hentry 9030 (by decide)]
    decide

def largeFeature : Feature := ⟨0, List.replicate 9000000 0⟩

end ErgoNode
