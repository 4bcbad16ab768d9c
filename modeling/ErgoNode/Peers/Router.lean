import ErgoNode.Peers.Database

/-!
# What the node tells others about its peers

The router records what handshakes and gossip say about addresses, and answers `GetPeers` from the
observed entries. A run is any sequence of handshakes, of their later processing, of disconnections
and gossip, bans and restarts, which may go back to any earlier commit of the peer table. The map of
the database has no order of its own, so an event may rearrange it. A handshake vouches for the
address that was dialed, and for a declared address on the host it came from.
-/

namespace ErgoNode

open List PeerRecord

/-! ## Addresses that are not gossiped -/

def octet (octets : Bytes) (i : ℕ) : UInt8 := octets.getD i 0

/-- IPv4 addresses no peer can have: loopback, link-local, multicast, broadcast, unspecified,
benchmarking, class E. -/
def isAlwaysBogusV4 (o : Bytes) : Bool :=
  octet o 0 = 127 || (octet o 0 = 169 && octet o 1 = 254) ||
    (224 ≤ octet o 0 && octet o 0 ≤ 239) || o = [255, 255, 255, 255] || o = [0, 0, 0, 0] ||
    (octet o 0 = 198 && octet o 1 &&& 0xfe = 18) || 240 ≤ octet o 0

/-- IPv4 addresses no peer of the main network can have: private, carrier-grade, documentation. -/
def isMainnetOnlyBogusV4 (o : Bytes) : Bool :=
  octet o 0 = 10 || (octet o 0 = 172 && 16 ≤ octet o 1 && octet o 1 ≤ 31) ||
    (octet o 0 = 192 && octet o 1 = 168) || (octet o 0 = 100 && octet o 1 &&& 0xc0 = 0x40) ||
    (octet o 0 = 192 && octet o 1 = 0 && octet o 2 = 2) ||
    (octet o 0 = 198 && octet o 1 = 51 && octet o 2 = 100) ||
    (octet o 0 = 203 && octet o 1 = 0 && octet o 2 = 113)

/-- IPv6 addresses no peer can have: loopback, unspecified, multicast, mapped IPv4, link-local. -/
def isAlwaysBogusV6 (o : Bytes) : Bool :=
  o = List.replicate 15 0 ++ [1] || o = List.replicate 16 0 || octet o 0 = 0xff ||
    o.take 12 = List.replicate 10 0 ++ [0xff, 0xff] || (octet o 0 = 0xfe && octet o 1 &&& 0xc0 = 0x80)

/-- IPv6 addresses no peer of the main network can have: unique-local, documentation. -/
def isMainnetOnlyBogusV6 (o : Bytes) : Bool :=
  octet o 0 &&& 0xfe = 0xfc ||
    (octet o 0 = 0x20 && octet o 1 = 0x01 && octet o 2 = 0x0d && octet o 3 = 0xb8)

def isBogusAddress (addr : SocketAddr) (network : Network) : Bool :=
  match addr.ip with
  | .v4 octets =>
    isAlwaysBogusV4 octets.1 || (network = .mainnet && isMainnetOnlyBogusV4 octets.1)
  | .v6 octets =>
    isAlwaysBogusV6 octets.1 || (network = .mainnet && isMainnetOnlyBogusV6 octets.1)

/-! ## The router -/

inductive Direction where
  | outbound
  | inbound
deriving DecidableEq, Repr

structure PeerEntry where
  direction : Direction
  addr : SocketAddr
  agentName : Option Utf8
deriving DecidableEq, Repr

inductive PeersMessage where
  | getPeers
  | peers (body : Bytes)
deriving DecidableEq, Repr

inductive RouterAction where
  | send (target : PeerId) (message : PeersMessage)
deriving DecidableEq, Repr

structure PeerConfig where
  network : Network
  maxPeerSpecObjects : UInt32
  /-- Whether addresses that are not public are dropped. -/
  filterBogusAddresses : Bool
  /-- The node's own addresses, as they were found at the start. -/
  selfAddresses : List SocketAddr

def PeerConfig.default : PeerConfig := ⟨.mainnet, 64, true, []⟩

structure Router where
  peers : List (PeerId × PeerEntry)
  /-- The database, with the blacklist it shares with the router. -/
  peerDb : PeerDb
  config : PeerConfig

def PeerSpec.toRecord (spec : PeerSpec) (address : SocketAddr) (seen handshake : UInt64) :
    PeerRecord :=
  ⟨address, seen, handshake, spec.agent, spec.name, spec.version, spec.features⟩

def recordToSpec (r : PeerRecord) : PeerSpec :=
  ⟨r.agentName, r.version, r.nodeName, some r.address, r.features⟩

/-- The addresses that a handshake says something about, and whether it proves them. -/
def connectedAddresses (spec : PeerSpec) (direction : Direction) (remote : SocketAddr) :
    List (SocketAddr × Bool) :=
  match direction with
  | .outbound =>
    (remote, true) ::
      ((spec.address.filter (· ≠ remote)).map fun d => (d, decide (d.ip = remote.ip))).toList
  | .inbound => (spec.address.map fun d => (d, decide (d.ip = remote.ip))).toList

namespace Router

def filtered (router : Router) (addr : SocketAddr) : Bool :=
  router.config.filterBogusAddresses && isBogusAddress addr router.config.network

def recordPermanent (router : Router) (addr : SocketAddr) : Router :=
  { router with peerDb := { router.peerDb with blacklist := addr :: router.peerDb.blacklist } }

/-- Register a connected peer. A dialed address is recorded at once: it is known to listen. -/
def registerPeer (router : Router) (peer : PeerId) (direction : Direction) (addr : SocketAddr)
    (agentName : Option Utf8) (now : UInt64) : Router where
  peers := insertKeyed Prod.fst (peer, ⟨direction, addr, agentName⟩) router.peers
  config := router.config
  peerDb :=
    if direction = .outbound ∧ addr ∉ router.peerDb.blacklist then
      router.peerDb.record ⟨addr, now, now, agentName.getD .empty, .empty, ⟨0, 0, 0⟩, []⟩
    else router.peerDb

def recordConnectedAddress (spec : PeerSpec) (now : UInt64) (db : PeerDb)
    (address : SocketAddr × Bool) : PeerDb :=
  if address.1 ∈ db.blacklist then db
  else db.record (spec.toRecord address.1 now (if address.2 then now else 0))

def recordPeerConnected (router : Router) (spec : PeerSpec) (direction : Direction)
    (remote : SocketAddr) (now : UInt64) : Router :=
  { router with
    peerDb := (connectedAddresses spec direction remote).foldl (recordConnectedAddress spec now)
      router.peerDb }

def recordGossip (router : Router) (now : UInt64) (db : PeerDb) (spec : PeerSpec) : PeerDb :=
  match spec.address with
  | none => db
  | some addr =>
    if router.filtered addr then db
    else if addr ∈ db.blacklist then db
    else db.record (spec.toRecord addr now 0)

def peersToSend (router : Router) : ℕ :=
  if 16 ≤ router.config.maxPeerSpecObjects.toNat then router.config.maxPeerSpecObjects.toNat / 8
  else router.config.maxPeerSpecObjects.toNat

/-- The records a reply to a peer at `addr` is made of: neither the peer's own nor those of connected
peers. -/
def selectPeers (router : Router) (addr : SocketAddr) : List PeerRecord :=
  (router.peerDb.observed router.peersToSend
    (addr :: router.peers.map (·.2.addr))).filter (fun r => !router.filtered r.address)

/-- Handle a message about peers; one from a peer that is not connected is dropped. -/
def routeMessage (router : Router) (source : PeerId) (message : PeersMessage) (now : UInt64) :
    Router × List RouterAction :=
  match findKeyed Prod.fst source router.peers with
  | none => (router, [])
  | some (_, entry) =>
    match message with
    | .getPeers =>
      let specs := (router.selectPeers entry.addr).map recordToSpec
      (router, [.send source (.peers (buildPeersBody specs))])
    | .peers body =>
      match parsePeersBody body router.config.maxPeerSpecObjects.toNat with
      | .ok specs =>
        ({ router with peerDb := specs.foldl (router.recordGossip now) router.peerDb }, [])
      -- a body that cannot be parsed is a protocol violation
      | .error _ => (router.recordPermanent entry.addr, [])

end Router

/-! ## Runs -/

structure Handshake where
  direction : Direction
  remote : SocketAddr
  spec : PeerSpec
deriving DecidableEq, Repr

/-- The address was dialed, or it was declared by a peer on its host. -/
def Handshake.Vouches (handshake : Handshake) (addr : SocketAddr) : Prop :=
  (handshake.direction = .outbound ∧ handshake.remote = addr) ∨
    (handshake.spec.address = some addr ∧ handshake.remote.ip = addr.ip)

structure PeerNode where
  router : Router
  /-- Handshakes that the event loop has not seen yet. -/
  pending : List Handshake
  /-- Every handshake that was ever completed; the code has no such list. -/
  handshakes : List Handshake

inductive PeerEvent where
  /-- A connection is made, and the peer sends these bytes as its handshake. -/
  | handshake (peer : PeerId) (direction : Direction) (remote : SocketAddr) (stream : Bytes)
    (now : UInt64)
  | connected (index : ℕ) (now : UInt64)
  | disconnected (peer : PeerId)
  | message (source : PeerId) (message : PeersMessage) (now : UInt64)
  | ban (addr : SocketAddr)
  | forget (addr : SocketAddr)
  | reorder (key : SocketAddr → ℕ)
  /-- The node stops, loses the last commits of the peer table, and starts again. -/
  | restart (lost : ℕ) (config : PeerConfig)

def PeersMessage.bodySize : PeersMessage → ℕ
  | .getPeers => 0
  | .peers body => body.length

namespace PeerNode

def start (config : PeerConfig) (storage : PeerStorage) (handshakes : List Handshake) : PeerNode where
  router := ⟨[], .load storage PeerDb.defaultCap config.selfAddresses, config⟩
  pending := []
  handshakes := handshakes

def banPeer (node : PeerNode) (peer : PeerId) : PeerNode :=
  match findKeyed Prod.fst peer node.router.peers with
  | some (_, entry) => { node with router := node.router.recordPermanent entry.addr }
  | none => node

def complete (node : PeerNode) (peer : PeerId) (handshake : Handshake) (now : UInt64) : PeerNode where
  router := node.router.registerPeer peer handshake.direction handshake.remote
    (some handshake.spec.agent) now
  pending := node.pending ++ [handshake]
  handshakes := handshake :: node.handshakes

/-- A connection whose handshake failed: a peer that connected to the node is banned. -/
def reject (node : PeerNode) (direction : Direction) (remote : SocketAddr) : PeerNode :=
  match direction with
  | .inbound => { node with router := node.router.recordPermanent remote }
  | .outbound => node

def step (node : PeerNode) : PeerEvent → PeerNode
  | .handshake peer direction remote stream now =>
    match acceptHandshake node.router.config.network stream with
    | .ok spec => node.complete peer ⟨direction, remote, spec⟩ now
    | .error _ => node.reject direction remote
  | .connected index now =>
    match node.pending[index]? with
    | some handshake =>
      { node with
        router := node.router.recordPeerConnected handshake.spec handshake.direction
          handshake.remote now
        pending := node.pending.eraseIdx index }
    | none => node
  | .disconnected peer =>
    { node with
      router := { node.router with peers := eraseKeyed Prod.fst peer node.router.peers } }
  | .message source message now =>
    -- the frame of a body that is too large is not read
    if maxBodySize < message.bodySize then node.banPeer source
    else { node with router := (node.router.routeMessage source message now).1 }
  | .ban addr => { node with router := node.router.recordPermanent addr }
  | .forget addr =>
    { node with router := { node.router with peerDb := node.router.peerDb.forget addr } }
  | .reorder key =>
    { node with
      router := { node.router with
        peerDb := { node.router.peerDb with
          entries := node.router.peerDb.entries.insertionSort
            (fun a b => key a.address ≤ key b.address) } } }
  | .restart lost config => start config (node.router.peerDb.storage.reopen lost) node.handshakes

def run (config : PeerConfig) (table : PeerTable) (events : List PeerEvent) : PeerNode :=
  events.foldl step (start config ⟨table, []⟩ [])

end PeerNode

/-! ## What a handshake stamp is backed by -/

/-- The record fits the wire, and if it is observed some handshake vouches for its address. -/
structure PeerRecord.Backed (handshakes : List Handshake) (r : PeerRecord) : Prop where
  wellFormed : (recordToSpec r).WellFormed
  vouched : r.isObserved = true → ∃ handshake ∈ handshakes, handshake.Vouches r.address

namespace PeerRecord.Backed

variable {handshakes : List Handshake} {r : PeerRecord}

lemma persistent (handshakes : List Handshake) : Persistent (PeerRecord.Backed handshakes) where
  storable := fun h => ⟨h.wellFormed.agent.trans (by decide), h.wellFormed.name.trans (by decide)⟩
  merge := by
    intro r prior h hprior haddr
    refine ⟨⟨h.wellFormed.agent, h.wellFormed.name, h.wellFormed.features, h.wellFormed.bodies⟩,
      fun hobserved => ?_⟩
    rcases isObserved_merge hobserved with hobserved | hobserved
    · exact h.vouched hobserved
    · obtain ⟨handshake, hmem, hvouches⟩ := hprior.vouched hobserved
      exact ⟨handshake, hmem, haddr ▸ hvouches⟩
  stored := by
    intro r h
    refine ⟨⟨h.wellFormed.agent, h.wellFormed.name, ?_, ?_⟩, h.vouched⟩
    · change ((r.features.take 255).map _).length ≤ 255
      rw [length_map]
      exact length_take_le _ _
    · intro feature hfeature
      obtain ⟨f, -, rfl⟩ := mem_map.1 hfeature
      exact (length_take_le _ _).trans (by decide)

lemma mono {handshakes' : List Handshake} (h : r.Backed handshakes)
    (hsub : handshakes ⊆ handshakes') : r.Backed handshakes' :=
  ⟨h.wellFormed, fun hobserved =>
    let ⟨handshake, hmem, hvouches⟩ := h.vouched hobserved
    ⟨handshake, hsub hmem, hvouches⟩⟩

lemma toRecord {spec : PeerSpec} {address : SocketAddr} {seen stamp : UInt64}
    (hspec : spec.WellFormed)
    (hstamp : 0 < stamp → ∃ handshake ∈ handshakes, handshake.Vouches address) :
    (spec.toRecord address seen stamp).Backed handshakes :=
  ⟨{ hspec with }, fun h => hstamp (of_decide_eq_true h)⟩

end PeerRecord.Backed

lemma PeerDb.Holds.mono {P Q : PeerRecord → Prop} {db : PeerDb} (h : db.Holds P)
    (hPQ : ∀ r, P r → Q r) : db.Holds Q :=
  ⟨fun r hr => hPQ r (h.entries r hr), fun table htable row hrow addr r haddr hdecode =>
    hPQ r (h.storage table htable row hrow addr r haddr hdecode)⟩

/-- Every row has the older format of a record that fits the wire. -/
def PeerTable.Legacy (table : PeerTable) : Prop :=
  ∀ row ∈ table, ∃ r : PeerRecord, (recordToSpec r).WellFormed ∧
    row = (encodeAddr r.address, encodeFields r)

lemma PeerTable.Legacy.holds {table : PeerTable} (h : table.Legacy) (handshakes : List Handshake) :
    table.Holds (PeerRecord.Backed handshakes) := by
  intro row hrow addr r haddr hdecode
  obtain ⟨r', hwf, rfl⟩ := h row hrow
  rw [decodeAddr_encodeAddr, Option.some.injEq] at haddr
  subst haddr
  -- the record without its stamp is backed whatever the handshakes are
  have hbacked : (r'.withHandshake 0).Backed handshakes :=
    ⟨{ hwf with }, fun hobserved => by
      simp [isObserved, withHandshake] at hobserved⟩
  have hpersistent := Backed.persistent handshakes
  have hstorable := hpersistent.storable hbacked
  have hlegacy : decodeRecord r'.address (encodeFields r') = .ok (r'.withHandshake 0).stored :=
    decodeRecord_encodeFields ⟨hstorable.agentName, hstorable.nodeName⟩
  cases hlegacy.symm.trans hdecode
  exact hpersistent.stored hbacked

variable {handshake : Handshake}

lemma vouches_of_mem_connectedAddresses {addr : SocketAddr}
    (h : (addr, true) ∈ connectedAddresses handshake.spec handshake.direction handshake.remote) :
    handshake.Vouches addr := by
  have hdeclared : ∀ declared : Option SocketAddr,
      (addr, true) ∈ (declared.map fun d => (d, decide (d.ip = handshake.remote.ip))).toList →
        declared = some addr ∧ handshake.remote.ip = addr.ip := by
    intro declared hmem
    obtain ⟨d, hd, heq⟩ := Option.map_eq_some_iff.1 (Option.mem_toList.1 hmem)
    obtain ⟨rfl, hip⟩ := Prod.mk.inj heq
    exact ⟨hd, (of_decide_eq_true hip).symm⟩
  cases hdir : handshake.direction with
  | outbound =>
    rw [hdir] at h
    rcases mem_cons.1 h with heq | h
    · exact .inl ⟨hdir, (Prod.mk.inj heq).1.symm⟩
    · obtain ⟨hfilter, hip⟩ := hdeclared _ h
      exact .inr ⟨Option.eq_some_of_filter_eq_some hfilter, hip⟩
  | inbound =>
    rw [hdir] at h
    exact .inr (hdeclared _ h)

namespace PeerNode

structure Sound (node : PeerNode) : Prop where
  db : node.router.peerDb.Holds (PeerRecord.Backed node.handshakes)
  /-- What the event loop has still to see are completed handshakes. -/
  pending : node.pending ⊆ node.handshakes
  wellFormed : ∀ handshake ∈ node.handshakes, handshake.spec.WellFormed

variable {node : PeerNode}

lemma sound_start (config : PeerConfig) {storage : PeerStorage} {handshakes : List Handshake}
    (hstorage : storage.Holds (PeerRecord.Backed handshakes))
    (hspecs : ∀ handshake ∈ handshakes, handshake.spec.WellFormed) :
    (start config storage handshakes).Sound :=
  ⟨.load hstorage _ _, nil_subset _, hspecs⟩

lemma Sound.recordPermanent (h : node.Sound) (addr : SocketAddr) :
    Sound { node with router := node.router.recordPermanent addr } :=
  ⟨⟨h.db.entries, h.db.storage⟩, h.pending, h.wellFormed⟩

lemma Sound.banPeer (h : node.Sound) (peer : PeerId) : (node.banPeer peer).Sound := by
  rw [PeerNode.banPeer]
  split
  · exact h.recordPermanent _
  · exact h

lemma Sound.complete (h : node.Sound) (peer : PeerId)
    (hspec : handshake.spec.WellFormed) (now : UInt64) :
    (node.complete peer handshake now).Sound := by
  have hsub : node.handshakes ⊆ handshake :: node.handshakes := subset_cons_self _ _
  have hdb := h.db.mono (fun r hr => hr.mono hsub)
  refine ⟨?_, ?_, forall_mem_cons.2 ⟨hspec, h.wellFormed⟩⟩
  · change (PeerDb.Holds _ (if _ then _ else _))
    split
    next hdialed =>
      refine hdb.record (Backed.persistent _) ⟨⟨hspec.agent, ?_, ?_, ?_⟩, fun _ => ?_⟩
      · exact Nat.zero_le _
      · exact Nat.zero_le _
      · exact fun feature hfeature => nomatch hfeature
      · exact ⟨handshake, mem_cons_self, .inl ⟨hdialed.1, rfl⟩⟩
    next => exact hdb
  · intro handshake' hmem
    rcases mem_append.1 hmem with hmem | hmem
    · exact hsub (h.pending hmem)
    · rw [mem_singleton.1 hmem]
      exact mem_cons_self

lemma Sound.recordPeerConnected (h : node.Sound)
    (hmem : handshake ∈ node.handshakes) (now : UInt64) :
    (node.router.recordPeerConnected handshake.spec handshake.direction handshake.remote
      now).peerDb.Holds (PeerRecord.Backed node.handshakes) := by
  refine foldlRecOn _ _ (motive := PeerDb.Holds (Backed node.handshakes)) h.db
    (fun db hdb address haddress => ?_)
  rw [Router.recordConnectedAddress]
  split
  · exact hdb
  · refine hdb.record (Backed.persistent _)
      (.toRecord (h.wellFormed handshake hmem) (fun hstamp => ⟨handshake, hmem, ?_⟩))
    obtain ⟨addr, observed⟩ := address
    cases observed with
    | true => exact vouches_of_mem_connectedAddresses haddress
    | false => exact absurd (show (0 : UInt64) < 0 from hstamp) (by decide)

lemma Sound.recordGossip (h : node.Sound) {specs : List PeerSpec}
    (hspecs : ∀ spec ∈ specs, spec.WellFormed) (now : UInt64) :
    (specs.foldl (node.router.recordGossip now) node.router.peerDb).Holds
      (PeerRecord.Backed node.handshakes) := by
  refine foldlRecOn _ _ (motive := PeerDb.Holds (Backed node.handshakes)) h.db
    (fun db hdb spec hspec => ?_)
  rw [Router.recordGossip]
  split
  · exact hdb
  · split
    · exact hdb
    · split
      · exact hdb
      · exact hdb.record (Backed.persistent _)
          (.toRecord (hspecs spec hspec) (fun hstamp => absurd hstamp (by decide)))

lemma Sound.routeMessage (h : node.Sound) (source : PeerId) (message : PeersMessage)
    (now : UInt64) :
    Sound { node with router := (node.router.routeMessage source message now).1 } := by
  rw [Router.routeMessage]
  split
  · exact h
  · split
    · exact h
    · split
      next specs hparse =>
        exact ⟨h.recordGossip (wellFormed_of_parsePeersBody hparse) now, h.pending, h.wellFormed⟩
      next => exact h.recordPermanent _

lemma sound_step (h : node.Sound) (event : PeerEvent) : (node.step event).Sound := by
  cases event with
  | handshake peer direction remote stream now =>
    rw [step]
    split
    next spec hspec => exact h.complete peer (wellFormed_of_acceptHandshake hspec) now
    next =>
      cases direction with
      | inbound => exact h.recordPermanent remote
      | outbound => exact h
  | connected index now =>
    rw [step]
    split
    next handshake hindex =>
      have hmem := h.pending (mem_of_getElem? hindex)
      exact ⟨h.recordPeerConnected hmem now,
        fun handshake' hmem' => h.pending (mem_of_mem_eraseIdx hmem'), h.wellFormed⟩
    next => exact h
  | disconnected peer => exact ⟨⟨h.db.entries, h.db.storage⟩, h.pending, h.wellFormed⟩
  | message source message now =>
    rw [step]
    split
    · exact h.banPeer source
    · exact h.routeMessage source message now
  | ban addr => exact h.recordPermanent addr
  | forget addr => exact ⟨h.db.forget addr, h.pending, h.wellFormed⟩
  | reorder key =>
    exact ⟨⟨fun r hr => h.db.entries r ((mem_insertionSort _).1 hr), h.db.storage⟩, h.pending,
      h.wellFormed⟩
  | restart lost config => exact sound_start config (h.db.storage.reopen lost) h.wellFormed

lemma sound_run (config : PeerConfig) {table : PeerTable} (htable : table.Legacy)
    (events : List PeerEvent) : (run config table events).Sound := by
  refine foldlRecOn _ _ (motive := Sound) (sound_start config ?_ (fun _ h => nomatch h))
    (fun node hnode event _ => sound_step hnode event)
  intro table' htable'
  rw [mem_singleton.1 htable']
  exact htable.holds []

lemma Sound.of_mem_selectPeers (h : node.Sound) {addr : SocketAddr} {r : PeerRecord}
    (hr : r ∈ node.router.selectPeers addr) :
    (recordToSpec r).WellFormed ∧ ∃ handshake ∈ node.handshakes, handshake.Vouches r.address := by
  obtain ⟨hentry, hobserved⟩ := PeerDb.mem_observed (mem_of_mem_filter hr)
  have hbacked := h.db.entries r hentry
  exact ⟨hbacked.wellFormed, hbacked.vouched hobserved⟩

end PeerNode

lemma Router.length_selectPeers_le (router : Router) (addr : SocketAddr) :
    (router.selectPeers addr).length ≤ router.config.maxPeerSpecObjects.toNat := by
  have hlimit : router.peersToSend ≤ router.config.maxPeerSpecObjects.toNat := by
    rw [Router.peersToSend]
    split
    · exact Nat.div_le_self _ _
    · exact Nat.le_refl _
  exact (length_filter_le _ _).trans ((PeerDb.length_observed_le _ _ _).trans hlimit)

lemma Router.eq_of_send_peers {router : Router} {source target : PeerId} {now : UInt64}
    {body : Bytes} (h : .send target (.peers body) ∈ (router.routeMessage source .getPeers now).2) :
    ∃ entry, findKeyed Prod.fst source router.peers = some (source, entry) ∧ target = source ∧
      body = buildPeersBody ((router.selectPeers entry.addr).map recordToSpec) := by
  rw [Router.routeMessage] at h
  split at h
  · cases h
  next peer entry hfind =>
    obtain rfl := (findKeyed_eq_some hfind).2
    obtain ⟨rfl, hmessage⟩ := RouterAction.send.inj (mem_singleton.1 h)
    exact ⟨entry, hfind, rfl, PeersMessage.peers.inj hmessage⟩

/-- Every address in a reply, at any point of any run, completed a handshake when dialed, or was
declared in one by a peer on its host. -/
theorem PeerNode.vouched_of_peersReply (config : PeerConfig) {table : PeerTable}
    (htable : table.Legacy) (events : List PeerEvent) {source target : PeerId} {now : UInt64}
    {body : Bytes}
    (hreply : .send target (.peers body) ∈
      ((run config table events).router.routeMessage source .getPeers now).2) :
    ∃ specs, body = buildPeersBody specs ∧
      (∀ spec ∈ specs, ∃ addr, spec.address = some addr ∧
        ∃ handshake ∈ (run config table events).handshakes, handshake.Vouches addr) ∧
      ∀ cap specs', parsePeersBody body cap = .ok specs' → specs' = specs := by
  obtain ⟨entry, -, -, rfl⟩ := Router.eq_of_send_peers hreply
  have hsound := sound_run config htable events
  refine ⟨_, rfl, fun spec hspec => ?_, fun cap specs' hparse => ?_⟩
  · obtain ⟨r, hr, rfl⟩ := mem_map.1 hspec
    exact ⟨r.address, rfl, (hsound.of_mem_selectPeers hr).2⟩
  · refine eq_of_parsePeersBody_buildPeersBody (fun spec hspec => ?_) ?_ hparse
    · obtain ⟨r, hr, rfl⟩ := mem_map.1 hspec
      exact (hsound.of_mem_selectPeers hr).1
    · rw [length_map]
      exact Nat.lt_of_le_of_lt (Router.length_selectPeers_le _ _) (Nat.lt_trans (UInt32.toNat_lt _)
        (by decide))

def v4Socket (a b c d : UInt8) (port : UInt16) : SocketAddr := ⟨.v4 ⟨[a, b, c, d], rfl⟩, port⟩

def namelessSpec (address : Option SocketAddr) (features : List Feature) : PeerSpec :=
  ⟨.empty, ⟨5, 0, 0⟩, .empty, address, features⟩

lemma wellFormed_namelessSpec (address : Option SocketAddr) {features : List Feature}
    (hcount : features.length ≤ 255)
    (hbodies : ∀ feature ∈ features, feature.body.length ≤ maxVlqLength) :
    (namelessSpec address features).WellFormed :=
  ⟨Nat.zero_le _, Nat.zero_le _, hcount, hbodies⟩

def namelessHandshake (address : Option SocketAddr) : Bytes :=
  0 :: serializePeerEntry (namelessSpec address [])

def legacyTable : PeerTable :=
  let r := (namelessSpec none []).toRecord (v4Socket 9 9 9 9 9030) 3 0
  [(encodeAddr r.address, encodeFields r)]

lemma legacy_legacyTable : legacyTable.Legacy := by
  intro row hrow
  obtain rfl := mem_singleton.1 hrow
  exact ⟨(namelessSpec none []).toRecord (v4Socket 9 9 9 9 9030) 3 0,
    wellFormed_namelessSpec (some _) (Nat.zero_le _) (forall_mem_nil _), rfl⟩

def gossipAndRestart : List PeerEvent :=
  [.handshake 1 .outbound (v4Socket 5 6 7 8 9030) (namelessHandshake none) 10, .connected 0 11,
    .message 1 (.peers (buildPeersBody [namelessSpec (some (v4Socket 4 4 4 4 9030)) []])) 12,
    .disconnected 1, .restart 0 .default,
    .handshake 2 .inbound (v4Socket 8 8 4 4 40000) (namelessHandshake none) 20]

/-- The row and the gossip are kept as hearsay, so that only the dialed address is in the reply. -/
theorem PeerNode.vouched_of_peersReply_after_restart :
    let node := run .default legacyTable gossipAndRestart
    node.router.peerDb.entries.length = 3 ∧
      (node.router.routeMessage 2 .getPeers 21).2 =
        [.send 2 (.peers [1, 0, 5, 0, 0, 0, 1, 8, 5, 6, 7, 8, 198, 70, 0])] ∧
      ∃ specs, [1, 0, 5, 0, 0, 0, 1, 8, 5, 6, 7, 8, 198, 70, 0] = buildPeersBody specs ∧
        (∀ spec ∈ specs, ∃ addr, spec.address = some addr ∧
          ∃ handshake ∈ node.handshakes, handshake.Vouches addr) ∧
        ∀ cap specs', parsePeersBody [1, 0, 5, 0, 0, 0, 1, 8, 5, 6, 7, 8, 198, 70, 0] cap = .ok specs' →
          specs' = specs := by
  intro node
  have hreply : (node.router.routeMessage 2 .getPeers 21).2 =
      [.send 2 (.peers [1, 0, 5, 0, 0, 0, 1, 8, 5, 6, 7, 8, 198, 70, 0])] := by decide +kernel
  exact ⟨by decide +kernel, hreply, vouched_of_peersReply .default legacy_legacyTable
    gossipAndRestart (hreply ▸ mem_singleton_self _)⟩

end ErgoNode
