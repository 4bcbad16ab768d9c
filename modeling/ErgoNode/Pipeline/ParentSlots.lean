import ErgoNode.Library.Run
import ErgoNode.Pipeline.ForkChoice

/-!
# The slots of the parent requests

A request for an unknown parent takes one of three slots until the parent arrives or a minute has
passed. A header arrives at the tip, out of the buffer, as a fork of the best chain, or on top of a
stored fork header. The first three give its slot back. The last does not, so a requested parent of
that kind keeps its slot until it runs out.
-/

namespace ErgoNode

open List

namespace ParentRequests

variable {r : ParentRequests} {id : BlockId} {H H' : BlockId → Prop} {now now' : ℕ}
  {asked : List (BlockId × ℕ)}

/-- No parent is asked for twice within the time a slot is held. -/
def Spaced (asked : List (BlockId × ℕ)) : Prop :=
  asked.Pairwise (fun a b => a.1 = b.1 → a.2 + parentRequestTtl ≤ b.2)

/-- The slots against all requests ever made, when the headers in `H` have arrived. -/
structure Accounted (now : ℕ) (H : BlockId → Prop) (r : ParentRequests)
    (asked : List (BlockId × ℕ)) : Prop where
  bounded : r.inFlight.length ≤ maxParentRequests
  /-- A request holds its slot, its parent has arrived, or its time is over. -/
  kept : ∀ e ∈ asked, e ∈ r.inFlight ∨ H e.1 ∨ e.2 + parentRequestTtl ≤ now
  spaced : Spaced asked

def Released (H : BlockId → Prop) (r : ParentRequests) : Prop := ∀ e ∈ r.inFlight, ¬H e.1

lemma Accounted.mono (h : Accounted now H r asked) (hH : ∀ x, H x → H' x) (hnow : now ≤ now') :
    Accounted now' H' r asked :=
  ⟨h.bounded, fun e he => (h.kept e he).imp_right (Or.imp (hH _) (fun hold => hold.trans hnow)),
    h.spaced⟩

lemma Accounted.resolved (h : Accounted now H r asked) (hid : H id) :
    Accounted now H (r.resolved id) asked where
  bounded := (length_filter_le _ _).trans h.bounded
  kept e he := by
    rcases h.kept e he with hin | hrest
    · by_cases hsame : e.1 = id
      · exact .inr (.inl (hsame ▸ hid))
      · exact .inl (mem_filter.2 ⟨hin, by simpa using hsame⟩)
    · exact .inr hrest
  spaced := h.spaced

lemma Accounted.shouldRequest (h : Accounted now H r asked) (hid : ¬H id) :
    Accounted now H (r.shouldRequest id now).2
      (asked ++ if (r.shouldRequest id now).1 then [(id, now)] else []) := by
  unfold ParentRequests.shouldRequest
  set live := r.inFlight.filter (fun e => now - e.2 < parentRequestTtl) with hlive
  have hlen : live.length ≤ maxParentRequests := (length_filter_le _ _).trans h.bounded
  have hkept : ∀ e ∈ asked, e ∈ live ∨ H e.1 ∨ e.2 + parentRequestTtl ≤ now := by
    intro e he
    rcases h.kept e he with hin | hrest
    · by_cases hage : now - e.2 < parentRequestTtl
      · exact .inl (mem_filter.2 ⟨hin, by simpa using hage⟩)
      · have hpos : 0 < parentRequestTtl := by decide
        exact .inr (.inr (by omega))
    · exact .inr hrest
  by_cases hrefuse : id ∈ live.map Prod.fst ∨ maxParentRequests ≤ live.length
  · simp only [if_pos hrefuse, Bool.false_eq_true, if_false, append_nil]
    exact ⟨hlen, hkept, h.spaced⟩
  · simp only [if_neg hrefuse, if_true]
    rw [not_or, Nat.not_le] at hrefuse
    refine ⟨hrefuse.2, ?_, pairwise_append.2 ⟨h.spaced, pairwise_singleton _ _, ?_⟩⟩
    · intro e he
      rcases mem_append.1 he with he | he
      · exact (hkept e he).imp_left (mem_cons_of_mem _)
      · obtain rfl := mem_singleton.1 he
        exact .inl mem_cons_self
    · intro a ha b hb hsame
      obtain rfl := mem_singleton.1 hb
      rcases hkept a ha with hin | harrived | hold
      · exact absurd (mem_map.2 ⟨a, hin, hsame⟩) hrefuse.1
      · exact absurd harrived (by rwa [hsame])
      · exact hold

lemma Released.resolved (h : Released H r) (hH : ∀ x, H' x → H x ∨ x = id) :
    Released H' (r.resolved id) := by
  intro e he harrived
  obtain ⟨hin, hne⟩ := mem_filter.1 he
  rcases hH e.1 harrived with hold | hnew
  · exact h e hin hold
  · exact absurd hnew (by simpa using hne)

lemma Released.of_notMem (h : Released H r) (hH : ∀ x, H' x → H x ∨ x = id)
    (hid : id ∉ r.inFlight.map Prod.fst) : Released H' r := by
  intro e he harrived
  rcases hH e.1 harrived with hold | hnew
  · exact h e he hold
  · exact hid (hnew ▸ mem_map_of_mem he)

lemma Released.shouldRequest (h : Released H r) (hid : ¬H id) :
    Released H (r.shouldRequest id now).2 := by
  intro e he
  unfold ParentRequests.shouldRequest at he
  dsimp only at he
  split at he
  · exact h e (mem_of_mem_filter he)
  · rcases mem_cons.1 he with rfl | he
    · exact hid
    · exact h e (mem_of_mem_filter he)

end ParentRequests

open ParentRequests

variable {rules : PipelineRules} {now : ℕ} {s : BatchState} {chain : HeaderChain}

/-! ## Arrival -/

def Arrived (c : HeaderChain) (store : ModifierStore) (id : BlockId) : Prop :=
  ∃ score, Known c store id score

lemma arrived_chainHeader {header : Header} {score : ℕ}
    (hchain : chain = { s.chain with entries := s.chain.entries ++ [⟨header, score⟩] })
    (id : BlockId) :
    Arrived chain s.store id ↔ Arrived s.chain s.store id ∨ id = header.id := by
  subst hchain
  simp only [Arrived, Known, mem_append, mem_singleton]
  constructor
  · rintro ⟨k, ⟨e, he | rfl, hid, hscore⟩ | hstored⟩
    · exact .inl ⟨k, .inl ⟨e, he, hid, hscore⟩⟩
    · exact .inr hid.symm
    · exact .inl ⟨k, .inr hstored⟩
  · rintro (⟨k, ⟨e, he, hid, hscore⟩ | hstored⟩ | rfl)
    · exact ⟨k, .inl ⟨e, .inl he, hid, hscore⟩⟩
    · exact ⟨k, .inr hstored⟩
    · exact ⟨score, .inl ⟨_, .inr rfl, rfl, rfl⟩⟩

lemma arrived_storeFork (rules : PipelineRules) (s : BatchState) (header : Header) (raw : Bytes)
    (parentScore : ℕ) (assemble : ModifierStore → Option ForkBranch) (id : BlockId) :
    Arrived s.chain (storeFork rules s header raw parentScore assemble).store id ↔
      Arrived s.chain s.store id ∨ id = header.id := by
  have hwrites := writesHeader_storeFork rules s header raw parentScore assemble
  simp only [Arrived, Known, hwrites.score_eq]
  by_cases hid : header.id = id
  · simp only [hid, if_true, or_true, iff_true]
    exact ⟨_, .inr rfl⟩
  · simp only [if_neg hid, Ne.symm hid, or_false]

/-- The header goes on top of a stored fork header while there is a request for it. -/
def StoresUnreleased (s : BatchState) (header : Header) : Prop :=
  s.chain.contains header.id = false ∧ s.chain.entries ≠ [] ∧
    s.chain.heightOf header.parentId = none ∧
    (storedScore s.store header.parentId).isSome = true ∧
    header.id ∈ s.reorgRequested.inFlight.map Prod.fst

instance (s : BatchState) (header : Header) : Decidable (StoresUnreleased s header) :=
  inferInstanceAs (Decidable (_ ∧ _ ∧ _ ∧ _ ∧ _))

/-! ## The loop over a batch -/

def requestsIn (control : List DeliveryControl) : List BlockId :=
  control.filterMap fun
    | .needModifier _ id => some id
    | .reorg .. => none

/-- What the loop keeps, from a pipeline that has made the requests `asked`; the slots are given
back if `ok`. -/
structure SlotInv (rules : PipelineRules) (now : ℕ) (p : ValidationPipeline)
    (asked : List (BlockId × ℕ)) (ok : Prop) (s : BatchState) : Prop where
  linked : s.chain.Linked rules.toHeaderRules
  accounted : ∃ new, requestsIn s.control = requestsIn p.control ++ new ∧
    s.reorgRequested.Accounted now (Arrived s.chain s.store) (asked ++ new.map (·, now))
  released : ok → s.reorgRequested.Released (Arrived s.chain s.store)

namespace SlotInv

variable {p : ValidationPipeline} {asked : List (BlockId × ℕ)} {ok ok' : Prop} {header : Header}
  {raw : Bytes}

variable (h : SlotInv rules now p asked ok s)

include h

lemma imp (hok : ok' → ok) :
    SlotInv rules now p asked ok' s :=
  ⟨h.linked, h.accounted, fun h' => h.released (hok h')⟩

lemma chainHeader
    (happend : s.chain.tryAppend rules.toHeaderRules now header = (.ok .extended, chain)) :
    SlotInv rules now p asked ok (chainHeader s chain header raw) := by
  obtain ⟨hlinked, -, score, hchain⟩ := exists_entries_of_tryAppend h.linked happend
  have harrived := arrived_chainHeader (s := s) hchain
  obtain ⟨new, hnew, haccounted⟩ := h.accounted
  refine ⟨hlinked, ⟨new, hnew, ?_⟩, fun hok => (h.released hok).resolved fun x => (harrived x).1⟩
  exact (haccounted.mono (fun x hx => (harrived x).2 (.inl hx)) le_rfl).resolved
    ((harrived _).2 (.inr rfl))

lemma drainBuffer (fuel : ℕ) (nextParent : BlockId) :
    SlotInv rules now p asked ok (drainBuffer rules now fuel nextParent s) := by
  have hbuffer : ∀ s buffer, SlotInv rules now p asked ok s →
      SlotInv rules now p asked ok { s with buffer := buffer } :=
    fun s buffer h => { h with }
  exact drainBuffer_induction (P := SlotInv rules now p asked ok)
    (fun s k header raw chain hs _ happend => (hbuffer s _ hs).chainHeader happend)
    (fun s k hs => hbuffer s _ hs) fuel nextParent s h

lemma storeFork (parentScore : ℕ) (assemble : ModifierStore → Option ForkBranch) :
    SlotInv rules now p asked ok (storeFork rules
        { s with reorgRequested := s.reorgRequested.resolved header.id } header raw parentScore
        assemble) ∧
      SlotInv rules now p asked (ok ∧ header.id ∉ s.reorgRequested.inFlight.map Prod.fst)
        (storeFork rules s header raw parentScore assemble) := by
  have harrived := arrived_storeFork rules s header raw parentScore assemble
  obtain ⟨new, hnew, haccounted⟩ := h.accounted
  have hgrown := haccounted.mono (fun x hx => (harrived x).2 (.inl hx)) le_rfl
  constructor
  · exact ⟨h.linked, ⟨new, hnew, hgrown.resolved ((harrived _).2 (.inr rfl))⟩,
      fun hok => (h.released hok).resolved fun x => (harrived x).1⟩
  · exact ⟨h.linked, ⟨new, hnew, hgrown⟩,
      fun hok => (h.released hok.1).of_notMem (fun x => (harrived x).1) hok.2⟩

lemma requestParent {parentId : BlockId} (hmissing : ¬Arrived s.chain s.store parentId) :
    SlotInv rules now p asked ok (requestParent now s parentId) := by
  obtain ⟨new, hnew, haccounted⟩ := h.accounted
  have hrequest := haccounted.shouldRequest hmissing
  refine ⟨h.linked, ?_, fun hok => (h.released hok).shouldRequest hmissing⟩
  unfold ErgoNode.requestParent
  cases hask : (s.reorgRequested.shouldRequest parentId now).1 with
  | false =>
    simp only [hask, Bool.false_eq_true, if_false, append_nil] at hrequest ⊢
    exact ⟨new, hnew, hrequest⟩
  | true =>
    simp only [hask, if_true] at hrequest ⊢
    refine ⟨new ++ [parentId], ?_, by simpa using hrequest⟩
    rw [← append_assoc, ← hnew]
    simp [requestsIn]

lemma processHeader (x : RawHeader) :
    SlotInv rules now p asked (ok ∧ ¬StoresUnreleased s x.1) (processHeader rules now s x) := by
  obtain ⟨header, raw⟩ := x
  refine processHeader_arms (h.imp And.left) ?_ ?_ ?_ ?_ ?_
  · intro chain happend
    exact ((h.imp And.left).chainHeader happend).drainBuffer _ _
  · intro forkHeight _ _
    exact ((h.imp And.left).storeFork _ _).1
  · intro parentScore hnew hne hmissing hscore
    refine (h.storeFork _ _).2.imp fun hok => ⟨hok.1, fun hin => hok.2 ?_⟩
    exact ⟨hnew, hne, hmissing, by rw [hscore]; rfl, hin⟩
  · intro hmissing hscore
    have harrived : ¬Arrived s.chain s.store header.parentId := by
      rintro ⟨score, ⟨e, he, hid, -⟩ | hstored⟩
      · exact HeaderChain.heightOf_eq_none_iff.1 hmissing e he hid
      · cases hscore.symm.trans hstored
    have hrequest := (h.imp (And.left (b := ¬StoresUnreleased s header))).requestParent harrived
    exact { hrequest with }
  · intro _
    exact ⟨h.linked, h.accounted, fun hok => h.released hok.1⟩

lemma foldl (xs : List RawHeader) :
    SlotInv rules now p asked
      (ok ∧ MeetsAll (ErgoNode.processHeader rules now) (fun s x => ¬StoresUnreleased s x.1) s xs)
      (xs.foldl (ErgoNode.processHeader rules now) s) := by
  induction xs generalizing s ok with
  | nil => exact h.imp And.left
  | cons x xs ih => exact (ih (h.processHeader x)).imp fun hok => ⟨⟨hok.1, hok.2.1⟩, hok.2.2⟩

end SlotInv

/-! ## Runs -/

structure RequestLog where
  pipeline : ValidationPipeline
  asked : List (BlockId × ℕ)
  clock : ℕ

def BatchReleases (rules : PipelineRules) (p : ValidationPipeline)
    (b : ℕ × List ModifierBatchItem) : Prop :=
  MeetsAll (processHeader rules b.1) (fun s x => ¬StoresUnreleased s x.1) (startBatch p)
    (batchHeaders rules b.2)

instance (rules : PipelineRules) (p : ValidationPipeline) (b : ℕ × List ModifierBatchItem) :
    Decidable (BatchReleases rules p b) :=
  inferInstanceAs (Decidable (MeetsAll _ _ _ _))

lemma executeReorg_requests (rules : PipelineRules) (now : ℕ) (s : BatchState) :
    (executeReorg rules now s).1.reorgRequested = s.reorgRequested ∧
      requestsIn (executeReorg rules now s).1.control = requestsIn s.control := by
  unfold executeReorg
  split
  · exact ⟨rfl, rfl⟩
  · split
    · exact ⟨rfl, by simp [requestsIn]⟩
    · exact ⟨rfl, rfl⟩

lemma processBatch_slots (hfree : CollisionFree rules) {p : ValidationPipeline}
    (hwf : p.WellFormed rules) (hscores : ScoresConsistent rules p) (now : ℕ)
    (batch : List ModifierBatchItem) :
    (processBatch rules now p batch).reorgRequested = (loopEnd rules now p batch).reorgRequested ∧
      requestsIn (processBatch rules now p batch).control =
        requestsIn (loopEnd rules now p batch).control ∧
      ∀ id, Arrived (processBatch rules now p batch).chain (processBatch rules now p batch).store id ↔
        Arrived (loopEnd rules now p batch).chain (loopEnd rules now p batch).store id := by
  obtain ⟨hchain, -, hsame⟩ := processBatch_eq rules now p batch
  have hafter : (processBatch rules now p batch).reorgRequested =
      (afterHeaders rules now p batch).reorgRequested ∧
      (processBatch rules now p batch).control = (afterHeaders rules now p batch).control := by
    rw [← processHeaders_fst]
    exact ⟨rfl, rfl⟩
  rw [hafter.1, hafter.2]
  simp only [Arrived, Known, hchain, hsame.storedScore_eq]
  unfold afterHeaders
  split
  next hnil =>
    rw [loopEnd, hnil]
    exact ⟨rfl, rfl, fun id => Iff.rfl⟩
  · obtain ⟨hreorg, hreorgs⟩ := executeReorg_requests rules now (loopEnd rules now p batch)
    obtain ⟨hconsistent, hstored⟩ := ScoresConsistent.finishBatch now hfree
      (hwf.loopInv_loopEnd batch) (hscores.scoreInv_loopEnd hfree hwf batch)
    refine ⟨hreorg, hreorgs, fun id => exists_congr fun score => ?_⟩
    rw [hstored]
    constructor
    · rintro (⟨e, he, rfl, rfl⟩ | hknown)
      · exact (hstored _ _).1 (hconsistent.persisted e he)
      · exact hknown
    · exact Or.inr

namespace RequestLog

variable {l : RequestLog} {ok : Prop}

def step (rules : PipelineRules) (l : RequestLog) (b : ℕ × List ModifierBatchItem) : RequestLog :=
  let p := processBatch rules b.1 l.pipeline b.2
  ⟨p, l.asked ++
    ((requestsIn p.control).drop (requestsIn l.pipeline.control).length).map (·, b.1), b.1⟩

/-- What holds between two batches; the slots are given back if `ok`. -/
structure Sound (rules : PipelineRules) (ok : Prop) (l : RequestLog) : Prop where
  wellFormed : l.pipeline.WellFormed rules
  scores : ScoresConsistent rules l.pipeline
  accounted : l.pipeline.reorgRequested.Accounted l.clock
    (Arrived l.pipeline.chain l.pipeline.store) l.asked
  released : ok → l.pipeline.reorgRequested.Released
    (Arrived l.pipeline.chain l.pipeline.store)

lemma Sound.start {p : ValidationPipeline} (hwf : p.WellFormed rules)
    (hscores : ScoresConsistent rules p) (hidle : p.reorgRequested = ⟨[]⟩) :
    (⟨p, [], 0⟩ : RequestLog).Sound rules ok := by
  refine ⟨hwf, hscores, ⟨?_, by simp, Pairwise.nil⟩, fun _ => ?_⟩
  · simp [hidle]
  · simp [Released, hidle]

lemma Sound.loop (h : l.Sound rules ok) (hnow : l.clock ≤ now) (xs : List RawHeader) :
    SlotInv rules now l.pipeline l.asked
      (ok ∧ MeetsAll (processHeader rules now) (fun s x => ¬StoresUnreleased s x.1)
        (startBatch l.pipeline) xs)
      (xs.foldl (processHeader rules now) (startBatch l.pipeline)) := by
  have haccounted := h.accounted.mono (fun _ => id) hnow
  rw [← append_nil l.asked] at haccounted
  exact SlotInv.foldl ⟨h.wellFormed.linked, ⟨[], (append_nil _).symm, haccounted⟩, h.released⟩ xs

lemma Sound.step (h : l.Sound rules ok) (hfree : CollisionFree rules)
    {b : ℕ × List ModifierBatchItem} (hnow : l.clock ≤ b.1)
    (hok : ok → BatchReleases rules l.pipeline b) : (l.step rules b).Sound rules ok := by
  have hloop := h.loop hnow (batchHeaders rules b.2)
  obtain ⟨new, hnew, haccounted⟩ := hloop.accounted
  obtain ⟨hrequested, hcontrol, harrived⟩ :=
    processBatch_slots hfree h.wellFormed h.scores b.1 b.2
  refine ⟨h.wellFormed.processBatch b.1 b.2, h.scores.processBatch hfree h.wellFormed b.1 b.2,
    ?_, fun h' => ?_⟩
  · simp only [RequestLog.step, hrequested, hcontrol]
    rw [loopEnd, hnew, drop_left]
    exact haccounted.mono (fun id hid => (harrived id).2 hid) le_rfl
  · simp only [RequestLog.step, hrequested]
    exact fun e he hid => hloop.released ⟨h', hok h'⟩ e he ((harrived _).1 hid)

end RequestLog

/-- **The slots of parent requests.** From any consistent pipeline without requests, on a clock that
does not go back, also between two headers of a batch: never more than three requests, none repeated
within a minute; and if no header is stored unreleased, no header that has arrived holds a slot. -/
theorem parentSlots_runBatches (hfree : CollisionFree rules) {p : ValidationPipeline}
    (hwf : p.WellFormed rules) (hscores : ScoresConsistent rules p)
    (hidle : p.reorgRequested = ⟨[]⟩) {batches : List (ℕ × List ModifierBatchItem)}
    (hclock : MeetsAll (RequestLog.step rules) (fun l b => l.clock ≤ b.1) ⟨p, [], 0⟩ batches) :
    let l := batches.foldl (RequestLog.step rules) ⟨p, [], 0⟩
    (∀ now, l.clock ≤ now → ∀ xs : List RawHeader,
      (xs.foldl (processHeader rules now) (startBatch l.pipeline)).reorgRequested.inFlight.length ≤
        maxParentRequests) ∧
      Spaced l.asked ∧
      (MeetsAll (RequestLog.step rules)
          (fun l b => l.clock ≤ b.1 ∧ BatchReleases rules l.pipeline b) ⟨p, [], 0⟩ batches →
        ∀ id ∈ l.pipeline.reorgRequested.inFlight.map Prod.fst,
          ¬Arrived l.pipeline.chain l.pipeline.store id) := by
  have hend := hclock.invariant (P := RequestLog.Sound rules False)
    (fun l b h hnow => h.step hfree hnow False.elim) (.start hwf hscores hidle)
  refine ⟨fun now hnow xs => ?_, hend.accounted.spaced, fun hok id hid => ?_⟩
  · obtain ⟨_, -, haccounted⟩ := (hend.loop hnow xs).accounted
    exact haccounted.bounded
  · obtain ⟨e, he, rfl⟩ := mem_map.1 hid
    exact (hok.invariant (P := RequestLog.Sound rules True)
      (fun l b h hb => h.step hfree hb.1 fun _ => hb.2) (.start hwf hscores hidle)).released
        trivial e he

def longRace : List Header :=
  raceHeaders ++ [{ raceHeaders.get ⟨5, by decide⟩ with
    id := 14, parentId := 13, height := 4, timestamp := 4000 }]

def raceBatches (indices : List (List UInt8)) : List (ℕ × List ModifierBatchItem) :=
  indices.map (fun i => (10000, headerItems i))

def raceLog (indices : List (List UInt8)) : RequestLog :=
  (raceBatches indices).foldl (RequestLog.step (listRules longRace)) ⟨.new .mainnet, [], 0⟩

/-- Header 4 makes the pipeline ask for 3, which joins the best chain and gives its slot back. -/
theorem parentSlots_runBatches_extend :
    (raceLog [[0, 1], [3], [2]]).asked = [(3, 10000)] ∧ Spaced (raceLog [[0, 1], [3], [2]]).asked ∧
      ∀ id ∈ (raceLog [[0, 1], [3], [2]]).pipeline.reorgRequested.inFlight.map Prod.fst,
        ¬Arrived (raceLog [[0, 1], [3], [2]]).pipeline.chain
          (raceLog [[0, 1], [3], [2]]).pipeline.store id := by
  have hclock : MeetsAll (RequestLog.step (listRules longRace)) (fun l b => l.clock ≤ b.1)
      ⟨.new .mainnet, [], 0⟩ (raceBatches [[0, 1], [3], [2]]) := by decide +kernel
  have hslots := parentSlots_runBatches (collisionFree_listRules (by decide +kernel)) (.new _)
    (.new _) rfl hclock
  exact ⟨by decide +kernel, hslots.2.1, hslots.2.2 (by decide +kernel)⟩

/-- Header 14 makes the pipeline ask for 13, which is stored on top of the fork header 12 and keeps
its slot. -/
theorem arrived_inFlight_fork :
    13 ∈ (raceLog [[0, 1, 2, 3], [4], [6], [5]]).pipeline.reorgRequested.inFlight.map Prod.fst ∧
      (storedScore (raceLog [[0, 1, 2, 3], [4], [6], [5]]).pipeline.store 13).isSome = true := by
  decide +kernel

end ErgoNode
