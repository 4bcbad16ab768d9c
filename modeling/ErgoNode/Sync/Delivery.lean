import ErgoNode.Peers.Wire
import ErgoNode.Pipeline.Process

/-!
# The delivery tracker

The tracker keeps a request for each modifier that was asked for. A check with the clock at `now`
drops the requests that timed out, except those it returns to be asked for again. `TrackedDelivery`
adds to the tracker how often each id was asked for again since it was last requested. That number
is the one in the pending request, so it stays below the bound along every run.
-/

namespace ErgoNode

open Std.ExtTreeMap Option

structure PendingRequest where
  peer : PeerId
  typeId : ℕ
  requestedAt : ℕ
  checks : ℕ
deriving DecidableEq

structure RetryAction where
  id : BlockId
  typeId : ℕ
  failedPeer : PeerId
deriving DecidableEq

structure CheckResult where
  retries : List RetryAction
  fresh : List BlockId
  abandoned : List BlockId
  forgotten : List BlockId
deriving DecidableEq

/-- The tracker. A check goes through the requests by id; the hash map of the code has another
order. -/
structure DeliveryTracker where
  pending : Table PendingRequest
  evicted : List BlockId
  timeout : ℕ
  maxChecks : ℕ

def forgottenWhenUndelivered (typeId : ℕ) : Bool := typeId = transactionTypeId

inductive CheckOutcome where
  | waits
  | forgotten
  | abandoned
  | retried
deriving DecidableEq

namespace DeliveryTracker

def withConfig (timeout maxChecks : ℕ) : DeliveryTracker := ⟨∅, [], timeout, maxChecks⟩

def markRequested (t : DeliveryTracker) (now : ℕ) (ids : List BlockId) (peer : PeerId)
    (typeId : ℕ) : DeliveryTracker :=
  { t with pending := ids.foldl (fun p id => p.insert id ⟨peer, typeId, now, 0⟩) t.pending }

def markRetried (t : DeliveryTracker) (ids : List BlockId) (peer : PeerId) : DeliveryTracker :=
  { t with
    pending := t.pending.map (fun id req => if id ∈ ids then { req with peer := peer } else req) }

def markReceived (t : DeliveryTracker) (id : BlockId) : Bool × DeliveryTracker :=
  (t.pending.contains id, { t with pending := t.pending.filter (fun id' _ => id' ≠ id) })

def scheduleRerequest (t : DeliveryTracker) (ids : List BlockId) : DeliveryTracker :=
  { t with
    pending := t.pending.filter (fun id _ => id ∉ ids)
    evicted := t.evicted ++ ids }

/-- The body of the loop of a check. A clock that runs backwards counts as standing still. -/
def outcome (t : DeliveryTracker) (now : ℕ) (req : PendingRequest) : CheckOutcome :=
  if now - req.requestedAt < t.timeout then .waits
  else if forgottenWhenUndelivered req.typeId then .forgotten
  else if t.maxChecks ≤ req.checks + 1 then .abandoned
  else .retried

def withOutcome (t : DeliveryTracker) (now : ℕ) (o : CheckOutcome) :
    List (BlockId × PendingRequest) :=
  t.pending.toList.filter (fun e => t.outcome now e.2 = o)

def afterCheck (t : DeliveryTracker) (now : ℕ) (req : PendingRequest) : Option PendingRequest :=
  match t.outcome now req with
  | .waits => some req
  | .retried => some { req with checks := req.checks + 1, requestedAt := now }
  | .forgotten => none
  | .abandoned => none

def checkTimeouts (t : DeliveryTracker) (now : ℕ) : CheckResult × DeliveryTracker :=
  ({ retries := (t.withOutcome now .retried).map (fun e => ⟨e.1, e.2.typeId, e.2.peer⟩)
     fresh := t.evicted
     abandoned := (t.withOutcome now .abandoned).map Prod.fst
     forgotten := (t.withOutcome now .forgotten).map Prod.fst },
    { t with
      pending := t.pending.filterMap (fun _ req => t.afterCheck now req)
      evicted := [] })

/-- Drop the requests to a peer. Returned are those to be asked for again, by type. -/
def purgePeer (t : DeliveryTracker) (peer : PeerId) : (ℕ → List BlockId) × DeliveryTracker :=
  (fun typeId => (t.pending.toList.filter (fun e => e.2.peer = peer ∧ e.2.typeId = typeId ∧
      forgottenWhenUndelivered typeId = false)).map Prod.fst,
    { t with pending := t.pending.filter (fun _ req => req.peer ≠ peer) })

def purgeAll (t : DeliveryTracker) : DeliveryTracker := { t with pending := ∅ }

def isPending (t : DeliveryTracker) (id : BlockId) : Bool := t.pending.contains id

variable {t : DeliveryTracker} {now : ℕ} {id : BlockId}

def TimedOut (t : DeliveryTracker) (now : ℕ) (id : BlockId) : Prop :=
  (t.pending[id]?).any (fun req => t.timeout ≤ now - req.requestedAt) = true

instance : Decidable (t.TimedOut now id) := inferInstanceAs (Decidable (_ = true))

/-! ## One check -/

lemma timedOut_iff :
    t.TimedOut now id ↔ ∃ req, t.pending[id]? = some req ∧ t.outcome now req ≠ .waits := by
  rw [TimedOut, any_eq_true]
  refine exists_congr (fun req => and_congr_right (fun _ => ?_))
  rw [decide_eq_true_eq, outcome]
  split_ifs <;> simp <;> omega

lemma checks_lt_of_retried {req : PendingRequest} (h : t.outcome now req = .retried) :
    req.checks + 1 < t.maxChecks := by
  unfold outcome at h
  split_ifs at h
  omega

lemma count_withOutcome (o : CheckOutcome) :
    ((t.withOutcome now o).map Prod.fst).count id =
      if (t.pending[id]?).map (t.outcome now) = some o then 1 else 0 := by
  have hnodup : ((t.withOutcome now o).map Prod.fst).Nodup := by
    rw [List.Nodup, List.pairwise_map]
    exact ((pairwise_toList t.pending).filter _).imp (fun h => h.ne)
  have hmem : id ∈ (t.withOutcome now o).map Prod.fst ↔
      (t.pending[id]?).map (t.outcome now) = some o := by
    rw [map_eq_some_iff, List.mem_map]
    constructor
    · rintro ⟨⟨_, req⟩, he, rfl⟩
      obtain ⟨he, ho⟩ := List.mem_filter.1 he
      exact ⟨req, mem_toList_iff_getElem?_eq_some.1 he, of_decide_eq_true ho⟩
    · rintro ⟨req, hreq, ho⟩
      exact ⟨(id, req), List.mem_filter.2
        ⟨mem_toList_iff_getElem?_eq_some.2 hreq, decide_eq_true ho⟩, rfl⟩
  rw [hnodup.count]
  simp only [hmem]

lemma ids_retries (t : DeliveryTracker) (now : ℕ) :
    (t.checkTimeouts now).1.retries.map (·.id) = (t.withOutcome now .retried).map Prod.fst := by
  rw [checkTimeouts, List.map_map]
  rfl

lemma getElem?_checkTimeouts :
    (t.checkTimeouts now).2.pending[id]? = (t.pending[id]?).bind (t.afterCheck now) :=
  getElem?_filterMap'

structure Accounts (t : DeliveryTracker) (now : ℕ) : Prop where
  /-- An id that timed out is in exactly one of the lists, once, and another one is in none. -/
  exactly_one : ∀ id : BlockId, ((t.checkTimeouts now).1.retries.map (·.id)).count id +
    (t.checkTimeouts now).1.abandoned.count id + (t.checkTimeouts now).1.forgotten.count id =
      if t.TimedOut now id then 1 else 0
  stays : ∀ id : BlockId, t.TimedOut now id → ((t.checkTimeouts now).2.isPending id = true ↔
    id ∈ (t.checkTimeouts now).1.retries.map (·.id))
  others : ∀ id : BlockId, ¬t.TimedOut now id →
    (t.checkTimeouts now).2.pending[id]? = t.pending[id]?

lemma accounts (t : DeliveryTracker) (now : ℕ) : t.Accounts now := by
  refine ⟨fun id => ?_, fun id hid => ?_, fun id hid => ?_⟩
  · rw [ids_retries, checkTimeouts, count_withOutcome, count_withOutcome, count_withOutcome]
    simp only [timedOut_iff]
    cases hreq : t.pending[id]? with
    | none => simp
    | some req => cases ho : t.outcome now req <;> simp [ho]
  · obtain ⟨req, hreq, hover⟩ := timedOut_iff.1 hid
    rw [ids_retries, ← List.one_le_count_iff, count_withOutcome, isPending,
      contains_eq_isSome_getElem?, getElem?_checkTimeouts, hreq, bind_some,
      map_some, afterCheck]
    cases ho : t.outcome now req <;> simp_all
  · rw [getElem?_checkTimeouts]
    cases hreq : t.pending[id]? with
    | none => rfl
    | some req =>
      have hwaits : t.outcome now req = .waits :=
        not_not.1 (fun hover => hid (timedOut_iff.2 ⟨req, hreq, hover⟩))
      rw [bind_some, afterCheck, hwaits]

end DeliveryTracker

/-! ## Runs -/

/-- An operation on the tracker, with the clock where it is read. -/
inductive DeliveryOp where
  | markRequested (now : ℕ) (ids : List BlockId) (peer : PeerId) (typeId : ℕ)
  | markRetried (ids : List BlockId) (peer : PeerId)
  | markReceived (id : BlockId)
  | scheduleRerequest (ids : List BlockId)
  | checkTimeouts (now : ℕ)
  | purgePeer (peer : PeerId)
  | purgeAll

/-- The tracker, and how often each id was returned as a retry since it was last requested. -/
structure TrackedDelivery where
  tracker : DeliveryTracker
  retried : BlockId → ℕ

namespace TrackedDelivery

open DeliveryTracker

def step (s : TrackedDelivery) : DeliveryOp → TrackedDelivery
  | .markRequested now ids peer typeId =>
    ⟨s.tracker.markRequested now ids peer typeId, fun id => if id ∈ ids then 0 else s.retried id⟩
  | .markRetried ids peer => ⟨s.tracker.markRetried ids peer, s.retried⟩
  | .markReceived id => ⟨(s.tracker.markReceived id).2, s.retried⟩
  | .scheduleRerequest ids => ⟨s.tracker.scheduleRerequest ids, s.retried⟩
  | .checkTimeouts now => ⟨(s.tracker.checkTimeouts now).2, fun id =>
      s.retried id + ((s.tracker.checkTimeouts now).1.retries.map (·.id)).count id⟩
  | .purgePeer peer => ⟨(s.tracker.purgePeer peer).2, s.retried⟩
  | .purgeAll => ⟨s.tracker.purgeAll, s.retried⟩

def run (timeout maxChecks : ℕ) (ops : List DeliveryOp) : TrackedDelivery :=
  ops.foldl step ⟨withConfig timeout maxChecks, fun _ => 0⟩

/-- A pending request counts its retries, and there are fewer of them than checks. -/
structure Counted (maxChecks : ℕ) (s : TrackedDelivery) : Prop where
  maxChecks_eq : s.tracker.maxChecks = maxChecks
  checks_eq : ∀ (id : BlockId) (req : PendingRequest), s.tracker.pending[id]? = some req →
    req.checks = s.retried id
  bounded : ∀ id, 0 < s.retried id → s.retried id < maxChecks

variable {s : TrackedDelivery} {maxChecks : ℕ}

lemma Counted.filter (h : s.Counted maxChecks) {keep : BlockId → PendingRequest → Bool}
    {evicted : List BlockId} : Counted maxChecks
      ⟨{ s.tracker with pending := s.tracker.pending.filter keep, evicted := evicted }, s.retried⟩ := by
  refine ⟨h.maxChecks_eq, fun id req hreq => ?_, h.bounded⟩
  rw [getElem?_filter', filter_eq_some_iff] at hreq
  exact h.checks_eq id req hreq.1

lemma Counted.markRequested (h : s.Counted maxChecks) (now : ℕ) (ids : List BlockId)
    (peer : PeerId) (typeId : ℕ) :
    (s.step (.markRequested now ids peer typeId)).Counted maxChecks := by
  have hrow : ∀ (id : BlockId) (p : Table PendingRequest) (new : PendingRequest),
      (ids.foldl (fun p id => p.insert id new) p)[id]? = if id ∈ ids then some new else p[id]? := by
    intro id p new
    induction ids generalizing p with
    | nil => simp
    | cons first ids ih =>
      rw [List.foldl_cons, ih, getElem?_insert_nat]
      by_cases hid : id ∈ ids <;> simp [hid, eq_comm]
  refine ⟨h.maxChecks_eq, fun id req hreq => ?_, fun id hpos => ?_⟩
  · change (ids.foldl _ s.tracker.pending)[id]? = some req at hreq
    rw [hrow] at hreq
    show req.checks = if id ∈ ids then 0 else s.retried id
    split_ifs at hreq ⊢
    · rw [← some.inj hreq]
    · exact h.checks_eq id req hreq
  · change 0 < (if id ∈ ids then 0 else s.retried id) at hpos
    show (if id ∈ ids then 0 else s.retried id) < maxChecks
    split_ifs at hpos ⊢
    · exact absurd hpos (Nat.lt_irrefl 0)
    · exact h.bounded id hpos

/-- An id that is retried was pending, and its request counts one check more. -/
theorem Counted.checkTimeouts (h : s.Counted maxChecks) (now : ℕ) :
    (s.step (.checkTimeouts now)).Counted maxChecks := by
  have hretried : ∀ id, ((s.tracker.checkTimeouts now).1.retries.map (·.id)).count id =
      if (s.tracker.pending[id]?).map (s.tracker.outcome now) = some .retried then 1 else 0 := by
    intro id
    rw [ids_retries, count_withOutcome]
  refine ⟨h.maxChecks_eq, fun id req hreq => ?_, fun id hpos => ?_⟩
  · change (s.tracker.checkTimeouts now).2.pending[id]? = some req at hreq
    rw [getElem?_checkTimeouts] at hreq
    obtain ⟨old, hold, hreq⟩ := bind_eq_some_iff.1 hreq
    show req.checks = s.retried id + _
    rw [hretried, hold, map_some, ← h.checks_eq id old hold]
    rw [afterCheck] at hreq
    cases ho : s.tracker.outcome now old <;> simp [ho] at hreq <;> simp [← hreq]
  · change 0 < s.retried id + _ at hpos
    show s.retried id + _ < maxChecks
    rw [hretried] at hpos ⊢
    split_ifs at hpos ⊢ with hagain
    · obtain ⟨old, hold, ho⟩ := map_eq_some_iff.1 hagain
      rw [← h.checks_eq id old hold, ← h.maxChecks_eq]
      exact checks_lt_of_retried ho
    · exact h.bounded id hpos

lemma Counted.step (h : s.Counted maxChecks) (op : DeliveryOp) : (s.step op).Counted maxChecks := by
  cases op with
  | markRequested now ids peer typeId => exact h.markRequested now ids peer typeId
  | markRetried ids peer =>
    refine ⟨h.maxChecks_eq, fun id req hreq => ?_, h.bounded⟩
    change (s.tracker.pending.map _)[id]? = some req at hreq
    rw [getElem?_map] at hreq
    obtain ⟨old, hold, rfl⟩ := map_eq_some_iff.1 hreq
    refine Eq.trans ?_ (h.checks_eq id old hold)
    split_ifs <;> rfl
  | markReceived id => exact h.filter
  | scheduleRerequest ids => exact h.filter
  | checkTimeouts now => exact h.checkTimeouts now
  | purgePeer peer => exact h.filter
  | purgeAll => exact ⟨h.maxChecks_eq, fun id req hreq => (some_ne_none req hreq.symm).elim, h.bounded⟩

lemma counted_run (timeout maxChecks : ℕ) (ops : List DeliveryOp) :
    (run timeout maxChecks ops).Counted maxChecks := by
  induction ops using List.reverseRecOn with
  | nil => exact ⟨rfl, fun id req hreq => (some_ne_none req hreq.symm).elim, by simp [run]⟩
  | append_singleton ops op ih =>
    rw [run, List.foldl_concat]
    exact ih.step op

/-- **Every request is accounted for**, in every state of every run with any clock: the check places
ids that timed out, an id is retried fewer times than there are checks, and a purge removes a peer's
requests. -/
theorem accounts_of_run (timeout maxChecks : ℕ) (ops : List DeliveryOp) :
    (∀ now, (run timeout maxChecks ops).tracker.Accounts now) ∧
    (∀ id, 0 < (run timeout maxChecks ops).retried id →
      (run timeout maxChecks ops).retried id < maxChecks) ∧
    ∀ (peer : PeerId) (id : BlockId),
      ((run timeout maxChecks ops).tracker.purgePeer peer).2.pending[id]? =
        ((run timeout maxChecks ops).tracker.pending[id]?).filter (fun req => req.peer ≠ peer) :=
  ⟨fun now => accounts _ now, (counted_run timeout maxChecks ops).bounded,
    fun _ _ => getElem?_filter'⟩

end TrackedDelivery

end ErgoNode
