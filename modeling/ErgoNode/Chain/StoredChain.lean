import ErgoNode.Chain.FailedCalls
import ErgoNode.Library.Run

/-!
# A cached chain and its store

The integrator stores every header that enters the best chain, with the score the chain hands out
for it. `StoredChain` is the chain together with the two stores; a step performs one operation and
stores what it accepted. `Transition` lists what a step can do to the accepted headers; whatever
holds in all states that are reached is proved from it.
-/

namespace ErgoNode

open List

structure StoredChain where
  chain : CachedChain
  headers : ℕ → Option Header
  scores : ℕ → Option ℕ
  /-- Headers that an append or a reorg accepted so far. -/
  accepted : List Header

inductive ChainOp where
  | append (now : ℕ) (header : Header)
  | reorg (now : ℕ) (alternativeTip continuation : Header)
  | reorgDeep (now forkPointHeight : ℕ) (newBranch : List Header)
  | install (suffixHead : Header) (suffixTail : List Header)
  | setCacheCapacity (capacity : ℕ) (h : 0 < capacity)
  | headerAt (height : ℕ)
  | scoreAt (height : ℕ)

def ChainOp.headers : ChainOp → List Header
  | append _ header => [header]
  | reorg _ alternativeTip continuation => [alternativeTip, continuation]
  | reorgDeep _ _ newBranch => newBranch
  | install suffixHead suffixTail => suffixHead :: suffixTail
  | setCacheCapacity _ _ => []
  | headerAt _ => []
  | scoreAt _ => []

namespace CachedChain

/-- Hand out the scores of headers that were pushed. Panics when one cannot be resolved. -/
def handOut : List Header → ChainCall (List (ℕ × ℕ))
  | [] => pure []
  | header :: rest => do
    match ← Call.read (fun c => c.scoreAt header.height) with
    | none => .crash
    | some score =>
      let scores ← handOut rest
      pure ((header.height, score) :: scores)

end CachedChain

namespace StoredChain

open CachedChain

def new (config : ChainConfig) : StoredChain where
  chain := (CachedChain.new config).setLoaders (fun _ => none) (fun _ => none)
  headers := fun _ => none
  scores := fun _ => none
  accepted := []

def ofRestored (c : CachedChain) (headers : ℕ → Option Header) (scores : ℕ → Option ℕ) :
    StoredChain where
  chain := c.setLoaders headers scores
  headers := headers
  scores := scores
  accepted := []

def store (s : StoredChain) (c : CachedChain) (headers : List Header) (scores : List (ℕ × ℕ)) :
    StoredChain :=
  { s with
    chain := c.setLoaders (record (headers.map (fun x => (x.height, x))) s.headers)
      (record scores s.scores)
    headers := record (headers.map (fun x => (x.height, x))) s.headers
    scores := record scores s.scores }

def storeBranch (s : StoredChain) (c : CachedChain) (branch : List Header) : Option StoredChain :=
  match handOut branch c with
  | some (.ok scores, c') =>
    some { s.store c' branch scores with accepted := branch ++ s.accepted }
  | some (.error _, _) => none
  | none => none

/-- Perform an operation and store what it accepted. The result is `none` when it panics. -/
def step (rules : CachedRules) (s : StoredChain) : ChainOp → Option StoredChain
  | .append now header =>
    match tryAppend rules now header s.chain with
    | none => none
    | some (.ok .extended, c) => s.storeBranch c [header]
    | some (.ok (.forked _), c) => some { s with chain := c }
    | some (.error _, c) => some { s with chain := c }
  | .reorg now alternativeTip continuation =>
    match tryReorg rules now alternativeTip continuation s.chain with
    | none => none
    | some (.ok _, c) => s.storeBranch c [alternativeTip, continuation]
    | some (.error _, c) => some { s with chain := c }
  | .reorgDeep now forkPointHeight newBranch =>
    match tryReorgDeep rules now forkPointHeight newBranch s.chain with
    | none => none
    | some (.ok _, c) => s.storeBranch c newBranch
    | some (.error _, c) => some { s with chain := c }
  | .install suffixHead suffixTail =>
    match installFromNipopowProof rules suffixHead suffixTail s.chain with
    | none => none
    | some (.ok installed, c) =>
      some (s.store c (suffixHead :: suffixTail) (installed.map (fun i => (i.height, i.score))))
    | some (.error _, c) => some { s with chain := c }
  | .setCacheCapacity capacity h => some { s with chain := s.chain.setCacheCapacity capacity h }
  | .headerAt height => some { s with chain := (s.chain.headerAt height).2 }
  | .scoreAt height => some { s with chain := (s.chain.scoreAt height).2 }

def stepRun (rules : CachedRules) (s? : Option StoredChain) (op : ChainOp) : Option StoredChain :=
  s?.bind (fun s => s.step rules op)

def run (rules : CachedRules) (s : StoredChain) (ops : List ChainOp) : Option StoredChain :=
  ops.foldl (stepRun rules) (some s)

def Reorgs (rules : CachedRules) (s : StoredChain) : ChainOp → Prop
  | .reorg now alternativeTip continuation =>
    ∃ id c, tryReorg rules now alternativeTip continuation s.chain = some (.ok id, c)
  | .reorgDeep now forkPointHeight newBranch =>
    ∃ ids c, tryReorgDeep rules now forkPointHeight newBranch s.chain = some (.ok ids, c)
  | .append _ _ => False
  | .install _ _ => False
  | .setCacheCapacity _ _ => False
  | .headerAt _ => False
  | .scoreAt _ => False

/-- What a step can do to a chain whose headers are `hs`, from height `base` on. -/
inductive Transition (rules : CachedRules) (heightOf : BlockId → ℕ) (base : ℕ) (hs : List Header)
    (s : StoredChain) (op : ChainOp) : ℕ → List Header → StoredChain → Prop
  | unchanged {c : CachedChain} {R : Finset ℕ}
      (hcoherent : Coherent heightOf base (hs.map (·.id)) c)
      (huntouched : Untouched s.chain R (fun k => ¬s.chain.Spans k)
        (fun k => ¬s.chain.Spans k ∨ k = s.chain.height ∧ (s.chain.scoreAt k).1 = none) c) :
      Transition rules heightOf base hs s op base hs { s with chain := c }
  | cleared {c : CachedChain} (hempty : hs = []) (hfull : c.lightClientMode = false)
      (hcoherent : Coherent heightOf base [] c) :
      Transition rules heightOf base hs s op base [] { s with chain := c }
  | resized {capacity : ℕ} {h : 0 < capacity} :
      Transition rules heightOf base hs s op base hs
        { s with chain := s.chain.setCacheCapacity capacity h }
  | first {x : Header} {total : ℕ} {c : CachedChain} {s' : StoredChain} (hempty : hs = [])
      (hheight : x.height = 1) (hx : x ∈ op.headers) (hpush : Pushes rules x total s.chain c)
      (hstore : s.storeBranch c [x] = some s') :
      Transition rules heightOf base hs s op 1 [x] s'
  | replaced {kept dropped : List Header} {saved pushed : List (Header × ℕ)} {c₁ c : CachedChain}
      {s' : StoredChain} (hsplit : hs = kept ++ dropped)
      (hdetach : Detaches (· = s.chain.height) base (hs.map (·.id)) (kept.map (·.id)) saved
        s.chain c₁)
      (hgrow : Grows rules (Replaces saved) c₁ pushed c) (hall : pushed.map (·.1) = op.headers)
      (hkind : op.headers.length = 1 ∨ Reorgs rules s op)
      (hstore : s.storeBranch c op.headers = some s') :
      Transition rules heightOf base hs s op base (kept ++ op.headers) s'
  | installed {head : Header} {pushed : List (Header × ℕ)} {c₁ c : CachedChain} (hempty : hs = [])
      (hhead : op.headers = head :: pushed.map (·.1))
      (hgrow : Grows rules.tipOnly Child (s.chain.installHead head) pushed c₁)
      (hread : Consults (fun _ => False) (fun k => k = c₁.height ∧ c₁.Spans k) c₁ c) :
      Transition rules heightOf base hs s op head.height (head :: pushed.map (·.1))
        (s.store c (head :: pushed.map (·.1))
          ((head.height, 0) :: pushed.map (fun e => (e.1.height, e.2))))

section Steps

variable {rules : CachedRules} {heightOf : BlockId → ℕ} {base : ℕ} {hs : List Header}
  {s s' : StoredChain} {op : ChainOp}
variable {c : CachedChain} {xs : List Header}

lemma Transition.of_consults {P Q : ℕ → Prop}
    (hc : Coherent heightOf base (hs.map (·.id)) s.chain) (h : Consults P Q s.chain c)
    (hP : ∀ k, P k → s.chain.Spans k) (hQ : ∀ k, Q k → s.chain.Spans k) :
    Transition rules heightOf base hs s op base hs { s with chain := c } := by
  have hmem : ∀ k, s.chain.Spans k → k ∈ Finset.Icc base (base + hs.length) := by
    intro k hk
    rw [hc.spans_iff, length_map] at hk
    rw [Finset.mem_Icc]
    omega
  exact .unchanged (hc.consults h)
    (((Untouched.refl s.chain _).consults h (fun k hk => hmem k (hP k hk))
      (fun k hk => hmem k (hQ k hk))).mono (fun _ h => h.elim) (fun _ h => h.elim))

lemma exists_kept {kept : List BlockId} {saved : List (Header × ℕ)}
    (h : hs.map (·.id) = kept ++ saved.map (·.1.id)) :
    ∃ keptHeaders dropped, hs = keptHeaders ++ dropped ∧ keptHeaders.map (·.id) = kept := by
  refine ⟨hs.take kept.length, hs.drop kept.length, (take_append_drop _ _).symm, ?_⟩
  rw [map_take, h, take_left]

lemma Transition.of_reorg {lenient : ℕ → Prop} {ok : Bool}
    (hc : Coherent heightOf base (hs.map (·.id)) s.chain)
    (hids : ∀ x ∈ op.headers, heightOf x.id = x.height)
    (hlenient : ∀ k, lenient k → k = s.chain.height)
    (h : Reorg rules lenient heightOf base (hs.map (·.id)) s.chain op.headers ok c)
    (hend : if ok then Reorgs rules s op ∧ s.storeBranch c op.headers = some s'
      else s' = { s with chain := c }) :
    ∃ base' hs', Transition rules heightOf base hs s op base' hs' s' := by
  cases ok with
  | false =>
    obtain rfl : s' = { s with chain := c } := hend
    obtain ⟨hend, huntouched⟩ := h.untouched (R := Finset.Icc base s.chain.height ∪
      (op.headers.map (·.height)).toFinset) hc hids
      (fun k hk => Finset.mem_union_left _ (by
        have hspans := hc.spans_iff.1 hk
        obtain ⟨_, -, -, hle⟩ := hk
        exact Finset.mem_Icc.2 ⟨hspans.1, hle⟩))
      (fun x hx => Finset.mem_union_right _ (mem_toFinset.2 (mem_map_of_mem hx)))
    exact ⟨base, hs, .unchanged hend (huntouched.mono (fun _ h => h)
      (fun k hk => hk.imp id (fun hk => ⟨hlenient k hk.1, hk.2⟩)))⟩
  | true =>
    obtain ⟨hreorgs, hstore⟩ := hend
    cases h with
    | @replaced c₁ _ kept saved pushed hdetach hgrow hall =>
      obtain ⟨keptHeaders, dropped, hsplit, rfl⟩ := exists_kept hdetach.split
      have hdetach' : Detaches (· = s.chain.height) base (hs.map (·.id))
          (keptHeaders.map (·.id)) saved s.chain c₁ := hdetach.mono hlenient
      exact ⟨base, _, .replaced hsplit hdetach' hgrow hall (.inr hreorgs) hstore⟩

lemma Transition.of_install {head : Header} {tail : List Header} {installed : List InstalledHeader}
    (hc : Coherent heightOf base (hs.map (·.id)) s.chain)
    (hids : ∀ x ∈ head :: tail, heightOf x.id = x.height)
    (hcall : installFromNipopowProof rules head tail s.chain = some (.ok installed, c)) :
    Transition rules heightOf base hs s (.install head tail) head.height (head :: tail)
      (s.store c (head :: tail) (installed.map (fun i => (i.height, i.score)))) := by
  rcases installFromNipopowProof_outcome hc hids hcall with ⟨e, hr, -⟩ |
    ⟨hempty, pushed, c₁, -, hgrow, ⟨rfl, hr, hread⟩ | ⟨e, c₂, hr, -, -⟩⟩
  · cases hr
  · cases hr
    have hscores : (installedHeader (head, 0) :: pushed.map installedHeader).map
        (fun i => (i.height, i.score)) =
        (head.height, 0) :: pushed.map (fun e => (e.1.height, e.2)) := by
      rw [map_cons, map_map]
      rfl
    rw [hscores]
    exact .installed (map_eq_nil_iff.1 hempty) rfl hgrow hread
  · cases hr

/-- **Every step is one of these.** -/
theorem transition_of_step (hc : Coherent heightOf base (hs.map (·.id)) s.chain)
    (hids : ∀ x ∈ op.headers, heightOf x.id = x.height) (h : s.step rules op = some s') :
    ∃ base' hs', Transition rules heightOf base hs s op base' hs' s' := by
  cases op with
  | append now header =>
    rw [step] at h
    split at h
    · cases h
    next c hcall =>
      rcases tryAppend_outcome hc hcall with ⟨hr, -⟩ | ⟨-, hempty, hheight, total, hpush⟩ |
        ⟨-, hne, total, hgrow⟩
      · exact absurd rfl hr
      · exact ⟨1, [header], .first (map_eq_nil_iff.1 hempty) hheight mem_cons_self hpush h⟩
      · -- nothing is taken off
        have hdetach : Detaches (· = s.chain.height) base (hs.map (·.id)) (hs.map (·.id)) []
            s.chain s.chain :=
          ⟨by simp, hne, rfl, by simp, s.chain, .refl _, rfl⟩
        have hgrow' : Grows rules (Replaces []) s.chain [(header, total)] c :=
          hgrow.mono (fun _ _ hcheck => ⟨.inl hcheck.1, hcheck.2⟩)
        exact ⟨base, hs ++ [header], .replaced (append_nil hs).symm hdetach hgrow' rfl (.inl rfl) h⟩
    all_goals
      cases h
      rename_i hcall
      rcases tryAppend_outcome hc hcall with ⟨-, hreads⟩ | ⟨hr, -⟩ | ⟨hr, -⟩
      · exact ⟨base, hs, .of_consults hc hreads (fun _ => id) (fun _ h => h.elim)⟩
      · cases hr
      · cases hr
  | reorg now alternativeTip continuation =>
    rw [step] at h
    split at h
    · cases h
    next id c hcall =>
      exact Transition.of_reorg hc hids (fun _ hk => hk) (tryReorg_outcome hc hids hcall)
        ⟨⟨id, c, hcall⟩, h⟩
    next hcall =>
      exact Transition.of_reorg hc hids (fun _ hk => hk) (tryReorg_outcome hc hids hcall)
        (Option.some.inj h).symm
  | reorgDeep now f branch =>
    rw [step] at h
    split at h
    · cases h
    next ids c hcall =>
      exact Transition.of_reorg hc hids (fun _ hk => hk.elim) (tryReorgDeep_outcome hc hids hcall)
        ⟨⟨ids, c, hcall⟩, h⟩
    next hcall =>
      exact Transition.of_reorg hc hids (fun _ hk => hk.elim) (tryReorgDeep_outcome hc hids hcall)
        (Option.some.inj h).symm
  | install head tail =>
    rw [step] at h
    split at h
    · cases h
    next hcall =>
      cases h
      exact ⟨_, _, .of_install hc hids hcall⟩
    next hcall =>
      cases h
      rcases installFromNipopowProof_outcome hc hids hcall with ⟨_, -, rfl⟩ |
        ⟨hempty, pushed, c₁, hin, hgrow, ⟨-, hr, -⟩ | ⟨_, c₂, -, hread, rfl⟩⟩
      · exact ⟨base, hs, .of_consults hc (.refl s.chain) (fun _ => id) (fun _ => id)⟩
      · cases hr
      · rw [hempty] at hc
        have hhead := hc.installHead (hids head mem_cons_self)
        have hgrown := hhead.grows (by simp)
          (fun e he => hids e.1 (mem_cons_of_mem _ (hin e he))) hgrow
        exact ⟨base, [], .cleared (map_eq_nil_iff.1 hempty) rfl
          ((hgrown.consults hread).rollbackInstall base)⟩
  | setCacheCapacity capacity hpos =>
    cases h
    exact ⟨base, hs, .resized⟩
  | headerAt height =>
    cases h
    exact ⟨base, hs, .of_consults hc (consults_headerAt s.chain height) (fun _ h => h.2)
      (fun _ h => h.elim)⟩
  | scoreAt height =>
    cases h
    exact ⟨base, hs, .of_consults hc (consults_scoreAt s.chain height) (fun _ h => h.elim)
      (fun _ h => h.2)⟩

/-! ## The headers of the chain -/

lemma handOut_outcome {c' : CachedChain}
    {r : Except ChainError (List (ℕ × ℕ))} (h : handOut xs c = some (r, c')) :
    Consults (fun _ => False) (fun k => k ∈ xs.map (·.height) ∧ c.Spans k) c c' := by
  induction xs generalizing c r with
  | nil =>
    cases h
    exact .refl _
  | cons x xs ih =>
    rw [handOut, Call.read_bind] at h
    have hread := consults_scoreAt c x.height
    cases hfound : (c.scoreAt x.height).1 with
    | none =>
      rw [hfound] at h
      exact (Call.crash_eq_some.1 h).elim
    | some score =>
      rw [hfound] at h
      have hrest : ∀ {r : Except ChainError (List (ℕ × ℕ))},
          handOut xs (c.scoreAt x.height).2 = some (r, c') →
          Consults (fun _ => False) (fun k => k ∈ (x :: xs).map (·.height) ∧ c.Spans k) c c' := by
        intro r hrest
        refine (hread.mono (fun _ => id) ?_).trans ((ih hrest).mono (fun _ => id) ?_)
        · rintro k ⟨rfl, hspans⟩
          exact ⟨mem_cons_self, hspans⟩
        · rintro k ⟨hk, hspans⟩
          exact ⟨mem_cons_of_mem _ hk, (hread.spans_iff k).1 hspans⟩
      rcases Call.bind_eq_some h with ⟨e, hloop, -⟩ | ⟨scores, c₁, hloop, h⟩
      · exact hrest hloop
      · cases h
        exact hrest hloop

lemma storeBranch_eq_some {branch : List Header} (h : s.storeBranch c branch = some s') :
    ∃ scores c', handOut branch c = some (.ok scores, c') ∧
      s' = { s.store c' branch scores with accepted := branch ++ s.accepted } := by
  unfold storeBranch at h
  split at h
  next scores c' hcall =>
    exact ⟨scores, c', hcall, (Option.some.inj h).symm⟩
  · cases h
  · cases h

/-- The chain has these headers, and everything stored is one of the headers in play. -/
structure Tracked (heightOf : BlockId → ℕ) (S : Set Header) (base : ℕ) (hs : List Header)
    (s : StoredChain) : Prop where
  coherent : Coherent heightOf base (hs.map (·.id)) s.chain
  full : hs = [] → s.chain.lightClientMode = false
  inPlay : ∀ x ∈ hs, x ∈ S
  rows : ∀ k x, s.headers k = some x → x ∈ S

variable {S : Set Header}

lemma correct_put_first {V : Type} (c : LazyCache ℕ V) (k : ℕ) (v : V) :
    (c.put k v).Correct (rowAt k [v]) := by
  obtain ⟨hnew, hold⟩ := rowAt_concat k ([] : List V) v
  exact (LazyCache.Backed.of_none (rowAt_nil k) c).correct.put hnew hold

lemma record_mem {store : ℕ → Option Header} {k : ℕ} {x : Header}
    (h : record (xs.map (fun x => (x.height, x))) store k = some x) : x ∈ xs ∨ store k = some x := by
  rcases Option.or_eq_some_iff.1 h with hlookup | ⟨-, hstore⟩
  · left
    obtain ⟨before, after, hsplit, -⟩ := lookup_eq_some_iff.1 hlookup
    have hmem : (k, x) ∈ xs.map (fun x => (x.height, x)) := by
      rw [hsplit]
      exact mem_append_right _ mem_cons_self
    obtain ⟨y, hy, hrow⟩ := mem_map.1 hmem
    cases hrow
    exact hy
  · exact .inr hstore

variable (hS : ∀ x ∈ S, heightOf x.id = x.height) {check : Header → Header → Prop}

include hS

lemma coherent_setLoaders {ids : List BlockId} {headers : ℕ → Option Header}
    {scores : ℕ → Option ℕ} (hc : Coherent heightOf base ids c) (hrows : ∀ k x, headers k = some x → x ∈ S) :
    Coherent heightOf base ids (c.setLoaders headers scores) where
  __ := hc
  served := by
    rintro k x (hpeek | hload)
    · exact hc.served k x (.inl hpeek)
    · exact hS x (hrows k x hload)

lemma Tracked.of_store {headers hs' accepted : List Header} {scores : List (ℕ × ℕ)} {base' : ℕ}
    (hrows : ∀ k x, s.headers k = some x → x ∈ S) (hheaders : ∀ x ∈ headers, x ∈ S)
    (hc : Coherent heightOf base' (hs'.map (·.id)) c) (hin : ∀ x ∈ hs', x ∈ S) (hne : hs' ≠ []) :
    Tracked heightOf S base' hs' { s.store c headers scores with accepted := accepted } := by
  have hstored : ∀ k x, record (headers.map (fun x => (x.height, x))) s.headers k = some x →
      x ∈ S := fun k x hx => (record_mem hx).elim (hheaders x) (hrows k x)
  exact ⟨coherent_setLoaders hS hc hstored, fun h => absurd h hne, hin, hstored⟩

lemma Tracked.first (h : Tracked heightOf S base [] s) {x : Header} {total : ℕ} (hx : x ∈ S)
    (hheight : x.height = 1) (hpush : Pushes rules x total s.chain c) :
    Coherent heightOf 1 [x.id] c :=
  (h.coherent.rebase 1).pushes hpush hheight (hS x hx)

lemma Tracked.replaced (h : Tracked heightOf S base hs s) {kept : List Header} {saved pushed : List (Header × ℕ)}
    {c₁ : CachedChain}
    (hdetach : Detaches (· = s.chain.height) base (hs.map (·.id)) (kept.map (·.id)) saved s.chain c₁)
    (hgrow : Grows rules check c₁ pushed c) (hpushed : ∀ e ∈ pushed, e.1 ∈ S) :
    Coherent heightOf base ((kept ++ pushed.map (·.1)).map (·.id)) c := by
  have hgrown := (h.coherent.detaches hdetach).grows hdetach.nonempty
    (fun e he => hS e.1 (hpushed e he)) hgrow
  rwa [map_append, map_map]

lemma Tracked.installed (h : Tracked heightOf S base [] s) {head : Header} {pushed : List (Header × ℕ)}
    (hhead : head ∈ S)
    (hgrow : Grows rules check (s.chain.installHead head) pushed c)
    (hpushed : ∀ e ∈ pushed, e.1 ∈ S) :
    Coherent heightOf head.height ((head :: pushed.map (·.1)).map (·.id)) c := by
  have hgrown := (h.coherent.installHead (hS head hhead)).grows (by simp)
    (fun e he => hS e.1 (hpushed e he)) hgrow
  rwa [map_cons, map_map]

lemma Tracked.installHead (h : Tracked heightOf S base [] s) {head : Header}
    {pushed : List (Header × ℕ)} (hop : ∀ x ∈ op.headers, x ∈ S)
    (hhead : op.headers = head :: pushed.map (·.1)) :
    head ∈ S ∧ (∀ e ∈ pushed, e.1 ∈ S) ∧
      Coherent heightOf head.height ([head].map (·.id)) (s.chain.installHead head) ∧
      (s.chain.installHead head).height = head.height := by
  have hheadS : head ∈ S := hop head (hhead ▸ mem_cons_self)
  have hcoherent := h.coherent.installHead (hS head hheadS)
  refine ⟨hheadS, ?_, hcoherent, ?_⟩
  · exact fun e he => hop e.1 (hhead ▸ mem_cons_of_mem _ (mem_map_of_mem he))
  · rw [hcoherent.height_eq (cons_ne_nil _ _)]
    rfl

lemma Tracked.transition (h : Tracked heightOf S base hs s) (hop : ∀ x ∈ op.headers, x ∈ S) {base' : ℕ}
    {hs' : List Header} (ht : Transition rules heightOf base hs s op base' hs' s') :
    Tracked heightOf S base' hs' s' := by
  cases ht with
  | unchanged hcoherent huntouched =>
    exact ⟨hcoherent, fun hempty => huntouched.light.trans (h.full hempty), h.inPlay, h.rows⟩
  | cleared hempty hfull hcoherent => exact ⟨hcoherent, fun _ => hfull, by simp, h.rows⟩
  | resized =>
    refine ⟨⟨h.coherent.baseHeight_eq, h.coherent.filed, h.coherent.heights, ?_⟩, h.full, h.inPlay,
      h.rows⟩
    rintro k x (hpeek | hload)
    · exact h.coherent.served k x (.inl (LruCache.peek_of_peek_resize hpeek))
    · exact h.coherent.served k x (.inr hload)
  | @first x total c _ hempty hheight hx hpush hstore =>
    subst hempty
    obtain ⟨scores, c', hcall, rfl⟩ := storeBranch_eq_some hstore
    have hcoherent := (h.first hS (hop x hx) hheight hpush).consults (handOut_outcome hcall)
    have hin : ∀ y ∈ [x], y ∈ S := fun y hy => mem_singleton.1 hy ▸ hop x hx
    exact .of_store hS h.rows hin hcoherent hin (by simp)
  | @replaced kept dropped saved pushed c₁ c _ hsplit hdetach hgrow hall hkind hstore =>
    obtain ⟨scores, c', hcall, rfl⟩ := storeBranch_eq_some hstore
    have hpushed : ∀ e ∈ pushed, e.1 ∈ S := by
      intro e he
      apply hop
      rw [← hall]
      exact mem_map_of_mem he
    have hcoherent := (h.replaced hS hdetach hgrow hpushed).consults (handOut_outcome hcall)
    rw [hall] at hcoherent
    refine .of_store hS h.rows hop hcoherent ?_ ?_
    · intro x hx
      rcases mem_append.1 hx with hx | hx
      · exact h.inPlay x (hsplit ▸ mem_append_left _ hx)
      · exact hop x hx
    · intro hnil
      have hkept : kept = [] := (append_eq_nil_iff.1 hnil).1
      exact hdetach.nonempty (by rw [hkept, map_nil])
  | @installed head pushed c₁ c hempty hhead hgrow hread =>
    subst hempty
    have hin : ∀ x ∈ head :: pushed.map (·.1), x ∈ S := fun x hx => hop x (hhead ▸ hx)
    have hpushed : ∀ e ∈ pushed, e.1 ∈ S :=
      fun e he => hin e.1 (mem_cons_of_mem _ (mem_map_of_mem he))
    have hcoherent := (h.installed hS (hin head mem_cons_self) hgrow hpushed).consults hread
    exact (Tracked.of_store hS h.rows hin hcoherent hin (by simp) : Tracked heightOf S _ _
      { s.store c (head :: pushed.map (·.1)) _ with accepted := s.accepted })

lemma exists_of_run {I : ℕ → List Header → StoredChain → Prop} {cond : StoredChain → ChainOp → Prop}
    {start : StoredChain} {ops : List ChainOp}
    (hcoherent : ∀ base hs s, I base hs s → Coherent heightOf base (hs.map (·.id)) s.chain)
    (hstep : ∀ base hs s op base' hs' s', I base hs s → (∀ x ∈ op.headers, x ∈ S) → cond s op →
      Transition rules heightOf base hs s op base' hs' s' → I base' hs' s')
    (hstart : ∃ base hs, I base hs start) (hops : ∀ op ∈ ops, ∀ x ∈ op.headers, x ∈ S)
    (hmeets : MeetsAll (stepRun rules) (fun s? op => ∀ s ∈ s?, cond s op) (some start) ops)
    (hrun : run rules start ops = some s) : ∃ base hs, I base hs s := by
  have hend : ∀ s ∈ run rules start ops, ∃ base hs, I base hs s := by
    apply hmeets.invariant_of_mem (I := fun op => ∀ x ∈ op.headers, x ∈ S)
      (P := fun s? => ∀ s ∈ s?, ∃ base hs, I base hs s)
    · intro s? op hop hs? hcond s' hs'
      obtain ⟨s, rfl, h⟩ := Option.bind_eq_some_iff.1 hs'
      obtain ⟨base, hs, hI⟩ := hs? s rfl
      obtain ⟨base', hs', ht⟩ :=
        transition_of_step (hcoherent base hs s hI) (fun x hx => hS x (hop x hx)) h
      exact ⟨base', hs', hstep base hs s op base' hs' s' hI hop (hcond s rfl) ht⟩
    · exact hops
    · rintro s ⟨⟩
      exact hstart
  exact hend s hrun

end Steps

end StoredChain

end ErgoNode
