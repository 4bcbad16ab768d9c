import ErgoNode.Chain.CumulativeScores

/-!
# Lookups while the store is behind

The chain changes before the store does, so a loader may miss a row or return that of a branch that
was left. The cache keeps what the loader returns, and only then is a header compared with the id
index. So a header of another branch is never returned, but while it stays in the cache the height
reads as absent. A score is not compared with anything.
-/

namespace ErgoNode

open List Call

namespace CachedChain

variable {S : Set Header} {rules : CachedRules} {now : ℕ} {c c' : CachedChain}
  {branch : List Header} {header : Header}

/-! ## Where headers come from -/

def ServesOnly (S : Set Header) (c : CachedChain) : Prop :=
  ∀ k x, c.lazy.headers.Serves k x → x ∈ S

lemma ServesOnly.consults {P Q : ℕ → Prop} (h : ServesOnly S c) (hreads : Consults P Q c c') :
    ServesOnly S c' :=
  fun k x hx => h k x (hreads.headers.serves hx)

lemma ServesOnly.headerAt (h : ServesOnly S c) {k : ℕ} {x : Header}
    (hx : (c.headerAt k).1 = some x) : x ∈ S :=
  h k x (LazyCache.serves_of_view (headerAt_fst_eq_some.1 hx).2.1)

lemma ServesOnly.put (h : ServesOnly S c) {k : ℕ} {x : Header} (hx : x ∈ S) {k' : ℕ} {x' : Header}
    (hserves : (c.lazy.headers.put k x).Serves k' x') : x' ∈ S := by
  rcases LazyCache.serves_put hserves with ⟨-, rfl⟩ | hold
  · exact hx
  · exact h k' x' hold

lemma keeps_headerAt (height : CachedChain → ℕ) :
    Call.Keeps (ServesOnly S) (fun x? => ∀ x ∈ x?, x ∈ S)
      (Call.read (fun c => c.headerAt (height c)) : ChainCall (Option Header)) :=
  keeps_read fun c hc => ⟨hc.consults (consults_headerAt c _), fun _ hx => hc.headerAt hx⟩

lemma keeps_scoreAt (height : CachedChain → ℕ) :
    Call.Keeps (ServesOnly S) (fun _ => True)
      (Call.read (fun c => c.scoreAt (height c)) : ChainCall (Option ℕ)) :=
  keeps_read fun c hc => ⟨hc.consults (consults_scoreAt c _), trivial⟩

lemma keeps_tip : Call.Keeps (ServesOnly S) (· ∈ S) tip := by
  refine keeps_bind (keeps_headerAt _) fun x? hx => ?_
  cases x? with
  | none => exact keeps_crash
  | some x => exact keeps_pure (hx x rfl)

lemma keeps_validateChild (header : Header) :
    Call.Keeps (ServesOnly S) (fun _ => True) (validateChild rules now header) := by
  intro c r c' hc h
  obtain ⟨tip, -, hreads, -⟩ := validateChild_outcome h
  exact ⟨hc.consults hreads, fun _ _ => trivial⟩

lemma keeps_validateReorgHeader (header : Header) :
    Call.Keeps (ServesOnly S) (fun _ => True) (validateReorgHeader rules now header) := by
  intro c r c' hc h
  obtain ⟨tip, -, hreads, -⟩ := validateReorgHeader_outcome h
  exact ⟨hc.consults hreads, fun _ _ => trivial⟩

lemma keeps_pushHeader (hx : header ∈ S) :
    Call.Keeps (ServesOnly S) (fun _ => True) (pushHeader rules header) := by
  refine keeps_bind (Q := fun _ => True) ?_ fun score _ =>
    keeps_modify fun c hc k x => hc.put hx
  refine keeps_bind keeps_state fun c _ => ?_
  cases c.baseHeight with
  | none => exact keeps_pure trivial
  | some b =>
    refine keeps_bind (keeps_scoreAt fun _ => header.height - 1) fun score? _ => ?_
    cases score? with
    | none => exact keeps_crash
    | some score => exact keeps_pure trivial

lemma keeps_popHeader :
    Call.Keeps (ServesOnly S) (fun popped => ∀ e ∈ popped, e.1 ∈ S) popHeader := by
  refine keeps_bind keeps_state fun c _ => ?_
  split
  · exact keeps_pure (by simp)
  refine keeps_bind (keeps_headerAt _) fun x? hx => ?_
  cases x? with
  | none => exact keeps_crash
  | some x =>
    refine keeps_bind (keeps_scoreAt height) fun score _ => ?_
    refine keeps_bind (keeps_modify fun c hc k y hy =>
      hc k y (LazyCache.serves_evict hy)) fun _ _ => ?_
    exact keeps_pure fun e he => Option.some.inj he ▸ hx x rfl

/-! ## Operations -/

lemma keeps_tryAppend (hx : header ∈ S) :
    Call.Keeps (ServesOnly S) (fun _ => True) (tryAppend rules now header) := by
  refine keeps_bind keeps_state fun c _ => ?_
  have hpush : Keeps (ServesOnly S) (fun _ => True)
      (do pushHeader rules header; pure AppendResult.extended : ChainCall AppendResult) :=
    keeps_bind (keeps_pushHeader hx) fun _ _ => keeps_pure trivial
  split
  · exact keeps_bind (keeps_ofExcept _) fun _ _ => hpush
  refine keeps_bind keeps_tip fun tip _ => ?_
  split
  · exact keeps_bind (keeps_validateChild header) fun _ _ => hpush
  split
  · exact keeps_bind (keeps_ofExcept _) fun _ _ => keeps_pure trivial
  · exact keeps_throw _

lemma keeps_restoreTip {oldTip : Header} (hold : oldTip ∈ S) (oldScore : ℕ) (e : ChainError) :
    Call.Keeps (ServesOnly S) (fun _ => True)
      (do Call.modify (fun c => c.addHeader oldTip oldScore); Call.throw e : ChainCall BlockId) :=
  keeps_bind (keeps_modify fun _ hc _ _ => hc.put hold) fun _ _ => keeps_throw e

lemma keeps_tryReorg {alternativeTip continuation : Header} (halt : alternativeTip ∈ S)
    (hcont : continuation ∈ S) :
    Call.Keeps (ServesOnly S) (fun _ => True) (tryReorg rules now alternativeTip continuation) := by
  refine keeps_bind keeps_state fun c _ => ?_
  refine keeps_bind (keeps_ofExcept _) fun _ _ => ?_
  refine keeps_bind keeps_tip fun tip _ => ?_
  iterate 4 refine keeps_bind (keeps_ofExcept _) fun _ _ => ?_
  refine keeps_bind keeps_popHeader fun popped hpopped => ?_
  split
  · exact keeps_crash
  rename_i oldTip oldScore
  have hold : oldTip ∈ S := hpopped _ rfl
  refine keeps_bind (keeps_attempt (keeps_validateReorgHeader _)) fun checked _ => ?_
  split
  · exact keeps_restoreTip hold _ _
  refine keeps_bind (keeps_pushHeader halt) fun _ _ => ?_
  refine keeps_bind (keeps_attempt (keeps_validateReorgHeader _)) fun checked _ => ?_
  split
  · refine keeps_bind keeps_popHeader fun popped _ => ?_
    split
    · exact keeps_crash
    · exact keeps_restoreTip hold _ _
  · exact keeps_bind (keeps_pushHeader hcont) fun _ _ => keeps_pure trivial

lemma keeps_saveHeights (hs : List ℕ) :
    Call.Keeps (ServesOnly S) (fun saved => ∀ e ∈ saved, e.1 ∈ S) (saveHeights hs) := by
  induction hs with
  | nil => exact keeps_pure (by simp)
  | cons h hs ih =>
    refine keeps_bind (keeps_headerAt fun _ => h) fun x? hx => ?_
    cases x? with
    | none => exact keeps_throw _
    | some x =>
      refine keeps_bind (keeps_scoreAt fun _ => h) fun score? _ => ?_
      cases score? with
      | none => exact keeps_throw _
      | some score =>
        refine keeps_bind ih fun rest hrest => keeps_pure ?_
        exact forall_mem_cons.2 ⟨hx x rfl, hrest⟩

lemma keeps_appendBranch (f : ℕ) (hbranch : ∀ x ∈ branch, x ∈ S) (i : ℕ) :
    Call.Keeps (ServesOnly S) (fun _ => True) (appendBranch rules now f i branch) := by
  induction branch generalizing i with
  | nil => exact keeps_pure trivial
  | cons x rest ih =>
    have hlinks : Keeps (ServesOnly S) (fun _ => True) (linksToTip i x) := by
      unfold linksToTip
      split
      · exact keeps_pure trivial
      · exact keeps_bind keeps_tip fun _ _ => keeps_pure trivial
    refine keeps_bind hlinks fun links _ => ?_
    split
    · exact keeps_pure trivial
    split
    · exact keeps_pure trivial
    refine keeps_bind (keeps_attempt (keeps_validateReorgHeader _)) fun checked _ => ?_
    split
    · exact keeps_pure trivial
    · exact keeps_bind (keeps_pushHeader (hbranch x mem_cons_self)) fun _ _ =>
        ih (forall_mem_cons.1 hbranch).2 (i + 1)

lemma keeps_popTo (f fuel : ℕ) : Call.Keeps (ServesOnly S) (fun _ => True) (popTo f fuel) := by
  induction fuel with
  | zero => exact keeps_pure trivial
  | succ fuel ih =>
    refine keeps_bind keeps_state fun c _ => ?_
    split
    · exact keeps_pure trivial
    · exact keeps_bind keeps_popHeader fun _ _ => ih

lemma ServesOnly.dropSaved (h : ServesOnly S c) (saved : List (Header × ℕ)) :
    ServesOnly S (c.dropSaved saved) := by
  induction saved generalizing c with
  | nil => exact h
  | cons e saved ih => exact ih fun k x hx => h k x (LazyCache.serves_evict hx)

lemma ServesOnly.putSaved (h : ServesOnly S c) {saved : List (Header × ℕ)}
    (hsaved : ∀ e ∈ saved, e.1 ∈ S) : ServesOnly S (c.putSaved saved) := by
  induction saved generalizing c with
  | nil => exact h
  | cons e saved ih =>
    exact ih (fun _ _ => h.put (hsaved e mem_cons_self))
      fun e' he' => hsaved e' (mem_cons_of_mem _ he')

lemma keeps_tryReorgDeep (f : ℕ) (hbranch : ∀ x ∈ branch, x ∈ S) :
    Call.Keeps (ServesOnly S) (fun _ => True) (tryReorgDeep rules now f branch) := by
  unfold tryReorgDeep
  split
  · exact keeps_throw _
  refine keeps_bind keeps_state fun c _ => ?_
  iterate 3 refine keeps_bind (keeps_ofExcept _) fun _ _ => ?_
  refine keeps_bind (keeps_headerAt fun _ => f) fun x? _ => ?_
  split
  · exact keeps_throw _
  refine keeps_bind (keeps_ofExcept _) fun _ _ => ?_
  refine keeps_bind (keeps_saveHeights _) fun saved hsaved => ?_
  refine keeps_bind (keeps_modify fun c hc => hc.dropSaved saved) fun _ _ => ?_
  refine keeps_bind (keeps_appendBranch f hbranch 0) fun stopped _ => ?_
  split
  · exact keeps_pure trivial
  refine keeps_bind keeps_state fun pushed _ => ?_
  refine keeps_bind (keeps_popTo f _) fun _ _ => ?_
  exact keeps_bind (keeps_modify fun c hc => hc.putSaved hsaved) fun _ _ =>
    keeps_throw _

lemma keeps_installFromNipopowProof {head : Header} {tail : List Header} (hhead : head ∈ S)
    (htail : ∀ x ∈ tail, x ∈ S) :
    Call.Keeps (ServesOnly S) (fun _ => True) (installFromNipopowProof rules head tail) := by
  have hfail : ∀ e, Keeps (ServesOnly S) (fun _ => True) (failInstall e) := fun e =>
    keeps_bind (keeps_modify fun c hc k x hx =>
      hc k x (hx.imp nofun id)) fun _ _ => keeps_throw e
  have hrest : Keeps (ServesOnly S) (fun _ => True) (installTail rules tail) := by
    induction tail with
    | nil => exact keeps_pure trivial
    | cons x rest ih =>
      refine keeps_bind keeps_tip fun tip _ => ?_
      split
      · exact hfail _
      split
      · exact hfail _
      split
      · exact hfail _
      refine keeps_bind (keeps_pushHeader (htail x mem_cons_self)) fun _ _ => ?_
      refine keeps_bind (keeps_scoreAt fun _ => x.height) fun score? _ => ?_
      split
      · exact keeps_crash
      · exact keeps_bind (ih fun y hy => htail y (mem_cons_of_mem _ hy)) fun _ _ =>
          keeps_pure trivial
  refine keeps_bind keeps_state fun c _ => ?_
  iterate 2 refine keeps_bind (keeps_ofExcept _) fun _ _ => ?_
  refine keeps_bind (keeps_modify fun c hc _ _ => hc.put hhead) fun _ _ => ?_
  exact keeps_bind hrest fun _ _ => keeps_pure trivial

end CachedChain

namespace StoredChain

open CachedChain

variable {S : Set Header} {rules : CachedRules} {s s' : StoredChain}

lemma servesOnly_store {c : CachedChain} (h : ServesOnly S c)
    (hrows : ∀ k x, s.headers k = some x → x ∈ S) {headers : List Header}
    (hheaders : ∀ x ∈ headers, x ∈ S) (scores : List (ℕ × ℕ)) :
    ServesOnly S (s.store c headers scores).chain := by
  rintro k x (hpeek | hload)
  · exact h k x (.inl hpeek)
  · exact (record_mem hload).elim (hheaders x) (hrows k x)

lemma servesOnly_step (h : ServesOnly S s.chain) (hrows : ∀ k x, s.headers k = some x → x ∈ S)
    {op : ChainOp} (hop : ∀ x ∈ op.headers, x ∈ S) (hstep : s.step rules op = some s') :
    ServesOnly S s'.chain := by
  have hbranch : ∀ {c : CachedChain} {branch : List Header}, ServesOnly S c →
      (∀ x ∈ branch, x ∈ S) → s.storeBranch c branch = some s' → ServesOnly S s'.chain := by
    intro c branch hc hin hstore
    obtain ⟨scores, c', hcall, rfl⟩ := storeBranch_eq_some hstore
    exact servesOnly_store (hc.consults (handOut_outcome hcall)) hrows hin scores
  cases op with
  | append now header =>
    have hkeeps : Keeps (ServesOnly S) (fun _ => True) (tryAppend rules now header) :=
      keeps_tryAppend (hop header mem_cons_self)
    simp only [step] at hstep
    split at hstep
    · cases hstep
    · exact hbranch (hkeeps _ _ _ h ‹_›).1 hop hstep
    all_goals
      cases hstep
      exact (hkeeps _ _ _ h ‹_›).1
  | reorg now alternativeTip continuation =>
    have hkeeps : Keeps (ServesOnly S) (fun _ => True)
        (tryReorg rules now alternativeTip continuation) :=
      keeps_tryReorg (hop _ mem_cons_self) (hop _ (mem_cons_of_mem _ mem_cons_self))
    simp only [step] at hstep
    split at hstep
    · cases hstep
    · exact hbranch (hkeeps _ _ _ h ‹_›).1 hop hstep
    · cases hstep
      exact (hkeeps _ _ _ h ‹_›).1
  | reorgDeep now f branch =>
    have hkeeps : Keeps (ServesOnly S) (fun _ => True) (tryReorgDeep rules now f branch) :=
      keeps_tryReorgDeep f hop
    simp only [step] at hstep
    split at hstep
    · cases hstep
    · exact hbranch (hkeeps _ _ _ h ‹_›).1 hop hstep
    · cases hstep
      exact (hkeeps _ _ _ h ‹_›).1
  | install head tail =>
    obtain ⟨hhead, htail⟩ := forall_mem_cons.1 hop
    have hkeeps : Keeps (ServesOnly S) (fun _ => True)
        (installFromNipopowProof rules head tail) := keeps_installFromNipopowProof hhead htail
    simp only [step] at hstep
    split at hstep
    · cases hstep
    · cases hstep
      exact servesOnly_store (hkeeps _ _ _ h ‹_›).1 hrows hop _
    · cases hstep
      exact (hkeeps _ _ _ h ‹_›).1
  | setCacheCapacity capacity hpos =>
    cases hstep
    exact fun k x hx => h k x (hx.imp_left LruCache.peek_of_peek_resize)
  | headerAt height =>
    cases hstep
    exact h.consults (consults_headerAt s.chain height)
  | scoreAt height =>
    cases hstep
    exact h.consults (consults_scoreAt s.chain height)

/-! ## Runs with loaders that lag -/

/-- The chain has accepted the headers `hs` from height `base` on, while loaders were replaced by
any others. -/
inductive Lags (rules : CachedRules) (headerOf : BlockId → Header) (S : Set Header) :
    ℕ → List Header → StoredChain → Prop
  | new (config : ChainConfig) (base : ℕ) : Lags rules headerOf S base [] (.new config)
  | step {base base' : ℕ} {hs hs' : List Header} {s s' : StoredChain} {op : ChainOp}
      (h : Lags rules headerOf S base hs s) (hop : ∀ x ∈ op.headers, x ∈ S)
      (hstep : s.step rules op = some s')
      (ht : Transition rules (fun id => (headerOf id).height) base hs s op base' hs' s') :
      Lags rules headerOf S base' hs' s'
  | loaders {base : ℕ} {hs : List Header} {s : StoredChain} {headers : ℕ → Option Header}
      {scores : ℕ → Option ℕ} (h : Lags rules headerOf S base hs s)
      (hrows : ∀ k x, headers k = some x → x ∈ S) :
      Lags rules headerOf S base hs { s with chain := s.chain.setLoaders headers scores }

variable {headerOf : BlockId → Header} {base : ℕ} {hs : List Header}

lemma Lags.tracked (hS : ∀ x ∈ S, headerOf x.id = x) (h : Lags rules headerOf S base hs s) :
    Tracked (fun id => (headerOf id).height) S base hs s ∧ ServesOnly S s.chain := by
  have hheights : ∀ x ∈ S, (headerOf x.id).height = x.height := fun x hx => by rw [hS x hx]
  induction h with
  | new config base =>
    refine ⟨⟨coherent_setLoaders hheights (coherent_new _ base config) (by simp), fun _ => rfl,
      by simp, fun k x hx => by cases hx⟩, ?_⟩
    rintro k x (hpeek | hload)
    · cases hpeek
    · cases hload
  | step h hop hstep ht ih =>
    exact ⟨ih.1.transition hheights hop ht, servesOnly_step ih.2 ih.1.rows hop hstep⟩
  | loaders h hrows ih =>
    refine ⟨⟨coherent_setLoaders hheights ih.1.coherent hrows, ih.1.full, ih.1.inPlay, ih.1.rows⟩,
      ?_⟩
    rintro k x (hpeek | hload)
    · exact ih.2 k x (.inl hpeek)
    · exact hrows k x hload

def twoBranches : List Header :=
  [HeaderChain.plainHeader 1 0 1, HeaderChain.plainHeader 2 1 2, HeaderChain.plainHeader 12 1 2,
    HeaderChain.plainHeader 13 12 3]

def loaderOf (ids : List BlockId) (k : ℕ) : Option Header :=
  twoBranches.find? (fun x => x.height = k ∧ x.id ∈ ids)

/-- Headers 12 and 13 replace 2, and the cache shrinks to one header. The store still has 2 at
first. -/
def lagged : Option StoredChain := do
  let s ← run plainCachedRules (.new .testnet)
    [.install (HeaderChain.plainHeader 1 0 1) [HeaderChain.plainHeader 2 1 2],
      .reorgDeep 100000 1 [HeaderChain.plainHeader 12 1 2, HeaderChain.plainHeader 13 12 3],
      .setCacheCapacity 1 Nat.zero_lt_one]
  let s ← { s with chain := s.chain.setLoaders (loaderOf [1, 2]) s.scores }.step plainCachedRules
    (.headerAt 2)
  pure { s with chain := s.chain.setLoaders (loaderOf [1, 12, 13]) s.scores }

def branchHeader (id : BlockId) : Header :=
  (twoBranches.find? (fun x => x.id = id)).getD (HeaderChain.plainHeader 1 0 1)

end StoredChain

end ErgoNode
