import ErgoNode.Chain.CachedCalls
import ErgoNode.Chain.ReorgAsAppend

/-!
# Failed calls leave no trace

What can be observed of the chain after a reorg or an installation that failed is what could be
observed before, except that a value that was only cached may have been displaced. A height keeps
its header and its score if nothing is cached for it, if the loader has the cached value, or if the
caches have room for every height that the call touches.
-/

namespace ErgoNode

open List

namespace CachedChain

variable {rules : CachedRules} {now : ℕ} {c₀ c c' : CachedChain} {e : Header × ℕ}
  {saved : List (Header × ℕ)}

/-! ## Caches after reads -/

/-- The caches come from those of `c₀` by reads of heights in `R`, apart from headers in `D` and
scores in `E`. -/
structure Untouched (c₀ : CachedChain) (R : Finset ℕ) (D E : ℕ → Prop) (c : CachedChain) :
    Prop where
  light : c.lightClientMode = c₀.lightClientMode
  headers : c₀.lazy.headers.Undisturbed R D c.lazy.headers
  scores : c₀.lazy.scores.Undisturbed R E c.lazy.scores

namespace Untouched

variable {R : Finset ℕ} {D E D' E' : ℕ → Prop}

lemma refl (c : CachedChain) (R : Finset ℕ) : Untouched c R (fun _ => False) (fun _ => False) c :=
  ⟨rfl, .refl _ _, .refl _ _⟩

lemma mono (h : Untouched c₀ R D E c) (hD : ∀ k, D k → D' k) (hE : ∀ k, E k → E' k) :
    Untouched c₀ R D' E' c := ⟨h.light, h.headers.mono hD, h.scores.mono hE⟩

lemma consults {P Q : ℕ → Prop} (h : Untouched c₀ R D E c) (hreads : Consults P Q c c')
    (hP : ∀ k, P k → k ∈ R) (hQ : ∀ k, Q k → k ∈ R) : Untouched c₀ R D E c' where
  light := hreads.lightClientMode_eq.trans h.light
  headers := h.headers.reads hreads.headers (fun _ => hP)
  scores := h.scores.reads hreads.scores (fun _ => hQ)

lemma consults_spans (h : Untouched c₀ R D E c) (hreads : Consults c.Spans c.Spans c c')
    (hR : ∀ k, c.Spans k → k ∈ R) : Untouched c₀ R D E c' :=
  h.consults hreads hR hR

lemma pushes {x : Header} {total : ℕ} (h : Untouched c₀ R D E c)
    (hpush : Pushes rules x total c c') (hR : ∀ k, c.Spans k → k ∈ R) (hx : x.height ∈ R)
    (hD : D x.height) (hE : E x.height) : Untouched c₀ R D E c' := by
  obtain ⟨score, c₁, hread, -, rfl⟩ := hpush.exists_score
  have hread : Untouched c₀ R D E c₁ := by
    rcases hread with ⟨-, -, rfl⟩ | ⟨-, rfl⟩
    · exact h
    · exact h.consults (consults_scoreAt _ _) (fun _ h => h.elim) (fun k hk => hR k hk.2)
  exact ⟨hread.light, hread.headers.put (fun _ => hx) (absurd hD) (fun _ _ h => h),
    hread.scores.put (fun _ => hx) (absurd hE) (fun _ _ h => h)⟩

lemma pops {popped : Header × ℕ} (h : Untouched c₀ R D E c) (hpop : Pops c popped c')
    (hR : ∀ k, c.Spans k → k ∈ R) (hD : D c.height) (hE : E c.height) :
    Untouched c₀ R D E c' := by
  have hread := h.consults (consults_tipRead c) (fun k hk => hR k hk.2) (fun k hk => hR k hk.2)
  rw [hpop.chain]
  exact ⟨hread.light, hread.headers.evict hD (fun _ h => h), hread.scores.evict hE (fun _ h => h)⟩

section Loops

variable {heightOf : BlockId → ℕ} {base : ℕ} {ids : List BlockId}

lemma grows {check : Header → Header → Prop} {xs : List (Header × ℕ)}
    (hgrow : Grows rules check c xs c') (h : Untouched c₀ R D E c)
    (hc : Coherent heightOf base ids c) (hne : ids ≠ [])
    (hids : ∀ e ∈ xs, heightOf e.1.id = e.1.height) (hR : ∀ k, c.Spans k → k ∈ R)
    (hxs : ∀ e ∈ xs, e.1.height ∈ R) (hD : ∀ k, c.height < k → D k) (hE : ∀ k, c.height < k → E k) :
    Untouched c₀ R D E c' ∧ ∀ k, c'.Spans k → k ∈ R := by
  induction hgrow generalizing ids with
  | nil => exact ⟨h, hR⟩
  | @cons c c₁ c₂ c' tip e rest htip hread hheight hcheck hpush hrest ih =>
    have hpos := length_pos_iff.2 hne
    have hnext : e.1.height = base + ids.length := by
      rw [hheight, hc.height_eq hne]
      omega
    have hpushed := (hc.consults hread).pushes hpush hnext (hids e mem_cons_self)
    have hread₁ := h.consults hread (fun k hk => hR k hk.1) (fun k hk => hR k hk.2)
    have hR₁ : ∀ k, c₁.Spans k → k ∈ R := fun k hk => hR k ((hread.spans_iff k).1 hk)
    have hR₂ : ∀ k, c₂.Spans k → k ∈ R := by
      intro k hk
      by_cases htop : k = e.1.height
      · rw [htop]
        exact hxs e mem_cons_self
      · rw [hpushed.spans_iff, length_append, length_singleton] at hk
        exact hR k (hc.spans_iff.2 (by omega))
    have hlonger : c.height < c₂.height := by
      rw [hc.height_eq hne, hpushed.height_eq (by simp), length_append, length_singleton]
      omega
    refine ih (hread₁.pushes hpush hR₁ (hxs e mem_cons_self) (hD _ (by omega))
      (hE _ (by omega))) hpushed (by simp) ?_ hR₂ ?_ ?_ ?_
    · exact fun y hy => hids y (mem_cons_of_mem _ hy)
    · exact fun y hy => hxs y (mem_cons_of_mem _ hy)
    · exact fun k hk => hD k (by omega)
    · exact fun k hk => hE k (by omega)

lemma shrinks {f : ℕ} (hshrink : Shrinks f c c') (h : Untouched c₀ R D E c)
    (hc : Coherent heightOf base ids c) (hR : ∀ k, c.Spans k → k ∈ R) (hD : ∀ k, f < k → D k)
    (hE : ∀ k, f < k → E k) : Untouched c₀ R D E c' := by
  induction hshrink generalizing ids with
  | refl => exact h
  | @pop c c₁ c' popped habove hpop hrest ih =>
    obtain ⟨-, hshorter⟩ := hc.pops hpop
    refine ih (h.pops hpop hR (hD _ habove) (hE _ habove)) hshorter (fun k hk => hR k ?_)
    rw [hshorter.spans_iff, length_dropLast] at hk
    exact hc.spans_iff.2 (by omega)

end Loops

lemma dropSaved (h : Untouched c₀ R D E c)
    (hD : ∀ e ∈ saved, D e.1.height) (hE : ∀ e ∈ saved, E e.1.height) :
    Untouched c₀ R D E (c.dropSaved saved) := by
  induction saved generalizing c with
  | nil => exact h
  | cons e saved ih =>
    apply ih
    · exact ⟨h.light, h.headers.evict (hD e mem_cons_self) (fun _ h => h),
        h.scores.evict (hE e mem_cons_self) (fun _ h => h)⟩
    · exact fun y hy => hD y (mem_cons_of_mem _ hy)
    · exact fun y hy => hE y (mem_cons_of_mem _ hy)

/-- Putting back what `c₀` showed, from the lowest disregarded height on. Scores at heights in `L`
stay disregarded. -/
theorem putSaved {n : ℕ} {L : ℕ → Prop} (h : Untouched c₀ R (n ≤ ·) (fun k => n ≤ k ∨ L k) c)
    (hheights : saved.map (·.1.height) = List.range' n saved.length)
    (hR : ∀ e ∈ saved, e.1.height ∈ R)
    (hheader : ∀ e ∈ saved, c₀.lazy.headers.Shown R e.1.height e.1)
    (hscore : ∀ e ∈ saved, ¬L e.1.height → c₀.lazy.scores.Shown R e.1.height e.2) :
    Untouched c₀ R (n + saved.length ≤ ·) (fun k => n + saved.length ≤ k ∨ L k)
      (c.putSaved saved) := by
  induction saved generalizing c n with
  | nil => exact h
  | cons e saved ih =>
    rw [map_cons, length_cons, range'_succ, cons.injEq] at hheights
    obtain ⟨hheight, hheights⟩ := hheights
    have hmem := mem_cons_self (a := e) (l := saved)
    have hput : Untouched c₀ R (n + 1 ≤ ·) (fun k => n + 1 ≤ k ∨ L k)
        { c with
          byId := c.byId.insert e.1.id e.1.height
          lazy := c.lazy.put e.1.height e.1 e.2 } := by
      refine ⟨h.light, h.headers.put (fun _ => hR e hmem) (fun _ => hheader e hmem) ?_,
        h.scores.put (fun _ => hR e hmem) (fun hk => hscore e hmem (fun hl => hk (.inr hl))) ?_⟩
      · intro k hk hn
        omega
      · rintro k hk (hn | hl)
        · exact .inl (by omega)
        · exact .inr hl
    have hall := ih hput hheights (forall_mem_cons.1 hR).2
      (forall_mem_cons.1 hheader).2
      (forall_mem_cons.1 hscore).2
    rwa [length_cons, Nat.add_comm saved.length 1, ← Nat.add_assoc]

end Untouched

/-! ## A reorg that fails -/

section Reorg

variable {heightOf : BlockId → ℕ} {base : ℕ} {ids : List BlockId} {lenient : ℕ → Prop} {R : Finset ℕ}
  {branch : List Header}

lemma SavedAt.shown_header (hsaved : SavedAt lenient c e) (hR : ∀ k, c.Spans k → k ∈ R) :
    c.lazy.headers.Shown R e.1.height e.1 := by
  obtain ⟨c₁, hreads, hx⟩ := hsaved.header
  obtain ⟨-, hview, -⟩ := headerAt_fst_eq_some.1 hx
  exact ((Untouched.refl c R).consults_spans hreads hR).headers.shown_of_view (fun h => h) hview

lemma SavedAt.shown_score (hsaved : SavedAt lenient c e)
    (hR : ∀ k, c.Spans k → k ∈ R) (hfound : ¬(lenient e.1.height ∧ (c.scoreAt e.1.height).1 = none)) :
    c.lazy.scores.Shown R e.1.height e.2 := by
  rcases hsaved.score with ⟨c₁, hreads, hs⟩ | ⟨hlenient, -, hnone⟩
  · obtain ⟨-, hview⟩ := scoreAt_fst_eq_some.1 hs
    exact ((Untouched.refl c R).consults_spans hreads hR).scores.shown_of_view (fun h => h) hview
  · exact absurd ⟨hlenient, hnone⟩ hfound

lemma SavedAt.heightOf_eq (hc : Coherent heightOf base ids c) (hsaved : SavedAt lenient c e) :
    heightOf e.1.id = e.1.height := by
  obtain ⟨c₁, hreads, hx⟩ := hsaved.header
  obtain ⟨-, hview, -⟩ := headerAt_fst_eq_some.1 hx
  exact (hc.consults hreads).served _ _ (LazyCache.serves_of_view hview)

/-- A reorg that fails leaves the ids as they were and the caches untouched. -/
theorem Reorg.untouched (hc : Coherent heightOf base ids c)
    (hids : ∀ x ∈ branch, heightOf x.id = x.height) (hR : ∀ k, c.Spans k → k ∈ R)
    (hbranch : ∀ x ∈ branch, x.height ∈ R)
    (h : Reorg rules lenient heightOf base ids c branch false c') :
    Coherent heightOf base ids c' ∧
      Untouched c R (fun k => ¬c.Spans k)
        (fun k => ¬c.Spans k ∨ lenient k ∧ (c.scoreAt k).1 = none) c' := by
  cases h with
  | refused hread =>
    refine ⟨hc.consults hread, ?_⟩
    exact ((Untouched.refl c R).consults_spans hread hR).mono (fun _ h => h.elim) (fun _ h => h.elim)
  | @undone c₁ c₂ c' kept saved pushed rest hdetach hgrow hpart hback =>
    obtain ⟨c₃, hreads, rfl⟩ := hdetach.chain
    obtain ⟨c₄, c₅, hreads₂, hshrinks, hkept, rfl⟩ := hback.chain
    have hlength : ids.length = kept.length + saved.length := by
      rw [hdetach.split, length_append, length_map]
    have hdetached := hc.detaches hdetach
    have hheight := hdetached.height_eq hdetach.nonempty
    have hpushed : ∀ e ∈ pushed, e.1 ∈ branch := by
      intro e he
      rw [hpart]
      exact mem_append_left _ (mem_map_of_mem he)
    have hsavedIds : ∀ e ∈ saved, heightOf e.1.id = e.1.height :=
      fun e he => (hdetach.readable e he).heightOf_eq hc
    -- the ids are those before
    have hend := hkept.putSaved hdetach.nonempty hsavedIds hdetach.heights
    rw [← hdetach.split] at hend
    refine ⟨hend, ?_⟩
    -- from the fork point on everything is disregarded, until it is put back
    have hsaved : ∀ e ∈ saved, base + kept.length ≤ e.1.height ∧ c.Spans e.1.height := by
      intro e he
      have hmem : e.1.height ∈ saved.map (·.1.height) := mem_map_of_mem he
      rw [hdetach.heights, mem_range'_1] at hmem
      rw [hc.spans_iff]
      omega
    have hdropped : Untouched c R (base + kept.length ≤ ·)
        (fun k => base + kept.length ≤ k ∨ lenient k ∧ (c.scoreAt k).1 = none)
        (c₃.dropSaved saved) := by
      apply Untouched.dropSaved
      · exact ((Untouched.refl c R).consults_spans hreads hR).mono (fun _ h => h.elim)
          (fun _ h => h.elim)
      · exact fun e he => (hsaved e he).1
      · exact fun e he => .inl (hsaved e he).1
    have hR₁ : ∀ k, (c₃.dropSaved saved).Spans k → k ∈ R := by
      intro k hk
      rw [hdetached.spans_iff] at hk
      exact hR k (hc.spans_iff.2 (by omega))
    obtain ⟨hgrown, hR₂⟩ := Untouched.grows hgrow hdropped hdetached hdetach.nonempty
      (fun e he => hids _ (hpushed e he)) hR₁ (fun e he => hbranch _ (hpushed e he))
      (fun k hk => by omega) (fun k hk => .inl (by omega))
    have hgrownIds := hdetached.grows hdetach.nonempty (fun e he => hids _ (hpushed e he)) hgrow
    have hpopped := Untouched.shrinks hshrinks (hgrown.consults_spans hreads₂ hR₂)
      (hgrownIds.consults hreads₂) (fun k hk => hR₂ k ((hreads₂.spans_iff k).1 hk))
      (fun k hk => by omega) (fun k hk => .inl (by omega))
    have hback := hpopped.putSaved hdetach.heights (fun e he => hR _ (hsaved e he).2)
      (fun e he => (hdetach.readable e he).shown_header hR)
      (fun e he => (hdetach.readable e he).shown_score hR)
    refine hback.mono (fun k hk => ?_) (fun k hk => hk.imp (fun hk => ?_) id)
    · rw [hc.spans_iff]
      omega
    · rw [hc.spans_iff]
      omega

end Reorg

/-! ## All calls that fail -/

/-- The calls that undo what they did when they fail. -/
inductive Mutation where
  | reorg (alternativeTip continuation : Header)
  | reorgDeep (forkPointHeight : ℕ) (newBranch : List Header)
  | install (suffixHead : Header) (suffixTail : List Header)

namespace Mutation

def headers : Mutation → List Header
  | reorg alternativeTip continuation => [alternativeTip, continuation]
  | reorgDeep _ newBranch => newBranch
  | install suffixHead suffixTail => suffixHead :: suffixTail

/-- The call replaces the tip, whose score counts as 0 when it cannot be resolved. -/
def replacesTip : Mutation → Prop
  | reorg _ _ => True
  | reorgDeep _ _ => False
  | install _ _ => False

def perform (rules : CachedRules) (now : ℕ) : Mutation → ChainCall Unit
  | reorg alternativeTip continuation => do
    let _ ← tryReorg rules now alternativeTip continuation
    pure ()
  | reorgDeep forkPointHeight newBranch => do
    let _ ← tryReorgDeep rules now forkPointHeight newBranch
    pure ()
  | install suffixHead suffixTail => do
    let _ ← installFromNipopowProof rules suffixHead suffixTail
    pure ()

def heights (m : Mutation) (c : CachedChain) : Finset ℕ :=
  Finset.Icc c.reorgFloor c.height ∪ (m.headers.map (·.height)).toFinset

end Mutation

/-- A value that no call can lose: not cached, also in the loader, or with room for what the call
touches. -/
def Retained {V : Type} (l : LazyCache ℕ V) (m : Mutation) (c : CachedChain) (h : ℕ) : Prop :=
  l.cache.peek h = none ∨ l.cache.peek h = l.load h ∨ l.Fits (m.heights c)

/-- All observations of the chain are the same after a call. -/
structure Invisible (m : Mutation) (c c' : CachedChain) : Prop where
  height_eq : c'.height = c.height
  baseHeight_eq : c'.baseHeight = c.baseHeight
  contains_eq : ∀ id, c'.contains id = c.contains id
  heightOf_eq : ∀ id, c'.heightOf id = c.heightOf id
  lightClientMode_eq : c'.lightClientMode = c.lightClientMode
  reorgFloor_eq : c'.reorgFloor = c.reorgFloor
  headerAt_eq : ∀ h, Retained c.lazy.headers m c h → (c'.headerAt h).1 = (c.headerAt h).1
  tip_eq : Retained c.lazy.headers m c c.height → (tip c').map Prod.fst = (tip c).map Prod.fst
  scoreAt_eq : ∀ h, Retained c.lazy.scores m c h →
    (m.replacesTip → h = c.height → (c.scoreAt h).1 ≠ none) → (c'.scoreAt h).1 = (c.scoreAt h).1

lemma tip_eq_headerAt (c : CachedChain) :
    (tip c).map Prod.fst = (c.headerAt c.height).1.map Except.ok := by
  rw [tip, Call.read_bind]
  cases (c.headerAt c.height).1 with
  | none => rfl
  | some x => rfl

lemma headerAt_congr (hbase : c'.baseHeight = c.baseHeight) (hindex : c'.byId = c.byId) {h : ℕ}
    (hview : c.Spans h → c'.lazy.headers.view h = c.lazy.headers.view h) :
    (c'.headerAt h).1 = (c.headerAt h).1 := by
  have hspans : c'.Spans h ↔ c.Spans h := by
    rw [Spans, Spans, height, height, hbase, hindex]
  ext x
  rw [headerAt_fst_eq_some, headerAt_fst_eq_some, hspans, hindex]
  by_cases hin : c.Spans h
  · rw [hview hin]
  · simp only [hin, false_and]

lemma scoreAt_congr (hbase : c'.baseHeight = c.baseHeight) (hindex : c'.byId = c.byId) {h : ℕ}
    (hview : c.Spans h → c'.lazy.scores.view h = c.lazy.scores.view h) :
    (c'.scoreAt h).1 = (c.scoreAt h).1 := by
  have hspans : c'.Spans h ↔ c.Spans h := by
    rw [Spans, Spans, height, height, hbase, hindex]
  ext x
  rw [scoreAt_fst_eq_some, scoreAt_fst_eq_some, hspans]
  by_cases hin : c.Spans h
  · rw [hview hin]
  · simp only [hin, false_and]

lemma Invisible.of_views {m : Mutation} (hbase : c'.baseHeight = c.baseHeight)
    (hindex : c'.byId = c.byId) (hlight : c'.lightClientMode = c.lightClientMode)
    (hheaders : ∀ h, c.Spans h → Retained c.lazy.headers m c h →
      c'.lazy.headers.view h = c.lazy.headers.view h)
    (hscores : ∀ h, c.Spans h → Retained c.lazy.scores m c h →
      (m.replacesTip → h = c.height → (c.scoreAt h).1 ≠ none) →
      c'.lazy.scores.view h = c.lazy.scores.view h) : Invisible m c c' := by
  have hheight : c'.height = c.height := by rw [height, height, hbase, hindex]
  have hheaderAt : ∀ h, Retained c.lazy.headers m c h → (c'.headerAt h).1 = (c.headerAt h).1 :=
    fun h hr => headerAt_congr hbase hindex (fun hin => hheaders h hin hr)
  exact
    { height_eq := hheight
      baseHeight_eq := hbase
      contains_eq := fun id => by rw [contains, contains, hindex]
      heightOf_eq := fun id => by rw [heightOf, heightOf, hindex]
      lightClientMode_eq := hlight
      reorgFloor_eq := by rw [reorgFloor, reorgFloor, hbase]
      headerAt_eq := hheaderAt
      tip_eq := fun hr => by rw [tip_eq_headerAt, tip_eq_headerAt, hheight, hheaderAt _ hr]
      scoreAt_eq := fun h hr hfound =>
        scoreAt_congr hbase hindex (fun hin => hscores h hin hr hfound) }

section Calls

variable {heightOf : BlockId → ℕ} {base : ℕ} {ids : List BlockId}

lemma Spans.mem_heights {k : ℕ} (hk : c.Spans k) (m : Mutation) : k ∈ m.heights c := by
  obtain ⟨b, hb, hle, hge⟩ := hk
  apply Finset.mem_union_left
  rw [Finset.mem_Icc, reorgFloor, hb]
  exact ⟨hle, hge⟩

lemma Mutation.mem_heights (m : Mutation) (c : CachedChain) {x : Header} (hx : x ∈ m.headers) :
    x.height ∈ m.heights c :=
  Finset.mem_union_right _ (mem_toFinset.2 (mem_map_of_mem hx))

lemma Reorg.invisible {m : Mutation} {lenient : ℕ → Prop} (hc : Coherent heightOf base ids c)
    (hids : ∀ x ∈ m.headers, heightOf x.id = x.height)
    (hlenient : ∀ k, lenient k → m.replacesTip ∧ k = c.height)
    (h : Reorg rules lenient heightOf base ids c m.headers false c') : Invisible m c c' := by
  obtain ⟨hend, huntouched⟩ := h.untouched hc hids (fun _ hk => hk.mem_heights m)
    (fun x hx => m.mem_heights c hx)
  refine .of_views (hend.baseHeight_eq.trans hc.baseHeight_eq.symm) (hend.filed.ext hc.filed)
    huntouched.light ?_ ?_
  · intro k hin hr
    exact huntouched.headers.view_eq (fun hout => hout hin) hr
  · intro k hin hr hfound
    refine huntouched.scores.view_eq ?_ hr
    rintro (hout | ⟨hl, hnone⟩)
    · exact hout hin
    · obtain ⟨hreplaces, htop⟩ := hlenient k hl
      exact hfound hreplaces htop hnone

lemma bind_pure_eq_error {α : Type} {call : ChainCall α} {e : ChainError}
    (h : (call >>= fun _ => pure ()) c = some (.error e, c')) :
    call c = some (.error e, c') := by
  rcases Call.bind_eq_some h with ⟨e', hcall, he⟩ | ⟨a, c₁, -, hpure⟩
  · rw [hcall, Except.error.inj he]
  · cases (Call.pure_eq_some.1 hpure).1

/-- **A call that fails cannot be observed**, on a chain whose ids determine heights. -/
theorem Mutation.invisible_of_error (rules : CachedRules) (now : ℕ) (heightOf : BlockId → ℕ)
    {base : ℕ} {ids : List BlockId} {c : CachedChain} (hc : Coherent heightOf base ids c)
    (hfull : ids = [] → c.lightClientMode = false) (m : Mutation)
    (hids : ∀ x ∈ m.headers, heightOf x.id = x.height) {e : ChainError} {c' : CachedChain}
    (h : m.perform rules now c = some (.error e, c')) : Invisible m c c' := by
  cases m with
  | reorg alternativeTip continuation =>
    refine Reorg.invisible hc hids ?_ (tryReorg_outcome hc hids (bind_pure_eq_error h))
    exact fun k hk => ⟨trivial, hk⟩
  | reorgDeep f branch =>
    refine Reorg.invisible hc hids ?_ (tryReorgDeep_outcome hc hids (bind_pure_eq_error h))
    exact fun k hk => hk.elim
  | install head tail =>
    rcases installFromNipopowProof_outcome hc hids (bind_pure_eq_error h) with
      ⟨_, -, rfl⟩ | ⟨rfl, pushed, c₁, -, -, ⟨-, hr, -⟩ | ⟨_, c₂, -, -, rfl⟩⟩
    · exact .of_views rfl rfl rfl (fun _ _ _ => rfl) (fun _ _ _ _ => rfl)
    · cases hr
    · -- the chain was empty, so no height has a header or a score
      have hempty : ∀ k, ¬c.Spans k := by
        intro k hk
        rw [hc.spans_iff, length_nil] at hk
        omega
      refine .of_views ?_ ?_ (hfull rfl).symm (fun k hk => absurd hk (hempty k))
        (fun k hk => absurd hk (hempty k))
      · exact hc.baseHeight_eq.symm
      · exact (Filed.empty heightOf).ext hc.filed

end Calls

/-! ## Small caches -/

/-- `HeaderChain.plainRules`, with a difficulty that is read off the parent. -/
def plainCachedRules : CachedRules :=
  { HeaderChain.plainRules with difficultyHeights := fun _ parent => [parent.height] }

lemma coherent_new (heightOf : BlockId → ℕ) (base : ℕ) (config : ChainConfig) :
    Coherent heightOf base [] (new config) where
  baseHeight_eq := rfl
  filed := .empty heightOf
  heights := rfl
  served := by
    rintro k x (hpeek | hload)
    · cases hpeek
    · cases hload

def twoCached : CachedChain :=
  ((new .mainnet).addHeader (HeaderChain.plainHeader 1 0 1) 5).addHeader
    (HeaderChain.plainHeader 2 1 2) 10

lemma coherent_twoCached : Coherent (· % 10) 1 [1, 2] twoCached := by
  have hone := (coherent_new (· % 10) 1 .mainnet).addHeader
    (x := HeaderChain.plainHeader 1 0 1) rfl rfl 5
  exact hone.addHeader (x := HeaderChain.plainHeader 2 1 2) rfl rfl 10

/-- The sibling of the tip is pushed and taken back, since its child is too old. -/
theorem invisible_of_error_sibling :
    ∃ c', (Mutation.reorg (HeaderChain.plainHeader 12 1 2)
        { HeaderChain.plainHeader 13 12 3 with timestamp := 0 }).perform plainCachedRules 10000
        twoCached = some (.error (.timestampNotIncreasing 2000 0), c') ∧
      Invisible (.reorg (HeaderChain.plainHeader 12 1 2)
        { HeaderChain.plainHeader 13 12 3 with timestamp := 0 }) twoCached c' :=
  ⟨_, rfl, Mutation.invisible_of_error plainCachedRules 10000 (· % 10) coherent_twoCached
    (by simp) _ (by decide) rfl⟩

/-- With room for one header and no loader, a reorg that fails loses the header it forked at. -/
theorem tryReorgDeep_displaces_header :
    ∃ c e c', (installFromNipopowProof plainCachedRules (HeaderChain.plainHeader 1 0 1) []
        ((new .mainnet).setCacheCapacity 1 Nat.one_pos)).map Prod.snd = some c ∧
      tryReorgDeep plainCachedRules 10000 1
        [HeaderChain.plainHeader 2 1 2, HeaderChain.plainHeader 3 0 3] c = some (.error e, c') ∧
      (c.headerAt 1).1 = some (HeaderChain.plainHeader 1 0 1) ∧ (c'.headerAt 1).1 = none :=
  ⟨_, _, _, rfl, rfl, rfl, rfl⟩

end CachedChain

end ErgoNode
