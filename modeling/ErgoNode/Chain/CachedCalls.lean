import ErgoNode.Chain.CachedSteps

/-!
# What the public operations of the cached chain do

A reorg takes the headers above the fork point off and pushes the new branch; at the first header
that fails it puts the old ones back. `Reorg` says this once for `tryReorg` and `tryReorgDeep`,
which differ in what they check before and in what a missing score counts for.
-/

namespace ErgoNode

open List Call Option

def CachedRules.tipOnly (rules : CachedRules) : CachedRules :=
  { rules with difficultyHeights := fun _ _ => [] }

namespace CachedChain

variable {rules : CachedRules} {now : ℕ} {c c' c'' : CachedChain} {xs : List (Header × ℕ)}
  {check : Header → Header → Prop} {lenient' : ℕ → Prop} {branch tail : List Header}
  {e : Header × ℕ}

/-! ## Growing at the tip -/

/-- Headers were pushed one after the other with their scores, each a next one for the tip that
passed `check` against it. -/
inductive Grows (rules : CachedRules) (check : Header → Header → Prop) :
    CachedChain → List (Header × ℕ) → CachedChain → Prop
  | nil (c : CachedChain) : Grows rules check c [] c
  | cons {c c₁ c₂ c' : CachedChain} {tip : Header} {e : Header × ℕ} {rest : List (Header × ℕ)}
      (htip : (c.headerAt c.height).1 = some tip)
      (hread : Consults (CheckReads rules c tip) (fun k => k = c.height ∧ c.Spans k) c c₁)
      (hheight : e.1.height = c.height + 1) (hcheck : check tip e.1)
      (hpush : Pushes rules e.1 e.2 c₁ c₂) (hrest : Grows rules check c₂ rest c') :
      Grows rules check c (e :: rest) c'

lemma Grows.mono {check' : Header → Header → Prop}
    (h : Grows rules check c xs c') (hcheck : ∀ tip x, check tip x → check' tip x) :
    Grows rules check' c xs c' := by
  induction h with
  | nil c => exact .nil c
  | cons htip hread hheight hc hpush _ ih =>
    exact .cons htip hread hheight (hcheck _ _ hc) hpush ih

lemma Grows.lightClientMode_eq (h : Grows rules check c xs c') :
    c'.lightClientMode = c.lightClientMode := by
  induction h with
  | nil c => rfl
  | cons _ hread _ _ hpush _ ih => rw [ih, hpush.lightClientMode_eq, hread.lightClientMode_eq]

def Child (tip x : Header) : Prop := x.parentId = tip.id

def LaterChild (tip x : Header) : Prop := Child tip x ∧ tip.timestamp < x.timestamp

/-! ## Shrinking -/

/-- Headers above the height `f` were popped, one after the other. -/
inductive Shrinks (f : ℕ) : CachedChain → CachedChain → Prop
  | refl (c : CachedChain) : Shrinks f c c
  | pop {c c₁ c' : CachedChain} {popped : Header × ℕ} (habove : f < c.height)
      (hpop : Pops c popped c₁) (hrest : Shrinks f c₁ c') : Shrinks f c c'

section Shape

variable {heightOf : BlockId → ℕ} {base : ℕ} {ids kept : List BlockId}
variable {header : Header} {f : ℕ} {saved : List (Header × ℕ)} {lenient : ℕ → Prop}
  {r : Except ChainError (List InstalledHeader)}

lemma Coherent.grows (hc : Coherent heightOf base ids c) (hne : ids ≠ [])
    (hids : ∀ e ∈ xs, heightOf e.1.id = e.1.height) (h : Grows rules check c xs c') :
    Coherent heightOf base (ids ++ xs.map (·.1.id)) c' := by
  induction h generalizing ids with
  | nil => simpa using hc
  | @cons c c₁ c₂ c' tip e rest htip hread hheight hcheck hpush hrest ih =>
    have hpos := length_pos_iff.2 hne
    have hnext : e.1.height = base + ids.length := by
      rw [hheight, hc.height_eq hne]
      omega
    have hpushed := (hc.consults hread).pushes hpush hnext (hids e mem_cons_self)
    have hgrown := ih hpushed (by simp) (forall_mem_cons.1 hids).2
    rwa [append_assoc] at hgrown

/-! ## The loops of a reorg -/

lemma linksToTip_outcome {i : ℕ} {r : Except ChainError Bool}
    (h : linksToTip i header c = some (r, c')) :
    i = 0 ∧ r = .ok true ∧ c' = c ∨
      ∃ tip, (c.headerAt c.height).1 = some tip ∧ r = .ok (decide (header.parentId = tip.id)) ∧
        c' = (c.headerAt c.height).2 := by
  unfold linksToTip at h
  split at h
  next hi =>
    cases h
    exact .inl ⟨hi, rfl, rfl⟩
  · obtain ⟨tip, hfound, h⟩ := tip_bind_eq_some h
    cases h
    exact .inr ⟨tip, hfound, rfl, rfl⟩

/-- The loop over a branch pushes a first part of it, all of it if it reports no error. -/
theorem appendBranch_outcome {i : ℕ}
    {r : Except ChainError (Option ChainError)} (hc : Coherent heightOf base ids c) (hne : ids ≠ [])
    (hlen : base + ids.length = f + 1 + i) (hids : ∀ x ∈ branch, heightOf x.id = x.height)
    (hfirst : i = 0 → ∀ x ∈ branch.head?, ids.getLast? = some x.parentId)
    (h : appendBranch rules now f i branch c = some (r, c')) :
    ∃ pushed rest c₁, branch = pushed.map (·.1) ++ rest ∧ Grows rules LaterChild c pushed c₁ ∧
      Consults c₁.Spans (fun _ => False) c₁ c' ∧
      (r = .ok none ∧ rest = [] ∧ c' = c₁ ∨ ∃ e, r = .ok (some e)) := by
  induction branch generalizing c ids i with
  | nil =>
    cases h
    exact ⟨[], [], c', rfl, .nil _, .refl _, .inl ⟨rfl, rfl, rfl⟩⟩
  | cons x rest ih =>
    have hheight := hc.height_eq hne
    rcases bind_eq_some h with ⟨e, hlinks, -⟩ | ⟨links, c₁, hlinks, h⟩
    · rcases linksToTip_outcome hlinks with ⟨-, hr, -⟩ | ⟨_, -, hr, -⟩ <;> cases hr
    -- the tip that was compared, and that it is the parent when the loop goes on
    obtain ⟨hreads₁, htips⟩ : Consults (fun k => k = c.height ∧ c.Spans k) (fun _ => False) c c₁ ∧
        ∀ tip, (c₁.headerAt c₁.height).1 = some tip →
          (c.headerAt c.height).1 = some tip ∧ (links = true → x.parentId = tip.id) := by
      rcases linksToTip_outcome hlinks with ⟨hi, -, rfl⟩ | ⟨tip, hfound, hr, rfl⟩
      · refine ⟨.refl _, fun tip htip => ⟨htip, fun _ => ?_⟩⟩
        have hlast := hfirst hi x rfl
        obtain ⟨hid, -⟩ := hc.headerAt_id htip
        rw [hheight, show base + ids.length - 1 - base = ids.length - 1 by omega,
          ← getLast?_eq_getElem?, hlast] at hid
        exact some.inj hid
      · refine ⟨consults_headerAt c c.height, fun tip' htip => ?_⟩
        rw [(consults_headerAt c c.height).height_eq, headerAt_again hfound] at htip
        cases htip
        exact ⟨hfound, fun hlinks => of_decide_eq_true ((Except.ok.inj hr).symm.trans hlinks)⟩
    have hspans₁ : Consults c.Spans (fun _ => False) c c₁ :=
      hreads₁.mono (fun _ h => h.2) (fun _ => id)
    split at h
    · cases h
      exact ⟨[], x :: rest, c, rfl, .nil _, hspans₁, .inr ⟨_, rfl⟩⟩
    rename_i hlinked
    split at h
    · cases h
      exact ⟨[], x :: rest, c, rfl, .nil _, hspans₁, .inr ⟨_, rfl⟩⟩
    rename_i hseq
    obtain ⟨checked, c₂, hvalidate, h⟩ := attempt_bind_eq_some h
    obtain ⟨tip, htip₁, hreads₂, htime⟩ := validateReorgHeader_outcome hvalidate
    obtain ⟨htip, hparent⟩ := htips tip htip₁
    have hreads : Consults (CheckReads rules c tip) (fun _ => False) c c₂ := by
      refine Consults.trans (hreads₁.mono ?_ (fun _ => id)) (hreads₂.mono ?_ (fun _ => id))
      · rintro k ⟨rfl, hspans⟩
        exact ⟨hspans, .inl rfl⟩
      · exact fun k hk => CheckReads.of_consults hreads₁ hk
    cases checked with
    | error e =>
      cases h
      exact ⟨[], x :: rest, c, rfl, .nil _, hreads.mono (fun _ h => h.1) (fun _ => id),
        .inr ⟨_, rfl⟩⟩
    | ok u =>
      obtain ⟨total, c₃, hpushes, h⟩ := pushHeader_bind_eq_some h
      have hseq : x.height = f + 1 + i := Decidable.not_not.1 hseq
      have hgrown := (hc.consults hreads).pushes hpushes (by omega) (hids x mem_cons_self)
      obtain ⟨pushed, rest', c₄, hsplit, hgrows, hlast, hend⟩ :=
        ih hgrown (by simp) (by rw [length_append, length_singleton]; omega)
          (forall_mem_cons.1 hids).2 (fun hi => absurd hi (by omega)) h
      refine ⟨(x, total) :: pushed, rest', c₄, by rw [hsplit]; rfl, ?_, hlast, hend⟩
      have hnext : x.height = c.height + 1 := by omega
      exact .cons htip (hreads.mono (fun _ => id) (fun _ h => h.elim)) hnext
        ⟨hparent (by simpa using hlinked), htime rfl⟩ hpushes hgrows

lemma popTo_outcome {fuel : ℕ} {above : List BlockId} {r : Except ChainError Unit}
    (hc : Coherent heightOf base (kept ++ above) c) (hne : kept ≠ [])
    (hlen : base + kept.length = f + 1) (hfuel : above.length ≤ fuel)
    (h : popTo f fuel c = some (r, c')) :
    r = .ok () ∧ Shrinks f c c' ∧ Coherent heightOf base kept c' := by
  induction fuel generalizing above c with
  | zero =>
    obtain rfl := length_eq_zero_iff.1 (Nat.le_zero.1 hfuel)
    cases h
    rw [append_nil] at hc
    exact ⟨rfl, .refl _, hc⟩
  | succ fuel ih =>
    have hheight := hc.height_eq (by simp [hne])
    rw [length_append] at hheight
    rw [popTo, state_bind] at h
    split at h
    · cases h
      obtain rfl : above = [] := length_eq_zero_iff.1 (by omega)
      rw [append_nil] at hc
      exact ⟨rfl, .refl _, hc⟩
    · have habove : above ≠ [] := by
        rintro rfl
        rw [length_nil] at hheight
        omega
      have hsize : c.byId.size ≠ 0 := by
        rw [hc.filed.size_eq, length_append]
        omega
      obtain ⟨popped, c₁, hpops, h⟩ := popHeader_bind_eq_some hsize h
      obtain ⟨-, hshorter⟩ := hc.pops hpops
      rw [dropLast_append_of_ne_nil habove] at hshorter
      obtain ⟨hr, hshrinks, hend⟩ :=
        ih hshorter (by rw [length_dropLast]; omega) h
      exact ⟨hr, .pop (by omega) hpops hshrinks, hend⟩

/-- A header and a score read while the chain was `c`; a missing score counts as 0 where tolerated.
-/
structure SavedAt (lenient : ℕ → Prop) (c : CachedChain) (e : Header × ℕ) : Prop where
  header : ∃ c₁, Consults c.Spans c.Spans c c₁ ∧ (c₁.headerAt e.1.height).1 = some e.1
  score : (∃ c₁, Consults c.Spans c.Spans c c₁ ∧ (c₁.scoreAt e.1.height).1 = some e.2) ∨
    lenient e.1.height ∧ e.2 = 0 ∧ (c.scoreAt e.1.height).1 = none

lemma Consults.trans_spans {P Q P' Q' : ℕ → Prop} (h : Consults P Q c c')
    (h' : Consults P' Q' c' c'') (hP : ∀ k, P k → c.Spans k) (hQ : ∀ k, Q k → c.Spans k)
    (hP' : ∀ k, P' k → c'.Spans k) (hQ' : ∀ k, Q' k → c'.Spans k) :
    Consults c.Spans c.Spans c c'' :=
  (h.mono hP hQ).trans (h'.mono (fun k hk => (h.spans_iff k).1 (hP' k hk))
    (fun k hk => (h.spans_iff k).1 (hQ' k hk)))

lemma Consults.trans_reads (h : Consults c.Spans c.Spans c c')
    (h' : Consults c'.Spans c'.Spans c' c'') : Consults c.Spans c.Spans c c'' :=
  h.trans_spans h' (fun _ => id) (fun _ => id) (fun _ => id) (fun _ => id)

lemma SavedAt.of_consults (hsaved : SavedAt (fun _ => False) c' e)
    (h : Consults c.Spans c.Spans c c') : SavedAt (fun _ => False) c e where
  header := by
    obtain ⟨c₁, hreads, hx⟩ := hsaved.header
    exact ⟨c₁, h.trans_reads hreads, hx⟩
  score := by
    rcases hsaved.score with ⟨c₁, hreads, hs⟩ | ⟨hlenient, -⟩
    · exact .inl
        ⟨c₁, h.trans_reads hreads, hs⟩
    · exact hlenient.elim

lemma saveHeights_outcome {hs : List ℕ} {r : Except ChainError (List (Header × ℕ))}
    (hc : Coherent heightOf base ids c) (h : saveHeights hs c = some (r, c')) :
    Consults c.Spans c.Spans c c' ∧ ∀ saved, r = .ok saved →
      saved.map (·.1.height) = hs ∧ ∀ e ∈ saved, SavedAt (fun _ => False) c e := by
  induction hs generalizing c r with
  | nil =>
    cases h
    refine ⟨.refl _, fun saved hsaved => ?_⟩
    cases hsaved
    simp
  | cons k hs ih =>
    rw [saveHeights, read_bind] at h
    have hread₁ := consults_headerAt c k
    rcases hfound : (c.headerAt k).1 with _ | _ <;> rw [hfound] at h
    · cases h
      exact ⟨hread₁.mono (fun _ h => h.2) (fun _ h => h.elim), nofun⟩
    · simp only [read_bind] at h
      have hread₂ := consults_scoreAt (c.headerAt k).2 k
      have hreads : Consults c.Spans c.Spans c ((c.headerAt k).2.scoreAt k).2 :=
        hread₁.trans_spans hread₂ (fun _ h => h.2) (fun _ h => h.elim) (fun _ h => h.elim)
          (fun _ h => h.2)
      rcases hscore : ((c.headerAt k).2.scoreAt k).1 with _ | _ <;> rw [hscore] at h
      · cases h
        exact ⟨hreads, nofun⟩
      · obtain ⟨-, hxheight⟩ := hc.headerAt_id hfound
        rcases bind_eq_some h with ⟨e, hrest, rfl⟩ | ⟨rest, c₁, hrest, h⟩
        · have hlater := (ih (hc.consults hreads) hrest).1
          exact ⟨hreads.trans_reads hlater, fun _ h => by cases h⟩
        · cases h
          obtain ⟨hlater, hsaved⟩ := ih (hc.consults hreads) hrest
          obtain ⟨hheights, hall⟩ := hsaved rest rfl
          refine ⟨hreads.trans_reads hlater, fun saved hok => ?_⟩
          cases hok
          refine ⟨by rw [map_cons, hheights, hxheight], fun e he => ?_⟩
          rcases mem_cons.1 he with rfl | he
          · rw [← hxheight] at hfound hscore
            refine ⟨⟨c, .refl _, hfound⟩, .inl ⟨_, ?_, hscore⟩⟩
            rw [hxheight]
            exact hread₁.mono (fun _ h => h.2) (fun _ h => h.elim)
          · exact (hall e he).of_consults hreads

/-! ## Taking headers off and putting them back -/

lemma dropSaved_eq (c : CachedChain) (saved : List (Header × ℕ)) :
    c.dropSaved saved =
      { c with
        byId := saved.foldl (fun t e => t.erase e.1.id) c.byId
        lazy := saved.foldl (fun l e => l.evict e.1.height) c.lazy } := by
  induction saved generalizing c with
  | nil => rfl
  | cons e saved ih => exact ih _

lemma headers_dropSaved (c : CachedChain) (saved : List (Header × ℕ)) :
    (c.dropSaved saved).lazy.headers =
      (saved.map (·.1.height)).foldl LazyCache.evict c.lazy.headers := by
  induction saved generalizing c with
  | nil => rfl
  | cons e saved ih => exact ih _

lemma scores_dropSaved (c : CachedChain) (saved : List (Header × ℕ)) :
    (c.dropSaved saved).lazy.scores =
      (saved.map (·.1.height)).foldl LazyCache.evict c.lazy.scores := by
  induction saved generalizing c with
  | nil => rfl
  | cons e saved ih => exact ih _

lemma Coherent.dropSaved
    (hc : Coherent heightOf base (kept ++ saved.map (·.1.id)) c) (hne : kept ≠ []) :
    Coherent heightOf base kept (c.dropSaved saved) := by
  have hfiled : ∀ (saved : List (Header × ℕ)) (t : Table ℕ),
      Filed heightOf (kept ++ saved.map (·.1.id)) t → (kept ++ saved.map (·.1.id)).Nodup →
      Filed heightOf kept (saved.foldl (fun t e => t.erase e.1.id) t) := by
    intro saved
    induction saved with
    | nil => exact fun t ht _ => by simpa using ht
    | cons e saved ih =>
      intro t ht hnodup
      exact ih _ (ht.erase hnodup) (nodup_middle.1 hnodup).of_cons
  have hserved : ∀ (saved : List (Header × ℕ)) (l : LazyHeaderStore),
      (∀ k x, l.headers.Serves k x → heightOf x.id = x.height) → ∀ k x,
      (saved.foldl (fun l e => l.evict e.1.height) l).headers.Serves k x →
        heightOf x.id = x.height := by
    intro saved
    induction saved with
    | nil => exact fun l hl => hl
    | cons e saved ih =>
      exact fun l hl => ih _ (fun k x hx => hl k x (LazyCache.serves_evict hx))
  rw [dropSaved_eq]
  refine ⟨?_, hfiled saved _ hc.filed hc.nodup, ?_, hserved saved _ hc.served⟩
  · show c.baseHeight = _
    rw [hc.baseHeight_eq, if_neg (by simp [hne]), if_neg hne]
  · have hheights := hc.heights
    rw [map_append, length_append, range'_append_1.symm] at hheights
    exact (append_inj hheights (by simp)).1

lemma putSaved_cons (hbase : c.baseHeight.isSome) (e : Header × ℕ) (saved : List (Header × ℕ)) :
    c.putSaved (e :: saved) = (c.addHeader e.1 e.2).putSaved saved := by
  obtain ⟨base, hbase⟩ := isSome_iff_exists.1 hbase
  have hadd : c.addHeader e.1 e.2 =
      { c with
        byId := c.byId.insert e.1.id e.1.height
        lazy := c.lazy.put e.1.height e.1 e.2 } := by
    rw [addHeader, hbase, getD_some, ← hbase]
  rw [hadd]
  rfl

lemma Coherent.baseHeight_isSome (hc : Coherent heightOf base ids c) (hne : ids ≠ []) :
    c.baseHeight.isSome := by
  rw [hc.baseHeight_eq, if_neg hne]
  rfl

lemma Coherent.putSaved (hc : Coherent heightOf base ids c)
    (hne : ids ≠ []) (hids : ∀ e ∈ saved, heightOf e.1.id = e.1.height)
    (hheights : saved.map (·.1.height) = List.range' (base + ids.length) saved.length) :
    Coherent heightOf base (ids ++ saved.map (·.1.id)) (c.putSaved saved) := by
  induction saved generalizing c ids with
  | nil => simpa [CachedChain.putSaved] using hc
  | cons e saved ih =>
    rw [map_cons, length_cons, range'_succ, cons.injEq] at hheights
    obtain ⟨hheight, hheights⟩ := hheights
    have hadded := hc.addHeader hheight (hids e mem_cons_self) e.2
    rw [putSaved_cons (hc.baseHeight_isSome hne)]
    have hlength : (ids ++ [e.1.id]).length = ids.length + 1 := by simp
    have hall := ih hadded (by simp) (forall_mem_cons.1 hids).2
      (by rw [hlength, ← Nat.add_assoc]; exact hheights)
    rwa [append_assoc] at hall

/-! ## How a reorg may end -/

/-- Everything above the fork point was read and taken off: `kept` is left. -/
structure Detaches (lenient : ℕ → Prop) (base : ℕ) (ids kept : List BlockId)
    (saved : List (Header × ℕ)) (c c' : CachedChain) : Prop where
  split : ids = kept ++ saved.map (·.1.id)
  nonempty : kept ≠ []
  heights : saved.map (·.1.height) = List.range' (base + kept.length) saved.length
  readable : ∀ e ∈ saved, SavedAt lenient c e
  chain : ∃ c₀, Consults c.Spans c.Spans c c₀ ∧ c' = c₀.dropSaved saved

/-- What was pushed was popped, and what was taken off put back. -/
structure Reattaches (heightOf : BlockId → ℕ) (base : ℕ) (kept : List BlockId)
    (saved : List (Header × ℕ)) (c c' : CachedChain) : Prop where
  chain : ∃ c₁ c₂, Consults c.Spans c.Spans c c₁ ∧ Shrinks (base + kept.length - 1) c₁ c₂ ∧
    Coherent heightOf base kept c₂ ∧ c' = c₂.putSaved saved

/-- What a pushed header was checked for: a later child of the tip, or of the parent of the replaced
tip. -/
def Replaces (saved : List (Header × ℕ)) (tip x : Header) : Prop :=
  (Child tip x ∨ ∃ e ∈ saved.head?, x.parentId = e.1.parentId ∧ x.height = e.1.height) ∧
    tip.timestamp < x.timestamp

/-- How a reorg to `branch` may end, and whether it succeeds. -/
inductive Reorg (rules : CachedRules) (lenient : ℕ → Prop) (heightOf : BlockId → ℕ) (base : ℕ)
    (ids : List BlockId) (c : CachedChain) (branch : List Header) : Bool → CachedChain → Prop
  | refused {c' : CachedChain} (hread : Consults c.Spans c.Spans c c') :
      Reorg rules lenient heightOf base ids c branch false c'
  | replaced {c₁ c' : CachedChain} {kept : List BlockId} {saved pushed : List (Header × ℕ)}
      (hdetach : Detaches lenient base ids kept saved c c₁)
      (hgrow : Grows rules (Replaces saved) c₁ pushed c') (hall : pushed.map (·.1) = branch) :
      Reorg rules lenient heightOf base ids c branch true c'
  | undone {c₁ c₂ c' : CachedChain} {kept : List BlockId} {saved pushed : List (Header × ℕ)}
      {rest : List Header} (hdetach : Detaches lenient base ids kept saved c c₁)
      (hgrow : Grows rules (Replaces saved) c₁ pushed c₂)
      (hpart : branch = pushed.map (·.1) ++ rest)
      (hback : Reattaches heightOf base kept saved c₂ c') :
      Reorg rules lenient heightOf base ids c branch false c'

lemma SavedAt.mono (h : SavedAt lenient c e) (hsub : ∀ k, lenient k → lenient' k) :
    SavedAt lenient' c e :=
  ⟨h.header, h.score.imp id (fun hs => ⟨hsub _ hs.1, hs.2⟩)⟩

lemma Detaches.mono
    (h : Detaches lenient base ids kept saved c c') (hsub : ∀ k, lenient k → lenient' k) :
    Detaches lenient' base ids kept saved c c' :=
  ⟨h.split, h.nonempty, h.heights, fun e he => (h.readable e he).mono hsub, h.chain⟩

lemma Detaches.config_eq (h : Detaches lenient base ids kept saved c c') :
    c'.config = c.config := by
  obtain ⟨c₀, hreads, rfl⟩ := h.chain
  rw [dropSaved_eq]
  exact hreads.config_eq

lemma Detaches.lightClientMode_eq (h : Detaches lenient base ids kept saved c c') :
    c'.lightClientMode = c.lightClientMode := by
  obtain ⟨c₀, hreads, rfl⟩ := h.chain
  rw [dropSaved_eq]
  exact hreads.lightClientMode_eq

lemma Coherent.detaches
    (hc : Coherent heightOf base ids c) (h : Detaches lenient base ids kept saved c c') :
    Coherent heightOf base kept c' := by
  obtain ⟨c₀, hreads, rfl⟩ := h.chain
  have hread := hc.consults hreads
  rw [h.split] at hread
  exact hread.dropSaved h.nonempty

lemma ids_eq_of_saved
    (hc : Coherent heightOf base ids c) (hbase : base ≤ f) (htop : f < base + ids.length)
    (hheights : saved.map (·.1.height) = List.range' (f + 1) (base + ids.length - 1 - f))
    (hsaved : ∀ e ∈ saved, SavedAt lenient c e) :
    ids = ids.take (f + 1 - base) ++ saved.map (·.1.id) := by
  have hlength : saved.length = base + ids.length - 1 - f := by
    simpa using congrArg length hheights
  have htail : saved.map (·.1.id) = ids.drop (f + 1 - base) := by
    apply ext_getElem?
    intro i
    rw [getElem?_map, getElem?_drop]
    cases he : saved[i]? with
    | none =>
      have := getElem?_eq_none_iff.1 he
      rw [map_none, eq_comm, getElem?_eq_none_iff]
      omega
    | some e =>
      have hi : i < saved.length := (List.getElem?_eq_some_iff.1 he).1
      have hheight : e.1.height = f + 1 + i := by
        have := congrArg (fun l => l[i]?) hheights
        rw [getElem?_map, he, getElem?_range' (by omega)] at this
        simpa using this
      obtain ⟨c₁, hreads, hx⟩ := (hsaved e (mem_of_getElem? he)).header
      obtain ⟨hid, -⟩ := (hc.consults hreads).headerAt_id hx
      rw [map_some, ← hid, hheight]
      congr 1
      omega
  rw [htail, take_append_drop]

lemma tryReorgDeep_outcome {r : Except ChainError (List BlockId)}
    (hc : Coherent heightOf base ids c) (hids : ∀ x ∈ branch, heightOf x.id = x.height)
    (h : tryReorgDeep rules now f branch c = some (r, c')) :
    Reorg rules (fun _ => False) heightOf base ids c branch r.isOk c' := by
  cases branch with
  | nil =>
    cases h
    exact .refused (.refl _)
  | cons first tail =>
    rcases ofExcept_bind_eq_some h with ⟨e, rfl, rfl⟩ | ⟨_, hsize, h⟩
    · exact .refused (.refl _)
    rcases ofExcept_bind_eq_some h with ⟨e, rfl, rfl⟩ | ⟨_, hfloor, h⟩
    · exact .refused (.refl _)
    rcases ofExcept_bind_eq_some h with ⟨e, rfl, rfl⟩ | ⟨_, htop, h⟩
    · exact .refused (.refl _)
    have hne : ids ≠ [] := by
      rintro rfl
      exact require_eq_ok.1 hsize hc.filed.size_eq
    have hpos := length_pos_iff.2 hne
    have hheight := hc.height_eq hne
    have hfloor : base ≤ f := by
      have := require_eq_ok.1 hfloor
      rwa [reorgFloor, hc.baseHeight_eq, if_neg hne] at this
    have htop := require_eq_ok.1 htop
    rw [read_bind] at h
    have hread₁ := consults_headerAt c f
    have hreads₁ : Consults c.Spans c.Spans c (c.headerAt f).2 :=
      hread₁.mono (fun _ h => h.2) (fun _ h => h.elim)
    rcases hfound : (c.headerAt f).1 with _ | _ <;> rw [hfound] at h
    · cases h
      exact .refused hreads₁
    · rcases ofExcept_bind_eq_some h with ⟨e, rfl, rfl⟩ | ⟨_, hconnects, h⟩
      · exact .refused hreads₁
      have hconnects := require_eq_ok.1 hconnects
      rcases bind_eq_some h with ⟨e, hsave, rfl⟩ | ⟨saved, c₁, hsave, h⟩
      · obtain ⟨hreads₂, -⟩ := saveHeights_outcome (hc.consults hreads₁) hsave
        exact .refused (hreads₁.trans_reads hreads₂)
      obtain ⟨hreads₂, hsaved⟩ := saveHeights_outcome (hc.consults hreads₁) hsave
      obtain ⟨hheights, hsaved⟩ := hsaved saved rfl
      have hsaved : ∀ e ∈ saved, SavedAt (fun _ => False) c e := fun e he => (hsaved e he).of_consults hreads₁
      rw [hheight] at hheights htop
      have hsplit := ids_eq_of_saved hc hfloor (by omega) hheights hsaved
      have hkept : (ids.take (f + 1 - base)).length = f + 1 - base := by
        rw [length_take]
        omega
      have hdetach : Detaches (fun _ => False) base ids (ids.take (f + 1 - base)) saved c
          (c₁.dropSaved saved) := by
        refine ⟨hsplit, ?_, ?_, hsaved, c₁, ?_, rfl⟩
        · rw [← length_pos_iff]
          omega
        · have hlength : saved.length = base + ids.length - 1 - f := by
            simpa using congrArg length hheights
          rw [hheights, hkept, hlength]
          congr 1
          omega
        · exact hreads₁.trans_reads hreads₂
      have hdetached := hc.detaches hdetach
      -- the fork point is the last id that is left
      have hlast : (ids.take (f + 1 - base)).getLast? = some first.parentId := by
        obtain ⟨hid, -⟩ := hc.headerAt_id hfound
        rw [getLast?_eq_getElem?, hkept, getElem?_take_of_lt (by omega), hconnects, ← hid]
        congr 1
        omega
      rw [modify_bind] at h
      rcases bind_eq_some h with ⟨e, happend, -⟩ | ⟨stopped, c₂, happend, h⟩
      · obtain ⟨_, _, _, -, -, -, ⟨hr, -⟩ | ⟨_, hr⟩⟩ := appendBranch_outcome hdetached
          hdetach.nonempty (by omega) hids (fun _ x hx => by cases hx; exact hlast) happend
        · cases hr
        · cases hr
      obtain ⟨pushed, rest, c₃, hpart, hgrows, hreads₃, hend⟩ := appendBranch_outcome hdetached
        hdetach.nonempty (by omega) hids (fun _ x hx => by cases hx; exact hlast) happend
      have hgrows' : Grows rules (Replaces saved) (c₁.dropSaved saved) pushed c₃ :=
        hgrows.mono (fun _ _ hcheck => ⟨.inl hcheck.1, hcheck.2⟩)
      rcases hend with ⟨hr, rfl, rfl⟩ | ⟨e, hr⟩
      · cases hr
        cases h
        exact .replaced hdetach hgrows' (by rw [hpart, append_nil])
      · cases hr
        simp only [state_bind] at h
        have hpushed : ∀ e ∈ pushed, heightOf e.1.id = e.1.height := by
          intro e he
          apply hids
          rw [hpart]
          exact mem_append_left _ (mem_map_of_mem he)
        have hgrown := (hdetached.grows hdetach.nonempty hpushed hgrows).consults hreads₃
        have hfuel : (pushed.map (·.1.id)).length ≤ c₂.byId.size := by
          rw [hgrown.filed.size_eq, length_append]
          omega
        have hfork : base + (ids.take (f + 1 - base)).length = f + 1 := by omega
        rcases bind_eq_some h with ⟨e', hpop, -⟩ | ⟨_, c₄, hpop, h⟩
        · cases (popTo_outcome hgrown hdetach.nonempty hfork hfuel hpop).1
        obtain ⟨-, hshrinks, hback⟩ := popTo_outcome hgrown hdetach.nonempty hfork hfuel hpop
        cases h
        refine .undone hdetach hgrows' hpart ⟨c₂, c₄, ?_, ?_, hback, rfl⟩
        · exact hreads₃.mono (fun _ => id) (fun _ h => h.elim)
        · rwa [show base + (ids.take (f + 1 - base)).length - 1 = f by omega]

lemma detaches_of_pops {c₁ : CachedChain} {popped : Header × ℕ}
    (hc : Coherent heightOf base ids c) (hlong : 2 ≤ ids.length)
    (hreads : Consults c.Spans (fun _ => False) c c₁) (hpop : Pops c₁ popped c') :
    Detaches (· = c.height) base ids ids.dropLast [popped] c c' := by
  have hne : ids ≠ [] := by
    rintro rfl
    simp at hlong
  have hread := hc.consults hreads
  have hheight := hread.height_eq hne
  obtain ⟨hsplit, hkept⟩ := hread.pops hpop
  obtain ⟨-, hpopped⟩ := hread.headerAt_id hpop.found
  have hreads₁ : Consults c.Spans c.Spans c c₁ := hreads.mono (fun _ => id) (fun _ h => h.elim)
  refine ⟨hsplit, ?_, ?_, ?_, c₁.tipRead, ?_, ?_⟩
  · rw [← length_pos_iff, length_dropLast]
    omega
  · rw [map_singleton, hpopped, hheight, length_dropLast, length_singleton, range'_one]
    congr 1
    omega
  · intro e he
    obtain rfl := mem_singleton.1 he
    refine ⟨⟨c₁, hreads₁, by rw [hpopped]; exact hpop.found⟩, ?_⟩
    have htip : Consults c.Spans (fun _ => False) c (c₁.headerAt c₁.height).2 := by
      refine hreads.trans ((consults_headerAt c₁ c₁.height).mono ?_ (fun _ => id))
      exact fun k hk => (hreads.spans_iff k).1 hk.2
    have hscore := hpop.score
    rw [hpopped]
    cases hfound : ((c₁.headerAt c₁.height).2.scoreAt c₁.height).1 with
    | some s =>
      rw [hfound, getD_some] at hscore
      exact .inl ⟨_, htip.mono (fun _ => id) (fun _ h => h.elim), hscore ▸ hfound⟩
    | none =>
      rw [hfound, getD_none] at hscore
      exact .inr ⟨hreads.height_eq, hscore, by rw [← htip.scoreAt_fst (fun _ h => h), hfound]⟩
  · exact hreads₁.trans_spans (consults_tipRead c₁) (fun _ => id) (fun _ => id) (fun _ h => h.2)
      (fun _ h => h.2)
  · have hsize : ¬(c₁.tipRead.byId.erase popped.1.id).size = 0 := by
      have hfiled := hkept.filed
      rw [hpop.chain] at hfiled
      rw [show (c₁.tipRead.byId.erase popped.1.id).size = ids.dropLast.length from hfiled.size_eq,
        length_dropLast]
      omega
    rw [hpop.chain, CachedChain.removeHeader, if_neg hsize, ← hpopped]
    rfl

/-- What `tryReorg` does. A score of the tip that cannot be resolved counts as 0. -/
theorem tryReorg_outcome {alternativeTip continuation : Header} {r : Except ChainError BlockId}
    (hc : Coherent heightOf base ids c)
    (hids : ∀ x ∈ [alternativeTip, continuation], heightOf x.id = x.height)
    (h : tryReorg rules now alternativeTip continuation c = some (r, c')) :
    Reorg rules (· = c.height) heightOf base ids c [alternativeTip, continuation] r.isOk c' := by
  rcases ofExcept_bind_eq_some h with ⟨e, rfl, rfl⟩ | ⟨_, hsize, h⟩
  · exact .refused (.refl _)
  have hlong : 2 ≤ ids.length := hc.filed.size_eq ▸ require_eq_ok.1 hsize
  have hne : ids ≠ [] := by
    rintro rfl
    simp at hlong
  have hheight := hc.height_eq hne
  obtain ⟨tip, hfound, h⟩ := tip_bind_eq_some h
  have hread₁ : Consults c.Spans (fun _ => False) c (c.headerAt c.height).2 :=
    (consults_headerAt c c.height).mono (fun _ h => h.2) (fun _ => id)
  have hrefused : Reorg rules (· = c.height) heightOf base ids c [alternativeTip, continuation] false
      (c.headerAt c.height).2 := .refused (hread₁.mono (fun _ => id) (fun _ h => h.elim))
  rcases ofExcept_bind_eq_some h with ⟨e, rfl, rfl⟩ | ⟨_, haltHeight, h⟩
  · exact hrefused
  rcases ofExcept_bind_eq_some h with ⟨e, rfl, rfl⟩ | ⟨_, haltParent, h⟩
  · exact hrefused
  rcases ofExcept_bind_eq_some h with ⟨e, rfl, rfl⟩ | ⟨_, hcontParent, h⟩
  · exact hrefused
  rcases ofExcept_bind_eq_some h with ⟨e, rfl, rfl⟩ | ⟨_, hcontHeight, h⟩
  · exact hrefused
  have haltHeight := require_eq_ok.1 haltHeight
  have haltParent := require_eq_ok.1 haltParent
  have hcontParent := require_eq_ok.1 hcontParent
  have hcontHeight := require_eq_ok.1 hcontHeight
  have hsize₁ : (c.headerAt c.height).2.byId.size ≠ 0 := by
    rw [hread₁.byId_eq, hc.filed.size_eq]
    omega
  obtain ⟨popped, c₂, hpops, h⟩ := popHeader_bind_eq_some hsize₁ h
  have hdetach := detaches_of_pops hc hlong hread₁ hpops
  have hkept := hc.detaches hdetach
  have hkeptHeight := hkept.height_eq hdetach.nonempty
  have hfork : base + ids.dropLast.length - 1 = c.height - 1 := by
    rw [length_dropLast, hheight]
    omega
  -- the popped header is the tip that was compared
  have hpopped : tip = popped.1 := by
    have hagain := hpops.found
    rw [hread₁.height_eq, headerAt_again hfound] at hagain
    exact some.inj hagain
  obtain ⟨-, hpoppedHeight⟩ := hc.headerAt_id hfound
  rw [hpopped] at haltParent hpoppedHeight
  obtain ⟨checked, c₃, hvalidate, h⟩ := attempt_bind_eq_some h
  obtain ⟨parent, hparent, hreads₂, htime⟩ := validateReorgHeader_outcome hvalidate
  have hkept₃ := hkept.consults hreads₂
  cases checked with
  | error e =>
    simp only [modify_bind] at h
    cases h
    refine .undone hdetach (.nil _) rfl ⟨c₃, c₃, ?_, .refl _, hkept₃, ?_⟩
    · exact hreads₂.mono (fun _ h => h.1) (fun _ h => h.elim)
    · exact (putSaved_cons (hkept₃.baseHeight_isSome hdetach.nonempty) popped []).symm
  | ok u =>
    obtain ⟨total, c₄, hpushes, h⟩ := pushHeader_bind_eq_some h
    have haltNext : alternativeTip.height = c₂.height + 1 := by omega
    have hfirst : Replaces [popped] parent alternativeTip :=
      ⟨.inr ⟨popped, rfl, haltParent, by omega⟩, htime rfl⟩
    have hgrow : ∀ {xs c₅}, Grows rules (Replaces [popped]) c₄ xs c₅ →
        Grows rules (Replaces [popped]) c₂ ((alternativeTip, total) :: xs) c₅ :=
      .cons hparent (hreads₂.mono (fun _ => id) (fun _ h => h.elim)) haltNext hfirst hpushes
    have hfits : ∀ e ∈ [(alternativeTip, total)], heightOf e.1.id = e.1.height := by
      intro e he
      obtain rfl := mem_singleton.1 he
      exact hids _ mem_cons_self
    have hcoherent₄ := hkept.grows hdetach.nonempty hfits (hgrow (.nil _))
    have hheight₄ := hcoherent₄.height_eq (by simp)
    simp only [map_singleton, length_append, length_dropLast, length_singleton] at hheight₄
    obtain ⟨checked, c₅, hvalidate, h⟩ := attempt_bind_eq_some h
    obtain ⟨parent', hparent', hreads₄, htime'⟩ := validateReorgHeader_outcome hvalidate
    have hcoherent₅ := hcoherent₄.consults hreads₄
    cases checked with
    | error e =>
      have hsize₅ : c₅.byId.size ≠ 0 := by
        rw [hcoherent₅.filed.size_eq, length_append]
        simp
      obtain ⟨popped', c₆, hpops', h⟩ := popHeader_bind_eq_some hsize₅ h
      simp only [modify_bind] at h
      cases h
      obtain ⟨-, hkept₆⟩ := hcoherent₅.pops hpops'
      rw [map_singleton, dropLast_concat] at hkept₆
      refine .undone hdetach (hgrow (.nil _)) rfl
        ⟨c₅, c₆, ?_, .pop ?_ hpops' (.refl _), hkept₆, ?_⟩
      · exact hreads₄.mono (fun _ h => h.1) (fun _ h => h.elim)
      · rw [hreads₄.height_eq, hheight₄, hfork]
        omega
      · exact (putSaved_cons (hkept₆.baseHeight_isSome hdetach.nonempty) popped []).symm
    | ok u' =>
      obtain ⟨total', c₆, hpushes', h⟩ := pushHeader_bind_eq_some h
      cases h
      -- the alternative is the tip by now
      have hchild : Child parent' continuation := by
        obtain ⟨hid, -⟩ := hcoherent₄.headerAt_id hparent'
        have hindex : c₄.height - base = ids.dropLast.length := by
          rw [hheight₄, length_dropLast]
          omega
        rw [hindex, map_singleton, getElem?_concat_length] at hid
        exact hcontParent.trans (some.inj hid)
      have hcontNext : continuation.height = c₄.height + 1 := by omega
      have hlast : Grows rules (Replaces [popped]) c₄ [(continuation, total')] c' :=
        .cons hparent' (hreads₄.mono (fun _ => id) (fun _ h => h.elim)) hcontNext
          ⟨.inl hchild, htime' rfl⟩ hpushes' (.nil _)
      exact .replaced hdetach (hgrow hlast) rfl

/-! ## Appending -/

/-- What `tryAppend` does: only reads, or a push of the first header, or of a child of the tip. -/
theorem tryAppend_outcome {r : Except ChainError AppendResult}
    (hc : Coherent heightOf base ids c) (h : tryAppend rules now header c = some (r, c')) :
    r ≠ .ok .extended ∧ Consults c.Spans (fun _ => False) c c' ∨
      r = .ok .extended ∧ ids = [] ∧ header.height = 1 ∧ (∃ total, Pushes rules header total c c') ∨
      r = .ok .extended ∧ ids ≠ [] ∧ ∃ total, Grows rules LaterChild c [(header, total)] c' := by
  rw [tryAppend, state_bind] at h
  split at h
  next hempty =>
    have hids : ids = [] := length_eq_zero_iff.1 (hc.filed.size_eq ▸ hempty)
    rcases ofExcept_bind_eq_some h with ⟨e, rfl, rfl⟩ | ⟨_, hgenesis, h⟩
    · exact .inl ⟨by simp, .refl _⟩
    have hheight : header.height = 1 := by
      simp only [HeaderChain.validateGenesis, ErgoNode.bind_eq_ok, require_eq_ok] at hgenesis
      obtain ⟨_, -, _, hheight, -⟩ := hgenesis
      exact hheight
    obtain ⟨total, c₁, hpushes, h⟩ := pushHeader_bind_eq_some h
    cases h
    exact .inr (.inl ⟨rfl, hids, hheight, total, hpushes⟩)
  next hempty =>
    have hne : ids ≠ [] := by
      rintro rfl
      exact hempty hc.filed.size_eq
    obtain ⟨tip, hfound, h⟩ := tip_bind_eq_some h
    have hread₁ : Consults c.Spans (fun _ => False) c (c.headerAt c.height).2 :=
      (consults_headerAt c c.height).mono (fun _ h => h.2) (fun _ => id)
    split at h
    · -- the check reads the same tip again
      have hreads : ∀ {r : Except ChainError Unit} {c₂ : CachedChain},
          validateChild rules now header (c.headerAt c.height).2 = some (r, c₂) →
          Consults (CheckReads rules c tip) (fun _ => False) c c₂ ∧
            (r = .ok () → header.height = tip.height + 1 ∧ LaterChild tip header) := by
        intro r c₂ hvalidate
        obtain ⟨tip', hfound', hread, hok⟩ := validateChild_outcome hvalidate
        rw [(consults_headerAt c c.height).height_eq, headerAt_again hfound] at hfound'
        cases hfound'
        refine ⟨consults_tip_then hread, fun hr => ?_⟩
        obtain ⟨hchild, hheight, htime⟩ := hok hr
        exact ⟨hheight, hchild, htime⟩
      rcases bind_eq_some h with ⟨e, hvalidate, rfl⟩ | ⟨_, c₂, hvalidate, h⟩
      · exact .inl ⟨by simp, (hreads hvalidate).1.mono (fun _ h => h.1) (fun _ => id)⟩
      obtain ⟨hread, hok⟩ := hreads hvalidate
      obtain ⟨hheight, hchild⟩ := hok rfl
      obtain ⟨total, c₃, hpushes, h⟩ := pushHeader_bind_eq_some h
      cases h
      obtain ⟨-, htipHeight⟩ := hc.headerAt_id hfound
      have hnext : header.height = c.height + 1 := by omega
      exact .inr (.inr ⟨rfl, hne, total, .cons hfound
        (hread.mono (fun _ => id) (fun _ h => h.elim)) hnext hchild hpushes (.nil _)⟩)
    · left
      rcases hknown : c.byId[header.parentId]? with _ | _ <;> rw [hknown] at h
      · cases h
        exact ⟨by simp, hread₁⟩
      · rcases ofExcept_bind_eq_some h with ⟨e, rfl, rfl⟩ | ⟨_, -, h⟩
        · exact ⟨by simp, hread₁⟩
        · cases h
          exact ⟨by simp, hread₁⟩

/-! ## Installing -/

lemma Pushes.scoreAt {total : ℕ} (h : Pushes rules header total c c')
    (hspans : c'.Spans header.height) : (c'.scoreAt header.height).1 = some total := by
  obtain ⟨score, c₁, -, -, rfl⟩ := h.exists_score
  refine scoreAt_fst_eq_some.2 ⟨hspans, ?_⟩
  show ((c₁.lazy.scores.cache.put header.height total).peek header.height).or _ = _
  rw [LruCache.peek_put_self, some_or]

def installedHeader (e : Header × ℕ) : InstalledHeader := ⟨e.1.id, e.1.height, e.2⟩

lemma failInstall_outcome {e : ChainError} (h : failInstall e c = some (r, c')) :
    r = .error e ∧ c' = c.rollbackInstall := by
  exact throw_eq_some.1 h

/-- The loop over the tail of a proof pushes all of it, or ends with everything undone. -/
theorem installTail_outcome {c₀ : CachedChain} (hc : Coherent heightOf base ids c₀) (hne : ids ≠ [])
    (hids : ∀ x ∈ tail, heightOf x.id = x.height)
    (hpre : Consults (fun _ => False) (fun k => k = c₀.height ∧ c₀.Spans k) c₀ c)
    (h : installTail rules tail c = some (r, c')) :
    ∃ pushed c₁, (∀ e ∈ pushed, e.1 ∈ tail) ∧ Grows rules.tipOnly Child c₀ pushed c₁ ∧
      (pushed.map (·.1) = tail ∧ r = .ok (pushed.map installedHeader) ∧
          Consults (fun _ => False) (fun k => k = c₁.height ∧ c₁.Spans k) c₁ c' ∨
        ∃ e c₂, r = .error e ∧ Consults c₁.Spans c₁.Spans c₁ c₂ ∧ c' = c₂.rollbackInstall) := by
  induction tail generalizing c₀ c ids r with
  | nil =>
    cases h
    exact ⟨[], c₀, by simp, .nil _, .inl ⟨rfl, rfl, hpre⟩⟩
  | cons x tail ih =>
    have hpos := length_pos_iff.2 hne
    obtain ⟨tip, hfound, h⟩ := tip_bind_eq_some h
    have hread := consults_headerAt c c.height
    rw [hpre.height_eq, hpre.headerAt_fst (fun _ h => h)] at hfound
    have hreads : Consults (CheckReads rules.tipOnly c₀ tip)
        (fun k => k = c₀.height ∧ c₀.Spans k) c₀ (c.headerAt c.height).2 := by
      refine Consults.trans (hpre.mono (fun _ h => h.elim) (fun _ => id))
        (hread.mono ?_ (fun _ h => h.elim))
      rintro k ⟨rfl, hspans⟩
      exact ⟨(hpre.spans_iff _).1 hspans, .inl hpre.height_eq⟩
    -- the loop stops at `x`: reads, then everything is undone
    have hstop : ∀ e, failInstall e (c.headerAt c.height).2 = some (r, c') →
        ∃ pushed c₁, (∀ e ∈ pushed, e.1 ∈ x :: tail) ∧ Grows rules.tipOnly Child c₀ pushed c₁ ∧
          (pushed.map (·.1) = x :: tail ∧ r = .ok (pushed.map installedHeader) ∧
              Consults (fun _ => False) (fun k => k = c₁.height ∧ c₁.Spans k) c₁ c' ∨
            ∃ e c₂, r = .error e ∧ Consults c₁.Spans c₁.Spans c₁ c₂ ∧
              c' = c₂.rollbackInstall) := by
      intro e hfail
      obtain ⟨hr, hend⟩ := failInstall_outcome hfail
      exact ⟨[], c₀, by simp, .nil _, .inr ⟨e, _, hr,
        hreads.mono (fun _ h => h.1) (fun _ h => h.2), hend⟩⟩
    split at h
    · exact hstop _ h
    rename_i hparent
    split at h
    · exact hstop _ h
    rename_i hheight
    rcases hpow : HeaderChain.checkPow rules.toHeaderRules x with _ | _ <;> rw [hpow] at h
    · exact hstop _ h
    · obtain ⟨total, c₂, hpushes, h⟩ := pushHeader_bind_eq_some h
      obtain ⟨-, htipHeight⟩ := hc.headerAt_id hfound
      have hchild : x.parentId = tip.id := Decidable.not_not.1 hparent
      have hnext : x.height = c₀.height + 1 := by
        rw [← htipHeight]
        exact Decidable.not_not.1 hheight
      have hplace : x.height = base + ids.length := by
        rw [hnext, hc.height_eq hne]
        omega
      have hgrown := (hc.consults hreads).pushes hpushes hplace (hids x mem_cons_self)
      have hheight₂ : c₂.height = x.height := by
        rw [hgrown.height_eq (by simp), length_append, length_singleton, hplace]
        omega
      have hspans : c₂.Spans x.height := by
        rw [hgrown.spans_iff, length_append, length_singleton]
        omega
      have hgrow : ∀ {xs c₃}, Grows rules.tipOnly Child c₂ xs c₃ →
          Grows rules.tipOnly Child c₀ ((x, total) :: xs) c₃ :=
        .cons hfound hreads hnext hchild ⟨hpushes.exists_score⟩
      rw [read_bind, hpushes.scoreAt hspans] at h
      have hscore : Consults (fun _ => False) (fun k => k = c₂.height ∧ c₂.Spans k) c₂
          (c₂.scoreAt x.height).2 := by
        rw [hheight₂]
        exact consults_scoreAt c₂ x.height
      have hrest : ∀ y ∈ tail, heightOf y.id = y.height :=
        fun y hy => hids y (mem_cons_of_mem _ hy)
      have hmem : ∀ {xs : List (Header × ℕ)}, (∀ e ∈ xs, e.1 ∈ tail) →
          ∀ e ∈ (x, total) :: xs, e.1 ∈ x :: tail := by
        intro xs hxs e he
        rcases mem_cons.1 he with rfl | he
        · exact mem_cons_self
        · exact mem_cons_of_mem _ (hxs e he)
      rcases bind_eq_some h with ⟨e, htail, rfl⟩ | ⟨installed, c₃, htail, h⟩
      · obtain ⟨pushed, c₄, hin, hgrows, ⟨-, hr, -⟩ | ⟨e', c₅, -, hend⟩⟩ :=
          ih hgrown (by simp) hrest hscore htail
        · cases hr
        · exact ⟨_, c₄, hmem hin, hgrow hgrows, .inr ⟨e, c₅, rfl, hend⟩⟩
      · cases h
        obtain ⟨pushed, c₄, hin, hgrows, ⟨hall, hr, hend⟩ | ⟨e', c₅, hr, -⟩⟩ :=
          ih hgrown (by simp) hrest hscore htail
        · cases hr
          exact ⟨_, c₄, hmem hin, hgrow hgrows, .inl ⟨by rw [map_cons, hall], rfl, hend⟩⟩
        · cases hr

lemma Coherent.rebase (hc : Coherent heightOf base [] c) (base' : ℕ) :
    Coherent heightOf base' [] c := ⟨hc.baseHeight_eq, hc.filed, rfl, hc.served⟩

lemma Coherent.installHead {head : Header} (hc : Coherent heightOf base [] c)
    (hid : heightOf head.id = head.height) :
    Coherent heightOf head.height [head.id] (c.installHead head) := by
  have hadded := (hc.rebase head.height).addHeader (x := head) rfl hid 0
  exact ⟨rfl, hadded.filed, hadded.heights, hadded.served⟩

lemma Coherent.rollbackInstall (hc : Coherent heightOf base ids c) (base' : ℕ) :
    Coherent heightOf base' [] c.rollbackInstall where
  baseHeight_eq := rfl
  filed := .empty heightOf
  heights := rfl
  served := by
    rintro k x (hpeek | hload)
    · cases hpeek
    · exact hc.served k x (.inr hload)

lemma installFromNipopowProof_outcome {head : Header} (hc : Coherent heightOf base ids c)
    (hids : ∀ x ∈ head :: tail, heightOf x.id = x.height)
    (h : installFromNipopowProof rules head tail c = some (r, c')) :
    (∃ e, r = .error e ∧ c' = c) ∨
      ids = [] ∧ ∃ pushed c₁, (∀ e ∈ pushed, e.1 ∈ tail) ∧
        Grows rules.tipOnly Child (c.installHead head) pushed c₁ ∧
        (pushed.map (·.1) = tail ∧ r = .ok (installedHeader (head, 0) :: pushed.map installedHeader) ∧
            Consults (fun _ => False) (fun k => k = c₁.height ∧ c₁.Spans k) c₁ c' ∨
          ∃ e c₂, r = .error e ∧ Consults c₁.Spans c₁.Spans c₁ c₂ ∧ c' = c₂.rollbackInstall) := by
  rcases ofExcept_bind_eq_some h with ⟨e, rfl, rfl⟩ | ⟨_, hempty, h⟩
  · exact .inl ⟨e, rfl, rfl⟩
  rcases ofExcept_bind_eq_some h with ⟨e, rfl, rfl⟩ | ⟨_, -, h⟩
  · exact .inl ⟨e, rfl, rfl⟩
  right
  obtain rfl : ids = [] :=
    length_eq_zero_iff.1 (hc.filed.size_eq ▸ require_eq_ok.1 hempty)
  have hhead := hc.installHead (hids head mem_cons_self)
  have htail : ∀ x ∈ tail, heightOf x.id = x.height :=
    fun x hx => hids x (mem_cons_of_mem _ hx)
  refine ⟨rfl, ?_⟩
  rw [modify_bind] at h
  rcases bind_eq_some h with ⟨e, hloop, rfl⟩ | ⟨installed, c₁, hloop, h⟩
  · obtain ⟨pushed, c₂, hin, hgrows, ⟨-, hr, -⟩ | ⟨e', c₃, hr, hend⟩⟩ :=
      installTail_outcome hhead (by simp) htail (.refl _) hloop
    · cases hr
    · exact ⟨pushed, c₂, hin, hgrows, .inr ⟨e, c₃, rfl, hend⟩⟩
  · cases h
    obtain ⟨pushed, c₂, hin, hgrows, ⟨hall, hr, hend⟩ | ⟨e', c₃, hr, -⟩⟩ :=
      installTail_outcome hhead (by simp) htail (.refl _) hloop
    · cases hr
      exact ⟨pushed, c₂, hin, hgrows, .inl ⟨hall, rfl, hend⟩⟩
    · cases hr

end Shape

end CachedChain

end ErgoNode
