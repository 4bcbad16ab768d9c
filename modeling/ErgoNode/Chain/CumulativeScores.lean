import ErgoNode.Chain.ChainStructure

/-!
# Cumulative scores

The score of a header is the sum of the difficulties up to it. A push reads the score of the tip and
adds one difficulty; the result is in a bounded cache, in front of a loader that knows the stored
scores by height only. Until the headers of a reorg are stored, the loader answers with the scores
of the branch that was left. `Scored` is the invariant. It needs room for the scores of a reorg,
until they are handed out.
-/

namespace ErgoNode

open List

namespace CachedChain

/-! ## Sums of difficulties -/

section Totals

variable (rules : CachedRules) (light : Bool)

/-- The sum of the difficulties of the headers of a chain. The head that a light chain starts from
does not count. -/
def total (hs : List Header) : ℕ :=
  ((if light then hs.tail else hs).map rules.headerDifficulty).sum

def totals (hs : List Header) : List ℕ :=
  (List.range hs.length).map (fun i => total rules light (hs.take (i + 1)))

@[simp]
lemma length_totals (hs : List Header) : (totals rules light hs).length = hs.length := by
  simp [totals]

lemma total_concat {hs : List Header} (hne : hs ≠ []) (x : Header) :
    total rules light (hs ++ [x]) = total rules light hs + rules.headerDifficulty x := by
  unfold total
  cases light with
  | false => simp
  | true => simp [tail_append_of_ne_nil hne]

lemma totals_concat (hs : List Header) (x : Header) :
    totals rules light (hs ++ [x]) = totals rules light hs ++ [total rules light (hs ++ [x])] := by
  unfold totals
  rw [length_append, length_singleton, range_succ, map_append,
    map_singleton, take_of_length_le (by simp)]
  congr 1
  apply map_congr_left
  intro i hi
  rw [take_append_of_le_length (mem_range.1 hi)]

lemma exists_totals_append (hs more : List Header) :
    ∃ ts, totals rules light (hs ++ more) = totals rules light hs ++ ts := by
  induction more using reverseRecOn with
  | nil => exact ⟨[], by simp⟩
  | append_singleton more x ih =>
    obtain ⟨ts, hts⟩ := ih
    rw [← append_assoc, totals_concat, hts, append_assoc]
    exact ⟨_, rfl⟩

lemma rowAt_totals_last (base : ℕ) {hs : List Header} (hne : hs ≠ []) :
    rowAt base (totals rules light hs) (base + hs.length - 1) = some (total rules light hs) := by
  have hpos := length_pos_iff.2 hne
  refine rowAt_eq_some.2 ⟨by omega, ?_⟩
  rw [show base + hs.length - 1 - base = hs.length - 1 by omega, totals, getElem?_map,
    getElem?_range (by omega), Option.map_some, Nat.sub_add_cancel hpos, take_length]

end Totals

/-! ## The scores of pushed headers -/

section Growth

variable {rules : CachedRules} {light : Bool} {heightOf : BlockId → ℕ} {base : ℕ}
  {hs : List Header} {check : Header → Header → Prop} {c c' : CachedChain} {xs : List (Header × ℕ)}

lemma Coherent.spans_iff_totals (hc : Coherent heightOf base (hs.map (·.id)) c) {k : ℕ} :
    c.Spans k ↔ (rowAt base (totals rules light hs) k).isSome := by
  rw [hc.spans_iff, isSome_rowAt, length_totals, length_map]

lemma Coherent.scoreAt_eq_totals (hc : Coherent heightOf base (hs.map (·.id)) c) {k t : ℕ}
    (ht : rowAt base (totals rules light hs) k = some t) (hview : c.lazy.scores.view k = some t) :
    (c.scoreAt k).1 = some t :=
  scoreAt_fst_eq_some.2 ⟨hc.spans_iff_totals.2 (by rw [ht]; rfl), hview⟩

variable {e : Header × ℕ}

/-- A push on a tip with the right score reads that score and writes the right one. -/
theorem Pushes.total_eq (hpush : Pushes rules e.1 e.2 c c')
    (hc : Coherent heightOf base (hs.map (·.id)) c) (hne : hs ≠ [])
    (hnext : e.1.height = base + hs.length)
    (hview : c.lazy.scores.view (base + hs.length - 1) = some (total rules light hs)) :
    e.2 = total rules light (hs ++ [e.1]) ∧ ∃ l : LazyCache ℕ ℕ,
      c.lazy.scores.Reads (· = base + hs.length - 1) l ∧
        c'.lazy.scores = l.put e.1.height e.2 := by
  have hprev : e.1.height - 1 = base + hs.length - 1 := by rw [hnext]
  have hscore : (c.scoreAt (e.1.height - 1)).1 = some (total rules light hs) := by
    rw [hprev]
    exact hc.scoreAt_eq_totals (rowAt_totals_last rules light base hne) hview
  obtain ⟨score, c₁, hread, htotal, rfl⟩ := hpush.exists_score
  rcases hread with ⟨hnone, -, -⟩ | ⟨hfound, rfl⟩
  · -- the chain is not empty
    rw [hc.baseHeight_eq, if_neg (by simpa using hne)] at hnone
    cases hnone
  · rw [hscore] at hfound
    rw [htotal, ← Option.some.inj hfound, total_concat rules light hne]
    refine ⟨rfl, (c.scoreAt (e.1.height - 1)).2.lazy.scores, ?_, rfl⟩
    exact (consults_scoreAt c _).scores.mono (fun k hk => hk.1.trans hprev)

lemma totals_grow_one (htotal : e.2 = total rules light (hs ++ [e.1]))
    (hnext : e.1.height = base + hs.length) :
    totals rules light (hs ++ [e.1]) = totals rules light hs ++ [e.2] ∧
      rowAt base (totals rules light (hs ++ [e.1])) e.1.height = some e.2 ∧
      ∀ k t, k ≠ e.1.height → rowAt base (totals rules light (hs ++ [e.1])) k = some t →
        rowAt base (totals rules light hs) k = some t := by
  have hsplit := totals_concat rules light hs e.1
  rw [← htotal] at hsplit
  obtain ⟨hnew, hold⟩ := rowAt_concat base (totals rules light hs) e.2
  rw [length_totals, ← hnext, ← hsplit] at hnew hold
  exact ⟨hsplit, hnew, hold⟩

/-- Growing within a set of heights for which there is room. -/
theorem grows_totals {S T : Finset ℕ} (hgrow : Grows rules check c xs c')
    (hc : Coherent heightOf base (hs.map (·.id)) c) (hids : ∀ e ∈ xs, heightOf e.1.id = e.1.height)
    (hne : hs ≠ []) (hbacked : c.lazy.scores.Backed (rowAt base (totals rules light hs)) T)
    (hT : T ⊆ S) (hfirst : T = ∅ ∨ c.height ∈ S) (hroom : S.card ≤ c.lazy.scores.cache.cap)
    (hheights : ∀ e ∈ xs, e.1.height ∈ S) :
    totals rules light (hs ++ xs.map (·.1)) = totals rules light hs ++ xs.map (·.2) ∧
      c'.lazy.scores.cache.cap = c.lazy.scores.cache.cap ∧
      ∃ T' ⊆ S, c'.lazy.scores.Backed (rowAt base (totals rules light (hs ++ xs.map (·.1)))) T' := by
  induction hgrow generalizing hs T with
  | nil c =>
    simp only [map_nil, append_nil, true_and]
    exact ⟨T, hT, hbacked⟩
  | @cons c c₁ c₂ c' tip e rest htip hread hheight hcheck hpush hrest ih =>
    have htop : c.height = base + hs.length - 1 := by
      rw [hc.height_eq (by simpa using hne), length_map]
    obtain ⟨hnext, htop', hgrown⟩ := hc.grow_one hne hread hheight hpush (hids e mem_cons_self)
    have hrow := rowAt_totals_last rules light base hne
    have hsome : ∀ k, k = base + hs.length - 1 → (rowAt base (totals rules light hs) k).isSome := by
      rintro k rfl
      rw [hrow]
      rfl
    have hmem : T = ∅ ∨ ∀ k, k = base + hs.length - 1 → k ∈ S :=
      hfirst.imp id (fun hmem k hk => by rwa [hk, ← htop])
    -- the score of the tip is read by the check and by the push
    have hreads : c.lazy.scores.Reads (· = base + hs.length - 1) c₁.lazy.scores :=
      hread.scores.mono (fun k hk => hk.1.trans htop)
    obtain ⟨T₁, -, hbacked₁⟩ := hbacked.reads_of_room hreads hsome hT hmem hroom
    obtain ⟨htotal, l, hreads', hscores⟩ := hpush.total_eq (hc.consults hread) hne hnext
      (hbacked₁.view_eq hrow)
    obtain ⟨T₂, hT₂, hbacked₂⟩ :=
      hbacked.reads_of_room (hreads.trans hreads') hsome hT hmem hroom
    have hcap : l.cache.cap = c.lazy.scores.cache.cap := (hreads.trans hreads').cap_eq
    -- and then the push writes its own
    obtain ⟨hsplit, hnew, hold⟩ := totals_grow_one htotal hnext
    have hsub : insert e.1.height T₂ ⊆ S :=
      Finset.insert_subset (hheights e mem_cons_self) hT₂
    have hbacked₃ := hbacked₂.put hnew hold
      (by rw [hcap]; exact (Finset.card_le_card hsub).trans hroom)
    have hcap₂ : c₂.lazy.scores.cache.cap = c.lazy.scores.cache.cap := by
      rw [hscores, LazyCache.cap_put, hcap]
    rw [← hscores] at hbacked₃
    obtain ⟨hrest, hcapEnd, hend⟩ := ih hgrown (forall_mem_cons.1 hids).2
      (by simp) hbacked₃ hsub (.inr (htop' ▸ hheights e mem_cons_self))
      (by rw [hcap₂]; exact hroom) (forall_mem_cons.1 hheights).2
    rw [append_assoc] at hrest hend
    refine ⟨?_, hcapEnd.trans hcap₂, hend⟩
    rw [map_cons, map_cons, ← singleton_append, hrest, hsplit, append_assoc]
    rfl

/-- Growing with the tip's score cached, which a push always leaves behind. -/
theorem grows_totals_correct (light : Bool) (hgrow : Grows rules check c xs c')
    (hc : Coherent heightOf base (hs.map (·.id)) c) (hids : ∀ e ∈ xs, heightOf e.1.id = e.1.height)
    (hne : hs ≠ []) (hcorrect : c.lazy.scores.Correct (rowAt base (totals rules light hs)))
    (hcached : (c.lazy.scores.cache.peek c.height).isSome) :
    totals rules light (hs ++ xs.map (·.1)) = totals rules light hs ++ xs.map (·.2) ∧
      c'.lazy.scores.Correct (rowAt base (totals rules light (hs ++ xs.map (·.1)))) ∧
      (c'.lazy.scores.cache.peek c'.height).isSome := by
  induction hgrow generalizing hs with
  | nil c =>
    simp only [map_nil, append_nil, true_and]
    exact ⟨hcorrect, hcached⟩
  | @cons c c₁ c₂ c' tip e rest htip hread hheight hcheck hpush hrest ih =>
    have htop : c.height = base + hs.length - 1 := by
      rw [hc.height_eq (by simpa using hne), length_map]
    obtain ⟨hnext, htop', hgrown⟩ := hc.grow_one hne hread hheight hpush (hids e mem_cons_self)
    have hrow := rowAt_totals_last rules light base hne
    rw [htop] at hcached
    have hreads : c.lazy.scores.Reads (· = base + hs.length - 1) c₁.lazy.scores :=
      hread.scores.mono (fun k hk => hk.1.trans htop)
    obtain ⟨hcorrect₁, hcached₁⟩ := hcorrect.reads_of_cached hrow hcached hreads (fun _ h => h)
    obtain ⟨htotal, l, hreads', hscores⟩ := hpush.total_eq (hc.consults hread) hne hnext
      (hcorrect₁.view_eq_of_cached hrow hcached₁)
    obtain ⟨hcorrect₂, -⟩ := hcorrect₁.reads_of_cached hrow hcached₁ hreads' (fun _ h => h)
    obtain ⟨hsplit, hnew, hold⟩ := totals_grow_one htotal hnext
    have hcorrect₃ := hcorrect₂.put hnew hold
    rw [← hscores] at hcorrect₃
    have hcached₃ : (c₂.lazy.scores.cache.peek c₂.height).isSome := by
      rw [htop', hscores]
      show ((l.cache.put e.1.height e.2).peek e.1.height).isSome
      rw [LruCache.peek_put_self]
      rfl
    obtain ⟨hrest, hend⟩ := ih hgrown (forall_mem_cons.1 hids).2 (by simp)
      hcorrect₃ hcached₃
    rw [append_assoc] at hrest hend
    refine ⟨?_, hend⟩
    rw [map_cons, map_cons, ← singleton_append, hrest, hsplit, append_assoc]
    rfl

/-- What is handed out for pushed headers, while all of their scores are backed. -/
theorem handOut_eq_ok {contents : ℕ → Option ℕ} {headers : List Header} {scores : List (ℕ × ℕ)}
    {S T : Finset ℕ} (h : handOut headers c = some (.ok scores, c'))
    (hcontents : ∀ x ∈ headers, (contents x.height).isSome)
    (hbacked : c.lazy.scores.Backed contents T) (hT : T ⊆ S)
    (hroom : S.card ≤ c.lazy.scores.cache.cap) (hheights : ∀ x ∈ headers, x.height ∈ S) :
    scores = headers.map (fun x => (x.height, (contents x.height).getD 0)) ∧
      c'.lazy.scores.Correct contents := by
  induction headers generalizing c T scores with
  | nil =>
    obtain ⟨hscores, rfl⟩ := Call.pure_eq_some.1 h
    exact ⟨Except.ok.inj hscores, hbacked.correct⟩
  | cons x headers ih =>
    rw [handOut, Call.read_bind] at h
    cases hfound : (c.scoreAt x.height).1 with
    | none =>
      rw [hfound] at h
      exact (Call.crash_eq_some.1 h).elim
    | some score =>
      rw [hfound] at h
      obtain ⟨rest, c₁, hrest, h⟩ := Call.bind_eq_ok.1 h
      obtain ⟨hscores, rfl⟩ := Call.pure_eq_some.1 h
      cases hscores
      obtain ⟨t, ht⟩ := Option.isSome_iff_exists.1 (hcontents x mem_cons_self)
      obtain ⟨-, hview⟩ := scoreAt_fst_eq_some.1 hfound
      have hread := consults_scoreAt c x.height
      obtain ⟨T₁, hT₁, hbacked₁⟩ := hbacked.reads_of_room hread.scores
        (fun k hk => hk.1 ▸ hcontents x mem_cons_self) hT
        (.inr (fun k hk => hk.1 ▸ hheights x mem_cons_self)) hroom
      obtain ⟨rfl, hend⟩ := ih hrest (forall_mem_cons.1 hcontents).2 hbacked₁
        hT₁ (by rw [hread.scores.cap_eq]; exact hroom)
        (forall_mem_cons.1 hheights).2
      refine ⟨?_, hend⟩
      rw [map_cons, ht, Option.getD_some, Option.some.inj ((hbacked.view_eq ht).symm.trans hview)]

end Growth

end CachedChain

namespace StoredChain

open CachedChain

variable {rules : CachedRules} {heightOf : BlockId → ℕ} {S : Set Header} {base : ℕ}
  {hs : List Header} {s s' : StoredChain} {op : ChainOp}

def ScoreRoom (rules : CachedRules) (s : StoredChain) (op : ChainOp) : Prop :=
  Reorgs rules s op → op.headers.length ≤ s.chain.lazy.scores.cache.cap

lemma length_headers_le (hkind : op.headers.length = 1 ∨ Reorgs rules s op)
    (hroom : ScoreRoom rules s op) : op.headers.length ≤ s.chain.lazy.scores.cache.cap := by
  rcases hkind with hone | hreorgs
  · rw [hone]
    exact s.chain.lazy.scores.cache.cap_pos
  · exact hroom hreorgs

/-! ## The invariant -/

/-- The headers of the chain with their scores. -/
structure Scored (rules : CachedRules) (heightOf : BlockId → ℕ) (S : Set Header) (base : ℕ)
    (hs : List Header) (s : StoredChain) : Prop extends Tracked heightOf S base hs s where
  backed : s.chain.lazy.scores.Backed (rowAt base (totals rules s.chain.lightClientMode hs)) ∅
  stored : ∀ k t, rowAt base (totals rules s.chain.lightClientMode hs) k = some t →
    s.scores k = some t

lemma scored_store (old : List ℕ) {c : CachedChain} {headers accepted : List Header}
    {scores : List (ℕ × ℕ)}
    (htracked : Tracked heightOf S base hs { s.store c headers scores with accepted := accepted })
    (htotals : totals rules c.lightClientMode hs = old ++ scores.map Prod.snd)
    (hcorrect : c.lazy.scores.Correct (rowAt base (totals rules c.lightClientMode hs)))
    (hold : ∀ k t, rowAt base old k = some t → s.scores k = some t)
    (hheights : scores.map Prod.fst = List.range' (base + old.length) scores.length) :
    Scored rules heightOf S base hs { s.store c headers scores with accepted := accepted } := by
  have hstored : ∀ k t, rowAt base (totals rules c.lightClientMode hs) k = some t →
      record scores s.scores k = some t := by
    intro k t ht
    rw [htotals] at ht
    exact record_eq_some hold hheights ht
  exact ⟨htracked, hcorrect.setLoader hstored, hstored⟩

lemma Scored.detaches (h : Scored rules heightOf S base hs s) {kept dropped : List Header}
    {saved : List (Header × ℕ)} {c : CachedChain} (hsplit : hs = kept ++ dropped)
    (hdetach : Detaches (· = s.chain.height) base (hs.map (·.id)) (kept.map (·.id)) saved s.chain c) :
    c.lazy.scores.Backed (rowAt base (totals rules s.chain.lightClientMode kept)) ∅ ∧
      c.lazy.scores.cache.cap = s.chain.lazy.scores.cache.cap := by
  obtain ⟨c₀, hreads, rfl⟩ := hdetach.chain
  rw [scores_dropSaved]
  have hread := h.backed.reads hreads.scores (fun k hk => h.coherent.spans_iff_totals.1 hk)
  obtain ⟨ts, hts⟩ := exists_totals_append rules s.chain.lightClientMode kept dropped
  have hkept : c₀.lazy.scores.Backed (rowAt base (totals rules s.chain.lightClientMode kept)) ∅ := by
    apply hread.mono
    intro k t ht
    rw [hsplit, hts]
    exact rowAt_append_of_some ht
  refine ⟨hkept.evictAll (fun k hk => ?_),
    (LazyCache.cap_foldl_evict _ _).trans hreads.scores.cap_eq⟩
  -- dropped heights are above those that are kept
  rw [hdetach.heights, length_map, mem_range'_1] at hk
  rw [← Option.not_isSome_iff_eq_none, isSome_rowAt, length_totals]
  omega

lemma rowAt_pushed {old : List ℕ} {pushed : List (Header × ℕ)}
    (hheights : pushed.map (·.1.height) = List.range' (base + old.length) pushed.length)
    (he : e ∈ pushed) : rowAt base (old ++ pushed.map (·.2)) e.1.height = some e.2 := by
  obtain ⟨i, hi⟩ := List.getElem?_of_mem he
  have hlt := (List.getElem?_eq_some_iff.1 hi).1
  have hheight : e.1.height = base + old.length + i := by
    have hrow := congrArg (fun l => l[i]?) hheights
    simp only [getElem?_map, hi, Option.map_some, getElem?_range' hlt] at hrow
    simpa using hrow
  refine rowAt_eq_some.2 ⟨by omega, ?_⟩
  rw [show e.1.height - base = old.length + i by omega, getElem?_append_right (by omega),
    Nat.add_sub_cancel_left, getElem?_map, hi, Option.map_some]

lemma Scored.transition (hS : ∀ x ∈ S, heightOf x.id = x.height)
    (h : Scored rules heightOf S base hs s) (hop : ∀ x ∈ op.headers, x ∈ S)
    (hroom : ScoreRoom rules s op) {base' : ℕ} {hs' : List Header}
    (ht : Transition rules heightOf base hs s op base' hs' s') :
    Scored rules heightOf S base' hs' s' := by
  have htracked := h.toTracked.transition hS hop ht
  cases ht with
  | @unchanged c R hcoherent huntouched =>
    refine ⟨htracked, ?_, ?_⟩
    · show c.lazy.scores.Backed (rowAt base (totals rules c.lightClientMode hs)) ∅
      rw [huntouched.light]
      refine h.backed.undisturbed huntouched.scores ?_
      rintro k t ht (hout | ⟨-, hnone⟩)
      · exact hout (h.coherent.spans_iff_totals.2 (by rw [ht]; rfl))
      · rw [h.coherent.scoreAt_eq_totals ht (h.backed.view_eq ht)] at hnone
        cases hnone
    · show ∀ k t, rowAt base (totals rules c.lightClientMode hs) k = some t → s.scores k = some t
      rw [huntouched.light]
      exact h.stored
  | cleared hempty hfull hcoherent =>
    exact ⟨htracked, .of_none (rowAt_nil base) _, fun k t ht => by
      rw [show totals rules _ [] = [] from rfl, rowAt_nil] at ht
      cases ht⟩
  | resized => exact ⟨htracked, h.backed.resize _ _, h.stored⟩
  | @first x t c _ hempty hheight hx hpush hstore =>
    subst hempty
    obtain ⟨scores, c', hcall, rfl⟩ := storeBranch_eq_some hstore
    have hnone : s.chain.baseHeight = none := by
      rw [h.coherent.baseHeight_eq, map_nil, if_pos rfl]
    -- nothing to add to
    obtain ⟨score, c₁, hread, htotal, hchain⟩ := hpush.exists_score
    obtain ⟨rfl, rfl⟩ : score = 0 ∧ c₁ = s.chain := by
      rcases hread with ⟨-, hscore, hc₁⟩ | ⟨hfound, -⟩
      · exact ⟨hscore, hc₁⟩
      · obtain ⟨⟨b, hb, -⟩, -⟩ := scoreAt_fst_eq_some.1 hfound
        cases hnone.symm.trans hb
    have hfull : c'.lightClientMode = false := by
      rw [(handOut_outcome hcall).lightClientMode_eq, hpush.lightClientMode_eq, h.full rfl]
    have htotals : totals rules c'.lightClientMode [x] = [t] := by
      rw [hfull, htotal]
      simp [totals, total]
    have hnew : rowAt 1 [t] 1 = some t := rfl
    have hbacked : c.lazy.scores.Backed (rowAt 1 [t]) {1} := by
      rw [hchain]
      show (s.chain.lazy.scores.put x.height t).Backed (rowAt 1 [t]) (insert 1 ∅)
      rw [hheight]
      refine (LazyCache.Backed.of_none (rowAt_nil 1) s.chain.lazy.scores).put hnew ?_ ?_
      · exact (rowAt_concat 1 ([] : List ℕ) t).2
      · rw [insert_empty_eq, Finset.card_singleton]
        exact s.chain.lazy.scores.cache.cap_pos
    obtain ⟨rfl, hcorrect⟩ := handOut_eq_ok hcall
      (by simp [hheight, hnew]) hbacked subset_rfl
      (by rw [Finset.card_singleton]; exact c.lazy.scores.cache.cap_pos) (by simp [hheight])
    refine scored_store [] htracked ?_ ?_ (by simp) (by simp [hheight])
    · rw [htotals]
      simp [hheight, hnew]
    · rwa [htotals]
  | @replaced kept dropped saved pushed c₁ c _ hsplit hdetach hgrow hall hkind hstore =>
    obtain ⟨scores, c', hcall, rfl⟩ := storeBranch_eq_some hstore
    have hkept : kept ≠ [] := fun hnil => hdetach.nonempty (by rw [hnil, map_nil])
    obtain ⟨hbacked₁, hcap₁⟩ := h.detaches hsplit hdetach
    have hpushed : ∀ e ∈ pushed, e.1 ∈ op.headers := by
      intro e he
      rw [← hall]
      exact mem_map_of_mem he
    -- room for the heights of the branch
    have hcard : (op.headers.map (·.height)).toFinset.card ≤ c₁.lazy.scores.cache.cap := by
      rw [hcap₁]
      refine (toFinset_card_le _).trans ?_
      rw [length_map]
      exact length_headers_le hkind hroom
    have hmem : ∀ x ∈ op.headers, x.height ∈ (op.headers.map (·.height)).toFinset :=
      fun x hx => mem_toFinset.2 (mem_map_of_mem hx)
    obtain ⟨htotals, hcap, T, hT, hbacked⟩ := grows_totals hgrow (h.coherent.detaches hdetach)
      (fun e he => hS e.1 (hop e.1 (hpushed e he))) hkept hbacked₁ (Finset.empty_subset _)
      (.inl rfl) hcard (fun e he => hmem e.1 (hpushed e he))
    rw [hall] at htotals hbacked
    have hlight : c'.lightClientMode = s.chain.lightClientMode := by
      rw [(handOut_outcome hcall).lightClientMode_eq, hgrow.lightClientMode_eq,
        hdetach.lightClientMode_eq]
    have hheights : pushed.map (·.1.height) =
        range' (base + (totals rules s.chain.lightClientMode kept).length) pushed.length := by
      have hheights := htracked.heights_of_append hS
      rw [← hall, map_map, length_map] at hheights
      rwa [length_totals]
    have hrow : ∀ e ∈ pushed, rowAt base (totals rules s.chain.lightClientMode (kept ++ op.headers))
        e.1.height = some e.2 := by
      intro e he
      rw [htotals]
      exact rowAt_pushed hheights he
    obtain ⟨hscores, hcorrect⟩ := handOut_eq_ok hcall (by
      intro x hx
      rw [← hall] at hx
      obtain ⟨e, he, rfl⟩ := mem_map.1 hx
      rw [hrow e he]
      rfl) hbacked hT (by rw [hcap]; exact hcard) hmem
    have hhanded : scores = pushed.map (fun e => (e.1.height, e.2)) := by
      rw [hscores, ← hall, map_map]
      apply map_congr_left
      intro e he
      show (e.1.height, (rowAt base _ e.1.height).getD 0) = _
      rw [hall, hrow e he, Option.getD_some]
    obtain ⟨ts, hts⟩ := exists_totals_append rules s.chain.lightClientMode kept dropped
    refine scored_store (totals rules s.chain.lightClientMode kept) htracked ?_ ?_ ?_ ?_
    · rw [hlight, htotals, hhanded, map_map]
      rfl
    · rwa [hlight]
    · intro k t ht
      apply h.stored
      rw [hsplit, hts]
      exact rowAt_append_of_some ht
    · rwa [hhanded, map_map, length_map]
  | @installed head pushed c₁ c hempty hhead hgrow hread =>
    subst hempty
    obtain ⟨hheadS, hpushed, hcoherent, htop⟩ := h.toTracked.installHead hS hop hhead
    have hfirst : (s.chain.installHead head).lazy.scores.Correct
        (rowAt head.height (totals rules true [head])) := correct_put_first _ _ _
    have hcached : ((s.chain.installHead head).lazy.scores.cache.peek
        (s.chain.installHead head).height).isSome := by
      rw [htop]
      show ((s.chain.lazy.scores.cache.put head.height 0).peek head.height).isSome
      rw [LruCache.peek_put_self]
      rfl
    obtain ⟨htotals, hcorrect, hcachedEnd⟩ := grows_totals_correct true hgrow hcoherent
      (fun e he => hS e.1 (hpushed e he)) (by simp) hfirst hcached
    have hgrown := h.toTracked.installed hS hheadS hgrow hpushed
    have hlast := rowAt_totals_last rules true head.height
      (cons_ne_nil head (pushed.map (·.1)))
    obtain ⟨hcorrectEnd, -⟩ := hcorrect.reads_of_cached
      (k := head.height + (head :: pushed.map (·.1)).length - 1) hlast
      (by rw [hgrown.height_eq (by simp), length_map] at hcachedEnd; exact hcachedEnd)
      hread.scores (fun k hk => by rw [hk.1, hgrown.height_eq (by simp), length_map])
    have hlight : c.lightClientMode = true := by
      rw [hread.lightClientMode_eq, hgrow.lightClientMode_eq]
      rfl
    have hheights := htracked.heights_eq hS
    have hstore : Tracked heightOf S head.height (head :: pushed.map (·.1))
        { s.store c (head :: pushed.map (·.1))
            ((head.height, 0) :: pushed.map (fun e => (e.1.height, e.2))) with
          accepted := s.accepted } := htracked
    refine scored_store [] hstore ?_ ?_ (by simp) ?_
    · rwa [hlight, nil_append, map_cons, map_map]
    · rwa [hlight]
    · rw [map_cons, map_map, length_cons, length_map, length_nil, Nat.add_zero]
      rwa [map_cons, map_map, length_cons, length_map] at hheights

/-! ## Runs -/

structure Lists (s : StoredChain) (base : ℕ) (hs : List Header) : Prop where
  spans_iff : ∀ k, s.chain.Spans k ↔ base ≤ k ∧ k < base + hs.length
  heightOf_iff : ∀ id k, s.chain.heightOf id = some k ↔ ∃ x, rowAt base hs k = some x ∧ x.id = id

lemma Tracked.lists (h : Tracked heightOf S base hs s) : Lists s base hs where
  spans_iff k := by
    rw [h.coherent.spans_iff, length_map]
  heightOf_iff id k := by
    show s.chain.byId[id]? = some k ↔ _
    rw [h.coherent.filed.rows]
    constructor
    · rintro ⟨hid, rfl⟩
      obtain ⟨i, hi⟩ := getElem?_of_mem hid
      rw [h.coherent.heightOf_eq hi]
      rw [getElem?_map, Option.map_eq_some_iff] at hi
      obtain ⟨x, hx, rfl⟩ := hi
      exact ⟨x, rowAt_eq_some.2 ⟨Nat.le_add_right _ _, by rwa [Nat.add_sub_cancel_left]⟩, rfl⟩
    · rintro ⟨x, hrow, rfl⟩
      obtain ⟨hle, hx⟩ := rowAt_eq_some.1 hrow
      have hid : (hs.map (·.id))[k - base]? = some x.id := by rw [getElem?_map, hx, Option.map_some]
      refine ⟨mem_of_getElem? hid, ?_⟩
      rw [h.coherent.heightOf_eq hid]
      omega

lemma scored_new (rules : CachedRules) (heightOf : BlockId → ℕ) (S : Set Header)
    (config : ChainConfig) : Scored rules heightOf S 0 [] (new config) where
  toTracked := (intact_new heightOf S config).toTracked
  backed := .of_none (rowAt_nil 0) _
  stored k t ht := by
    cases ht

/-- **The score at every height is the sum of the difficulties up to it**, when ids do not collide
and every reorg that succeeds finds room in the cache. -/
theorem scoreAt_eq_total_of_run (rules : CachedRules) (config : ChainConfig) {ops : List ChainOp}
    (hinj : Set.InjOn Header.id (inPlay (new config) ops))
    (hroom : MeetsAll (stepRun rules) (fun s? op => ∀ s ∈ s?, ScoreRoom rules s op)
      (some (new config)) ops) {s : StoredChain} (hrun : run rules (new config) ops = some s) :
    ∃ base hs, Lists s base hs ∧ (∀ x ∈ hs, x ∈ inPlay (new config) ops) ∧
      ∀ k, s.chain.Spans k → (s.chain.scoreAt k).1 =
        some (total rules s.chain.lightClientMode (hs.take (k - base + 1))) := by
  obtain ⟨heightOf, hS⟩ := exists_heightOf hinj
  obtain ⟨base, hs, h⟩ := exists_of_run hS (fun _ _ _ h => h.coherent)
    (fun _ _ _ _ _ _ _ h hop hroom ht => h.transition hS hop hroom ht)
    ⟨0, [], scored_new rules heightOf _ config⟩ (fun op hop x hx => .inr ⟨op, hop, hx⟩) hroom hrun
  refine ⟨base, hs, h.lists, h.inPlay, fun k hk => ?_⟩
  have hrow : rowAt base (totals rules s.chain.lightClientMode hs) k =
      some (total rules s.chain.lightClientMode (hs.take (k - base + 1))) := by
    rw [h.lists.spans_iff] at hk
    refine rowAt_eq_some.2 ⟨hk.1, ?_⟩
    rw [totals, getElem?_map, getElem?_range (by omega), Option.map_some]
  exact h.coherent.scoreAt_eq_totals hrow (h.backed.view_eq hrow)

theorem scoreAt_eq_total_of_run_sibling :
    ∃ s, run plainCachedRules (new .mainnet) siblingOps = some s ∧ (s.chain.scoreAt 3).1 = some 10 ∧
      ∃ base hs, Lists s base hs ∧ (∀ x ∈ hs, x ∈ inPlay (new .mainnet) siblingOps) ∧
        ∀ k, s.chain.Spans k → (s.chain.scoreAt k).1 =
          some (total plainCachedRules s.chain.lightClientMode (hs.take (k - base + 1))) := by
  have hroom : MeetsAll (stepRun plainCachedRules)
      (fun s? op => ∀ s ∈ s?, ScoreRoom plainCachedRules s op) (some (new .mainnet))
      siblingOps := by
    refine ⟨?_, ?_, trivial⟩
    · rintro s - ⟨⟩
    · rintro s ⟨⟩ -
      decide +kernel
  obtain ⟨s, hs, hscore⟩ : ∃ s, run plainCachedRules (new .mainnet) siblingOps = some s ∧
      (s.chain.scoreAt 3).1 = some 10 := ⟨_, rfl, rfl⟩
  exact ⟨s, hs, hscore, scoreAt_eq_total_of_run plainCachedRules .mainnet injOn_siblingOps hroom hs⟩

/-! ## A cache that is too small -/

/-- With room for one score, three headers are installed and the last two are replaced by easier
ones. -/
def oneScoreOps : List ChainOp :=
  [.setCacheCapacity 1 (by decide),
    .install (HeaderChain.plainHeader 1 0 1) [{ HeaderChain.plainHeader 2 1 2 with nBits := 7 },
      { HeaderChain.plainHeader 3 2 3 with nBits := 7 }],
    .reorgDeep 100000 1 [HeaderChain.plainHeader 12 1 2, HeaderChain.plainHeader 13 12 3]]

/-- The second push displaces the score of the first, for which the loader then answers with that of
the replaced header. The scores are 7 and 14 instead of 5 and 10. -/
theorem scoreAt_ne_total_of_small_cache :
    ∃ s, run plainCachedRules (new .mainnet) oneScoreOps = some s ∧
      s.chain.heightOf 1 = some 1 ∧ s.chain.heightOf 12 = some 2 ∧ s.chain.heightOf 13 = some 3 ∧
      total plainCachedRules s.chain.lightClientMode [HeaderChain.plainHeader 1 0 1,
        HeaderChain.plainHeader 12 1 2, HeaderChain.plainHeader 13 12 3] = 10 ∧
      (s.chain.scoreAt 2).1 = some 7 ∧ (s.chain.scoreAt 3).1 = some 14 :=
  ⟨_, rfl, rfl, rfl, rfl, rfl, rfl, rfl⟩

end StoredChain

end ErgoNode
