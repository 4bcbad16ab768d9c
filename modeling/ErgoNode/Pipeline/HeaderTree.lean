import ErgoNode.Pipeline.Scores

/-!
# Trees of valid headers

A finite set of headers that forms a tree above the first header of a chain. Every header of the
tree has one branch from the root, and the branch determines its cumulative score.
-/

namespace ErgoNode

open List HeaderChain

variable {rules : PipelineRules} {e : ChainEntry} {n : ℕ} {c : HeaderChain}

/-- A path from `base` upwards through headers of `T`. -/
structure IsBranch (rules : HeaderRules) (base : ChainEntry) (T : List Header)
    (es : List ChainEntry) : Prop where
  head : es.head? = some base
  isChain : es.IsChain (ChainEntry.Follows rules)
  mem : ∀ e ∈ es, e.header ∈ T

namespace IsBranch

variable {hrules : HeaderRules} {base : ChainEntry} {T : List Header} {es es' : List ChainEntry}

variable (h : IsBranch hrules base T es)

include h

lemma ne_nil : es ≠ [] := by
  rintro rfl
  simpa using h.head

lemma exists_last : ∃ e, es.getLast? = some e :=
  ⟨_, getLast?_eq_some_getLast h.ne_nil⟩

lemma base_mem : base ∈ es := mem_of_head? h.head

lemma linked (c : HeaderChain) :
    ({ c with entries := es } : HeaderChain).Linked hrules :=
  h.isChain

lemma concat {last : ChainEntry} (hlast : es.getLast? = some last)
    (hfollows : ChainEntry.Follows hrules last e) (hmem : e.header ∈ T) :
    IsBranch hrules base T (es ++ [e]) where
  head := by rw [head?_append_of_ne_nil _ h.ne_nil, h.head]
  isChain := by
    refine h.isChain.append (isChain_singleton _) ?_
    intro a ha b hb
    obtain rfl : last = a := by simpa [hlast] using ha
    obtain rfl : e = b := by simpa using hb
    exact hfollows
  mem x hx := by
    rcases mem_append.1 hx with hx | hx
    · exact h.mem x hx
    · obtain rfl := mem_singleton.1 hx
      exact hmem

lemma eq_singleton_or_concat :
    es = [base] ∨ ∃ init last e, es = init ++ [e] ∧ IsBranch hrules base T init ∧
      init.getLast? = some last ∧ ChainEntry.Follows hrules last e := by
  obtain ⟨e, he⟩ := h.exists_last
  obtain ⟨init, rfl⟩ := getLast?_eq_some_iff.1 he
  cases hlast : init.getLast? with
  | none =>
    rw [getLast?_eq_none_iff] at hlast
    subst hlast
    left
    simpa using h.head
  | some last =>
    have hne : init ≠ [] := by
      rintro rfl
      simp at hlast
    right
    refine ⟨init, last, e, rfl, ⟨?_, h.isChain.left_of_append, ?_⟩, hlast, ?_⟩
    · rw [← h.head, head?_append_of_ne_nil _ hne]
    · exact fun x hx => h.mem x (mem_append_left _ hx)
    · obtain ⟨front, rfl⟩ := getLast?_eq_some_iff.1 hlast
      have hchain := h.isChain
      rw [append_assoc, singleton_append] at hchain
      exact (isChain_cons_cons.1 hchain.right_of_append).1

lemma base_le (he : e ∈ es) :
    e = base ∨ base.header.height < e.header.height := by
  obtain ⟨tail, rfl⟩ := head?_eq_some_iff.1 h.head
  rcases mem_cons.1 he with rfl | he
  · exact Or.inl rfl
  · have hpairwise := (h.linked (new .mainnet)).pairwise
    exact Or.inr ((pairwise_cons.1 hpairwise).1 e he)

omit h in
lemma eq_of_last {rules : PipelineRules} (hfree : CollisionFree rules)
    (hparsed : ∀ h ∈ T, Parsed rules h) (h : IsBranch rules.toHeaderRules base T es)
    (h' : IsBranch rules.toHeaderRules base T es') {e' : ChainEntry} (he : es.getLast? = some e)
    (he' : es'.getLast? = some e') (hid : e.header.id = e'.header.id) : es = es' := by
  induction hn : es.length generalizing es es' e e' with
  | zero => exact absurd (length_eq_zero_iff.1 hn) h.ne_nil
  | succ n ih =>
    have hheader : e.header = e'.header :=
      hfree _ _ (hparsed _ (h.mem e (mem_of_getLast? he)))
        (hparsed _ (h'.mem e' (mem_of_getLast? he'))) hid
    rcases h.eq_singleton_or_concat with rfl | ⟨init, last, x, rfl, hinit, hlast, hfollows⟩ <;>
      rcases h'.eq_singleton_or_concat with
        rfl | ⟨init', last', x', rfl, hinit', hlast', hfollows'⟩
    · rfl
    · -- the root at two heights
      obtain rfl : base = e := by simpa using he
      obtain rfl : x' = e' := by simpa using he'
      have hheight := hfollows'.height_eq
      rw [← hheader] at hheight
      rcases hinit'.base_le (mem_of_getLast? hlast') with heq | hlt
      · rw [heq] at hheight
        omega
      · omega
    · obtain rfl : x = e := by simpa using he
      obtain rfl : base = e' := by simpa using he'
      have hheight := hfollows.height_eq
      rw [hheader] at hheight
      rcases hinit.base_le (mem_of_getLast? hlast) with heq | hlt
      · rw [heq] at hheight
        omega
      · omega
    · obtain rfl : x = e := by simpa using he
      obtain rfl : x' = e' := by simpa using he'
      have hinits : init = init' := by
        refine ih hinit hinit' hlast hlast' ?_ (by simpa using hn)
        rw [← hfollows.parentId_eq, ← hfollows'.parentId_eq, hheader]
      subst hinits
      cases hlast.symm.trans hlast'
      have hscore : x.score = x'.score := by
        rw [hfollows.score_eq, hfollows'.score_eq, hheader]
      rw [ChainEntry.ext hheader hscore]

end IsBranch

/-- The headers of `T` form a tree of valid headers above `base`: connected, valid on their branch
at every clock reading, each with some work, no branch leaving another by more than the 1000 headers
that the pipeline walks back. `c` gives the configuration the checks run under. -/
structure HeaderTree (rules : PipelineRules) (clock : ℕ → Prop) (c : HeaderChain)
    (base : ChainEntry) (T : List Header) : Prop where
  parsed : ∀ h ∈ T, Parsed rules h
  rooted : ∀ h ∈ T, ∃ es e, IsBranch rules.toHeaderRules base T es ∧ es.getLast? = some e ∧
    e.header = h
  /-- Every header passes the checks of an append and of a reorg on top of its branch. -/
  valid : ∀ now, clock now → ∀ es last h, IsBranch rules.toHeaderRules base T es →
    es.getLast? = some last → h ∈ T → h.parentId = last.header.id →
    h.height = last.header.height + 1 →
    HeaderChain.validateChild rules.toHeaderRules now { c with entries := es } last.header h =
        .ok () ∧
      HeaderChain.validateReorgHeader rules.toHeaderRules now { c with entries := es } last.header
        h = .ok ()
  difficulty_pos : ∀ h ∈ T, 0 < rules.headerDifficulty h
  depth : ∀ es es', IsBranch rules.toHeaderRules base T es → IsBranch rules.toHeaderRules base T es' →
    (es.filter (fun e => e ∉ es')).length ≤ 1000

def IsTip (T : List Header) (e : ChainEntry) : Prop :=
  ∀ h ∈ T, ¬(h.parentId = e.header.id ∧ h.height = e.header.height + 1)

section Tree

variable {clock : ℕ → Prop} {c₀ : HeaderChain} {base : ChainEntry} {T : List Header}

lemma HeaderTree.exists_parent (tree : HeaderTree rules clock c₀ base T) {h : Header} (hmem : h ∈ T)
    (hne : h ≠ base.header) :
    ∃ init last, IsBranch rules.toHeaderRules base T init ∧ init.getLast? = some last ∧
      ChainEntry.Follows rules.toHeaderRules last
        ⟨h, last.score + rules.headerDifficulty h⟩ := by
  obtain ⟨es, e, hbranch, hlast, rfl⟩ := tree.rooted h hmem
  rcases hbranch.eq_singleton_or_concat with rfl | ⟨init, last, x, rfl, hinit, hl, hfollows⟩
  · obtain rfl : base = e := by simpa using hlast
    exact absurd rfl hne
  · obtain rfl : x = e := by simpa using hlast
    exact ⟨init, last, hinit, hl, hfollows.parentId_eq, hfollows.height_eq, rfl⟩

lemma HeaderTree.follows (tree : HeaderTree rules clock c₀ base T) (hfree : CollisionFree rules)
    {h : Header} (hmem : h ∈ T) (hne : h ≠ base.header) {es : List ChainEntry} {last : ChainEntry}
    (hbranch : IsBranch rules.toHeaderRules base T es) (hlast : es.getLast? = some last)
    (hparent : h.parentId = last.header.id) :
    ChainEntry.Follows rules.toHeaderRules last ⟨h, last.score + rules.headerDifficulty h⟩ := by
  obtain ⟨init, last', hinit, hlast', hfollows⟩ := tree.exists_parent hmem hne
  have heq : init = es := hinit.eq_of_last hfree tree.parsed hbranch hlast' hlast
    (hfollows.parentId_eq.symm.trans hparent)
  subst heq
  cases hlast'.symm.trans hlast
  exact hfollows

lemma Known.eq_of_isBranch {store : ModifierStore}
    (hfree : CollisionFree rules) (hparsedT : ∀ h ∈ T, Parsed rules h)
    (hchain : IsBranch rules.toHeaderRules base T c.entries) (hadd : ScoresAdd rules c store)
    {es : List ChainEntry} (hbranch : IsBranch rules.toHeaderRules base T es)
    (he : es.getLast? = some e) {score : ℕ} (hknown : Known c store e.header.id score) :
    score = e.score := by
  have hlinked : c.Linked rules.toHeaderRules := hchain.isChain
  have hparsed : ∀ x ∈ c.entries, Parsed rules x.header := fun x hx => hparsedT _ (hchain.mem x hx)
  induction hn : es.length generalizing es e score with
  | zero => exact absurd (length_eq_zero_iff.1 hn) hbranch.ne_nil
  | succ n ih =>
    rcases hbranch.eq_singleton_or_concat with rfl | ⟨init, last, x, rfl, hinit, hlast, hfollows⟩
    · obtain rfl : base = e := by simpa using he
      exact Known.unique hfree hlinked hparsed hadd hknown
        (Or.inl ⟨base, hchain.base_mem, rfl, rfl⟩)
    · obtain rfl : x = e := by simpa using he
      have hrec : ∀ s, Known c store x.header.parentId s → s = last.score := by
        intro s hs
        exact ih hinit hlast (hfollows.parentId_eq ▸ hs) (by simpa using hn)
      have hparsedx := hparsedT _ (hbranch.mem x (by simp))
      rw [hfollows.score_eq]
      by_cases hoff : c.contains x.header.id = false
      · -- off the chain: the stored score adds up from the parent's
        have hstored : storedScore store x.header.id = some score := by
          refine hknown.resolve_left ?_
          rintro ⟨y, hy, hid, -⟩
          exact contains_eq_false_iff.1 hoff y hy hid
        obtain ⟨parentScore, hparent, rfl⟩ := hadd.parent x.header score hparsedx hstored hoff
        rw [hrec parentScore hparent]
      · -- on the chain: its entry follows that of the parent
        simp only [contains_eq_false_iff, not_forall, not_not] at hoff
        obtain ⟨y, hy, hid⟩ := hoff
        have hyx : y.header = x.header := hfree _ _ (hparsed y hy) hparsedx hid
        have hlow : base.header.height < y.header.height := by
          have hheight := hfollows.height_eq
          rw [← hyx] at hheight
          rcases hinit.base_le (mem_of_getLast? hlast) with heq | hlt
          · rw [heq] at hheight
            omega
          · omega
        obtain ⟨y', hy', hfollows'⟩ := hlinked.exists_follows hy hchain.base_mem hlow
        have hscore : score = y.score := Known.unique hfree hlinked hparsed hadd hknown
          (Or.inl ⟨y, hy, hid, rfl⟩)
        have hparent : y'.score = last.score :=
          hrec _ (Or.inl ⟨y', hy', by rw [← hfollows'.parentId_eq, hyx], rfl⟩)
        rw [hscore, hfollows'.score_eq, hparent, hyx]

end Tree

/-! ## Listing the branches -/

def extendBranches (rules : HeaderRules) (T : List Header) (branches : List (List ChainEntry)) :
    List (List ChainEntry) :=
  branches.flatMap fun es =>
    match es.getLast? with
    | none => []
    | some last =>
      (T.filter (fun h => h.parentId = last.header.id ∧ h.height = last.header.height + 1)).map
        (fun h => es ++ [⟨h, last.score + rules.headerDifficulty h⟩])

def allBranches (rules : HeaderRules) (base : ChainEntry) (T : List Header) :
    ℕ → List (List ChainEntry)
  | 0 => [[base]]
  | n + 1 => [base] :: extendBranches rules T (allBranches rules base T n)

lemma IsBranch.mem_allBranches {hrules : HeaderRules} {base : ChainEntry} {T : List Header}
    {es : List ChainEntry} (h : IsBranch hrules base T es) (hn : es.length ≤ n + 1) :
    es ∈ allBranches hrules base T n := by
  induction n generalizing es with
  | zero =>
    rcases h.eq_singleton_or_concat with rfl | ⟨init, last, e, rfl, hinit, -, -⟩
    · simp [allBranches]
    · have := length_pos_iff.2 hinit.ne_nil
      simp only [length_append, length_singleton] at hn
      omega
  | succ n ih =>
    rcases h.eq_singleton_or_concat with rfl | ⟨init, last, e, rfl, hinit, hlast, hfollows⟩
    · simp [allBranches]
    · simp only [allBranches, mem_cons]
      right
      rw [extendBranches, mem_flatMap]
      refine ⟨init, ih hinit (by simpa using hn), ?_⟩
      rw [hlast]
      refine mem_map.2 ⟨e.header, mem_filter.2 ⟨h.mem e (by simp), ?_⟩, ?_⟩
      · simpa using ⟨hfollows.parentId_eq, hfollows.height_eq⟩
      · rw [← hfollows.score_eq]

lemma IsBranch.length_le {hrules : HeaderRules} {base : ChainEntry} {T : List Header}
    {es : List ChainEntry} (h : IsBranch hrules base T es)
    (hT : ∀ x ∈ T, x.height ≤ base.header.height + n) : es.length ≤ n + 1 := by
  have hlinked := h.linked (new .mainnet)
  have hb : ({ new .mainnet with entries := es } : HeaderChain).baseHeight =
      some base.header.height := by
    simp [baseHeight, h.head]
  have hpos := length_pos hb
  obtain ⟨e, he⟩ := h.exists_last
  have hheight := hlinked.getLast_height he
  rw [height_eq hb] at hheight
  have := hT _ (h.mem e (mem_of_getLast? he))
  dsimp only at hpos hheight
  omega

instance (hrules : HeaderRules) (a b : ChainEntry) : Decidable (ChainEntry.Follows hrules a b) :=
  decidable_of_iff (b.header.parentId = a.header.id ∧ b.header.height = a.header.height + 1 ∧
      b.score = a.score + hrules.headerDifficulty b.header)
    ⟨fun ⟨h₁, h₂, h₃⟩ => ⟨h₁, h₂, h₃⟩, fun h => ⟨h.parentId_eq, h.height_eq, h.score_eq⟩⟩

instance (hrules : HeaderRules) (base : ChainEntry) (T : List Header) (es : List ChainEntry) :
    Decidable (IsBranch hrules base T es) :=
  decidable_of_iff (es.head? = some base ∧ es.IsChain (ChainEntry.Follows hrules) ∧
      ∀ e ∈ es, e.header ∈ T)
    ⟨fun ⟨h₁, h₂, h₃⟩ => ⟨h₁, h₂, h₃⟩, fun h => ⟨h.head, h.isChain, h.mem⟩⟩

lemma headerTree_of_allBranches {clock : ℕ → Prop} {base : ChainEntry}
    {T : List Header} (hn : n < 1000) (hreach : ∀ x ∈ T, x.height ≤ base.header.height + n)
    (hparsed : ∀ h ∈ T, Parsed rules h)
    (hrooted : ∀ h ∈ T, ∃ es ∈ allBranches rules.toHeaderRules base T n,
      IsBranch rules.toHeaderRules base T es ∧ es.getLast?.map (·.header) = some h)
    (hvalid : ∀ now, clock now → ∀ es ∈ allBranches rules.toHeaderRules base T n,
      ∀ last ∈ es.getLast?, ∀ h ∈ T, h.parentId = last.header.id →
      h.height = last.header.height + 1 →
      HeaderChain.validateChild rules.toHeaderRules now { c with entries := es } last.header h =
          .ok () ∧
        HeaderChain.validateReorgHeader rules.toHeaderRules now { c with entries := es }
          last.header h = .ok ())
    (hpos : ∀ h ∈ T, 0 < rules.headerDifficulty h) : HeaderTree rules clock c base T where
  parsed := hparsed
  rooted h hmem := by
    obtain ⟨es, -, hes, hlast⟩ := hrooted h hmem
    obtain ⟨e, he, rfl⟩ := Option.map_eq_some_iff.1 hlast
    exact ⟨es, e, hes, he, rfl⟩
  valid now hclock es last h hes hlast hmem hparent hheight :=
    hvalid now hclock es (hes.mem_allBranches (hes.length_le hreach)) last hlast h hmem hparent
      hheight
  difficulty_pos := hpos
  depth es es' hes _ := by
    have := hes.length_le hreach
    have := length_filter_le (fun e => decide (e ∉ es')) es
    omega

lemma parsed_listRules {headers : List Header} (hlen : headers.length ≤ 256) {h : Header}
    (hmem : h ∈ headers) : Parsed (listRules headers) h := by
  obtain ⟨i, hi, rfl⟩ := getElem_of_mem hmem
  refine ⟨[UInt8.ofNat i], ?_⟩
  have hmod : (UInt8.ofNat i).toNat = i := by
    exact Nat.mod_eq_of_lt (by omega)
  simp [listRules, hmod, hi]

end ErgoNode
