import ErgoNode.Chain.StoredChain

/-!
# The structure of the best chain

In every state that is reached, the id index is a bijection onto the heights of the chain, every
height has its header, headers name their predecessors, and timestamps increase where an append or a
reorg accepted a header. That a height resolves to its header rests on caches and store together:
headers that are not stored yet must still be cached, so a reorg needs room for the heights it
pushes and for those that the difficulty calculation reads. A restored chain has the links of the
stored headers.
-/

namespace ErgoNode

open List

namespace CachedChain

variable {rules : CachedRules} {heightOf : BlockId → ℕ} {base : ℕ} {hs : List Header}
  {c c' : CachedChain}

/-! ## Heights and rows -/

lemma Coherent.spans_iff_rowAt (hc : Coherent heightOf base (hs.map (·.id)) c) {k : ℕ} :
    c.Spans k ↔ (rowAt base hs k).isSome := by
  rw [hc.spans_iff, isSome_rowAt, length_map]

lemma Coherent.headerAt_eq_rowAt (hc : Coherent heightOf base (hs.map (·.id)) c) {k : ℕ}
    (hview : ∀ x, rowAt base hs k = some x → c.lazy.headers.view k = some x) :
    (c.headerAt k).1 = rowAt base hs k := by
  cases hrow : rowAt base hs k with
  | none =>
    rw [Option.eq_none_iff_forall_ne_some]
    intro x hx
    have hspans := hc.spans_iff_rowAt.1 (headerAt_fst_eq_some.1 hx).1
    rw [hrow] at hspans
    cases hspans
  | some x =>
    obtain ⟨hle, hx⟩ := rowAt_eq_some.1 hrow
    have hid : (hs.map (·.id))[k - base]? = some x.id := by
      rw [getElem?_map, hx]
      rfl
    refine headerAt_fst_eq_some.2 ⟨?_, hview x hrow, ?_⟩
    · rw [hc.spans_iff_rowAt, hrow]
      rfl
    · rw [hc.filed.rows]
      refine ⟨mem_of_getElem? hid, ?_⟩
      rw [hc.heightOf_eq hid]
      omega

lemma rowAt_getLast {last : Header} (hlast : hs.getLast? = some last) :
    rowAt base hs (base + hs.length - 1) = some last := by
  have hpos : 0 < hs.length := by
    rw [length_pos_iff]
    rintro rfl
    cases hlast
  rw [rowAt_eq_some]
  refine ⟨by omega, ?_⟩
  rwa [show base + hs.length - 1 - base = hs.length - 1 by omega, ← getLast?_eq_getElem?]

lemma Coherent.tip_eq_last {last tip : Header} (hc : Coherent heightOf base (hs.map (·.id)) c)
    (hlast : hs.getLast? = some last)
    (hview : ∀ x, rowAt base hs c.height = some x → c.lazy.headers.view c.height = some x)
    (htip : (c.headerAt c.height).1 = some tip) :
    tip = last ∧ last.height = c.height ∧ rowAt base hs c.height = some last := by
  have hne : hs.map (·.id) ≠ [] := by
    rw [Ne, map_eq_nil_iff]
    rintro rfl
    cases hlast
  have hrow : rowAt base hs c.height = some last := by
    rw [hc.height_eq hne, length_map]
    exact rowAt_getLast hlast
  have hfound := htip
  rw [hc.headerAt_eq_rowAt hview, hrow] at htip
  cases htip
  exact ⟨rfl, (hc.headerAt_id hfound).2, hrow⟩

/-! ## Growing with the headers at hand -/

section Growth

variable {check : Header → Header → Prop} {xs : List (Header × ℕ)} {last : Header}

/-- What is known of a header and the one it was pushed on. -/
def Checked (check : Header → Header → Prop) (a x : Header) : Prop :=
  check a x ∧ x.height = a.height + 1

lemma Coherent.grow_one {P Q : ℕ → Prop} {e : Header × ℕ} {c₁ c₂ : CachedChain}
    (hc : Coherent heightOf base (hs.map (·.id)) c) (hne : hs ≠ []) (hread : Consults P Q c c₁)
    (hheight : e.1.height = c.height + 1) (hpush : Pushes rules e.1 e.2 c₁ c₂)
    (hid : heightOf e.1.id = e.1.height) :
    e.1.height = base + hs.length ∧ c₂.height = e.1.height ∧
      Coherent heightOf base ((hs ++ [e.1]).map (·.id)) c₂ := by
  have hnext : e.1.height = base + hs.length := by
    have hpos := length_pos_iff.2 hne
    rw [hheight, hc.height_eq (by simpa using hne), length_map]
    omega
  have hgrown : Coherent heightOf base ((hs ++ [e.1]).map (·.id)) c₂ := by
    rw [map_append]
    exact (hc.consults hread).pushes hpush (by rw [length_map, hnext]) hid
  refine ⟨hnext, ?_, hgrown⟩
  rw [hgrown.height_eq (by simp), length_map, length_append, length_singleton, hnext]
  omega

/-- Growing within a set of heights for which there is room. -/
theorem grows_backed {S T : Finset ℕ} (hgrow : Grows rules check c xs c')
    (hc : Coherent heightOf base (hs.map (·.id)) c)
    (hids : ∀ e ∈ xs, heightOf e.1.id = e.1.height) (hlast : hs.getLast? = some last)
    (hbacked : c.lazy.headers.Backed (rowAt base hs) T) (hT : T ⊆ S)
    (hfirst : T = ∅ ∨ last.height ∈ S ∧ ∀ k ∈ rules.difficultyHeights c.config last, k ∈ S)
    (hroom : S.card ≤ c.lazy.headers.cache.cap) (hheights : ∀ x ∈ xs.map (·.1), x.height ∈ S)
    (hreads : ∀ x ∈ (xs.map (·.1)).dropLast, ∀ k ∈ rules.difficultyHeights c.config x, k ∈ S) :
    c'.lazy.headers.Correct (rowAt base (hs ++ xs.map (·.1))) ∧
      List.IsChain (Checked check) (last :: xs.map (·.1)) := by
  induction hgrow generalizing hs last T with
  | nil c =>
    rw [map_nil, append_nil]
    exact ⟨hbacked.correct, .singleton last⟩
  | @cons c c₁ c₂ c' tip e rest htip hread hheight hcheck hpush hrest ih =>
    obtain ⟨rfl, hlastHeight, -⟩ := hc.tip_eq_last hlast (fun x hx => hbacked.view_eq hx) htip
    have hne : hs ≠ [] := by
      rintro rfl
      cases hlast
    obtain ⟨hnext, -, hgrown⟩ := hc.grow_one hne hread hheight hpush (hids e mem_cons_self)
    -- the reads of the check, then the push
    obtain ⟨T₁, hT₁, hbacked₁⟩ := hbacked.reads_of_room hread.headers
      (fun k hk => hc.spans_iff_rowAt.1 hk.1) hT
      (hfirst.imp id (fun ⟨hlastMem, hwalk⟩ => by
        rintro k ⟨-, rfl | hk⟩
        · rwa [← hlastHeight]
        · exact hwalk k hk)) hroom
    have hmem : e.1.height ∈ S := hheights _ (by simp)
    have hsub : insert e.1.height T₁ ⊆ S := Finset.insert_subset hmem hT₁
    have hcap : c₁.lazy.headers.cache.cap = c.lazy.headers.cache.cap := hread.headers.cap_eq
    obtain ⟨hnew, hold⟩ := rowAt_concat base hs e.1
    rw [← hnext] at hnew hold
    have hbacked₂ := hbacked₁.put hnew hold
      (by rw [hcap]; exact (Finset.card_le_card hsub).trans hroom)
    rw [← hpush.headers_eq] at hbacked₂
    have hconfig : c₂.config = c.config := hpush.config_eq.trans hread.config_eq
    -- the difficulty of the next header, if there is one, is calculated from this one
    have hwalk : ∀ x ∈ e.1 :: (rest.map (·.1)).dropLast, rest ≠ [] →
        ∀ k ∈ rules.difficultyHeights c₂.config x, k ∈ S := by
      intro x hx hmore k hk
      refine hreads x ?_ k (hconfig ▸ hk)
      rwa [map_cons, dropLast_cons_of_ne_nil (by simpa using hmore)]
    cases rest with
    | nil =>
      cases hrest
      exact ⟨hbacked₂.correct, .cons_cons ⟨hcheck, by rw [hlastHeight, hheight]⟩ (.singleton _)⟩
    | cons e' rest =>
      obtain ⟨hcorrect, hchain⟩ := ih hgrown (forall_mem_cons.1 hids).2
        getLast?_concat hbacked₂ hsub
        (.inr ⟨hmem, hwalk e.1 mem_cons_self (cons_ne_nil _ _)⟩)
        (by rw [hpush.headers_eq, LazyCache.cap_put, hcap]; exact hroom)
        (forall_mem_cons.1 hheights).2
        (fun x hx => hwalk x (mem_cons_of_mem _ hx) (cons_ne_nil _ _))
      rw [append_assoc] at hcorrect
      exact ⟨hcorrect, .cons_cons ⟨hcheck, by rw [hlastHeight, hheight]⟩ hchain⟩

lemma grows_correct (hgrow : Grows rules.tipOnly check c xs c')
    (hc : Coherent heightOf base (hs.map (·.id)) c) (hids : ∀ e ∈ xs, heightOf e.1.id = e.1.height)
    (hlast : hs.getLast? = some last) (hcorrect : c.lazy.headers.Correct (rowAt base hs))
    (hcached : (c.lazy.headers.cache.peek c.height).isSome) :
    c'.lazy.headers.Correct (rowAt base (hs ++ xs.map (·.1))) ∧
      List.IsChain (Checked check) (last :: xs.map (·.1)) := by
  induction hgrow generalizing hs last with
  | nil c =>
    rw [map_nil, append_nil]
    exact ⟨hcorrect, .singleton last⟩
  | @cons c c₁ c₂ c' tip e rest htip hread hheight hcheck hpush hrest ih =>
    obtain ⟨rfl, hlastHeight, hrow⟩ := hc.tip_eq_last hlast
      (fun x hx => hcorrect.view_eq_of_cached hx hcached) htip
    have hne : hs ≠ [] := by
      rintro rfl
      cases hlast
    obtain ⟨hnext, htop, hgrown⟩ := hc.grow_one hne hread hheight hpush (hids e mem_cons_self)
    obtain ⟨hcorrect₁, -⟩ := hcorrect.reads_of_cached hrow hcached hread.headers (by
      rintro k ⟨-, rfl | hk⟩
      · rfl
      · cases hk)
    obtain ⟨hnew, hold⟩ := rowAt_concat base hs e.1
    rw [← hnext] at hnew hold
    have hcorrect₂ := hcorrect₁.put hnew hold
    rw [← hpush.headers_eq] at hcorrect₂
    have hcached₂ : (c₂.lazy.headers.cache.peek c₂.height).isSome := by
      rw [htop, hpush.headers_eq]
      show ((c₁.lazy.headers.cache.put e.1.height e.1).peek e.1.height).isSome
      rw [LruCache.peek_put_self]
      rfl
    obtain ⟨hend, hchain⟩ := ih hgrown (forall_mem_cons.1 hids).2
      getLast?_concat hcorrect₂ hcached₂
    rw [append_assoc] at hend
    exact ⟨hend, .cons_cons ⟨hcheck, by rw [hlastHeight, hheight]⟩ hchain⟩

end Growth

/-! ## The linkage walk -/

section Linkage

lemma loadForLinkageWalk_eq (hc : Coherent heightOf base (hs.map (·.id)) c)
    (hbacked : c.lazy.headers.Backed (rowAt base hs) ∅) {h : ℕ} {x : Header}
    (hrow : rowAt base hs h = some x) (hheight : x.height = h) :
    ∃ c', loadForLinkageWalk h c = some (.ok x, c') ∧
      Coherent heightOf base (hs.map (·.id)) c' ∧ c'.lazy.headers.Backed (rowAt base hs) ∅ := by
  have hview := hbacked.view_eq hrow
  have hindex : c.byId[x.id]? = some h := by
    have hfound := hc.headerAt_eq_rowAt (k := h) (fun y hy => hbacked.view_eq hy)
    rw [hrow] at hfound
    exact (headerAt_fst_eq_some.1 hfound).2.2
  have hread : Consults (fun k => k = h) (fun _ => False) c
      { c with lazy := (c.lazy.getHeader h).2 } := ⟨rfl, .single _ rfl, .refl _⟩
  refine ⟨{ c with lazy := (c.lazy.getHeader h).2 }, ?_, hc.consults hread, ?_⟩
  · rw [loadForLinkageWalk, Call.state_bind, Call.read_bind]
    have hfst : (c.lazy.getHeader h).1 = some x := (LazyCache.get_fst _ _).trans hview
    simp only [hfst]
    rw [if_neg (fun hne => hne hheight), hindex]
    simp only [if_true]
    rfl
  · apply hbacked.reads hread.headers
    rintro k rfl
    rw [hrow]
    rfl

lemma linkageWalk_eq (hc : Coherent heightOf base (hs.map (·.id)) c)
    (hbacked : c.lazy.headers.Backed (rowAt base hs) ∅)
    (hheights : ∀ k x, rowAt base hs k = some x → x.height = k)
    (hlinked : ∀ k x y, rowAt base hs k = some x → rowAt base hs (k + 1) = some y →
      y.parentId = x.id) {links h : ℕ} {child : Header} (hchild : rowAt base hs h = some child)
    (hlinks : base + links ≤ h) : ∃ c', linkageWalk links h child c = some (.ok (), c') := by
  induction links generalizing c h child with
  | zero => exact ⟨c, rfl⟩
  | succ links ih =>
    have hbound := isSome_rowAt.1 (by rw [hchild]; rfl)
    obtain ⟨parent, hparent⟩ := Option.isSome_iff_exists.1
      (isSome_rowAt.2 (by omega : base ≤ h - 1 ∧ h - 1 < base + hs.length))
    obtain ⟨c₁, hload, hc₁, hbacked₁⟩ :=
      loadForLinkageWalk_eq hc hbacked hparent (hheights _ _ hparent)
    have hlink : child.parentId = parent.id :=
      hlinked (h - 1) parent child hparent (by rw [Nat.sub_add_cancel (by omega)]; exact hchild)
    obtain ⟨c₂, hwalk⟩ := ih hc₁ hbacked₁ hparent (by omega)
    refine ⟨c₂, ?_⟩
    rw [linkageWalk, Call.bind_eq_ok]
    refine ⟨parent, c₁, hload, Call.bind_eq_ok.2 ⟨(), c₁, ?_, hwalk⟩⟩
    rw [Call.ofExcept_eq_some, eq_comm, require_eq_ok]
    exact ⟨hlink, rfl⟩

lemma verifyBestChainLinkage_eq (hc : Coherent heightOf base (hs.map (·.id)) c)
    (hbacked : c.lazy.headers.Backed (rowAt base hs) ∅)
    (hheights : ∀ k x, rowAt base hs k = some x → x.height = k)
    (hlinked : ∀ k x y, rowAt base hs k = some x → rowAt base hs (k + 1) = some y →
      y.parentId = x.id) : ∃ c', verifyBestChainLinkage none c = some (.ok (), c') := by
  rw [verifyBestChainLinkage, Call.state_bind, hc.baseHeight_eq]
  split
  · exact ⟨c, rfl⟩
  next hne =>
    dsimp only
    split
    · exact ⟨c, rfl⟩
    · have hheight : c.height = base + hs.length - 1 := by
        rw [hc.height_eq hne, length_map]
      obtain ⟨tip, htip⟩ := Option.isSome_iff_exists.1
        (isSome_rowAt.2 (by omega : base ≤ c.height ∧ c.height < base + hs.length))
      obtain ⟨c₁, hload, hc₁, hbacked₁⟩ := loadForLinkageWalk_eq hc hbacked htip (hheights _ _ htip)
      obtain ⟨c₂, hwalk⟩ := linkageWalk_eq hc₁ hbacked₁ hheights hlinked htip
        (by omega : base + (c.height - base) ≤ c.height)
      exact ⟨c₂, Call.bind_eq_ok.2 ⟨tip, c₁, hload, hwalk⟩⟩

end Linkage

end CachedChain

namespace StoredChain

open CachedChain

variable {rules : CachedRules} {heightOf : BlockId → ℕ} {S : Set Header} {base : ℕ}
  {hs : List Header} {s s' : StoredChain} {op : ChainOp}
variable {config : ChainConfig} {x : Header} {k : ℕ} {c : CachedChain} {kept : List Header}
  {entries : List (ℕ × BlockId)} {saved : List (Header × ℕ)} {branch : List Header}

/-! ## Room for a reorg -/

/-- The heights a reorg uses from its first push on: its own, and those its difficulties are
calculated from. -/
def reorgHeights (rules : CachedRules) (config : ChainConfig) (branch : List Header) : Finset ℕ :=
  (branch.map (·.height) ++ branch.dropLast.flatMap (rules.difficultyHeights config)).toFinset

def HeaderRoom (rules : CachedRules) (s : StoredChain) (op : ChainOp) : Prop :=
  Reorgs rules s op →
    (reorgHeights rules s.chain.config op.headers).card ≤ s.chain.lazy.headers.cache.cap

lemma height_mem_reorgHeights (hx : x ∈ branch) : x.height ∈ reorgHeights rules config branch :=
  mem_toFinset.2 (mem_append_left _ (mem_map_of_mem hx))

lemma read_mem_reorgHeights
    (hx : x ∈ branch.dropLast) (hk : k ∈ rules.difficultyHeights config x) :
    k ∈ reorgHeights rules config branch :=
  mem_toFinset.2 (mem_append_right _ (mem_flatMap.2 ⟨x, hx, hk⟩))

lemma card_reorgHeights_le (hkind : op.headers.length = 1 ∨ Reorgs rules s op)
    (hroom : HeaderRoom rules s op) :
    (reorgHeights rules s.chain.config op.headers).card ≤ s.chain.lazy.headers.cache.cap := by
  rcases hkind with hone | hreorgs
  · obtain ⟨x, hx⟩ := length_eq_one_iff.1 hone
    rw [hx]
    show ({x.height} : Finset ℕ).card ≤ _
    exact s.chain.lazy.headers.cache.cap_pos
  · exact hroom hreorgs

/-! ## The invariant -/

/-- The headers of the chain with what backs them, and their links. -/
structure Intact (heightOf : BlockId → ℕ) (S : Set Header) (base : ℕ) (hs : List Header)
    (s : StoredChain) : Prop extends Tracked heightOf S base hs s where
  backed : s.chain.lazy.headers.Backed (rowAt base hs) ∅
  stored : ∀ k x, rowAt base hs k = some x → s.headers k = some x
  linked : hs.IsChain Child
  /-- An accepted header is later than the one it names, apart from the first of the chain. -/
  later : ∀ x ∈ s.accepted, x.height ≤ base ∨ ∀ a ∈ S, Child a x → a.timestamp < x.timestamp
  fresh : hs = [] → s.accepted = []

lemma Tracked.heights_eq (hS : ∀ x ∈ S, heightOf x.id = x.height)
    (h : Tracked heightOf S base hs s) : hs.map (·.height) = List.range' base hs.length := by
  have hheights := h.coherent.heights
  rw [map_map, length_map] at hheights
  rw [← hheights]
  exact map_congr_left (fun x hx => (hS x (h.inPlay x hx)).symm)

lemma Tracked.height_eq (hS : ∀ x ∈ S, heightOf x.id = x.height)
    (h : Tracked heightOf S base hs s) (hrow : rowAt base hs k = some x) :
    x.height = k := by
  obtain ⟨hle, hx⟩ := rowAt_eq_some.1 hrow
  have hheight := congrArg (fun l => l[k - base]?) (h.heights_eq hS)
  have hlt := (List.getElem?_eq_some_iff.1 hx).1
  simp only [getElem?_map, hx, Option.map_some, getElem?_range', hlt] at hheight
  simp at hheight
  omega

lemma Tracked.rowAt_height (hS : ∀ x ∈ S, heightOf x.id = x.height)
    (h : Tracked heightOf S base hs s) (hx : x ∈ hs) :
    rowAt base hs x.height = some x := by
  obtain ⟨i, hi⟩ := getElem?_of_mem hx
  have hrow : rowAt base hs (base + i) = some x :=
    rowAt_eq_some.2 ⟨Nat.le_add_right _ _, by rw [Nat.add_sub_cancel_left]; exact hi⟩
  rwa [h.height_eq hS hrow]

lemma exists_rel_of_isChain {R : Header → Header → Prop} {a : Header} {xs : List Header}
    (h : List.IsChain R (a :: xs)) (hx : x ∈ xs) : ∃ y ∈ a :: xs, R y x := by
  induction xs generalizing a with
  | nil => cases hx
  | cons b xs ih =>
    obtain ⟨hab, hrest⟩ := isChain_cons_cons.1 h
    rcases mem_cons.1 hx with rfl | hx
    · exact ⟨a, mem_cons_self, hab⟩
    · obtain ⟨y, hy, hrel⟩ := ih hrest hx
      exact ⟨y, mem_cons_of_mem _ hy, hrel⟩

lemma child_of_rows (hlinked : hs.IsChain Child) {y : Header}
    (hx : rowAt base hs k = some x) (hy : rowAt base hs (k + 1) = some y) : Child x y := by
  obtain ⟨hle, hx⟩ := rowAt_eq_some.1 hx
  obtain ⟨-, hy⟩ := rowAt_eq_some.1 hy
  rw [Nat.sub_add_comm hle] at hy
  obtain ⟨hi, rfl⟩ := List.getElem?_eq_some_iff.1 hx
  obtain ⟨hj, rfl⟩ := List.getElem?_eq_some_iff.1 hy
  exact isChain_iff_getElem.1 hlinked _ hj

lemma backed_store {headers : List Header} {scores : List (ℕ × ℕ)}
    (hcorrect : c.lazy.headers.Correct (rowAt base (kept ++ headers)))
    (hold : ∀ k x, rowAt base kept k = some x → s.headers k = some x)
    (hheights : headers.map (·.height) = List.range' (base + kept.length) headers.length) :
    (∀ k x, rowAt base (kept ++ headers) k = some x →
      (s.store c headers scores).headers k = some x) ∧
    (s.store c headers scores).chain.lazy.headers.Backed (rowAt base (kept ++ headers)) ∅ := by
  have hstored : ∀ k x, rowAt base (kept ++ headers) k = some x →
      record (headers.map (fun x => (x.height, x))) s.headers k = some x := by
    intro k x hx
    apply record_eq_some hold
    · rwa [map_map, length_map]
    · rwa [map_map, show (Prod.snd ∘ fun x : Header => (x.height, x)) = id from rfl, map_id]
  exact ⟨hstored, hcorrect.setLoader hstored⟩

lemma Tracked.heights_of_append (hS : ∀ x ∈ S, heightOf x.id = x.height) {added : List Header}
    (h : Tracked heightOf S base (kept ++ added) s) :
    added.map (·.height) = List.range' (base + kept.length) added.length := by
  have hheights := h.heights_eq hS
  rw [map_append, length_append, range'_append_1.symm] at hheights
  exact (append_inj hheights (by simp)).2

lemma Intact.detaches (h : Intact heightOf S base hs s) {dropped : List Header}
    (hsplit : hs = kept ++ dropped)
    (hdetach : Detaches (· = s.chain.height) base (hs.map (·.id)) (kept.map (·.id)) saved s.chain c) :
    c.lazy.headers.Backed (rowAt base kept) ∅ ∧
      c.lazy.headers.cache.cap = s.chain.lazy.headers.cache.cap := by
  obtain ⟨c₀, hreads, rfl⟩ := hdetach.chain
  rw [headers_dropSaved]
  have hread := h.backed.reads hreads.headers (fun k hk => h.coherent.spans_iff_rowAt.1 hk)
  have hkept : c₀.lazy.headers.Backed (rowAt base kept) ∅ := by
    apply hread.mono
    intro k x hx
    rw [hsplit]
    exact rowAt_append_of_some hx
  refine ⟨hkept.evictAll (fun k hk => ?_),
    (LazyCache.cap_foldl_evict _ _).trans hreads.headers.cap_eq⟩
  -- dropped heights are above those that are kept
  rw [hdetach.heights, length_map, mem_range'_1] at hk
  rw [← Option.not_isSome_iff_eq_none, isSome_rowAt]
  omega

lemma Intact.saved_row (h : Intact heightOf S base hs s) {lenient : ℕ → Prop} {e : Header × ℕ}
    (hsaved : SavedAt lenient s.chain e) : rowAt base hs e.1.height = some e.1 := by
  obtain ⟨c₀, hreads, hx⟩ := hsaved.header
  have hread := h.backed.reads hreads.headers (fun k hk => h.coherent.spans_iff_rowAt.1 hk)
  rwa [← (h.coherent.consults hreads).headerAt_eq_rowAt (fun x hx => hread.view_eq hx)]

/-- After a reorg every new header is a later child of the one below it. -/
theorem Intact.laterChild (hS : ∀ x ∈ S, heightOf x.id = x.height) (h : Intact heightOf S base hs s)
    {dropped added : List Header} {last : Header} (hsplit : hs = kept ++ dropped)
    (hdetach : Detaches (· = s.chain.height) base (hs.map (·.id)) (kept.map (·.id)) saved s.chain c)
    (hlast : kept.getLast? = some last) (h' : Tracked heightOf S base (kept ++ added) s')
    (hchain : List.IsChain (Checked (Replaces saved)) (last :: added)) :
    List.IsChain LaterChild (last :: added) := by
  have hlastRow : ∀ ys : List Header,
      rowAt base (kept ++ ys) (base + kept.length - 1) = some last :=
    fun ys => rowAt_append_of_some (rowAt_getLast hlast)
  have hmem : ∀ x ∈ last :: added, x ∈ kept ++ added := by
    intro x hx
    rcases mem_cons.1 hx with rfl | hx
    · exact mem_append_left _ (mem_of_getLast? hlast)
    · exact mem_append_right _ hx
  refine hchain.imp_of_mem_imp (fun a x ha hx hcheck => ?_)
  obtain ⟨⟨hchild | ⟨e, he, hparent, hheight⟩, htime⟩, hnext⟩ := hcheck
  · exact ⟨hchild, htime⟩
  · have hsaved : e ∈ saved := mem_of_mem_head? he
    -- the lowest header that was taken off
    have hlowest : e.1.height = base + kept.length := by
      have hheads := congrArg head? hdetach.heights
      rw [head?_map, Option.mem_def.1 he, length_map] at hheads
      cases hsize : saved.length with
      | zero =>
        rw [length_eq_zero_iff.1 hsize] at hsaved
        cases hsaved
      | succ n =>
        rw [hsize, range'_succ] at hheads
        simpa using hheads
    have hrow := h.saved_row (hdetach.readable e hsaved)
    have hbelow : rowAt base hs (base + kept.length - 1) = some last := by
      rw [hsplit]
      exact hlastRow dropped
    have hlink : Child last e.1 := child_of_rows h.linked hbelow
      (by rw [Nat.sub_add_cancel (by omega), ← hlowest]; exact hrow)
    -- the header it was checked against is at the height of `last`
    have hsame : a = last := by
      have harow := h'.rowAt_height hS (hmem a ha)
      rw [show a.height = base + kept.length - 1 by omega, hlastRow added] at harow
      exact (Option.some.inj harow).symm
    rw [hsame] at htime ⊢
    exact ⟨hparent.trans hlink, htime⟩

lemma Intact.transition (hS : ∀ x ∈ S, heightOf x.id = x.height) (hinj : Set.InjOn Header.id S)
    (h : Intact heightOf S base hs s) (hop : ∀ x ∈ op.headers, x ∈ S)
    (hroom : HeaderRoom rules s op) {base' : ℕ} {hs' : List Header}
    (ht : Transition rules heightOf base hs s op base' hs' s') :
    Intact heightOf S base' hs' s' := by
  have htracked := h.toTracked.transition hS hop ht
  cases ht with
  | unchanged hcoherent huntouched =>
    refine ⟨htracked, h.backed.undisturbed huntouched.headers ?_, h.stored, h.linked, h.later,
      h.fresh⟩
    intro k x hx hout
    exact hout (h.coherent.spans_iff_rowAt.2 (by rw [hx]; rfl))
  | cleared hempty hfull hcoherent =>
    subst hempty
    exact ⟨htracked, .of_none (rowAt_nil base) _, by simp, .nil, h.later, h.fresh⟩
  | resized => exact ⟨htracked, h.backed.resize _ _, h.stored, h.linked, h.later, h.fresh⟩
  | @first x total c _ hempty hheight hx hpush hstore =>
    subst hempty
    obtain ⟨scores, c', hcall, rfl⟩ := storeBranch_eq_some hstore
    have hcorrect : c'.lazy.headers.Correct (rowAt 1 ([] ++ [x])) := by
      rw [(handOut_outcome hcall).headers.eq_of_forall_not (fun _ h => h), hpush.headers_eq, hheight]
      exact correct_put_first _ _ _
    obtain ⟨hstored, hbacked⟩ := backed_store (s := s) hcorrect (by simp) (by simp [hheight])
    refine ⟨htracked, hbacked, hstored, .singleton x, ?_, by simp⟩
    intro y hy
    rw [h.fresh rfl] at hy
    obtain rfl := mem_singleton.1 hy
    exact .inl (Nat.le_of_eq hheight)
  | @replaced kept dropped saved pushed c₁ c _ hsplit hdetach hgrow hall hkind hstore =>
    obtain ⟨scores, c', hcall, rfl⟩ := storeBranch_eq_some hstore
    have hkept : kept ≠ [] := fun hnil => hdetach.nonempty (by rw [hnil, map_nil])
    obtain ⟨last, hlast⟩ := Option.ne_none_iff_exists'.1
      (fun hnone => hkept (getLast?_eq_none_iff.1 hnone))
    obtain ⟨hbacked₁, hcap⟩ := h.detaches hsplit hdetach
    have hpushed : ∀ e ∈ pushed, e.1 ∈ op.headers := by
      intro e he
      rw [← hall]
      exact mem_map_of_mem he
    obtain ⟨hcorrect, hchain⟩ := grows_backed hgrow (h.coherent.detaches hdetach)
      (fun e he => hS e.1 (hop e.1 (hpushed e he))) hlast hbacked₁ (Finset.empty_subset _)
      (.inl rfl) (by rw [hcap]; exact card_reorgHeights_le hkind hroom)
      (fun x hx => height_mem_reorgHeights (hall ▸ hx))
      (fun x hx k hk => read_mem_reorgHeights (hall ▸ hx) (hdetach.config_eq ▸ hk))
    rw [hall] at hcorrect hchain
    rw [← (handOut_outcome hcall).headers.eq_of_forall_not (fun _ h => h)] at hcorrect
    have hold : ∀ k x, rowAt base kept k = some x → s.headers k = some x := by
      intro k x hx
      apply h.stored
      rw [hsplit]
      exact rowAt_append_of_some hx
    obtain ⟨hstored, hbacked⟩ := backed_store hcorrect hold (htracked.heights_of_append hS)
    have hlater := h.laterChild hS hsplit hdetach hlast htracked hchain
    have hlinked := h.linked
    rw [hsplit] at hlinked
    refine ⟨htracked, hbacked, hstored, ?_, ?_, ?_⟩
    · obtain ⟨init, rfl⟩ := getLast?_eq_some_iff.1 hlast
      rw [append_assoc]
      exact isChain_split.2 ⟨(isChain_append.1 hlinked).1, hlater.imp (fun _ _ h => h.1)⟩
    · intro x hx
      rcases mem_append.1 hx with hx | hx
      · right
        intro a ha hchild
        obtain ⟨b, hb, hbx, htime⟩ := exists_rel_of_isChain hlater hx
        have hbS : b ∈ S := by
          rcases mem_cons.1 hb with rfl | hb
          · exact htracked.inPlay _ (mem_append_left _ (mem_of_getLast? hlast))
          · exact hop b hb
        -- both are the parent
        rwa [hinj ha hbS (hchild.symm.trans hbx)]
      · exact h.later x hx
    · intro hnil
      exact absurd (append_eq_nil_iff.1 hnil).1 hkept
  | @installed head pushed c₁ c hempty hhead hgrow hread =>
    subst hempty
    obtain ⟨hheadS, hpushed, hcoherent, htop⟩ := h.toTracked.installHead hS hop hhead
    have hfirst : (s.chain.installHead head).lazy.headers.Correct (rowAt head.height [head]) :=
      correct_put_first _ _ _
    have hcached : ((s.chain.installHead head).lazy.headers.cache.peek
        (s.chain.installHead head).height).isSome := by
      rw [htop]
      show ((s.chain.lazy.headers.cache.put head.height head).peek head.height).isSome
      rw [LruCache.peek_put_self]
      rfl
    obtain ⟨hcorrect, hchain⟩ := grows_correct hgrow hcoherent
      (fun e he => hS e.1 (hpushed e he)) rfl hfirst hcached
    rw [← hread.headers.eq_of_forall_not (fun _ h => h)] at hcorrect
    have hall : c.lazy.headers.Correct (rowAt head.height ([] ++ head :: pushed.map (·.1))) :=
      hcorrect
    obtain ⟨hstored, hbacked⟩ := backed_store (s := s) hall (by simp) (htracked.heights_eq hS)
    refine ⟨htracked, hbacked, hstored, hchain.imp (fun _ _ h => h.1), ?_, by simp⟩
    intro x hx
    have hnone : s.accepted = [] := h.fresh rfl
    change x ∈ s.accepted at hx
    rw [hnone] at hx
    cases hx

/-! ## Restored chains -/

/-- Each row has a stored header with its id and height, and headers of adjacent rows are linked. -/
structure StoredRows (entries : List (ℕ × BlockId)) (headers : ℕ → Option Header) : Prop where
  stored : ∀ e ∈ entries, ∃ x, headers e.1 = some x ∧ x.id = e.2 ∧ x.height = e.1
  linked : ∀ e ∈ entries, ∀ e' ∈ entries, e'.1 = e.1 + 1 → ∀ x y, headers e.1 = some x →
    headers e'.1 = some y → y.parentId = x.id

/-- What `restoreFrom` has checked when it ends, `seen` being the rows before. -/
theorem restoreFrom_eq_ok (seen : List (ℕ × BlockId)) (first : ℕ) {prev : Option ℕ}
    {acc idx : HeaderChain.RestoredIndex} (hprev : prev = (seen.getLast?).map Prod.fst)
    (hbase : acc.baseHeight = seen.head?.map Prod.fst)
    (hindex : acc.byId = (seen.map Prod.swap).reverse)
    (hheights : seen.map Prod.fst = List.range' first seen.length)
    (hnodup : (seen.map Prod.snd).Nodup) (h : HeaderChain.restoreFrom prev acc entries = .ok idx) :
    idx.baseHeight = (seen ++ entries).head?.map Prod.fst ∧
      idx.byId = ((seen ++ entries).map Prod.swap).reverse ∧
      (∃ first, (seen ++ entries).map Prod.fst = List.range' first (seen ++ entries).length) ∧
      ((seen ++ entries).map Prod.snd).Nodup := by
  induction entries generalizing seen prev acc first with
  | nil =>
    cases h
    rw [append_nil]
    exact ⟨hbase, hindex, ⟨first, hheights⟩, hnodup⟩
  | cons e entries ih =>
    obtain ⟨height, id⟩ := e
    rw [show seen ++ (height, id) :: entries = (seen ++ [(height, id)]) ++ entries by simp]
    unfold HeaderChain.restoreFrom at h
    cases hseen : seen.getLast? with
    | none =>
      obtain rfl := getLast?_eq_none_iff.1 hseen
      rw [hprev, hseen] at h
      exact ih [(height, id)] height rfl rfl rfl rfl (by simp) h
    | some last =>
      rw [hprev, hseen] at h
      have hne : seen ≠ [] := by
        rintro rfl
        cases hseen
      have hpos := length_pos_iff.2 hne
      have hlast : last.1 = first + seen.length - 1 := by
        have hlasts := congrArg getLast? hheights
        rw [getLast?_map, hseen, getLast?_range'] at hlasts
        rw [if_neg (by omega)] at hlasts
        have := Option.some.inj hlasts
        omega
      by_cases hnext : height ≠ last.1 + 1
      · simp only [Option.map_some, if_pos hnext] at h
        cases h
      · simp only [Option.map_some, if_neg hnext] at h
        split at h
        · cases h
        next hdup =>
          have hnew : id ∉ seen.map Prod.snd := by
            rwa [hindex, map_reverse, mem_reverse, map_map] at hdup
          refine ih (seen ++ [(height, id)]) first (by rw [getLast?_concat]; rfl) ?_ ?_ ?_ ?_ h
          · rwa [head?_append_of_ne_nil _ hne]
          · rw [map_append, reverse_append, hindex]
            rfl
          · rw [map_append, hheights, length_append, length_singleton,
              range'_1_concat, map_singleton]
            congr 2
            omega
          · rw [map_append, map_singleton, ← concat_eq_append]
            exact hnodup.concat hnew

lemma filed_restored (hnodup : (entries.map Prod.snd).Nodup)
    (hheights : ∀ e ∈ entries, heightOf e.2 = e.1) :
    Filed heightOf (entries.map Prod.snd)
      ((entries.map Prod.swap).reverse.foldr (fun e t => t.insert e.1 e.2) (∅ : Table ℕ)) := by
  induction entries using reverseRecOn with
  | nil => exact .empty heightOf
  | append_singleton entries e ih =>
    rw [map_append, map_singleton] at hnodup
    have hbefore : (entries.map Prod.snd).Nodup := hnodup.sublist (sublist_append_left _ _)
    have hnew : e.2 ∉ entries.map Prod.snd := by
      intro hmem
      exact disjoint_of_nodup_append hnodup hmem (mem_singleton_self _)
    have hfiled := (ih hbefore (fun e' he' => hheights e' (mem_append_left _ he'))).insert hnew
      (hheights e (by simp))
    rwa [map_append, map_append, reverse_append]

lemma exists_rows (entries : List (ℕ × BlockId)) (headers : ℕ → Option Header)
    (h : ∀ e ∈ entries, (headers e.1).isSome) :
    ∃ hs : List Header, hs.map some = entries.map (fun e => headers e.1) := by
  induction entries with
  | nil => exact ⟨[], rfl⟩
  | cons e entries ih =>
    obtain ⟨hs, hhs⟩ := ih (fun e' he' => h e' (mem_cons_of_mem _ he'))
    obtain ⟨x, hx⟩ := Option.isSome_iff_exists.1 (h e mem_cons_self)
    exact ⟨x :: hs, by rw [map_cons, map_cons, hhs, hx]⟩

lemma intact_ofRestored {headers : ℕ → Option Header} (scores : ℕ → Option ℕ)
    (hS : ∀ x ∈ S, heightOf x.id = x.height) (hrestore : restore config entries = .ok c)
    (hrows : StoredRows entries headers) (hin : ∀ k x, headers k = some x → x ∈ S) :
    ∃ base hs, Intact heightOf S base hs (ofRestored c headers scores) := by
  obtain ⟨idx, hidx, rfl⟩ : ∃ idx, HeaderChain.restore entries = .ok idx ∧
      c = { CachedChain.new config with
        baseHeight := idx.baseHeight
        byId := idx.byId.foldr (fun e t => t.insert e.1 e.2) ∅
        lightClientMode := decide (1 < idx.baseHeight.getD 1) } := by
    unfold restore at hrestore
    cases hidx : HeaderChain.restore entries with
    | error e =>
      rw [hidx] at hrestore
      cases hrestore
    | ok idx =>
      rw [hidx] at hrestore
      exact ⟨idx, rfl, (Except.ok.inj hrestore).symm⟩
  obtain ⟨hbase, hindex, ⟨base, hheights⟩, hnodup⟩ :=
    restoreFrom_eq_ok [] 0 rfl rfl rfl rfl (by simp) hidx
  rw [nil_append] at hbase hindex hheights hnodup
  obtain ⟨hs, hhs⟩ := exists_rows entries headers (fun e he => by
    obtain ⟨x, hx, -⟩ := hrows.stored e he
    rw [hx]
    rfl)
  have hlength : hs.length = entries.length := by simpa using congrArg length hhs
  -- the header and the row at an index
  have hat : ∀ i x, hs[i]? = some x → ∃ e ∈ entries, entries[i]? = some e ∧ e.1 = base + i ∧
      headers e.1 = some x ∧ x.id = e.2 ∧ x.height = e.1 := by
    intro i x hx
    have hi := (List.getElem?_eq_some_iff.1 hx).1
    obtain ⟨e, he⟩ : ∃ e, entries[i]? = some e := ⟨_, getElem?_eq_getElem (by omega)⟩
    have hmem := mem_of_getElem? he
    have hload := congrArg (fun l => l[i]?) hhs
    simp only [getElem?_map, hx, he, Option.map_some, Option.some.injEq] at hload
    have hheight := congrArg (fun l => l[i]?) hheights
    simp only [getElem?_map, he, Option.map_some, getElem?_range', ← hlength, hi,
      Option.some.injEq] at hheight
    obtain ⟨y, hy, hid, hyheight⟩ := hrows.stored e hmem
    cases hload.trans hy
    exact ⟨e, hmem, he, by simpa using hheight, hy, hid, hyheight⟩
  have hids : hs.map (·.id) = entries.map Prod.snd := by
    apply ext_getElem?
    intro i
    rw [getElem?_map, getElem?_map]
    cases hx : hs[i]? with
    | none =>
      have := getElem?_eq_none_iff.1 hx
      rw [getElem?_eq_none (by omega)]
      rfl
    | some x =>
      obtain ⟨e, -, he, -, -, hid, -⟩ := hat i x hx
      rw [he, Option.map_some, Option.map_some, hid]
  have hheightOf : ∀ e ∈ entries, heightOf e.2 = e.1 := by
    intro e he
    obtain ⟨x, hx, hid, hheight⟩ := hrows.stored e he
    rw [← hid, hS x (hin _ x hx), hheight]
  have hrowOf : ∀ k x, rowAt base hs k = some x → headers k = some x := by
    intro k x hx
    obtain ⟨hle, hx⟩ := rowAt_eq_some.1 hx
    obtain ⟨e, -, -, he, hload, -⟩ := hat _ x hx
    rwa [he, Nat.add_sub_cancel' hle] at hload
  have hmem : ∀ x ∈ hs, x ∈ S := by
    intro x hx
    obtain ⟨i, hi⟩ := getElem?_of_mem hx
    obtain ⟨e, -, -, -, hload, -⟩ := hat i x hi
    exact hin _ x hload
  refine ⟨base, hs, ⟨⟨?_, ?_, hmem, hin⟩, ?_, hrowOf, ?_, ?_, ?_⟩⟩
  · refine ⟨?_, ?_, ?_, ?_⟩
    · show idx.baseHeight = _
      rw [hbase, hids]
      cases entries with
      | nil => rfl
      | cons e entries =>
        rw [map_cons, length_cons, range'_succ, cons.injEq] at hheights
        rw [if_neg (by simp), head?_cons, Option.map_some, hheights.1]
    · show Filed _ _ (idx.byId.foldr (fun e t => t.insert e.1 e.2) ∅)
      rw [hindex, hids]
      exact filed_restored hnodup hheightOf
    · rw [hids, map_map, length_map, ← hheights]
      exact map_congr_left hheightOf
    · rintro k x (hpeek | hload)
      · cases hpeek
      · exact hS x (hin k x hload)
  · rintro rfl
    have hnil : entries = [] := length_eq_zero_iff.1 hlength.symm
    rw [hbase, hnil]
    rfl
  · have hempty : (CachedChain.new config).lazy.headers.Correct (rowAt base hs) := by
      intro k x v _ hpeek
      cases hpeek
    exact hempty.setLoader hrowOf
  · rw [isChain_iff_getElem]
    intro i hi
    obtain ⟨e, he, -, hheight, hload, -⟩ := hat i hs[i] (getElem?_eq_getElem _)
    obtain ⟨e', he', -, hheight', hload', -⟩ := hat (i + 1) hs[i + 1] (getElem?_eq_getElem _)
    exact hrows.linked e he e' he' (by omega) _ _ hload hload'
  · intro x hx
    cases hx
  · intro _
    rfl

lemma intact_new (heightOf : BlockId → ℕ) (S : Set Header) (config : ChainConfig) :
    Intact heightOf S 0 [] (new config) where
  coherent := by
    refine ⟨rfl, .empty heightOf, rfl, ?_⟩
    rintro k x (hpeek | hload)
    · cases hpeek
    · cases hload
  full := fun _ => rfl
  inPlay := by simp
  rows := fun k x hx => by cases hx
  backed := .of_none (rowAt_nil 0) _
  stored := by simp
  linked := .nil
  later := fun x hx => by cases hx
  fresh := fun _ => rfl

/-! ## The structure of the chain -/

structure Structured (s : StoredChain) : Prop where
  /-- The id index is a bijection between the known ids and the heights of the chain. -/
  bijOn : Set.BijOn (fun id => (s.chain.heightOf id).getD 0) {id | s.chain.contains id = true}
    {h | s.chain.Spans h}
  height_eq : ∀ h, s.chain.Spans h → ∃ x, (s.chain.headerAt h).1 = some x ∧ x.height = h
  linked : ∀ h x y, (s.chain.headerAt h).1 = some x → (s.chain.headerAt (h + 1)).1 = some y →
    y.parentId = x.id
  /-- Headers that an append or a reorg accepted are later than their predecessors. -/
  later : ∀ h x y, (s.chain.headerAt h).1 = some x → (s.chain.headerAt (h + 1)).1 = some y →
    y ∈ s.accepted → x.timestamp < y.timestamp
  verified : ∃ c, verifyBestChainLinkage none s.chain = some (.ok (), c)

lemma bijOn_heightOf {ids : List BlockId} (hc : Coherent heightOf base ids c) :
    Set.BijOn (fun id => (c.heightOf id).getD 0) {id | c.contains id = true} {h | c.Spans h} := by
  have hknown : ∀ id, c.contains id = true ↔ id ∈ ids := fun id => hc.filed.isSome_iff id
  have hheight : ∀ id ∈ ids, (c.heightOf id).getD 0 = heightOf id := by
    intro id hid
    have hrow : c.byId[id]? = some (heightOf id) := (hc.filed.rows _ _).2 ⟨hid, rfl⟩
    rw [CachedChain.heightOf, hrow, Option.getD_some]
  refine ⟨?_, ?_, ?_⟩
  · intro id hid
    have hid := (hknown id).1 hid
    obtain ⟨i, hi⟩ := getElem?_of_mem hid
    have hlt := (List.getElem?_eq_some_iff.1 hi).1
    show c.Spans ((c.heightOf id).getD 0)
    rw [hheight id hid, hc.heightOf_eq hi, hc.spans_iff]
    omega
  · intro a ha b hb hab
    have ha := (hknown a).1 ha
    have hb := (hknown b).1 hb
    obtain ⟨i, hi⟩ := getElem?_of_mem ha
    obtain ⟨j, hj⟩ := getElem?_of_mem hb
    dsimp only at hab
    rw [hheight a ha, hheight b hb, hc.heightOf_eq hi, hc.heightOf_eq hj] at hab
    obtain rfl : i = j := by omega
    exact Option.some.inj (hi.symm.trans hj)
  · intro h hh
    have hspans := hc.spans_iff.1 hh
    obtain ⟨id, hid⟩ : ∃ id, ids[h - base]? = some id :=
      ⟨_, getElem?_eq_getElem (by omega)⟩
    have hmem := mem_of_getElem? hid
    refine ⟨id, (hknown id).2 hmem, ?_⟩
    dsimp only
    rw [hheight id hmem, hc.heightOf_eq hid]
    omega

lemma Intact.structured (hS : ∀ x ∈ S, heightOf x.id = x.height)
    (h : Intact heightOf S base hs s) : Structured s := by
  have hrow : ∀ k, (s.chain.headerAt k).1 = rowAt base hs k :=
    fun k => h.coherent.headerAt_eq_rowAt (fun x hx => h.backed.view_eq hx)
  refine ⟨bijOn_heightOf h.coherent, ?_, ?_, ?_, ?_⟩
  · intro k hk
    obtain ⟨x, hx⟩ := Option.isSome_iff_exists.1 (h.coherent.spans_iff_rowAt.1 hk)
    exact ⟨x, (hrow k).trans hx, h.height_eq hS hx⟩
  · intro k x y hx hy
    rw [hrow] at hx hy
    exact child_of_rows h.linked hx hy
  · intro k x y hx hy haccepted
    rw [hrow] at hx hy
    have hbase := (rowAt_eq_some.1 hx).1
    have hyheight := h.height_eq hS hy
    rcases h.later y haccepted with hlow | hlater
    · omega
    · exact hlater x (h.inPlay x (mem_of_getElem? (rowAt_eq_some.1 hx).2))
        (child_of_rows h.linked hx hy)
  · exact verifyBestChainLinkage_eq h.coherent h.backed (fun k x hx => h.height_eq hS hx)
      (fun k x y hx hy => child_of_rows h.linked hx hy)

/-! ## Runs -/

/-- How a chain comes to be: empty, or restored over stored headers that are linked. -/
inductive Start : StoredChain → Prop
  | new (config : ChainConfig) : Start (new config)
  | restored {config : ChainConfig} {entries : List (ℕ × BlockId)} {c : CachedChain}
      {headers : ℕ → Option Header} (scores : ℕ → Option ℕ) (h : restore config entries = .ok c)
      (hrows : StoredRows entries headers) : Start (ofRestored c headers scores)

/-- The headers that occur in a run: those stored at its start, and those operations are given. -/
def inPlay (start : StoredChain) (ops : List ChainOp) : Set Header :=
  {x | (∃ k, start.headers k = some x) ∨ ∃ op ∈ ops, x ∈ op.headers}

lemma exists_heightOf (hinj : Set.InjOn Header.id S) :
    ∃ heightOf : BlockId → ℕ, ∀ x ∈ S, heightOf x.id = x.height := by
  rcases S.eq_empty_or_nonempty with hempty | ⟨y, -⟩
  · exact ⟨fun _ => 0, by simp [hempty]⟩
  · have : Nonempty Header := ⟨y⟩
    refine ⟨fun id => (Function.invFunOn Header.id S id).height, fun x hx => ?_⟩
    dsimp only
    rw [hinj.leftInvOn_invFunOn hx]

/-- **Every state that is reached has the structure of a chain**, when ids do not collide and every
reorg that succeeds finds room in the cache. -/
theorem structured_of_run (rules : CachedRules) {start : StoredChain} (hstart : Start start)
    {ops : List ChainOp} (hinj : Set.InjOn Header.id (inPlay start ops))
    (hroom : MeetsAll (stepRun rules) (fun s? op => ∀ s ∈ s?, HeaderRoom rules s op) (some start)
      ops) {s : StoredChain} (hrun : run rules start ops = some s) : Structured s := by
  obtain ⟨heightOf, hS⟩ := exists_heightOf hinj
  have hintact : ∃ base hs, Intact heightOf (inPlay start ops) base hs start := by
    cases hstart with
    | new config => exact ⟨0, [], intact_new _ _ config⟩
    | restored scores h hrows =>
      exact intact_ofRestored scores hS h hrows (fun k x hx => .inl ⟨k, hx⟩)
  obtain ⟨base, hs, h⟩ := exists_of_run hS (fun _ _ _ h => h.coherent)
    (fun _ _ _ _ _ _ _ h hop hroom ht => h.transition hS hinj hop hroom ht) hintact
    (fun op hop x hx => .inr ⟨op, hop, hx⟩) hroom hrun
  exact h.structured hS

/-! ## A reorg, a broken store and a small cache -/

def siblingOps : List ChainOp :=
  [.install (HeaderChain.plainHeader 1 0 1) [HeaderChain.plainHeader 2 1 2],
    .reorg 10000 (HeaderChain.plainHeader 12 1 2) (HeaderChain.plainHeader 13 12 3)]

lemma injOn_siblingOps : Set.InjOn Header.id (inPlay (new .mainnet) siblingOps) := by
  have hall : ∀ x ∈ inPlay (new .mainnet) siblingOps, x ∈ siblingOps.flatMap ChainOp.headers := by
    rintro x (⟨k, hk⟩ | ⟨op, hop, hx⟩)
    · cases hk
    · exact mem_flatMap.2 ⟨op, hop, hx⟩
  have hdistinct : ∀ x ∈ siblingOps.flatMap ChainOp.headers,
      ∀ y ∈ siblingOps.flatMap ChainOp.headers, x.id = y.id → x = y := by
    decide
  exact fun x hx y hy hid => hdistinct x (hall x hx) y (hall y hy) hid

theorem structured_of_run_sibling :
    ∃ s, run plainCachedRules (new .mainnet) siblingOps = some s ∧
      (s.chain.headerAt 3).1 = some (HeaderChain.plainHeader 13 12 3) ∧ Structured s := by
  have hroom : MeetsAll (stepRun plainCachedRules)
      (fun s? op => ∀ s ∈ s?, HeaderRoom plainCachedRules s op) (some (new .mainnet))
      siblingOps := by
    refine ⟨?_, ?_, trivial⟩
    · rintro s - ⟨⟩
    · rintro s ⟨⟩ -
      decide +kernel
  obtain ⟨s, hs, htip⟩ : ∃ s, run plainCachedRules (new .mainnet) siblingOps = some s ∧
      (s.chain.headerAt 3).1 = some (HeaderChain.plainHeader 13 12 3) := ⟨_, rfl, rfl⟩
  exact ⟨s, hs, htip, structured_of_run plainCachedRules (.new .mainnet) injOn_siblingOps hroom hs⟩

/-- Stored headers that are not linked: the second names an unknown parent. -/
def unlinkedHeaders (h : ℕ) : Option Header :=
  if h = 1 then some (HeaderChain.plainHeader 1 0 1)
  else if h = 2 then some (HeaderChain.plainHeader 2 7 2)
  else none

/-- Difficulty is computed from the last two epochs, of one block each. -/
def shortEpochRules : CachedRules :=
  { plainCachedRules with
    difficultyHeights := fun _ parent => [parent.height - 2, parent.height - 1, parent.height] }

/-- With room for two headers, four are installed and the last three are replaced. -/
def smallCacheOps : List ChainOp :=
  [.setCacheCapacity 2 (by decide),
    .install (HeaderChain.plainHeader 1 0 1) [HeaderChain.plainHeader 2 1 2,
      HeaderChain.plainHeader 3 2 3, HeaderChain.plainHeader 4 3 4],
    .reorgDeep 100000 1 [HeaderChain.plainHeader 12 1 2, HeaderChain.plainHeader 13 12 3,
      HeaderChain.plainHeader 14 13 4]]

/-- A restored chain is as linked as what is stored. And when the cache is too small for a reorg,
the difficulty walk loads a header that the reorg took off, and a height of the branch reads as
empty. -/
theorem not_structured_of_unlinked_or_small_cache :
    (∃ c, restore .mainnet [(1, 1), (2, 2)] = .ok c ∧
      ¬Structured (ofRestored c unlinkedHeaders (fun _ => none))) ∧
    ∃ s, run shortEpochRules (new .mainnet) smallCacheOps = some s ∧ s.chain.Spans 3 ∧
      (s.chain.headerAt 3).1 = none ∧ ¬Structured s := by
  constructor
  · obtain ⟨c, hc, hfirst, hsecond⟩ : ∃ c, restore .mainnet [(1, 1), (2, 2)] = .ok c ∧
        ((c.setLoaders unlinkedHeaders (fun _ => none)).headerAt 1).1 =
          some (HeaderChain.plainHeader 1 0 1) ∧
        ((c.setLoaders unlinkedHeaders (fun _ => none)).headerAt 2).1 =
          some (HeaderChain.plainHeader 2 7 2) := ⟨_, rfl, rfl, rfl⟩
    refine ⟨c, hc, fun h => ?_⟩
    have hlinked := h.linked 1 _ _ hfirst hsecond
    exact absurd hlinked (by decide)
  · obtain ⟨s, hs, hbase, hheight, hread⟩ : ∃ s,
        run shortEpochRules (new .mainnet) smallCacheOps = some s ∧
        s.chain.baseHeight = some 1 ∧ s.chain.height = 4 ∧ (s.chain.headerAt 3).1 = none :=
      ⟨_, rfl, rfl, rfl, rfl⟩
    have hspans : s.chain.Spans 3 := ⟨1, hbase, by omega, by omega⟩
    refine ⟨s, hs, hspans, hread, fun h => ?_⟩
    obtain ⟨x, hx, -⟩ := h.height_eq 3 hspans
    cases hread.symm.trans hx

end StoredChain

end ErgoNode
