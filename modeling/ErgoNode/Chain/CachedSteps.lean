import ErgoNode.Chain.CachedChain

/-!
# What the operations of the cached chain do

One lemma for each check and for each change at the tip of a `CachedChain`. Later files never unfold
these calls. Reads only touch the caches (`Consults`). The shape of the chain is a list of ids, one
for each height from the base on (`Coherent`).
-/

namespace ErgoNode

open List Call LazyCache

namespace CachedChain

variable {rules : CachedRules} {now : ℕ} {c c' c'' : CachedChain} {r : Except ChainError ℕ}
  {x : Header} {h : ℕ} {β : Type}

def Spans (c : CachedChain) (h : ℕ) : Prop := ∃ base, c.baseHeight = some base ∧ base ≤ h ∧ h ≤ c.height

/-- The second chain is the first after reads of headers at heights in `P` and of scores at heights
in `Q`. -/
structure Consults (P Q : ℕ → Prop) (c c' : CachedChain) : Prop where
  same : c' = { c with lazy := c'.lazy }
  headers : c.lazy.headers.Reads P c'.lazy.headers
  scores : c.lazy.scores.Reads Q c'.lazy.scores

namespace Consults

variable {P Q P' Q' : ℕ → Prop}

lemma refl (c : CachedChain) : Consults P Q c c := ⟨rfl, .refl _, .refl _⟩

lemma trans (h : Consults P Q c c') (h' : Consults P Q c' c'') : Consults P Q c c'' where
  same := by
    rw [h'.same, h.same]
  headers := h.headers.trans h'.headers
  scores := h.scores.trans h'.scores

lemma mono (h : Consults P Q c c') (hP : ∀ k, P k → P' k) (hQ : ∀ k, Q k → Q' k) :
    Consults P' Q' c c' := ⟨h.same, h.headers.mono hP, h.scores.mono hQ⟩

lemma baseHeight_eq (h : Consults P Q c c') : c'.baseHeight = c.baseHeight := by rw [h.same]

lemma byId_eq (h : Consults P Q c c') : c'.byId = c.byId := by rw [h.same]

lemma config_eq (h : Consults P Q c c') : c'.config = c.config := by rw [h.same]

lemma lightClientMode_eq (h : Consults P Q c c') : c'.lightClientMode = c.lightClientMode := by
  rw [h.same]

lemma height_eq (h : Consults P Q c c') : c'.height = c.height := by
  rw [height, height, h.baseHeight_eq, h.byId_eq]

lemma spans_iff (h : Consults P Q c c') (k : ℕ) : c'.Spans k ↔ c.Spans k := by
  rw [Spans, Spans, h.baseHeight_eq, h.height_eq]

end Consults

/-! ## Single reads -/

lemma headerAt_fst_eq_some :
    (c.headerAt h).1 = some x ↔
      c.Spans h ∧ c.lazy.headers.view h = some x ∧ c.byId[x.id]? = some h := by
  unfold headerAt Spans
  cases hbase : c.baseHeight with
  | none => simp
  | some base =>
    dsimp only
    split
    next hout =>
      simp only [reduceCtorEq, Option.some.injEq, false_iff, not_and]
      omega
    next hin =>
      have hspans : ∃ b, some base = some b ∧ b ≤ h ∧ h ≤ c.height := ⟨base, rfl, by omega, by omega⟩
      simp only [LazyHeaderStore.getHeader, get_fst, hspans, true_and]
      cases hview : c.lazy.headers.view h with
      | none => simp
      | some y =>
        dsimp only
        split
        next hy =>
          constructor
          · rintro ⟨⟩
            exact ⟨rfl, hy⟩
          · rintro ⟨⟨⟩, -⟩
            rfl
        next hy =>
          constructor
          · rintro ⟨⟩
          · rintro ⟨⟨⟩, hx⟩
            exact absurd hx hy

lemma consults_headerAt (c : CachedChain) (h : ℕ) :
    Consults (fun k => k = h ∧ c.Spans k) (fun _ => False) c (c.headerAt h).2 := by
  unfold headerAt
  split
  · exact .refl c
  next base hbase =>
    split
    · exact .refl c
    next hin =>
      have hspans : c.Spans h := ⟨base, hbase, by omega, by omega⟩
      have hread : Consults (fun k => k = h ∧ c.Spans k) (fun _ => False) c
          { c with lazy := (c.lazy.getHeader h).2 } :=
        ⟨rfl, .single _ ⟨rfl, hspans⟩, .refl _⟩
      dsimp only
      split
      · exact hread
      · split
        · exact hread
        · exact hread

lemma headerAt_again (hx : (c.headerAt h).1 = some x) :
    ((c.headerAt h).2.headerAt h).1 = some x := by
  have hconsults := consults_headerAt c h
  obtain ⟨hspans, hview, hid⟩ := headerAt_fst_eq_some.1 hx
  refine headerAt_fst_eq_some.2 ⟨(hconsults.spans_iff h).2 hspans, ?_, by rwa [hconsults.byId_eq]⟩
  obtain ⟨base, hbase, hle, hge⟩ := hspans
  have hlazy : (c.headerAt h).2.lazy.headers = (c.lazy.headers.get h).2 := by
    unfold headerAt
    rw [hbase]
    dsimp only
    rw [if_neg (by omega)]
    split
    · rfl
    · split <;> rfl
  rw [hlazy, get_snd, hview]
  exact (congrArg (Option.or · _) (LruCache.peek_put_self _ _ _)).trans (Option.some_or ..)

lemma scoreAt_fst_eq_some {score : ℕ} :
    (c.scoreAt h).1 = some score ↔ c.Spans h ∧ c.lazy.scores.view h = some score := by
  unfold scoreAt Spans
  cases hbase : c.baseHeight with
  | none => simp
  | some base =>
    dsimp only
    split
    next hout =>
      simp only [reduceCtorEq, Option.some.injEq, false_iff, not_and]
      omega
    next hin =>
      have hspans : ∃ b, some base = some b ∧ b ≤ h ∧ h ≤ c.height := ⟨base, rfl, by omega, by omega⟩
      simp only [LazyHeaderStore.getScore, get_fst, hspans, true_and]

lemma consults_scoreAt (c : CachedChain) (h : ℕ) :
    Consults (fun _ => False) (fun k => k = h ∧ c.Spans k) c (c.scoreAt h).2 := by
  unfold scoreAt
  split
  · exact .refl c
  next base hbase =>
    split
    · exact .refl c
    next hin =>
      exact ⟨rfl, .refl _, .single _ ⟨rfl, base, hbase, by omega, by omega⟩⟩

lemma Consults.headerAt_fst {P Q : ℕ → Prop} (h : Consults P Q c c') (hP : ∀ k, ¬P k) (k : ℕ) :
    (c'.headerAt k).1 = (c.headerAt k).1 := by
  ext x
  rw [headerAt_fst_eq_some, headerAt_fst_eq_some, h.spans_iff, h.byId_eq,
    h.headers.eq_of_forall_not hP]

lemma Consults.scoreAt_fst {P Q : ℕ → Prop} (h : Consults P Q c c') (hQ : ∀ k, ¬Q k) (k : ℕ) :
    (c'.scoreAt k).1 = (c.scoreAt k).1 := by
  ext x
  rw [scoreAt_fst_eq_some, scoreAt_fst_eq_some, h.spans_iff, h.scores.eq_of_forall_not hQ]

lemma consults_readHeaders (hs : List ℕ) (c : CachedChain) :
    Consults (fun k => k ∈ hs ∧ c.Spans k) (fun _ => False) c (readHeaders hs c).2 := by
  induction hs generalizing c with
  | nil => exact .refl c
  | cons h hs ih =>
    have hfirst := consults_headerAt c h
    refine (hfirst.mono ?_ (fun _ => id)).trans ((ih (c.headerAt h).2).mono ?_ (fun _ => id))
    · rintro k ⟨rfl, hspans⟩
      exact ⟨mem_cons_self, hspans⟩
    · rintro k ⟨hk, hspans⟩
      exact ⟨mem_cons_of_mem _ hk, (hfirst.spans_iff k).1 hspans⟩

/-! ## Checks -/

lemma tip_outcome {r : Except ChainError Header} (h : tip c = some (r, c')) :
    ∃ x, r = .ok x ∧ (c.headerAt c.height).1 = some x ∧ c' = (c.headerAt c.height).2 := by
  rw [tip, read_bind] at h
  rcases hfound : (c.headerAt c.height).1 with _ | x <;> rw [hfound] at h
  · exact (crash_eq_some.1 h).elim
  · cases h
    exact ⟨x, rfl, rfl, rfl⟩

lemma tip_bind_eq_some {f : Header → ChainCall β} {r : Except ChainError β}
    (h : (tip >>= f) c = some (r, c')) :
    ∃ x, (c.headerAt c.height).1 = some x ∧ f x (c.headerAt c.height).2 = some (r, c') := by
  obtain ⟨x, c₁, ⟨hfound, rfl⟩, h⟩ := bind_eq_some_of_ok (fun _ _ => tip_outcome) h
  exact ⟨x, hfound, h⟩

def CheckReads (rules : CachedRules) (c : CachedChain) (tip : Header) (k : ℕ) : Prop :=
  c.Spans k ∧ (k = c.height ∨ k ∈ rules.difficultyHeights c.config tip)

lemma expectedDifficulty_outcome {tip : Header}
    (h : expectedDifficulty rules tip c = some (r, c')) :
    Consults (CheckReads rules c tip) (fun _ => False) c c' := by
  obtain ⟨-, rfl⟩ := ofExcept_eq_some.1 h
  refine (consults_readHeaders _ c).mono ?_ (fun _ => id)
  rintro k ⟨hk, hspans⟩
  exact ⟨hspans, .inr hk⟩

lemma checkDifficulty_outcome {tip header : Header} {r : Except ChainError Unit}
    (h : checkDifficulty rules tip header c = some (r, c')) :
    Consults (CheckReads rules c tip) (fun _ => False) c c' := by
  rcases bind_eq_some h with ⟨e, hexpected, -⟩ | ⟨expected, c₁, hexpected, hcheck⟩
  · exact expectedDifficulty_outcome hexpected
  · obtain ⟨-, rfl⟩ := ofExcept_eq_some.1 hcheck
    exact expectedDifficulty_outcome hexpected

lemma checkChildDifficulty_outcome {tip header : Header} {r : Except ChainError Unit}
    (h : checkChildDifficulty rules tip header c = some (r, c')) :
    Consults (CheckReads rules c tip) (fun _ => False) c c' := by
  rw [checkChildDifficulty, state_bind] at h
  split at h
  · cases h
    exact .refl _
  · exact checkDifficulty_outcome h

lemma CheckReads.of_consults {P Q : ℕ → Prop} (h : Consults P Q c c') {tip : Header} {k : ℕ}
    (hk : CheckReads rules c' tip k) : CheckReads rules c tip k := by
  rwa [CheckReads, h.spans_iff, h.height_eq, h.config_eq] at hk

lemma consults_tip_then {tip : Header}
    (h : Consults (CheckReads rules (c.headerAt c.height).2 tip) (fun _ => False)
      (c.headerAt c.height).2 c') : Consults (CheckReads rules c tip) (fun _ => False) c c' := by
  have hread := consults_headerAt c c.height
  refine Consults.trans (hread.mono ?_ (fun _ => id)) (h.mono ?_ (fun _ => id))
  · rintro k ⟨rfl, hspans⟩
    exact ⟨hspans, .inl rfl⟩
  · exact fun k hk => CheckReads.of_consults hread hk

lemma timestamp_lt_of_checkTimestamp {s : HeaderChain} {tip header : Header} {u : Unit}
    (h : s.checkTimestamp now tip header = .ok u) : tip.timestamp < header.timestamp := by
  simp only [HeaderChain.checkTimestamp, ErgoNode.bind_eq_ok, require_eq_ok] at h
  obtain ⟨_, htime, -⟩ := h
  exact htime

lemma validateReorgHeader_outcome {header : Header} {r : Except ChainError Unit}
    (h : validateReorgHeader rules now header c = some (r, c')) :
    ∃ tip, (c.headerAt c.height).1 = some tip ∧
      Consults (CheckReads rules c tip) (fun _ => False) c c' ∧
      (r = .ok () → tip.timestamp < header.timestamp) := by
  obtain ⟨tip, hfound, h⟩ := tip_bind_eq_some h
  refine ⟨tip, hfound, ?_⟩
  rcases ofExcept_bind_eq_some h with ⟨e, rfl, rfl⟩ | ⟨_, htime, h⟩
  · exact ⟨consults_tip_then (.refl _), nofun⟩
  have htime := timestamp_lt_of_checkTimestamp htime
  rcases bind_eq_some h with ⟨e, hdifficulty, rfl⟩ | ⟨_, c₂, hdifficulty, h⟩
  · exact ⟨consults_tip_then (checkDifficulty_outcome hdifficulty), nofun⟩
  have hreads := consults_tip_then (checkDifficulty_outcome hdifficulty)
  rcases ofExcept_bind_eq_some h with ⟨e, rfl, rfl⟩ | ⟨_, -, h⟩
  · exact ⟨hreads, fun _ => htime⟩
  rcases ofExcept_bind_eq_some h with ⟨e, rfl, rfl⟩ | ⟨_, -, h⟩
  · exact ⟨hreads, fun _ => htime⟩
  obtain ⟨-, rfl⟩ := ofExcept_eq_some.1 h
  exact ⟨hreads, fun _ => htime⟩

lemma validateChild_outcome {header : Header} {r : Except ChainError Unit}
    (h : validateChild rules now header c = some (r, c')) :
    ∃ tip, (c.headerAt c.height).1 = some tip ∧
      Consults (CheckReads rules c tip) (fun _ => False) c c' ∧
      (r = .ok () → header.parentId = tip.id ∧ header.height = tip.height + 1 ∧
        tip.timestamp < header.timestamp) := by
  obtain ⟨tip, hfound, h⟩ := tip_bind_eq_some h
  refine ⟨tip, hfound, ?_⟩
  rcases ofExcept_bind_eq_some h with ⟨e, rfl, rfl⟩ | ⟨_, hparent, h⟩
  · exact ⟨consults_tip_then (.refl _), nofun⟩
  rcases ofExcept_bind_eq_some h with ⟨e, rfl, rfl⟩ | ⟨_, hheight, h⟩
  · exact ⟨consults_tip_then (.refl _), nofun⟩
  rcases ofExcept_bind_eq_some h with ⟨e, rfl, rfl⟩ | ⟨_, htime, h⟩
  · exact ⟨consults_tip_then (.refl _), nofun⟩
  have hfacts := And.intro (require_eq_ok.1 hparent)
    (And.intro (require_eq_ok.1 hheight) (timestamp_lt_of_checkTimestamp htime))
  rcases bind_eq_some h with ⟨e, hdifficulty, rfl⟩ | ⟨_, c₂, hdifficulty, h⟩
  · exact ⟨consults_tip_then (checkChildDifficulty_outcome hdifficulty), fun h => by cases h⟩
  have hreads := consults_tip_then (checkChildDifficulty_outcome hdifficulty)
  rcases ofExcept_bind_eq_some h with ⟨e, rfl, rfl⟩ | ⟨_, -, h⟩
  · exact ⟨hreads, fun _ => hfacts⟩
  rcases ofExcept_bind_eq_some h with ⟨e, rfl, rfl⟩ | ⟨_, -, h⟩
  · exact ⟨hreads, fun _ => hfacts⟩
  obtain ⟨-, rfl⟩ := ofExcept_eq_some.1 h
  exact ⟨hreads, fun _ => hfacts⟩

/-! ## Changes at the tip -/

/-- What a push does: it reads the score of the parent, 0 for the first header, and adds the header
with the score `total`. -/
structure Pushes (rules : CachedRules) (header : Header) (total : ℕ) (c c' : CachedChain) :
    Prop where
  /-- The score the header builds on, and the chain after reading it. -/
  exists_score : ∃ score c₁,
    (c.baseHeight = none ∧ score = 0 ∧ c₁ = c ∨
      (c.scoreAt (header.height - 1)).1 = some score ∧ c₁ = (c.scoreAt (header.height - 1)).2) ∧
    total = score + rules.headerDifficulty header ∧ c' = c₁.addHeader header total

variable {header : Header} {total : ℕ} {id : BlockId}

lemma Pushes.config_eq (h : Pushes rules header total c c') : c'.config = c.config := by
  obtain ⟨score, c₁, ⟨-, -, rfl⟩ | ⟨-, rfl⟩, -, rfl⟩ := h.exists_score
  · rfl
  · exact (consults_scoreAt c _).config_eq

lemma Pushes.lightClientMode_eq (h : Pushes rules header total c c') :
    c'.lightClientMode = c.lightClientMode := by
  obtain ⟨score, c₁, ⟨-, -, rfl⟩ | ⟨-, rfl⟩, -, rfl⟩ := h.exists_score
  · rfl
  · exact (consults_scoreAt c _).lightClientMode_eq

lemma Pushes.headers_eq (h : Pushes rules header total c c') :
    c'.lazy.headers = c.lazy.headers.put header.height header := by
  obtain ⟨score, c₁, ⟨-, -, rfl⟩ | ⟨-, rfl⟩, -, rfl⟩ := h.exists_score
  · rfl
  · show (c.scoreAt _).2.lazy.headers.put header.height header = _
    rw [(consults_scoreAt c _).headers.eq_of_forall_not (fun _ h => h)]

lemma parentScore_outcome (h : parentScore header c = some (r, c')) :
    ∃ score, r = .ok score ∧
      (c.baseHeight = none ∧ score = 0 ∧ c' = c ∨ (c.scoreAt (header.height - 1)).1 = some score ∧
          c' = (c.scoreAt (header.height - 1)).2) := by
  rw [parentScore, state_bind] at h
  rcases hbase : c.baseHeight with _ | _ <;> rw [hbase] at h
  · cases h
    exact ⟨0, rfl, .inl ⟨rfl, rfl, rfl⟩⟩
  · simp only [read_bind] at h
    cases hfound : (c.scoreAt (header.height - 1)).1 with
    | none =>
      rw [hfound] at h
      exact (crash_eq_some.1 h).elim
    | some score =>
      rw [hfound] at h
      cases h
      exact ⟨score, rfl, .inr ⟨rfl, rfl⟩⟩

lemma pushHeader_outcome {r : Except ChainError Unit}
    (h : pushHeader rules header c = some (r, c')) :
    ∃ u, r = .ok u ∧ ∃ total, Pushes rules header total c c' := by
  obtain ⟨score, c₁, hread, h⟩ := bind_eq_some_of_ok (fun _ _ => parentScore_outcome) h
  obtain ⟨rfl, rfl⟩ := modify_eq_some.1 h
  exact ⟨(), rfl, _, score, c₁, hread, rfl, rfl⟩

lemma pushHeader_bind_eq_some {f : Unit → ChainCall β}
    {r : Except ChainError β} (h : (pushHeader rules header >>= f) c = some (r, c')) :
    ∃ total c₁, Pushes rules header total c c₁ ∧ f () c₁ = some (r, c') := by
  obtain ⟨u, c₁, ⟨total, hpushes⟩, h⟩ := bind_eq_some_of_ok (fun _ _ => pushHeader_outcome) h
  exact ⟨total, c₁, hpushes, h⟩

def tipRead (c : CachedChain) : CachedChain := ((c.headerAt c.height).2.scoreAt c.height).2

/-- What a pop does: it reads the tip and its score, and takes the tip off. -/
structure Pops (c : CachedChain) (popped : Header × ℕ) (c' : CachedChain) : Prop where
  found : (c.headerAt c.height).1 = some popped.1
  score : popped.2 = ((c.headerAt c.height).2.scoreAt c.height).1.getD 0
  chain : c' = c.tipRead.removeHeader popped.1.id c.height

lemma consults_tipRead (c : CachedChain) :
    Consults (fun k => k = c.height ∧ c.Spans k) (fun k => k = c.height ∧ c.Spans k) c c.tipRead := by
  have hheader := consults_headerAt c c.height
  have hscore := consults_scoreAt (c.headerAt c.height).2 c.height
  refine Consults.trans (hheader.mono (fun _ => id) (fun _ h => h.elim))
    (hscore.mono (fun _ h => h.elim) ?_)
  rintro k ⟨rfl, hspans⟩
  exact ⟨rfl, (hheader.spans_iff _).1 hspans⟩

lemma popHeader_outcome {r : Except ChainError (Option (Header × ℕ))}
    (hsize : c.byId.size ≠ 0) (h : popHeader c = some (r, c')) :
    ∃ popped?, r = .ok popped? ∧ ∃ popped, popped? = some popped ∧ Pops c popped c' := by
  rw [popHeader, state_bind, if_neg hsize, read_bind] at h
  cases hfound : (c.headerAt c.height).1 with
  | none =>
    rw [hfound] at h
    exact (crash_eq_some.1 h).elim
  | some header =>
    rw [hfound] at h
    have hheight := (consults_headerAt c c.height).height_eq
    simp only [read_bind, modify_bind, hheight] at h
    cases h
    refine ⟨_, rfl, _, rfl, hfound, rfl, ?_⟩
    rw [(consults_scoreAt _ _).height_eq, hheight]
    rfl

lemma popHeader_bind_eq_some {f : Option (Header × ℕ) → ChainCall β}
    {r : Except ChainError β} (hsize : c.byId.size ≠ 0) (h : (popHeader >>= f) c = some (r, c')) :
    ∃ popped c₁, Pops c popped c₁ ∧ f (some popped) c₁ = some (r, c') := by
  obtain ⟨_, c₁, ⟨popped, rfl, hpops⟩, h⟩ :=
    bind_eq_some_of_ok (fun _ _ => popHeader_outcome hsize) h
  exact ⟨popped, c₁, hpops, h⟩

/-! ## The shape of the chain -/

/-- The chain has these ids, one for each height from `base` on. `heightOf` is the height of a
header with an id. -/
structure Coherent (heightOf : BlockId → ℕ) (base : ℕ) (ids : List BlockId) (c : CachedChain) :
    Prop where
  baseHeight_eq : c.baseHeight = if ids = [] then none else some base
  filed : Filed heightOf ids c.byId
  heights : ids.map heightOf = List.range' base ids.length
  served : ∀ k x, c.lazy.headers.Serves k x → heightOf x.id = x.height

namespace Coherent

variable {heightOf : BlockId → ℕ} {base : ℕ} {ids : List BlockId} {P Q : ℕ → Prop}

variable (hc : Coherent heightOf base ids c)

include hc

lemma height_eq (hne : ids ≠ []) :
    c.height = base + ids.length - 1 := by
  have hsize : ¬c.byId.size = 0 := by
    rwa [hc.filed.size_eq, length_eq_zero_iff]
  rw [height, hc.baseHeight_eq, if_neg hne]
  dsimp only
  rw [if_neg hsize, hc.filed.size_eq]

lemma spans_iff :
    c.Spans h ↔ base ≤ h ∧ h < base + ids.length := by
  by_cases hne : ids = []
  · rw [Spans, hc.baseHeight_eq, if_pos hne, hne, length_nil]
    constructor
    · rintro ⟨b, hb, -⟩
      cases hb
    · intro h
      omega
  · have hpos := length_pos_iff.2 hne
    rw [Spans, hc.baseHeight_eq, if_neg hne, hc.height_eq hne]
    constructor
    · rintro ⟨b, hb, hle, hge⟩
      cases hb
      omega
    · intro h
      exact ⟨base, rfl, by omega, by omega⟩

lemma nodup : ids.Nodup := by
  apply Nodup.of_map heightOf
  rw [hc.heights]
  exact nodup_range'

lemma heightOf_eq {i : ℕ} (h : ids[i]? = some id) : heightOf id = base + i := by
  have hmap := congrArg (fun l => l[i]?) hc.heights
  have hlt : i < ids.length := (List.getElem?_eq_some_iff.1 h).1
  simp only [getElem?_map, h, Option.map_some, getElem?_range', hlt] at hmap
  simpa using hmap

lemma headerAt_id (hx : (c.headerAt h).1 = some x) :
    ids[h - base]? = some x.id ∧ x.height = h := by
  obtain ⟨hspans, hview, hid⟩ := headerAt_fst_eq_some.1 hx
  obtain ⟨hmem, hheight⟩ := (hc.filed.rows _ _).1 hid
  obtain ⟨i, hi⟩ := getElem?_of_mem hmem
  have hindex := hc.heightOf_eq hi
  have hserved := hc.served h x (serves_of_view hview)
  have hsub : h - base = i := by omega
  rw [hsub]
  exact ⟨hi, by omega⟩

lemma consults (h : Consults P Q c c') :
    Coherent heightOf base ids c' where
  baseHeight_eq := by rw [h.baseHeight_eq, hc.baseHeight_eq]
  filed := by
    rw [h.byId_eq]
    exact hc.filed
  heights := hc.heights
  served k x hx := hc.served k x (h.headers.serves hx)

lemma not_mem_of_height (h : heightOf id = base + ids.length) : id ∉ ids := by
  intro hmem
  obtain ⟨i, hi⟩ := getElem?_of_mem hmem
  have hlt : i < ids.length := (List.getElem?_eq_some_iff.1 hi).1
  have := hc.heightOf_eq hi
  omega

lemma addHeader
    (hheight : x.height = base + ids.length) (hid : heightOf x.id = x.height) (score : ℕ) :
    Coherent heightOf base (ids ++ [x.id]) (c.addHeader x score) where
  baseHeight_eq := by
    have hgrown : ids ++ [x.id] ≠ [] := by simp
    show some (c.baseHeight.getD x.height) = _
    rw [hc.baseHeight_eq, if_neg hgrown]
    by_cases hne : ids = []
    · simp [hne, hheight]
    · simp [hne]
  filed := hc.filed.insert (hc.not_mem_of_height (hid.trans hheight)) hid
  heights := by
    rw [map_append, hc.heights, length_append, length_singleton,
      range'_1_concat, map_singleton, hid, hheight]
  served k y hy := by
    rcases serves_put hy with ⟨-, rfl⟩ | hy
    · exact hid
    · exact hc.served k y hy

omit hc in
lemma removeHeader (hc : Coherent heightOf base (ids ++ [id]) c) (h : ℕ) :
    Coherent heightOf base ids (c.removeHeader id h) := by
  have hfiled : Filed heightOf (ids ++ []) (c.byId.erase id) := hc.filed.erase hc.nodup
  rw [append_nil] at hfiled
  refine ⟨?_, hfiled, ?_, fun k x hx => hc.served k x (serves_evict hx)⟩
  · rw [CachedChain.removeHeader, hc.baseHeight_eq, if_neg (by simp : ids ++ [id] ≠ []),
      hfiled.size_eq]
    simp only [length_eq_zero_iff]
  · have hheights := hc.heights
    rw [map_append, length_append, length_singleton, range'_1_concat] at hheights
    exact (append_inj' hheights rfl).1

lemma pushes {total : ℕ}
    (h : Pushes rules x total c c') (hheight : x.height = base + ids.length) (hid : heightOf x.id = x.height) :
    Coherent heightOf base (ids ++ [x.id]) c' := by
  obtain ⟨score, c₁, hread, -, rfl⟩ := h.exists_score
  rcases hread with ⟨-, -, rfl⟩ | ⟨-, rfl⟩
  · exact hc.addHeader hheight hid _
  · exact (hc.consults (consults_scoreAt _ _)).addHeader hheight hid _

lemma pops {popped : Header × ℕ} (h : Pops c popped c') :
    ids = ids.dropLast ++ [popped.1.id] ∧ Coherent heightOf base ids.dropLast c' := by
  obtain ⟨hid, -⟩ := hc.headerAt_id h.found
  have hne : ids ≠ [] := by
    rintro rfl
    simp at hid
  rw [hc.height_eq hne] at hid
  have hindex : base + ids.length - 1 - base = ids.length - 1 := by omega
  rw [hindex, ← getLast?_eq_getElem?] at hid
  have hsplit : ids = ids.dropLast ++ [popped.1.id] := by
    obtain ⟨init, hinit⟩ := getLast?_eq_some_iff.1 hid
    rw [hinit, dropLast_concat]
  refine ⟨hsplit, ?_⟩
  rw [h.chain]
  apply removeHeader
  rw [← hsplit]
  exact hc.consults (consults_tipRead c)

end Coherent

end CachedChain

end ErgoNode
