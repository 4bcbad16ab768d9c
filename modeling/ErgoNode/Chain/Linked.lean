import ErgoNode.Chain.HeaderChain

/-!
# Linked chains

A chain built by the two mutating operations is linked: each entry names the one before it as
parent, sits one height above it and adds its own difficulty to its score. This file states the
invariant, reads it off as facts about heights and lookups, and shows that appending and
reorganising keep it.
-/

namespace ErgoNode

open List HeaderChain

structure ChainEntry.Follows (rules : HeaderRules) (a b : ChainEntry) : Prop where
  parentId_eq : b.header.parentId = a.header.id
  height_eq : b.header.height = a.header.height + 1
  score_eq : b.score = a.score + rules.headerDifficulty b.header

namespace HeaderChain

variable {e : ChainEntry} {b h now f : ℕ} {tip header : Header} {c' : HeaderChain} {p : BlockId}

def Linked (rules : HeaderRules) (c : HeaderChain) : Prop :=
  c.entries.IsChain (ChainEntry.Follows rules)

variable {rules : HeaderRules} {c : HeaderChain} {es : List ChainEntry} {branch : List Header}

/-! ## Heights -/

lemma map_height_eq_range' (h : (e :: es).IsChain (ChainEntry.Follows rules)) :
    (e :: es).map (·.header.height) = List.range' e.header.height (es.length + 1) := by
  induction es generalizing e with
  | nil => simp
  | cons e' es ih =>
    obtain ⟨hfollows, htail⟩ := isChain_cons_cons.1 h
    rw [map_cons, ih htail, length_cons, range'_succ (n := es.length + 1), hfollows.height_eq]

lemma Linked.map_height (hc : c.Linked rules) (hb : c.baseHeight = some b) :
    c.entries.map (·.header.height) = List.range' b c.entries.length := by
  obtain ⟨e, he, rfl⟩ := Option.map_eq_some_iff.1 hb
  cases hentries : c.entries with
  | nil => simp [hentries] at he
  | cons e' es =>
    rw [hentries, head?_cons, Option.some_inj] at he
    subst he
    rw [Linked, hentries] at hc
    exact map_height_eq_range' hc

lemma baseHeight_eq_none_iff : c.baseHeight = none ↔ c.entries = [] := by
  simp [baseHeight]

lemma Linked.pairwise (hc : c.Linked rules) :
    c.entries.Pairwise (fun a b => a.header.height < b.header.height) := by
  cases hb : c.baseHeight with
  | none => simp [baseHeight_eq_none_iff.1 hb]
  | some b =>
    have h : (c.entries.map (·.header.height)).Pairwise (· < ·) := by
      rw [hc.map_height hb]
      exact pairwise_lt_range'
    exact pairwise_map.1 h

lemma Linked.mem_range (hc : c.Linked rules) (hb : c.baseHeight = some b) :
    (∃ e ∈ c.entries, e.header.height = h) ↔ b ≤ h ∧ h < b + c.entries.length := by
  rw [← mem_range'_1, ← hc.map_height hb, mem_map]

lemma height_eq (hb : c.baseHeight = some b) :
    c.height = b + c.entries.length - 1 := by
  simp [height, hb]

lemma length_pos (hb : c.baseHeight = some b) : 0 < c.entries.length := by
  rw [length_pos_iff, ne_eq, ← baseHeight_eq_none_iff]
  simp [hb]

lemma Linked.eq_of_height_eq (hc : c.Linked rules) {e' : ChainEntry} (he : e ∈ c.entries)
    (he' : e' ∈ c.entries) (h : e.header.height = e'.header.height) : e = e' := by
  have hlt := pairwise_iff_getElem.1 hc.pairwise
  by_contra hne
  obtain ⟨i, hi, rfl⟩ := getElem_of_mem he
  obtain ⟨j, hj, rfl⟩ := getElem_of_mem he'
  rcases Nat.lt_trichotomy i j with hij | rfl | hij
  · exact absurd (hlt i j hi hj hij) (by omega)
  · exact hne rfl
  · exact absurd (hlt j i hj hi hij) (by omega)

lemma Linked.entryAt_eq_some_iff (hc : c.Linked rules) :
    c.entryAt h = some e ↔ e ∈ c.entries ∧ e.header.height = h := by
  constructor
  · intro hfind
    exact ⟨mem_of_find?_eq_some hfind, by simpa using find?_some hfind⟩
  · rintro ⟨he, rfl⟩
    cases hfind : c.entryAt e.header.height with
    | none => simpa using find?_eq_none.1 hfind e he
    | some e' =>
      have hheight : e'.header.height = e.header.height := by
        simpa using find?_some hfind
      rw [hc.eq_of_height_eq (mem_of_find?_eq_some hfind) he hheight]

lemma Linked.isSome_entryAt_iff (hc : c.Linked rules) (hb : c.baseHeight = some b) :
    (c.entryAt h).isSome ↔ b ≤ h ∧ h ≤ c.height := by
  have hpos := length_pos hb
  rw [Option.isSome_iff_exists, height_eq hb]
  simp only [hc.entryAt_eq_some_iff]
  rw [hc.mem_range hb]
  omega

lemma entryAt_of_entries_nil (h : c.entries = []) (k : ℕ) : c.entryAt k = none := by
  simp [entryAt, h]

lemma Linked.getLast_height (hc : c.Linked rules) (he : c.entries.getLast? = some e) :
    e.header.height = c.height := by
  cases hb : c.baseHeight with
  | none => simp [baseHeight_eq_none_iff.1 hb] at he
  | some b =>
    have hlast := congrArg getLast? (hc.map_height hb)
    have hpos := length_pos hb
    rw [getLast?_map, he, getLast?_range', if_neg (by omega)] at hlast
    rw [height_eq hb]
    simpa using hlast

def Spans (c : HeaderChain) (h : ℕ) : Prop := ∃ b, c.baseHeight = some b ∧ b ≤ h ∧ h ≤ c.height

instance (c : HeaderChain) (h : ℕ) : Decidable (c.Spans h) :=
  match hb : c.baseHeight with
  | none => isFalse (by simp [Spans, hb])
  | some b => decidable_of_iff (b ≤ h ∧ h ≤ c.height) (by simp [Spans, hb])

lemma Linked.isSome_entryAt_iff_spans (hc : c.Linked rules) :
    (c.entryAt h).isSome ↔ c.Spans h := by
  cases hb : c.baseHeight with
  | none => simp [Spans, hb, entryAt_of_entries_nil (baseHeight_eq_none_iff.1 hb)]
  | some b => simp [Spans, hb, hc.isSome_entryAt_iff hb]

lemma baseHeight_append (es : List ChainEntry) (hne : c.entries ≠ []) :
    ({ c with entries := c.entries ++ es } : HeaderChain).baseHeight = c.baseHeight := by
  cases hentries : c.entries with
  | nil => exact absurd hentries hne
  | cons e es' => simp [baseHeight, hentries]

lemma height_append (hne : c.entries ≠ []) :
    ({ c with entries := c.entries ++ es } : HeaderChain).height = c.height + es.length := by
  obtain ⟨b, hb⟩ := Option.ne_none_iff_exists'.1 (fun h => hne (baseHeight_eq_none_iff.1 h))
  have hpos := length_pos hb
  rw [height_eq (baseHeight_append _ hne ▸ hb), height_eq hb, length_append]
  omega

lemma Spans.append (hspans : c.Spans h) (es : List ChainEntry) :
    ({ c with entries := c.entries ++ es } : HeaderChain).Spans h := by
  obtain ⟨b, hb, hle, hge⟩ := hspans
  have hne : c.entries ≠ [] := fun hnil => by simp [baseHeight_eq_none_iff.2 hnil] at hb
  exact ⟨b, by rw [baseHeight_append _ hne, hb], hle, by rw [height_append hne]; omega⟩

lemma idAt_eq_map (h : ℕ) : c.idAt h = (c.entryAt h).map (·.header.id) := by
  simp [idAt, headerAt, Function.comp_def]

lemma Linked.isSome_idAt_iff (hc : c.Linked rules) : (c.idAt h).isSome ↔ c.Spans h := by
  rw [idAt_eq_map, Option.isSome_map, hc.isSome_entryAt_iff_spans]

lemma Linked.idAt_eq_some_iff (hc : c.Linked rules) {id : BlockId} :
    c.idAt h = some id ↔ ∃ e ∈ c.entries, e.header.height = h ∧ e.header.id = id := by
  simp only [idAt_eq_map, Option.map_eq_some_iff, hc.entryAt_eq_some_iff, and_assoc]

lemma tip?_eq_some_iff :
    c.tip? = some tip ↔ ∃ e, c.entries.getLast? = some e ∧ e.header = tip :=
  Option.map_eq_some_iff

lemma tip?_eq_none_iff : c.tip? = none ↔ c.entries = [] := by
  simp [tip?]

lemma Linked.cumulativeScore_eq (hc : c.Linked rules) (he : c.entries.getLast? = some e) :
    c.cumulativeScore = e.score := by
  have hentry : c.entryAt c.height = some e :=
    hc.entryAt_eq_some_iff.2 ⟨mem_of_getLast? he, hc.getLast_height he⟩
  simp [cumulativeScore, scoreAt, hentry]

/-! ## Pushing -/

structure FitsTip (c : HeaderChain) (tip header : Header) : Prop where
  tip_eq : c.tip? = some tip
  parentId_eq : header.parentId = tip.id
  height_eq : header.height = tip.height + 1

lemma entries_pushHeader_of_nil (h : c.entries = []) (header : Header) :
    (c.pushHeader rules header).entries = [⟨header, rules.headerDifficulty header⟩] := by
  simp [pushHeader, h]

lemma Linked.entries_pushHeader (hc : c.Linked rules)
    (hfits : c.FitsTip tip header) {last : ChainEntry} (hlast : c.entries.getLast? = some last) :
    (c.pushHeader rules header).entries =
      c.entries ++ [⟨header, last.score + rules.headerDifficulty header⟩] := by
  obtain ⟨e, he, rfl⟩ := tip?_eq_some_iff.1 hfits.tip_eq
  obtain rfl : e = last := by simpa [he] using hlast
  have hentry : c.entryAt (header.height - 1) = some e := by
    rw [hfits.height_eq, Nat.add_sub_cancel]
    exact hc.entryAt_eq_some_iff.2 ⟨mem_of_getLast? he, rfl⟩
  have hne : c.entries ≠ [] := by
    rintro hnil
    simp [hnil] at he
  simp [pushHeader, hne, scoreAt, hentry]

lemma Linked.pushHeader (hc : c.Linked rules) (hfits : c.FitsTip tip header) :
    (c.pushHeader rules header).Linked rules := by
  obtain ⟨last, hlast, rfl⟩ := tip?_eq_some_iff.1 hfits.tip_eq
  rw [Linked, hc.entries_pushHeader hfits hlast]
  refine IsChain.append hc (isChain_singleton _) ?_
  intro a ha b hb
  obtain rfl : last = a := by simpa [hlast] using ha
  obtain rfl := by simpa using hb
  exact ⟨hfits.parentId_eq, hfits.height_eq, rfl⟩

lemma linked_pushHeader_of_nil (h : c.entries = []) (header : Header) :
    (c.pushHeader rules header).Linked rules := by
  rw [Linked, entries_pushHeader_of_nil h]
  exact isChain_singleton _

lemma entryAt_pushHeader (header : Header) (k : ℕ) :
    ((c.pushHeader rules header).headerAt k) =
      (c.headerAt k).or (if header.height = k then some header else none) := by
  simp only [headerAt, entryAt, pushHeader, find?_append, Option.map_or]
  by_cases hk : header.height = k <;> simp [hk]

@[simp]
lemma tip?_pushHeader (header : Header) : (c.pushHeader rules header).tip? = some header := by
  simp [tip?, pushHeader]

/-! ## Outcomes of `tryAppend` -/

lemma tryAppend_extended (h : c.tryAppend rules now header = (.ok .extended, c')) :
    c' = c.pushHeader rules header ∧
      (c.entries = [] ∧ c.validateGenesis rules header = .ok () ∨
        ∃ tip, c.FitsTip tip header ∧ c.validateChild rules now tip header = .ok ()) := by
  unfold tryAppend at h
  split at h
  next htip =>
    split at h <;> cases h
    next hval => exact ⟨rfl, Or.inl ⟨tip?_eq_none_iff.1 htip, hval⟩⟩
  next tip htip =>
    split at h
    next hparent =>
      split at h <;> cases h
      next hval =>
        have hheight : header.height = tip.height + 1 := by
          have hpassed := hval
          simp only [validateChild, bind_eq_ok, require_eq_ok, exists_and_left] at hpassed
          exact hpassed.2.1
        exact ⟨rfl, Or.inr ⟨tip, ⟨htip, hparent, hheight⟩, hval⟩⟩
    · split at h
      · split at h <;> cases h
      · cases h

lemma tryAppend_forked {forkHeight : ℕ}
    (h : c.tryAppend rules now header = (.ok (.forked forkHeight), c')) :
    c' = c ∧ c.heightOf header.parentId = some forkHeight ∧ header.height = forkHeight + 1 := by
  unfold tryAppend at h
  split at h
  · split at h <;> cases h
  · split at h
    · split at h <;> cases h
    · split at h
      next hof =>
        split at h <;> cases h
        next hheight _ => exact ⟨rfl, hof, not_not.1 hheight⟩
      · cases h

lemma voting_of_checkHeaderVotes_eq_error {votes : Votes} {e : ChainError}
    (h : checkHeaderVotes votes = .error e) : ∃ reason, e = .voting reason := by
  simp only [checkHeaderVotes, bind_eq_error, require_eq_error, require_eq_ok] at h
  rcases h with ⟨-, rfl⟩ | ⟨_, -, h⟩
  · exact ⟨_, rfl⟩
  · obtain ⟨v, -, hv⟩ := exists_of_forM_eq_error h
    simp only [bind_eq_error, require_eq_error, require_eq_ok] at hv
    rcases hv with ⟨-, rfl⟩ | ⟨_, -, -, rfl⟩ <;> exact ⟨_, rfl⟩

lemma voting_of_checkForkVoteGate_eq_error {e : ChainError}
    (h : c.checkForkVoteGate header = .error e) : ∃ reason, e = .voting reason := by
  simp only [checkForkVoteGate, bind_eq_error, require_eq_error] at h
  rcases h with h | ⟨_, -, -, rfl⟩
  · unfold checkForkVote at h
    split at h
    · simp at h
    split at h
    · simp at h
    split at h
    · exact ⟨_, (Except.error.inj h).symm⟩
    · dsimp only at h
      split at h <;> simp at h
  · exact ⟨_, rfl⟩

lemma checkPow_ne_parentNotFound :
    checkPow rules header ≠ .error (.parentNotFound p) := by
  unfold checkPow
  cases rules.verifyPow header <;> simp [Except.mapError]

lemma checkDifficulty_ne_parentNotFound :
    checkDifficulty rules c tip header ≠ .error (.parentNotFound p) := by
  unfold checkDifficulty
  cases rules.expectedDifficulty c.config c.headerAt tip <;> simp [Except.mapError]

lemma checkTimestamp_ne_parentNotFound :
    c.checkTimestamp now tip header ≠ .error (.parentNotFound p) := by
  simp [checkTimestamp]

lemma validateChild_ne_parentNotFound (hparent : header.parentId = tip.id) :
    c.validateChild rules now tip header ≠ .error (.parentNotFound p) := by
  intro h
  simp only [validateChild, bind_eq_error, require_eq_error, require_eq_ok, hparent,
    not_true_eq_false, false_and, false_or, reduceCtorEq, and_false] at h
  obtain ⟨_, -, _, -, h⟩ := h
  rcases h with h | ⟨_, -, h⟩
  · exact checkTimestamp_ne_parentNotFound h
  rcases h with h | ⟨_, -, h⟩
  · unfold checkChildDifficulty at h
    split at h
    · simp at h
    · exact checkDifficulty_ne_parentNotFound h
  rcases h with h | ⟨_, -, h⟩
  · exact checkPow_ne_parentNotFound h
  rcases h with h | ⟨_, -, h⟩
  · obtain ⟨reason, hreason⟩ := voting_of_checkHeaderVotes_eq_error h
    simp at hreason
  · obtain ⟨reason, hreason⟩ := voting_of_checkForkVoteGate_eq_error h
    simp at hreason

lemma validateGenesis_ne_parentNotFound :
    c.validateGenesis rules header ≠ .error (.parentNotFound p) := by
  intro h
  simp only [validateGenesis, bind_eq_error, require_eq_error, require_eq_ok, reduceCtorEq,
    and_false, false_or] at h
  obtain ⟨_, -, _, -, _, -, h⟩ := h
  rcases h with h | ⟨_, -, h⟩
  · exact checkPow_ne_parentNotFound h
  · split at h <;> simp at h

lemma validateChild_ne_invalidGenesis {e : ChainError}
    (he : (∃ p, e = .invalidGenesisParent p) ∨ ∃ h, e = .invalidGenesisHeight h) :
    c.validateChild rules now tip header ≠ .error e := by
  intro h
  simp only [validateChild, checkTimestamp, checkChildDifficulty, checkDifficulty, checkPow,
    bind_eq_error, require_eq_error, require_eq_ok] at h
  rcases h with ⟨-, rfl⟩ | ⟨_, -, ⟨-, rfl⟩ | ⟨_, -, h⟩⟩
  · simp at he
  · simp at he
  rcases h with (⟨-, rfl⟩ | ⟨_, -, -, rfl⟩) | ⟨_, -, h⟩
  · simp at he
  · simp at he
  rcases h with h | ⟨_, -, h⟩
  · split at h
    · simp at h
    · cases hexp : rules.expectedDifficulty c.config c.headerAt tip <;> simp [hexp, Except.mapError] at h
      · simp [← h] at he
      · simp [← h.2] at he
  rcases h with h | ⟨_, -, h⟩
  · cases hpow : rules.verifyPow header <;> simp [hpow, Except.mapError] at h
    simp [← h] at he
  rcases h with h | ⟨_, -, h⟩
  · obtain ⟨reason, rfl⟩ := voting_of_checkHeaderVotes_eq_error h
    simp at he
  · obtain ⟨reason, rfl⟩ := voting_of_checkForkVoteGate_eq_error h
    simp at he

lemma tryAppend_invalidGenesis {g : ℕ}
    (h : c.tryAppend rules now header = (.error (.invalidGenesisParent g), c') ∨
      c.tryAppend rules now header = (.error (.invalidGenesisHeight g), c')) :
    c.entries = [] := by
  obtain ⟨e, he, h⟩ : ∃ e, ((∃ p, e = ChainError.invalidGenesisParent p) ∨
      ∃ h, e = ChainError.invalidGenesisHeight h) ∧
      c.tryAppend rules now header = (.error e, c') := by
    rcases h with h | h
    · exact ⟨_, Or.inl ⟨g, rfl⟩, h⟩
    · exact ⟨_, Or.inr ⟨g, rfl⟩, h⟩
  by_contra hne
  obtain ⟨tip, htip⟩ := Option.ne_none_iff_exists'.1 (fun hnone => hne (tip?_eq_none_iff.1 hnone))
  simp only [tryAppend, htip] at h
  split at h
  · split at h <;> cases h
    next hval => exact validateChild_ne_invalidGenesis he hval
  · split at h
    · split at h <;> cases h
      simp at he
    · cases h
      simp at he

lemma tryAppend_parentNotFound
    (h : c.tryAppend rules now header = (.error (.parentNotFound p), c')) :
    c.heightOf header.parentId = none ∧ c.entries ≠ [] := by
  unfold tryAppend at h
  split at h
  · split at h <;> cases h
    next hval => exact absurd hval validateGenesis_ne_parentNotFound
  next tip htip =>
    have hne : c.entries ≠ [] := fun hnil => by simp [tip?_eq_none_iff.2 hnil] at htip
    split at h
    next hparent =>
      split at h <;> cases h
      next hval => exact absurd hval (validateChild_ne_parentNotFound hparent)
    · split at h
      · split at h <;> cases h
      next hof => exact ⟨hof, hne⟩

lemma heightOf_eq_none_iff {id : BlockId} :
    c.heightOf id = none ↔ ∀ e ∈ c.entries, e.header.id ≠ id := by
  simp [heightOf, find?_eq_none]

lemma tryAppend_of_heightOf_eq_none (hne : c.entries ≠ [])
    (h : c.heightOf header.parentId = none) :
    c.tryAppend rules now header = (.error (.parentNotFound header.parentId), c) := by
  obtain ⟨tip, htip⟩ := Option.ne_none_iff_exists'.1 (fun hnone => hne (tip?_eq_none_iff.1 hnone))
  obtain ⟨e, he, rfl⟩ := tip?_eq_some_iff.1 htip
  have hparent : header.parentId ≠ e.header.id := fun heq =>
    heightOf_eq_none_iff.1 h e (mem_of_getLast? he) heq.symm
  simp [tryAppend, htip, hparent, h]

/-! ## Reorganising -/

lemma Linked.truncate_append_entriesAbove (hc : c.Linked rules) (f : ℕ) :
    (c.truncate f).entries ++ c.entriesAbove f = c.entries := by
  have hsorted := hc.pairwise
  simp only [truncate, entriesAbove]
  generalize c.entries = es at hsorted
  induction es with
  | nil => rfl
  | cons e es ih =>
    obtain ⟨hhead, htail⟩ := pairwise_cons.1 hsorted
    by_cases he : e.header.height ≤ f
    · rw [filter_cons_of_pos (by simpa using he),
        filter_cons_of_neg (by simpa using he), cons_append, ih htail]
    · -- everything from here on lies above the height
      have habove : ∀ x ∈ e :: es, ¬ x.header.height ≤ f := by
        intro x hx
        rcases mem_cons.1 hx with rfl | hx
        · exact he
        · have := hhead x hx
          omega
      rw [filter_eq_nil_iff.2 (fun x hx => by simpa using habove x hx), nil_append,
        filter_eq_self.2 (fun x hx => by simpa using habove x hx)]

lemma Linked.truncate (hc : c.Linked rules) (f : ℕ) : (c.truncate f).Linked rules := by
  have h := hc
  rw [Linked, ← hc.truncate_append_entriesAbove f] at h
  exact h.left_of_append

lemma Linked.getLast_truncate (hc : c.Linked rules) (he : c.entryAt f = some e) :
    (c.truncate f).entries.getLast? = some e := by
  obtain ⟨hmem, hheight⟩ := hc.entryAt_eq_some_iff.1 he
  have hkept : e ∈ (c.truncate f).entries := by
    simp [HeaderChain.truncate, hmem, hheight]
  cases hlast : (c.truncate f).entries.getLast? with
  | none => simp [getLast?_eq_none_iff.1 hlast] at hkept
  | some last =>
    -- the last entry is at least as high as the one at the cut, and not above it
    have hle : last.header.height ≤ f := by
      have := mem_of_getLast? hlast
      simpa using (mem_filter.1 this).2
    have hrange := (hc.truncate f).getLast_height hlast
    cases hb : (c.truncate f).baseHeight with
    | none => simp [baseHeight_eq_none_iff.1 hb] at hkept
    | some b =>
      have hge := ((hc.truncate f).isSome_entryAt_iff hb (h := e.header.height)).1
        (by rw [(hc.truncate f).entryAt_eq_some_iff.2 ⟨hkept, rfl⟩]; rfl)
      rw [(hc.truncate f).eq_of_height_eq (mem_of_getLast? hlast) hkept (by omega)]

lemma Linked.baseHeight_truncate (hc : c.Linked rules) (he : c.entryAt f = some e) :
    (c.truncate f).baseHeight = c.baseHeight := by
  have hne : (c.truncate f).entries ≠ [] := fun hnil => by
    simpa [hnil] using hc.getLast_truncate he
  have h := baseHeight_append (c.entriesAbove f) hne
  rw [hc.truncate_append_entriesAbove] at h
  exact h.symm

lemma Linked.height_truncate (hc : c.Linked rules) (he : c.entryAt f = some e) :
    (c.truncate f).height = f := by
  rw [← (hc.truncate f).getLast_height (hc.getLast_truncate he)]
  exact (hc.entryAt_eq_some_iff.1 he).2

lemma appendBranch_entries (rules : HeaderRules) (now f : ℕ) (branch : List Header) (i : ℕ) (c : HeaderChain) :
    ∃ es, (c.appendBranch rules now f i branch).2 = { c with entries := c.entries ++ es } ∧
      (∀ e ∈ es, f < e.header.height) ∧
      ((c.appendBranch rules now f i branch).1 = none → es.map (·.header) = branch) := by
  induction branch generalizing i c with
  | nil => exact ⟨[], by simp [appendBranch], by simp, by simp⟩
  | cons header rest ih =>
    unfold appendBranch
    split
    · exact ⟨[], by simp, by simp, by simp⟩
    · split
      · exact ⟨[], by simp, by simp, by simp⟩
      · split
        · exact ⟨[], by simp, by simp, by simp⟩
        next hheight =>
          split
          · exact ⟨[], by simp, by simp, by simp⟩
          · obtain ⟨es, hes, habove, hdone⟩ := ih (i + 1) (c.pushHeader rules header)
            refine ⟨(c.pushHeader rules header).entries.getLast (by simp [pushHeader])
              :: es, ?_, ?_, ?_⟩
            · rw [hes]
              simp [pushHeader]
            · intro e he
              rcases mem_cons.1 he with rfl | he
              · simp only [pushHeader, getLast_append_singleton]
                omega
              · exact habove e he
            · intro hnone
              simp [hdone hnone, pushHeader]

lemma Linked.appendBranch (now f : ℕ) (branch : List Header) (i : ℕ) {c : HeaderChain}
    (hc : c.Linked rules) (htip : ∀ tip, c.tip? = some tip → tip.height = f + i)
    (hfirst : i = 0 → ∀ tip, c.tip? = some tip → ∀ header ∈ branch.head?, header.parentId = tip.id) :
    (c.appendBranch rules now f i branch).2.Linked rules := by
  induction branch generalizing i c with
  | nil => exact hc
  | cons header rest ih =>
    unfold HeaderChain.appendBranch
    split
    · exact hc
    next tip hceq =>
      split
      · exact hc
      next hparent =>
        split
        · exact hc
        next hheight =>
          split
          · exact hc
          · have hfits : c.FitsTip tip header := by
              refine ⟨hceq, ?_, ?_⟩
              · by_cases hi : i = 0
                · exact hfirst hi tip hceq header (by simp)
                · by_contra hne
                  exact hparent ⟨Nat.pos_of_ne_zero hi, hne⟩
              · have := htip tip hceq
                omega
            refine ih (i + 1) (hc.pushHeader hfits) ?_ (fun h => by omega)
            intro tip' htip'
            rw [tip?_pushHeader, Option.some_inj] at htip'
            subst htip'
            omega

/-- `c'` is `c` with everything above the height `f` replaced by the entries `es`. -/
structure Switched (rules : HeaderRules) (c : HeaderChain) (f : ℕ) (es : List ChainEntry)
    (c' : HeaderChain) : Prop where
  chain_eq : c' = { c with entries := (c.truncate f).entries ++ es }
  above : ∀ e ∈ es, f < e.header.height
  linked : c'.Linked rules
  forkPoint : (c.entryAt f).isSome
  baseHeight_eq : c'.baseHeight = c.baseHeight
  height_eq : c'.height = f + es.length

lemma tryReorgDeep_ok {ids : List BlockId} (hc : c.Linked rules)
    (h : c.tryReorgDeep rules now f branch = (.ok ids, c')) :
    ∃ es, es.map (·.header) = branch ∧ Switched rules c f es c' := by
  cases branch with
  | nil => simp [tryReorgDeep] at h
  | cons first rest =>
    simp only [tryReorgDeep] at h
    split at h
    · simp at h
    split at h
    · simp at h
    split at h
    · simp at h
    split at h
    · simp at h
    rename_i forkPoint hfork
    split at h
    · simp at h
    rename_i hconnects
    obtain ⟨entry, hentry, rfl⟩ := Option.map_eq_some_iff.1 hfork
    have hlast := hc.getLast_truncate hentry
    have htipt : (c.truncate f).tip? = some entry.header := by simp [tip?, hlast]
    obtain ⟨es, hes, habove, hdone⟩ :=
      appendBranch_entries rules now f (first :: rest) 0 (c.truncate f)
    have hlinked := (hc.truncate f).appendBranch now f (first :: rest) 0
      (by
        intro tip htip
        rw [htipt, Option.some_inj] at htip
        rw [← htip, (hc.entryAt_eq_some_iff.1 hentry).2, Nat.add_zero])
      (by
        intro _ tip htip header hheader
        rw [htipt, Option.some_inj] at htip
        obtain rfl : first = header := by simpa using hheader
        rw [← htip]
        simpa using hconnects)
    split at h
    next c₁ happend =>
      rw [happend] at hes hdone hlinked
      dsimp only at hes hlinked
      obtain ⟨-, rfl⟩ := h
      have hne : (c.truncate f).entries ≠ [] := fun hnil => by simp [hnil] at hlast
      refine ⟨es, hdone rfl, hes, habove, hlinked, by simp [hentry], ?_, ?_⟩
      · rw [hes, baseHeight_append _ hne, hc.baseHeight_truncate hentry]
      · rw [hes, height_append hne, hc.height_truncate hentry]
    · simp at h

lemma tryReorgDeep_error {e : ChainError} (hc : c.Linked rules)
    (h : c.tryReorgDeep rules now f branch = (.error e, c')) : c' = c := by
  cases branch with
  | nil =>
    simp only [tryReorgDeep, Prod.mk.injEq] at h
    exact h.2.symm
  | cons first rest =>
    simp only [tryReorgDeep] at h
    split at h
    · exact (Prod.mk.inj h).2.symm
    split at h
    · exact (Prod.mk.inj h).2.symm
    split at h
    · exact (Prod.mk.inj h).2.symm
    split at h
    · exact (Prod.mk.inj h).2.symm
    split at h
    · exact (Prod.mk.inj h).2.symm
    obtain ⟨es, hes, habove, -⟩ :=
      appendBranch_entries rules now f (first :: rest) 0 (c.truncate f)
    split at h
    · simp at h
    next e' c₁ happend =>
      rw [happend] at hes
      dsimp only at hes
      obtain rfl := (Prod.mk.inj h).2
      -- popping what was pushed gives the truncated chain back
      have hpop : (c₁.truncate f).entries = (c.truncate f).entries := by
        have hnil : es.filter (fun e => e.header.height ≤ f) = [] :=
          filter_eq_nil_iff.2 (fun x hx => by simpa using habove x hx)
        rw [hes]
        simp only [truncate, filter_append, filter_filter, Bool.and_self, hnil, append_nil]
      rw [hpop, hc.truncate_append_entriesAbove, hes]
      rfl

end HeaderChain

end ErgoNode
