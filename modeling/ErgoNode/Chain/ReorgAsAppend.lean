import ErgoNode.Chain.Linked

/-!
# A reorg is truncate and append

A deep reorg has its own header checks. They are at least those of appending, so an accepted branch
can be appended to the chain cut at the fork point, and gives the same chain. On a full chain the
converse holds. On a light chain appending does not check the difficulty, while a reorg does.
-/

namespace ErgoNode

open List

namespace HeaderChain

variable {rules : HeaderRules} {now : ℕ} {c : HeaderChain}
variable {f : ℕ} {tip header : Header} {es : List ChainEntry} {branch : List Header}
  {c' : HeaderChain}

/-- Append headers one after the other. `none` when one of them does not extend the chain. -/
def appendAll (rules : HeaderRules) (now : ℕ) (c : HeaderChain) :
    List Header → Option HeaderChain
  | [] => some c
  | header :: rest =>
    match c.tryAppend rules now header with
    | (.ok .extended, c') => appendAll rules now c' rest
    | _ => none

def Contiguous (c : HeaderChain) : Prop :=
  ∀ b, c.baseHeight = some b → c.entries.map (·.header.height) = List.range' b c.entries.length

/-! ## Cutting a contiguous chain -/

lemma filter_height_le {b : ℕ}
    (hes : es.map (·.header.height) = List.range' b es.length) (f : ℕ) :
    es.filter (fun e => e.header.height ≤ f) = es.take (f + 1 - b) := by
  induction es generalizing b with
  | nil => simp
  | cons e es ih =>
    rw [map_cons, length_cons, range'_succ, cons.injEq] at hes
    obtain ⟨rfl, hes⟩ := hes
    by_cases hle : e.header.height ≤ f
    · have hsub : f + 1 - e.header.height = (f + 1 - (e.header.height + 1)) + 1 := by omega
      rw [filter_cons_of_pos (by simpa using hle), ih hes, hsub, take_succ_cons]
    · have hsub : f + 1 - e.header.height = 0 := by omega
      -- the heights from here on are above `f`
      have hnone : es.filter (fun e => e.header.height ≤ f) = [] := by
        rw [ih hes]
        have : f + 1 - (e.header.height + 1) = 0 := by omega
        rw [this, take_zero]
      rw [filter_cons_of_neg (by simpa using hle), hnone, hsub, take_zero]

lemma find?_height_eq {b : ℕ}
    (hes : es.map (·.header.height) = List.range' b es.length) (hf : b ≤ f) :
    es.find? (fun e => e.header.height = f) = es[f - b]? := by
  induction es generalizing b with
  | nil => simp
  | cons e es ih =>
    rw [map_cons, length_cons, range'_succ, cons.injEq] at hes
    obtain ⟨rfl, hes⟩ := hes
    by_cases heq : e.header.height = f
    · rw [find?_cons_of_pos (by simpa using heq), heq, Nat.sub_self, getElem?_cons_zero]
    · have hsub : f - e.header.height = (f - (e.header.height + 1)) + 1 := by omega
      rw [find?_cons_of_neg (by simpa using heq), ih hes (by omega), hsub, getElem?_cons_succ]

lemma Contiguous.getLast_truncate (hc : c.Contiguous) (hspans : c.Spans f) :
    ∃ e, c.entryAt f = some e ∧ (c.truncate f).entries.getLast? = some e ∧
      e.header.height = f := by
  obtain ⟨b, hb, hle, hge⟩ := hspans
  have hpos := length_pos hb
  rw [height_eq hb] at hge
  have hlt : f - b < c.entries.length := by omega
  have hfind : c.entryAt f = some c.entries[f - b] := by
    rw [entryAt, find?_height_eq (hc b hb) hle, getElem?_eq_getElem hlt]
  refine ⟨_, hfind, ?_, by simpa using find?_some hfind⟩
  have hcut : (c.truncate f).entries = c.entries.take (f - b) ++ [c.entries[f - b]] := by
    have hsub : f + 1 - b = f - b + 1 := by omega
    rw [← take_succ_eq_append_getElem hlt, ← hsub]
    exact filter_height_le (hc b hb) f
  rw [hcut, getLast?_concat]

/-! ## The checks -/

lemma validateChild_of_validateReorgHeader
    (hparent : header.parentId = tip.id) (hheight : header.height = tip.height + 1)
    (h : c.validateReorgHeader rules now tip header = .ok ()) :
    c.validateChild rules now tip header = .ok () := by
  simp only [validateReorgHeader, bind_eq_ok] at h
  obtain ⟨_, htime, _, hdifficulty, hrest⟩ := h
  have hchild : c.checkChildDifficulty rules tip header = .ok () := by
    unfold checkChildDifficulty
    split
    · rfl
    · exact hdifficulty
  simp only [validateChild, bind_eq_ok, require_eq_ok]
  exact ⟨(), hparent, (), hheight, _, htime, (), hchild, hrest⟩

lemma validateReorgHeader_of_validateChild (hfull : c.lightClientMode = false)
    (h : c.validateChild rules now tip header = .ok ()) :
    header.height = tip.height + 1 ∧ c.validateReorgHeader rules now tip header = .ok () := by
  simp only [validateChild, bind_eq_ok, require_eq_ok] at h
  obtain ⟨_, -, _, hheight, _, htime, _, hdifficulty, hrest⟩ := h
  have hfull' : c.checkDifficulty rules tip header = .ok () := by
    unfold checkChildDifficulty at hdifficulty
    rwa [hfull] at hdifficulty
  simp only [validateReorgHeader, bind_eq_ok]
  exact ⟨hheight, _, htime, (), hfull', hrest⟩

lemma tryAppend_of_validateChild (htip : c.tip? = some tip)
    (hparent : header.parentId = tip.id) (h : c.validateChild rules now tip header = .ok ()) :
    c.tryAppend rules now header = (.ok .extended, c.pushHeader rules header) := by
  simp [tryAppend, htip, hparent, h]

/-! ## The loops -/

/-- A branch that a reorg accepts can be appended. -/
theorem appendAll_of_appendBranch {i : ℕ} (htip : c.tip? = some tip) (hheight : tip.height = f + i)
    (hfirst : i = 0 → ∀ header ∈ branch.head?, header.parentId = tip.id)
    (h : c.appendBranch rules now f i branch = (none, c')) :
    c.appendAll rules now branch = some c' := by
  induction branch generalizing c i tip with
  | nil =>
    cases h
    rfl
  | cons header rest ih =>
    simp only [appendBranch, htip] at h
    split at h
    · simp at h
    next hlinked =>
      split at h
      · simp at h
      next hseq =>
        split at h
        · simp at h
        next hvalid =>
          have hparent : header.parentId = tip.id := by
            by_cases hi : i = 0
            · exact hfirst hi header rfl
            · by_contra hne
              exact hlinked ⟨Nat.pos_of_ne_zero hi, hne⟩
          have hseq : header.height = f + (i + 1) := by omega
          have happend := tryAppend_of_validateChild htip hparent
            (validateChild_of_validateReorgHeader hparent (by omega) hvalid)
          rw [appendAll, happend]
          exact ih (tip?_pushHeader header) hseq (fun hi => absurd hi (by omega)) h

lemma appendBranch_of_appendAll {i : ℕ}
    (hfull : c.lightClientMode = false) (htip : c.tip? = some tip) (hheight : tip.height = f + i)
    (h : c.appendAll rules now branch = some c') :
    c.appendBranch rules now f i branch = (none, c') := by
  induction branch generalizing c i tip with
  | nil =>
    cases h
    rfl
  | cons header rest ih =>
    unfold appendAll at h
    split at h
    next c₁ happend =>
      obtain ⟨rfl, ⟨hnil, -⟩ | ⟨tip', hfits, hvalid⟩⟩ := tryAppend_extended happend
      · rw [tip?_eq_none_iff.2 hnil] at htip
        cases htip
      · cases htip.symm.trans hfits.tip_eq
        obtain ⟨hseq, hreorg⟩ := validateReorgHeader_of_validateChild hfull hvalid
        have hpushed : (c.pushHeader rules header).lightClientMode = false := hfull
        have hrest := ih hpushed (tip?_pushHeader header) (by omega : header.height = f + (i + 1)) h
        simp only [appendBranch, htip]
        rwa [if_neg (fun hbroken => hbroken.2 hfits.parentId_eq), if_neg (by omega), hreorg]
    · cases h

/-! ## The comparison -/

lemma tryReorgDeep_of_spans (rules : HeaderRules) (now : ℕ) (first : Header)
    (rest : List Header) (hc : c.Contiguous) (hfloor : c.reorgFloor ≤ f) (hle : f ≤ c.height) :
    ∃ forkPoint, (c.truncate f).tip? = some forkPoint ∧ forkPoint.height = f ∧
      c.tryReorgDeep rules now f (first :: rest) =
        if first.parentId ≠ forkPoint.id then
          (.error (.reorg "first header in branch doesn't connect to fork point"), c)
        else
          match (c.truncate f).appendBranch rules now f 0 (first :: rest) with
          | (none, c') => (.ok ((c.entriesAbove f).map (·.header.id)), c')
          | (some e, c') => (.error e,
              { c'.truncate f with entries := (c'.truncate f).entries ++ c.entriesAbove f }) := by
  have hne : c.entries ≠ [] := by
    intro hnil
    have hb := baseHeight_eq_none_iff.2 hnil
    simp only [reorgFloor, height, hb, Option.getD_none] at hfloor hle
    omega
  obtain ⟨b, hb⟩ := Option.ne_none_iff_exists'.1 (fun h => hne (baseHeight_eq_none_iff.1 h))
  have hspans : c.Spans f := ⟨b, hb, by simpa [reorgFloor, hb] using hfloor, hle⟩
  obtain ⟨e, hentry, hlast, hheight⟩ := hc.getLast_truncate hspans
  refine ⟨e.header, by rw [tip?, hlast]; rfl, hheight, ?_⟩
  have hat : c.headerAt f = some e.header := by rw [headerAt, hentry]; rfl
  simp only [tryReorgDeep]
  rw [if_neg hne, if_neg (by omega), if_neg (by omega)]
  rcases (c.truncate f).appendBranch rules now f 0 (first :: rest) with ⟨_ | e', c'⟩ <;>
    simp only [hat]

/-- **A deep reorg is truncate and append.** For a fork point between the reorg floor and the tip
and a branch that is not empty: the branch of a reorg that succeeds can be appended to the chain cut
at the fork point, with the same chain as result; and on a full chain every branch that can be
appended makes a reorg that succeeds. -/
theorem tryReorgDeep_eq_appendAll (rules : HeaderRules) (now : ℕ) {c : HeaderChain}
    (hc : c.Contiguous) {f : ℕ} (hfloor : c.reorgFloor ≤ f) (hle : f ≤ c.height)
    {branch : List Header} (hbranch : branch ≠ []) (c' : HeaderChain) :
    ((∃ ids, c.tryReorgDeep rules now f branch = (.ok ids, c')) →
      (c.truncate f).appendAll rules now branch = some c') ∧
    (c.lightClientMode = false → (c.truncate f).appendAll rules now branch = some c' →
      ∃ ids, c.tryReorgDeep rules now f branch = (.ok ids, c')) := by
  obtain ⟨first, rest, rfl⟩ := exists_cons_of_ne_nil hbranch
  obtain ⟨forkPoint, htip, hheight, hreorg⟩ :=
    tryReorgDeep_of_spans rules now first rest hc hfloor hle
  rw [hreorg]
  constructor
  · rintro ⟨ids, h⟩
    split at h
    · simp at h
    next hconnects =>
      have hfirst : first.parentId = forkPoint.id := Decidable.not_not.1 hconnects
      split at h
      next c₁ hloop =>
        cases h
        apply appendAll_of_appendBranch htip (by omega : forkPoint.height = f + 0) ?_ hloop
        rintro - header hheader
        rw [head?_cons, Option.mem_some_iff] at hheader
        rw [← hheader, hfirst]
      · simp at h
  · intro hfull happend
    have hcut : (c.truncate f).lightClientMode = false := hfull
    have hloop := appendBranch_of_appendAll hcut htip (by omega : forkPoint.height = f + 0) happend
    have hfirst : first.parentId = forkPoint.id := by
      unfold appendAll at happend
      split at happend
      next c₁ hextended =>
        obtain ⟨-, ⟨hnil, -⟩ | ⟨tip, hfits, -⟩⟩ := tryAppend_extended hextended
        · rw [tip?_eq_none_iff.2 hnil] at htip
          cases htip
        · cases htip.symm.trans hfits.tip_eq
          exact hfits.parentId_eq
      · cases happend
    rw [if_neg (fun hne => hne hfirst), hloop]
    exact ⟨_, rfl⟩

/-! ## Two headers -/

/-- Rules that accept every proof of work and carry the parent's difficulty forward. -/
def plainRules : HeaderRules where
  verifyPow _ := .ok ()
  decodeCompactBits nBits := nBits
  expectedDifficulty _ _ parent := .ok parent.nBits

def plainHeader (id parentId height : ℕ) : Header where
  version := 1
  id := id
  parentId := parentId
  stateRoot := 0
  timestamp := 1000 * height
  nBits := 5
  height := height
  votes := ⟨0, 0, 0⟩

def twoHeaders : HeaderChain :=
  { HeaderChain.new .mainnet with
    entries := [⟨plainHeader 1 0 1, 5⟩, ⟨plainHeader 2 1 2, 10⟩] }

/-- The tip is replaced by a sibling with a child. -/
theorem tryReorgDeep_eq_appendAll_sibling :
    ∃ c', (twoHeaders.truncate 1).appendAll plainRules 10000
        [plainHeader 12 1 2, plainHeader 13 12 3] = some c' ∧
      (c'.headerAt 3).map (·.id) = some 13 ∧ c'.scoreAt 3 = some 15 :=
  ⟨_, (tryReorgDeep_eq_appendAll plainRules 10000 (c := twoHeaders) (f := 1)
    (fun b hb => by obtain rfl : 1 = b := Option.some.inj hb; rfl) (by decide) (by decide)
    (cons_ne_nil _ _) _).1 ⟨_, rfl⟩, rfl, rfl⟩

/-- An empty branch can be appended, but is refused by a reorg. -/
theorem tryReorgDeep_nil :
    twoHeaders.reorgFloor ≤ 1 ∧
      (twoHeaders.truncate 1).appendAll plainRules 10000 [] = some (twoHeaders.truncate 1) ∧
      ∀ ids c', twoHeaders.tryReorgDeep plainRules 10000 1 [] ≠ (.ok ids, c') :=
  ⟨by decide, rfl, fun _ _ h => by simp [tryReorgDeep] at h⟩

end HeaderChain

end ErgoNode
