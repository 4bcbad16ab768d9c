import ErgoNode.Sync.Machine

/-!
# The fork-vote gate and the progress of block application

Headers are appended long before their blocks are applied, and the parameters a chain has
installed are those of the applied blocks. The fork-vote gate judges a header that votes for a
soft-fork by whatever table is installed when the header arrives, so one header may pass while the
bodies lag and fail once they have caught up.
-/

namespace ErgoNode

inductive ChainEvent where
  | append (now : ℕ) (header : Header)
  | reorg (now forkPoint : ℕ) (branch : List Header)
  | install (params : Parameters) (proposedUpdate : Bytes)
deriving DecidableEq

def ChainEvent.isDelivery : ChainEvent → Bool
  | .append .. => true
  | .reorg .. => true
  | .install .. => false

namespace HeaderChain

section Run

variable (rules : HeaderRules)

/-- One event: the headers that join the best chain, and the chain after it. -/
def handle (c : HeaderChain) : ChainEvent → List Header × HeaderChain
  | .append now header =>
    match c.tryAppend rules now header with
    | (.ok .extended, c') => ([header], c')
    | (_, c') => ([], c')
  | .reorg now forkPoint branch =>
    match c.tryReorgDeep rules now forkPoint branch with
    | (.ok _, c') => (branch, c')
    | (.error _, c') => ([], c')
  | .install params update => ([], c.applyEpochBoundaryParameters params update)

def next (c : HeaderChain) (e : ChainEvent) : HeaderChain := (c.handle rules e).2

def acceptedHeaders : HeaderChain → List ChainEvent → List Header
  | _, [] => []
  | c, e :: events => (c.handle rules e).1 ++ acceptedHeaders (c.next rules e) events

end Run

def passesForkVote (c : HeaderChain) (header : Header) : Bool := (c.checkForkVoteGate header).isOk

end HeaderChain

/-- The gate judges the headers of an event as `verdict` does. A delivered header reaches the gate
when it names the tip. -/
def ChainEvent.GateAgrees (verdict : Header → Bool) (c : HeaderChain) : ChainEvent → Prop
  | .append _ header =>
    c.tip?.map (·.id) = some header.parentId → c.passesForkVote header = verdict header
  | .reorg _ _ branch => ∀ header ∈ branch, c.passesForkVote header = verdict header
  | .install .. => True

instance (verdict : Header → Bool) (c : HeaderChain) (e : ChainEvent) :
    Decidable (e.GateAgrees verdict c) := by
  cases e <;> unfold ChainEvent.GateAgrees <;> infer_instance

/-! ## The parameters only matter to the gate -/

lemma isOk_bind_congr {ε α β : Type} {x : Except ε α} {f g : α → Except ε β}
    (h : ∀ a, (f a).isOk = (g a).isOk) : (x >>= f).isOk = (x >>= g).isOk := by
  cases x with
  | ok a => exact h a
  | error e => rfl

namespace HeaderChain

variable {rules : HeaderRules} {c : HeaderChain} {params : Parameters} {update : Bytes}
  {header : Header} {verdict : Header → Bool}

lemma isOk_validateChild_congr (rules : HeaderRules) (now : ℕ) (tip : Header)
    (h : (c.applyEpochBoundaryParameters params update).passesForkVote header =
      c.passesForkVote header) :
    (validateChild rules now (c.applyEpochBoundaryParameters params update) tip header).isOk =
      (validateChild rules now c tip header).isOk := by
  iterate 6 refine isOk_bind_congr fun _ => ?_
  exact h

lemma isOk_validateReorgHeader_congr (rules : HeaderRules) (now : ℕ) (tip : Header)
    (h : (c.applyEpochBoundaryParameters params update).passesForkVote header =
      c.passesForkVote header) :
    (validateReorgHeader rules now (c.applyEpochBoundaryParameters params update) tip header).isOk =
      (validateReorgHeader rules now c tip header).isOk := by
  iterate 4 refine isOk_bind_congr fun _ => ?_
  exact h

lemma handle_append_congr {now : ℕ} (h : c.tip?.map (·.id) = some header.parentId →
      (c.applyEpochBoundaryParameters params update).passesForkVote header =
        c.passesForkVote header) :
    (c.applyEpochBoundaryParameters params update).handle rules (.append now header) =
      ((c.handle rules (.append now header)).1,
        (c.handle rules (.append now header)).2.applyEpochBoundaryParameters params update) := by
  have htip : (c.applyEpochBoundaryParameters params update).tip? = c.tip? := rfl
  unfold handle tryAppend
  dsimp only
  rw [htip]
  cases hcase : c.tip? with
  | none =>
    have hgenesis : validateGenesis rules (c.applyEpochBoundaryParameters params update) header =
        validateGenesis rules c header := rfl
    dsimp only
    rw [hgenesis]
    cases validateGenesis rules c header <;> rfl
  | some tip =>
    dsimp only
    by_cases hparent : header.parentId = tip.id
    · have hok := isOk_validateChild_congr rules now tip
        (h (by rw [hcase, hparent]; rfl))
      rw [if_pos hparent, if_pos hparent]
      generalize validateChild rules now (c.applyEpochBoundaryParameters params update) tip header
        = verdict at hok
      cases hcheck : validateChild rules now c tip header <;> cases verdict <;>
        first | rfl | simp [hcheck, Except.isOk, Except.toBool] at hok
    · have hheight : (c.applyEpochBoundaryParameters params update).heightOf header.parentId =
          c.heightOf header.parentId := rfl
      rw [if_neg hparent, if_neg hparent, hheight]
      cases c.heightOf header.parentId with
      | none => rfl
      | some parentHeight =>
        by_cases hseq : header.height ≠ parentHeight + 1
        · simp only [if_pos hseq]
        · simp only [if_neg hseq]

lemma appendBranch_congr (rules : HeaderRules) (now forkPoint : ℕ) (c : HeaderChain)
    (params : Parameters) (update : Bytes) (branch : List Header) (i : ℕ)
    (h : ∀ header ∈ branch, (c.applyEpochBoundaryParameters params update).passesForkVote header =
      c.passesForkVote header) :
    (appendBranch rules now forkPoint i branch
        (c.applyEpochBoundaryParameters params update)).1.isSome =
      (appendBranch rules now forkPoint i branch c).1.isSome ∧
      (appendBranch rules now forkPoint i branch (c.applyEpochBoundaryParameters params update)).2 =
      (appendBranch rules now forkPoint i branch c).2.applyEpochBoundaryParameters params
        update := by
  induction branch generalizing c i with
  | nil => exact ⟨rfl, rfl⟩
  | cons header branch ih =>
    have htip : (c.applyEpochBoundaryParameters params update).tip? = c.tip? := rfl
    rw [appendBranch, appendBranch, htip]
    cases c.tip? with
    | none => exact ⟨rfl, rfl⟩
    | some tip =>
      dsimp only
      split
      · exact ⟨rfl, rfl⟩
      · split
        · exact ⟨rfl, rfl⟩
        · have hok := isOk_validateReorgHeader_congr rules now tip
            (h header List.mem_cons_self)
          generalize validateReorgHeader rules now (c.applyEpochBoundaryParameters params update)
            tip header = verdict at hok
          cases hcheck : validateReorgHeader rules now c tip header <;> cases verdict
          · exact ⟨rfl, rfl⟩
          · simp [hcheck, Except.isOk, Except.toBool] at hok
          · simp [hcheck, Except.isOk, Except.toBool] at hok
          · -- the pushed header does not change what the gate reads
            exact ih (c.pushHeader rules header) (i + 1)
              (fun header' hmem => h header' (List.mem_cons_of_mem _ hmem))

lemma handle_reorg_congr {now forkPoint : ℕ} {branch : List Header}
    (h : ∀ header ∈ branch, (c.applyEpochBoundaryParameters params update).passesForkVote header =
      c.passesForkVote header) :
    (c.applyEpochBoundaryParameters params update).handle rules (.reorg now forkPoint branch) =
      ((c.handle rules (.reorg now forkPoint branch)).1,
        (c.handle rules (.reorg now forkPoint branch)).2.applyEpochBoundaryParameters params
          update) := by
  cases branch with
  | nil => rfl
  | cons first rest =>
    obtain ⟨hstop, hchain⟩ := appendBranch_congr rules now forkPoint (c.truncate forkPoint) params
      update (first :: rest) 0 h
    -- every check before the branch is appended reads the headers only
    have hentries : (c.applyEpochBoundaryParameters params update).entries = c.entries := rfl
    have hfloor : (c.applyEpochBoundaryParameters params update).reorgFloor = c.reorgFloor := rfl
    have hheight : (c.applyEpochBoundaryParameters params update).height = c.height := rfl
    have hat : (c.applyEpochBoundaryParameters params update).headerAt forkPoint =
      c.headerAt forkPoint := rfl
    have htruncate : (c.applyEpochBoundaryParameters params update).truncate forkPoint =
      (c.truncate forkPoint).applyEpochBoundaryParameters params update := rfl
    have habove : (c.applyEpochBoundaryParameters params update).entriesAbove forkPoint =
      c.entriesAbove forkPoint := rfl
    unfold handle tryReorgDeep
    simp only [hentries, hfloor, hheight, hat, htruncate, habove]
    by_cases hempty : c.entries = []
    · simp only [if_pos hempty]
    · by_cases hbelow : forkPoint < c.reorgFloor
      · simp only [if_neg hempty, if_pos hbelow]
      · by_cases hbeyond : c.height < forkPoint
        · simp only [if_neg hempty, if_neg hbelow, if_pos hbeyond]
        · simp only [if_neg hempty, if_neg hbelow, if_neg hbeyond]
          cases c.headerAt forkPoint with
          | none => rfl
          | some forkHeader =>
            by_cases hconnect : first.parentId ≠ forkHeader.id
            · simp only [if_pos hconnect]
            · simp only [if_neg hconnect]
              generalize appendBranch rules now forkPoint 0 (first :: rest) (c.truncate forkPoint)
                = appended at hstop hchain
              generalize appendBranch rules now forkPoint 0 (first :: rest)
                ((c.truncate forkPoint).applyEpochBoundaryParameters params update)
                = appended' at hstop hchain
              obtain ⟨error | error, chain⟩ := appended <;>
                obtain ⟨error' | error', chain'⟩ := appended' <;>
                simp_all [applyEpochBoundaryParameters, truncate]

lemma handle_congr {e : ChainEvent} (hdelivery : e.isDelivery = true) (h : e.GateAgrees verdict c)
    (h' : e.GateAgrees verdict (c.applyEpochBoundaryParameters params update)) :
    (c.applyEpochBoundaryParameters params update).handle rules e =
      ((c.handle rules e).1, (c.handle rules e).2.applyEpochBoundaryParameters params update) := by
  cases e with
  | append now header => exact handle_append_congr (fun htip => (h' htip).trans (h htip).symm)
  | reorg now forkPoint branch =>
    exact handle_reorg_congr (fun header hmem => (h' header hmem).trans (h header hmem).symm)
  | install params update => cases hdelivery

/-- A run up to its first delivery: installations accept nothing and only change the
parameters. -/
theorem exists_first_delivery {d : ChainEvent} {ds events : List ChainEvent}
    {c : HeaderChain} (hfilter : events.filter ChainEvent.isDelivery = d :: ds)
    (h : MeetsAll (next rules) (fun c e => e.GateAgrees verdict c) c events) :
    ∃ params update rest, rest.filter ChainEvent.isDelivery = ds ∧
      d.GateAgrees verdict (c.applyEpochBoundaryParameters params update) ∧
      MeetsAll (next rules) (fun c e => e.GateAgrees verdict c)
        ((c.applyEpochBoundaryParameters params update).next rules d) rest ∧
      acceptedHeaders rules c events =
        ((c.applyEpochBoundaryParameters params update).handle rules d).1 ++
          acceptedHeaders rules ((c.applyEpochBoundaryParameters params update).next rules d) rest ∧
      events.foldl (next rules) c =
        rest.foldl (next rules) ((c.applyEpochBoundaryParameters params update).next rules d) := by
  induction events generalizing c with
  | nil => cases hfilter
  | cons e events ih =>
    obtain ⟨hgate, hrest⟩ := h
    cases hkind : e.isDelivery with
    | true =>
      rw [List.filter_cons_of_pos hkind] at hfilter
      cases hfilter
      exact ⟨c.activeParameters, c.activeProposedUpdateBytes, events, rfl, hgate, hrest, rfl, rfl⟩
    | false =>
      rw [List.filter_cons_of_neg (by simp [hkind])] at hfilter
      cases e with
      | append => cases hkind
      | reorg => cases hkind
      | install params update => exact ih hfilter hrest

lemma acceptedHeaders_of_no_delivery (rules : HeaderRules) (c : HeaderChain)
    {events : List ChainEvent} (hfilter : events.filter ChainEvent.isDelivery = []) :
    acceptedHeaders rules c events = [] ∧ ∃ params update,
      events.foldl (next rules) c = c.applyEpochBoundaryParameters params update := by
  induction events generalizing c with
  | nil => exact ⟨rfl, c.activeParameters, c.activeProposedUpdateBytes, rfl⟩
  | cons e events ih =>
    cases e with
    | append => simp [ChainEvent.isDelivery] at hfilter
    | reorg => simp [ChainEvent.isDelivery] at hfilter
    | install params update =>
      obtain ⟨haccepted, params', update', hfinal⟩ :=
        ih (c.applyEpochBoundaryParameters params update) hfilter
      exact ⟨haccepted, params', update', hfinal⟩

def ballotHeader (ballots : List ℕ) (h : ℕ) : Header :=
  { lineHeader h with votes := if h ∈ ballots then ⟨120, 0, 0⟩ else ⟨0, 0, 0⟩ }

def ballotChain (ballots : List ℕ) (n : ℕ) : HeaderChain :=
  { HeaderChain.new .testnet with
    entries := (List.range' 1 n).map (fun h => { header := ballotHeader ballots h, score := h }) }

def roundStarted (votes : ℤ) : Parameters :=
  ((defaultParameters .testnet).insert .softForkStartingHeight 128).insert
    .softForkVotesCollected votes

end HeaderChain

end ErgoNode
