import ErgoNode.Sync.Pacing

/-!
# Runs of stalled sweeps

A run is a stretch of stalls at one frontier. Its length drives the delay and the report that the
node is stuck, which is made at the fifth stall; a sweep from another frontier never waits. The
delay saturates, the 32-bit count of stalls does not. At stall number `2 ^ 32` of a run the delay is
back at one second.
-/

namespace ErgoNode

open List

/-- A sweep: the applied tip before and after it, and when it ended. -/
structure SweepResult where
  before : ℕ
  after : ℕ
  now : ℕ

def SweepResult.StallsAt (frontier : ℕ) (r : SweepResult) : Prop :=
  r.before = frontier ∧ r.after ≤ r.before

namespace SweepBackoff

variable {b : SweepBackoff} {f k : ℕ} {r : SweepResult} {history run : List SweepResult}

def recordAll (b : SweepBackoff) : List SweepResult → List (Option Stall) × SweepBackoff
  | [] => ([], b)
  | r :: rs =>
    let first := b.record r.before r.after r.now
    let rest := first.2.recordAll rs
    (first.1 :: rest.1, rest.2)

def after (history : List SweepResult) : SweepBackoff := (recordAll {} history).2

lemma after_concat (history : List SweepResult) (r : SweepResult) :
    after (history ++ [r]) = ((after history).record r.before r.after r.now).2 := by
  suffices h : ∀ b : SweepBackoff, (b.recordAll (history ++ [r])).2 =
      ((b.recordAll history).2.record r.before r.after r.now).2 from h {}
  induction history with
  | nil => exact fun _ => rfl
  | cons x xs ih => exact fun b => ih (b.record x.before x.after x.now).2

/-! ## The count of a run -/

/-- The stalls counted at a frontier, and whether they were reported. -/
def countAt (b : SweepBackoff) (frontier : ℕ) : ℕ × Bool :=
  match b.armed with
  | some a => if a.frontier = frontier then (a.consecutive, a.stuckEmitted) else (0, false)
  | none => (0, false)

def Counts (b : SweepBackoff) (frontier k : ℕ) : Prop :=
  b.countAt frontier = (k % 2 ^ 32, decide (5 ≤ k))

def reportAfter (k : ℕ) : Stall where
  attempt := (k + 1) % 2 ^ 32
  delay := delayFor ((k + 1) % 2 ^ 32)
  stuckFired := decide (k = 4)

lemma record_of_stallsAt (hr : r.StallsAt f) :
    b.record r.before r.after r.now =
      (some ⟨((b.countAt f).1 + 1) % 2 ^ 32, delayFor (((b.countAt f).1 + 1) % 2 ^ 32),
        !(b.countAt f).2 && decide (5 ≤ ((b.countAt f).1 + 1) % 2 ^ 32)⟩,
      ⟨some ⟨f, ((b.countAt f).1 + 1) % 2 ^ 32, r.now + delayFor (((b.countAt f).1 + 1) % 2 ^ 32),
        (b.countAt f).2 || (!(b.countAt f).2 && decide (5 ≤ ((b.countAt f).1 + 1) % 2 ^ 32))⟩⟩) := by
  obtain ⟨rfl, hstall⟩ := hr
  rw [record, if_neg (Nat.not_lt.2 hstall), countAt]
  rcases b.armed with _ | a
  · rfl
  · dsimp only
    split <;> rfl

lemma Counts.record (h : b.Counts f k) (hr : r.StallsAt f) :
    (b.record r.before r.after r.now).1 = some (reportAfter k) ∧
      (b.record r.before r.after r.now).2.Counts f (k + 1) := by
  have hcount : (k % 2 ^ 32 + 1) % 2 ^ 32 = (k + 1) % 2 ^ 32 := Nat.mod_add_mod k (2 ^ 32) 1
  -- below the threshold the count is not reduced, so only the fifth stall is reported
  have hfired : (!decide (5 ≤ k) && decide (5 ≤ (k + 1) % 2 ^ 32)) = decide (k = 4) := by
    rw [Bool.eq_iff_iff]
    simp only [Bool.and_eq_true, Bool.not_eq_true', decide_eq_true_eq, decide_eq_false_iff_not]
    omega
  have hemitted : (decide (5 ≤ k) || decide (k = 4)) = decide (5 ≤ k + 1) := by
    rw [Bool.eq_iff_iff]
    simp only [Bool.or_eq_true, decide_eq_true_eq]
    omega
  rw [record_of_stallsAt hr, h]
  rw [hcount, hfired, hemitted]
  refine ⟨rfl, ?_⟩
  exact if_pos rfl

lemma stallsAt_of_armed {a : Armed} (h : (after history).armed = some a) :
    ∃ r ∈ history.getLast?, r.StallsAt a.frontier := by
  rcases eq_nil_or_concat history with rfl | ⟨init, r, rfl⟩
  · cases h
  · rw [concat_eq_append] at h ⊢
    rw [after_concat] at h
    by_cases hprogress : r.before < r.after
    · rw [SweepBackoff.record, if_pos hprogress] at h
      cases h
    · have hstall : r.StallsAt r.before := ⟨rfl, Nat.not_lt.1 hprogress⟩
      rw [record_of_stallsAt hstall] at h
      cases h
      exact ⟨r, getLast?_concat, hstall⟩

lemma counts_zero (h : ∀ r ∈ history.getLast?, ¬r.StallsAt f) : (after history).Counts f 0 := by
  rw [Counts, countAt]
  cases harmed : (after history).armed with
  | none => rfl
  | some a =>
    obtain ⟨r, hr, hstall⟩ := stallsAt_of_armed harmed
    have hother : a.frontier ≠ f := by
      rintro rfl
      exact h r hr hstall
    exact if_neg hother

lemma recordAll_of_run (h : b.Counts f k) (hrun : ∀ r ∈ run, r.StallsAt f) :
    (b.recordAll run).1 = (List.range' k run.length).map (fun i => some (reportAfter i)) := by
  induction run generalizing b k with
  | nil => rfl
  | cons r rs ih =>
    obtain ⟨hreport, hcounts⟩ := h.record (hrun r mem_cons_self)
    have hrest := ih hcounts (forall_mem_cons.1 hrun).2
    rw [length_cons, range'_succ, map_cons, ← hrest, ← hreport]
    rfl

/-! ## Delays -/

/-- The delay of an uncounted run: doubled at each stall, up to five minutes. -/
def cappedDelay (k : ℕ) : ℕ := min 300000 (1000 * 2 ^ k)

lemma cappedDelay_mono {j k : ℕ} (h : j ≤ k) : cappedDelay j ≤ cappedDelay k := by
  have hpow : 2 ^ j ≤ 2 ^ k := Nat.pow_le_pow_right Nat.two_pos h
  unfold cappedDelay
  omega

lemma delayFor_succ (k : ℕ) : delayFor (k + 1) = cappedDelay k := by
  rw [delayFor, cappedDelay, baseDelay, maxDelay, Nat.add_sub_cancel, Nat.min_comm]
  rcases Nat.le_total k 32 with hle | hle
  · rw [Nat.min_eq_left hle]
  · -- both are at the cap
    have hpow : 2 ^ 32 ≤ 2 ^ k := Nat.pow_le_pow_right Nat.two_pos hle
    rw [Nat.min_eq_right hle, Nat.min_eq_left (by decide), Nat.min_eq_left (by omega)]

/-- The delay after a stall is the doubled one as long as the count has not wrapped. -/
theorem delay_reportAfter_eq_iff {n : ℕ} :
    (∀ k < n, (reportAfter k).delay = cappedDelay k) ↔ n < 2 ^ 32 := by
  constructor
  · intro h
    by_contra hlong
    obtain ⟨last, hlast⟩ : ∃ last, last + 1 = 2 ^ 32 := ⟨2 ^ 32 - 1, rfl⟩
    have hwrapped := h last (by omega)
    have hcap : cappedDelay 9 ≤ cappedDelay last := cappedDelay_mono (by omega)
    rw [← hwrapped, reportAfter, hlast] at hcap
    have hreset : ¬cappedDelay 9 ≤ delayFor (2 ^ 32 % 2 ^ 32) := by decide
    exact hreset hcap
  · intro hn k hk
    rw [reportAfter, Nat.mod_eq_of_lt (by omega)]
    exact delayFor_succ k

/-! ## The result -/

/-- What is to be reported of a run of stalls: delays that double up to the cap, and once that the
node is stuck, when there are at least five. -/
structure PacesRun (reports : List (Option Stall)) (length : ℕ) : Prop where
  delays : reports.map (Option.map Stall.delay) =
    (List.range length).map (fun k => some (cappedDelay k))
  never_less : (reports.filterMap (Option.map Stall.delay)).Pairwise (· ≤ ·)
  once : reports.countP (fun s => s.any Stall.stuckFired) = if 5 ≤ length then 1 else 0

lemma countP_range_eq_four (n : ℕ) :
    (List.range n).countP (fun k => decide (k = 4)) = if 5 ≤ n then 1 else 0 := by
  induction n with
  | zero => rfl
  | succ n ih =>
    rw [range_succ, countP_append, ih, countP_singleton]
    simp only [decide_eq_true_eq]
    split_ifs <;> omega

lemma pacesRun_iff {n : ℕ} :
    PacesRun ((List.range' 0 n).map (fun i => some (reportAfter i))) n ↔ n < 2 ^ 32 := by
  rw [← delay_reportAfter_eq_iff, ← range_eq_range']
  constructor
  · intro h k hk
    have hdelay := congrArg (fun l => l[k]?) h.delays
    simpa [hk] using hdelay
  · intro h
    have hdelays : (range n).map (fun i => (reportAfter i).delay) =
        (range n).map cappedDelay :=
      map_congr_left (fun k hk => h k (mem_range.1 hk))
    refine ⟨?_, ?_, ?_⟩
    · simpa using congrArg (map some) hdelays
    · rw [filterMap_map]
      have hmap : (range n).filterMap (Option.map Stall.delay ∘ fun i => some (reportAfter i)) =
          (range n).map cappedDelay := by
        rw [← hdelays, ← filterMap_eq_map]
        rfl
      rw [hmap, pairwise_map]
      exact pairwise_le_range.imp cappedDelay_mono
    · rw [countP_map]
      exact countP_range_eq_four n

end SweepBackoff

end ErgoNode
