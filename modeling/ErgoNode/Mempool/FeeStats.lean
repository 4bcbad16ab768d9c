import Mathlib.Algebra.Group.Nat.Defs
import Mathlib.Data.List.Induction

/-!
# Fee statistics

Confirmed pool transactions are counted over a window that moves when more than a minute has passed
since the last snapshot: the count at the snapshot is subtracted, and the window starts where the
snapshot was taken. Times are nanoseconds. The invariant cuts the confirmations into those up to the
start of the window, those from there to the snapshot, and those after the snapshot.
-/

namespace ErgoNode

def histogramBins : ℕ := 60

def measurementInterval : ℕ := 60000000000

structure FeeHistogramBin where
  nTxns : ℕ
  totalFee : ℕ
  deriving DecidableEq, Repr

def FeeHistogramBin.add (bin : FeeHistogramBin) (feePerFactor : ℕ) : FeeHistogramBin where
  nTxns := bin.nTxns + 1
  totalFee := min (bin.totalFee + feePerFactor) (2 ^ 64 - 1)

/-- A pool transaction that entered at `created` was confirmed at `now`. -/
structure Confirmation where
  now : ℕ
  created : ℕ
  feePerFactor : ℕ

structure FeeStats where
  /-- Confirmed transactions by the whole minutes they spent in the pool. -/
  histogram : Fin histogramBins → FeeHistogramBin
  windowStart : ℕ
  /-- Transactions confirmed since `windowStart`. -/
  taken : ℕ
  /-- When the window last moved or declined to, and `taken` at that moment. -/
  snapTime : ℕ
  snapTaken : ℕ

namespace FeeStats

def new (now : ℕ) : FeeStats := ⟨fun _ => ⟨0, 0⟩, now, 0, now, 0⟩

/-- The throughput window at one more confirmation. -/
def moveWindow (s : FeeStats) (now : ℕ) : FeeStats :=
  let counted := { s with taken := s.taken + 1 }
  if measurementInterval < now - s.snapTime then
    let moved := if s.snapTaken ≠ 0 then
      { counted with taken := counted.taken - s.snapTaken, windowStart := s.snapTime } else counted
    { moved with snapTaken := moved.taken, snapTime := now }
  else counted

def recordConfirmation (s : FeeStats) (c : Confirmation) : FeeStats :=
  let moved := s.moveWindow c.now
  -- a longer wait is counted, but in no bin
  if h : (c.now - c.created) / 1000000000 / 60 < histogramBins then
    { moved with
      histogram := Function.update moved.histogram ⟨_, h⟩
        ((moved.histogram ⟨_, h⟩).add c.feePerFactor) }
  else moved

def recordAll (s : FeeStats) (cs : List Confirmation) : FeeStats := cs.foldl recordConfirmation s

end FeeStats

/-- `time` is the last of the marks, and later than all others. -/
def Opens (marks : List ℕ) (time : ℕ) : Prop :=
  ∃ earlier, marks = earlier ++ [time] ∧ ∀ m ∈ earlier, m < time

lemma Opens.le {marks : List ℕ} {time m : ℕ} (h : Opens marks time) (hm : m ∈ marks) :
    m ≤ time := by
  obtain ⟨earlier, rfl, hlt⟩ := h
  rcases List.mem_append.mp hm with hm | hm
  · exact Nat.le_of_lt (hlt m hm)
  · exact Nat.le_of_eq (List.mem_singleton.mp hm)

namespace FeeStats

/-- The window when counting began at `t₀`: `before` ends with the confirmation at its start, and
`between` with the one at the snapshot. Both are empty before there is such a confirmation. -/
structure Window (t₀ : ℕ) (before between after : List Confirmation) (s : FeeStats) : Prop where
  start : Opens (t₀ :: before.map (·.now)) s.windowStart
  snapshot : Opens (t₀ :: (before ++ between).map (·.now)) s.snapTime
  snapTaken : s.snapTaken = between.length
  taken : s.taken = between.length + after.length
  unmoved : between = [] → before = []
  recent : ∀ c ∈ after, c.now ≤ s.snapTime + measurementInterval

variable {t₀ now : ℕ} {before between after : List Confirmation} {s : FeeStats}

lemma new_window : Window t₀ [] [] [] (new t₀) where
  start := ⟨[], rfl, nofun⟩
  snapshot := ⟨[], rfl, nofun⟩
  snapTaken := rfl
  taken := rfl
  unmoved := fun _ => rfl
  recent := nofun

lemma Window.lt_of_mem (h : Window t₀ before between after s)
    (hnow : measurementInterval < now - s.snapTime) {m : ℕ}
    (hm : m ∈ t₀ :: (before ++ between ++ after).map (·.now)) : m < now := by
  rw [List.map_append, ← List.cons_append, List.mem_append] at hm
  rcases hm with hm | hm
  · have := h.snapshot.le hm
    omega
  · obtain ⟨c, hc, rfl⟩ := List.mem_map.mp hm
    have := h.recent c hc
    omega

/-- A snapshot takes what was between into the past, also when there was nothing to subtract. -/
theorem Window.moveWindow {c : Confirmation} (h : Window t₀ before between after s) :
    Window t₀ before between (after ++ [c]) (s.moveWindow c.now) ∨
      Window t₀ (before ++ between) (after ++ [c]) [] (s.moveWindow c.now) := by
  unfold FeeStats.moveWindow
  split
  next hnow =>
    have htaken := h.taken
    have hsnapTaken := h.snapTaken
    refine .inr ⟨?_, ⟨_, ?_, fun m => h.lt_of_mem hnow⟩, ?_, ?_, ?_, nofun⟩
    · split
      · exact h.snapshot
      next hzero =>
        have hbetween := List.length_eq_zero_iff.mp (hsnapTaken.symm.trans (not_not.mp hzero))
        rw [hbetween, List.append_nil]
        exact h.start
    · simp
    · split <;> simp <;> omega
    · split <;> simp <;> omega
    · simp
  next hnow =>
    refine .inl ⟨h.start, h.snapshot, h.snapTaken, ?_, h.unmoved, ?_⟩
    · simp [h.taken, Nat.add_assoc]
    · intro c' hc'
      rcases List.mem_append.mp hc' with hc' | hc'
      · exact h.recent c' hc'
      · rw [List.mem_singleton.mp hc']
        show _ ≤ s.snapTime + _
        omega

/-- The histogram is not part of the window. -/
theorem Window.recordConfirmation {c : Confirmation} (h : Window t₀ before between after s) :
    Window t₀ before between (after ++ [c]) (s.recordConfirmation c) ∨
      Window t₀ (before ++ between) (after ++ [c]) [] (s.recordConfirmation c) := by
  unfold FeeStats.recordConfirmation
  split
  · exact h.moveWindow.imp (fun w => { w with }) (fun w => { w with })
  · exact h.moveWindow

lemma recordAll_window (t₀ : ℕ) (cs : List Confirmation) :
    ∃ before between after, cs = before ++ between ++ after ∧
      Window t₀ before between after ((new t₀).recordAll cs) := by
  induction cs using List.reverseRecOn with
  | nil => exact ⟨[], [], [], rfl, new_window⟩
  | append_singleton cs c ih =>
    obtain ⟨before, between, after, rfl, h⟩ := ih
    rw [recordAll, List.foldl_append]
    rcases h.recordConfirmation (c := c) with h' | h'
    · exact ⟨_, _, _, (List.append_assoc ..), h'⟩
    · exact ⟨_, _, _, by simp, h'⟩

/-- The counter after any confirmations: the window starts when the last confirmation of `before`
came (with none, when counting began), and the counter is the number of those after it. It is not
zero once there was a confirmation, and the next one finds no more to subtract than it holds. -/
theorem recordAll_taken (t₀ : ℕ) (cs : List Confirmation) :
    let s := (new t₀).recordAll cs
    (∃ before after, cs = before ++ after ∧ Opens (t₀ :: before.map (·.now)) s.windowStart ∧
      s.taken = after.length) ∧
    (cs ≠ [] → s.taken ≠ 0) ∧ s.snapTaken < s.taken + 1 := by
  obtain ⟨before, between, after, rfl, h⟩ := recordAll_window t₀ cs
  refine ⟨⟨before, between ++ after, List.append_assoc .., h.start, ?_⟩,
    fun hne hzero => hne ?_, ?_⟩
  · rw [h.taken, List.length_append]
  · rw [h.taken] at hzero
    have hbetween := List.length_eq_zero_iff.mp (Nat.eq_zero_of_add_eq_zero_right hzero)
    have hafter := List.length_eq_zero_iff.mp (Nat.eq_zero_of_add_eq_zero_left hzero)
    rw [h.unmoved hbetween, hbetween, hafter]
    rfl
  · rw [h.taken, h.snapTaken]
    omega

end FeeStats

end ErgoNode
