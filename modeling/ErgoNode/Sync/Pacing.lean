import Mathlib.Algebra.Group.Nat.Defs
import Mathlib.Tactic.Common

/-!
# When the sync machine retries, flushes and prunes

The decisions of the sync machine that depend only on heights and the clock: how long a stalled
validation sweep waits, when the applied state is flushed, and below which height block bodies may
be deleted. Times are in milliseconds.
-/

namespace ErgoNode

/-! ## Backing off -/

def baseDelay : ℕ := 1000

def maxDelay : ℕ := 300000

def stuckThreshold : ℕ := 5

def delayFor (consecutive : ℕ) : ℕ := min (baseDelay * 2 ^ min (consecutive - 1) 32) maxDelay

structure Armed where
  /-- The applied tip the sweep could not advance past. -/
  frontier : ℕ
  /-- Consecutive stalled sweeps at the frontier. -/
  consecutive : ℕ
  /-- Earliest time a sweep at the frontier may run again. -/
  nextAllowed : ℕ
  /-- The node was reported stuck at this frontier. -/
  stuckEmitted : Bool
deriving DecidableEq, Repr

structure Stall where
  attempt : ℕ
  delay : ℕ
  stuckFired : Bool
deriving DecidableEq, Repr

structure SweepBackoff where
  armed : Option Armed := none
deriving DecidableEq, Repr

namespace SweepBackoff

def shouldDefer (b : SweepBackoff) (appliedTip now : ℕ) : Bool :=
  b.armed.any (fun a => a.frontier = appliedTip ∧ now < a.nextAllowed)

/-- Record a sweep: progress clears the backoff, a stall arms or escalates it. The count has 32
bits. -/
def record (b : SweepBackoff) (before after now : ℕ) : Option Stall × SweepBackoff :=
  if before < after then (none, {})
  else
    let (consecutive, stuckEmitted) := match b.armed with
      | some a =>
        if a.frontier = before then ((a.consecutive + 1) % 2 ^ 32, a.stuckEmitted) else (1, false)
      | none => (1, false)
    let delay := delayFor consecutive
    let stuckFired := !stuckEmitted && stuckThreshold ≤ consecutive
    (some { attempt := consecutive, delay := delay, stuckFired := stuckFired }, { armed := some {
          frontier := before
          consecutive := consecutive
          nextAllowed := now + delay
          stuckEmitted := stuckEmitted || stuckFired } })

end SweepBackoff

/-! ## Flushing and pruning -/

/-- The lowest height whose bodies are kept after a flush, moved back to the start of its epoch,
whose extension a restart reads. 32-bit heights saturate. -/
def computePruneHorizon (flushed keep votingLength : ℕ) : ℕ :=
  let raw := min (flushed - keep + 1) (2 ^ 32 - 1)
  if votingLength < raw then min raw (raw / votingLength * votingLength) else raw

structure FlushDial where
  /-- Block bodies kept below the flushed height, negative for all of them. -/
  blocksToKeep : ℤ
  /-- Fewer blocks than this since the last flush never flush. -/
  flushMinBlocks : ℕ
  /-- This many blocks since the last flush always flush. -/
  flushMaxBlocks : ℕ
  /-- Heap use in megabytes that flushes in between, 0 for never. -/
  flushHeapThresholdMb : ℕ
deriving DecidableEq, Repr

namespace FlushDial

/-- The bounds in force: a pruning node never lets more blocks pass than it keeps. -/
def effectiveFlushBounds (d : FlushDial) : ℕ × ℕ :=
  if d.blocksToKeep < 0 then (d.flushMinBlocks, d.flushMaxBlocks)
  else (min d.flushMinBlocks d.blocksToKeep.toNat, min d.flushMaxBlocks d.blocksToKeep.toNat)

/-- Whether to flush after the block at `height`. `probe` is the heap use in bytes, if a probe is
configured. -/
def shouldFlush (d : FlushDial) (lastFlushHeight height : ℕ) (probe : Option ℕ) : Bool :=
  let sinceLast := height - lastFlushHeight
  if d.effectiveFlushBounds.2 ≤ sinceLast then true
  else if sinceLast < d.effectiveFlushBounds.1 then false
  else if d.flushHeapThresholdMb = 0 then false
  else probe.any (fun heap => d.flushHeapThresholdMb * 1024 * 1024 ≤ heap)

end FlushDial

end ErgoNode
