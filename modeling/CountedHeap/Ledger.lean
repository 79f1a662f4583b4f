/-
# The ledger of blocks

Every block that a heap holds, whether live or parked, was once charged to its
tracker. The ledger keeps the tracker and the counts of blocks and bytes; the
bytes are counted in words of 64 bits, as the tracker counts them.
-/
import CountedHeap.Budget

namespace CountedHeap

structure BlockCounts where
  liveBlocks : Nat := 0
  peakBlocks : Nat := 0
  liveBytes : Nat := 0
  peakBytes : Nat := 0
  totalAllocations : Nat := 0
  totalFrees : Nat := 0
  deriving DecidableEq, Repr, Inhabited

namespace BlockCounts

def allocate (size : Nat) (c : BlockCounts) : BlockCounts where
  liveBlocks := c.liveBlocks + 1
  peakBlocks := max c.peakBlocks (c.liveBlocks + 1)
  liveBytes := Word.wrapAdd c.liveBytes size
  peakBytes := max c.peakBytes (Word.wrapAdd c.liveBytes size)
  totalAllocations := c.totalAllocations + 1
  totalFrees := c.totalFrees

def free (size : Nat) (c : BlockCounts) : BlockCounts :=
  { c with
    liveBlocks := c.liveBlocks - 1
    liveBytes := c.liveBytes - size
    totalFrees := c.totalFrees + 1 }

end BlockCounts

structure Ledger where
  tracker : Tracker
  counts : BlockCounts := {}
  deriving DecidableEq, Repr, Inhabited

namespace Ledger

/-- Takes a fresh block, unless the tracker refuses it. -/
def allocate (size : Nat) (l : Ledger) : Except Exhaustion Ledger :=
  match l.tracker.allocate size with
  | .error e => .error e
  | .ok tracker => .ok ⟨tracker, l.counts.allocate size⟩

/-- Gives a block back. -/
def free (size : Nat) (l : Ledger) : Ledger := ⟨l.tracker.free size, l.counts.free size⟩

end Ledger

end CountedHeap
