import Replay.Script
import Replay.Total
set_option autoImplicit false

/-!
The pool of a script: every content is stored once, under its hash, and steps refer to it.
`Script.optimize` moves contents into the pool, `Script.restore` puts them back.
-/

namespace Replay

namespace Pool

def use (e : PoolEntry) : PoolEntry := { e with usageCount := min (e.usageCount + 1) (UInt32.size - 1) }

/-- Move the content of a snapshot into the pool. If the pool holds another content under the same
hash, the snapshot keeps its own. -/
def store (pool : Pool) (s : Snapshot) : Pool × Snapshot :=
  let hash := ContentHash.of s.content
  let reference := { s with hash }.asReference
  match Ordered.get? hash pool with
  | some e =>
    if e.content = s.content then (Ordered.insert hash (use e) pool, reference) else (pool, s)
  | none => (Ordered.insert hash ⟨s.content, s.capturedAt, 1⟩ pool, reference)

def storeStep (pool : Pool) (step : Step) : Pool × Step :=
  match step.snapshot with
  | some s =>
    if s.hasContent then
      let (pool, s) := store pool s
      (pool, { step with snapshot := some s })
    else (pool, step)
  | none => (pool, step)

def storeSteps (pool : Pool) : List Step → Pool × List Step
  | [] => (pool, [])
  | step :: rest =>
    let (pool, step) := storeStep pool step
    let (pool, rest) := storeSteps pool rest
    (pool, step :: rest)

/-- The content that a snapshot refers to. An entry whose content does not have the hash it is
stored under is not used. -/
def content? (pool : Pool) (s : Snapshot) : Option String :=
  if s.hasContent || s.hash.isEmpty then none
  else ((Ordered.get? s.hash pool).filter fun e => s.hash.fits e.content).map (·.content)

def restoreSnapshot (pool : Pool) (s : Snapshot) : Snapshot :=
  match content? pool s with
  | some content => { s with content }
  | none => s

def restoreStep (pool : Pool) (step : Step) : Step :=
  { step with snapshot := step.snapshot.map (restoreSnapshot pool) }

structure Stats where
  uniqueContents : Nat := 0
  references : Nat := 0
  /-- Bytes that would be repeated if every reference had its own content. -/
  bytesSaved : Nat := 0
  deriving DecidableEq, Repr

def stats (pool : Pool) : Stats where
  uniqueContents := pool.length
  references := total (pool.map fun (_, e) => e.usageCount)
  bytesSaved := total (pool.map fun (_, e) => e.content.utf8ByteSize * (e.usageCount - 1))

end Pool

namespace Script

def optimize (s : Script) : Script :=
  let (pool, steps) := Pool.storeSteps (s.pool.getD []) s.steps
  { s with steps, pool := if pool.isEmpty then none else some pool }

def restore (s : Script) : Script :=
  match s.pool with
  | some pool => { s with steps := s.steps.map (Pool.restoreStep pool), pool := none }
  | none => s

@[simp] theorem pool_restore (s : Script) : s.restore.pool = none := by
  unfold restore
  split
  · rfl
  · assumption

theorem restore_of_pool {s : Script} (h : s.pool = none) : s.restore = s := by
  simp [restore, h]

def poolStats (s : Script) : Pool.Stats := (s.pool.map Pool.stats).getD {}

end Script

end Replay
