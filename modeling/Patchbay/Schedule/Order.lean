import Patchbay.Patch

/-!
# Order of execution

Every node waits for the sources of the signal cables that lead to it. Of the nodes that wait for
nothing more the least is placed, and those it feeds wait for one cable less. The placing ends
before all nodes are placed exactly when signal cables form a cycle.
-/

namespace Patchbay

structure Waiting where
  /-- Per node, the signal cables into it whose source is not placed. -/
  counts : List Nat
  /-- The nodes that are not placed and wait for nothing, in ascending order. -/
  ready : List NodeId

namespace Waiting

def count (counts : List Nat) (c : Cable) : Except Fault (List Nat) :=
  if c.fromNode < counts.length && c.toNode < counts.length then
    .ok (counts.modify c.toNode (· + 1))
  else .error .outOfRange

def countAll (cables : List Cable) (size : Nat) : Except Fault (List Nat) :=
  (cables.filter Cable.isSignal).foldlM count (List.replicate size 0)

def start (counts : List Nat) : Waiting :=
  ⟨counts, (List.range counts.length).filter fun n => counts[n]? == some 0⟩

def release (w : Waiting) (node : NodeId) : Except Fault Waiting :=
  match w.counts[node]? with
  | none => .error .outOfRange
  | some 0 => .error .belowZero
  | some (k + 1) =>
    .ok ⟨w.counts.set node k, if k = 0 then insertAscending node w.ready else w.ready⟩

end Waiting

/-- Places nodes behind those placed already until none is ready. `room` bounds their number; there
are never more than nodes. -/
def placeReady (cables : List Cable) : Nat → Waiting → List NodeId → Except Fault (List NodeId)
  | 0, _, placed => .ok placed
  | room + 1, w, placed =>
    match w.ready with
    | [] => .ok placed
    | next :: ready => do
      let w' ← (signalTargets cables next).foldlM Waiting.release { w with ready := ready }
      placeReady cables room w' (placed ++ [next])

def executionOrder (cables : List Cable) (size : Nat) : Except Fault (Option (List NodeId)) := do
  let counts ← Waiting.countAll cables size
  let placed ← placeReady cables size (.start counts) []
  return if placed.length = size then some placed else none

end Patchbay
