import Patchbay.Engine

/-!
# Ticks

A tick runs every node with signal ports once, in order. A node sees the sums of the samples wired
to its inlets and writes into its own slots of the shared buffer. Blocks are ticks in a row, read at
one outlet.
-/

namespace Patchbay

variable {R : Type} {F : Family R} [Sample R]

namespace Engine

def sumSources (slots : List Slots) (outputs : List R) :
    List SignalSource → List R → Option (List R)
  | [], inputs => some inputs
  | s :: rest, inputs => do
    let own ← slots[s.node]?
    let x ← outputs[own.start + s.outlet]?
    let _ ← inputs[s.inlet]?
    sumSources slots outputs rest (inputs.modify s.inlet (· + x))

/-- The input samples of a node for this tick: its part of the shared buffer, cleared and summed
up. -/
def inputs? (e : Engine F) (node : NodeId) : Option (List R) := do
  let width ← e.schedule.inputWidths[node]?
  let sources ← e.schedule.sources[node]?
  if width ≤ e.inputs.length then
    sumSources e.schedule.slots e.outputs sources (List.replicate width 0)
  else none

def writeSlots (outputs : List R) (slots : Slots) (samples : List R) : List R :=
  outputs.mapIdx fun i old =>
    if slots.start ≤ i && i < slots.stop then samples.getD (i - slots.start) old else old

def tickNode (rate : R) (node : NodeId) (e : Engine F) : Progress R (Engine F) :=
  match e.inputs? node, e.schedule.slots[node]?, e.nodes[node]? with
  | some inputs, some slots, some live =>
    if slots.stop ≤ e.outputs.length then
      let own := (e.outputs.drop slots.start).take slots.width
      let t := F.tick live.state inputs own rate
      let e' := { e.setState node t.state with
        inputs := inputs ++ e.inputs.drop inputs.length
        outputs := writeSlots e.outputs slots t.outputs }
      ⟨e', [], t.fault⟩
    else .fail e .outOfRange
  | _, _, _ => .fail e .outOfRange

def tickAll (rate : R) (e : Engine F) : Progress R (Engine F) :=
  Progress.each (tickNode rate) e.schedule.order e

def tick (e : Engine F) : Except (EngineError R) (Progress R (Engine F)) :=
  match e.config with
  | none => .error .notConfigured
  | some c => .ok (tickAll c.sampleRate e)

/-! ## Blocks -/

/-- The engine after a block, the samples up to its end or to a fault, and that fault. -/
structure Block {R : Type} (F : Family R) where
  engine : Engine F
  samples : List R
  fault : Option Fault

/-- Ticks `n` times, reading one slot after each; `done` holds the samples so far, last first. -/
def runBlock (rate : R) (slot : Nat) : Nat → List R → Engine F → Block F
  | 0, done, e => ⟨e, done.reverse, none⟩
  | n + 1, done, e =>
    let p := tickAll rate e
    match p.fault with
    | some f => ⟨p.state, done.reverse, some f⟩
    | none =>
      match p.state.outputs[slot]? with
      | some x => runBlock rate slot n (x :: done) p.state
      | none => ⟨p.state, done.reverse, some .outOfRange⟩

/-- A block of `n` samples of a signal outlet. The outlet is looked at first; a block of no samples
needs no configuration. -/
def processBlock (e : Engine F) (node : NodeId) (outlet n : Nat) :
    Except (EngineError R) (Block F) :=
  match e.schedule.slot? node outlet with
  | none => .error (.invalidPort node (.regular outlet))
  | some slot =>
    match e.config with
    | some c => .ok (runBlock c.sampleRate slot n [] e)
    | none => if n = 0 then .ok ⟨e, [], none⟩ else .error .notConfigured

def processBlockSafe (e : Engine F) (node : NodeId) (outlet n : Nat) :
    Except (EngineError R) (Block F × List (Notice R)) :=
  (e.processBlock node outlet n).map fun b =>
    match b.fault with
    | none => (b, [])
    | some _ => (⟨b.engine, List.replicate n 0, none⟩, [.silenced node])

def renderBlocks (node : NodeId) (outlet : Nat) : List Nat → Engine F →
    Except (EngineError R) (Block F)
  | [], e => .ok ⟨e, [], none⟩
  | n :: ns, e => do
    let b ← e.processBlock node outlet n
    match b.fault with
    | some _ => return b
    | none =>
      let rest ← renderBlocks node outlet ns b.engine
      return ⟨rest.engine, b.samples ++ rest.samples, rest.fault⟩

def blockLengths (frames size : Nat) : List Nat :=
  List.replicate (frames / size) size ++ (if frames % size = 0 then [] else [frames % size])

def render (e : Engine F) (node : NodeId) (outlet frames : Nat) :
    Except (EngineError R) (Block F) :=
  match e.config with
  | none => .error .notConfigured
  | some c =>
    if c.blockSize = 0 then .ok ⟨e, [], some .emptyBlock⟩
    else renderBlocks node outlet (blockLengths frames c.blockSize) e

end Engine

end Patchbay
