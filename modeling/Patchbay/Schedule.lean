import Patchbay.Schedule.Order

/-!
# Schedules

A patch linked for execution: the order of ticks and, per node, the sources of its signal inlets and
its slots in the shared buffer of outlet samples; per outlet, where messages go.
-/

namespace Patchbay

variable {R : Type} {F : Family R}

structure Outlet where
  node : NodeId
  index : Nat
  deriving DecidableEq

/-- By node, then by index. -/
instance : Ord Outlet := ⟨compareLex (compareOn Outlet.node) (compareOn Outlet.index)⟩

structure SignalSource where
  inlet : Nat
  node : NodeId
  outlet : Nat
  deriving DecidableEq

structure Slots where
  start : Nat
  stop : Nat
  deriving DecidableEq

def Slots.width (s : Slots) : Nat := s.stop - s.start

structure Target where
  node : NodeId
  inlet : PortId
  deriving DecidableEq

structure Schedule where
  /-- The nodes with signal ports, sources before what they feed. -/
  order : List NodeId
  wired : List Wired
  sources : List (List SignalSource)
  inputWidths : List Nat
  slots : List Slots
  bufferLength : Nat
  routes : Std.TreeMap Outlet (List Target)

inductive ScheduleError
  | cycleDetected
  deriving DecidableEq

def ScheduleError.message : ScheduleError → String
  | cycleDetected => "signal cycle detected"

namespace Schedule

def sourcesOf (cables : List Cable) (node : NodeId) : List SignalSource :=
  (cables.filter fun c => c.isSignal && c.toNode == node).map fun c =>
    ⟨c.inlet.index, c.fromNode, c.outlet⟩

def addRoute (routes : Std.TreeMap Outlet (List Target)) (c : Cable) :
    Std.TreeMap Outlet (List Target) :=
  let outlet : Outlet := ⟨c.fromNode, c.outlet⟩
  routes.insert outlet (routes.getD outlet [] ++ [⟨c.toNode, c.inlet⟩])

def routesOf (cables : List Cable) : Std.TreeMap Outlet (List Target) :=
  (cables.filter fun c => !c.isSignal).foldl addRoute ∅

def totalWidth : List Nat → Nat
  | [] => 0
  | w :: ws => w + totalWidth ws

def slotsFrom : Nat → List Nat → List Slots
  | _, [] => []
  | start, w :: ws => ⟨start, start + w⟩ :: slotsFrom (start + w) ws

def checkSources (sources : List (List SignalSource)) : List (PatchNode F) → Nat →
    Traced R ScheduleError Unit
  | [], _ => pure ()
  | node :: rest, i => do
    Invariant.check Invariant.signalOntoSignal
      ((sources.getD i []).all fun s =>
        (node.topology.inlet? (.regular s.inlet)).any Port.isSignal)
      "Signal sources must land on signal inlets" (some node.typeName)
    checkSources sources rest (i + 1)

/-- All nodes of a patch in order of execution. A cycle of signal cables is refused; a cable without
a node at its end is a fault. -/
def orderOf (p : Patch F) : Traced R ScheduleError (List NodeId) :=
  match executionOrder p.cables p.nodes.length with
  | .ok (some order) => pure order
  | .ok none => Traced.refuse .cycleDetected
  | .error f => Traced.fail f

def tables (p : Patch F) (order : List NodeId) : Schedule :=
  let sources := (List.range p.nodes.length).map (sourcesOf p.cables)
  let widths := p.nodes.map (·.topology.outputWidth)
  { order := order.filter fun id => (p.node? id).any (·.topology.hasSignalPorts)
    wired := sources.map fun ss => Wired.ofInlets (ss.map (·.inlet))
    sources := sources
    inputWidths := p.nodes.map (·.topology.inputWidth)
    slots := slotsFrom 0 widths
    bufferLength := totalWidth widths
    routes := routesOf p.cables }

def compile (p : Patch F) : Traced R ScheduleError Schedule := do
  let order ← orderOf p
  Invariant.check Invariant.orderComplete (order.length = p.nodes.length)
    "Every node must appear exactly once in the order" (some "schedule")
  checkSources ((List.range p.nodes.length).map (sourcesOf p.cables)) p.nodes 0
  return tables p order

def targets (s : Schedule) (node : NodeId) (outlet : Nat) : List Target :=
  s.routes.getD ⟨node, outlet⟩ []

def slot? (s : Schedule) (node : NodeId) (outlet : Nat) : Option Nat :=
  match s.slots[node]? with
  | some slots => if outlet < slots.width then some (slots.start + outlet) else none
  | none => none

end Schedule

end Patchbay
