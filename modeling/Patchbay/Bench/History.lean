import Patchbay.Bench.Session
import Patchbay.Node.Session

/-!
# Histories of both hosts

All that can be asked of an engine and of a bench, in any order, and what a bench gives its node to
do.
-/

namespace Patchbay

variable {R : Type} {F : Family R} [Sample R]

/-- What requests in a row yield, each made of the state that those before it left behind. -/
def yields {σ ρ α : Type} (next : σ → ρ → σ) (yield : σ → ρ → List α) : σ → List ρ → List α
  | _, [] => []
  | s, r :: rs => yield s r ++ yields next yield (next s r) rs

/-! ## Engines -/

/-- A safe block is silence if it faults. -/
inductive Request (R : Type)
  | call (call : Call R)
  | safeBlock (node : NodeId) (outlet n : Nat)

namespace Engine

def serve (e : Engine F) : Request R → Outcome R (Engine F) (EngineError R) (Reply R)
  | .call call => e.perform call
  | .safeBlock node outlet n => e.unlessRefused (e.processBlockSafe node outlet n)
      fun (b, notices) => { ofBlock b with events := notices.map .notice }

def next (e : Engine F) (r : Request R) : Engine F := (e.serve r).state

def served (e : Engine F) (requests : List (Request R)) : Engine F := requests.foldl next e

/-- What is handed out as taken from the outlet. -/
def handsOut (o : Outlet) (e : Engine F) (r : Request R) : List (Message R) :=
  match r, (e.serve r).ending with
  | .call (.take node outlet), .done (.messages msgs) => if ⟨node, outlet⟩ = o then msgs else []
  | _, _ => []

def taken (o : Outlet) : Engine F → List (Request R) → List (Message R) := yields next (handsOut o)

end Engine

/-! ## Benches -/

inductive BenchRequest (R : Type)
  | send (inlet : PortId) (msg : Message R)
  | publish (bus : String) (msg : Message R)
  | tick (inputs : List R)
  | take (outlet : Nat)
  | takePublished

inductive BenchReply (R : Type)
  | nothing
  | samples (xs : List R)
  | messages (msgs : List (Message R))
  | published (msgs : List (String × Message R))

def Response.fault : Response R → Option Fault
  | handled _ _ fault | ticked _ fault => fault

/-- The stimuli up to the first that the instance gives up at. -/
def Family.untilFault (F : Family R) : F.State → List (Stimulus R) → List (Stimulus R)
  | _, [] => []
  | s, stimulus :: stimuli =>
    if (F.respond s stimulus).fault.isSome then [stimulus]
    else stimulus :: untilFault F (F.heed s stimulus) stimuli

namespace Bench

def ofSent (p : Progress R (Bench F)) : Outcome R (Bench F) Empty (BenchReply R) :=
  ⟨p.state, p.events, match p.fault with | none => .done .nothing | some f => .faulted f⟩

/-- Nothing is refused. -/
def serve (b : Bench F) : BenchRequest R → Outcome R (Bench F) Empty (BenchReply R)
  | .send inlet msg => ofSent (b.send inlet msg)
  | .publish bus msg => ofSent (b.publish bus msg)
  | .tick inputs =>
    let t := b.tick inputs
    ⟨t.state, [], match t.fault with | none => .done (.samples t.outputs) | some f => .faulted f⟩
  | .take outlet => ⟨(b.take outlet).2, [], .done (.messages (b.take outlet).1)⟩
  | .takePublished => ⟨b.takePublished.2, [], .done (.published b.takePublished.1)⟩

def next (b : Bench F) (r : BenchRequest R) : Bench F := (b.serve r).state

def served (b : Bench F) (requests : List (BenchRequest R)) : Bench F := requests.foldl next b

/-- What is handed out as taken from the outlet. -/
def handsOut (outlet : Nat) (b : Bench F) (r : BenchRequest R) : List (Message R) :=
  match r, (b.serve r).ending with
  | .take outlet', .done (.messages msgs) => if outlet' = outlet then msgs else []
  | _, _ => []

def taken (outlet : Nat) : Bench F → List (BenchRequest R) → List (Message R) :=
  yields next (handsOut outlet)

/-- What a request gives the node to do. A message on a bus goes to the inlets that are subscribed
when it comes, one after the other. -/
def stimuli (b : Bench F) : BenchRequest R → List (Stimulus R)
  | .send inlet msg => [.message inlet msg b.sampleRate]
  | .publish bus msg => F.untilFault b.state <|
      (b.subscriptions.filter (·.1 == bus)).map fun sub => .message sub.2 msg b.sampleRate
  | .tick inputs => [.tick inputs (List.replicate b.topology.outputWidth 0) b.sampleRate]
  | .take _ | .takePublished => []

def given : Bench F → List (BenchRequest R) → List (Stimulus R) := yields next stimuli

end Bench

end Patchbay
