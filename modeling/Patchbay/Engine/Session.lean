import Patchbay.Engine.Cascade
import Patchbay.Engine.Tick

/-!
# Sessions

Everything that can be asked of an engine from outside, call by call. A call that is refused leaves
the engine as it is.
-/

namespace Patchbay

variable {R : Type} {F : Family R} [Sample R]

inductive Call (R : Type)
  | configure (config : Config R)
  | tick
  | block (node : NodeId) (outlet n : Nat)
  | render (node : NodeId) (outlet frames : Nat)
  | send (node : NodeId) (inlet : PortId) (msg : Message R)
  | publish (bus : String) (msg : Message R)
  | listen (node : NodeId) (outlet : Nat)
  | take (node : NodeId) (outlet : Nat)

inductive Reply (R : Type)
  | nothing
  | samples (xs : List R)
  | messages (msgs : List (Message R))

namespace Engine

def ofProgress (p : Progress R (Engine F)) : Outcome R (Engine F) (EngineError R) (Reply R) :=
  ⟨p.state, p.events, match p.fault with | none => .done .nothing | some f => .faulted f⟩

def ofBlock (b : Block F) : Outcome R (Engine F) (EngineError R) (Reply R) :=
  ⟨b.engine, [], match b.fault with | none => .done (.samples b.samples) | some f => .faulted f⟩

def unlessRefused {α : Type} (e : Engine F) (x : Except (EngineError R) α)
    (outcome : α → Outcome R (Engine F) (EngineError R) (Reply R)) :
    Outcome R (Engine F) (EngineError R) (Reply R) :=
  match x with
  | .ok a => outcome a
  | .error err => .refuse e err

def perform (e : Engine F) : Call R → Outcome R (Engine F) (EngineError R) (Reply R)
  | .configure config => e.unlessRefused (e.configure config) ofProgress
  | .tick => e.unlessRefused e.tick ofProgress
  | .block node outlet n => e.unlessRefused (e.processBlock node outlet n) ofBlock
  | .render node outlet frames => e.unlessRefused (e.render node outlet frames) ofBlock
  | .send node inlet msg => e.unlessRefused (e.send node inlet msg) ofProgress
  | .publish bus msg => e.unlessRefused (e.publish bus msg) ofProgress
  | .listen node outlet => ⟨e.listen node outlet, [], .done .nothing⟩
  | .take node outlet => ⟨(e.take node outlet).2, [], .done (.messages (e.take node outlet).1)⟩

def after (e : Engine F) (calls : List (Call R)) : Engine F :=
  calls.foldl (fun e call => (e.perform call).state) e

end Engine

end Patchbay
