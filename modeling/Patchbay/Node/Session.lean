import Patchbay.Node

/-!
# Driving a bare instance

What an instance can be asked without a host around it, and what it answers. Nobody applies what it
emits.
-/

namespace Patchbay

variable {R : Type}

/-- A tick comes with the samples at the signal inlets and with what stands at the outlets. -/
inductive Stimulus (R : Type)
  | configure (sampleRate : R)
  | message (inlet : PortId) (msg : Message R) (sampleRate : R)
  | tick (inputs outputs : List R) (sampleRate : R)

inductive Response (R : Type)
  | handled (emissions : List (Emission R)) (notices : List (Notice R)) (fault : Option Fault)
  | ticked (outputs : List R) (fault : Option Fault)

namespace Family

variable (F : Family R)

def heed (s : F.State) : Stimulus R → F.State
  | .configure rate => (F.configure s rate).state
  | .message inlet msg rate => (F.message s inlet msg rate).state
  | .tick inputs outputs rate => (F.tick s inputs outputs rate).state

def respond (s : F.State) : Stimulus R → Response R
  | .configure rate =>
    let h := F.configure s rate
    .handled h.emissions h.notices h.fault
  | .message inlet msg rate =>
    let h := F.message s inlet msg rate
    .handled h.emissions h.notices h.fault
  | .tick inputs outputs rate =>
    let t := F.tick s inputs outputs rate
    .ticked t.outputs t.fault

def after (s : F.State) (stimuli : List (Stimulus R)) : F.State := stimuli.foldl F.heed s

/-- A fresh instance that is ready to run: its callback came, if it asked for it. -/
def started (d : Declared F.State) (sampleRate : R) : F.State :=
  if d.wantsConfigure then F.heed d.state (.configure sampleRate) else d.state

def responses : F.State → List (Stimulus R) → List (Response R)
  | _, [] => []
  | s, stimulus :: stimuli => F.respond s stimulus :: responses (F.heed s stimulus) stimuli

end Family

end Patchbay
