import Patchbay.Trace

/-!
# Invariants

Assumptions that are checked while a patch is built and linked. Each check either leaves the number
of the invariant in the trace or stops with a violation. A `Ledger` gathers the numbers seen so far,
so that a contract can ask whether all it relies on was ever checked.
-/

namespace Patchbay

namespace Invariant

/-- Port ids are unique within a node's inlets and within its outlets. -/
def uniquePorts : Nat := 1

/-- A connection that would close a signal cycle is refused. -/
def noSignalCycle : Nat := 2

/-- The order of a schedule covers every node once. -/
def orderComplete : Nat := 3

/-- Signal sources land on signal inlets. -/
def signalOntoSignal : Nat := 4

/-- A router has an outlet per filter and one for the rest. -/
def routeOutlets : Nat := 5

/-- A bounded control starts inside its bounds. -/
def controlInBounds : Nat := 6

def check {R ε : Type} (invariant : Nat) (holds : Bool) (claim : String) (context : Option String) :
    Traced R ε Unit :=
  if holds then ⟨[.upheld invariant], .done ()⟩
  else
    let v : Violation := ⟨invariant, claim, context⟩
    ⟨[.notice (.violated v)], .faulted (.violated v)⟩

end Invariant

abbrev Ledger := List Nat

namespace Ledger

def record {R : Type} (ledger : Ledger) (events : List (Event R)) : Ledger :=
  ledger ++ events.filterMap Event.upheld?

/-- A contract names the invariants it relies on; those never checked are listed as asked. -/
def contract (ledger : Ledger) (name : String) (required : List Nat) : Except Fault Unit :=
  match required.filter (fun i => !ledger.contains i) with
  | [] => .ok ()
  | missing => .error (.unmet name missing)

end Ledger

end Patchbay
