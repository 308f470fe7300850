import Patchbay.Buses

/-!
# Histories of the buses

The calls that change who is subscribed where, and what they leave of the buses.
-/

namespace Patchbay

inductive BusCall
  | subscribe (bus : String) (s : Subscriber)
  | unsubscribe (bus : String) (s : Subscriber)
  deriving DecidableEq

namespace BusCall

def bus : BusCall → String
  | subscribe bus _ | unsubscribe bus _ => bus

/-- The call is about this subscriber of this bus. -/
def concerns (name : String) (s : Subscriber) : BusCall → Bool
  | subscribe bus t | unsubscribe bus t => bus == name && t == s

end BusCall

namespace Buses

def perform (b : Buses) : BusCall → Buses
  | .subscribe bus s => b.subscribe bus s
  | .unsubscribe bus s => b.unsubscribe bus s

def after (b : Buses) (calls : List BusCall) : Buses := calls.foldl perform b

end Buses

end Patchbay
