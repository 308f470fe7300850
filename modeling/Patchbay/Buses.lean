import Std.Data.TreeMap
import Patchbay.Port

/-!
# Buses

Named channels. Each keeps its subscribers in the order they came; a name without subscribers is not
kept.
-/

namespace Patchbay

structure Subscriber where
  node : NodeId
  inlet : PortId
  deriving DecidableEq

structure Buses where
  table : Std.TreeMap String (List Subscriber)

namespace Buses

def empty : Buses := ⟨∅⟩

def subscribers (b : Buses) (bus : String) : List Subscriber := b.table.getD bus []

/-- Adds a subscriber at the end; one that is there already stays where it is. -/
def subscribe (b : Buses) (bus : String) (s : Subscriber) : Buses :=
  if s ∈ b.subscribers bus then b else ⟨b.table.insert bus (b.subscribers bus ++ [s])⟩

/-- Removes a subscriber, and the name with its last one. -/
def unsubscribe (b : Buses) (bus : String) (s : Subscriber) : Buses :=
  match (b.subscribers bus).filter (· ≠ s) with
  | [] => ⟨b.table.erase bus⟩
  | rest => ⟨b.table.insert bus rest⟩

def toList (b : Buses) : List (String × List Subscriber) := b.table.toList

end Buses

end Patchbay
