import Std.Data.TreeMap
import Patchbay.Standard

/-! # Catalogs: node types by name -/

namespace Patchbay

variable {R : Type} {F : Family R}

structure Catalog {R : Type} (F : Family R) where
  types : Std.TreeMap String (NodeType F)

namespace Catalog

def empty : Catalog F := ⟨∅⟩

def get (c : Catalog F) (name : String) : Except NodeError (NodeType F) :=
  match c.types[name]? with
  | some t => .ok t
  | none => .error (.unknownType name)

/-- Enters a node type; one of the same name is replaced, and the replacement is noted. -/
def register (c : Catalog F) (name : String) (t : NodeType F) : Catalog F × List (Notice R) :=
  (⟨c.types.insert name t⟩, if c.types.contains name then [.replacedType name] else [])

def names (c : Catalog F) : List String := c.types.keys

def ofList (types : List (String × NodeType F)) : Catalog F :=
  types.foldl (fun c (name, t) => (c.register name t).1) empty

def standard (R : Type) [Sample R] : Catalog (Patchbay.standard R) := ofList Standard.types

end Catalog

end Patchbay
