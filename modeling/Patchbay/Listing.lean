import Patchbay.Engine
import Patchbay.Sample.Binary64
import Patchbay.Text.Quoted

/-!
# Listings

Patches, schedules and engines written out in full for inspection.
-/

namespace Patchbay

namespace Listing

def commas (items : List String) : String := ", ".intercalate items

def record (name : String) (fields : List (String × String)) : String :=
  name ++ " \x7b " ++ commas (fields.map fun (f, v) => f ++ ": " ++ v) ++ " \x7d"

def call (name : String) (args : List String) : String := name ++ "(" ++ commas args ++ ")"

def list {α : Type} (item : α → String) (items : List α) : String :=
  "[" ++ commas (items.map item) ++ "]"

def map {α β : Type} (key : α → String) (value : β → String) (entries : List (α × β)) : String :=
  "\x7b" ++ commas (entries.map fun (k, v) => key k ++ ": " ++ value v) ++ "\x7d"

def option {α : Type} (item : α → String) : Option α → String
  | some a => call "Some" [item a]
  | none => "None"

def bool (b : Bool) : String := if b then "true" else "false"

def nat (n : Nat) : String := toString n

def float (x : Float) : String := Layout.listing.text x

def nodeId (n : NodeId) : String := call "NodeId" [nat n]

def token : Token Float → String
  | .float v => call "Float" [float v]
  | .symbol s => call "Symbol" [Text.quoted s]

def portId (p : PortId) : String :=
  record "PortId" [("index", nat p.index), ("shadow", bool p.shadow)]

def port (p : Port) : String := record "Port" [("id", portId p.id), ("kind", p.kind.text)]

def topology (t : Topology) : String :=
  record "Topology" [("inlets", list port t.inlets), ("outlets", list port t.outlets),
    ("is_pushing_messages", bool t.pushing)]

def config (c : Config Float) : String :=
  record "EngineConfig" [("sample_rate", float c.sampleRate), ("block_size", nat c.blockSize),
    ("channel_count", nat c.channels)]

def cable (c : Cable) : String :=
  record "Edge" [("from_node", nodeId c.fromNode), ("from_port", nat c.outlet),
    ("to_node", nodeId c.toNode), ("to_port", portId c.inlet), ("kind", c.kind.text)]

def source (s : SignalSource) : String :=
  record "SignalInput" [("inlet", nat s.inlet), ("from_node", nodeId s.node),
    ("from_outlet", nat s.outlet)]

def slots (s : Slots) : String := nat s.start ++ ".." ++ nat s.stop

def outlet (o : Outlet) : String := call "" [nodeId o.node, nat o.index]

def target (t : Target) : String := call "" [nodeId t.node, portId t.inlet]

def wired (w : Wired) : String := record "LinkInfo" [("signal_inlets", list nat w.inlets)]

def schedule (s : Schedule) : String :=
  record "Plan" [("execution_order", list nodeId s.order), ("links", list wired s.wired),
    ("signal_inputs", list (list source) s.sources), ("input_widths", list nat s.inputWidths),
    ("output_slots", list slots s.slots), ("output_len", nat s.bufferLength),
    ("message_routes", map outlet (list target) s.routes.toList)]

variable {F : Family Float}

def node (n : PatchNode F) : String :=
  record "NodeData" [("id", nodeId n.id), ("type_name", Text.quoted n.typeName),
    ("raw_args", list token n.rawArgs), ("topology", topology n.topology)]

def catalog (c : Catalog F) : String := list Text.quoted c.names

def patch (p : Patch F) : String :=
  record "Graph" [("nodes", list node p.nodes), ("edges", list cable p.cables),
    ("registry", catalog p.catalog)]

def engine (e : Engine F) : String :=
  record "Runtime" [("plan", schedule e.schedule),
    ("nodes", list (fun live => Text.quoted live.name) e.nodes), ("config", option config e.config)]

end Listing

end Patchbay
