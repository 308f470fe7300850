import Patchbay.Invariant
import Patchbay.Node.Arguments

/-!
# `route`: first match wins

A router tries its filters in order and sends on the outlet of the first that matches; one more
outlet takes the rest. With a single filter, inlet 1 replaces it.
-/

namespace Patchbay

/-- Reserved words, which match on the shape of a message. -/
inductive Keyword
  | float
  | symbol
  | list
  | bang
  deriving DecidableEq

inductive RouteFilter (R : Type)
  | float (value : R)
  | symbol (name : String)
  | keyword (word : Keyword)
  deriving DecidableEq

structure RouteArgs (R : Type) where
  filters : List (Token R)
  deriving DecidableEq

inductive RouteState (R : Type)
  | single (filter : Token R)
  | many (filters : List (RouteFilter R))
  deriving DecidableEq

namespace Keyword

def ofWord? : String → Option Keyword
  | "float" => some float
  | "symbol" => some symbol
  | "list" => some list
  | "bang" => some bang
  | _ => none

def text : Keyword → String
  | float => "Float"
  | symbol => "Symbol"
  | list => "List"
  | bang => "Bang"

def accepts {R : Type} (k : Keyword) (msg : Message R) : Bool :=
  match k with
  | float => msg.isFloatAt 0
  | symbol => msg.isSymbolAt 0
  | list => msg.length > 1
  | bang => msg.isBang

end Keyword

namespace RouteFilter

variable {R : Type}

def ofToken : Token R → RouteFilter R
  | .float v => float v
  | .symbol s =>
    match Keyword.ofWord? s with
    | some k => keyword k
    | none => symbol s

variable [Sample R]

/-- What is forwarded if the message passes: all of it for a keyword, what follows the matched token
for a value. -/
def pass? (f : RouteFilter R) (msg : Message R) : Option (Message R) :=
  match f with
  | keyword k => if k.accepts msg then some msg else none
  | float v => if (msg.floatAt? 0).any (· == v) then some msg.shift.emptyToBang else none
  | symbol s => if msg.symbolAt? 0 == some s then some msg.shift.emptyToBang else none

def first? : List (RouteFilter R) → Nat → Message R → Option (Nat × Message R)
  | [], _, _ => none
  | f :: fs, i, msg =>
    match f.pass? msg with
    | some out => some (i, out)
    | none => first? fs (i + 1) msg

end RouteFilter

namespace Route

variable {R : Type}

def name : String := "route"

def argsOf [Sample R] (raw : List (Token R)) : RouteArgs R :=
  if raw.isEmpty then ⟨[.float 0]⟩ else ⟨raw⟩

def topology (args : RouteArgs R) : Topology where
  inlets := if args.filters.length = 1 then [.message 0, .message 1] else [.message 0]
  outlets := (List.range (args.filters.length + 1)).map Port.message
  pushing := false

def build (args : RouteArgs R) : Traced R NodeError Topology := do
  let t := topology args
  Invariant.check Invariant.routeOutlets
    (t.outlets.length = args.filters.length + 1 && t.outlets.length ≥ 2)
    "Router needs one outlet per filter plus a catch-all" (some name)
  return t

def start (args : RouteArgs R) : RouteState R :=
  match args.filters with
  | [filter] => .single filter
  | filters => .many (filters.map RouteFilter.ofToken)

/-- A single filter that is a reserved word also matches that word itself. -/
def passSingle? [Sample R] (filter : Token R) (msg : Message R) : Option (Message R) :=
  match filter with
  | .float v => (RouteFilter.float v).pass? msg
  | .symbol s =>
    match (Keyword.ofWord? s).bind fun k => (RouteFilter.keyword k).pass? msg with
    | some out => some out
    | none => (RouteFilter.symbol s).pass? msg

end Route

def RouteState.message {R : Type} [Sample R] (s : RouteState R) (inlet : PortId) (msg : Message R) :
    Handled R (RouteState R) :=
  match s with
  | many filters =>
    if inlet ≠ .regular 0 then .notify s (.dropped Route.name (some inlet) msg)
    else match RouteFilter.first? filters 0 msg with
      | some (i, out) => .emit s [.send i out]
      | none => .emit s [.send filters.length msg]
  | single filter =>
    if inlet = .regular 1 then
      match msg.head? with
      | some t => .quiet (single t)
      | none => .notify s (.emptyFilterUpdate Route.name)
    else if inlet ≠ .regular 0 then .notify s (.dropped Route.name (some inlet) msg)
    else match Route.passSingle? filter msg with
      | some out => .emit s [.send 0 out]
      | none => .emit s [.send 1 msg]

def Route.blueprint {R : Type} [Sample R] : Blueprint R (RouteArgs R) (RouteState R) where
  name := Route.name
  readArgs raw := .ok (Route.argsOf raw)
  build := Route.build
  reroute _ := none
  declare args _ := pure ⟨Route.start args, false, []⟩

end Patchbay
