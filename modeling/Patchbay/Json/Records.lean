import Patchbay.Json.Codec
import Patchbay.Standard
import Patchbay.Config
import Patchbay.Sample.Binary64

/-! # JSON forms of messages, ports, configurations and argument records -/

namespace Patchbay.Json

open Codec

instance : Codec (Token Float) where
  encode
    | .float v => choice "Float" (encode v)
    | .symbol s => choice "Symbol" (encode s)
  decode? v := do
    match ← fullChoice? v with
    | ("Float", w) => return .float (← decode? w)
    | ("Symbol", w) => return .symbol (← decode? w)
    | _ => none
  absent := none

instance : Codec Kind where
  encode k := .ofString k.text
  decode? v := do
    match ← bareChoice? v with
    | "Signal" => return .signal
    | "Message" => return .message
    | _ => none
  absent := none

instance : Codec PortId where
  encode p := record [("index", encode p.index), ("shadow", encode p.shadow)]
  decode? v := do
    match ← fields? false ["index", "shadow"] v with
    | [index, shadow] => return ⟨← field? index, ← field? shadow⟩
    | _ => none
  absent := none

instance : Codec Port where
  encode p := record [("id", encode p.id), ("kind", encode p.kind)]
  decode? v := do
    match ← fields? false ["id", "kind"] v with
    | [id, kind] => return ⟨← field? id, ← field? kind⟩
    | _ => none
  absent := none

instance : Codec Topology where
  encode t := record [("inlets", encode t.inlets), ("outlets", encode t.outlets),
    ("is_pushing_messages", encode t.pushing)]
  decode? v := do
    match ← fields? false ["inlets", "outlets", "is_pushing_messages"] v with
    | [inlets, outlets, pushing] => return ⟨← field? inlets, ← field? outlets, ← field? pushing⟩
    | _ => none
  absent := none

/-- Every field has a default, and channels are counted in sixteen bits. -/
instance : Codec (Config Float) where
  encode c := record [("sample_rate", encode c.sampleRate), ("block_size", encode c.blockSize),
    ("channel_count", encode c.channels)]
  decode? v := do
    match ← fields? true ["sample_rate", "block_size", "channel_count"] v with
    | [rate, block, channels] =>
      let count ← fieldOr (some Config.standard.channels) channels
      if count < Nat.pow 2 16 then
        return ⟨← fieldOr (some Config.standard.sampleRate) rate,
          ← fieldOr (some Config.standard.blockSize) block, count⟩
      else none
    | _ => none
  absent := none

instance : Codec (Bounds Float) where
  encode b := record [("min", encode b.min), ("max", encode b.max)]
  decode? v := do
    match ← fields? false ["min", "max"] v with
    | [min, max] => return ⟨← field? min, ← field? max⟩
    | _ => none
  absent := none

instance : Codec Keyword where
  encode k := .ofString k.text
  decode? v := do
    match ← bareChoice? v with
    | "Float" => return .float
    | "Symbol" => return .symbol
    | "List" => return .list
    | "Bang" => return .bang
    | _ => none
  absent := none

instance : Codec (RouteFilter Float) where
  encode
    | .float v => choice "Float" (encode v)
    | .symbol s => choice "Symbol" (encode s)
    | .keyword k => choice "Keyword" (encode k)
  decode? v := do
    match ← fullChoice? v with
    | ("Float", w) => return .float (← decode? w)
    | ("Symbol", w) => return .symbol (← decode? w)
    | ("Keyword", w) => return .keyword (← decode? w)
    | _ => none
  absent := none

instance : Codec (ControlValue Float) where
  encode
    | .float v => choice "Float" (encode v)
    | .symbol s => choice "Symbol" (encode s)
    | .list m => choice "List" (encode m)
  decode? v := do
    match ← fullChoice? v with
    | ("Float", w) => return .float (← decode? w)
    | ("Symbol", w) => return .symbol (← decode? w)
    | ("List", w) => return .list (← decode? w)
    | _ => none
  absent := none

instance : Codec (ControlArgs Float) where
  encode a := record [("bounds", encode a.bounds), ("init_value", encode a.initValue),
    ("output_on_load", encode a.outputOnLoad), ("receive_bus_name", encode a.receiveBus),
    ("send_bus_name", encode a.sendBus)]
  decode? v := do
    match ← fields? false
        ["bounds", "init_value", "output_on_load", "receive_bus_name", "send_bus_name"] v with
    | [bounds, init, load, receive, send] =>
      return ⟨← field? bounds, ← field? init, ← field? load, ← field? receive, ← field? send⟩
    | _ => none
  absent := none

@[reducible] def single {α β : Type} [Codec β] (name : String) (get : α → β) (make : β → α) :
    Codec α where
  encode a := record [(name, encode (get a))]
  decode? v := do
    match ← fields? false [name] v with
    | [f] => return make (← field? f)
    | _ => none
  absent := none

instance : Codec (FilterArgs Float) := single "init_value" FilterArgs.initValue .mk

instance : Codec (OscillatorArgs Float) := single "frequency" OscillatorArgs.frequency .mk

instance : Codec (ConstantArgs Float) := single "init_value" ConstantArgs.initValue .mk

instance : Codec PrintArgs := single "prefix" PrintArgs.label .mk

instance : Codec (RouteArgs Float) := single "filters" RouteArgs.filters .mk

instance : Codec SendArgs := single "bus_name" SendArgs.bus .mk

instance : Codec ReceiveArgs := single "bus_name" ReceiveArgs.bus .mk

end Patchbay.Json
