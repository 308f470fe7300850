import Patchbay.Proofs.ConnectSound
import Patchbay.Proofs.LinkSound
import Patchbay.Proofs.StandardTypes

/-!
# The inlet of a message from outside

A message that is sent to an inlet goes where a cable for messages would be led. Only a node type
that names an inlet which its node does not have makes a difference: no cable is made there, but the
message is delivered.
-/

namespace Patchbay

variable {R : Type} {F : Family R}

structure PatchNode.Misleads (node : PatchNode F) (inlet found : PortId) : Prop where
  signal : ∃ port, node.topology.inlet? inlet = some port ∧ port.kind = .signal
  named : node.type.reroute inlet = some found
  untaken : ∀ stand, node.topology.inlet? found = some stand → stand.kind ≠ .message

/-! ## What decides where a message goes -/

def Live.ports (live : Live F) : Topology × (PortId → Option PortId) :=
  (live.topology, live.reroute)

def PatchNode.ports (node : PatchNode F) : Topology × (PortId → Option PortId) :=
  (node.topology, node.type.reroute)

theorem PatchNode.receives_or_misleads {node : PatchNode F} {inlet found : PortId} :
    node.Receives inlet .message found ∨ node.Misleads inlet found ↔
      ∃ port, node.topology.inlet? inlet = some port ∧
        (port.kind = .message ∧ inlet = found ∨
          port.kind = .signal ∧ node.type.reroute inlet = some found) := by
  constructor
  · rintro (h | ⟨⟨port, hport, hsignal⟩, hroute, -⟩)
    · obtain ⟨port, hport, hsame | ⟨hsignal, hroute, -⟩⟩ := receives_message.mp h
      · exact ⟨port, hport, Or.inl hsame⟩
      · exact ⟨port, hport, Or.inr ⟨hsignal, hroute⟩⟩
    · exact ⟨port, hport, Or.inr ⟨hsignal, hroute⟩⟩
  · rintro ⟨port, hport, hsame | ⟨hsignal, hroute⟩⟩
    · exact Or.inl (receives_message.mpr ⟨port, hport, Or.inl hsame⟩)
    · by_cases hstand : ∃ stand, node.topology.inlet? found = some stand ∧ stand.kind = .message
      · exact Or.inl (receives_message.mpr ⟨port, hport, Or.inr ⟨hsignal, hroute, hstand⟩⟩)
      · exact Or.inr ⟨⟨port, hport, hsignal⟩, hroute,
          fun stand hfound hmessage => hstand ⟨stand, hfound, hmessage⟩⟩

namespace Engine

theorem messageInlet?_eq_some {live : Live F} {inlet found : PortId} :
    messageInlet? live inlet = some found ↔
      ∃ port, live.topology.inlet? inlet = some port ∧
        (port.kind = .message ∧ inlet = found ∨
          port.kind = .signal ∧ live.reroute inlet = some found) := by
  unfold messageInlet?
  cases hport : live.topology.inlet? inlet with
  | none => simp
  | some port => cases hkind : port.kind <;> simp [hkind]

theorem messageInlet?_iff {live : Live F} {node : PatchNode F} (hports : live.ports = node.ports)
    {inlet found : PortId} : messageInlet? live inlet = some found ↔
      node.Receives inlet .message found ∨ node.Misleads inlet found := by
  obtain ⟨htopology, hreroute⟩ := Prod.mk.inj hports
  rw [messageInlet?_eq_some, PatchNode.receives_or_misleads, htopology, hreroute]

def Ported (p : Patch F) (e : Engine F) : Prop :=
  e.nodes.map Live.ports = p.nodes.map PatchNode.ports

section
variable {p : Patch F} {e : Engine F}

theorem Ported.exists_live (he : e.Ported p) {n : NodeId} {node : PatchNode F}
    (hn : p.node? n = some node) : ∃ live, e.nodes[n]? = some live ∧ live.ports = node.ports := by
  have h : (e.nodes.map Live.ports)[n]? = some node.ports := by
    rw [he, List.getElem?_map, show p.nodes[n]? = some node from hn, Option.map_some]
  rw [List.getElem?_map] at h
  exact Option.map_eq_some_iff.mp h

theorem Ported.setState (he : e.Ported p) (n : NodeId) (st : F.State) :
    (e.setState n st).Ported p := by
  refine Eq.trans (List.ext_getElem? fun k => ?_) he
  rw [List.getElem?_map, List.getElem?_map, getElem?_setState]
  by_cases hk : n = k
  · rw [if_pos hk, Option.map_map]
    rfl
  · rw [if_neg hk]

theorem declareAll_ports {wired : List Wired} :
    ∀ {nodes : List (PatchNode F)} {lives : List (Live F)} {pending : List NodeId},
      (declareAll wired nodes).ending = .done (lives, pending) →
        lives.map Live.ports = nodes.map PatchNode.ports
  | [], _, _, h => by
    cases h
    rfl
  | node :: nodes, _, _, h => by
    simp only [declareAll, Traced.bind_done, Traced.ending_pure, Ending.done.injEq,
      Prod.mk.injEq] at h
    obtain ⟨d, _, ⟨lives, pending⟩, hrest, rfl, -⟩ := h
    rw [List.map_cons, List.map_cons, declareAll_ports hrest]
    rfl

theorem ported_link [Zero R] {s : Schedule} {buses : Buses}
    (h : (link s p buses).ending = .done e) : e.Ported p := by
  obtain ⟨lives, pending, hdeclare, rfl⟩ := link_done h
  exact declareAll_ports hdeclare

end

theorem Ported.closed [Sample R] (p : Patch F) : Closed p.nodes.length (Ported p) where
  length he := by simpa using congrArg List.length he
  called _ he _ := he.setState _ _
  handled _ _ he _ := he.setState _ _
  ticked {e} rate n he := by
    rcases tickNode_cases rate n e with h | ⟨_, _, _, _, _, _, _, h⟩
    · rwa [h]
    · rw [h]
      exact he.setState n _
  captured n outlet msg he := by
    rw [capture_eq]
    exact he
  subscribed _ _ _ he := he
  unsubscribed _ _ he := he
  configured _ he := he
  listened _ _ he := he
  taken n outlet he := by
    rw [take_eq]
    exact he

end Engine

/-! ## What comes in from outside -/

/-- A message from outside that reaches a node, also where it is cut off. -/
def Event.entered? : Event R → Option (NodeId × PortId × Message R)
  | delivered .outside n inlet msg | cut .outside n inlet msg => some (n, inlet, msg)
  | _ => none

def Inside (events : List (Event R)) : Prop := ∀ event ∈ events, event.entered? = none

theorem inside_append {events events' : List (Event R)} (h : Inside events)
    (h' : Inside events') : Inside (events ++ events') := fun event hevent =>
  (List.mem_append.mp hevent).elim (h event) (h' event)

theorem inside_cons {event : Event R} {events : List (Event R)} (h : event.entered? = none)
    (h' : Inside events) : Inside (event :: events) := List.forall_mem_cons.mpr ⟨h, h'⟩

theorem inside_notices (notices : List (Notice R)) :
    Inside (notices.map Event.notice) := by
  intro event hevent
  obtain ⟨n, -, rfl⟩ := List.mem_map.mp hevent
  rfl

namespace Progress

variable {σ α : Type}

theorem andThen_inside {p : Progress R σ} {f : σ → Progress R σ} (hp : Inside p.events)
    (hf : ∀ s, Inside (f s).events) : Inside (p.andThen f).events := by
  unfold andThen
  split
  · exact hp
  · exact inside_append hp (hf _)

theorem each_inside {f : α → σ → Progress R σ} (hf : ∀ a s, Inside (f a s).events) :
    ∀ (as : List α) (s : σ), Inside (each f as s).events
  | [], _ => List.forall_mem_nil _
  | a :: as, s => andThen_inside (hf a s) (each_inside hf as)

end Progress

namespace Engine

def Homely (d : Deliver F) : Prop :=
  ∀ origin n inlet msg e, origin ≠ .outside → Inside (d origin n inlet msg e).events

theorem Homely.publishWith {d : Deliver F} (hd : Homely d) (publisher : Option NodeId)
    (bus : String) (msg : Message R) (e : Engine F) :
    Inside (publishWith d publisher bus msg e).events :=
  Progress.each_inside (fun _ _ => hd (.bus bus publisher) _ _ _ _ nofun) _ _

theorem Homely.applyWith {d : Deliver F} (hd : Homely d) (n : NodeId) (emission : Emission R)
    (e : Engine F) : Inside (applyWith d n emission e).events := by
  cases emission with
  | send outlet msg =>
    exact Progress.andThen_inside (inside_cons rfl (List.forall_mem_nil _)) fun e =>
      Progress.each_inside (fun _ _ => hd (.wire n outlet) _ _ _ _ nofun) _ e
  | publish bus msg => exact hd.publishWith _ _ _ _
  | subscribe | unsubscribe => exact List.forall_mem_nil _

section
variable [Zero R]

-- what a handler emits comes by a wire or a bus, so it is covered by the delivery with less room
theorem homely_deliver : ∀ room : Nat, Homely (deliver (F := F) room)
  | 0, origin, n, inlet, msg, e, horigin => by
    have hcut : (Event.cut origin n inlet msg).entered? = none := by
      cases origin with
      | outside => exact absurd rfl horigin
      | wire | bus => rfl
    unfold deliver
    split
    · exact List.forall_mem_nil _
    · exact inside_cons hcut (inside_cons rfl (List.forall_mem_nil _))
  | room + 1, origin, n, inlet, msg, e, horigin => by
    have hdelivered : (Event.delivered origin n inlet msg).entered? = none := by
      cases origin with
      | outside => exact absurd rfl horigin
      | wire | bus => rfl
    unfold deliver
    split
    · exact List.forall_mem_nil _
    · exact Progress.andThen_inside (inside_cons hdelivered (inside_notices _)) fun e =>
        Progress.each_inside (fun _ _ => (homely_deliver room).applyWith _ _ _) _ e

/-- What a message sets off never comes in from outside again. -/
theorem deliver_entered {e : Engine F} {n : NodeId} {live : Live F}
    (hlive : e.nodes[n]? = some live) (room : Nat) (inlet : PortId) (msg : Message R) :
    (deliver (room + 1) .outside n inlet msg e).events.filterMap Event.entered? =
      [(n, inlet, msg)] := by
  have hrest : ∃ rest, (deliver (room + 1) .outside n inlet msg e).events =
      .delivered .outside n inlet msg :: rest ∧ Inside rest := by
    simp only [deliver, hlive, absorb, Progress.andThen]
    split
    · exact ⟨_, rfl, inside_notices _⟩
    · exact ⟨_, rfl, inside_append (inside_notices _)
        (Progress.each_inside (fun _ _ => (homely_deliver room).applyWith _ _ _) _ _)⟩
  obtain ⟨rest, hevents, hinside⟩ := hrest
  have hnone : rest.filterMap Event.entered? = [] := List.filterMap_eq_nil_iff.mpr hinside
  rw [hevents, List.filterMap_cons]
  simp only [Event.entered?, hnone]

end

/-! ## Sending -/

section
variable [Sample R] {e : Engine F} {n : NodeId} {inlet : PortId}

structure Delivers (e : Engine F) (n : NodeId) (inlet found : PortId) (msg : Message R) : Prop where
  runs : e.perform (.send n inlet msg) =
    ofProgress (deliver (maxDepth + 1) .outside n found msg e)
  enters : (e.perform (.send n inlet msg)).events.filterMap Event.entered? = [(n, found, msg)]

section
variable (hconfig : e.config.isSome = true) {live : Live F} (hlive : e.nodes[n]? = some live)
include hconfig hlive

theorem perform_send_to {found : PortId} (hfound : messageInlet? live inlet = some found)
    (msg : Message R) : e.perform (.send n inlet msg) =
      ofProgress (deliver (maxDepth + 1) .outside n found msg e) := by
  have hconfigured : e.config.isNone = false := by simpa using hconfig
  simp [perform, send, hconfigured, hlive, hfound, unlessRefused]

theorem perform_send_nowhere (hfound : messageInlet? live inlet = none) (msg : Message R) :
    e.perform (.send n inlet msg) = .refuse e (.invalidPort n inlet) := by
  have hconfigured : e.config.isNone = false := by simpa using hconfig
  simp [perform, send, hconfigured, hlive, hfound, unlessRefused]

theorem delivers_iff {found : PortId} {msg : Message R} :
    e.Delivers n inlet found msg ↔ messageInlet? live inlet = some found := by
  constructor
  · intro h
    have henters := h.enters
    cases hfound : messageInlet? live inlet with
    | none =>
      rw [perform_send_nowhere hconfig hlive hfound] at henters
      cases henters
    | some found' =>
      have hentered := deliver_entered hlive maxDepth found' msg
      rw [perform_send_to hconfig hlive hfound] at henters
      cases henters.symm.trans hentered
      rfl
  · intro hfound
    have hruns := perform_send_to hconfig hlive hfound msg
    refine ⟨hruns, ?_⟩
    rw [hruns]
    exact deliver_entered hlive maxDepth found msg

theorem refuses_iff {msg : Message R} :
    e.perform (.send n inlet msg) = .refuse e (.invalidPort n inlet) ↔
      messageInlet? live inlet = none := by
  refine ⟨fun h => ?_, fun h => perform_send_nowhere hconfig hlive h msg⟩
  cases hfound : messageInlet? live inlet with
  | none => rfl
  | some found =>
    have henters := ((delivers_iff hconfig hlive).mpr hfound : e.Delivers n inlet found msg).enters
    rw [h] at henters
    cases henters

end

end

end Engine

section
variable {p : Patch F} {source target : NodeId} {outlet : Nat} {a node : PatchNode F} {out : Port}
  (ha : p.node? source = some a) (hout : a.topology.outlet? outlet = some out)
  (hkind : out.kind = .message) (hnode : p.node? target = some node)
include ha hout hkind hnode

theorem PatchNode.Receives.iff_cableFor {inlet found : PortId} :
    node.Receives inlet .message found ↔
      p.cableFor source outlet target inlet = .ok ⟨source, outlet, target, found, .message⟩ := by
  constructor
  · intro h
    obtain ⟨port, hport, -⟩ := PatchNode.receives_message.mp h
    have hnames : p.Names source outlet target inlet node out port := ⟨⟨a, ha, hout⟩, hnode, hport⟩
    rw [← hkind] at h ⊢
    exact hnames.cableFor_of_receives h
  · intro h
    cases hport : node.topology.inlet? inlet with
    | none =>
      simp only [Patch.cableFor, ha, hnode, hout, hport] at h
      cases h
    | some port =>
      have hnames : p.Names source outlet target inlet node out port :=
        ⟨⟨a, ha, hout⟩, hnode, hport⟩
      rw [hnames.cableFor, hkind] at h
      cases hresolve : Patch.resolve node .message port with
      | error err =>
        rw [hresolve] at h
        cases h
      | ok found' =>
        rw [hresolve] at h
        cases h
        exact (Patch.resolve_ok_iff hport).mp hresolve

theorem PatchNode.Misleads.cableFor {inlet found : PortId} (h : node.Misleads inlet found) :
    p.cableFor source outlet target inlet = .error (.kindMismatch .message .signal) := by
  obtain ⟨⟨port, hport, hsignal⟩, hroute, huntaken⟩ := h
  have hnames : p.Names source outlet target inlet node out port := ⟨⟨a, ha, hout⟩, hnode, hport⟩
  have hnone : ∀ other, ¬ node.Receives inlet out.kind other := by
    rw [hkind]
    intro other hreceives
    obtain ⟨port', hport', ⟨hmessage, -⟩ | ⟨-, hroute', stand, hstand, hmessage⟩⟩ :=
      PatchNode.receives_message.mp hreceives
    · cases hport.symm.trans hport'
      cases hsignal.symm.trans hmessage
    · cases hroute.symm.trans hroute'
      exact huntaken _ hstand hmessage
  rw [hnames.cableFor, Patch.resolve_error hport hnone, hkind, hsignal]
  rfl

end

/-- The built-in types only name inlets that their nodes have. -/
theorem Builtin.not_misleads [Sample R] {node : PatchNode (standard R)}
    (h : Builtin node.type node.args node.topology) (inlet found : PortId) :
    ¬ node.Misleads inlet found := by
  rintro ⟨-, hroute, huntaken⟩
  obtain ⟨id, name, raw, args, topology, type⟩ := node
  cases h with
  | filter | oscillator =>
    obtain ⟨-, hfound⟩ := Option.ite_none_right_eq_some.mp hroute
    cases hfound
    exact huntaken _ rfl rfl
  | _ => cases hroute

namespace Engine

variable [Sample R]

theorem sends_iff {s : Schedule} {p : Patch F} {buses : Buses} {fresh : Engine F}
    (hfresh : (link s p buses).ending = .done fresh) (calls : List (Call R))
    (hconfig : (fresh.after calls).config.isSome = true) {n : NodeId} {node : PatchNode F}
    (hnode : p.node? n = some node) (inlet : PortId) (msg : Message R) :
    let e := fresh.after calls
    (∀ found, e.Delivers n inlet found msg ↔
      node.Receives inlet .message found ∨ node.Misleads inlet found) ∧
    (e.perform (.send n inlet msg) = .refuse e (.invalidPort n inlet) ↔
      ∀ found, ¬ node.Receives inlet .message found ∧ ¬ node.Misleads inlet found) := by
  intro e
  have hported : e.Ported p := (Ported.closed p).after (ported_link hfresh) calls
  obtain ⟨live, hlive, hports⟩ := hported.exists_live hnode
  constructor
  · intro found
    rw [delivers_iff hconfig hlive, messageInlet?_iff hports]
  · rw [refuses_iff hconfig hlive, Option.eq_none_iff_forall_ne_some]
    refine forall_congr' fun found => ?_
    rw [ne_eq, messageInlet?_iff hports, not_or]

/-- In a patch of built-in nodes a message goes where a cable would, and nowhere else. -/
theorem sent_where_connected {edits : List (Edit (standard R))}
    (hedits : ∀ edit ∈ edits, edit.fromCatalog = true) {s : Schedule} {buses : Buses}
    {fresh : Engine (standard R)} (hfresh : (link s (Patch.built edits) buses).ending = .done fresh)
    (calls : List (Call R)) (hconfig : (fresh.after calls).config.isSome = true) {n : NodeId}
    {node : PatchNode (standard R)} (hnode : (Patch.built edits).node? n = some node)
    (inlet : PortId) (msg : Message R) :
    let e := fresh.after calls
    (∀ found, e.Delivers n inlet found msg ↔ node.Receives inlet .message found) ∧
    (e.perform (.send n inlet msg) = .refuse e (.invalidPort n inlet) ↔
      ∀ found, ¬ node.Receives inlet .message found) := by
  have hmember : node ∈ (Patch.built edits).nodes := Patch.node?_mem hnode
  have hnot := ((Patch.standard_built hedits).nodes node hmember).not_misleads inlet
  simpa only [hnot, or_false, not_false_eq_true, and_true] using
    sends_iff hfresh calls hconfig hnode inlet msg

/-- A message that is sent to an inlet of a node is delivered at the inlet that `connect` finds for
it, wherever it finds one. It is delivered too where the node type names an inlet for messages that
the node does not have; there `connect` finds none. Everything else is refused, and changes
nothing. -/
theorem sent_where_connected_or_misled {s : Schedule} {p : Patch F} {buses : Buses}
    {fresh : Engine F} (hfresh : (link s p buses).ending = .done fresh) (calls : List (Call R))
    (hconfig : (fresh.after calls).config.isSome = true) {n : NodeId} {node : PatchNode F}
    (hnode : p.node? n = some node) (inlet : PortId) (msg : Message R) :
    let e := fresh.after calls
    (∀ found, e.Delivers n inlet found msg ↔
      node.Receives inlet .message found ∨ node.Misleads inlet found) ∧
    (e.perform (.send n inlet msg) = .refuse e (.invalidPort n inlet) ↔
      ∀ found, ¬ node.Receives inlet .message found ∧ ¬ node.Misleads inlet found) ∧
    ∀ source outlet a out, p.node? source = some a → a.topology.outlet? outlet = some out →
      out.kind = .message → ∀ found,
        (node.Receives inlet .message found ↔ p.cableFor source outlet n inlet =
          .ok ⟨source, outlet, n, found, .message⟩) ∧
        (node.Misleads inlet found → p.cableFor source outlet n inlet =
          .error (.kindMismatch .message .signal)) := by
  intro e
  obtain ⟨hdelivers, hrefuses⟩ := sends_iff hfresh calls hconfig hnode inlet msg
  refine ⟨hdelivers, hrefuses, fun source outlet a out ha hout hkind found => ⟨?_, ?_⟩⟩
  · exact PatchNode.Receives.iff_cableFor ha hout hkind hnode
  · exact PatchNode.Misleads.cableFor ha hout hkind hnode

/-- A filter of a type that names an eighth inlet, which filters do not have. -/
theorem sent_where_misled :
    let type : NodeType (standard Float) :=
      { Standard.filter .lop with reroute := fun _ => some (.shadowOf 7) }
    let edits : List (Edit (standard Float)) := [.addExternal "astray" type [], .add "floatatom" []]
    let p := Patch.built edits
    let calls : List (Call Float) := [.configure ⟨44100, 64, 1⟩]
    let msg : Message Float := [.float 5]
    ∃ s fresh node, (Schedule.compile p).ending = .done s ∧ (link s p .empty).ending = .done fresh ∧
      (fresh.after calls).config.isSome = true ∧ p.node? 0 = some node ∧
      node.topology.inlet? (.shadowOf 7) = none ∧
      (fresh.after calls).Delivers 0 (.regular 0) (.shadowOf 7) msg ∧
      p.cableFor 1 0 0 (.regular 0) = .error (.kindMismatch .message .signal) := by
  intro type edits p calls msg
  obtain ⟨s, fresh, node, hs, hfresh, hconfig, hnode, hmisleads, hnone⟩ : ∃ s fresh node,
      (Schedule.compile p).ending = .done s ∧ (link s p .empty).ending = .done fresh ∧
      (fresh.after calls).config.isSome = true ∧ p.node? 0 = some node ∧
      node.Misleads (.regular 0) (.shadowOf 7) ∧
      node.topology.inlet? (.shadowOf 7) = none :=
    ⟨_, _, _, rfl, rfl, rfl, rfl, ⟨⟨_, rfl, rfl⟩, rfl, nofun⟩, rfl⟩
  obtain ⟨hdelivers, -, hcables⟩ :=
    sent_where_connected_or_misled hfresh calls hconfig hnode (.regular 0) msg
  exact ⟨s, fresh, node, hs, hfresh, hconfig, hnode, hnone, (hdelivers _).mpr (Or.inr hmisleads),
    (hcables 1 0 _ _ rfl rfl rfl _).2 hmisleads⟩

end Engine

end Patchbay
