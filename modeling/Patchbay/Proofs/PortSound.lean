import Patchbay.Proofs.BenchSound
import Patchbay.Proofs.DropSound

/-!
# Instances keep to their ports

A node type declares its ports in one place, and its instances read, write and send in others.
Whatever an instance has been through, it sends on message outlets that are declared and listens at
inlet 0 only, and a tick reads and fills just the declared signal ports.
-/

namespace Patchbay

variable {R : Type}

def Emission.KeepsTo (t : Topology) : Emission R → Prop
  | .send outlet _ => t.outlet? outlet = some (.message outlet)
  | .publish .. => True
  | .subscribe _ inlet | .unsubscribe _ inlet => inlet = .regular 0

structure Family.KeepsTo (F : Family R) (s : F.State) (t : Topology) : Prop where
  configure : ∀ rate, ∀ em ∈ (F.configure s rate).emissions, em.KeepsTo t
  message : ∀ inlet msg rate, ∀ em ∈ (F.message s inlet msg rate).emissions, em.KeepsTo t
  reads : ∀ inputs own rate,
    F.tick s inputs own rate = F.tick s (inputs.take t.inputWidth) own rate
  writes : ∀ inputs rate, t.inputWidth ≤ inputs.length →
    ∃ s' ys, ys.length = t.outputWidth ∧ ∀ own, t.outputWidth ≤ own.length →
      F.tick s inputs own rate = ⟨s', ys ++ own.drop t.outputWidth, none⟩

/-! ## Declarations -/

theorem Builtin.reroutes [Sample R] {type : NodeType (standard R)} {args : StandardArgs R}
    {t : Topology} (h : Builtin type args t) {inlet shadow : PortId}
    (hroute : type.reroute inlet = some shadow) :
    t.inlet? inlet = some ⟨inlet, .signal⟩ ∧ t.inlet? shadow = some ⟨shadow, .message⟩ := by
  cases h with
  | filter | oscillator =>
    obtain ⟨rfl, hshadow⟩ := Option.ite_none_right_eq_some.mp hroute
    cases hshadow
    exact ⟨rfl, rfl⟩
  | _ => cases hroute

/-! ## Emissions -/

theorem ControlState.rebindReceive_keepsTo (c : ControlState R) (bus : Option String)
    (t : Topology) : ∀ em ∈ (c.rebindReceive bus).emissions, em.KeepsTo t := by
  intro em hem
  rcases List.mem_append.mp hem with hem | hem
  · obtain ⟨old, -, rfl⟩ := List.mem_map.mp hem
    rfl
  · obtain ⟨new, -, rfl⟩ := List.mem_map.mp hem
    rfl

theorem Handled.Proper.keepsTo {s : StandardState R} {h : Handled R (StandardState R)}
    (hproper : h.Proper s) {t : Topology}
    (ht : ∀ outlet < s.outletCount, t.outlet? outlet = some (.message outlet)) :
    ∀ em ∈ h.emissions, em.KeepsTo t := by
  rcases hproper.hears with ⟨-, hcalm⟩ | ⟨c, bus, rfl, rfl⟩
  · intro em hem
    cases em with
    | send outlet msg => exact ht outlet (hproper.sends outlet msg hem)
    | publish => trivial
    | subscribe | unsubscribe => cases hcalm _ hem
  · exact c.rebindReceive_keepsTo bus t

/-! ## Instances -/

namespace StandardState

variable [Sample R]

theorem reads_inputs {s : StandardState R} {t : Topology} (h : s.Suits t) (inputs own : List R)
    (rate : R) : s.tick inputs own rate = s.tick (inputs.take t.inputWidth) own rate := by
  cases s with
  | filter s =>
    cases h
    have hsame : ∀ i < 2, (inputs.take 2)[i]? = inputs[i]? := fun i hi => by
      rw [List.getElem?_take, if_pos hi]
    show (s.tick inputs own rate).map filter = (s.tick (inputs.take 2) own rate).map filter
    simp only [FilterState.tick, FilterState.coefficient?, hsame 0 (by decide), hsame 1 (by decide)]
  | oscillator s =>
    cases h
    have hsame : (inputs.take 1)[0]? = inputs[0]? := by rw [List.getElem?_take, if_pos (by decide)]
    show (s.tick inputs own rate).map oscillator = (s.tick (inputs.take 1) own rate).map oscillator
    simp only [OscillatorState.tick, hsame]
  | _ => rfl

structure Belongs (s : StandardState R) (t : Topology) : Prop where
  suits : s.Suits t
  outlets : ∀ outlet < s.outletCount, t.outlet? outlet = some (.message outlet)

variable {s : StandardState R} {t : Topology}

theorem Belongs.heed (h : s.Belongs t) (stimulus : Stimulus R) :
    ((standard R).heed s stimulus).Belongs t := by
  cases stimulus with
  | configure rate =>
    exact ⟨keeps.configure rate h.suits, (s.proper_configure rate).count ▸ h.outlets⟩
  | message inlet msg rate =>
    exact ⟨keeps.message inlet msg rate h.suits,
      (s.proper_message inlet msg rate).count ▸ h.outlets⟩
  | tick inputs own rate =>
    exact ⟨suits_tick h.suits inputs own rate, (s.tick_hears inputs own rate).1 ▸ h.outlets⟩

theorem Belongs.after (h : s.Belongs t) (history : List (Stimulus R)) :
    ((standard R).after s history).Belongs t :=
  Family.after_keeps (F := standard R) (I := fun s : StandardState R => s.Belongs t)
    (fun _ stimulus h => h.heed stimulus) history h

theorem Belongs.keepsTo (h : s.Belongs t) : (standard R).KeepsTo s t where
  configure rate := (s.proper_configure rate).keepsTo h.outlets
  message inlet msg rate := (s.proper_message inlet msg rate).keepsTo h.outlets
  reads := reads_inputs h.suits
  writes _ rate hi := tick_spec h.suits hi rate

end StandardState

/-- What is declared of a built-in node and what its instance does agree, in any state that it can
come to. A signal inlet is only rerouted to a message inlet of the same node. -/
theorem Standard.instances_keep_to_ports [Sample R] [LawfulSample R] {name : String}
    {type : NodeType (standard R)} (htype : (Catalog.standard R).get name = .ok type)
    {raw : List (Token R)} {args : StandardArgs R} (hargs : type.readArgs raw = .ok args) :
    ∃ t, (type.build args).ending = .done t ∧
      (∀ inlet shadow, type.reroute inlet = some shadow →
        t.inlet? inlet = some ⟨inlet, .signal⟩ ∧ t.inlet? shadow = some ⟨shadow, .message⟩) ∧
      ∀ wired, ∃ d, (type.declare args wired).ending = .done d ∧
        (∀ sub ∈ d.subscriptions, sub.2 = .regular 0) ∧
        ∀ history, (standard R).KeepsTo ((standard R).after d.state history) t := by
  obtain ⟨t, hbuild, -, hbuiltin⟩ := Standard.builds (Catalog.mem_of_get htype) hargs
  refine ⟨t, hbuild, fun inlet shadow => hbuiltin.reroutes, fun wired => ?_⟩
  obtain ⟨d, hd, hsound⟩ := @Builtin.declares _ _ _ ⟨0, name, raw, args, t, type⟩ hbuiltin wired
  refine ⟨d, hd, fun sub hsub => ?_, fun history => ?_⟩
  · rw [(hbuiltin.declares_buses hd).2.2] at hsub
    obtain ⟨bus, -, rfl⟩ := List.mem_map.mp hsub
    rfl
  · have hstart : d.state.Belongs t := ⟨hsound.1, hbuiltin.declares_outlets hd⟩
    exact (hstart.after history).keepsTo

/-- The last outlet of a router with two filters takes what passes neither. -/
theorem Standard.instances_keep_to_ports_unmatched :
    let raw : List (Token Float) := [.symbol "a", .symbol "b"]
    let history : List (Stimulus Float) := [.message (.regular 0) [.symbol "a"] 44100]
    (Catalog.standard Float).get "route" = .ok Standard.route ∧
      ∃ args t d, Standard.route.readArgs raw = .ok args ∧
        (Standard.route.build args).ending = .done t ∧
        (Standard.route.declare args (.ofInlets [])).ending = .done d ∧
        let s := (standard Float).after d.state history
        (s.message (.regular 0) [.symbol "c"] 44100).emissions = [.send 2 [.symbol "c"]] ∧
        t.outlet? 2 = some (.message 2) := by
  intro raw history
  have htype : (Catalog.standard Float).get "route" = .ok Standard.route := rfl
  have hargs : Standard.route.readArgs raw = .ok (.route (Route.argsOf raw)) := rfl
  obtain ⟨t, hbuild, -, hall⟩ := instances_keep_to_ports htype hargs
  obtain ⟨d, hd, -, hkeeps⟩ := hall (.ofInlets [])
  have hsent : (StandardState.message ((standard Float).after d.state history) (.regular 0)
      [.symbol "c"] 44100).emissions = [.send 2 [.symbol "c"]] := by
    obtain rfl := Ending.done.inj (hd.symm.trans (rfl : _ = Ending.done _))
    decide +kernel
  have houtlet : (Emission.send 2 [.symbol "c"]).KeepsTo t :=
    (hkeeps history).message (.regular 0) [.symbol "c"] 44100 _ (hsent ▸ List.mem_singleton_self _)
  exact ⟨htype, _, t, d, hargs, hbuild, hd, hsent, houtlet⟩

end Patchbay
