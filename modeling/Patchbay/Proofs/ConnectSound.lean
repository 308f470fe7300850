import Patchbay.Proofs.PatchSound

/-!
# Which connections are made

A connection is legal if its ends are there, the inlet takes what the outlet sends, the cable is new
and a signal cable closes no circle. Just the legal connections are made, each as one more cable.
Any other is refused for the first of these that fails.
-/

namespace Patchbay

open Relation

variable {R : Type} {F : Family R}

/-- What is sent to the inlet as `kind` arrives at `found`: at the inlet itself if that is its kind,
and messages for a signal inlet at a message inlet that the node type names for it. -/
inductive PatchNode.Receives (node : PatchNode F) (inlet : PortId) : Kind → PortId → Prop
  | same {port} (hport : node.topology.inlet? inlet = some port) :
    Receives node inlet port.kind inlet
  | rerouted {port shadow stand} (hport : node.topology.inlet? inlet = some port)
    (hkind : port.kind = .signal) (hroute : node.type.reroute inlet = some shadow)
    (hstand : node.topology.inlet? shadow = some stand) (hmessage : stand.kind = .message) :
    Receives node inlet .message shadow

theorem Kind.eq_signal {kind : Kind} (h : kind ≠ .message) : kind = .signal := by
  cases kind with
  | signal => rfl
  | message => exact absurd rfl h

theorem PatchNode.receives_message {node : PatchNode F} {inlet found : PortId} :
    node.Receives inlet .message found ↔ ∃ port, node.topology.inlet? inlet = some port ∧
      (port.kind = .message ∧ inlet = found ∨
        port.kind = .signal ∧ node.type.reroute inlet = some found ∧
          ∃ stand, node.topology.inlet? found = some stand ∧ stand.kind = .message) := by
  constructor
  · intro h
    generalize Kind.message = kind at h
    cases h with
    | same hport => exact ⟨_, hport, Or.inl ⟨rfl, rfl⟩⟩
    | rerouted hport hsignal hroute hstand hmessage =>
      exact ⟨_, hport, Or.inr ⟨hsignal, hroute, _, hstand, hmessage⟩⟩
  · rintro ⟨port, hport, ⟨hkind, rfl⟩ | ⟨hsignal, hroute, stand, hstand, hmessage⟩⟩
    · exact hkind ▸ .same hport
    · exact .rerouted hport hsignal hroute hstand hmessage

namespace Patch

section
variable (p : Patch F) (source : NodeId) (outlet : Nat) (target : NodeId) (inlet : PortId)

structure Names (b : PatchNode F) (out port : Port) : Prop where
  outlet : ∃ a, p.node? source = some a ∧ a.topology.outlet? outlet = some out
  target : p.node? target = some b
  inlet : b.topology.inlet? inlet = some port

structure Legal (cable : Cable) : Prop where
  ends : ∃ b out port, p.Names source outlet target inlet b out port ∧
    b.Receives inlet out.kind cable.inlet ∧
    cable = ⟨source, outlet, target, cable.inlet, out.kind⟩
  new : cable ∉ p.cables
  noWayBack : cable.isSignal = true → ¬ ReflTransGen (Feeds p.cables) target source

/-- The first thing that stands against a connection, where all before it is as it should be. -/
inductive Refusal : PatchError → Prop
  | noSource (ha : p.node? source = none) : Refusal (.invalidNode source)
  | noTarget {a} (ha : p.node? source = some a) (hb : p.node? target = none) :
    Refusal (.invalidNode target)
  | noOutlet {a b} (ha : p.node? source = some a) (hb : p.node? target = some b)
    (hout : a.topology.outlet? outlet = none) : Refusal (.invalidPort source (.regular outlet))
  | noInlet {a b out} (ha : p.node? source = some a) (hb : p.node? target = some b)
    (hout : a.topology.outlet? outlet = some out) (hport : b.topology.inlet? inlet = none) :
    Refusal (.invalidPort target inlet)
  | kinds {b out port} (hnames : p.Names source outlet target inlet b out port)
    (hnone : ∀ found, ¬ b.Receives inlet out.kind found) :
    Refusal (.kindMismatch out.kind port.kind)
  | duplicate {b out port found} (hnames : p.Names source outlet target inlet b out port)
    (hfound : b.Receives inlet out.kind found)
    (hold : ⟨source, outlet, target, found, out.kind⟩ ∈ p.cables) : Refusal .duplicateCable
  | cycle {b out port found} (hnames : p.Names source outlet target inlet b out port)
    (hfound : b.Receives inlet out.kind found)
    (hnew : ⟨source, outlet, target, found, out.kind⟩ ∉ p.cables) (hsignal : out.kind = .signal)
    (hback : ReflTransGen (Feeds p.cables) target source) : Refusal .cycleDetected

end

/-! ## The inlet that is found -/

section
variable {node : PatchNode F} {inlet found : PortId} {out : Kind} {port : Port}
  (hport : node.topology.inlet? inlet = some port)
include hport

theorem resolve_ok_iff : resolve node out port = .ok found ↔ node.Receives inlet out found := by
  have hid : port.id = inlet := inlet?_id hport
  constructor
  · intro h
    unfold resolve at h
    split at h
    · rename_i hk
      cases h
      rw [hk, hid]
      exact .same hport
    · rename_i hk
      split at h
      · rename_i hm
        subst hm
        have hsignal : port.kind = .signal := Kind.eq_signal fun hkind => hk hkind.symm
        split at h
        · rename_i shadow hs
          cases h
          obtain ⟨hroute, hany⟩ := Option.filter_eq_some_iff.mp hs
          obtain ⟨stand, hstand, hmessage⟩ := Option.any_eq_true _ _ |>.mp hany
          exact .rerouted hport hsignal (hid ▸ hroute) hstand (beq_iff_eq.mp hmessage)
        · cases h
      · cases h
  · intro h
    cases h with
    | same hport' =>
      cases hport.symm.trans hport'
      rw [resolve, if_pos rfl, hid]
    | rerouted hport' hkind hroute hstand hmessage =>
      cases hport.symm.trans hport'
      have hfilter : (node.type.reroute port.id).filter (fun shadow =>
          (node.topology.inlet? shadow).any (·.kind == .message)) = some found := by
        rw [hid, hroute, Option.filter_some, hstand, Option.any_some, hmessage]
        rfl
      simp [resolve, hkind, hfilter]

theorem resolve_error (hnone : ∀ found, ¬ node.Receives inlet out found) :
    resolve node out port = .error (.kindMismatch out port.kind) := by
  cases h : resolve node out port with
  | ok found => exact absurd ((resolve_ok_iff hport).mp h) (hnone found)
  | error e =>
    unfold resolve at h
    split at h
    · cases h
    · split at h
      · split at h
        · cases h
        · cases h
          rfl
      · cases h
        rfl

end

/-! ## What comes of a connection -/

section
variable {p : Patch F} {source : NodeId} {outlet : Nat} {target : NodeId} {inlet : PortId}

theorem Names.cableFor {b : PatchNode F} {out port : Port}
    (h : p.Names source outlet target inlet b out port) :
    p.cableFor source outlet target inlet = (resolve b out.kind port).map fun found =>
      ⟨source, outlet, target, found, out.kind⟩ := by
  obtain ⟨⟨a, ha, hout⟩, hb, hport⟩ := h
  unfold Patch.cableFor
  simp only [ha, hb, hout, hport]
  cases resolve b out.kind port <;> rfl

theorem Names.cableFor_of_receives {b : PatchNode F} {out port : Port} {found : PortId}
    (h : p.Names source outlet target inlet b out port) (hfound : b.Receives inlet out.kind found) :
    p.cableFor source outlet target inlet = .ok ⟨source, outlet, target, found, out.kind⟩ := by
  rw [h.cableFor, (resolve_ok_iff h.inlet).mpr hfound]
  rfl

variable (p source outlet target inlet) in
theorem legal_or_refused : (∃ c, p.Legal source outlet target inlet c) ∨
    ∃ e, p.Refusal source outlet target inlet e := by
  cases ha : p.node? source with
  | none => exact Or.inr ⟨_, .noSource ha⟩
  | some a =>
  cases hb : p.node? target with
  | none => exact Or.inr ⟨_, .noTarget ha hb⟩
  | some b =>
  cases hout : a.topology.outlet? outlet with
  | none => exact Or.inr ⟨_, .noOutlet ha hb hout⟩
  | some out =>
  cases hport : b.topology.inlet? inlet with
  | none => exact Or.inr ⟨_, .noInlet ha hb hout hport⟩
  | some port =>
  have hnames : p.Names source outlet target inlet b out port := ⟨⟨a, ha, hout⟩, hb, hport⟩
  by_cases hsome : ∃ found, b.Receives inlet out.kind found
  · obtain ⟨found, hfound⟩ := hsome
    by_cases hold : ⟨source, outlet, target, found, out.kind⟩ ∈ p.cables
    · exact Or.inr ⟨_, .duplicate hnames hfound hold⟩
    · by_cases hcycle : out.kind = .signal ∧ ReflTransGen (Feeds p.cables) target source
      · exact Or.inr ⟨_, .cycle hnames hfound hold hcycle.1 hcycle.2⟩
      · refine Or.inl ⟨_, ⟨b, out, port, hnames, hfound, rfl⟩, hold, fun hs hback => ?_⟩
        exact hcycle ⟨by simpa [Cable.isSignal] using hs, hback⟩
  · exact Or.inr ⟨_, .kinds hnames fun found hfound => hsome ⟨found, hfound⟩⟩

theorem Legal.newCable (hp : p.Sound) {c : Cable} (h : p.Legal source outlet target inlet c) :
    (p.newCable source outlet target inlet).ending = .done c := by
  obtain ⟨⟨b, out, port, hnames, hfound, hc⟩, hnew, hback⟩ := h
  have hfor : p.cableFor source outlet target inlet = .ok c := by
    rw [hc]
    exact hnames.cableFor_of_receives hfound
  simp only [Patch.newCable, hfor, if_neg hnew]
  by_cases hs : c.isSignal = true
  · obtain ⟨found, hsearch, hiff⟩ := wouldCycle_spec hp.endsBelow source (node?_lt hnames.target)
    cases found with
    | true => exact absurd (hiff.mp rfl) (hback hs)
    | false => simp [hs, hsearch]
  · simp [hs]

theorem Refusal.newCable (hp : p.Sound) {e : PatchError}
    (h : p.Refusal source outlet target inlet e) :
    (p.newCable source outlet target inlet).ending = .refused e := by
  have early : ∀ {e}, p.cableFor source outlet target inlet = .error e →
      (p.newCable source outlet target inlet).ending = .refused e := by
    intro e h
    simp only [Patch.newCable, h, Traced.ending_refuse]
  cases h with
  | noSource ha => exact early (by simp only [cableFor, ha]; rfl)
  | noTarget ha hb => exact early (by simp only [cableFor, ha, hb]; rfl)
  | noOutlet ha hb hout => exact early (by simp only [cableFor, ha, hb, hout]; rfl)
  | noInlet ha hb hout hport => exact early (by simp only [cableFor, ha, hb, hout, hport]; rfl)
  | kinds hnames hnone =>
    refine early ?_
    rw [hnames.cableFor, resolve_error hnames.inlet hnone]
    rfl
  | duplicate hnames hfound hold =>
    simp only [Patch.newCable, hnames.cableFor_of_receives hfound, if_pos hold,
      Traced.ending_refuse]
  | @cycle b out port found hnames hfound hnew hsignal hback =>
    obtain ⟨closes, hsearch, hiff⟩ := wouldCycle_spec hp.endsBelow source (node?_lt hnames.target)
    obtain rfl : closes = true := hiff.mpr hback
    have hs : (⟨source, outlet, target, found, out.kind⟩ : Cable).isSignal = true :=
      beq_iff_eq.mpr hsignal
    simp only [Patch.newCable, hnames.cableFor_of_receives hfound, if_neg hnew, if_pos hs, hsearch]

theorem Legal.connect (hp : p.Sound) {c : Cable} (h : p.Legal source outlet target inlet c) :
    (p.connect source outlet target inlet).ending = .done c.inlet ∧
      (p.connect source outlet target inlet).state = { p with cables := p.cables ++ [c] } := by
  simp only [Patch.connect, Traced.commit, h.newCable hp, and_self]

theorem Refusal.connect (hp : p.Sound) {e : PatchError}
    (h : p.Refusal source outlet target inlet e) :
    (p.connect source outlet target inlet).ending = .refused e ∧
      (p.connect source outlet target inlet).state = p := by
  simp only [Patch.connect, Traced.commit, h.newCable hp, and_self]

end

/-- However a patch came about, just the legal connections are made. Each adds its one cable and
tells the inlet that was found. Any other is refused with the first thing that stands against it,
and changes nothing. The search for a way back ends, with one answer, and the answer is right. -/
theorem connects_what_is_legal (catalog : Catalog F) (edits : List (Edit F)) (source : NodeId)
    (outlet : Nat) (target : NodeId) (inlet : PortId) :
    let p := (Patch.empty catalog).after edits
    let o := p.connect source outlet target inlet
    (∀ found q, o.ending = .done found ∧ o.state = q ↔
      ∃ c, p.Legal source outlet target inlet c ∧ found = c.inlet ∧
        q = { p with cables := p.cables ++ [c] }) ∧
    (∀ e q, o.ending = .refused e ∧ o.state = q ↔
      p.Refusal source outlet target inlet e ∧ q = p) ∧
    (∀ f, o.ending ≠ .faulted f) ∧
    ∀ (goal : NodeId) (start : Fin p.nodes.length), ∃ found seen,
      p.wouldCycle goal start = .ok found ∧
      (∀ r, Searches p.cables p.nodes.length goal [start.val] [] r ↔ r = (found, seen)) ∧
      (found = true ↔ ReflTransGen (Feeds p.cables) start goal) := by
  intro p o
  have hp : p.Sound := (sound_empty catalog).after edits
  have hcases : (∃ c, p.Legal source outlet target inlet c ∧ o.ending = .done c.inlet ∧
        o.state = { p with cables := p.cables ++ [c] }) ∨
      ∃ e, p.Refusal source outlet target inlet e ∧ o.ending = .refused e ∧ o.state = p := by
    rcases legal_or_refused p source outlet target inlet with ⟨c, hc⟩ | ⟨e, he⟩
    · exact Or.inl ⟨c, hc, hc.connect hp⟩
    · exact Or.inr ⟨e, he, he.connect hp⟩
  refine ⟨fun found q => ⟨?_, ?_⟩, fun e q => ⟨?_, ?_⟩, fun f hf => ?_, fun goal start =>
    wouldCycle_searches hp.endsBelow goal start.isLt⟩
  · rintro ⟨hdone, rfl⟩
    rcases hcases with ⟨c, hc, hending, hstate⟩ | ⟨e, _, hending, _⟩
    · cases hending.symm.trans hdone
      exact ⟨c, hc, rfl, hstate⟩
    · cases hending.symm.trans hdone
  · rintro ⟨c, hc, rfl, rfl⟩
    exact hc.connect hp
  · rintro ⟨hrefused, rfl⟩
    rcases hcases with ⟨c, _, hending, _⟩ | ⟨e', he', hending, hstate⟩
    · cases hending.symm.trans hrefused
    · cases hending.symm.trans hrefused
      exact ⟨he', hstate⟩
  · rintro ⟨he, rfl⟩
    exact he.connect hp
  · rcases hcases with ⟨c, _, hending, _⟩ | ⟨e, _, hending, _⟩
    · cases hending.symm.trans hf
    · cases hending.symm.trans hf

end Patch

end Patchbay
