import Patchbay.Proofs.CutoffSound
import Patchbay.Proofs.InletSound

/-!
# Messages by way of a bus

A message for a control may be handed over directly, published on a bus where nobody else listens,
or go through a `send` that is bound to that bus. The ways start at different depths; beyond their
first steps only the cut-off could tell them apart.
-/

namespace Patchbay

variable {R : Type}

namespace Engine

section
variable {F : Family R} {e : Engine F} {n : NodeId} {live : Live F}

theorem setState_self (hlive : e.nodes[n]? = some live) : e.setState n live.state = e := by
  have hnodes : (e.setState n live.state).nodes = e.nodes := by
    refine List.ext_getElem? fun k => ?_
    rw [getElem?_setState]
    by_cases hk : n = k
    · subst hk
      simp [hlive]
    · simp [hk]
  calc e.setState n live.state = { e with nodes := (e.setState n live.state).nodes } := rfl
    _ = e := by rw [hnodes]

/-- What follows a handler does not depend on how its run is noted. -/
theorem absorb_andThen (e : Engine F) (n : NodeId) (h : Handled R F.State)
    (f : Engine F → Progress R (Engine F)) : ∃ after heard fault, ∀ first,
      (e.absorb n first h).andThen f = ⟨after, first :: heard, fault⟩ := by
  cases hfault : h.fault with
  | some fault =>
    exact ⟨e.setState n h.state, h.notices.map .notice, some fault,
      fun first => by simp [absorb, Progress.andThen, hfault]⟩
  | none =>
    let rest := f (e.setState n h.state)
    exact ⟨rest.state, h.notices.map .notice ++ rest.events, rest.fault,
      fun first => by simp [absorb, Progress.andThen, hfault, rest]⟩

/-- A delivery does the same wherever the message came from. -/
theorem deliver_from_anywhere [Zero R] (hlive : e.nodes[n]? = some live) (room : Nat)
    (inlet : PortId) (msg : Message R) : ∃ after heard fault, ∀ origin,
      deliver (room + 1) origin n inlet msg e =
        ⟨after, .delivered origin n inlet msg :: heard, fault⟩ := by
  simp only [deliver, hlive]
  obtain ⟨after, heard, fault, hall⟩ := e.absorb_andThen n
    (F.message live.state inlet msg e.sampleRate) (Progress.each (applyWith (deliver room) n)
      (F.message live.state inlet msg e.sampleRate).emissions)
  exact ⟨after, heard, fault, fun origin => hall _⟩

theorem publishWith_only (d : Deliver F) (publisher : Option NodeId) {bus : String}
    {sub : Subscriber} (hsub : e.buses.subscribers bus = [sub]) (msg : Message R) :
    publishWith d publisher bus msg e = d (.bus bus publisher) sub.node sub.inlet msg e := by
  rw [publishWith, hsub]
  exact Progress.andThen_stay _

end

/-! ## Nodes that take messages at their first inlet -/

end Engine

def StandardState.Takes : StandardState R → Topology → Prop
  | control _, t | send _, t => ∃ port, t.inlet? (.regular 0) = some port ∧ port.kind = .message
  | _, _ => True

variable [Sample R]

theorem StandardState.keeps_takes :
    (standard R).Keeps fun s t => StandardState.Suits s t ∧ StandardState.Takes s t :=
  keeps.and (fun {s _} _ h => by cases s <;> exact h) (fun {s _} _ _ _ h => by cases s <;> exact h)
    (fun {s _} _ _ _ h => by cases s <;> exact h)

theorem Builtin.starts_takes {node : PatchNode (standard R)}
    (h : Builtin node.type node.args node.topology) :
    Engine.Starts (fun s t => StandardState.Suits s t ∧ StandardState.Takes s t) node := by
  intro wired d hd
  refine ⟨h.starts wired d hd, ?_⟩
  obtain ⟨id, name, raw, args, topology, type⟩ := node
  cases h with
  | control kind raw a read =>
    obtain ⟨d₀, hd₀, rfl⟩ := Blueprint.declared_of_inFamily hd rfl rfl fun _ => rfl
    exact ⟨.message 0, rfl, rfl⟩
  | send a =>
    obtain ⟨d₀, hd₀, rfl⟩ := Blueprint.declared_of_inFamily hd rfl rfl fun _ => rfl
    cases hd₀
    exact ⟨.message 0, rfl, rfl⟩
  | _ =>
    obtain ⟨d₀, hd₀, rfl⟩ := Blueprint.declared_of_inFamily hd rfl rfl fun _ => rfl
    cases hd₀
    trivial

namespace Engine

section
variable {edits : List (Edit (standard R))} (hedits : ∀ edit ∈ edits, edit.fromCatalog = true)
  {s : Schedule} (hs : (Schedule.compile (Patch.built edits)).ending = .done s) {buses : Buses}
  {fresh : Engine (standard R)} (hfresh : (link s (Patch.built edits) buses).ending = .done fresh)
include hedits hs hfresh

theorem takes_after (calls : List (Call R)) {n : NodeId} {live : Live (standard R)}
    (hlive : (fresh.after calls).nodes[n]? = some live) : live.state.Takes live.topology := by
  have hlinks := (Schedule.compile_done (Patch.sound_built edits) hs).1
  have hstart := hosts_link
    (fun node hnode => ((Patch.standard_built hedits).nodes node hnode).starts_takes) hfresh
  have hhosts := (Hosts.closed StandardState.keeps_takes hlinks).after hstart calls
  obtain ⟨node, _, htopology, _, htakes⟩ := hhosts.nodes n live hlive
  rwa [htopology]

end

/-- A message sent to a node that takes it at inlet 0 is delivered there. -/
theorem perform_send {F : Family R} {e : Engine F} (hconfig : e.config.isSome = true) {n : NodeId}
    {live : Live F} (hlive : e.nodes[n]? = some live) {port : Port}
    (hport : live.topology.inlet? (.regular 0) = some port) (hkind : port.kind = .message)
    (msg : Message R) : e.perform (.send n (.regular 0) msg) =
      ofProgress (deliver (maxDepth + 1) .outside n (.regular 0) msg e) :=
  perform_send_to hconfig hlive (by simp [messageInlet?, hport, hkind]) msg

/-- A `send` that is bound to a bus hands on what it gets, and is left as it was. -/
theorem deliver_to_send {e : Engine (standard R)} {k : NodeId} {live : Live (standard R)}
    (hlive : e.nodes[k]? = some live) {bus : String} (hbound : live.state = .send ⟨some bus⟩)
    (room : Nat) (origin : Origin) (msg : Message R) :
    deliver (room + 1) origin k (.regular 0) msg e =
      let p := publishWith (deliver room) (some k) bus msg e
      ⟨p.state, .delivered origin k (.regular 0) msg :: p.events, p.fault⟩ := by
  have hhandled : StandardState.message live.state (.regular 0) msg e.sampleRate =
      ⟨live.state, [.publish bus msg], [], none⟩ := by
    rw [hbound]
    rfl
  simp only [deliver, hlive, hhandled, absorb, setState_self hlive, Progress.each,
    Progress.andThen_stay]
  rfl

/-! ## The three ways -/

/-- A control hears a message alike in three ways: handed over directly, published on a bus that it
alone listens on, or sent to a `send` which is bound to that bus, as long as nothing is cut off on
the longest of them. The engine is left the same, and the same happens on the way there. -/
theorem heard_alike_by_bus [LawfulSample R] {edits : List (Edit (standard R))}
    (hedits : ∀ edit ∈ edits, edit.fromCatalog = true) :
    ∃ s, (Schedule.compile (Patch.built edits)).ending = .done s ∧
      ∀ buses, ∃ fresh, (link s (Patch.built edits) buses).ending = .done fresh ∧
        ∀ calls, let e := fresh.after calls
          e.config.isSome = true → ∀ n c bus, e.control? n = some c →
            e.buses.subscribers bus = [⟨n, .regular 0⟩] → ∀ msg, ∃ after heard ending,
              e.perform (.send n (.regular 0) msg) =
                ⟨after, .delivered .outside n (.regular 0) msg :: heard, ending⟩ ∧
              e.perform (.publish bus msg) =
                ⟨after, .delivered (.bus bus none) n (.regular 0) msg :: heard, ending⟩ ∧
              ∀ k live, e.nodes[k]? = some live → live.state = .send ⟨some bus⟩ →
                Uncut (e.perform (.send k (.regular 0) msg)).events →
                  e.perform (.send k (.regular 0) msg) =
                    ⟨after, .delivered .outside k (.regular 0) msg ::
                      .delivered (.bus bus (some k)) n (.regular 0) msg :: heard, ending⟩ := by
  have hp := Patch.sound_built edits
  have hstd := Patch.standard_built hedits
  obtain ⟨s, hs⟩ := Schedule.compile_standard hp hstd
  refine ⟨s, hs, fun buses => ?_⟩
  obtain ⟨fresh, hfresh⟩ := link_total hp hstd (Schedule.compile_done hp hs).1 buses
  refine ⟨fresh, hfresh, fun calls => ?_⟩
  intro e hconfig n c bus hc hsub msg
  obtain ⟨live, hlive, hcontrol⟩ := Option.bind_eq_some_iff.mp hc
  have htakes := takes_after hedits hs hfresh calls hlive
  rw [StandardState.eq_control hcontrol] at htakes
  obtain ⟨port, hport, hkind⟩ := htakes
  obtain ⟨after, heard, fault, hall⟩ := deliver_from_anywhere hlive maxDepth (.regular 0) msg
  refine ⟨after, heard, (ofProgress ⟨after, heard, fault⟩).ending, ?_, ?_,
    fun k sender hsender hbound huncut => ?_⟩
  · rw [perform_send hconfig hlive hport hkind, hall]
    rfl
  · have hconfigured : e.config.isNone = false := by simpa using hconfig
    simp only [perform, publish, hconfigured, publishWith_only _ _ hsub, hall, unlessRefused]
    rfl
  · have htakes := takes_after hedits hs hfresh calls hsender
    rw [hbound] at htakes
    obtain ⟨port, hport, hkind⟩ := htakes
    rw [perform_send hconfig hsender hport hkind, deliver_to_send hsender hbound,
      publishWith_only _ _ hsub] at huncut ⊢
    -- with nothing cut off, one level more of room makes no difference
    have hshift := agrees_deliver (Nat.le_succ maxDepth) (.bus bus (some k)) n (.regular 0) msg e
      (fun event hevent => huncut event (List.mem_cons_of_mem _ hevent))
    dsimp only
    rw [← hshift, hall]
    rfl

/-- A list box that feeds itself through a router, and a `send` to the bus that it listens on. -/
theorem heard_alike_by_bus_feedback :
    let edits : List (Edit (standard Float)) :=
      [.add "listbox" [.float 0, .float 0, .symbol "A", .symbol "B"], .add "route" [.symbol "x"],
        .add "send" [], .connect 0 0 1 (.regular 0), .connect 1 0 0 (.regular 0)]
    let calls : List (Call Float) :=
      [.configure ⟨44100, 64, 1⟩, .listen 0 0, .send 2 (.regular 1) [.symbol "A"]]
    let msg : Message Float := [.symbol "x", .symbol "send", .symbol "C"]
    (∀ edit ∈ edits, edit.fromCatalog = true) ∧
      ∃ s fresh, (Schedule.compile (Patch.built edits)).ending = .done s ∧
        (link s (Patch.built edits) .empty).ending = .done fresh ∧
        ∃ c live after heard ending, let e := fresh.after calls
          e.config.isSome = true ∧ e.control? 0 = some c ∧
          e.buses.subscribers "A" = [⟨0, .regular 0⟩] ∧
          e.nodes[2]? = some live ∧ live.state = .send ⟨some "A"⟩ ∧
          Uncut (e.perform (.send 2 (.regular 0) msg)).events ∧
          e.perform (.send 0 (.regular 0) msg) =
            ⟨after, .delivered .outside 0 (.regular 0) msg :: heard, ending⟩ ∧
          e.perform (.publish "A" msg) =
            ⟨after, .delivered (.bus "A" none) 0 (.regular 0) msg :: heard, ending⟩ ∧
          e.perform (.send 2 (.regular 0) msg) = ⟨after, .delivered .outside 2 (.regular 0) msg ::
            .delivered (.bus "A" (some 2)) 0 (.regular 0) msg :: heard, ending⟩ := by
  intro edits calls msg
  have hedits : ∀ edit ∈ edits, edit.fromCatalog = true := by simp [edits, Edit.fromCatalog]
  obtain ⟨s, hs, hlinked⟩ := heard_alike_by_bus hedits
  obtain ⟨fresh, hfresh, hall⟩ := hlinked .empty
  obtain ⟨c, live, hconfig, hc, hsub, hlive, hstate, huncut⟩ : ∃ c live,
      (fresh.after calls).config.isSome = true ∧ (fresh.after calls).control? 0 = some c ∧
      (fresh.after calls).buses.subscribers "A" = [⟨0, .regular 0⟩] ∧
      (fresh.after calls).nodes[2]? = some live ∧ live.state = .send ⟨some "A"⟩ ∧
      Uncut ((fresh.after calls).perform (.send 2 (.regular 0) msg)).events := by
    obtain rfl := Ending.done.inj (hs.symm.trans (rfl : _ = Ending.done _))
    obtain rfl := Ending.done.inj (hfresh.symm.trans (rfl : _ = Ending.done _))
    exact ⟨_, _, rfl, rfl, by decide +kernel, rfl, rfl, by decide +kernel⟩
  obtain ⟨after, heard, ending, hdirect, hpublished, hsent⟩ :=
    hall calls hconfig 0 c "A" hc hsub msg
  exact ⟨hedits, s, fresh, hs, hfresh, c, live, after, heard, ending, hconfig, hc, hsub, hlive,
    hstate, huncut, hdirect, hpublished, hsent 2 live hlive hstate huncut⟩

end Engine

end Patchbay
