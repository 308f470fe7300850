import Patchbay.Proofs.PatchSound

/-!
# Patches of built-in nodes

A patch that takes its types from the built-in catalog holds nodes of eight kinds, each with a known
set of ports. Signal inlets are never shadows among them.
-/

namespace Patchbay

/-! ## Catalogs -/

namespace Catalog

variable {R : Type} {F : Family R}

theorem get_ok {c : Catalog F} {name : String} {type : NodeType F} :
    c.get name = .ok type ↔ c.types[name]? = some type := by
  unfold get
  cases c.types[name]? <;> simp

theorem mem_of_register {types : List (String × NodeType F)} :
    ∀ {c : Catalog F} {name : String} {type : NodeType F},
      (types.foldl (fun c (name, t) => (c.register name t).1) c).types[name]? = some type →
        (name, type) ∈ types ∨ c.types[name]? = some type := by
  induction types with
  | nil => exact fun h => Or.inr h
  | cons entry types ih =>
    intro c name type h
    rcases ih h with h | h
    · exact Or.inl (List.mem_cons_of_mem _ h)
    · simp only [register, Std.TreeMap.getElem?_insert] at h
      split at h
      · rename_i heq
        cases h
        rw [← Std.LawfulEqCmp.eq_of_compare heq]
        exact Or.inl (by simp)
      · exact Or.inr h

theorem mem_of_get {types : List (String × NodeType F)} {name : String} {type : NodeType F}
    (h : (ofList types).get name = .ok type) : (name, type) ∈ types := by
  rcases mem_of_register (get_ok.mp h) with h | h
  · exact h
  · simp [empty] at h

end Catalog

/-! ## Node types within a family -/

section
variable {R A σ : Type} {F : Family R} {b : Blueprint R A σ} {wrap : A → F.Args}
  {unwrap : F.Args → Option A} {embed : σ → F.State} {type : NodeType F}

theorem Blueprint.read_of_inFamily {raw : List (Token R)} {args : F.Args}
    (hargs : type.readArgs raw = .ok args) (ht : type = b.inFamily F wrap unwrap embed)
    (hu : ∀ a, unwrap (wrap a) = some a) :
    ∃ a, b.readArgs raw = .ok a ∧ args = wrap a ∧ type.build args = b.build a := by
  subst ht
  simp only [inFamily] at hargs ⊢
  cases ha : b.readArgs raw with
  | error e => simp [ha, Except.map] at hargs
  | ok a =>
    simp only [ha, Except.map, Except.ok.injEq] at hargs
    subst hargs
    exact ⟨a, rfl, rfl, by rw [hu]⟩

theorem Blueprint.declared_of_inFamily {args : F.Args} {wired : Wired} {d : Declared F.State}
    (hd : (type.declare args wired).ending = .done d)
    (ht : type = b.inFamily F wrap unwrap embed) {a : A} (hargs : args = wrap a)
    (hu : ∀ a, unwrap (wrap a) = some a) :
    ∃ d₀, (b.declare a wired).ending = .done d₀ ∧ d = d₀.map embed := by
  subst ht hargs
  simp only [inFamily, hu, Traced.bind_done, Traced.ending_pure, Ending.done.injEq] at hd
  obtain ⟨d₀, hd₀, rfl⟩ := hd
  exact ⟨d₀, hd₀, rfl⟩

end

/-! ## The built-in types -/

variable {R : Type} [Sample R]

inductive Builtin : NodeType (standard R) → StandardArgs R → Topology → Prop
  | filter (kind : FilterKind) (a : FilterArgs R) :
    Builtin (Standard.filter kind) (.filter a) Filter.topology
  | oscillator (kind : OscillatorKind) (a : OscillatorArgs R) :
    Builtin (Standard.oscillator kind) (.oscillator a) Oscillator.topology
  | constant (a : ConstantArgs R) : Builtin Standard.constant (.constant a) Constant.topology
  | control (kind : ControlKind) (raw : List (Token R)) (a : ControlArgs R)
    (read : Control.readArgs kind raw = .ok a) :
    Builtin (Standard.control kind) (.control a) (Control.topology a)
  | route (a : RouteArgs R) : Builtin Standard.route (.route a) (Route.topology a)
  | print (a : PrintArgs) : Builtin Standard.print (.print a) Print.topology
  | send (a : SendArgs) : Builtin Standard.send (.send a) Send.topology
  | receive (a : ReceiveArgs) : Builtin Standard.receive (.receive a) Receive.topology

omit [Sample R] in
theorem Route.topology_uniqueIds (a : RouteArgs R) : (Route.topology a).uniqueIds = true := by
  simp only [Topology.uniqueIds, Bool.and_eq_true, Topology.distinctIds_iff]
  refine ⟨?_, ?_⟩
  · unfold Route.topology
    dsimp only
    split <;> decide
  · simp only [Route.topology, List.map_map]
    refine List.nodup_range.map fun i j h => ?_
    simpa [Port.message, PortId.regular] using h

omit [Sample R] in
theorem Route.outlet?_topology (a : RouteArgs R) {i : Nat} (hi : i < a.filters.length + 1) :
    (topology a).outlet? i = some (.message i) := by
  have hfind : (List.range (a.filters.length + 1)).find?
      ((·.id == PortId.regular i) ∘ Port.message) = some i := by
    rw [List.find?_range_eq_some]
    refine ⟨beq_self_eq_true _, List.mem_range.mpr hi, fun j hj => ?_⟩
    have hne : PortId.regular j ≠ PortId.regular i := fun h => hj.ne (PortId.mk.inj h).1
    simpa [Port.message] using hne
  rw [Topology.outlet?, topology, List.find?_map, hfind]
  rfl

theorem Route.build_argsOf (raw : List (Token R)) :
    (Route.build (Route.argsOf raw)).ending = .done (Route.topology (Route.argsOf raw)) := by
  refine Traced.bind_done.mpr ⟨(), Invariant.check_done.mpr ?_, rfl⟩
  have hpos : 1 ≤ (Route.argsOf raw).filters.length := by
    unfold Route.argsOf
    split
    · exact Nat.le_refl 1
    · rename_i h
      exact List.length_pos_iff.mpr (by simpa using h)
  simp [Route.topology]
  omega

theorem Standard.builds {name : String} {type : NodeType (standard R)}
    (htype : (name, type) ∈ Standard.types) {raw : List (Token R)} {args : StandardArgs R}
    (hargs : type.readArgs raw = .ok args) :
    ∃ t, (type.build args).ending = .done t ∧ t.uniqueIds = true ∧ Builtin type args t := by
  simp only [Standard.types, List.mem_append, List.mem_map, List.mem_cons, List.not_mem_nil,
    or_false, Prod.mk.injEq] at htype
  rcases htype with ((⟨kind, _, rfl, rfl⟩ | ⟨kind, _, rfl, rfl⟩) | ⟨kind, _, rfl, rfl⟩) |
    ⟨rfl, rfl⟩ | ⟨rfl, rfl⟩ | ⟨rfl, rfl⟩ | ⟨rfl, rfl⟩ | ⟨rfl, rfl⟩
  all_goals
    obtain ⟨a, ha, rfl, hb⟩ := Blueprint.read_of_inFamily hargs rfl fun _ => rfl
    rw [hb]
  · exact ⟨_, rfl, by decide, .filter kind a⟩
  · exact ⟨_, rfl, by decide, .oscillator kind a⟩
  · exact ⟨_, rfl, rfl, .control kind raw a ha⟩
  · cases ha
    exact ⟨_, Route.build_argsOf raw, Route.topology_uniqueIds _, .route _⟩
  · exact ⟨_, rfl, by decide, .print a⟩
  · exact ⟨_, rfl, by decide, .send a⟩
  · exact ⟨_, rfl, by decide, .receive a⟩
  · exact ⟨_, rfl, by decide, .constant a⟩

theorem Builtin.of_made {name : String} {type : NodeType (standard R)} {raw : List (Token R)}
    {args : StandardArgs R} {topology : Topology} (htype : (name, type) ∈ Standard.types)
    (hargs : type.readArgs raw = .ok args) (hbuild : (type.build args).ending = .done topology) :
    Builtin type args topology := by
  obtain ⟨t, ht, _, h⟩ := Standard.builds htype hargs
  cases ht.symm.trans hbuild
  exact h

theorem Builtin.inlet_regular {type : NodeType (standard R)} {args : StandardArgs R}
    {topology : Topology} (h : Builtin type args topology) :
    ∀ port ∈ topology.inlets, port.isSignal = true → port.id.shadow = false := by
  cases h with
  | route a =>
    unfold Route.topology
    split <;> simp [Port.message, Port.isSignal]
  | _ => simp [Filter.topology, Oscillator.topology, Constant.topology, Control.topology,
      Print.topology, Send.topology, Receive.topology, Port.message, Port.signal,
      Port.messageShadow, Port.isSignal, PortId.regular]

/-! ## Patches -/

structure Patch.Standard (p : Patch (standard R)) : Prop where
  catalog : p.catalog = .standard R
  nodes : ∀ node ∈ p.nodes, Builtin node.type node.args node.topology

namespace Patch

theorem standard_empty : (Patch.empty (.standard R)).Standard where
  catalog := rfl
  nodes _ h := by cases h

theorem Standard.perform {p : Patch (standard R)} (hp : p.Standard) {edit : Edit (standard R)}
    (hedit : edit.fromCatalog = true) : (p.perform edit).state.Standard := by
  rcases perform_cases p edit with
    hs | ⟨_, ⟨name, type, raw, node, hget, hnode, hs⟩ | ⟨_, _, _, _, c, _, hs⟩⟩
  · rw [hs]; exact hp
  · rw [hs]
    refine ⟨hp.catalog, fun n hn => ?_⟩
    rcases List.mem_append.mp hn with hn | hn
    · exact hp.nodes n hn
    · rw [List.mem_singleton] at hn
      subst hn
      obtain ⟨args, topology, hargs, hbuild, _, rfl⟩ := makeNode_done.mp hnode
      have hmem := hp.catalog ▸ hget hedit
      exact .of_made (Catalog.mem_of_get hmem) hargs hbuild
  · rw [hs]; exact ⟨hp.catalog, hp.nodes⟩

theorem Standard.after {p : Patch (standard R)} (hp : p.Standard) {edits : List (Edit (standard R))}
    (hedits : ∀ edit ∈ edits, edit.fromCatalog = true) : (p.after edits).Standard := by
  induction edits generalizing p with
  | nil => exact hp
  | cons edit edits ih =>
    exact ih (hp.perform (hedits edit (by simp))) fun e he => hedits e (List.mem_cons_of_mem _ he)

def built (edits : List (Edit (Patchbay.standard R))) : Patch (Patchbay.standard R) :=
  (Patch.empty (.standard R)).after edits

theorem sound_built (edits : List (Edit (Patchbay.standard R))) : (built edits).Sound :=
  (sound_empty _).after edits

theorem standard_built {edits : List (Edit (Patchbay.standard R))}
    (hedits : ∀ edit ∈ edits, edit.fromCatalog = true) : (built edits).Standard :=
  standard_empty.after hedits

end Patch

end Patchbay
