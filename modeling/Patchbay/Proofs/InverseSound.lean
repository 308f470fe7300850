import Mathlib.Tactic.Ring
import Patchbay.Sample.Exact
import Patchbay.Proofs.FilterSound
import Patchbay.Proofs.RunTicks

/-!
# A pole and a zero undo each other

Counted without rounding, a pole and a zero with the same coefficients undo each other in either
order, for the last input of the zero is the last output of the pole. Wired up they do so within the
tick.
-/

namespace Patchbay

/-! ## Filters in a patch -/

theorem Standard.filter_of_name {R : Type} [Sample R] {kind : FilterKind}
    {type : NodeType (standard R)} (h : (kind.name, type) ∈ Standard.types) :
    type = Standard.filter kind := by
  simp only [Standard.types, List.mem_append, List.mem_map, List.mem_cons, List.not_mem_nil,
    or_false, Prod.mk.injEq] at h
  rcases h with ((⟨other, _, hname, rfl⟩ | ⟨other, _, hname, rfl⟩) | ⟨other, _, hname, rfl⟩) |
    ⟨hname, rfl⟩ | ⟨hname, rfl⟩ | ⟨hname, rfl⟩ | ⟨hname, rfl⟩ | ⟨hname, rfl⟩
  · obtain rfl : other = kind := by
      cases other <;> cases kind <;> first | rfl | exact absurd hname (by decide)
    rfl
  · cases other <;> cases kind <;> exact absurd hname (by decide)
  · cases other <;> cases kind <;> exact absurd hname (by decide)
  all_goals cases kind <;> exact absurd hname (by decide)

namespace Engine

section
variable {R : Type} [Sample R] {s : Schedule} {p : Patch (standard R)} {e e' : Engine (standard R)}
  {n : NodeId}

def coefficientAt? (p : Patch (standard R)) (n : NodeId) (e e' : Engine (standard R)) :
    Option R := do
  let state ← e.state? n
  let config ← e.config
  let x ← e'.inflow? p n 0
  let v ← e'.inflow? p n 1
  state.coefficient? (.tick [x, v] [] config.sampleRate)

theorem inflow?_of_wire {F : Family R} {p : Patch F} {i : Nat} {o : Outlet}
    (h : (p.wires n i).map Cable.source = [o]) (e : Engine F) :
    e.inflow? p n i = (e.signal? o.node o.index).map (0 + ·) := by
  obtain ⟨c, hc, hsource⟩ := List.map_eq_singleton_iff.mp h
  subst hsource
  unfold inflow?
  rw [hc]
  cases hx : e.signal? c.fromNode c.outlet with
  | none => simp [Cable.source, hx]
  | some x => simp [Cable.source, hx]

/-- A filter that is scheduled takes a step of its recurrence in a tick. -/
theorem Beat.filter (h : Beat StandardState.Suits s p e e') (hn : n ∈ s.order)
    {f : FilterState R} (hf : e.state? n = some (.filter f)) :
    ∃ x c, e'.inflow? p n 0 = some x ∧ coefficientAt? p n e e' = some c ∧
      e'.signal? n 0 = some (f.step x c).lastOutput ∧
      e'.state? n = some (.filter (f.step x c)) := by
  obtain ⟨config, hconfig, hsteps⟩ := h.steps
  obtain ⟨node, live, inputs, st, hnode, hlive, hinputs, htick, hnext⟩ := hsteps n hn
  have hstate : live.state = .filter f := by simpa [state?, hlive] using hf
  have htopology : node.topology = Filter.topology := by
    have hsuits := h.hosts.suits hlive hnode
    rwa [hstate] at hsuits
  rw [htopology] at hinputs htick
  obtain ⟨x, v, rfl⟩ := List.length_eq_two.mp (show inputs.length = 2 by
    simpa using congrArg List.length hinputs)
  obtain ⟨hx, hv⟩ : some x = e'.inflow? p n 0 ∧ some v = e'.inflow? p n 1 := by
    simpa [List.range_succ] using hinputs
  obtain ⟨c, -, hc⟩ := f.exists_coefficient x v config.sampleRate
  have hrun : ⟨.filter (f.step x c), [(f.step x c).lastOutput], none⟩ =
      (⟨st, e'.samples n, none⟩ : Ticked R (StandardState R)) := by
    rw [← htick [0] rfl, hstate]
    exact (congrArg (Ticked.map StandardState.filter) (f.tick_eq 0 hc)).symm
  injection hrun with hst hsamples
  refine ⟨x, c, hx.symm, ?_, ?_, ?_⟩
  · simp only [coefficientAt?, hf, hconfig, ← hx, ← hv]
    exact hc
  · rw [signal?_eq, ← hsamples]
    rfl
  · simp [state?, hnext, hst]

/-- A filter that was built from the catalog starts at rest, and is scheduled. -/
theorem filter_at_rest {edits : List (Edit (standard R))}
    (hedits : ∀ edit ∈ edits, edit.fromCatalog = true)
    (hs : (Schedule.compile (Patch.built edits)).ending = .done s) {buses : Buses}
    {fresh : Engine (standard R)} (hlink : (link s (Patch.built edits) buses).ending = .done fresh)
    {node : PatchNode (standard R)} (hnode : (Patch.built edits).node? n = some node)
    (kind : FilterKind) (hname : node.typeName = kind.name) :
    n ∈ s.order ∧ ∃ mode v, fresh.state? n = some (.filter ⟨kind, mode, v, 0, 0, 0⟩) := by
  have hp : (Patch.built edits).Sound := Patch.sound_built edits
  have hlinks := (Schedule.compile_done hp hs).1
  have hcatalog : (Patch.built edits).catalog = .standard R := (Patch.standard_built hedits).catalog
  have hcatalogued : (Patch.built edits).Catalogued := (Patch.catalogued_empty _).after hedits
  obtain ⟨hget, hargs⟩ := hcatalogued node (Patch.node?_mem hnode)
  have htype : node.type = Standard.filter kind := by
    rw [hcatalog, hname] at hget
    exact Standard.filter_of_name (Catalog.mem_of_get hget)
  rw [htype] at hargs
  obtain ⟨a, -, hwrap, -⟩ := Blueprint.read_of_inFamily hargs rfl fun _ => rfl
  obtain ⟨live, d, hlive, hd, hstate⟩ := link_declared hlink hnode
  obtain ⟨wired, -, hd⟩ := Traced.bind_done.mp hd
  rw [htype, hwrap] at hd
  have hrest : ∃ mode v, live.state = .filter ⟨kind, mode, v, 0, 0, 0⟩ := by
    cases hd
    exact ⟨_, _, hstate⟩
  obtain ⟨mode, v, hrest⟩ := hrest
  refine ⟨?_, mode, v, by simp [state?, hlive, hrest]⟩
  have htopology : node.topology = Filter.topology := by
    have hsuits := (hosts_after hedits hs hlink []).suits hlive hnode
    rwa [hrest] at hsuits
  refine hlinks.perm.mem_iff.mpr (List.mem_filter.mpr ⟨?_, ?_⟩)
  · exact List.mem_range.mpr (Patch.node?_lt hnode)
  · rw [Patch.carriesSignal, hnode, Option.any_some, htopology]
    rfl

end

end Engine

variable [Tuning]

/-! ## One step and many -/

namespace FilterKind

theorem recurrence_rzero_rpole (x c x₁ y₁ z₁ : ℚ) :
    rzero.recurrence (rpole.recurrence x c x₁ y₁) c y₁ z₁ = x := by
  simp only [recurrence]
  ring

theorem recurrence_rpole_rzero (x c x₁ y₁ z₁ : ℚ) :
    rpole.recurrence (rzero.recurrence x c y₁ z₁) c x₁ y₁ = x := by
  simp only [recurrence]
  ring

/-- A zero undoes a pole whose last output it has heard last. -/
theorem play_rzero_rpole : ∀ (xs cs : List ℚ) (x₁ y₁ z₁ : ℚ), xs.length = cs.length →
    rzero.play y₁ z₁ ((rpole.play x₁ y₁ (xs.zip cs)).zip cs) = xs
  | [], _, _, _, _, _ => rfl
  | _ :: _, [], _, _, _, h => by cases h
  | x :: xs, c :: cs, x₁, y₁, z₁, h => by
    simp only [List.zip_cons_cons, play, recurrence_rzero_rpole]
    rw [play_rzero_rpole xs cs _ _ _ (Nat.succ.inj h)]

/-- A pole undoes a zero that has heard last what the pole put out last. -/
theorem play_rpole_rzero : ∀ (xs cs : List ℚ) (x₁ y₁ z₁ : ℚ), xs.length = cs.length →
    rpole.play x₁ y₁ ((rzero.play y₁ z₁ (xs.zip cs)).zip cs) = xs
  | [], _, _, _, _, _ => rfl
  | _ :: _, [], _, _, _, h => by cases h
  | x :: xs, c :: cs, x₁, y₁, z₁, h => by
    simp only [List.zip_cons_cons, play, recurrence_rpole_rzero]
    rw [play_rpole_rzero xs cs _ _ _ (Nat.succ.inj h)]

end FilterKind

/-- Fed with what the other puts out, a pole and a zero put out what came in there. -/
theorem StandardState.played_inverse {f g : FilterState ℚ} (hpole : f.kind = .rpole)
    (hzero : g.kind = .rzero) (hlast : g.lastInput = f.lastOutput) {σ τ : List (Stimulus ℚ)}
    (hfits : ∀ stimulus ∈ σ ++ τ, stimulus.Fits Filter.topology)
    (hsame : coefficients (filter f) σ = coefficients (filter g) τ) :
    (heard 0 τ = (standard ℚ).played 0 (filter f) σ →
      (standard ℚ).played 0 (filter g) τ = heard 0 σ) ∧
    (heard 0 σ = (standard ℚ).played 0 (filter g) τ →
      (standard ℚ).played 0 (filter f) σ = heard 0 τ) := by
  obtain ⟨hσ, hτ⟩ := List.forall_mem_append.mp hfits
  obtain ⟨hlengthσ, hplayedσ⟩ := played_filter f hσ
  obtain ⟨hlengthτ, hplayedτ⟩ := played_filter g hτ
  rw [hpole] at hplayedσ
  rw [hzero, hlast, ← hsame] at hplayedτ
  constructor
  · intro hfed
    rw [hplayedτ, hfed, hplayedσ]
    exact FilterKind.play_rzero_rpole _ _ _ _ _ hlengthσ.symm
  · intro hfed
    rw [hplayedσ, hfed, hplayedτ]
    exact FilterKind.play_rpole_rzero _ _ _ _ _ (hsame ▸ hlengthτ.symm)

/-! ## Wired up -/

namespace Engine

def Coupled (m n : NodeId) (e : Engine (standard ℚ)) : Prop :=
  ∃ f g : FilterState ℚ, e.state? m = some (.filter f) ∧ e.state? n = some (.filter g) ∧
    f.kind = .rpole ∧ g.kind = .rzero ∧ g.lastInput = f.lastOutput

namespace Coupled

variable {m n : NodeId} {e e' : Engine (standard ℚ)}

theorem tended (h : Coupled m n e) (htended : ∀ k, Tended k e e') : Coupled m n e' := by
  obtain ⟨f, g, hf, hg, hpole, hzero, hlast⟩ := h
  have hafter : ∀ {k : NodeId} {f : FilterState ℚ}, e.state? k = some (.filter f) →
      ∃ c, e'.state? k = some (.filter { f with coefficient := c }) := by
    intro k f hf
    obtain ⟨life, hcalm, hstate⟩ := htended k
    obtain ⟨c, hc⟩ := f.after_calm hcalm
    exact ⟨c, by rw [hstate, hf, Option.map_some, hc]⟩
  obtain ⟨c, hf'⟩ := hafter hf
  obtain ⟨c', hg'⟩ := hafter hg
  exact ⟨_, _, hf', hg', hpole, hzero, hlast⟩

variable {s : Schedule} {p : Patch (standard ℚ)} (h : Coupled m n e)
  (hbeat : Beat StandardState.Suits s p e e') (hm : m ∈ s.order) (hn : n ∈ s.order)
  (hcoefficient : coefficientAt? p m e e' = coefficientAt? p n e e')
include h hbeat hm hn hcoefficient

/-- Behind the pole the zero puts out what comes in before it, and remembers what it heard. -/
theorem zero_behind_pole (hwire : (p.wires n 0).map Cable.source = [⟨m, 0⟩]) :
    (∃ x, e'.inflow? p m 0 = some x ∧ e'.signal? n 0 = some x) ∧ Coupled m n e' := by
  obtain ⟨f, g, hf, hg, hpole, hzero, hlast⟩ := h
  obtain ⟨x, c, hx, hc, hy, hf'⟩ := hbeat.filter hm hf
  obtain ⟨y, c', hin, hc', hz, hg'⟩ := hbeat.filter hn hg
  rw [inflow?_of_wire hwire, hy, Option.map_some, Option.some.injEq, zero_add] at hin
  rw [hc, hc', Option.some.injEq] at hcoefficient
  subst hin hcoefficient
  refine ⟨⟨x, hx, ?_⟩, _, _, hf', hg', hpole, hzero, rfl⟩
  rw [hz]
  simp only [FilterState.step, hpole, hzero, hlast, FilterKind.recurrence_rzero_rpole]

/-- Behind the zero the pole puts out what comes in before it, which the zero remembers. -/
theorem pole_behind_zero (hwire : (p.wires m 0).map Cable.source = [⟨n, 0⟩]) :
    (∃ x, e'.inflow? p n 0 = some x ∧ e'.signal? m 0 = some x) ∧ Coupled m n e' := by
  obtain ⟨f, g, hf, hg, hpole, hzero, hlast⟩ := h
  obtain ⟨z, c, hin, hc, hy, hf'⟩ := hbeat.filter hm hf
  obtain ⟨x, c', hx, hc', hz, hg'⟩ := hbeat.filter hn hg
  rw [inflow?_of_wire hwire, hz, Option.map_some, Option.some.injEq, zero_add] at hin
  rw [hc, hc', Option.some.injEq] at hcoefficient
  subst hin hcoefficient
  have hback : (f.step (g.step x c).lastOutput c).lastOutput = x := by
    simp only [FilterState.step, hpole, hzero, hlast, FilterKind.recurrence_rpole_rzero]
  exact ⟨⟨x, hx, hback ▸ hy⟩, _, _, hf', hg', hpole, hzero, hback.symm⟩

end Coupled

end Engine

/-- A pole and a zero, both at rest, undo each other in either order, if the same coefficients are in
force at their ticks: fed with what the other puts out, each puts out what came in there. If one is
wired to the other alone, and both always tick with the same coefficient, they do so at every tick
of the run, at the sample that comes in in this tick. -/
theorem Standard.pole_and_zero_undo_each_other :
    (∀ {raw raw' : List (Token ℚ)} {args args' : StandardArgs ℚ},
      (Standard.filter .rpole).readArgs raw = .ok args →
      (Standard.filter .rzero).readArgs raw' = .ok args' → ∀ wired wired' : Wired,
      ∃ pole zero, ((Standard.filter .rpole).declare args wired).ending = .done pole ∧
        ((Standard.filter .rzero).declare args' wired').ending = .done zero ∧
        ∀ σ τ : List (Stimulus ℚ), (∀ stimulus ∈ σ ++ τ, stimulus.Fits Filter.topology) →
          pole.state.coefficients σ = zero.state.coefficients τ →
          (heard 0 τ = (standard ℚ).played 0 pole.state σ →
            (standard ℚ).played 0 zero.state τ = heard 0 σ) ∧
          (heard 0 σ = (standard ℚ).played 0 zero.state τ →
            (standard ℚ).played 0 pole.state σ = heard 0 τ)) ∧
    (∀ edits : List (Edit (standard ℚ)), (∀ edit ∈ edits, edit.fromCatalog = true) →
      let p := Patch.built edits
      ∀ (s : Schedule) (buses : Buses) (fresh : Engine (standard ℚ)) (calls : List (Call ℚ)),
      (Schedule.compile p).ending = .done s → (Engine.link s p buses).ending = .done fresh →
      ∀ (m n : NodeId) (pole zero : PatchNode (standard ℚ)),
      p.node? m = some pole → pole.typeName = "rpole~" →
      p.node? n = some zero → zero.typeName = "rzero~" →
      (∀ t ∈ fresh.ticksOver calls,
        Engine.coefficientAt? p m t.1 t.2 = Engine.coefficientAt? p n t.1 t.2) →
      ((p.wires n 0).map Cable.source = [⟨m, 0⟩] → ∀ t ∈ fresh.ticksOver calls,
        ∃ x, t.2.inflow? p m 0 = some x ∧ t.2.signal? n 0 = some x) ∧
      ((p.wires m 0).map Cable.source = [⟨n, 0⟩] → ∀ t ∈ fresh.ticksOver calls,
        ∃ x, t.2.inflow? p n 0 = some x ∧ t.2.signal? m 0 = some x)) := by
  refine ⟨?_, ?_⟩
  · intro raw raw' args args' hread hread' wired wired'
    obtain ⟨a, -, rfl, -⟩ := Blueprint.read_of_inFamily hread rfl fun _ => rfl
    obtain ⟨a', -, rfl, -⟩ := Blueprint.read_of_inFamily hread' rfl fun _ => rfl
    refine ⟨(Filter.declare .rpole a wired).map .filter,
      (Filter.declare .rzero a' wired').map .filter, rfl, rfl, fun σ τ hfits hsame => ?_⟩
    exact StandardState.played_inverse rfl rfl rfl hfits hsame
  · intro edits hedits p s buses fresh calls hs hlink m n pole zero hm hpole hn hzero hsame
    obtain ⟨hmorder, mode, v, hmstate⟩ :=
      Engine.filter_at_rest hedits hs hlink hm .rpole hpole
    obtain ⟨hnorder, mode', v', hnstate⟩ :=
      Engine.filter_at_rest hedits hs hlink hn .rzero hzero
    have hcoupled : Engine.Coupled m n fresh := ⟨_, _, hmstate, hnstate, rfl, rfl, rfl⟩
    have hp : p.Sound := Patch.sound_built edits
    obtain ⟨hlinks, hleast⟩ := Schedule.compile_done hp hs
    have horder : Orders p.cables s.order s.order := ⟨.refl _, hleast.ready⟩
    have hfresh : fresh.config = none := by
      obtain ⟨_, _, -, rfl⟩ := Engine.link_done hlink
      rfl
    have hrun : ∀ {Q : Engine (standard ℚ) → Engine (standard ℚ) → Prop},
        (∀ {e e'}, Engine.Beat StandardState.Suits s p e e' →
          Engine.coefficientAt? p m e e' = Engine.coefficientAt? p n e e' →
          Engine.Coupled m n e → Q e e' ∧ Engine.Coupled m n e') →
        ∀ t ∈ fresh.ticksOver calls, Q t.1 t.2 := fun htick =>
      Engine.ticksOver_forall StandardState.keeps hlinks hp horder htick
        (fun htended h => h.tended htended) hfresh (Engine.hosts_after hedits hs hlink) calls []
        hcoupled hsame
    exact ⟨fun hwire => hrun fun hbeat hc h => h.zero_behind_pole hbeat hmorder hnorder hc hwire,
      fun hwire => hrun fun hbeat hc h => h.pole_behind_zero hbeat hmorder hnorder hc hwire⟩

omit [Tuning] in
/-- Coefficients that change between the ticks, once by messages and once by signal. In a patch, a
constant through a pole and a zero, ticked alone and in a block. -/
theorem Standard.pole_and_zero_undo_each_other_swept :
    letI : Tuning := ⟨44 / 7, id, fun _ => ""⟩
    let tell : ℚ → Stimulus ℚ := fun v => .message (.shadowOf 1) [.float v] 48000
    let sample : ℚ → ℚ → Stimulus ℚ := fun x v => .tick [x, v] [0] 48000
    let σ := [tell (1 / 2), sample 3 9, tell 2, sample 5 9]
    let τ := [sample 3 (1 / 2), sample 11 2]
    let edits : List (Edit (standard ℚ)) := [.add "sig~" [.float 1], .add "rpole~" [.float 2],
      .add "rzero~" [.float 2], .connect 0 0 1 (.regular 0), .connect 1 0 2 (.regular 0)]
    let p := Patch.built edits
    let calls : List (Call ℚ) := [.configure ⟨48000, 64, 1⟩, .tick, .send 1 (.regular 1) [.float 3],
      .send 2 (.regular 1) [.symbol "set", .float 3], .block 2 0 2]
    (∃ args args' pole zero, (Standard.filter .rpole).readArgs [] = .ok args ∧
      (Standard.filter .rzero).readArgs [] = .ok args' ∧
      ((Standard.filter .rpole).declare args (.ofInlets [0])).ending = .done pole ∧
      ((Standard.filter .rzero).declare args' (.ofInlets [0, 1])).ending = .done zero ∧
      pole.state.coefficients σ = zero.state.coefficients τ ∧
      heard 0 τ = (standard ℚ).played 0 pole.state σ ∧
      (standard ℚ).played 0 zero.state τ = heard 0 σ) ∧
    ∃ s fresh pole zero, (Schedule.compile p).ending = .done s ∧
      (Engine.link s p .empty).ending = .done fresh ∧
      p.node? 1 = some pole ∧ pole.typeName = "rpole~" ∧
      p.node? 2 = some zero ∧ zero.typeName = "rzero~" ∧
      (fresh.ticksOver calls).length = 3 ∧
      (∀ t ∈ fresh.ticksOver calls,
        Engine.coefficientAt? p 1 t.1 t.2 = Engine.coefficientAt? p 2 t.1 t.2) ∧
      (p.wires 2 0).map Cable.source = [⟨1, 0⟩] ∧
      ∀ t ∈ fresh.ticksOver calls, ∃ x, t.2.inflow? p 1 0 = some x ∧ t.2.signal? 2 0 = some x := by
  let : Tuning := ⟨44 / 7, id, fun _ => ""⟩
  intro tell sample σ τ edits p calls
  refine ⟨?_, ?_⟩
  · have hread : (Standard.filter .rpole).readArgs ([] : List (Token ℚ)) = .ok (.filter ⟨0⟩) := rfl
    have hread' : (Standard.filter .rzero).readArgs ([] : List (Token ℚ)) = .ok (.filter ⟨0⟩) := rfl
    obtain ⟨pole, zero, hpole, hzero, hall⟩ :=
      pole_and_zero_undo_each_other.1 hread hread' (.ofInlets [0]) (.ofInlets [0, 1])
    have hfits : ∀ stimulus ∈ σ ++ τ, stimulus.Fits Filter.topology := by
      simp [σ, τ, tell, sample, Stimulus.Fits]
    cases hpole
    cases hzero
    have hsame : StandardState.coefficients (.filter ⟨.rpole, .message, 0, 0, 0, 0⟩) σ =
      StandardState.coefficients (.filter ⟨.rzero, .signal, 0, 0, 0, 0⟩) τ := by decide +kernel
    have hfed : heard 0 τ = (standard ℚ).played 0 (.filter ⟨.rpole, .message, 0, 0, 0, 0⟩) σ := by
      decide +kernel
    exact ⟨_, _, _, _, hread, hread', rfl, rfl, hsame, hfed, (hall σ τ hfits hsame).1 hfed⟩
  · have hedits : ∀ edit ∈ edits, edit.fromCatalog = true := by simp [edits, Edit.fromCatalog]
    obtain ⟨s, fresh, pole, zero, hs, hlink, hpole, hpoleName, hzero, hzeroName, hcount, hsame,
        hwire⟩ : ∃ s fresh pole zero, (Schedule.compile p).ending = .done s ∧
        (Engine.link s p .empty).ending = .done fresh ∧
        p.node? 1 = some pole ∧ pole.typeName = "rpole~" ∧
        p.node? 2 = some zero ∧ zero.typeName = "rzero~" ∧ (fresh.ticksOver calls).length = 3 ∧
        (∀ t ∈ fresh.ticksOver calls,
          Engine.coefficientAt? p 1 t.1 t.2 = Engine.coefficientAt? p 2 t.1 t.2) ∧
        (p.wires 2 0).map Cable.source = [⟨1, 0⟩] :=
      ⟨_, _, _, _, rfl, rfl, rfl, rfl, rfl, rfl, by decide +kernel, by decide +kernel,
        by decide +kernel⟩
    exact ⟨s, fresh, pole, zero, hs, hlink, hpole, hpoleName, hzero, hzeroName, hcount, hsame, hwire,
      (pole_and_zero_undo_each_other.2 edits hedits s .empty fresh calls hs hlink 1 2 pole zero
        hpole hpoleName hzero hzeroName hsame).1 hwire⟩

end Patchbay
