import Patchbay.Invariant

/-!
# How work ends

`Traced` work ends where its parts end: a later part is only reached through the answer of the
earlier ones. An outcome keeps its state unless the work behind it got done.
-/

namespace Patchbay

theorem except_bind_ok {ε α β : Type} {x : Except ε α} {f : α → Except ε β} {b : β} :
    (x >>= f) = .ok b ↔ ∃ a, x = .ok a ∧ f a = .ok b := by
  cases x with
  | error e => simp [bind, Except.bind]
  | ok a => simp [bind, Except.bind]

namespace Traced

variable {R ε ε' σ α β : Type}

@[simp] theorem ending_pure (a : α) : (Pure.pure a : Traced R ε α).ending = .done a := rfl

@[simp] theorem ending_refuse (e : ε) : (refuse e : Traced R ε α).ending = .refused e := rfl

@[simp] theorem ending_fail (f : Fault) : (fail f : Traced R ε α).ending = .faulted f := rfl

theorem ending_bind {x : Traced R ε α} {a : α} (h : x.ending = .done a) (f : α → Traced R ε β) :
    (x >>= f).ending = (f a).ending := by
  show (Traced.bind x f).ending = _
  simp only [Traced.bind, h]

theorem bind_done {x : Traced R ε α} {f : α → Traced R ε β} {b : β} :
    (x >>= f).ending = .done b ↔ ∃ a, x.ending = .done a ∧ (f a).ending = .done b := by
  constructor
  · intro h
    change (Traced.bind x f).ending = _ at h
    unfold Traced.bind at h
    split at h
    · rename_i a ha; exact ⟨a, ha, h⟩
    · cases h
    · cases h
  · rintro ⟨a, ha, hb⟩
    rw [ending_bind ha, hb]

theorem bind_faulted {x : Traced R ε α} {f : α → Traced R ε β} {g : Fault} :
    (x >>= f).ending = .faulted g ↔
      x.ending = .faulted g ∨ ∃ a, x.ending = .done a ∧ (f a).ending = .faulted g := by
  show (Traced.bind x f).ending = _ ↔ _
  unfold Traced.bind
  cases x.ending <;> simp

theorem ofExcept_not_faulted (x : Except ε α) (g : Fault) :
    (ofExcept x : Traced R ε α).ending ≠ .faulted g := by
  cases x <;> simp [ofExcept, refuse, Traced.pure]

theorem ofExcept_done {x : Except ε α} {a : α} :
    (ofExcept x : Traced R ε α).ending = .done a ↔ x = .ok a := by
  cases x with
  | ok b => simp [ofExcept, Traced.pure]
  | error e => simp [ofExcept, refuse]

theorem mapError_done {f : ε → ε'} {x : Traced R ε α} {a : α} :
    (x.mapError f).ending = .done a ↔ x.ending = .done a := by
  unfold mapError Ending.mapError
  cases x.ending <;> simp

theorem mapError_faulted {f : ε → ε'} {x : Traced R ε α} {g : Fault} :
    (x.mapError f).ending = .faulted g ↔ x.ending = .faulted g := by
  unfold mapError Ending.mapError
  cases x.ending <;> simp

theorem at?_done {found : Option α} {a : α} :
    (at? found : Traced R ε α).ending = .done a ↔ found = some a := by
  cases found with
  | none => simp [at?, fail]
  | some b => simp [at?, Traced.pure]

theorem commit_cases {o : Outcome R σ ε β} {x : Traced R ε α} {s : σ} {change : α → σ × β}
    (h : o = x.commit s change) :
    (o.state = s ∧ ∀ b, o.ending ≠ .done b) ∨
      ∃ a, x.ending = .done a ∧ o.state = (change a).1 ∧ o.ending = .done (change a).2 := by
  subst h
  unfold commit
  cases x.ending with
  | done a => exact Or.inr ⟨a, rfl, rfl, rfl⟩
  | refused e => exact Or.inl ⟨rfl, fun _ h => by cases h⟩
  | faulted f => exact Or.inl ⟨rfl, fun _ h => by cases h⟩

theorem commit_state {x : Traced R ε α} {a : α} (h : x.ending = .done a) (s : σ)
    (change : α → σ × β) : (x.commit s change).state = (change a).1 := by
  unfold commit
  rw [h]

theorem commit_faulted {x : Traced R ε α} {s : σ} {change : α → σ × β} {g : Fault} :
    (x.commit s change).ending = .faulted g ↔ x.ending = .faulted g := by
  unfold commit
  cases x.ending <;> simp

end Traced

theorem Invariant.check_done {R ε : Type} {invariant : Nat} {holds : Bool} {claim : String}
    {context : Option String} {u : Unit} :
    (check invariant holds claim context : Traced R ε Unit).ending = .done u ↔ holds = true := by
  unfold check
  cases holds <;> simp

theorem Outcome.map_faulted {R σ ε α β : Type} {o : Outcome R σ ε α} {f : α → β} {g : Fault} :
    (o.map f).ending = .faulted g ↔ o.ending = .faulted g := by
  unfold Outcome.map Ending.map
  cases o.ending <;> simp

theorem Outcome.map_done {R σ ε α β : Type} {o : Outcome R σ ε α} {f : α → β} {b : β} :
    (o.map f).ending = .done b ↔ ∃ a, o.ending = .done a ∧ f a = b := by
  unfold Outcome.map Ending.map
  cases o.ending <;> simp

end Patchbay
