/-! # What results give

A computation that may fail `Gives` a property if its result, when there is one, has it, and `Reports`
a property if its error has it.  There is a rule for each way to put computations together.
-/
namespace ConfigVault

variable {α β σ ε δ : Type}

/-! ## How a result comes about -/

theorem bind_eq_ok {e : Except ε α} {f : α → Except ε β} {y : β} :
    (e >>= f) = .ok y ↔ ∃ x, e = .ok x ∧ f x = .ok y := by
  constructor
  · intro h
    cases e with
    | error e => cases h
    | ok x => exact ⟨x, rfl, h⟩
  · rintro ⟨x, rfl, h⟩
    exact h

theorem mapError_eq_ok {e : Except ε α} {f : ε → δ} {x : α} :
    e.mapError f = .ok x ↔ e = .ok x := by
  constructor
  · intro h
    cases e with
    | error e => cases h
    | ok y => cases h; rfl
  · rintro rfl
    rfl

theorem mapError_eq_error {e : Except ε α} {f : ε → δ} {d : δ} :
    e.mapError f = .error d ↔ ∃ c, e = .error c ∧ d = f c := by
  constructor
  · intro h
    cases e with
    | error c => cases h; exact ⟨c, rfl, rfl⟩
    | ok x => cases h
  · rintro ⟨c, rfl, rfl⟩
    rfl

theorem exists_of_toOption {e : Except ε α} {f : α → β} {y : β} (h : e.toOption.map f = some y) :
    ∃ x, e = .ok x ∧ f x = y := by
  cases e with
  | error c => cases h
  | ok x => exact ⟨x, rfl, Option.some.inj h⟩

/-! ## Results -/

/-- Whatever the result is has the property. -/
def Gives (e : Except ε α) (P : α → Prop) : Prop := ∀ x, e = .ok x → P x

namespace Gives

variable {P : α → Prop} {Q : β → Prop}

theorem ok {x : α} (h : P x) : Gives (.ok x : Except ε α) P := by
  rintro y ⟨⟩
  exact h

theorem pure {x : α} (h : P x) : Gives (Pure.pure x : Except ε α) P := ok h

theorem error {e : ε} : Gives (.error e : Except ε α) P := by
  rintro x ⟨⟩

theorem trivial (e : Except ε α) : Gives e fun _ => True := fun _ _ => True.intro

theorem bind {e : Except ε α} {f : α → Except ε β} (he : Gives e P)
    (hf : ∀ x, P x → Gives (f x) Q) : Gives (e >>= f) Q := by
  intro y h
  cases e with
  | error e => cases h
  | ok x => exact hf x (he x rfl) y h

theorem map {e : Except ε α} {f : α → β} (he : Gives e P) (hf : ∀ x, P x → Q (f x)) :
    Gives (f <$> e) Q := by
  intro y h
  cases e with
  | error e => cases h
  | ok x => cases h; exact hf x (he x rfl)

theorem mapError {ε' : Type} {e : Except ε α} (he : Gives e P) (f : ε → ε') :
    Gives (e.mapError f) P := by
  intro x h
  cases e with
  | error e => cases h
  | ok y => cases h; exact he x rfl

/-- A check in front adds nothing to a result. -/
theorem after {e : Except ε Unit} {f : Unit → Except ε α} (hf : Gives (f ()) P) :
    Gives (e >>= f) P :=
  (trivial e).bind fun _ _ => hf

theorem ite {c : Prop} [Decidable c] {e f : Except ε α} (he : Gives e P) (hf : Gives f P) :
    Gives (if c then e else f) P := by
  split
  · exact he
  · exact hf

/-- Steps that keep a property keep it all the way. -/
theorem foldlM {I : σ → Prop} {step : σ → α → Except ε σ} {xs : List α} {s : σ} (hs : I s)
    (hstep : ∀ s, ∀ x ∈ xs, I s → Gives (step s x) I) : Gives (xs.foldlM step s) I := by
  induction xs generalizing s with
  | nil => exact pure hs
  | cons x xs ih =>
    rw [List.foldlM_cons]
    exact (hstep s x (by simp) hs).bind fun s hs => ih hs fun s y hy => hstep s y (by simp [hy])

theorem mapM {f : α → Except ε β} {xs : List α} (h : ∀ x ∈ xs, Gives (f x) Q) :
    Gives (xs.mapM f) fun ys => ∀ y ∈ ys, Q y := by
  induction xs with
  | nil => exact pure (by simp)
  | cons x xs ih =>
    rw [List.mapM_cons]
    refine (h x (by simp)).bind fun y hy => ?_
    refine (ih fun z hz => h z (by simp [hz])).bind fun ys hys => pure ?_
    exact List.forall_mem_cons.mpr ⟨hy, hys⟩

end Gives

/-! ## Errors -/

/-- Whatever the error is has the property. -/
def Reports (e : Except ε α) (P : ε → Prop) : Prop := ∀ c, e = .error c → P c

namespace Reports

variable {P : ε → Prop} {e : Except ε α}

theorem ok {x : α} : Reports (.ok x : Except ε α) P := by
  rintro c ⟨⟩

theorem error {c : ε} (h : P c) : Reports (.error c : Except ε α) P := by
  rintro d ⟨⟩
  exact h

theorem bind {f : α → Except ε β} (he : Reports e P) (hf : ∀ x, Reports (f x) P) :
    Reports (e >>= f) P := by
  intro c h
  cases e with
  | error d => exact he c (by cases h; rfl)
  | ok x => exact hf x c h

theorem map {f : α → β} (he : Reports e P) : Reports (f <$> e) P := by
  intro c h
  cases e with
  | error d => exact he c (by cases h; rfl)
  | ok x => cases h

/-- An error that is named anew. -/
theorem mapError {f : ε → δ} {Q : δ → Prop} (h : ∀ c, Q (f c)) : Reports (e.mapError f) Q := by
  intro d hd
  obtain ⟨c, -, rfl⟩ := mapError_eq_error.mp hd
  exact h c

end Reports

end ConfigVault
