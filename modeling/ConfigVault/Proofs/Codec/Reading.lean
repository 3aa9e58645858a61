import ConfigVault.Proofs.Gives
import ConfigVault.Proofs.Yaml.Node.Shows
import ConfigVault.Yaml.Value

/-! # What readings return

A reading may fail and counts the aliases it follows.  Two things are said about it: that it is
`pure`, so that it returns a value and follows no alias, and that whatever it returns has a property
(`Returns`).  Each way to put readings together has a rule for both.
-/
namespace ConfigVault.Codec

open Yaml

variable {α β σ : Type}

/-- What a reading in two parts returns. -/
theorem Reading.bind_eq_ok {r : Reading α} {f : α → Reading β} {n m : Nat} {y : β} :
    (r >>= f) n = .ok (y, m) ↔ ∃ x k, r n = .ok (x, k) ∧ f x k = .ok (y, m) := by
  change (r n >>= fun a => f a.1 a.2) = .ok (y, m) ↔ _
  rw [ConfigVault.bind_eq_ok]
  exact ⟨fun ⟨a, ha, hf⟩ => ⟨a.1, a.2, ha, hf⟩, fun ⟨x, k, hr, hf⟩ => ⟨(x, k), hr, hf⟩⟩

/-- **Whatever the reading returns** has the property. -/
def Returns (r : Reading α) (P : α → Prop) : Prop := ∀ n x m, r n = .ok (x, m) → P x

/-! ## Rules for readings -/

namespace Returns

variable {P : α → Prop} {Q : β → Prop} {p : Place}

theorem pure {x : α} (h : P x) : Returns (Pure.pure x) P := by
  rintro n y m ⟨⟩
  exact h

theorem trivial (r : Reading α) : Returns r fun _ => True := fun _ _ _ _ => True.intro

theorem weaken {r : Reading α} {P' : α → Prop} (h : Returns r P) (hP : ∀ x, P x → P' x) :
    Returns r P' := fun n x m hr => hP x (h n x m hr)

theorem bind {r : Reading α} {f : α → Reading β} (hr : Returns r P)
    (hf : ∀ x, P x → Returns (f x) Q) : Returns (r >>= f) Q := by
  intro n y m h
  obtain ⟨x, k, hx, hy⟩ := Reading.bind_eq_ok.mp h
  exact hf x (hr n x k hx) k y m hy

theorem map {r : Reading α} {f : α → β} (hr : Returns r P) (hf : ∀ x, P x → Q (f x)) :
    Returns (f <$> r) Q := by
  rw [map_eq_pure_bind]
  exact hr.bind fun x hx => pure (hf x hx)

theorem throw (e : ReadError) : Returns (MonadExcept.throw e : Reading α) P := by
  rintro n x m ⟨⟩

theorem mismatch (cause : Mismatch) : Returns (Codec.mismatch cause : Reading α) P :=
  throw _

theorem lift {e : Except Mismatch α} (he : Gives e P) : Returns (Value.lift e) P := by
  cases e with
  | error m => exact mismatch m
  | ok x => exact pure (he x rfl)

theorem locate {r : Reading α} (hr : Returns r P) (mark : Mark) : Returns (p.locate mark r) P := by
  intro n x m h
  change (r n).mapError _ = _ at h
  cases hn : r n with
  | error e => rw [hn] at h; cases h
  | ok a => rw [hn] at h; cases h; exact hr n x m hn

theorem enter (mark : Mark) : Returns (p.enter mark) fun q => q.depth + 1 = p.depth := by
  unfold Place.enter
  split
  case h_1 => exact throw _
  case h_2 d hd => exact pure hd.symm

/-- Whatever node is behind an alias, it is read the same way. -/
theorem visit {read : Node → Reading α} (h : ∀ node, Returns (read node) P) (node : Node) :
    Returns (p.visit node read) P := by
  cases node with
  | «alias» m anchor =>
    refine locate ?_ m
    exact (trivial _).bind fun target _ => locate (h target) _
  | cut => exact throw _
  | _ => exact locate (h _) _

theorem items {read : Place → Node → Reading α}
    (h : ∀ q : Place, q.depth = p.depth → ∀ node, Returns (read q node) P) (i : Nat)
    (nodes : List Node) : Returns (p.items read i nodes) fun xs => ∀ x ∈ xs, P x := by
  induction nodes generalizing i with
  | nil => exact pure (by simp)
  | cons node nodes ih =>
    refine (h (p.step (.index i)) rfl node).bind fun x hx => ?_
    refine (ih (i + 1)).bind fun xs hxs => pure ?_
    exact List.forall_mem_cons.mpr ⟨hx, hxs⟩

/-- **Steps that keep a property keep it over all entries.** -/
theorem entries {I : σ → Prop} {step : σ → Node → Node → Reading σ} {s : σ} (hs : I s)
    (hstep : ∀ s k v, I s → Returns (step s k v) I) (es : List (Node × Node)) :
    Returns (Place.entries step s es) I := by
  induction es generalizing s with
  | nil => exact pure hs
  | cons e es ih => exact (hstep s e.1 e.2 hs).bind fun s hs => ih hs

end Returns

/-! ## Readings that are pure -/

namespace Place

variable (p : Place)

@[simp] theorem locate_pure (mark : Mark) (x : α) : p.locate mark (pure x : Reading α) = pure x := rfl

@[simp] theorem value_depth (key : Node) : (p.value key).depth = p.depth := by
  unfold value
  split <;> rfl

/-- A collection can be entered while any depth is left. -/
theorem enter_of_lt {d : Nat} (h : d < p.depth) (mark : Mark) :
    ∃ q : Place, d ≤ q.depth ∧ p.enter mark = pure q := by
  unfold enter
  split
  case h_1 hp => omega
  case h_2 d' hp => exact ⟨_, by simp only; omega, rfl⟩

/-- **Items that are shown are read one by one.** -/
theorem items_of_shows {part : Place → Node → Reading β} {shown : α → Json} {f : α → β}
    {xs : List α} {nodes : List Node} (hshows : ShowItems (xs.map shown) nodes)
    (h : ∀ x ∈ xs, ∀ (q : Place) (node : Node), q.depth = p.depth → Shows (shown x) node →
      part q node = pure (f x)) (i : Nat) : p.items part i nodes = pure (xs.map f) := by
  induction xs generalizing nodes i with
  | nil => cases hshows; rfl
  | cons x xs ih =>
    cases hshows with
    | cons hv hvs =>
      have hx := h x (by simp) (p.step (.index i)) _ rfl hv
      rw [Place.items, hx, pure_bind, ih hvs fun y hy => h y (by simp [hy])]
      rfl

end Place

@[simp] theorem lift_ok (x : α) : Value.lift (.ok x) = pure x := rfl

end ConfigVault.Codec
