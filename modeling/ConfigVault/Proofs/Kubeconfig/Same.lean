import ConfigVault.Proofs.Kubeconfig.Codec
import Mathlib.Data.List.Forall2

/-! # The same kubeconfig

Two kubeconfigs are the same when they differ at most in the order in which their string tables list
their entries (`Kubeconfig.Same`); everything else is equal, in order, and present in both or in
neither.  A kubeconfig is only ever known up to this, and what fits does not depend on it.  Where no
table has more than one entry there is only one order, and the same kubeconfigs are equal
(`Kubeconfig.Same.eq`).
-/
namespace ConfigVault

/-- The same service, with the same settings. -/
structure AuthProvider.Same (a b : AuthProvider) : Prop where
  name : a.name = b.name
  config : a.config.Same b.config

/-- The same program: every table of its environment has the same entries. -/
structure ExecConfig.Same (a b : ExecConfig) : Prop where
  env : Option.Rel (List.Forall₂ StringTable.Same) a.env b.env
  rest : { a with env := none } = { b with env := none }

/-- The same credentials. -/
structure AuthInfo.Same (a b : AuthInfo) : Prop where
  authProvider : Option.Rel AuthProvider.Same a.authProvider b.authProvider
  exec : Option.Rel ExecConfig.Same a.exec b.exec
  rest : { a with authProvider := none, exec := none } = { b with authProvider := none, exec := none }

/-- The same user under the same name. -/
structure NamedAuthInfo.Same (a b : NamedAuthInfo) : Prop where
  name : a.name = b.name
  authInfo : Option.Rel AuthInfo.Same a.authInfo b.authInfo

/-- **The same kubeconfig**, but for the order in which its string tables are listed. -/
structure Kubeconfig.Same (a b : Kubeconfig) : Prop where
  authInfos : List.Forall₂ NamedAuthInfo.Same a.authInfos b.authInfos
  rest : { a with authInfos := [] } = { b with authInfos := [] }

/-! ## A kubeconfig is the same as itself -/

theorem optionRel_refl {α : Type} {R : α → α → Prop} (h : ∀ x, R x x) (o : Option α) :
    Option.Rel R o o := by
  cases o with
  | none => exact .none
  | some x => exact .some (h x)

theorem AuthProvider.Same.refl (a : AuthProvider) : a.Same a := ⟨rfl, .refl _⟩

theorem ExecConfig.Same.refl (a : ExecConfig) : a.Same a :=
  ⟨optionRel_refl (fun _ => List.forall₂_same.2 fun t _ => .refl t.entries) _, rfl⟩

theorem AuthInfo.Same.refl (a : AuthInfo) : a.Same a :=
  ⟨optionRel_refl AuthProvider.Same.refl _, optionRel_refl ExecConfig.Same.refl _, rfl⟩

theorem NamedAuthInfo.Same.refl (a : NamedAuthInfo) : a.Same a :=
  ⟨rfl, optionRel_refl AuthInfo.Same.refl _⟩

theorem Kubeconfig.Same.refl (k : Kubeconfig) : k.Same k :=
  ⟨List.forall₂_same.2 fun a _ => .refl a, rfl⟩

/-! ## What fits -/

/-- No extension stands in a user, so what fits is the same for the same kubeconfig. -/
theorem Kubeconfig.Fits.of_same {d : Nat} {a b : Kubeconfig} (ha : a.Fits d) (h : a.Same b) :
    b.Fits d := by
  obtain ⟨hpreferences, hclusters, hcontexts, hextensions⟩ : a.preferences = b.preferences ∧
      a.clusters = b.clusters ∧ a.contexts = b.contexts ∧ a.extensions = b.extensions := by
    have hrest := h.rest
    simp only [Kubeconfig.mk.injEq] at hrest
    exact ⟨hrest.1, hrest.2.1, hrest.2.2.2.1, hrest.2.2.2.2.2.1⟩
  exact ⟨hpreferences ▸ ha.preferences, hclusters ▸ ha.clusters, hcontexts ▸ ha.contexts,
    hextensions ▸ ha.extensions⟩

/-! ## Tables with one order -/

theorem StringTable.Same.eq {s t : StringTable} (h : s.Same t)
    (hs : s.HasOneOrder) : s = t := by
  have hentries : s.entries = t.entries := by
    unfold StringTable.HasOneOrder at hs
    unfold StringTable.Same at h
    cases hes : s.entries with
    | nil => rw [hes] at h; exact h.symm.eq_nil.symm
    | cons e es =>
      have hnil : es = [] := List.eq_nil_of_length_eq_zero (by simp_all)
      rw [hes, hnil] at h
      rw [hnil, List.perm_singleton.mp h.symm]
  exact StringTable.eq_of_entries hentries

theorem forall₂_eq {α : Type} {R : α → α → Prop} {xs ys : List α} (h : List.Forall₂ R xs ys)
    (hR : ∀ x ∈ xs, ∀ y, R x y → x = y) : xs = ys := by
  induction h with
  | nil => rfl
  | cons hx _ ih =>
    rw [hR _ (by simp) _ hx, ih fun x hx => hR x (by simp [hx])]

theorem optionRel_eq {α : Type} {R : α → α → Prop} {o p : Option α} (h : Option.Rel R o p)
    (hR : ∀ x ∈ o, ∀ y, R x y → x = y) : o = p := by
  cases h with
  | none => rfl
  | some hx => rw [hR _ rfl _ hx]

theorem AuthProvider.Same.eq {a b : AuthProvider} (h : a.Same b) (ha : a.config.HasOneOrder) :
    a = b := by
  have hname := h.name
  have hconfig := h.config.eq ha
  cases a
  cases b
  simp_all

theorem ExecConfig.Same.eq {a b : ExecConfig} (h : a.Same b)
    (ha : ∀ t ∈ a.env.getD [], t.HasOneOrder) : a = b := by
  have henv : a.env = b.env := by
    refine optionRel_eq h.env fun ts hts us htables => forall₂_eq htables fun t ht u hsame => ?_
    rw [Option.mem_def.mp hts] at ha
    exact hsame.eq (ha t ht)
  have hrest := h.rest
  cases a
  cases b
  simp_all

theorem AuthInfo.Same.eq {a b : AuthInfo} (h : a.Same b) (ha : ∀ t ∈ a.tables, t.HasOneOrder) :
    a = b := by
  have hprovider : a.authProvider = b.authProvider := by
    refine optionRel_eq h.authProvider fun p hp q hsame => hsame.eq (ha _ ?_)
    simp [AuthInfo.tables, Option.mem_def.mp hp]
  have hexec : a.exec = b.exec := by
    refine optionRel_eq h.exec fun e he f hsame => hsame.eq fun t ht => ha t ?_
    simp only [AuthInfo.tables, Option.mem_def.mp he]
    exact List.mem_append_right _ ht
  have hrest := h.rest
  cases a
  cases b
  simp_all

/-- **The same kubeconfigs are equal** where no table can be listed in another order. -/
theorem Kubeconfig.Same.eq {a b : Kubeconfig} (h : a.Same b)
    (ha : ∀ t ∈ a.tables, t.HasOneOrder) : a = b := by
  have husers : a.authInfos = b.authInfos := by
    refine forall₂_eq h.authInfos fun u hu v hsame => ?_
    have hinfo : u.authInfo = v.authInfo := by
      refine optionRel_eq hsame.authInfo fun i hi j hij => hij.eq fun t ht => ha t ?_
      refine List.mem_flatMap.mpr ⟨u, hu, ?_⟩
      rw [Option.mem_def.mp hi]
      exact ht
    obtain ⟨name, authInfo⟩ := u
    obtain ⟨name', authInfo'⟩ := v
    obtain rfl : name = name' := hsame.name
    obtain rfl : authInfo = authInfo' := hinfo
    rfl
  have hrest := h.rest
  cases a
  cases b
  simp_all

end ConfigVault
