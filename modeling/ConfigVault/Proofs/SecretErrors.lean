import ConfigVault.Proofs.Gives
import ConfigVault.SecretKubeconfig

/-! # Errors on the way out of a secret

From a secret to a client configuration there are three steps: the octets under a key, the kubeconfig
in them, and what the kubeconfig leads to.  Each step has an error of its own, and every error names
the secret it is about (`SecretKubeconfig.ofSecret_classified`).

A secret either lacks a key or holds octets under it (`Secret.Lacks`, `Secret.Holds`), and that alone
decides how the first step ends.  The second step ends as reading the octets ends, by themselves and
without the secret (`SecretKubeconfig.ofSecret_of_holds`); the secret only lends its identity, to the
handle or to the error.  The third knows the secret by that identity.  So whatever goes wrong on the
way (`SecretKubeconfig.Meets`) is one of three kinds (`SecretKubeconfig.Meets.cases`), and nothing
but the identity of the secret and the octets under the key matters.
-/
namespace ConfigVault

/-! ## Octets under a key -/

namespace Secret

/-- The secret has nothing under the key: no data at all, or no such entry. -/
def Lacks (s : Secret) (key : String) : Prop :=
  s.data = none ∨ ∃ m, s.data = some m ∧ m.get? key = none

/-- The secret has these octets under the key. -/
def Holds (s : Secret) (key : String) (bytes : List UInt8) : Prop :=
  ∃ m, s.data = some m ∧ m.get? key = some bytes

theorem lacks_iff (s : Secret) (key : String) : s.Lacks key ↔ s.get? key = none := by
  unfold Lacks get?
  cases s.data <;> simp

theorem holds_iff (s : Secret) (key : String) (bytes : List UInt8) :
    s.Holds key bytes ↔ s.get? key = some bytes := by
  unfold Holds get?
  cases s.data <;> simp

theorem lacks_or_holds (s : Secret) (key : String) : s.Lacks key ∨ ∃ bytes, s.Holds key bytes := by
  simp only [lacks_iff, holds_iff]
  cases s.get? key <;> simp

/-- **Reading a key that the secret lacks** names the key and the secret. -/
theorem read_of_lacks {s : Secret} {key : String} (h : s.Lacks key) :
    s.read key = .error (.keyNotFound key (SecretRef.ofSecret s)) := by
  rw [read, (s.lacks_iff key).mp h]

theorem read_of_holds {s : Secret} {key : String} {bytes : List UInt8} (h : s.Holds key bytes) :
    s.read key = .ok bytes := by
  rw [read, (s.holds_iff key bytes).mp h]

theorem read_eq_keyNotFound_iff {s : Secret} {key : String} :
    s.read key = .error (.keyNotFound key (SecretRef.ofSecret s)) ↔ s.Lacks key := by
  refine ⟨fun h => ?_, read_of_lacks⟩
  rcases s.lacks_or_holds key with hlacks | ⟨bytes, hholds⟩
  · exact hlacks
  · rw [read_of_holds hholds] at h
    cases h

/-- The identity and the entry decide what is read. -/
theorem read_congr {s t : Secret} {key : String}
    (hidentity : SecretRef.ofSecret t = SecretRef.ofSecret s)
    (hget : t.get? key = s.get? key) : t.read key = s.read key := by
  rw [read, read, hget, hidentity]

end Secret

/-! ## Handles -/

namespace SecretKubeconfig

variable {s : Secret} {key : String}

theorem ofSecret_of_lacks (h : s.Lacks key) :
    ofSecret s key = .error (.keyNotFound key (SecretRef.ofSecret s)) := by
  rw [ofSecret, Secret.read_of_lacks h]
  rfl

/-- **Octets that are a kubeconfig** come with the identity of the secret, and others with an error
that names it. -/
theorem ofSecret_of_holds {bytes : List UInt8} (h : s.Holds key bytes) :
    ofSecret s key =
      match Kubeconfig.ofBytes bytes with
      | .ok k => .ok ⟨SecretRef.ofSecret s, k⟩
      | .error cause => .error (.invalidKubeconfig (SecretRef.ofSecret s) cause) := by
  rw [ofSecret, Secret.read_of_holds h]
  show ((Kubeconfig.ofBytes bytes).mapError _ >>= fun _ => _) = _
  cases Kubeconfig.ofBytes bytes <;> rfl

theorem ofSecret_eq_keyNotFound_iff :
    ofSecret s key = .error (.keyNotFound key (SecretRef.ofSecret s)) ↔ s.Lacks key := by
  refine ⟨fun h => ?_, ofSecret_of_lacks⟩
  rcases s.lacks_or_holds key with hlacks | ⟨bytes, hholds⟩
  · exact hlacks
  · rw [ofSecret_of_holds hholds] at h
    split at h <;> cases h

theorem ofSecret_eq_invalid_iff {bytes : List UInt8} (hholds : s.Holds key bytes)
    {cause : Codec.ReadError} :
    ofSecret s key = .error (.invalidKubeconfig (SecretRef.ofSecret s) cause) ↔
      Kubeconfig.ofBytes bytes = .error cause := by
  rw [ofSecret_of_holds hholds]
  cases Kubeconfig.ofBytes bytes with
  | ok k => simp
  | error cause' => simp

/-- **A handle is the identity of the secret and the kubeconfig in the octets**, and nothing else. -/
theorem ofSecret_eq_ok_iff {bytes : List UInt8} (hholds : s.Holds key bytes) {h : SecretKubeconfig} :
    ofSecret s key = .ok h ↔
      h.secret = SecretRef.ofSecret s ∧ Kubeconfig.ofBytes bytes = .ok h.kubeconfig := by
  rw [ofSecret_of_holds hholds]
  cases Kubeconfig.ofBytes bytes with
  | ok k =>
    obtain ⟨secret, kubeconfig⟩ := h
    simp [eq_comm]
  | error cause => simp

theorem ofSecret_congr {t : Secret} (hidentity : SecretRef.ofSecret t = SecretRef.ofSecret s)
    (hget : t.get? key = s.get? key) : ofSecret t key = ofSecret s key := by
  rw [ofSecret, ofSecret, Secret.read_congr hidentity hget, hidentity]

theorem secret_of_ofSecret {h : SecretKubeconfig} (hread : ofSecret s key = .ok h) :
    h.secret = SecretRef.ofSecret s := by
  obtain ⟨bytes, -, hread⟩ := bind_eq_ok.mp hread
  obtain ⟨k, -, hread⟩ := bind_eq_ok.mp hread
  cases hread
  rfl

/-- What a handle cannot lead to is reported with the secret that it was read from. -/
theorem reports_clientConfig (disk : Disk) (env : String → Option String) (h : SecretKubeconfig)
    (o : Selection) :
    Reports (h.clientConfig disk env o) fun e => ∃ cause, e = .clientConfig h.secret cause :=
  .mapError fun cause => ⟨cause, rfl⟩

/-- **The errors of the three steps** on the way from a secret to a client configuration. -/
inductive Meets (s : Secret) (key : String) : Error → Prop where
  | read {e : Error} (h : s.read key = .error e) : Meets s key e
  | ofSecret {e : Error} (h : ofSecret s key = .error e) : Meets s key e
  | clientConfig {e : Error} {h : SecretKubeconfig} {disk : Disk} {env : String → Option String}
    {o : Selection} (hread : SecretKubeconfig.ofSecret s key = .ok h)
    (h : h.clientConfig disk env o = .error e) : Meets s key e

/-- The three kinds of errors that there are on the way. -/
theorem Meets.cases {e : Error} (h : Meets s key e) :
    e = .keyNotFound key (SecretRef.ofSecret s) ∨
      (∃ cause, e = .invalidKubeconfig (SecretRef.ofSecret s) cause) ∨
      ∃ cause, e = .clientConfig (SecretRef.ofSecret s) cause := by
  cases h with
  | read h =>
    rcases s.lacks_or_holds key with hlacks | ⟨bytes, hholds⟩
    · rw [Secret.read_of_lacks hlacks] at h
      exact .inl (Except.error.inj h).symm
    · rw [Secret.read_of_holds hholds] at h
      cases h
  | ofSecret h =>
    rcases s.lacks_or_holds key with hlacks | ⟨bytes, hholds⟩
    · rw [ofSecret_of_lacks hlacks] at h
      exact .inl (Except.error.inj h).symm
    · rw [ofSecret_of_holds hholds] at h
      split at h
      · cases h
      · exact .inr (.inl ⟨_, (Except.error.inj h).symm⟩)
  | clientConfig hread h =>
    obtain ⟨cause, rfl⟩ := reports_clientConfig _ _ _ _ _ h
    rw [secret_of_ofSecret hread]
    exact .inr (.inr ⟨cause, rfl⟩)

/-- **Every step has its own error, with the identity of the secret.**  A key that the secret lacks is
not found; octets that are no kubeconfig are invalid, and all others give a handle that depends on them
alone; and what the handle does not lead to is an error of the client configuration.  So no error on
the way is without a secret, and a secret with the same identity and entry gives the same results. -/
theorem ofSecret_classified (s : Secret) (key : String) :
    let r := SecretRef.ofSecret s
    (s.read key = .error (.keyNotFound key r) ↔ s.Lacks key) ∧
    (ofSecret s key = .error (.keyNotFound key r) ↔ s.Lacks key) ∧
    (∀ bytes, s.Holds key bytes → s.read key = .ok bytes ∧
      (∀ cause, ofSecret s key = .error (.invalidKubeconfig r cause) ↔
        Kubeconfig.ofBytes bytes = .error cause) ∧
      ∀ h, ofSecret s key = .ok h ↔ h.secret = r ∧ Kubeconfig.ofBytes bytes = .ok h.kubeconfig) ∧
    (∀ h, ofSecret s key = .ok h → ∀ disk env o e, h.clientConfig disk env o = .error e →
      ∃ cause, e = .clientConfig r cause) ∧
    (∀ e, Meets s key e → e.secret? = some r ∧ (∀ cause, e ≠ .write cause) ∧
      ∀ reason, e ≠ .manifest reason) ∧
    ∀ t : Secret, t.metadata.name = s.metadata.name → t.metadata.namespace = s.metadata.namespace →
      t.get? key = s.get? key → t.read key = s.read key ∧ ofSecret t key = ofSecret s key := by
  intro r
  refine ⟨Secret.read_eq_keyNotFound_iff, ofSecret_eq_keyNotFound_iff, ?_, ?_, ?_, ?_⟩
  · intro bytes hholds
    refine ⟨Secret.read_of_holds hholds, fun cause => ofSecret_eq_invalid_iff hholds, fun h => ?_⟩
    exact ofSecret_eq_ok_iff hholds
  · intro h hread disk env o e he
    obtain ⟨cause, rfl⟩ := reports_clientConfig _ _ _ _ _ he
    exact ⟨cause, by rw [secret_of_ofSecret hread]⟩
  · intro e he
    rcases he.cases with rfl | ⟨cause, rfl⟩ | ⟨cause, rfl⟩
    · exact ⟨rfl, (fun _ h => by cases h), (fun _ h => by cases h)⟩
    · exact ⟨rfl, (fun _ h => by cases h), (fun _ h => by cases h)⟩
    · exact ⟨rfl, (fun _ h => by cases h), (fun _ h => by cases h)⟩
  · intro t hname hnamespace hget
    have hidentity : SecretRef.ofSecret t = SecretRef.ofSecret s := by
      rw [SecretRef.ofSecret, hname, hnamespace, SecretRef.ofSecret]
    exact ⟨Secret.read_congr hidentity hget, ofSecret_congr hidentity hget⟩

/-- Of two keys one is missing and one holds an octet that is no text; a label changes nothing. -/
theorem ofSecret_classified_octet :
    let s : Secret :=
      { Secret.empty with
        metadata := { ObjectMeta.empty with name := some "a" }
        data := some (SortedMap.empty.insert "k" [0xff]) }
    let t : Secret := { s with metadata := { s.metadata with labels := some .empty } }
    let r : SecretRef := ⟨"", "a"⟩
    ofSecret s "l" = .error (.keyNotFound "l" r) ∧
      (∃ cause, ofSecret s "k" = .error (.invalidKubeconfig r cause)) ∧
      ofSecret t "k" = ofSecret s "k" := by
  intro s t r
  obtain ⟨-, hlacks, -⟩ := ofSecret_classified s "l"
  obtain ⟨-, -, hholds, -, -, hsame⟩ := ofSecret_classified s "k"
  obtain ⟨-, hinvalid, -⟩ := hholds [0xff] ⟨_, rfl, rfl⟩
  refine ⟨hlacks.mpr (.inr ⟨_, rfl, rfl⟩), ?_, (hsame t rfl rfl rfl).2⟩
  have hnone : (Kubeconfig.ofBytes [0xff]).toOption.isNone := by decide +kernel
  cases hread : Kubeconfig.ofBytes [0xff] with
  | error cause => exact ⟨cause, (hinvalid cause).mpr hread⟩
  | ok k => rw [hread] at hnone; cases hnone

end SecretKubeconfig

end ConfigVault
