import ConfigVault.Error
import ConfigVault.Proofs.Text.Escape

/-! # What errors say

Equality of errors looks at the parts of both (`Error.SameParts`): their kind, secret and key, the
reason of a manifest, and of what an error wraps only the message.  So it is an equivalence, and
equal errors cannot be told apart by their message or by the questions that can be asked of them
(`Error.equivalence_beq`).

Messages in turn tell errors apart (`Error.kind_of_message`).  No kind of message begins like
another (`Error.Kind.eq_of_opening`), and the key that a secret lacks stands in quotes, so that no
key can imitate the text behind it.  The secret is not quoted: the secret `c` in the namespace `a/b`
and the secret `b/c` in the namespace `a` have one text.
-/
namespace ConfigVault.Error

/-! ## The parts of an error -/

/-- The kinds of errors. -/
inductive Kind where
  | keyNotFound
  | invalidKubeconfig
  | write
  | clientConfig
  | manifest
  deriving DecidableEq

/-- The kind of an error. -/
def kind : Error → Kind
  | .keyNotFound .. => .keyNotFound
  | .invalidKubeconfig .. => .invalidKubeconfig
  | .write _ => .write
  | .clientConfig .. => .clientConfig
  | .manifest _ => .manifest

/-- The key that was not found. -/
def key? : Error → Option String
  | .keyNotFound key _ => some key
  | _ => none

/-- What is wrong with a manifest. -/
def reason? : Error → Option String
  | .manifest reason => some reason
  | _ => none

/-- The message of what an error wraps. -/
def cause? (e : Error) : Option String := e.causes.head?

/-- **Two errors have the same parts**; of what they wrap the message is one. -/
structure SameParts (a b : Error) : Prop where
  kind : a.kind = b.kind
  secret : a.secret? = b.secret?
  key : a.key? = b.key?
  reason : a.reason? = b.reason?
  cause : a.cause? = b.cause?

namespace SameParts

variable {a b c : Error}

theorem refl (a : Error) : SameParts a a := ⟨rfl, rfl, rfl, rfl, rfl⟩

theorem symm (h : SameParts a b) : SameParts b a :=
  ⟨h.kind.symm, h.secret.symm, h.key.symm, h.reason.symm, h.cause.symm⟩

theorem trans (h : SameParts a b) (h' : SameParts b c) : SameParts a c :=
  ⟨h.kind.trans h'.kind, h.secret.trans h'.secret, h.key.trans h'.key, h.reason.trans h'.reason,
    h.cause.trans h'.cause⟩

end SameParts

/-! ## Errors that say the same -/

/-- **Two errors say the same**: they are alike but for what they wrap, and that has the same
message. -/
inductive SaysSame : Error → Error → Prop where
  | keyNotFound (key : String) (secret : SecretRef) :
    SaysSame (.keyNotFound key secret) (.keyNotFound key secret)
  | invalidKubeconfig (secret : SecretRef) {source source' : Codec.ReadError}
    (h : source.message = source'.message) :
    SaysSame (.invalidKubeconfig secret source) (.invalidKubeconfig secret source')
  | write {source source' : Codec.ReadError} (h : source.message = source'.message) :
    SaysSame (.write source) (.write source')
  | clientConfig (secret : SecretRef) {source source' : KubeconfigError}
    (h : source.message = source'.message) :
    SaysSame (.clientConfig secret source) (.clientConfig secret source')
  | manifest (reason : String) : SaysSame (.manifest reason) (.manifest reason)

theorem saysSame_of_beq {a b : Error} (h : (a == b) = true) : SaysSame a b := by
  change same a b = true at h
  unfold same at h
  split at h
  · obtain ⟨hkey, hsecret⟩ := Bool.and_eq_true_iff.mp h
    obtain rfl := eq_of_beq hkey
    obtain rfl := eq_of_beq hsecret
    exact .keyNotFound _ _
  · obtain ⟨hsecret, hsource⟩ := Bool.and_eq_true_iff.mp h
    obtain rfl := eq_of_beq hsecret
    exact .invalidKubeconfig _ (eq_of_beq hsource)
  · exact .write (eq_of_beq h)
  · obtain ⟨hsecret, hsource⟩ := Bool.and_eq_true_iff.mp h
    obtain rfl := eq_of_beq hsecret
    exact .clientConfig _ (eq_of_beq hsource)
  · obtain rfl := eq_of_beq h
    exact .manifest _
  · cases h

namespace SaysSame

variable {a b : Error}

theorem beq (h : SaysSame a b) : (a == b) = true := by
  change same a b = true
  cases h with
  | keyNotFound => simp [same]
  | invalidKubeconfig _ h => simp [same, h]
  | write h => simp [same, h]
  | clientConfig _ h => simp [same, h]
  | manifest => simp [same]

theorem sameParts (h : SaysSame a b) : SameParts a b := by
  cases h with
  | keyNotFound | manifest => exact .refl _
  | invalidKubeconfig _ h | write h | clientConfig _ h =>
    exact ⟨rfl, rfl, rfl, rfl, congrArg some h⟩

/-- The message is made of nothing but what errors are compared by. -/
theorem message_eq (h : SaysSame a b) : a.message = b.message := by
  cases h with
  | keyNotFound | manifest => rfl
  | invalidKubeconfig _ h | write h | clientConfig _ h =>
    unfold message
    dsimp only
    rw [h]

theorem isKeyNotFound_eq (h : SaysSame a b) : a.isKeyNotFound = b.isKeyNotFound := by
  cases h <;> rfl

theorem isInvalidKubeconfig_eq (h : SaysSame a b) :
    a.isInvalidKubeconfig = b.isInvalidKubeconfig := by
  cases h <;> rfl

end SaysSame

/-- **The parts of an error decide what it says.** -/
theorem SameParts.saysSame {a b : Error} (h : SameParts a b) : SaysSame a b := by
  obtain ⟨hkind, hsecret, hkey, hreason, hcause⟩ := h
  cases a with
  | keyNotFound key secret =>
    cases b with
    | keyNotFound key' secret' =>
      obtain rfl := Option.some.inj hkey
      obtain rfl := Option.some.inj hsecret
      exact .keyNotFound _ _
    | _ => cases hkind
  | invalidKubeconfig secret source =>
    cases b with
    | invalidKubeconfig secret' source' =>
      obtain rfl := Option.some.inj hsecret
      exact .invalidKubeconfig _ (Option.some.inj hcause)
    | _ => cases hkind
  | write source =>
    cases b with
    | write source' => exact .write (Option.some.inj hcause)
    | _ => cases hkind
  | clientConfig secret source =>
    cases b with
    | clientConfig secret' source' =>
      obtain rfl := Option.some.inj hsecret
      exact .clientConfig _ (Option.some.inj hcause)
    | _ => cases hkind
  | manifest reason =>
    cases b with
    | manifest reason' =>
      obtain rfl := Option.some.inj hreason
      exact .manifest _
    | _ => cases hkind

/-- **Errors are equal exactly if they have the same parts.** -/
theorem beq_iff_sameParts {a b : Error} : (a == b) = true ↔ SameParts a b :=
  ⟨fun h => (saysSame_of_beq h).sameParts, fun h => h.saysSame.beq⟩

/-- Every error says the same as itself. -/
theorem beq_self (e : Error) : (e == e) = true := beq_iff_sameParts.mpr (.refl e)

/-- **Equality of errors is an equivalence**, and equal errors look alike in every way: they have
the same message, secret, kind and key.  They are equal exactly if all their parts are, of which
what they wrap counts by its message. -/
theorem equivalence_beq :
    Equivalence (fun a b : Error => (a == b) = true) ∧
    ∀ a b : Error,
      ((a == b) = true → a.message = b.message ∧ a.secret? = b.secret? ∧
        a.isKeyNotFound = b.isKeyNotFound ∧ a.isInvalidKubeconfig = b.isInvalidKubeconfig ∧
        a.key? = b.key?) ∧
      ((a == b) = true ↔ SameParts a b) := by
  refine ⟨?_, fun a b => ⟨fun h => ?_, beq_iff_sameParts⟩⟩
  · simp only [beq_iff_sameParts]
    exact ⟨.refl, .symm, .trans⟩
  · have hsame := saysSame_of_beq h
    have hparts := hsame.sameParts
    exact ⟨hsame.message_eq, hparts.secret, hsame.isKeyNotFound_eq, hsame.isInvalidKubeconfig_eq,
      hparts.key⟩

/-- Two faults with one wording make equal errors, and the same fault in another secret makes
another error. -/
theorem equivalence_beq_endOfStream :
    let ends : Codec.ReadError := .document .endOfStream
    let worded : Codec.ReadError := .mismatch (.badContent "EOF while parsing a value") none
    let a : Error := .invalidKubeconfig ⟨"ns", "a"⟩ ends
    let b : Error := .invalidKubeconfig ⟨"ns", "a"⟩ worded
    let other : Error := .invalidKubeconfig ⟨"ns", "b"⟩ ends
    a ≠ b ∧ (a == b) = true ∧ (b == a) = true ∧ a.message = b.message ∧ (a == other) = false := by
  intro ends worded a b other
  obtain ⟨hequivalence, hlaws⟩ := equivalence_beq
  have hab : (a == b) = true := (hlaws a b).2.mpr ⟨rfl, rfl, rfl, rfl, rfl⟩
  have hcauses : ends ≠ worded := by decide
  refine ⟨fun h => hcauses (invalidKubeconfig.inj h).2, hab, hequivalence.symm hab,
    ((hlaws a b).1 hab).1, ?_⟩
  rw [Bool.eq_false_iff]
  intro hother
  exact absurd ((hlaws a other).1 hother).2.1 (by decide)

/-! ## Errors that read the same -/

/-- What every message of a kind begins with. -/
def Kind.opening : Kind → String
  | .keyNotFound => "key "
  | .invalidKubeconfig => "secret "
  | .write => "failed to write kubeconfig: "
  | .clientConfig => "failed to load client configuration from secret "
  | .manifest => "Manifest error: "

/-- No opening is the beginning of another. -/
theorem Kind.eq_of_opening (k k' : Kind) : k.opening.toList <+: k'.opening.toList → k = k' := by
  cases k <;> cases k' <;> decide

theorem opening_prefix (e : Error) : e.kind.opening.toList <+: e.message.toList := by
  have happend (rest : String) : e.kind.opening.toList <+: (e.kind.opening ++ rest).toList := by
    rw [String.toList_append]
    exact List.prefix_append ..
  unfold message
  cases e with
  | keyNotFound | invalidKubeconfig | clientConfig =>
    dsimp only
    rw [String.append_assoc, String.append_assoc]
    exact happend _
  | write | manifest => exact happend _

/-- The key and the secret can be read off a message about a key that was not found. -/
theorem keyNotFound_of_message {key key' : String} {secret secret' : SecretRef}
    (h : (keyNotFound key secret).message = (keyNotFound key' secret').message) :
    key = key' ∧ secret.text = secret'.text := by
  unfold message at h
  dsimp only at h
  simp only [String.append_assoc, String.append_right_inj] at h
  obtain ⟨hkey, hrest⟩ := Text.quote_append_inj h
  exact ⟨hkey, (String.append_right_inj _).mp hrest⟩

/-- **Messages tell errors apart.**  Errors with the same message are of the same kind, and if a key
was not found it is the same key in both, and the secrets have the same text. -/
theorem kind_of_message {a b : Error} (h : a.message = b.message) :
    a.kind = b.kind ∧ ∀ key secret key' secret', a = .keyNotFound key secret →
      b = .keyNotFound key' secret' → key = key' ∧ secret.text = secret'.text := by
  refine ⟨?_, ?_⟩
  · -- Both openings begin the one message, so one of them begins the other.
    have ha := a.opening_prefix
    rw [h] at ha
    rcases List.prefix_or_prefix_of_prefix ha b.opening_prefix with hab | hba
    · exact Kind.eq_of_opening _ _ hab
    · exact (Kind.eq_of_opening _ _ hba).symm
  · rintro key secret key' secret' rfl rfl
    exact keyNotFound_of_message h

/-- A key that imitates the end of its own message is told from the key without it, though the
secrets of two different names have one text. -/
theorem kind_of_message_imitation :
    let key := "a\" not found in secret b/c\n"
    let e : Error := .keyNotFound key ⟨"a/b", "c"⟩
    let f : Error := .keyNotFound key ⟨"a", "b/c"⟩
    e ≠ f ∧ e.message = f.message ∧ e.kind = f.kind ∧
      e.message ≠ (keyNotFound "a" ⟨"b", "c\n\" not found in secret a/b/c"⟩).message := by
  intro key e f
  have hmessage : e.message = f.message := rfl
  have hsecrets : (⟨"a/b", "c"⟩ : SecretRef) ≠ ⟨"a", "b/c"⟩ := by decide
  refine ⟨fun h => hsecrets (keyNotFound.inj h).2, hmessage, (kind_of_message hmessage).1,
    fun h => ?_⟩
  exact absurd ((kind_of_message h).2 _ _ _ _ rfl rfl).1 (by decide)

end ConfigVault.Error
