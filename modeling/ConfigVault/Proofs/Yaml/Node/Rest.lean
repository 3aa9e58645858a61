import ConfigVault.Proofs.Yaml.Token.Fault
import ConfigVault.Yaml.Document

/-! # What is left of the tokens

A node is made from the first tokens; whatever follows it is the end of the list (`leavesEnd`).
So the token that ends the text can only come behind the last document if the lexer delivered it, and
a text that holds a single document without a fault was read to its end (`fault_of_allOf`).
-/
namespace ConfigVault.Yaml

open Token (Kind)

/-! ## Parts -/

namespace Parsed

variable {α β : Type} {ts : List Token}

/-- What follows the part is the end of these tokens. -/
def EndsIn (p : Parsed α) (ts : List Token) : Prop := Gives p.rest (· <:+ ts)

theorem EndsIn.of_suffix {p : Parsed α} {us : List Token} (h : p.EndsIn us) (hus : us <:+ ts) :
    p.EndsIn ts :=
  fun vs hvs => (h vs hvs).trans hus

theorem EndsIn.behind {p : Parsed α} {t : Token} (h : p.EndsIn ts) : p.EndsIn (t :: ts) :=
  h.of_suffix (List.suffix_cons t ts)

theorem EndsIn.andMore {p : Parsed Node} {more : Anchors → List Token → Parsed (List Node)}
    (h : p.EndsIn ts) (hmore : ∀ anchors us, (more anchors us).EndsIn us) :
    (p.andMore more).EndsIn ts := by
  unfold Parsed.andMore
  split
  · exact Gives.error
  · rename_i us hus
    exact (hmore _ us).of_suffix (h us hus)

theorem EndsIn.andValue {p : Parsed Node} {value : Anchors → List Token → Parsed Node}
    (h : p.EndsIn ts) (hvalue : ∀ anchors us, (value anchors us).EndsIn us) :
    (p.andValue value).EndsIn ts := by
  unfold Parsed.andValue
  split
  · exact Gives.error
  · rename_i us hus
    exact (hvalue _ us).of_suffix (h us hus)

theorem EndsIn.andEntries {p : Parsed (Node × Node)}
    {more : Anchors → List Token → Parsed (List (Node × Node))} (h : p.EndsIn ts)
    (hmore : ∀ anchors us, (more anchors us).EndsIn us) : (p.andEntries more).EndsIn ts := by
  unfold Parsed.andEntries
  split
  · exact Gives.error
  · rename_i us hus
    exact (hmore _ us).of_suffix (h us hus)

theorem EndsIn.ite {c : Prop} [Decidable c] {p q : Parsed α} (hp : p.EndsIn ts)
    (hq : q.EndsIn ts) : (if c then p else q).EndsIn ts := by
  split
  · exact hp
  · exact hq

end Parsed

namespace Node

variable {g : Grammar} {anchors : Anchors} {ts : List Token}

theorem endsIn_ok {α : Type} (value : α) {us : List Token} (h : us <:+ ts) :
    (⟨value, anchors, .ok us⟩ : Parsed α).EndsIn ts := Gives.ok h

theorem endsIn_error {α : Type} (value : α) (e : DocumentFault) :
    (⟨value, anchors, .error e⟩ : Parsed α).EndsIn ts := Gives.error

/-- A node that may be missing. -/
theorem endsIn_orEmpty {missing : Bool} {m : Mark} {p : Parsed Node} (h : p.EndsIn ts) :
    (if missing then ⟨empty m, anchors, .ok ts⟩ else p : Parsed Node).EndsIn ts :=
  .ite (endsIn_ok _ List.suffix_rfl) h

theorem endsIn_pairMapping {p : Parsed (Node × Node)} (h : p.EndsIn ts) (g : Grammar)
    (began : Mark) : (pairMapping g began p).EndsIn ts := by
  unfold pairMapping
  split
  · exact endsIn_error _ _
  · exact h

/-- The properties of a node stand in front of its first token. -/
theorem gives_head (g : Grammar) (ts : List Token) :
    Gives (head g ts) fun h => h.first :: h.rest <:+ ts := by
  unfold head
  split
  · exact .error
  · split
    · exact .error
    · exact .error
    · refine Gives.map (.trivial _) fun _ _ => ?_
      exact (List.suffix_cons ..).trans (List.suffix_cons ..)
    · exact .ok (List.suffix_cons ..)
  · split
    · exact .error
    · exact .error
    · refine Gives.map (.trivial _) fun _ _ => ?_
      exact (List.suffix_cons ..).trans (List.suffix_cons ..)
    · exact Gives.map (.trivial _) fun _ _ => List.suffix_cons ..
  · exact .ok List.suffix_rfl

/-- **Whatever is read, what follows it is the end of the tokens**, for each kind of part. -/
structure LeavesEnd (g : Grammar) (fuel : Nat) : Prop where
  node : ∀ block inMapping anchors ts, (ofTokens g fuel block inMapping anchors ts).EndsIn ts
  blockItems : ∀ began anchors ts, (blockItems g fuel began anchors ts).EndsIn ts
  flushItems : ∀ anchors ts, (flushItems g fuel anchors ts).EndsIn ts
  blockEntries : ∀ began anchors ts, (blockEntries g fuel began anchors ts).EndsIn ts
  blockValue : ∀ anchors ts, (blockValue g fuel anchors ts).EndsIn ts
  flowItems : ∀ began first anchors ts, (flowItems g fuel began first anchors ts).EndsIn ts
  flowItem : ∀ began anchors ts, (flowItem g fuel began anchors ts).EndsIn ts
  flowPair : ∀ anchors ts, (flowPair g fuel anchors ts).EndsIn ts
  flowValue : ∀ closing anchors ts, (flowValue g fuel closing anchors ts).EndsIn ts
  flowEntries : ∀ began first anchors ts, (flowEntries g fuel began first anchors ts).EndsIn ts
  flowEntry : ∀ began anchors ts, (flowEntry g fuel began anchors ts).EndsIn ts

theorem leavesEnd_zero (g : Grammar) : LeavesEnd g 0 where
  node _ _ _ _ := by unfold ofTokens; exact endsIn_error _ _
  blockItems _ _ _ := by unfold Node.blockItems; exact endsIn_error _ _
  flushItems _ _ := by unfold Node.flushItems; exact endsIn_error _ _
  blockEntries _ _ _ := by unfold Node.blockEntries; exact endsIn_error _ _
  blockValue _ _ := by unfold Node.blockValue; exact endsIn_error _ _
  flowItems _ _ _ _ := by unfold Node.flowItems; exact endsIn_error _ _
  flowItem _ _ _ := by unfold Node.flowItem; exact endsIn_error _ _
  flowPair _ _ := by unfold Node.flowPair; exact endsIn_error _ _
  flowValue _ _ _ := by unfold Node.flowValue; exact endsIn_error _ _
  flowEntries _ _ _ _ := by unfold Node.flowEntries; exact endsIn_error _ _
  flowEntry _ _ _ := by unfold Node.flowEntry; exact endsIn_error _ _

namespace LeavesEnd

variable {fuel : Nat} (ih : LeavesEnd g fuel)
include ih

theorem node_succ (block inMapping : Bool) (anchors : Anchors) (ts : List Token) :
    (ofTokens g (fuel + 1) block inMapping anchors ts).EndsIn ts := by
  unfold ofTokens
  split
  · exact endsIn_error _ _
  · split
    · exact endsIn_ok _ (List.suffix_cons ..)
    · exact endsIn_error _ _
  · rename_i ts _ _ _ _ _ _ hfuel _
    obtain rfl := Nat.succ.inj hfuel
    split
    · exact endsIn_error _ _
    · rename_i h hhead
      have hrest := gives_head g ts h hhead
      have hbehind := (List.suffix_cons h.first h.rest).trans hrest
      simp only
      split
      · exact endsIn_ok _ hbehind
      · exact (ih.flowItems _ _ _ _).of_suffix hbehind
      · exact (ih.flowEntries _ _ _ _).of_suffix hbehind
      · exact (ih.blockItems _ _ _).of_suffix hbehind
      · exact (ih.blockEntries _ _ _).of_suffix hbehind
      · refine .ite ((ih.flushItems _ _).of_suffix hrest) (.ite ?_ (endsIn_error _ _))
        exact endsIn_ok _ hrest

theorem blockItems_succ (began : Mark) (anchors : Anchors) (ts : List Token) :
    (Node.blockItems g (fuel + 1) began anchors ts).EndsIn ts := by
  cases ts with
  | nil => exact endsIn_error _ _
  | cons t ts =>
    unfold Node.blockItems
    split
    · cases ts with
      | nil => exact endsIn_error _ _
      | cons u us =>
        exact (endsIn_orEmpty (ih.node _ _ _ _)).behind.andMore fun _ _ => ih.blockItems _ _ _
    · exact endsIn_ok _ (List.suffix_cons ..)
    · exact endsIn_error _ _

theorem flushItems_succ (anchors : Anchors) (ts : List Token) :
    (Node.flushItems g (fuel + 1) anchors ts).EndsIn ts := by
  cases ts with
  | nil => exact endsIn_error _ _
  | cons t ts =>
    unfold Node.flushItems
    split
    · cases ts with
      | nil => exact endsIn_error _ _
      | cons u us =>
        exact (endsIn_orEmpty (ih.node _ _ _ _)).behind.andMore fun _ _ => ih.flushItems _ _
    · exact endsIn_ok _ List.suffix_rfl

theorem blockEntries_succ (began : Mark) (anchors : Anchors) (ts : List Token) :
    (Node.blockEntries g (fuel + 1) began anchors ts).EndsIn ts := by
  cases ts with
  | nil => exact endsIn_error _ _
  | cons t ts =>
    unfold Node.blockEntries
    split
    · cases ts with
      | nil => exact endsIn_error _ _
      | cons u us =>
        exact ((endsIn_orEmpty (ih.node _ _ _ _)).behind.andValue fun _ _ =>
          ih.blockValue _ _).andEntries fun _ _ => ih.blockEntries _ _ _
    · exact endsIn_ok _ (List.suffix_cons ..)
    · exact endsIn_error _ _

theorem blockValue_succ (anchors : Anchors) (ts : List Token) :
    (Node.blockValue g (fuel + 1) anchors ts).EndsIn ts := by
  cases ts with
  | nil => exact endsIn_error _ _
  | cons t ts =>
    unfold Node.blockValue
    split
    · cases ts with
      | nil => exact endsIn_error _ _
      | cons u us => exact (endsIn_orEmpty (ih.node _ _ _ _)).behind
    · exact endsIn_ok _ List.suffix_rfl

theorem flowItems_succ (began : Mark) (first : Bool) (anchors : Anchors) (ts : List Token) :
    (Node.flowItems g (fuel + 1) began first anchors ts).EndsIn ts := by
  cases ts with
  | nil => exact endsIn_error _ _
  | cons t ts =>
    unfold Node.flowItems
    refine .ite (endsIn_ok _ (List.suffix_cons ..)) (.ite (ih.flowItem _ _ _) ?_)
    exact .ite (ih.flowItem _ _ _).behind (endsIn_error _ _)

theorem flowItem_succ (began : Mark) (anchors : Anchors) (ts : List Token) :
    (Node.flowItem g (fuel + 1) began anchors ts).EndsIn ts := by
  cases ts with
  | nil => exact endsIn_error _ _
  | cons t ts =>
    unfold Node.flowItem
    split
    · exact endsIn_ok _ (List.suffix_cons ..)
    · exact (endsIn_pairMapping (ih.flowPair _ _) g _).behind.andMore fun _ _ =>
        ih.flowItems _ _ _ _
    · exact (ih.node _ _ _ _).andMore fun _ _ => ih.flowItems _ _ _ _

theorem flowPair_succ (anchors : Anchors) (ts : List Token) :
    (Node.flowPair g (fuel + 1) anchors ts).EndsIn ts := by
  cases ts with
  | nil => exact endsIn_error _ _
  | cons t ts =>
    unfold Node.flowPair
    refine Parsed.EndsIn.andValue (.ite ?_ (ih.node _ _ _ _)) fun _ _ => ih.flowValue _ _ _
    exact endsIn_ok _ (List.suffix_cons ..)

theorem flowValue_succ (closing : Kind) (anchors : Anchors) (ts : List Token) :
    (Node.flowValue g (fuel + 1) closing anchors ts).EndsIn ts := by
  cases ts with
  | nil => exact endsIn_error _ _
  | cons t ts =>
    unfold Node.flowValue
    split
    · cases ts with
      | nil => exact endsIn_error _ _
      | cons u us => exact (endsIn_orEmpty (ih.node _ _ _ _)).behind
    · exact endsIn_ok _ List.suffix_rfl

theorem flowEntries_succ (began : Mark) (first : Bool) (anchors : Anchors) (ts : List Token) :
    (Node.flowEntries g (fuel + 1) began first anchors ts).EndsIn ts := by
  cases ts with
  | nil => exact endsIn_error _ _
  | cons t ts =>
    unfold Node.flowEntries
    refine .ite (endsIn_ok _ (List.suffix_cons ..)) (.ite (ih.flowEntry _ _ _) ?_)
    exact .ite (ih.flowEntry _ _ _).behind (endsIn_error _ _)

theorem flowEntry_succ (began : Mark) (anchors : Anchors) (ts : List Token) :
    (Node.flowEntry g (fuel + 1) began anchors ts).EndsIn ts := by
  have hmissing (anchors : Anchors) (ts : List Token) : (missingValue g anchors ts).EndsIn ts := by
    cases ts with
    | nil => exact endsIn_error _ _
    | cons t ts => exact endsIn_ok _ List.suffix_rfl
  cases ts with
  | nil => exact endsIn_error _ _
  | cons t ts =>
    unfold Node.flowEntry
    split
    · exact endsIn_ok _ (List.suffix_cons ..)
    · cases ts with
      | nil => exact endsIn_error _ _
      | cons u us =>
        exact ((endsIn_orEmpty (ih.node _ _ _ _)).behind.andValue fun _ _ =>
          ih.flowValue _ _ _).andEntries fun _ _ => ih.flowEntries _ _ _ _
    · exact ((ih.node _ _ _ _).andValue hmissing).andEntries fun _ _ => ih.flowEntries _ _ _ _

end LeavesEnd

theorem leavesEnd (g : Grammar) (fuel : Nat) : LeavesEnd g fuel := by
  -- All kinds of parts at once, since each of them is made of the others with less fuel.
  induction fuel with
  | zero => exact leavesEnd_zero g
  | succ fuel ih =>
    exact ⟨ih.node_succ, ih.blockItems_succ, ih.flushItems_succ, ih.blockEntries_succ,
      ih.blockValue_succ, ih.flowItems_succ, ih.flowItem_succ, ih.flowPair_succ, ih.flowValue_succ,
      ih.flowEntries_succ, ih.flowEntry_succ⟩

end Node

/-! ## Documents -/

namespace Document

variable {stop : DocumentFault} {ts : List Token}

/-- The document went wrong, or else it tells what follows it, and that is the end of the tokens. -/
def IsFollowed (d : Document × Option (List Token)) (ts : List Token) : Prop :=
  d.1.fault = none → ∃ us, d.2 = some us ∧ us <:+ ts

theorem isFollowed_finish {p : Parsed Node} (h : p.EndsIn ts) : IsFollowed (finish stop p) ts := by
  unfold finish
  split
  · exact nofun
  · exact nofun
  · rename_i t us hus
    refine fun _ => ⟨_, rfl, ?_⟩
    split
    · exact (List.suffix_cons t us).trans (h _ hus)
    · exact h _ hus

theorem gives_directives (stop : DocumentFault) (d : Directives) (ts : List Token) :
    Gives (directives stop d ts) fun r => r.2 <:+ ts := by
  induction ts generalizing d with
  | nil => exact .error
  | cons t ts ih =>
    have hnext (d : Directives) : Gives (directives stop d ts) fun r => r.2 <:+ t :: ts :=
      fun r hr => (ih d r hr).trans (List.suffix_cons t ts)
    unfold directives
    split
    · exact .ite .error (.ite (hnext _) .error)
    · exact .ite .error (hnext _)
    · exact .ok List.suffix_rfl

theorem isFollowed_explicit (stop : DocumentFault) (ts : List Token) :
    IsFollowed (explicit stop ts) ts := by
  unfold explicit
  have hdirectives := gives_directives stop ⟨false, []⟩ ts
  split
  · exact nofun
  · exact nofun
  · rename_i d t us hd
    have hbehind := (List.suffix_cons t us).trans (hdirectives _ hd)
    split
    · refine isFollowed_finish (.of_suffix ?_ hbehind)
      unfold explicitContent
      split
      · exact Node.endsIn_error _ _
      · exact .ite (Node.endsIn_ok _ List.suffix_rfl) ((Node.leavesEnd _ _).node _ _ _ _)
    · exact nofun

theorem mem_of_mem_skipEnds {t : Token} (h : t ∈ skipEnds ts) : t ∈ ts := by
  induction ts with
  | nil => exact h
  | cons u us ih =>
    unfold skipEnds at h
    split at h
    · exact List.mem_cons_of_mem u (ih h)
    · exact h

/-- No document follows only where the text ends. -/
theorem streamEnd_of_ofTokens_nil {fuel : Nat} (h : ofTokens stop (fuel + 1) false ts = []) :
    ∃ t ∈ ts, t.kind = .streamEnd := by
  unfold ofTokens at h
  split at h
  · cases h
  · rename_i t us hus
    split at h
    · rename_i hk
      refine ⟨t, mem_of_mem_skipEnds ?_, by simpa using hk⟩
      change skipEnds ts = t :: us at hus
      rw [hus]
      exact List.mem_cons_self ..
    · cases h

/-- A single document without a fault has the end of the text behind it. -/
theorem streamEnd_of_ofTokens {fuel : Nat} {node : Node}
    (h : ofTokens stop (fuel + 2) true ts = [⟨node, none⟩]) : ∃ t ∈ ts, t.kind = .streamEnd := by
  unfold ofTokens at h
  simp only [if_true] at h
  split at h
  · cases h
  · rename_i t us
    split at h
    · rename_i hk
      exact ⟨t, List.mem_cons_self .., by simpa using hk⟩
    · have hfollowed : IsFollowed (if !isExplicitStart t then
          finish stop (content ⟨defaultHandles, stop⟩ (t :: us)) else explicit stop (t :: us))
          (t :: us) := by
        split
        · exact isFollowed_finish ((Node.leavesEnd _ _).node _ _ _ _)
        · exact isFollowed_explicit stop (t :: us)
      rw [Bool.true_and] at h
      obtain ⟨hdocument, hothers⟩ := List.cons.inj h
      obtain ⟨vs, hvs, hsuffix⟩ := hfollowed (by rw [hdocument])
      rw [hvs] at hothers
      obtain ⟨e, he, hk⟩ := streamEnd_of_ofTokens_nil hothers
      exact ⟨e, hsuffix.subset he, hk⟩

/-- **A text that holds a single document, and no fault in it, was read to its end.** -/
theorem fault_of_allOf {bytes : List UInt8} {node : Node} (h : allOf bytes = [⟨node, none⟩]) :
    (TokenStream.ofSource (Source.ofBytes bytes)).fault = none ∧
      (Source.ofBytes bytes).fault = none := by
  unfold allOf at h
  extract_lets stream stop at h
  refine fault_of_streamEnd ?_
  change ∃ t ∈ stream.tokens, t.kind = .streamEnd
  split at h
  · cases h
  · rename_i t ts hts
    rw [hts]
    cases ts with
    | nil => cases h
    | cons u us =>
      obtain ⟨e, he, hk⟩ := streamEnd_of_ofTokens h
      exact ⟨e, List.mem_cons_of_mem t he, hk⟩

end Document

end ConfigVault.Yaml
