import ConfigVault.Proofs.SecretKubeconfig

/-! # What the secret of a kubeconfig depends on

A string table has no order of its own, but it is written in whatever order it happens to be listed,
and every order shows in the text: the same kubeconfig, listed in two ways, is kept as different octets.
The secret of a kubeconfig is determined by what the kubeconfig says exactly if none of its tables has
two entries (`Kubeconfig.toSecret_determined_iff`).

For the proof the text of a kubeconfig is split around its users, since nothing else in it can be listed
in another order.  A kubeconfig with nothing but users is read back from its text, so no two lists of
users are written alike.
-/
namespace ConfigVault

open Codec Yaml

/-! ## Tables listed the other way round -/

/-- The table, listed the other way round. -/
def StringTable.reversed (t : StringTable) : StringTable :=
  ⟨t.entries.reverse, by rw [List.map_reverse, List.nodup_reverse]; exact t.distinct⟩

theorem StringTable.same_reversed (t : StringTable) : t.Same t.reversed :=
  (List.reverse_perm t.entries).symm

/-- A table of two entries is listed differently the other way round. -/
theorem StringTable.hasOneOrder_of_reversed {t : StringTable} (h : t.reversed = t) :
    t.HasOneOrder := by
  have hentries : t.entries.reverse = t.entries := congrArg StringTable.entries h
  have hnodup := t.nodup_entries
  rw [HasOneOrder]
  cases hes : t.entries with
  | nil => simp
  | cons e es =>
    rw [hes] at hentries hnodup
    -- The first entry is also the last, and occurs only once.
    have hlast : (e :: es).getLast (by simp) = e := by
      rw [List.getLast_eq_head_reverse]
      simp only [hentries, List.head_cons]
    cases es with
    | nil => simp
    | cons f es =>
      rw [List.getLast_cons (by simp)] at hlast
      have hmem : e ∈ f :: es := hlast ▸ List.getLast_mem _
      exact absurd hmem (List.nodup_cons.mp hnodup).1

/-- The service, with its settings listed the other way round. -/
def AuthProvider.reversed (a : AuthProvider) : AuthProvider := { a with config := a.config.reversed }

/-- The program, with its environment listed the other way round. -/
def ExecConfig.reversed (e : ExecConfig) : ExecConfig :=
  { e with env := e.env.map (List.map StringTable.reversed) }

/-- The credentials, with every table listed the other way round. -/
def AuthInfo.reversed (a : AuthInfo) : AuthInfo :=
  { a with
    authProvider := a.authProvider.map AuthProvider.reversed
    exec := a.exec.map ExecConfig.reversed }

/-- The user, with every table listed the other way round. -/
def NamedAuthInfo.reversed (u : NamedAuthInfo) : NamedAuthInfo :=
  { u with authInfo := u.authInfo.map AuthInfo.reversed }

/-- The kubeconfig, with every table listed the other way round. -/
def Kubeconfig.reversed (k : Kubeconfig) : Kubeconfig :=
  { k with authInfos := k.authInfos.map NamedAuthInfo.reversed }

theorem optionRel_map {α : Type} {R : α → α → Prop} {f : α → α} (h : ∀ x, R x (f x)) (o : Option α) :
    Option.Rel R o (o.map f) := by
  cases o with
  | none => exact .none
  | some x => exact .some (h x)

theorem forall₂_map {α : Type} {R : α → α → Prop} {f : α → α} (h : ∀ x, R x (f x)) (xs : List α) :
    List.Forall₂ R xs (xs.map f) :=
  List.forall₂_map_right_iff.mpr (List.forall₂_same.mpr fun x _ => h x)

theorem AuthProvider.same_reversed (a : AuthProvider) : a.Same a.reversed :=
  ⟨rfl, a.config.same_reversed⟩

theorem ExecConfig.same_reversed (e : ExecConfig) : e.Same e.reversed :=
  ⟨optionRel_map (forall₂_map StringTable.same_reversed) e.env, rfl⟩

theorem AuthInfo.same_reversed (a : AuthInfo) : a.Same a.reversed :=
  ⟨optionRel_map AuthProvider.same_reversed _, optionRel_map ExecConfig.same_reversed _, rfl⟩

theorem NamedAuthInfo.same_reversed (u : NamedAuthInfo) : u.Same u.reversed :=
  ⟨rfl, optionRel_map AuthInfo.same_reversed _⟩

/-- A kubeconfig says the same when its tables are listed the other way round. -/
theorem Kubeconfig.same_reversed (k : Kubeconfig) : k.Same k.reversed :=
  ⟨forall₂_map NamedAuthInfo.same_reversed _, rfl⟩

theorem AuthInfo.tables_reversed (a : AuthInfo) :
    a.reversed.tables = a.tables.map StringTable.reversed := by
  unfold tables reversed
  rw [List.map_append]
  congr 1
  · cases a.authProvider <;> rfl
  · cases a.exec with
    | none => rfl
    | some e => cases h : e.env <;> simp [ExecConfig.reversed, h]

theorem Kubeconfig.tables_reversed (k : Kubeconfig) :
    k.reversed.tables = k.tables.map StringTable.reversed := by
  unfold tables reversed
  rw [List.flatMap_map, List.map_flatMap]
  refine congrArg (fun f => k.authInfos.flatMap f) (funext fun u => ?_)
  rw [NamedAuthInfo.reversed]
  cases u.authInfo with
  | none => rfl
  | some a => exact a.tables_reversed

/-! ## The text around the users -/

theorem Yaml.Writer.entries_append (width : Nat) (ms ns : List (String × Json)) :
    Writer.entries width false (ms ++ ns) =
      Writer.entries width false ms ++ Writer.entries width false ns := by
  induction ms with
  | nil => rfl
  | cons m ms ih =>
    obtain ⟨key, v⟩ := m
    simp only [List.cons_append, Writer.entries, ih, List.append_assoc]

/-- At the margin, nothing is in front of the first entry. -/
theorem Yaml.Writer.document_object {ms : List (String × Json)} (h : ms ≠ []) :
    Writer.document (.object ms) = Writer.entries 0 false ms := by
  cases ms with
  | nil => exact absurd rfl h
  | cons m ms => rfl

namespace Kubeconfig

/-- The text of the users of a kubeconfig. -/
def usersText (users : List NamedAuthInfo) : List Char :=
  Writer.entries 0 false [("users", (list NamedAuthInfo.record.codec).toJson users)]

/-- The field of the users. -/
def usersField : Codec.Field Kubeconfig :=
  defaultedField "users" (orDefault (list NamedAuthInfo.record.codec) []) authInfos
    fun x r => { r with authInfos := x }

/-- **What is around the users does not depend on them.** -/
theorem document_withUsers (k : Kubeconfig) : ∃ before after : List Char, ∀ users,
    Writer.document { k with authInfos := users }.toJson =
      before ++ usersText users ++ after := by
  refine ⟨Writer.entries 0 false ((record.fields.take 2).filterMap fun f => f.member k),
    Writer.entries 0 false ((record.fields.drop 3).filterMap fun f => f.member k), fun users => ?_⟩
  have hmembers : record.members { k with authInfos := users } =
      (record.fields.take 2).filterMap (fun f => f.member k) ++
        [("users", (list NamedAuthInfo.record.codec).toJson users)] ++
          (record.fields.drop 3).filterMap fun f => f.member k := by
    have hfields : record.fields = record.fields.take 2 ++ [usersField] ++ record.fields.drop 3 := rfl
    rw [Record.members, hfields, List.filterMap_append, List.filterMap_append]
    rfl
  have hjson : { k with authInfos := users }.toJson =
      .object (record.members { k with authInfos := users }) := rfl
  rw [hjson, Writer.document_object (members_ne_nil _), hmembers, Writer.entries_append,
    Writer.entries_append]
  rfl

/-- A kubeconfig of nothing but users. -/
def ofUsers (users : List NamedAuthInfo) : Kubeconfig := { empty with authInfos := users }

theorem fits_ofUsers (users : List NamedAuthInfo) (d : Nat) : (ofUsers users).Fits d := by
  refine ⟨?_, ?_, ?_, ?_⟩ <;> intro x hx <;> cases hx

/-- **No two lists of users are written alike.** -/
theorem usersText_injective {us vs : List NamedAuthInfo} (h : usersText us = usersText vs) :
    us = vs := by
  obtain ⟨before, after, hdocument⟩ := document_withUsers empty
  have hrender : Yaml.render (ofUsers us).toJson = Yaml.render (ofUsers vs).toJson := by
    refine congrArg String.ofList ?_
    exact (hdocument us).trans (h ▸ (hdocument vs).symm)
  have hus := ofBytes_render (fits_ofUsers us innerDepth)
  rw [hrender, ofBytes_render (fits_ofUsers vs innerDepth)] at hus
  exact (congrArg authInfos (Except.ok.inj hus)).symm

/-- **The same kubeconfig has another secret when it is listed in another way.** -/
theorem Same.eq_of_toSecret {a b : Kubeconfig} (h : a.Same b) {r : SecretRef}
    (hsecret : b.toSecret r = a.toSecret r) : b = a := by
  have hoctets : Text.Utf8.encodeString b.render = Text.Utf8.encodeString a.render := by
    have hget := congrArg (·.get? kubeconfigKey) hsecret
    simp only [get?_toSecret] at hget
    exact Option.some.inj hget
  have hrender : b.render = a.render := by
    have hdecoded := congrArg Text.Utf8.decodeString? hoctets
    simp only [Text.Utf8.decodeString?_encodeString] at hdecoded
    exact Option.some.inj hdecoded
  have hdocument : Writer.document b.toJson = Writer.document a.toJson := String.ofList_inj.mp hrender
  -- The two differ in nothing but their users, so these are written alike.
  obtain ⟨before, after, haround⟩ := document_withUsers { a with authInfos := [] }
  have ha : Writer.document a.toJson = before ++ usersText a.authInfos ++ after := haround a.authInfos
  have hb : Writer.document b.toJson = before ++ usersText b.authInfos ++ after := by
    rw [h.rest] at haround
    exact haround b.authInfos
  rw [ha, hb, List.append_left_inj, List.append_right_inj] at hdocument
  have husers := usersText_injective hdocument
  have hrest := h.rest
  cases a
  cases b
  simp_all

/-- **The secret of a kubeconfig is determined only by how the kubeconfig is listed.**  Of all
kubeconfigs that say the same, only the one that is listed in the same way has the same secret.  What
a kubeconfig says determines its secret exactly if it is ordered: none of its tables has two
entries. -/
theorem toSecret_determined_iff (k : Kubeconfig) (r : SecretRef) :
    (∀ listed, k.Same listed → (listed.toSecret r = k.toSecret r ↔ listed = k)) ∧
      ((∀ listed, k.Same listed → listed.toSecret r = k.toSecret r) ↔ k.isOrdered = true) := by
  have hlisted : ∀ listed, k.Same listed → (listed.toSecret r = k.toSecret r ↔ listed = k) :=
    fun listed h => ⟨h.eq_of_toSecret, fun he => he ▸ rfl⟩
  refine ⟨hlisted, fun hall => isOrdered_iff.mpr fun t ht => ?_, fun hordered listed h => ?_⟩
  · have hreversed : k.reversed = k :=
      k.same_reversed.eq_of_toSecret (hall _ k.same_reversed)
    have htables : k.tables.map StringTable.reversed = k.tables := by
      rw [← tables_reversed, hreversed]
    have hid : t.reversed = id t :=
      List.map_inj_left.mp (htables.trans (List.map_id _).symm) t ht
    exact StringTable.hasOneOrder_of_reversed hid
  · rw [h.eq (isOrdered_iff.mp hordered)]

/-- A user with two settings, which are listed in either order. -/
theorem toSecret_determined_swapped :
    let a : StringTable := ⟨[("client-id", "7"), ("scopes", "")], by decide⟩
    let k := SecretKubeconfig.userOf a
    k.Same (SecretKubeconfig.userOf a.reversed) ∧ k.isOrdered = false ∧
      ¬ ∀ listed, k.Same listed → listed.toSecret ⟨"default", "no"⟩ = k.toSecret ⟨"default", "no"⟩ := by
  intro a k
  have hordered : k.isOrdered = false := by decide
  refine ⟨k.same_reversed, hordered, fun hall => ?_⟩
  rw [(toSecret_determined_iff k ⟨"default", "no"⟩).2, hordered] at hall
  cases hall

/-- **What a kubeconfig says does not determine its secret.** -/
theorem not_toSecret_of_same :
    ¬ ∀ (a b : Kubeconfig) (r : SecretRef), a.Same b → a.toSecret r = b.toSecret r := by
  intro hall
  let settings : StringTable := ⟨[("client-id", "7"), ("scopes", "")], by decide⟩
  have hsame := (SecretKubeconfig.userOf settings).same_reversed
  have heq := hsame.eq_of_toSecret (hall _ _ ⟨"default", "no"⟩ hsame).symm
  have htables := congrArg (fun k => k.tables.map StringTable.entries) heq
  exact absurd htables (by decide)

end Kubeconfig

end ConfigVault
