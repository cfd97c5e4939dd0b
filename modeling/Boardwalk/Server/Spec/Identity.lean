import Boardwalk.Persistence.Spec.Identity
import Boardwalk.Server.Identity

/-!
# When resource identity is stable

Over redb a resolution has three outcomes (`resolve_eq`): the record of an explicit id, the record
that has the identity key, or a new record.  Records have the key of their kind and name (`Named`),
no two of them the same (`KeysUnique`), so two successful calls return one id exactly when they have
one identity key (`Resolved.same_id_iff`).  The key of an unnamed resource is that of the empty
name, and this is the only way in which ids and names disagree (`identity_stable_iff`).
-/

namespace Boardwalk

/-! ### Identity keys -/

/-- The identity key of a resource. -/
def identityKey (spec : ResourceSpec) : IdentityKey := .staticName spec.kind (spec.name.getD "")

theorem resourceIdentityKeys_eq (spec : ResourceSpec) :
    resourceIdentityKeys spec = [identityKey spec] := by
  cases hname : spec.name <;> simp [resourceIdentityKeys, identityKey, hname, IdentityKey.staticName,
    IdentityKey.staticUnnamed]

theorem identityKey_inj {a b : ResourceSpec} :
    identityKey a = identityKey b ↔ a.kind = b.kind ∧ a.name.getD "" = b.name.getD "" := by
  simp [identityKey, IdentityKey.staticName]

/-- One resource has no name and the other one the empty name. -/
def EmptyNamed (a b : ResourceSpec) : Prop := a.kind = b.kind ∧ a.name = none ∧ b.name = some ""

instance (a b : ResourceSpec) : Decidable (EmptyNamed a b) := inferInstanceAs (Decidable (_ ∧ _))

/-- **The identity key tells the kind and the name**, up to an empty one. -/
theorem identityKey_eq_iff {a b : ResourceSpec} : identityKey a = identityKey b ↔
    a.kind = b.kind ∧ a.name = b.name ∨ EmptyNamed a b ∨ EmptyNamed b a := by
  rw [identityKey_inj]
  obtain ⟨kind, name⟩ := a
  obtain ⟨kind', name'⟩ := b
  cases name with
  | none =>
    cases name' with
    | none => simp [EmptyNamed]
    | some name' => simp [EmptyNamed, eq_comm]
  | some name =>
    cases name' with
    | none => simp [EmptyNamed, eq_comm]
    | some name' => simp [EmptyNamed]

theorem matches_iff {record : ResourceIdentityRecord} {spec : ResourceSpec} :
    resourceIdentityRecordMatches record spec = true ↔
      record.kind = spec.kind ∧ record.name = spec.name := by
  simp [resourceIdentityRecordMatches]

/-! ### Resolutions over redb -/

/-- The repositories of a node whose storage works. -/
abbrev redb : Option (ResourceIdentityRepository RedbIdentities) :=
  some (RedbResourceIdentityRepository {})

namespace RedbIdentities

variable {t : RedbIdentities} {spec : ResourceSpec}

/-- The record that has the identity key of a resource. -/
def keyed? (t : RedbIdentities) (spec : ResourceSpec) : Option ResourceIdentityRecord :=
  holder t.records (identityKey spec)

theorem keyed?_eq_some {r : ResourceIdentityRecord} (h : t.keyed? spec = some r) :
    t.table[r.id]? = some r ∧ identityKey spec ∈ r.identityKeys := by
  obtain ⟨hmem, hkey⟩ := holder_eq_some h
  exact ⟨mem_records.mp hmem, hkey⟩

theorem keyed?_eq_none : t.keyed? spec = none ↔
    ∀ (id : String) (r : ResourceIdentityRecord), t.table[id]? = some r →
      identityKey spec ∉ r.identityKeys := by
  rw [keyed?, holder_eq_none]
  constructor
  · intro h id r hr
    obtain rfl := t.keyed id r hr
    exact h r (mem_records.mpr hr)
  · intro h r hr
    exact h r.id r (mem_records.mp hr)

theorem keyed?_empty (spec : ResourceSpec) : empty.keyed? spec = none :=
  keyed?_eq_none.mpr (by simp [empty])

/-- The check of `put` finds nothing for a key that no record has. -/
theorem otherOwner_new (h : t.keyed? spec = none) (id : String) (nowMs : Int) :
    otherOwner t.records (identityRecord spec id nowMs) = none := by
  refine otherOwner_eq_none.mpr fun r hr _ key hkey hkey' => ?_
  rw [identityRecord, resourceIdentityKeys_eq, List.mem_singleton] at hkey'
  subst hkey'
  exact holder_eq_none.mp h r hr hkey

theorem put_new (h : t.keyed? spec = none) (id : String) (nowMs : Int) :
    t.put {} (identityRecord spec id nowMs) = (t.insert (identityRecord spec id nowMs), .ok ()) :=
  put_of_none (otherOwner_new h id nowMs)

theorem find_eq (t : RedbIdentities) (spec : ResourceSpec) :
    findResourceIdentity (RedbResourceIdentityRepository {}) t (resourceIdentityKeys spec) =
      .ok (t.keyed? spec) := by
  rw [resourceIdentityKeys_eq]
  simp only [findResourceIdentity, RedbResourceIdentityRepository, findByIdentityKey, listJson,
    Except.map, keyed?]
  cases holder t.records (identityKey spec) <;> rfl

/-- **The outcomes of a resolution**: the explicit id's record, the key's record, or a new one. -/
theorem resolve_eq (t : RedbIdentities) (spec : ResourceSpec) (explicit : Option String)
    (minted : Uuid) (nowMs : Int) :
    resolveOrCreateResourceIdentity redb t spec explicit minted nowMs =
      match explicit.bind fun id => t.table[id]?, t.keyed? spec with
      | some r, _ =>
        (t, if resourceIdentityRecordMatches r spec then .ok r.id else .error (idRegistered r.id))
      | none, some r =>
        (t, if explicit.isSome then .error (identityRegistered spec) else .ok r.id)
      | none, none =>
        (t.insert (identityRecord spec (explicit.getD minted.toText) nowMs),
          .ok (explicit.getD minted.toText)) := by
  unfold resolveOrCreateResourceIdentity redb
  dsimp only
  rw [find_eq]
  cases explicit with
  | none =>
    cases hkeyed : t.keyed? spec with
    | some r => rfl
    | none =>
      simp only [putResourceIdentity, RedbResourceIdentityRepository, put_new hkeyed]
      rfl
  | some id =>
    have hget : (RedbResourceIdentityRepository {}).get t id = .ok t.table[id]? := rfl
    simp only [hget, Option.bind_some]
    cases hid : t.table[id]? with
    | some r =>
      obtain rfl := t.keyed id r hid
      dsimp only
      split <;> rfl
    | none =>
      cases hkeyed : t.keyed? spec with
      | some r =>
        -- the key's record is not stored under the explicit id
        have hne : r.id ≠ id := by
          rintro rfl
          rw [(keyed?_eq_some hkeyed).1] at hid
          cases hid
        simp [hne]
      | none =>
        simp only [putResourceIdentity, RedbResourceIdentityRepository, put_new hkeyed]
        rfl

/-! ### Tables of records -/

/-- Every record has the key of its kind and name. -/
def Named (t : RedbIdentities) : Prop :=
  ∀ (id : String) (r : ResourceIdentityRecord), t.table[id]? = some r →
    r.identityKeys = resourceIdentityKeys ⟨r.kind, r.name⟩

/-- No two records have a key in common. -/
def KeysUnique (t : RedbIdentities) : Prop :=
  ∀ (id id' : String) (r r' : ResourceIdentityRecord), t.table[id]? = some r →
    t.table[id']? = some r' → ∀ key ∈ r.identityKeys, key ∈ r'.identityKeys → id = id'

/-- The record with the id has the key of the resource. -/
def Answers (t : RedbIdentities) (spec : ResourceSpec) (id : String) : Prop :=
  ∃ r, t.table[id]? = some r ∧ r.identityKeys = resourceIdentityKeys spec

variable {id : String} {record : ResourceIdentityRecord}

theorem named_empty : Named .empty := by simp [Named, empty]

theorem keysUnique_empty : KeysUnique .empty := by simp [KeysUnique, empty]

theorem Named.insert (h : t.Named) (spec : ResourceSpec) (id : String) (nowMs : Int) :
    (t.insert (identityRecord spec id nowMs)).Named := by
  intro id' r hr
  rcases of_getElem?_insert hr with ⟨-, rfl⟩ | ⟨-, hr⟩
  · rfl
  · exact h id' r hr

/-- **An insertion keeps the keys apart** exactly when the check of `put` finds nothing in the table
that it goes into. -/
theorem KeysUnique.insert_iff (h : t.KeysUnique) (record : ResourceIdentityRecord) :
    (t.insert record).KeysUnique ↔ otherOwner t.records record = none := by
  rw [otherOwner_eq_none]
  constructor
  · intro hunique r hr hne key hkey hkey'
    have hold := (getElem?_insert_of_ne hne).trans (mem_records.mp hr)
    exact hne (hunique _ _ r record hold (getElem?_insert_self t record) key hkey hkey')
  · intro hfree
    -- a record of the table that has a key of the new one is under its id
    have hown (id : String) (r : ResourceIdentityRecord) (hr : t.table[id]? = some r)
        (key : IdentityKey) (hkey : key ∈ r.identityKeys) (hkey' : key ∈ record.identityKeys) :
        id = record.id := by
      obtain rfl := t.keyed id r hr
      by_contra hne
      exact hfree r (mem_records.mpr hr) hne key hkey hkey'
    intro id id' r r' hr hr' key hkey hkey'
    rcases of_getElem?_insert hr with ⟨hid, rfl⟩ | ⟨-, hold⟩ <;>
      rcases of_getElem?_insert hr' with ⟨hid', rfl⟩ | ⟨-, hold'⟩
    · exact hid.trans hid'.symm
    · exact hid.trans (hown id' r' hold' key hkey' hkey).symm
    · exact (hown id r hold key hkey hkey').trans hid'.symm
    · exact h id id' r r' hold hold' key hkey hkey'

theorem Answers.insert_self (t : RedbIdentities) (spec : ResourceSpec) (id : String) (nowMs : Int) :
    (t.insert (identityRecord spec id nowMs)).Answers spec id :=
  ⟨_, getElem?_insert_self t (identityRecord spec id nowMs), rfl⟩

/-- Answers stay as long as the new record has the keys of the one that it replaces. -/
theorem Answers.insert (h : t.Answers spec id)
    (hkeeps : ∀ r ∈ t.table[record.id]?, r.identityKeys = record.identityKeys) :
    (t.insert record).Answers spec id := by
  obtain ⟨r, hr, hkeys⟩ := h
  by_cases hid : id = record.id
  · subst hid
    exact ⟨record, getElem?_insert_self t record, (hkeeps r hr).symm.trans hkeys⟩
  · exact ⟨r, (getElem?_insert_of_ne hid).trans hr, hkeys⟩

/-- **Ids are the same exactly when the identity keys are.** -/
theorem Answers.same_id_iff {spec' : ResourceSpec} {id' : String} (hunique : t.KeysUnique)
    (h : t.Answers spec id) (h' : t.Answers spec' id') :
    id = id' ↔ identityKey spec = identityKey spec' := by
  obtain ⟨r, hr, hkeys⟩ := h
  obtain ⟨r', hr', hkeys'⟩ := h'
  rw [resourceIdentityKeys_eq] at hkeys hkeys'
  constructor
  · rintro rfl
    obtain rfl := Option.some.inj (hr.symm.trans hr')
    exact List.singleton_inj.mp (hkeys.symm.trans hkeys')
  · intro hkey
    exact hunique id id' r r' hr hr' (identityKey spec) (by simp [hkeys]) (by simp [hkeys', hkey])

/-- A search finds the record that answers. -/
theorem KeysUnique.keyed?_of_answers (hunique : t.KeysUnique) (h : t.Answers spec id) :
    ∃ r, t.keyed? spec = some r ∧ r.id = id := by
  obtain ⟨r', hr', hkeys⟩ := h
  have hkey : identityKey spec ∈ r'.identityKeys := by
    rw [hkeys, resourceIdentityKeys_eq]
    exact List.mem_singleton_self _
  cases hkeyed : t.keyed? spec with
  | none => exact absurd hkey (keyed?_eq_none.mp hkeyed id r' hr')
  | some r =>
    obtain ⟨hr, hkey'⟩ := keyed?_eq_some hkeyed
    exact ⟨r, rfl, hunique r.id id r r' hr hr' _ hkey' hkey⟩

/-- A new record is found under its own key only. -/
theorem keyed?_insert_of_ne {spec' : ResourceSpec} (h : t.keyed? spec = none)
    (hne : identityKey spec ≠ identityKey spec') (id : String) (nowMs : Int) :
    (t.insert (identityRecord spec' id nowMs)).keyed? spec = none := by
  refine keyed?_eq_none.mpr fun id' r hr => ?_
  rcases of_getElem?_insert hr with ⟨-, rfl⟩ | ⟨-, hr⟩
  · rw [identityRecord, resourceIdentityKeys_eq, List.mem_singleton]
    exact hne
  · exact keyed?_eq_none.mp h id' r hr

/-- A record that matches a resource, or that a search finds for it, answers for it. -/
theorem Named.answers_of_matches (h : t.Named) (hr : t.table[id]? = some record)
    (hmatch : resourceIdentityRecordMatches record spec = true) : t.Answers spec id := by
  obtain ⟨hkind, hname⟩ := matches_iff.mp hmatch
  refine ⟨record, hr, (h id record hr).trans ?_⟩
  rw [hkind, hname]

theorem Named.answers_of_keyed (h : t.Named) (hkeyed : t.keyed? spec = some record) :
    t.Answers spec record.id := by
  obtain ⟨hr, hkey⟩ := keyed?_eq_some hkeyed
  have hkeys := h record.id record hr
  rw [hkeys, resourceIdentityKeys_eq, List.mem_singleton] at hkey
  refine ⟨record, hr, ?_⟩
  rw [hkeys, resourceIdentityKeys_eq, resourceIdentityKeys_eq, hkey]

end RedbIdentities

/-! ### Calls one after another -/

/-- The store and what has been returned, newest first, after successful calls one after another
from an empty store.  A restart opens the same table, so it is no step.  A minted id is one that no
record has. -/
inductive Resolved : RedbIdentities → List (ResourceSpec × String) → Prop
  | start : Resolved .empty []
  | call {t t' : RedbIdentities} {log : List (ResourceSpec × String)} {spec : ResourceSpec}
      {explicit : Option String} {minted : Uuid} {nowMs : Int} {id : String}
      (h : Resolved t log)
      (hfresh : explicit = none → t.table[minted.toText]? = none)
      (hcall : resolveOrCreateResourceIdentity redb t spec explicit minted nowMs = (t', .ok id)) :
      Resolved t' ((spec, id) :: log)

namespace Resolved

variable {t t' : RedbIdentities} {log : List (ResourceSpec × String)} {spec : ResourceSpec}
  {id : String}

/-- What the calls keep: every id that has been returned is that of a record for its resource. -/
structure Invariant (t : RedbIdentities) (log : List (ResourceSpec × String)) : Prop where
  named : t.Named
  unique : t.KeysUnique
  answers : ∀ a ∈ log, t.Answers a.1 a.2

/-- A call that finds its record. -/
theorem Invariant.found (h : Invariant t log) (hanswers : t.Answers spec id) :
    Invariant t ((spec, id) :: log) :=
  ⟨h.named, h.unique, List.forall_mem_cons.mpr ⟨hanswers, h.answers⟩⟩

/-- A call that makes a new record. -/
theorem Invariant.created (h : Invariant t log) (hid : t.table[id]? = none)
    (hkeyed : t.keyed? spec = none) (nowMs : Int) :
    Invariant (t.insert (identityRecord spec id nowMs)) ((spec, id) :: log) := by
  refine ⟨h.named.insert spec id nowMs, ?_, ?_⟩
  · exact (h.unique.insert_iff _).mpr (RedbIdentities.otherOwner_new hkeyed id nowMs)
  · refine List.forall_mem_cons.mpr ⟨.insert_self t spec id nowMs, fun a ha => ?_⟩
    refine (h.answers a ha).insert fun r hr => ?_
    rw [show (identityRecord spec id nowMs).id = id from rfl, hid] at hr
    cases hr

/-- **One call keeps the invariant**, for each of its outcomes. -/
theorem Invariant.call {explicit : Option String} {minted : Uuid} {nowMs : Int}
    (h : Invariant t log) (hfresh : explicit = none → t.table[minted.toText]? = none)
    (hcall : resolveOrCreateResourceIdentity redb t spec explicit minted nowMs = (t', .ok id)) :
    Invariant t' ((spec, id) :: log) := by
  rw [RedbIdentities.resolve_eq] at hcall
  -- the id named, then the keys, then a new record
  cases hexplicit : explicit.bind fun id => t.table[id]? with
  | some r =>
    rw [hexplicit] at hcall
    obtain ⟨id', -, hr⟩ := Option.bind_eq_some_iff.mp hexplicit
    obtain rfl := t.keyed id' r hr
    by_cases hmatch : resourceIdentityRecordMatches r spec = true
    · obtain ⟨rfl, rfl⟩ : t = t' ∧ r.id = id := by simpa [hmatch] using hcall
      exact h.found (h.named.answers_of_matches hr hmatch)
    · simp [hmatch] at hcall
  | none =>
    rw [hexplicit] at hcall
    cases hkeyed : t.keyed? spec with
    | some r =>
      rw [hkeyed] at hcall
      cases explicit with
      | some id' => simp at hcall
      | none =>
        obtain ⟨rfl, rfl⟩ : t = t' ∧ r.id = id := by simpa using hcall
        exact h.found (h.named.answers_of_keyed hkeyed)
    | none =>
      rw [hkeyed] at hcall
      obtain ⟨htable, hid⟩ := Prod.mk.inj hcall
      obtain rfl := Except.ok.inj hid
      rw [← htable]
      refine h.created ?_ hkeyed nowMs
      cases explicit with
      | some id' => simpa using hexplicit
      | none => exact hfresh rfl

theorem invariant (h : Resolved t log) : Invariant t log := by
  induction h with
  | start => exact ⟨RedbIdentities.named_empty, RedbIdentities.keysUnique_empty, by simp⟩
  | call h hfresh hcall ih => exact ih.call hfresh hcall

theorem same_id_iff (h : Resolved t log) {a b : ResourceSpec × String} (ha : a ∈ log)
    (hb : b ∈ log) : a.2 = b.2 ↔ identityKey a.1 = identityKey b.1 :=
  (h.invariant.answers a ha).same_id_iff h.invariant.unique (h.invariant.answers b hb)

/-- A call for a key that has no record makes one. -/
theorem more (h : Resolved t log) (hkeyed : t.keyed? spec = none) (minted : Uuid)
    (hfresh : t.table[minted.toText]? = none) :
    Resolved (t.insert (identityRecord spec minted.toText 0)) ((spec, minted.toText) :: log) := by
  have hcall : resolveOrCreateResourceIdentity redb t spec none minted 0 =
      (t.insert (identityRecord spec minted.toText 0), .ok minted.toText) := by
    rw [RedbIdentities.resolve_eq, hkeyed]
    rfl
  exact .call h (fun _ => hfresh) hcall

/-- A call with the key of an earlier one gets its id again. -/
theorem again (h : Resolved t log) {a : ResourceSpec × String} (ha : a ∈ log)
    (hkey : identityKey spec = identityKey a.1) (minted : Uuid)
    (hfresh : t.table[minted.toText]? = none) : Resolved t ((spec, a.2) :: log) := by
  have hanswers : t.Answers spec a.2 := by
    obtain ⟨r, hr, hkeys⟩ := h.invariant.answers a ha
    exact ⟨r, hr, by rw [hkeys, resourceIdentityKeys_eq, resourceIdentityKeys_eq, hkey]⟩
  obtain ⟨r, hkeyed, hid⟩ := h.invariant.unique.keyed?_of_answers hanswers
  have hcall : resolveOrCreateResourceIdentity redb t spec none minted 0 = (t, .ok a.2) := by
    rw [RedbIdentities.resolve_eq, hkeyed, ← hid]
    rfl
  exact .call h (fun _ => hfresh) hcall

end Resolved

/-- **Identity is stable and injective, but for the empty name.** In a sequence of successful calls
two of them return the same id exactly when they were made for the same kind and the same optional
name, as long as no kind was registered both without a name and with the empty one. -/
theorem identity_stable_iff {t : RedbIdentities} {log : List (ResourceSpec × String)}
    (h : Resolved t log) :
    (∀ a ∈ log, ∀ b ∈ log, (a.2 = b.2 ↔ a.1.kind = b.1.kind ∧ a.1.name = b.1.name)) ↔
      ∀ a ∈ log, ∀ b ∈ log, ¬ EmptyNamed a.1 b.1 := by
  constructor
  · intro hstable a ha b hb hempty
    have hid := (h.same_id_iff ha hb).mpr (identityKey_eq_iff.mpr (.inr (.inl hempty)))
    have hname := ((hstable a ha b hb).mp hid).2
    rw [hempty.2.1, hempty.2.2] at hname
    cases hname
  · intro hnone a ha b hb
    rw [h.same_id_iff ha hb, identityKey_eq_iff]
    have hab := hnone a ha b hb
    have hba := hnone b hb a ha
    simp [hab, hba]

section Examples

/-- A resource without a name. -/
def unnamedLed : ResourceSpec where
  kind := "led"

/-- A resource whose name is empty. -/
def emptyLed : ResourceSpec where
  kind := "led"
  name := some ""

/-- A resource with a name. -/
def kitchenLed : ResourceSpec where
  kind := "led"
  name := some "kitchen"

/-- A store that has the unnamed resource. -/
def unnamedStore : RedbIdentities := .insert .empty (identityRecord unnamedLed (Uuid.toText 1) 0)

theorem resolved_unnamed : Resolved unnamedStore [(unnamedLed, Uuid.toText 1)] :=
  .more .start (RedbIdentities.keyed?_empty _) 1 (by simp [RedbIdentities.empty])

theorem unnamedStore_free : unnamedStore.table[Uuid.toText 2]? = none := by
  have hne : Uuid.toText 2 ≠ Uuid.toText 1 := by decide
  rw [unnamedStore, RedbIdentities.getElem?_insert_of_ne hne]
  simp [RedbIdentities.empty]

/-- The unnamed resource is asked for twice, and then the one with a name. -/
theorem identity_stable_iff_unnamed :
    ∃ t log, Resolved t log ∧
      log = [(kitchenLed, Uuid.toText 2), (unnamedLed, Uuid.toText 1),
        (unnamedLed, Uuid.toText 1)] ∧
      ∀ a ∈ log, ∀ b ∈ log, (a.2 = b.2 ↔ a.1.kind = b.1.kind ∧ a.1.name = b.1.name) := by
  have hkitchen : unnamedStore.keyed? kitchenLed = none :=
    RedbIdentities.keyed?_insert_of_ne (RedbIdentities.keyed?_empty _) (by decide) _ _
  have htwice := resolved_unnamed.again List.mem_cons_self rfl 2 unnamedStore_free
  have hrun := htwice.more hkitchen 2 unnamedStore_free
  refine ⟨_, _, hrun, rfl, (identity_stable_iff hrun).mpr ?_⟩
  simp [EmptyNamed, unnamedLed, kitchenLed]

/-- **A resource with the empty name gets the id of the unnamed one.** -/
theorem empty_name_shares : ∃ t log, Resolved t log ∧
    log = [(emptyLed, Uuid.toText 1), (unnamedLed, Uuid.toText 1)] ∧
      ¬ ∀ a ∈ log, ∀ b ∈ log, (a.2 = b.2 ↔ a.1.kind = b.1.kind ∧ a.1.name = b.1.name) := by
  have hkey : identityKey emptyLed = identityKey unnamedLed := rfl
  have hshares := resolved_unnamed.again List.mem_cons_self hkey 2 unnamedStore_free
  refine ⟨_, _, hshares, rfl, fun hstable => ?_⟩
  have hname := (hstable _ List.mem_cons_self _ (List.mem_cons_of_mem _ List.mem_cons_self)).mp rfl
  simp [emptyLed, unnamedLed] at hname

end Examples

end Boardwalk
