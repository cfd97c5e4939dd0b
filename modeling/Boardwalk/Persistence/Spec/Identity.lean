import Boardwalk.Persistence.Identity

/-!
# The two identity repositories are one store

The in-memory store keeps an index that every `put` has to repair; the redb store scans.  `Same`
relates their states: the same records, and the index has exactly the keys of the records, each
mapped to the only one that has it (`Indexed`).  Every call keeps it and gets the same answer, so a
sequence of calls does (`stores_agree`).
-/

namespace Boardwalk

variable {s : RepositoryState} {t : RedbIdentities} {record : ResourceIdentityRecord}

/-! ### The redb store -/

namespace RedbIdentities

theorem getElem?_insert (t : RedbIdentities) (record : ResourceIdentityRecord) (id : String) :
    (t.insert record).table[id]? = if id = record.id then some record else t.table[id]? := by
  change (t.table.insert record.id record)[id]? = _
  rw [Std.ExtTreeMap.getElem?_insert]
  by_cases hid : id = record.id
  · simp [hid]
  · have hcmp : compare record.id id ≠ .eq := fun h => hid (Std.LawfulEqCmp.eq_of_compare h).symm
    rw [if_neg hcmp, if_neg hid]

theorem getElem?_insert_self (t : RedbIdentities) (record : ResourceIdentityRecord) :
    (t.insert record).table[record.id]? = some record := by
  rw [getElem?_insert, if_pos rfl]

theorem getElem?_insert_of_ne {id : String} (h : id ≠ record.id) :
    (t.insert record).table[id]? = t.table[id]? := by
  rw [getElem?_insert, if_neg h]

/-- What is in the table after an insertion is the new record or was there before. -/
theorem of_getElem?_insert {id : String} {r : ResourceIdentityRecord}
    (h : (t.insert record).table[id]? = some r) :
    id = record.id ∧ r = record ∨ id ≠ record.id ∧ t.table[id]? = some r := by
  rw [getElem?_insert] at h
  split at h
  case isTrue hid => exact .inl ⟨hid, (Option.some.inj h).symm⟩
  case isFalse hid => exact .inr ⟨hid, h⟩

theorem mem_records {r : ResourceIdentityRecord} : r ∈ t.records ↔ t.table[r.id]? = some r := by
  unfold records
  rw [List.mem_map]
  constructor
  · rintro ⟨⟨id, r'⟩, hmem, rfl⟩
    rw [Std.ExtTreeMap.mem_toList_iff_getElem?_eq_some] at hmem
    rw [t.keyed id r' hmem]
    exact hmem
  · intro hr
    exact ⟨(r.id, r), Std.ExtTreeMap.mem_toList_iff_getElem?_eq_some.mpr hr, rfl⟩

/-- When the check of `put` finds nothing. -/
theorem otherOwner_eq_none {records : List ResourceIdentityRecord} :
    otherOwner records record = none ↔ ∀ r ∈ records, r.id ≠ record.id →
      ∀ key ∈ r.identityKeys, key ∉ record.identityKeys := by
  simp [otherOwner, identityKeysOverlap]

/-- What a search finds. -/
theorem holder_eq_some {records : List ResourceIdentityRecord} {key : IdentityKey}
    {r : ResourceIdentityRecord} (h : holder records key = some r) :
    r ∈ records ∧ key ∈ r.identityKeys := by
  refine ⟨List.mem_of_find?_eq_some h, ?_⟩
  have hfound := List.find?_some h
  simpa using hfound

theorem holder_eq_none {records : List ResourceIdentityRecord} {key : IdentityKey} :
    holder records key = none ↔ ∀ r ∈ records, key ∉ r.identityKeys := by
  simp [holder]

theorem put_of_none (h : otherOwner t.records record = none) :
    t.put {} record = (t.insert record, .ok ()) := by
  simp [put, listJson, putJson, h]

theorem put_of_some {existing : ResourceIdentityRecord}
    (h : otherOwner t.records record = some existing) :
    t.put {} record = (t, .error (alreadyAssigned existing.id)) := by
  simp [put, listJson, h]

/-- A `put` that fails leaves the table, whatever the failure. -/
theorem put_error {io : IoFaults} {err : StorageError} (h : (t.put io record).2 = .error err) :
    (t.put io record).1 = t := by
  unfold put putJson at h ⊢
  split
  · rfl
  · split
    · rfl
    · cases hw : io.write with
      | some e => rfl
      | none => simp_all

end RedbIdentities

/-! ### The index of the in-memory store -/

namespace RepositoryState

/-- The index has exactly the keys of the stored records, each mapped to the record that has it. -/
def Indexed (s : RepositoryState) : Prop :=
  ∀ key id, s.identityKeys.get? key = some id ↔
    ∃ r, s.identities.get? id = some r ∧ key ∈ r.identityKeys

/-- No two records have a key in common. -/
theorem Indexed.unique (h : s.Indexed) {key : IdentityKey} {id id' : String}
    {r r' : ResourceIdentityRecord} (hr : s.identities.get? id = some r) (hkey : key ∈ r.identityKeys)
    (hr' : s.identities.get? id' = some r') (hkey' : key ∈ r'.identityKeys) : id = id' := by
  have hid := (h key id).mpr ⟨r, hr, hkey⟩
  have hid' := (h key id').mpr ⟨r', hr', hkey'⟩
  exact Option.some.inj (hid.symm.trans hid')

theorem otherOwner_eq_none {id : String} {keys : List IdentityKey} :
    s.otherOwner id keys = none ↔
      ∀ key ∈ keys, ∀ owner ∈ s.identityKeys.get? key, owner = id := by
  induction keys with
  | nil => simp [otherOwner]
  | cons key keys ih =>
    unfold otherOwner
    cases howner : s.identityKeys.get? key with
    | none => simp [ih, howner]
    | some owner => by_cases heq : owner = id <;> simp [ih, howner, heq]

theorem mem_previousKeys {key : IdentityKey} {id : String} :
    key ∈ s.previousKeys id ↔ ∃ r, s.identities.get? id = some r ∧ key ∈ r.identityKeys := by
  unfold previousKeys
  cases s.identities.get? id <;> simp

theorem put_of_some {existingId : String}
    (h : s.otherOwner record.id record.identityKeys = some existingId) :
    s.put record = (s, .error (alreadyAssigned existingId)) := by
  simp [put, h]

theorem put_error {err : StorageError} (h : (s.put record).2 = .error err) :
    (s.put record).1 = s := by
  unfold put at h ⊢
  split at h
  · rfl
  · cases h

/-- **A `put` repairs the index.** -/
theorem Indexed.put (h : s.Indexed) (record : ResourceIdentityRecord) :
    (s.put record).1.Indexed := by
  unfold RepositoryState.put
  cases howner : s.otherOwner record.id record.identityKeys with
  | some existingId => exact h
  | none =>
    -- no other record has a key of this one
    have hfree := otherOwner_eq_none.mp howner
    intro key id
    dsimp only
    rw [Table.get?_foldl_insert, Table.get?_foldl_remove, Table.get?_insert]
    -- the record that is put, or another
    by_cases hid : id = record.id
    · subst hid
      rw [if_pos rfl]
      by_cases hkey : key ∈ record.identityKeys
      · simp [hkey]
      · -- an old key of the record is not mapped to it any more
        rw [if_neg hkey]
        by_cases hold : key ∈ s.previousKeys record.id
        · simp [hold, hkey]
        · rw [if_neg hold, h key record.id, ← mem_previousKeys]
          simp [hold, hkey]
    · rw [if_neg hid]
      -- a key of the put record was no other's
      by_cases hkey : key ∈ record.identityKeys
      · have hnot : ¬ ∃ r, s.identities.get? id = some r ∧ key ∈ r.identityKeys := by
          intro hex
          exact hid (hfree key hkey id ((h key id).mpr hex))
        simp only [if_pos hkey, hnot, Option.some.injEq, iff_false]
        exact fun heq => hid heq.symm
      · rw [if_neg hkey]
        -- an old key of the put record was its own
        by_cases hold : key ∈ s.previousKeys record.id
        · obtain ⟨r, hr, hmem⟩ := mem_previousKeys.mp hold
          have hnot : ¬ ∃ r', s.identities.get? id = some r' ∧ key ∈ r'.identityKeys := by
            rintro ⟨r', hr', hmem'⟩
            exact hid (h.unique hr' hmem' hr hmem)
          simp only [if_pos hold, hnot, reduceCtorEq]
        · rw [if_neg hold]
          exact h key id

end RepositoryState

/-! ### The two stores -/

/-- The two stores have the same records, and the index is that of the records. -/
structure Same (s : RepositoryState) (t : RedbIdentities) : Prop where
  records : ∀ id, s.identities.get? id = t.table[id]?
  indexed : s.Indexed

theorem same_empty : Same {} .empty where
  records id := by simp [Table.empty, RedbIdentities.empty]
  indexed key id := by simp [Table.empty]

/-- The two checks of a `put` find a conflict at the same time. -/
theorem Same.otherOwner_iff (h : Same s t) (record : ResourceIdentityRecord) :
    s.otherOwner record.id record.identityKeys = none ↔
      RedbIdentities.otherOwner t.records record = none := by
  rw [RepositoryState.otherOwner_eq_none, RedbIdentities.otherOwner_eq_none]
  constructor
  · intro hfree r hr hne key hkey hkey'
    rw [RedbIdentities.mem_records, ← h.records] at hr
    exact hne (hfree key hkey' r.id ((h.indexed key r.id).mpr ⟨r, hr, hkey⟩))
  · intro hnone key hkey owner howner
    by_contra hne
    obtain ⟨r, hr, hkey'⟩ := (h.indexed key owner).mp howner
    rw [h.records] at hr
    obtain rfl := t.keyed owner r hr
    exact hnone r (RedbIdentities.mem_records.mpr hr) hne key hkey' hkey

/-- One call of a repository. -/
inductive RepositoryCall where
  | get (id : String)
  | put (record : ResourceIdentityRecord)
  | findByIdentityKey (key : IdentityKey)

/-- What a call returns, a `put` nothing. -/
abbrev RepositoryAnswer := Except StorageError (Option ResourceIdentityRecord)

namespace ResourceIdentityRepository

variable {σ : Type} (repo : ResourceIdentityRepository σ)

def call (s : σ) : RepositoryCall → σ × RepositoryAnswer
  | .get id => (s, repo.get s id)
  | .put record => ((repo.put s record).1, (repo.put s record).2.map fun _ => none)
  | .findByIdentityKey key => (s, repo.findByIdentityKey s key)

/-- Calls one after another, with their answers. -/
def run : σ → List RepositoryCall → σ × List RepositoryAnswer
  | s, [] => (s, [])
  | s, c :: calls =>
    ((run (repo.call s c).1 calls).1, (repo.call s c).2 :: (run (repo.call s c).1 calls).2)

end ResourceIdentityRepository

/-- An answer up to the text of the error. -/
def RepositoryAnswer.kind (a : RepositoryAnswer) :
    Except StorageErrorKind (Option ResourceIdentityRecord) := a.mapError StorageError.kind

/-! ### Calls and runs -/

/-- Both stores put a record with the same result. -/
theorem Same.put (h : Same s t) (record : ResourceIdentityRecord) :
    Same (s.put record).1 (t.put {} record).1 ∧
      (s.put record).2.mapError StorageError.kind =
        (t.put {} record).2.mapError StorageError.kind := by
  have hiff := h.otherOwner_iff record
  cases hs : s.otherOwner record.id record.identityKeys with
  | some owner =>
    have hsome : RedbIdentities.otherOwner t.records record ≠ none := fun ht => by
      rw [hiff.mpr ht] at hs
      cases hs
    obtain ⟨existing, ht⟩ := Option.ne_none_iff_exists'.mp hsome
    rw [RepositoryState.put_of_some hs, RedbIdentities.put_of_some ht]
    exact ⟨h, rfl⟩
  | none =>
    rw [RedbIdentities.put_of_none (hiff.mp hs)]
    refine ⟨⟨fun id => ?_, h.indexed.put record⟩, ?_⟩
    · rw [RedbIdentities.getElem?_insert]
      simp only [RepositoryState.put, hs, Table.get?_insert, h.records]
    · simp [RepositoryState.put, hs]

/-- Both stores find the same record under a key. -/
theorem Same.findByIdentityKey (h : Same s t) (key : IdentityKey) :
    s.findByIdentityKey key = t.findByIdentityKey {} key := by
  unfold RepositoryState.findByIdentityKey RedbIdentities.findByIdentityKey RedbIdentities.listJson
  cases hheld : RedbIdentities.holder t.records key with
  | none =>
    have hnone : s.identityKeys.get? key = none := by
      by_contra hsome
      obtain ⟨id, hid⟩ := Option.ne_none_iff_exists'.mp hsome
      obtain ⟨r, hr, hkey⟩ := (h.indexed key id).mp hid
      rw [h.records] at hr
      obtain rfl := t.keyed id r hr
      exact RedbIdentities.holder_eq_none.mp hheld r (RedbIdentities.mem_records.mpr hr) hkey
    rw [hnone]
    simp [Except.map, hheld]
  | some r =>
    obtain ⟨hr, hkey⟩ := RedbIdentities.holder_eq_some hheld
    rw [RedbIdentities.mem_records, ← h.records] at hr
    rw [(h.indexed key r.id).mpr ⟨r, hr, hkey⟩]
    simp [Except.map, hheld, hr]

/-- **One call**: both stores answer the same and stay the same. -/
theorem Same.call (h : Same s t) (c : RepositoryCall) :
    Same (ResourceIdentityStore.call s c).1 ((RedbResourceIdentityRepository {}).call t c).1 ∧
      (ResourceIdentityStore.call s c).2.kind =
        ((RedbResourceIdentityRepository {}).call t c).2.kind := by
  cases c with
  | get id =>
    refine ⟨h, ?_⟩
    change RepositoryAnswer.kind (.ok (s.identities.get? id)) =
      RepositoryAnswer.kind (.ok t.table[id]?)
    rw [h.records]
  | put record =>
    obtain ⟨hsame, hkind⟩ := h.put record
    refine ⟨hsame, ?_⟩
    change RepositoryAnswer.kind ((s.put record).2.map _) =
      RepositoryAnswer.kind ((t.put {} record).2.map _)
    revert hkind
    cases (s.put record).2 <;> cases (t.put {} record).2 <;>
      simp [RepositoryAnswer.kind, Except.mapError, Except.map]
  | findByIdentityKey key =>
    refine ⟨h, ?_⟩
    exact congrArg RepositoryAnswer.kind (h.findByIdentityKey key)

theorem Same.run (h : Same s t) (calls : List RepositoryCall) :
    Same (ResourceIdentityStore.run s calls).1 ((RedbResourceIdentityRepository {}).run t calls).1 ∧
      (ResourceIdentityStore.run s calls).2.map RepositoryAnswer.kind =
        ((RedbResourceIdentityRepository {}).run t calls).2.map RepositoryAnswer.kind := by
  induction calls generalizing s t with
  | nil => exact ⟨h, rfl⟩
  | cons c calls ih =>
    obtain ⟨hsame, hkind⟩ := h.call c
    obtain ⟨hrun, hkinds⟩ := ih hsame
    exact ⟨hrun, congrArg₂ List.cons hkind hkinds⟩

/-- **The two identity repositories are the same store.** Whatever calls are made one after another
from an empty store, without failures of the storage: both answer every call with the same value or
the same kind of error; the index of the in-memory store has exactly the keys of its records, each
mapped to the only record that has it; and a `put` that fails with a conflict changes nothing in
either. -/
theorem stores_agree (calls : List RepositoryCall) :
    (ResourceIdentityStore.run {} calls).2.map RepositoryAnswer.kind =
        ((RedbResourceIdentityRepository {}).run .empty calls).2.map RepositoryAnswer.kind ∧
      (∀ key id, (ResourceIdentityStore.run {} calls).1.identityKeys.get? key = some id ↔
        ∃ r, (ResourceIdentityStore.run {} calls).1.identities.get? id = some r ∧
          key ∈ r.identityKeys) ∧
      ∀ record msg,
        ((ResourceIdentityStore.run {} calls).1.put record).2 = .error (.conflict msg) →
          ((ResourceIdentityStore.run {} calls).1.put record).1 =
              (ResourceIdentityStore.run {} calls).1 ∧
            (((RedbResourceIdentityRepository {}).run .empty calls).1.put {} record).1 =
              ((RedbResourceIdentityRepository {}).run .empty calls).1 := by
  obtain ⟨hsame, hkinds⟩ := same_empty.run calls
  refine ⟨hkinds, hsame.indexed, fun record msg herr => ⟨RepositoryState.put_error herr, ?_⟩⟩
  have hkind := (hsame.put record).2
  rw [herr] at hkind
  cases hput : (((RedbResourceIdentityRepository {}).run .empty calls).1.put {} record).2 with
  | error err => exact RedbIdentities.put_error hput
  | ok u => rw [hput] at hkind; cases hkind

end Boardwalk
