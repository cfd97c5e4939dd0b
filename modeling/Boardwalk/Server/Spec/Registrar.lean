import Boardwalk.Server.Registrar
import Boardwalk.Server.Spec.Identity

/-!
# When a registration is all or nothing

The registrar persists the identity before the directory takes the actor.  So a registration that
makes a new record needs an id that the directory does not have (`Sound.fresh`), and one that goes on
with a record found by its key is right only if the record is stored under the id it goes on with
(`Sound.stored`).  With these it is all or nothing, and without storage failures only with these
(`register_allOrNothing_iff`).
-/

namespace Boardwalk

open RedbIdentities

variable {δ : Type}

/-! ### Failures of the storage -/

section Faults

variable {t : RedbIdentities} {spec : ResourceSpec}

/-- A lookup on a faulty store finds what is there or fails. -/
theorem findResourceIdentity_faults (io : IoFaults) (t : RedbIdentities) (spec : ResourceSpec) :
    findResourceIdentity (RedbResourceIdentityRepository io) t (resourceIdentityKeys spec) =
        .ok (t.keyed? spec) ∨
      ∃ err, findResourceIdentity (RedbResourceIdentityRepository io) t
        (resourceIdentityKeys spec) = .error err := by
  cases hfind : io.find with
  | none =>
    left
    rw [← find_eq, resourceIdentityKeys_eq]
    simp [findResourceIdentity, RedbResourceIdentityRepository, findByIdentityKey, hfind]
  | some err =>
    right
    rw [resourceIdentityKeys_eq]
    simp [findResourceIdentity, RedbResourceIdentityRepository, findByIdentityKey, listJson, hfind,
      Except.map]

/-- A put on a faulty store does what it should or fails with nothing changed. -/
theorem putResourceIdentity_faults (io : IoFaults) (t : RedbIdentities) (spec : ResourceSpec)
    (id : String) (nowMs : Int) :
    putResourceIdentity (RedbResourceIdentityRepository io) t spec id nowMs =
        putResourceIdentity (RedbResourceIdentityRepository {}) t spec id nowMs ∨
      ∃ err, putResourceIdentity (RedbResourceIdentityRepository io) t spec id nowMs =
        (t, .error err) := by
  unfold putResourceIdentity RedbResourceIdentityRepository put
  cases hscan : io.scan with
  | some err => exact .inr ⟨_, by simp [listJson, Except.mapError]; rfl⟩
  | none =>
    cases howner : otherOwner t.records (identityRecord spec id nowMs) with
    | some existing => exact .inl (by simp [listJson, howner])
    | none =>
      cases hwrite : io.write with
      | some err => exact .inr ⟨_, by simp [listJson, howner, putJson, Except.mapError]; rfl⟩
      | none => exact .inl (by simp [listJson, howner, putJson])

/-- **A resolution with failures** goes as without them, or fails and leaves the records. -/
theorem resolve_faults (io : IoFaults) (t : RedbIdentities) (spec : ResourceSpec)
    (explicit : Option String) (minted : Uuid) (nowMs : Int) :
    resolveOrCreateResourceIdentity (some (RedbResourceIdentityRepository io)) t spec explicit minted
        nowMs = resolveOrCreateResourceIdentity redb t spec explicit minted nowMs ∨
      ∃ err, resolveOrCreateResourceIdentity (some (RedbResourceIdentityRepository io)) t spec
        explicit minted nowMs = (t, .error err) := by
  -- a fault that is met ends the call; the others change nothing
  have hfind := findResourceIdentity_faults io t spec
  have hsearch := find_eq t spec
  unfold resolveOrCreateResourceIdentity redb
  cases explicit with
  | none =>
    rcases hfind with hfind | ⟨err, hfind⟩
    · cases hkeyed : t.keyed? spec with
      | some r => exact .inl (by simp [hfind, hsearch, hkeyed])
      | none =>
        rcases putResourceIdentity_faults io t spec minted.toText nowMs with hput | ⟨err, hput⟩
        · exact .inl (by simp [hfind, hsearch, hkeyed, hput])
        · exact .inr ⟨err, by simp [hfind, hkeyed, hput, Except.map]⟩
    · exact .inr ⟨err, by simp [hfind]⟩
  | some id =>
    have hget : (RedbResourceIdentityRepository {}).get t id = .ok t.table[id]? := rfl
    cases hfault : io.get with
    | some err =>
      have herr : (RedbResourceIdentityRepository io).get t id = .error err := by
        simp [RedbResourceIdentityRepository, getJson, hfault]
      exact .inr ⟨resourceIdentityStorageError err, by simp [herr]⟩
    | none =>
      have hok : (RedbResourceIdentityRepository io).get t id = .ok t.table[id]? := by
        simp [RedbResourceIdentityRepository, getJson, hfault]
      cases hid : t.table[id]? with
      | some r => exact .inl (by simp [hok, hget, hid])
      | none =>
        rcases hfind with hfind | ⟨err, hfind⟩
        · cases hother : (t.keyed? spec).any fun existing => existing.id != id with
          | true => exact .inl (by simp [hok, hget, hid, hfind, hsearch, hother])
          | false =>
            rcases putResourceIdentity_faults io t spec id nowMs with hput | ⟨err, hput⟩
            · exact .inl (by simp [hok, hget, hid, hfind, hsearch, hother, hput])
            · exact .inr ⟨err, by simp [hok, hid, hfind, hother, hput, Except.map]⟩
        · exact .inr ⟨err, by simp [hok, hid, hfind]⟩

end Faults

/-! ### Resolutions with UUIDs -/

section Resolve

variable {t : RedbIdentities} {parseStr : String → Option Uuid} {spec : ResourceSpec}
  {minted : Uuid} {nowMs : Int} {r : ResourceIdentityRecord}

/-- The record of an explicit id answers for the request or refuses it. -/
theorem resolveUuid_of_record {id : Uuid} (hr : t.table[id.toText]? = some r)
    (hparse : parseStr id.toText = some id) :
    resolveOrCreateResourceIdentityUuid redb t parseStr spec (some id) minted nowMs =
      (t, if resourceIdentityRecordMatches r spec then .ok id
        else .error (idRegistered id.toText)) := by
  have hrid : r.id = id.toText := t.keyed _ r hr
  unfold resolveOrCreateResourceIdentityUuid
  rw [resolve_eq]
  cases hmatch : resourceIdentityRecordMatches r spec <;> simp [hr, hmatch, hrid, hparse]

/-- The record of the key refuses another explicit id. -/
theorem resolveUuid_of_keyed_explicit {id : Uuid} (hid : t.table[id.toText]? = none)
    (hkeyed : t.keyed? spec = some r) :
    resolveOrCreateResourceIdentityUuid redb t parseStr spec (some id) minted nowMs =
      (t, .error (identityRegistered spec)) := by
  unfold resolveOrCreateResourceIdentityUuid
  rw [resolve_eq]
  simp [hid, hkeyed]

/-- The record of the key gives the id that its text is read as. -/
theorem resolveUuid_of_keyed (hkeyed : t.keyed? spec = some r) :
    resolveOrCreateResourceIdentityUuid redb t parseStr spec none minted nowMs =
      match parseStr r.id with
      | some id => (t, .ok id)
      | none => (t, .error (identityRegistered spec)) := by
  unfold resolveOrCreateResourceIdentityUuid
  rw [resolve_eq]
  cases hparse : parseStr r.id <;> simp [hkeyed, hparse]

/-- A new record is made. -/
theorem resolveUuid_of_new {explicit : Option Uuid}
    (hexplicit : (explicit.bind fun id => t.table[id.toText]?) = none)
    (hkeyed : t.keyed? spec = none)
    (hparse : parseStr (explicit.getD minted).toText = some (explicit.getD minted)) :
    resolveOrCreateResourceIdentityUuid redb t parseStr spec explicit minted nowMs =
      (t.insert (identityRecord spec (explicit.getD minted).toText nowMs),
        .ok (explicit.getD minted)) := by
  unfold resolveOrCreateResourceIdentityUuid
  rw [resolve_eq]
  cases explicit with
  | none =>
    have hparse' : parseStr minted.toText = some minted := hparse
    simp [hkeyed, hparse']
  | some id =>
    have hid : t.table[id.toText]? = none := hexplicit
    have hparse' : parseStr id.toText = some id := hparse
    simp [hid, hkeyed, hparse']

end Resolve

/-! ### One registration -/

/-- The actor that the factory of the kind makes of a request. -/
def madeBy (factories : Table String ActorFactory) (registration : ResourceRegistration) :
    Option FactoryActor :=
  (factories.get? registration.kind).bind fun factory => (factory registration).toOption

namespace RegistrarState

variable {s : RegistrarState δ} {factories : Table String ActorFactory} {env : RegistrarEnv δ}
  {registration : ResourceRegistration} {actor : FactoryActor}

/-- All or nothing: an error leaves everything, and a returned id is that of an entry of the
directory and of a record for the actor's kind and name. -/
def AllOrNothing (s : RegistrarState δ) (made : Option FactoryActor) :
    RegistrarState δ × Except ResourceRegistrationError String → Prop
  | (s', .error _) => s' = s
  | (s', .ok id) => (∃ e, s'.directory.getById id = some e) ∧
    ∃ actor ∈ made, ∃ r, s'.identities.table[id]? = some r ∧
      r.kind = actor.spec.kind ∧ r.name = actor.spec.name

/-- What a registration needs of the directory and of the records: an id for a new record is not in
the directory, and an id found by the key, unless the directory has it, is one under which there is
a record for the kind and the name. -/
structure Sound (s : RegistrarState δ) (parseStr : String → Option Uuid) (spec : ResourceSpec)
    (explicit : Option Uuid) (minted : Uuid) : Prop where
  fresh : (explicit.bind fun id => s.identities.table[id.toText]?) = none →
    s.identities.keyed? spec = none → s.directory.containsId (explicit.getD minted).toText = false
  stored : explicit = none → ∀ r ∈ s.identities.keyed? spec, ∀ id ∈ parseStr r.id,
    s.directory.containsId id.toText = false →
      ∃ r', s.identities.table[id.toText]? = some r' ∧ r'.kind = spec.kind ∧ r'.name = spec.name

/-- The resolution of a registration. -/
def resolve (s : RegistrarState δ) (env : RegistrarEnv δ) (spec : ResourceSpec)
    (explicit : Option Uuid) : RedbIdentities × Except ResourceIdentityError Uuid :=
  resolveOrCreateResourceIdentityUuid (some (RedbResourceIdentityRepository env.io)) s.identities
    env.parseStr spec explicit env.minted env.nowMs

/-- Without an actor nothing happens. -/
theorem allOrNothing_of_not_made (h : madeBy factories registration = none) :
    s.AllOrNothing (madeBy factories registration) (s.register factories env registration) := by
  rw [madeBy] at h
  unfold register
  cases hfactory : factories.get? registration.kind with
  | none => exact rfl
  | some factory =>
    cases hactor : factory registration with
    | error err =>
      simp only [hactor]
      exact rfl
    | ok actor => simp [hfactory, hactor, Except.toOption] at h

theorem made (h : madeBy factories registration = some actor) :
    ∃ factory, factories.get? registration.kind = some factory ∧
      factory registration = .ok actor := by
  obtain ⟨factory, hfactory, hactor⟩ := Option.bind_eq_some_iff.mp h
  refine ⟨factory, hfactory, ?_⟩
  cases hresult : factory registration with
  | error err => simp [hresult, Except.toOption] at hactor
  | ok actor' =>
    rw [hresult] at hactor
    obtain rfl : actor' = actor := by simpa [Except.toOption] using hactor
    rfl

/-- A request whose actor is made. -/
theorem register_eq (hpersistent : s.persistent = true)
    (hmade : madeBy factories registration = some actor) :
    s.register factories env registration =
      match s.resolve env actor.spec registration.id with
      | (identities, .error err) =>
        ({ s with identities }, .error (registrationIdentityError err))
      | (identities, .ok id) =>
        match s.directory.registerWithId id.toText actor with
        | (directory, .error err) =>
          ({ s with identities, directory }, .error (registrationResourceError err))
        | (directory, .ok ()) =>
          let s := { s with identities, directory }
          ({ s with snapshots := s.persistLatest env id.toText }, .ok id.toText) := by
  obtain ⟨factory, hfactory, hactor⟩ := made hmade
  unfold register resolve
  simp only [hfactory, hactor]
  rewrite [if_pos hpersistent]
  rfl

/-- An error of the resolution must have left the records. -/
theorem allOrNothing_of_error_iff (hpersistent : s.persistent = true)
    (hmade : madeBy factories registration = some actor) {t : RedbIdentities}
    {err : ResourceIdentityError}
    (hresolve : s.resolve env actor.spec registration.id = (t, .error err)) :
    s.AllOrNothing (madeBy factories registration) (s.register factories env registration) ↔
      t = s.identities := by
  rw [register_eq hpersistent hmade, hresolve]
  constructor
  · exact fun heq => congrArg RegistrarState.identities heq
  · rintro rfl
    exact rfl

/-- **A resolved id** has to be new to the directory if a record was made for it, and to be that of
a record for the actor if it is new. -/
theorem allOrNothing_of_ok_iff (hpersistent : s.persistent = true)
    (hmade : madeBy factories registration = some actor) {t : RedbIdentities} {id : Uuid}
    (hresolve : s.resolve env actor.spec registration.id = (t, .ok id)) :
    s.AllOrNothing (madeBy factories registration) (s.register factories env registration) ↔
      (s.directory.containsId id.toText = true → t = s.identities) ∧
      (s.directory.containsId id.toText = false → ∃ r, t.table[id.toText]? = some r ∧
        r.kind = actor.spec.kind ∧ r.name = actor.spec.name) := by
  rw [register_eq hpersistent hmade, hresolve, hmade]
  dsimp only
  -- the directory knows the id, or registers it
  cases hcontains : s.directory.containsId id.toText with
  | true =>
    have hregister : s.directory.registerWithId id.toText actor =
        (s.directory, .error (duplicateResourceId id.toText)) := if_pos hcontains
    rw [hregister]
    constructor
    · intro heq
      have ht : t = s.identities := congrArg RegistrarState.identities heq
      simp [ht]
    · intro h
      obtain rfl := h.1 rfl
      exact rfl
  | false =>
    have hregister : s.directory.registerWithId id.toText actor =
        s.directory.insert { id := id.toText, kind := actor.spec.kind, streams := actor.streams } :=
      if_neg (by simp [hcontains])
    rcases s.directory.insert_cases
      { id := id.toText, kind := actor.spec.kind, streams := actor.streams } with
      ⟨htaken, -⟩ | ⟨-, hok, hentry⟩
    · rw [hcontains] at htaken
      cases htaken
    · rw [hregister]
      cases hinsert : s.directory.insert
        { id := id.toText, kind := actor.spec.kind, streams := actor.streams } with
      | mk directory result =>
        rw [hinsert] at hok hentry
        obtain rfl : result = .ok () := hok
        simp [AllOrNothing, hentry]

/-- A new record changes the records. -/
theorem insert_ne {t : RedbIdentities} {spec : ResourceSpec} (hkeyed : t.keyed? spec = none)
    (id : String) (nowMs : Int) : t.insert (identityRecord spec id nowMs) ≠ t := by
  intro heq
  have hself := getElem?_insert_self t (identityRecord spec id nowMs)
  rw [heq] at hself
  have hkey := keyed?_eq_none.mp hkeyed _ _ hself
  simp [identityRecord, resourceIdentityKeys_eq] at hkey

/-- **Without failures of the storage** a registration is all or nothing exactly when it is
sound. -/
theorem allOrNothing_iff_sound (hpersistent : s.persistent = true)
    (hmade : madeBy factories registration = some actor) (hio : env.io = {})
    (hminted : env.parseStr env.minted.toText = some env.minted)
    (hid : ∀ id ∈ registration.id, env.parseStr id.toText = some id) :
    s.AllOrNothing (madeBy factories registration) (s.register factories env registration) ↔
      s.Sound env.parseStr actor.spec registration.id env.minted := by
  have hresolve : s.resolve env actor.spec registration.id =
      resolveOrCreateResourceIdentityUuid redb s.identities env.parseStr actor.spec registration.id
        env.minted env.nowMs := by rw [resolve, hio]
  cases hexplicit : registration.id.bind fun id => s.identities.table[id.toText]? with
  | some r =>
    obtain ⟨id, hregistration, hr⟩ := Option.bind_eq_some_iff.mp hexplicit
    have hsound : s.Sound env.parseStr actor.spec registration.id env.minted := by
      refine ⟨fun hnone => ?_, fun hnone => ?_⟩
      · rw [hexplicit] at hnone
        cases hnone
      · rw [hregistration] at hnone
        cases hnone
    rw [hregistration, resolveUuid_of_record hr (hid id hregistration), ← hregistration] at hresolve
    refine iff_of_true ?_ hsound
    cases hmatch : resourceIdentityRecordMatches r actor.spec with
    | true =>
      rw [hmatch, if_pos rfl] at hresolve
      rw [allOrNothing_of_ok_iff hpersistent hmade hresolve]
      exact ⟨fun _ => rfl, fun _ => ⟨r, hr, matches_iff.mp hmatch⟩⟩
    | false =>
      rw [hmatch, if_neg Bool.false_ne_true] at hresolve
      exact (allOrNothing_of_error_iff hpersistent hmade hresolve).mpr rfl
  | none =>
    cases hkeyed : s.identities.keyed? actor.spec with
    | none =>
      have hparse : env.parseStr (registration.id.getD env.minted).toText =
          some (registration.id.getD env.minted) := by
        cases hregistration : registration.id with
        | none => exact hminted
        | some id => exact hid id hregistration
      rw [resolveUuid_of_new hexplicit hkeyed hparse] at hresolve
      rw [allOrNothing_of_ok_iff hpersistent hmade hresolve]
      constructor
      · intro h
        refine ⟨fun _ _ => ?_, fun _ r hr => by rw [hkeyed] at hr; cases hr⟩
        by_contra htaken
        exact insert_ne hkeyed _ _ (h.1 (by simpa using htaken))
      · intro hsound
        have hfree := hsound.fresh hexplicit hkeyed
        refine ⟨fun htaken => ?_, fun _ => ⟨_, getElem?_insert_self _ _, rfl, rfl⟩⟩
        rw [hfree] at htaken
        cases htaken
    | some r =>
      have hfresh : s.identities.keyed? actor.spec ≠ none := by simp [hkeyed]
      cases hregistration : registration.id with
      | some id =>
        rw [hregistration] at hexplicit hresolve
        rw [resolveUuid_of_keyed_explicit hexplicit hkeyed, ← hregistration] at hresolve
        exact iff_of_true ((allOrNothing_of_error_iff hpersistent hmade hresolve).mpr rfl)
          ⟨fun _ hnone => absurd hnone hfresh, fun hnone => by cases hnone⟩
      | none =>
        rw [hregistration, resolveUuid_of_keyed hkeyed, ← hregistration] at hresolve
        cases hparse : env.parseStr r.id with
        | none =>
          rw [hparse] at hresolve
          refine iff_of_true ((allOrNothing_of_error_iff hpersistent hmade hresolve).mpr rfl)
            ⟨fun _ hnone => absurd hnone hfresh, fun _ r' hr' id hid' => ?_⟩
          obtain rfl := Option.some.inj (hkeyed.symm.trans hr')
          rw [hparse] at hid'
          cases hid'
        | some id =>
          rw [hparse] at hresolve
          rw [allOrNothing_of_ok_iff hpersistent hmade hresolve]
          constructor
          · intro h
            refine ⟨fun _ hnone => absurd hnone hfresh, fun _ r' hr' id' hid' => ?_⟩
            obtain rfl := Option.some.inj (hkeyed.symm.trans hr')
            obtain rfl := Option.some.inj (hparse.symm.trans hid')
            exact h.2
          · exact fun hsound => ⟨fun _ => rfl, hsound.stored rfl r hkeyed id hparse⟩

/-- A failure of the storage makes no other outcome: the registration goes as without it, or fails
in the resolution and leaves the records. -/
theorem resolve_faults (env : RegistrarEnv δ) (spec : ResourceSpec) (explicit : Option Uuid) :
    s.resolve env spec explicit = s.resolve { env with io := {} } spec explicit ∨
      ∃ err, s.resolve env spec explicit = (s.identities, .error err) := by
  unfold resolve resolveOrCreateResourceIdentityUuid
  rcases Boardwalk.resolve_faults env.io s.identities spec (explicit.map Uuid.toText) env.minted
    env.nowMs with heq | ⟨err, herr⟩
  · left
    rw [heq]
  · right
    exact ⟨err, by rw [herr]⟩

/-- Whether a registration is all or nothing depends on how its id is resolved only. -/
theorem allOrNothing_congr (hpersistent : s.persistent = true)
    (hmade : madeBy factories registration = some actor) {env' : RegistrarEnv δ}
    (hresolve : s.resolve env actor.spec registration.id =
      s.resolve env' actor.spec registration.id) :
    s.AllOrNothing (madeBy factories registration) (s.register factories env registration) ↔
      s.AllOrNothing (madeBy factories registration) (s.register factories env' registration) := by
  cases h : s.resolve env' actor.spec registration.id with
  | mk t result =>
    rw [h] at hresolve
    cases result with
    | error err =>
      rw [allOrNothing_of_error_iff hpersistent hmade hresolve,
        allOrNothing_of_error_iff hpersistent hmade h]
    | ok id =>
      rw [allOrNothing_of_ok_iff hpersistent hmade hresolve,
        allOrNothing_of_ok_iff hpersistent hmade h]

/-- **A sound registration stays all or nothing** when the storage fails. -/
theorem Sound.allOrNothing (hpersistent : s.persistent = true)
    (hmade : madeBy factories registration = some actor)
    (hminted : env.parseStr env.minted.toText = some env.minted)
    (hid : ∀ id ∈ registration.id, env.parseStr id.toText = some id)
    (h : s.Sound env.parseStr actor.spec registration.id env.minted) :
    s.AllOrNothing (madeBy factories registration) (s.register factories env registration) := by
  rcases resolve_faults env actor.spec registration.id with hsame | ⟨err, herr⟩
  · have hio : ({ env with io := {} } : RegistrarEnv δ).io = {} := rfl
    rw [allOrNothing_congr hpersistent hmade hsame,
      allOrNothing_iff_sound hpersistent hmade hio hminted hid]
    exact h
  · exact (allOrNothing_of_error_iff hpersistent hmade herr).mpr rfl

/-- **Registration is all or nothing** for every directory, store and request that are sound, also
when the storage fails; and where it works, only for these. -/
theorem register_allOrNothing_iff (hpersistent : s.persistent = true)
    (hminted : env.parseStr env.minted.toText = some env.minted)
    (hid : ∀ id ∈ registration.id, env.parseStr id.toText = some id) :
    (env.io = {} →
      (s.AllOrNothing (madeBy factories registration) (s.register factories env registration) ↔
        ∀ actor ∈ madeBy factories registration,
          s.Sound env.parseStr actor.spec registration.id env.minted)) ∧
    ((∀ actor ∈ madeBy factories registration,
        s.Sound env.parseStr actor.spec registration.id env.minted) →
      s.AllOrNothing (madeBy factories registration) (s.register factories env registration)) := by
  cases hmade : madeBy factories registration with
  | none =>
    have hnothing : s.AllOrNothing none (s.register factories env registration) :=
      hmade ▸ allOrNothing_of_not_made hmade
    exact ⟨fun _ => iff_of_true hnothing (by simp), fun _ => hnothing⟩
  | some actor =>
    rw [← hmade]
    constructor
    · intro hio
      rw [allOrNothing_iff_sound hpersistent hmade hio hminted hid, hmade]
      simp
    · exact fun h => (h actor hmade).allOrNothing hpersistent hmade hminted hid

section Examples

/-- The value of a hexadecimal digit. -/
def hexValue? (c : Char) : Option ℕ :=
  if '0' ≤ c ∧ c ≤ '9' then some (c.toNat - '0'.toNat)
  else if 'a' ≤ c ∧ c ≤ 'f' then some (c.toNat - 'a'.toNat + 10)
  else if 'A' ≤ c ∧ c ≤ 'F' then some (c.toNat - 'A'.toNat + 10)
  else none

/-- `Uuid::parse_str` on texts with hyphens. -/
def parseHyphenated (text : String) : Option Uuid :=
  if (text.toList.splitOn '-').map List.length = [8, 4, 4, 4, 12] then
    ((text.toList.filter (· != '-')).mapM hexValue?).map fun digits =>
      BitVec.ofNat 128 (digits.foldl (fun n digit => 16 * n + digit) 0)
  else none

/-- An actor of kind `led` with the name in the request. -/
def ledFactories : Table String ActorFactory :=
  Table.empty.insert "led" fun registration =>
    .ok { spec := { kind := registration.kind, name := registration.name } }

/-- A request with an id of its own. -/
def ledRequest : ResourceRegistration where
  kind := "led"
  name := some "a"
  id := some 1

def ledEnv : RegistrarEnv Unit where
  parseStr := parseHyphenated
  node := "node"
  minted := 2
  nowMs := 0
  io := {}
  upserts := true
  reply := .error (.unavailable "stopped")

/-- A node with an empty store. -/
def emptyStoreNode (directory : ResourceDirectory) : RegistrarState Unit where
  directory := directory
  persistent := true
  identities := .empty
  snapshots := .empty

theorem parseStr_ledRequest : ∀ id ∈ ledRequest.id, ledEnv.parseStr id.toText = some id := by
  intro id hid
  obtain rfl : 1 = id := Option.some.inj hid
  decide

theorem register_allOrNothing_iff_led :
    (emptyStoreNode .new).AllOrNothing (madeBy ledFactories ledRequest)
      ((emptyStoreNode .new).register ledFactories ledEnv ledRequest) := by
  refine ((register_allOrNothing_iff rfl (by decide) parseStr_ledRequest).1 rfl).mpr ?_
  intro actor _
  exact ⟨fun _ _ => rfl, fun hnone => by cases hnone⟩

/-- The node once an actor has been put into its directory under the id of the request. -/
def occupiedNode : RegistrarState Unit :=
  emptyStoreNode (ResourceDirectory.new.registerWithId (Uuid.toText 1)
    { spec := { kind := "led", name := some "b" } }).1

/-- **A conflict in the directory leaves a record behind** for an actor that was never started. -/
theorem register_leaks :
    ¬ occupiedNode.AllOrNothing (madeBy ledFactories ledRequest)
      (occupiedNode.register ledFactories ledEnv ledRequest) := by
  have hmade : madeBy ledFactories ledRequest =
      some { spec := { kind := "led", name := some "a" } } := rfl
  rw [allOrNothing_iff_sound rfl hmade rfl (by decide) parseStr_ledRequest]
  intro hsound
  have hfree := hsound.fresh (by simp [occupiedNode, emptyStoreNode, ledRequest,
    RedbIdentities.empty]) (keyed?_empty _)
  exact absurd hfree (by decide)

end Examples

end RegistrarState

end Boardwalk
