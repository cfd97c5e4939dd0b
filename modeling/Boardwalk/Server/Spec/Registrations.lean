import Boardwalk.Server.Registrations
import Boardwalk.Server.Spec.Identity

/-!
# Identity keys under concurrent registration

A call that runs alone is `resolve_or_create_resource_identity` (`alone`).  With others in between,
what its search and its scan found may be old when it writes.  A run keeps the keys of the records
apart exactly when every write would still pass the scan (`Rechecked`), and what calls return agrees
when a write does not replace a record of another key either (`KeepsKeys`).
-/

namespace Boardwalk

open RedbIdentities

/-! ### One transaction -/

namespace Registration

variable {reg : Registration} {t t' : RedbIdentities} {fault : Option StorageError} {minted : Uuid}
  {nowMs : Int} {phase : RegistrationPhase}

/-- What a search returns is the record that it finds. -/
theorem found_answers (h : t.Named) {id : String}
    (hfound : reg.found minted nowMs (t.keyed? reg.spec) = .returned (.ok id)) :
    t.Answers reg.spec id := by
  unfold found at hfound
  split at hfound
  · split at hfound <;> cases hfound
  · cases hkeyed : t.keyed? reg.spec with
    | some r =>
      rw [hkeyed] at hfound
      obtain rfl : r.id = id := by simpa using hfound
      exact h.answers_of_keyed hkeyed
    | none =>
      rw [hkeyed] at hfound
      cases hfound

/-- **What a transaction can do**: write the record of the call, or leave the table, and then an id
is returned only if its record answers for the resource. -/
theorem advance_cases (h : t.Named) (hadvance : reg.advance t fault minted nowMs = some (t', phase)) :
    (∃ id nowMs, reg.phase = .write id nowMs ∧ fault = none ∧
      t' = t.insert (identityRecord reg.spec id nowMs) ∧ phase = .returned (.ok id)) ∨
    (¬ ∃ id nowMs, reg.phase = .write id nowMs ∧ fault = none) ∧ t' = t ∧
      ∀ id, phase = .returned (.ok id) → t.Answers reg.spec id := by
  unfold advance at hadvance
  cases hphase : reg.phase with
  | get id =>
    right
    rw [hphase] at hadvance
    refine ⟨by simp, ?_⟩
    cases fault with
    | some err =>
      obtain ⟨rfl, rfl⟩ : t = t' ∧ _ = phase := by simpa [getJson] using hadvance
      exact ⟨rfl, by simp⟩
    | none =>
      cases hr : t.table[id]? with
      | none =>
        obtain ⟨rfl, rfl⟩ : t = t' ∧ _ = phase := by simpa [getJson, hr] using hadvance
        exact ⟨rfl, by simp⟩
      | some existing =>
        by_cases hmatch : resourceIdentityRecordMatches existing reg.spec = true
        · obtain ⟨rfl, rfl⟩ : t = t' ∧ _ = phase := by simpa [getJson, hr, hmatch] using hadvance
          refine ⟨rfl, fun id' hid => ?_⟩
          obtain rfl : id = id' := by simpa using hid
          exact h.answers_of_matches hr hmatch
        · obtain ⟨rfl, rfl⟩ : t = t' ∧ _ = phase := by simpa [getJson, hr, hmatch] using hadvance
          exact ⟨rfl, by simp⟩
  | find =>
    right
    rw [hphase] at hadvance
    refine ⟨by simp, ?_⟩
    cases fault with
    | some err =>
      rw [resourceIdentityKeys_eq] at hadvance
      obtain ⟨rfl, rfl⟩ : t = t' ∧ _ = phase := by
        simpa [findResourceIdentity, RedbResourceIdentityRepository, findByIdentityKey, listJson,
          Except.map] using hadvance
      exact ⟨rfl, by simp⟩
    | none =>
      simp only [find_eq, Option.some.injEq, Prod.mk.injEq] at hadvance
      obtain ⟨rfl, rfl⟩ := hadvance
      exact ⟨rfl, fun id hid => found_answers h hid⟩
  | scan id nowMs =>
    right
    rw [hphase] at hadvance
    refine ⟨by simp, ?_⟩
    cases fault with
    | some err =>
      obtain ⟨rfl, rfl⟩ : t = t' ∧ _ = phase := by simpa [listJson] using hadvance
      exact ⟨rfl, by simp⟩
    | none =>
      cases howner : otherOwner t.records (identityRecord reg.spec id nowMs) <;>
        · obtain ⟨rfl, rfl⟩ : t = t' ∧ _ = phase := by simpa [listJson, howner] using hadvance
          exact ⟨rfl, by simp⟩
  | write id nowMs =>
    rw [hphase] at hadvance
    cases fault with
    | some err =>
      right
      obtain ⟨rfl, rfl⟩ : t = t' ∧ _ = phase := by
        simpa [putJson, Except.mapError, Except.map] using hadvance
      exact ⟨by simp, rfl, by simp⟩
    | none =>
      left
      obtain ⟨rfl, rfl⟩ : _ = t' ∧ _ = phase := by
        simpa [putJson, Except.mapError, Except.map] using hadvance
      exact ⟨id, nowMs, rfl, rfl, rfl, rfl⟩
  | returned result =>
    rw [hphase] at hadvance
    cases hadvance

end Registration

/-! ### One step -/

namespace Registrations

variable {s s' : Registrations} {a : RegistrationsAction}

/-- The record that a step writes. -/
def written (s : Registrations) : RegistrationsAction → Option ResourceIdentityRecord
  | .start _ _ => none
  | .advance k fault _ _ => do
    let reg ← s.calls[k]?
    match reg.phase, fault with
    | .write id nowMs, none => some (identityRecord reg.spec id nowMs)
    | _, _ => none

/-- The calls that have returned an id have a record with the id that answers for their resource. -/
structure Invariant (s : Registrations) : Prop where
  named : s.identities.Named
  answers : ∀ reg ∈ s.calls, ∀ id, reg.phase = .returned (.ok id) → s.identities.Answers reg.spec id

/-- The scan of `put`, made again at a write, finds nothing. -/
def Rechecked (s : Registrations) (a : RegistrationsAction) : Prop :=
  ∀ record ∈ s.written a, otherOwner s.identities.records record = none

/-- A write does not replace a record of other keys. -/
def KeepsKeys (s : Registrations) (a : RegistrationsAction) : Prop :=
  ∀ record ∈ s.written a, ∀ r ∈ s.identities.table[record.id]?,
    r.identityKeys = record.identityKeys

/-- **What a step does**: it writes a record or leaves the table, and the calls that have returned
in it have answers. -/
theorem step_cases (hnamed : s.identities.Named) (hstep : step s a = some s') :
    (∃ spec id nowMs, s.written a = some (identityRecord spec id nowMs) ∧
      s'.identities = s.identities.insert (identityRecord spec id nowMs) ∧
      ∀ reg ∈ s'.calls, reg ∈ s.calls ∨ reg.spec = spec ∧ reg.phase = .returned (.ok id)) ∨
    (s.written a = none ∧ s'.identities = s.identities ∧
      ∀ reg ∈ s'.calls, reg ∈ s.calls ∨
        ∀ id, reg.phase = .returned (.ok id) → s.identities.Answers reg.spec id) := by
  -- only the write changes the store, and it answers with the id it wrote
  cases a with
  | start spec explicit =>
    right
    obtain rfl : _ = s' := by simpa [step] using hstep
    refine ⟨rfl, rfl, fun reg hreg => ?_⟩
    rcases List.mem_append.mp hreg with hreg | hreg
    · exact .inl hreg
    · obtain rfl := List.mem_singleton.mp hreg
      right
      intro id hid
      cases explicit <;> cases hid
  | advance k fault minted nowMs =>
    simp only [step, Option.bind_eq_bind, Option.bind_eq_some_iff] at hstep
    obtain ⟨reg, hreg, ⟨t', phase⟩, hadvance, hs'⟩ := hstep
    obtain rfl := Option.some.inj hs'
    have hcalls (reg' : Registration) (h : reg' ∈ s.calls.set k { reg with phase }) :
        reg' ∈ s.calls ∨ reg' = { reg with phase } := List.mem_or_eq_of_mem_set h
    rcases Registration.advance_cases hnamed hadvance with
      ⟨id, nowMs, hphase, rfl, rfl, rfl⟩ | ⟨hread, rfl, hanswers⟩
    · left
      refine ⟨reg.spec, id, nowMs, ?_, rfl, fun reg' hreg' => ?_⟩
      · simp [written, hreg, hphase]
      · rcases hcalls reg' hreg' with hold | rfl
        · exact .inl hold
        · exact .inr ⟨rfl, rfl⟩
    · right
      refine ⟨?_, rfl, fun reg' hreg' => ?_⟩
      · simp only [written, hreg, Option.bind_eq_bind, Option.bind_some]
        split
        · rename_i id nowMs hphase
          exact absurd ⟨id, nowMs, hphase, rfl⟩ hread
        · rfl
      · rcases hcalls reg' hreg' with hold | rfl
        · exact .inl hold
        · exact .inr hanswers

theorem named_step (h : s.identities.Named) (hstep : step s a = some s') : s'.identities.Named := by
  rcases step_cases h hstep with ⟨spec, id, nowMs, -, ht, -⟩ | ⟨-, ht, -⟩
  · rw [ht]
    exact h.insert spec id nowMs
  · rw [ht]
    exact h

theorem keysUnique_step_iff (hnamed : s.identities.Named) (h : s.identities.KeysUnique)
    (hstep : step s a = some s') : s'.identities.KeysUnique ↔ Rechecked s a := by
  rcases step_cases hnamed hstep with ⟨spec, id, nowMs, hwritten, ht, -⟩ | ⟨hwritten, ht, -⟩
  · rw [ht, h.insert_iff, Rechecked, hwritten]
    simp
  · rw [ht, Rechecked, hwritten]
    simp [h]

/-- **Answers stay** as long as writes keep the keys. -/
theorem Invariant.step (h : Invariant s) (hkeeps : KeepsKeys s a) (hstep : step s a = some s') :
    Invariant s' := by
  refine ⟨named_step h.named hstep, fun reg hreg id hid => ?_⟩
  rcases step_cases h.named hstep with
    ⟨spec, id', nowMs, hwritten, ht, hcalls⟩ | ⟨-, ht, hcalls⟩
  · rw [ht]
    rcases hcalls reg hreg with hold | ⟨hspec, hphase⟩
    · exact (h.answers reg hold id hid).insert (hkeeps _ hwritten)
    · rw [hid] at hphase
      obtain rfl : id = id' := by simpa using hphase
      rw [hspec]
      exact .insert_self s.identities spec id nowMs
  · rw [ht]
    rcases hcalls reg hreg with hold | hanswers
    · exact h.answers reg hold id hid
    · exact hanswers id hid

/-- Two calls for the same kind and name have not returned different ids. -/
def Agree (s : Registrations) : Prop :=
  ∀ reg ∈ s.calls, ∀ reg' ∈ s.calls, reg.spec.kind = reg'.spec.kind →
    reg.spec.name = reg'.spec.name → ∀ id id', reg.phase = .returned (.ok id) →
      reg'.phase = .returned (.ok id') → id = id'

theorem Invariant.agree (h : Invariant s) (hunique : s.identities.KeysUnique) : Agree s := by
  intro reg hreg reg' hreg' hkind hname id id' hid hid'
  have hanswers := h.answers reg hreg id hid
  refine (hanswers.same_id_iff hunique (h.answers reg' hreg' id' hid')).mpr ?_
  exact identityKey_eq_iff.mpr (.inl ⟨hkind, hname⟩)

/-! ### A call that runs alone -/

section Alone

variable {calls : List Registration} {k : ℕ} {reg : Registration} {t t' : RedbIdentities}

theorem leads_advance (hk : k < calls.length) (fault : Option StorageError) (minted : Uuid)
    (nowMs : Int) {phase : RegistrationPhase}
    (h : reg.advance t fault minted nowMs = some (t', phase)) :
    machine.Leads ⟨t, calls.set k reg⟩ ⟨t', calls.set k { reg with phase }⟩ := by
  refine Machine.Leads.single (a := .advance k fault minted nowMs) ?_
  simp [machine, step, hk, h]

/-- The two transactions of `put`. -/
theorem leads_put (reg : Registration) (t : RedbIdentities) (hk : k < calls.length) (io : IoFaults)
    (id : String) (nowMs : Int) :
    machine.Leads ⟨t, calls.set k { reg with phase := .scan id nowMs }⟩
      ⟨(putResourceIdentity (RedbResourceIdentityRepository io) t reg.spec id nowMs).1,
        calls.set k { reg with
          phase := .returned ((putResourceIdentity (RedbResourceIdentityRepository io) t reg.spec id
            nowMs).2.map fun _ => id) }⟩ := by
  -- the scan fails, finds another owner, or leaves the write to do
  cases hscan : io.scan with
  | some err =>
    refine leads_advance hk (some err) 0 nowMs ?_
    simp [Registration.advance, putResourceIdentity, RedbResourceIdentityRepository, put, listJson,
      hscan, Except.mapError, Except.map]
  | none =>
    cases howner : otherOwner t.records (identityRecord reg.spec id nowMs) with
    | some existing =>
      refine leads_advance hk none 0 nowMs ?_
      simp [Registration.advance, putResourceIdentity, RedbResourceIdentityRepository, put, listJson,
        hscan, howner, Except.mapError, Except.map]
    | none =>
      have hread : machine.Leads ⟨t, calls.set k { reg with phase := .scan id nowMs }⟩
          ⟨t, calls.set k { reg with phase := .write id nowMs }⟩ := by
        refine leads_advance hk none 0 nowMs ?_
        simp [Registration.advance, listJson, howner]
      refine hread.trans (leads_advance hk io.write 0 nowMs ?_)
      simp [Registration.advance, putResourceIdentity, RedbResourceIdentityRepository, put, listJson,
        hscan, howner]

/-- The search does not depend on the other operations. -/
theorem findResourceIdentity_eq (io : IoFaults) (t : RedbIdentities) (spec : ResourceSpec) :
    findResourceIdentity (RedbResourceIdentityRepository { find := io.find }) t
        (resourceIdentityKeys spec) =
      findResourceIdentity (RedbResourceIdentityRepository io) t (resourceIdentityKeys spec) := by
  rw [resourceIdentityKeys_eq]
  rfl

/-- The search, when it does not fail. -/
theorem leads_find (reg : Registration) (hk : k < calls.length) (io : IoFaults) (minted : Uuid)
    (nowMs : Int) (hphase : reg.phase = .find) {existing : Option ResourceIdentityRecord}
    (hfind : findResourceIdentity (RedbResourceIdentityRepository io) t
      (resourceIdentityKeys reg.spec) = .ok existing) :
    machine.Leads ⟨t, calls.set k reg⟩
      ⟨t, calls.set k { reg with phase := reg.found minted nowMs existing }⟩ := by
  refine leads_advance hk io.find minted nowMs ?_
  simp only [Registration.advance, hphase, findResourceIdentity_eq io, hfind]

/-- **A call that runs alone** is `resolve_or_create_resource_identity`, also when its transactions
fail. -/
theorem alone (hk : k < calls.length) (io : IoFaults) (spec : ResourceSpec)
    (explicit : Option String) (minted : Uuid) (nowMs : Int) :
    machine.Leads ⟨t, calls.set k (.start spec explicit)⟩
      ⟨(resolveOrCreateResourceIdentity (some (RedbResourceIdentityRepository io)) t spec explicit
          minted nowMs).1,
        calls.set k ⟨spec, explicit, .returned (resolveOrCreateResourceIdentity
          (some (RedbResourceIdentityRepository io)) t spec explicit minted nowMs).2⟩⟩ := by
  -- each lookup that fails or finds ends the call; the last one puts
  cases explicit with
  | none =>
    cases hfind : findResourceIdentity (RedbResourceIdentityRepository io) t
      (resourceIdentityKeys spec) with
    | error err =>
      refine leads_advance hk io.find minted nowMs ?_
      simp [Registration.advance, Registration.start, findResourceIdentity_eq io,
        resolveOrCreateResourceIdentity, hfind]
    | ok existing =>
      have hfound := leads_find (.start spec none) hk io minted nowMs rfl hfind
      cases existing with
      | some existing =>
        simpa [Registration.found, Registration.start, resolveOrCreateResourceIdentity, hfind]
          using hfound
      | none =>
        have hput := leads_put (.start spec none) t hk io minted.toText nowMs
        simpa [Registration.found, Registration.start, resolveOrCreateResourceIdentity, hfind]
          using hfound.trans hput
  | some id =>
    cases hget : getJson io.get t id with
    | error err =>
      refine leads_advance hk io.get minted nowMs ?_
      simp [Registration.advance, Registration.start, resolveOrCreateResourceIdentity,
        RedbResourceIdentityRepository, hget]
    | ok record =>
      cases record with
      | some existing =>
        refine leads_advance hk io.get minted nowMs ?_
        cases hmatch : resourceIdentityRecordMatches existing spec <;>
          simp [Registration.advance, Registration.start, resolveOrCreateResourceIdentity,
            RedbResourceIdentityRepository, hget, hmatch]
      | none =>
        have hnone : (RedbResourceIdentityRepository io).get t id = .ok none := hget
        have hread : machine.Leads ⟨t, calls.set k (.start spec (some id))⟩
            ⟨t, calls.set k ⟨spec, some id, .find⟩⟩ := by
          refine leads_advance hk io.get minted nowMs ?_
          simp [Registration.advance, Registration.start, hget]
        cases hfind : findResourceIdentity (RedbResourceIdentityRepository io) t
          (resourceIdentityKeys spec) with
        | error err =>
          refine hread.trans (leads_advance hk io.find minted nowMs ?_)
          simp [Registration.advance, findResourceIdentity_eq io, resolveOrCreateResourceIdentity,
            hnone, hfind]
        | ok existing =>
          have hfound := hread.trans
            (leads_find ⟨spec, some id, .find⟩ hk io minted nowMs rfl hfind)
          cases hother : existing.any fun existing => existing.id != id with
          | true =>
            simpa [Registration.found, resolveOrCreateResourceIdentity, hnone, hfind, hother]
              using hfound
          | false =>
            have hput := leads_put ⟨spec, some id, .find⟩ t hk io id nowMs
            simp only [Registration.found, hother] at hfound
            simpa [resolveOrCreateResourceIdentity, hnone, hfind, hother] using hfound.trans hput
end Alone

/-! ### Runs -/

theorem invariant_init : Invariant machine.init where
  named := named_empty
  answers reg hreg := by cases hreg

/-- **Concurrent registrations.** In whatever order any number of calls take their transactions, the
keys of the records are apart in every state exactly when at every write the scan of `put`, made
again, would find nothing; and as long as no write replaces a record of other keys either, calls for
the same kind and name return the same id. -/
theorem keysUnique_iff (as : List RegistrationsAction) :
    (machine.StatesMeet (fun s => s.identities.KeysUnique) machine.init as ↔
      machine.StepsMeet Rechecked machine.init as) ∧
    (machine.StepsMeet (fun s a => Rechecked s a ∧ KeepsKeys s a) machine.init as →
      machine.StatesMeet (fun s => s.identities.KeysUnique ∧ Agree s) machine.init as) := by
  constructor
  · refine Machine.statesMeet_iff_stepsMeet (A := fun _ => True)
      (I := fun s => s.identities.Named) (fun s a t _ => named_step)
      (fun s a t _ => keysUnique_step_iff) (fun _ _ => trivial) named_empty keysUnique_empty
  · intro hsteps
    have hstates : machine.StatesMeet (fun s => Invariant s ∧ s.identities.KeysUnique)
        machine.init as := by
      refine Machine.statesMeet_of_stepsMeet (fun s a t h hG hstep => ?_)
        ⟨invariant_init, keysUnique_empty⟩ hsteps
      exact ⟨h.1.step hG.2 hstep, (keysUnique_step_iff h.1.named h.2 hstep).mpr hG.1⟩
    exact hstates.mono fun s h => ⟨h.2, h.1.agree h.2⟩

section Examples

def led : ResourceSpec where
  kind := "led"
  name := some "a"

/-- Two calls for one resource take their transactions in turn. -/
def race : List RegistrationsAction :=
  [.start led none, .start led none,
    .advance 0 none 1 0, .advance 1 none 2 0, -- neither finds a record
    .advance 0 none 1 0, .advance 1 none 2 0, -- nor does the scan of either
    .advance 0 none 1 0, .advance 1 none 2 0]

theorem isSome_run_race : (machine.run machine.init race).isSome = true := by decide

/-- **Two calls at the same time make two records** with one key, and return different ids. -/
theorem race_shares : ∃ s, machine.run machine.init race = some s ∧
    ¬ s.identities.KeysUnique ∧ ¬ Agree s := by
  have hrun := (Option.some_get isSome_run_race).symm
  refine ⟨_, hrun, fun hunique => ?_, fun hagree => ?_⟩
  · have hid := hunique (Uuid.toText 1) (Uuid.toText 2) (identityRecord led (Uuid.toText 1) 0)
      (identityRecord led (Uuid.toText 2) 0) (by decide) (by decide) (identityKey led) (by decide)
      (by decide)
    exact absurd hid (by decide)
  · have hid := hagree ⟨led, none, .returned (.ok (Uuid.toText 1))⟩ (by decide)
      ⟨led, none, .returned (.ok (Uuid.toText 2))⟩ (by decide) rfl rfl _ _ rfl rfl
    exact absurd hid (by decide)

end Examples

end Registrations

end Boardwalk
