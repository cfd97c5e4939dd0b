import Boardwalk.Lib.Party
import Boardwalk.Lib.Str
import Boardwalk.Runtime.Sequencer
import Boardwalk.Runtime.Spec.Publisher

/-!
# Sequence numbers and event ids

However the steps of concurrent allocations interleave, the numbers taken on a stream are the first
ones of its counter (`Counting`), so an event id, which can be cut at its last dash, belongs to one
allocation; and the reverse index has exactly the ids that were returned and not evicted since
(`Indexed`).
-/

namespace Boardwalk

/-- The decimal text of a number has no dash. -/
theorem not_dash_mem_toString (n : UInt64) : '-' ∉ (toString n).toList := by
  intro h
  have hrepr : toString n = n.toNat.repr := rfl
  rw [hrepr, Nat.toList_repr] at h
  have hdigit := Nat.isDigit_of_mem_toDigits (by omega) (by omega) h
  revert hdigit
  decide

/-- **An event id tells its stream and its sequence number**, whatever the stream is called. -/
theorem Allocated.numbered_inj {id id' : StreamId} {n n' : UInt64}
    (h : (Allocated.numbered id n).eventId = (Allocated.numbered id' n').eventId) :
    id = id' ∧ n = n' := by
  have htext := EventId.mk.inj h
  rw [show "-" = String.singleton '-' from rfl] at htext
  obtain ⟨hraw, hnum⟩ := Str.append_sep_inj (not_dash_mem_toString n) (not_dash_mem_toString n') htext
  refine ⟨?_, toString_inj_uint64 hnum⟩
  cases id
  cases id'
  exact congrArg StreamId.mk hraw

namespace Sequencer

variable {s s' : Sequencer} {r r' : StreamRegistry} {k : ℕ}

/-! ### What a step can do -/

/-- The operations of a call. -/
inductive Advance (s : Sequencer) (r : StreamRegistry) (k : ℕ) (c : AllocateCall) :
    Sequencer → StreamRegistry → Prop where
  | found (state : ℕ) (phase : c.phase = .lookup) (entry : s.perStream.get? c.streamId = some state) :
      Advance s r k c (s.setPhase k c (.fetchAdd state)) r
  | created (phase : c.phase = .lookup) (entry : s.perStream.get? c.streamId = none) :
      Advance s r k c ({ s with
        perStream := s.perStream.insert c.streamId s.states.length
        states := s.states ++ [1] }.setPhase k c (.fetchAdd s.states.length)) r
  | taken (state : ℕ) (sequence : UInt64) (phase : c.phase = .fetchAdd state)
      (counter : s.states[state]? = some sequence) :
      Advance s r k c ({ s with states := s.states.set state (sequence + 1) }.setPhase k c
        (.insert (.numbered c.streamId sequence))) r
  | inserted (a : Allocated) (phase : c.phase = .insert a) :
      Advance s r k c (s.setPhase k c (.returned a)) (r.insert a.eventId c.streamId)

theorem advance_cases (h : s.advance r k = some (s', r')) :
    ∃ c, s.calls[k]? = some c ∧ Advance s r k c s' r' := by
  unfold advance at h
  split at h
  · cases h
  rename_i c hk
  refine ⟨c, hk, ?_⟩
  -- one case for each phase of a call
  split at h
  · rename_i hp
    split at h
    · rename_i state hentry
      cases h
      exact .found state hp hentry
    · rename_i hentry
      cases h
      exact .created hp hentry
  · rename_i state hp
    split at h
    · cases h
    · rename_i sequence hcounter
      cases h
      exact .taken state sequence hp hcounter
  · rename_i a hp
    cases h
    exact .inserted a hp
  · cases h

theorem length_advance (h : s.advance r k = some (s', r')) :
    s'.calls.length = s.calls.length := by
  obtain ⟨c, -, hadv⟩ := advance_cases h
  cases hadv <;> exact List.length_set

/-! ### The numbers of a stream -/

/-- The number that a call has taken on a stream. -/
def numberOn (id : StreamId) (c : AllocateCall) : Option UInt64 :=
  if c.streamId = id then c.allocated.map (·.sequence) else none

/-- The numbers taken on a stream, in the order of their calls. -/
def taken (s : Sequencer) (id : StreamId) : List UInt64 := s.calls.filterMap (numberOn id)

/-- The first `n` numbers of a counter. -/
def firstNumbers (n : ℕ) : List UInt64 := (List.range n).map fun i => UInt64.ofNat (i + 1)

/-- The counters count what was taken. -/
structure Counting (s : Sequencer) : Prop where
  counter : ∀ id state, s.perStream.get? id = some state →
    s.states[state]? = some (UInt64.ofNat ((s.taken id).length + 1))
  owned : ∀ id id' state, s.perStream.get? id = some state → s.perStream.get? id' = some state →
    id = id'
  held : ∀ c ∈ s.calls, ∀ state, c.phase = .fetchAdd state →
    s.perStream.get? c.streamId = some state
  untouched : ∀ id, s.perStream.get? id = none → s.taken id = []
  numbered : ∀ c ∈ s.calls, ∀ a ∈ c.allocated, a = .numbered c.streamId a.sequence
  first : ∀ id, (s.taken id).Perm (firstNumbers (s.taken id).length)

theorem counting_init : Counting {} where
  counter := by simp [Table.empty]
  owned := by simp [Table.empty]
  held := by simp
  untouched _ _ := rfl
  numbered := by simp
  first _ := .refl _

theorem taken_allocate (s : Sequencer) (streamId id : StreamId) :
    (s.allocate streamId).taken id = s.taken id := by
  have hnone : numberOn id { streamId } = none := by simp [numberOn, AllocateCall.allocated]
  simp [taken, allocate, List.filterMap_append, hnone]

theorem Counting.allocate (h : s.Counting) (streamId : StreamId) :
    (s.allocate streamId).Counting := by
  have hmem : ∀ c ∈ (s.allocate streamId).calls, c ∈ s.calls ∨ c = { streamId } := by
    simp [Sequencer.allocate]
  refine ⟨fun id state hid => ?_, h.owned, fun c hc state hp => ?_, fun id hid => ?_,
    fun c hc a ha => ?_, fun id => ?_⟩
  · rw [taken_allocate]
    exact h.counter id state hid
  · rcases hmem c hc with hc | rfl
    · exact h.held c hc state hp
    · cases hp
  · rw [taken_allocate]
    exact h.untouched id hid
  · rcases hmem c hc with hc | rfl
    · exact h.numbered c hc a ha
    · cases ha
  · rw [taken_allocate]
    exact h.first id

/-- A move that takes no number. -/
theorem taken_setPhase {c : AllocateCall} {phase : AllocatePhase} (hk : s.calls[k]? = some c)
    (h : { c with phase }.allocated = c.allocated) (id : StreamId) :
    (s.setPhase k c phase).taken id = s.taken id := by
  refine Party.filterMap_set_of_eq hk ?_
  unfold numberOn
  rw [h]

theorem mem_setPhase {c d : AllocateCall} {phase : AllocatePhase}
    (h : d ∈ (s.setPhase k c phase).calls) : d = { c with phase } ∨ d ∈ s.calls :=
  (List.mem_or_eq_of_mem_set h).symm

/-- A call that holds its state, or has returned, moves. -/
theorem Counting.setPhase {c : AllocateCall} {phase : AllocatePhase} (h : s.Counting)
    (hk : s.calls[k]? = some c) (hsame : { c with phase }.allocated = c.allocated)
    (hheld : ∀ state, phase = .fetchAdd state → s.perStream.get? c.streamId = some state) :
    (s.setPhase k c phase).Counting := by
  have htaken := taken_setPhase hk hsame
  refine ⟨fun id state hid => ?_, h.owned, fun d hd state hp => ?_, fun id hid => ?_,
    fun d hd a ha => ?_, fun id => ?_⟩
  · rw [htaken]
    exact h.counter id state hid
  · rcases mem_setPhase hd with rfl | hd
    · exact hheld state hp
    · exact h.held d hd state hp
  · rw [htaken]
    exact h.untouched id hid
  · rcases mem_setPhase hd with rfl | hd
    · rw [hsame] at ha
      exact h.numbered c (List.mem_of_getElem? hk) a ha
    · exact h.numbered d hd a ha
  · rw [htaken]
    exact h.first id

/-- The entry of a stream is made. -/
theorem Counting.create (h : s.Counting) {id : StreamId} (hnone : s.perStream.get? id = none) :
    Counting { s with
      perStream := s.perStream.insert id s.states.length
      states := s.states ++ [1] } := by
  -- the states before the new one keep their places
  have hlt : ∀ {id' state}, s.perStream.get? id' = some state → state < s.states.length := by
    intro id' state hid
    exact (List.getElem?_eq_some_iff.mp (h.counter id' state hid)).1
  refine ⟨fun id' state hid => ?_, fun id₁ id₂ state h₁ h₂ => ?_, fun c hc state hp => ?_,
    fun id' hid => ?_, h.numbered, h.first⟩
  · -- the new stream has its own state; the other streams have theirs
    rcases Table.get?_insert_eq_some.mp hid with ⟨rfl, rfl⟩ | ⟨-, hid⟩
    · have hnil : s.taken id' = [] := h.untouched id' hnone
      change (s.states ++ [1])[s.states.length]? = some (UInt64.ofNat ((s.taken id').length + 1))
      rw [List.getElem?_concat_length, hnil]
      rfl
    · change (s.states ++ [1])[state]? = _
      rw [List.getElem?_append_left (hlt hid)]
      exact h.counter id' state hid
  · rcases Table.get?_insert_eq_some.mp h₁ with ⟨rfl, rfl⟩ | ⟨-, hold₁⟩
    · rcases Table.get?_insert_eq_some.mp h₂ with ⟨rfl, -⟩ | ⟨-, hold₂⟩
      · rfl
      · exact absurd (hlt hold₂) (Nat.lt_irrefl _)
    · rcases Table.get?_insert_eq_some.mp h₂ with ⟨rfl, rfl⟩ | ⟨-, hold₂⟩
      · exact absurd (hlt hold₁) (Nat.lt_irrefl _)
      · exact h.owned id₁ id₂ state hold₁ hold₂
  · exact Table.get?_insert_of_none hnone (h.held c hc state hp)
  · refine h.untouched id' ?_
    change (s.perStream.insert id s.states.length).get? id' = none at hid
    rw [Table.get?_insert] at hid
    split at hid
    · cases hid
    · exact hid

theorem firstNumbers_succ (n : ℕ) :
    firstNumbers (n + 1) = firstNumbers n ++ [UInt64.ofNat (n + 1)] := by
  simp [firstNumbers, List.range_succ]

/-- **A number is taken**: the next one of its stream. -/
theorem Counting.take {c : AllocateCall} {state : ℕ} {sequence : UInt64} (h : s.Counting)
    (hk : s.calls[k]? = some c) (hp : c.phase = .fetchAdd state)
    (hcounter : s.states[state]? = some sequence) :
    ({ s with states := s.states.set state (sequence + 1) }.setPhase k c
      (.insert (.numbered c.streamId sequence))).Counting := by
  have hentry := h.held c (List.mem_of_getElem? hk) state hp
  have hseq : sequence = UInt64.ofNat ((s.taken c.streamId).length + 1) :=
    Option.some.inj (hcounter.symm.trans (h.counter _ state hentry))
  have hnone : c.allocated = none := by simp [AllocateCall.allocated, hp]
  -- the other streams take nothing
  have hother : ∀ id, id ≠ c.streamId →
      ({ s with states := s.states.set state (sequence + 1) }.setPhase k c
        (.insert (.numbered c.streamId sequence))).taken id = s.taken id := by
    intro id hne
    refine Party.filterMap_set_of_eq hk ?_
    simp [numberOn, hne.symm]
  -- the new number is the count of those before it, plus one
  have hself : (({ s with states := s.states.set state (sequence + 1) }.setPhase k c
      (.insert (.numbered c.streamId sequence))).taken c.streamId).Perm
        (sequence :: s.taken c.streamId) := by
    refine Party.filterMap_set_perm hk ?_ ?_
    · simp [numberOn, hnone]
    · simp [numberOn, AllocateCall.allocated, Allocated.numbered]
  refine ⟨fun id state' hid => ?_, h.owned, fun d hd state' hp' => ?_, fun id hid => ?_,
    fun d hd a ha => ?_, fun id => ?_⟩
  · -- the stream of the call, or another
    by_cases hid' : id = c.streamId
    · subst hid'
      obtain rfl := Option.some.inj (hentry.symm.trans hid)
      have hlen := hself.length_eq
      rw [hlen, List.length_cons]
      have hlt := (List.getElem?_eq_some_iff.mp hcounter).1
      change (s.states.set state (sequence + 1))[state]? = _
      rw [List.getElem?_set_self hlt, hseq, ← UInt64.ofNat_one, ← UInt64.ofNat_add]
    · have hne : state ≠ state' := by
        rintro rfl
        exact hid' (h.owned id c.streamId _ hid hentry)
      rw [hother id hid']
      change (s.states.set state (sequence + 1))[state']? = _
      rw [List.getElem?_set_ne hne]
      exact h.counter id state' hid
  · rcases mem_setPhase hd with rfl | hd
    · cases hp'
    · exact h.held d hd state' hp'
  · have hne : id ≠ c.streamId := by
      rintro rfl
      rw [show s.perStream.get? c.streamId = none from hid] at hentry
      cases hentry
    rw [hother id hne]
    exact h.untouched id hid
  · rcases mem_setPhase hd with rfl | hd
    · obtain rfl := Option.some.inj ha
      rfl
    · exact h.numbered d hd a ha
  · by_cases hid' : id = c.streamId
    · subst hid'
      have hlen := hself.length_eq
      rw [hlen, List.length_cons, firstNumbers_succ, ← hseq]
      exact hself.trans (((h.first _).cons _).trans (List.perm_append_singleton _ _).symm)
    · rw [hother id hid']
      exact h.first id

theorem Counting.advance (h : s.Counting) (hs : s.advance r k = some (s', r')) : s'.Counting := by
  obtain ⟨c, hk, hadv⟩ := advance_cases hs
  cases hadv with
  | found state hp hentry =>
    refine h.setPhase hk (by simp [AllocateCall.allocated, hp]) fun state' heq => ?_
    obtain rfl := AllocatePhase.fetchAdd.inj heq
    exact hentry
  | created hp hentry =>
    have hcreated := h.create hentry
    refine hcreated.setPhase hk (by simp [AllocateCall.allocated, hp]) fun state' heq => ?_
    obtain rfl := AllocatePhase.fetchAdd.inj heq
    exact Table.get?_insert_self ..
  | taken state sequence hp hcounter => exact h.take hk hp hcounter
  | inserted a hp =>
    exact h.setPhase hk (by simp [AllocateCall.allocated, hp]) fun _ heq => by cases heq

/-! ### The reverse index -/

/-- What the returned calls entered into the reverse index. -/
def entered (s : Sequencer) : List (EventId × StreamId) :=
  s.calls.filterMap fun c => c.result.map fun a => (a.eventId, c.streamId)

/-- The ids that were evicted since they were entered. -/
def evictedSince (x : Sequencer × StreamRegistry) (a : SequencerAction)
    (evicted : List EventId) : List EventId :=
  match a with
  | .allocate _ => evicted
  | .evict id => id :: evicted
  | .advance k =>
    match x.1.calls[k]? with
    | some { phase := .insert a, .. } => evicted.filter (· ≠ a.eventId)
    | _ => evicted

/-- The reverse index has what was entered and not evicted since. -/
def Indexed (x : Sequencer × StreamRegistry) (evicted : List EventId) : Prop :=
  ∀ id streamId, x.2.streamFor id = some streamId ↔ (id, streamId) ∈ x.1.entered ∧ id ∉ evicted

theorem result_eq_allocated {c : AllocateCall} {a : Allocated} (h : c.result = some a) :
    c.allocated = some a := by
  obtain ⟨streamId, phase⟩ := c
  cases phase with
  | returned b => exact h
  | lookup | fetchAdd | insert => cases h

/-- An event id has one stream. -/
theorem Counting.stream_eq (h : s.Counting) {c d : AllocateCall} {a b : Allocated}
    (hc : c ∈ s.calls) (hd : d ∈ s.calls) (ha : c.allocated = some a) (hb : d.allocated = some b)
    (hid : a.eventId = b.eventId) : c.streamId = d.streamId ∧ a.sequence = b.sequence := by
  rw [h.numbered c hc a ha, h.numbered d hd b hb] at hid
  exact Allocated.numbered_inj hid

theorem streamFor_insert (r : StreamRegistry) (id id' : EventId) (streamId : StreamId) :
    (r.insert id streamId).streamFor id' =
      if id' = id then some streamId else r.streamFor id' := by
  simp [StreamRegistry.streamFor, StreamRegistry.insert, Function.update_apply]

theorem streamFor_evict (r : StreamRegistry) (id id' : EventId) :
    (r.evict id).streamFor id' = if id' = id then none else r.streamFor id' := by
  simp [StreamRegistry.streamFor, StreamRegistry.evict, Function.update_apply]

theorem Indexed.advance {evicted : List EventId} (h : Indexed (s, r) evicted) (hc : s.Counting)
    (hs : s.advance r k = some (s', r')) :
    Indexed (s', r') (evictedSince (s, r) (.advance k) evicted) := by
  obtain ⟨c, hk, hadv⟩ := advance_cases hs
  have hquiet : ∀ phase, c.result = none → { c with phase }.result = none →
      (s.calls.set k { c with phase }).filterMap
        (fun c => c.result.map fun a => (a.eventId, c.streamId)) = s.entered := by
    intro phase hold hnew
    exact Party.filterMap_set_of_eq hk (by rw [hold, hnew])
  -- only the last operation touches the index
  have hkeep : ∀ t : Sequencer, t.entered = s.entered →
      (∀ a, c.phase ≠ .insert a) → Indexed (t, r) (evictedSince (s, r) (.advance k) evicted) := by
    intro t ht hp
    have hsame : evictedSince (s, r) (.advance k) evicted = evicted := by
      simp only [evictedSince, hk]
      split
      · rename_i heq
        exact absurd (congrArg AllocateCall.phase (Option.some.inj heq)) (hp _)
      · rfl
    rw [hsame]
    intro id streamId
    rw [show (t, r).1.entered = (s, r).1.entered from ht]
    exact h id streamId
  cases hadv with
  | found state hp =>
    exact hkeep _ (hquiet _ (by simp [AllocateCall.result, hp]) rfl) (by simp [hp])
  | created hp =>
    exact hkeep _ (hquiet _ (by simp [AllocateCall.result, hp]) rfl) (by simp [hp])
  | taken state sequence hp =>
    exact hkeep _ (hquiet _ (by simp [AllocateCall.result, hp]) rfl) (by simp [hp])
  | inserted a hp =>
    have hentered : (s.setPhase k c (.returned a)).entered.Perm
        ((a.eventId, c.streamId) :: s.entered) :=
      Party.filterMap_set_perm hk (by simp [AllocateCall.result, hp]) rfl
    have hevicted : evictedSince (s, r) (.advance k) evicted =
        evicted.filter (· ≠ a.eventId) := by
      obtain ⟨streamId, phase⟩ := c
      obtain rfl : phase = .insert a := hp
      simp [evictedSince, hk]
    rw [hevicted]
    intro id streamId
    rw [hentered.mem_iff, streamFor_insert]
    by_cases hid : id = a.eventId
    · subst hid
      have hstream : (a.eventId, streamId) ∈ s.entered → streamId = c.streamId := by
        intro hmem
        obtain ⟨d, hd, heq⟩ := List.mem_filterMap.mp hmem
        obtain ⟨b, hb, heq⟩ := Option.map_eq_some_iff.mp heq
        obtain ⟨hida, rfl⟩ := Prod.mk.inj heq
        exact (hc.stream_eq hd (List.mem_of_getElem? hk) (result_eq_allocated hb)
          (by simp [AllocateCall.allocated, hp]) hida).1
      simp only [if_true, List.mem_cons, Prod.mk.injEq, true_and, List.mem_filter, decide_not,
        decide_true, Bool.not_true, Bool.false_eq_true, and_false, not_false_eq_true, and_true,
        Option.some.injEq]
      constructor
      · intro heq
        exact .inl heq.symm
      · rintro (heq | hmem)
        · exact heq.symm
        · exact (hstream hmem).symm
    · rw [if_neg hid]
      simp only [List.mem_cons, Prod.mk.injEq, hid, false_and, false_or, List.mem_filter, ne_eq,
        decide_not, decide_false, Bool.not_false, and_true]
      exact h id streamId

theorem Indexed.step {x y : Sequencer × StreamRegistry} {a : SequencerAction}
    {evicted : List EventId} (h : Indexed x evicted) (hc : x.1.Counting)
    (hs : step x a = some y) : Indexed y (evictedSince x a evicted) := by
  cases a with
  | allocate streamId =>
    -- only the insert enters, and only the evict takes out
    obtain rfl := Option.some.inj hs
    intro id streamId'
    have hentered : (x.1.allocate streamId).entered = x.1.entered := by
      simp [entered, allocate, List.filterMap_append, AllocateCall.result]
    rw [hentered]
    exact h id streamId'
  | advance k => exact h.advance hc hs
  | evict id =>
    obtain rfl := Option.some.inj hs
    intro id' streamId
    have hold := h id' streamId
    rw [streamFor_evict]
    change _ ↔ (id', streamId) ∈ x.1.entered ∧ id' ∉ id :: evicted
    by_cases hid : id' = id
    · simp [hid]
    · rw [if_neg hid, hold]
      simp [hid]

/-! ### Runs -/

/-- The registry with the history of its evictions. -/
abbrev history : Machine ((Sequencer × StreamRegistry) × List EventId) SequencerAction :=
  machine.withHistory [] evictedSince

theorem Counting.step {x y : Sequencer × StreamRegistry} {a : SequencerAction} (h : x.1.Counting)
    (hs : Sequencer.step x a = some y) : y.1.Counting := by
  cases a with
  | allocate streamId => obtain rfl := Option.some.inj hs; exact h.allocate streamId
  | advance k => exact h.advance hs
  | evict id => obtain rfl := Option.some.inj hs; exact h

theorem reachable_history {x : (Sequencer × StreamRegistry) × List EventId}
    (h : history.Reachable x) : x.1.1.Counting ∧ Indexed x.1 x.2 := by
  refine h.inv (I := fun x => x.1.1.Counting ∧ Indexed x.1 x.2) ⟨counting_init, ?_⟩ ?_
  · intro id streamId
    simp [history, Machine.withHistory, machine, entered, StreamRegistry.streamFor]
  · intro x a y hx hs
    obtain ⟨hs, hevicted⟩ := Machine.step_withHistory.mp hs
    exact ⟨hx.1.step hs, hevicted ▸ hx.2.step hx.1 hs⟩

theorem map_toNat_firstNumbers {n : ℕ} (hn : n < 2 ^ 64) :
    (firstNumbers n).map UInt64.toNat = List.range' 1 n := by
  rw [firstNumbers, List.map_map, List.range'_eq_map_range]
  refine List.map_congr_left fun i hi => ?_
  have hlt := List.mem_range.mp hi
  rw [Function.comp_apply, UInt64.toNat_ofNat', Nat.mod_eq_of_lt (by omega)]
  omega

theorem length_taken_le (s : Sequencer) (id : StreamId) :
    (s.taken id).length ≤ s.calls.length := List.length_filterMap_le ..

theorem Counting.map_toNat (h : s.Counting) (hcount : s.calls.length < 2 ^ 64) (id : StreamId) :
    ((s.taken id).map UInt64.toNat).Perm (List.range' 1 (s.taken id).length) := by
  have hlen := s.length_taken_le id
  rw [← map_toNat_firstNumbers (by omega)]
  exact (h.first id).map _

/-- **No event id twice.** -/
theorem Counting.nodup (h : s.Counting) (hcount : s.calls.length < 2 ^ 64) :
    ((s.calls.filterMap (·.allocated)).map (·.eventId)).Nodup := by
  have hstream : ∀ id, (s.taken id).Nodup := fun id => by
    have hperm := h.map_toNat hcount id
    exact List.Nodup.of_map _ (hperm.nodup_iff.mpr List.nodup_range')
  rw [List.Nodup, List.pairwise_map, List.pairwise_filterMap, List.pairwise_iff_getElem]
  intro i j hi hj hij a ha b hb heq
  obtain ⟨hid, hseq⟩ := h.stream_eq (List.getElem_mem hi) (List.getElem_mem hj) ha hb heq
  have hne := hstream s.calls[i].streamId
  rw [taken, List.Nodup, List.pairwise_filterMap, List.pairwise_iff_getElem] at hne
  refine hne i j hi hj hij a.sequence ?_ b.sequence ?_ hseq
  · rw [numberOn, if_pos rfl, ha, Option.map_some]
  · rw [numberOn, if_pos hid.symm, hb, Option.map_some]

/-- A number that is taken and not yet entered is of an id that no call has entered. -/
theorem Counting.not_entered (h : s.Counting) (hcount : s.calls.length < 2 ^ 64) {c : AllocateCall}
    {a : Allocated} (hk : s.calls[k]? = some c) (hp : c.phase = .insert a) (streamId : StreamId) :
    (a.eventId, streamId) ∉ s.entered := by
  intro hmem
  obtain ⟨d, hd, heq⟩ := List.mem_filterMap.mp hmem
  obtain ⟨b, hb, heq⟩ := Option.map_eq_some_iff.mp heq
  obtain ⟨hid, -⟩ := Prod.mk.inj heq
  obtain ⟨j, hj⟩ := List.getElem?_of_mem hd
  have hnodup := h.nodup hcount
  rw [List.map_filterMap] at hnodup
  have hkj : k = j := Party.eq_of_nodup_filterMap hnodup hk hj
    (x := a.eventId) (by simp [AllocateCall.allocated, hp])
    (by rw [result_eq_allocated hb, Option.map_some, hid])
  rw [← hkj, hk] at hj
  obtain rfl := Option.some.inj hj
  simp [AllocateCall.result, hp] at hb

/-- The numbers that the calls on a stream returned. -/
def returned (s : Sequencer) (id : StreamId) : List UInt64 :=
  s.calls.filterMap fun c => if c.streamId = id then c.result.map (·.sequence) else none

/-- The calls on a stream have all returned. -/
theorem returned_eq_taken {id : StreamId}
    (h : ∀ c ∈ s.calls, c.streamId = id → c.result.isSome = true) :
    s.returned id = s.taken id ∧
      (s.taken id).length = s.calls.countP fun c => c.streamId = id := by
  constructor
  · refine List.filterMap_congr fun c hc => ?_
    unfold numberOn
    split
    · rename_i hid
      obtain ⟨a, ha⟩ := Option.isSome_iff_exists.mp (h c hc hid)
      rw [ha, result_eq_allocated ha]
    · rfl
  · rw [taken, List.length_filterMap_eq_countP]
    refine List.countP_congr fun c hc => ?_
    unfold numberOn
    split
    · rename_i hid
      obtain ⟨a, ha⟩ := Option.isSome_iff_exists.mp (h c hc hid)
      simp [result_eq_allocated ha, hid]
    · rename_i hid
      simp [hid]

/-- **Event ids are unique and sequences gapless.** In every reachable state of the registry, with
fewer than `2 ^ 64` allocations: the numbers taken on a stream are the first ones, and once its
calls have returned they have returned one through their count; an event id is the text of its
stream and its number, and no two allocations have the same; and an id that was returned and not
evicted since is mapped to the stream it was allocated on. -/
theorem allocations_unique {x : (Sequencer × StreamRegistry) × List EventId}
    (h : history.Reachable x) (hcount : x.1.1.calls.length < 2 ^ 64) :
    (∀ id, ((x.1.1.taken id).map UInt64.toNat).Perm (List.range' 1 (x.1.1.taken id).length)) ∧
      (∀ id, (∀ c ∈ x.1.1.calls, c.streamId = id → c.result.isSome = true) →
        ((x.1.1.returned id).map UInt64.toNat).Perm
          (List.range' 1 (x.1.1.calls.countP fun c => c.streamId = id))) ∧
      (∀ c ∈ x.1.1.calls, ∀ a ∈ c.allocated,
        a.eventId = ⟨c.streamId.raw ++ "-" ++ toString a.sequence⟩) ∧
      ((x.1.1.calls.filterMap (·.allocated)).map (·.eventId)).Nodup ∧
      ∀ c ∈ x.1.1.calls, ∀ a ∈ c.result, a.eventId ∉ x.2 →
        x.1.2.streamFor a.eventId = some c.streamId := by
  obtain ⟨hcounting, hindexed⟩ := reachable_history h
  have hnumbers := hcounting.map_toNat hcount
  -- the numbers from the counters, the ids from the numbers
  refine ⟨hnumbers, fun id hall => ?_, fun c hc a ha => ?_, hcounting.nodup hcount,
    fun c hc a ha hkept => ?_⟩
  · obtain ⟨heq, hlen⟩ := returned_eq_taken hall
    rw [heq, ← hlen]
    exact hnumbers id
  · have hnumbered := hcounting.numbered c hc a ha
    exact congrArg Allocated.eventId hnumbered
  · have hmem : (a.eventId, c.streamId) ∈ x.1.1.entered :=
      List.mem_filterMap.mpr ⟨c, hc, by rw [Option.mem_def.mp ha, Option.map_some]⟩
    exact (hindexed a.eventId c.streamId).mpr ⟨hmem, hkept⟩

/-- Two calls on a stream take their numbers in the order opposite to their lookups, beside a call on
a stream whose name continues the first one's; an id is evicted. -/
def dashes : List SequencerAction :=
  [.allocate ⟨"s"⟩, .allocate ⟨"s"⟩, .allocate ⟨"s-1"⟩, .advance 0, .advance 1, .advance 1,
    .advance 2, .advance 0, .advance 2, .advance 1, .advance 2, .advance 0, .evict ⟨"s-1"⟩]

theorem isSome_run_dashes : (history.run history.init dashes).isSome = true := by decide

theorem allocations_unique_dashes : ∃ x, history.run history.init dashes = some x ∧
    ((x.1.1.calls.filterMap (·.allocated)).map (·.eventId)).Nodup ∧
    x.1.1.calls.map (·.result) =
      [some ⟨⟨"s-2"⟩, 2⟩, some ⟨⟨"s-1"⟩, 1⟩, some ⟨⟨"s-1-1"⟩, 1⟩] ∧
    x.1.2.streamFor ⟨"s-1-1"⟩ = some ⟨"s-1"⟩ ∧ x.1.2.streamFor ⟨"s-1"⟩ = none := by
  have hrun := (Option.some_get isSome_run_dashes).symm
  have hunique := allocations_unique ⟨dashes, hrun⟩ (by decide)
  refine ⟨_, hrun, hunique.2.2.2.1, by decide, ?_, by decide⟩
  exact hunique.2.2.2.2 ⟨⟨"s-1"⟩, .returned ⟨⟨"s-1-1"⟩, 1⟩⟩ (by decide) ⟨⟨"s-1-1"⟩, 1⟩ rfl
    (by decide)

end Sequencer

end Boardwalk
