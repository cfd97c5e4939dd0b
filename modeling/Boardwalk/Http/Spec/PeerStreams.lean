import Boardwalk.Http.PeerStreams

/-!
# The hub and its upstreams

An entry of the hub has an upstream of its own that is not aborted, and every upstream that is not
aborted has its entry (`PeerStreamHub.Sound`).  An entry keeps a sender of its channel, so the
channel of a task that has returned stays open while the entry is there.

`joins_live_iff` says in which runs this does not happen: those in which no task returns before the
last subscriber has left.
-/

namespace Boardwalk

namespace PeerStreamHub

variable {hub hub' : PeerStreamHub}

/-! ### Upstreams are only added and continued -/

/-- Every upstream is still there, with the lines that it has broadcast. -/
def Grows (hub hub' : PeerStreamHub) : Prop :=
  ∀ (k : ℕ) (u : Upstream), hub.upstreams[k]? = some u → ∃ u', hub'.upstreams[k]? = some u' ∧
    u'.channel.capacity = u.channel.capacity ∧ u.channel.sent <+: u'.channel.sent

theorem Grows.refl (hub : PeerStreamHub) : Grows hub hub :=
  fun _ u hu => ⟨u, hu, rfl, List.prefix_rfl⟩

theorem grows_of_eq (h : hub'.upstreams = hub.upstreams) : Grows hub hub' :=
  fun _ u hu => ⟨u, by rw [h]; exact hu, rfl, List.prefix_rfl⟩

theorem grows_append {l : List Upstream} (h : hub'.upstreams = hub.upstreams ++ l) :
    Grows hub hub' := by
  intro k u hu
  have hlt := (List.getElem?_eq_some_iff.mp hu).1
  exact ⟨u, by rw [h, List.getElem?_append_left hlt]; exact hu, rfl, List.prefix_rfl⟩

theorem grows_set {k : ℕ} {u u' : Upstream} (hu : hub.upstreams[k]? = some u)
    (h : hub'.upstreams = hub.upstreams.set k u')
    (hcap : u'.channel.capacity = u.channel.capacity)
    (hsent : u.channel.sent <+: u'.channel.sent) : Grows hub hub' := by
  intro j v hv
  by_cases hj : k = j
  · subst hj
    obtain rfl := Option.some.inj (hu.symm.trans hv)
    refine ⟨u', ?_, hcap, hsent⟩
    rw [h, List.getElem?_set_self (List.getElem?_eq_some_iff.mp hu).1]
  · exact ⟨v, by rw [h, List.getElem?_set_ne hj]; exact hv, rfl, List.prefix_rfl⟩

theorem grows_abort (hub : PeerStreamHub) (k : ℕ) : Grows hub (hub.abort k) := by
  intro j u hu
  refine ⟨if k = j then { u with aborted := true } else u, ?_, ?_, ?_⟩
  · simp [abort, List.getElem?_modify, hu]
  · split <;> rfl
  · split <;> exact List.prefix_rfl

theorem grows_subscribe {peer topic : String} {senders : PeerSenders} {rx : ℕ × ℕ}
    (hs : hub.subscribe peer topic senders = some (rx, hub')) : Grows hub hub' := by
  unfold subscribe at hs
  split at hs
  · cases hs
    exact grows_of_eq rfl
  · obtain ⟨sender, -, heq⟩ := Option.map_eq_some_iff.mp hs
    cases heq
    exact grows_append rfl

theorem grows_unsubscribe (hub : PeerStreamHub) (peer topic : String) :
    Grows hub (hub.unsubscribe peer topic) := by
  unfold unsubscribe
  split
  · exact Grows.refl hub
  · split
    · exact grows_abort { hub with inner := hub.inner.remove (peer, topic) } _
    · exact grows_of_eq rfl

/-- Every action of the hub only adds to its upstreams and to what they have sent. -/
theorem grows_step {senders : Option PeerSenders} {a : HubAction}
    (hs : hub.step senders a = some hub') : Grows hub hub' := by
  -- an upstream keeps its key, and its channel only grows
  cases a with
  | subscribe peer topic =>
    obtain ⟨snd, -, hs⟩ := Option.bind_eq_some_iff.mp hs
    obtain ⟨⟨rx, h₁⟩, hsub, rfl⟩ := Option.map_eq_some_iff.mp hs
    exact grows_subscribe hsub
  | unsubscribe peer topic =>
    obtain rfl := Option.some.inj hs
    exact grows_unsubscribe hub peer topic
  | line k value =>
    simp only [step] at hs
    split at hs
    · rename_i u hu
      split at hs
      · obtain rfl := Option.some.inj hs
        exact grows_set hu rfl rfl (List.prefix_append _ _)
      · cases hs
    · cases hs
  | ended k =>
    simp only [step] at hs
    split at hs
    · rename_i u hu
      split at hs
      · obtain rfl := Option.some.inj hs
        exact grows_set hu rfl rfl List.prefix_rfl
      · cases hs
    · cases hs

/-! ### Entries and their upstreams -/

/-- Every entry has an upstream of its key that is not aborted, and every such upstream is the one
of the entry at its key. -/
structure Sound (hub : PeerStreamHub) : Prop where
  entry : ∀ key e, hub.inner.get? key = some e → ∃ u, hub.upstreams[e.task]? = some u ∧
    (u.peer, u.topic) = key ∧ u.aborted = false
  listed : ∀ (k : ℕ) (u : Upstream), hub.upstreams[k]? = some u → u.aborted = false →
    ∃ e, hub.inner.get? (u.peer, u.topic) = some e ∧ e.task = k

theorem sound_empty : Sound {} where
  entry _ _ h := by cases h
  listed _ _ h := by simp at h

/-- What `subscribe` does: it counts the subscriber, or it spawns an upstream. -/
theorem subscribe_cases {peer topic : String} {senders : PeerSenders} {rx : ℕ × ℕ}
    (hs : hub.subscribe peer topic senders = some (rx, hub')) :
    (∃ e, hub.inner.get? (peer, topic) = some e ∧ rx.1 = e.task ∧
      hub'.inner = hub.inner.insert (peer, topic) { e with refcount := e.refcount + 1 } ∧
      hub'.upstreams = hub.upstreams) ∨
    ∃ sender : ConnId, hub.inner.get? (peer, topic) = none ∧ rx = (hub.upstreams.length, 0) ∧
      hub'.inner = hub.inner.insert (peer, topic) { task := hub.upstreams.length, refcount := 1 } ∧
      hub'.upstreams = hub.upstreams ++ [({ peer, topic, sender } : Upstream)] := by
  unfold subscribe at hs
  split at hs
  · rename_i e he
    cases hs
    exact .inl ⟨e, he, rfl, rfl, rfl⟩
  · rename_i hnone
    obtain ⟨sender, -, heq⟩ := Option.map_eq_some_iff.mp hs
    cases heq
    exact .inr ⟨sender, hnone, rfl, rfl, rfl⟩

/-- What `unsubscribe` does: nothing, or it uncounts a subscriber, or the last one leaves. -/
theorem unsubscribe_cases (hub : PeerStreamHub) (peer topic : String) :
    (hub.inner.get? (peer, topic) = none ∧ hub.unsubscribe peer topic = hub) ∨
    ∃ e, hub.inner.get? (peer, topic) = some e ∧
      (e.refcount = 1 ∧
          (hub.unsubscribe peer topic).inner = hub.inner.remove (peer, topic) ∧
          (hub.unsubscribe peer topic).upstreams =
            hub.upstreams.modify e.task (fun u => { u with aborted := true }) ∨
        e.refcount ≠ 1 ∧
          (hub.unsubscribe peer topic).inner =
            hub.inner.insert (peer, topic) { e with refcount := e.refcount - 1 } ∧
          (hub.unsubscribe peer topic).upstreams = hub.upstreams) := by
  unfold unsubscribe
  split
  · rename_i hnone
    exact .inl ⟨hnone, rfl⟩
  · rename_i e he
    refine .inr ⟨e, he, ?_⟩
    -- the last one out ends the task
    split
    · rename_i hone
      exact .inl ⟨hone, rfl, rfl⟩
    · rename_i hone
      exact .inr ⟨hone, rfl, rfl⟩

/-- Two entries do not share an upstream. -/
theorem Sound.key_eq (h : hub.Sound) {key key' : String × String} {e e' : PeerStreamEntry}
    (he : hub.inner.get? key = some e) (he' : hub.inner.get? key' = some e')
    (htask : e.task = e'.task) : key = key' := by
  obtain ⟨u, hu, rfl, -⟩ := h.entry key e he
  obtain ⟨u', hu', rfl, -⟩ := h.entry key' e' he'
  rw [htask] at hu
  obtain rfl := Option.some.inj (hu.symm.trans hu')
  rfl

/-- An entry changes its count. -/
theorem Sound.recount (h : hub.Sound) {key : String × String} {e : PeerStreamEntry} {n : ℕ}
    (he : hub.inner.get? key = some e)
    (hinner : hub'.inner = hub.inner.insert key { e with refcount := n })
    (hup : hub'.upstreams = hub.upstreams) : hub'.Sound where
  entry key' e' he' := by
    rw [hup]
    rw [hinner, Table.get?_insert_eq_some] at he'
    rcases he' with ⟨rfl, rfl⟩ | ⟨-, he'⟩
    · exact h.entry key' e he
    · exact h.entry key' e' he'
  listed k u hu hlive := by
    rw [hup] at hu
    obtain ⟨e', he', htask⟩ := h.listed k u hu hlive
    rw [hinner, Table.get?_insert]
    by_cases hkey : (u.peer, u.topic) = key
    · subst hkey
      obtain rfl := Option.some.inj (he.symm.trans he')
      exact ⟨_, if_pos rfl, htask⟩
    · exact ⟨e', by rw [if_neg hkey]; exact he', htask⟩

theorem Sound.subscribe (h : hub.Sound) {peer topic : String} {senders : PeerSenders} {rx : ℕ × ℕ}
    (hs : hub.subscribe peer topic senders = some (rx, hub')) : hub'.Sound := by
  -- a known topic counts one more; a new one gets a task of its own
  rcases subscribe_cases hs with ⟨e, he, -, hinner, hup⟩ | ⟨sender, hnone, -, hinner, hup⟩
  · exact h.recount he hinner hup
  · refine ⟨fun key e he => ?_, fun k u hu hlive => ?_⟩
    · rw [hinner, Table.get?_insert_eq_some] at he
      rw [hup]
      rcases he with ⟨rfl, rfl⟩ | ⟨-, he⟩
      · exact ⟨_, List.getElem?_concat_length, rfl, rfl⟩
      · obtain ⟨u, hu, hkey, hlive⟩ := h.entry key e he
        -- the tasks before it keep their places
        have hlt := (List.getElem?_eq_some_iff.mp hu).1
        exact ⟨u, by rw [List.getElem?_append_left hlt]; exact hu, hkey, hlive⟩
    · rw [hup, List.getElem?_append] at hu
      rw [hinner, Table.get?_insert]
      split at hu
      · obtain ⟨e, he, htask⟩ := h.listed k u hu hlive
        have hkey : (u.peer, u.topic) ≠ (peer, topic) := by
          intro heq
          rw [heq, hnone] at he
          cases he
        exact ⟨e, by rw [if_neg hkey]; exact he, htask⟩
      · rw [List.getElem?_singleton] at hu
        split at hu
        · obtain rfl := Option.some.inj hu
          exact ⟨_, if_pos rfl, by simp only; omega⟩
        · cases hu

theorem Sound.unsubscribe (h : hub.Sound) (peer topic : String) :
    (hub.unsubscribe peer topic).Sound := by
  rcases hub.unsubscribe_cases peer topic with ⟨-, heq⟩ |
    ⟨e, he, ⟨-, hinner, hup⟩ | ⟨-, hinner, hup⟩⟩
  · rwa [heq]
  · refine ⟨fun key e' he' => ?_, fun k u hu hlive => ?_⟩
    · rw [hinner, Table.get?_remove_eq_some] at he'
      obtain ⟨u, hu, hkey, hlive⟩ := h.entry key e' he'.2
      -- an entry with another key has another task
      have hne : e.task ≠ e'.task := fun heq => he'.1 (h.key_eq he he'.2 heq).symm
      exact ⟨u, by rw [hup, List.getElem?_modify_ne _ _ hne]; exact hu, hkey, hlive⟩
    · rw [hup, List.getElem?_modify] at hu
      obtain ⟨v, hv, rfl⟩ := Option.map_eq_some_iff.mp hu
      split at hlive
      · cases hlive
      · rename_i hne
        rw [if_neg hne]
        obtain ⟨e', he', htask⟩ := h.listed k v hv hlive
        refine ⟨e', ?_, htask⟩
        rw [hinner, Table.get?_remove_eq_some]
        -- the aborted task was the removed entry's
        refine ⟨fun hkey => hne ?_, he'⟩
        rw [hkey] at he'
        obtain rfl := Option.some.inj (he.symm.trans he')
        exact htask
  · exact h.recount he hinner hup

/-- An upstream goes on, under its key. -/
theorem Sound.setUpstream (h : hub.Sound) {k : ℕ} {u u' : Upstream}
    (hu : hub.upstreams[k]? = some u) (hinner : hub'.inner = hub.inner)
    (hup : hub'.upstreams = hub.upstreams.set k u') (hpeer : u'.peer = u.peer)
    (htopic : u'.topic = u.topic) (hab : u'.aborted = u.aborted) : hub'.Sound := by
  -- the upstream keeps its key and whether it is aborted
  have hget : ∀ (j : ℕ) (v : Upstream), hub'.upstreams[j]? = some v →
      ∃ w : Upstream, hub.upstreams[j]? = some w ∧
        v.peer = w.peer ∧ v.topic = w.topic ∧ v.aborted = w.aborted := by
    intro j v hv
    rw [hup] at hv
    by_cases hj : k = j
    · subst hj
      rw [List.getElem?_set_self (List.getElem?_eq_some_iff.mp hu).1] at hv
      obtain rfl := Option.some.inj hv
      exact ⟨u, hu, hpeer, htopic, hab⟩
    · rw [List.getElem?_set_ne hj] at hv
      exact ⟨v, hv, rfl, rfl, rfl⟩
  refine ⟨fun key e he => ?_, fun j v hv hlive => ?_⟩
  · rw [hinner] at he
    obtain ⟨w, hw, hkey, hlive⟩ := h.entry key e he
    have hlt : e.task < hub'.upstreams.length := by
      rw [hup, List.length_set]
      exact (List.getElem?_eq_some_iff.mp hw).1
    have hv := List.getElem?_eq_getElem hlt
    obtain ⟨w', hw', hp, ht, ha⟩ := hget e.task _ hv
    obtain rfl := Option.some.inj (hw.symm.trans hw')
    exact ⟨_, hv, by rw [hp, ht]; exact hkey, by rw [ha]; exact hlive⟩
  · obtain ⟨w, hw, hp, ht, ha⟩ := hget j v hv
    rw [hinner, hp, ht]
    exact h.listed j w hw (ha ▸ hlive)

theorem Sound.line (h : hub.Sound) {k : ℕ} {v : Json} {senders : Option PeerSenders}
    (hs : hub.step senders (.line k v) = some hub') : hub'.Sound := by
  simp only [step] at hs
  split at hs
  · rename_i u hu
    split at hs
    · obtain rfl := Option.some.inj hs
      exact h.setUpstream hu rfl rfl rfl rfl rfl
    · cases hs
  · cases hs

theorem Sound.ended (h : hub.Sound) {k : ℕ} {senders : Option PeerSenders}
    (hs : hub.step senders (.ended k) = some hub') : hub'.Sound := by
  simp only [step] at hs
  split at hs
  · rename_i u hu
    split at hs
    · obtain rfl := Option.some.inj hs
      exact h.setUpstream hu rfl rfl rfl rfl rfl
    · cases hs
  · cases hs

end PeerStreamHub

/-! ### The tasks -/

namespace RunStream

variable {tasks : List RunStream} {upstreams : List Upstream} {k : ℕ}

/-- Every upstream has its task, which has returned exactly when the upstream is not running. -/
structure Matched (tasks : List RunStream) (upstreams : List Upstream) : Prop where
  length : tasks.length = upstreams.length
  returned : ∀ (k : ℕ) (u : Upstream) (task : RunStream), upstreams[k]? = some u →
    tasks[k]? = some task → (u.running = true ↔ task ≠ .returned)

/-- A task replaced by one that runs as long keeps tasks and upstreams matched. -/
theorem Matched.set (h : Matched tasks upstreams) {u : Upstream} {task : RunStream}
    (hrun : u.running = true ↔ task ≠ .returned) :
    Matched (tasks.set k task) (upstreams.set k u) := by
  refine ⟨by rw [List.length_set, List.length_set, h.length], fun j v task' hv ht => ?_⟩
  by_cases hj : k = j
  · subst hj
    rw [List.getElem?_set_self'] at hv ht
    obtain ⟨-, -, rfl⟩ := Option.map_eq_some_iff.mp hv
    obtain ⟨-, -, rfl⟩ := Option.map_eq_some_iff.mp ht
    exact hrun
  · rw [List.getElem?_set_ne hj] at hv ht
    exact h.returned j v task' hv ht

/-- A new upstream with its task keeps tasks and upstreams matched. -/
theorem Matched.append (h : Matched tasks upstreams) {u : Upstream} (hrun : u.running = true) :
    Matched (tasks ++ [.request]) (upstreams ++ [u]) := by
  refine ⟨by simp [h.length], fun j v task hv ht => ?_⟩
  rw [List.getElem?_append] at hv ht
  rw [h.length] at ht
  split at hv
  · rename_i hlt
    rw [if_pos hlt] at ht
    exact h.returned j v task hv ht
  · rename_i hge
    rw [if_neg hge] at ht
    rw [List.getElem?_singleton] at hv ht
    split at hv
    · rename_i hzero
      rw [if_pos hzero] at ht
      obtain rfl := Option.some.inj hv
      obtain rfl := Option.some.inj ht
      simp [hrun]
    · cases hv

theorem Matched.modify (h : Matched tasks upstreams) {f : Upstream → Upstream}
    (hf : ∀ u, (f u).running = u.running) : Matched tasks (upstreams.modify k f) := by
  refine ⟨by rw [List.length_modify]; exact h.length, fun j v task hv ht => ?_⟩
  rw [List.getElem?_modify] at hv
  obtain ⟨w, hw, rfl⟩ := Option.map_eq_some_iff.mp hv
  have hrun := h.returned j w task hw ht
  split
  · rw [hf]
    exact hrun
  · exact hrun

end RunStream

namespace PeerStreams

variable {s s' : PeerStreams} {k : ℕ} {task task' : RunStream}

structure Consistent (s : PeerStreams) : Prop where
  sound : s.hub.Sound
  matched : RunStream.Matched s.tasks s.hub.upstreams

theorem consistent_init : Consistent {} where
  sound := PeerStreamHub.sound_empty
  matched := ⟨rfl, fun _ _ _ h => by simp at h⟩

theorem Consistent.exists_task (h : s.Consistent) {u : Upstream}
    (hu : s.hub.upstreams[k]? = some u) : ∃ task, s.tasks[k]? = some task := by
  have hlt : k < s.tasks.length := by
    rw [h.matched.length]
    exact (List.getElem?_eq_some_iff.mp hu).1
  exact ⟨_, List.getElem?_eq_getElem hlt⟩

theorem Consistent.exists_upstream (h : s.Consistent) (ht : s.tasks[k]? = some task) :
    ∃ u : Upstream, s.hub.upstreams[k]? = some u := by
  have hlt : k < s.hub.upstreams.length := by
    rw [← h.matched.length]
    exact (List.getElem?_eq_some_iff.mp ht).1
  exact ⟨_, List.getElem?_eq_getElem hlt⟩

/-- Task `k` has gone to `task`, and its upstream with it. -/
structure Moved (s : PeerStreams) (k : ℕ) (task : RunStream) (s' : PeerStreams) : Prop where
  inner : s'.hub.inner = s.hub.inner
  tasks : s'.tasks = s.tasks.set k task
  upstream : ∃ u u' : Upstream, s.hub.upstreams[k]? = some u ∧
    s'.hub.upstreams = s.hub.upstreams.set k u' ∧ u'.peer = u.peer ∧ u'.topic = u.topic ∧
    u'.aborted = u.aborted ∧ (u'.running = true ↔ task ≠ .returned)

/-- A task that goes on to its next state moves alone. -/
theorem moved_setTask (h : s.Consistent) (ht : s.tasks[k]? = some task) (hlive : task ≠ .returned)
    (hs : s.setTask k task' = some s') : s.Moved k task' s' := by
  obtain ⟨u, hu⟩ := h.exists_upstream ht
  have hrun : u.running = true := (h.matched.returned k u task hu ht).mpr hlive
  have hset : s.hub.upstreams = s.hub.upstreams.set k u := by
    obtain ⟨hlt, rfl⟩ := List.getElem?_eq_some_iff.mp hu
    exact (List.set_getElem_self hlt).symm
  cases task' with
  | request =>
    obtain rfl := Option.some.inj hs
    exact ⟨rfl, rfl, u, u, hu, hset, rfl, rfl, rfl, by simp [hrun]⟩
  | body buf =>
    obtain rfl := Option.some.inj hs
    exact ⟨rfl, rfl, u, u, hu, hset, rfl, rfl, rfl, by simp [hrun]⟩
  | returned =>
    simp only [setTask, PeerStreamHub.step, hu, hrun, if_true, Option.map_some] at hs
    obtain rfl := Option.some.inj hs
    exact ⟨rfl, rfl, u, { u with running := false }, hu, rfl, rfl, rfl, rfl, by simp⟩

theorem Moved.consistent (hm : s.Moved k task s') (h : s.Consistent) : s'.Consistent := by
  obtain ⟨hinner, htasks, u, u', hu, hup, hpeer, htopic, hab, hrun⟩ := hm
  refine ⟨h.sound.setUpstream hu hinner hup hpeer htopic hab, ?_⟩
  rw [htasks, hup]
  exact h.matched.set hrun

/-! ### Steps -/

/-- What one step does. -/
inductive Stepped (s s' : PeerStreams) : PeerStreamsAction → Prop
  | subscribe {peer topic : String} {senders : PeerSenders} {rx : ℕ × ℕ}
      (hs : s.hub.subscribe peer topic senders = some (rx, s'.hub))
      (htasks : s'.tasks = if s.hub.upstreams.length < s'.hub.upstreams.length then
        s.tasks ++ [.request] else s.tasks) : Stepped s s' (.subscribe peer topic senders)
  | unsubscribe {peer topic : String} (hub : s'.hub = s.hub.unsubscribe peer topic)
      (htasks : s'.tasks = s.tasks) : Stepped s s' (.unsubscribe peer topic)
  | resume {k : ℕ} {reply : PeerReply} {task task' : RunStream} (ht : s.tasks[k]? = some task)
      (hr : task.resume reply = some task') (hm : s.Moved k task' s') :
      Stepped s s' (.resume k reply)
  | takeLine {k : ℕ} {task' : RunStream} (hlive : task' ≠ .returned) (hm : s.Moved k task' s') :
      Stepped s s' (.takeLine k)
  | cancelled {k : ℕ} {u : Upstream} (hu : s.hub.upstreams[k]? = some u) (hab : u.aborted = true)
      (hm : s.Moved k .returned s') : Stepped s s' (.cancelled k)

/-- A task that takes a line off its body moves alone. -/
theorem moved_takeLine {fromSlice : List UInt8 → Option Json} (h : s.Consistent)
    (hs : s.step fromSlice (.takeLine k) = some s') :
    ∃ task, task ≠ .returned ∧ s.Moved k task s' := by
  obtain ⟨task, ht, hs⟩ := Option.bind_eq_some_iff.mp hs
  obtain ⟨⟨value, task'⟩, hl, hs⟩ := Option.bind_eq_some_iff.mp hs
  cases task with
  | request => cases hl
  | returned => cases hl
  | body buf =>
    obtain ⟨⟨line, rest⟩, -, heq⟩ := Option.map_eq_some_iff.mp hl
    cases heq
    obtain ⟨u, hu⟩ := h.exists_upstream ht
    -- a task that has not returned is running
    have hrun : u.running = true := (h.matched.returned k u _ hu ht).mpr (by simp)
    refine ⟨.body rest, by simp, ?_⟩
    cases hv : fromSlice line with
    | some v =>
      -- a line that is JSON is sent on; any other is skipped
      simp only [hv, PeerStreamHub.step, hu] at hs
      rw [if_pos hrun, Option.map_some] at hs
      obtain rfl := Option.some.inj hs
      exact ⟨rfl, rfl, u, { u with channel := u.channel.send v }, hu, rfl, rfl, rfl, rfl, by
        simp [hrun]⟩
    | none =>
      simp only [hv] at hs
      exact moved_setTask h ht (by simp) hs

/-- Every action subscribes, unsubscribes or moves one task. -/
theorem stepped_of_step {fromSlice : List UInt8 → Option Json} {a : PeerStreamsAction}
    (h : s.Consistent) (hs : s.step fromSlice a = some s') : Stepped s s' a := by
  cases a with
  | subscribe peer topic senders =>
    obtain ⟨⟨rx, hub⟩, hsub, rfl⟩ := Option.map_eq_some_iff.mp hs
    exact .subscribe hsub rfl
  | unsubscribe peer topic =>
    obtain rfl := Option.some.inj hs
    exact .unsubscribe rfl rfl
  | resume k reply =>
    obtain ⟨task, ht, hs⟩ := Option.bind_eq_some_iff.mp hs
    obtain ⟨task', hr, hs⟩ := Option.bind_eq_some_iff.mp hs
    -- a task that returned is not resumed
    have hlive : task ≠ .returned := by
      rintro rfl
      cases hr
    exact .resume ht hr (moved_setTask h ht hlive hs)
  | takeLine k =>
    obtain ⟨task, hlive, hm⟩ := moved_takeLine h hs
    exact .takeLine hlive hm
  | cancelled k =>
    obtain ⟨task, ht, hs⟩ := Option.bind_eq_some_iff.mp hs
    split at hs
    · rename_i hab
      obtain ⟨u, hu, huab⟩ := (Option.any_eq_true _ _).mp hab.2
      have hlive : task ≠ .returned := by
        rintro rfl
        cases hab.1
      exact .cancelled hu huab (moved_setTask h ht hlive hs)
    · cases hs

theorem Consistent.subscribe (h : s.Consistent) {peer topic : String} {senders : PeerSenders}
    {rx : ℕ × ℕ} (hs : s.hub.subscribe peer topic senders = some (rx, s'.hub))
    (htasks : s'.tasks = if s.hub.upstreams.length < s'.hub.upstreams.length then
      s.tasks ++ [.request] else s.tasks) : s'.Consistent := by
  refine ⟨h.sound.subscribe hs, ?_⟩
  rcases PeerStreamHub.subscribe_cases hs with ⟨e, -, -, -, hup⟩ | ⟨sender, -, -, -, hup⟩
  · rw [hup, if_neg (lt_irrefl _)] at htasks
    rw [hup, htasks]
    exact h.matched
  · rw [hup, List.length_append, List.length_singleton, if_pos (Nat.lt_succ_self _)] at htasks
    rw [hup, htasks]
    exact h.matched.append rfl

theorem Consistent.unsubscribe (h : s.Consistent) {peer topic : String}
    (hub : s'.hub = s.hub.unsubscribe peer topic) (htasks : s'.tasks = s.tasks) :
    s'.Consistent := by
  refine ⟨hub ▸ h.sound.unsubscribe peer topic, ?_⟩
  rw [hub, htasks]
  rcases s.hub.unsubscribe_cases peer topic with ⟨-, heq⟩ |
    ⟨e, -, ⟨-, -, hup⟩ | ⟨-, -, hup⟩⟩
  · rw [heq]
    exact h.matched
  · rw [hup]
    exact h.matched.modify fun _ => rfl
  · rw [hup]
    exact h.matched

theorem Consistent.step {fromSlice : List UInt8 → Option Json} {a : PeerStreamsAction}
    (h : s.Consistent) (hs : s.step fromSlice a = some s') : s'.Consistent := by
  cases stepped_of_step h hs with
  | subscribe hsub htasks => exact h.subscribe hsub htasks
  | unsubscribe hub htasks => exact h.unsubscribe hub htasks
  | resume ht hr hm => exact hm.consistent h
  | takeLine hlive hm => exact hm.consistent h
  | cancelled hu hab hm => exact hm.consistent h

/-! ### Receivers and tasks that have returned -/

/-- What a receiver relies on. -/
structure JoinsLive (fromSlice : List UInt8 → Option Json) (s : PeerStreams) : Prop where
  /-- `subscribe` attaches to an upstream whose task has not returned. -/
  joins : ∀ peer topic senders k next hub s',
    s.hub.subscribe peer topic senders = some ((k, next), hub) →
    s.step fromSlice (.subscribe peer topic senders) = some s' →
    ∃ task, s'.tasks[k]? = some task ∧ task ≠ .returned
  /-- The channel of a task that has returned has no sender, and a receiver that has read its lines
  is told so. -/
  closes : ∀ k u, s.hub.upstreams[k]? = some u → s.tasks[k]? = some .returned →
    s.hub.senderAlive k = false ∧
      ∀ next, u.channel.sent.length ≤ next → s.hub.recv k next = (.closed, next)

/-- No entry has a task that has returned. -/
def EntriesRun (s : PeerStreams) : Prop :=
  ∀ key e, s.hub.inner.get? key = some e → s.tasks[e.task]? ≠ some .returned

theorem recv_closed {hub : PeerStreamHub} {u : Upstream} {next : ℕ}
    (hu : hub.upstreams[k]? = some u) (hdead : hub.senderAlive k = false)
    (hnext : u.channel.sent.length ≤ next) : hub.recv k next = (.closed, next) := by
  have hlag : ¬ next < u.channel.sent.length - u.channel.capacity := by omega
  have hnone : u.channel.sent[next]? = none := List.getElem?_eq_none_iff.mpr hnext
  simp only [PeerStreamHub.recv, hu, hdead, Broadcast.recv, if_neg hlag, hnone]
  rfl

theorem senderAlive_of_entry {hub : PeerStreamHub} (h : hub.Sound) {key : String × String}
    {e : PeerStreamEntry} (he : hub.inner.get? key = some e) : hub.senderAlive e.task = true := by
  obtain ⟨u, hu, rfl, -⟩ := h.entry key e he
  simp [PeerStreamHub.senderAlive, hu, he]

/-- Where every entry's task runs, a subscriber joins a live stream. -/
theorem EntriesRun.joinsLive {fromSlice : List UInt8 → Option Json} (hrun : s.EntriesRun)
    (h : s.Consistent) : s.JoinsLive fromSlice := by
  constructor
  · intro peer topic senders k next hub s' hsub hs
    -- the subscription leaves the streams consistent
    have h' : s'.Consistent := h.step hs
    obtain ⟨⟨rx, hub'⟩, hsub', rfl⟩ := Option.map_eq_some_iff.mp hs
    obtain ⟨rfl, rfl⟩ := Prod.mk.inj (Option.some.inj (hsub.symm.trans hsub'))
    -- a known topic joins its task, and a new one starts with a request
    rcases PeerStreamHub.subscribe_cases hsub with ⟨e, he, rfl, -, hup⟩ | ⟨sender, -, hrx, -, hup⟩
    · obtain ⟨u, hu, -, -⟩ := h.sound.entry _ e he
      obtain ⟨task, ht⟩ := h.exists_task hu
      refine ⟨task, ?_, fun hret => hrun _ e he (hret ▸ ht)⟩
      simp only [hup, lt_irrefl, if_false]
      exact ht
    · cases hrx
      refine ⟨.request, ?_, by simp⟩
      simp only [hup, List.length_append, List.length_singleton, Nat.lt_succ_self, if_true]
      rw [← h.matched.length]
      exact List.getElem?_concat_length
  · -- a task that returned keeps no receiver
    intro k u hu ht
    have hstop : u.running = false := by
      have := h.matched.returned k u _ hu ht
      simpa using this
    have hdead : s.hub.senderAlive k = false := by
      simp only [PeerStreamHub.senderAlive, hu, hstop, Bool.false_or, Option.any_eq_false,
        beq_eq_false_iff_ne]
      rintro e he rfl
      exact hrun _ e he ht
    exact ⟨hdead, fun next hnext => recv_closed hu hdead hnext⟩

theorem JoinsLive.entriesRun {fromSlice : List UInt8 → Option Json} (hl : s.JoinsLive fromSlice)
    (h : s.Consistent) : s.EntriesRun := by
  intro key e he ht
  obtain ⟨u, hu, -, -⟩ := h.sound.entry key e he
  have hdead := (hl.closes e.task u hu ht).1
  rw [senderAlive_of_entry h.sound he] at hdead
  cases hdead

/-- A task that returns has no entry: its last subscriber has left. -/
def ReturnsAlone (s : PeerStreams) : PeerStreamsAction → Prop
  | .resume k reply => (s.tasks[k]?.bind fun task => task.resume reply) = some .returned →
      ∀ key e, s.hub.inner.get? key = some e → e.task ≠ k
  | _ => True

/-- A move leaves every entry's task running exactly when it ends no task that has an entry. -/
theorem Moved.entriesRun_iff (hm : s.Moved k task s') (h : s.Consistent) (hrun : s.EntriesRun) :
    s'.EntriesRun ↔ (task = .returned → ∀ key e, s.hub.inner.get? key = some e → e.task ≠ k) := by
  obtain ⟨hinner, htasks, u, u', hu, -⟩ := hm
  have hlt : k < s.tasks.length := by
    rw [h.matched.length]
    exact (List.getElem?_eq_some_iff.mp hu).1
  unfold EntriesRun
  rw [hinner, htasks]
  constructor
  · rintro hrun' rfl key e he rfl
    exact hrun' key e he (List.getElem?_set_self hlt)
  · intro hG key e he ht
    by_cases hk : k = e.task
    · subst hk
      rw [List.getElem?_set_self hlt] at ht
      exact hG (Option.some.inj ht) key e he rfl
    · rw [List.getElem?_set_ne hk] at ht
      exact hrun key e he ht

theorem EntriesRun.subscribe {peer topic : String} {senders : PeerSenders} {rx : ℕ × ℕ}
    (hrun : s.EntriesRun) (h : s.Consistent)
    (hs : s.hub.subscribe peer topic senders = some (rx, s'.hub))
    (htasks : s'.tasks = if s.hub.upstreams.length < s'.hub.upstreams.length then
      s.tasks ++ [.request] else s.tasks) : s'.EntriesRun := by
  intro key e he ht
  rcases PeerStreamHub.subscribe_cases hs with ⟨e', he', -, hinner, hup⟩ |
    ⟨sender, -, -, hinner, hup⟩
  · -- the entry that is counted once more had a task that runs
    rw [hinner, Table.get?_insert_eq_some] at he
    rw [htasks, hup, if_neg (lt_irrefl _)] at ht
    rcases he with ⟨rfl, rfl⟩ | ⟨-, he⟩
    · exact hrun _ e' he' ht
    · exact hrun key e he ht
  · rw [hinner, Table.get?_insert_eq_some] at he
    rw [htasks, hup, List.length_append, List.length_singleton,
      if_pos (Nat.lt_succ_self _)] at ht
    rcases he with ⟨-, rfl⟩ | ⟨-, he⟩
    · rw [← h.matched.length, List.getElem?_concat_length] at ht
      cases ht
    · -- an entry that was there keeps its task
      obtain ⟨u, hu, -, -⟩ := h.sound.entry key e he
      have hlt := (List.getElem?_eq_some_iff.mp hu).1
      rw [← h.matched.length] at hlt
      rw [List.getElem?_append_left hlt] at ht
      exact hrun key e he ht

theorem EntriesRun.unsubscribe {peer topic : String} (hrun : s.EntriesRun)
    (hub : s'.hub = s.hub.unsubscribe peer topic) (htasks : s'.tasks = s.tasks) :
    s'.EntriesRun := by
  intro key e he ht
  rw [hub] at he
  rw [htasks] at ht
  rcases s.hub.unsubscribe_cases peer topic with ⟨-, heq⟩ |
    ⟨e', he', ⟨-, hinner, -⟩ | ⟨-, hinner, -⟩⟩
  · rw [heq] at he
    exact hrun key e he ht
  · rw [hinner, Table.get?_remove_eq_some] at he
    exact hrun key e he.2 ht
  · rw [hinner, Table.get?_insert_eq_some] at he
    rcases he with ⟨rfl, rfl⟩ | ⟨-, he⟩
    · exact hrun _ e' he' ht
    · exact hrun key e he ht

/-- One step keeps the entries running exactly when no task with an entry returns in it. -/
theorem entriesRun_step_iff {fromSlice : List UInt8 → Option Json} {a : PeerStreamsAction}
    (h : s.Consistent) (hrun : s.EntriesRun) (hs : s.step fromSlice a = some s') :
    s'.EntriesRun ↔ s.ReturnsAlone a := by
  cases stepped_of_step h hs with
  | subscribe hsub htasks => exact iff_of_true (hrun.subscribe h hsub htasks) True.intro
  | unsubscribe hub htasks => exact iff_of_true (hrun.unsubscribe hub htasks) True.intro
  | resume ht hr hm =>
    rw [hm.entriesRun_iff h hrun]
    simp only [ReturnsAlone, ht, Option.bind_some, hr, Option.some.injEq]
  | takeLine hlive hm =>
    rw [hm.entriesRun_iff h hrun]
    exact iff_of_true (fun hret => absurd hret hlive) True.intro
  | cancelled hu hab hm =>
    rw [hm.entriesRun_iff h hrun]
    -- an aborted task has lost its entry
    refine iff_of_true (fun _ key e he hk => ?_) True.intro
    obtain ⟨u', hu', -, hlive⟩ := h.sound.entry key e he
    rw [hk] at hu'
    obtain rfl := Option.some.inj (hu.symm.trans hu')
    rw [hab] at hlive
    cases hlive

/-- **Receivers join live upstreams, and are told of the end, exactly in the runs in which no
upstream returns before its last subscriber has left.** -/
theorem joins_live_iff (fromSlice : List UInt8 → Option Json) (as : List PeerStreamsAction) :
    (machine fromSlice).StatesMeet (JoinsLive fromSlice) (machine fromSlice).init as ↔
      (machine fromSlice).StepsMeet ReturnsAlone (machine fromSlice).init as := by
  have hinit : EntriesRun {} := fun _ _ h => by cases h
  refine Machine.statesMeet_iff_stepsMeet (A := fun _ => True) (I := Consistent)
    (fun s a t _ h hs => h.step hs) (fun s a t _ h hP hs => ?_) (fun _ _ => True.intro)
    consistent_init (hinit.joinsLive consistent_init)
  have hrun := hP.entriesRun h
  rw [← entriesRun_step_iff h hrun hs]
  exact ⟨fun hl => hl.entriesRun (h.step hs), fun hr => hr.joinsLive (h.step hs)⟩

/-- A gateway with one peer, whose first connection is registered. -/
def onePeer : PeerSenders where
  peerContext _ := none
  sender name := if name = "hub" then some 1 else none

/-- **The second subscriber joins a task that has returned.** The first one's request has failed,
and the entry keeps the channel open. -/
theorem joins_returned : ∃ s s' : PeerStreams,
    (machine fun _ => none).run (machine fun _ => none).init
      [.subscribe "hub" "t" onePeer, .resume 0 .requestFailed] = some s ∧
    (s.hub.subscribe "hub" "t" onePeer).map (·.1) = some (0, 0) ∧
    s.step (fun _ => none) (.subscribe "hub" "t" onePeer) = some s' ∧
    s'.tasks[0]? = some .returned ∧ s'.hub.recv 0 0 = (.pending, 0) ∧
    ¬ s.JoinsLive fun _ => none := by
  refine ⟨_, _, rfl, rfl, rfl, rfl, rfl, fun hl => ?_⟩
  have hdead : PeerStreamHub.senderAlive _ 0 = false := (hl.closes 0 _ rfl rfl).1
  cases hdead

end PeerStreams

end Boardwalk
