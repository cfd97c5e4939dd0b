import Boardwalk.Persistence.NodeConfig
import Mathlib.Data.Set.List

/-!
# Storing the node config

A `put` on the redb store writes the reserved row first and the row of the node id after it, in a
transaction of its own.  When only the first one goes through, the `put` has failed and the next
start reads the record all the same: `put_kept_iff` says when that is.  Without failures the redb
store answers as the in-memory one (`node_config_atomic_iff`).
-/

namespace Boardwalk

/-! ### The largest record -/

section MaxByKey

variable {α : Type} {f : α → Int} {l l' : List α} {a : α}

/-- What is kept is one of the elements. -/
theorem foldl_max_mem (a : α) (l : List α) :
    l.foldl (fun best b => if f best ≤ f b then b else best) a ∈ a :: l := by
  induction l generalizing a with
  | nil => exact List.mem_cons_self
  | cons b l ih =>
    rw [List.foldl_cons]
    split
    · exact List.mem_cons_of_mem a (ih b)
    · rcases List.mem_cons.mp (ih a) with heq | hmem
      · exact List.mem_cons.mpr (.inl heq)
      · exact List.mem_cons_of_mem a (List.mem_cons_of_mem b hmem)

/-- None of them is larger. -/
theorem le_foldl_max (a : α) (l : List α) : ∀ b ∈ a :: l,
    f b ≤ f (l.foldl (fun best b => if f best ≤ f b then b else best) a) := by
  induction l generalizing a with
  | nil => simp
  | cons b l ih =>
    rw [List.foldl_cons]
    intro c hc
    split
    · -- the later one takes over
      rename_i hle
      rcases List.mem_cons.mp hc with rfl | hc
      · exact Int.le_trans hle (ih b b List.mem_cons_self)
      · exact ih b c hc
    · rename_i hlt
      rcases List.mem_cons.mp hc with rfl | hc
      · exact ih c c List.mem_cons_self
      · rcases List.mem_cons.mp hc with rfl | hc
        · exact Int.le_trans (Int.le_of_lt (Int.not_le.mp hlt)) (ih a a List.mem_cons_self)
        · exact ih a c (List.mem_cons_of_mem a hc)

theorem mem_of_maxByKey (h : maxByKey f l = some a) : a ∈ l ∧ ∀ b ∈ l, f b ≤ f a := by
  cases l with
  | nil => cases h
  | cons b l =>
    obtain rfl := Option.some.inj h
    exact ⟨foldl_max_mem b l, le_foldl_max b l⟩

theorem maxByKey_eq_none : maxByKey f l = none ↔ l = [] := by
  cases l with
  | nil => exact iff_of_true rfl rfl
  | cons b l => exact iff_of_false nofun nofun

/-- Where only one element is the largest, the order does not matter. -/
theorem maxByKey_congr (hmem : ∀ a, a ∈ l ↔ a ∈ l')
    (hone : ∀ a ∈ l, ∀ b ∈ l, (∀ c ∈ l, f c ≤ f a) → (∀ c ∈ l, f c ≤ f b) → a = b) :
    maxByKey f l = maxByKey f l' := by
  -- both lists have a largest element, and `hone` makes it one
  cases hl : maxByKey f l with
  | none =>
    rw [maxByKey_eq_none] at hl
    subst hl
    have hnil : l' = [] := List.eq_nil_iff_forall_not_mem.mpr fun a ha => by
      simpa using (hmem a).mpr ha
    rw [hnil]
    rfl
  | some a =>
    obtain ⟨ha, hmax⟩ := mem_of_maxByKey hl
    cases hl' : maxByKey f l' with
    | none =>
      rw [maxByKey_eq_none] at hl'
      have := (hmem a).mp ha
      simp [hl'] at this
    | some b =>
      obtain ⟨hb, hmax'⟩ := mem_of_maxByKey hl'
      refine congrArg some (hone a ha b ((hmem b).mpr hb) hmax fun c hc => ?_)
      exact hmax' c ((hmem c).mp hc)

end MaxByKey

/-! ### The redb store -/

namespace RedbNodeConfigs

variable {t t' : RedbNodeConfigs} {record : NodeConfigRecord} {io : NodeConfigFaults}

theorem getElem?_insert_row (t : RedbNodeConfigs) (key id : String) (row : NodeConfigRow) :
    (t.insert key row)[id]? = if id = key then some row else t[id]? := by
  rw [Std.ExtTreeMap.getElem?_insert]
  by_cases hid : id = key
  · simp [hid]
  · have hcmp : compare key id ≠ .eq := fun h => hid (Std.LawfulEqCmp.eq_of_compare h).symm
    rw [if_neg hcmp, if_neg hid]

theorem get_eq_some_iff {id : String} :
    t.get {} id = .ok (some record) ↔ t[id]? = some (.ok record) := by
  simp only [get, getJson]
  cases t[id]? with
  | none => simp
  | some row => cases row <;> simp [Except.mapError, Except.map]

/-- What is at its key is what a lookup says. -/
theorem get_congr {id : String} (h : t'[id]? = t[id]?) : t'.get {} id = t.get {} id := by
  simp only [get, getJson, h]

/-- The reserved row is read first. -/
theorem getLocal_of_row (h : t[LOCAL_NODE_SENTINEL_KEY]? = some (.ok record)) :
    t.getLocal {} = .ok (some record) := by
  have hget : t.getJson none LOCAL_NODE_SENTINEL_KEY = .ok (some record) := get_eq_some_iff.mpr h
  simp only [getLocal, hget]

/-! ### One `put` -/

/-- The table after both transactions. -/
def stored (t : RedbNodeConfigs) (record : NodeConfigRecord) : RedbNodeConfigs :=
  (t.insert LOCAL_NODE_SENTINEL_KEY (.ok record)).insert record.nodeId (.ok record)

theorem getElem?_stored (t : RedbNodeConfigs) (record : NodeConfigRecord) (id : String) :
    (t.stored record)[id]? =
      if id = record.nodeId ∨ id = LOCAL_NODE_SENTINEL_KEY then some (.ok record) else t[id]? := by
  rw [stored, getElem?_insert_row, getElem?_insert_row]
  by_cases hid : id = record.nodeId
  · simp [hid]
  · simp [hid]

/-- What a `put` does: both transactions, none, or the first one only. -/
theorem put_cases (io : NodeConfigFaults) (t : RedbNodeConfigs) (record : NodeConfigRecord) :
    (io.writeSentinel = none ∧ io.writeNode = none ∧
      t.put io record = (t.stored record, .ok ())) ∨
    (∃ err, io.writeSentinel = some err ∧ t.put io record = (t, .error err)) ∨
    ∃ err, io.writeSentinel = none ∧ io.writeNode = some err ∧
      t.put io record = (t.insert LOCAL_NODE_SENTINEL_KEY (.ok record), .error err) := by
  cases hfirst : io.writeSentinel with
  | some err => exact .inr (.inl ⟨err, rfl, by simp [put, putJson, hfirst]⟩)
  | none =>
    cases hsecond : io.writeNode with
    | none => exact .inl ⟨rfl, rfl, by simp [put, putJson, hfirst, hsecond, stored]⟩
    | some err => exact .inr (.inr ⟨err, rfl, rfl, by simp [put, putJson, hfirst, hsecond]⟩)

/-- What a `put` owes its caller: if it fails, nothing that can be read changes; if not, the record
is read as the local one and at its id, and the other nodes are as they were. -/
structure PutKept (io : NodeConfigFaults) (t : RedbNodeConfigs) (record : NodeConfigRecord) :
    Prop where
  failed : ∀ err, (t.put io record).2 = .error err →
    (t.put io record).1.getLocal {} = t.getLocal {} ∧
      ∀ id, (t.put io record).1.get {} id = t.get {} id
  succeeded : (t.put io record).2 = .ok () →
    (t.put io record).1.getLocal {} = .ok (some record) ∧
      (t.put io record).1.get {} record.nodeId = .ok (some record) ∧
      ∀ id, id ≠ record.nodeId → id ≠ LOCAL_NODE_SENTINEL_KEY →
        (t.put io record).1.get {} id = t.get {} id

theorem putKept_of_ok (h : t.put io record = (t.stored record, .ok ())) : PutKept io t record := by
  refine ⟨fun err herr => ?_, fun _ => ?_⟩
  · rw [h] at herr
    cases herr
  · rw [h]
    refine ⟨getLocal_of_row ?_, get_eq_some_iff.mpr ?_, fun id hid hres => get_congr ?_⟩
    · rw [getElem?_stored, if_pos (.inr rfl)]
    · rw [getElem?_stored, if_pos (.inl rfl)]
    · rw [getElem?_stored, if_neg (by simp [hid, hres])]

/-- A `put` is atomic exactly when its first transaction fails, its second one does not, or the
reserved row has the record already. -/
theorem put_kept_iff : PutKept io t record ↔
    io.writeSentinel ≠ none ∨ io.writeNode = none ∨
      t[LOCAL_NODE_SENTINEL_KEY]? = some (.ok record) := by
  rcases put_cases io t record with
    ⟨hfirst, hsecond, hput⟩ | ⟨err, hfirst, hput⟩ | ⟨err, hfirst, hsecond, hput⟩
  · exact iff_of_true (putKept_of_ok hput) (.inr (.inl hsecond))
  · refine iff_of_true ⟨fun _ _ => ?_, fun hok => ?_⟩ (.inl (by simp [hfirst]))
    · rw [hput]
      exact ⟨rfl, fun _ => rfl⟩
    · rw [hput] at hok
      cases hok
  · simp only [hfirst, hsecond, ne_eq, not_true, reduceCtorEq, false_or]
    have hrow : (t.insert LOCAL_NODE_SENTINEL_KEY (.ok record))[LOCAL_NODE_SENTINEL_KEY]? =
        some (.ok record) := by rw [getElem?_insert_row, if_pos rfl]
    constructor
    · intro hkept
      have hsame := (hkept.failed err (by rw [hput])).2 LOCAL_NODE_SENTINEL_KEY
      rw [hput] at hsame
      exact get_eq_some_iff.mp (hsame.symm.trans (get_eq_some_iff.mpr hrow))
    · intro hheld
      -- the first transaction has written what was there
      refine ⟨fun _ _ => ?_, fun hok => ?_⟩
      · rw [hput]
        refine ⟨(getLocal_of_row hrow).trans (getLocal_of_row hheld).symm, fun id => get_congr ?_⟩
        rw [getElem?_insert_row]
        split
        · rename_i hid
          rw [hid, hheld]
        · rfl
      · rw [hput] at hok
        cases hok

/-! ### Listing -/

/-- The records of some rows that can all be read. -/
theorem mapM_rows {rows : List (String × NodeConfigRow)} {records : List NodeConfigRecord}
    (h : rows.map (·.2) = records.map .ok) :
    (rows.mapM fun e => e.2.mapError StorageError.corrupt) = .ok records := by
  induction rows generalizing records with
  | nil =>
    obtain rfl : records = [] := by simpa using h.symm
    rfl
  | cons e rows ih =>
    cases records with
    | nil => cases h
    | cons record records =>
      obtain ⟨hrow, hrest⟩ : e.2 = .ok record ∧ rows.map (·.2) = records.map .ok :=
        List.cons.inj h
      rw [List.mapM_cons, hrow, ih hrest]
      rfl

end RedbNodeConfigs

/-! ### The two stores -/

/-- The in-memory store has the rows of the table, and it is clear which record is the local one:
the reserved row is there, or no two records are the latest. -/
structure Mirrors (s : NodeConfigs) (t : RedbNodeConfigs) : Prop where
  rows : ∀ key, t[key]? = (s.lookup key).map .ok
  clear : (s.lookup LOCAL_NODE_SENTINEL_KEY).isSome ∨
    ∀ e ∈ s.entries, ∀ e' ∈ s.entries, (∀ x ∈ s.entries, x.2.updatedMs ≤ e.2.updatedMs) →
      (∀ x ∈ s.entries, x.2.updatedMs ≤ e'.2.updatedMs) → e.2 = e'.2

namespace Mirrors

variable {s : NodeConfigs} {t : RedbNodeConfigs}

theorem empty : Mirrors ∅ ∅ where
  rows key := by simp
  clear := .inr (by simp)

/-- A record put in the one store and stored in the other keeps them mirrored. -/
theorem put (h : Mirrors s t) (record : NodeConfigRecord) :
    Mirrors (s.put record).1 (t.stored record) where
  rows key := by
    rw [RedbNodeConfigs.getElem?_stored]
    by_cases hid : key = record.nodeId
    · subst hid
      simp [NodeConfigs.put]
    · by_cases hres : key = LOCAL_NODE_SENTINEL_KEY
      · subst hres
        simp [NodeConfigs.put, AList.lookup_insert_ne hid]
      · simp [NodeConfigs.put, AList.lookup_insert_ne hid, AList.lookup_insert_ne hres, hid, hres,
          h.rows]
  clear := by
    left
    by_cases hres : LOCAL_NODE_SENTINEL_KEY = record.nodeId
    · rw [NodeConfigs.put, hres]
      simp
    · simp [NodeConfigs.put, AList.lookup_insert_ne hres]

theorem get (h : Mirrors s t) (id : String) : s.get id = t.get {} id := by
  simp only [NodeConfigs.get, RedbNodeConfigs.get, RedbNodeConfigs.getJson, h.rows]
  cases s.lookup id <;> rfl

/-- The records of the two stores are the same. -/
theorem mem_records_iff (h : Mirrors s t) {records : List NodeConfigRecord}
    (hrows : t.toList.map (·.2) = records.map .ok) {r : NodeConfigRecord} :
    r ∈ records ↔ ∃ e ∈ s.entries, e.2 = r := by
  have hmem : r ∈ records ↔ Except.ok r ∈ t.toList.map (·.2) := by simp [hrows]
  rw [hmem, List.mem_map]
  constructor
  · rintro ⟨⟨key, row⟩, he, rfl⟩
    rw [Std.ExtTreeMap.mem_toList_iff_getElem?_eq_some, h.rows] at he
    obtain ⟨r', hr', heq⟩ := Option.map_eq_some_iff.mp he
    cases heq
    exact ⟨⟨key, r⟩, AList.mem_lookup_iff.mp hr', rfl⟩
  · rintro ⟨⟨key, r'⟩, he, rfl⟩
    refine ⟨(key, .ok r'), ?_, rfl⟩
    rw [Std.ExtTreeMap.mem_toList_iff_getElem?_eq_some, h.rows, AList.mem_lookup_iff.mpr he]
    rfl

/-- Without the reserved row the fallback of the in-memory store sees all records. -/
theorem mem_unmarked_iff {order : IterationOrder} (hnone : s.lookup LOCAL_NODE_SENTINEL_KEY = none)
    {r : NodeConfigRecord} : r ∈ s.unmarked order ↔ ∃ e ∈ s.entries, e.2 = r := by
  simp only [NodeConfigs.unmarked, List.mem_map, List.mem_filter, (order.perm s.entries).mem_iff]
  constructor
  · rintro ⟨e, ⟨he, -⟩, rfl⟩
    exact ⟨e, he, rfl⟩
  · rintro ⟨e, he, rfl⟩
    refine ⟨e, ⟨he, ?_⟩, rfl⟩
    simp only [bne_iff_ne]
    intro hkey
    have hfound := AList.mem_lookup_iff.mpr he
    rw [hkey, hnone] at hfound
    cases hfound

/-- Mirrored stores return the same local record. -/
theorem getLocal (h : Mirrors s t) (order : IterationOrder) :
    s.getLocal order = t.getLocal {} := by
  have hget := h.get LOCAL_NODE_SENTINEL_KEY
  simp only [NodeConfigs.get, RedbNodeConfigs.get] at hget
  simp only [NodeConfigs.getLocal, RedbNodeConfigs.getLocal, ← hget]
  cases hres : s.lookup LOCAL_NODE_SENTINEL_KEY with
  | some record => rfl
  | none =>
    -- every row reads back, so the listing is the records
    obtain ⟨records, hrows⟩ : t.toList.map (·.2) ∈ Set.range (List.map Except.ok) := by
      rw [Set.range_list_map]
      intro row hrow
      obtain ⟨⟨key, row⟩, he, rfl⟩ := List.mem_map.mp hrow
      rw [Std.ExtTreeMap.mem_toList_iff_getElem?_eq_some, h.rows] at he
      obtain ⟨r, -, heq⟩ := Option.map_eq_some_iff.mp he
      exact ⟨r, heq⟩
    have hlist : t.listJson none = .ok records := RedbNodeConfigs.mapM_rows hrows.symm
    have hmem : ∀ r, r ∈ s.unmarked order ↔ r ∈ records := fun r => by
      rw [mem_unmarked_iff hres, h.mem_records_iff hrows.symm]
    simp only [hlist, Except.map]
    refine congrArg Except.ok (maxByKey_congr hmem fun a ha b hb hmax hmax' => ?_)
    -- with no local marker two largest records are one
    rcases h.clear with hsome | hone
    · rw [hres] at hsome
      cases hsome
    · obtain ⟨e, he, rfl⟩ := (mem_unmarked_iff hres).mp ha
      obtain ⟨e', he', rfl⟩ := (mem_unmarked_iff hres).mp hb
      have hall : ∀ x ∈ s.entries, x.2 ∈ s.unmarked order := fun x hx =>
        (mem_unmarked_iff hres).mpr ⟨x, hx, rfl⟩
      exact hone e he e' he' (fun x hx => hmax _ (hall x hx)) fun x hx => hmax' _ (hall x hx)

end Mirrors

/-! ### Sequences of calls -/

/-- A call of a node config repository. -/
inductive NodeConfigCall where
  | put (record : NodeConfigRecord)
  | get (nodeId : String)
  | getLocal

namespace NodeConfigRepository

variable {σ : Type} (repo : NodeConfigRepository σ)

/-- A call, with what it returns, a `put` nothing. -/
def call (s : σ) : NodeConfigCall → σ × Except StorageError (Option NodeConfigRecord)
  | .put record => ((repo.put s record).1, (repo.put s record).2.map fun _ => none)
  | .get nodeId => (s, repo.get s nodeId)
  | .getLocal => (s, repo.getLocal s)

/-- The answers of calls made one after another. -/
def answers : σ → List NodeConfigCall → List (Except StorageError (Option NodeConfigRecord))
  | _, [] => []
  | s, c :: calls => (repo.call s c).2 :: answers (repo.call s c).1 calls

end NodeConfigRepository

theorem Mirrors.call {s : NodeConfigs} {t : RedbNodeConfigs} (h : Mirrors s t)
    (order : IterationOrder) (c : NodeConfigCall) :
    Mirrors ((NodeConfigStore order).call s c).1 ((RedbNodeConfigRepository {}).call t c).1 ∧
      ((NodeConfigStore order).call s c).2 = ((RedbNodeConfigRepository {}).call t c).2 := by
  cases c with
  | put record => exact ⟨h.put record, rfl⟩
  | get nodeId => exact ⟨h, h.get nodeId⟩
  | getLocal => exact ⟨h, h.getLocal order⟩

theorem Mirrors.answers {s : NodeConfigs} {t : RedbNodeConfigs} (h : Mirrors s t)
    (order : IterationOrder) (calls : List NodeConfigCall) :
    (NodeConfigStore order).answers s calls = (RedbNodeConfigRepository {}).answers t calls := by
  induction calls generalizing s t with
  | nil => rfl
  | cons c calls ih =>
    obtain ⟨hnext, hsame⟩ := h.call order c
    exact congrArg₂ List.cons hsame (ih hnext)

/-- **A failed `put` can replace the local record.**  A `put` on the redb store is atomic and read
back exactly when its first transaction fails, its second one does not, or the reserved row has the
record already.  Without failures the store answers as the in-memory one does. -/
theorem node_config_atomic_iff (io : NodeConfigFaults) (t : RedbNodeConfigs)
    (record : NodeConfigRecord) :
    (RedbNodeConfigs.PutKept io t record ↔
      io.writeSentinel ≠ none ∨ io.writeNode = none ∨
        t[LOCAL_NODE_SENTINEL_KEY]? = some (.ok record)) ∧
    ∀ (order : IterationOrder) (s : NodeConfigs), Mirrors s t → ∀ calls,
      (NodeConfigStore order).answers s calls = (RedbNodeConfigRepository {}).answers t calls :=
  ⟨RedbNodeConfigs.put_kept_iff, fun order _ h calls => h.answers order calls⟩

/-- The node that a file has as the local one, and the one that a later start wants to store. -/
def nodeBefore : NodeConfigRecord where
  nodeId := "n1"
  displayName := "hub"
  routeName := "hub"
  updatedMs := 1

def nodeAfter : NodeConfigRecord where
  nodeId := "n2"
  displayName := "hub"
  routeName := "hub"
  updatedMs := 2

/-- Two new stores, with a record stored and read. -/
theorem node_config_atomic_empty :
    let order : IterationOrder := ⟨fun entries => entries, fun _ => .refl _⟩
    (NodeConfigStore order).answers ∅ [.put nodeBefore, .getLocal, .get "n1"] =
      (RedbNodeConfigRepository {}).answers ∅ [.put nodeBefore, .getLocal, .get "n1"] :=
  (node_config_atomic_iff {} ∅ nodeBefore).2 _ ∅ .empty _

/-- **The `put` fails, and the next start has another node id.**  The record of the new id is not
there. -/
theorem put_torn :
    let io : NodeConfigFaults := { writeNode := some (.unavailable "disk full") }
    let t := RedbNodeConfigs.stored ∅ nodeBefore
    (t.put io nodeAfter).2 = .error (.unavailable "disk full") ∧
      t.getLocal {} = .ok (some nodeBefore) ∧
      (t.put io nodeAfter).1.getLocal {} = .ok (some nodeAfter) ∧
      (t.put io nodeAfter).1.get {} "n2" = .ok none ∧ ¬ RedbNodeConfigs.PutKept io t nodeAfter := by
  intro io t
  have hlocal : t[LOCAL_NODE_SENTINEL_KEY]? = some (.ok nodeBefore) := by
    rw [RedbNodeConfigs.getElem?_stored, if_pos (.inr rfl)]
  refine ⟨rfl, RedbNodeConfigs.getLocal_of_row hlocal, RedbNodeConfigs.getLocal_of_row ?_, ?_, ?_⟩
  · exact (RedbNodeConfigs.getElem?_insert_row t _ _ _).trans (if_pos rfl)
  · have hnone : (t.insert LOCAL_NODE_SENTINEL_KEY (.ok nodeAfter))["n2"]? = none := by
      rw [RedbNodeConfigs.getElem?_insert_row, RedbNodeConfigs.getElem?_stored]
      simp [LOCAL_NODE_SENTINEL_KEY, nodeBefore]
    exact RedbNodeConfigs.get_congr (hnone.trans (by simp : (∅ : RedbNodeConfigs)["n2"]? = none).symm)
  · rw [RedbNodeConfigs.put_kept_iff, hlocal]
    simp [io, nodeBefore, nodeAfter]

end Boardwalk
