import Boardwalk.Lib.Table
import Boardwalk.Runtime.Executor
import Boardwalk.Runtime.Resource

/-!
# The resource directory of a node

`ResourceDirectory` of `runtime/directory.rs`: the entries in the order of their registration, and
an index by id.  The index has the position of every entry, so that no two of them share an id.
-/

namespace Boardwalk

/-- The index has the position of every entry. -/
def Indexed (entries : List Entry) (byId : Table String ℕ) : Prop :=
  ∀ id i, byId.get? id = some i ↔ (entries[i]?).map Entry.id = some id

/-- An entry with an id of its own goes behind the last one. -/
theorem Indexed.push {entries : List Entry} {byId : Table String ℕ} (h : Indexed entries byId)
    {e : Entry} (hfree : byId.get? e.id = none) :
    Indexed (entries ++ [e]) (byId.insert e.id entries.length) := by
  intro id i
  have hold := h id i
  rw [Table.get?_insert]
  -- an old position, the new one, or one past the end
  rcases Nat.lt_trichotomy i entries.length with hlt | rfl | hlt
  · -- the old entries keep their positions, and none of them has the new id
    rw [List.getElem?_append_left hlt, ← hold]
    by_cases hid : id = e.id
    · simp [hid, hfree, Nat.ne_of_gt hlt]
    · rw [if_neg hid]
  · have hnone : byId.get? id ≠ some entries.length := by simp [hold]
    by_cases hid : id = e.id
    · simp [hid]
    · simp [hid, hnone, Ne.symm hid]
  · have hnone : byId.get? id ≠ some i := by
      rw [ne_eq, hold, List.getElem?_eq_none (by omega)]
      simp
    have hend : (entries ++ [e])[i]? = none := by
      rw [List.getElem?_eq_none_iff, List.length_append, List.length_singleton]
      omega
    rw [hend]
    by_cases hid : id = e.id
    · simp [hid, Nat.ne_of_lt hlt]
    · simp [hid, hnone]

structure ResourceDirectory where
  entries : List Entry
  byId : Table String ℕ
  indexed : Indexed entries byId

/-- The error of `insert` and of `Node::register_with_id`. -/
def duplicateResourceId (id : String) : ResourceError := .internal ("duplicate resource id: " ++ id)

namespace ResourceDirectory

def new : ResourceDirectory where
  entries := []
  byId := .empty
  indexed id i := by simp [Table.empty]

def getById (dir : ResourceDirectory) (id : String) : Option Entry :=
  (dir.byId.get? id).bind fun i => dir.entries[i]?

def containsId (dir : ResourceDirectory) (id : String) : Bool := dir.byId.containsKey id

def insert (dir : ResourceDirectory) (e : Entry) : ResourceDirectory × Except ResourceError Unit :=
  match h : dir.byId.get? e.id with
  | some _ => (dir, .error (duplicateResourceId e.id))
  | none =>
    ({ entries := dir.entries ++ [e]
       byId := dir.byId.insert e.id dir.entries.length
       indexed := dir.indexed.push h }, .ok ())

/-- **What an insertion does**: an id that is taken leaves the directory, another one gets its
entry. -/
theorem insert_cases (dir : ResourceDirectory) (e : Entry) :
    (dir.containsId e.id = true ∧ dir.insert e = (dir, .error (duplicateResourceId e.id))) ∨
    (dir.containsId e.id = false ∧ (dir.insert e).2 = .ok () ∧
      (dir.insert e).1.getById e.id = some e) := by
  unfold insert containsId Table.containsKey
  split
  · rename_i i hi
    exact .inl ⟨by rw [hi]; rfl, rfl⟩
  · rename_i hi
    exact .inr ⟨by rw [hi]; rfl, rfl, by simp [getById]⟩

end ResourceDirectory

end Boardwalk
