import Mathlib.Data.List.AList

/-! Maps as `std::map` has them: a subscript creates the entry that it does not find. -/

namespace OpenAir

abbrev StdMap (κ α : Type*) := AList fun _ : κ => α

namespace StdMap

variable {κ α : Type*} [DecidableEq κ] {m : StdMap κ α} {k k' : κ} {a d : α}

def size (m : StdMap κ α) : Nat := m.keys.length

/-- `m[k]`, read: what is there afterwards, and the map with it. -/
def subscript (m : StdMap κ α) (k : κ) (d : α) : α × StdMap κ α :=
  match m.lookup k with
  | some a => (a, m)
  | none => (d, m.insert k d)

/-- `m[k]`, changed in place. -/
def modify (m : StdMap κ α) (k : κ) (d : α) (f : α → α) : StdMap κ α :=
  m.insert k (f ((m.lookup k).getD d))

def eraseAll (m : StdMap κ α) (ks : List κ) : StdMap κ α := ks.foldl (fun m k => m.erase k) m

theorem subscript_of_lookup (h : m.lookup k = some a) : m.subscript k d = (a, m) := by
  rw [subscript, h]

theorem lookup_insert_eq : (m.insert k a).lookup k' = if k' = k then some a else m.lookup k' := by
  split
  · next h => rw [h, AList.lookup_insert]
  · next h => exact AList.lookup_insert_ne h

theorem lookup_erase_eq : (m.erase k).lookup k' = if k' = k then none else m.lookup k' := by
  split
  · next h => rw [h, AList.lookup_erase]
  · next h => exact AList.lookup_erase_ne h

theorem lookup_eraseAll {ks : List κ} :
    (m.eraseAll ks).lookup k = if k ∈ ks then none else m.lookup k := by
  induction ks generalizing m with
  | nil => simp [eraseAll]
  | cons k' ks ih =>
    rw [eraseAll, List.foldl_cons]
    change (eraseAll (m.erase k') ks).lookup k = _
    rw [ih, lookup_erase_eq]
    by_cases hks : k ∈ ks
    · simp [hks]
    · by_cases hk : k = k' <;> simp [hks, hk]

theorem mem_keys_iff : k ∈ m.keys ↔ ∃ a, m.lookup k = some a := by
  rw [← AList.mem_keys, ← AList.lookup_isSome, Option.isSome_iff_exists]

end StdMap

end OpenAir
