import OpenAir.Lib.RingDeque

/-! The hash table of `hashtable.c` against a finite map.  Data are pointers, `none` for `NULL`. -/

namespace OpenAir.Ds

open Function List

variable {δ : Type*}

abbrev HashKey := BitVec 64

inductive HashRc where
  | ok
  | insertOverwrittenData
  | keyNotExists
  deriving DecidableEq

structure HashNode (δ : Type*) where
  key : HashKey
  data : Option δ

structure HashNodeList (δ : Type*) where
  arr : List (HashNode δ) := []
  cap : Nat := 0

structure HashTable (δ : Type*) where
  size : Nat
  entries : Nat
  nodes : Nat → HashNodeList δ
  hashfunc : HashKey → BitVec 64

structure HashAnswer (δ : Type*) where
  rc : HashRc
  data : Option δ := none
  freed : List δ := []

def nodeCapInit : Nat := 4

def HashNodeList.getNextNode (l : HashNodeList δ) (new : HashNode δ) : HashNodeList δ where
  arr := l.arr ++ [new]
  cap := if l.cap ≤ l.arr.length then if l.cap = 0 then nodeCapInit else l.cap * 2 else l.cap

def HashNodeList.find (l : HashNodeList δ) (key : HashKey) : Option Nat :=
  l.arr.findIdx? fun x => x.key == key

def moveNodes : Nat → List (HashNode δ) → Nat → List (HashNode δ)
  | 0, arr, _ => arr
  | rounds + 1, arr, x =>
    match arr[x + 1]? with
    | none => arr
    | some y => moveNodes rounds (arr.set x y) (x + 1)

/-- `if (freefunc && x->data) freefunc(x->data)` -/
def freeData (freefunc : Bool) (data : Option δ) : List δ := if freefunc then data.toList else []

def defHashfunc (key : HashKey) : BitVec 64 :=
  let x := (key ^^^ (key >>> 30)) * 0xbf58476d1ce4e5b9#64
  let x := (x ^^^ (x >>> 27)) * 0x94d049bb133111eb#64
  x ^^^ (x >>> 31)

def hashtableCreate (size : Nat) (hashfunc : Option (HashKey → BitVec 64)) : HashTable δ where
  size := size
  entries := 0
  nodes := fun _ => {}
  hashfunc := hashfunc.getD defHashfunc

namespace HashTable

def bucket (t : HashTable δ) (key : HashKey) : Nat := (t.hashfunc key).toNat % t.size

def hashtableIsKeyExists (t : HashTable δ) (key : HashKey) : HashRc :=
  match (t.nodes (t.bucket key)).find key with
  | some _ => .ok
  | none => .keyNotExists

def hashtableInsert (t : HashTable δ) (key : HashKey) (data : Option δ) (freefunc : Bool) :
    HashAnswer δ × HashTable δ :=
  let l := t.nodes (t.bucket key)
  match l.find key with
  | some i =>
    ({ rc := .insertOverwrittenData, freed := freeData freefunc (l.arr[i]?.bind (·.data)) },
      { t with
        nodes := update t.nodes (t.bucket key)
          { l with arr := l.arr.modify i fun x => { x with data := data } } })
  | none =>
    ({ rc := .ok },
      { t with
        nodes := update t.nodes (t.bucket key) (l.getNextNode ⟨key, data⟩)
        entries := t.entries + 1 })

def hashtableRemove (t : HashTable δ) (key : HashKey) (freefunc : Bool) :
    HashAnswer δ × HashTable δ :=
  let l := t.nodes (t.bucket key)
  match l.find key with
  | some i =>
    ({ rc := .ok, freed := freeData freefunc (l.arr[i]?.bind (·.data)) },
      { t with
        nodes := update t.nodes (t.bucket key)
          { l with arr := (moveNodes (l.arr.length - (i + 1)) l.arr i).dropLast }
        entries := t.entries - 1 })
  | none => ({ rc := .keyNotExists }, t)

def hashtableGet (t : HashTable δ) (key : HashKey) : HashAnswer δ :=
  let l := t.nodes (t.bucket key)
  match l.find key with
  | some i => { rc := .ok, data := l.arr[i]?.bind (·.data) }
  | none => { rc := .keyNotExists }

end HashTable

structure HashIterator where
  list : Nat
  idxInList : Nat

def hashtableGetIterator : HashIterator := ⟨0, 0⟩

def HashTable.iteratorLoop (t : HashTable δ) :
    Nat → HashIterator → Option (Option δ) × HashIterator
  | 0, it => (none, it)
  | lists + 1, it =>
    match (t.nodes it.list).arr[it.idxInList]? with
    | some x => (some x.data, { it with idxInList := it.idxInList + 1 })
    | none => t.iteratorLoop lists ⟨it.list + 1, 0⟩

/-- `none` when the call returns false. -/
def HashTable.hashtableIteratorGetnext (t : HashTable δ) (it : HashIterator) :
    Option (Option δ) × HashIterator :=
  t.iteratorLoop (t.size - it.list) it

def HashTable.iterate (t : HashTable δ) : Nat → HashIterator → List (Option (Option δ))
  | 0, _ => []
  | n + 1, it =>
    (t.hashtableIteratorGetnext it).1 :: t.iterate n (t.hashtableIteratorGetnext it).2

inductive HashOp (δ : Type*) where
  | insert (key : HashKey) (data : Option δ) (freefunc : Bool)
  | remove (key : HashKey) (freefunc : Bool)
  | get (key : HashKey)
  | isKeyExists (key : HashKey)

def HashTable.exec (t : HashTable δ) : HashOp δ → HashAnswer δ × HashTable δ
  | .insert key data freefunc => t.hashtableInsert key data freefunc
  | .remove key freefunc => t.hashtableRemove key freefunc
  | .get key => (t.hashtableGet key, t)
  | .isKeyExists key => ({ rc := t.hashtableIsKeyExists key }, t)

def HashTable.execAll (t : HashTable δ) : List (HashOp δ) → List (HashAnswer δ) × HashTable δ
  | [] => ([], t)
  | op :: ops => (((t.exec op).1 :: ((t.exec op).2.execAll ops).1), ((t.exec op).2.execAll ops).2)

abbrev KeyMap (δ : Type*) := HashKey → Option (Option δ)

namespace KeyMap

def exec (m : KeyMap δ) : HashOp δ → HashAnswer δ × KeyMap δ
  | .insert key data freefunc =>
    ({ rc := if (m key).isSome then .insertOverwrittenData else .ok
       freed := freeData freefunc (m key).join }, update m key (some data))
  | .remove key freefunc =>
    ({ rc := if (m key).isSome then .ok else .keyNotExists
       freed := freeData freefunc (m key).join }, update m key none)
  | .get key =>
    ({ rc := if (m key).isSome then .ok else .keyNotExists, data := (m key).join }, m)
  | .isKeyExists key => ({ rc := if (m key).isSome then .ok else .keyNotExists }, m)

def execAll (m : KeyMap δ) : List (HashOp δ) → List (HashAnswer δ) × KeyMap δ
  | [] => ([], m)
  | op :: ops => (((exec m op).1 :: (execAll (exec m op).2 ops).1), (execAll (exec m op).2 ops).2)

end KeyMap

theorem HashNodeList.find_cases (l : HashNodeList δ) (key : HashKey) :
    (l.find key = none ∧ ∀ x ∈ l.arr, x.key ≠ key) ∨
      ∃ before x behind, l.arr = before ++ x :: behind ∧ x.key = key ∧
        l.find key = some before.length := by
  cases h : l.find key with
  | none => exact .inl ⟨rfl, by simpa [find, List.findIdx?_eq_none_iff] using h⟩
  | some i =>
    obtain ⟨hi, hkey, -⟩ := List.findIdx?_eq_some_iff_getElem.mp h
    refine .inr ⟨l.arr.take i, l.arr[i], l.arr.drop (i + 1), ?_, by simpa using hkey, ?_⟩
    · rw [getElem_cons_drop, take_append_drop]
    · rw [length_take, Nat.min_eq_left hi.le]

theorem key_ne_of_nodup {before behind : List (HashNode δ)} {x : HashNode δ}
    (h : ((before ++ x :: behind).map (·.key)).Nodup) : ∀ y ∈ before ++ behind, y.key ≠ x.key := by
  rw [map_append, map_cons, nodup_middle, nodup_cons, ← map_append] at h
  exact fun y hy heq => h.1 (heq ▸ mem_map_of_mem hy)

theorem modify_append_cons {α : Type*} (before : List α) (x : α) (behind : List α) (f : α → α) :
    (before ++ x :: behind).modify before.length f = before ++ f x :: behind := by
  induction before with
  | nil => rfl
  | cons y before ih => simpa [modify_succ_cons] using ih

theorem dropLast_moveNodes (rounds : Nat) : ∀ {arr : List (HashNode δ)} {x : Nat},
    arr.length = x + 1 + rounds → (moveNodes rounds arr x).dropLast = arr.eraseIdx x := by
  induction rounds with
  | zero =>
    intro arr x h
    rw [moveNodes, ← eraseIdx_length_sub_one, h, Nat.add_zero, Nat.add_sub_cancel]
  | succ rounds ih =>
    intro arr x h
    have hy : arr[x + 1]? = some arr[x + 1] := List.getElem?_eq_getElem (by omega)
    simp only [moveNodes, hy]
    rw [ih (by rw [length_set]; omega), eraseIdx_set_next hy]

structure HashTable.Refines (t : HashTable δ) (m : KeyMap δ) : Prop where
  size_pos : 0 < t.size
  bucket_eq : ∀ i, ∀ x ∈ (t.nodes i).arr, t.bucket x.key = i
  nodup : ∀ i, ((t.nodes i).arr.map (·.key)).Nodup
  length_le : ∀ i, (t.nodes i).arr.length ≤ (t.nodes i).cap
  data : ∀ key d, m key = some d ↔ ⟨key, d⟩ ∈ (t.nodes (t.bucket key)).arr
  entries_eq : t.entries = ∑ i ∈ Finset.range t.size, (t.nodes i).arr.length

theorem hashtableCreate_refines {size : Nat} (h : 0 < size)
    (hashfunc : Option (HashKey → BitVec 64)) :
    (hashtableCreate size hashfunc : HashTable δ).Refines fun _ => none := by
  constructor <;> simp [hashtableCreate, h]

namespace HashTable.Refines

variable {t : HashTable δ} {m : KeyMap δ} {key : HashKey}

theorem bucket_lt (h : t.Refines m) (key : HashKey) : t.bucket key < t.size :=
  Nat.mod_lt _ h.size_pos

theorem setNodes (h : t.Refines m) {l : HashNodeList δ} {entries : Nat} {v : Option (Option δ)}
    (hbucket : ∀ x ∈ l.arr, t.bucket x.key = t.bucket key)
    (hnodup : (l.arr.map (·.key)).Nodup) (hlen : l.arr.length ≤ l.cap)
    (hdata : ∀ key' d, t.bucket key' = t.bucket key →
      (update m key v key' = some d ↔ ⟨key', d⟩ ∈ l.arr))
    (hentries : entries + (t.nodes (t.bucket key)).arr.length = t.entries + l.arr.length) :
    HashTable.Refines
      { t with nodes := update t.nodes (t.bucket key) l, entries := entries }
      (update m key v) := by
  have hb : t.bucket key ∈ Finset.range t.size := Finset.mem_range.mpr (h.bucket_lt key)
  refine ⟨h.size_pos, fun i x hx => ?_, fun i => ?_, fun i => ?_, fun key' d => ?_, ?_⟩
  · change t.bucket x.key = i
    by_cases hi : i = t.bucket key
    · subst hi
      exact hbucket x (by simpa using hx)
    · exact h.bucket_eq i x (by simpa [hi] using hx)
  · by_cases hi : i = t.bucket key
    · simpa [hi] using hnodup
    · simpa [hi] using h.nodup i
  · by_cases hi : i = t.bucket key
    · simpa [hi] using hlen
    · simpa [hi] using h.length_le i
  · change _ ↔ _ ∈ (update t.nodes (t.bucket key) l (t.bucket key')).arr
    by_cases hi : t.bucket key' = t.bucket key
    · rw [hi, update_self]
      exact hdata key' d hi
    · have hne : key' ≠ key := fun hk => hi (by rw [hk])
      rw [update_of_ne hne, update_of_ne hi]
      exact h.data key' d
  · have hold := h.entries_eq
    have hnew := Finset.sum_update_of_mem hb (fun i => (t.nodes i).arr.length) l.arr.length
    have hsplit := Finset.add_sum_erase _ (fun i => (t.nodes i).arr.length) hb
    have hfun : (fun i => (update t.nodes (t.bucket key) l i).arr.length) =
        update (fun i => (t.nodes i).arr.length) (t.bucket key) l.arr.length := by
      funext i
      by_cases hi : i = t.bucket key <;> simp [hi]
    simp only [hfun, hnew, Finset.sdiff_singleton_eq_erase]
    omega

theorem map_eq_none (h : t.Refines m) (hne : ∀ x ∈ (t.nodes (t.bucket key)).arr, x.key ≠ key) :
    m key = none := by
  refine Option.eq_none_iff_forall_ne_some.mpr fun d hd => ?_
  exact hne _ ((h.data key d).mp hd) rfl

theorem map_eq_some (h : t.Refines m) {before behind : List (HashNode δ)} {x : HashNode δ}
    (harr : (t.nodes (t.bucket key)).arr = before ++ x :: behind) (hkey : x.key = key) :
    m key = some x.data := by
  rw [h.data, harr, ← hkey]
  simp

theorem replace (h : t.Refines m) {before behind : List (HashNode δ)} {x : HashNode δ}
    (harr : (t.nodes (t.bucket key)).arr = before ++ x :: behind) (hkey : x.key = key)
    {v : Option (Option δ)} {entries : Nat} (hentries : entries + 1 = t.entries + v.toList.length) :
    HashTable.Refines
      { t with
        nodes := update t.nodes (t.bucket key)
          { t.nodes (t.bucket key) with
            arr := before ++ ((v.map (HashNode.mk key)).toList ++ behind) }
        entries := entries }
      (update m key v) := by
  have hnodup := h.nodup (t.bucket key)
  have hcap := h.length_le (t.bucket key)
  have hbucket := h.bucket_eq (t.bucket key)
  rw [harr] at hnodup hcap hbucket
  have hne := key_ne_of_nodup hnodup
  refine h.setNodes (fun y hy => ?_) ?_ ?_ (fun key' d hb => ?_) ?_
  · cases v <;> grind
  · refine hnodup.sublist ?_
    cases v with
    | none => exact ((sublist_cons_self x behind).append_left before).map _
    | some d => simp [hkey]
  · refine le_trans ?_ hcap
    cases v <;> simp
  · have hdata := h.data key' d
    rw [hb, harr] at hdata
    by_cases hk : key' = key
    · have := hne ⟨key, d⟩
      rw [hk, update_self]
      cases v <;> simp_all [eq_comm]
    · rw [update_of_ne hk, hdata]
      cases v <;> grind
  · rw [harr]
    cases v <;> simp at hentries ⊢ <;> omega

theorem insert (h : t.Refines m) (data : Option δ) (freefunc : Bool) :
    (t.exec (.insert key data freefunc)).1 = (m.exec (.insert key data freefunc)).1 ∧
      (t.exec (.insert key data freefunc)).2.Refines (m.exec (.insert key data freefunc)).2 := by
  simp only [HashTable.exec, KeyMap.exec, hashtableInsert]
  obtain ⟨hfind, hne⟩ | ⟨before, x, behind, harr, hkey, hfind⟩ :=
    (t.nodes (t.bucket key)).find_cases key
  · rw [hfind, h.map_eq_none hne]
    have hnodup := h.nodup (t.bucket key)
    have hcap := h.length_le (t.bucket key)
    refine ⟨by simp [freeData], h.setNodes ?_ ?_ ?_ ?_ ?_⟩
    · simpa [HashNodeList.getNextNode, or_imp, forall_and] using h.bucket_eq (t.bucket key)
    · simpa [HashNodeList.getNextNode, nodup_append, hnodup] using hne
    · simp only [HashNodeList.getNextNode, length_append, length_singleton]
      grind [nodeCapInit]
    · intro key' d hb
      have hdata := h.data key' d
      rw [hb] at hdata
      by_cases hk : key' = key
      · subst hk
        have hno : ⟨key', d⟩ ∉ (t.nodes (t.bucket key')).arr := fun hx => hne _ hx rfl
        simp [HashNodeList.getNextNode, hno, eq_comm]
      · simp [HashNodeList.getNextNode, hk, hdata]
    · simp [HashNodeList.getNextNode]
      omega
  · have hset : (t.nodes (t.bucket key)).arr.modify before.length
        (fun y => { y with data := data }) = before ++ ⟨key, data⟩ :: behind := by
      rw [harr, ← hkey, modify_append_cons]
    simp only [hfind, h.map_eq_some harr hkey, hset]
    exact ⟨by simp [harr], h.replace (v := some data) harr hkey rfl⟩

theorem remove (h : t.Refines m) (freefunc : Bool) :
    (t.exec (.remove key freefunc)).1 = (m.exec (.remove key freefunc)).1 ∧
      (t.exec (.remove key freefunc)).2.Refines (m.exec (.remove key freefunc)).2 := by
  simp only [HashTable.exec, KeyMap.exec, hashtableRemove]
  obtain ⟨hfind, hne⟩ | ⟨before, x, behind, harr, hkey, hfind⟩ :=
    (t.nodes (t.bucket key)).find_cases key
  · have hnone := h.map_eq_none hne
    have hsame : update m key none = m := by rw [← hnone, update_eq_self]
    rw [hfind, hsame]
    exact ⟨by simp [freeData, hnone], h⟩
  · have herase : (moveNodes ((t.nodes (t.bucket key)).arr.length - (before.length + 1))
        (t.nodes (t.bucket key)).arr before.length).dropLast = before ++ behind := by
      rw [dropLast_moveNodes _ (by simp [harr]), harr]
      simp [eraseIdx_append_of_length_le]
    have hone : 1 ≤ t.entries := by
      have hle := Finset.single_le_sum (fun i _ => Nat.zero_le (t.nodes i).arr.length)
        (Finset.mem_range.mpr (h.bucket_lt key))
      rw [← h.entries_eq, harr, length_append, length_cons] at hle
      omega
    simp only [hfind, h.map_eq_some harr hkey, herase]
    exact ⟨by simp [harr], h.replace (v := none) harr hkey (Nat.sub_add_cancel hone)⟩

theorem get (h : t.Refines m) : t.hashtableGet key = (m.exec (.get key)).1 := by
  simp only [KeyMap.exec, hashtableGet]
  obtain ⟨hfind, hne⟩ | ⟨before, x, behind, harr, hkey, hfind⟩ :=
    (t.nodes (t.bucket key)).find_cases key
  · simp [hfind, h.map_eq_none hne]
  · simp [hfind, h.map_eq_some harr hkey, harr]

theorem isKeyExists (h : t.Refines m) :
    t.hashtableIsKeyExists key = if (m key).isSome then .ok else .keyNotExists := by
  simp only [hashtableIsKeyExists]
  obtain ⟨hfind, hne⟩ | ⟨before, x, behind, harr, hkey, hfind⟩ :=
    (t.nodes (t.bucket key)).find_cases key
  · simp [hfind, h.map_eq_none hne]
  · simp [hfind, h.map_eq_some harr hkey]

theorem exec (h : t.Refines m) (op : HashOp δ) :
    (t.exec op).1 = (m.exec op).1 ∧ (t.exec op).2.Refines (m.exec op).2 := by
  cases op with
  | insert key data freefunc => exact h.insert data freefunc
  | remove key freefunc => exact h.remove freefunc
  | get key => exact ⟨h.get, h⟩
  | isKeyExists key => exact ⟨by rw [HashTable.exec, KeyMap.exec, h.isKeyExists], h⟩

theorem execAll (ops : List (HashOp δ)) : ∀ {t : HashTable δ} {m : KeyMap δ}, t.Refines m →
    (t.execAll ops).1 = (m.execAll ops).1 ∧ (t.execAll ops).2.Refines (m.execAll ops).2 := by
  induction ops with
  | nil => intro t m h; exact ⟨rfl, h⟩
  | cons op ops ih =>
    intro t m h
    obtain ⟨hanswer, hnext⟩ := h.exec op
    obtain ⟨hanswers, hend⟩ := ih hnext
    exact ⟨by rw [HashTable.execAll, KeyMap.execAll, hanswer, hanswers], hend⟩

end HashTable.Refines

namespace HashTable

variable {t : HashTable δ} {m : KeyMap δ}

def rest (t : HashTable δ) : Nat → HashIterator → List (HashNode δ)
  | 0, _ => []
  | lists + 1, it => (t.nodes it.list).arr.drop it.idxInList ++ t.rest lists ⟨it.list + 1, 0⟩

theorem iteratorLoop_spec (lists : Nat) : ∀ it : HashIterator, it.list + lists = t.size →
    (t.iteratorLoop lists it).1 = ((t.rest lists it).head?.map (·.data)) ∧
      t.rest (t.size - (t.iteratorLoop lists it).2.list) (t.iteratorLoop lists it).2 =
        (t.rest lists it).tail ∧ (t.iteratorLoop lists it).2.list ≤ t.size := by
  induction lists with
  | zero =>
    intro it h
    rw [iteratorLoop, rest, show t.size - it.list = 0 by omega]
    exact ⟨rfl, rfl, by simp only; omega⟩
  | succ lists ih =>
    intro it h
    rw [iteratorLoop, rest]
    cases hx : (t.nodes it.list).arr[it.idxInList]? with
    | none =>
      rw [drop_eq_nil_of_le (List.getElem?_eq_none_iff.mp hx), nil_append]
      exact ih ⟨it.list + 1, 0⟩ (by simp only; omega)
    | some x =>
      obtain ⟨hlt, rfl⟩ := List.getElem?_eq_some_iff.mp hx
      rw [drop_eq_getElem_cons hlt, show t.size - it.list = lists + 1 by omega, rest]
      exact ⟨rfl, rfl, by simp only; omega⟩

theorem iterate_eq (n : Nat) : ∀ it : HashIterator, it.list ≤ t.size →
    t.iterate n it = ((t.rest (t.size - it.list) it).take n).map (fun x => some x.data) ++
      List.replicate (n - (t.rest (t.size - it.list) it).length) none := by
  induction n with
  | zero => intro it _; simp [iterate]
  | succ n ih =>
    intro it hit
    obtain ⟨hhead, htail, hle⟩ := iteratorLoop_spec (t := t) (t.size - it.list) it (by omega)
    rw [iterate, hashtableIteratorGetnext, hhead, ih _ hle, htail]
    cases t.rest (t.size - it.list) it with
    | nil => simp [replicate_succ]
    | cons x xs => simp

theorem rest_eq_flatMap (lists : Nat) : ∀ i, t.rest lists ⟨i, 0⟩ =
    (List.range' i lists).flatMap fun j => (t.nodes j).arr := by
  induction lists with
  | zero => intro i; rfl
  | succ lists ih =>
    intro i
    rw [rest, ih, List.range'_succ, flatMap_cons, drop_zero]

def allNodes (t : HashTable δ) : List (HashNode δ) := t.rest t.size hashtableGetIterator

theorem mem_allNodes (h : t.Refines m) {x : HashNode δ} :
    x ∈ t.allNodes ↔ m x.key = some x.data := by
  rw [allNodes, hashtableGetIterator, rest_eq_flatMap, h.data, mem_flatMap]
  constructor
  · rintro ⟨i, -, hx⟩
    rwa [h.bucket_eq i x hx]
  · intro hx
    exact ⟨_, by simpa using h.bucket_lt x.key, hx⟩

theorem nodup_keys_allNodes (h : t.Refines m) : (t.allNodes.map (·.key)).Nodup := by
  rw [allNodes, hashtableGetIterator, rest_eq_flatMap, map_flatMap, nodup_flatMap]
  refine ⟨fun i _ => h.nodup i, List.Pairwise.imp (fun {i j} hij => ?_) nodup_range'⟩
  rw [onFun, disjoint_left]
  intro key hi hj
  obtain ⟨x, hx, rfl⟩ := mem_map.mp hi
  obtain ⟨y, hy, hkey⟩ := mem_map.mp hj
  exact hij (by rw [← h.bucket_eq i x hx, ← h.bucket_eq j y hy, hkey])

theorem length_allNodes (h : t.Refines m) : t.allNodes.length = t.entries := by
  rw [allNodes, hashtableGetIterator, rest_eq_flatMap, h.entries_eq, length_flatMap,
    ← range_eq_range']
  rfl

end HashTable

/-- Every run on a new table gives the answers of the map; iteration gives the datum of each key
once. -/
theorem hashtable_refines_map {size : Nat} (hsize : 0 < size)
    (hashfunc : Option (HashKey → BitVec 64)) (ops : List (HashOp δ)) :
    ((hashtableCreate size hashfunc).execAll ops).1 = (KeyMap.execAll (fun _ => none) ops).1 ∧
      ((hashtableCreate size hashfunc).execAll ops).2.entries =
        {key | (KeyMap.execAll (fun _ => none) ops).2 key ≠ none}.ncard ∧
      ∃ keys : List HashKey, keys.Nodup ∧
        (∀ key, key ∈ keys ↔ (KeyMap.execAll (fun _ => none) ops).2 key ≠ none) ∧
        ∀ n, ((hashtableCreate size hashfunc).execAll ops).2.iterate n hashtableGetIterator =
          (keys.take n).map (KeyMap.execAll (fun _ => none) ops).2 ++
            List.replicate (n - keys.length) none := by
  obtain ⟨hanswers, h⟩ := (hashtableCreate_refines hsize hashfunc).execAll ops
  generalize (hashtableCreate size hashfunc).execAll ops = t at *
  generalize KeyMap.execAll (fun _ => none) ops = m at *
  have hnodup := HashTable.nodup_keys_allNodes h
  have hmem : ∀ key, key ∈ t.2.allNodes.map (·.key) ↔ m.2 key ≠ none := by
    intro key
    rw [mem_map, Option.ne_none_iff_exists']
    constructor
    · rintro ⟨x, hx, rfl⟩
      exact ⟨x.data, (HashTable.mem_allNodes h).mp hx⟩
    · rintro ⟨d, hd⟩
      exact ⟨⟨key, d⟩, (HashTable.mem_allNodes h).mpr hd, rfl⟩
  have hkeys : {key | m.2 key ≠ none} = ↑(t.2.allNodes.map (·.key)).toFinset := by
    ext key
    simpa using (hmem key).symm
  refine ⟨hanswers, ?_, _, hnodup, hmem, fun n => ?_⟩
  · rw [hkeys, Set.ncard_coe_finset, toFinset_card_of_nodup hnodup, length_map,
      HashTable.length_allNodes h]
  · rw [HashTable.iterate_eq n _ (Nat.zero_le _), ← map_take, map_map, length_map]
    refine congrArg₂ _ (map_congr_left fun x hx => ?_) rfl
    exact ((HashTable.mem_allNodes h).mp (mem_of_mem_take hx)).symm

theorem hashtable_refines_map_one_list :
    0 < 1 ∧ ((hashtableCreate 1 none).execAll
      [.insert 1 (some 10) true, .insert 2 (some 20) true, .insert 1 (some 11) true,
        .remove 2 true]).2.entries =
      {key | (KeyMap.execAll (fun _ => none)
        [.insert 1 (some 10) true, .insert 2 (some 20) true, .insert 1 (some 11) true,
          .remove 2 true]).2 key ≠ none}.ncard :=
  ⟨Nat.one_pos, (hashtable_refines_map (δ := Nat) Nat.one_pos none _).2.1⟩

end OpenAir.Ds
