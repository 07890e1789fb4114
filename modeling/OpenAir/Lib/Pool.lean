import Mathlib.Data.List.Basic

/-! Pools of objects that are built on request, kept, and found again by a key. -/

namespace OpenAir.Pool

structure Entry (ι κ α : Type*) where
  busy : Bool
  key : κ
  request : ι
  value : α
  deriving DecidableEq

variable {ι κ α ε : Type*}

def take [DecidableEq κ] (k : κ) :
    List (Entry ι κ α) → Option (Nat × Entry ι κ α × List (Entry ι κ α))
  | [] => none
  | e :: es =>
    if e.busy = false ∧ e.key = k then
      some (es.length, { e with busy := true }, { e with busy := true } :: es)
    else (take k es).map fun x => (x.1, x.2.1, e :: x.2.2)

def acquire [DecidableEq κ] (key : ι → κ) (build : ι → Except ε α)
    (es : List (Entry ι κ α)) (i : ι) : Except ε (Nat × Entry ι κ α × List (Entry ι κ α)) :=
  match take (key i) es with
  | some x => .ok x
  | none =>
    match build i with
    | .error err => .error err
    | .ok a => .ok (es.length, ⟨true, key i, i, a⟩, ⟨true, key i, i, a⟩ :: es)

def release (n : Nat) : List (Entry ι κ α) → List (Entry ι κ α)
  | [] => []
  | e :: es => if es.length = n then { e with busy := false } :: es else e :: release n es

def Sound (key : ι → κ) (build : ι → Except ε α) (P : ι → Prop) (es : List (Entry ι κ α)) : Prop :=
  ∀ e ∈ es, P e.request ∧ e.key = key e.request ∧ build e.request = .ok e.value

variable {key : ι → κ} {build : ι → Except ε α} {P : ι → Prop} {es : List (Entry ι κ α)}

theorem Sound.release (h : Sound key build P es) (n : Nat) : Sound key build P (release n es) := by
  induction es with
  | nil => exact h
  | cons e es ih =>
    obtain ⟨he, hes⟩ := List.forall_mem_cons.mp h
    rw [Pool.release]
    split
    · exact List.forall_mem_cons.mpr ⟨he, hes⟩
    · exact List.forall_mem_cons.mpr ⟨he, ih hes⟩

variable [DecidableEq κ]

theorem Sound.take (h : Sound key build P es) {k : κ} {x : Nat × Entry ι κ α × List (Entry ι κ α)}
    (hx : take k es = some x) :
    Sound key build P x.2.2 ∧ P x.2.1.request ∧ key x.2.1.request = k ∧
      build x.2.1.request = .ok x.2.1.value := by
  induction es generalizing x with
  | nil => cases hx
  | cons e es ih =>
    obtain ⟨he, hes⟩ := List.forall_mem_cons.mp h
    rw [Pool.take] at hx
    split at hx
    · next hfree =>
      cases hx
      exact ⟨List.forall_mem_cons.mpr ⟨he, hes⟩, he.1, he.2.1 ▸ hfree.2, he.2.2⟩
    · obtain ⟨y, hy, rfl⟩ := Option.map_eq_some_iff.mp hx
      obtain ⟨hsound, hrest⟩ := ih hes hy
      exact ⟨List.forall_mem_cons.mpr ⟨he, hsound⟩, hrest⟩

theorem Sound.acquire (h : Sound key build P es) (hinj : ∀ i j, P i → P j → key i = key j → i = j)
    {i : ι} (hi : P i) {x : Nat × Entry ι κ α × List (Entry ι κ α)}
    (hx : acquire key build es i = .ok x) :
    Sound key build P x.2.2 ∧ x.2.1.request = i ∧ build i = .ok x.2.1.value := by
  unfold Pool.acquire at hx
  split at hx
  · next y hy =>
    cases hx
    obtain ⟨hsound, hP, hkey, hbuild⟩ := h.take hy
    have hreq := hinj _ _ hP hi hkey
    exact ⟨hsound, hreq, hreq ▸ hbuild⟩
  · split at hx
    · cases hx
    · next a hbuild =>
      cases hx
      exact ⟨List.forall_mem_cons.mpr ⟨⟨hi, rfl, hbuild⟩, h⟩, rfl, hbuild⟩

theorem acquire_isOk {i : ι} {a : α} (hbuild : build i = .ok a) (es : List (Entry ι κ α)) :
    ∃ x, acquire key build es i = .ok x := by
  unfold Pool.acquire
  split
  · exact ⟨_, rfl⟩
  · rw [hbuild]
    exact ⟨_, rfl⟩

end OpenAir.Pool
