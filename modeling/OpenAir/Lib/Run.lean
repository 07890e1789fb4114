import Mathlib.Data.List.Basic
import Mathlib.Data.List.Induction

/-! Labelled transition systems and their runs. -/

namespace OpenAir

variable {σ lab : Type*}

inductive Run (step : σ → lab → σ → Prop) : σ → List lab → σ → Prop
  | nil : Run step s [] s
  | snoc : Run step s ls t → step t l u → Run step s (ls ++ [l]) u

namespace Run

variable {step step' : σ → lab → σ → Prop} {s t u : σ}

variable {l : lab} {ls : List lab}

theorem cons (h : step s l t) (hr : Run step t ls u) :
    Run step s (l :: ls) u := by
  induction hr with
  | nil => exact List.nil_append [l] ▸ Run.snoc .nil h
  | snoc _ hs ih => exact .snoc ih hs

theorem append {ls' : List lab} (h : Run step s ls t) (h' : Run step t ls' u) :
    Run step s (ls ++ ls') u := by
  induction h' with
  | nil => simpa using h
  | snoc _ hs ih =>
    rw [← List.append_assoc]
    exact .snoc ih hs

theorem mono (hm : ∀ s l t, step s l t → step' s l t) (h : Run step s ls t) :
    Run step' s ls t := by
  induction h with
  | nil => exact .nil
  | snoc _ hs ih => exact .snoc ih (hm _ _ _ hs)

theorem nil_inv (h : Run step s [] t) : t = s := by
  generalize heq : [] = ls at h
  cases h with
  | nil => rfl
  | snoc => simp at heq

theorem snoc_inv (h : Run step s (ls ++ [l]) u) :
    ∃ t, Run step s ls t ∧ step t l u := by
  generalize heq : ls ++ [l] = ls' at h
  cases h with
  | nil => simp at heq
  | snoc h hl =>
    obtain ⟨rfl, rfl⟩ := List.append_singleton_inj.mp heq
    exact ⟨_, h, hl⟩

theorem append_inv {ls' : List lab} (h : Run step s (ls ++ ls') u) :
    ∃ t, Run step s ls t ∧ Run step t ls' u := by
  induction ls' using List.reverseRecOn generalizing u with
  | nil => exact ⟨u, by simpa using h, .nil⟩
  | append_singleton ls' l ih =>
    rw [← List.append_assoc] at h
    obtain ⟨v, hv, hl⟩ := snoc_inv h
    obtain ⟨t, ht, htv⟩ := ih hv
    exact ⟨t, ht, .snoc htv hl⟩

theorem step_of_mem (h : Run step s ls t) (hl : l ∈ ls) :
    ∃ ls₁ u v, Run step s ls₁ u ∧ step u l v := by
  induction h with
  | nil => cases hl
  | snoc h hs ih =>
    rcases List.mem_append.mp hl with hl | hl
    · exact ih hl
    · cases List.mem_singleton.mp hl
      exact ⟨_, _, _, h, hs⟩

theorem invariant (P : σ → Prop) (h₀ : P s) (hs : ∀ s l t, P s → step s l t → P t)
    (h : Run step s ls t) : P t := by
  induction h with
  | nil => exact h₀
  | snoc _ hl ih => exact hs _ _ _ ih hl

theorem trace_invariant (P : List lab → σ → Prop) (h₀ : P [] s)
    (hs : ∀ ls s l t, P ls s → step s l t → P (ls ++ [l]) t) (h : Run step s ls t) : P ls t := by
  induction h with
  | nil => exact h₀
  | snoc _ hl ih => exact hs _ _ _ _ ih hl

theorem of_foldlM {exec : σ → lab → Option σ} {good : σ → lab → Prop} [∀ s l, Decidable (good s l)]
    (h : ls.foldlM (fun s l => if good s l then exec s l else none) s = some t) :
    Run (fun s l t => exec s l = some t ∧ good s l) s ls t := by
  induction ls generalizing s with
  | nil =>
    cases h
    exact .nil
  | cons l ls ih =>
    rw [List.foldlM_cons] at h
    obtain ⟨u, hu, hrest⟩ := Option.bind_eq_some_iff.mp h
    split at hu
    · next hgood => exact .cons ⟨hu, hgood⟩ (ih hrest)
    · cases hu

end Run

def execList {op out : Type*} (exec : σ → op → Option (σ × out)) (good : σ → op → Bool) (s : σ) :
    List op → Option (σ × List (op × out))
  | [] => some (s, [])
  | o :: ops =>
    match exec s o, good s o with
    | some (t, r), true => (execList exec good t ops).map fun x => (x.1, (o, r) :: x.2)
    | _, _ => none

theorem execList_run {op out : Type*} {exec : σ → op → Option (σ × out)} {good : σ → op → Bool}
    {s t : σ} {ops : List op} {ls : List (op × out)}
    (h : execList exec good s ops = some (t, ls)) :
    Run (fun s l t => exec s l.1 = some (t, l.2) ∧ good s l.1) s ls t := by
  induction ops generalizing s ls with
  | nil =>
    cases h
    exact .nil
  | cons o ops ih =>
    rw [execList] at h
    split at h
    · next t r hex hgood =>
      obtain ⟨⟨u, ls'⟩, hall, heq⟩ := Option.map_eq_some_iff.mp h
      cases heq
      exact .cons ⟨hex, hgood⟩ (ih hall)
    · cases h

end OpenAir
