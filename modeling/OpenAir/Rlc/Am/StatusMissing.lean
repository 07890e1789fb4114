import OpenAir.Rlc.Am.StatusPdu
import OpenAir.Rlc.Am.Window

namespace OpenAir.Rlc.Am

open List

def SnNack.wire (c : Config) (n : SnNack) : SnNack :=
  { n with sn := n.sn % c.snModulus, soStart := n.soStart % 2 ^ 16 }

def SnNack.toEnd (n : SnNack) : SnNack := { n with soEnd := none }

def NackField.sns (c : Config) (f : NackField) : List SnNack := f.toNack.sns c

def spanNack (a s z : Nat) (t : Option Nat) (x : Nat) : SnNack :=
  { sn := x, soStart := if x = a then s else 0, soEnd := if x = z then t else none }

def spanNacks (a s z : Nat) (t : Option Nat) (u v : Nat) : List SnNack :=
  (List.range' u (v - u)).map (spanNack a s z t)

variable {c : Config} {a s z u v : Nat} {t : Option Nat}

theorem spanNacks_append {x : Nat} (h₁ : u ≤ v) (h₂ : v ≤ x) :
    spanNacks a s z t u v ++ spanNacks a s z t v x = spanNacks a s z t u x := by
  rw [spanNacks, spanNacks, spanNacks, ← map_append]
  have := List.range'_append_1 (s := u) (m := v - u) (n := x - v)
  rw [show u + (v - u) = v by omega, show v - u + (x - v) = x - u by omega] at this
  rw [this]

@[simp] theorem spanNacks_self : spanNacks a s z t u u = [] := by simp [spanNacks]

def spanBlock (c : Config) (a s z : Nat) (t : Option Nat) (u count : Nat) : NackBlock :=
  { snStart := u % c.snModulus
    soStart := if u = a then s else 0
    snEnd := (u + count - 1) % c.snModulus
    soEnd := if u + count = z + 1 then t.getD 0xffff else 0xffff }

section

variable {count : Nat} (hpos : 0 < count) (hM : count ≤ c.snModulus)
include hpos hM

theorem hasRange_spanBlock : (spanBlock c a s z t u count).hasRange = decide (1 < count) := by
  have hinj : u % c.snModulus = (u + count - 1) % c.snModulus ↔ u = u + count - 1 :=
    ⟨Cyclic.mod_injOn (R := u) le_rfl (by omega) (by omega) (by omega), fun h => by rw [← h]⟩
  unfold NackBlock.hasRange spanBlock
  simp only [ne_eq, hinj]
  congr 1
  simp only [eq_iff_iff]
  omega

theorem range_spanBlock : ((spanBlock c a s z t u count).field count).toNack.range = count := by
  change (if (spanBlock c a s z t u count).hasRange then some count else none).getD 1 = count
  rw [hasRange_spanBlock hpos hM]
  by_cases h : 1 < count
  · simp [h]
  · simp [h]
    omega

end

theorem NackBlock.hasSo_eq_false {n : NackBlock} :
    n.hasSo = false ↔ n.soStart = 0 ∧ n.soEnd = 0xffff := by
  simp [hasSo]

theorem soStart_spanBlock (count : Nat) :
    ((spanBlock c a s z t u count).field count).toNack.soStart =
      (if u = a then s else 0) % 2 ^ 16 := by
  unfold NackField.toNack NackBlock.field
  cases hso : (spanBlock c a s z t u count).hasSo with
  | true => rfl
  | false =>
    have hstart : (if u = a then s else 0) = 0 := (NackBlock.hasSo_eq_false.mp hso).1
    simp [hstart]

theorem soEnd_spanBlock (ht : ∀ x, t = some x → x < 0xffff) (count : Nat) :
    ((spanBlock c a s z t u count).field count).toNack.soEnd =
      if u + count = z + 1 then t else none := by
  have hend : ∀ v, v = t.getD 0xffff → soEndOf (v % 2 ^ 16) = t := by
    rintro v rfl
    cases ht' : t with
    | none => rfl
    | some x =>
      have := ht x ht'
      rw [Option.getD_some, Nat.mod_eq_of_lt (by omega), soEndOf, if_neg (by omega)]
  unfold NackField.toNack NackBlock.field
  cases hso : (spanBlock c a s z t u count).hasSo with
  | true =>
    simp only [if_true, Option.elim_some, spanBlock]
    split
    · exact hend _ rfl
    · rfl
  | false =>
    have hstop : (if u + count = z + 1 then t.getD 0xffff else 0xffff) = 0xffff :=
      (NackBlock.hasSo_eq_false.mp hso).2
    simp only [Bool.false_eq_true, if_false, Option.elim_none]
    split
    · next heq =>
      rw [if_pos heq] at hstop
      rw [← hend _ rfl, hstop]
      rfl
    · rfl

variable {count : Nat}

theorem sns_spanBlock (ha : a ≤ u) (hz : u + count ≤ z + 1) (hpos : 0 < count)
    (hM : count ≤ c.snModulus) (ht : ∀ x, t = some x → x < 0xffff) :
    ((spanBlock c a s z t u count).field count).sns c =
      (spanNacks a s z t u (u + count)).map (SnNack.wire c) := by
  rw [NackField.sns, Nack.sns, range_spanBlock hpos hM, soStart_spanBlock, soEnd_spanBlock ht,
    spanNacks, Nat.add_sub_cancel_left, List.range'_eq_map_range, map_map, map_map]
  refine map_congr_left fun i hi => ?_
  rw [mem_range] at hi
  simp only [Function.comp_apply, spanNack, SnNack.wire, SnNack.mk.injEq]
  refine ⟨?_, ?_, ?_⟩
  · change (u % c.snModulus + i) % c.snModulus = _
    rw [Nat.mod_add_mod]
  · by_cases hi₀ : i = 0
    · simp [hi₀]
    · rw [if_neg hi₀, if_neg (by omega), Nat.zero_mod]
  · by_cases hi₁ : i = count - 1
    · rw [if_pos hi₁]
      congr 1
      simp only [eq_iff_iff]
      omega
    · rw [if_neg hi₁, if_neg (by omega)]

theorem wf_spanBlock (h255 : count ≤ 255) :
    ((spanBlock c a s z t u count).field count).Wf c := by
  refine ⟨Nat.mod_lt _ c.snModulus_pos, fun x y hxy => ?_, fun r hr => ?_⟩
  · unfold NackBlock.field at hxy
    simp only at hxy
    split at hxy
    · cases hxy
      exact ⟨Nat.mod_lt _ (Nat.two_pow_pos _), Nat.mod_lt _ (Nat.two_pow_pos _)⟩
    · cases hxy
  · unfold NackBlock.field at hr
    simp only at hr
    split at hr
    · cases hr
      omega
    · cases hr

def StatusEncoder.Reports (c : Config) (w : StatusEncoder) (rep : List SnNack) : Prop :=
  ∃ ns, w.Writes c ns ∧ (∀ f ∈ ns, f.Wf c ∧ 0 < f.toNack.range) ∧
    ns.flatMap (NackField.sns c) = rep.map (SnNack.wire c)

structure Generates (c : Config) (w : StatusEncoder) (rep : List SnNack) (a s z : Nat)
    (t : Option Nat) (u : Nat) (lastNack : Option Nat) (r : MissingLoop) (v : Nat) : Prop where
  le : u ≤ v
  le_end : v ≤ z + 1
  reports : r.writer.Reports c (rep ++ spanNacks a s z t u v)
  size : r.writer.encoder.size = w.encoder.size
  byte : w.encoder.byte + min 1 (v - u) ≤ r.writer.encoder.byte
  fits : w.encoder.byte ≤ w.encoder.size → r.writer.encoder.byte ≤ w.encoder.size
  truncated : r.truncated = decide (v < z + 1)
  full : r.truncated = true → w.encoder.size < r.writer.encoder.byte + 8
  lastNack : r.lastNack = lastNack ∧ v = u ∨
    ∃ x, r.lastNack = some x ∧ x % c.snModulus = (v - 1) % c.snModulus ∧ u < v

variable {rep : List SnNack} {w : StatusEncoder}

theorem StatusEncoder.Reports.putNack (h : w.Reports c rep) (ha : a ≤ u) (hz : u + count ≤ z + 1)
    (hpos : 0 < count) (hM : count ≤ c.snModulus) (h255 : count ≤ 255)
    (ht : ∀ x, t = some x → x < 0xffff)
    (hfit : w.encoder.byte + (spanBlock c a s z t u count).size c ≤ w.encoder.size) :
    ∃ w', w.putNack c (spanBlock c a s z t u count) count = some w' ∧
      w'.Reports c (rep ++ spanNacks a s z t u (u + count)) ∧
      w'.encoder.size = w.encoder.size ∧ w.encoder.byte < w'.encoder.byte ∧
      w'.encoder.byte ≤ w.encoder.size := by
  obtain ⟨ns, hw, hns, hrep⟩ := h
  obtain ⟨w', hput, hw', hsize⟩ := hw.putNack count hfit
  have hbyte : w'.encoder.byte = w.encoder.byte + (spanBlock c a s z t u count).size c := by
    rw [hw.byte, hw'.byte, map_append, sum_append, map_singleton, sum_singleton,
      NackBlock.size_field, Nat.add_assoc]
  refine ⟨w', hput, ⟨_, hw', fun f hf => ?_, ?_⟩, hsize, ?_, by omega⟩
  · rcases mem_append.mp hf with hf | hf
    · exact hns f hf
    · rw [mem_singleton.mp hf]
      exact ⟨wf_spanBlock h255, by rw [range_spanBlock hpos hM]; exact hpos⟩
  · rw [flatMap_append, hrep, flatMap_singleton, sns_spanBlock ha hz hpos hM ht,
      map_append]
  · rw [hbyte, NackBlock.size]
    omega

theorem generates_loop {fuel : Nat} {l : List Pdu} (lastNack : Option Nat) (ha : a ≤ u)
    (hu : u ≤ z + 1) (hz : z < a + c.snModulus) (ht : ∀ x, t = some x → x < 0xffff)
    (hfuel : z + 1 - u ≤ fuel) (hw : w.Reports c rep) :
    ∃ r v, generateMissingLoop c ⟨a % c.snModulus, s, z % c.snModulus, t.getD 0xffff, l⟩ fuel
      (z + 1 - u) (u % c.snModulus) ⟨w, lastNack, false⟩ = some r ∧
      Generates c w rep a s z t u lastNack r v := by
  have hM : 2048 ≤ c.windowSize := c.windowSize_ge
  have hlt := c.windowSize_lt
  induction fuel generalizing u w rep lastNack with
  | zero =>
    obtain rfl : u = z + 1 := by omega
    exact ⟨_, _, rfl, le_rfl, le_rfl, by simpa using hw, rfl, by simp, id, by simp, nofun,
      .inl ⟨rfl, rfl⟩⟩
  | succ fuel ih =>
    rw [generateMissingLoop]
    split
    · next hdone =>
      obtain rfl : u = z + 1 := by omega
      exact ⟨_, _, rfl, le_rfl, le_rfl, by simpa using hw, rfl, by simp, id, by simp, nofun,
        .inl ⟨rfl, rfl⟩⟩
    · next hmore =>
      -- one block of at most 255 SNs
      obtain ⟨count, hcount⟩ : ∃ count, count = min (z + 1 - u) 255 := ⟨_, rfl⟩
      have hstart : u % c.snModulus = a % c.snModulus ↔ u = a :=
        ⟨Cyclic.mod_injOn ha (by omega) le_rfl (by omega), fun h => by rw [h]⟩
      have hblock : (⟨u % c.snModulus,
          if u % c.snModulus = a % c.snModulus then s else 0,
          if decide (count = z + 1 - u) then z % c.snModulus
            else (u % c.snModulus + 254) % c.snModulus,
          if decide (count = z + 1 - u) then t.getD 0xffff else 0xffff⟩ : NackBlock) =
          spanBlock c a s z t u count := by
        have hlast : count = z + 1 - u ↔ u + count = z + 1 := by omega
        simp only [spanBlock, hstart, NackBlock.mk.injEq, true_and, decide_eq_true_eq, hlast]
        refine ⟨?_, trivial⟩
        split
        · congr 1
          omega
        · rw [Nat.mod_add_mod]
          congr 1
          omega
      simp only [← hcount]
      rw [hblock]
      split
      · next hfull =>
        refine ⟨_, u, rfl, le_rfl, hu, by simpa using hw, rfl, by simp, id, by simp; omega,
          fun _ => ?_, .inl ⟨rfl, rfl⟩⟩
        have : (spanBlock c a s z t u count).size c ≤ 8 := by
          unfold NackBlock.size
          split <;> split <;> split <;> omega
        change w.encoder.size < w.encoder.byte + 8
        omega
      · next hfit =>
        obtain ⟨w', hput, hw', hsize, hbyte, hfits⟩ := hw.putNack (s := s) (t := t) ha
          (by omega : u + count ≤ z + 1) (by omega) (by omega) (by omega) ht (by omega)
        have hrange : (spanBlock c a s z t u count).hasRange = decide (1 < count) :=
          hasRange_spanBlock (by omega) (by omega)
        obtain ⟨r, v, hr, hg⟩ := ih (u := u + count)
          (some (u % c.snModulus + if (spanBlock c a s z t u count).hasRange then count - 1 else 0))
          (by omega) (by omega) (by omega) hw'
        have hsub : z + 1 - u - count = z + 1 - (u + count) := by omega
        refine ⟨r, v, ?_, by have := hg.le; omega, hg.le_end, ?_, hg.size.trans hsize, ?_,
          fun _ => ?_, hg.truncated, ?_, ?_⟩
        · simp only [hput, Option.bind_eq_bind, Option.bind_some, Nat.mod_add_mod, hsub]
          exact hr
        · have := hg.reports
          rwa [append_assoc, spanNacks_append (by omega) hg.le] at this
        · have := hg.byte
          omega
        · exact hsize ▸ hg.fits (hsize ▸ hfits)
        · rw [← hsize]
          exact hg.full
        · rcases hg.lastNack with ⟨hl, rfl⟩ | ⟨x, hl, hx, hv⟩
          · refine .inr ⟨_, hl, ?_, by omega⟩
            rw [Nat.mod_add_mod, hrange]
            congr 1
            by_cases h1 : 1 < count
            · simp [h1]
              omega
            · simp [h1]
              omega
          · exact .inr ⟨x, hl, hx, by omega⟩

theorem StatusEncoder.Reports.generateMissing {l : List Pdu} (hw : w.Reports c rep) (hle : a ≤ z)
    (hz : z < a + c.snModulus) (ht : ∀ x, t = some x → x < 0xffff) :
    ∃ r v, generateMissing c w ⟨a % c.snModulus, s, z % c.snModulus, t.getD 0xffff, l⟩ = some r ∧
      Generates c w rep a s z t a none r v := by
  obtain ⟨r, v, hr, hg⟩ := generates_loop (s := s) (l := l) none le_rfl (by omega) hz ht le_rfl hw
  refine ⟨r, v, ?_, hg⟩
  have hcount :
      (z % c.snModulus + c.snModulus - a % c.snModulus) % c.snModulus + 1 = z + 1 - a := by
    have ha := Nat.mod_lt a c.snModulus_pos
    have hd := Cyclic.dist_mod hle hz
    unfold Cyclic.dist at hd
    split at hd
    · rw [hd, Nat.mod_eq_of_lt (by omega)]
      omega
    · rw [show z % c.snModulus + c.snModulus - a % c.snModulus = z - a + c.snModulus by omega,
        Nat.add_mod_right, Nat.mod_eq_of_lt (by omega)]
      omega
  rw [Am.generateMissing]
  simp only [hcount]
  exact hr

end OpenAir.Rlc.Am
