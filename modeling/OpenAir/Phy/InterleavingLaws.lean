import Mathlib.Tactic.IntervalCases
import OpenAir.Phy.Interleaving

namespace OpenAir.Phy

open M128 Function

section Updates

variable {α : Type} {mem : Nat → α} {a : Nat → Nat} {v : Nat → α} {n : Nat}

theorem foldl_update_of_ne {q : Nat} (h : ∀ k < n, a k ≠ q) :
    (List.range n).foldl (fun mem k => update mem (a k) (v k)) mem q = mem q := by
  induction n with
  | zero => rfl
  | succ n ih =>
    rw [List.range_succ, List.foldl_append, List.foldl_cons, List.foldl_nil,
      update_of_ne (h n (Nat.lt_succ_self n)).symm, ih fun k hk => h k (by omega)]

theorem foldl_update_self (hinj : ∀ j < n, ∀ k < n, a j = a k → j = k) {k : Nat} (hk : k < n) :
    (List.range n).foldl (fun mem k => update mem (a k) (v k)) mem (a k) = v k := by
  induction n with
  | zero => omega
  | succ n ih =>
    rw [List.range_succ, List.foldl_append, List.foldl_cons, List.foldl_nil]
    by_cases heq : k = n
    · rw [heq, update_self]
    · rw [update_of_ne fun h => heq (hinj k hk n (Nat.lt_succ_self n) h)]
      exact ih (fun i hi j hj => hinj i (by omega) j (by omega)) (by omega)

end Updates

structure Interleaves (qm : Nat) (shuffle : (Nat → M128) → List M128) : Prop where
  length : ∀ e, (shuffle e).length = qm
  byte : ∀ e q, q < 16 * qm → byteAt (shuffle e) q = e (q % qm) (Fin.ofNat 16 (q / qm))

theorem interleaves_interleave2 : Interleaves 2 interleave2 where
  length _ := rfl
  byte e q h := by interval_cases q <;> rfl

theorem interleaves_interleave4 : Interleaves 4 interleave4 where
  length _ := rfl
  byte e q h := by interval_cases q <;> rfl

theorem interleaves_interleave8 : Interleaves 8 interleave8 where
  length _ := rfl
  byte e q h := by interval_cases q <;> rfl

namespace Interleaver

variable {e : Nat → Byte} {qm eqm n : Nat} {s s' : Interleaver}
  {shuffle : (Nat → M128) → List M128}

structure Done (e : Nat → Byte) (qm eqm : Nat) (s : Interleaver) : Prop where
  e_eq : ∀ k, s.e k = k * eqm + s.i
  f_eq : s.f = s.i * qm
  mem : ∀ q < s.i * qm, s.mem q = e (q % qm * eqm + q / qm)

structure Round (e : Nat → Byte) (qm n : Nat) (s s' : Interleaver) : Prop where
  i_eq : s'.i = s.i + n
  e_eq : ∀ k, s'.e k = s.e k + n
  f_eq : s'.f = s.f + n * qm
  keep : ∀ q < s.f, s'.mem q = s.mem q
  put : ∀ q < n * qm, s'.mem (s.f + q) = e (s.e (q % qm) + q / qm)

theorem Done.round (h : Done e qm eqm s) (hqm : 0 < qm) (hr : Round e qm n s s') :
    Done e qm eqm s' := by
  refine ⟨fun k => ?_, ?_, fun q hq => ?_⟩
  · rw [hr.e_eq, h.e_eq, hr.i_eq, Nat.add_assoc]
  · rw [hr.f_eq, h.f_eq, hr.i_eq, Nat.add_mul]
  · rw [hr.i_eq, Nat.add_mul] at hq
    by_cases hlt : q < s.i * qm
    · rw [hr.keep q (h.f_eq ▸ hlt), h.mem q hlt]
    · obtain ⟨p, rfl⟩ := Nat.exists_eq_add_of_le (Nat.not_lt.mp hlt)
      rw [← h.f_eq, hr.put p (by omega), h.e_eq, h.f_eq, Nat.add_comm (s.i * qm) p,
        Nat.add_mul_mod_self_right, Nat.add_mul_div_right _ _ hqm, Nat.add_assoc, Nat.add_comm s.i]

theorem round_vectorRound (hs : Interleaves qm shuffle) (s : Interleaver) :
    Round e qm 16 s (s.vectorRound e shuffle) := by
  have hlen := hs.length fun k => loadu e (s.e k)
  refine ⟨rfl, fun _ => rfl, ?_, fun q hq => storeAll_of_lt hq, fun q hq => ?_⟩
  · change s.f + 16 * (shuffle _).length = _
    rw [hlen]
  · change storeAll s.mem s.f (shuffle _) (s.f + q) = _
    have hdiv : q / qm < 16 := Nat.div_lt_of_lt_mul (by rwa [Nat.mul_comm])
    rw [storeAll_add (by rwa [hlen]), hs.byte _ q hq, loadu]
    simp [Fin.ofNat, Nat.mod_eq_of_lt hdiv]

theorem round_scalarRound (s : Interleaver) : Round e qm 1 s (s.scalarRound e qm) := by
  refine ⟨rfl, fun _ => rfl, ?_, fun q hq => foldl_update_of_ne (by omega), fun q hq => ?_⟩
  · rw [Nat.one_mul]
    rfl
  · rw [Nat.one_mul] at hq
    rw [Nat.mod_eq_of_lt hq, Nat.div_eq_of_lt hq, Nat.add_zero]
    exact foldl_update_self (by omega) hq

theorem Done.iterate {round : Interleaver → Interleaver} (hr : ∀ s, Round e qm n s (round s))
    (hqm : 0 < qm) (h : Done e qm eqm s) (m : Nat) :
    Done e qm eqm (round^[m] s) ∧ (round^[m] s).i = s.i + m * n := by
  induction m with
  | zero => exact ⟨h, by simp⟩
  | succ m ih =>
    rw [iterate_succ_apply']
    refine ⟨ih.1.round hqm (hr _), ?_⟩
    rw [(hr _).i_eq, ih.2, Nat.add_assoc, Nat.succ_mul]

theorem Done.scalarLoop (h : Done e qm eqm s) (hqm : 0 < qm) (hi : s.i ≤ eqm) :
    Done e qm eqm (s.scalarLoop e qm eqm) ∧ (s.scalarLoop e qm eqm).i = eqm := by
  have := h.iterate round_scalarRound hqm (eqm - s.i)
  refine ⟨this.1, this.2.trans ?_⟩
  omega

theorem Done.vectorLoop (h : Done e qm eqm s) (hs : Interleaves qm shuffle) (hqm : 0 < qm)
    (hi : s.i = 0) :
    Done e qm eqm (s.vectorLoop e shuffle eqm) ∧ (s.vectorLoop e shuffle eqm).i ≤ eqm := by
  have := h.iterate (round_vectorRound hs) hqm ((eqm / 16 * 16 - s.i) / 16)
  refine ⟨this.1, this.2.trans_le ?_⟩
  omega

end Interleaver

def IsQm (qm : Nat) : Prop := qm = 2 ∨ qm = 4 ∨ qm = 6 ∨ qm = 8

theorem nrInterleavingLdpc_eq {E Qm : Nat} (hQm : IsQm Qm) (hE : Qm ∣ E) (e f : Nat → Byte) :
    ∃ f', nrInterleavingLdpc E Qm e f = some f' ∧
      ∀ q < E, f' q = e (q % Qm * (E / Qm) + q / Qm) := by
  let s : Interleaver := ⟨0, fun k => k * (E / Qm), 0, fun q => if q < E then 0 else f q⟩
  have hs : Interleaver.Done e Qm (E / Qm) s := ⟨fun _ => rfl, (Nat.zero_mul _).symm, fun q hq => by
    simp [s] at hq⟩
  -- what is done at the end of the loops
  have hend {t : Interleaver} (ht : t.Done e Qm (E / Qm)) (hi : t.i = E / Qm) :
      ∀ q < E, t.mem q = e (q % Qm * (E / Qm) + q / Qm) := by
    have hmul : t.i * Qm = E := by rw [hi, Nat.div_mul_cancel hE]
    intro q hq
    exact ht.mem q (by rwa [hmul])
  have hvector {shuffle : (Nat → M128) → List M128} (hsh : Interleaves Qm shuffle) (hpos : 0 < Qm) :
      ∀ q < E, ((s.vectorLoop e shuffle (E / Qm)).scalarLoop e Qm (E / Qm)).mem q =
        e (q % Qm * (E / Qm) + q / Qm) := by
    have hv := hs.vectorLoop hsh hpos rfl
    have ht := hv.1.scalarLoop hpos hv.2
    exact hend ht.1 ht.2
  rcases hQm with rfl | rfl | rfl | rfl
  · exact ⟨_, rfl, hvector interleaves_interleave2 (by decide)⟩
  · exact ⟨_, rfl, hvector interleaves_interleave4 (by decide)⟩
  · have ht := hs.scalarLoop (by decide) (Nat.zero_le _)
    exact ⟨_, rfl, hend ht.1 ht.2⟩
  · exact ⟨_, rfl, hvector interleaves_interleave8 (by decide)⟩

structure Deinterleaves (qm : Nat) (shuffle : (Nat → M128) → List M128) : Prop where
  length : ∀ f, (shuffle f).length = qm
  elem : ∀ f k j, k < qm → j < 8 → elem16 ((shuffle f).getD k fun _ => 0) j =
    elem16 (f ((j * qm + k) / 8)) ((j * qm + k) % 8)

theorem deinterleaves_deinterleave2 : Deinterleaves 2 deinterleave2 where
  length _ := rfl
  elem f k j hk hj := by interval_cases k <;> interval_cases j <;> rfl

theorem deinterleaves_deinterleave4 : Deinterleaves 4 deinterleave4 where
  length _ := rfl
  elem f k j hk hj := by interval_cases k <;> interval_cases j <;> rfl

theorem deinterleaves_deinterleave8 : Deinterleaves 8 deinterleave8 where
  length _ := rfl
  elem f k j hk hj := by interval_cases k <;> interval_cases j <;> rfl

namespace Deinterleaver

variable {f : Nat → BitVec 16} {qm eqm n : Nat} {s s' : Deinterleaver}
  {shuffle : (Nat → M128) → List M128}

theorem storeStreams_of_out {e : Nat → Nat} {mem : Nat → BitVec 16} {k q : Nat} {rs : List M128}
    (h : ∀ j < rs.length, q < e (k + j) ∨ e (k + j) + 8 ≤ q) :
    storeStreams e mem k rs q = mem q := by
  induction rs generalizing mem k with
  | nil => rfl
  | cons r rs ih =>
    have h₀ : q < e k ∨ e k + 8 ≤ q := h 0 (by simp)
    rw [storeStreams, ih fun j hj => ?_, storeu16_of_out h₀]
    have := h (j + 1) (by simpa using hj)
    rwa [Nat.add_comm j 1, ← Nat.add_assoc] at this

theorem storeStreams_add {e : Nat → Nat} {mem : Nat → BitVec 16} {k j q : Nat} {rs : List M128}
    (hj : j < rs.length) (hq : q < 8) (h : ∀ i < j, e (k + i) + 8 ≤ e (k + j))
    (h' : ∀ i, j < i → i < rs.length → e (k + j) + 8 ≤ e (k + i)) :
    storeStreams e mem k rs (e (k + j) + q) = elem16 (rs.getD j fun _ => 0) q := by
  induction rs generalizing mem k j with
  | nil => simp at hj
  | cons r rs ih =>
    rw [storeStreams]
    cases j with
    | zero =>
      rw [storeStreams_of_out fun i hi => .inl ?_, Nat.add_zero, storeu16_add _ _ _ hq]
      · rfl
      · have := h' (i + 1) (by omega) (by simpa using hi)
        rw [Nat.add_comm i 1, ← Nat.add_assoc] at this
        omega
    | succ j =>
      have hshift (i : Nat) : k + (i + 1) = k + 1 + i := by omega
      rw [hshift j, List.getD_cons_succ]
      refine ih (by simpa using hj) (fun i hi => ?_) fun i hi hi' => ?_
      · rw [← hshift i, ← hshift j]
        exact h (i + 1) (by omega)
      · rw [← hshift i, ← hshift j]
        exact h' (i + 1) (by omega) (by simpa using hi')

structure Done (f : Nat → BitVec 16) (qm eqm : Nat) (s : Deinterleaver) : Prop where
  e_eq : ∀ k, s.e k = k * eqm + s.i
  f_eq : s.f = s.i * qm
  mem : ∀ k < qm, ∀ r < s.i, s.mem (k * eqm + r) = f (r * qm + k)

structure Round (f : Nat → BitVec 16) (qm n : Nat) (s s' : Deinterleaver) : Prop where
  i_eq : s'.i = s.i + n
  e_eq : ∀ k, s'.e k = s.e k + n
  f_eq : s'.f = s.f + n * qm
  keep : ∀ q, (∀ k < qm, q < s.e k ∨ s.e k + n ≤ q) → s'.mem q = s.mem q
  put : ∀ k < qm, ∀ r < n, s'.mem (s.e k + r) = f (s.f + (r * qm + k))

theorem stream_le (eqm : Nat) {j k : Nat} (h : j < k) : j * eqm + eqm ≤ k * eqm := by
  rw [← Nat.succ_mul]
  exact Nat.mul_le_mul_right _ h

theorem Done.round (h : Done f qm eqm s) (hr : Round f qm n s s') (hn : s.i + n ≤ eqm) :
    Done f qm eqm s' := by
  refine ⟨fun k => ?_, ?_, fun k hk r hlt => ?_⟩
  · rw [hr.e_eq, h.e_eq, hr.i_eq, Nat.add_assoc]
  · rw [hr.f_eq, h.f_eq, hr.i_eq, Nat.add_mul]
  · rw [hr.i_eq] at hlt
    by_cases hr' : r < s.i
    · rw [hr.keep _ fun j _ => ?_, h.mem k hk r hr']
      rw [h.e_eq]
      rcases Nat.lt_trichotomy j k with hjk | rfl | hjk
      · have := stream_le eqm hjk
        omega
      · omega
      · have := stream_le eqm hjk
        omega
    · obtain ⟨p, rfl⟩ := Nat.exists_eq_add_of_le (Nat.not_lt.mp hr')
      rw [← Nat.add_assoc, ← h.e_eq, hr.put k hk p (by omega), h.f_eq, Nat.add_mul, Nat.add_assoc]

theorem round_vectorRound (hs : Deinterleaves qm shuffle) (h : Done f qm eqm s)
    (hi : s.i + 8 ≤ eqm) : Round f qm 8 s (s.vectorRound f qm shuffle) := by
  have hlen := hs.length fun v => loadu16 f (s.f + 8 * v)
  refine ⟨rfl, fun _ => rfl, rfl, fun q hq => ?_, fun k hk r hr => ?_⟩
  · refine storeStreams_of_out fun j hj => ?_
    rw [Nat.zero_add]
    exact hq j (hlen ▸ hj)
  · change storeStreams s.e s.mem 0 (shuffle _) (s.e k + r) = _
    have hstore := @storeStreams_add s.e s.mem 0 k r (shuffle fun v => loadu16 f (s.f + 8 * v))
      (by rwa [hlen]) hr
      (fun i hik => by
        have := stream_le eqm hik
        rw [h.e_eq, h.e_eq, Nat.zero_add, Nat.zero_add]
        omega)
      (fun i hik _ => by
        have := stream_le eqm hik
        rw [h.e_eq, h.e_eq, Nat.zero_add, Nat.zero_add]
        omega)
    rw [Nat.zero_add] at hstore
    rw [hstore, hs.elem _ k r hk hr, elem16_loadu16 _ _ (Nat.mod_lt _ (by decide)), Nat.add_assoc,
      Nat.div_add_mod]

theorem round_scalarRound (h : Done f qm eqm s) (hi : s.i + 1 ≤ eqm) :
    Round f qm 1 s (s.scalarRound f qm) := by
  refine ⟨rfl, fun _ => rfl, ?_, fun q hq => ?_, fun k hk r hr => ?_⟩
  · rw [Nat.one_mul]
    rfl
  · refine foldl_update_of_ne fun k hk => ?_
    have := hq k hk
    omega
  · obtain rfl : r = 0 := by omega
    rw [Nat.add_zero, Nat.zero_mul, Nat.zero_add]
    refine foldl_update_self (fun i _ j _ heq => ?_) hk
    rw [h.e_eq, h.e_eq] at heq
    rcases Nat.lt_trichotomy i j with hij | rfl | hij
    · have := stream_le eqm hij
      omega
    · rfl
    · have := stream_le eqm hij
      omega

theorem Done.iterate {round : Deinterleaver → Deinterleaver}
    (hr : ∀ s, Done f qm eqm s → s.i + n ≤ eqm → Round f qm n s (round s))
    (h : Done f qm eqm s) {m : Nat}
    (hm : s.i + m * n ≤ eqm) : Done f qm eqm (round^[m] s) ∧ (round^[m] s).i = s.i + m * n := by
  induction m with
  | zero => exact ⟨h, by simp⟩
  | succ m ih =>
    rw [Nat.succ_mul] at hm
    obtain ⟨hdone, hi⟩ := ih (by omega)
    have hround := hr _ hdone (by omega)
    rw [iterate_succ_apply']
    refine ⟨hdone.round hround (by omega), ?_⟩
    rw [hround.i_eq, hi, Nat.succ_mul]
    omega

theorem Done.scalarLoop (h : Done f qm eqm s) (hi : s.i ≤ eqm) :
    Done f qm eqm (s.scalarLoop f qm eqm) ∧ (s.scalarLoop f qm eqm).i = eqm := by
  have := h.iterate (fun _ => round_scalarRound) (show s.i + (eqm - s.i) * 1 ≤ eqm by omega)
  refine ⟨this.1, this.2.trans ?_⟩
  omega

theorem Done.vectorLoop (h : Done f qm eqm s) (hs : Deinterleaves qm shuffle) (hi : s.i = 0) :
    Done f qm eqm (s.vectorLoop f qm shuffle eqm) ∧ (s.vectorLoop f qm shuffle eqm).i ≤ eqm := by
  have h₀ : Done f qm eqm { s with i := 0 } := by
    rw [← hi]
    exact h
  have hm : 0 + eqm / 8 * 8 ≤ eqm := by omega
  have := h₀.iterate (fun _ => round_vectorRound hs) hm
  exact ⟨this.1, this.2.trans_le hm⟩

end Deinterleaver

theorem nrDeinterleavingLdpc_eq {E Qm : Nat} (hQm : IsQm Qm) (hE : Qm ∣ E) (e f : Nat → BitVec 16) :
    ∃ e', nrDeinterleavingLdpc E Qm e f = some e' ∧
      ∀ k < Qm, ∀ r < E / Qm, e' (k * (E / Qm) + r) = f (r * Qm + k) := by
  let s : Deinterleaver := ⟨0, fun k => k * (E / Qm), 0, e⟩
  have hs : Deinterleaver.Done f Qm (E / Qm) s :=
    ⟨fun _ => rfl, (Nat.zero_mul _).symm, fun _ _ r hr => absurd hr (Nat.not_lt_zero r)⟩
  have hend {t : Deinterleaver} (ht : t.Done f Qm (E / Qm)) (hi : t.i = E / Qm) :
      ∀ k < Qm, ∀ r < E / Qm, t.mem (k * (E / Qm) + r) = f (r * Qm + k) :=
    fun k hk r hr => ht.mem k hk r (hi ▸ hr)
  have hvector {shuffle : (Nat → M128) → List M128} (hsh : Deinterleaves Qm shuffle) :
      ∀ k < Qm, ∀ r < E / Qm,
        ((s.vectorLoop f Qm shuffle (E / Qm)).scalarLoop f Qm (E / Qm)).mem (k * (E / Qm) + r) =
          f (r * Qm + k) := by
    have hv := hs.vectorLoop hsh rfl
    have ht := hv.1.scalarLoop hv.2
    exact hend ht.1 ht.2
  unfold nrDeinterleavingLdpc
  dsimp only
  rw [if_neg (by simpa using Nat.mod_eq_zero_of_dvd hE)]
  rcases hQm with rfl | rfl | rfl | rfl
  · exact ⟨_, rfl, hvector deinterleaves_deinterleave2⟩
  · exact ⟨_, rfl, hvector deinterleaves_deinterleave4⟩
  · have ht := hs.scalarLoop (Nat.zero_le _)
    exact ⟨_, rfl, hend ht.1 ht.2⟩
  · exact ⟨_, rfl, hvector deinterleaves_deinterleave8⟩

/-- From the interleaved bits, in whatever way they are turned into soft bits, deinterleaving gets
the soft bits in the order of before. -/
theorem deinterleaving_interleaving {E Qm : Nat} (hQm : IsQm Qm) (hE : Qm ∣ E) (e f : Nat → Byte)
    (soft : Byte → BitVec 16) (e₁ : Nat → BitVec 16) :
    ∃ f', nrInterleavingLdpc E Qm e f = some f' ∧
      ∃ e', nrDeinterleavingLdpc E Qm e₁ (fun q => soft (f' q)) = some e' ∧
        ∀ q < E, e' q = soft (e q) := by
  obtain ⟨f', hf', hf⟩ := nrInterleavingLdpc_eq hQm hE e f
  refine ⟨f', hf', ?_⟩
  obtain ⟨e', he', he⟩ := nrDeinterleavingLdpc_eq hQm hE e₁ fun q => soft (f' q)
  refine ⟨e', he', fun q hq => ?_⟩
  obtain ⟨m, rfl⟩ := hE
  have hpos : 0 < Qm := by rcases hQm with rfl | rfl | rfl | rfl <;> decide
  rw [Nat.mul_div_cancel_left m hpos] at hf he
  -- element `q` is number `q % m` of stream `q / m`
  have hm : 0 < m := Nat.pos_of_ne_zero fun h => by simp [h] at hq
  have hk : q / m < Qm := Nat.div_lt_of_lt_mul (by rwa [Nat.mul_comm])
  have hr : q % m < m := Nat.mod_lt q hm
  have hplace : q % m * Qm + q / m < Qm * m := by
    calc q % m * Qm + q / m < q % m * Qm + Qm := by omega
      _ = (q % m + 1) * Qm := (Nat.succ_mul _ _).symm
      _ ≤ m * Qm := Nat.mul_le_mul_right _ hr
      _ = Qm * m := Nat.mul_comm _ _
  have hvalue := he (q / m) hk (q % m) hr
  rw [Nat.mul_comm (q / m) m, Nat.div_add_mod] at hvalue
  rw [hvalue, hf _ hplace, Nat.mul_comm (q % m) Qm, Nat.mul_add_mod, Nat.mod_eq_of_lt hk,
    Nat.mul_add_div hpos, Nat.div_eq_of_lt hk, Nat.add_zero, Nat.mul_comm (q / m) m,
    Nat.div_add_mod]

theorem deinterleaving_interleaving_nineteen : (IsQm 8 ∧ 8 ∣ 152) ∧
    ∃ f', nrInterleavingLdpc 152 8 (.ofNat 8 ·) (fun _ => 1) = some f' ∧
      ∃ e', nrDeinterleavingLdpc 152 8 (fun _ => 0) (fun q => (f' q).setWidth 16) = some e' ∧
        ∀ q < 152, e' q = (BitVec.ofNat 8 q).setWidth 16 :=
  ⟨⟨.inr (.inr (.inr rfl)), by decide⟩,
    deinterleaving_interleaving (.inr (.inr (.inr rfl))) (by decide) _ _ _ _⟩

end OpenAir.Phy
