import OpenAir.Rlc.Am.StatusSound

namespace OpenAir.Rlc.Am

open List

variable {c : Config} {W : Window} {rep : List SnNack} {n b a s z v m : Nat} {t : Option Nat}

def SnNack.Lt (x y : SnNack) : Prop := x.sn < y.sn ∨ x.sn = y.sn ∧ x.soStart < y.soStart

structure Window.AsksFor (W : Window) (x : SnNack) : Prop where
  next_le : W.next ≤ x.sn
  lt_status : x.sn < W.status
  missing : ∀ b, x.Covers x.sn b → ¬ HoldsByte (W.slots x.sn) b
  unended : x.soEnd = none → EndsLast (W.slots x.sn) → ∀ p ∈ W.slots x.sn, p.isLast = false
  ended : ∀ y, x.soEnd = some y → x.soStart ≤ y ∧ ∃ q ∈ W.slots x.sn, y < q.so
  starts : x.soStart = 0 ∨ Passed (W.slots x.sn) (x.soStart - 1)

structure Window.AskedTo (c : Config) (W : Window) (rep : List SnNack) (k n b : Nat) : Prop where
  next_le : W.next ≤ n
  lt_end : n < W.next + c.windowSize
  told : W.Told rep n b
  asks : ∀ x ∈ rep, W.AsksFor x
  sorted : rep.Pairwise SnNack.Lt
  before : ∀ x ∈ rep, x.sn < n ∨ x.sn = n ∧ x.soStart < b
  here : b = 0 ∨ HoldsByte (W.slots n) b
  ack : ∃ A, (k + 1) % c.snModulus = A % c.snModulus ∧ W.next ≤ A ∧ A ≤ W.status ∧
    ∀ x ∈ rep, x.sn < A

structure Window.Aliased (c : Config) (W : Window) : Prop where
  full : W.status = W.next + c.windowSize
  head : ∃ p l, W.slots W.next = p :: l ∧ p.isFirst = false
  unended : EndsLast (W.slots (W.status - 1)) → ∀ p ∈ W.slots (W.status - 1), p.isLast = false

def Window.AsksBehind (c : Config) (W : Window) (rep : List SnNack) : Prop :=
  W.Aliased c ∧ ∃ x ∈ rep, W.status ≤ x.sn ∧ x.sn < W.next + c.snModulus

structure Window.Asked (c : Config) (W : Window) (rep : List SnNack) (k : Nat) : Prop where
  told : W.Told rep W.status 0
  asks : ∀ x ∈ rep, W.AsksFor x
  sorted : rep.Pairwise SnNack.Lt
  ack : ∃ A, (k + 1) % c.snModulus = A % c.snModulus ∧ W.next ≤ A ∧ A ≤ W.status ∧
    ∀ x ∈ rep, x.sn < A
  full : W.status = W.next + c.windowSize →
    (∀ p l, W.slots W.next = p :: l → p.isFirst = true) ∨
    ∃ p ∈ W.slots (W.status - 1), p.isLast = true

def Window.AskInv (c : Config) (W : Window) (rep : List SnNack) (k n b : Nat) : Prop :=
  W.AsksBehind c rep ∨ W.AskedTo c rep k n b

def Window.AskEnd (c : Config) (W : Window) (cut : Bool) (rep : List SnNack) (k : Nat) : Prop :=
  W.AsksBehind c rep ∨ (cut = false ∧ W.Asked c rep k) ∨
    (cut = true ∧ ∃ rep₀ : List SnNack, rep = rep₀.modifyLast SnNack.toEnd ∧
      (∀ x ∈ rep₀, W.AsksFor x) ∧ rep₀.Pairwise SnNack.Lt)

theorem exists_stop_le (l : List Pdu) : ∃ B, ∀ q ∈ l, q.stop ≤ B := by
  induction l with
  | nil => exact ⟨0, nofun⟩
  | cons p l ih =>
    obtain ⟨B, hB⟩ := ih
    refine ⟨max p.stop B, fun q hq => ?_⟩
    rcases mem_cons.mp hq with rfl | hq
    · exact le_max_left _ _
    · exact (hB q hq).trans (le_max_right _ _)

theorem exists_isLast_of_passed {l : List Pdu} (b : Nat) (h : ∀ b' ≥ b, Passed l b') :
    ∃ p ∈ l, p.isLast := by
  obtain ⟨B, hB⟩ := exists_stop_le l
  rcases h (max b B) (le_max_left _ _) with ⟨q, hq, -, hlt⟩ | ⟨hlast, -⟩
  · have := hB q hq
    omega
  · exact hlast

theorem spanNacks_sorted (u : Nat) : (spanNacks a s z t u v).Pairwise SnNack.Lt := by
  refine List.Pairwise.map _ (fun x y hxy => ?_) pairwise_lt_range'
  exact .inl hxy

theorem mem_spanNacks {x : SnNack} :
    x ∈ spanNacks a s z t a v ↔ ∃ m, a ≤ m ∧ m < v ∧ spanNack a s z t m = x := by
  unfold spanNacks
  rw [mem_map]
  constructor
  · rintro ⟨m, hm, hx⟩
    rw [mem_range'_1] at hm
    exact ⟨m, by omega, by omega, hx⟩
  · rintro ⟨m, h₀, h₁, hx⟩
    exact ⟨m, mem_range'_1.mpr (by omega), hx⟩

section

variable {k k' : Nat} (h : W.AskedTo c rep k n b) (hg : W.Gap n b a s z t)
include h hg

theorem Window.AskedTo.starts : s = 0 ∨ Passed (W.slots a) (s - 1) := by
  rcases Nat.eq_zero_or_pos s with hs | hs
  · exact .inl hs
  · refine .inr (hg.passed a (s - 1) hg.start_le (fun ha => ?_) (.inr ⟨rfl, by omega⟩))
    subst ha
    have hstart := hg.start
    by_contra hlt
    obtain rfl : b = s := by omega
    rcases h.here with hb | hb
    · omega
    · exact hg.missing a b le_rfl hg.le hg.lt_status (fun _ => le_rfl)
        (fun haz x hx => hg.nonempty haz x hx) hb

theorem Window.AskedTo.asksFor (ht : ∀ y, t = some y → z < W.status → ∃ q ∈ W.slots z, y < q.so)
    (h₀ : a ≤ m) (h₁ : m ≤ z) (hm : m < W.status) : W.AsksFor (spanNack a s z t m) := by
  have hnext := h.next_le
  have hle := hg.start_le
  refine ⟨show W.next ≤ m by omega, hm, ?_, ?_, ?_, ?_⟩
  · rintro b' ⟨-, hstart, hend⟩
    refine hg.missing m b' h₀ h₁ hm (fun hma => ?_) fun hmz x hx => ?_
    · simpa [spanNack, hma] using hstart
    · exact hend x (by simp [spanNack, hmz, hx])
  · intro hend
    refine hg.unended m h₀ h₁ hm fun hmz => ?_
    simpa [spanNack, hmz] using hend
  · intro y hy
    have hmz : m = z := by
      by_contra hmz
      simp [spanNack, hmz] at hy
    subst hmz
    have hty : t = some y := by simpa [spanNack] using hy
    refine ⟨?_, ht y hty hm⟩
    by_cases hma : m = a
    · simpa [spanNack, hma] using hg.nonempty hma.symm y hty
    · simp [spanNack, hma]
  · by_cases hma : m = a
    · subst hma
      simpa [spanNack] using h.starts hg
    · exact .inl (by simp [spanNack, hma])

theorem Window.AskedTo.sorted_append (v : Nat) :
    (rep ++ spanNacks a s z t a v).Pairwise SnNack.Lt := by
  refine pairwise_append.mpr ⟨h.sorted, spanNacks_sorted a, fun x hx y hy => ?_⟩
  obtain ⟨m, h₀, -, rfl⟩ := mem_spanNacks.mp hy
  have hbefore := h.before x hx
  have hstart := hg.start
  unfold SnNack.Lt spanNack
  dsimp only
  split <;> omega

theorem Window.AskedTo.asksFor_append
    (ht : ∀ y, t = some y → z < W.status → ∃ q ∈ W.slots z, y < q.so)
    (hv : v ≤ z + 1) (hs : v ≤ W.status) : ∀ x ∈ rep ++ spanNacks a s z t a v, W.AsksFor x := by
  intro x hx
  rcases mem_append.mp hx with hx | hx
  · exact h.asks x hx
  · obtain ⟨m, h₀, h₁, rfl⟩ := mem_spanNacks.mp hx
    exact h.asksFor hg ht h₀ (by omega) (by omega)

theorem Window.AskedTo.sn_lt_append : ∀ x ∈ rep ++ spanNacks a s z t a (z + 1), x.sn < z + 1 := by
  intro x hx
  have hle := hg.le
  have hstart := hg.start_le
  rcases mem_append.mp hx with hx | hx
  · have := h.before x hx
    omega
  · obtain ⟨m, -, h₁, rfl⟩ := mem_spanNacks.mp hx
    exact h₁

theorem Window.AskedTo.next {n' b'' : Nat} (hz : z < W.status) (hz' : z ≤ n')
    (hn' : n' < W.next + c.windowSize)
    (ht : ∀ y, t = some y → z < W.status → ∃ q ∈ W.slots z, y < q.so)
    (hk : k' % c.snModulus = z % c.snModulus) (hn : z < n' ∨ z = n' ∧ ∃ y, t = some y ∧ y < b'')
    (hpos : ∀ m b', m < n' ∨ m = n' ∧ b' < b'' → m < z + 1 ∧ (m = z → ∀ x, t = some x → b' ≤ x))
    (here : b'' = 0 ∨ HoldsByte (W.slots n') b'') :
    W.AskedTo c (rep ++ spanNacks a s z t a (z + 1)) k' n' b'' := by
  have hnext := h.next_le
  have hle := hg.le
  have hstart := hg.start_le
  have hlt := h.sn_lt_append hg
  have hasks := h.asksFor_append hg ht le_rfl (by omega)
  refine ⟨hnext.trans (hstart.trans (hle.trans hz')), hn', fun m b' hm hlt' => ?_, hasks,
    h.sorted_append hg _, fun x hx => ?_, here,
    z + 1, succ_mod_congr hk, by omega, by omega, hlt⟩
  · obtain ⟨hmz, ht'⟩ := hpos m b' hlt'
    exact h.told.gap hg hm hmz ht'
  · have := hlt x hx
    rcases hn with hn | ⟨rfl, y, hty, hy⟩
    · omega
    · rcases Nat.lt_or_eq_of_le (Nat.le_of_lt_succ this) with hlt | heq
      · exact .inl hlt
      · refine .inr ⟨heq, ?_⟩
        rcases mem_append.mp hx with hx | hx
        · have := h.before x hx
          have := hg.start
          have := hg.nonempty (by omega) y hty
          omega
        · obtain ⟨m, -, -, rfl⟩ := mem_spanNacks.mp hx
          have hmz : m = z := heq
          have := ((hasks _ (mem_append_right _ hx)).ended y (by simp [spanNack, hmz, hty])).1
          omega

omit h in
theorem Window.Gap.aliased {p : Pdu} {l : List Pdu} (hW : W.Stores c)
    (hz : z = W.next + c.snModulus) (hstatus : W.status = W.next + c.windowSize)
    (hslot : W.slots W.next = p :: l) (hso : 0 < p.so) : W.Aliased c := by
  have hpos := c.windowSize_pos
  have hlt := c.windowSize_lt
  have hs := hg.lt_status
  refine ⟨hstatus, ⟨p, l, hslot, ?_⟩,
    hg.unended _ (by omega) (by omega) (by omega) (by omega)⟩
  have := (hW.slot W.next le_rfl (by omega)).first p (by simp [hslot])
  cases hf : p.isFirst with
  | true =>
    rw [hf] at this
    simp at this
    omega
  | false => rfl

end

theorem Window.AsksBehind.append {rep' : List SnNack} (h : W.AsksBehind c rep) :
    W.AsksBehind c (rep ++ rep') :=
  ⟨h.1, h.2.imp fun _ hx => ⟨mem_append_left _ hx.1, hx.2⟩⟩

theorem Window.AsksBehind.toEnd (h : W.AsksBehind c rep) :
    W.AsksBehind c (rep.modifyLast SnNack.toEnd) := by
  obtain ⟨h, x, hx, hsn⟩ := h
  rcases mem_modifyLast hx with hx | hx
  · exact ⟨h, x, hx, hsn⟩
  · exact ⟨h, x.toEnd, hx, hsn⟩

theorem asksBehind_spanNacks {p : Pdu} {l : List Pdu}
    (hg : W.Gap n b a s (W.next + c.snModulus) t) (hW : W.Stores c)
    (hstatus : W.status = W.next + c.windowSize) (hslot : W.slots W.next = p :: l) (hso : 0 < p.so)
    (hv : W.status < v) : W.AsksBehind c (rep ++ spanNacks a s (W.next + c.snModulus) t a v) := by
  have hlt := c.windowSize_lt
  refine ⟨hg.aliased hW rfl hstatus hslot hso, _, mem_append_right _
    (spanNack_mem (m := W.status) hg.lt_status.le hv), ?_, ?_⟩
  · exact le_rfl
  · change W.status < _
    omega

theorem askInv_invariant (hW : W.Stores c) : StatusInvariant c W (W.AskInv c) (W.AskEnd c) where
  done {rep k n b} h hpassed := by
    refine h.imp_right fun h => .inl ⟨rfl, fun m b' hm hlt => ?_, h.asks, h.sorted, h.ack,
      fun hfull => ?_⟩
    · by_cases hbefore : m < n ∨ m = n ∧ b' < b
      · exact h.told m b' hm hbefore
      · exact .inr ⟨by omega, hpassed m b' (by omega) (by omega) (by omega)⟩
    · -- the walk came to the end of the last slot, so that its SDU ends there
      have := h.lt_end
      refine .inr (exists_isLast_of_passed b fun b' hb => ?_)
      exact hpassed _ b' (by omega) (fun _ => hb) (by omega)
  finished {rep k n b a s z k'} h hg hz hend hk := by
    rcases h with h | h
    · exact .inl h.append
    · have := h.next_le
      have := hg.start_le
      have := hg.le
      exact .inr (.inl ⟨rfl, fun m b' hm hlt => h.told.gap hg hm (by omega) nofun,
        h.asksFor_append hg nofun le_rfl (by omega), h.sorted_append hg _,
        ⟨z + 1, succ_mod_congr hk, by omega, by omega, h.sn_lt_append hg⟩,
        fun hfull => .inl (hend hfull)⟩)
  first h hg hp hso hk := by
    rcases h with h | h
    · exact .inl h.append
    · have := hp.le_status
      exact .inr (h.next hg (by omega) (by omega) hp.lt_end nofun hk (.inl (by omega))
        (fun m b' hm => ⟨by omega, nofun⟩) (.inl rfl))
  inside {rep k n b a s z p l k'} h hg hp hso hz hk := by
    rcases h with h | h
    · exact .inl h.append
    · obtain ⟨pre, hslot, -⟩ := hp.slot
      have hmem : p ∈ W.slots z := by simp [hslot]
      have hsize := (hW.slot z hp.next_le hp.lt_end).size_pos p hmem
      refine .inr (h.next hg hz le_rfl hp.lt_end (fun y hy _ => ⟨p, hmem, ?_⟩) hk
        (.inr ⟨rfl, _, rfl, by omega⟩)
        (fun m b' hm => ⟨by omega, fun hmz x hx => ?_⟩) (.inr ⟨p, hmem, le_rfl, ?_⟩))
      · cases hy
        omega
      · cases hx
        omega
      · unfold Pdu.stop
        omega
  around h hg hstatus hslot hso hk := by
    have := c.windowSize_lt
    rcases h with h | h
    · exact .inl h.append
    · exact .inl (asksBehind_spanNacks hg hW hstatus hslot hso (by omega))
  cut {rep k n b a s z t l v k'} h hg hn hav hv hk := by
    rcases h with h | h
    · exact .inl h.append.toEnd
    · by_cases hvs : v ≤ W.status
      · refine .inr (.inr ⟨rfl, _, rfl, h.asksFor_append hg (fun y hy hz => ?_) (by omega) hvs,
          h.sorted_append hg _⟩)
        cases hn with
        | finished => cases hy
        | first => cases hy
        | @inside z p l hp hso =>
          cases hy
          obtain ⟨pre, hslot, -⟩ := hp.slot
          exact ⟨p, by simp [hslot], by omega⟩
        | around hstatus =>
          have := c.windowSize_lt
          omega
      · cases hn with
        | finished hz => omega
        | first hp hso hz =>
          have := hp.le_status
          omega
        | inside hp hso hz => omega
        | around hstatus hslot hso =>
          exact .inl (asksBehind_spanNacks hg hW hstatus hslot hso (by omega)).toEnd

/-- No last segment ends before a byte that is missing before a stored one, an SDU without last
segment is asked for from an offset that fits in SO_START, and the first slot of a full window is
not taken for the one behind the last. -/
structure Window.Regular (c : Config) (W : Window) : Prop where
  endsLast : ∀ n, W.next ≤ n → n < W.status → EndsLast (W.slots n)
  stop_lt : ∀ n, W.next ≤ n → n < W.status →
    (∃ p ∈ W.slots n, p.isLast = true) ∨ ∀ p ∈ W.slots n, p.stop < 2 ^ 16
  full : W.status = W.next + c.windowSize →
    (∀ p l, W.slots W.next = p :: l → p.isFirst = true) ∨
    ∃ p ∈ W.slots (W.status - 1), p.isLast = true

theorem Window.Regular.not_asksBehind (h : W.Regular c) (hlt : W.next < W.status) :
    ¬ W.AsksBehind c rep := by
  rintro ⟨⟨hfull, ⟨p, l, hslot, hfirst⟩, hun⟩, -⟩
  rcases h.full hfull with hhead | ⟨q, hq, hlast⟩
  · rw [hhead p l hslot] at hfirst
    cases hfirst
  · rw [hun (h.endsLast _ (by omega) (by omega)) q hq] at hlast
    cases hlast

theorem Window.Regular.soStart_lt {x : SnNack} (h : W.Regular c) (hW : W.Stores c)
    (hx : W.AsksFor x) : x.soStart < 2 ^ 16 := by
  have hend := hW.status_le_end
  have hlt := hx.lt_status
  have hwf := hW.slot x.sn hx.next_le (by omega)
  cases hso : x.soEnd with
  | some y =>
    obtain ⟨hle, q, hq, hy⟩ := hx.ended y hso
    have := hwf.so_lt q hq
    omega
  | none =>
    have hlast := hx.unended hso (h.endsLast _ hx.next_le hx.lt_status)
    have hnone : ¬ ∃ p ∈ W.slots x.sn, p.isLast := by
      rintro ⟨p, hp, hl⟩
      rw [hlast p hp] at hl
      cases hl
    rcases hx.starts with hs | ⟨q, hq, -, hlt⟩ | ⟨hl, -⟩
    · omega
    · have := (h.stop_lt _ hx.next_le hx.lt_status).resolve_left hnone q hq
      omega
    · exact absurd hl hnone

theorem Window.Regular.covers_iff (h : W.Regular c) (htold : W.Told rep W.status 0)
    (hasks : ∀ x ∈ rep, W.AsksFor x) (h₀ : W.next ≤ n) (h₁ : n < W.status) :
    (∃ x ∈ rep, x.Covers n b) ↔ ¬ Received (W.slots n) b := by
  constructor
  · rintro ⟨x, hx, hc⟩
    have hok := hasks x hx
    obtain ⟨rfl, hstart, hstop⟩ := hc
    rintro (hheld | ⟨p, hp, hlast, hle⟩)
    · exact hok.missing b ⟨rfl, hstart, hstop⟩ hheld
    · cases hso : x.soEnd with
      | none =>
        rw [hok.unended hso (h.endsLast _ h₀ h₁) p hp] at hlast
        cases hlast
      | some y =>
        obtain ⟨-, q, hq, hy⟩ := hok.ended y hso
        have hb := hstop y hso
        have := h.endsLast _ h₀ h₁ q hq b (by omega) (hok.missing b ⟨rfl, hstart, hstop⟩) p hp hlast
        omega
  · intro hnot
    rcases htold n b h₀ (.inl h₁) with hc | ⟨-, hp⟩
    · exact hc
    · exact absurd hp.received hnot

theorem Window.Asked.regular {k : Nat} (h : W.Asked c rep k) (hW : W.Stores c)
    (hexact : ∀ x ∈ rep, ∀ b, (x.wire c).Covers (x.sn % c.snModulus) b →
      ¬ Received (W.slots x.sn) b) : W.Regular c := by
  have hend := hW.status_le_end
  refine ⟨fun n h₀ h₁ q hq b hb hmiss p hp hlast => ?_, fun n h₀ h₁ => ?_, h.full⟩
  · by_contra hle
    rcases h.told n b h₀ (.inl h₁) with ⟨x, hx, hc⟩ | ⟨-, hheld | ⟨-, hall⟩⟩
    · obtain rfl := hc.1
      exact hexact x hx b hc.wire (.inr ⟨p, hp, hlast, by omega⟩)
    · exact hmiss hheld
    · have := hall q hq
      unfold Pdu.stop at this
      omega
  · by_contra hnot
    simp only [not_or, not_exists, not_and, not_forall, Nat.not_lt] at hnot
    obtain ⟨hlast, p, hp, hstop⟩ := hnot
    -- nothing tells of the bytes behind all PDUs but a NACK with an open end
    obtain ⟨B, hB⟩ : ∃ B, ∀ q ∈ W.slots n, q.stop ≤ B := exists_stop_le _
    rcases h.told n (max B (2 ^ 16)) h₀ (.inl h₁) with
      ⟨x, hx, hc⟩ | ⟨-, ⟨q, hq, -, hlt⟩ | ⟨⟨q, hq, hl⟩, -⟩⟩
    · have hok := h.asks x hx
      obtain rfl := hc.1
      have hso : x.soEnd = none := by
        cases hso : x.soEnd with
        | none => rfl
        | some y =>
          obtain ⟨-, q, hq, hy⟩ := hok.ended y hso
          have := (hW.slot x.sn h₀ (by omega)).so_lt q hq
          have := hc.2.2 y hso
          omega
      have hheld : HoldsByte (W.slots x.sn) (p.stop - 1) := by
        have := (hW.slot x.sn h₀ (by omega)).size_pos p hp
        exact ⟨p, hp, by unfold Pdu.stop; omega, by omega⟩
      refine hexact x hx (p.stop - 1) ⟨rfl, ?_, fun y hy => ?_⟩ (.inl hheld)
      · have : x.soStart % 2 ^ 16 < 2 ^ 16 := Nat.mod_lt _ (by decide)
        change x.soStart % 2 ^ 16 ≤ _
        omega
      · change x.soEnd = some y at hy
        rw [hso] at hy
        cases hy
    · have := hB q hq
      omega
    · exact hlast q hq hl

theorem length_le_of_increasing {α : Type*} {f : α → Nat} {l : List α} {B : Nat}
    (h : l.Pairwise fun x y => f x < f y) (hB : ∀ x ∈ l, f x < B) : l.length ≤ B := by
  have hnodup : (l.map f).Nodup :=
    pairwise_map.mpr (h.imp fun hlt => Nat.ne_of_lt hlt)
  have hsub : l.map f ⊆ List.range B := by
    intro y hy
    obtain ⟨x, hx, rfl⟩ := mem_map.mp hy
    exact mem_range.mpr (hB x hx)
  simpa using (hnodup.subperm hsub).length_le

/-- From this size on no NACK of a report in order is cut. -/
def Config.statusSize (c : Config) : Nat := 11 + 8 * (c.snModulus * 2 ^ 16)

theorem Window.Regular.length_le (h : W.Regular c) (hW : W.Stores c)
    (hasks : ∀ x ∈ rep, W.AsksFor x) (hsorted : rep.Pairwise SnNack.Lt) :
    rep.length ≤ c.snModulus * 2 ^ 16 := by
  have hend := hW.status_le_end
  have hlt := c.windowSize_lt
  refine length_le_of_increasing (f := fun x => (x.sn - W.next) * 2 ^ 16 + x.soStart) ?_ ?_
  · refine hsorted.imp_of_mem fun {x y} hx hy hxy => ?_
    have hx₁ := (hasks x hx).next_le
    have hy₁ := (hasks y hy).next_le
    have hx₂ := h.soStart_lt hW (hasks x hx)
    rcases hxy with hxy | ⟨hsn, hxy⟩ <;> omega
  · intro x hx
    have hx₁ := (hasks x hx).next_le
    have hx₂ := h.soStart_lt hW (hasks x hx)
    have hx₃ := (hasks x hx).lt_status
    have : (x.sn - W.next + 1) * 2 ^ 16 ≤ c.snModulus * 2 ^ 16 :=
      Nat.mul_le_mul_right _ (by omega)
    omega

/-- The NACKs of a STATUS PDU are in order, lie in the reporting window and cover exactly the bytes
that have not been received, and a peer with the SNs in its window accepts the PDU. -/
structure Rx.ExactStatus (c : Config) (e : Rx) (pdu : List Byte) (ackSn : Nat) (ns : List Nack) :
    Prop where
  ordered : (ns.flatMap (Nack.sns c)).Pairwise fun x y =>
    e.modulusRx c x.sn < e.modulusRx c y.sn ∨ x.sn = y.sn ∧ x.soStart < y.soStart
  reported : ∀ x ∈ ns.flatMap (Nack.sns c),
    x.sn < c.snModulus ∧ e.modulusRx c x.sn < e.modulusRx c e.rxHighestStatus
  covers : ∀ sn < c.snModulus, e.modulusRx c sn < e.modulusRx c e.rxHighestStatus → ∀ b,
    (∃ x ∈ ns.flatMap (Nack.sns c), x.Covers sn b) ↔ ¬ e.ReceivedByte sn b
  accepted : ∀ tx : Tx, tx.txNextAck < c.snModulus → tx.modulusTx c tx.txNext ≤ c.windowSize →
    (∀ x ∈ ns.flatMap (Nack.sns c), tx.modulusTx c x.sn < tx.modulusTx c tx.txNext) →
    tx.modulusTx c ackSn ≤ tx.modulusTx c tx.txNext → tx.validateControl c pdu = some (ackSn, ns)

def Rx.StatusExact (c : Config) (e : Rx) : Prop :=
  ∃ N, ∀ size ≥ N, ∀ now, ∃ fuel₀, ∀ fuel ≥ fuel₀, ∃ e' pdu ackSn ns,
    e.generateStatus c fuel now size = some (e', pdu) ∧
      decodeControl c pdu = some (ackSn, ns) ∧ e.ExactStatus c pdu ackSn ns

theorem modulusTx_le_of_lt {tx : Tx} {m A : Nat} (htx : tx.txNextAck < c.snModulus) (hlt : m < A)
    (hA : A ≤ m + c.windowSize) (hm : tx.modulusTx c (m % c.snModulus) < c.windowSize) :
    tx.modulusTx c (m % c.snModulus) ≤ tx.modulusTx c (A % c.snModulus) := by
  have hM := c.snModulus_eq
  have hpos := c.snModulus_pos
  have hadd := Cyclic.add_dist htx (Nat.mod_lt m hpos)
  unfold Tx.modulusTx at hm ⊢
  have hmod : A % c.snModulus =
      (tx.txNextAck + (Cyclic.dist c.snModulus tx.txNextAck (m % c.snModulus) + (A - m))) %
        c.snModulus := by
    rw [← Nat.add_assoc, Nat.add_mod, hadd, ← Nat.add_mod, Nat.add_sub_cancel' hlt.le]
  have hdist := Cyclic.dist_mod (M := c.snModulus) (R := tx.txNextAck)
    (n := tx.txNextAck + (Cyclic.dist c.snModulus tx.txNextAck (m % c.snModulus) + (A - m)))
    (by omega) (by omega)
  rw [Nat.mod_eq_of_lt htx, ← hmod] at hdist
  omega

structure Rx.RegularStatus (c : Config) (e : Rx) : Prop where
  endsLast : ∀ sn < c.snModulus, e.modulusRx c sn < e.modulusRx c e.rxHighestStatus →
    EndsLast (e.rx.getPduFromSn sn)
  stop_lt : ∀ sn < c.snModulus, e.modulusRx c sn < e.modulusRx c e.rxHighestStatus →
    (∃ p ∈ e.rx.getPduFromSn sn, p.isLast = true) ∨
      ∀ p ∈ e.rx.getPduFromSn sn, p.stop < 2 ^ 16
  full : e.modulusRx c e.rxHighestStatus = c.windowSize →
    (∀ p l, e.rx.getPduFromSn e.rxNext = p :: l → p.isFirst = true) ∨
      ∃ p ∈ e.rx.getPduFromSn (e.beforeHighestStatus c), p.isLast = true

section

variable {e : Rx} (h : e.Reads c W) (hW : W.Stores c)
include h hW

theorem Rx.Reads.modulusRx_highestStatus :
    e.modulusRx c e.rxHighestStatus = W.status - W.next := by
  have hend := hW.status_le_end
  have hlt := c.windowSize_lt
  rw [h.highestStatus, h.modulusRx hW.next_le (by omega)]

theorem Rx.Reads.forall_reported {P : Nat → List Pdu → Prop} :
    (∀ sn < c.snModulus, e.modulusRx c sn < e.modulusRx c e.rxHighestStatus →
      P sn (e.rx.getPduFromSn sn)) ↔
      ∀ n, W.next ≤ n → n < W.status → P (n % c.snModulus) (W.slots n) := by
  have hend := hW.status_le_end
  have hlt := c.windowSize_lt
  rw [h.modulusRx_highestStatus hW]
  constructor
  · intro hall n h₀ h₁
    have := hall (n % c.snModulus) (Nat.mod_lt _ c.snModulus_pos)
      (by rw [h.modulusRx h₀ (by omega)]; omega)
    rwa [h.getPduFromSn h₀ (by omega)] at this
  · intro hall sn hsn hrank
    obtain ⟨n, h₀, h₁, rfl⟩ : ∃ n, W.next ≤ n ∧ n < W.next + c.snModulus ∧ sn = n % c.snModulus :=
      ⟨_, Cyclic.le_lift _ _ _, Cyclic.lift_lt hsn, (Cyclic.lift_mod hsn).symm⟩
    rw [h.modulusRx h₀ h₁] at hrank
    rw [h.getPduFromSn h₀ (by omega)]
    exact hall n h₀ (by omega)

theorem Rx.Reads.regularStatus_iff : e.RegularStatus c ↔ W.Regular c := by
  have hnext := hW.next_le
  have hpos := c.windowSize_pos
  have hfull : (e.modulusRx c e.rxHighestStatus = c.windowSize →
      (∀ p l, e.rx.getPduFromSn e.rxNext = p :: l → p.isFirst) ∨
        ∃ p ∈ e.rx.getPduFromSn (e.beforeHighestStatus c), p.isLast) ↔
      (W.status = W.next + c.windowSize → (∀ p l, W.slots W.next = p :: l → p.isFirst) ∨
        ∃ p ∈ W.slots (W.status - 1), p.isLast) := by
    have hcond : W.status - W.next = c.windowSize ↔ W.status = W.next + c.windowSize := by omega
    rw [h.modulusRx_highestStatus hW, h.rxNext, h.getPduFromSn le_rfl (by omega), hcond]
    refine imp_congr_right fun hst => ?_
    rw [h.beforeHighestStatus (by omega), h.getPduFromSn (by omega) (by omega)]
  constructor
  · rintro ⟨h₁, h₂, h₃⟩
    exact ⟨(h.forall_reported hW (P := fun _ l => EndsLast l)).mp h₁,
      (h.forall_reported hW (P := fun _ l => (∃ p ∈ l, p.isLast) ∨
        ∀ p ∈ l, p.stop < 2 ^ 16)).mp h₂, hfull.mp h₃⟩
  · rintro ⟨h₁, h₂, h₃⟩
    exact ⟨(h.forall_reported hW (P := fun _ l => EndsLast l)).mpr h₁,
      (h.forall_reported hW (P := fun _ l => (∃ p ∈ l, p.isLast) ∨
        ∀ p ∈ l, p.stop < 2 ^ 16)).mpr h₂, hfull.mpr h₃⟩

theorem Rx.Reads.exactStatus {k : Nat} {pdu : List Byte} {ns : List Nack} (hreg : W.Regular c)
    (hask : W.Asked c rep k) (hd : Decodes c pdu ((k + 1) % c.snModulus) ns rep) :
    e.ExactStatus c pdu ((k + 1) % c.snModulus) ns := by
  have hend := hW.status_le_end
  have hlt := c.windowSize_lt
  have hrank : ∀ x ∈ rep, e.modulusRx c (x.wire c).sn = x.sn - W.next := fun x hx => by
    have := (hask.asks x hx).lt_status
    exact h.modulusRx (hask.asks x hx).next_le (by omega)
  have hso : ∀ x ∈ rep, (x.wire c).soStart = x.soStart := fun x hx =>
    Nat.mod_eq_of_lt (hreg.soStart_lt hW (hask.asks x hx))
  refine ⟨?_, ?_, ?_, ?_⟩
  · rw [hd.sns, pairwise_map]
    refine hask.sorted.imp_of_mem fun {x y} hx hy hxy => ?_
    have hx₁ := (hask.asks x hx).next_le
    rw [hrank x hx, hrank y hy, hso x hx, hso y hy]
    refine hxy.imp (fun _ => by omega) fun hxy => ⟨?_, hxy.2⟩
    exact congrArg (· % c.snModulus) hxy.1
  · intro x hx
    rw [hd.sns] at hx
    obtain ⟨x, hmem, rfl⟩ := mem_map.mp hx
    have hx₁ := (hask.asks x hmem).next_le
    have hx₂ := (hask.asks x hmem).lt_status
    refine ⟨Nat.mod_lt _ c.snModulus_pos, ?_⟩
    rw [hrank x hmem, h.modulusRx_highestStatus hW]
    omega
  · intro sn hsn hlt' b
    obtain ⟨n, h₀, h₁, rfl⟩ : ∃ n, W.next ≤ n ∧ n < W.next + c.snModulus ∧ sn = n % c.snModulus :=
      ⟨_, Cyclic.le_lift _ _ _, Cyclic.lift_lt hsn, (Cyclic.lift_mod hsn).symm⟩
    rw [h.modulusRx_highestStatus hW, h.modulusRx h₀ h₁] at hlt'
    rw [h.receivedByte hW h₀ (by omega),
      ← hreg.covers_iff hask.told hask.asks h₀ (by omega), hd.sns]
    constructor
    · rintro ⟨x, hx, hc⟩
      obtain ⟨x, hmem, rfl⟩ := mem_map.mp hx
      have hx₁ := (hask.asks x hmem).next_le
      have hx₂ := (hask.asks x hmem).lt_status
      refine ⟨x, hmem, ?_, ?_, hc.2.2⟩
      · exact Cyclic.mod_injOn hx₁ (by omega) h₀ h₁ hc.1
      · rw [← hso x hmem]
        exact hc.2.1
    · rintro ⟨x, hx, hc⟩
      exact ⟨_, mem_map_of_mem hx, hc.wire⟩
  · intro tx htx hwin hcontains hack
    obtain ⟨A, hA, hA₀, hA₁, hAlt⟩ := hask.ack
    unfold Tx.validateControl
    rw [hd.decode]
    dsimp only
    rw [if_neg (by unfold Tx.snCompareTx; omega), if_neg]
    rw [any_eq_true]
    rintro ⟨x, hx, hbad⟩
    have hlt' := hcontains x hx
    rw [hd.sns] at hx
    obtain ⟨x, hmem, rfl⟩ := mem_map.mp hx
    have hx₁ := (hask.asks x hmem).next_le
    have hle := modulusTx_le_of_lt (c := c) htx (hAlt x hmem) (by omega)
      (show tx.modulusTx c (x.wire c).sn < c.windowSize by omega)
    simp only [Tx.badNack, Bool.false_or, decide_eq_true_eq, Tx.snCompareTx, hA] at hbad
    have : tx.modulusTx c (x.wire c).sn ≤ tx.modulusTx c (A % c.snModulus) := hle
    omega

theorem Rx.Reads.statusExact_iff : e.StatusExact c ↔ W.Regular c := by
  have hend := hW.status_le_end
  have hlt := c.windowSize_lt
  have hnext := hW.next_le
  have hpos := c.windowSize_pos
  have hstart : ∀ k, (k + 1) % c.snModulus = W.next % c.snModulus → W.AskInv c [] k W.next 0 :=
    fun k hk => .inr ⟨le_rfl, by omega, fun m b' hm => by omega, nofun, .nil, nofun, .inl rfl,
      W.next, hk, le_rfl, hnext, nofun⟩
  constructor
  · rintro ⟨N, hN⟩
    obtain ⟨fuel, hfuel⟩ := hN (max N c.statusSize) (le_max_left _ _) 0
    obtain ⟨e', pdu, ackSn, ns, hr, hdec, hex⟩ := hfuel fuel le_rfl
    obtain ⟨cut, rep, k, ns', hF, hd, hcut⟩ := h.generateStatus hW (askInv_invariant hW) hstart
      (by unfold Config.statusSize; omega) hr
    rw [hd.decode] at hdec
    cases hdec
    have hrank : ∀ x ∈ rep, e.modulusRx c (x.wire c).sn < W.status - W.next := fun x hx => by
      have := (hex.reported (x.wire c) (by rw [hd.sns]; exact mem_map_of_mem hx)).2
      rwa [h.modulusRx_highestStatus hW] at this
    rcases hF with ⟨-, x, hx, hx₀, hx₁⟩ | ⟨-, hask⟩ | ⟨rfl, -⟩
    · have := hrank x hx
      rw [SnNack.wire, h.modulusRx (by omega) hx₁] at this
      omega
    · refine hask.regular hW fun x hx b hc => ?_
      have hx₀ := (hask.asks x hx).next_le
      have hx₁ := (hask.asks x hx).lt_status
      rw [← h.receivedByte hW hx₀ (by omega)]
      refine (hex.covers _ (Nat.mod_lt _ c.snModulus_pos) ?_ b).mp
        ⟨_, by rw [hd.sns]; exact mem_map_of_mem hx, hc⟩
      rw [h.modulusRx_highestStatus hW]
      exact hrank x hx
    · -- NACKs in order are too few to fill the PDU
      have hso : ∀ x ∈ ns.flatMap (Nack.sns c), x.soStart < 2 ^ 16 := by
        intro x hx
        rw [hd.sns] at hx
        obtain ⟨x, -, rfl⟩ := mem_map.mp hx
        exact Nat.mod_lt _ (Nat.two_pow_pos _)
      have hlen : (ns.flatMap (Nack.sns c)).length ≤ c.snModulus * 2 ^ 16 := by
        refine length_le_of_increasing
          (f := fun x : SnNack => e.modulusRx c x.sn * 2 ^ 16 + x.soStart) ?_ fun x hx => ?_
        · refine hex.ordered.imp_of_mem fun {x y} hx hy hxy => ?_
          have := hso x hx
          rcases hxy with hxy | ⟨hsn, hxy⟩
          · omega
          · rw [hsn]
            omega
        · have := hso x hx
          have := (hex.reported x hx).2
          rw [h.modulusRx_highestStatus hW] at this
          have : (e.modulusRx c x.sn + 1) * 2 ^ 16 ≤ c.snModulus * 2 ^ 16 :=
            Nat.mul_le_mul_right _ (by omega)
          omega
      rw [hd.sns, length_map] at hlen
      have := hcut rfl
      unfold Config.statusSize at this
      omega
  · intro hreg
    refine ⟨max 3 c.statusSize, fun size hsize now =>
      ⟨∑ j ∈ Finset.Ico W.next (W.next + c.windowSize), (W.slots j).length + size + 2,
        fun fuel hfuel => ?_⟩⟩
    obtain ⟨⟨e', pdu⟩, hr⟩ := Option.isSome_iff_exists.mp (h.isSome_generateStatus hW now hfuel)
    obtain ⟨cut, rep, k, ns, hF, hd, hcut⟩ := h.generateStatus hW (askInv_invariant hW) hstart
      (by omega) hr
    rcases hF with hF | ⟨-, hask⟩ | ⟨rfl, rep₀, rfl, hasks, hsorted⟩
    · have := hF.1.full
      exact absurd hF (hreg.not_asksBehind (by omega))
    · exact ⟨e', pdu, _, ns, hr, hd.decode, h.exactStatus hW hreg hask hd⟩
    · have hlen := hreg.length_le hW hasks hsorted
      have := hcut rfl
      rw [length_modifyLast] at this
      unfold Config.statusSize at hsize
      omega

end

/-- The STATUS PDUs of a reachable entity are exact when its window is regular, and only then. -/
theorem generateStatus_exact_iff {e : Entity} (h : Reachable c e) :
    e.rx.StatusExact c ↔ e.rx.RegularStatus c := by
  obtain ⟨W, hW⟩ := h.tracks
  rw [hW.reads.statusExact_iff hW.wf.toStores, hW.reads.regularStatus_iff hW.wf.toStores]

theorem generateStatus_exact_iff_nack :
    ∃ e, Reachable .unitTest e ∧ e.rx.rxHighestStatus = 2 ∧
      (e.rx.StatusExact .unitTest ↔ e.rx.RegularStatus .unitTest) ∧ e.rx.StatusExact .unitTest := by
  have hobs : (execAll .unitTest 5 (fun _ _ => true) (Entity.new .unitTest)
      [.setTime 1, .recvPdu [0x80, 0x01, 0x07], .setTime 100]).map (fun r =>
        (r.1.rx.rxNext, r.1.rx.rxHighestStatus, r.1.rx.rx.getPduFromSn 0,
          r.1.rx.rx.getPduFromSn 1)) =
      some (0, 2, [], [{ newPdu 1 0 true true [7] with data := none }]) := by decide
  obtain ⟨e, ls, hreach, heq⟩ := exists_reachable hobs
  simp only [Prod.mk.injEq] at heq
  obtain ⟨hnext, hstatus, hslot₀, hslot₁⟩ := heq
  have hreg : e.rx.RegularStatus .unitTest := by
    have hrank : ∀ sn, e.rx.modulusRx .unitTest sn = sn := fun sn => by
      simp [Rx.modulusRx, hnext, Cyclic.dist]
    have hcases :
        ∀ sn, e.rx.modulusRx .unitTest sn < e.rx.modulusRx .unitTest e.rx.rxHighestStatus →
        sn = 0 ∨ sn = 1 := fun sn hsn => by
      rw [hrank, hrank, hstatus] at hsn
      omega
    refine ⟨fun sn _ hsn => ?_, fun sn _ hsn => ?_, fun hfull => ?_⟩
    · rcases hcases sn hsn with rfl | rfl
      · rw [hslot₀]
        intro p hp
        cases hp
      · rw [hslot₁]
        simp [EndsLast, newPdu]
    · rcases hcases sn hsn with rfl | rfl
      · rw [hslot₀]
        refine .inr fun p hp => ?_
        cases hp
      · rw [hslot₁]
        simp [newPdu]
    · rw [hrank, hstatus] at hfull
      cases hfull
  exact ⟨e, hreach, hstatus, generateStatus_exact_iff hreach,
    (generateStatus_exact_iff hreach).mpr hreg⟩

/-- SN 1 is received whole, and then a segment behind its end. -/
theorem not_forall_generateStatus_exact :
    ¬ ∀ (c : Config) (e : Entity), Reachable c e → e.rx.StatusExact c := by
  intro hall
  have hobs : (execAll .unitTest 5 (fun _ _ => true) (Entity.new .unitTest)
      [.setTime 1, .recvPdu [0x80, 0x01, 0x07], .recvPdu [0xb0, 0x01, 0x00, 0x05, 0x07],
        .setTime 100]).map (fun r =>
        (r.1.rx.rxNext, r.1.rx.rxHighestStatus, r.1.rx.rx.getPduFromSn 1)) =
      some (0, 2, [{ newPdu 1 0 true true [7] with data := none },
        newPdu 1 5 false false [7]]) := by decide
  obtain ⟨e, ls, hreach, heq⟩ := exists_reachable hobs
  simp only [Prod.mk.injEq] at heq
  obtain ⟨hnext, hstatus, hslot⟩ := heq
  obtain ⟨W, hW⟩ := hreach.tracks
  have hreg := (hW.reads.regularStatus_iff hW.wf.toStores).mpr
    ((hW.reads.statusExact_iff hW.wf.toStores).mp (hall _ e hreach))
  have hends := hreg.endsLast 1 (by decide) (by simp [Rx.modulusRx, hnext, hstatus, Cyclic.dist])
  rw [hslot] at hends
  have := hends (newPdu 1 5 false false [7]) (by simp) 1 (by simp [newPdu])
    (by simp [HoldsByte, newPdu, Pdu.stop]) { newPdu 1 0 true true [7] with data := none } (by simp)
    (by simp [newPdu])
  simp [newPdu, Pdu.stop] at this

end OpenAir.Rlc.Am
