import OpenAir.Rlc.Am.Control

namespace OpenAir.Rlc.Am

variable {c : Config} {ackSn : Nat}

def Tx.Precedes (c : Config) (e : Tx) (s t : Segment) : Prop :=
  e.snCompareTx c (e.snOf s) (e.snOf t) < 0 ∨
    (e.snCompareTx c (e.snOf s) (e.snOf t) = 0 ∧ s.so < t.so)

namespace Merge

structure PicksWait (c : Config) (m : Merge) (s : Segment) (rest : List Segment) : Prop where
  cur : m.curWait = s :: rest
  first : ∀ r rs, m.curRetx = r :: rs → m.tx.Precedes c s r

structure PicksRetx (c : Config) (m : Merge) (s : Segment) (rest : List Segment) : Prop where
  cur : m.curRetx = s :: rest
  first : ∀ w ws, m.curWait = w :: ws → ¬ m.tx.Precedes c w s

structure Passes (c : Config) (n : SnNack) (m : Merge) (s : Segment) : Prop where
  clear : n.overlaps (m.tx.snOf s) s = false
  notAfter : m.isAfter c n s = false

inductive Round (c : Config) (ackSn : Nat) (n : SnNack) (m : Merge) : Merge → Goto → Prop
  | exhausted (hw : m.curWait = []) (hr : m.curRetx = []) : Round c ackSn n m m .listsOver
  | afterWait (hp : m.PicksWait c s rest) (ho : n.overlaps (m.tx.snOf s) s = false)
      (ha : m.isAfter c n s = true) : Round c ackSn n m m .doneNack
  | afterRetx (hp : m.PicksRetx c s rest) (ho : n.overlaps (m.tx.snOf s) s = false)
      (ha : m.isAfter c n s = true) : Round c ackSn n m m .doneNack
  | nackWait (hp : m.PicksWait c s rest) (ho : n.overlaps (m.tx.snOf s) s = true) :
      Round c ackSn n m (m.nackWait c s rest) .processNextPdu
  | nackRetx (hp : m.PicksRetx c s rest) (ho : n.overlaps (m.tx.snOf s) s = true) :
      Round c ackSn n m ({ m with curRetx := rest }.pushRetx s) .processNextPdu
  | ackWait (hp : m.PicksWait c s rest) (hn : m.Passes c n s)
      (ha : m.snCompareTx c (m.tx.snOf s) ackSn < 0) :
      Round c ackSn n m (m.releaseWait s rest) .processNextPdu
  | ackRetx (hp : m.PicksRetx c s rest) (hn : m.Passes c n s)
      (ha : m.snCompareTx c (m.tx.snOf s) ackSn < 0) :
      Round c ackSn n m (m.releaseRetx c s rest) .processNextPdu
  | keepRest (hp : m.PicksWait c s rest) (hn : m.Passes c n s)
      (ha : m.snCompareTx c (m.tx.snOf s) ackSn > 0) :
      Round c ackSn n m { m with kept := m.kept ++ s :: rest, curWait := [] } .processNextPdu
  | keepWait (hp : m.PicksWait c s rest) (hn : m.Passes c n s)
      (ha : m.snCompareTx c (m.tx.snOf s) ackSn = 0) :
      Round c ackSn n m { m with kept := m.kept ++ [s], curWait := rest } .processNextPdu
  | splice (hp : m.PicksRetx c s rest) (hn : m.Passes c n s)
      (ha : ¬ m.snCompareTx c (m.tx.snOf s) ackSn < 0) (hw : m.curWait = []) :
      Round c ackSn n m { m with newRetxNext := s :: rest, curRetx := [] } .listsOver
  | keepRetx (hp : m.PicksRetx c s rest) (hn : m.Passes c n s)
      (ha : ¬ m.snCompareTx c (m.tx.snOf s) ackSn < 0) (hw : m.curWait ≠ []) :
      Round c ackSn n m ({ m with curRetx := rest }.pushRetx s) .processNextPdu

variable {n : SnNack} {m m' : Merge} {s : Segment} {rest : List Segment}

theorem Round.of_wait (hp : m.PicksWait c s rest) :
    Round c ackSn n m (m.processWaitListHead c ackSn n s rest).1
      (m.processWaitListHead c ackSn n s rest).2 := by
  unfold processWaitListHead
  split
  · next ho => exact .nackWait hp ho
  · next ho =>
    have ho := Bool.eq_false_iff.mpr ho
    split
    · next ha => exact .afterWait hp ho ha
    · next ha =>
      have hn : m.Passes c n s := ⟨ho, Bool.eq_false_iff.mpr ha⟩
      split
      · next hlt => exact .ackWait hp hn hlt
      · next hlt =>
        split
        · next hgt => exact .keepRest hp hn hgt
        · next hgt => exact .keepWait hp hn (by omega)

theorem Round.of_retx (hp : m.PicksRetx c s rest) :
    Round c ackSn n m (m.processRetransmitListHead c ackSn n s rest).1
      (m.processRetransmitListHead c ackSn n s rest).2 := by
  unfold processRetransmitListHead
  split
  · next ho => exact .nackRetx hp ho
  · next ho =>
    have ho := Bool.eq_false_iff.mpr ho
    split
    · next ha => exact .afterRetx hp ho ha
    · next ha =>
      have hn : m.Passes c n s := ⟨ho, Bool.eq_false_iff.mpr ha⟩
      split
      · next hlt => exact .ackRetx hp hn hlt
      · next hlt =>
        split
        · next hw => exact .splice hp hn hlt hw
        · next hw => exact .keepRetx hp hn hlt hw

theorem processNextPdu_round (n : SnNack) (m : Merge) :
    Round c ackSn n m (m.processNextPdu c ackSn n).1 (m.processNextPdu c ackSn n).2 := by
  unfold processNextPdu
  split
  · next hw hr => exact .exhausted hw hr
  · next r rs hw hr => exact .of_retx ⟨hr, by simp [hw]⟩
  · next w ws hw hr => exact .of_wait ⟨hw, by simp [hr]⟩
  · next w ws r rs hw hr =>
    dsimp only
    split
    · next hlt =>
      refine .of_wait ⟨hw, ?_⟩
      rintro r' rs' hr'
      rw [hr] at hr'
      cases hr'
      exact hlt
    · next hlt =>
      refine .of_retx ⟨hr, ?_⟩
      rintro w' ws' hw'
      rw [hw] at hw'
      cases hw'
      exact hlt

theorem Round.length_lt (h : Round c ackSn n m m' .processNextPdu) :
    m'.curWait.length + m'.curRetx.length < m.curWait.length + m.curRetx.length := by
  generalize hg : Goto.processNextPdu = g at h
  cases h with
  | exhausted hw hr => cases hg
  | afterWait hp ho ha => cases hg
  | afterRetx hp ho ha => cases hg
  | splice hp hn ha hw => cases hg
  | nackWait hp ho => simp [hp.cur, Merge.nackWait, unlinkWait, pushRetx]
  | nackRetx hp ho => simp [hp.cur, pushRetx]
  | ackWait hp hn ha => simp [hp.cur, releaseWait, release, unlinkWait]
  | ackRetx hp hn ha => simp [hp.cur, releaseRetx, release]
  | keepRest hp hn ha => simp [hp.cur]
  | keepWait hp hn ha => simp [hp.cur]
  | keepRetx hp hn ha hw => simp [hp.cur, pushRetx]

theorem nackLoop_rule (P : Merge → Prop)
    (hround : ∀ m m', P m → Round c ackSn n m m' .processNextPdu → P m')
    {fuel : Nat} (hm : P m) (hf : m.curWait.length + m.curRetx.length < fuel) :
    ∃ m₁, P m₁ ∧ Round c ackSn n m₁ (m.nackLoop c ackSn n fuel).1 (m.nackLoop c ackSn n fuel).2 ∧
      (m.nackLoop c ackSn n fuel).2 ≠ .processNextPdu := by
  induction fuel generalizing m with
  | zero => omega
  | succ fuel ih =>
    have hr : Round c ackSn n m _ _ := processNextPdu_round n m
    rw [nackLoop]
    split
    · next m₁ hm₁ =>
      rw [hm₁] at hr
      have : m₁.curWait.length + m₁.curRetx.length < _ := hr.length_lt
      exact ih (hround m m₁ hm hr) (by omega)
    · next hne =>
      refine ⟨m, hm, hr, fun hg => ?_⟩
      exact hne (m.processNextPdu c ackSn n).1 (by rw [← hg])

structure RoundRule (c : Config) (ackSn : Nat) (P : List SnNack → Merge → Prop) : Prop where
  round : ∀ n ns m m', P (n :: ns) m → Round c ackSn n m m' .processNextPdu → P (n :: ns) m'
  done : ∀ n ns m m', P (n :: ns) m → Round c ackSn n m m' .doneNack → P ns m'
  exhausted : ∀ n ns m m', P (n :: ns) m → Round c ackSn n m m' .listsOver → ∀ k, P (ns.drop k) m'
  stopPoll : ∀ ns m n, P ns m → P ns (m.stopPoll c n)

namespace RoundRule

variable {P : List SnNack → Merge → Prop}

theorem snLoop (h : RoundRule c ackSn P) {ns more : List SnNack} (hm : P (ns ++ more) m) :
    P more (m.snLoop c ackSn ns) := by
  induction ns generalizing m with
  | nil => exact hm
  | cons n ns ih =>
    obtain ⟨m₁, hm₁, hr, hg⟩ := nackLoop_rule (P (n :: (ns ++ more)))
      (h.round n (ns ++ more)) hm (Nat.lt_succ_self _)
    rw [Merge.snLoop]
    split
    · next m' heq =>
      rw [heq] at hr
      simpa using h.exhausted n _ m₁ m' hm₁ hr ns.length
    · next m' g hne heq =>
      rw [heq] at hr hg
      cases g with
      | processNextPdu => exact absurd rfl hg
      | listsOver => exact absurd rfl hne
      | doneNack => exact ih (h.done n _ m₁ m' hm₁ hr)

theorem nacksLoop (h : RoundRule c ackSn P) {ns : List Nack}
    (hm : P (ns.flatMap (Nack.sns c)) m) : P [] (m.nacksLoop c ackSn ns) := by
  induction ns generalizing m with
  | nil => exact hm
  | cons n ns ih =>
    rw [List.flatMap_cons] at hm
    exact ih (h.stopPoll _ _ n (h.snLoop hm))

end RoundRule

theorem ackLoop_rule {loop : List Segment → Merge → Merge} {cur : Merge → List Segment}
    {release : Merge → Segment → List Segment → Merge} (P : Merge → Prop)
    (hnil : ∀ m, loop [] m = m)
    (hcons : ∀ m s rest, loop (s :: rest) m =
      if m.snCompareTx c (m.tx.snOf s) ackSn < 0 then loop rest (release m s rest) else m)
    (hcur : ∀ m s rest, cur (release m s rest) = rest)
    (hrel : ∀ m s rest, P m → cur m = s :: rest →
      m.snCompareTx c (m.tx.snOf s) ackSn < 0 → P (release m s rest))
    {l : List Segment} (hl : cur m = l) (hm : P m) :
    P (loop l m) ∧ ∀ s rest, cur (loop l m) = s :: rest →
      ¬ (loop l m).snCompareTx c ((loop l m).tx.snOf s) ackSn < 0 := by
  induction l generalizing m with
  | nil => exact ⟨(hnil m).symm ▸ hm, by simp [hnil, hl]⟩
  | cons s rest ih =>
    rw [hcons]
    split
    · next hlt => exact ih (hcur m s rest) (hrel m s rest hm hl hlt)
    · next hlt =>
      refine ⟨hm, fun s' rest' h' => ?_⟩
      rw [hl] at h'
      cases h'
      exact hlt

theorem ackLoops_rule (c : Config) (ackSn : Nat) {P Q : Merge → Prop}
    (hwait : ∀ m s rest, P m → m.curWait = s :: rest →
      m.snCompareTx c (m.tx.snOf s) ackSn < 0 → P (m.releaseWait s rest))
    (hPQ : ∀ m, P m → (∀ s rest, m.curWait = s :: rest →
      ¬ m.snCompareTx c (m.tx.snOf s) ackSn < 0) → Q m)
    (hretx : ∀ m s rest, Q m → m.curRetx = s :: rest →
      m.snCompareTx c (m.tx.snOf s) ackSn < 0 → Q (m.releaseRetx c s rest))
    (hm : P m) :
    ∃ m', m.ackLoops c ackSn = { m' with newRetxNext := m'.curRetx } ∧ Q m' ∧
      ∀ s rest, m'.curRetx = s :: rest → ¬ m'.snCompareTx c (m'.tx.snOf s) ackSn < 0 := by
  have h₁ :=
    ackLoop_rule P (fun _ => rfl) (fun _ _ _ => ackWaitLoop.eq_2 ..) (fun _ _ _ => rfl) hwait rfl hm
  have h₂ :=
    ackLoop_rule Q (fun _ => rfl) (fun _ _ _ => ackRetxLoop.eq_2 ..) (fun _ _ _ => rfl) hretx rfl
    (hPQ _ h₁.1 h₁.2)
  exact ⟨_, rfl, h₂.1, h₂.2⟩

end Merge

end OpenAir.Rlc.Am
