import OpenAir.Lib.BitReader
import OpenAir.Lib.RingLine
import OpenAir.Lib.Run

/-! The shared-memory IQ channel, one direction of it: the ring of each antenna and the time stamp
that both ends go by. -/

namespace OpenAir.Ds

open Function List

abbrev circularBufferSize : Nat := 30720 * 20

/-- `sample_t` -/
abbrev Sample := BitVec 32

inductive IqFault
  | assertion
  | outOfBounds
  deriving DecidableEq

/-- `IQChannelErrorType` -/
inductive IqError
  | noError
  | tooLate
  | tooEarly
  deriving DecidableEq

structure IqChannel where
  timestamp : BitVec 64 := 0
  nbAnt : Nat
  iqData : Nat → Nat → Sample := fun _ _ => 0

/-- The samples that `memcpy` and `memset` move for a number of samples, whose bytes are counted in
64 bits. -/
def moved (numSamples : BitVec 64) : Nat := (numSamples * 4).toNat / 4

def memcpyIn (base : Nat → Sample) (pos : BitVec 64) (src : List Sample) (n : BitVec 64) :
    Except IqFault (Nat → Sample) :=
  if moved n ≤ src.length ∧ pos.toNat + moved n ≤ circularBufferSize then
    .ok (store base pos.toNat (src.take (moved n)))
  else .error .outOfBounds

def memcpyOut (base : Nat → Sample) (pos n : BitVec 64) : Except IqFault (List Sample) :=
  if pos.toNat + moved n ≤ circularBufferSize then .ok (slice base pos.toNat (moved n))
  else .error .outOfBounds

def memsetIn (base : Nat → Sample) (pos n : BitVec 64) : Except IqFault (Nat → Sample) :=
  memcpyIn base pos (.replicate (moved n) 0) n

namespace IqChannel

variable (ch : IqChannel)

def setRing (antenna : Nat) (base : Nat → Sample) : IqChannel :=
  { ch with iqData := update ch.iqData antenna base }

def ring (antenna : Int) : Except IqFault (Nat → Sample) :=
  if antenna < 0 then .error .outOfBounds else .ok (ch.iqData antenna.toNat)

def tx (timestamp : BitVec 64) (antenna : Int) (txIqData : List Sample) :
    Except IqFault (IqError × IqChannel) :=
  let numSamples : BitVec 64 := .ofNat 64 txIqData.length
  let size : BitVec 64 := .ofNat 64 circularBufferSize
  if ch.nbAnt ≤ antenna then .error .assertion
  else if timestamp < ch.timestamp then .ok (.tooLate, ch)
  else if timestamp - ch.timestamp + numSamples ≥ size then .ok (.tooEarly, ch)
  else do
    let base ← ch.ring antenna
    let firstSample := timestamp % size
    let lastSample := firstSample + numSamples - 1
    if lastSample ≥ size then
      let firstCopy := size - firstSample
      let base ← memcpyIn base firstSample txIqData firstCopy
      let base ← memcpyIn base 0 (txIqData.drop firstCopy.toNat) (numSamples - firstCopy)
      return (.noError, ch.setRing antenna.toNat base)
    else
      let base ← memcpyIn base firstSample txIqData numSamples
      return (.noError, ch.setRing antenna.toNat base)

/-- `shm_td_iq_channel_rx`, into a buffer for the samples asked for. -/
def rx (timestamp numSamples : BitVec 64) (antenna : Int) :
    Except IqFault (IqError × List Sample × IqChannel) :=
  let size : BitVec 64 := .ofNat 64 circularBufferSize
  if ch.nbAnt ≤ antenna then .error .assertion
  else if timestamp > ch.timestamp then .ok (.tooEarly, [], ch)
  else if ch.timestamp - timestamp ≥ size then .ok (.tooLate, [], ch)
  else do
    let base ← ch.ring antenna
    let firstSample := timestamp % size
    let lastSample := firstSample + numSamples - 1
    if lastSample ≥ size then
      let firstCopy := size - firstSample
      let first ← memcpyOut base firstSample firstCopy
      let second ← memcpyOut base 0 (numSamples - firstCopy)
      if (first ++ second).length > numSamples.toNat then throw .outOfBounds
      let base ← memsetIn base firstSample firstCopy
      let base ← memsetIn base 0 (numSamples - firstCopy)
      return (.noError, first ++ second, ch.setRing antenna.toNat base)
    else
      let samples ← memcpyOut base firstSample numSamples
      let base ← memsetIn base firstSample numSamples
      return (.noError, samples, ch.setRing antenna.toNat base)

def produceSamples (numSamples : BitVec 64) : IqChannel :=
  { ch with timestamp := ch.timestamp + numSamples }

end IqChannel

inductive IqCall
  | tx (timestamp : BitVec 64) (antenna : Int) (samples : List Sample)
  | rx (timestamp numSamples : BitVec 64) (antenna : Int)
  | produceSamples (numSamples : BitVec 64)

/-- The calls made so far: for each antenna and sample time the sample that was left there, and for
each place of the ring the sample time that a call has last used it for. -/
structure IqHistory where
  ch : IqChannel
  line : Nat → Nat → Sample := fun _ _ => 0
  last : Nat → Nat → Nat := fun _ p => p

namespace IqHistory

variable (h : IqHistory)

def leave (ch : IqChannel) (antenna ts : Nat) (samples : List Sample) : IqHistory where
  ch
  line := update h.line antenna (store (h.line antenna) ts samples)
  last := update h.last antenna
    (Ring.store circularBufferSize (h.last antenna) ts (List.range' ts samples.length))

def exec : IqCall → Except IqFault (IqError × List Sample × IqHistory)
  | .tx timestamp antenna samples => do
    let (error, ch) ← h.ch.tx timestamp antenna samples
    if error = .noError then
      return (error, [], h.leave ch antenna.toNat timestamp.toNat samples)
    else return (error, [], { h with ch })
  | .rx timestamp numSamples antenna => do
    let (error, samples, ch) ← h.ch.rx timestamp numSamples antenna
    if error = .noError then
      let cleared := List.replicate numSamples.toNat 0
      return (error, samples, h.leave ch antenna.toNat timestamp.toNat cleared)
    else return (error, samples, { h with ch })
  | .produceSamples numSamples =>
    .ok (.noError, [], { h with ch := h.ch.produceSamples numSamples })

/-- The sample times that can be read or sent. -/
def Accepts (t : Nat) : Prop :=
  h.ch.timestamp.toNat < t + circularBufferSize ∧ t < h.ch.timestamp.toNat + circularBufferSize

/-- The ring has the sample last sent for this time and not read, or zero. -/
def Holds (a t : Nat) : Prop := h.ch.iqData a (t % circularBufferSize) = h.line a t

/-- The place of this time was last used for it, or is left with the same sample. -/
def LastFor (a t : Nat) : Prop := h.line a (h.last a (t % circularBufferSize)) = h.line a t

end IqHistory

namespace IqCall

def covers : IqCall → Nat → Nat → Prop
  | .tx timestamp antenna samples, a, t =>
    a = antenna.toNat ∧ timestamp.toNat ≤ t ∧ t < timestamp.toNat + samples.length
  | .rx timestamp numSamples antenna, a, t =>
    a = antenna.toNat ∧ timestamp.toNat ≤ t ∧ t < timestamp.toNat + numSamples.toNat
  | .produceSamples _, _, _ => False

def leaves : IqCall → Nat → Sample
  | .tx timestamp _ samples, t => samples.getD (t - timestamp.toNat) 0
  | _, _ => 0

/-- The samples fit in memory, and the interval of their times in the 64 bits of a time. -/
def Sized : IqCall → Prop
  | .tx timestamp _ samples => timestamp.toNat + samples.length < 2 ^ 64
  | .rx _ numSamples _ => numSamples.toNat < 2 ^ 62
  | .produceSamples _ => True

end IqCall

def IqStep (h : IqHistory) (call : IqCall) (h' : IqHistory) : Prop :=
  call.Sized ∧ ∃ error samples, h.exec call = .ok (error, samples, h')

/-- A call without error is right: what `rx` returns was sent last for each sample time, or is zero,
and the samples of the other times that are accepted are still there. -/
structure IqRight (h : IqHistory) (call : IqCall) (samples : List Sample) (h' : IqHistory) :
    Prop where
  received : ∀ timestamp numSamples antenna, call = .rx timestamp numSamples antenna →
    samples = slice (h.line antenna.toNat) timestamp.toNat numSamples.toNat
  others : ∀ a t, h.Accepts t → ¬call.covers a t → h.Holds a t → h'.Holds a t

/-- No other time that is accepted shares a place with a time of the call, unless its sample is gone
or is the one that the call leaves. -/
structure IqGood (h : IqHistory) (call : IqCall) : Prop where
  received : ∀ timestamp numSamples antenna, call = .rx timestamp numSamples antenna →
    ∀ t, call.covers antenna.toNat t → h.LastFor antenna.toNat t
  others : ∀ a t t', call.covers a t → h.Accepts t' → ¬call.covers a t' →
    t' % circularBufferSize = t % circularBufferSize → h.LastFor a t' → h.line a t' = call.leaves t

theorem circularBufferSize_eq : circularBufferSize = 614400 := rfl

theorem moved_eq {n : BitVec 64} (h : n.toNat < 2 ^ 62) : moved n = n.toNat := by
  have hmul : (n * 4).toNat = n.toNat * 4 := by
    rw [BitVec.toNat_mul]
    exact Nat.mod_eq_of_lt (show n.toNat * 4 < 2 ^ 64 by omega)
  rw [moved, hmul, Nat.mul_div_cancel _ (by decide)]

section Copies

variable {base base' : Nat → Sample} {pos n : BitVec 64} {src : List Sample}

theorem memcpyIn_ok (hn : n.toNat < 2 ^ 62) (h : memcpyIn base pos src n = .ok base') :
    n.toNat ≤ src.length ∧ base' = store base pos.toNat (src.take n.toNat) := by
  unfold memcpyIn at h
  rw [moved_eq hn] at h
  split at h
  · next hle =>
    cases h
    exact ⟨hle.1, rfl⟩
  · cases h

theorem memcpyOut_ok {samples : List Sample} (hn : n.toNat < 2 ^ 62)
    (h : memcpyOut base pos n = .ok samples) :
    pos.toNat + n.toNat ≤ circularBufferSize ∧ samples = slice base pos.toNat n.toNat := by
  unfold memcpyOut at h
  rw [moved_eq hn] at h
  split at h
  · next hle =>
    cases h
    exact ⟨hle, rfl⟩
  · cases h

theorem memsetIn_ok (hn : n.toNat < 2 ^ 62) (h : memsetIn base pos n = .ok base') :
    base' = store base pos.toNat (.replicate n.toNat 0) := by
  obtain ⟨_, h⟩ := memcpyIn_ok hn h
  rw [h, moved_eq hn, take_of_length_le (by simp)]

end Copies

theorem lastSample_ge {first n : BitVec 64} (hf : first.toNat < circularBufferSize)
    (hn : n.toNat < 2 ^ 62) :
    first + n - 1 ≥ BitVec.ofNat 64 circularBufferSize ↔
      (first.toNat = 0 ∧ n.toNat = 0) ∨ circularBufferSize < first.toNat + n.toNat := by
  rw [circularBufferSize_eq] at *
  bv_omega

theorem size_sub (first : BitVec 64) (hf : first.toNat < circularBufferSize) :
    (BitVec.ofNat 64 circularBufferSize - first).toNat = circularBufferSize - first.toNat := by
  rw [circularBufferSize_eq] at *
  bv_omega

theorem sub_copied (n copied : BitVec 64) (h : copied.toNat ≤ n.toNat) :
    (n - copied).toNat = n.toNat - copied.toNat := by
  bv_omega

theorem toNat_mod_size (timestamp : BitVec 64) :
    (timestamp % BitVec.ofNat 64 circularBufferSize).toNat =
      timestamp.toNat % circularBufferSize := by
  rw [BitVec.toNat_umod]
  rfl

section Calls

variable {ch ch' : IqChannel} {timestamp numSamples : BitVec 64} {antenna : Int}
  {samples : List Sample} {error : IqError}

theorem ring_ok {base : Nat → Sample} (h : ch.ring antenna = .ok base) :
    base = ch.iqData antenna.toNat := by
  unfold IqChannel.ring at h
  split at h <;> cases h
  rfl

theorem tx_ok (hsized : timestamp.toNat + samples.length < 2 ^ 64)
    (h : ch.tx timestamp antenna samples = .ok (error, ch')) :
    (error ≠ .noError ∧ ch' = ch) ∨
      (error = .noError ∧ samples.length < circularBufferSize ∧
        ch' = ch.setRing antenna.toNat
          (Ring.store circularBufferSize (ch.iqData antenna.toNat) timestamp.toNat samples)) := by
  have hsize := circularBufferSize_eq
  unfold IqChannel.tx at h
  dsimp only at h
  split at h
  · cases h
  split at h
  · cases h
    exact .inl ⟨by decide, rfl⟩
  split at h
  · cases h
    exact .inl ⟨by decide, rfl⟩
  next hlate hearly =>
  refine .inr ?_
  have hlt : samples.length < circularBufferSize := by bv_omega
  have hlen : (BitVec.ofNat 64 samples.length).toNat = samples.length := by bv_omega
  obtain ⟨base, hbase, h⟩ := bind_eq_ok.mp h
  rw [ring_ok hbase] at h
  have hf := toNat_mod_size timestamp
  have hfirst : timestamp.toNat % circularBufferSize < circularBufferSize :=
    Nat.mod_lt _ (by decide)
  generalize timestamp % BitVec.ofNat 64 circularBufferSize = first at h hf
  split at h
  · next hlast =>
    rw [lastSample_ge (by omega) (by omega), hlen, hf] at hlast
    obtain ⟨base₁, h₁, h⟩ := bind_eq_ok.mp h
    obtain ⟨base₂, h₂, h⟩ := bind_eq_ok.mp h
    have hcopy := size_sub first (by omega)
    obtain ⟨hle, rfl⟩ := memcpyIn_ok (by omega) h₁
    have hrest := sub_copied (BitVec.ofNat 64 samples.length)
      (BitVec.ofNat 64 circularBufferSize - first) (by omega)
    obtain ⟨_, rfl⟩ := memcpyIn_ok (by omega) h₂
    cases h
    refine ⟨rfl, hlt, ?_⟩
    rw [hrest, hcopy, hf, hlen, ← length_drop (l := samples), take_length]
    rfl
  · next hlast =>
    rw [lastSample_ge (by omega) (by omega), hlen, hf] at hlast
    obtain ⟨base₁, h₁, h⟩ := bind_eq_ok.mp h
    obtain ⟨_, rfl⟩ := memcpyIn_ok (by omega) h₁
    cases h
    refine ⟨rfl, hlt, ?_⟩
    rw [hf, hlen, take_length, Ring.store_of_fits (by omega)]

theorem rx_ok (hsized : numSamples.toNat < 2 ^ 62)
    (h : ch.rx timestamp numSamples antenna = .ok (error, samples, ch')) :
    (error ≠ .noError ∧ ch' = ch) ∨
      (error = .noError ∧
        timestamp.toNat % circularBufferSize + numSamples.toNat ≤ 2 * circularBufferSize ∧
        samples = Ring.slice circularBufferSize (ch.iqData antenna.toNat) timestamp.toNat
          numSamples.toNat ∧
        ch' = ch.setRing antenna.toNat (Ring.store circularBufferSize (ch.iqData antenna.toNat)
          timestamp.toNat (.replicate numSamples.toNat 0))) := by
  have hsize := circularBufferSize_eq
  unfold IqChannel.rx at h
  dsimp only at h
  split at h
  · cases h
  split at h
  · cases h
    exact .inl ⟨by decide, rfl⟩
  split at h
  · cases h
    exact .inl ⟨by decide, rfl⟩
  refine .inr ?_
  obtain ⟨base, hbase, h⟩ := bind_eq_ok.mp h
  rw [ring_ok hbase] at h
  have hf := toNat_mod_size timestamp
  have hfirst : timestamp.toNat % circularBufferSize < circularBufferSize :=
    Nat.mod_lt _ (by decide)
  generalize timestamp % BitVec.ofNat 64 circularBufferSize = first at h hf
  split at h
  · next hlast =>
    rw [lastSample_ge (by omega) hsized, hf] at hlast
    have hcopy := size_sub first (by omega)
    obtain ⟨part₁, h₁, h⟩ := bind_eq_ok.mp h
    obtain ⟨part₂, h₂, h⟩ := bind_eq_ok.mp h
    split at h
    · cases h
    next hroom =>
    obtain ⟨base₁, h₃, h⟩ := bind_eq_ok.mp h
    obtain ⟨base₂, h₄, h⟩ := bind_eq_ok.mp h
    cases h
    obtain ⟨_, hpart₁⟩ := memcpyOut_ok (by omega) h₁
    -- without a sample, the first part would already be too long
    have hpos : circularBufferSize < timestamp.toNat % circularBufferSize + numSamples.toNat := by
      rw [length_append, hpart₁, length_slice, hcopy] at hroom
      omega
    have hrest := sub_copied numSamples (BitVec.ofNat 64 circularBufferSize - first) (by omega)
    obtain ⟨hfits, hpart₂⟩ := memcpyOut_ok (by omega) h₂
    obtain rfl := memsetIn_ok (by omega) h₃
    obtain rfl := memsetIn_ok (by omega) h₄
    have hturns :
        timestamp.toNat % circularBufferSize + numSamples.toNat ≤ 2 * circularBufferSize := by
      have hzero : (0 : BitVec 64).toNat = 0 := rfl
      omega
    refine ⟨rfl, hturns, ?_, ?_⟩
    · rw [hpart₁, hpart₂, hrest, hcopy, hf, Ring.slice_of_wraps (by omega) hturns (by decide)]
      rfl
    · rw [hrest, hcopy, hf, Ring.store, take_replicate, drop_replicate,
        Nat.min_eq_left (by omega)]
      rfl
  · next hlast =>
    rw [lastSample_ge (by omega) hsized, hf] at hlast
    obtain ⟨part, h₁, h⟩ := bind_eq_ok.mp h
    obtain ⟨base₁, h₂, h⟩ := bind_eq_ok.mp h
    cases h
    obtain ⟨_, rfl⟩ := memcpyOut_ok hsized h₁
    obtain rfl := memsetIn_ok hsized h₂
    refine ⟨rfl, by omega, ?_, ?_⟩
    · rw [hf, Ring.slice_of_fits (by omega)]
    · rw [hf, Ring.store_of_fits (by simp; omega)]

end Calls

variable {h h' : IqHistory} {call : IqCall} {error : IqError} {samples : List Sample}

/-- What a call does that leaves the samples `l` for the times from `ts` on. -/
structure IqLeaves (call : IqCall) (a ts : Nat) (l : List Sample) : Prop where
  turns : ts % circularBufferSize + l.length ≤ 2 * circularBufferSize
  covers_iff : ∀ a' t, call.covers a' t ↔ a' = a ∧ ts ≤ t ∧ t < ts + l.length
  leaves_eq : ∀ i j, i < l.length → j < l.length →
    (ts + i) % circularBufferSize = (ts + j) % circularBufferSize →
    l[i]? = some (call.leaves (ts + j))

theorem exec_ok (hsized : call.Sized) (hexec : h.exec call = .ok (error, samples, h')) :
    (error ≠ .noError ∧ h' = h) ∨
    (∃ numSamples, call = .produceSamples numSamples ∧
      h' = { h with ch := h.ch.produceSamples numSamples }) ∨
    ∃ a ts l, IqLeaves call a ts l ∧
      (∀ timestamp numSamples antenna, call = .rx timestamp numSamples antenna →
        a = antenna.toNat ∧ ts = timestamp.toNat ∧ l.length = numSamples.toNat ∧
        samples = Ring.slice circularBufferSize (h.ch.iqData a) ts l.length) ∧
      h' = h.leave (h.ch.setRing a (Ring.store circularBufferSize (h.ch.iqData a) ts l))
        a ts l := by
  have hsize := circularBufferSize_eq
  cases call with
  | tx timestamp antenna l =>
    obtain ⟨⟨e, ch⟩, htx, hexec⟩ := bind_eq_ok.mp hexec
    obtain ⟨he, rfl⟩ | ⟨rfl, hlt, rfl⟩ := tx_ok hsized htx
    · dsimp only at hexec
      rw [if_neg he] at hexec
      cases hexec
      exact .inl ⟨he, rfl⟩
    · cases hexec
      have hturns : timestamp.toNat % circularBufferSize + l.length ≤ 2 * circularBufferSize := by
        have hfirst := Nat.mod_lt timestamp.toNat (show circularBufferSize > 0 by decide)
        omega
      refine .inr (.inr ⟨antenna.toNat, timestamp.toNat, l, ⟨hturns, fun _ _ => Iff.rfl, ?_⟩, ?_,
        rfl⟩)
      · intro i j hi hj hij
        -- the list is shorter than the ring
        obtain rfl : i = j := by
          rw [hsize] at hlt hij
          omega
        simp [IqCall.leaves, getD_eq_getElem?_getD, hi]
      · intro _ _ _ hcall
        cases hcall
  | rx timestamp numSamples antenna =>
    obtain ⟨⟨e, l, ch⟩, hrx, hexec⟩ := bind_eq_ok.mp hexec
    obtain ⟨he, rfl⟩ | ⟨rfl, hturns, rfl, rfl⟩ := rx_ok hsized hrx
    · dsimp only at hexec
      rw [if_neg he] at hexec
      cases hexec
      exact .inl ⟨he, rfl⟩
    · cases hexec
      refine .inr (.inr ⟨antenna.toNat, timestamp.toNat, .replicate numSamples.toNat 0,
        ⟨by rwa [length_replicate], ?_, ?_⟩, ?_, rfl⟩)
      · intro a t
        rw [length_replicate]
        exact Iff.rfl
      · intro i j hi _ _
        rw [length_replicate] at hi
        exact List.getElem?_replicate_of_lt hi
      · intro _ _ _ hcall
        cases hcall
        rw [length_replicate]
        exact ⟨rfl, rfl, rfl, rfl⟩
  | produceSamples numSamples =>
    cases hexec
    exact .inr (.inl ⟨numSamples, rfl, rfl⟩)

/-- Each place has the sample of the time that it was last used for. -/
def IqInv (h : IqHistory) : Prop :=
  ∀ a p, p < circularBufferSize →
    h.ch.iqData a p = h.line a (h.last a p) ∧ h.last a p % circularBufferSize = p

theorem IqInv.leave (hi : IqInv h) {a ts : Nat} {l : List Sample}
    (hturns : ts % circularBufferSize + l.length ≤ 2 * circularBufferSize) :
    IqInv (h.leave (h.ch.setRing a (Ring.store circularBufferSize (h.ch.iqData a) ts l))
      a ts l) := by
  intro a' p hp
  by_cases ha : a' = a
  · subst ha
    obtain ⟨hring, hlast⟩ := hi a' p hp
    simp only [IqHistory.leave, IqChannel.setRing, update_self]
    obtain ⟨i, hil, hcell, hstore⟩ | ⟨hnone, hstore⟩ := Ring.store_cases hp hturns
    · rw [hstore _ _ rfl, hstore _ _ length_range', List.getElem?_range' hil]
      simp [store_add, hcell, hil]
    · rw [hstore _ _ rfl, hstore _ _ length_range', hring]
      refine ⟨?_, hlast⟩
      rcases Nat.lt_or_ge (h.last a' p) ts with hlt | hge
      · exact (store_of_lt hlt).symm
      · obtain ⟨i, hti⟩ := Nat.exists_eq_add_of_le hge
        have hout : l.length ≤ i := by
          by_contra hin
          exact hnone i (by omega) (hti ▸ hlast)
        exact (store_of_le (by omega)).symm
  · simp only [IqHistory.leave, IqChannel.setRing, update_of_ne ha]
    exact hi a' p hp

theorem IqInv.step (hi : IqInv h) (hstep : IqStep h call h') : IqInv h' := by
  obtain ⟨hsized, error, samples, hexec⟩ := hstep
  obtain ⟨_, rfl⟩ | ⟨_, _, rfl⟩ | ⟨a, ts, l, hleaves, _, rfl⟩ := exec_ok hsized hexec
  · exact hi
  · exact hi
  · exact hi.leave hleaves.turns

theorem IqInv.lastFor_iff (hi : IqInv h) (a t : Nat) : h.LastFor a t ↔ h.Holds a t := by
  unfold IqHistory.LastFor IqHistory.Holds
  rw [(hi a _ (Nat.mod_lt t (by decide))).1]

theorem IqInv.received_iff (hi : IqInv h) (a ts n : Nat) :
    Ring.slice circularBufferSize (h.ch.iqData a) ts n = slice (h.line a) ts n ↔
      ∀ t, ts ≤ t → t < ts + n → h.LastFor a t := by
  unfold Ring.slice slice
  rw [map_inj_left]
  constructor
  · intro heq t hle hlt
    obtain ⟨i, rfl⟩ := Nat.exists_eq_add_of_le hle
    exact (hi.lastFor_iff a _).mpr (heq i (mem_range.mpr (by omega)))
  · intro hlast i hi'
    have hlt := mem_range.mp hi'
    exact (hi.lastFor_iff a _).mp (hlast (ts + i) (by omega) (by omega))

/-- What becomes of the place of a time that the call does not cover. -/
theorem IqLeaves.holds_iff {a ts : Nat} {l : List Sample} (hleaves : IqLeaves call a ts l)
    {a' t' : Nat} (hnot : ¬call.covers a' t') :
    let h' := h.leave (h.ch.setRing a (Ring.store circularBufferSize (h.ch.iqData a) ts l)) a ts l
    (h.Holds a' t' → h'.Holds a' t') ↔
      ∀ t, call.covers a' t → t' % circularBufferSize = t % circularBufferSize → h.Holds a' t' →
        h.line a' t' = call.leaves t := by
  intro h'
  by_cases ha : a' = a
  · subst ha
    have hline : h'.line a' t' = h.line a' t' := by
      simp only [h', IqHistory.leave, update_self]
      rw [hleaves.covers_iff] at hnot
      rcases Nat.lt_or_ge t' ts with hlt | hge
      · exact store_of_lt hlt
      · exact store_of_le (by omega)
    have hring : h'.ch.iqData a' = Ring.store circularBufferSize (h.ch.iqData a') ts l := by
      simp only [h', IqHistory.leave, IqChannel.setRing, update_self]
    have hp := Nat.mod_lt t' (show circularBufferSize > 0 by decide)
    unfold IqHistory.Holds
    rw [hline, hring]
    obtain ⟨i, hil, hcell, hstore⟩ | ⟨hnone, hstore⟩ := Ring.store_cases hp hleaves.turns
    · have hall : ∀ t, call.covers a' t → t' % circularBufferSize = t % circularBufferSize →
          l[i]? = some (call.leaves t) := by
        intro t hcovers hplace
        obtain ⟨_, hle, hlt⟩ := (hleaves.covers_iff a' t).mp hcovers
        obtain ⟨j, rfl⟩ := Nat.exists_eq_add_of_le hle
        exact hleaves.leaves_eq i j hil (by omega) (hcell.trans hplace)
      have hcovers : call.covers a' (ts + i) :=
        (hleaves.covers_iff _ _).mpr ⟨rfl, by omega, by omega⟩
      rw [hstore _ _ rfl, hall _ hcovers hcell.symm, Option.getD_some]
      constructor
      · intro hkeep t ht hplace hholds
        have heq := hall _ hcovers hcell.symm
        rw [hall t ht hplace, Option.some_inj] at heq
        rw [heq, hkeep hholds]
      · intro hsame hholds
        exact (hsame _ hcovers hcell.symm hholds).symm
    · rw [hstore _ _ rfl]
      refine iff_of_true id ?_
      intro t ht hplace
      obtain ⟨_, hle, hlt⟩ := (hleaves.covers_iff a' t).mp ht
      obtain ⟨j, rfl⟩ := Nat.exists_eq_add_of_le hle
      exact absurd hplace.symm (hnone j (by omega))
  · have hsame : h'.Holds a' t' ↔ h.Holds a' t' := by
      simp only [h', IqHistory.Holds, IqHistory.leave, IqChannel.setRing, update_of_ne ha]
    refine iff_of_true hsame.mpr ?_
    intro t ht
    exact absurd ((hleaves.covers_iff a' t).mp ht).1 ha

theorem IqInv.right_iff (hi : IqInv h) (hsized : call.Sized)
    (hexec : h.exec call = .ok (.noError, samples, h')) :
    IqRight h call samples h' ↔ IqGood h call := by
  obtain ⟨hne, _⟩ | ⟨numSamples, rfl, rfl⟩ | ⟨a, ts, l, hleaves, hrx, rfl⟩ := exec_ok hsized hexec
  · exact absurd rfl hne
  · refine iff_of_true ⟨?_, fun _ _ _ _ hholds => hholds⟩ ⟨?_, fun _ _ _ ht => ht.elim⟩
    · intro _ _ _ hcall
      cases hcall
    · intro _ _ _ hcall
      cases hcall
  · have hreceived : ∀ timestamp numSamples antenna, call = .rx timestamp numSamples antenna →
        (samples = slice (h.line antenna.toNat) timestamp.toNat numSamples.toNat ↔
          ∀ t, call.covers antenna.toNat t → h.LastFor antenna.toNat t) := by
      intro timestamp numSamples antenna hcall
      obtain ⟨rfl, rfl, hlen, rfl⟩ := hrx _ _ _ hcall
      rw [hlen, hi.received_iff, hcall]
      exact ⟨fun hlast t ht => hlast t ht.2.1 ht.2.2,
        fun hlast t hle hlt => hlast t ⟨rfl, hle, hlt⟩⟩
    constructor
    · intro hright
      refine ⟨fun ts n ant hcall => (hreceived ts n ant hcall).mp (hright.received _ _ _ hcall), ?_⟩
      intro a' t t' ht haccepts hnot hplace hlast
      rw [hi.lastFor_iff] at hlast
      exact (hleaves.holds_iff hnot).mp (hright.others a' t' haccepts hnot) t ht hplace hlast
    · intro hgood
      refine ⟨fun ts n ant hcall => (hreceived ts n ant hcall).mpr (hgood.received _ _ _ hcall), ?_⟩
      intro a' t' haccepts hnot
      refine (hleaves.holds_iff hnot).mpr ?_
      intro t ht hplace hholds
      exact hgood.others a' t t' ht haccepts hnot hplace ((hi.lastFor_iff a' t').mpr hholds)

/-- Two samples are sent, the first of them is read. -/
def firstRead : IqHistory :=
  let sent : IqHistory := { ch := { nbAnt := 1 } }
  let sent := sent.leave (sent.ch.setRing 0 (store (fun _ => 0) 0 [7, 8])) 0 0 [7, 8]
  let ch := sent.ch.produceSamples 2
  sent.leave (ch.setRing 0 (store (ch.iqData 0) 0 [0])) 0 0 [0]

theorem run_firstRead :
    Run IqStep { ch := { nbAnt := 1 } } [.tx 0 0 [7, 8], .produceSamples 2, .rx 0 1 0] firstRead :=
  .cons ⟨show 0 + 2 < 2 ^ 64 by decide, _, _, rfl⟩ (.cons ⟨trivial, _, _, rfl⟩
    (.cons ⟨show 1 < 2 ^ 62 by decide, _, _, rfl⟩ .nil))

end OpenAir.Ds
