import OpenAir.Mac.UlPduLaws

namespace OpenAir.Mac

open List

/-- A subPDU as bytes, with an LCID the decoder knows and the length that its subheader announces.
A truncated BSR may have fewer octets than it announces groups. -/
structure UlSubPdu where
  header : List Byte
  payload : List Byte
  lcid : Lcid
  decode : decodeUlMacSubPduHeader (fun i => (header ++ payload).getD i 0) =
    ⟨lcid, header.length, payload.length⟩
  known : lcid ≠ .padding ∧ lcid ≠ .unknown
  longBsr : lcid = .lBsr → payload.length = longBsrLen (payload.getD · 0)
  longTruncatedBsr : lcid = .lTruncatedBsr →
    1 ≤ payload.length ∧ payload.length ≤ longBsrLen (payload.getD · 0)

namespace UlSubPdu

variable {x : UlSubPdu} {xs : List UlSubPdu} {mem : Nat → Byte} {pos len : Nat}

def bytes (x : UlSubPdu) : List Byte := x.header ++ x.payload

def placed (pos : Nat) (x : UlSubPdu) : SubPdu := ⟨pos, x.lcid, x.header.length, x.payload.length⟩

def layout : Nat → List UlSubPdu → List SubPdu
  | _, [] => []
  | pos, x :: xs => x.placed pos :: layout (pos + x.bytes.length) xs

def isBlank (x : UlSubPdu) : Bool := decide (x.lcid = .ccch64Bits) && x.bytes.all (· = 0)

theorem length_bytes (x : UlSubPdu) : x.bytes.length = x.header.length + x.payload.length :=
  length_append

theorem length_header_pos (x : UlSubPdu) : 1 ≤ x.header.length := by
  have h := subheaderLen_pos fun i => (x.header ++ x.payload).getD i 0
  rwa [x.decode] at h

theorem getD_of_holds {l : List Byte} (h : Holds mem pos l) {i : Nat} (hi : i < l.length) :
    mem (pos + i) = l.getD i 0 := by
  rw [h.get hi, getD_eq_getElem?_getD, List.getElem?_eq_getElem hi, Option.getD_some]

theorem decode_of_holds (h : Holds mem pos x.bytes) :
    decodeUlMacSubPduHeader (seek mem pos) = ⟨x.lcid, x.header.length, x.payload.length⟩ := by
  have hlen := x.length_bytes
  have hpos := x.length_header_pos
  have hsame : ∀ i < x.bytes.length, seek mem pos i = x.bytes.getD i 0 :=
    fun i hi => getD_of_holds h hi
  rcases decode_congr (by omega) hsame with heq | ⟨hlt, -⟩
  · exact heq.trans x.decode
  · have hdec : decodeUlMacSubPduHeader (fun i => x.bytes.getD i 0) = _ := x.decode
    rw [hdec] at hlt
    dsimp only at hlt
    omega

theorem isEmptyCcch_placed (h : Holds mem pos x.bytes) :
    isEmptyCcch mem (x.placed pos) = x.isBlank := by
  have hlen := x.length_bytes
  unfold isEmptyCcch isBlank
  congr 1
  rw [Bool.eq_iff_iff, all_eq_true, all_eq_true]
  simp only [decide_eq_true_eq, mem_range]
  constructor
  · intro hall b hb
    obtain ⟨i, hi, rfl⟩ := getElem_of_mem hb
    rw [← h.get hi]
    exact hall i (by simp only [placed]; omega)
  · intro hall i hi
    simp only [placed] at hi ⊢
    rw [h.get (show i < x.bytes.length by omega)]
    exact hall _ (getElem_mem _)

theorem stride_placed : (x.placed pos).stride len = x.bytes.length := by
  rw [length_bytes]
  unfold SubPdu.stride placed
  dsimp only
  split
  · next h => exact absurd h x.known.1
  · next h => exact absurd h x.known.2
  · rfl

theorem walk_cons (h : Holds mem pos x.bytes) (hlen : x.bytes.length ≤ len) :
    walk mem len pos len =
      if x.isBlank then ([], false)
      else
        let r := walk mem (len - x.bytes.length) (pos + x.bytes.length) (len - x.bytes.length)
        (x.placed pos :: r.1, r.2) := by
  have hpos := x.length_header_pos
  have hbytes := x.length_bytes
  obtain ⟨k, rfl⟩ : ∃ k, len = k + 1 := ⟨len - 1, by omega⟩
  rw [walk_succ (by omega), decode_of_holds h]
  change (if x.header.length + x.payload.length > k + 1 then _ else
    if isEmptyCcch mem (x.placed pos) then _ else
      (x.placed pos :: (walk mem k (pos + (x.placed pos).stride (k + 1))
      (k + 1 - (x.placed pos).stride (k + 1))).1, (walk mem k (pos + (x.placed pos).stride (k + 1))
      (k + 1 - (x.placed pos).stride (k + 1))).2)) = _
  rw [if_neg (by omega), isEmptyCcch_placed h, stride_placed,
    @walk_fuel _ _ _ k (k + 1 - x.bytes.length) (by omega) le_rfl]

theorem walk_layout (h : Holds mem pos (xs.flatMap bytes)) (hlen : (xs.flatMap bytes).length ≤ len)
    (hblank : ∀ x ∈ xs, x.isBlank = false) :
    walk mem len pos len =
      let r := walk mem (len - (xs.flatMap bytes).length) (pos + (xs.flatMap bytes).length)
        (len - (xs.flatMap bytes).length)
      (layout pos xs ++ r.1, r.2) := by
  induction xs generalizing pos len with
  | nil => rfl
  | cons x xs ih =>
    rw [flatMap_cons, Holds.append_iff] at h
    rw [flatMap_cons, length_append] at hlen ⊢
    rw [walk_cons h.1 (by omega), hblank x (by simp), if_neg (by decide),
      ih h.2 (by omega) (fun y hy => hblank y (by simp [hy])), Nat.sub_sub, Nat.add_assoc]
    rfl

theorem length_walk_lt (h : Holds mem pos (xs.flatMap bytes))
    (hlen : (xs.flatMap bytes).length ≤ len) (hblank : ∃ x ∈ xs, x.isBlank) :
    (walk mem len pos len).1.length < xs.length := by
  induction xs generalizing pos len with
  | nil => simp at hblank
  | cons x xs ih =>
    rw [flatMap_cons, Holds.append_iff] at h
    rw [flatMap_cons, length_append] at hlen
    rw [walk_cons h.1 (by omega)]
    cases hx : x.isBlank with
    | true => simp
    | false =>
      have hrest : ∃ y ∈ xs, y.isBlank := by simpa [hx] using hblank
      have hroom : (xs.flatMap bytes).length ≤ len - x.bytes.length := by omega
      have := ih h.2 hroom hrest
      simpa using this

theorem length_layout (pos : Nat) (xs : List UlSubPdu) : (layout pos xs).length = xs.length := by
  induction xs generalizing pos with
  | nil => rfl
  | cons x xs ih => rw [layout, length_cons, ih, length_cons]

theorem mem_layout (h : Holds mem pos (xs.flatMap bytes)) {p : SubPdu} (hp : p ∈ layout pos xs) :
    ∃ x ∈ xs, ∃ at₀, p = x.placed at₀ ∧ Holds mem at₀ x.bytes := by
  induction xs generalizing pos with
  | nil => cases hp
  | cons x xs ih =>
    rw [flatMap_cons, Holds.append_iff] at h
    rcases mem_cons.mp hp with rfl | hp
    · exact ⟨x, by simp, pos, rfl, h.1⟩
    · obtain ⟨y, hy, at₀, rfl, hhold⟩ := ih h.2 hp
      exact ⟨y, by simp [hy], at₀, rfl, hhold⟩

theorem exists_mem_layout (h : Holds mem pos (xs.flatMap bytes)) (hx : x ∈ xs) :
    ∃ at₀, x.placed at₀ ∈ layout pos xs ∧ Holds mem at₀ x.bytes := by
  induction xs generalizing pos with
  | nil => cases hx
  | cons y xs ih =>
    rw [flatMap_cons, Holds.append_iff] at h
    rcases mem_cons.mp hx with rfl | hx
    · exact ⟨pos, by simp [layout], h.1⟩
    · obtain ⟨at₀, hmem, hhold⟩ := ih h.2 hx
      exact ⟨at₀, by simp [layout, hmem], hhold⟩

theorem longBsrLen_placed (h : Holds mem pos x.bytes) (hne : 1 ≤ x.payload.length) :
    longBsrLen (seek mem (x.placed pos).payload) = longBsrLen (x.payload.getD · 0) := by
  have h₀ := getD_of_holds (Holds.append_iff.mp h).2 (show 0 < x.payload.length by omega)
  have hfirst : seek mem (x.placed pos).payload 0 = x.payload.getD 0 0 := h₀
  unfold longBsrLen lcgs
  rw [hfirst]

end UlSubPdu

def IsPaddingHeader (b : Byte) : Prop := b.toNat % 64 = 0x3F

section

variable {mem : Nat → Byte} {pos len : Nat}

theorem walk_padding (h : IsPaddingHeader (mem pos)) (hlen : 0 < len) :
    walk mem len pos len =
      let r := walk mem (len - (1 + (len - 1) % 2 ^ 16)) (pos + (1 + (len - 1) % 2 ^ 16))
        (len - (1 + (len - 1) % 2 ^ 16))
      (⟨pos, .padding, 1, 0⟩ :: r.1, r.2) := by
  have hd : decodeUlMacSubPduHeader (seek mem pos) = ⟨.padding, 1, 0⟩ := by
    have h₀ : (seek mem pos 0).toNat % 64 = 0x3F := h
    simp [decodeUlMacSubPduHeader, h₀, Lcid.ofNat]
  obtain ⟨k, rfl⟩ : ∃ k, len = k + 1 := ⟨len - 1, by omega⟩
  rw [walk_succ hlen, hd]
  dsimp only [SubPdu.ofHeader]
  have hstride : SubPdu.stride ⟨pos, .padding, 1, 0⟩ (k + 1) = 1 + (k + 1 - 1) % 2 ^ 16 := rfl
  rw [if_neg (by omega), if_neg (by simp [isEmptyCcch]), hstride,
    @walk_fuel _ _ _ k (k + 1 - (1 + (k + 1 - 1) % 2 ^ 16)) (by omega) le_rfl]

end

namespace SubPdu

def ownElements (mem : Nat → Byte) (p : SubPdu) : List ControlElement :=
  if p.isLongBsr then
    [.longBsr (p.lcid = .lTruncatedBsr) ((lcgEntries (seek mem p.payload)).take (p.macLen - 1))]
  else p.elements mem

end SubPdu

def Decoder.applyOwn (cell : Cell) (harqPid : Int) (mem : Nat → Byte) (d : Decoder) (p : SubPdu) :
    Decoder :=
  if p.isLongBsr then
    let entries := (lcgEntries (seek mem p.payload)).take (p.macLen - 1)
    { d with
      ue := d.ue.setEstimate (estimateUlBufferLongBsr entries)
      ces := d.ces ++ [.longBsr (p.lcid = .lTruncatedBsr) entries] }
  else d.apply cell harqPid mem p

section

variable {cell : Cell} {harqPid : Int} {mem : Nat → Byte} {ps : List SubPdu} {p : SubPdu}
  {d : Decoder}

theorem foldl_apply_ces : (ps.foldl (Decoder.apply cell harqPid mem) d).ces =
    d.ces ++ ps.flatMap (SubPdu.elements mem) := by
  induction ps generalizing d with
  | nil => simp
  | cons p ps ih =>
    rw [foldl_cons, ih, flatMap_cons, ← append_assoc]
    rfl

theorem foldl_applyOwn_ces : (ps.foldl (Decoder.applyOwn cell harqPid mem) d).ces =
    d.ces ++ ps.flatMap (SubPdu.ownElements mem) := by
  induction ps generalizing d with
  | nil => simp
  | cons p ps ih =>
    rw [foldl_cons, ih, flatMap_cons, ← append_assoc]
    congr 1
    unfold Decoder.applyOwn SubPdu.ownElements
    split <;> rfl

theorem length_lcgEntries (bsr : Nat → Byte) : (lcgEntries bsr).length + 1 = longBsrLen bsr := by
  rw [lcgEntries_eq, length_map, length_zipIdx, longBsrLen, Nat.add_comm]

def SubPdu.OwnsBsr (mem : Nat → Byte) (p : SubPdu) : Prop :=
  p.isLongBsr = true → longBsrLen (seek mem p.payload) ≤ p.macLen

theorem applyOwn_eq (h : p.OwnsBsr mem) :
    d.applyOwn cell harqPid mem p = d.apply cell harqPid mem p := by
  unfold Decoder.applyOwn
  split
  · next hlong =>
    have hlen := length_lcgEntries (seek mem p.payload)
    have hall := h hlong
    dsimp only
    rw [take_of_length_le (by omega)]
    have hcases : p.lcid = .lBsr ∨ p.lcid = .lTruncatedBsr := by
      simpa [SubPdu.isLongBsr] using hlong
    rcases hcases with hl | hl <;> simp [Decoder.apply, UeInfo.hands, hl]
  · rfl

theorem foldl_applyOwn_eq (h : ∀ p ∈ ps, p.OwnsBsr mem) :
    ps.foldl (Decoder.applyOwn cell harqPid mem) d = ps.foldl (Decoder.apply cell harqPid mem) d :=
  foldl_ext _ _ _ fun _ p hp => applyOwn_eq (h p hp)

theorem length_ownElements : (p.ownElements mem).length = (p.elements mem).length := by
  unfold SubPdu.ownElements
  split
  · next hlong =>
    have hcases : p.lcid = .lBsr ∨ p.lcid = .lTruncatedBsr := by
      simpa [SubPdu.isLongBsr] using hlong
    rcases hcases with hl | hl <;> simp [SubPdu.elements, hl]
  · rfl

theorem ownsBsr_of_elements_eq (hone : p.isLongBsr → 1 ≤ p.macLen)
    (h : p.ownElements mem = p.elements mem) : p.OwnsBsr mem := by
  intro hlong
  have hpos := hone hlong
  have hlen := length_lcgEntries (seek mem p.payload)
  have htake : (lcgEntries (seek mem p.payload)).take (p.macLen - 1) =
      lcgEntries (seek mem p.payload) := by
    rw [SubPdu.ownElements, if_pos hlong] at h
    have hcases : p.lcid = .lBsr ∨ p.lcid = .lTruncatedBsr := by
      simpa [SubPdu.isLongBsr] using hlong
    rcases hcases with hl | hl <;> simpa [SubPdu.elements, hl] using h
  have hmin := congrArg List.length htake
  rw [length_take] at hmin
  omega

theorem eq_of_flatMap_eq {α β : Type} {f g : α → List β} {l : List α}
    (hlen : ∀ a ∈ l, (f a).length = (g a).length) (h : l.flatMap f = l.flatMap g) :
    ∀ a ∈ l, f a = g a := by
  induction l with
  | nil => simp
  | cons a l ih =>
    obtain ⟨hhead, htail⟩ := append_inj h (hlen a (by simp))
    simp only [mem_cons, forall_eq_or_imp]
    exact ⟨hhead, ih (fun b hb => hlen b (by simp [hb])) htail⟩

end

namespace UeInfo

variable {cell : Cell}

theorem numDataInd_append (ue : UeInfo) (ps qs : List SubPdu) : ue.numDataInd cell (ps ++ qs) =
    ue.numDataInd cell ps + (ue.after cell ps).numDataInd cell qs := by
  induction ps generalizing ue with
  | nil => simp [numDataInd, after]
  | cons p ps ih =>
    rw [cons_append, numDataInd, numDataInd, ih, Nat.add_assoc]
    rfl

end UeInfo

section

variable (cell : Cell) (ue : UeInfo) (harqPid : Int) (xs : List UlSubPdu) (n : Nat)

/-- SubPDUs, padding and `n` bytes: the decoder interprets the subPDUs and the padding subheader
only, and does what the subPDUs say. -/
def StopsAtPadding : Prop :=
  ∀ (pad : Byte) (tail : List Byte) (mem : Nat → Byte), IsPaddingHeader pad → tail.length = n →
    Holds mem 0 (xs.flatMap UlSubPdu.bytes ++ pad :: tail) →
    subPdus mem ((xs.flatMap UlSubPdu.bytes).length + (1 + n)) =
        UlSubPdu.layout 0 xs ++ [⟨(xs.flatMap UlSubPdu.bytes).length, .padding, 1, 0⟩] ∧
      processMacPdu cell ue mem ((xs.flatMap UlSubPdu.bytes).length + (1 + n)) harqPid =
        .ok ((UlSubPdu.layout 0 xs).foldl (Decoder.applyOwn cell harqPid mem) { ue }).finish

structure Decodable : Prop where
  padding : n < 2 ^ 16
  blank : ∀ x ∈ xs, x.isBlank = false
  context : ∀ pre p post, UlSubPdu.layout 0 xs = pre ++ p :: post →
    (ue.after cell pre).refuses p = false
  room : ue.numDataInd cell (UlSubPdu.layout 0 xs) < maxNumDataInd
  bsr : ∀ x ∈ xs, x.lcid = .lTruncatedBsr → x.payload.length = longBsrLen (x.payload.getD · 0)

variable {cell ue harqPid xs n} {pad : Byte} {tail : List Byte} {mem : Nat → Byte}

theorem walk_padded (hpad : IsPaddingHeader pad)
    (hhold : Holds mem 0 (xs.flatMap UlSubPdu.bytes ++ pad :: tail))
    (hblank : ∀ x ∈ xs, x.isBlank = false) :
    walk mem ((xs.flatMap UlSubPdu.bytes).length + (1 + n)) 0
        ((xs.flatMap UlSubPdu.bytes).length + (1 + n)) =
      let r := walk mem (n - n % 2 ^ 16) ((xs.flatMap UlSubPdu.bytes).length + (1 + n % 2 ^ 16))
        (n - n % 2 ^ 16)
      (UlSubPdu.layout 0 xs ++
        ⟨(xs.flatMap UlSubPdu.bytes).length, .padding, 1, 0⟩ :: r.1, r.2) := by
  obtain ⟨hxs, htail⟩ := Holds.append_iff.mp hhold
  have hmem : mem (0 + (xs.flatMap UlSubPdu.bytes).length) = pad := (Holds.cons_iff.mp htail).1
  rw [UlSubPdu.walk_layout hxs (by omega) hblank, Nat.add_sub_cancel_left,
    walk_padding (hmem ▸ hpad) (by omega), Nat.zero_add, Nat.add_sub_cancel_left,
    Nat.add_sub_add_left]

theorem padded_ok_iff {ps : List SubPdu} {pos : Nat} :
    (∀ pre p post, ps ++ [⟨pos, .padding, 1, 0⟩] = pre ++ p :: post →
        (ue.after cell pre).refuses p = false) ∧
      ue.numDataInd cell (ps ++ [⟨pos, .padding, 1, 0⟩]) < maxNumDataInd ↔
    (∀ pre p post, ps = pre ++ p :: post → (ue.after cell pre).refuses p = false) ∧
      ue.numDataInd cell ps < maxNumDataInd := by
  have hcount : ue.numDataInd cell (ps ++ [⟨pos, .padding, 1, 0⟩]) = ue.numDataInd cell ps :=
    UeInfo.numDataInd_append ue ps _
  rw [hcount]
  refine and_congr_left fun _ => ⟨fun h pre p post heq => ?_, fun h pre p post heq => ?_⟩
  · exact h pre p (post ++ [⟨pos, .padding, 1, 0⟩]) (by rw [heq]; simp)
  · rcases eq_nil_or_concat post with rfl | ⟨post, q, rfl⟩
    · obtain ⟨-, hlast⟩ := append_inj' heq rfl
      cases hlast
      rfl
    · rw [concat_eq_append, ← cons_append, ← append_assoc] at heq
      exact h pre p post (append_inj' heq rfl).1

theorem apply_padding (d : Decoder) (pos : Nat) :
    d.apply cell harqPid mem ⟨pos, .padding, 1, 0⟩ = d := by
  simp [Decoder.apply, UeInfo.hands]

theorem isLongBsr_iff {p : SubPdu} : p.isLongBsr ↔ p.lcid = .lBsr ∨ p.lcid = .lTruncatedBsr := by
  simp [SubPdu.isLongBsr]

theorem UlSubPdu.ownsBsr_iff {x : UlSubPdu} {pos : Nat} (h : Holds mem pos x.bytes) :
    (x.placed pos).OwnsBsr mem ↔
      (x.lcid = .lTruncatedBsr → x.payload.length = longBsrLen (x.payload.getD · 0)) := by
  constructor
  · intro howns hl
    obtain ⟨hone, hle⟩ := x.longTruncatedBsr hl
    have hown := howns (isLongBsr_iff.mpr (.inr hl))
    rw [longBsrLen_placed h hone] at hown
    exact le_antisymm hle hown
  · intro hfull hlong
    rcases isLongBsr_iff.mp hlong with hl | hl
    · have hlen := x.longBsr hl
      rw [longBsrLen_placed h (by rw [hlen, longBsrLen]; omega)]
      exact hlen.ge
    · rw [longBsrLen_placed h (x.longTruncatedBsr hl).1]
      exact (hfull hl).ge

theorem Decodable.stops (h : Decodable cell ue xs n) : StopsAtPadding cell ue harqPid xs n := by
  intro pad tail mem hpad htail hhold
  have hwalk := walk_padded (n := n) hpad hhold h.blank
  have hzero : n - n % 2 ^ 16 = 0 := by
    have := h.padding
    omega
  rw [hzero] at hwalk
  have hsub : subPdus mem ((xs.flatMap UlSubPdu.bytes).length + (1 + n)) =
      UlSubPdu.layout 0 xs ++ [⟨(xs.flatMap UlSubPdu.bytes).length, .padding, 1, 0⟩] :=
    congrArg Prod.fst hwalk
  refine ⟨hsub, ?_⟩
  obtain ⟨d, hd⟩ : ∃ d, processMacPdu cell ue mem _ harqPid = .ok d :=
    processMacPdu_ok_iff.mpr (hsub ▸ padded_ok_iff.mpr ⟨h.context, h.room⟩)
  have hown : ∀ p ∈ UlSubPdu.layout 0 xs, p.OwnsBsr mem := by
    intro p hp
    obtain ⟨x, hx, pos, rfl, hpos⟩ := UlSubPdu.mem_layout (Holds.append_iff.mp hhold).1 hp
    exact (UlSubPdu.ownsBsr_iff hpos).mpr (h.bsr x hx)
  rw [hd, processMacPdu_ok hd, hsub, hwalk, foldl_applyOwn_eq hown, foldl_append,
    foldl_cons, apply_padding]
  rfl

section

variable (hhold : Holds mem 0 (xs.flatMap UlSubPdu.bytes ++ pad :: tail))
  (hsub : subPdus mem ((xs.flatMap UlSubPdu.bytes).length + (1 + n)) =
    UlSubPdu.layout 0 xs ++ [⟨(xs.flatMap UlSubPdu.bytes).length, .padding, 1, 0⟩])

include hhold hsub

theorem blank_of_subPdus : ∀ x ∈ xs, x.isBlank = false := by
  by_contra hex
  have hex' : ∃ x ∈ xs, x.isBlank := by simpa using hex
  have hlt :=
    UlSubPdu.length_walk_lt (Holds.append_iff.mp hhold).1 (Nat.le_add_right _ (1 + n)) hex'
  have hlen := congrArg List.length hsub
  rw [length_append, UlSubPdu.length_layout, subPdus] at hlen
  omega

theorem rest_of_subPdus (hpad : IsPaddingHeader pad) :
    (walk mem (n - n % 2 ^ 16) ((xs.flatMap UlSubPdu.bytes).length + (1 + n % 2 ^ 16))
      (n - n % 2 ^ 16)).1 = [] := by
  have hfst := congrArg Prod.fst (walk_padded (n := n) hpad hhold (blank_of_subPdus hhold hsub))
  rw [← subPdus, hsub] at hfst
  exact (List.cons.inj (append_cancel_left hfst)).2.symm

theorem bsr_of_ok (hok : processMacPdu cell ue mem ((xs.flatMap UlSubPdu.bytes).length + (1 + n))
      harqPid = .ok ((UlSubPdu.layout 0 xs).foldl (Decoder.applyOwn cell harqPid mem)
        { ue }).finish) :
    ∀ x ∈ xs, x.lcid = .lTruncatedBsr → x.payload.length = longBsrLen (x.payload.getD · 0) := by
  have hces := congrArg Decoder.ces (processMacPdu_ok hok)
  rw [hsub, foldl_append, foldl_cons, apply_padding] at hces
  have hall : (UlSubPdu.layout 0 xs).flatMap (SubPdu.ownElements mem) =
      (UlSubPdu.layout 0 xs).flatMap (SubPdu.elements mem) := by
    have hown : ((UlSubPdu.layout 0 xs).foldl (Decoder.applyOwn cell harqPid mem) { ue }).ces =
        ((UlSubPdu.layout 0 xs).foldl (Decoder.apply cell harqPid mem) { ue }).ces := by
      dsimp only at hces
      split at hces
      · exact hces
      · exact hces
    rwa [foldl_applyOwn_ces, foldl_apply_ces] at hown
  intro x hx hl
  obtain ⟨pos, hmem, hpos⟩ := UlSubPdu.exists_mem_layout (Holds.append_iff.mp hhold).1 hx
  have heq := eq_of_flatMap_eq (fun _ _ => length_ownElements) hall _ hmem
  exact (UlSubPdu.ownsBsr_iff hpos).mp
    (ownsBsr_of_elements_eq (fun _ => (x.longTruncatedBsr hl).1) heq) hl

end

theorem StopsAtPadding.decodable (h : StopsAtPadding cell ue harqPid xs n) :
    Decodable cell ue xs n := by
  -- padding subheaders all the way
  have hpad : IsPaddingHeader 0x3F := rfl
  let l := xs.flatMap UlSubPdu.bytes ++ 0x3F :: List.replicate n 0x3F
  let mem := fun i => l.getD i 0x3F
  have hhold : Holds mem 0 l := .getD l _
  obtain ⟨hsub, hok⟩ := h 0x3F _ mem hpad length_replicate hhold
  obtain ⟨hcontext, hroom⟩ := padded_ok_iff.mp (hsub ▸ processMacPdu_ok_iff.mp ⟨_, hok⟩)
  refine ⟨?_, blank_of_subPdus hhold hsub, hcontext, hroom, bsr_of_ok hhold hsub hok⟩
  by_contra hlong
  have hrest := rest_of_subPdus hhold hsub hpad
  have hnext : mem ((xs.flatMap UlSubPdu.bytes).length + (1 + n % 2 ^ 16)) = 0x3F := by
    have hget := (Holds.append_iff.mp hhold).2.get (i := 1 + n % 2 ^ 16)
      (by rw [length_cons, length_replicate]; omega)
    rw [Nat.zero_add] at hget
    rw [hget, getElem_cons, dif_neg (by omega), getElem_replicate]
  rw [walk_padding (hnext ▸ hpad) (by omega)] at hrest
  cases hrest

/-- The decoder stops at padding exactly on these PDUs. -/
theorem stopsAtPadding_iff (cell : Cell) (ue : UeInfo) (harqPid : Int)
    (xs : List UlSubPdu) (n : Nat) : StopsAtPadding cell ue harqPid xs n ↔ Decodable cell ue xs n :=
  ⟨StopsAtPadding.decodable, Decodable.stops⟩

theorem subPdus_shortBsr (h₀ : mem 0 = 0x3F) (h₁ : mem 1 = 0x3D) (hn : n % 2 ^ 16 = 0)
    (htwo : 2 ≤ n) :
    ∃ post, subPdus mem (1 + n) = ⟨0, .padding, 1, 0⟩ :: ⟨1, .sBsr, 1, 1⟩ :: post := by
  have hd : decodeUlMacSubPduHeader (seek mem 1) = ⟨.sBsr, 1, 1⟩ := by
    have hs : seek mem 1 0 = 0x3D := h₁
    simp [decodeUlMacSubPduHeader, hs, Lcid.ofNat]
  have hpad : IsPaddingHeader (mem 0) := h₀ ▸ rfl
  obtain ⟨k, rfl⟩ : ∃ k, n = k + 1 := ⟨n - 1, by omega⟩
  rw [subPdus, walk_padding hpad (by omega), Nat.add_sub_cancel_left, hn, Nat.add_zero,
    Nat.add_sub_cancel_left, Nat.zero_add]
  dsimp only
  rw [walk_succ (by omega), hd]
  dsimp only [SubPdu.ofHeader]
  rw [if_neg (by omega), if_neg (by simp [isEmptyCcch])]
  exact ⟨_, rfl⟩

theorem not_stopsAtPadding (hn : n % 2 ^ 16 = 0) (htwo : 2 ≤ n) :
    ¬ StopsAtPadding cell ue harqPid [] n := by
  intro h
  obtain ⟨tail, htail⟩ : ∃ tail : List Byte, tail.length = n - 2 :=
    ⟨List.replicate (n - 2) 0x3F, length_replicate⟩
  let l : List Byte := 0x3F :: 0x3D :: 0x1F :: tail
  let mem := fun i => l.getD i 0
  have hhold : Holds mem 0 l := .getD l _
  have hok := (h 0x3F (0x3D :: 0x1F :: tail) mem rfl (by simp; omega) hhold).2
  have h₀ : mem 0 = 0x3F := rfl
  have h₁ : mem 1 = 0x3D := rfl
  obtain ⟨post, hsub⟩ := subPdus_shortBsr h₀ h₁ hn htwo
  have hces := congrArg Decoder.ces (processMacPdu_ok hok)
  have hfold : ([] : List ControlElement) =
      (subPdus mem (0 + (1 + n))).flatMap (SubPdu.elements mem) := by
    dsimp only at hces
    split at hces
    · exact hces.trans foldl_apply_ces
    · exact hces.trans foldl_apply_ces
  rw [Nat.zero_add, hsub] at hfold
  cases hfold

theorem not_forall_stopsAtPadding : ¬ ∀ (cell : Cell) (ue : UeInfo) (harqPid : Int)
    (xs : List UlSubPdu) (n : Nat), StopsAtPadding cell ue harqPid xs n := by
  intro hall
  exact not_stopsAtPadding (n := 65536) (by decide) (by decide)
    (hall ⟨0, fun _ _ => true, id⟩ {} 0 [] 65536)

end

end OpenAir.Mac
