import OpenAir.Rlc.Pdu

/-! SDUs waiting in a transmitter and the segments they are cut into.  Segments share their SDU,
so SDUs live in a heap and segments carry addresses. -/

namespace OpenAir.Rlc

structure Sdu where
  ptr : Nat
  sn : Option Nat                -- -1 in the source until the first segment is sent
  upperLayerId : Int
  data : List Byte
  retxCount : Int
  refCount : Nat
  freeCount : Nat
  deriving DecidableEq, Inhabited

def Sdu.size (s : Sdu) : Nat := s.data.length

/-- `id` is the address of the segment, `sdu` the address of its SDU. -/
structure Segment where
  id : Nat
  sdu : Nat
  size : Nat
  so : Nat
  isFirst : Bool
  isLast : Bool
  deriving DecidableEq

def Segment.stop (s : Segment) : Nat := s.so + s.size

structure Heap where
  sdus : List Sdu := []
  fresh : Nat := 0

namespace Heap

def sdu (h : Heap) (p : Nat) : Sdu := (h.sdus.find? (·.ptr = p)).getD default

def modify (h : Heap) (p : Nat) (f : Sdu → Sdu) : Heap :=
  { h with sdus := h.sdus.map fun s => if s.ptr = p then f s else s }

def free (h : Heap) (p : Nat) : Heap := { h with sdus := h.sdus.filter (·.ptr ≠ p) }

end Heap

def newSdu (h : Heap) (buffer : List Byte) (upperLayerId : Int) : Heap × Segment :=
  ({ sdus := h.sdus ++ [{ ptr := h.fresh, sn := none, upperLayerId, data := buffer,
                          retxCount := -1, refCount := 1, freeCount := 0 }]
     fresh := h.fresh + 2 },
   { id := h.fresh + 1, sdu := h.fresh, size := buffer.length, so := 0
     isFirst := true, isLast := true })

/-- The flag tells that the SDU has been freed too. -/
def freeSduSegment (h : Heap) (s : Segment) : Heap × Bool :=
  let h := h.modify s.sdu fun sdu => { sdu with freeCount := sdu.freeCount + 1 }
  if (h.sdu s.sdu).freeCount = (h.sdu s.sdu).refCount then (h.free s.sdu, true) else (h, false)

def freeSduSegmentList (h : Heap) (l : List Segment) : Heap :=
  l.foldl (fun h s => (freeSduSegment h s).1) h

/-- `(*end)->next = s`: what followed the node at address `end` is replaced by `s`. -/
def linkAfter : List Segment → Nat → Segment → List Segment
  | [], _, _ => []
  | x :: l, e, s => if x.id = e then [x, s] else x :: linkAfter l e s

/-- A list with its cached tail pointer.  `none` when the tail pointer of a list that is not empty
is null or points out of the list. -/
def sduSegmentListAppend (list : List Segment) (end_ : Option Segment) (s : Segment) :
    Option (List Segment × Option Segment) :=
  match list, end_ with
  | [], _ => some ([s], some s)
  | _ :: _, none => none
  | l, some e => if e ∈ l then some (linkAfter l e.id s, some s) else none

end OpenAir.Rlc
