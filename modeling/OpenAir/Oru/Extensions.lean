import OpenAir.Oru.Context

namespace OpenAir.Oru

/-- `xran_bfw_err_t` -/
inductive BfwErr
  | arg
  | truncated
  | extLen
  | compMeth
  | numBundPrb
  | tooManyBundles
  deriving DecidableEq

def padded (n : Nat) : Nat := (n + 3) / 4 * 4

def effectiveIqWidth (w : Nat) : Nat := if w = 0 then iqBitsUncompressed else w

def wideExtLen (extType : Nat) : Bool := extType = 11 || extType = 19 || extType = 20

/-- `extLen`, which follows the byte with the type. -/
def readExtLen (data : List Byte) (extType ext : Nat) : Exec Nat := do
  let hi ← readByte data (ext + 1)
  if wideExtLen extType then
    let lo ← readByte data (ext + 2)
    return hi.toNat * 256 + lo.toNat
  else return hi.toNat

def xranSectionExtLen (data : List Byte) (extType ext : Nat) : Exec (Except BfwErr Nat) := do
  let avail := data.length - ext
  if avail < 1 + (if wideExtLen extType then 2 else 1) then return .error .truncated
  let words ← readExtLen data extType ext
  if words = 0 then return .error .extLen
  if words * 4 > avail then return .error .truncated
  return .ok (words * 4)

def unpackWeights (data : List Byte) (pos iqBits n : Nat) : Exec (List Int) :=
  (List.range n).mapM fun i => do
    let v ← unpackBits data pos (i * iqBits) iqBits
    return int16 v

def iqLen (nWeights iqBits : Nat) : Nat := (2 * nWeights * iqBits + 7) / 8

def xranDecodeBfwExt1 (data : List Byte) (ext len nWeights : Nat) :
    Exec (Except BfwErr (List Int)) := do
  if nWeights = 0 then return .error .arg
  if len < 3 then return .error .truncated
  let compHdr ← readByte data (ext + 2)
  if compHdr.toNat % 16 > 3 then return .error .compMeth
  let iqBits := effectiveIqWidth (compHdr.toNat / 16)
  let method := FhCompMethod.ofNat (compHdr.toNat % 16)
  let offset := 3 + method.paramLen
  let words ← readByte data (ext + 1)
  if words.toNat * 4 ≠ padded (offset + iqLen nWeights iqBits) then return .error .extLen
  if words.toNat * 4 > len then return .error .truncated
  if method ≠ .none then
    -- the decompression expects the parameter right before the values
    let weights ← fhDecompressBlock method iqBits (2 * nWeights) data (ext + offset - 1)
    return .ok weights
  else
    let weights ← unpackWeights data (ext + offset) iqBits (2 * nWeights)
    return .ok weights

/-- `xran_bfw_ext11_hdr_t`; method and width only when there are weights. -/
structure BfwExt11Hdr where
  disableBfws : Bool
  rad : Bool
  bundleOffset : Nat
  numBundPrb : Nat
  bfwCompMeth : Nat := 0
  bfwIqWidth : Nat := 0
  deriving DecidableEq

structure Bundle where
  beamId : Nat
  weights : Option (List Int)
  deriving DecidableEq

namespace BfwExt11Hdr

variable (h : BfwExt11Hdr)

def method : FhCompMethod := if h.disableBfws then .none else .ofNat h.bfwCompMeth

def len : Nat := if h.disableBfws then 5 else 6

def bundleLen (nWeights : Nat) : Nat :=
  h.method.paramLen + 2 + if h.disableBfws then 0 else iqLen nWeights h.bfwIqWidth

/-- `ceil((bundleOffset + num_prb) / numBundPrb)` as the decoder computes it. -/
def nBundles (numPrb : Nat) : Nat := (h.bundleOffset + numPrb + h.numBundPrb - 1) / h.numBundPrb

def readBundle (data : List Byte) (nWeights pos : Nat) : Exec Bundle := do
  let hi ← readByte data (pos + h.method.paramLen)
  let lo ← readByte data (pos + h.method.paramLen + 1)
  -- the top bit is contInd
  let beamId := (hi.toNat * 256 + lo.toNat) % 2 ^ 15
  let iq := pos + h.method.paramLen + 2
  if h.disableBfws then return { beamId, weights := none }
  else if h.method ≠ .none then
    -- the beam lies between the parameter and the values, so they are copied together
    let param ← readByte data pos
    let values ← (List.range (iqLen nWeights h.bfwIqWidth)).mapM fun i => readByte data (iq + i)
    let weights ← fhDecompressBlock h.method h.bfwIqWidth (2 * nWeights) (param :: values) 0
    return { beamId, weights := some weights }
  else
    let weights ← unpackWeights data iq h.bfwIqWidth (2 * nWeights)
    return { beamId, weights := some weights }

end BfwExt11Hdr

def readExt11Hdr (data : List Byte) (ext : Nat) : Exec BfwExt11Hdr := do
  let flags ← readByte data (ext + 3)
  let numBundPrb ← readByte data (ext + 4)
  return { disableBfws := flags.toNat / 128 = 1
           rad := flags.toNat / 64 % 2 = 1
           bundleOffset := flags.toNat % 64
           numBundPrb := numBundPrb.toNat }

def readBfwCompHdr (data : List Byte) (ext len : Nat) (h : BfwExt11Hdr) :
    Exec (Except BfwErr BfwExt11Hdr) := do
  if h.disableBfws then return .ok h
  if len < 6 then return .error .truncated
  let compHdr ← readByte data (ext + 5)
  if compHdr.toNat % 16 > 3 then return .error .compMeth
  return .ok { h with
    bfwCompMeth := compHdr.toNat % 16
    bfwIqWidth := effectiveIqWidth (compHdr.toNat / 16) }

def xranDecodeBfwExt11 (data : List Byte) (ext len : Nat) (numPrb : Int) (nWeights : Nat)
    (maxBundles : Int) : Exec (Except BfwErr (BfwExt11Hdr × List Bundle)) := do
  if ¬ (0 < numPrb ∧ 0 < nWeights ∧ 0 < maxBundles) then return .error .arg
  if len < 5 then return .error .truncated
  let hdr ← readExt11Hdr data ext
  if hdr.numBundPrb = 0 then return .error .numBundPrb
  let nBundles := hdr.nBundles numPrb.toNat
  if (nBundles : Int) > maxBundles then return .error .tooManyBundles
  match ← readBfwCompHdr data ext len hdr with
  | .error e => return .error e
  | .ok hdr =>
    let words ← readExtLen data 11 ext
    if words * 4 ≠ padded (hdr.len + nBundles * hdr.bundleLen nWeights) then return .error .extLen
    if words * 4 > len then return .error .truncated
    let bundles ← (List.range nBundles).mapM fun b =>
      hdr.readBundle data nWeights (ext + hdr.len + b * hdr.bundleLen nWeights)
    return .ok (hdr, bundles)

/-- `ext11_beam_ids` -/
structure Ext11Buffers where
  beamIds : Nat → Nat := fun _ => 0
  weights : Nat → Int := fun _ => 0

def Ext11Buffers.write (bufs : Ext11Buffers) (nWeights : Nat) (bundles : List Bundle) :
    Ext11Buffers where
  beamIds i := (bundles[i]?.map Bundle.beamId).getD (bufs.beamIds i)
  weights i :=
    (((bundles[i / (2 * nWeights)]?).bind Bundle.weights).bind fun w =>
      w[i % (2 * nWeights)]?).getD (bufs.weights i)

structure ExtState where
  stats : Stats := {}
  bufs : Ext11Buffers := {}

def ExtState.bump (s : ExtState) (k : Counter) : ExtState := { s with stats := s.stats.bump k }

/-- `count_section_ext_error` -/
def sectionExtErrorCounter (extType : Nat) : Counter :=
  if extType = 1 then .cplaneErrSectExt1
  else if extType = 11 then .cplaneErrSectExt11
  else .cplaneErrSectExtOther

section Walk

variable (c : Config)

def parseSectionExt1 (data : List Byte) (ext extLen : Nat) (s : ExtState) :
    Exec (Bool × ExtState) := do
  let s := s.bump .cplaneExt1Received
  if c.numBfWeights = 0 then return (true, s)
  match ← xranDecodeBfwExt1 data ext extLen c.numBfWeights with
  | .error _ => return (false, s)
  | .ok _ => return (true, s)

def parseSectionExt11 (data : List Byte) (ext extLen : Nat) (numPrb : Int) (s : ExtState) :
    Exec (Bool × ExtState) := do
  let s := s.bump .cplaneExt11Received
  if c.numBfWeights = 0 then return (true, s)
  match ← xranDecodeBfwExt11 data ext extLen numPrb c.numBfWeights c.ext11MaxBundles with
  | .error _ => return (false, s)
  | .ok (_, bundles) => return (true, { s with bufs := s.bufs.write c.numBfWeights bundles })

structure ExtWalk where
  extFlag : Bool
  ext : Nat
  state : ExtState

def parseSectionExt (data : List Byte) (extType ext extLen : Nat) (numPrb : Int) (s : ExtState) :
    Exec (Bool × ExtState) :=
  if extType = 1 then parseSectionExt1 c data ext extLen s
  else if extType = 11 then parseSectionExt11 c data ext extLen numPrb s
  else return (true, s)

def parseExtension (data : List Byte) (numPrb : Int) (w : ExtWalk) : Exec (ExtWalk ⊕ ExtState) := do
  if !w.extFlag then return .inr w.state
  if data.length ≤ w.ext then return .inr (w.state.bump .cplaneErrSectExtChain)
  let first ← readByte data w.ext
  let extType := first.toNat % 128
  match ← xranSectionExtLen data extType w.ext with
  | .error _ => return .inr (w.state.bump (sectionExtErrorCounter extType))
  | .ok extLen =>
    let (valid, state) ← parseSectionExt c data extType w.ext extLen numPrb w.state
    if !valid then return .inr (state.bump (sectionExtErrorCounter extType))
    return .inl { extFlag := first.toNat / 128 = 1, ext := w.ext + extLen, state }

/-- `parse_section1_extensions`.  The data start with the header of the section, of eight bytes,
whose flag and number of PRBs are given. -/
def parseSection1Extensions (fuel : Nat) (data : List Byte) (ef : Bool) (numPrbc : Nat)
    (s : ExtState) : Exec ExtState :=
  loop (parseExtension c data (c.effectiveNumPrb numPrbc)) fuel
    { extFlag := ef, ext := 8, state := s }

end Walk

end OpenAir.Oru
