import SdPlane.Lib.DoWhile
import SdPlane.Tlp

/-!
# The pseudo memory (`nettlp_psmem_*`, `nettlp.c`)

`psmem_memory` stands for the memory of a device: a buffer of `psmem_size` bytes that answers to
addresses from `psmem_addr` on. A read request is answered with completions of at most
`MAXPAYLOADSIZE` bytes each, a write request is copied into the buffer.

`psmem_memory + address - psmem_addr` is reckoned in 64 bits, so a place relative to the buffer is a
64-bit offset, and what a pointer reaches outside the buffer has an offset too: the offsets below
`psmem_size` are the buffer. A `Copy` is one `memcpy` from or to such a place.

The loop that sends completions does not always end. `Rounds` speaks of all its rounds, and
`nettlpPsmemMrd` gives the completions of a loop that ends.
-/

set_option autoImplicit false

namespace SdPlane

open Lib

def MAXPAYLOADSIZE : Int := 256

/-- The settings of the pseudo memory, and what is found at an offset. -/
structure Psmem where
  addr : UInt64
  size : UInt32
  memory : UInt64 → UInt8

/-- A `memcpy` from or to the pseudo memory. -/
structure Copy where
  offset : UInt64
  len : Int
deriving DecidableEq

/-- The bytes from an offset on. -/
def Psmem.bytes (ps : Psmem) (offset : UInt64) (n : Nat) : List UInt8 :=
  (List.range n).map fun i => ps.memory (offset + UInt64.ofNat i)

/-- The test both handlers begin with: the request goes out of the region. -/
def Psmem.refuses (ps : Psmem) (addr : UInt64) (len : Int) : Bool :=
  addr < ps.addr || addr + UInt64.ofInt len > ps.addr + ps.size.toUInt64

/-! ## Reads -/

/-- A completion: its header, where the payload was taken from, and the payload. -/
structure Cpl where
  ch : TlpCplHdr
  copy : Copy
  data : List UInt8

/-- What `nettlp_psmem_mrd` counts down, and the address it has come to. -/
structure MrdState where
  len : Int
  dataLen : Int
  addr : UInt64

/-- The header of a completion. `memcpy` fills it with the first twelve bytes of the request, and what
    is not written over stays: flags, attributes, and a bit of the status word. -/
def cplHeader (requester : UInt16) (mh : TlpMrHdr) (sendLen dataLen : Int) (addr : UInt64) :
    TlpCplHdr :=
  let beBits : Nat := mh.lstdw.toNat * 16 + mh.fstdw.toNat
  let stcnt := UInt16.ofNat (mh.tag.toNat * 256 + beBits)
  { tlp := {
      fmtType := tlpSetType (tlpSetFmt mh.tlp.fmtType TLP_FMT_3DW TLP_FMT_W_DATA) TLP_TYPE_Cpl
      tclass := mh.tlp.tclass
      falen := tlpSetLength mh.tlp.falen (sendLen / 4).toNat }
    completer := requester
    stcnt := tlpSetCplBcnt (tlpSetCplStatus stcnt TLP_CPL_STATUS_SC) dataLen
    requester := mh.requester
    tag := mh.tag
    lowaddr := (addr &&& 0x7F).toUInt8 }

/-- One round of the loop. -/
def mrdRound (ps : Psmem) (requester : UInt16) (mh : TlpMrHdr) (s : MrdState) : Cpl × MrdState :=
  let sendLen := if s.len < MAXPAYLOADSIZE then s.len else MAXPAYLOADSIZE
  let source := ((s.addr >>> 2) <<< 2) - ps.addr
  ({ ch := cplHeader requester mh sendLen s.dataLen s.addr
     copy := ⟨source, sendLen⟩
     data := ps.bytes source sendLen.toNat },
   { len := s.len - sendLen
     dataLen := s.dataLen - (sendLen - ((s.addr &&& 0x3).toNat : Int))
     addr := ((s.addr >>> 2) <<< 2) + UInt64.ofInt sendLen })

/-- `data_len > 0`. -/
def mrdAgain (s : MrdState) : Bool := 0 < s.dataLen

def mrdStart (mh : TlpMrHdr) (after : Nat → UInt8) : MrdState where
  len := ((4 * tlpLength mh.tlp.falen : Nat) : Int)
  dataLen := tlpMrDataLength mh
  addr := tlpMrAddr mh after

/-- `nettlp_psmem_mrd`: the completions it sends, if the loop ends. -/
def nettlpPsmemMrd (fuel : Nat) (ps : Psmem) (requester : UInt16) (mh : TlpMrHdr)
    (after : Nat → UInt8) : Option (List Cpl) :=
  if ps.refuses (tlpMrAddr mh after) ((4 * tlpLength mh.tlp.falen : Nat) : Int) then some []
  else doWhile (mrdRound ps requester mh) mrdAgain fuel (mrdStart mh after)

/-! ## Writes -/

/-- The copy of `nettlp_psmem_mwr`, when it comes to that. -/
def mwrCopy (ps : Psmem) (mh : TlpMrHdr) (after : Nat → UInt8) : Option Copy :=
  if ps.refuses (tlpMrAddr mh after) (tlpMrDataLength mh) then none
  else some ⟨tlpMrAddr mh after - ps.addr, tlpMrDataLength mh⟩

/-- `nettlp_psmem_mwr`. The length of a `memcpy` is a `size_t`. -/
def nettlpPsmemMwr (ps : Psmem) (mh : TlpMrHdr) (after : Nat → UInt8) : Psmem :=
  match mwrCopy ps mh after with
  | none => ps
  | some copy =>
    { ps with
      memory := fun offset =>
        if offset - copy.offset < UInt64.ofInt copy.len then
          after (tlpMwrData mh + (offset - copy.offset).toNat)
        else ps.memory offset }

end SdPlane
