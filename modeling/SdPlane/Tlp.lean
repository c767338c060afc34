import SdPlane.Lib.BigEndian

/-!
# Transaction layer packets (`tlp.h`, `nettlp_support.c`, `nettlp.c`)

The headers of NetTLP packets and what is computed from them. A memory request names a range of
bytes by its first doubleword, a number of doublewords in ten bits, and two masks of four bits, the
byte enables of the first and of the last doubleword. `tlp_calculate_*` make these of an address
and a count, `tlp_mr_addr` and `tlp_mr_data_length` make an address and a count of them again, and
`tlp_mwr_data` finds the payload of a write.

Headers are records. The 16-bit fields are the numbers `ntohs` makes of them, since every access
goes through `ntohs` and `htons`. What follows a header, the address first, is memory,
`after : Nat → UInt8`, because the code reads it through a pointer and never asks where the packet
ends. A header is not cleared before it is filled in, so the functions that write one are given the
`stale` header that was there.

`size_t` and `uintptr_t` are 64 bits. An `int` is not shifted by its width or more: where
`tlp_calculate_lstdw` does that, it has no result.
-/

set_option autoImplicit false

namespace SdPlane

open Lib

/-! ## Headers -/

/-- `struct tlp_hdr`. -/
structure TlpHdr where
  fmtType : UInt8
  tclass : UInt8
  falen : UInt16
deriving DecidableEq

/-- `struct tlp_mr_hdr`, a memory request, without the address. -/
structure TlpMrHdr where
  tlp : TlpHdr
  requester : UInt16
  tag : UInt8
  fstdw : BitVec 4
  lstdw : BitVec 4
deriving DecidableEq

/-- `struct tlp_cpl_hdr`, a completion. -/
structure TlpCplHdr where
  tlp : TlpHdr
  completer : UInt16
  stcnt : UInt16
  requester : UInt16
  tag : UInt8
  lowaddr : UInt8
deriving DecidableEq

def TLP_FMT_DW_MASK : UInt8 := 0x20
def TLP_FMT_3DW : UInt8 := 0x00
def TLP_FMT_4DW : UInt8 := 0x20
def TLP_FMT_DATA_MASK : UInt8 := 0x40
def TLP_FMT_WO_DATA : UInt8 := 0x00
def TLP_FMT_W_DATA : UInt8 := 0x40
def TLP_TYPE_MASK : UInt8 := 0x1F
def TLP_TYPE_MRd : UInt8 := 0x00
def TLP_TYPE_MWr : UInt8 := 0x00
def TLP_TYPE_Cpl : UInt8 := 0x0A
def TLP_LENGTH_MASK : UInt16 := 0x03FF
def TLP_CPL_STATUS_MASK : UInt16 := 0xE000
def TLP_CPL_STATUS_SC : UInt16 := 0x0000
def TLP_CPL_BCNT_MASK : UInt16 := 0x0FFF

def tlpIs3dw (ft : UInt8) : Bool := ft &&& TLP_FMT_DW_MASK == TLP_FMT_3DW
def tlpIsWoData (ft : UInt8) : Bool := ft &&& TLP_FMT_DATA_MASK == TLP_FMT_WO_DATA
def tlpIsWData (ft : UInt8) : Bool := ft &&& TLP_FMT_DATA_MASK == TLP_FMT_W_DATA
def tlpIsMrd (ft : UInt8) : Bool := ft &&& TLP_TYPE_MASK == TLP_TYPE_MRd && tlpIsWoData ft
def tlpIsMwr (ft : UInt8) : Bool := ft &&& TLP_TYPE_MASK == TLP_TYPE_MWr && tlpIsWData ft

def tlpSetFmt (ft dw wd : UInt8) : UInt8 :=
  (ft &&& ~~~(TLP_FMT_DW_MASK ||| TLP_FMT_DATA_MASK)) |||
    (dw &&& TLP_FMT_DW_MASK) ||| (wd &&& TLP_FMT_DATA_MASK)

def tlpSetType (ft v : UInt8) : UInt8 := (ft &&& ~~~TLP_TYPE_MASK) ||| (v &&& TLP_TYPE_MASK)

def tlpLength (fl : UInt16) : Nat := (fl &&& TLP_LENGTH_MASK).toNat

/-- The new length is not masked. -/
def tlpSetLength (fl : UInt16) (v : Nat) : UInt16 := (fl &&& ~~~TLP_LENGTH_MASK) ||| UInt16.ofNat v

def tlpCplBcnt (sc : UInt16) : Nat := (sc &&& TLP_CPL_BCNT_MASK).toNat

def tlpSetCplStatus (sc v : UInt16) : UInt16 := (sc &&& ~~~TLP_CPL_STATUS_MASK) ||| v

/-- The new count is not masked either; `htons` drops all but sixteen bits of it. -/
def tlpSetCplBcnt (sc : UInt16) (v : Int) : UInt16 :=
  (sc &&& ~~~TLP_CPL_BCNT_MASK) ||| UInt16.ofInt v

/-! ## From a range of bytes to a header -/

/-- `tlp_calculate_lstdw`. -/
def tlpCalculateLstdw (addr count : UInt64) : Option (BitVec 4) :=
  let start := (addr >>> 2) <<< 2
  let last := addr + count
  let endStart := if last &&& 0x3 = 0 then last - 4 else (last >>> 2) <<< 2
  -- corner case. count is smaller than 8
  let endStart := if endStart ≤ start then addr + 4 else endStart
  if last < endStart then some 0
  else if 32 ≤ (last - endStart).toNat then none
  else some (~~~(0xF#4 <<< (last - endStart).toNat))

/-- `tlp_calculate_fstdw`. -/
def tlpCalculateFstdw (addr count : UInt64) : BitVec 4 :=
  let be := if count < 4 then ~~~(0xF#4 <<< count.toNat) else 0xF#4
  be <<< (addr &&& 0x3).toNat

/-- `tlp_calculate_length`. -/
def tlpCalculateLength (addr count : UInt64) : Nat :=
  let start := addr &&& 0xFFFFFFFFFFFFFFFC
  let last := addr + count
  let len := (last - start) >>> 2
  (if (last - start) &&& 0x3 = 0 then len else len + 1).toNat

/-! ## From a header to a range of bytes -/

/-- The masks `0x1 << n`, by which the byte enables are looked at from the first byte on. -/
def fromFirst : List (BitVec 4) := [0x1, 0x2, 0x4, 0x8]

/-- The masks `0x8 >> n`, from the last byte back. -/
def fromLast : List (BitVec 4) := [0x8, 0x4, 0x2, 0x1]

/-- `for (n …) if ((be & mask) == 0) …; else break;` -/
def clearBefore (be : BitVec 4) : List (BitVec 4) → Nat
  | [] => 0
  | m :: ms => if be &&& m = 0 then clearBefore be ms + 1 else 0

/-- The same loop without the `break`. -/
def clearAmong (be : BitVec 4) (masks : List (BitVec 4)) : Nat := masks.countP (be &&& · = 0)

/-- `be && be != 0xF`. -/
def bePartial (be : BitVec 4) : Bool := be ≠ 0 && be ≠ 0xF

/-- `tlp_mr_addr`. -/
def tlpMrAddr (mh : TlpMrHdr) (after : Nat → UInt8) : UInt64 :=
  let addr := UInt64.ofNat (if tlpIs3dw mh.tlp.fmtType then beNat after 0 4 else beNat after 0 8)
  if bePartial mh.fstdw then addr + UInt64.ofNat (clearBefore mh.fstdw fromFirst) else addr

/-- `tlp_mr_data_length`. The 32 bits that are counted down become an `int`, which is negative when
    more was taken away than there was. -/
def tlpMrDataLength (mh : TlpMrHdr) : Int :=
  ((4 * tlpLength mh.tlp.falen : Nat) : Int)
    - (if bePartial mh.fstdw then clearAmong mh.fstdw fromFirst else 0 : Nat)
    - (if bePartial mh.lstdw then clearBefore mh.lstdw fromLast else 0 : Nat)

/-- `tlp_mwr_data`, as the place in what follows the header. -/
def tlpMwrData (mh : TlpMrHdr) : Nat :=
  (if tlpIs3dw mh.tlp.fmtType then 4 else 8)
    + if bePartial mh.fstdw then clearBefore mh.fstdw fromFirst else 0

/-- `len` bytes of a packet, as `memcpy` takes them; `none` when they are not all in the packet. -/
def packetRead (body : List UInt8) (start : Nat) (len : Int) : Option (List UInt8) :=
  if 0 ≤ len ∧ start + len.toNat ≤ body.length then some ((body.drop start).take len.toNat) else none

/-- `tlp_cpld_data_length`. -/
def tlpCpldDataLength (ch : TlpCplHdr) : Int :=
  if tlpLength ch.tlp.falen = ((ch.lowaddr &&& 0x3).toNat + tlpCplBcnt ch.stcnt + 3) / 4 then
    (tlpCplBcnt ch.stcnt : Int)
  else ((4 * tlpLength ch.tlp.falen : Nat) : Int) - ((ch.lowaddr &&& 0x3).toNat : Int)

/-- `tlp_cpld_data`, as the place in what follows the header. -/
def tlpCpldData (ch : TlpCplHdr) : Nat :=
  (if tlpIs3dw ch.tlp.fmtType then 4 else 8) + (ch.lowaddr &&& 0x3).toNat

/-! ## The senders -/

/-- The settings of the command line that the senders use. -/
structure NettlpConf where
  requester : UInt16
  pciTag : UInt8
  memoryAddr : UInt64

/-- The header of a memory request and its address, as both senders fill it in. -/
def mrHeader (stale : TlpMrHdr) (conf : NettlpConf) (type wd : UInt8) (count : UInt64) :
    Option (TlpMrHdr × List UInt8) :=
  (tlpCalculateLstdw conf.memoryAddr count).map fun lstdw =>
    let falen := tlpSetLength stale.tlp.falen (tlpCalculateLength conf.memoryAddr count)
    let ft := tlpSetType stale.tlp.fmtType type
    let header (fmtType : UInt8) : TlpMrHdr := {
      tlp := { stale.tlp with fmtType := fmtType, falen := falen }
      requester := conf.requester
      tag := conf.pciTag
      fstdw := tlpCalculateFstdw conf.memoryAddr count
      lstdw := lstdw }
    if conf.memoryAddr < 0xFFFFFFFF then
      (header (tlpSetFmt ft TLP_FMT_3DW wd), beBytes 4 (conf.memoryAddr &&& 0xFFFFFFFC).toNat)
    else
      (header (tlpSetFmt ft TLP_FMT_4DW wd),
        beBytes 8 (conf.memoryAddr &&& 0xFFFFFFFFFFFFFFFC).toNat)

/-- `nettlp_send_dma_read`: the request header and what follows it in the packet. -/
def nettlpSendDmaRead (stale : TlpMrHdr) (conf : NettlpConf) (readPayloadSize : UInt64) :
    Option (TlpMrHdr × List UInt8) :=
  mrHeader stale conf TLP_TYPE_MRd TLP_FMT_WO_DATA readPayloadSize

/-- `nettlp_send_dma_write`. The padding is counted over three of the four byte enables, and all of
    the three are looked at. -/
def nettlpSendDmaWrite (stale : TlpMrHdr) (conf : NettlpConf) (payload : List UInt8) :
    Option (TlpMrHdr × List UInt8) :=
  (mrHeader stale conf TLP_TYPE_MWr TLP_FMT_W_DATA (UInt64.ofNat payload.length)).map
    fun (mh, addr) =>
      let front := if bePartial mh.fstdw then clearAmong mh.fstdw (fromFirst.take 3) else 0
      let back := if bePartial mh.lstdw then clearAmong mh.lstdw (fromLast.take 3) else 0
      (mh, addr ++ List.replicate front 0 ++ payload ++ List.replicate back 0)

end SdPlane
