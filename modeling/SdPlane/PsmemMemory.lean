import SdPlane.Lib.Entries
import SdPlane.PsmemBounds

/-!
# The pseudo memory is a memory

One request has been looked at so far. What the host relies on is about many of them: a read gets the
bytes that were written last, whatever requests lie in between, how they overlap, and into how many
completions the answer is cut. `psmem_is_memory_iff` compares the two handlers, behind the dispatch of
`nettlp_psmem_receive`, with a memory that knows nothing of doublewords, byte enables or packets: a
function from addresses to bytes (`DmaOp.apply`, `DmaOp.answer`).

The two are the same as long as every read is `Served`. The test that a read has to pass is made with
the length of its doublewords, but from its first byte on, so a read that begins inside a doubleword
and goes on into the last one of the region is refused.

The bytes of a completion are counted from where the device has put them, at the low bits of its
address. That the receiver of the same program looks for them four places further on is another
matter.
-/

set_option autoImplicit false

namespace SdPlane

open Lib

/-! ## The handlers -/

/-- A request: its header, and what follows it in the packet. -/
structure MrTlp where
  mh : TlpMrHdr
  after : Nat → UInt8

/-- `nettlp_psmem_receive`, from the TLP on: the memory, and the completions that are sent. Completions
    that arrive, and all that is unknown, are passed over. -/
def nettlpPsmemReceive (fuel : Nat) (requester : UInt16) (ps : Psmem) (t : MrTlp) :
    Psmem × Option (List Cpl) :=
  if tlpIsMrd t.mh.tlp.fmtType then (ps, nettlpPsmemMrd fuel ps requester t.mh t.after)
  else if tlpIsMwr t.mh.tlp.fmtType then (nettlpPsmemMwr ps t.mh t.after, some [])
  else (ps, some [])

/-- One request after another: the completions of each. -/
def psmemServe (fuel : Nat) (requester : UInt16) : Psmem → List MrTlp → List (Option (List Cpl))
  | _, [] => []
  | ps, t :: ts => (nettlpPsmemReceive fuel requester ps t).2
      :: psmemServe fuel requester (nettlpPsmemReceive fuel requester ps t).1 ts

/-- The bytes that a completion says it carries. -/
def Cpl.carried (c : Cpl) : List UInt8 :=
  (c.data.drop (c.ch.lowaddr.toNat % 4)).take (tlpCpldDataLength c.ch).toNat

/-! ## The memory -/

inductive DmaOp
  | read (addr count : UInt64)
  | write (addr : UInt64) (bytes : List UInt8)
  | other

/-- How many bytes the doublewords have that a range of bytes touches. -/
def dwBytes (addr count : Nat) : Nat := 4 * ((addr % 4 + count + 3) / 4)

/-- The memory after a request. A write that is not within the region is lost as a whole. -/
def DmaOp.apply (lo hi : Nat) (mem : Nat → UInt8) : DmaOp → Nat → UInt8
  | .write addr bytes =>
    if lo ≤ addr.toNat ∧ addr.toNat + bytes.length ≤ hi then fun x =>
      if addr.toNat ≤ x ∧ x < addr.toNat + bytes.length then bytes.getD (x - addr.toNat) 0 else mem x
    else mem
  | .read _ _ | .other => mem

/-- The bytes a request is answered with. -/
def DmaOp.answer (mem : Nat → UInt8) : DmaOp → List UInt8
  | .read addr count => entries (fun i => mem (addr.toNat + i)) count.toNat
  | .write _ _ | .other => []

/-- One request after another: what each is answered with. -/
def dmaAnswers (lo hi : Nat) : (Nat → UInt8) → List DmaOp → List (List UInt8)
  | _, [] => []
  | mem, op :: ops => op.answer mem :: dmaAnswers lo hi (op.apply lo hi mem) ops

/-- A read is within the region, as if it had all bytes of its doublewords behind its first one. -/
def DmaOp.Served (lo hi : Nat) : DmaOp → Prop
  | .read addr count => lo ≤ addr.toNat ∧ addr.toNat + dwBytes addr.toNat count.toNat ≤ hi
  | .write _ _ | .other => True

instance (lo hi : Nat) : ∀ op : DmaOp, Decidable (op.Served lo hi)
  | .read _ _ => inferInstanceAs (Decidable (_ ∧ _))
  | .write _ _ | .other => instDecidableTrue

/-- The header is for a range of bytes, as `tlp_calculate_*` put it, and not for the end of the
    address space. -/
structure ForRange (t : MrTlp) (addr count : UInt64) : Prop where
  built : BuiltRequest t.mh t.after addr count
  nonempty : 0 < count.toNat
  span : (addr.toNat % 4 + count.toNat + 3) / 4 < 1024
  below : addr.toNat + dwBytes addr.toNat count.toNat < 2 ^ 64

/-- What a packet asks for. The payload of a write stands where `tlp_mwr_data` looks for it. -/
inductive Asks (t : MrTlp) : DmaOp → Prop
  | read {addr count : UInt64} (mrd : tlpIsMrd t.mh.tlp.fmtType = true) (range : ForRange t addr count) :
      Asks t (.read addr count)
  | write {addr : UInt64} {bytes : List UInt8} (mrd : tlpIsMrd t.mh.tlp.fmtType = false)
      (mwr : tlpIsMwr t.mh.tlp.fmtType = true) (range : ForRange t addr (UInt64.ofNat bytes.length))
      (length : bytes.length < 4096)
      (payload : entries (fun i => t.after (tlpMwrData t.mh + i)) bytes.length = bytes) :
      Asks t (.write addr bytes)
  | other (mrd : tlpIsMrd t.mh.tlp.fmtType = false) (mwr : tlpIsMwr t.mh.tlp.fmtType = false) :
      Asks t .other

/-- The byte at an address. -/
def Psmem.at (ps : Psmem) (x : Nat) : UInt8 := ps.memory (UInt64.ofNat x - ps.addr)

/-! ## One request -/

section Request

variable {ps : Psmem} {requester : UInt16} {t : MrTlp} {addr count : UInt64}

/-- What the handlers read out of the header. -/
theorem ForRange.outstanding (h : ForRange t addr count) :
    Outstanding (mrdStart t.mh t.after) addr.toNat count.toNat := by
  have hbelow := h.below
  rw [dwBytes] at hbelow
  exact h.built.outstanding h.nonempty h.span (by omega)

theorem ForRange.length (h : ForRange t addr count) :
    4 * tlpLength t.mh.tlp.falen = dwBytes addr.toNat count.toNat := by
  have hlen : ((4 * tlpLength t.mh.tlp.falen : Nat) : Int)
      = ((dwBytes addr.toNat count.toNat : Nat) : Int) := h.outstanding.len
  exact Int.ofNat_inj.mp hlen

/-- The test, where nothing wraps around. -/
theorem not_refuses_iff {lo hi : Nat} (hlo : lo = ps.addr.toNat) (hhi : hi = lo + ps.size.toNat)
    (hregion : hi < 2 ^ 64) {n : Nat} (hbelow : addr.toNat + n < 2 ^ 64) :
    ps.refuses addr n = false ↔ lo ≤ addr.toNat ∧ addr.toNat + n ≤ hi := by
  rw [accepted_iff]
  omega

/-- A stretch of the buffer, by addresses. -/
theorem bytes_drop_take (ps : Psmem) {a n k : Nat} (hcovers : a % 4 + k ≤ n) :
    ((ps.bytes (UInt64.ofNat (a / 4 * 4) - ps.addr) n).drop (a % 4)).take k
      = entries (fun i => ps.at (a + i)) k := by
  apply List.ext_getElem
  · simp [Psmem.bytes]
    omega
  · intro i hi hi'
    have hplace : UInt64.ofNat (a / 4 * 4) - ps.addr + UInt64.ofNat (a % 4 + i)
        = UInt64.ofNat (a + i) - ps.addr := by
      have hsum : UInt64.ofNat (a + i) = UInt64.ofNat (a / 4 * 4) + UInt64.ofNat (a % 4 + i) := by
        rw [← UInt64.ofNat_add]
        congr 1
        omega
      rw [hsum, UInt64.sub_eq_add_neg, UInt64.sub_eq_add_neg, UInt64.add_assoc, UInt64.add_assoc,
        UInt64.add_comm (-ps.addr)]
    rw [getElem_entries, List.getElem_take, List.getElem_drop, Psmem.at, ← hplace]
    simp only [Psmem.bytes, List.getElem_map, List.getElem_range]

/-- Completions that tile a range carry the bytes of it. -/
theorem Tiles.carried {a n : Nat} {cs : List Cpl} (h : Tiles ps a n cs) :
    cs.flatMap Cpl.carried = entries (fun i => ps.at (a + i)) n := by
  have hone : ∀ {a n k : Nat} {c : Cpl}, CplCarries ps a n k c →
      c.carried = entries (fun i => ps.at (a + i)) k := by
    intro a n k c hc
    have hcovers := hc.covers
    rw [Cpl.carried, hc.lowaddr, hc.count, hc.data, hc.source, show a % 128 % 4 = a % 4 by omega,
      Int.toNat_natCast]
    exact bytes_drop_take ps (by omega)
  induction h with
  | last carries => rw [List.flatMap_cons, hone carries, List.flatMap_nil, List.append_nil]
  | @cons a n k c cs carries _ less _ ih =>
    rw [List.flatMap_cons, hone carries, ih]
    apply List.ext_getElem
    · simp
      omega
    · intro i hi hi'
      rw [List.getElem_append]
      split
      · rw [getElem_entries, getElem_entries]
      · next hk =>
        rw [getElem_entries, getElem_entries]
        rw [length_entries] at hk ⊢
        congr 1
        omega

variable {lo hi : Nat}

/-- **A read** is answered with the bytes of its range, if it is served, and not at all if it is
    not. -/
theorem ForRange.mrd (h : ForRange t addr count) (hlo : lo = ps.addr.toNat)
    (hhi : hi = lo + ps.size.toNat) (hregion : hi < 2 ^ 64) {fuel : Nat} (hfuel : 4096 ≤ fuel) :
    ∃ cs, nettlpPsmemMrd fuel ps requester t.mh t.after = some cs
      ∧ cs.flatMap Cpl.carried = if (DmaOp.read addr count).Served lo hi then
          (DmaOp.read addr count).answer ps.at else [] := by
  have haddr : tlpMrAddr t.mh t.after = addr := UInt64.toNat_inj.mp h.outstanding.addr
  have hspan := h.span
  rw [nettlpPsmemMrd, haddr, h.length]
  by_cases hin : (DmaOp.read addr count).Served lo hi
  · obtain ⟨cs, htiles, hrun⟩ := doWhile_tiles ps requester t.mh h.outstanding
    have haccepted := (not_refuses_iff hlo hhi hregion h.below).mpr hin
    refine ⟨cs, ?_, ?_⟩
    · rw [haccepted, if_neg (by simp)]
      exact hrun fuel (by omega)
    · rw [if_pos hin]
      exact htiles.carried
  · have hrefused : ps.refuses addr (dwBytes addr.toNat count.toNat : Nat) = true := by
      rw [← Bool.not_eq_false]
      exact fun haccepted => hin ((not_refuses_iff hlo hhi hregion h.below).mp haccepted)
    refine ⟨[], ?_, ?_⟩
    · rw [if_pos hrefused]
    · rw [if_neg hin, List.flatMap_nil]

/-- The place of `x` in a copy is its distance from the address, wherever the region begins. -/
theorem sub_base_sub (x addr base : UInt64) : x - base - (addr - base) = x - addr := by
  have hx := x.toNat_lt
  have haddr := addr.toNat_lt
  have hbase := base.toNat_lt
  rw [← UInt64.toNat_inj, UInt64.toNat_sub, UInt64.toNat_sub, UInt64.toNat_sub, UInt64.toNat_sub]
  omega

theorem distance_toNat (x : Nat) (addr : UInt64) :
    (UInt64.ofNat x - addr).toNat = (2 ^ 64 - addr.toNat + x) % 2 ^ 64 := by
  rw [UInt64.toNat_sub, UInt64.toNat_ofNat']
  omega

theorem distance_lt_iff {x n : Nat} (hx : x < 2 ^ 64) (hn : addr.toNat + n < 2 ^ 64) :
    UInt64.ofNat x - addr < UInt64.ofInt n ↔ addr.toNat ≤ x ∧ x < addr.toNat + n := by
  have haddr := addr.toNat_lt
  rw [UInt64.lt_iff_toNat_lt, distance_toNat, UInt64.ofInt, UInt64.toNat_ofNat']
  omega

/-- **A write** puts its bytes where they belong, and touches no other address. -/
theorem ForRange.mwr {bytes : List UInt8} (h : ForRange t addr (UInt64.ofNat bytes.length))
    (hlength : bytes.length < 4096)
    (hpayload : entries (fun i => t.after (tlpMwrData t.mh + i)) bytes.length = bytes)
    (hlo : lo = ps.addr.toNat) (hhi : hi = lo + ps.size.toNat) (hregion : hi < 2 ^ 64) {x : Nat}
    (hx : x < 2 ^ 64) :
    (nettlpPsmemMwr ps t.mh t.after).at x = (DmaOp.write addr bytes).apply lo hi ps.at x
      ∧ (nettlpPsmemMwr ps t.mh t.after).addr = ps.addr
      ∧ (nettlpPsmemMwr ps t.mh t.after).size = ps.size := by
  have haddr : tlpMrAddr t.mh t.after = addr := UInt64.toNat_inj.mp h.outstanding.addr
  have hcount : (UInt64.ofNat bytes.length).toNat = bytes.length := by
    rw [UInt64.toNat_ofNat']
    exact Nat.mod_eq_of_lt (by omega)
  have hdata : tlpMrDataLength t.mh = bytes.length := by
    have hlen : tlpMrDataLength t.mh = ((UInt64.ofNat bytes.length).toNat : Int) := h.outstanding.dataLen
    rw [hlen, hcount]
  have hbelow : addr.toNat + bytes.length < 2 ^ 64 := by
    have hdw := h.below
    rw [hcount, dwBytes] at hdw
    omega
  rw [nettlpPsmemMwr, mwrCopy, haddr, hdata, DmaOp.apply]
  by_cases hin : lo ≤ addr.toNat ∧ addr.toNat + bytes.length ≤ hi
  · have haccepted := (not_refuses_iff hlo hhi hregion hbelow).mpr hin
    rw [haccepted, if_neg (by simp), if_pos hin]
    refine ⟨?_, rfl, rfl⟩
    simp only [Psmem.at, sub_base_sub, distance_lt_iff hx hbelow]
    by_cases hrange : addr.toNat ≤ x ∧ x < addr.toNat + bytes.length
    · have hoffset : (UInt64.ofNat x - addr).toNat = x - addr.toNat := by
        rw [distance_toNat]
        omega
      have hget : (entries (fun i => t.after (tlpMwrData t.mh + i)) bytes.length).getD (x - addr.toNat) 0
          = t.after (tlpMwrData t.mh + (x - addr.toNat)) := by
        rw [List.getD_eq_getElem _ _ (by simp; omega), getElem_entries]
      rw [if_pos hrange, if_pos hrange, hoffset, ← hget, hpayload]
    · rw [if_neg hrange, if_neg hrange]
  · have hrefused : ps.refuses addr (bytes.length : Nat) = true := by
      rw [← Bool.not_eq_false]
      exact fun haccepted => hin ((not_refuses_iff hlo hhi hregion hbelow).mp haccepted)
    rw [if_pos hrefused, if_neg hin]
    exact ⟨rfl, rfl, rfl⟩

end Request

/-! ## Any number of requests -/

theorem DmaOp.answer_congr {lo hi : Nat} (hregion : hi < 2 ^ 64) {mem mem' : Nat → UInt8}
    (h : ∀ x < 2 ^ 64, mem x = mem' x) {op : DmaOp} (hserved : op.Served lo hi) :
    op.answer mem = op.answer mem' := by
  cases op with
  | read addr count =>
    refine List.map_congr_left fun i hi => h _ ?_
    have hlt := List.mem_range.mp hi
    have hend := hserved.2
    rw [dwBytes] at hend
    omega
  | write addr bytes => rfl
  | other => rfl

theorem DmaOp.apply_congr {lo hi : Nat} {mem mem' : Nat → UInt8} (h : ∀ x < 2 ^ 64, mem x = mem' x)
    (op : DmaOp) {x : Nat} (hx : x < 2 ^ 64) : op.apply lo hi mem x = op.apply lo hi mem' x := by
  cases op with
  | read addr count => exact h x hx
  | write addr bytes =>
    simp only [DmaOp.apply]
    split
    · dsimp only
      rw [h x hx]
    · exact h x hx
  | other => exact h x hx

/-- **One request**: the answer is the memory's, if it is served, and so is what is left behind. -/
theorem receive_answers {lo hi fuel : Nat} {requester : UInt16} {ps : Psmem} {t : MrTlp} {op : DmaOp}
    (h : Asks t op) (hlo : lo = ps.addr.toNat) (hhi : hi = lo + ps.size.toNat) (hregion : hi < 2 ^ 64)
    (hfuel : 4096 ≤ fuel) {r : Psmem × Option (List Cpl)}
    (hr : nettlpPsmemReceive fuel requester ps t = r) :
    (∃ cs, r.2 = some cs
        ∧ cs.flatMap Cpl.carried = if op.Served lo hi then op.answer ps.at else [])
      ∧ (∀ x < 2 ^ 64, r.1.at x = op.apply lo hi ps.at x)
      ∧ r.1.addr = ps.addr ∧ r.1.size = ps.size := by
  subst hr
  cases h with
  | read mrd range =>
    rw [nettlpPsmemReceive, if_pos mrd]
    exact ⟨range.mrd hlo hhi hregion hfuel, fun _ _ => rfl, rfl, rfl⟩
  | write mrd mwr range length payload =>
    have hwrite : ∀ {x : Nat}, x < 2 ^ 64 → _ := range.mwr length payload hlo hhi hregion
    rw [nettlpPsmemReceive, if_neg (by simp [mrd]), if_pos mwr]
    exact ⟨⟨[], rfl, (if_pos trivial).symm⟩, fun x hx => (hwrite hx).1,
      (hwrite (by decide : 0 < 2 ^ 64)).2⟩
  | other mrd mwr =>
    rw [nettlpPsmemReceive, if_neg (by simp [mrd]), if_neg (by simp [mwr])]
    exact ⟨⟨[], rfl, (if_pos trivial).symm⟩, fun _ _ => rfl, rfl, rfl⟩

/-- A read that is not served misses at least one byte. -/
theorem Asks.answer_ne_nil {lo hi : Nat} {t : MrTlp} {op : DmaOp} (h : Asks t op)
    (hserved : ¬ op.Served lo hi) (mem : Nat → UInt8) : op.answer mem ≠ [] := by
  cases h with
  | read _ range =>
    rw [← List.length_pos_iff_ne_nil, DmaOp.answer, length_entries]
    exact range.nonempty
  | write => exact absurd trivial hserved
  | other => exact absurd trivial hserved

/-- What is sent for any requests, against any memory with the same bytes. -/
theorem psmemServe_answers {lo hi fuel : Nat} {requester : UInt16} (hregion : hi < 2 ^ 64)
    (hfuel : 4096 ≤ fuel) {ts : List MrTlp} {ops : List DmaOp} (h : List.Forall₂ Asks ts ops)
    {ps : Psmem} {mem : Nat → UInt8} (hlo : lo = ps.addr.toNat) (hhi : hi = lo + ps.size.toNat)
    (hmem : ∀ x < 2 ^ 64, ps.at x = mem x) :
    (psmemServe fuel requester ps ts).map (Option.map fun cs => cs.flatMap Cpl.carried)
        = (dmaAnswers lo hi mem ops).map some
      ↔ ∀ op ∈ ops, op.Served lo hi := by
  induction h generalizing ps mem with
  | nil => exact iff_of_true rfl fun _ hop => absurd hop List.not_mem_nil
  | @cons t op ts ops hask _ ih =>
    obtain ⟨⟨cs, hcs, hcarried⟩, hafter, haddr, hsize⟩ :=
      receive_answers hask hlo hhi hregion hfuel (Eq.refl (nettlpPsmemReceive fuel requester ps t))
    have hnext := @ih (nettlpPsmemReceive fuel requester ps t).1 (op.apply lo hi mem)
      (by rw [haddr, hlo]) (by rw [hsize, hhi]) fun x hx =>
        (hafter x hx).trans (op.apply_congr hmem hx)
    have hfirst : cs.flatMap Cpl.carried = op.answer mem ↔ op.Served lo hi := by
      rw [hcarried]
      by_cases hserved : op.Served lo hi
      · rw [if_pos hserved, DmaOp.answer_congr hregion hmem hserved]
        exact iff_of_true rfl hserved
      · rw [if_neg hserved]
        exact iff_of_false (hask.answer_ne_nil hserved mem).symm hserved
    rw [psmemServe, dmaAnswers, List.map_cons, List.map_cons, List.cons.injEq, hnext, hcs,
      Option.map_some, Option.some.injEq, hfirst, List.forall_mem_cons]

/-- **The pseudo memory is a memory.** Whatever requests arrive in whatever order, each read gets the
    bytes that were written last at its addresses, or those of the beginning, exactly as long as
    every read is served. -/
theorem psmem_is_memory_iff (ps : Psmem) (requester : UInt16) {ts : List MrTlp} {ops : List DmaOp}
    (h : List.Forall₂ Asks ts ops) (hregion : ps.addr.toNat + ps.size.toNat < 2 ^ 64) {fuel : Nat}
    (hfuel : 4096 ≤ fuel) :
    (psmemServe fuel requester ps ts).map (Option.map fun cs => cs.flatMap Cpl.carried)
        = (dmaAnswers ps.addr.toNat (ps.addr.toNat + ps.size.toNat) ps.at ops).map some
      ↔ ∀ op ∈ ops, op.Served ps.addr.toNat (ps.addr.toNat + ps.size.toNat) :=
  psmemServe_answers hregion hfuel h rfl rfl fun _ _ => rfl

/-- Three bytes for the address `0x1001`. -/
def threeBytes : MrTlp :=
  ⟨⟨⟨TLP_FMT_W_DATA, 0, 1⟩, 0x0100, 7, 0xE, 0⟩, overlay (beBytes 4 0x1000 ++ [0, 1, 2, 3]) fun _ => 0⟩

/-- The same bytes are read. -/
def threeBytesRead : MrTlp := ⟨⟨⟨0, 0, 1⟩, 0x0100, 8, 0xE, 0⟩, someAddress⟩

theorem psmem_is_memory_iff_three :
    (psmemServe 4096 0x0200 somePsmem [threeBytes, threeBytesRead]).map
        (Option.map fun cs => cs.flatMap Cpl.carried) = [some [], some [1, 2, 3]] := by
  have hrange : ∀ t ∈ [threeBytes, threeBytesRead], ForRange t 0x1001 3 := by
    intro t ht
    rcases List.mem_cons.mp ht with rfl | ht
    · exact ⟨⟨by decide +kernel, by decide +kernel, ⟨0, by decide +kernel⟩, by decide +kernel⟩,
        by decide, by decide, by decide⟩
    · obtain rfl := List.mem_singleton.mp ht
      exact ⟨⟨by decide +kernel, by decide +kernel, ⟨0, by decide +kernel⟩, by decide +kernel⟩,
        by decide, by decide, by decide⟩
  have hasks : List.Forall₂ Asks [threeBytes, threeBytesRead]
      [.write 0x1001 [1, 2, 3], .read 0x1001 3] :=
    .cons (.write (by decide) (by decide) (hrange _ (by simp)) (by decide) (by decide +kernel))
      (.cons (.read (by decide) (hrange _ (by simp))) .nil)
  refine ((psmem_is_memory_iff somePsmem 0x0200 hasks (by decide) (le_refl _)).mpr ?_).trans ?_
  · decide +kernel
  · decide +kernel

end SdPlane
