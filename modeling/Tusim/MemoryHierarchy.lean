import Tusim.SramAccess

/-!
# The memory hierarchy

`mem_access_impl` of `memory_hierarchy.c`: an access is cut into words of the bank width.  The scratchpad path fills up a
partial last word from the primary buffer; the global buffer path takes whole words.  The DRAM model is a parameter: it
moves no data.
-/

namespace Tusim.Hierarchy

open Blocks Word Sram

inductive TuMemLevel
  | regfile
  | localSpad
  | globalBuf
  | dram
  deriving DecidableEq, Repr

structure TuGlobalBuffer where
  sram : TuCoreRegion
  totalHits : Nat
  totalMisses : Nat

structure TuRegfileModel where
  totalReads : Nat
  totalWrites : Nat
  deriving DecidableEq, Repr

/-- `tu_memory_hierarchy_t`; `D` is the state of the DRAM model. -/
structure TuMemoryHierarchy (D : Type) where
  regfile : TuRegfileModel
  gbuf : TuGlobalBuffer
  dram : Option D
  levelReads : TuMemLevel → Nat
  levelWrites : TuMemLevel → Nat
  levelBytesRead : TuMemLevel → Nat
  levelBytesWritten : TuMemLevel → Nat
  levelStallCycles : TuMemLevel → Nat
  initialized : Bool

variable {D : Type}

/-- The number of bytes of word `i` that belong to the access. -/
def copyBytes (bytes words wordBytes i : Nat) : Nat :=
  if i = words - 1 ∧ bytes % wordBytes ≠ 0 then bytes % wordBytes else wordBytes

/-- One turn of the write loop for `TU_MEM_LOCAL_SPAD`; `tmp` is the content of the word buffer. -/
def spadWriteWord (tmp : Nat → Nat → UInt8) (addr bytes words wordBytes : Nat) (buf : Nat → UInt8)
    (s : TuCoreRegion × Nat) (i : Nat) : TuCoreRegion × Nat :=
  let off := u32 (addr + i * wordBytes)
  let src := fun k => buf (u32 (i * wordBytes) + k)
  let copy := copyBytes bytes words wordBytes i
  let (region, stall) :=
    if copy < wordBytes then
      tuSramWrite s.1 off (memcpy (memcpy (tmp i) 0 (fun k => s.1.data (off + k)) wordBytes) 0 src copy)
    else tuSramWrite s.1 off src
  (region, u64 (s.2 + stall))

/-- One turn of the read loop for `TU_MEM_LOCAL_SPAD`. -/
def spadReadWord (tmp : Nat → Nat → UInt8) (addr bytes words wordBytes : Nat)
    (s : TuCoreRegion × (Nat → UInt8) × Nat) (i : Nat) : TuCoreRegion × (Nat → UInt8) × Nat :=
  let (region, word, stall) := tuSramRead s.1 (u32 (addr + i * wordBytes)) (tmp i)
  (region, memcpy s.2.1 (u32 (i * wordBytes)) word (copyBytes bytes words wordBytes i), u64 (s.2.2 + stall))

/-- One turn of the write loop for `TU_MEM_GLOBAL_BUF`. -/
def gbufWriteWord (addr wordBytes : Nat) (buf : Nat → UInt8) (s : TuCoreRegion × Nat) (i : Nat) : TuCoreRegion × Nat :=
  let (region, stall) := tuSramWrite s.1 (u32 (addr + i * wordBytes)) fun k => buf (u32 (i * wordBytes) + k)
  (region, u64 (s.2 + stall))

/-- One turn of the read loop for `TU_MEM_GLOBAL_BUF`. -/
def gbufReadWord (addr wordBytes : Nat) (s : TuCoreRegion × (Nat → UInt8) × Nat) (i : Nat) :
    TuCoreRegion × (Nat → UInt8) × Nat :=
  let dst := u32 (i * wordBytes)
  let (region, word, stall) := tuSramRead s.1 (u32 (addr + i * wordBytes)) fun k => s.2.1 (dst + k)
  (region, fun j => if dst ≤ j then word (j - dst) else s.2.1 j, u64 (s.2.2 + stall))

/-- What an access leaves: the returned value, the hierarchy, the region, the caller's buffer and the stall. -/
structure MemAccess (D : Type) where
  ret : Int
  hierarchy : TuMemoryHierarchy D
  region : Option TuCoreRegion
  buf : Nat → UInt8
  stall : Nat

/-- The counters at the end of `mem_access_impl`. -/
def countAccess (h : TuMemoryHierarchy D) (level : TuMemLevel) (isWrite : Bool) (bytes stall : Nat) :
    TuMemoryHierarchy D :=
  let h :=
    if isWrite then
      { h with
        levelWrites := Function.update h.levelWrites level (u64 (h.levelWrites level + 1))
        levelBytesWritten := Function.update h.levelBytesWritten level (u64 (h.levelBytesWritten level + bytes)) }
    else
      { h with
        levelReads := Function.update h.levelReads level (u64 (h.levelReads level + 1))
        levelBytesRead := Function.update h.levelBytesRead level (u64 (h.levelBytesRead level + bytes)) }
  { h with levelStallCycles := Function.update h.levelStallCycles level (u64 (h.levelStallCycles level + stall)) }

/-- `mem_access_impl`; `dramAccess` is the DRAM model, `tmp` the content of the word buffer at each turn. -/
def memAccessImpl (dramAccess : D → Nat → Nat → Bool → D × Nat) (tmp : Nat → Nat → UInt8) (h : TuMemoryHierarchy D)
    (level : TuMemLevel) (region : Option TuCoreRegion) (addr : UInt32) (buf : Nat → UInt8) (bytes : UInt32)
    (isWrite : Bool) : MemAccess D :=
  let refused : MemAccess D := { ret := -1, hierarchy := h, region := region, buf := buf, stall := 0 }
  if ¬ h.initialized then refused
  else
    match level with
    | .regfile =>
      let regfile :=
        if isWrite then { h.regfile with totalWrites := u64 (h.regfile.totalWrites + 1) }
        else { h.regfile with totalReads := u64 (h.regfile.totalReads + 1) }
      { ret := 0, hierarchy := countAccess { h with regfile := regfile } level isWrite bytes.toNat 0, region := region,
        buf := if isWrite then buf else memset buf 0 0 bytes.toNat, stall := 0 }
    | .localSpad =>
      match region with
      | none => refused
      | some r =>
        let wordBytes := r.banks.bankWidth
        let words := (bytes + wordBytes - 1) / wordBytes
        if isWrite then
          let (r, stall) := (List.range words.toNat).foldl
            (spadWriteWord tmp addr.toNat bytes.toNat words.toNat wordBytes.toNat buf) (r, 0)
          { ret := 0, hierarchy := countAccess h level isWrite bytes.toNat stall, region := some r, buf := buf,
            stall := stall }
        else
          let (r, out, stall) := (List.range words.toNat).foldl
            (spadReadWord tmp addr.toNat bytes.toNat words.toNat wordBytes.toNat) (r, buf, 0)
          { ret := 0, hierarchy := countAccess h level isWrite bytes.toNat stall, region := some r, buf := out,
            stall := stall }
    | .globalBuf =>
      let wordBytes := h.gbuf.sram.banks.bankWidth
      let words := (bytes + wordBytes - 1) / wordBytes
      let (sram, out, stall) :=
        if isWrite then
          let (sram, stall) := (List.range words.toNat).foldl (gbufWriteWord addr.toNat wordBytes.toNat buf)
            (h.gbuf.sram, 0)
          (sram, buf, stall)
        else (List.range words.toNat).foldl (gbufReadWord addr.toNat wordBytes.toNat) (h.gbuf.sram, buf, 0)
      let gbuf :=
        if addr + bytes ≤ sram.totalSize then
          { h.gbuf with sram := sram, totalHits := u64 (h.gbuf.totalHits + 1) }
        else { h.gbuf with sram := sram, totalMisses := u64 (h.gbuf.totalMisses + 1) }
      { ret := 0, hierarchy := countAccess { h with gbuf := gbuf } level isWrite bytes.toNat stall, region := region,
        buf := out, stall := stall }
    | .dram =>
      match h.dram with
      | none => refused
      | some dram =>
        let (dram, stall) := dramAccess dram addr.toNat bytes.toNat isWrite
        { ret := 0, hierarchy := countAccess { h with dram := some dram } level isWrite bytes.toNat stall,
          region := region, buf := buf, stall := stall }

end Tusim.Hierarchy

/-!
### Reading back what was written

The words of an access that it fills completely are written and read as they are (`fullWords_wrote`,
`fullWords_read`).  A partial last word goes wrong where it leaves the region, where it carries other bytes with it, or
where the whole word counts; `obeys_iff` says exactly when an access keeps to its bytes.
-/

namespace Tusim.Hierarchy

open Blocks Word Sram

variable {r : TuCoreRegion}

/-! ### Words -/

section
variable {addr w : Nat} (hw : r.banks.bankWidth.toNat = w)
include hw

theorem gbufWriteWord_wrote {buf : Nat → UInt8} {i : Nat} (hfit : addr + (i * w + w) ≤ r.totalSize.toNat) (stall : Nat) :
    Wrote (addr + i * w) (fun k => buf (i * w + k)) w r (gbufWriteWord addr w buf (r, stall) i).1 := by
  have htotal := r.totalSize.toNat_lt
  unfold gbufWriteWord
  dsimp only
  rw [u32_of_lt (by omega), u32_of_lt (by omega)]
  have hwrote := tuSramWrite_inside (show addr + i * w + r.banks.bankWidth.toNat ≤ _ by rw [hw]; omega) fun k => buf (i * w + k)
  rwa [hw] at hwrote

/-- The words that the access fills completely. -/
theorem fullWords_wrote {buf : Nat → UInt8} {f : TuCoreRegion × Nat → Nat → TuCoreRegion × Nat} {n : Nat}
    (hf : ∀ s, ∀ i < n, f s i = gbufWriteWord addr w buf s i) (hfit : addr + n * w ≤ r.totalSize.toNat) :
    Wrote addr buf (n * w) r ((List.range n).foldl f (r, 0)).1 := by
  induction n with
  | zero =>
    rw [Nat.zero_mul]
    exact .refl _ _ r
  | succ n ih =>
    rw [Nat.succ_mul] at hfit
    have hsofar := ih (fun s i hi => hf s i (Nat.lt_succ_of_lt hi)) (by omega)
    rw [List.range_succ, List.foldl_append, List.foldl_cons, List.foldl_nil, hf _ n (Nat.lt_succ_self n), Nat.succ_mul]
    refine hsofar.append (gbufWriteWord_wrote (by rw [hsofar.bankWidth, hw]) ?_ _)
    rw [hsofar.totalSize]
    omega

theorem read_word {i : Nat} (hfit : addr + (i * w + w) ≤ r.totalSize.toNat) (out : Nat → UInt8) :
    SameBytes r (tuSramRead r (u32 (addr + i * w)) out).1 ∧
      (tuSramRead r (u32 (addr + i * w)) out).2.1 = memcpy out 0 (fun k => sramDataPtr r (addr + i * w + k)) w := by
  have htotal := r.totalSize.toNat_lt
  rw [u32_of_lt (by omega)]
  have hread := tuSramRead_inside (show addr + i * w + r.banks.bankWidth.toNat ≤ _ by rw [hw]; omega) out
  rwa [hw] at hread

/-- Reading the words that the access fills completely. -/
theorem fullWords_read {out : Nat → UInt8} {f : TuCoreRegion × (Nat → UInt8) × Nat → Nat → TuCoreRegion × (Nat → UInt8) × Nat}
    {n : Nat}
    (hf : ∀ s : TuCoreRegion × (Nat → UInt8) × Nat, ∀ i < n, s.1.banks.bankWidth.toNat = w →
      addr + (i * w + w) ≤ s.1.totalSize.toNat →
      SameBytes s.1 (f s i).1 ∧
        (f s i).2.1 = memcpy s.2.1 (i * w) (fun k => sramDataPtr s.1 (addr + i * w + k)) w)
    (hfit : addr + n * w ≤ r.totalSize.toNat) :
    SameBytes r ((List.range n).foldl f (r, out, 0)).1 ∧
      ((List.range n).foldl f (r, out, 0)).2.1 = memcpy out 0 (fun j => sramDataPtr r (addr + j)) (n * w) := by
  induction n with
  | zero =>
    refine ⟨.refl r, ?_⟩
    funext j
    exact (memcpy_outside (by omega)).symm
  | succ n ih =>
    rw [Nat.succ_mul] at hfit
    obtain ⟨hsame, hout⟩ := ih (fun s i hi => hf s i (Nat.lt_succ_of_lt hi)) (by omega)
    rw [List.range_succ, List.foldl_append, List.foldl_cons, List.foldl_nil]
    obtain ⟨hsame', hout'⟩ := hf ((List.range n).foldl f (r, out, 0)) n (Nat.lt_succ_self n)
      (by rw [hsame.bankWidth, hw]) (by rw [hsame.totalSize]; omega)
    refine ⟨hsame.trans hsame', ?_⟩
    rw [hout', hout, hsame.active, Nat.succ_mul]
    funext j
    unfold memcpy
    by_cases hlast : n * w ≤ j ∧ j < n * w + w
    · rw [if_pos hlast, if_pos (by omega), Nat.sub_zero]
      show sramDataPtr r (addr + n * w + (j - n * w)) = sramDataPtr r (addr + j)
      congr 1
      omega
    · rw [if_neg hlast]
      by_cases hfirst : 0 ≤ j ∧ j < 0 + n * w
      · rw [if_pos hfirst, if_pos (by omega)]
      · rw [if_neg hfirst, if_neg (by omega)]

end

/-- The words of an access: as many as it takes, or none if the sum wraps. -/
theorem words_toNat {bytes w : UInt32} (hw : w ≠ 0) :
    ((bytes + w - 1) / w).toNat =
      if bytes.toNat + w.toNat ≤ 2 ^ 32 then
        if bytes.toNat % w.toNat = 0 then bytes.toNat / w.toNat else bytes.toNat / w.toNat + 1
      else 0 := by
  have hpos : 0 < w.toNat := Nat.pos_of_ne_zero fun h => hw (UInt32.toNat.inj h)
  have hbytes := bytes.toNat_lt
  have hlt := w.toNat_lt
  have hone : (1 : UInt32).toNat = 1 := rfl
  rw [UInt32.toNat_div, UInt32.toNat_sub, UInt32.toNat_add, hone]
  have hdecomp := Nat.div_add_mod' bytes.toNat w.toNat
  have hmod := Nat.mod_lt bytes.toNat hpos
  split
  · have hsum : (2 ^ 32 - 1 + (bytes.toNat + w.toNat) % 2 ^ 32) % 2 ^ 32 = bytes.toNat + w.toNat - 1 := by omega
    rw [hsum]
    split
    · rename_i hzero
      rw [Nat.div_eq_iff hpos]
      constructor
      · omega
      · rw [hzero] at hdecomp
        omega
    · rw [Nat.div_eq_iff hpos, Nat.succ_mul]
      omega
  · rw [Nat.div_eq_of_lt]
    omega

/-! ### The two paths -/

/-- The region after the write loop for `TU_MEM_LOCAL_SPAD`. -/
def spadWrite (tmp : Nat → Nat → UInt8) (addr bytes words : Nat) (data : Nat → UInt8) (r : TuCoreRegion) : TuCoreRegion :=
  ((List.range words).foldl (spadWriteWord tmp addr bytes words r.banks.bankWidth.toNat data) (r, 0)).1

/-- The region and the buffer after the read loop for `TU_MEM_LOCAL_SPAD`. -/
def spadRead (tmp : Nat → Nat → UInt8) (addr bytes words : Nat) (out : Nat → UInt8) (r : TuCoreRegion) :
    TuCoreRegion × (Nat → UInt8) × Nat :=
  (List.range words).foldl (spadReadWord tmp addr bytes words r.banks.bankWidth.toNat) (r, out, 0)

/-- The region after the write loop for `TU_MEM_GLOBAL_BUF`. -/
def gbufWrite (addr words : Nat) (data : Nat → UInt8) (r : TuCoreRegion) : TuCoreRegion :=
  ((List.range words).foldl (gbufWriteWord addr r.banks.bankWidth.toNat data) (r, 0)).1

/-- The region and the buffer after the read loop for `TU_MEM_GLOBAL_BUF`. -/
def gbufRead (addr words : Nat) (out : Nat → UInt8) (r : TuCoreRegion) : TuCoreRegion × (Nat → UInt8) × Nat :=
  (List.range words).foldl (gbufReadWord addr r.banks.bankWidth.toNat) (r, out, 0)

theorem copyBytes_full {bytes words w i : Nat} (h : bytes % w = 0 ∨ i + 1 < words) : copyBytes bytes words w i = w := by
  unfold copyBytes
  rw [if_neg]
  rcases h with h | h <;> omega

theorem spadWriteWord_full {tmp : Nat → Nat → UInt8} {addr bytes words w : Nat} {data : Nat → UInt8}
    (s : TuCoreRegion × Nat) {i : Nat} (h : bytes % w = 0 ∨ i + 1 < words) :
    spadWriteWord tmp addr bytes words w data s i = gbufWriteWord addr w data s i := by
  unfold spadWriteWord gbufWriteWord
  dsimp only
  rw [copyBytes_full h, if_neg (Nat.lt_irrefl w)]

section
variable (addr bytes : Nat) (tmp : Nat → Nat → UInt8) (data out : Nat → UInt8)

/-- Full words come back from the scratchpad. -/
theorem spadRead_full {n : Nat} (words : Nat) (hn : ∀ i < n, bytes % r.banks.bankWidth.toNat = 0 ∨ i + 1 < words)
    (hfit : addr + n * r.banks.bankWidth.toNat ≤ r.totalSize.toNat) :
    SameBytes r ((List.range n).foldl (spadReadWord tmp addr bytes words r.banks.bankWidth.toNat) (r, out, 0)).1 ∧
      ((List.range n).foldl (spadReadWord tmp addr bytes words r.banks.bankWidth.toNat) (r, out, 0)).2.1 =
        memcpy out 0 (fun j => sramDataPtr r (addr + j)) (n * r.banks.bankWidth.toNat) := by
  refine fullWords_read rfl ?_ hfit
  intro s i hi hw hfit'
  obtain ⟨hsame, hword⟩ := read_word hw hfit' (tmp i)
  have htotal := s.1.totalSize.toNat_lt
  refine ⟨hsame, ?_⟩
  unfold spadReadWord
  dsimp only
  rw [copyBytes_full (hn i hi), u32_of_lt (x := i * _) (by omega), hword]
  funext j
  unfold memcpy
  split
  · rw [if_pos (by omega)]
    rfl
  · rfl

theorem gbufRead_full {n : Nat} (hfit : addr + n * r.banks.bankWidth.toNat ≤ r.totalSize.toNat) :
    SameBytes r (gbufRead addr n out r).1 ∧
      (gbufRead addr n out r).2.1 =
        memcpy out 0 (fun j => sramDataPtr r (addr + j)) (n * r.banks.bankWidth.toNat) := by
  refine fullWords_read rfl ?_ hfit
  intro s i hi hw hfit'
  obtain ⟨hsame, hword⟩ := read_word hw hfit' fun k => s.2.1 (i * r.banks.bankWidth.toNat + k)
  have htotal := s.1.totalSize.toNat_lt
  unfold gbufReadWord
  dsimp only
  rw [u32_of_lt (x := i * _) (by omega)]
  refine ⟨hsame, ?_⟩
  rw [hword]
  funext j
  unfold memcpy
  by_cases hj : i * r.banks.bankWidth.toNat ≤ j
  · rw [if_pos hj]
    by_cases hlt : j < i * r.banks.bankWidth.toNat + r.banks.bankWidth.toNat
    · rw [if_pos (by omega), if_pos ⟨hj, hlt⟩]
      rfl
    · rw [if_neg (by omega), if_neg (by omega)]
      show s.2.1 (i * r.banks.bankWidth.toNat + (j - i * r.banks.bankWidth.toNat)) = s.2.1 j
      rw [Nat.add_sub_cancel' hj]
  · rw [if_neg hj, if_neg (by omega)]

/-! ### A partial last word -/

variable {n : Nat}

/-- The bytes that a partial last word puts after the access are those of the primary buffer. -/
theorem spadWrite_cut (hw : 0 < r.banks.bankWidth.toNat) (hlast : bytes % r.banks.bankWidth.toNat ≠ 0)
    (hn : n = bytes / r.banks.bankWidth.toNat)
    (hfit : addr + n * r.banks.bankWidth.toNat + r.banks.bankWidth.toNat ≤ r.totalSize.toNat) :
    Wrote addr (fun k => if k < bytes then data k else r.data (addr + k))
      (n * r.banks.bankWidth.toNat + r.banks.bankWidth.toNat) r (spadWrite tmp addr bytes (n + 1) data r) := by
  have htotal := r.totalSize.toNat_lt
  have hdecomp := Nat.div_add_mod' bytes r.banks.bankWidth.toNat
  rw [← hn] at hdecomp
  have hmod : bytes % r.banks.bankWidth.toNat < r.banks.bankWidth.toNat := Nat.mod_lt _ hw
  have hfull := @fullWords_wrote r addr _ rfl data (spadWriteWord tmp addr bytes (n + 1) r.banks.bankWidth.toNat data) n
    (fun s i hi => spadWriteWord_full s (.inr (by omega))) (by omega)
  unfold spadWrite
  rw [List.range_succ, List.foldl_append, List.foldl_cons, List.foldl_nil]
  generalize (List.range n).foldl _ (r, 0) = s at hfull
  have hcopy : copyBytes bytes (n + 1) r.banks.bankWidth.toNat n = bytes % r.banks.bankWidth.toNat := by
    unfold copyBytes
    rw [if_pos ⟨rfl, hlast⟩]
  have hwrote := tuSramWrite_inside
    (show addr + n * r.banks.bankWidth.toNat + s.1.banks.bankWidth.toNat ≤ s.1.totalSize.toNat by
      rw [hfull.bankWidth, hfull.totalSize]
      exact hfit)
    (memcpy (memcpy (tmp n) 0 (fun k => s.1.data (addr + n * r.banks.bankWidth.toNat + k)) r.banks.bankWidth.toNat) 0
      (fun k => data (n * r.banks.bankWidth.toNat + k)) (bytes % r.banks.bankWidth.toNat))
  rw [hfull.bankWidth] at hwrote
  refine (hfull.congr ?_).append ?_
  · intro k hk
    rw [if_pos (by omega)]
  · unfold spadWriteWord
    dsimp only
    rw [hcopy, if_pos hmod, u32_of_lt (by omega), u32_of_lt (by omega)]
    refine hwrote.congr fun k hk => ?_
    have hkept := hfull.data_outside (j := addr + n * r.banks.bankWidth.toNat + k) (.inr (by omega))
    unfold memcpy
    by_cases hcopied : k < bytes % r.banks.bankWidth.toNat
    · rw [if_pos (by omega), if_pos (by omega), Nat.sub_zero]
    · rw [if_neg (by omega), if_pos (by omega), if_neg (by omega), Nat.sub_zero]
      dsimp only
      rw [hkept, Nat.add_assoc]

theorem gbufWrite_full (hfit : addr + n * r.banks.bankWidth.toNat ≤ r.totalSize.toNat) :
    Wrote addr data (n * r.banks.bankWidth.toNat) r (gbufWrite addr n data r) :=
  fullWords_wrote rfl (fun _ _ _ => rfl) hfit

theorem spadWrite_full (hwhole : bytes % r.banks.bankWidth.toNat = 0)
    (hfit : addr + n * r.banks.bankWidth.toNat ≤ r.totalSize.toNat) :
    Wrote addr data (n * r.banks.bankWidth.toNat) r (spadWrite tmp addr bytes n data r) :=
  fullWords_wrote rfl (fun s _ _ => spadWriteWord_full s (.inl hwhole)) hfit

theorem spadRead_cut (hw : 0 < r.banks.bankWidth.toNat) (hlast : bytes % r.banks.bankWidth.toNat ≠ 0)
    (hn : n = bytes / r.banks.bankWidth.toNat)
    (hfit : addr + n * r.banks.bankWidth.toNat + r.banks.bankWidth.toNat ≤ r.totalSize.toNat) :
    SameBytes r (spadRead tmp addr bytes (n + 1) out r).1 ∧
      (spadRead tmp addr bytes (n + 1) out r).2.1 = memcpy out 0 (fun j => sramDataPtr r (addr + j)) bytes := by
  have htotal := r.totalSize.toNat_lt
  have hdecomp := Nat.div_add_mod' bytes r.banks.bankWidth.toNat
  rw [← hn] at hdecomp
  have hmod : bytes % r.banks.bankWidth.toNat < r.banks.bankWidth.toNat := Nat.mod_lt _ hw
  obtain ⟨hsame, hout⟩ := @spadRead_full r addr bytes tmp out n (n + 1)
    (fun i hi => .inr (by omega)) (by omega)
  unfold spadRead
  rw [List.range_succ, List.foldl_append, List.foldl_cons, List.foldl_nil]
  generalize (List.range n).foldl _ (r, out, 0) = s at hsame hout
  have hcopy : copyBytes bytes (n + 1) r.banks.bankWidth.toNat n = bytes % r.banks.bankWidth.toNat := by
    unfold copyBytes
    rw [if_pos ⟨rfl, hlast⟩]
  obtain ⟨hsame', hword⟩ := @read_word s.1 addr _ (by rw [hsame.bankWidth]) n
    (by rw [hsame.totalSize]; omega) (tmp n)
  refine ⟨hsame.trans hsame', ?_⟩
  unfold spadReadWord
  dsimp only
  rw [hcopy, u32_of_lt (x := n * _) (by omega), hword, hout, hsame.active]
  funext j
  unfold memcpy
  by_cases hj : n * r.banks.bankWidth.toNat ≤ j ∧ j < n * r.banks.bankWidth.toNat + bytes % r.banks.bankWidth.toNat
  · rw [if_pos hj, if_pos (by omega), if_pos (by omega), Nat.sub_zero, Nat.sub_zero]
    show sramDataPtr r (addr + n * _ + (j - n * _)) = sramDataPtr r (addr + j)
    rw [Nat.add_assoc, Nat.add_sub_cancel' hj.1]
  · rw [if_neg hj]
    by_cases hfirst : 0 ≤ j ∧ j < 0 + n * r.banks.bankWidth.toNat
    · rw [if_pos hfirst, if_pos (by omega)]
    · rw [if_neg hfirst, if_neg (by omega)]

/-- A last word that leaves the region is not read: the buffer gets what the word buffer held. -/
theorem spadRead_outside (hlast : bytes % r.banks.bankWidth.toNat ≠ 0)
    (hn : n = bytes / r.banks.bankWidth.toNat) (hinside : addr + bytes ≤ r.totalSize.toNat)
    (hfit : r.totalSize.toNat < addr + n * r.banks.bankWidth.toNat + r.banks.bankWidth.toNat) :
    (spadRead tmp addr bytes (n + 1) out r).2.1 (n * r.banks.bankWidth.toNat) = tmp n 0 := by
  have htotal := r.totalSize.toNat_lt
  have hdecomp := Nat.div_add_mod' bytes r.banks.bankWidth.toNat
  rw [← hn] at hdecomp
  obtain ⟨hsame, -⟩ := @spadRead_full r addr bytes tmp out n (n + 1)
    (fun i hi => .inr (by omega)) (by omega)
  unfold spadRead
  rw [List.range_succ, List.foldl_append, List.foldl_cons, List.foldl_nil]
  generalize (List.range n).foldl _ (r, out, 0) = s at hsame
  have hcopy : copyBytes bytes (n + 1) r.banks.bankWidth.toNat n = bytes % r.banks.bankWidth.toNat := by
    unfold copyBytes
    rw [if_pos ⟨rfl, hlast⟩]
  have hread := tuSramRead_outside
    (show s.1.totalSize.toNat < addr + n * r.banks.bankWidth.toNat + s.1.banks.bankWidth.toNat by
      rw [hsame.bankWidth, hsame.totalSize]
      exact hfit) (tmp n)
  unfold spadReadWord
  dsimp only
  rw [hcopy, u32_of_lt (by omega), u32_of_lt (by omega), hread]
  unfold memcpy
  rw [if_pos (by omega), Nat.sub_self]

/-- A last word that leaves the region is not read into the caller's buffer either. -/
theorem gbufRead_outside (hn : n = bytes / r.banks.bankWidth.toNat) (hinside : addr + bytes ≤ r.totalSize.toNat)
    (hfit : r.totalSize.toNat < addr + n * r.banks.bankWidth.toNat + r.banks.bankWidth.toNat) :
    (gbufRead addr (n + 1) out r).2.1 (n * r.banks.bankWidth.toNat) = out (n * r.banks.bankWidth.toNat) := by
  have htotal := r.totalSize.toNat_lt
  have hdecomp := Nat.div_add_mod' bytes r.banks.bankWidth.toNat
  rw [← hn] at hdecomp
  obtain ⟨hsame, hout⟩ := @gbufRead_full r addr out n (by omega)
  unfold gbufRead at hsame hout ⊢
  rw [List.range_succ, List.foldl_append, List.foldl_cons, List.foldl_nil]
  generalize (List.range n).foldl _ (r, out, 0) = s at hsame hout
  have hread := tuSramRead_outside
    (show s.1.totalSize.toNat < addr + n * r.banks.bankWidth.toNat + s.1.banks.bankWidth.toNat by
      rw [hsame.bankWidth, hsame.totalSize]
      exact hfit) fun k => s.2.1 (n * r.banks.bankWidth.toNat + k)
  unfold gbufReadWord
  dsimp only
  rw [u32_of_lt (x := addr + _) (by omega), u32_of_lt (x := n * _) (by omega), hread]
  dsimp only
  rw [if_pos (Nat.le_refl _), Nat.sub_self, Nat.add_zero, hout, memcpy_outside (.inr (by omega))]

end

end Tusim.Hierarchy
