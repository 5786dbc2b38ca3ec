import Tusim.MemoryHierarchy

/-!
# When an access keeps to its bytes

A hierarchy write followed by a read of the same range gives the bytes back and changes no other byte exactly if the range
is inside, its rounded size does not wrap, and its last word is full, or, for the scratchpad, fits and finds its other
bytes in the primary buffer (`obeys_iff`).  An access outside is never refused.
-/

namespace Tusim.Hierarchy

open Blocks Word Sram

variable {D : Type} {dramAccess : D → Nat → Nat → Bool → D × Nat} {h : TuMemoryHierarchy D}
  {region : Option TuCoreRegion} {r : TuCoreRegion}

/-- The region that a level works on. -/
def levelRegion (h : TuMemoryHierarchy D) (region : Option TuCoreRegion) : TuMemLevel → Option TuCoreRegion
  | .localSpad => region
  | .globalBuf => some h.gbuf.sram
  | _ => none

/-- The written bytes are in the buffer, and no other byte of the region has changed. -/
structure RoundTrip (addr bytes : Nat) (data out : Nat → UInt8) (r r' : TuCoreRegion) : Prop where
  returned : ∀ i < bytes, out i = data i
  totalSize : r'.totalSize = r.totalSize
  idle : r'.idleData = r.idleData
  outside : ∀ j, j < addr ∨ addr + bytes ≤ j → sramDataPtr r' j = sramDataPtr r j

/-- Inside the region a write and a read succeed and make a round trip; outside an access is refused. -/
def Obeys (dramAccess : D → Nat → Nat → Bool → D × Nat) (h : TuMemoryHierarchy D) (level : TuMemLevel)
    (region : Option TuCoreRegion) (addr bytes : UInt32) : Prop :=
  ∀ r, levelRegion h region level = some r →
    (addr.toNat + bytes.toNat ≤ r.totalSize.toNat → ∀ tmp tmp' data out,
      let written := memAccessImpl dramAccess tmp h level region addr data bytes true
      let read := memAccessImpl dramAccess tmp' written.hierarchy level written.region addr out bytes false
      written.ret = 0 ∧ read.ret = 0 ∧
        ∃ r', levelRegion read.hierarchy read.region level = some r' ∧
          RoundTrip addr.toNat bytes.toNat data read.buf r r') ∧
    (r.totalSize.toNat < addr.toNat + bytes.toNat → ∀ tmp buf isWrite,
      memAccessImpl dramAccess tmp h level region addr buf bytes isWrite =
        { ret := -1, hierarchy := h, region := region, buf := buf, stall := 0 })

/-- The last word of the access fits, and its other bytes are the same in the primary and in the active buffer. -/
def TailKept (r : TuCoreRegion) (addr bytes : Nat) : Prop :=
  let width := r.banks.bankWidth.toNat
  addr + bytes / width * width + width ≤ r.totalSize.toNat ∧
    ∀ j, addr + bytes ≤ j → j < addr + bytes / width * width + width → r.data j = sramDataPtr r j

/-- The accesses that keep to their bytes. -/
def KeepsToBytes (level : TuMemLevel) (r : TuCoreRegion) (addr bytes : Nat) : Prop :=
  addr + bytes ≤ r.totalSize.toNat ∧ bytes + r.banks.bankWidth.toNat ≤ 2 ^ 32 ∧
    (bytes % r.banks.bankWidth.toNat = 0 ∨ level = .localSpad ∧ TailKept r addr bytes)

/-- A word fits into the word buffer of the source. -/
def WordWidth (r : TuCoreRegion) : Prop := 0 < r.banks.bankWidth.toNat ∧ r.banks.bankWidth.toNat ≤ 64

/-! ### What an access leaves -/

/-- The number of words as the source computes it. -/
def words (r : TuCoreRegion) (bytes : UInt32) : Nat := ((bytes + r.banks.bankWidth - 1) / r.banks.bankWidth).toNat

/-- A loop of word writes keeps the width and the size. -/
theorem foldl_frame {f : TuCoreRegion × Nat → Nat → TuCoreRegion × Nat}
    (hf : ∀ s i, ∃ addr data, (f s i).1 = (tuSramWrite s.1 addr data).1) (s : TuCoreRegion × Nat) (l : List Nat) :
    (l.foldl f s).1.banks.bankWidth = s.1.banks.bankWidth ∧ (l.foldl f s).1.totalSize = s.1.totalSize := by
  induction l generalizing s with
  | nil => exact ⟨rfl, rfl⟩
  | cons i l ih =>
    obtain ⟨addr, data, hstep⟩ := hf s i
    obtain ⟨hwidth, hsize⟩ := tuSramWrite_frame s.1 addr data
    obtain ⟨hwidth', hsize'⟩ := ih (f s i)
    rw [List.foldl_cons, hwidth', hsize', hstep]
    exact ⟨hwidth, hsize⟩

theorem spadWrite_frame (tmp : Nat → Nat → UInt8) (addr bytes n : Nat) (data : Nat → UInt8) (r : TuCoreRegion) :
    (spadWrite tmp addr bytes n data r).banks.bankWidth = r.banks.bankWidth ∧
      (spadWrite tmp addr bytes n data r).totalSize = r.totalSize := by
  refine foldl_frame (fun s i => ?_) (r, 0) _
  unfold spadWriteWord
  dsimp only
  split <;> exact ⟨_, _, rfl⟩

theorem gbufWrite_frame (addr n : Nat) (data : Nat → UInt8) (r : TuCoreRegion) :
    (gbufWrite addr n data r).banks.bankWidth = r.banks.bankWidth ∧
      (gbufWrite addr n data r).totalSize = r.totalSize := by
  refine foldl_frame (fun s i => ?_) (r, 0) _
  exact ⟨_, _, rfl⟩

@[simp] theorem countAccess_initialized (h : TuMemoryHierarchy D) (level : TuMemLevel) (isWrite : Bool)
    (bytes stall : Nat) : (countAccess h level isWrite bytes stall).initialized = h.initialized := by
  unfold countAccess
  cases isWrite <;> rfl

@[simp] theorem countAccess_gbuf (h : TuMemoryHierarchy D) (level : TuMemLevel) (isWrite : Bool) (bytes stall : Nat) :
    (countAccess h level isWrite bytes stall).gbuf = h.gbuf := by
  unfold countAccess
  cases isWrite <;> rfl

section
variable (dramAccess) (hinit : h.initialized = true)
include hinit

theorem spad_write_spec (tmp : Nat → Nat → UInt8) (addr bytes : UInt32) (data : Nat → UInt8) :
    let a := memAccessImpl dramAccess tmp h .localSpad (some r) addr data bytes true
    a.ret = 0 ∧ a.hierarchy.initialized = true ∧
      a.region = some (spadWrite tmp addr.toNat bytes.toNat (words r bytes) data r) := by
  intro a
  unfold a memAccessImpl
  simp only [hinit, not_true_eq_false, if_false, if_true, countAccess_initialized, true_and]
  rfl

theorem spad_read_spec (tmp : Nat → Nat → UInt8) (addr bytes : UInt32) (out : Nat → UInt8) :
    let a := memAccessImpl dramAccess tmp h .localSpad (some r) addr out bytes false
    a.ret = 0 ∧ a.region = some (spadRead tmp addr.toNat bytes.toNat (words r bytes) out r).1 ∧
      a.buf = (spadRead tmp addr.toNat bytes.toNat (words r bytes) out r).2.1 := by
  intro a
  unfold a memAccessImpl
  simp only [hinit, not_true_eq_false, if_false, Bool.false_eq_true, true_and]
  exact ⟨rfl, rfl⟩

theorem gbuf_write_spec (tmp : Nat → Nat → UInt8) (addr bytes : UInt32) (data : Nat → UInt8) :
    let a := memAccessImpl dramAccess tmp h .globalBuf region addr data bytes true
    a.ret = 0 ∧ a.hierarchy.initialized = true ∧
      a.hierarchy.gbuf.sram = gbufWrite addr.toNat (words h.gbuf.sram bytes) data h.gbuf.sram := by
  intro a
  unfold a memAccessImpl
  simp only [hinit, not_true_eq_false, if_false, if_true, countAccess_initialized, countAccess_gbuf, true_and]
  split <;> rfl

theorem gbuf_read_spec (tmp : Nat → Nat → UInt8) (addr bytes : UInt32) (out : Nat → UInt8) :
    let a := memAccessImpl dramAccess tmp h .globalBuf region addr out bytes false
    a.ret = 0 ∧
      a.hierarchy.gbuf.sram = (gbufRead addr.toNat (words h.gbuf.sram bytes) out h.gbuf.sram).1 ∧
      a.buf = (gbufRead addr.toNat (words h.gbuf.sram bytes) out h.gbuf.sram).2.1 := by
  intro a
  unfold a memAccessImpl
  simp only [hinit, not_true_eq_false, if_false, Bool.false_eq_true, countAccess_gbuf, true_and]
  refine ⟨?_, rfl⟩
  split <;> rfl

end

/-! ### The law of each path -/

theorem RoundTrip.of_wrote {addr bytes n m : Nat} {src data out : Nat → UInt8} {r₁ r₂ : TuCoreRegion}
    (hwrote : Wrote addr src n r r₁) (hsame : SameBytes r₁ r₂) (hn : bytes ≤ n) (hm : bytes ≤ m)
    (hsrc : ∀ k < bytes, src k = data k) (htail : ∀ k, bytes ≤ k → k < n → src k = sramDataPtr r (addr + k)) :
    RoundTrip addr bytes data (memcpy out 0 (fun j => sramDataPtr r₁ (addr + j)) m) r r₂ where
  returned i hi := by
    unfold memcpy
    rw [if_pos (by omega), Nat.sub_zero, hwrote.active]
    dsimp only
    rw [memcpy_inside (by omega)]
    exact hsrc i hi
  totalSize := hsame.totalSize.trans hwrote.totalSize
  idle := hsame.idle.trans hwrote.idle
  outside j hj := by
    rw [hsame.active, hwrote.active]
    by_cases hin : addr ≤ j ∧ j < addr + n
    · have htail := htail (j - addr) (by omega) (by omega)
      rw [Nat.add_sub_cancel' hin.1] at htail
      rw [← htail]
      exact if_pos hin
    · exact memcpy_outside (by omega)

theorem words_eq {bytes : UInt32} (hw : WordWidth r) (hwrap : bytes.toNat + r.banks.bankWidth.toNat ≤ 2 ^ 32) :
    words r bytes = if bytes.toNat % r.banks.bankWidth.toNat = 0 then bytes.toNat / r.banks.bankWidth.toNat
      else bytes.toNat / r.banks.bankWidth.toNat + 1 := by
  have hne : r.banks.bankWidth ≠ 0 := by
    intro hzero
    have hpos := hw.1
    rw [hzero] at hpos
    exact absurd hpos (by decide)
  unfold words
  rw [words_toNat hne, if_pos hwrap]

theorem words_wrapped {bytes : UInt32} (hw : WordWidth r) (hwrap : 2 ^ 32 < bytes.toNat + r.banks.bankWidth.toNat) :
    words r bytes = 0 := by
  have hne : r.banks.bankWidth ≠ 0 := by
    intro hzero
    have hpos := hw.1
    rw [hzero] at hpos
    exact absurd hpos (by decide)
  unfold words
  rw [words_toNat hne, if_neg (by omega)]

section
variable {addr : Nat} {bytes : UInt32} (hw : WordWidth r) (hinside : addr + bytes.toNat ≤ r.totalSize.toNat)
include hw hinside

theorem spad_roundTrip (hwrap : bytes.toNat + r.banks.bankWidth.toNat ≤ 2 ^ 32)
    (hkept : bytes.toNat % r.banks.bankWidth.toNat = 0 ∨ TailKept r addr bytes.toNat)
    (tmp tmp' : Nat → Nat → UInt8) (data out : Nat → UInt8) :
    RoundTrip addr bytes.toNat data
      (spadRead tmp' addr bytes.toNat (words r bytes) out
        (spadWrite tmp addr bytes.toNat (words r bytes) data r)).2.1 r
      (spadRead tmp' addr bytes.toNat (words r bytes) out
        (spadWrite tmp addr bytes.toNat (words r bytes) data r)).1 := by
  have hdecomp := Nat.div_add_mod' bytes.toNat r.banks.bankWidth.toNat
  obtain ⟨hwidth, hsize⟩ := spadWrite_frame tmp addr bytes.toNat (words r bytes) data r
  rw [words_eq hw hwrap] at hwidth hsize ⊢
  by_cases hwhole : bytes.toNat % r.banks.bankWidth.toNat = 0
  · rw [if_pos hwhole] at hwidth hsize ⊢
    have hwrote := @spadWrite_full r addr bytes.toNat tmp data (bytes.toNat / r.banks.bankWidth.toNat) hwhole (by omega)
    generalize spadWrite tmp addr bytes.toNat _ data r = r₁ at hwidth hsize hwrote ⊢
    obtain ⟨hsame, hout⟩ := @spadRead_full r₁ addr bytes.toNat tmp' out
      (bytes.toNat / r.banks.bankWidth.toNat) (bytes.toNat / r.banks.bankWidth.toNat)
      (fun _ _ => .inl (by rw [hwidth]; exact hwhole)) (by rw [hwidth, hsize]; omega)
    unfold spadRead
    rw [hout, hwidth]
    rw [hwidth] at hsame
    exact .of_wrote hwrote hsame (by omega) (by omega) (fun _ _ => rfl) fun k hk hk' => by omega
  · rw [if_neg hwhole] at hwidth hsize ⊢
    obtain ⟨hfit, htail⟩ := hkept.resolve_left hwhole
    have hmod := Nat.mod_lt bytes.toNat hw.1
    have hwrote := spadWrite_cut addr bytes.toNat tmp data hw.1 hwhole rfl hfit
    generalize spadWrite tmp addr bytes.toNat _ data r = r₁ at hwidth hsize hwrote ⊢
    obtain ⟨hsame, hout⟩ := @spadRead_cut r₁ addr bytes.toNat tmp' out
      (bytes.toNat / r.banks.bankWidth.toNat) (by rw [hwidth]; exact hw.1) (by rw [hwidth]; exact hwhole)
      (by rw [hwidth]) (by rw [hwidth, hsize]; exact hfit)
    rw [hout]
    refine .of_wrote hwrote hsame (by omega) (Nat.le_refl _) (fun k hk => if_pos hk) fun k hk hk' => ?_
    rw [if_neg (by omega)]
    exact htail _ (by omega) (by omega)

theorem gbuf_roundTrip (hwrap : bytes.toNat + r.banks.bankWidth.toNat ≤ 2 ^ 32)
    (hwhole : bytes.toNat % r.banks.bankWidth.toNat = 0) (data out : Nat → UInt8) :
    RoundTrip addr bytes.toNat data
      (gbufRead addr (words r bytes) out (gbufWrite addr (words r bytes) data r)).2.1 r
      (gbufRead addr (words r bytes) out (gbufWrite addr (words r bytes) data r)).1 := by
  have hdecomp := Nat.div_add_mod' bytes.toNat r.banks.bankWidth.toNat
  obtain ⟨hwidth, hsize⟩ := gbufWrite_frame addr (words r bytes) data r
  rw [words_eq hw hwrap, if_pos hwhole] at hwidth hsize ⊢
  have hwrote := @gbufWrite_full r addr data (bytes.toNat / r.banks.bankWidth.toNat) (by omega)
  generalize gbufWrite addr _ data r = r₁ at hwidth hsize hwrote ⊢
  obtain ⟨hsame, hout⟩ := @gbufRead_full r₁ addr out (bytes.toNat / r.banks.bankWidth.toNat)
    (by rw [hwidth, hsize]; omega)
  rw [hout, hwidth]
  exact .of_wrote hwrote hsame (by omega) (by omega) (fun _ _ => rfl) fun k hk hk' => by omega

/-- Where every scratchpad round trip succeeds, the access keeps to its bytes. -/
theorem keeps_of_spad_roundTrip
    (h : ∀ tmp tmp' data out,
      RoundTrip addr bytes.toNat data
        (spadRead tmp' addr bytes.toNat (words r bytes) out
          (spadWrite tmp addr bytes.toNat (words r bytes) data r)).2.1 r
        (spadRead tmp' addr bytes.toNat (words r bytes) out
          (spadWrite tmp addr bytes.toNat (words r bytes) data r)).1) :
    KeepsToBytes .localSpad r addr bytes.toNat := by
  have hdecomp := Nat.div_add_mod' bytes.toNat r.banks.bankWidth.toNat
  have hmod := Nat.mod_lt bytes.toNat hw.1
  have hword := r.banks.bankWidth.toNat_lt
  by_cases hwrap : bytes.toNat + r.banks.bankWidth.toNat ≤ 2 ^ 32
  · refine ⟨hinside, hwrap, ?_⟩
    by_cases hwhole : bytes.toNat % r.banks.bankWidth.toNat = 0
    · exact .inl hwhole
    refine .inr ⟨rfl, ?_⟩
    rw [words_eq hw hwrap, if_neg hwhole] at h
    by_cases hfit : addr + bytes.toNat / r.banks.bankWidth.toNat * r.banks.bankWidth.toNat + r.banks.bankWidth.toNat ≤
        r.totalSize.toNat
    · refine ⟨hfit, fun j hj hj' => ?_⟩
      have hwrote := spadWrite_cut addr bytes.toNat (fun _ _ => 0) (fun _ => 0) hw.1 hwhole rfl hfit
      have htrip := h (fun _ _ => 0) (fun _ _ => 0) (fun _ => 0) fun _ => 0
      obtain ⟨hwidth, hsize⟩ := spadWrite_frame (fun _ _ => 0) addr bytes.toNat
        (bytes.toNat / r.banks.bankWidth.toNat + 1) (fun _ => 0) r
      generalize spadWrite _ addr bytes.toNat _ _ r = r₁ at hwidth hsize hwrote htrip
      obtain ⟨hsame, -⟩ := @spadRead_cut r₁ addr bytes.toNat (fun _ _ => 0) (fun _ => 0)
        (bytes.toNat / r.banks.bankWidth.toNat) (by rw [hwidth]; exact hw.1) (by rw [hwidth]; exact hwhole)
        (by rw [hwidth]) (by rw [hwidth, hsize]; exact hfit)
      have houtside := htrip.outside j (.inr hj)
      rw [hsame.active, hwrote.active] at houtside
      rw [← houtside]
      unfold memcpy
      rw [if_pos (by omega)]
      dsimp only
      rw [if_neg (by omega), Nat.add_sub_cancel' (by omega)]
    · -- the last word is dropped, and the buffer gets what the word buffer held
      have htrip := h (fun _ _ => 0) (fun _ _ => 0) (fun _ => 1) fun _ => 0
      obtain ⟨hwidth, hsize⟩ := spadWrite_frame (fun _ _ => 0) addr bytes.toNat
        (bytes.toNat / r.banks.bankWidth.toNat + 1) (fun _ => 1) r
      generalize spadWrite _ addr bytes.toNat _ _ r = r₁ at hwidth hsize htrip
      have hdropped := @spadRead_outside r₁ addr bytes.toNat (fun _ _ => 0) (fun _ => 0)
        (bytes.toNat / r.banks.bankWidth.toNat) (by rw [hwidth]; exact hwhole) (by rw [hwidth])
        (by rw [hsize]; exact hinside) (by rw [hwidth, hsize]; omega)
      have hreturned := htrip.returned (bytes.toNat / r.banks.bankWidth.toNat * r.banks.bankWidth.toNat) (by omega)
      rw [hwidth] at hdropped
      rw [hdropped] at hreturned
      exact absurd hreturned (by decide)
  · -- no word is accessed at all
    have hreturned := (h (fun _ _ => 0) (fun _ _ => 0) (fun _ => 1) fun _ => 0).returned 0 (by omega)
    rw [words_wrapped hw (by omega)] at hreturned
    have hzero : (0 : UInt8) = 1 := hreturned
    exact absurd hzero (by decide)

/-- Where every round trip through the global buffer succeeds, the access keeps to its bytes. -/
theorem keeps_of_gbuf_roundTrip
    (h : ∀ data out,
      RoundTrip addr bytes.toNat data
        (gbufRead addr (words r bytes) out (gbufWrite addr (words r bytes) data r)).2.1 r
        (gbufRead addr (words r bytes) out (gbufWrite addr (words r bytes) data r)).1) :
    KeepsToBytes .globalBuf r addr bytes.toNat := by
  have hdecomp := Nat.div_add_mod' bytes.toNat r.banks.bankWidth.toNat
  have hmod := Nat.mod_lt bytes.toNat hw.1
  have hword := r.banks.bankWidth.toNat_lt
  by_cases hwrap : bytes.toNat + r.banks.bankWidth.toNat ≤ 2 ^ 32
  · refine ⟨hinside, hwrap, .inl ?_⟩
    apply Classical.byContradiction
    intro hwhole
    rw [words_eq hw hwrap, if_neg hwhole] at h
    by_cases hfit : addr + bytes.toNat / r.banks.bankWidth.toNat * r.banks.bankWidth.toNat + r.banks.bankWidth.toNat ≤
        r.totalSize.toNat
    · -- the byte after the access gets the next byte of the caller's memory
      obtain ⟨byte, hbyte⟩ : ∃ byte, byte ≠ sramDataPtr r (addr + bytes.toNat) := by
        by_cases hzero : sramDataPtr r (addr + bytes.toNat) = 0
        · exact ⟨1, by rw [hzero]; decide⟩
        · exact ⟨0, fun heq => hzero heq.symm⟩
      have hfull : addr + (bytes.toNat / r.banks.bankWidth.toNat + 1) * r.banks.bankWidth.toNat ≤ r.totalSize.toNat := by
        rw [Nat.succ_mul]
        omega
      have hwrote := gbufWrite_full addr (fun _ => byte) hfull
      have htrip := h (fun _ => byte) fun _ => 0
      obtain ⟨hwidth, hsize⟩ := gbufWrite_frame addr (bytes.toNat / r.banks.bankWidth.toNat + 1) (fun _ => byte) r
      generalize gbufWrite addr _ _ r = r₁ at hwidth hsize hwrote htrip
      obtain ⟨hsame, -⟩ := @gbufRead_full r₁ addr (fun _ => 0)
        (bytes.toNat / r.banks.bankWidth.toNat + 1) (by rw [hwidth, hsize]; exact hfull)
      have houtside := htrip.outside (addr + bytes.toNat) (.inr (Nat.le_refl _))
      rw [hsame.active, hwrote.active, memcpy_inside (by rw [Nat.succ_mul]; omega)] at houtside
      exact hbyte houtside
    · have htrip := h (fun _ => 1) fun _ => 0
      obtain ⟨hwidth, hsize⟩ := gbufWrite_frame addr (bytes.toNat / r.banks.bankWidth.toNat + 1) (fun _ => 1) r
      generalize gbufWrite addr _ _ r = r₁ at hwidth hsize htrip
      have hdropped := @gbufRead_outside r₁ addr bytes.toNat (fun _ => 0)
        (bytes.toNat / r.banks.bankWidth.toNat) (by rw [hwidth]) (by rw [hsize]; exact hinside)
        (by rw [hwidth, hsize]; omega)
      have hreturned := htrip.returned (bytes.toNat / r.banks.bankWidth.toNat * r.banks.bankWidth.toNat) (by omega)
      rw [hwidth] at hdropped
      rw [hdropped] at hreturned
      exact absurd hreturned (by decide)
  · have hreturned := (h (fun _ => 1) fun _ => 0).returned 0 (by omega)
    rw [words_wrapped hw (by omega)] at hreturned
    have hzero : (0 : UInt8) = 1 := hreturned
    exact absurd hzero (by decide)

end

/-! ### Both levels -/

section
variable (dramAccess) (hinit : h.initialized = true)
include hinit

/-- A write and a read of the scratchpad. -/
theorem spad_round (tmp tmp' : Nat → Nat → UInt8) (addr bytes : UInt32) (data out : Nat → UInt8) :
    let written := memAccessImpl dramAccess tmp h .localSpad (some r) addr data bytes true
    let read := memAccessImpl dramAccess tmp' written.hierarchy .localSpad written.region addr out bytes false
    let r₁ := spadWrite tmp addr.toNat bytes.toNat (words r bytes) data r
    written.ret = 0 ∧ read.ret = 0 ∧
      read.region = some (spadRead tmp' addr.toNat bytes.toNat (words r bytes) out r₁).1 ∧
      read.buf = (spadRead tmp' addr.toNat bytes.toNat (words r bytes) out r₁).2.1 := by
  intro written read r₁
  obtain ⟨hret, hinit', hwritten⟩ := spad_write_spec (r := r) dramAccess hinit tmp addr bytes data
  have hread := spad_read_spec (r := r₁) dramAccess hinit' tmp' addr bytes out
  have hwords : words r₁ bytes = words r bytes := by
    rw [words, (spadWrite_frame _ _ _ _ _ _).1, ← words]
  rw [hwords] at hread
  unfold read written
  rw [hwritten]
  exact ⟨hret, hread⟩

/-- A write and a read of the global buffer. -/
theorem gbuf_round (tmp tmp' : Nat → Nat → UInt8) (addr bytes : UInt32) (data out : Nat → UInt8) :
    let written := memAccessImpl dramAccess tmp h .globalBuf region addr data bytes true
    let read := memAccessImpl dramAccess tmp' written.hierarchy .globalBuf written.region addr out bytes false
    let r₁ := gbufWrite addr.toNat (words h.gbuf.sram bytes) data h.gbuf.sram
    written.ret = 0 ∧ read.ret = 0 ∧
      read.hierarchy.gbuf.sram = (gbufRead addr.toNat (words h.gbuf.sram bytes) out r₁).1 ∧
      read.buf = (gbufRead addr.toNat (words h.gbuf.sram bytes) out r₁).2.1 := by
  intro written read r₁
  obtain ⟨hret, hinit', hwritten⟩ := @gbuf_write_spec D dramAccess h region hinit tmp addr bytes data
  have hread := @gbuf_read_spec D dramAccess written.hierarchy written.region hinit' tmp' addr bytes out
  have hwords : words r₁ bytes = words h.gbuf.sram bytes := by
    rw [words, (gbufWrite_frame _ _ _ _).1, ← words]
  rw [hwritten, hwords] at hread
  exact ⟨hret, hread⟩

/-- Of an initialised hierarchy with words that fit the source's word buffer, an access obeys exactly if it keeps to its
bytes. -/
theorem obeys_iff {level : TuMemLevel} (hlevel : levelRegion h region level = some r) (hw : WordWidth r)
    (addr bytes : UInt32) :
    Obeys dramAccess h level region addr bytes ↔ KeepsToBytes level r addr.toNat bytes.toNat := by
  constructor
  · intro hobeys
    obtain ⟨hin, hout⟩ := hobeys r hlevel
    have hinside (hret : (memAccessImpl dramAccess (fun _ _ => 0) h level region addr (fun _ => 0) bytes true).ret = 0) :
        addr.toNat + bytes.toNat ≤ r.totalSize.toNat := by
      apply Classical.byContradiction
      intro houtside
      rw [hout (by omega) (fun _ _ => 0) (fun _ => 0) true] at hret
      exact absurd hret (by simp)
    cases level with
    | regfile => exact absurd hlevel (by simp [levelRegion])
    | dram => exact absurd hlevel (by simp [levelRegion])
    | localSpad =>
      obtain rfl : region = some r := hlevel
      have hinside := hinside (spad_write_spec dramAccess hinit _ addr bytes _).1
      refine keeps_of_spad_roundTrip hw hinside fun tmp tmp' data out => ?_
      obtain ⟨-, -, hregion, hbuf⟩ := spad_round (r := r) dramAccess hinit tmp tmp' addr bytes data out
      obtain ⟨-, -, r', hr', htrip⟩ := hin hinside tmp tmp' data out
      rw [hbuf] at htrip
      rwa [← Option.some.inj (hregion.symm.trans hr')] at htrip
    | globalBuf =>
      obtain rfl : h.gbuf.sram = r := Option.some.inj hlevel
      have hinside := hinside (gbuf_write_spec dramAccess hinit _ addr bytes _).1
      refine keeps_of_gbuf_roundTrip hw hinside fun data out => ?_
      obtain ⟨-, -, hregion, hbuf⟩ :=
        @gbuf_round D dramAccess h region hinit (fun _ _ => 0) (fun _ _ => 0) addr bytes data out
      obtain ⟨-, -, r', hr', htrip⟩ := hin hinside (fun _ _ => 0) (fun _ _ => 0) data out
      rw [hbuf] at htrip
      rwa [← hregion.symm.trans (Option.some.inj hr')] at htrip
  · rintro ⟨hinside, hwrap, hkept⟩ r₀ hlevel₀
    obtain rfl : r = r₀ := Option.some.inj (hlevel.symm.trans hlevel₀)
    refine ⟨fun _ tmp tmp' data out => ?_, fun houtside => by omega⟩
    cases level with
    | regfile => exact absurd hlevel (by simp [levelRegion])
    | dram => exact absurd hlevel (by simp [levelRegion])
    | localSpad =>
      obtain rfl : region = some r := hlevel
      obtain ⟨hret, hret', hregion, hbuf⟩ := spad_round (r := r) dramAccess hinit tmp tmp' addr bytes data out
      refine ⟨hret, hret', _, hregion, ?_⟩
      rw [hbuf]
      exact spad_roundTrip hw hinside hwrap (hkept.imp_right And.right) tmp tmp' data out
    | globalBuf =>
      obtain rfl : h.gbuf.sram = r := Option.some.inj hlevel
      obtain ⟨hret, hret', hregion, hbuf⟩ := @gbuf_round D dramAccess h region hinit tmp tmp' addr bytes data out
      refine ⟨hret, hret', _, rfl, ?_⟩
      rw [hbuf, hregion]
      have hwhole := hkept.resolve_right fun hlocal => absurd hlocal.1 (by decide)
      exact gbuf_roundTrip hw hinside hwrap hwhole data out

end

/-- A zeroed region of eight bytes in words of four. -/
def eightBytes : TuCoreRegion :=
  { (Memory.zero 8).sram 0 with
    reads := 0, writes := 0, conflicts := 0, stallCycles := 0, arbMode := 1, wordMetering := 0, name := "SPAD" }

/-- An initialised hierarchy without DRAM. -/
def emptyHierarchy : TuMemoryHierarchy Unit where
  regfile := { totalReads := 0, totalWrites := 0 }
  gbuf := { sram := eightBytes, totalHits := 0, totalMisses := 0 }
  dram := none
  levelReads _ := 0
  levelWrites _ := 0
  levelBytesRead _ := 0
  levelBytesWritten _ := 0
  levelStallCycles _ := 0
  initialized := true

/-- Five bytes at offset one of a scratchpad. -/
theorem obeys_iff_five :
    Obeys (fun d _ _ _ => (d, 0)) emptyHierarchy .localSpad (some eightBytes) 1 5 ↔
      KeepsToBytes .localSpad eightBytes (1 : UInt32).toNat (5 : UInt32).toNat :=
  obeys_iff _ rfl rfl ⟨by decide, by decide⟩ 1 5

/-- A write behind the end of a scratchpad reports success. -/
theorem not_obeys : ¬ Obeys (fun d _ _ _ => (d, 0)) emptyHierarchy .localSpad (some eightBytes) 8 1 := by
  intro hobeys
  have hrefused := (hobeys eightBytes rfl).2 (by decide) (fun _ _ => 0) (fun _ => 0) true
  have hret := (spad_write_spec (r := eightBytes) (fun d _ _ _ => (d, 0)) (h := emptyHierarchy) rfl (fun _ _ => 0) 8 1
    fun _ => 0).1
  rw [hrefused] at hret
  exact absurd hret (by decide)

end Tusim.Hierarchy
