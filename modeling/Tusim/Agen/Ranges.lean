import Mathlib.Data.List.SplitBy
import Tusim.Agen.Affine
import Tusim.Agen.Tiling

/-!
# Ranges of addresses

`tuAgenGenerateRanges` merges neighbouring elements of an iterator into ranges.  It stores the first `maxRanges` of
them and returns the number of all.  The ranges are the runs of the address sequence (`tuAgenGenerateRanges_eq`), the
runs being the ones of `List.splitBy`.  A range of an iterator whose elements end below `2 ^ 32` expands to its run
(`ranges_expand`).
-/

namespace Tusim

open Word

structure TuAgenRange where
  baseAddr : UInt32
  totalBytes : UInt32
  stride : UInt32
  elemSize : UInt32
deriving DecidableEq, Repr

/-- The variables of the loop of `tu_agen_generate_ranges`; `ranges` is the part of the buffer that is written. -/
structure RangeScan where
  it : TuAgenIterator
  ranges : List TuAgenRange := []
  rangeCount : UInt32 := 0
  prevAddr : UInt32
  rangeStart : UInt32
  rangeLen : UInt32 := 1

namespace RangeScan

/-- Close the open range; it is stored where the buffer has room. -/
def flush (maxRanges : UInt32) (s : RangeScan) : RangeScan :=
  let range : TuAgenRange :=
    { baseAddr := s.rangeStart, elemSize := s.it.elemSize, totalBytes := s.rangeLen * s.it.elemSize
      stride := s.it.elemSize }
  { s with
    ranges := if s.rangeCount < maxRanges then s.ranges ++ [range] else s.ranges
    rangeCount := s.rangeCount + 1 }

/-- The body of the loop. -/
def step (maxRanges : UInt32) (s : RangeScan) : RangeScan :=
  let n := tuAgenNext s.it
  let s := { s with it := n.1 }
  if n.2 = s.prevAddr + s.it.elemSize ∧ n.2 ≠ paddingAddr then
    { s with rangeLen := s.rangeLen + 1, prevAddr := n.2 }
  else { s.flush maxRanges with rangeStart := n.2, rangeLen := 1, prevAddr := n.2 }

end RangeScan

/-- The iterator afterwards, the stored ranges and the number of ranges. -/
def tuAgenGenerateRanges (it : TuAgenIterator) (maxRanges : UInt32) : TuAgenIterator × List TuAgenRange × UInt32 :=
  if maxRanges = 0 then (it, [], 0)
  else
    let it := tuAgenReset it
    if it.totalElements = 0 then (it, [], 0)
    else
      let n := tuAgenNext it
      let s : RangeScan := { it := n.1, prevAddr := n.2, rangeStart := n.2 }
      let s := ((RangeScan.step maxRanges)^[it.totalElements.toNat - 1] s).flush maxRanges
      (s.it, s.ranges, s.rangeCount)

/-! ### The runs of the address sequence -/

namespace TuAgenIterator

/-- The addresses of the ordinals. -/
def addresses (it : TuAgenIterator) : List UInt32 :=
  (List.range it.totalElements.toNat).map fun i => it.address (UInt32.ofNat i)

/-- `b` continues the range that ends with `a`. -/
def continues (it : TuAgenIterator) (a b : UInt32) : Bool := b = a + it.elemSize ∧ b ≠ paddingAddr

/-- The range of a run. -/
def rangeOf (it : TuAgenIterator) (run : List UInt32) : TuAgenRange where
  baseAddr := run.headD 0
  totalBytes := UInt32.ofNat run.length * it.elemSize
  stride := it.elemSize
  elemSize := it.elemSize

/-- The ranges of the whole sequence. -/
def ranges (it : TuAgenIterator) : List TuAgenRange := (it.addresses.splitBy it.continues).map it.rangeOf

end TuAgenIterator

/-! ### The loop -/

/-- The iterator at an ordinal. -/
def TuAgenIterator.seek (it : TuAgenIterator) (k : Nat) : TuAgenIterator := { it with currentIdx := UInt32.ofNat k }

@[simp] theorem TuAgenIterator.seek_elemSize (it : TuAgenIterator) (k : Nat) : (it.seek k).elemSize = it.elemSize := rfl

theorem tuAgenReset_eq (it : TuAgenIterator) : tuAgenReset it = it.seek 0 := rfl

theorem tuAgenNext_seek (it : TuAgenIterator) {k : Nat} (hk : k < it.totalElements.toNat) :
    tuAgenNext (it.seek k) = (it.seek (k + 1), it.address (UInt32.ofNat k)) := by
  have hbound := it.totalElements.toNat_lt
  have hk' := toNat_eq_of_ofNat (a := UInt32.ofNat k) rfl (by omega)
  have hlt : ¬ (it.seek k).currentIdx ≥ (it.seek k).totalElements := by
    rw [ge_iff_le, UInt32.le_iff_toNat_le]
    simp only [TuAgenIterator.seek, hk']
    omega
  have hsucc : UInt32.ofNat k + 1 = UInt32.ofNat (k + 1) := by simp
  unfold tuAgenNext
  rw [if_neg hlt]
  simp only [TuAgenIterator.seek, hsucc]
  rfl

private theorem nexts_seek (it : TuAgenIterator) {n k : Nat} (h : k + n ≤ it.totalElements.toNat) :
    (it.seek k).nexts n = (List.range' k n).map fun i => it.address (UInt32.ofNat i) := by
  induction n generalizing k with
  | zero => rfl
  | succ n ih =>
    unfold TuAgenIterator.nexts
    rw [tuAgenNext_seek it (by omega), ih (by omega)]
    rfl

/-- The calls after a reset. -/
theorem nexts_reset (it : TuAgenIterator) : (tuAgenReset it).nexts it.totalElements.toNat = it.addresses := by
  rw [tuAgenReset_eq, nexts_seek it (Nat.le_of_eq (Nat.zero_add _)), ← List.range_eq_range']
  rfl

section

variable (it : TuAgenIterator) (maxRanges : UInt32)

/-- The loop after `k` elements: `prev` and the ones of `group` before it form the open run, `groups` are the closed
ones, the last one first. -/
private def scanState (k : Nat) (prev : UInt32) (group : List UInt32) (groups : List (List UInt32)) : RangeScan where
  it := it.seek k
  ranges := (groups.reverse.map it.rangeOf).take maxRanges.toNat
  rangeCount := UInt32.ofNat groups.length
  prevAddr := prev
  rangeStart := (prev :: group).reverse.headD 0
  rangeLen := UInt32.ofNat (group.length + 1)

private theorem take_snoc {α : Type} (l : List α) (x : α) (m : Nat) :
    (if l.length < m then l.take m ++ [x] else l.take m) = (l ++ [x]).take m := by
  split
  · rename_i h
    rw [List.take_of_length_le (Nat.le_of_lt h), List.take_of_length_le (by simp; omega)]
  · rename_i h
    rw [List.take_append_of_le_length (Nat.not_lt.1 h)]

/-- Closing the open run appends its range to the full list. -/
private theorem flush_scanState {k : Nat} {prev : UInt32} {group : List UInt32} {groups : List (List UInt32)}
    (hlen : groups.length < 2 ^ 32) :
    (scanState it maxRanges k prev group groups).flush maxRanges =
      { scanState it maxRanges k prev group groups with
        ranges := ((((prev :: group).reverse :: groups).reverse).map it.rangeOf).take maxRanges.toNat
        rangeCount := UInt32.ofNat (groups.length + 1) } := by
  have hcount : UInt32.ofNat groups.length < maxRanges ↔ (groups.reverse.map it.rangeOf).length < maxRanges.toNat := by
    rw [UInt32.lt_iff_toNat_lt, toNat_eq_of_ofNat rfl hlen]
    simp
  have hrange : it.rangeOf (prev :: group).reverse =
      { baseAddr := (prev :: group).reverse.headD 0, elemSize := it.elemSize
        totalBytes := UInt32.ofNat (group.length + 1) * it.elemSize, stride := it.elemSize } := by
    simp [TuAgenIterator.rangeOf]
  rw [List.reverse_cons (a := (prev :: group).reverse), List.map_append, List.map_singleton, hrange, ← take_snoc]
  unfold RangeScan.flush scanState
  dsimp only
  simp only [hcount]
  simp

/-- One element. -/
private theorem step_scanState {k : Nat} {prev : UInt32} {group : List UInt32} {groups : List (List UInt32)}
    (hk : k < it.totalElements.toNat) (hlen : groups.length < k) :
    (scanState it maxRanges k prev group groups).step maxRanges =
      if it.continues prev (it.address (UInt32.ofNat k)) then
        scanState it maxRanges (k + 1) (it.address (UInt32.ofNat k)) (prev :: group) groups
      else
        scanState it maxRanges (k + 1) (it.address (UInt32.ofNat k)) [] ((prev :: group).reverse :: groups) := by
  have hbound := it.totalElements.toNat_lt
  have hnext : tuAgenNext (scanState it maxRanges k prev group groups).it =
      (it.seek (k + 1), it.address (UInt32.ofNat k)) := tuAgenNext_seek it hk
  have hstep : (scanState it maxRanges k prev group groups).step maxRanges =
      if it.address (UInt32.ofNat k) = prev + it.elemSize ∧ it.address (UInt32.ofNat k) ≠ paddingAddr then
        { scanState it maxRanges (k + 1) prev group groups with
          rangeLen := UInt32.ofNat (group.length + 1) + 1, prevAddr := it.address (UInt32.ofNat k) }
      else
        { (scanState it maxRanges (k + 1) prev group groups).flush maxRanges with
          rangeStart := it.address (UInt32.ofNat k), rangeLen := 1, prevAddr := it.address (UInt32.ofNat k) } := by
    unfold RangeScan.step
    rw [hnext]
    rfl
  rw [hstep, flush_scanState it maxRanges (by omega)]
  by_cases hcont : it.address (UInt32.ofNat k) = prev + it.elemSize ∧ it.address (UInt32.ofNat k) ≠ paddingAddr
  · rw [if_pos hcont, if_pos (by simpa [TuAgenIterator.continues] using hcont)]
    unfold scanState
    simp [List.headD_eq_head?_getD]
  · rw [if_neg hcont, if_neg (by simpa [TuAgenIterator.continues] using hcont)]
    unfold scanState
    simp

/-- The loop is the one of `splitBy` over the rest of the sequence. -/
private theorem iterate_scanState {rest : List UInt32} {k : Nat} (prev : UInt32) (group : List UInt32)
    (groups : List (List UInt32)) (hrest : it.addresses.drop k = rest) (hk : k ≤ it.totalElements.toNat)
    (hlen : groups.length < k) :
    (((RangeScan.step maxRanges)^[rest.length] (scanState it maxRanges k prev group groups)).flush maxRanges).it =
        it.seek it.totalElements.toNat ∧
      (((RangeScan.step maxRanges)^[rest.length] (scanState it maxRanges k prev group groups)).flush maxRanges).ranges =
        ((List.splitBy.loop it.continues rest prev group groups).map it.rangeOf).take maxRanges.toNat ∧
      (((RangeScan.step maxRanges)^[rest.length] (scanState it maxRanges k prev group groups)).flush
        maxRanges).rangeCount = UInt32.ofNat (List.splitBy.loop it.continues rest prev group groups).length := by
  have hbound := it.totalElements.toNat_lt
  have haddresses : it.addresses.length = it.totalElements.toNat := by simp [TuAgenIterator.addresses]
  induction rest generalizing k prev group groups with
  | nil =>
    have hend : k = it.totalElements.toNat := by
      rw [List.drop_eq_nil_iff] at hrest
      omega
    rw [List.length_nil, Function.iterate_zero, id_eq, flush_scanState it maxRanges (by omega)]
    unfold List.splitBy.loop
    refine ⟨congrArg it.seek hend, rfl, ?_⟩
    rw [List.length_reverse, List.length_cons]
  | cons a rest ih =>
    have hlt : k < it.totalElements.toNat := by
      have h := congrArg List.length hrest
      rw [List.length_drop, List.length_cons] at h
      omega
    have hfirst : a = it.address (UInt32.ofNat k) := by
      have h := congrArg (·[0]?) hrest
      simp [TuAgenIterator.addresses, hlt] at h
      exact h.symm
    have htail : it.addresses.drop (k + 1) = rest := by
      rw [← List.drop_drop, hrest, List.drop_one, List.tail_cons]
    rw [List.length_cons, Function.iterate_succ_apply, step_scanState it maxRanges hlt hlen, ← hfirst]
    unfold List.splitBy.loop
    cases it.continues prev a with
    | true => exact ih a (prev :: group) groups htail hlt (by omega)
    | false => exact ih a [] ((prev :: group).reverse :: groups) htail hlt (by simp; omega)

/-- The producer returns the number of all ranges and stores the first ones. -/
theorem tuAgenGenerateRanges_eq (hmax : maxRanges ≠ 0) :
    tuAgenGenerateRanges it maxRanges =
      (it.seek it.totalElements.toNat, it.ranges.take maxRanges.toNat, UInt32.ofNat it.ranges.length) := by
  unfold tuAgenGenerateRanges
  rw [if_neg hmax]
  by_cases hnone : it.totalElements = 0
  · have haddresses : it.addresses = [] := by simp [TuAgenIterator.addresses, hnone]
    have hranges : it.ranges = [] := by simp [TuAgenIterator.ranges, haddresses]
    dsimp only
    rw [if_pos (show (tuAgenReset it).totalElements = 0 from hnone), hranges, hnone]
    simp [tuAgenReset_eq]
  · have hpos := toNat_pos hnone
    obtain ⟨n, hn⟩ : ∃ n, it.totalElements.toNat = n + 1 := ⟨it.totalElements.toNat - 1, by omega⟩
    have hfirst : tuAgenNext (tuAgenReset it) = (it.seek 1, it.address (UInt32.ofNat 0)) := tuAgenNext_seek it hpos
    have haddresses : it.addresses = it.address (UInt32.ofNat 0) :: it.addresses.drop 1 := by
      unfold TuAgenIterator.addresses
      rw [hn, List.range_succ_eq_map]
      rfl
    have hlen : (it.addresses.drop 1).length = it.totalElements.toNat - 1 := by simp [TuAgenIterator.addresses]
    have hranges : it.ranges =
        (List.splitBy.loop it.continues (it.addresses.drop 1) (it.address (UInt32.ofNat 0)) [] []).map it.rangeOf := by
      unfold TuAgenIterator.ranges
      rw [haddresses]
      rfl
    dsimp only
    rw [if_neg (show ¬ (tuAgenReset it).totalElements = 0 from hnone), hfirst]
    obtain ⟨hit, hstored, hcount⟩ := iterate_scanState it maxRanges (it.address (UInt32.ofNat 0)) [] []
      (show it.addresses.drop 1 = it.addresses.drop 1 from rfl) hpos Nat.one_pos
    have hstart : RangeScan.mk (it.seek 1) [] 0 (it.address (UInt32.ofNat 0)) (it.address (UInt32.ofNat 0)) 1 =
        scanState it maxRanges 1 (it.address (UInt32.ofNat 0)) [] [] := by
      unfold scanState
      simp
    have htotal : (tuAgenReset it).totalElements.toNat - 1 = (it.addresses.drop 1).length := hlen.symm
    rw [htotal]
    dsimp only
    rw [hstart, hit, hstored, hcount, hranges, List.length_map]

end

/-- There are at most as many ranges as elements. -/
theorem TuAgenIterator.ranges_length_le (it : TuAgenIterator) : it.ranges.length ≤ it.totalElements.toNat := by
  have hruns : ∀ runs : List (List UInt32), [] ∉ runs → runs.length ≤ runs.flatten.length := by
    intro runs hne
    induction runs with
    | nil => exact Nat.le_refl 0
    | cons run runs ih =>
      rw [List.mem_cons, not_or] at hne
      have hpos := List.length_pos_iff.2 (Ne.symm hne.1)
      have hrest := ih hne.2
      rw [List.length_cons, List.flatten_cons, List.length_append]
      omega
  have h := hruns _ (List.nil_notMem_splitBy it.continues it.addresses)
  rw [List.flatten_splitBy] at h
  simpa [ranges, addresses] using h

/-! ### Expansion -/

/-- The addresses of the elements of a range. -/
def TuAgenRange.addresses (r : TuAgenRange) : List Nat :=
  (List.range (r.totalBytes.toNat / r.elemSize.toNat)).map fun i => r.baseAddr.toNat + i * r.stride.toNat

/-- A range of a positive number of elements that ends below `2 ^ 32`. -/
structure TuAgenRange.Regular (r : TuAgenRange) (size : UInt32) : Prop where
  elemSize_eq : r.elemSize = size
  stride_eq : r.stride = size
  size_pos : 0 < size.toNat
  bytes_pos : 0 < r.totalBytes.toNat
  bytes_dvd : size.toNat ∣ r.totalBytes.toNat
  end_le : r.baseAddr.toNat + r.totalBytes.toNat ≤ uint32Max.toNat

section

variable {it : TuAgenIterator}

theorem TuAgenIterator.Bounded.mem (hb : it.Bounded) {a : UInt32} (ha : a ∈ it.addresses) :
    a.toNat + it.elemSize.toNat ≤ uint32Max.toNat ∧ 0 < it.elemSize.toNat := by
  obtain ⟨i, hi, rfl⟩ := List.mem_map.1 ha
  rw [List.mem_range] at hi
  exact ⟨hb.end_le i hi, hb.size_pos (Nat.zero_lt_of_lt hi)⟩

/-- The addresses of a run go up by the element size. -/
private theorem run_eq (hb : it.Bounded) {run : List UInt32} (hchain : run.IsChain fun a b => it.continues a b)
    (hmem : ∀ a ∈ run, a ∈ it.addresses) :
    run.map (·.toNat) = (List.range run.length).map fun i => (run.headD 0).toNat + i * it.elemSize.toNat := by
  induction run with
  | nil => rfl
  | cons a run ih =>
    have hrest := ih hchain.tail fun b hb => hmem b (List.mem_cons_of_mem a hb)
    rw [List.map_cons, hrest, List.length_cons, List.range_succ_eq_map, List.map_cons, List.map_map]
    cases run with
    | nil => simp
    | cons b run =>
      have hcont := (List.isChain_cons_cons.1 hchain).1
      simp only [TuAgenIterator.continues, decide_eq_true_eq] at hcont
      have hend := (hb.mem (hmem a List.mem_cons_self)).1
      have hnext : b.toNat = a.toNat + it.elemSize.toNat := by
        rw [hcont.1]
        exact toNat_add_of_lt rfl rfl (lt_of_le_uint32Max hend)
      simp [hnext, Nat.add_assoc, Nat.succ_mul, Nat.add_comm]

/-- The range of a run. -/
private theorem rangeOf_regular (hb : it.Bounded) {run : List UInt32}
    (hrun : run ∈ it.addresses.splitBy it.continues) :
    (it.rangeOf run).Regular it.elemSize ∧ (it.rangeOf run).addresses = run.map (·.toNat) := by
  have hmem : ∀ a ∈ run, a ∈ it.addresses := by
    intro a ha
    rw [← List.flatten_splitBy it.continues it.addresses]
    exact List.mem_flatten_of_mem hrun ha
  have heq := run_eq hb (List.isChain_of_mem_splitBy hrun) hmem
  have hpos : 0 < run.length := List.length_pos_iff.2 (List.ne_nil_of_mem_splitBy hrun)
  have hlast : (run.headD 0).toNat + (run.length - 1) * it.elemSize.toNat ∈ run.map (·.toNat) := by
    rw [heq]
    exact List.mem_map.2 ⟨run.length - 1, List.mem_range.2 (by omega), rfl⟩
  obtain ⟨a, ha, hlast⟩ := List.mem_map.1 hlast
  obtain ⟨hend, hsize⟩ := hb.mem (hmem a ha)
  have hbytes : run.length * it.elemSize.toNat = (run.length - 1) * it.elemSize.toNat + it.elemSize.toNat := by
    rw [← Nat.succ_mul]
    congr 1
    omega
  have hend' : (run.headD 0).toNat + run.length * it.elemSize.toNat ≤ uint32Max.toNat := by omega
  have hlen : run.length ≤ run.length * it.elemSize.toNat := Nat.le_mul_of_pos_right _ hsize
  have hlen' := toNat_eq_of_ofNat (a := UInt32.ofNat run.length) rfl (lt_of_le_uint32Max (by omega))
  have htotal : (it.rangeOf run).totalBytes.toNat = run.length * it.elemSize.toNat :=
    toNat_mul_of_lt hlen' rfl (lt_of_le_uint32Max (by omega))
  refine ⟨⟨rfl, rfl, hsize, ?_, ?_, ?_⟩, ?_⟩
  · rw [htotal]
    exact Nat.mul_pos hpos hsize
  · rw [htotal]
    exact Nat.dvd_mul_left _ _
  · rw [htotal]
    exact hend'
  · unfold TuAgenRange.addresses
    rw [htotal, heq]
    simp [TuAgenIterator.rangeOf, Nat.mul_div_cancel _ hsize]

theorem ranges_regular (hb : it.Bounded) {r : TuAgenRange} (hr : r ∈ it.ranges) : r.Regular it.elemSize := by
  obtain ⟨run, hrun, rfl⟩ := List.mem_map.1 hr
  exact (rangeOf_regular hb hrun).1

/-- The ranges expand to the address sequence. -/
theorem ranges_expand (hb : it.Bounded) :
    it.ranges.flatMap TuAgenRange.addresses = it.addresses.map (·.toNat) := by
  unfold TuAgenIterator.ranges
  have hruns : (it.addresses.splitBy it.continues).flatMap (fun run => (it.rangeOf run).addresses) =
      (it.addresses.splitBy it.continues).flatMap (fun run => run.map (·.toNat)) :=
    List.flatMap_congr fun run hrun => (rangeOf_regular hb hrun).2
  rw [List.flatMap_map, hruns, List.flatMap_def, ← List.map_flatten, List.flatten_splitBy]

end

/-! ### Accepted iterators -/

/-- An ordinal is the sum of its block and its place in the block. -/
private theorem block_bounded {cfg : TuAgenBlockConfig} {base : UInt32} {it : TuAgenIterator}
    (h : tuAgenIteratorInit (.blockInterleaved (some cfg)) base = some it) : it.Bounded := by
  unfold tuAgenIteratorInit at h
  dsimp only at h
  split at h
  · cases h
  · rename_i hvalid
    injection h with h
    rw [Bool.not_eq_true, Bool.not_eq_false'] at hvalid
    obtain ⟨hfits, _⟩ := (affineGeometryValid_iff _ _ _ _ _ _ _).1 hvalid
    have hsize := sizeOrFour_pos cfg.elemSize
    generalize (if cfg.blockWidth ≠ 0 then cfg.blockWidth else 1) = w at h
    constructor
    · intro i hi
      have hi' : i < cfg.count.toNat := by
        rw [← h] at hi
        exact hi
      have hlt : i < 2 ^ 32 := hi'.trans cfg.count.toNat_lt
      have hordinal : UInt32.ofNat i / w * w + UInt32.ofNat i % w = UInt32.ofNat i := by
        rw [ofNat_div hlt, ofNat_mod hlt, ← UInt32.toNat_inj]
        simp [Nat.div_add_mod']
      have haddress : it.address (UInt32.ofNat i) = base + UInt32.ofNat i * it.elemSize := by
        rw [← h]
        simp [TuAgenIterator.address, hordinal]
      have hend := hfits.2 _ (AffineLoops.mem_addresses.2 ⟨0, 0, i, by simp, by simp, hi', rfl⟩)
      have hend' : base.toNat + i * it.elemSize.toNat + it.elemSize.toNat ≤ uint32Max.toNat := by
        rw [← h]
        simpa [AffineLoops.address] using hend
      rw [toNat_uint32Max] at hend' ⊢
      have hoffset : (UInt32.ofNat i * it.elemSize).toNat = i * it.elemSize.toNat :=
        toNat_mul_of_lt (toNat_eq_of_ofNat rfl hlt) rfl (by omega)
      rw [haddress, toNat_add_of_lt rfl hoffset (by omega)]
      exact hend'
    · intro _
      rw [← h]
      exact hsize

/-- The elements of every iterator but an im2col one have bytes and end below `2 ^ 32`. -/
theorem bounded_of_init {config : TuAgenConfig} {base : UInt32} {it : TuAgenIterator}
    (h : tuAgenIteratorInit config base = some it) (hmode : it.mode ≠ .im2col) : it.Bounded := by
  cases config with
  | linear config =>
    cases config with
    | none =>
      -- without a configuration the source makes an empty iterator
      injection h with h
      rw [← h]
      exact ⟨fun i hi => absurd hi (Nat.not_lt_zero i), fun _ => Nat.one_pos⟩
    | some cfg => exact TuAgenAffine.bounded (.linear cfg) h
  | strided2d config =>
    cases config with
    | none => cases h
    | some cfg => exact TuAgenAffine.bounded (.strided2d cfg) h
  | strided3d config =>
    cases config with
    | none => cases h
    | some cfg => exact TuAgenAffine.bounded (.strided3d cfg) h
  | tiled2d config =>
    cases config with
    | none => cases h
    | some cfg => exact tiled2d_bounded h
  | tiled3d config =>
    cases config with
    | none => cases h
    | some cfg => exact tiled3d_bounded h
  | im2col config =>
    cases config with
    | none => cases h
    | some cfg =>
      unfold tuAgenIteratorInit at h
      dsimp only at h
      split at h
      · cases h
      · split at h
        · cases h
        · injection h with h
          rw [← h] at hmode
          exact absurd rfl hmode
  | blockInterleaved config =>
    cases config with
    | none => cases h
    | some cfg => exact block_bounded h
  | transposed config =>
    cases config with
    | none => cases h
    | some cfg => exact TuAgenAffine.bounded (.transposed cfg) h

/-- An accepted iterator, also one that has been advanced. -/
def TuAgenIterator.Accepted (it : TuAgenIterator) : Prop :=
  ∃ config base, tuAgenIteratorInit config base = some (tuAgenReset it)

/-- The bounds do not depend on the position. -/
theorem TuAgenIterator.Accepted.bounded {it : TuAgenIterator} (h : it.Accepted) (hmode : it.mode ≠ .im2col) :
    it.Bounded := by
  obtain ⟨config, base, hinit⟩ := h
  obtain ⟨hend, hsize⟩ := bounded_of_init hinit hmode
  exact ⟨hend, hsize⟩

/-! ### Nothing is lost -/

theorem TuAgenIterator.ranges_length_lt (it : TuAgenIterator) : it.ranges.length < 2 ^ 32 :=
  Nat.lt_of_le_of_lt it.ranges_length_le it.totalElements.toNat_lt

/-- A capacity of `UINT32_MAX` holds all ranges. -/
theorem tuAgenGenerateRanges_all (it : TuAgenIterator) : (tuAgenGenerateRanges it uint32Max).2.1 = it.ranges := by
  have hlt := it.ranges_length_lt
  rw [tuAgenGenerateRanges_eq it uint32Max (by decide)]
  exact List.take_of_length_le (Nat.le_of_lt_succ (by simpa [toNat_uint32Max] using hlt))

/-- **Coalescing loses nothing.**  A buffer of any nonzero capacity gets the first of all ranges, and the number of all is
returned; where they fit they expand to the addresses of the calls after a reset.  Without capacity nothing happens. -/
theorem ranges_coalesced {it : TuAgenIterator} (haccepted : it.Accepted) (hmode : it.mode ≠ .im2col) :
    (∀ maxRanges, maxRanges ≠ 0 →
      (tuAgenGenerateRanges it maxRanges).2.2 = (tuAgenGenerateRanges it uint32Max).2.2 ∧
        (tuAgenGenerateRanges it maxRanges).2.1 =
          (tuAgenGenerateRanges it uint32Max).2.1.take maxRanges.toNat) ∧
      (∀ maxRanges, maxRanges ≠ 0 → (tuAgenGenerateRanges it maxRanges).2.2 ≤ maxRanges →
        (tuAgenGenerateRanges it maxRanges).2.1.length = (tuAgenGenerateRanges it maxRanges).2.2.toNat ∧
          (tuAgenGenerateRanges it maxRanges).2.1.flatMap TuAgenRange.addresses =
            ((tuAgenReset it).nexts it.totalElements.toNat).map (·.toNat)) ∧
      tuAgenGenerateRanges it 0 = (it, [], 0) := by
  refine ⟨fun maxRanges hmax => ?_, fun maxRanges hmax hfit => ?_, rfl⟩
  · rw [tuAgenGenerateRanges_all, tuAgenGenerateRanges_eq it maxRanges hmax,
      tuAgenGenerateRanges_eq it uint32Max (by decide)]
    exact ⟨rfl, rfl⟩
  · have hcount : (UInt32.ofNat it.ranges.length).toNat = it.ranges.length :=
      toNat_eq_of_ofNat rfl it.ranges_length_lt
    rw [tuAgenGenerateRanges_eq it maxRanges hmax] at hfit ⊢
    dsimp only at hfit ⊢
    rw [UInt32.le_iff_toNat_le, hcount] at hfit
    rw [List.take_of_length_le hfit, hcount, nexts_reset, ranges_expand (haccepted.bounded hmode)]
    exact ⟨rfl, rfl⟩

/-- The rows of a `2 * 3` view with a row stride of 4 words. -/
private def rowsView : TuAgenIterator where
  mode := .strided2d
  baseAddr := 16
  elemSize := 4
  dims := triple 2 3 0
  strides := triple 4 0 0
  totalElements := 6

theorem ranges_coalesced_rows :
    (tuAgenGenerateRanges rowsView 1).2.2 = (tuAgenGenerateRanges rowsView uint32Max).2.2 ∧
      (tuAgenGenerateRanges rowsView 1).2.1 = (tuAgenGenerateRanges rowsView uint32Max).2.1.take 1 :=
  (ranges_coalesced ⟨.strided2d (some ⟨2, 3, 4⟩), 16, rfl⟩ (by decide)).1 1 (by decide)

/-- The count of no capacity is zero, the one of a capacity of one is two. -/
theorem count_rows :
    rowsView.Accepted ∧ rowsView.mode ≠ .im2col ∧ (tuAgenGenerateRanges rowsView 0).2.2 = 0 ∧
      (tuAgenGenerateRanges rowsView 1).2.2 = 2 :=
  ⟨⟨.strided2d (some ⟨2, 3, 4⟩), 16, rfl⟩, by decide, rfl, by decide +kernel⟩

end Tusim
