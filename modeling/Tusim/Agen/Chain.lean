import Tusim.Agen.Ranges
import Tusim.Dma.Execution

/-!
# Descriptor chains from iterators

`tuAgenDescChainFromIterator` counts the ranges of an iterator, replays it into a buffer of that size and builds a
linear descriptor for each range.  A byte of the region at offset `a` belongs to the host byte at `hostBase + a`, so
the transfers of a chain neither depend on the order of the ranges nor disturb each other where ranges overlap.
-/

namespace Tusim

open Word

/-- `none` where the source returns `NULL`. -/
def tuAgenDescFromRange (channel : UInt8) (direction : TuDmaDirection) (sram : Option Nat) (range : TuAgenRange)
    (hostPtr : Option Nat) : Option TuDmaDescriptor :=
  if sram.isNone ∨ hostPtr.isNone ∨ range.elemSize = 0 ∨ range.totalBytes = 0 ∨
      range.totalBytes % range.elemSize ≠ 0 ∨ (direction ≠ .hostToTu ∧ direction ≠ .tuToHost) then
    none
  else
    let desc : TuDmaDescriptor :=
      { descId := 0, type := .linear, direction, channel, elemSize := range.elemSize, totalBytes := range.totalBytes,
        dims := triple (range.totalBytes / range.elemSize) 1 1 }
    if direction = .hostToTu then some { desc with srcHost := hostPtr, dstRegion := sram, dstBase := range.baseAddr }
    else some { desc with srcRegion := sram, srcBase := range.baseAddr, dstHost := hostPtr }

/-- The engine with the descriptors of the chain, the iterator afterwards and the head of the chain. -/
def tuAgenDescChainFromIterator (e : TuDmaEngine) (it : TuAgenIterator) (channel : UInt8)
    (direction : TuDmaDirection) (sram hostBase : Option Nat) : TuDmaEngine × TuAgenIterator × Option Nat :=
  if sram.isNone ∨ hostBase.isNone ∨ it.elemSize = 0 ∨ (direction ≠ .hostToTu ∧ direction ≠ .tuToHost) then
    (e, it, none)
  else
    let scratch := tuAgenGenerateRanges it 1
    if scratch.2.2 = 0 then (e, scratch.1, none)
    else
      let replay := tuAgenGenerateRanges scratch.1 scratch.2.2
      if replay.2.2 ≠ scratch.2.2 then (e, replay.1, none)
      else
        let descs := replay.2.1.mapM fun range =>
          tuAgenDescFromRange channel direction sram range (hostBase.map (· + range.baseAddr.toNat))
        match descs with
        | none => (e, replay.1, none)
        | some descs =>
          let chain := newChain e descs
          (chain.1, replay.1, chain.2)

/-- Byte `a` belongs to an element the iterator yields. -/
def TuAgenIterator.Covers (it : TuAgenIterator) (a : Nat) : Prop :=
  ∃ x ∈ (tuAgenReset it).nexts it.totalElements.toNat, x.toNat ≤ a ∧ a < x.toNat + it.elemSize.toNat

/-- The covered bytes of region `r` come from the host; no other byte has changed. -/
structure LoadedFromHost (it : TuAgenIterator) (r hostBase : Nat) (m m' : Memory) : Prop where
  covered : ∀ a, it.Covers a → m'.read (.sram r a) = m.host (hostBase + a)
  sram : ∀ r' a, ¬ (r' = r ∧ it.Covers a) → m'.read (.sram r' a) = m.read (.sram r' a)
  idle : ∀ r', (m'.sram r').idleData = (m.sram r').idleData
  host : m'.host = m.host

/-- The covered bytes of region `r` are at the host; no other byte has changed. -/
structure StoredToHost (it : TuAgenIterator) (r hostBase : Nat) (m m' : Memory) : Prop where
  covered : ∀ a, it.Covers a → m'.host (hostBase + a) = m.read (.sram r a)
  host : ∀ x, (∀ a, it.Covers a → x ≠ hostBase + a) → m'.host x = m.host x
  sram : ∀ r' a, m'.read (.sram r' a) = m.read (.sram r' a)
  idle : ∀ r', (m'.sram r').idleData = (m.sram r').idleData

/-- The chain to the region loads the covered bytes, and the chain back restores them at the host, whatever the host
memory has become in between. -/
def RoundTrips (e : TuDmaEngine) (it : TuAgenIterator) (channel channel' : UInt8) (r hostBase : Nat) : Prop :=
  let load := tuAgenDescChainFromIterator e it channel .hostToTu (some r) (some hostBase)
  let e1 := executeChain load.1 load.2.2
  LoadedFromHost it r hostBase e.mem e1.mem ∧
    ∀ host : Nat → UInt8,
      let e2 : TuDmaEngine := { e1 with mem := { e1.mem with host := host } }
      let store := tuAgenDescChainFromIterator e2 load.2.1 channel' .tuToHost (some r) (some hostBase)
      let e3 := executeChain store.1 store.2.2
      StoredToHost it r hostBase e2.mem e3.mem ∧
        ∀ a, it.Covers a → e3.mem.host (hostBase + a) = e.mem.host (hostBase + a)

/-! ### The chain -/

/-- The descriptor of a range. -/
private def rangeDesc (channel : UInt8) (direction : TuDmaDirection) (r hostBase : Nat) (range : TuAgenRange) :
    TuDmaDescriptor :=
  let desc : TuDmaDescriptor :=
    { descId := 0, type := .linear, direction, channel, elemSize := range.elemSize, totalBytes := range.totalBytes,
      dims := triple (range.totalBytes / range.elemSize) 1 1 }
  if direction = .hostToTu then
    { desc with srcHost := some (hostBase + range.baseAddr.toNat), dstRegion := some r, dstBase := range.baseAddr }
  else
    { desc with srcRegion := some r, srcBase := range.baseAddr, dstHost := some (hostBase + range.baseAddr.toNat) }

section

variable {it : TuAgenIterator} {channel : UInt8} {direction : TuDmaDirection} {r hostBase : Nat}

private theorem descFromRange_eq {range : TuAgenRange} {size : UInt32} (hr : range.Regular size)
    (hdir : direction = .hostToTu ∨ direction = .tuToHost) :
    tuAgenDescFromRange channel direction (some r) range (some (hostBase + range.baseAddr.toNat)) =
      some (rangeDesc channel direction r hostBase range) := by
  have hsize : range.elemSize ≠ 0 := by
    rw [hr.elemSize_eq, ne_eq, ← UInt32.toNat_inj]
    exact Nat.ne_of_gt hr.size_pos
  have hbytes : range.totalBytes ≠ 0 := by
    rw [ne_eq, ← UInt32.toNat_inj]
    exact Nat.ne_of_gt hr.bytes_pos
  have hmod : range.totalBytes % range.elemSize = 0 := by
    rw [hr.elemSize_eq, ← UInt32.toNat_inj, UInt32.toNat_mod]
    exact Nat.mod_eq_zero_of_dvd hr.bytes_dvd
  unfold tuAgenDescFromRange rangeDesc
  rcases hdir with rfl | rfl <;> simp [hsize, hbytes, hmod]

private theorem mapM_eq_map {α β : Type} {f : α → Option β} {g : α → β} {l : List α}
    (h : ∀ x ∈ l, f x = some (g x)) : l.mapM f = some (l.map g) := by
  induction l with
  | nil => rfl
  | cons x l ih =>
    have hrest := ih fun y hy => h y (List.mem_cons_of_mem x hy)
    simp [List.mapM_cons, h x List.mem_cons_self, hrest]

/-- The builder makes one descriptor of each range. -/
private theorem descChain_eq (channel : UInt8) (r hostBase : Nat) (e : TuDmaEngine) (hb : it.Bounded)
    (hdir : direction = .hostToTu ∨ direction = .tuToHost) :
    let c := tuAgenDescChainFromIterator e it channel direction (some r) (some hostBase)
    (c.1, c.2.2) = newChain e (it.ranges.map (rangeDesc channel direction r hostBase)) ∧
      tuAgenReset c.2.1 = tuAgenReset it := by
  have hdir' : ¬ (direction ≠ .hostToTu ∧ direction ≠ .tuToHost) := by
    rintro ⟨h1, h2⟩
    exact hdir.elim h1 h2
  have hlen := it.ranges_length_le
  have hbound := it.totalElements.toNat_lt
  have hcount := toNat_eq_of_ofNat (a := UInt32.ofNat it.ranges.length) rfl (by omega)
  unfold tuAgenDescChainFromIterator
  by_cases hsize : it.elemSize = 0
  · have hnone : it.ranges = [] := by
      have htotal : ¬ 0 < it.totalElements.toNat := fun h => by
        have hpos := hb.size_pos h
        simp [hsize] at hpos
      rw [← List.length_eq_zero_iff]
      omega
    simp [hsize, hnone, newChain]
  · have hgo : ¬ ((some r).isNone = true ∨ (some hostBase).isNone = true ∨ it.elemSize = 0 ∨
        (direction ≠ .hostToTu ∧ direction ≠ .tuToHost)) := by
      simp [hsize, hdir']
    rw [if_neg hgo, tuAgenGenerateRanges_eq it 1 (by decide)]
    dsimp only
    by_cases hnone : it.ranges = []
    · have hzero : UInt32.ofNat it.ranges.length = 0 := by
        rw [hnone]
        rfl
      rw [if_pos hzero, hnone]
      exact ⟨rfl, rfl⟩
    · have hne : UInt32.ofNat it.ranges.length ≠ 0 := by
        rw [ne_eq, ← UInt32.toNat_inj, hcount]
        exact Nat.ne_of_gt (List.length_pos_iff.2 hnone)
      have hseek : (it.seek it.totalElements.toNat).ranges = it.ranges := rfl
      have hdescs : (it.ranges.take (UInt32.ofNat it.ranges.length).toNat).mapM (fun range =>
          tuAgenDescFromRange channel direction (some r) range
            ((some hostBase).map (· + range.baseAddr.toNat))) =
          some (it.ranges.map (rangeDesc channel direction r hostBase)) := by
        rw [hcount, List.take_length]
        exact mapM_eq_map fun range hrange => descFromRange_eq (ranges_regular hb hrange) hdir
      rw [if_neg hne, tuAgenGenerateRanges_eq _ _ hne, hseek]
      dsimp only
      rw [if_neg (not_not_intro rfl), hdescs]
      exact ⟨rfl, rfl⟩

/-! ### The bytes of the ranges -/

/-- The bytes of a range are those of its elements. -/
private theorem mem_range_iff {range : TuAgenRange} {size : UInt32} (hr : range.Regular size) {a : Nat} :
    (∃ x ∈ range.addresses, x ≤ a ∧ a < x + size.toNat) ↔
      range.baseAddr.toNat ≤ a ∧ a < range.baseAddr.toNat + range.totalBytes.toNat := by
  obtain ⟨n, hn⟩ := hr.bytes_dvd
  have hsize := hr.size_pos
  have haddresses : range.addresses =
      (List.range n).map fun i => range.baseAddr.toNat + i * size.toNat := by
    unfold TuAgenRange.addresses
    rw [hr.elemSize_eq, hr.stride_eq, hn, Nat.mul_div_cancel_left n hsize]
  rw [haddresses, hn]
  constructor
  · rintro ⟨x, hx, hle, hlt⟩
    obtain ⟨i, hi, rfl⟩ := List.mem_map.1 hx
    rw [List.mem_range] at hi
    have hend : (i + 1) * size.toNat ≤ n * size.toNat := Nat.mul_le_mul_right _ hi
    rw [Nat.succ_mul, Nat.mul_comm n] at hend
    omega
  · rintro ⟨hle, hlt⟩
    have hdiv := Nat.div_add_mod' (a - range.baseAddr.toNat) size.toNat
    have hmod := Nat.mod_lt (a - range.baseAddr.toNat) hsize
    have hi : (a - range.baseAddr.toNat) / size.toNat < n := Nat.div_lt_of_lt_mul (by omega)
    exact ⟨_, List.mem_map.2 ⟨_, List.mem_range.2 hi, rfl⟩, by omega, by omega⟩

/-- The iterator's elements cover the bytes of its ranges. -/
private theorem covers_iff (hb : it.Bounded) {a : Nat} :
    it.Covers a ↔ ∃ range ∈ it.ranges,
      range.baseAddr.toNat ≤ a ∧ a < range.baseAddr.toNat + range.totalBytes.toNat := by
  have hnexts : ((tuAgenReset it).nexts it.totalElements.toNat).map (·.toNat) =
      it.ranges.flatMap TuAgenRange.addresses := by
    rw [ranges_expand hb, nexts_reset]
  have hcovers : it.Covers a ↔ ∃ x ∈ it.ranges.flatMap TuAgenRange.addresses, x ≤ a ∧ a < x + it.elemSize.toNat := by
    rw [← hnexts]
    simp [TuAgenIterator.Covers]
  rw [hcovers]
  constructor
  · rintro ⟨x, hx, hxa⟩
    obtain ⟨range, hrange, hx⟩ := List.mem_flatMap.1 hx
    exact ⟨range, hrange, (mem_range_iff (ranges_regular hb hrange)).1 ⟨x, hx, hxa⟩⟩
  · rintro ⟨range, hrange, hin⟩
    obtain ⟨x, hx, hxa⟩ := (mem_range_iff (ranges_regular hb hrange)).2 hin
    exact ⟨x, List.mem_flatMap.2 ⟨range, hrange, hx⟩, hxa⟩

/-- Where byte `x` is copied to, and where from. -/
private def placeDst (direction : TuDmaDirection) (r hostBase x : Nat) : TuAddr :=
  if direction = .hostToTu then .sram r x else .host (hostBase + x)

private def placeSrc (direction : TuDmaDirection) (r hostBase x : Nat) : TuAddr :=
  if direction = .hostToTu then .host (hostBase + x) else .sram r x

/-- A descriptor of a range makes one copy. -/
private theorem pendingCopies_eq (e : TuDmaEngine) (hdir : direction = .hostToTu ∨ direction = .tuToHost)
    (hinternal : externalBoundary e.cfg = false) {range : TuAgenRange}
    (hfit : range.baseAddr.toNat + range.totalBytes.toNat ≤ (e.mem.sizes r).toNat) :
    pendingCopies e (rangeDesc channel direction r hostBase range) =
      [⟨placeDst direction r hostBase range.baseAddr.toNat, placeSrc direction r hostBase range.baseAddr.toNat,
        range.totalBytes.toNat⟩] := by
  have hvalid : descriptorSramSpansValid e.mem.sizes (rangeDesc channel direction r hostBase range) = true := by
    rcases hdir with rfl | rfl
    · simp [descriptorSramSpansValid, directionRegionsNamed, typeSpansFit, rangeDesc, sramRangeFits]
      omega
    · simp [descriptorSramSpansValid, directionRegionsNamed, typeSpansFit, rangeDesc, sramRangeFits]
      omega
  unfold pendingCopies
  rw [hvalid, hinternal]
  rcases hdir with rfl | rfl <;> rfl

/-- The ranges of covered bytes that fit a region fit it. -/
private theorem range_fits (hb : it.Bounded) {size : Nat} (hfit : ∀ a, it.Covers a → a < size) {range : TuAgenRange}
    (hrange : range ∈ it.ranges) : range.baseAddr.toNat + range.totalBytes.toNat ≤ size := by
  have hpos := (ranges_regular hb hrange).bytes_pos
  have hlast := hfit (range.baseAddr.toNat + range.totalBytes.toNat - 1)
    ((covers_iff hb).2 ⟨range, hrange, by omega, by omega⟩)
  omega

/-- Executing a chain copies the covered bytes to their places and changes no others. -/
private theorem executeChain_places (channel : UInt8) (hostBase : Nat) (e : TuDmaEngine) (hb : it.Bounded)
    (hdir : direction = .hostToTu ∨ direction = .tuToHost) (hfit : ∀ a, it.Covers a → a < (e.mem.sizes r).toNat)
    (hinternal : externalBoundary e.cfg = false) :
    let c := tuAgenDescChainFromIterator e it channel direction (some r) (some hostBase)
    let m := (executeChain c.1 c.2.2).mem
    (∀ x, it.Covers x → m.read (placeDst direction r hostBase x) = e.mem.read (placeSrc direction r hostBase x)) ∧
      (∀ a, (∀ x, it.Covers x → a ≠ placeDst direction r hostBase x) → m.read a = e.mem.read a) ∧
      ∀ r', (m.sram r').idleData = (e.mem.sram r').idleData := by
  intro c m
  obtain ⟨hc, _⟩ := descChain_eq channel r hostBase e hb hdir
  obtain ⟨copies, hcopies, hread, hidle⟩ :=
    executeChain_newChain e (it.ranges.map (rangeDesc channel direction r hostBase))
  rw [← hc] at hread hidle
  have hmem : ∀ c, c ∈ copies ↔ ∃ range ∈ it.ranges, c = ⟨placeDst direction r hostBase range.baseAddr.toNat,
      placeSrc direction r hostBase range.baseAddr.toNat, range.totalBytes.toNat⟩ := by
    intro c
    rw [hcopies]
    constructor
    · rintro ⟨desc, hdesc, hc⟩
      obtain ⟨range, hrange, rfl⟩ := List.mem_map.1 hdesc
      rw [pendingCopies_eq e hdir hinternal (range_fits hb hfit hrange)] at hc
      exact ⟨range, hrange, List.mem_singleton.1 hc⟩
    · rintro ⟨range, hrange, rfl⟩
      refine ⟨_, List.mem_map.2 ⟨range, hrange, rfl⟩, ?_⟩
      rw [pendingCopies_eq e hdir hinternal (range_fits hb hfit hrange)]
      exact List.mem_singleton_self _
  have hinj : ∀ x y, placeDst direction r hostBase x = placeDst direction r hostBase y → x = y := by
    rcases hdir with rfl | rfl <;> simp [placeDst]
  have hdisj : ∀ x y, placeSrc direction r hostBase x ≠ placeDst direction r hostBase y := by
    rcases hdir with rfl | rfl <;> simp [placeDst, placeSrc]
  -- a byte of several ranges has one place, so it does not matter which copy comes last
  have hcovers : ∀ x, (∃ b n, ⟨placeDst direction r hostBase b, placeSrc direction r hostBase b, n⟩ ∈ copies ∧
      b ≤ x ∧ x < b + n) ↔ it.Covers x := by
    intro x
    rw [covers_iff hb]
    constructor
    · rintro ⟨b, n, hin, hx⟩
      obtain ⟨range, hrange, heq⟩ := (hmem _).1 hin
      injection heq with hb _ hn
      rw [hinj _ _ hb, hn] at hx
      exact ⟨range, hrange, hx⟩
    · rintro ⟨range, hrange, hx⟩
      exact ⟨_, _, (hmem _).2 ⟨range, hrange, rfl⟩, hx⟩
  have hsrc : ∀ b k, (placeSrc direction r hostBase b).add k = placeSrc direction r hostBase (b + k) := by
    rcases hdir with rfl | rfl <;> simp [placeSrc, Nat.add_assoc]
  have hdst : ∀ b k, (placeDst direction r hostBase b).add k = placeDst direction r hostBase (b + k) := by
    rcases hdir with rfl | rfl <;> simp [placeDst, Nat.add_assoc]
  have hplaces : ∀ c ∈ copies, ∃ b, c = ⟨placeDst direction r hostBase b, placeSrc direction r hostBase b, c.bytes⟩ := by
    intro c hc
    obtain ⟨range, _, rfl⟩ := (hmem c).1 hc
    exact ⟨_, rfl⟩
  obtain ⟨hin, hout⟩ := copyAll_places hsrc hdst hinj hdisj hplaces e.mem
  simp only [hcovers] at hin hout
  exact ⟨fun x hx => (hread _).trans (hin x hx), fun a ha => (hread a).trans (hout a ha), hidle⟩

/-- Executing a chain to the region. -/
private theorem loaded_of_chain (e : TuDmaEngine) (hb : it.Bounded)
    (hfit : ∀ a, it.Covers a → a < (e.mem.sizes r).toNat) (hinternal : externalBoundary e.cfg = false) :
    let c := tuAgenDescChainFromIterator e it channel .hostToTu (some r) (some hostBase)
    LoadedFromHost it r hostBase e.mem (executeChain c.1 c.2.2).mem := by
  obtain ⟨hin, hout, hidle⟩ := executeChain_places channel hostBase e hb (Or.inl rfl) hfit
    hinternal
  refine ⟨hin, ?_, hidle, ?_⟩
  · intro r' a hother
    apply hout
    rintro x hx heq
    injection heq with hr ha
    exact hother ⟨hr, ha ▸ hx⟩
  · funext x
    exact hout (.host x) fun y _ heq => by cases heq

/-- Executing a chain from the region. -/
private theorem stored_of_chain (e : TuDmaEngine) (hb : it.Bounded)
    (hfit : ∀ a, it.Covers a → a < (e.mem.sizes r).toNat) (hinternal : externalBoundary e.cfg = false) :
    let c := tuAgenDescChainFromIterator e it channel .tuToHost (some r) (some hostBase)
    StoredToHost it r hostBase e.mem (executeChain c.1 c.2.2).mem := by
  obtain ⟨hin, hout, hidle⟩ := executeChain_places channel hostBase e hb (Or.inr rfl) hfit
    hinternal
  refine ⟨hin, ?_, ?_, hidle⟩
  · intro x hother
    apply hout (.host x)
    intro a ha heq
    injection heq with heq
    exact hother a ha heq
  · intro r' a
    exact hout (.sram r' a) fun y _ heq => by cases heq

/-- Coverage does not depend on the position of the iterator, nor do the bounds. -/
private theorem covers_bounded_congr {it' : TuAgenIterator} (h : tuAgenReset it' = tuAgenReset it) (hb : it.Bounded) :
    it'.Covers = it.Covers ∧ it'.Bounded := by
  have hb' : (tuAgenReset it).Bounded := ⟨hb.end_le, hb.size_pos⟩
  rw [← h] at hb'
  have hcovers : (tuAgenReset it').Covers = (tuAgenReset it).Covers := by rw [h]
  exact ⟨hcovers, hb'.end_le, hb'.size_pos⟩

/-- A chain goes from the host to the region and back in an engine whose boundary mode needs no external addresses. -/
theorem descChain_roundTrip {e : TuDmaEngine} (channel channel' : UInt8) (hostBase : Nat) (haccepted : it.Accepted)
    (hmode : it.mode ≠ .im2col) (hfit : ∀ a, it.Covers a → a < (e.mem.sizes r).toNat)
    (hinternal : externalBoundary e.cfg = false) :
    RoundTrips e it channel channel' r hostBase := by
  unfold RoundTrips
  intro load e1
  have hb := haccepted.bounded hmode
  obtain ⟨hchain, hreset⟩ := descChain_eq channel r hostBase e hb (Or.inl rfl)
  have hload : LoadedFromHost it r hostBase e.mem e1.mem := loaded_of_chain e hb hfit hinternal
  refine ⟨hload, fun host => ?_⟩
  intro e2 store e3
  obtain ⟨hcovers, hb'⟩ := covers_bounded_congr hreset hb
  obtain ⟨hcfg, hsizes⟩ := executeChain_frame load.1 load.2.2
  have hload1 : load.1 = (newChain e (it.ranges.map (rangeDesc channel .hostToTu r hostBase))).1 :=
    congrArg Prod.fst hchain
  have hinternal' : externalBoundary e2.cfg = false := by
    show externalBoundary e1.cfg = false
    rw [hcfg, hload1, newChain_eq]
    exact hinternal
  have hsizes' : e2.mem.sizes = e.mem.sizes := by
    show e1.mem.sizes = e.mem.sizes
    rw [hsizes, hload1, newChain_eq]
  have hfit' : ∀ a, load.2.1.Covers a → a < (e2.mem.sizes r).toNat := by
    rw [hcovers, hsizes']
    exact hfit
  have hstore : StoredToHost load.2.1 r hostBase e2.mem e3.mem := stored_of_chain e2 hb' hfit' hinternal'
  obtain ⟨hin, hhost, hsram, hidle⟩ := hstore
  rw [hcovers] at hin hhost
  refine ⟨⟨hin, hhost, hsram, hidle⟩, fun a ha => ?_⟩
  rw [hin a ha]
  exact hload.covered a ha

end

/-- An engine with regions of 16 bytes and host bytes `1`. -/
private def onesEngine (cfg : TuDmaConfig) : TuDmaEngine :=
  TuDmaEngine.fresh cfg { Memory.zero 16 with host := fun _ => 1 }

/-- The transposed view of a `2 * 2` matrix of two-byte elements. -/
private def transposedView : TuAgenIterator where
  mode := .transposed
  baseAddr := 4
  elemSize := 2
  dims := triple 2 2 0
  strides := triple 1 2 0
  totalElements := 4

private theorem transposedView_accepted : transposedView.Accepted :=
  ⟨.transposed (some ⟨2, 2, 2⟩), 4, by rfl⟩

private theorem transposedView_covers {a : Nat} : transposedView.Covers a ↔ 4 ≤ a ∧ a < 12 := by
  have hnexts : (tuAgenReset transposedView).nexts transposedView.totalElements.toNat = [4, 8, 6, 10] := by
    decide +kernel
  have hsize : transposedView.elemSize.toNat = 2 := rfl
  unfold TuAgenIterator.Covers
  rw [hnexts, hsize]
  simp
  omega

private theorem transposedView_fits (cfg : TuDmaConfig) :
    ∀ a, transposedView.Covers a → a < ((onesEngine cfg).mem.sizes 0).toNat := by
  intro a ha
  have hlt := (transposedView_covers.1 ha).2
  have hsize : ((onesEngine cfg).mem.sizes 0).toNat = 16 := rfl
  omega

theorem descChain_roundTrip_transposed :
    let cfg : TuDmaConfig :=
      { asyncMode := true, numChannels := 1, maxDepth := 4, numChannels_pos := by decide, numChannels_le := by decide,
        maxDepth_pos := by decide }
    RoundTrips (onesEngine cfg) transposedView 0 0 0 0 :=
  descChain_roundTrip 0 0 0 transposedView_accepted (by decide) (transposedView_fits _) rfl

/-- In a mode that needs external addresses the descriptors of a chain, which have none, are not executed. -/
theorem not_roundTrips_external :
    let cfg : TuDmaConfig :=
      { asyncMode := true, numChannels := 1, maxDepth := 4, burstBoundaryMode := .external4k,
        numChannels_pos := by decide, numChannels_le := by decide, maxDepth_pos := by decide }
    transposedView.Accepted ∧ transposedView.mode ≠ .im2col ∧
      (∀ a, transposedView.Covers a → a < ((onesEngine cfg).mem.sizes 0).toNat) ∧
      ¬ RoundTrips (onesEngine cfg) transposedView 0 0 0 0 := by
  refine ⟨transposedView_accepted, by decide, transposedView_fits _, fun h => ?_⟩
  have hcopied := h.1.covered 4 (transposedView_covers.2 (by omega))
  exact absurd hcopied (by decide +kernel)

end Tusim
