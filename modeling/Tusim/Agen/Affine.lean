import Tusim.Lib.Digits
import Tusim.Agen.AddressGenerator

/-!
# Affine address generation

The linear, strided and transposed modes walk three nested loops whose element addresses are affine in the loop
counters.  `AffineLoops` is this walk over unbounded integers.  The admission test bounds the last element; its
budget is counted in elements, so no product of the test leaves 64 bits.  An admitted walk stays below `UINT32_MAX`,
so the wrap-around of the iterator's arithmetic does not show.
-/

namespace Tusim

open Word Digits

/-- Three nested loops over unbounded integers. -/
structure AffineLoops where
  depth : Nat
  rows : Nat
  cols : Nat
  depthStride : Nat
  rowStride : Nat
  colStride : Nat
  size : Nat
deriving DecidableEq, Repr

namespace AffineLoops

def count (g : AffineLoops) : Nat := g.depth * g.rows * g.cols

def address (g : AffineLoops) (base z y x : Nat) : Nat :=
  base + (z * g.depthStride + y * g.rowStride + x * g.colStride) * g.size

/-- The addresses in the order of the loops. -/
def addresses (g : AffineLoops) (base : Nat) : List Nat :=
  (List.range g.depth).flatMap fun z => (List.range g.rows).flatMap fun y =>
    (List.range g.cols).map (g.address base z y)

/-- The number of elements and the end of every element are at most `UINT32_MAX`. -/
def Fits (g : AffineLoops) (base : Nat) : Prop :=
  g.count ≤ uint32Max.toNat ∧ ∀ a ∈ g.addresses base, a + g.size ≤ uint32Max.toNat

instance (g : AffineLoops) (base : Nat) : Decidable (g.Fits base) := by
  unfold Fits
  infer_instance

variable {g : AffineLoops} {base : Nat}

theorem mem_addresses {a : Nat} :
    a ∈ g.addresses base ↔ ∃ z y x, z < g.depth ∧ y < g.rows ∧ x < g.cols ∧ a = g.address base z y x := by
  unfold addresses
  simp only [List.mem_flatMap, List.mem_map, List.mem_range]
  constructor
  · rintro ⟨z, hz, y, hy, x, hx, rfl⟩
    exact ⟨z, y, x, hz, hy, hx, rfl⟩
  · rintro ⟨z, y, x, hz, hy, hx, rfl⟩
    exact ⟨z, hz, y, hy, x, hx, rfl⟩

/-- The walk as a table over the ordinals. -/
theorem addresses_eq (g : AffineLoops) (base : Nat) :
    g.addresses base =
      (List.range g.count).map fun i =>
        g.address base (i / (g.rows * g.cols)) (i / g.cols % g.rows) (i % g.cols) :=
  (map_range_mul_mul g.depth g.rows g.cols (g.address base)).symm

/-- The walk fits when its last element does. -/
theorem fits_iff (hpos : 0 < g.count) :
    g.Fits base ↔ g.count ≤ uint32Max.toNat ∧
      g.address base (g.depth - 1) (g.rows - 1) (g.cols - 1) + g.size ≤ uint32Max.toNat := by
  have hd : 0 < g.depth := Nat.pos_of_ne_zero fun h => by simp [count, h] at hpos
  have hr : 0 < g.rows := Nat.pos_of_ne_zero fun h => by simp [count, h] at hpos
  have hc : 0 < g.cols := Nat.pos_of_ne_zero fun h => by simp [count, h] at hpos
  constructor
  · rintro ⟨hcount, hend⟩
    exact ⟨hcount, hend _ (mem_addresses.2 ⟨_, _, _, by omega, by omega, by omega, rfl⟩)⟩
  · rintro ⟨hcount, hlast⟩
    refine ⟨hcount, fun a ha => ?_⟩
    obtain ⟨z, y, x, hz, hy, hx, rfl⟩ := mem_addresses.1 ha
    have hle : g.address base z y x ≤ g.address base (g.depth - 1) (g.rows - 1) (g.cols - 1) := by
      unfold address
      gcongr <;> omega
    omega

end AffineLoops

/-! ### The admission test -/

private theorem budget_iff {base size n : Nat} (hsize : 0 < size) (hbase : base ≤ uint32Max.toNat) :
    n ≤ (uint32Max.toNat - base) / size ↔ base + n * size ≤ uint32Max.toNat := by
  rw [Nat.le_div_iff_mul_le hsize]
  omega

/-- The budget of the test is what the last element of a walk leaves below the bound. -/
private theorem fits_iff_budget {base size : UInt32} {d r c ds rs : Nat} (hd : 0 < d) (hr : 0 < r) (hc : 0 < c)
    (hsize : 0 < size.toNat) :
    (AffineLoops.mk d r c ds rs 1 size.toNat).Fits base.toNat ↔
      d * r * c ≤ uint32Max.toNat ∧
        c + (r - 1) * rs + (d - 1) * ds ≤ (uint32Max.toNat - base.toNat) / size.toNat := by
  have hcount : 0 < (AffineLoops.mk d r c ds rs 1 size.toNat).count := Nat.mul_pos (Nat.mul_pos hd hr) hc
  have hbase : base.toNat ≤ uint32Max.toNat := by
    have hlt := base.toNat_lt
    simp
    omega
  have hlast : base.toNat + ((d - 1) * ds + (r - 1) * rs + (c - 1) * 1) * size.toNat + size.toNat =
      base.toNat + (c + (r - 1) * rs + (d - 1) * ds) * size.toNat := by
    rw [Nat.add_assoc, ← Nat.succ_mul]
    congr 2
    omega
  rw [AffineLoops.fits_iff hcount]
  dsimp only [AffineLoops.count, AffineLoops.address]
  rw [hlast, ← budget_iff hsize hbase]

/-- The test admits exactly the walks that fit, and no nonempty walk of elements without bytes. -/
theorem affineGeometryValid_iff (base d r c ds rs size : UInt32) :
    affineGeometryValid base d r c ds rs size = true ↔
      (AffineLoops.mk d.toNat r.toNat c.toNat ds.toNat rs.toNat 1 size.toNat).Fits base.toNat ∧
        (0 < d.toNat * r.toNat * c.toNat → 0 < size.toNat) := by
  unfold affineGeometryValid
  by_cases hempty : d = 0 ∨ r = 0 ∨ c = 0
  · have hcount : d.toNat * r.toNat * c.toNat = 0 := by
      rcases hempty with rfl | rfl | rfl <;> simp
    simp [hempty, hcount, AffineLoops.Fits, AffineLoops.addresses_eq, AffineLoops.count]
  rw [if_neg hempty]
  have hd : 0 < d.toNat := toNat_pos fun h => hempty (Or.inl h)
  have hr : 0 < r.toNat := toNat_pos fun h => hempty (Or.inr (Or.inl h))
  have hc : 0 < c.toNat := toNat_pos fun h => hempty (Or.inr (Or.inr h))
  have hpos : 0 < d.toNat * r.toNat * c.toNat := Nat.mul_pos (Nat.mul_pos hd hr) hc
  have hle : d.toNat * r.toNat ≤ d.toNat * r.toNat * c.toNat := Nat.le_mul_of_pos_right _ hc
  by_cases hsize : size = 0
  · simp [hsize, hpos]
  have hsize' := toNat_pos hsize
  have hbytes : (0 < d.toNat * r.toNat * c.toNat → 0 < size.toNat) ↔ True := ⟨fun _ => trivial, fun _ _ => hsize'⟩
  rw [fits_iff_budget hd hr hc hsize', hbytes, and_true]
  -- only the sizes of the products and of the two spans matter from here on
  generalize (uint32Max.toNat - base.toNat) / size.toNat = budget
  generalize (r.toNat - 1) * rs.toNat = rows
  generalize (d.toNat - 1) * ds.toNat = depths
  by_cases hcount : d.toNat * r.toNat * c.toNat ≤ uint32Max.toNat
  · have hno : ¬ (d.toNat * r.toNat > uint32Max.toNat ∨ d.toNat * r.toNat * c.toNat > uint32Max.toNat ∨ size = 0) := by
      rintro (h | h | h)
      · omega
      · omega
      · exact hsize h
    rw [if_neg hno]
    simp only [hcount, true_and]
    split
    · simp
      omega
    · split
      · simp
        omega
      · simp
        omega
  · have hyes : d.toNat * r.toNat > uint32Max.toNat ∨ d.toNat * r.toNat * c.toNat > uint32Max.toNat ∨ size = 0 :=
      Or.inr (Or.inl (Nat.not_le.1 hcount))
    rw [if_pos hyes]
    exact ⟨nofun, fun h => absurd h.1 hcount⟩

/-! ### The modes -/

/-- The affine modes with their configurations. -/
inductive TuAgenAffine
  | linear (config : TuAgenLinearConfig)
  | strided2d (config : TuAgen2dConfig)
  | strided3d (config : TuAgen3dConfig)
  | transposed (config : TuAgenTransposedConfig)
deriving DecidableEq, Repr

namespace TuAgenAffine

def config : TuAgenAffine → TuAgenConfig
  | .linear cfg => .linear (some cfg)
  | .strided2d cfg => .strided2d (some cfg)
  | .strided3d cfg => .strided3d (some cfg)
  | .transposed cfg => .transposed (some cfg)

/-- The loops of a mode: rows before columns, the columns of a transposed view before its rows. -/
def loops : TuAgenAffine → AffineLoops
  | .linear cfg =>
    { depth := 1, rows := 1, cols := cfg.elemCount.toNat, depthStride := 0, rowStride := 0, colStride := 1
      size := cfg.elemSize.toNat }
  | .strided2d cfg =>
    { depth := 1, rows := cfg.rows.toNat, cols := cfg.cols.toNat, depthStride := 0
      rowStride := cfg.rowStride.toNat, colStride := 1, size := 4 }
  | .strided3d cfg =>
    { depth := cfg.depth.toNat, rows := cfg.rows.toNat, cols := cfg.cols.toNat
      depthStride := cfg.depthStride.toNat, rowStride := cfg.rowStride.toNat, colStride := 1
      size := (sizeOrFour cfg.elemSize).toNat }
  | .transposed cfg =>
    { depth := 1, rows := cfg.cols.toNat, cols := cfg.rows.toNat, depthStride := 0, rowStride := 1
      colStride := cfg.cols.toNat, size := (sizeOrFour cfg.elemSize).toNat }

/-- The view fits, and the elements of a nonempty one have bytes. -/
def Admissible (view : TuAgenAffine) (base : UInt32) : Prop :=
  view.loops.Fits base.toNat ∧ (0 < view.loops.count → 0 < view.loops.size)

end TuAgenAffine

/-- An iterator with the count of the loops and their addresses, up to the wrap-around, yields the walk. -/
private theorem yields_loops {it : TuAgenIterator} {g : AffineLoops} {base : UInt32} (hcur : it.currentIdx = 0)
    (hfits : g.Fits base.toNat) (htotal : it.totalElements = UInt32.ofNat g.count)
    (haddress : ∀ i, i < g.count → it.address (UInt32.ofNat i) =
      UInt32.ofNat (g.address base.toNat (i / (g.rows * g.cols)) (i / g.cols % g.rows) (i % g.cols))) :
    it.Yields (g.addresses base.toNat) := by
  have hcount := toNat_eq_of_ofNat htotal (lt_of_le_uint32Max hfits.1)
  rw [AffineLoops.addresses_eq, ← hcount]
  apply TuAgenIterator.yields_of_address hcur
  intro i hi
  rw [hcount] at hi
  apply toNat_eq_of_ofNat (haddress i hi)
  have hmem : g.address base.toNat (i / (g.rows * g.cols)) (i / g.cols % g.rows) (i % g.cols) ∈
      g.addresses base.toNat := by
    rw [AffineLoops.addresses_eq]
    exact List.mem_map.2 ⟨i, List.mem_range.2 hi, rfl⟩
  -- the element ends below the bound, so its address does not wrap
  have hend := hfits.2 _ hmem
  exact lt_of_le_uint32Max (Nat.le_of_add_right_le hend)

private theorem pos_of_mul_pos {r c : UInt32} (h : 0 < r.toNat * c.toNat) : 0 < r ∧ 0 < c := by
  rw [UInt32.lt_iff_toNat_lt, UInt32.lt_iff_toNat_lt]
  exact ⟨Nat.pos_of_mul_pos_right h, Nat.pos_of_mul_pos_left h⟩

/-- The rows of a view bound the row of an ordinal. -/
private theorem div_mod_rows {i r c : Nat} (hi : i < r * c) : i / c % r = i / c := by
  apply Nat.mod_eq_of_lt
  apply Nat.div_lt_of_lt_mul
  rwa [Nat.mul_comm]

/-- The test and the iterator of a mode put together. -/
private theorem init_of_valid {valid : Bool} {it : TuAgenIterator} {view : TuAgenAffine} {base : UInt32}
    (hvalid : valid = true ↔ view.Admissible base)
    (hyields : view.Admissible base → it.Yields (view.loops.addresses base.toNat)) :
    ((if !valid then none else some it).isSome ↔ view.Admissible base) ∧
      ∀ it', (if !valid then none else some it) = some it' → it'.Yields (view.loops.addresses base.toNat) := by
  cases valid with
  | false => simpa using hvalid
  | true =>
    constructor
    · simpa using hvalid
    · intro it' h
      cases h
      exact hyields (hvalid.1 rfl)

private theorem linear_init (cfg : TuAgenLinearConfig) (base : UInt32) :
    ((tuAgenIteratorInit (TuAgenAffine.linear cfg).config base).isSome ↔ (TuAgenAffine.linear cfg).Admissible base) ∧
      ∀ it, tuAgenIteratorInit (TuAgenAffine.linear cfg).config base = some it →
        it.Yields ((TuAgenAffine.linear cfg).loops.addresses base.toNat) := by
  apply init_of_valid
  · exact affineGeometryValid_iff base 1 1 cfg.elemCount 0 0 cfg.elemSize
  · intro h
    apply yields_loops rfl h.1
    · simp [AffineLoops.count, TuAgenAffine.loops]
    · intro i hi
      have hi' : i < cfg.elemCount.toNat := by simpa [AffineLoops.count, TuAgenAffine.loops] using hi
      simp [TuAgenIterator.address, AffineLoops.address, TuAgenAffine.loops, Nat.mod_eq_of_lt hi', Nat.mod_one]

private theorem strided2d_init (cfg : TuAgen2dConfig) (base : UInt32) :
    ((tuAgenIteratorInit (TuAgenAffine.strided2d cfg).config base).isSome ↔
      (TuAgenAffine.strided2d cfg).Admissible base) ∧
      ∀ it, tuAgenIteratorInit (TuAgenAffine.strided2d cfg).config base = some it →
        it.Yields ((TuAgenAffine.strided2d cfg).loops.addresses base.toNat) := by
  apply init_of_valid
  · exact affineGeometryValid_iff base 1 cfg.rows cfg.cols 0 cfg.rowStride 4
  · intro h
    apply yields_loops rfl h.1
    · simp [AffineLoops.count, TuAgenAffine.loops]
    · intro i hi
      have hlt := lt_of_le_uint32Max ((Nat.le_of_lt hi).trans h.1.1)
      have hi' : i < cfg.rows.toNat * cfg.cols.toNat := by
        simpa [AffineLoops.count, TuAgenAffine.loops] using hi
      obtain ⟨hrows, hcols⟩ := pos_of_mul_pos (Nat.zero_lt_of_lt hi')
      simp [TuAgenIterator.address, AffineLoops.address, TuAgenAffine.loops, hrows, hcols, triple, ofNat_div hlt,
        ofNat_mod hlt, div_mod_rows hi']

private theorem strided3d_init (cfg : TuAgen3dConfig) (base : UInt32) :
    ((tuAgenIteratorInit (TuAgenAffine.strided3d cfg).config base).isSome ↔
      (TuAgenAffine.strided3d cfg).Admissible base) ∧
      ∀ it, tuAgenIteratorInit (TuAgenAffine.strided3d cfg).config base = some it →
        it.Yields ((TuAgenAffine.strided3d cfg).loops.addresses base.toNat) := by
  apply init_of_valid
  · exact affineGeometryValid_iff base cfg.depth cfg.rows cfg.cols cfg.depthStride cfg.rowStride
      (sizeOrFour cfg.elemSize)
  · intro h
    apply yields_loops rfl h.1
    · simp [AffineLoops.count, TuAgenAffine.loops]
    · intro i hi
      have hcount : cfg.depth.toNat * cfg.rows.toNat * cfg.cols.toNat ≤ uint32Max.toNat := h.1.1
      have hi' : i < cfg.depth.toNat * cfg.rows.toNat * cfg.cols.toNat := hi
      have hlt := lt_of_le_uint32Max ((Nat.le_of_lt hi').trans hcount)
      have hdepth : 0 < cfg.depth.toNat := Nat.pos_of_ne_zero fun h => by simp [h] at hi'
      have hplane : cfg.rows.toNat * cfg.cols.toNat ≤ uint32Max.toNat := by
        rw [Nat.mul_assoc] at hcount
        exact (Nat.le_mul_of_pos_left _ hdepth).trans hcount
      have hrem := (Nat.mod_le i (cfg.rows.toNat * cfg.cols.toNat)).trans_lt hlt
      have hmul := toNat_mul_of_lt (a := cfg.rows) (b := cfg.cols) rfl rfl (lt_of_le_uint32Max hplane)
      simp [TuAgenIterator.address, AffineLoops.address, TuAgenAffine.loops, triple, ofNat_div hlt, ofNat_mod hlt,
        hmul, ofNat_div hrem, ofNat_mod hrem, Nat.mod_mul_left_div_self, Nat.mod_mul_left_mod]

/-- Column-first and row-first walks of a matrix have the same elements. -/
private theorem fits_transposed (base r c size : Nat) :
    (AffineLoops.mk 1 r c 0 c 1 size).Fits base ↔ (AffineLoops.mk 1 c r 0 1 c size).Fits base := by
  have hcount : (AffineLoops.mk 1 r c 0 c 1 size).count = (AffineLoops.mk 1 c r 0 1 c size).count := by
    simp [AffineLoops.count, Nat.mul_comm]
  have hmem : ∀ a, a ∈ (AffineLoops.mk 1 r c 0 c 1 size).addresses base ↔
      a ∈ (AffineLoops.mk 1 c r 0 1 c size).addresses base := by
    intro a
    rw [AffineLoops.mem_addresses, AffineLoops.mem_addresses]
    constructor
    · rintro ⟨z, y, x, hz, hy, hx, rfl⟩
      exact ⟨z, x, y, hz, hx, hy, by simp [AffineLoops.address, Nat.add_comm]⟩
    · rintro ⟨z, x, y, hz, hx, hy, rfl⟩
      exact ⟨z, y, x, hz, hy, hx, by simp [AffineLoops.address, Nat.add_comm]⟩
  unfold AffineLoops.Fits
  simp only [hcount, hmem]

private theorem transposed_init (cfg : TuAgenTransposedConfig) (base : UInt32) :
    ((tuAgenIteratorInit (TuAgenAffine.transposed cfg).config base).isSome ↔
      (TuAgenAffine.transposed cfg).Admissible base) ∧
      ∀ it, tuAgenIteratorInit (TuAgenAffine.transposed cfg).config base = some it →
        it.Yields ((TuAgenAffine.transposed cfg).loops.addresses base.toNat) := by
  apply init_of_valid
  · rw [affineGeometryValid_iff]
    have hsize := sizeOrFour_pos cfg.elemSize
    constructor
    · rintro ⟨hfits, _⟩
      exact ⟨(fits_transposed _ _ _ _).1 hfits, fun _ => hsize⟩
    · rintro ⟨hfits, _⟩
      exact ⟨(fits_transposed _ _ _ _).2 hfits, fun _ => hsize⟩
  · intro h
    apply yields_loops rfl h.1
    · simp [AffineLoops.count, TuAgenAffine.loops, UInt32.mul_comm]
    · intro i hi
      have hlt := lt_of_le_uint32Max ((Nat.le_of_lt hi).trans h.1.1)
      have hi' : i < cfg.cols.toNat * cfg.rows.toNat := by
        simpa [AffineLoops.count, TuAgenAffine.loops] using hi
      simp [TuAgenIterator.address, AffineLoops.address, TuAgenAffine.loops, triple, ofNat_div hlt, ofNat_mod hlt,
        div_mod_rows hi', UInt32.add_comm]

private theorem eq_of_init {valid : Bool} {it it' : TuAgenIterator}
    (h : (if !valid then none else some it) = some it') : it = it' := by
  split at h
  · cases h
  · exact Option.some.inj h

/-- The iterator of an accepted view. -/
private theorem TuAgenAffine.fields_of_init {view : TuAgenAffine} {base : UInt32} {it : TuAgenIterator}
    (h : tuAgenIteratorInit view.config base = some it) :
    it.currentIdx = 0 ∧ it.totalElements = UInt32.ofNat view.loops.count ∧
      (0 < view.loops.count → it.elemSize.toNat = view.loops.size) := by
  cases view with
  | linear cfg =>
    rw [← eq_of_init h]
    simp [AffineLoops.count, TuAgenAffine.loops]
  | strided2d cfg =>
    rw [← eq_of_init h]
    refine ⟨rfl, by simp [AffineLoops.count, TuAgenAffine.loops], fun hpos => ?_⟩
    -- the element size of this mode is that of a nonempty view
    obtain ⟨hrows, hcols⟩ := pos_of_mul_pos (r := cfg.rows) (c := cfg.cols)
      (by simpa [AffineLoops.count, TuAgenAffine.loops] using hpos)
    simp [hrows, hcols, TuAgenAffine.loops]
  | strided3d cfg =>
    rw [← eq_of_init h]
    simp [AffineLoops.count, TuAgenAffine.loops]
  | transposed cfg =>
    rw [← eq_of_init h]
    simp [AffineLoops.count, TuAgenAffine.loops, UInt32.mul_comm]

private theorem TuAgenAffine.init (view : TuAgenAffine) (base : UInt32) :
    ((tuAgenIteratorInit view.config base).isSome ↔ view.Admissible base) ∧
      ∀ it, tuAgenIteratorInit view.config base = some it → it.Yields (view.loops.addresses base.toNat) := by
  cases view with
  | linear cfg => exact linear_init cfg base
  | strided2d cfg => exact strided2d_init cfg base
  | strided3d cfg => exact strided3d_init cfg base
  | transposed cfg => exact transposed_init cfg base

/-- The elements of an accepted view end below `2 ^ 32`. -/
theorem TuAgenAffine.bounded (view : TuAgenAffine) {base : UInt32} {it : TuAgenIterator}
    (h : tuAgenIteratorInit view.config base = some it) : it.Bounded := by
  obtain ⟨hcur, htotal, hsize⟩ := TuAgenAffine.fields_of_init h
  obtain ⟨hfits, hbytes⟩ := (view.init base).1.1 (by simp [h])
  have hcount := toNat_eq_of_ofNat htotal (lt_of_le_uint32Max hfits.1)
  have hlen : (view.loops.addresses base.toNat).length = it.totalElements.toNat := by
    rw [hcount, AffineLoops.addresses_eq, List.length_map, List.length_range]
  have haddress := ((view.init base).2 it h).address_eq hcur hlen
  constructor
  · intro i hi
    rw [hsize (by omega)]
    apply hfits.2
    rw [← haddress]
    exact List.mem_map.2 ⟨i, List.mem_range.2 hi, rfl⟩
  · intro hpos
    rw [hsize (by omega)]
    exact hbytes (by omega)

/-- An affine view is accepted exactly when it is admissible, and then the iterator yields its walk. -/
theorem tuAgenIteratorInit_affine (view : TuAgenAffine) (base : UInt32) :
    ((tuAgenIteratorInit view.config base).isSome ↔ view.Admissible base) ∧
      ∀ it, tuAgenIteratorInit view.config base = some it → it.Yields (view.loops.addresses base.toNat) :=
  view.init base

/-- A linear view of one element without bytes fits and is refused. -/
theorem linear_of_no_bytes :
    (TuAgenAffine.linear ⟨1, 0⟩).loops.Fits 0 ∧ tuAgenIteratorInit (TuAgenAffine.linear ⟨1, 0⟩).config 0 = none := by
  constructor
  · decide +kernel
  · rfl

end Tusim
