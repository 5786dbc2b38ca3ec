import Mathlib.Data.Finset.Card
import Mathlib.Order.Interval.Finset.Nat
import Tusim.Lib.Digits
import Tusim.Agen.AddressGenerator

/-!
# Tiled iteration

`tiledOffset` splits an ordinal into the tile along the depth, the tile along the rows, the tile along the columns and
the place inside the tile; the ordinals of a clipped tile are counted with its own extents.  `tileOrder` is the order
meant: tiles in row-major order, elements in row-major order inside a tile.  The enumeration follows from splitting
the loop over the ordinals once for each axis (`map_range_tiles`); that every offset occurs once follows from the
order.
-/

namespace Tusim

open Word Digits

/-- The offsets of a tensor tile by tile. -/
def tileOrder (d r c td tr tc : Nat) : List Nat :=
  (tiles d td).flatMap fun zs => (tiles r tr).flatMap fun ys => (tiles c tc).flatMap fun xs =>
    zs.flatMap fun z => ys.flatMap fun y => xs.map fun x => (z * r + y) * c + x

/-- What `tiledOffset` computes over unbounded integers: its products and sums, the operands of its differences, and
the offset. -/
structure TiledSteps where
  values : List Nat
  differences : List (Nat × Nat)
  offset : Nat

def tiledSteps (idx d r c td tr tc : Nat) : TiledSteps :=
  let td := min td d
  let tr := min tr r
  let tc := min tc c
  let depthSlab := td * r * c
  let db := idx / depthSlab * td
  let de := min td (d - db)
  let idx1 := idx % depthSlab
  let rowSlab := de * tr * c
  let rb := idx1 / rowSlab * tr
  let re := min tr (r - rb)
  let idx2 := idx1 % rowSlab
  let colSlab := de * re * tc
  let cb := idx2 / colSlab * tc
  let ce := min tc (c - cb)
  let idx3 := idx2 % colSlab
  let dz := idx3 / (re * ce)
  let ry := idx3 / ce % re
  let cx := idx3 % ce
  { values :=
      [td * r, depthSlab, db, de * tr, rowSlab, rb, de * re, colSlab, cb, re * ce, db + dz, (db + dz) * r,
        (db + dz) * r + rb, (db + dz) * r + rb + ry, ((db + dz) * r + rb + ry) * c,
        ((db + dz) * r + rb + ry) * c + cb, ((db + dz) * r + rb + ry) * c + cb + cx]
    differences := [(d, db), (r, rb), (c, cb)]
    offset := ((db + dz) * r + rb + ry) * c + cb + cx }

/-- A tensor and a tile without empty axes; the volume of the tensor fits 32 bits. -/
structure TileGeometry where
  d : UInt32
  r : UInt32
  c : UInt32
  td : UInt32
  tr : UInt32
  tc : UInt32
  d_pos : 0 < d.toNat
  r_pos : 0 < r.toNat
  c_pos : 0 < c.toNat
  td_pos : 0 < td.toNat
  tr_pos : 0 < tr.toNat
  tc_pos : 0 < tc.toNat
  volume_lt : d.toNat * r.toNat * c.toNat < 2 ^ 32

namespace TileGeometry

def volume (t : TileGeometry) : Nat := t.d.toNat * t.r.toNat * t.c.toNat

/-- The offset of an ordinal as the code computes it. -/
def offset (t : TileGeometry) (i : Nat) : Nat := (tiledOffset (UInt32.ofNat i) t.d t.r t.c t.td t.tr t.tc).toNat

/-- The same computation over unbounded integers. -/
def steps (t : TileGeometry) (i : Nat) : TiledSteps :=
  tiledSteps i t.d.toNat t.r.toNat t.c.toNat t.td.toNat t.tr.toNat t.tc.toNat

/-- The ordinals enumerate the tensor tile by tile, one to one, and nothing leaves 32 bits on the way. -/
structure VisitsOnce (t : TileGeometry) : Prop where
  order : (List.range t.volume).map t.offset =
    tileOrder t.d.toNat t.r.toNat t.c.toNat t.td.toNat t.tr.toNat t.tc.toNat
  bijective : Set.BijOn t.offset (Set.Iio t.volume) (Set.Iio t.volume)
  offset_eq : ∀ i, i < t.volume → t.offset i = (t.steps i).offset
  values_lt : ∀ i, i < t.volume → ∀ x ∈ (t.steps i).values, x < 2 ^ 32
  differences_le : ∀ i, i < t.volume → ∀ p ∈ (t.steps i).differences, p.2 ≤ p.1

end TileGeometry

/-! ### The enumeration -/

section

variable (d r c td tr tc : Nat)

/-- The offset of a place in a tile. -/
private def placeOffset (db rb re cb ce i : Nat) : Nat := ((db + i / (re * ce)) * r + rb + i / ce % re) * c + cb + i % ce

/-- The offset of an ordinal in the tiles of the columns. -/
private def colOffset (db de rb re i : Nat) : Nat :=
  placeOffset r c db rb re (i / (de * re * tc) * tc) (min tc (c - i / (de * re * tc) * tc)) (i % (de * re * tc))

/-- The offset of an ordinal in the tiles of the rows. -/
private def rowOffset (db de i : Nat) : Nat :=
  colOffset r c tc db de (i / (de * tr * c) * tr) (min tr (r - i / (de * tr * c) * tr)) (i % (de * tr * c))

/-- The offset of an ordinal in the tiles of the depth. -/
private def depthOffset (i : Nat) : Nat :=
  rowOffset r c tr tc (i / (td * r * c) * td) (min td (d - i / (td * r * c) * td)) (i % (td * r * c))

private theorem map_placeOffset (db de rb re cb ce : Nat) :
    (List.range (de * re * ce)).map (placeOffset r c db rb re cb ce) =
      ((List.range de).map (db + ·)).flatMap fun z => ((List.range re).map (rb + ·)).flatMap fun y =>
        ((List.range ce).map (cb + ·)).map fun x => (z * r + y) * c + x := by
  have h := map_range_mul_mul de re ce fun z y x => ((db + z) * r + rb + y) * c + cb + x
  simp only [List.flatMap_map, List.map_map, Function.comp_def]
  simp only [Nat.add_assoc] at h ⊢
  rw [← h]
  unfold placeOffset
  simp only [Nat.add_assoc]

private theorem map_colOffset {tc : Nat} (htc : 0 < tc) (db de rb re : Nat) :
    (List.range (de * re * c)).map (colOffset r c tc db de rb re) =
      (tiles c tc).flatMap fun xs => ((List.range de).map (db + ·)).flatMap fun z =>
        ((List.range re).map (rb + ·)).flatMap fun y => xs.map fun x => (z * r + y) * c + x := by
  unfold colOffset tiles
  rw [Nat.mul_comm (de * re) c, Nat.mul_comm (de * re) tc,
    map_range_tiles (n := c) (w := de * re) htc (placeOffset r c db rb re), List.flatMap_map]
  apply List.flatMap_congr
  intro p _
  rw [Nat.mul_comm p.2]
  exact map_placeOffset r c db de rb re p.1 p.2

private theorem map_rowOffset {tr tc : Nat} (htr : 0 < tr) (htc : 0 < tc) (db de : Nat) :
    (List.range (de * r * c)).map (rowOffset r c tr tc db de) =
      (tiles r tr).flatMap fun ys => (tiles c tc).flatMap fun xs =>
        ((List.range de).map (db + ·)).flatMap fun z => ys.flatMap fun y => xs.map fun x => (z * r + y) * c + x := by
  -- a slab of this axis holds the tile extent of the depth and the whole columns
  have hrange : de * r * c = r * (de * c) := by rw [Nat.mul_comm de r, Nat.mul_assoc]
  have hslab : de * tr * c = tr * (de * c) := by rw [Nat.mul_comm de tr, Nat.mul_assoc]
  unfold rowOffset tiles
  rw [hrange, hslab, map_range_tiles (n := r) (w := de * c) htr (colOffset r c tc db de), List.flatMap_map]
  apply List.flatMap_congr
  intro p _
  have hinner : p.2 * (de * c) = de * p.2 * c := by rw [← Nat.mul_assoc, Nat.mul_comm p.2]
  rw [hinner]
  exact map_colOffset r c htc db de p.1 p.2

private theorem map_depthOffset {td tr tc : Nat} (htd : 0 < td) (htr : 0 < tr) (htc : 0 < tc) :
    (List.range (d * r * c)).map (depthOffset d r c td tr tc) = tileOrder d r c td tr tc := by
  unfold depthOffset tileOrder
  rw [Nat.mul_assoc d, Nat.mul_assoc td,
    map_range_tiles (n := d) (w := r * c) htd (rowOffset r c tr tc)]
  unfold tiles
  rw [List.flatMap_map]
  apply List.flatMap_congr
  intro p _
  rw [← Nat.mul_assoc]
  exact map_rowOffset r c htr htc p.1 p.2

/-- A tile larger than an axis is clipped to the axis. -/
private theorem tileOrder_min {d r c td tr tc : Nat} (hd : 0 < d) (hr : 0 < r) (hc : 0 < c) (htd : 0 < td)
    (htr : 0 < tr) (htc : 0 < tc) :
    tileOrder d r c (min td d) (min tr r) (min tc c) = tileOrder d r c td tr tc := by
  unfold tileOrder tiles
  rw [tileSpans_min hd htd, tileSpans_min hr htr, tileSpans_min hc htc]

theorem map_tiledSteps {d r c td tr tc : Nat} (hd : 0 < d) (hr : 0 < r) (hc : 0 < c) (htd : 0 < td) (htr : 0 < tr)
    (htc : 0 < tc) :
    (List.range (d * r * c)).map (fun i => (tiledSteps i d r c td tr tc).offset) = tileOrder d r c td tr tc := by
  have h := map_depthOffset d r c (show 0 < min td d by omega) (show 0 < min tr r by omega)
    (show 0 < min tc c by omega)
  rw [tileOrder_min hd hr hc htd htr htc] at h
  exact h

end

/-! ### Every offset once -/

theorem mem_tileOrder {d r c td tr tc a : Nat} (htd : 0 < td) (htr : 0 < tr) (htc : 0 < tc) :
    a ∈ tileOrder d r c td tr tc ↔ ∃ z y x, z < d ∧ y < r ∧ x < c ∧ a = (z * r + y) * c + x := by
  unfold tileOrder
  simp only [List.mem_flatMap, List.mem_map]
  constructor
  · rintro ⟨zs, hzs, ys, hys, xs, hxs, z, hz, y, hy, x, hx, rfl⟩
    exact ⟨z, y, x, (mem_tiles htd).1 ⟨zs, hzs, hz⟩, (mem_tiles htr).1 ⟨ys, hys, hy⟩, (mem_tiles htc).1 ⟨xs, hxs, hx⟩,
      rfl⟩
  · rintro ⟨z, y, x, hz, hy, hx, rfl⟩
    obtain ⟨zs, hzs, hz⟩ := (mem_tiles htd).2 hz
    obtain ⟨ys, hys, hy⟩ := (mem_tiles htr).2 hy
    obtain ⟨xs, hxs, hx⟩ := (mem_tiles htc).2 hx
    exact ⟨zs, hzs, ys, hys, xs, hxs, z, hz, y, hy, x, hx, rfl⟩

/-- The tiles hold the offsets of the tensor. -/
theorem mem_tileOrder_iff_lt {d r c td tr tc a : Nat} (htd : 0 < td) (htr : 0 < tr) (htc : 0 < tc) :
    a ∈ tileOrder d r c td tr tc ↔ a < d * r * c := by
  rw [mem_tileOrder htd htr htc]
  constructor
  · rintro ⟨z, y, x, hz, hy, hx, rfl⟩
    exact mul_add_lt (mul_add_lt hz hy) hx
  · intro h
    have hc : 0 < c := Nat.pos_of_ne_zero fun h0 => by simp [h0] at h
    have hr : 0 < r := Nat.pos_of_ne_zero fun h0 => by simp [h0] at h
    refine ⟨a / c / r, a / c % r, a % c, ?_, Nat.mod_lt _ hr, Nat.mod_lt _ hc, ?_⟩
    · rw [Nat.div_div_eq_div_mul]
      apply Nat.div_lt_of_lt_mul
      calc a < d * r * c := h
        _ = c * r * d := by rw [Nat.mul_assoc, Nat.mul_comm, Nat.mul_comm c r]
    · rw [Nat.div_add_mod' (a / c), Nat.div_add_mod']

/-! ### 32-bit arithmetic -/

/-- Nothing exceeds the volume on the way, and no start of a tile exceeds its axis. -/
private theorem tiledSteps_bounds {idx d r c td tr tc : Nat} (htd : 0 < td) (htr : 0 < tr) (htc : 0 < tc)
    (hd : 0 < d) (hr : 0 < r) (hc : 0 < c) (hidx : idx < d * r * c) :
    (∀ x ∈ (tiledSteps idx d r c td tr tc).values, x ≤ d * r * c) ∧
      ∀ p ∈ (tiledSteps idx d r c td tr tc).differences, p.2 ≤ p.1 := by
  unfold tiledSteps
  extract_lets td' tr' tc' depthSlab db de idx1 rowSlab rb re idx2 colSlab cb ce idx3 dz ry cx
  have htd' : 0 < td' ∧ td' ≤ d := by omega
  have htr' : 0 < tr' ∧ tr' ≤ r := by omega
  have htc' : 0 < tc' ∧ tc' ≤ c := by omega
  have hdepth := tile_bounds (n := d) (t := td') (w := r * c) htd'.1 (by rwa [← Nat.mul_assoc])
  rw [← Nat.mul_assoc td'] at hdepth
  obtain ⟨hdb, hde, hdbe, hidx1⟩ : db < d ∧ 0 < de ∧ db + de ≤ d ∧ idx1 < de * (r * c) := hdepth
  have hrow := tile_bounds (n := r) (t := tr') (w := de * c) (i := idx1) htr'.1 (by rwa [Nat.mul_left_comm])
  rw [Nat.mul_left_comm tr', ← Nat.mul_assoc de] at hrow
  obtain ⟨hrb, hre, hrbe, hidx2⟩ : rb < r ∧ 0 < re ∧ rb + re ≤ r ∧ idx2 < re * (de * c) := hrow
  have hcol := tile_bounds (n := c) (t := tc') (w := de * re) (i := idx2) htc'.1 (by
    calc idx2 < re * (de * c) := hidx2
      _ = c * (de * re) := by rw [Nat.mul_comm c, Nat.mul_comm de re, Nat.mul_assoc])
  rw [Nat.mul_comm tc'] at hcol
  obtain ⟨hcb, hce, hcbe, hidx3⟩ : cb < c ∧ 0 < ce ∧ cb + ce ≤ c ∧ idx3 < ce * (de * re) := hcol
  have hdz : dz < de := Nat.div_lt_of_lt_mul (by rwa [Nat.mul_comm re, Nat.mul_assoc, Nat.mul_comm re])
  have hry : ry < re := Nat.mod_lt _ hre
  have hcx : cx < ce := Nat.mod_lt _ hce
  have hplane : (db + dz) * r + (rb + ry) < d * r := mul_add_lt (by omega) (by omega)
  have hplace : ((db + dz) * r + (rb + ry)) * c + (cb + cx) < d * r * c := mul_add_lt hplane (by omega)
  have hslice : r ≤ r * c ∧ c ≤ r * c := ⟨Nat.le_mul_of_pos_right r hc, Nat.le_mul_of_pos_left c hr⟩
  have hvolume : d * r ≤ d * r * c ∧ r * c ≤ d * r * c ∧ d ≤ d * r := by
    refine ⟨Nat.le_mul_of_pos_right _ hc, ?_, Nat.le_mul_of_pos_right d hr⟩
    rw [Nat.mul_assoc]
    exact Nat.le_mul_of_pos_left _ hd
  have hdepthSlab : td' * r ≤ d * r ∧ depthSlab ≤ d * r * c :=
    ⟨Nat.mul_le_mul_right r htd'.2, Nat.mul_le_mul_right c (Nat.mul_le_mul_right r htd'.2)⟩
  have hrowSlab : de * tr' ≤ d * r ∧ rowSlab ≤ d * r * c := by
    have h : de * tr' ≤ d * r := Nat.mul_le_mul (by omega) htr'.2
    exact ⟨h, Nat.mul_le_mul_right c h⟩
  have hcolSlab : de * re ≤ d * r ∧ colSlab ≤ d * r * c := by
    have h : de * re ≤ d * r := Nat.mul_le_mul (by omega) (by omega)
    exact ⟨h, Nat.mul_le_mul h htc'.2⟩
  have hrest : re * ce ≤ r * c := Nat.mul_le_mul (by omega) (by omega)
  have hmul : ((db + dz) * r + rb + ry) * c + cb + cx = ((db + dz) * r + (rb + ry)) * c + (cb + cx) := by
    simp only [Nat.add_assoc]
  constructor
  · simp only [List.forall_mem_cons]
    and_intros <;> first | omega | simp
  · simp only [List.forall_mem_cons]
    and_intros <;> first | omega | simp

private theorem toNat_minU32 {a b : UInt32} {x y : Nat} (ha : a.toNat = x) (hb : b.toNat = y) :
    (minU32 a b).toNat = min x y := by
  unfold minU32
  split
  · rename_i h
    rw [UInt32.lt_iff_toNat_lt] at h
    omega
  · rename_i h
    rw [UInt32.lt_iff_toNat_lt] at h
    omega

/-- Where no step leaves 32 bits the code computes the offset over unbounded integers. -/
private theorem toNat_tiledOffset {idx d r c td tr tc : UInt32}
    (hvalues : ∀ x ∈ (tiledSteps idx.toNat d.toNat r.toNat c.toNat td.toNat tr.toNat tc.toNat).values, x < 2 ^ 32)
    (hdiffs : ∀ p ∈ (tiledSteps idx.toNat d.toNat r.toNat c.toNat td.toNat tr.toNat tc.toNat).differences,
      p.2 ≤ p.1) :
    (tiledOffset idx d r c td tr tc).toNat =
      (tiledSteps idx.toNat d.toNat r.toNat c.toNat td.toNat tr.toNat tc.toNat).offset := by
  simp only [tiledSteps, List.forall_mem_cons] at hvalues hdiffs
  obtain ⟨h1, h2, h3, h4, h5, h6, h7, h8, h9, h10, h11, h12, h13, h14, h15, h16, h17, _⟩ := hvalues
  obtain ⟨hd1, hd2, hd3, _⟩ := hdiffs
  have htd := toNat_minU32 (a := td) (b := d) rfl rfl
  have htr := toNat_minU32 (a := tr) (b := r) rfl rfl
  have htc := toNat_minU32 (a := tc) (b := c) rfl rfl
  have hdepthSlab := toNat_mul_of_lt (toNat_mul_of_lt htd rfl h1) rfl h2
  have hdb := toNat_mul_of_lt (toNat_div_eq (a := idx) rfl hdepthSlab) htd h3
  have hde := toNat_minU32 htd (toNat_sub_of_le rfl hdb hd1)
  have hidx1 := toNat_mod_eq (a := idx) rfl hdepthSlab
  have hrowSlab := toNat_mul_of_lt (toNat_mul_of_lt hde htr h4) rfl h5
  have hrb := toNat_mul_of_lt (toNat_div_eq hidx1 hrowSlab) htr h6
  have hre := toNat_minU32 htr (toNat_sub_of_le rfl hrb hd2)
  have hidx2 := toNat_mod_eq hidx1 hrowSlab
  have hcolSlab := toNat_mul_of_lt (toNat_mul_of_lt hde hre h7) htc h8
  have hcb := toNat_mul_of_lt (toNat_div_eq hidx2 hcolSlab) htc h9
  have hce := toNat_minU32 htc (toNat_sub_of_le rfl hcb hd3)
  have hidx3 := toNat_mod_eq hidx2 hcolSlab
  have hdz := toNat_div_eq hidx3 (toNat_mul_of_lt hre hce h10)
  have hry := toNat_mod_eq (toNat_div_eq hidx3 hce) hre
  have hcx := toNat_mod_eq hidx3 hce
  have hz := toNat_mul_of_lt (toNat_add_of_lt hdb hdz h11) rfl h12
  have hzy := toNat_mul_of_lt (toNat_add_of_lt (toNat_add_of_lt hz hrb h13) hry h14) rfl h15
  exact toNat_add_of_lt (toNat_add_of_lt hzy hcb h16) hcx h17

/-! ### Visits -/

namespace TileGeometry

variable (t : TileGeometry)

private theorem toNat_ordinal {i : Nat} (hi : i < t.volume) : (UInt32.ofNat i).toNat = i :=
  UInt32.toNat_ofNat_of_lt' (hi.trans t.volume_lt)

private theorem steps_bounds {i : Nat} (hi : i < t.volume) :
    (∀ x ∈ (t.steps i).values, x < 2 ^ 32) ∧ ∀ p ∈ (t.steps i).differences, p.2 ≤ p.1 := by
  have h := tiledSteps_bounds t.td_pos t.tr_pos t.tc_pos t.d_pos t.r_pos t.c_pos hi
  exact ⟨fun x hx => (h.1 x hx).trans_lt t.volume_lt, h.2⟩

private theorem offset_eq_steps {i : Nat} (hi : i < t.volume) : t.offset i = (t.steps i).offset := by
  obtain ⟨hvalues, hdiffs⟩ := t.steps_bounds hi
  have hidx := t.toNat_ordinal hi
  unfold steps at hvalues hdiffs ⊢
  rw [← hidx] at hvalues hdiffs
  rw [offset, toNat_tiledOffset hvalues hdiffs, hidx]

private theorem map_offset : (List.range t.volume).map t.offset =
    tileOrder t.d.toNat t.r.toNat t.c.toNat t.td.toNat t.tr.toNat t.tc.toNat := by
  rw [← map_tiledSteps t.d_pos t.r_pos t.c_pos t.td_pos t.tr_pos t.tc_pos]
  apply List.map_congr_left
  intro i hi
  exact t.offset_eq_steps (List.mem_range.1 hi)

/-- The offsets of the ordinals are the numbers below the volume. -/
private theorem offset_mem {a : Nat} : (∃ i, i < t.volume ∧ t.offset i = a) ↔ a < t.volume := by
  have hmem := mem_tileOrder_iff_lt (d := t.d.toNat) (r := t.r.toNat) (c := t.c.toNat) (a := a) t.td_pos t.tr_pos
    t.tc_pos
  rw [← t.map_offset, List.mem_map] at hmem
  simp only [List.mem_range] at hmem
  exact hmem

theorem offset_lt {i : Nat} (hi : i < t.volume) : t.offset i < t.volume := t.offset_mem.1 ⟨i, hi, rfl⟩

theorem visitsOnce : t.VisitsOnce := by
  have hmaps : Set.MapsTo t.offset (Finset.range t.volume) (Finset.range t.volume) := by
    intro i hi
    simp only [Finset.coe_range, Set.mem_Iio] at hi ⊢
    exact t.offset_lt hi
  have hsurj : Set.SurjOn t.offset (Finset.range t.volume) (Finset.range t.volume) := by
    intro a ha
    simp only [Finset.coe_range, Set.mem_Iio] at ha
    obtain ⟨i, hi, rfl⟩ := t.offset_mem.2 ha
    exact ⟨i, by simpa using hi, rfl⟩
  have hinj := Finset.injOn_of_surjOn_of_card_le t.offset hmaps hsurj (Nat.le_refl _)
  rw [Finset.coe_range] at hmaps hsurj hinj
  exact ⟨t.map_offset, ⟨hmaps, hinj, hsurj⟩, fun i hi => t.offset_eq_steps hi, fun i hi => (t.steps_bounds hi).1,
    fun i hi => (t.steps_bounds hi).2⟩

end TileGeometry

/-! ### The tiled modes -/

/-- The test bounds the volume and the end of the tensor. -/
theorem tiledGeometryValid_bounds {base d r c size : UInt32} (h : tiledGeometryValid base d r c size = true)
    (hpos : 0 < d.toNat * r.toNat * c.toNat) :
    d.toNat * r.toNat * c.toNat ≤ uint32Max.toNat ∧
      base.toNat + d.toNat * r.toNat * c.toNat * size.toNat ≤ uint32Max.toNat := by
  have hne : ¬ (d = 0 ∨ r = 0 ∨ c = 0) := by
    rintro (rfl | rfl | rfl) <;> simp at hpos
  unfold tiledGeometryValid at h
  rw [if_neg hne] at h
  dsimp only at h
  split at h
  · cases h
  · rwa [Bool.and_eq_true, decide_eq_true_eq, decide_eq_true_eq] at h

/-- The addresses of an iterator that turns ordinals into tile-major offsets. -/
private theorem tiled_address {it : TuAgenIterator} {base d r c td tr tc size : UInt32}
    (htotal : it.totalElements = d * r * c) (hvalid : tiledGeometryValid base d r c size = true) (htd : td ≠ 0)
    (htr : tr ≠ 0) (htc : tc ≠ 0)
    (haddress : ∀ i, it.address (UInt32.ofNat i) = base + tiledOffset (UInt32.ofNat i) d r c td tr tc * size) :
    it.totalElements.toNat = d.toNat * r.toNat * c.toNat ∧
      ∀ i, i < d.toNat * r.toNat * c.toNat → (it.address (UInt32.ofNat i)).toNat =
          base.toNat + (tiledOffset (UInt32.ofNat i) d r c td tr tc).toNat * size.toNat ∧
        (it.address (UInt32.ofNat i)).toNat + size.toNat ≤ uint32Max.toNat := by
  have hproduct : d * r * c = UInt32.ofNat (d.toNat * r.toNat * c.toNat) := by simp
  rcases Nat.eq_zero_or_pos (d.toNat * r.toNat * c.toNat) with hzero | hpos
  · rw [htotal, hproduct, hzero]
    exact ⟨rfl, fun i hi => absurd hi (Nat.not_lt_zero i)⟩
  · obtain ⟨hvolume, hend⟩ := tiledGeometryValid_bounds hvalid hpos
    rw [toNat_uint32Max] at hvolume hend ⊢
    have hcount : it.totalElements.toNat = d.toNat * r.toNat * c.toNat := by
      rw [htotal]
      exact toNat_eq_of_ofNat hproduct (by omega)
    refine ⟨hcount, fun i hi => ?_⟩
    let t : TileGeometry :=
      { d := d, r := r, c := c, td := td, tr := tr, tc := tc
        d_pos := Nat.pos_of_ne_zero fun h => by simp [h] at hpos
        r_pos := Nat.pos_of_ne_zero fun h => by simp [h] at hpos
        c_pos := Nat.pos_of_ne_zero fun h => by simp [h] at hpos
        td_pos := toNat_pos htd, tr_pos := toNat_pos htr, tc_pos := toNat_pos htc
        volume_lt := by omega }
    have hoffset : (tiledOffset (UInt32.ofNat i) d r c td tr tc).toNat < d.toNat * r.toNat * c.toNat := t.offset_lt hi
    have hbytes := Nat.mul_le_mul_right size.toNat (Nat.succ_le_of_lt hoffset)
    rw [Nat.succ_mul] at hbytes
    have heq : (it.address (UInt32.ofNat i)).toNat =
        base.toNat + (tiledOffset (UInt32.ofNat i) d r c td tr tc).toNat * size.toNat := by
      rw [haddress]
      exact toNat_add_of_lt rfl (toNat_mul_of_lt rfl rfl (by omega)) (by omega)
    exact ⟨heq, by omega⟩

/-- An iterator that turns ordinals into tile-major offsets yields the offsets of the tensor. -/
private theorem yields_tiled {it : TuAgenIterator} {base d r c td tr tc size : UInt32} (hcur : it.currentIdx = 0)
    (htotal : it.totalElements = d * r * c) (hvalid : tiledGeometryValid base d r c size = true) (htd : td ≠ 0)
    (htr : tr ≠ 0) (htc : tc ≠ 0)
    (haddress : ∀ i, it.address (UInt32.ofNat i) = base + tiledOffset (UInt32.ofNat i) d r c td tr tc * size) :
    it.Yields ((List.range (d.toNat * r.toNat * c.toNat)).map fun i =>
      base.toNat + (tiledOffset (UInt32.ofNat i) d r c td tr tc).toNat * size.toNat) := by
  obtain ⟨hcount, heq⟩ := tiled_address htotal hvalid htd htr htc haddress
  rw [← hcount]
  apply TuAgenIterator.yields_of_address hcur
  intro i hi
  rw [hcount] at hi
  exact (heq i hi).1

private theorem bounded_tiled {it : TuAgenIterator} {base d r c td tr tc : UInt32}
    (htotal : it.totalElements = d * r * c) (hvalid : tiledGeometryValid base d r c it.elemSize = true)
    (hsize : 0 < it.elemSize.toNat) (htd : td ≠ 0) (htr : tr ≠ 0) (htc : tc ≠ 0)
    (haddress : ∀ i, it.address (UInt32.ofNat i) =
      base + tiledOffset (UInt32.ofNat i) d r c td tr tc * it.elemSize) : it.Bounded := by
  obtain ⟨hcount, heq⟩ := tiled_address htotal hvalid htd htr htc haddress
  constructor
  · intro i hi
    rw [hcount] at hi
    exact (heq i hi).2
  · exact fun _ => hsize

/-- The tiled modes yield their base and the offsets of the ordinals, in elements. -/
structure TiledModes : Prop where
  tiled2d : ∀ (cfg : TuAgenTiled2dConfig) (base : UInt32) (it : TuAgenIterator),
    tuAgenIteratorInit (.tiled2d (some cfg)) base = some it →
    it.Yields ((List.range (1 * cfg.totalRows.toNat * cfg.totalCols.toNat)).map fun i =>
      base.toNat + (tiledOffset (UInt32.ofNat i) 1 cfg.totalRows cfg.totalCols 1 cfg.tileRows cfg.tileCols).toNat * 4)
  tiled3d : ∀ (cfg : TuAgenTiled3dConfig) (base : UInt32) (it : TuAgenIterator),
    tuAgenIteratorInit (.tiled3d (some cfg)) base = some it →
    it.Yields ((List.range (cfg.depth.toNat * cfg.rows.toNat * cfg.cols.toNat)).map fun i =>
      base.toNat + (tiledOffset (UInt32.ofNat i) cfg.depth cfg.rows cfg.cols cfg.tileDepth cfg.tileRows
        cfg.tileCols).toNat * (sizeOrFour cfg.elemSize).toNat)

theorem tiledModes : TiledModes where
  tiled2d cfg base it h := by
    unfold tuAgenIteratorInit at h
    dsimp only at h
    split at h
    · cases h
    · rename_i hvalid
      split at h
      · cases h
      · injection h with h
        rw [not_or, not_or, Bool.not_eq_true, Bool.not_eq_false'] at hvalid
        rw [← h]
        exact yields_tiled rfl (by simp) hvalid.2.2 (by decide) hvalid.1 hvalid.2.1 fun i => rfl
  tiled3d cfg base it h := by
    unfold tuAgenIteratorInit at h
    dsimp only at h
    split at h
    · cases h
    · rename_i hvalid
      injection h with h
      rw [not_or, not_or, not_or, Bool.not_eq_true, Bool.not_eq_false'] at hvalid
      rw [← h]
      exact yields_tiled rfl rfl hvalid.2.2.2 hvalid.1 hvalid.2.1 hvalid.2.2.1 fun i => rfl

theorem tiled2d_bounded {cfg : TuAgenTiled2dConfig} {base : UInt32} {it : TuAgenIterator}
    (h : tuAgenIteratorInit (.tiled2d (some cfg)) base = some it) : it.Bounded := by
  unfold tuAgenIteratorInit at h
  dsimp only at h
  split at h
  · cases h
  · rename_i hvalid
    split at h
    · cases h
    · injection h with h
      rw [not_or, not_or, Bool.not_eq_true, Bool.not_eq_false'] at hvalid
      rw [← h]
      exact bounded_tiled (by simp) hvalid.2.2 (Nat.zero_lt_succ 3) (by decide) hvalid.1 hvalid.2.1 fun i => rfl

theorem tiled3d_bounded {cfg : TuAgenTiled3dConfig} {base : UInt32} {it : TuAgenIterator}
    (h : tuAgenIteratorInit (.tiled3d (some cfg)) base = some it) : it.Bounded := by
  unfold tuAgenIteratorInit at h
  dsimp only at h
  split at h
  · cases h
  · rename_i hvalid
    injection h with h
    rw [not_or, not_or, not_or, Bool.not_eq_true, Bool.not_eq_false'] at hvalid
    rw [← h]
    exact bounded_tiled rfl hvalid.2.2.2 (sizeOrFour_pos _) hvalid.1 hvalid.2.1 hvalid.2.2.1 fun i => rfl

/-- Every tensor is visited tile by tile, each element once, and the tiled modes follow this order. -/
theorem tiled_visitsOnce : (∀ t : TileGeometry, t.VisitsOnce) ∧ TiledModes :=
  ⟨fun t => t.visitsOnce, tiledModes⟩

end Tusim
