import Tusim.Agen.Tiling

/-!
# The im2col iterator and the point query

Both compute the address of an output position, a kernel position and a channel; the iterator gets them by splitting
its ordinal.  It yields `0xFFFFFF00` where the query reports padding.  This value is also the address of a byte, so
a point inside the input yields it as well when its element lies there.
-/

namespace Tusim

open Word Digits

/-- Output row and column, kernel row and column, channel. -/
structure Im2colPoint where
  oh : Nat
  ow : Nat
  kh : Nat
  kw : Nat
  ic : Nat
deriving DecidableEq, Repr

/-- The points of a traversal in its order. -/
def im2colPoints (oh ow kh kw ic : Nat) : List Im2colPoint :=
  (List.range oh).flatMap fun a => (List.range ow).flatMap fun b => (List.range kh).flatMap fun c =>
    (List.range kw).flatMap fun d => (List.range ic).map fun e => ⟨a, b, c, d, e⟩

namespace Im2colPoint

/-- The row of the padded input. -/
def row (p : Im2colPoint) (cfg : TuAgenIm2col) : Nat := p.oh * cfg.strideH.toNat + p.kh * cfg.dilationH.toNat

/-- The column of the padded input. -/
def col (p : Im2colPoint) (cfg : TuAgenIm2col) : Nat := p.ow * cfg.strideW.toNat + p.kw * cfg.dilationW.toNat

/-- The point falls on an element of the input. -/
def Inside (p : Im2colPoint) (cfg : TuAgenIm2col) : Prop :=
  cfg.padH.toNat ≤ p.row cfg ∧ p.row cfg < cfg.padH.toNat + cfg.inputH.toNat ∧
    cfg.padW.toNat ≤ p.col cfg ∧ p.col cfg < cfg.padW.toNat + cfg.inputW.toNat

/-- The address of the element at this point. -/
def source (p : Im2colPoint) (cfg : TuAgenIm2col) (base : UInt32) : Nat :=
  base.toNat + (p.ic * cfg.inputH.toNat * cfg.inputW.toNat + (p.row cfg - cfg.padH.toNat) * cfg.inputW.toNat +
    (p.col cfg - cfg.padW.toNat)) * cfg.elemSize.toNat

instance (p : Im2colPoint) (cfg : TuAgenIm2col) : Decidable (p.Inside cfg) := by
  unfold Inside
  infer_instance

/-- The point query at this point. -/
def query (p : Im2colPoint) (cfg : TuAgenIm2col) (base : UInt32) : UInt32 :=
  tuAgenAddrIm2col cfg base (UInt32.ofNat p.oh) (UInt32.ofNat p.ow) (UInt32.ofNat p.kh) (UInt32.ofNat p.kw)
    (UInt32.ofNat p.ic)

/-- The answer of the query, with the padding marker for padding. -/
def entry (p : Im2colPoint) (cfg : TuAgenIm2col) (base : UInt32) : UInt32 :=
  if p.query cfg base = uint32Max then paddingAddr else p.query cfg base

end Im2colPoint

/-- The iterator yields the entries of its points in order; the query reports padding at the points outside the
input; the marker stands for these and for a source element at its own address. -/
structure Im2colAgrees (cfg : TuAgenIm2col) (base : UInt32) (it : TuAgenIterator) (points : List Im2colPoint) :
    Prop where
  yields : it.Yields (points.map fun p => (p.entry cfg base).toNat)
  query_eq_iff : ∀ p ∈ points, p.query cfg base = uint32Max ↔ ¬ p.Inside cfg
  entry_of_inside : ∀ p ∈ points, p.Inside cfg → p.entry cfg base = p.query cfg base
  entry_eq_iff : ∀ p ∈ points,
    p.entry cfg base = paddingAddr ↔ p.query cfg base = uint32Max ∨ p.query cfg base = paddingAddr

/-! ### The points of the ordinals -/

/-- The point with an ordinal, for these extents of the last four axes. -/
def im2colPoint (ow kh kw ic i : Nat) : Im2colPoint where
  oh := i / ic / kw / kh / ow
  ow := i / ic / kw / kh % ow
  kh := i / ic / kw % kh
  kw := i / ic % kw
  ic := i % ic

theorem im2colPoints_eq (oh ow kh kw ic : Nat) :
    (List.range (oh * ow * kh * kw * ic)).map (im2colPoint ow kh kw ic) = im2colPoints oh ow kh kw ic := by
  unfold im2colPoints im2colPoint
  rw [← flatMap_range_mul oh ow,
    ← flatMap_range_mul (oh * ow) kh fun q c => (List.range kw).flatMap fun d =>
      (List.range ic).map fun e => Im2colPoint.mk (q / ow) (q % ow) c d e,
    ← flatMap_range_mul (oh * ow * kh) kw fun q d =>
      (List.range ic).map fun e => Im2colPoint.mk (q / kh / ow) (q / kh % ow) (q % kh) d e,
    ← map_range_mul (oh * ow * kh * kw) ic fun q e =>
      Im2colPoint.mk (q / kw / kh / ow) (q / kw / kh % ow) (q / kw % kh) (q % kw) e]

theorem mem_im2colPoints {oh ow kh kw ic : Nat} {p : Im2colPoint} :
    p ∈ im2colPoints oh ow kh kw ic ↔ p.oh < oh ∧ p.ow < ow ∧ p.kh < kh ∧ p.kw < kw ∧ p.ic < ic := by
  unfold im2colPoints
  simp only [List.mem_flatMap, List.mem_map, List.mem_range]
  constructor
  · rintro ⟨a, ha, b, hb, c, hc, d, hd, e, he, rfl⟩
    exact ⟨ha, hb, hc, hd, he⟩
  · rintro ⟨ha, hb, hc, hd, he⟩
    exact ⟨_, ha, _, hb, _, hc, _, hd, _, he, rfl⟩

/-! ### Accepted views -/

/-- An output position and a kernel position of an axis meet inside the padded axis. -/
private theorem axis_lt {size kernel stride dilation a b : Nat} (ha : a < (size - ((kernel - 1) * dilation + 1)) / stride + 1)
    (hfit : (kernel - 1) * dilation + 1 ≤ size) (hb : b < kernel) : a * stride + b * dilation < size := by
  have hpos : a * stride ≤ size - ((kernel - 1) * dilation + 1) :=
    (Nat.mul_le_mul_right stride (Nat.lt_succ_iff.1 ha)).trans (Nat.div_mul_le_self _ _)
  have hker : b * dilation ≤ (kernel - 1) * dilation := Nat.mul_le_mul_right dilation (by omega)
  omega

/-- The extent of an output axis. -/
private theorem outputDims_eq {cfg : TuAgenIm2col} {oh ow : UInt32} (hdims : im2colOutputDims cfg = some (oh, ow)) :
    (oh.toNat = if cfg.inputH = 0 ∨ cfg.inputH.toNat + 2 * cfg.padH.toNat <
        (cfg.kernelH.toNat - 1) * cfg.dilationH.toNat + 1 then 0
      else (cfg.inputH.toNat + 2 * cfg.padH.toNat - ((cfg.kernelH.toNat - 1) * cfg.dilationH.toNat + 1)) /
        cfg.strideH.toNat + 1) ∧
      ow.toNat = if cfg.inputW = 0 ∨ cfg.inputW.toNat + 2 * cfg.padW.toNat <
        (cfg.kernelW.toNat - 1) * cfg.dilationW.toNat + 1 then 0
      else (cfg.inputW.toNat + 2 * cfg.padW.toNat - ((cfg.kernelW.toNat - 1) * cfg.dilationW.toNat + 1)) /
        cfg.strideW.toNat + 1 := by
  unfold im2colOutputDims at hdims
  split at hdims
  · cases hdims
  · extract_lets kh kw h w nh nw at hdims
    split at hdims
    · cases hdims
    · rename_i hmax
      rw [not_or, Nat.not_lt, Nat.not_lt] at hmax
      injection hdims with hdims
      injection hdims with hh hw
      exact ⟨toNat_eq_of_ofNat hh.symm (lt_of_le_uint32Max hmax.1),
        toNat_eq_of_ofNat hw.symm (lt_of_le_uint32Max hmax.2)⟩

/-- The points of a view lie in the padded input. -/
theorem row_col_lt {cfg : TuAgenIm2col} {oh ow : UInt32} (hdims : im2colOutputDims cfg = some (oh, ow))
    {p : Im2colPoint} (hp : p ∈ im2colPoints oh.toNat ow.toNat cfg.kernelH.toNat cfg.kernelW.toNat cfg.inputC.toNat) :
    p.row cfg < cfg.inputH.toNat + 2 * cfg.padH.toNat ∧ p.col cfg < cfg.inputW.toNat + 2 * cfg.padW.toNat := by
  obtain ⟨hoh, how, hkh, hkw, _⟩ := mem_im2colPoints.1 hp
  obtain ⟨hh, hw⟩ := outputDims_eq hdims
  rw [hh] at hoh
  rw [hw] at how
  constructor
  · split at hoh
    · omega
    · exact axis_lt hoh (by omega) hkh
  · split at how
    · omega
    · exact axis_lt how (by omega) hkw

private theorem count_step {count factor n : Nat}
    (h : (if count > uint32Max.toNat / factor then none else some (count * factor)) = some n) :
    n = count * factor ∧ count * factor ≤ uint32Max.toNat := by
  split at h
  · cases h
  · rename_i hle
    injection h with h
    refine ⟨h.symm, ?_⟩
    rcases Nat.eq_zero_or_pos factor with rfl | hpos
    · simp
    · exact (Nat.le_div_iff_mul_le hpos).1 (Nat.not_lt.1 hle)

theorem im2colCount_eq {oh ow : UInt32} {cfg : TuAgenIm2col} {n : Nat} (h : im2colCount oh ow cfg = some n) :
    n = oh.toNat * ow.toNat * cfg.kernelH.toNat * cfg.kernelW.toNat * cfg.inputC.toNat ∧ n ≤ uint32Max.toNat := by
  unfold im2colCount at h
  simp only [List.foldlM_cons, List.foldlM_nil, Option.bind_eq_bind, Option.bind_eq_some_iff] at h
  obtain ⟨n1, h1, n2, h2, n3, h3, n4, h4, n5, h5, h⟩ := h
  injection h with h
  obtain ⟨rfl, _⟩ := count_step h1
  obtain ⟨rfl, _⟩ := count_step h2
  obtain ⟨rfl, _⟩ := count_step h3
  obtain ⟨rfl, _⟩ := count_step h4
  obtain ⟨rfl, hle⟩ := count_step h5
  rw [Nat.one_mul] at h hle
  exact ⟨h.symm, h ▸ hle⟩

/-! ### The query -/

section

variable {cfg : TuAgenIm2col} {base oh ow : UInt32} {p : Im2colPoint}

/-- The place of the element of a point inside the input. -/
private theorem place_lt (hic : p.ic < cfg.inputC.toNat) (hinside : p.Inside cfg) :
    p.ic * cfg.inputH.toNat * cfg.inputW.toNat + (p.row cfg - cfg.padH.toNat) * cfg.inputW.toNat +
      (p.col cfg - cfg.padW.toNat) < cfg.inputC.toNat * cfg.inputH.toNat * cfg.inputW.toNat := by
  obtain ⟨hrow, hrow', hcol, hcol'⟩ := hinside
  rw [← Nat.add_mul]
  exact mul_add_lt (mul_add_lt hic (by omega)) (by omega)

/-- The element of a point inside the input ends below `UINT32_MAX`. -/
private theorem source_lt (hvalid : tiledGeometryValid base cfg.inputC cfg.inputH cfg.inputW cfg.elemSize = true)
    (hsize : cfg.elemSize ≠ 0) (hic : p.ic < cfg.inputC.toNat) (hinside : p.Inside cfg) :
    p.source cfg base < uint32Max.toNat := by
  have hplace := place_lt hic hinside
  obtain ⟨_, hend⟩ := tiledGeometryValid_bounds hvalid (Nat.zero_lt_of_lt hplace)
  have hbytes := Nat.mul_lt_mul_of_pos_right hplace (toNat_pos hsize)
  unfold Im2colPoint.source
  omega

private theorem ofNat_lt_iff {n : Nat} {c : UInt32} (h : n < c.toNat) :
    (UInt32.ofNat n).toNat = n ∧ ¬ UInt32.ofNat n ≥ c := by
  have hn : (UInt32.ofNat n).toNat = n := UInt32.toNat_ofNat_of_lt' (h.trans c.toNat_lt)
  refine ⟨hn, ?_⟩
  rw [ge_iff_le, UInt32.le_iff_toNat_le, hn]
  omega

/-- The coordinates of the points of a view do not leave 64 bits. -/
private theorem u64_row_col (hdims : im2colOutputDims cfg = some (oh, ow))
    (hp : p ∈ im2colPoints oh.toNat ow.toNat cfg.kernelH.toNat cfg.kernelW.toNat cfg.inputC.toNat) :
    u64 (p.oh * cfg.strideH.toNat + p.kh * cfg.dilationH.toNat) = p.row cfg ∧
      u64 (p.ow * cfg.strideW.toNat + p.kw * cfg.dilationW.toNat) = p.col cfg := by
  obtain ⟨hrow, hcol⟩ := row_col_lt hdims hp
  have h1 := cfg.inputH.toNat_lt
  have h2 := cfg.padH.toNat_lt
  have h3 := cfg.inputW.toNat_lt
  have h4 := cfg.padW.toNat_lt
  exact ⟨u64_of_lt (x := p.row cfg) (by omega), u64_of_lt (x := p.col cfg) (by omega)⟩

/-- At the points of a view the query answers with the address of the element or reports padding. -/
private theorem query_eq (hdims : im2colOutputDims cfg = some (oh, ow)) (hsize : cfg.elemSize ≠ 0)
    (hvalid : tiledGeometryValid base cfg.inputC cfg.inputH cfg.inputW cfg.elemSize = true)
    (hp : p ∈ im2colPoints oh.toNat ow.toNat cfg.kernelH.toNat cfg.kernelW.toNat cfg.inputC.toNat) :
    p.query cfg base = if p.Inside cfg then UInt32.ofNat (p.source cfg base) else uint32Max := by
  obtain ⟨hrow, hcol⟩ := u64_row_col hdims hp
  obtain ⟨hoh, how, hkh, hkw, hic⟩ := mem_im2colPoints.1 hp
  obtain ⟨hoh, hoh'⟩ := ofNat_lt_iff hoh
  obtain ⟨how, how'⟩ := ofNat_lt_iff how
  obtain ⟨hkh, hkh'⟩ := ofNat_lt_iff hkh
  obtain ⟨hkw, hkw'⟩ := ofNat_lt_iff hkw
  obtain ⟨hic, hic'⟩ := ofNat_lt_iff hic
  unfold Im2colPoint.query tuAgenAddrIm2col
  rw [hdims]
  dsimp only
  rw [if_neg (by simp [hsize, hoh', how', hkh', hkw', hic', hvalid]), hoh, how, hkh, hkw, hic, hrow, hcol]
  by_cases hinside : p.Inside cfg
  · rw [if_pos hinside]
    obtain ⟨h1, h2, h3, h4⟩ := hinside
    rw [if_neg (by omega), if_neg (by omega)]
    rfl
  · rw [if_neg hinside]
    unfold Im2colPoint.Inside at hinside
    split
    · rfl
    · rw [if_pos (by omega)]

/-- The query reports padding at the points outside the input only. -/
private theorem query_eq_iff (hdims : im2colOutputDims cfg = some (oh, ow)) (hsize : cfg.elemSize ≠ 0)
    (hvalid : tiledGeometryValid base cfg.inputC cfg.inputH cfg.inputW cfg.elemSize = true)
    (hp : p ∈ im2colPoints oh.toNat ow.toNat cfg.kernelH.toNat cfg.kernelW.toNat cfg.inputC.toNat) :
    p.query cfg base = uint32Max ↔ ¬ p.Inside cfg := by
  rw [query_eq hdims hsize hvalid hp]
  by_cases hinside : p.Inside cfg
  · rw [if_pos hinside]
    have hlt := source_lt hvalid hsize (mem_im2colPoints.1 hp).2.2.2.2 hinside
    constructor
    · intro h
      have hsource := toNat_eq_of_ofNat h.symm (lt_of_le_uint32Max (Nat.le_of_lt hlt))
      omega
    · intro h
      exact absurd hinside h
  · simp [hinside]

private theorem entry_eq (hdims : im2colOutputDims cfg = some (oh, ow)) (hsize : cfg.elemSize ≠ 0)
    (hvalid : tiledGeometryValid base cfg.inputC cfg.inputH cfg.inputW cfg.elemSize = true)
    (hp : p ∈ im2colPoints oh.toNat ow.toNat cfg.kernelH.toNat cfg.kernelW.toNat cfg.inputC.toNat) :
    p.entry cfg base = if p.Inside cfg then UInt32.ofNat (p.source cfg base) else paddingAddr := by
  unfold Im2colPoint.entry
  by_cases hinside : p.Inside cfg
  · rw [if_neg ((query_eq_iff hdims hsize hvalid hp).not.2 (not_not_intro hinside)),
      query_eq hdims hsize hvalid hp, if_pos hinside, if_pos hinside]
  · rw [if_pos ((query_eq_iff hdims hsize hvalid hp).2 hinside), if_neg hinside]

/-! ### The iterator -/

/-- The iterator of an accepted configuration. -/
private def im2colView (cfg : TuAgenIm2col) (base oh ow : UInt32) : TuAgenIterator :=
  { mode := .im2col, baseAddr := base, inputH := cfg.inputH, inputW := cfg.inputW, inputC := cfg.inputC
    kernelH := cfg.kernelH, kernelW := cfg.kernelW, padH := cfg.padH, padW := cfg.padW
    strideH := cfg.strideH, strideW := cfg.strideW, dilationH := cfg.dilationH, dilationW := cfg.dilationW
    elemSize := cfg.elemSize, outputH := oh, outputW := ow
    totalElements :=
      UInt32.ofNat (oh.toNat * ow.toNat * cfg.kernelH.toNat * cfg.kernelW.toNat * cfg.inputC.toNat) }

private theorem init_im2col {it : TuAgenIterator} (hsize : cfg.elemSize ≠ 0)
    (hinit : tuAgenIteratorInit (.im2col (some cfg)) base = some it) :
    ∃ oh ow, im2colOutputDims cfg = some (oh, ow) ∧
      it = im2colView cfg base oh ow ∧
      oh.toNat * ow.toNat * cfg.kernelH.toNat * cfg.kernelW.toNat * cfg.inputC.toNat ≤ uint32Max.toNat ∧
      (0 < oh.toNat * ow.toNat * cfg.kernelH.toNat * cfg.kernelW.toNat * cfg.inputC.toNat →
        tiledGeometryValid base cfg.inputC cfg.inputH cfg.inputW cfg.elemSize = true) := by
  have hsize' : sizeOrFour cfg.elemSize = cfg.elemSize := by simp [sizeOrFour, hsize]
  unfold tuAgenIteratorInit at hinit
  dsimp only at hinit
  split at hinit
  · cases hinit
  · rename_i oh ow hdims
    rw [hsize'] at hinit
    split at hinit
    · cases hinit
    · rename_i count hcount
      injection hinit with hinit
      refine ⟨oh, ow, hdims, ?_⟩
      split at hcount
      · split at hcount
        · cases hcount
        · rename_i n hn
          obtain ⟨hn, hle⟩ := im2colCount_eq hn
          split at hcount
          · cases hcount
          · rename_i hvalid
            injection hcount with hcount
            rw [Bool.not_eq_true, Bool.not_eq_false'] at hvalid
            exact ⟨by rw [← hinit, ← hcount, hn, im2colView], hn ▸ hle, fun _ => hvalid⟩
      · rename_i hempty
        injection hcount with hcount
        have hzero : oh.toNat * ow.toNat * cfg.kernelH.toNat * cfg.kernelW.toNat * cfg.inputC.toNat = 0 := by
          rw [ne_eq, ne_eq, ne_eq, ← UInt32.toNat_inj, ← UInt32.toNat_inj, ← UInt32.toNat_inj] at hempty
          simp only [Nat.mul_eq_zero]
          have h0 : (0 : UInt32).toNat = 0 := rfl
          omega
        have hview : it = im2colView cfg base oh ow := by
          unfold im2colView
          rw [← hinit, ← hcount, hzero]
        rw [hzero]
        exact ⟨hview, Nat.zero_le _, fun h => absurd h (Nat.lt_irrefl 0)⟩

/-- The digits of an ordinal as the code takes them: from the left for the output position, from the right for the
kernel position and the channel. -/
private theorem im2colPoint_eq (ow kh kw ic i : Nat) :
    im2colPoint ow kh kw ic i =
      { oh := i / (kh * kw * ic * ow)
        ow := i % (kh * kw * ic * ow) / (kh * kw * ic)
        kh := i % (kh * kw * ic * ow) % (kh * kw * ic) / ic / kw
        kw := i % (kh * kw * ic * ow) % (kh * kw * ic) / ic % kw
        ic := i % (kh * kw * ic * ow) % (kh * kw * ic) % ic } := by
  have hplane : i / (kh * kw * ic) = i / ic / kw / kh := by
    rw [Nat.div_div_eq_div_mul, Nat.div_div_eq_div_mul]
    rw [Nat.mul_comm (kh * kw), Nat.mul_comm kh, ← Nat.mul_assoc]
  rw [← Nat.div_div_eq_div_mul, Nat.mod_mul_right_div_self, Nat.mod_mul_right_mod, Nat.mod_mul_left_mod,
    Nat.mod_mul_left_div_self, Nat.mod_mul_left_div_self, Nat.mod_mul_left_mod, hplane, im2colPoint]

/-- The iterator's address of an ordinal is the one of its point, or the marker. -/
private theorem address_eq (hdims : im2colOutputDims cfg = some (oh, ow))
    (hcount : oh.toNat * ow.toNat * cfg.kernelH.toNat * cfg.kernelW.toNat * cfg.inputC.toNat ≤ uint32Max.toNat)
    (hvalid : tiledGeometryValid base cfg.inputC cfg.inputH cfg.inputW cfg.elemSize = true) {i : Nat}
    (hi : i < oh.toNat * ow.toNat * cfg.kernelH.toNat * cfg.kernelW.toNat * cfg.inputC.toNat)
    (hp : p = im2colPoint ow.toNat cfg.kernelH.toNat cfg.kernelW.toNat cfg.inputC.toNat i) :
    (im2colView cfg base oh ow).address (UInt32.ofNat i) =
      if p.Inside cfg then UInt32.ofNat (p.source cfg base) else paddingAddr := by
  have hoh : 0 < oh.toNat := Nat.pos_of_ne_zero fun h => by simp [h] at hi
  have how : 0 < ow.toNat := Nat.pos_of_ne_zero fun h => by simp [h] at hi
  have hic : 0 < cfg.inputC.toNat := Nat.pos_of_ne_zero fun h => by simp [h] at hi
  have hidx : (UInt32.ofNat i).toNat = i := UInt32.toNat_ofNat_of_lt' (hi.trans (lt_of_le_uint32Max hcount))
  -- the factors of the ordinal divide the number of points
  have hperOh : cfg.kernelH.toNat * cfg.kernelW.toNat * cfg.inputC.toNat * ow.toNat ≤ uint32Max.toNat := by
    refine Nat.le_trans ?_ hcount
    calc cfg.kernelH.toNat * cfg.kernelW.toNat * cfg.inputC.toNat * ow.toNat
        ≤ oh.toNat * (cfg.kernelH.toNat * cfg.kernelW.toNat * cfg.inputC.toNat * ow.toNat) :=
          Nat.le_mul_of_pos_left _ hoh
      _ = oh.toNat * ow.toNat * cfg.kernelH.toNat * cfg.kernelW.toNat * cfg.inputC.toNat := by
          simp only [Nat.mul_assoc, Nat.mul_comm, Nat.mul_left_comm]
  have hperOw : cfg.kernelH.toNat * cfg.kernelW.toNat * cfg.inputC.toNat ≤ uint32Max.toNat :=
    (Nat.le_mul_of_pos_right _ how).trans hperOh
  have hperIc : cfg.kernelH.toNat * cfg.kernelW.toNat ≤ uint32Max.toNat :=
    (Nat.le_mul_of_pos_right _ hic).trans hperOw
  have hperIc' := toNat_mul_of_lt (a := cfg.kernelH) (b := cfg.kernelW) rfl rfl (lt_of_le_uint32Max hperIc)
  have hperOw' := toNat_mul_of_lt (b := cfg.inputC) hperIc' rfl (lt_of_le_uint32Max hperOw)
  have hperOh' := toNat_mul_of_lt (b := ow) hperOw' rfl (lt_of_le_uint32Max hperOh)
  have hr2 := toNat_mod_eq (toNat_mod_eq hidx hperOh') hperOw'
  have hr3 := toNat_div_eq (b := cfg.inputC) hr2 rfl
  rw [im2colPoint_eq] at hp
  have hoh' := (toNat_div_eq hidx hperOh').trans (congrArg Im2colPoint.oh hp).symm
  have how' := (toNat_div_eq (toNat_mod_eq hidx hperOh') hperOw').trans (congrArg Im2colPoint.ow hp).symm
  have hkh' := (toNat_div_eq (b := cfg.kernelW) hr3 rfl).trans (congrArg Im2colPoint.kh hp).symm
  have hkw' := (toNat_mod_eq (b := cfg.kernelW) hr3 rfl).trans (congrArg Im2colPoint.kw hp).symm
  have hic' := (toNat_mod_eq (b := cfg.inputC) hr2 rfl).trans (congrArg Im2colPoint.ic hp).symm
  rw [← im2colPoint_eq] at hp
  have hmem : p ∈ im2colPoints oh.toNat ow.toNat cfg.kernelH.toNat cfg.kernelW.toNat cfg.inputC.toNat := by
    rw [← im2colPoints_eq]
    exact List.mem_map.2 ⟨i, List.mem_range.2 hi, hp.symm⟩
  obtain ⟨hrow, hcol⟩ := u64_row_col hdims hmem
  change TuAgenIterator.im2colAddress (im2colView cfg base oh ow) (UInt32.ofNat i) = _
  unfold TuAgenIterator.im2colAddress im2colView
  dsimp only
  rw [hoh', how', hkh', hkw', hrow, hcol]
  by_cases hinside : p.Inside cfg
  · have hplace := place_lt (mem_im2colPoints.1 hmem).2.2.2.2 hinside
    obtain ⟨hvolume, _⟩ := tiledGeometryValid_bounds hvalid (Nat.zero_lt_of_lt hplace)
    rw [if_pos hinside]
    obtain ⟨h1, h2, h3, h4⟩ := hinside
    have hplane : p.ic * cfg.inputH.toNat * cfg.inputW.toNat ≤ uint32Max.toNat := by omega
    have hrows : p.ic * cfg.inputH.toNat ≤ uint32Max.toNat :=
      (Nat.le_mul_of_pos_right _ (by omega)).trans hplane
    have hrows' := toNat_mul_of_lt (b := cfg.inputH) hic' rfl (lt_of_le_uint32Max hrows)
    have hplane' := toNat_mul_of_lt (b := cfg.inputW) hrows' rfl (lt_of_le_uint32Max hplane)
    rw [if_pos (by omega), hplane']
    rfl
  · rw [if_neg hinside]
    unfold Im2colPoint.Inside at hinside
    rw [if_neg (by omega)]

/-- The iterator of an accepted view yields the answers of the query with the marker for padding. -/
theorem im2col_agrees {it : TuAgenIterator} (hsize : cfg.elemSize ≠ 0)
    (hinit : tuAgenIteratorInit (.im2col (some cfg)) base = some it) :
    ∃ oh ow, im2colOutputDims cfg = some (oh, ow) ∧
      Im2colAgrees cfg base it
        (im2colPoints oh.toNat ow.toNat cfg.kernelH.toNat cfg.kernelW.toNat cfg.inputC.toNat) := by
  obtain ⟨oh, ow, hdims, rfl, hcount, hvalid⟩ := init_im2col hsize hinit
  have hvalid' : ∀ p ∈ im2colPoints oh.toNat ow.toNat cfg.kernelH.toNat cfg.kernelW.toNat cfg.inputC.toNat,
      tiledGeometryValid base cfg.inputC cfg.inputH cfg.inputW cfg.elemSize = true := by
    intro p hp
    rw [← im2colPoints_eq] at hp
    obtain ⟨i, hi, _⟩ := List.mem_map.1 hp
    exact hvalid (Nat.zero_lt_of_lt (List.mem_range.1 hi))
  refine ⟨oh, ow, hdims, ?_, ?_, ?_, ?_⟩
  · have htotal : (im2colView cfg base oh ow).totalElements.toNat =
        oh.toNat * ow.toNat * cfg.kernelH.toNat * cfg.kernelW.toNat * cfg.inputC.toNat :=
      toNat_eq_of_ofNat rfl (lt_of_le_uint32Max hcount)
    rw [← im2colPoints_eq, List.map_map, ← htotal]
    apply TuAgenIterator.yields_of_address rfl
    intro i hi
    rw [htotal] at hi
    have hp : im2colPoint ow.toNat cfg.kernelH.toNat cfg.kernelW.toNat cfg.inputC.toNat i ∈
        im2colPoints oh.toNat ow.toNat cfg.kernelH.toNat cfg.kernelW.toNat cfg.inputC.toNat := by
      rw [← im2colPoints_eq]
      exact List.mem_map.2 ⟨i, List.mem_range.2 hi, rfl⟩
    rw [address_eq hdims hcount (hvalid' _ hp) hi rfl, Function.comp_apply, entry_eq hdims hsize (hvalid' _ hp) hp]
  · intro p hp
    exact query_eq_iff hdims hsize (hvalid' p hp) hp
  · intro p hp hinside
    rw [entry_eq hdims hsize (hvalid' p hp) hp, query_eq hdims hsize (hvalid' p hp) hp, if_pos hinside,
      if_pos hinside]
  · intro p _
    unfold Im2colPoint.entry
    by_cases hquery : p.query cfg base = uint32Max
    · simp [hquery]
    · simp [hquery]

end

/-- A `2 * 2` input with one row of padding. -/
private def paddedInput : TuAgenIm2col where
  inputH := 2
  inputW := 2
  inputC := 1
  kernelH := 3
  kernelW := 2
  padH := 1
  padW := 0
  strideH := 1
  strideW := 1
  dilationH := 1
  dilationW := 1
  elemSize := 4

theorem im2col_agrees_padded :
    ∃ it, tuAgenIteratorInit (.im2col (some paddedInput)) 0x1000 = some it ∧
      ∃ oh ow, im2colOutputDims paddedInput = some (oh, ow) ∧
        Im2colAgrees paddedInput 0x1000 it
          (im2colPoints oh.toNat ow.toNat paddedInput.kernelH.toNat paddedInput.kernelW.toNat
            paddedInput.inputC.toNat) := by
  have hsome : (tuAgenIteratorInit (.im2col (some paddedInput)) 0x1000).isSome := by decide +kernel
  obtain ⟨it, hinit⟩ := Option.isSome_iff_exists.1 hsome
  exact ⟨it, hinit, im2col_agrees (by decide) hinit⟩

/-- One element without padding. -/
private def singleInput : TuAgenIm2col where
  inputH := 1
  inputW := 1
  inputC := 1
  kernelH := 1
  kernelW := 1
  padH := 0
  padW := 0
  strideH := 1
  strideW := 1
  dilationH := 1
  dilationW := 1
  elemSize := 1

/-- An element at the address of the marker. -/
theorem im2col_marker_address :
    (tuAgenIteratorInit (.im2col (some singleInput)) paddingAddr).map (·.nexts 1) = some [paddingAddr] ∧
      tuAgenAddrIm2col singleInput paddingAddr 0 0 0 0 0 ≠ uint32Max := by
  decide +kernel

end Tusim
