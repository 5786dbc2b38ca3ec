import Tusim.Attention.Engine
import Tusim.Lib.Checked
import Tusim.Lib.Choosing

/-!
# Automatic tiles

`tu_attention_auto_tile` tries up to 64 heights.  For each it solves the capacity of the output scratchpad for the width
by a division, and the first tile with the largest product wins.  The arithmetic is checked: no result means that a sum,
a product, a difference or a conversion left its range.

For a fixed height the largest admissible width is found (`tileWidth_spec`): a width below the number of keys is
admissible as long as `8 tn + 4 dim + 8` stays within the share of a row, and all keys at once save the row state.
-/

namespace Tusim.Attention

open Checked

variable (cfg : AttentionConfig)

/-- `attention_footprint` in checked arithmetic; a null `out` only drops the reservations. -/
def checkedFootprint (tm tn dim n : Nat) : Option (Option AttentionFootprint) :=
  if tm = 0 ∨ tn = 0 ∨ dim = 0 ∨ n = 0 then some none
  else do
    let q ← mul 64 tm dim
    let k ← mul 64 tn dim
    let s ← mul 64 tm tn
    if q > cfg.sramASize.toNat / 2 ∨ k > cfg.sramWSize.toNat / 4 ∨ s > cfg.sramOSize.toNat / 4 ∨
        q > cfg.sramOSize.toNat / 4 then return none
    let oEnd ← add 64 (← mul 64 s 4) (← mul 64 q 4)
    let sTileBytes ← mul 64 s 4
    let stateBytes ← (if tn < n then (do mul 64 (← mul 64 tm 2) 4) else some 0 : Option Nat)
    let maxOUsage ← add 64 (← add 64 oEnd sTileBytes) stateBytes
    if maxOUsage > cfg.sramOSize.toNat then return none
    return some
      { qBytes := ← narrow 32 (← mul 64 q 2), kBytes := ← narrow 32 (← mul 64 k 2), sBytes := ← narrow 32 (← mul 64 s 4)
        oBytes := ← narrow 32 (← mul 64 q 4) }

/-- `4ull * dim + 8` -/
def fixedBytes (dim : Nat) : Option Nat := do add 64 (← mul 64 4 dim) 8

/-- The width for a height: `tn` of the loop body. -/
def autoTileWidth (dim n maxN tm : Nat) : Option Nat := do
  let full ← (if maxN = n then checkedFootprint cfg tm n dim n else some none : Option (Option AttentionFootprint))
  if full.isSome then return n
  else if n > 1 then
    let rowBudget := cfg.sramOSize.toNat / tm
    let fixed ← fixedBytes dim
    let bound ← (if rowBudget > fixed then (sub rowBudget fixed).map (· / 8) else some 0 : Option Nat)
    let bound := if bound > maxN then maxN else bound
    let bound ← (if bound ≥ n then sub n 1 else some bound : Option Nat)
    narrow 32 bound
  else return 0

/-- The choice so far. -/
structure TileChoice where
  bestScore : Nat
  tileM : Nat
  tileN : Nat
  deriving DecidableEq, Repr

/-- The start of the loop. -/
def TileChoice.zero : TileChoice := { bestScore := 0, tileM := 0, tileN := 0 }

/-- The loop body. -/
def autoTileStep (dim n maxN : Nat) (best : TileChoice) (tm : Nat) : Option TileChoice := do
  let tn ← autoTileWidth cfg dim n maxN tm
  if (← checkedFootprint cfg tm tn dim n).isNone then return best
  let score ← mul 64 tm tn
  return if score > best.bestScore then { bestScore := score, tileM := tm, tileN := tn } else best

/-- The heights that the loop tries. -/
def heights (seqLenQ : Nat) : List Nat := List.range' 1 (min 64 seqLenQ)

/-- `tu_attention_auto_tile` -/
def tuAttentionAutoTile {F : Type} (desc : TuAttentionDesc F) : Option (TuAttentionDesc F) := do
  let desc := { desc with tileM := 0, tileN := 0 }
  if desc.seqLenQ = 0 ∨ desc.seqLenKv = 0 ∨ desc.headDim = 0 then return desc
  let dim := desc.headDim.toNat
  let n := desc.seqLenKv.toNat
  let maxN := cfg.sramWSize.toNat / (← mul 64 4 dim)
  let maxN := if maxN > n then n else maxN
  let best ← (heights desc.seqLenQ.toNat).foldlM (autoTileStep cfg dim n maxN) .zero
  return { desc with tileM := UInt32.ofNat best.tileM, tileN := UInt32.ofNat best.tileN }

/-! ### Admission -/

/-- No sum, product or conversion of the admission leaves its range. -/
theorem checkedFootprint_eq {tm tn dim n : Nat} (htm : tm < 2 ^ 32) (htn : tn < 2 ^ 32) (hdim : dim < 2 ^ 32) :
    checkedFootprint cfg tm tn dim n = some (attentionFootprint cfg tm tn dim n) := by
  unfold checkedFootprint attentionFootprint
  by_cases hzero : tm = 0 ∨ tn = 0 ∨ dim = 0 ∨ n = 0
  · rw [if_pos hzero, if_pos hzero]
  rw [if_neg hzero, if_neg hzero, mul_eq_some_of_lt htm hdim (Nat.le_refl _), mul_eq_some_of_lt htn hdim (Nat.le_refl _),
    mul_eq_some_of_lt htm htn (Nat.le_refl _)]
  have hA := cfg.sramASize.toNat_lt
  have hW := cfg.sramWSize.toNat_lt
  have hO := cfg.sramOSize.toNat_lt
  simp only [Option.bind_eq_bind, Option.bind_some]
  generalize tm * dim = q
  generalize tn * dim = k
  generalize tm * tn = s
  by_cases hcap : q > cfg.sramASize.toNat / 2 ∨ k > cfg.sramWSize.toNat / 4 ∨ s > cfg.sramOSize.toNat / 4 ∨
      q > cfg.sramOSize.toNat / 4
  · rw [if_pos hcap, if_pos hcap]
    rfl
  rw [if_neg hcap, if_neg hcap]
  push Not at hcap
  obtain ⟨hqA, hkW, hsO, hqO⟩ := hcap
  -- every operand is below `2 ^ 32` here, up to a factor of 8
  have hmul {a : Nat} (c : Nat) (ha : a < 2 ^ 33) (hc : c ≤ 4) : mul 64 a c = some (a * c) :=
    mul_eq_some ((Nat.mul_le_mul_left a hc).trans_lt (by omega))
  have hadd {a b : Nat} (ha : a < 2 ^ 36) (hb : b < 2 ^ 36) : add 64 a b = some (a + b) := add_eq_some (by omega)
  have hnarrow {a : Nat} (ha : a < 2 ^ 32) : narrow 32 a = some a := narrow_eq_some ha
  have hstate : (if tn < n then some (tm * 2 * 4) else some 0) = some (if tn < n then tm * 2 * 4 else 0) := by
    split <;> rfl
  have hstateLt : (if tn < n then tm * 2 * 4 else 0) < 2 ^ 36 := by split <;> omega
  rw [hmul 4 (by omega : s < 2 ^ 33) (by decide), hmul 4 (by omega : q < 2 ^ 33) (by decide),
    hmul 2 (by omega : tm < 2 ^ 33) (by decide), hmul 2 (by omega : q < 2 ^ 33) (by decide),
    hmul 2 (by omega : k < 2 ^ 33) (by decide)]
  simp only [Option.bind_some]
  rw [hadd (by omega : s * 4 < 2 ^ 36) (by omega : q * 4 < 2 ^ 36), hmul 4 (by omega : tm * 2 < 2 ^ 33) (by decide), hstate]
  generalize (if tn < n then tm * 2 * 4 else 0) = stateBytes at hstateLt
  simp only [Option.bind_some]
  rw [hadd (by omega : s * 4 + q * 4 < 2 ^ 36) (by omega : s * 4 < 2 ^ 36)]
  simp only [Option.bind_some]
  rw [hadd (by omega : s * 4 + q * 4 + s * 4 < 2 ^ 36) hstateLt,
    hnarrow (by omega : q * 2 < 2 ^ 32), hnarrow (by omega : k * 2 < 2 ^ 32), hnarrow (by omega : s * 4 < 2 ^ 32),
    hnarrow (by omega : q * 4 < 2 ^ 32)]
  simp only [Option.bind_some]
  split <;> rfl

/-- What is admissible. -/
theorem admissible_iff {tm tn dim n : Nat} :
    (attentionFootprint cfg tm tn dim n).isSome ↔ 0 < tm ∧ 0 < tn ∧ 0 < dim ∧ 0 < n ∧
      tm * dim ≤ cfg.sramASize.toNat / 2 ∧ tn * dim ≤ cfg.sramWSize.toNat / 4 ∧
      8 * (tm * tn) + 4 * (tm * dim) + (if tn < n then 8 * tm else 0) ≤ cfg.sramOSize.toNat := by
  unfold attentionFootprint
  by_cases hzero : tm = 0 ∨ tn = 0 ∨ dim = 0 ∨ n = 0
  · rw [if_pos hzero]
    simp only [Option.isSome_none, Bool.false_eq_true, false_iff]
    omega
  rw [if_neg hzero]
  dsimp only
  have hstate : (if tn < n then tm * 2 * 4 else 0) = if tn < n then 8 * tm else 0 := by
    split
    · omega
    · rfl
  rw [hstate]
  generalize tm * dim = q
  generalize tn * dim = k
  generalize tm * tn = s
  generalize (if tn < n then 8 * tm else 0) = stateBytes
  split
  · simp only [Option.isSome_none, Bool.false_eq_true, false_iff]
    omega
  · split
    · simp only [Option.isSome_none, Bool.false_eq_true, false_iff]
      omega
    · simp only [Option.isSome_some, true_iff]
      omega

/-! ### The width for a height -/

section

variable {tm tn dim n maxN : Nat}

theorem fits_width (hdim : 0 < dim) : tn * dim ≤ cfg.sramWSize.toNat / 4 ↔ tn ≤ cfg.sramWSize.toNat / (4 * dim) := by
  rw [← Nat.div_div_eq_div_mul]
  exact (Nat.le_div_iff_mul_le hdim).symm

theorem fits_share (htm : 0 < tm) :
    8 * (tm * tn) + 4 * (tm * dim) + 8 * tm ≤ cfg.sramOSize.toNat ↔ 8 * tn + (4 * dim + 8) ≤ cfg.sramOSize.toNat / tm := by
  rw [Nat.le_div_iff_mul_le htm]
  have hexpand : (8 * tn + (4 * dim + 8)) * tm = 8 * (tm * tn) + 4 * (tm * dim) + 8 * tm := by ring
  rw [hexpand]

/-- The bound that the streaming search solves for. -/
def shareBound (share dim : Nat) : Nat := if share > 4 * dim + 8 then (share - (4 * dim + 8)) / 8 else 0

theorem le_shareBound {share : Nat} (htn : 0 < tn) : 8 * tn + (4 * dim + 8) ≤ share ↔ tn ≤ shareBound share dim := by
  unfold shareBound
  split <;> omega

/-- The width of the search below the number of keys. -/
def streamingWidth (dim n maxN tm : Nat) : Nat := min (min (shareBound (cfg.sramOSize.toNat / tm) dim) maxN) (n - 1)

theorem fixedBytes_eq (hdim : dim < 2 ^ 32) : fixedBytes dim = some (4 * dim + 8) := by
  have hmul : mul 64 4 dim = some (4 * dim) := mul_eq_some (by omega)
  unfold fixedBytes
  rw [hmul]
  exact add_eq_some (by omega)

/-- All keys, the result of the search, or zero. -/
def tileWidth (dim n maxN tm : Nat) : Nat :=
  if maxN = n ∧ (attentionFootprint cfg tm n dim n).isSome then n
  else if n > 1 then streamingWidth cfg dim n maxN tm else 0

theorem autoTileWidth_eq (htm : tm < 2 ^ 32) (hdim : dim < 2 ^ 32) (hn : n < 2 ^ 32) :
    autoTileWidth cfg dim n maxN tm = some (tileWidth cfg dim n maxN tm) := by
  have hfull : (if maxN = n then checkedFootprint cfg tm n dim n else some none : Option (Option AttentionFootprint)) =
      some (if maxN = n then attentionFootprint cfg tm n dim n else none) := by
    rw [checkedFootprint_eq cfg htm hn hdim]
    split <;> rfl
  have hcond : (if maxN = n then attentionFootprint cfg tm n dim n else none).isSome = true ↔
      maxN = n ∧ (attentionFootprint cfg tm n dim n).isSome := by
    split
    · rename_i h
      exact (and_iff_right h).symm
    · rename_i h
      exact iff_of_false Bool.false_ne_true fun h' => h h'.1
  unfold autoTileWidth tileWidth
  rw [hfull, fixedBytes_eq hdim]
  simp only [Option.bind_eq_bind, Option.bind_some]
  by_cases hall : maxN = n ∧ (attentionFootprint cfg tm n dim n).isSome
  · rw [if_pos hall, if_pos (hcond.2 hall)]
    rfl
  rw [if_neg hall, if_neg (mt hcond.1 hall)]
  by_cases hone : n > 1
  · have hshare : (if cfg.sramOSize.toNat / tm > 4 * dim + 8 then
        (sub (cfg.sramOSize.toNat / tm) (4 * dim + 8)).map (· / 8) else some 0) =
        some (shareBound (cfg.sramOSize.toNat / tm) dim) := by
      unfold shareBound
      split
      · rw [sub_eq_some (by omega)]
        rfl
      · rfl
    rw [if_pos hone, if_pos hone, hshare]
    unfold streamingWidth
    generalize shareBound (cfg.sramOSize.toNat / tm) dim = bound
    have hmin : (if bound > maxN then maxN else bound) = min bound maxN := by
      split <;> omega
    have hlast : (if min bound maxN ≥ n then sub n 1 else some (min bound maxN)) = some (min (min bound maxN) (n - 1)) := by
      split
      · rw [sub_eq_some (by omega)]
        exact congrArg some (by omega)
      · exact congrArg some (by omega)
    simp only [Option.bind_some]
    rw [hmin, hlast]
    exact narrow_eq_some (by omega)
  · rw [if_neg hone, if_neg hone]
    rfl

theorem tileWidth_le (dim n maxN tm : Nat) : tileWidth cfg dim n maxN tm ≤ n := by
  unfold tileWidth streamingWidth
  split
  · exact Nat.le_refl n
  · split <;> omega

/-- The width found is the largest that is admissible, if any is. -/
theorem tileWidth_spec (hmax : maxN = min (cfg.sramWSize.toNat / (4 * dim)) n) (htn : tn ≤ n)
    (hadm : (attentionFootprint cfg tm tn dim n).isSome) :
    (attentionFootprint cfg tm (tileWidth cfg dim n maxN tm) dim n).isSome ∧ tn ≤ tileWidth cfg dim n maxN tm := by
  unfold tileWidth
  by_cases hall : maxN = n ∧ (attentionFootprint cfg tm n dim n).isSome
  · rw [if_pos hall]
    exact ⟨hall.2, htn⟩
  rw [if_neg hall]
  obtain ⟨htm0, htn0, hdim0, hn0, hq, hk, husage⟩ := (admissible_iff cfg).1 hadm
  have hwidth : tn ≤ cfg.sramWSize.toNat / (4 * dim) := (fits_width cfg hdim0).1 hk
  -- all keys at once are not admissible
  have hlt : tn < n := by
    rcases Nat.lt_or_eq_of_le htn with h | rfl
    · exact h
    · exact absurd ⟨hmax.trans (Nat.min_eq_right hwidth), hadm⟩ hall
  rw [if_pos hlt] at husage
  have hshare : tn ≤ shareBound (cfg.sramOSize.toNat / tm) dim :=
    (le_shareBound htn0).1 ((fits_share cfg htm0).1 husage)
  rw [if_pos (by omega : n > 1)]
  have hle : tn ≤ streamingWidth cfg dim n maxN tm := by
    unfold streamingWidth
    omega
  refine ⟨?_, hle⟩
  have hpos : 0 < streamingWidth cfg dim n maxN tm := htn0.trans_le hle
  have hbound : streamingWidth cfg dim n maxN tm ≤ shareBound (cfg.sramOSize.toNat / tm) dim := by
    unfold streamingWidth
    omega
  have hmaxN : streamingWidth cfg dim n maxN tm ≤ cfg.sramWSize.toNat / (4 * dim) := by
    unfold streamingWidth
    omega
  have hbelow : streamingWidth cfg dim n maxN tm < n := by
    unfold streamingWidth
    omega
  refine (admissible_iff cfg).2 ⟨htm0, hpos, hdim0, hn0, hq, (fits_width cfg hdim0).2 hmaxN, ?_⟩
  rw [if_pos hbelow]
  exact (fits_share cfg htm0).2 ((le_shareBound hpos).2 hbound)

/-- The tile of a height, if it is admissible. -/
def rowChoice (dim n maxN tm : Nat) : Option TileChoice :=
  let width := tileWidth cfg dim n maxN tm
  if (attentionFootprint cfg tm width dim n).isSome then some { bestScore := tm * width, tileM := tm, tileN := width }
  else none

theorem autoTileStep_eq (htm : tm < 2 ^ 32) (hdim : dim < 2 ^ 32) (hn : n < 2 ^ 32) (best : TileChoice) :
    autoTileStep cfg dim n maxN best tm =
      some ((rowChoice cfg dim n maxN tm).elim best (FirstBest.better TileChoice.bestScore best)) := by
  have hwidth : tileWidth cfg dim n maxN tm < 2 ^ 32 := (tileWidth_le cfg dim n maxN tm).trans_lt hn
  unfold autoTileStep rowChoice
  rw [autoTileWidth_eq cfg htm hdim hn]
  simp only [Option.bind_eq_bind, Option.bind_some]
  rw [checkedFootprint_eq cfg htm hwidth hdim, mul_eq_some_of_lt htm hwidth (Nat.le_refl _)]
  simp only [Option.bind_some]
  cases hadm : attentionFootprint cfg tm (tileWidth cfg dim n maxN tm) dim n with
  | none => rfl
  | some footprint =>
    simp only [Option.isNone_some, Option.isSome_some, Bool.false_eq_true, if_false, if_true, Option.elim_some]
    rfl

/-- The loop is the scan for the first best tile. -/
theorem autoTileLoop_eq (hdim : dim < 2 ^ 32) (hn : n < 2 ^ 32) (best : TileChoice) {tms : List Nat}
    (htms : ∀ tm ∈ tms, tm < 2 ^ 32) :
    tms.foldlM (autoTileStep cfg dim n maxN) best =
      some (FirstBest.scan TileChoice.bestScore best (tms.filterMap (rowChoice cfg dim n maxN))) := by
  induction tms generalizing best with
  | nil => rfl
  | cons tm tms ih =>
    have hrest : ∀ tm ∈ tms, tm < 2 ^ 32 := fun tm' h => htms tm' (List.mem_cons_of_mem tm h)
    rw [List.foldlM_cons, autoTileStep_eq cfg (htms tm List.mem_cons_self) hdim hn, Option.bind_eq_bind, Option.bind_some,
      ih _ hrest, List.filterMap_cons]
    cases rowChoice cfg dim n maxN tm with
    | none => rfl
    | some x => rfl

end

/-! ### The tile that is chosen -/

section

variable {F : Type} (desc : TuAttentionDesc F)

/-- The tiles to choose from. -/
def Candidate (tm tn : Nat) : Prop :=
  tm ≤ min 64 desc.seqLenQ.toNat ∧ tn ≤ desc.seqLenKv.toNat ∧
    (attentionFootprint cfg tm tn desc.headDim.toNat desc.seqLenKv.toNat).isSome

/-- A tile of the largest product, with the smallest height among those; zero if there is none. -/
structure IsBestTile (tileM tileN : Nat) : Prop where
  zero_iff : tileM = 0 ∧ tileN = 0 ↔ ∀ tm tn, ¬ Candidate cfg desc tm tn
  candidate : ∀ tm tn, Candidate cfg desc tm tn → Candidate cfg desc tileM tileN
  greatest : ∀ tm tn, Candidate cfg desc tm tn → tm * tn ≤ tileM * tileN
  first : ∀ tm tn, Candidate cfg desc tm tn → tm * tn = tileM * tileN → tileM ≤ tm

variable {cfg desc}

theorem Candidate.pos {tm tn : Nat} (h : Candidate cfg desc tm tn) :
    0 < tm ∧ 0 < tn ∧ 0 < desc.headDim.toNat ∧ 0 < desc.seqLenKv.toNat := by
  obtain ⟨htm, htn, hdim, hn, -⟩ := (admissible_iff cfg).1 h.2.2
  exact ⟨htm, htn, hdim, hn⟩

/-- Without candidates the choice is zero. -/
theorem IsBestTile.of_no_candidate (h : ∀ tm tn, ¬ Candidate cfg desc tm tn) : IsBestTile cfg desc 0 0 where
  zero_iff := iff_of_true ⟨rfl, rfl⟩ h
  candidate tm tn hc := absurd hc (h tm tn)
  greatest tm tn hc := absurd hc (h tm tn)
  first tm tn hc := absurd hc (h tm tn)

variable {maxN : Nat}

theorem rowChoice_eq_some {dim n tm : Nat} {x : TileChoice} (h : rowChoice cfg dim n maxN tm = some x) :
    x.tileM = tm ∧ x.bestScore = x.tileM * x.tileN ∧ x.tileN ≤ n ∧
      (attentionFootprint cfg x.tileM x.tileN dim n).isSome := by
  unfold rowChoice at h
  dsimp only at h
  split at h
  · rename_i hadm
    obtain rfl := Option.some.inj h
    exact ⟨rfl, rfl, tileWidth_le .., hadm⟩
  · exact absurd h nofun

variable (cfg desc maxN)

/-- The tiles of all heights. -/
def tileChoices : List TileChoice :=
  (heights desc.seqLenQ.toNat).filterMap (rowChoice cfg desc.headDim.toNat desc.seqLenKv.toNat maxN)

variable {cfg desc maxN}

theorem tileChoices_sorted : (tileChoices cfg desc maxN).Pairwise fun x y => x.tileM < y.tileM := by
  refine List.Pairwise.filterMap _ (fun tm tm' hlt x hx y hy => ?_) List.pairwise_lt_range'
  rw [(rowChoice_eq_some hx).1, (rowChoice_eq_some hy).1]
  exact hlt

theorem candidate_of_mem {x : TileChoice} (hx : x ∈ tileChoices cfg desc maxN) :
    Candidate cfg desc x.tileM x.tileN ∧ x.bestScore = x.tileM * x.tileN ∧ 0 < x.bestScore := by
  obtain ⟨tm, htm, hx⟩ := List.mem_filterMap.1 hx
  obtain ⟨rfl, hscore, hn, hadm⟩ := rowChoice_eq_some hx
  have hheight := List.mem_range'_1.1 htm
  have hcandidate : Candidate cfg desc x.tileM x.tileN := ⟨by omega, hn, hadm⟩
  rw [hscore]
  exact ⟨hcandidate, rfl, Nat.mul_pos hcandidate.pos.1 hcandidate.pos.2.1⟩

/-- Every candidate has a tile of its height that is at least as wide. -/
theorem Candidate.covered (hmax : maxN = min (cfg.sramWSize.toNat / (4 * desc.headDim.toNat)) desc.seqLenKv.toNat)
    {tm tn : Nat} (h : Candidate cfg desc tm tn) :
    ∃ x ∈ tileChoices cfg desc maxN, x.tileM = tm ∧ tm * tn ≤ x.bestScore := by
  obtain ⟨hadm, hle⟩ := tileWidth_spec cfg hmax h.2.1 h.2.2
  refine ⟨_, List.mem_filterMap.2 ⟨tm, ?_, if_pos hadm⟩, rfl, Nat.mul_le_mul_left tm hle⟩
  have hpos := h.pos.1
  have hheight := h.1
  exact List.mem_range'_1.2 ⟨by omega, by omega⟩

/-- The first best of the tiles is the best tile. -/
theorem isBestTile_of_first (hmax : maxN = min (cfg.sramWSize.toNat / (4 * desc.headDim.toNat)) desc.seqLenKv.toNat)
    {best : TileChoice} (hbest : FirstBest.scan TileChoice.bestScore .zero (tileChoices cfg desc maxN) = best) :
    IsBestTile cfg desc best.tileM best.tileN ∧ best.tileM ≤ 64 ∧ best.tileN ≤ desc.seqLenKv.toNat := by
  have hgreatest := (FirstBest.le_scan TileChoice.bestScore .zero (tileChoices cfg desc maxN)).2
  have hcases := FirstBest.scan_eq_or_mem TileChoice.bestScore .zero (tileChoices cfg desc maxN)
  rw [hbest] at hgreatest hcases
  rcases hcases with rfl | hmem
  · have hno : ∀ tm tn, ¬ Candidate cfg desc tm tn := by
      intro tm tn h
      obtain ⟨x, hx, -⟩ := h.covered hmax
      exact Nat.not_lt.2 (hgreatest x hx) (candidate_of_mem hx).2.2
    exact ⟨.of_no_candidate hno, Nat.zero_le _, Nat.zero_le _⟩
  · obtain ⟨hc, hscore, -⟩ := candidate_of_mem hmem
    refine ⟨?_, hc.1.trans (Nat.min_le_left _ _), hc.2.1⟩
    constructor
    · have hpos := hc.pos.1
      exact iff_of_false (fun h => by omega) fun h => h _ _ hc
    · exact fun _ _ _ => hc
    · intro tm tn h
      obtain ⟨x, hx, -, hle⟩ := h.covered hmax
      rw [← hscore]
      exact hle.trans (hgreatest x hx)
    · intro tm tn h heq
      obtain ⟨x, hx, rfl, hle⟩ := h.covered hmax
      obtain ⟨-, -, hpos⟩ := candidate_of_mem hx
      have htop := hgreatest x hx
      have hsame : x.bestScore = best.bestScore := by omega
      have hfirst := FirstBest.scan_first TileChoice.zero tileChoices_sorted hx hpos (hbest.symm ▸ hsame)
      rw [hbest] at hfirst
      rcases hfirst with heq | hbefore
      · exact Nat.le_of_eq (congrArg TileChoice.tileM heq)
      · exact hbefore.le

end

/-- For every descriptor and all capacities no arithmetic leaves its range, and the tile chosen is the best one. -/
theorem tuAttentionAutoTile_best {F : Type} (desc : TuAttentionDesc F) :
    ∃ tileM tileN : UInt32, tuAttentionAutoTile cfg desc = some { desc with tileM := tileM, tileN := tileN } ∧
      IsBestTile cfg desc tileM.toNat tileN.toNat := by
  have hdim := desc.headDim.toNat_lt
  have hn := desc.seqLenKv.toNat_lt
  have hzero {x : UInt32} (h : x = 0) : x.toNat = 0 := congrArg UInt32.toNat h
  unfold tuAttentionAutoTile
  dsimp only
  by_cases hnone : desc.seqLenQ = 0 ∨ desc.seqLenKv = 0 ∨ desc.headDim = 0
  · rw [if_pos hnone]
    refine ⟨0, 0, rfl, .of_no_candidate fun tm tn h => ?_⟩
    obtain ⟨htm, -, hdim0, hn0⟩ := h.pos
    rcases hnone with h0 | h0 | h0
    · have := hzero h0
      have := h.1
      omega
    · exact absurd (hzero h0) hn0.ne'
    · exact absurd (hzero h0) hdim0.ne'
  rw [if_neg hnone, mul_eq_some (by omega : 4 * desc.headDim.toNat < 2 ^ 64)]
  simp only [Option.bind_eq_bind, Option.bind_some]
  have hmin : (if cfg.sramWSize.toNat / (4 * desc.headDim.toNat) > desc.seqLenKv.toNat then desc.seqLenKv.toNat
      else cfg.sramWSize.toNat / (4 * desc.headDim.toNat)) =
      min (cfg.sramWSize.toNat / (4 * desc.headDim.toNat)) desc.seqLenKv.toNat := by
    split <;> omega
  have hheights : ∀ tm ∈ heights desc.seqLenQ.toNat, tm < 2 ^ 32 := fun tm h => by
    have := List.mem_range'_1.1 h
    omega
  rw [hmin, autoTileLoop_eq cfg hdim hn _ hheights, Option.bind_some]
  generalize hscan : FirstBest.scan TileChoice.bestScore .zero _ = best
  obtain ⟨hbest, htileM, htileN⟩ := isBestTile_of_first rfl hscan
  refine ⟨_, _, rfl, ?_⟩
  have htileM' := htileM.trans_lt (by decide : 64 < 2 ^ 32)
  have htileN' := htileN.trans_lt hn
  rw [UInt32.toNat_ofNat_of_lt' htileM', UInt32.toNat_ofNat_of_lt' htileN']
  exact hbest

end Tusim.Attention
