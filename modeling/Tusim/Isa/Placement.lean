import Tusim.Isa.Overlap
import Tusim.Isa.RegisterTable

/-!
# Where the registers go

The interference graphs are empty, so every search ends at offset `0` or fails at once, and a register is placed at
`0` or spilled by its size alone (`color_settled`).  Registers that lose their turn as victims may be spilled
besides; when victims come in program order there are none.
-/

namespace Tusim

/-- The register without its place. -/
def TuVreg.bare (v : TuVreg) : TuVreg := { v with physicalOffset := tuUnassigned, spilled := false }

/-- The register gets a place: it has no definition, it may not be spilled, or it is small enough. -/
def TuVreg.placeable (config : TuLiveConfig) (v : TuVreg) : Bool :=
  v.firstDef < 0 || !config.enableSpilling || v.sizeBytes ≤ regionCapacity config v.region - config.safetyMargin

/-- Of the registers that are not placed the first is the best victim. -/
def TuLiveConfig.VictimsInOrder (config : TuLiveConfig) (n : Nat) : Prop :=
  config.enableSpilling = false ∨ config.spillStrategy = .fifo ∨ config.spillStrategy = .lru ∧ n < 2 ^ 31

/-! ### Updates of one register -/

namespace Coloring

variable {s : Coloring}

private theorem getD_modify (vs : List TuVreg) (f : TuVreg → TuVreg) {k q : Nat} (hk : k < vs.length) :
    (vs.modify k f).getD q default = if k = q then f (vs.getD q default) else vs.getD q default := by
  rw [List.getD_eq_getElem?_getD, List.getD_eq_getElem?_getD, List.getElem?_modify]
  by_cases hq : k = q
  · subst hq
    rw [if_pos rfl, List.getElem?_eq_getElem hk]
    simp
  · simp [hq]

@[simp] theorem length_place (s : Coloring) (k : Nat) (offset : UInt32) :
    (s.place k offset).vregs.length = s.vregs.length := List.length_modify ..

@[simp] theorem length_spill (s : Coloring) (k : Nat) : (s.spill k).vregs.length = s.vregs.length :=
  List.length_modify ..

theorem vreg_place {k : Nat} (hk : k < s.vregs.length) (offset : UInt32) (q : Nat) :
    (s.place k offset).vreg q = if k = q then { s.vreg q with physicalOffset := offset } else s.vreg q :=
  getD_modify _ _ hk

theorem vreg_spill {k : Nat} (hk : k < s.vregs.length) (q : Nat) :
    (s.spill k).vreg q = if k = q then { s.vreg q with spilled := true } else s.vreg q :=
  getD_modify _ _ hk

end Coloring

/-- Colouring has changed only offsets and spill marks. -/
structure Places (vs : List TuVreg) (s : Coloring) : Prop where
  length : s.vregs.length = vs.length
  bare : ∀ k, (s.vreg k).bare = vs.getD k default

namespace Places

variable {vs : List TuVreg} {s : Coloring}

theorem region (h : Places vs s) (k : Nat) : (s.vreg k).region = (vs.getD k default).region :=
  (congrArg TuVreg.region (h.bare k) :)

theorem firstDef (h : Places vs s) (k : Nat) : (s.vreg k).firstDef = (vs.getD k default).firstDef :=
  (congrArg TuVreg.firstDef (h.bare k) :)

theorem lastUse (h : Places vs s) (k : Nat) : (s.vreg k).lastUse = (vs.getD k default).lastUse :=
  (congrArg TuVreg.lastUse (h.bare k) :)

theorem sizeBytes (h : Places vs s) (k : Nat) : (s.vreg k).sizeBytes = (vs.getD k default).sizeBytes :=
  (congrArg TuVreg.sizeBytes (h.bare k) :)

theorem placeable (h : Places vs s) (config : TuLiveConfig) (k : Nat) :
    (s.vreg k).placeable config = (vs.getD k default).placeable config :=
  (congrArg (TuVreg.placeable config) (h.bare k) :)

theorem score (h : Places vs s) (strategy : TuSpillStrategy) (k : Nat) :
    strategy.score (s.vreg k) = strategy.score (vs.getD k default) := by
  rw [← h.bare k]
  cases strategy <;> rfl

theorem place (h : Places vs s) {k : Nat} (hk : k < vs.length) (offset : UInt32) : Places vs (s.place k offset) := by
  refine ⟨(s.length_place k offset).trans h.length, fun q => ?_⟩
  rw [Coloring.vreg_place (by rw [h.length]; exact hk), ← h.bare q]
  split <;> rfl

theorem spill (h : Places vs s) {k : Nat} (hk : k < vs.length) : Places vs (s.spill k) := by
  refine ⟨(s.length_spill k).trans h.length, fun q => ?_⟩
  rw [Coloring.vreg_spill (by rw [h.length]; exact hk), ← h.bare q]
  split <;> rfl

theorem regionVregs (h : Places vs s) (region : TuSramRegionId) :
    regionVregs s.vregs region = regionVregs vs region := by
  unfold Tusim.regionVregs
  rw [h.length]
  refine List.filter_congr fun k _ => ?_
  rw [← h.region k]
  rfl

theorem interferes (h : Places vs s) (members : List Nat) : interferes s.vregs members = interferes vs members := by
  funext p q
  have hp := h.firstDef (members.getD p 0)
  have hq := h.firstDef (members.getD q 0)
  have hp' := h.lastUse (members.getD p 0)
  have hq' := h.lastUse (members.getD q 0)
  unfold Coloring.vreg at hp hq hp' hq'
  unfold Tusim.interferes
  dsimp only
  rw [hp, hq, hp', hq']

end Places

/-! ### One turn -/

/-- Without conflicts the search looks at offset `0` only. -/
private theorem searchOffset_free {conflict : UInt32 → Bool} (hconflict : conflict 0 = false)
    (size capacity step : UInt32) (n : Nat) :
    searchOffset conflict size capacity step (n + 1) 0 = some (if size ≤ capacity then some 0 else none) := by
  unfold searchOffset
  rw [UInt32.zero_add, hconflict]
  split <;> rfl

section Turn

variable {config : TuLiveConfig} {members : List Nat} {interference : Nat → Nat → Bool} {capacity step : UInt32} {p : Nat}

theorem Coloring.search_free (hfree : ∀ q, q < members.length → interference p q = false) (s : Coloring) :
    s.search members interference capacity step p =
      some (if (s.vreg (members.getD p 0)).sizeBytes ≤ capacity then some 0 else none) := by
  refine searchOffset_free ?_ _ capacity step (2 ^ 32 - 1)
  refine List.any_eq_false.2 fun q hq => ?_
  rw [hfree q (List.mem_range.1 hq)]
  simp

/-- The state after a victim is spilled. -/
def Coloring.makeRoom (config : TuLiveConfig) (members : List Nat) (s : Coloring) : Coloring :=
  let victim := selectSpillVictim s members config.spillStrategy
  if victim < members.length && !(s.vreg (members.getD victim 0)).spilled then s.spill (members.getD victim 0) else s

theorem Coloring.makeRoom_cases (config : TuLiveConfig) (members : List Nat) (s : Coloring) :
    s.makeRoom config members = s ∨ ∃ k ∈ members, s.makeRoom config members = s.spill k := by
  unfold makeRoom
  dsimp only
  split
  · rename_i hvictim
    rw [Bool.and_eq_true, decide_eq_true_eq] at hvictim
    refine Or.inr ⟨_, ?_, rfl⟩
    rw [List.getD_eq_getElem _ _ hvictim.1]
    exact List.getElem_mem _
  · exact Or.inl rfl

/-- A turn places the register at `0`, or spills a victim and the register. -/
theorem Coloring.placeNext_free (hfree : ∀ q, q < members.length → interference p q = false) (s : Coloring)
    (hlt : ∀ k ∈ members, k < s.vregs.length) :
    s.placeNext config members interference capacity p =
      some (if (s.vreg (members.getD p 0)).firstDef < 0 || !config.enableSpilling ||
          (s.vreg (members.getD p 0)).sizeBytes ≤ capacity then s.place (members.getD p 0) 0
        else (s.makeRoom config members).spill (members.getD p 0)) := by
  unfold placeNext
  dsimp only
  by_cases hdef : (s.vreg (members.getD p 0)).firstDef < 0
  · rw [if_pos hdef, decide_eq_true hdef, Bool.true_or, Bool.true_or, if_pos rfl]
  · rw [if_neg hdef, search_free hfree]
    by_cases hsize : (s.vreg (members.getD p 0)).sizeBytes ≤ capacity
    · rw [if_pos hsize, decide_eq_true hsize, Bool.or_true, if_pos rfl]
      rfl
    · rw [if_neg hsize]
      cases hspill : config.enableSpilling with
      | false => simp
      | true =>
        have hfiner : (if config.allocStrategy = .bestFit then s.search members interference capacity 1 p
            else some none) = some none := by
          rw [search_free hfree, if_neg hsize]
          split <;> rfl
        rw [hfiner]
        simp only [hdef, hsize, Option.bind_some, decide_false, Bool.not_true, Bool.or_self, Bool.false_eq_true,
          if_false, if_true]
        -- after the victim the search fails again
        unfold evict makeRoom
        dsimp only
        split
        · rename_i hvictim
          rw [Bool.and_eq_true, decide_eq_true_eq, List.getD_eq_getElem _ _ hvictim.1] at hvictim
          rw [List.getD_eq_getElem _ _ hvictim.1, search_free hfree, vreg_spill (hlt _ (List.getElem_mem _)), if_neg]
          · rfl
          · split
            · exact hsize
            · exact hsize
        · rfl

end Turn

/-! ### One region -/

/-- The register at a position of a region. -/
def memberAt (vs : List TuVreg) (region : TuSramRegionId) (p : Nat) : Nat := (regionVregs vs region).getD p 0

section Region

variable {config : TuLiveConfig} {vs : List TuVreg} {region : TuSramRegionId} {s₀ s : Coloring} {m : Nat}

theorem memberAt_mem {p : Nat} (hp : p < (regionVregs vs region).length) :
    memberAt vs region p < vs.length ∧ (vs.getD (memberAt vs region p) default).region = region := by
  refine mem_regionVregs.1 ?_
  unfold memberAt
  rw [List.getD_eq_getElem _ _ hp]
  exact List.getElem_mem hp

private theorem memberAt_lt {p q : Nat} (hpq : p < q) (hq : q < (regionVregs vs region).length) :
    memberAt vs region p < memberAt vs region q := by
  have hp := Nat.lt_trans hpq hq
  unfold memberAt
  rw [List.getD_eq_getElem _ _ hp, List.getD_eq_getElem _ _ hq]
  exact List.pairwise_iff_getElem.1 (regionVregs_lt vs region) p q hp hq hpq

theorem memberAt_ne {p q : Nat} (hp : p < (regionVregs vs region).length)
    (hq : q < (regionVregs vs region).length) (hpq : p ≠ q) : memberAt vs region p ≠ memberAt vs region q := by
  rcases Nat.lt_or_gt_of_ne hpq with hlt | hlt
  · exact Nat.ne_of_lt (memberAt_lt hlt hq)
  · exact Nat.ne_of_gt (memberAt_lt hlt hp)

/-- The register has had its turn. -/
def TuVreg.Settled (config : TuLiveConfig) (v : TuVreg) : Prop :=
  if v.placeable config then v.physicalOffset = 0 else v.spilled = true ∧ v.physicalOffset = tuUnassigned

/-- The colouring of a region before turn `m`; `s₀` is the state before the region. -/
structure Placing (config : TuLiveConfig) (vs : List TuVreg) (region : TuSramRegionId) (s₀ : Coloring) (m : Nat)
    (s : Coloring) : Prop where
  places : Places vs s
  others : ∀ k, (vs.getD k default).region ≠ region → s.vreg k = s₀.vreg k
  settled : ∀ p, p < m → p < (regionVregs vs region).length → (s.vreg (memberAt vs region p)).Settled config
  waiting : ∀ p, m ≤ p → p < (regionVregs vs region).length →
    (s.vreg (memberAt vs region p)).physicalOffset = tuUnassigned

/-- So far only registers that had their turn and could not be placed are spilled. -/
def NoneBesides (config : TuLiveConfig) (vs : List TuVreg) (region : TuSramRegionId) (m : Nat) (s : Coloring) : Prop :=
  ∀ p, p < (regionVregs vs region).length → (s.vreg (memberAt vs region p)).spilled = true →
    p < m ∧ (s.vreg (memberAt vs region p)).placeable config = false

private theorem TuVreg.Settled.spilled {v : TuVreg} (h : v.Settled config) :
    ({ v with spilled := true } : TuVreg).Settled config := by
  unfold TuVreg.Settled at h ⊢
  have hsame : ({ v with spilled := true } : TuVreg).placeable config = v.placeable config := rfl
  rw [hsame]
  split
  · rename_i hplace
    rw [if_pos hplace] at h
    exact h
  · rename_i hplace
    rw [if_neg hplace] at h
    exact ⟨rfl, h.2⟩

/-- Spilling a register of the region takes no place away. -/
private theorem Placing.spill (h : Placing config vs region s₀ m s) {k : Nat} (hk : k ∈ regionVregs vs region) :
    Placing config vs region s₀ m (s.spill k) := by
  obtain ⟨hlt, hregion⟩ := mem_regionVregs.1 hk
  have hvreg := fun q => Coloring.vreg_spill (s := s) (by rw [h.places.length]; exact hlt) q
  refine ⟨h.places.spill hlt, fun q hq => ?_, fun p hpm hp => ?_, fun p hmp hp => ?_⟩
  · rw [hvreg, if_neg]
    · exact h.others q hq
    · rintro rfl
      exact hq hregion
  · rw [hvreg]
    split
    · exact (h.settled p hpm hp).spilled
    · exact h.settled p hpm hp
  · rw [hvreg]
    split
    · exact h.waiting p hmp hp
    · exact h.waiting p hmp hp

/-- Once the register at position `m` is settled, the turn is over. -/
private theorem Placing.next (h : Placing config vs region s₀ m s)
    (hsettled : (s.vreg (memberAt vs region m)).Settled config) : Placing config vs region s₀ (m + 1) s := by
  refine ⟨h.places, h.others, fun p hpm hp => ?_, fun p hmp => h.waiting p (by omega)⟩
  rcases Nat.lt_succ_iff_lt_or_eq.1 hpm with hpm | rfl
  · exact h.settled p hpm hp
  · exact hsettled

/-- What a turn does. -/
def Coloring.settle (config : TuLiveConfig) (vs : List TuVreg) (region : TuSramRegionId) (m : Nat) (s : Coloring) :
    Coloring :=
  if (s.vreg (memberAt vs region m)).placeable config then s.place (memberAt vs region m) 0
  else (s.makeRoom config (regionVregs vs region)).spill (memberAt vs region m)

theorem Places.placeNext (h : Places vs s) {interference : Nat → Nat → Bool}
    (hfree : ∀ q, q < (Tusim.regionVregs vs region).length → interference m q = false)
    (hm : m < (Tusim.regionVregs vs region).length) :
    s.placeNext config (Tusim.regionVregs vs region) interference
      (regionCapacity config region - config.safetyMargin) m = some (s.settle config vs region m) := by
  have hlt : ∀ k ∈ Tusim.regionVregs vs region, k < s.vregs.length := fun k hk => by
    rw [h.length]
    exact (mem_regionVregs.1 hk).1
  rw [Coloring.placeNext_free hfree s hlt]
  unfold Coloring.settle TuVreg.placeable
  rw [h.region, (memberAt_mem hm).2]
  rfl

/-- The turn of the register at position `m`. -/
private theorem Placing.turn (h : Placing config vs region s₀ m s) (hm : m < (regionVregs vs region).length) :
    Placing config vs region s₀ (m + 1) (s.settle config vs region m) := by
  obtain ⟨hlt, hregion⟩ := memberAt_mem hm
  have hlen : memberAt vs region m < s.vregs.length := by rw [h.places.length]; exact hlt
  unfold Coloring.settle
  cases hplace : (s.vreg (memberAt vs region m)).placeable config with
  | true =>
    rw [if_pos rfl]
    have hvreg := fun q => Coloring.vreg_place hlen 0 q
    refine ⟨h.places.place hlt 0, fun q hq => ?_, fun p hpm hp => ?_, fun p hmp hp => ?_⟩
    · rw [hvreg, if_neg]
      · exact h.others q hq
      · rintro rfl
        exact hq hregion
    · rw [hvreg]
      split
      · rename_i hsame
        rw [← hsame]
        have hsettled : ({ s.vreg (memberAt vs region m) with physicalOffset := 0 } : TuVreg).placeable config = true :=
          hplace
        unfold TuVreg.Settled
        rw [if_pos hsettled]
      · rename_i hne
        refine h.settled p ?_ hp
        rcases Nat.lt_succ_iff_lt_or_eq.1 hpm with hpm | rfl
        · exact hpm
        · exact absurd rfl hne
    · rw [hvreg, if_neg (memberAt_ne hm hp (by omega))]
      exact h.waiting p (by omega) hp
  | false =>
    rw [if_neg Bool.false_ne_true]
    have hmem : memberAt vs region m ∈ regionVregs vs region := mem_regionVregs.2 ⟨hlt, hregion⟩
    have hroom : Placing config vs region s₀ m (s.makeRoom config (regionVregs vs region)) := by
      rcases s.makeRoom_cases config (regionVregs vs region) with heq | ⟨k, hk, heq⟩
      · rw [heq]
        exact h
      · rw [heq]
        exact h.spill hk
    generalize s.makeRoom config (regionVregs vs region) = s₁ at hroom ⊢
    refine (hroom.spill hmem).next ?_
    have hlen₁ : memberAt vs region m < s₁.vregs.length := by rw [hroom.places.length]; exact hlt
    rw [Coloring.vreg_spill hlen₁, if_pos rfl]
    refine (if_neg ?_).mpr ⟨rfl, hroom.waiting m (Nat.le_refl m) hm⟩
    have hsame : ({ s₁.vreg (memberAt vs region m) with spilled := true } : TuVreg).placeable config =
        (s.vreg (memberAt vs region m)).placeable config := by
      rw [h.places.placeable, ← hroom.places.placeable]
      rfl
    rw [hsame, hplace]
    exact Bool.false_ne_true

/-! ### Victims in program order -/

/-- The first candidate is the victim if no later register scores more. -/
private theorem selectSpillVictim_first {members : List Nat} {strategy : TuSpillStrategy} {p : Nat}
    (hp : p < members.length)
    (hbefore : ∀ q, q < p → (s.vreg (members.getD q 0)).spilled = true ∨
      (s.vreg (members.getD q 0)).physicalOffset ≠ tuUnassigned)
    (hspilled : (s.vreg (members.getD p 0)).spilled = false)
    (hunassigned : (s.vreg (members.getD p 0)).physicalOffset = tuUnassigned)
    (hpos : 0 < strategy.score (s.vreg (members.getD p 0)))
    (hafter : ∀ q, p < q → q < members.length →
      strategy.score (s.vreg (members.getD q 0)) ≤ strategy.score (s.vreg (members.getD p 0))) :
    selectSpillVictim s members strategy = p := by
  have hscan : ∀ n, n ≤ members.length → (List.range n).foldl (fun (best : Nat × UInt32) p =>
      let v := s.vreg (members.getD p 0)
      if v.spilled || v.physicalOffset ≠ tuUnassigned then best
      else if strategy.score v > best.2 then (p, strategy.score v) else best) (0, 0) =
        if n ≤ p then (0, 0) else (p, strategy.score (s.vreg (members.getD p 0))) := by
    intro n hn
    induction n with
    | zero => rw [if_pos (Nat.zero_le p)]; rfl
    | succ n ih =>
      rw [List.range_succ, List.foldl_append, ih (by omega), List.foldl_cons, List.foldl_nil]
      dsimp only
      rcases Nat.lt_trichotomy n p with hlt | rfl | hgt
      · have hskip : ((s.vreg (members.getD n 0)).spilled ||
            decide ((s.vreg (members.getD n 0)).physicalOffset ≠ tuUnassigned)) = true := by
          rw [Bool.or_eq_true, decide_eq_true_eq]
          exact hbefore n hlt
        rw [if_pos hskip, if_pos (show n ≤ p by omega), if_pos (show n + 1 ≤ p by omega)]
      · rw [hspilled, hunassigned, if_pos (Nat.le_refl n), if_neg (show ¬ n + 1 ≤ n by omega)]
        exact if_pos hpos
      · rw [if_neg (show ¬ n ≤ p by omega), if_neg (show ¬ n + 1 ≤ p by omega)]
        split
        · rfl
        · exact if_neg (UInt32.not_lt.2 (hafter n hgt (by omega)))
  unfold selectSpillVictim
  rw [hscan members.length (Nat.le_refl _), if_neg (by omega)]

private theorem score_fifo {n k : Nat} (hapart : Apart n vs) (hk : k < vs.length) :
    (TuSpillStrategy.fifo.score (vs.getD k default)).toNat = 2 ^ 32 - 2 - k := by
  have hlen := hapart.length_le
  have hmax : tuLiveMaxVregs = 128 := rfl
  have hword : UInt32.size = 2 ^ 32 := rfl
  have hall : (0xFFFFFFFF : UInt32).toNat = 2 ^ 32 - 1 := rfl
  have hid : (k + 1).toUInt32.toNat = k + 1 := UInt32.toNat_ofNat_of_lt' (by omega)
  show (0xFFFFFFFF - (vs.getD k default).id).toNat = _
  rw [hapart.ids k hk, UInt32.toNat_sub, hall, hid]
  omega

private theorem score_lru {n k : Nat} (hapart : Apart n vs) (hn : n < 2 ^ 31) (hk : k < vs.length) :
    ((TuSpillStrategy.lru.score (vs.getD k default)).toNat : Int) = 2 ^ 32 - 1 - (vs.getD k default).lastUse := by
  have hranged : (vs.getD k default).Ranged n := by
    rw [List.getD_eq_getElem _ _ hk]
    exact hapart.ranged _ (List.getElem_mem hk)
  have hnonneg := hranged.lastUse_nonneg
  have hlt := hranged.lastUse_lt
  have hword : UInt32.size = 2 ^ 32 := rfl
  have hall : (0xFFFFFFFF : UInt32).toNat = 2 ^ 32 - 1 := rfl
  have hmod : (vs.getD k default).lastUse % 2 ^ 32 = (vs.getD k default).lastUse := Int.emod_eq_of_lt hnonneg (by omega)
  have hlast : (UInt32.ofInt (vs.getD k default).lastUse).toNat = (vs.getD k default).lastUse.toNat := by
    unfold UInt32.ofInt
    rw [hmod]
    exact UInt32.toNat_ofNat_of_lt' (by omega)
  show ((0xFFFFFFFF - UInt32.ofInt (vs.getD k default).lastUse).toNat : Int) = _
  rw [UInt32.toNat_sub, hall, hlast]
  omega

private theorem score_pos {n k : Nat} (hapart : Apart n vs) (horder : config.VictimsInOrder n)
    (hspilling : config.enableSpilling = true) (hk : k < vs.length) :
    0 < config.spillStrategy.score (vs.getD k default) := by
  have hlen := hapart.length_le
  have hmax : tuLiveMaxVregs = 128 := rfl
  have hzero : (0 : UInt32).toNat = 0 := rfl
  rw [UInt32.lt_iff_toNat_lt, hzero]
  rcases horder with hoff | hfifo | ⟨hlru, hn⟩
  · rw [hoff] at hspilling
    cases hspilling
  · rw [hfifo, score_fifo hapart hk]
    omega
  · have hscore := score_lru hapart hn hk
    have hlt : (vs.getD k default).lastUse < n := by
      rw [List.getD_eq_getElem _ _ hk]
      exact (hapart.ranged _ (List.getElem_mem hk)).lastUse_lt
    rw [hlru]
    omega

/-- A later register of the region scores no more than one that has a definition. -/
private theorem score_le {n p q : Nat} (hapart : Apart n vs) (horder : config.VictimsInOrder n)
    (hspilling : config.enableSpilling = true) (hpq : p < q) (hq : q < vs.length)
    (hr : (vs.getD p default).region = (vs.getD q default).region) (hdef : 0 ≤ (vs.getD p default).firstDef) :
    config.spillStrategy.score (vs.getD q default) ≤ config.spillStrategy.score (vs.getD p default) := by
  have hp := Nat.lt_trans hpq hq
  rw [UInt32.le_iff_toNat_le]
  rcases horder with hoff | hfifo | ⟨hlru, hn⟩
  · rw [hoff] at hspilling
    cases hspilling
  · rw [hfifo, score_fifo hapart hp, score_fifo hapart hq]
    omega
  · have hscore := score_lru hapart hn hp
    have hscore' := score_lru hapart hn hq
    have hle : (vs.getD p default).lastUse ≤ (vs.getD q default).lastUse := by
      rw [List.getD_eq_getElem _ _ hp] at hr hdef ⊢
      rw [List.getD_eq_getElem _ _ hq] at hr ⊢
      obtain ⟨hexplicit, himplicit⟩ := List.pairwise_iff_getElem.1 hapart.earlier p q hp hq hpq hr
      have hqle := (hapart.ranged _ (List.getElem_mem hq)).firstDef_le
      by_cases hqdef : 0 ≤ vs[q].firstDef
      · have hbefore := hexplicit hqdef
        omega
      · have hpdef := himplicit (Int.not_le.1 hqdef)
        omega
    rw [hlru]
    omega

/-- When victims come in program order, a register that cannot be placed is its own victim. -/
private theorem NoneBesides.turn {n : Nat} (hnone : NoneBesides config vs region m s)
    (h : Placing config vs region s₀ m s) (hapart : Apart n vs) (horder : config.VictimsInOrder n)
    (hm : m < (regionVregs vs region).length) :
    NoneBesides config vs region (m + 1) (s.settle config vs region m) := by
  obtain ⟨hlt, hregion⟩ := memberAt_mem hm
  have hlen : memberAt vs region m < s.vregs.length := by rw [h.places.length]; exact hlt
  intro p hp hspilled
  rw [(h.turn hm).places.placeable, ← h.places.placeable]
  have hold : (s.vreg (memberAt vs region p)).spilled = true →
      p < m + 1 ∧ (s.vreg (memberAt vs region p)).placeable config = false := fun hs =>
    ⟨Nat.lt_succ_of_lt (hnone p hp hs).1, (hnone p hp hs).2⟩
  unfold Coloring.settle at hspilled
  cases hplace : (s.vreg (memberAt vs region m)).placeable config with
  | true =>
    rw [hplace, if_pos rfl, Coloring.vreg_place hlen] at hspilled
    split at hspilled
    · exact hold hspilled
    · exact hold hspilled
  | false =>
    rw [hplace, if_neg Bool.false_ne_true] at hspilled
    have hself : ∀ s' : Coloring, (s' = s ∨ s' = s.spill (memberAt vs region m)) →
        ((s'.spill (memberAt vs region m)).vreg (memberAt vs region p)).spilled = true →
          p < m + 1 ∧ (s.vreg (memberAt vs region p)).placeable config = false := by
      intro s' hs' hsp
      by_cases hpm : p = m
      · subst hpm
        exact ⟨Nat.lt_succ_self p, hplace⟩
      · have hne := memberAt_ne hm hp (Ne.symm hpm)
        rcases hs' with rfl | rfl
        · rw [Coloring.vreg_spill hlen, if_neg hne] at hsp
          exact hold hsp
        · rw [Coloring.vreg_spill (by rwa [Coloring.length_spill]), if_neg hne, Coloring.vreg_spill hlen,
            if_neg hne] at hsp
          exact hold hsp
    refine hself _ ?_ hspilled
    unfold TuVreg.placeable at hplace
    simp only [Bool.or_eq_false_iff, decide_eq_false_iff_not, Bool.not_eq_false'] at hplace
    obtain ⟨⟨hdef, hspilling⟩, hsize⟩ := hplace
    rw [h.places.firstDef, Int.not_lt] at hdef
    have hunspilled : ∀ q, m ≤ q → q < (regionVregs vs region).length →
        (s.vreg (memberAt vs region q)).spilled = false := by
      intro q hmq hq
      by_contra hc
      rw [Bool.not_eq_false] at hc
      have hqm := (hnone q hq hc).1
      omega
    have hfresh := hunspilled m (Nat.le_refl m) hm
    have hvictim : selectSpillVictim s (regionVregs vs region) config.spillStrategy = m := by
      refine selectSpillVictim_first hm (fun q hqm => ?_) hfresh (h.waiting m (Nat.le_refl m) hm) ?_ fun q hmq hq => ?_
      · -- a register that had its turn is placed or spilled
        have hsettled := h.settled q hqm (Nat.lt_trans hqm hm)
        unfold TuVreg.Settled at hsettled
        split at hsettled
        · right
          unfold memberAt at hsettled
          rw [hsettled]
          decide
        · exact Or.inl hsettled.1
      · have hpos := score_pos hapart horder hspilling hlt
        rw [← h.places.score] at hpos
        exact hpos
      · obtain ⟨hqlt, hqregion⟩ := memberAt_mem hq
        have hle := score_le hapart horder hspilling (memberAt_lt hmq hq) hqlt (hregion.trans hqregion.symm) hdef
        rw [← h.places.score, ← h.places.score] at hle
        exact hle
    have hvictims :
        (decide (m < (regionVregs vs region).length) && !(s.vreg (memberAt vs region m)).spilled) = true := by
      rw [hfresh, decide_eq_true hm]
      rfl
    unfold Coloring.makeRoom
    rw [hvictim]
    exact Or.inr (if_pos hvictims)

/-- The sort by definitions finds the registers in order. -/
private theorem sorted_members {n : Nat} (hapart : Apart n vs) (h : Places vs s) :
    ((regionVregs vs region).insertionSort fun a b => (s.vreg a).firstDef ≤ (s.vreg b).firstDef) =
      regionVregs vs region := by
  refine List.Pairwise.insertionSort_eq ((regionVregs_lt vs region).imp_of_mem fun {a b} ha hb hab => ?_)
  obtain ⟨hlta, hra⟩ := mem_regionVregs.1 ha
  obtain ⟨hltb, hrb⟩ := mem_regionVregs.1 hb
  rw [h.firstDef, h.firstDef]
  rw [List.getD_eq_getElem _ _ hlta] at hra ⊢
  rw [List.getD_eq_getElem _ _ hltb] at hrb ⊢
  obtain ⟨hexplicit, himplicit⟩ := List.pairwise_iff_getElem.1 hapart.earlier a b hlta hltb hab (hra.trans hrb.symm)
  have hle := (hapart.ranged _ (List.getElem_mem hlta)).firstDef_le
  have hge := (hapart.ranged _ (List.getElem_mem hltb)).firstDef_ge
  by_cases hdef : 0 ≤ vs[b].firstDef
  · have hbefore := hexplicit hdef
    omega
  · have hneg := himplicit (Int.not_le.1 hdef)
    omega

/-- The turns of a region keep what one turn keeps. -/
private theorem region_turns {interference : Nat → Nat → Bool}
    (hfree : ∀ p q, p < (regionVregs vs region).length → q < (regionVregs vs region).length → interference p q = false)
    (h : Placing config vs region s₀ 0 s₀) {J : Nat → Coloring → Prop} (hstart : J 0 s₀)
    (hturn : ∀ m s, m < (regionVregs vs region).length → Placing config vs region s₀ m s → J m s →
      J (m + 1) (s.settle config vs region m))
    (hm : m ≤ (regionVregs vs region).length) :
    ∃ s, (List.range m).foldlM (Coloring.placeNext config (regionVregs vs region) interference
        (regionCapacity config region - config.safetyMargin)) s₀ = some s ∧
      Placing config vs region s₀ m s ∧ J m s := by
  induction m with
  | zero => exact ⟨s₀, rfl, h, hstart⟩
  | succ m ih =>
    obtain ⟨s, hs, hplacing, hkept⟩ := ih (Nat.le_of_succ_le hm)
    refine ⟨s.settle config vs region m, ?_, hplacing.turn hm, hturn m s hm hplacing hkept⟩
    rw [List.range_succ, List.foldlM_append, hs]
    show List.foldlM _ s [m] = some _
    rw [List.foldlM_cons, hplacing.places.placeNext (fun q hq => hfree m q hm hq) hm]
    rfl

end Region

/-! ### All regions -/

/-- The colouring after some regions. -/
structure Colored (config : TuLiveConfig) (n : Nat) (vs : List TuVreg) (regions : List TuSramRegionId) (s : Coloring) :
    Prop where
  places : Places vs s
  fresh : ∀ k, (vs.getD k default).region ∉ regions → s.vreg k = vs.getD k default
  settled : ∀ k, k < vs.length → (vs.getD k default).region ∈ regions → (s.vreg k).Settled config
  ordered : config.VictimsInOrder n → ∀ k, k < vs.length → (vs.getD k default).region ∈ regions →
    (s.vreg k).spilled = true → (s.vreg k).placeable config = false

private theorem exists_memberAt {vs : List TuVreg} {k : Nat} (hk : k < vs.length) :
    ∃ p, p < (regionVregs vs (vs.getD k default).region).length ∧ memberAt vs (vs.getD k default).region p = k := by
  obtain ⟨p, hp, hpk⟩ := List.mem_iff_getElem.1 (mem_regionVregs.2 ⟨hk, rfl⟩)
  refine ⟨p, hp, ?_⟩
  unfold memberAt
  rw [List.getD_eq_getElem _ _ hp]
  exact hpk

/-- The induction over the turns of the next region. -/
theorem Colored.region_turns {config : TuLiveConfig} {n : Nat} {vs : List TuVreg} {regions : List TuSramRegionId}
    {s : Coloring} (h : Colored config n vs regions s) (hapart : Apart n vs) (huntouched : Untouched vs)
    {region : TuSramRegionId} (hnew : region ∉ regions) {J : Nat → Coloring → Prop} (hstart : J 0 s)
    (hturn : ∀ m s', m < (regionVregs vs region).length → Placing config vs region s m s' → J m s' →
      J (m + 1) (s'.settle config vs region m)) :
    ∃ s', colorRegion config s region = some s' ∧ Placing config vs region s (regionVregs vs region).length s' ∧
      J (regionVregs vs region).length s' := by
  have hplacing : Placing config vs region s 0 s := by
    refine ⟨h.places, fun _ _ => rfl, fun p hp => absurd hp (Nat.not_lt_zero p), fun p _ hp => ?_⟩
    obtain ⟨hlt, hregion⟩ := memberAt_mem hp
    rw [h.fresh _ (by rw [hregion]; exact hnew), List.getD_eq_getElem _ _ hlt]
    exact (huntouched _ (List.getElem_mem hlt)).2
  have hfree : ∀ p q, p < (regionVregs vs region).length → q < (regionVregs vs region).length →
      interferes s.vregs (regionVregs vs region) p q = false := by
    intro p q hp hq
    rw [h.places.interferes]
    exact interferes_eq_false hapart region hp hq
  obtain ⟨s', hs', hdone, hkept⟩ := Tusim.region_turns hfree hplacing hstart hturn (Nat.le_refl _)
  refine ⟨s', ?_, hdone, hkept⟩
  unfold colorRegion
  dsimp only
  rw [h.places.regionVregs, sorted_members hapart h.places]
  exact hs'

private theorem Colored.region {config : TuLiveConfig} {n : Nat} {vs : List TuVreg} {regions : List TuSramRegionId}
    {s : Coloring} (h : Colored config n vs regions s) (hapart : Apart n vs) (huntouched : Untouched vs)
    {region : TuSramRegionId} (hnew : region ∉ regions) :
    ∃ s', colorRegion config s region = some s' ∧ Colored config n vs (region :: regions) s' := by
  have hnone : NoneBesides config vs region 0 s := by
    intro p hp hspilled
    obtain ⟨hlt, hregion⟩ := memberAt_mem hp
    rw [h.fresh _ (by rw [hregion]; exact hnew), List.getD_eq_getElem _ _ hlt,
      (huntouched _ (List.getElem_mem hlt)).1] at hspilled
    cases hspilled
  obtain ⟨s', hs', hdone, hordered⟩ := h.region_turns hapart huntouched hnew
    (J := fun m s => config.VictimsInOrder n → NoneBesides config vs region m s) (fun _ => hnone)
    fun m s hm hplacing hordered horder => (hordered horder).turn hplacing hapart horder hm
  refine ⟨s', hs', hdone.places, fun k hk => ?_, fun k hk hr => ?_, fun horder k hk hr => ?_⟩
  · rw [List.mem_cons, not_or] at hk
    rw [hdone.others k hk.1]
    exact h.fresh k hk.2
  · by_cases hregion : (vs.getD k default).region = region
    · subst hregion
      obtain ⟨p, hp, hpk⟩ := exists_memberAt hk
      rw [← hpk]
      exact hdone.settled p hp hp
    · rw [hdone.others k hregion]
      exact h.settled k hk ((List.mem_cons.1 hr).resolve_left hregion)
  · by_cases hregion : (vs.getD k default).region = region
    · subst hregion
      obtain ⟨p, hp, hpk⟩ := exists_memberAt hk
      rw [← hpk]
      exact fun hspilled => (hordered horder p hp hspilled).2
    · rw [hdone.others k hregion]
      exact h.ordered horder k hk ((List.mem_cons.1 hr).resolve_left hregion)

/-- The induction over the regions. -/
theorem color_regions {instrs : List TuInstruction} {vs : List TuVreg} (h : tuLiveAnalyze instrs = some vs)
    (config : TuLiveConfig) {K : Coloring → Prop} (hstart : K { vregs := vs })
    (hregion : ∀ regions region s s', region ∉ regions → Colored config instrs.length vs regions s → K s →
      colorRegion config s region = some s' → K s') :
    ∃ s, tuLiveColor config vs = some s ∧ (∃ regions, (∀ r, r ∈ regions) ∧ Colored config instrs.length vs regions s) ∧
      K s := by
  have hapart := analyze_apart h
  have huntouched := (analyze_tabled h).untouched
  have hbare : ∀ k, (vs.getD k default).bare = vs.getD k default := by
    intro k
    by_cases hk : k < vs.length
    · have hfresh := huntouched _ (List.getElem_mem hk)
      rw [List.getD_eq_getElem _ _ hk]
      unfold TuVreg.bare
      rw [← hfresh.1, ← hfresh.2]
    · rw [List.getD_eq_default _ _ (Nat.not_lt.1 hk)]
      rfl
  have hinit : Colored config instrs.length vs [] { vregs := vs } :=
    ⟨⟨rfl, hbare⟩, fun _ _ => rfl, fun _ _ hr => absurd hr List.not_mem_nil, fun _ _ _ hr => absurd hr List.not_mem_nil⟩
  have hnotW : TuSramRegionId.w ∉ [] := List.not_mem_nil
  have hnotA : TuSramRegionId.a ∉ [.w] := by decide
  have hnotO : TuSramRegionId.o ∉ [.a, .w] := by decide
  obtain ⟨s₁, hs₁, hw⟩ := hinit.region hapart huntouched hnotW
  obtain ⟨s₂, hs₂, ha⟩ := hw.region hapart huntouched hnotA
  obtain ⟨s₃, hs₃, ho⟩ := ha.region hapart huntouched hnotO
  have hall : ∀ r : TuSramRegionId, r ∈ [TuSramRegionId.o, .a, .w] := fun r => by cases r <;> decide
  have hkept := hregion _ _ _ _ hnotO ha (hregion _ _ _ _ hnotA hw (hregion _ _ _ _ hnotW hinit hstart hs₁) hs₂) hs₃
  refine ⟨s₃, ?_, ⟨_, hall, ho⟩, hkept⟩
  unfold tuLiveColor TuSramRegionId.all
  rw [List.foldlM_cons, hs₁]
  show List.foldlM (colorRegion config) s₁ [.a, .o] = some _
  rw [List.foldlM_cons, hs₂]
  show List.foldlM (colorRegion config) s₂ [.o] = some _
  rw [List.foldlM_cons, hs₃]
  rfl

/-- Colouring ends and settles every register by its size; when victims come in program order, nothing else is
spilled. -/
theorem color_settled {instrs : List TuInstruction} {vs : List TuVreg} (h : tuLiveAnalyze instrs = some vs)
    (config : TuLiveConfig) :
    ∃ s, tuLiveColor config vs = some s ∧ Places vs s ∧ (∀ k, k < vs.length → (s.vreg k).Settled config) ∧
      (config.VictimsInOrder instrs.length →
        ∀ k, k < vs.length → (s.vreg k).spilled = true → (s.vreg k).placeable config = false) := by
  obtain ⟨s, hs, ⟨regions, hall, hcolored⟩, -⟩ :=
    color_regions h config (K := fun _ => True) trivial fun _ _ _ _ _ _ _ _ => trivial
  exact ⟨s, hs, hcolored.places, fun k hk => hcolored.settled k hk (hall _),
    fun horder k hk => hcolored.ordered horder k hk (hall _)⟩

end Tusim
