import Tusim.Config.Settings

/-!
# The accepted configuration is the one that runs

* `runtimeValue_iff`: a value reaches the runtime configuration exactly when it fits its field;
* `unitValues_eq_runtimeValue`, `bankWidth_of_unit`, `directional_toNat`: what the unit makes of it;
* `runsAsGiven_iff` puts them together for a document.
-/

namespace Tusim.Config

open JsonGrammar Tusim.Json

theorem toNat_inRange_bytes {m : Int} (h : 1 ≤ (inRange 1 255 0 m).toNat) :
    ((inRange 1 255 0 m).toNat : Int) = m ∧ 1 ≤ m ∧ m ≤ 255 := by
  unfold inRange at h ⊢
  split
  · rename_i hm
    have := toNat_ofInt m
    omega
  · rename_i hm
    rw [if_neg hm] at h
    exact absurd h (by decide)

theorem isPow2_dvd {x : UInt32} (hlo : 32 ≤ x.toNat) (hhi : x.toNat ≤ 1024) (h : isPow2 x) :
    x.toNat / 8 * 8 = x.toNat := by
  have hbit : x.toNat &&& (x.toNat - 1) = 0 := by
    unfold isPow2 at h
    have h0 : (x &&& (x - 1)).toNat = 0 := by
      rw [beq_iff_eq.1 h]
      rfl
    have hone : (1 : UInt32) ≤ x := UInt32.le_iff_toNat_le.2 (by simpa using by omega)
    rw [UInt32.toNat_and, UInt32.toNat_sub_of_le _ _ hone] at h0
    exact h0
  have hall : ∀ k < 1025, 32 ≤ k → k &&& (k - 1) = 0 → k / 8 * 8 = k := by decide +kernel
  exact hall x.toNat (by omega) hlo hbit

section

variable {F : Type} {fp : Doubles F} {c : TuConfig F}

/-- A value reaches the runtime configuration exactly when it fits its field. -/
theorem runtimeValue_iff (hsram : SramInRange c.sram) {s : Setting} (hs : s ≠ .bankWidthBytes) {m n : Int}
    (hstored : s.Stored c m) (hmn : m = n ∨ 2 ^ 53 ≤ n.natAbs) :
    (s.runtimeValue (tuConfigToRuntime fp c) : Int) = s.scale * n ↔ s.Fits n := by
  cases s
  case bankWidthBytes => exact absurd rfl hs
  case wordsPerRefill =>
    change c.sram.wordsPerCycle = inRange 1 255 0 m at hstored
    change ((c.sram.wordsPerCycle.toNat % 2 ^ 8 : Nat) : Int) = 1 * n ↔ 1 ≤ n ∧ n ≤ 255
    have hrange := hsram.wordsPerCycle
    rw [hstored] at hrange ⊢
    have hread := toNat_inRange_bytes hrange.1
    omega
  case refillWindowCycles =>
    change c.sram.bwWindowCycles = if 1 ≤ m ∧ m ≤ 1000000 then m.toNat else 0 at hstored
    change (c.sram.bwWindowCycles : Int) = 1 * n ↔ 1 ≤ n ∧ n ≤ 1000000
    have hrange := hsram.bwWindowCycles
    split at hstored <;> omega
  case stallPenaltyCycles =>
    change c.sram.stallPenalty = if 1 ≤ m ∧ m ≤ 255 then UInt8.ofInt m else 0 at hstored
    change (c.sram.stallPenalty.toNat : Int) = 1 * n ↔ 1 ≤ n ∧ n ≤ 255
    split at hstored
    · rename_i hm
      have hbyte : c.sram.stallPenalty.toNat = m.toNat := by
        rw [hstored]
        have hlt : (m % 2 ^ 8).toNat < 2 ^ 8 := by omega
        have hval : (UInt8.ofInt m).toNat = (m % 2 ^ 8).toNat := UInt8.toNat_ofNat_of_lt' hlt
        omega
      omega
    · exact absurd hstored hsram.stallPenalty
  case wBufferKb | aBufferKb | oBufferKb =>
    simp only [Setting.Stored] at hstored
    simp only [Setting.runtimeValue, tuConfigToRuntime, Setting.scale, Setting.Fits, hstored]
    exact size_iff hmn
  all_goals
    simp only [Setting.Stored] at hstored
    simp only [Setting.runtimeValue, tuConfigToRuntime, Setting.scale, Setting.Fits, hstored, one_mul]
    exact narrow_iff hmn

/-- The engine of a validated configuration. -/
structure EngineOf (rt : TuRuntimeConfig) (engine : TuDmaConfig) : Prop where
  accepted : tuDmaInitConfig rt.dma = .ok engine
  numChannels : engine.numChannels = rt.dma.numChannels.toNat
  maxDepth : engine.maxDepth = rt.dma.maxQueueDepth
  busWidthBytes : engine.busWidthBytes * 8 = rt.dma.busWidthBits.toNat
  maxBurstBytes : (initialise rt).maxBurstBytes = rt.dma.maxBurstBytes
  readMaxBurstBytes : engine.readMaxBurstBytes = (orDefault rt.dma.readMaxBurstBytes rt.dma.maxBurstBytes).toNat
  writeMaxBurstBytes : engine.writeMaxBurstBytes = (orDefault rt.dma.writeMaxBurstBytes rt.dma.maxBurstBytes).toNat

theorem exists_engineOf {rt : TuRuntimeConfig} (h : EngineArgs rt.dma) : ∃ engine, EngineOf rt engine := by
  obtain ⟨engine, haccepted, hchannels, hdepth, hwidth, hread, hwrite⟩ := tuDmaInitConfig_accepts h
  obtain ⟨hlo, hhi, hpow⟩ := h.busWidthBits
  have hburst : 1 ≤ rt.dma.maxBurstBytes.toNat := by
    have := h.maxBurstBytes.1
    omega
  exact ⟨engine, haccepted, hchannels, hdepth, by rw [hwidth, isPow2_dvd hlo hhi hpow], orDefault_of_ne hburst, hread,
    hwrite⟩

/-- A region has the banks and the budget of the runtime configuration, and banks of four bytes. -/
theorem initRegion_banks (hsram : SramInRange c.sram) (size : UInt32) (region : String) :
    (initRegion (tuConfigToRuntime fp c) size region).banks.bankCount = c.sram.numBanks ∧
      (initRegion (tuConfigToRuntime fp c) size region).banks.bankWidth = 4 ∧
      (initRegion (tuConfigToRuntime fp c) size region).banks.wordsPerCycle = c.sram.wordsPerCycle.toUInt8 ∧
      (initRegion (tuConfigToRuntime fp c) size region).banks.bwRefillWindow = c.sram.bwWindowCycles ∧
      (initRegion (tuConfigToRuntime fp c) size region).banks.stallPenalty = c.sram.stallPenalty := by
  have hwords : c.sram.wordsPerCycle.toUInt8 ≠ 0 := by
    intro h0
    have hnat : c.sram.wordsPerCycle.toNat % 2 ^ 8 = 0 := congrArg UInt8.toNat h0
    have := hsram.wordsPerCycle
    omega
  have hwindow : c.sram.bwWindowCycles ≠ 0 := by
    have := hsram.bwWindowCycles
    omega
  exact ⟨if_pos hsram.numBanks, rfl, if_pos hwords, if_pos hwindow, if_pos hsram.stallPenalty⟩

/-- Apart from the width of a bank and the bursts of one direction, a unit holds what the runtime configuration says. -/
theorem unitValues_eq_runtimeValue (hsram : SramInRange c.sram) {engine : TuDmaConfig}
    (hengine : EngineOf (tuConfigToRuntime fp c) engine) {s : Setting} (hwidth : s ≠ .bankWidthBytes)
    (hread : s ≠ .readMaxBurstBytes) (hwrite : s ≠ .writeMaxBurstBytes) {x : Nat}
    (hx : x ∈ s.unitValues (initialise (tuConfigToRuntime fp c)) engine) :
    x = s.runtimeValue (tuConfigToRuntime fp c) := by
  have hregion := fun (size : UInt32) (region : String) => @initRegion_banks F fp c hsram size region
  cases s
  case bankWidthBytes => exact absurd rfl hwidth
  case readMaxBurstBytes => exact absurd rfl hread
  case writeMaxBurstBytes => exact absurd rfl hwrite
  case channels => exact (List.mem_singleton.1 hx).trans hengine.numChannels
  case maxOutstanding => exact (List.mem_singleton.1 hx).trans (congrArg UInt32.toNat hengine.maxDepth)
  case busWidthBits => exact (List.mem_singleton.1 hx).trans hengine.busWidthBytes
  case maxBurstBytes => exact (List.mem_singleton.1 hx).trans (congrArg UInt32.toNat hengine.maxBurstBytes)
  case wBufferKb | aBufferKb | oBufferKb => exact List.mem_singleton.1 hx
  all_goals
    simp only [Setting.unitValues, initialise, List.map_cons, List.map_nil, hregion, List.mem_cons, List.not_mem_nil,
      or_false, or_self] at hx
    exact hx

/-- The banks of a unit are four bytes wide, whatever the configuration says. -/
theorem bankWidth_of_unit {rt : TuRuntimeConfig} {engine : TuDmaConfig} {x : Nat} :
    x ∈ Setting.bankWidthBytes.unitValues (initialise rt) engine ↔ x = 4 := by
  simp [Setting.unitValues, initialise, initRegion, tuSramInitRuntime, tuSramBankWidth]

/-- A burst for one direction is the one given, or the common maximum for zero. -/
theorem directional_toNat {read common : UInt32} {n : Int} (h : (read.toNat : Int) = n) :
    ((orDefault read common).toNat : Int) = if n = 0 then (common.toNat : Int) else n := by
  unfold orDefault
  by_cases h0 : read = 0
  · have hn : n = 0 := by
      rw [← h, h0]
      rfl
    rw [if_pos h0, if_pos hn]
  · have hn : n ≠ 0 := by
      rintro rfl
      exact h0 (UInt32.toNat_inj.1 (by simpa using h))
    rw [if_neg h0, if_neg hn, h]

/-- An integer is what runs exactly when it fits its field. -/
theorem setting_runs_iff (hsram : SramInRange c.sram) {engine : TuDmaConfig}
    (hengine : EngineOf (tuConfigToRuntime fp c) engine) {s : Setting} {m n : Int} (hstored : s.Stored c m)
    (hmn : m = n ∨ 2 ^ 53 ≤ n.natAbs) :
    s.Runs (tuConfigToRuntime fp c) (initialise (tuConfigToRuntime fp c)) engine n ↔ s.Fits n := by
  unfold Setting.Runs
  by_cases hwidth : s = .bankWidthBytes
  · subst hwidth
    change c.sram.bankWidth = UInt32.ofInt m at hstored
    have hnarrow := narrow_iff hmn
    rw [← hstored] at hnarrow
    change ((c.sram.bankWidth.toNat : Int) = 1 * n ∧ _) ↔ n = 4
    constructor
    · rintro ⟨-, hunit⟩
      have hfour : ((4 : Nat) : Int) = 1 * n := hunit 4 (bankWidth_of_unit.2 rfl)
      omega
    · rintro rfl
      refine ⟨hnarrow.2 (by decide), fun x hx => ?_⟩
      rw [bankWidth_of_unit.1 hx]
      rfl
  · rw [← @runtimeValue_iff F fp c hsram s hwidth m n hstored hmn]
    refine and_iff_left_of_imp fun hvalue x hx => ?_
    by_cases hdirection : s = .readMaxBurstBytes ∨ s = .writeMaxBurstBytes
    · have hcommon := congrArg UInt32.toNat hengine.maxBurstBytes
      obtain rfl | rfl := hdirection
      · change ((tuConfigToRuntime fp c).dma.readMaxBurstBytes.toNat : Int) = 1 * n at hvalue
        rw [List.mem_singleton.1 hx, hengine.readMaxBurstBytes, directional_toNat (hvalue.trans (one_mul n)),
          ← hcommon]
        rfl
      · change ((tuConfigToRuntime fp c).dma.writeMaxBurstBytes.toNat : Int) = 1 * n at hvalue
        rw [List.mem_singleton.1 hx, hengine.writeMaxBurstBytes, directional_toNat (hvalue.trans (one_mul n)),
          ← hcommon]
        rfl
    · have hexpected : s.expected (initialise (tuConfigToRuntime fp c)) n = s.scale * n := by
        cases s <;> first | rfl | exact absurd (by decide) hdirection
      rw [unitValues_eq_runtimeValue hsram hengine hwidth (fun h => hdirection (.inl h)) (fun h => hdirection (.inr h))
        hx, hexpected]
      exact hvalue

/-- **An accepted configuration is the one that runs** exactly when every value of its document is an integer that its
field can hold, and the banks are four bytes wide. -/
theorem runsAsGiven_iff {jsonStr : Text} {root : TuJsonValue F} {cfg : TuConfig F}
    (hroot : tuJsonParse fp.round jsonStr = .ok root) (hcfg : tuConfigLoadString fp jsonStr = .ok cfg) :
    RunsAsGiven fp root cfg ↔ Representable fp root := by
  obtain ⟨root', hroot', hvalid, rfl⟩ := (tuConfigLoadString_eq_ok fp).1 hcfg
  cases hroot.symm.trans hroot'
  obtain ⟨hsramOk, -, -, -, hdramOk⟩ := sections_of_validate hvalid
  have hsram := sramInRange hsramOk
  have hargs := engineArgs_of_validate (coreClock_pos hdramOk) hvalid
  have hinit : tuInitFromConfig fp (loadConfig fp root) =
      some (initialise (tuConfigToRuntime fp (loadConfig fp root))) := by
    unfold tuInitFromConfig tuInitWithConfig
    rw [if_neg hsram.wordMetering]
    exact if_neg hsram.wordMetering
  have hsetting : ∀ {engine : TuDmaConfig}, EngineOf (tuConfigToRuntime fp (loadConfig fp root)) engine →
      ∀ (s : Setting) {v : TuJsonValue F} {n : Int}, valueAt root s.path = some v → IsInteger fp v n →
        (s.Runs (tuConfigToRuntime fp (loadConfig fp root))
          (initialise (tuConfigToRuntime fp (loadConfig fp root))) engine n ↔ s.Fits n) := by
    intro engine hengine s v n hv hn
    obtain ⟨m, hstored, hmn⟩ := Setting.stored_of_read root s hv hn
    exact setting_runs_iff hsram hengine hstored hmn
  obtain ⟨engine, hengine⟩ := exists_engineOf hargs
  constructor
  · rintro ⟨unit, engine', hunit, hengine', hgiven⟩ s v hv
    cases hinit.symm.trans hunit
    cases hengine.accepted.symm.trans hengine'
    obtain ⟨n, hn, hruns⟩ := hgiven s v hv
    exact ⟨n, hn, (hsetting hengine s hv hn).1 hruns⟩
  · intro hfits
    refine ⟨_, engine, hinit, hengine.accepted, fun s v hv => ?_⟩
    obtain ⟨n, hn, hfit⟩ := hfits s v hv
    exact ⟨n, hn, (hsetting hengine s hv hn).2 hfit⟩

end

/-! ### A document -/

/-- Exact numbers in the place of doubles. -/
def exact : Doubles Rat where
  round negative q := if negative then -q else q
  toInt64 q := if q < 0 then q.ceil else q.floor
  toUInt32 q := UInt32.ofNat q.floor.toNat
  ofInt64 v := v
  lt a b := a < b
  le a b := a ≤ b
  eq a b := a = b
  mul a b := a * b
  ceil q := q.ceil
  isfinite _ := true
  toInt64_round negative n hn := by
    have hfloor : (n : Rat).floor = n := by simpa using Rat.floor_intCast (n : Int)
    have hneg : ¬((n : Rat) < 0) := not_lt.2 (Nat.cast_nonneg n)
    cases negative with
    | false => simp [hneg, hfloor]
    | true =>
      have hceil : (-(n : Rat)).ceil = -n := by simpa using Rat.ceil_intCast (-(n : Int))
      by_cases h0 : n = 0
      · subst h0
        exact hfloor
      · have hlt : -(n : Rat) < 0 := by simpa using Nat.pos_of_ne_zero h0
        simp only [if_true, if_pos hlt, hceil]
  lt_round m n _ _ := by simp
  eq_round negative m n _ _ := by
    cases negative
    · simp
    · have h : (-(m : Rat) = n) ↔ m = 0 ∧ n = 0 := by
        have hm : (0 : Rat) ≤ m := Nat.cast_nonneg m
        have hn : (0 : Rat) ≤ n := Nat.cast_nonneg n
        constructor
        · intro h
          have hm0 : (m : Rat) = 0 := by linarith
          have hn0 : (n : Rat) = 0 := by linarith
          exact ⟨by exact_mod_cast hm0, by exact_mod_cast hn0⟩
        · rintro ⟨rfl, rfl⟩
          simp
      simp [h]
  mul_nonneg a b ha hb := by
    simp only [Bool.false_eq_true, if_false, decide_eq_true_eq] at ha hb ⊢
    exact mul_nonneg ha.le hb.le
  ceil_nonneg a ha := by
    simp only [Bool.false_eq_true, if_false, decide_eq_true_eq] at ha ⊢
    have := Rat.le_ceil (x := a)
    linarith
  toUInt32_le a n hn h0 hle := by
    simp only [Bool.false_eq_true, if_false, decide_eq_true_eq, decide_eq_false_iff_not, not_lt] at h0 hle
    have hfloor : (a.floor : Rat) ≤ (n : Int) := le_trans (Rat.floor_le a) (by simpa using hle)
    have hn' : a.floor ≤ n := by exact_mod_cast hfloor
    have hlt : a.floor.toNat < 2 ^ 32 := by omega
    rw [UInt32.toNat_ofNat_of_lt' hlt]
    omega

/-- A document with one entry under `memory.banking`. -/
def bankingText (entry : String) : Text := name ("\x7b\"memory\":\x7b\"banking\":\x7b" ++ entry ++ "\x7d\x7d\x7d")

/-- What a text is read as. -/
def documentOf (text : Text) : TuJsonValue Rat :=
  match tuJsonParse exact.round text with
  | .ok root => root
  | .error _ => .null

def accepts (text : Text) : Bool :=
  match tuConfigLoadString exact text with
  | .ok _ => true
  | .error _ => false

/-- The integer that a value is. -/
def observed (v : Option (TuJsonValue Rat)) : Option (Option Int) :=
  v.map fun v =>
    match v with
    | .int n => some n
    | _ => none

theorem exists_of_accepts (text : Text) (h : accepts text = true) :
    tuJsonParse exact.round text = .ok (documentOf text) ∧ ∃ cfg, tuConfigLoadString exact text = .ok cfg := by
  unfold accepts at h
  split at h
  · rename_i cfg hcfg
    obtain ⟨root, hroot, -, -⟩ := (tuConfigLoadString_eq_ok exact).1 hcfg
    refine ⟨?_, cfg, hcfg⟩
    unfold documentOf
    rw [hroot]
  · exact absurd h (by decide)

theorem exists_int_of_observed {v : Option (TuJsonValue Rat)} {n : Int} (h : observed v = some (some n)) :
    v = some (.int n) := by
  unfold observed at h
  cases v with
  | none => simp at h
  | some v => cases v <;> simp_all

/-- Eight banks are eight banks. -/
theorem runsAsGiven_banks : ∃ cfg, tuConfigLoadString exact (bankingText "\"banks\":8") = .ok cfg ∧
    RunsAsGiven exact (documentOf (bankingText "\"banks\":8")) cfg := by
  obtain ⟨hroot, cfg, hcfg⟩ := exists_of_accepts (bankingText "\"banks\":8") (by decide +kernel)
  refine ⟨cfg, hcfg, (runsAsGiven_iff hroot hcfg).2 ?_⟩
  have hother : ∀ s : Setting, s ≠ .banks →
      observed (valueAt (documentOf (bankingText "\"banks\":8")) s.path) = none := by
    intro s
    cases s <;> decide +kernel
  intro s v hv
  by_cases hs : s = .banks
  · subst hs
    have hbanks := exists_int_of_observed (n := 8)
      (show observed (valueAt (documentOf (bankingText "\"banks\":8")) Setting.banks.path) = some (some 8) by
        decide +kernel)
    cases hbanks.symm.trans hv
    exact ⟨8, .inl rfl, by decide, by decide⟩
  · have h := hother s hs
    rw [hv] at h
    simp [observed] at h

/-- Banks of eight bytes are accepted, and are four bytes wide. -/
theorem not_runsAsGiven : ¬∀ (jsonStr : Text) (root : TuJsonValue Rat) (cfg : TuConfig Rat),
    tuJsonParse exact.round jsonStr = .ok root → tuConfigLoadString exact jsonStr = .ok cfg →
      RunsAsGiven exact root cfg := by
  intro h
  obtain ⟨hroot, cfg, hcfg⟩ := exists_of_accepts (bankingText "\"bank_width_bytes\":8") (by decide +kernel)
  obtain ⟨unit, engine, hunit, -, hgiven⟩ := h _ _ cfg hroot hcfg
  have hwidth := exists_int_of_observed (n := 8)
    (show observed (valueAt (documentOf (bankingText "\"bank_width_bytes\":8")) Setting.bankWidthBytes.path) =
      some (some 8) by decide +kernel)
  obtain ⟨n, hn, -, hruns⟩ := hgiven .bankWidthBytes _ hwidth
  have hn8 : n = 8 := by
    obtain hint | ⟨negative, m, hdouble, -⟩ := hn
    · cases hint
      rfl
    · cases hdouble
  have hfour : 4 ∈ Setting.bankWidthBytes.unitValues unit engine := by
    unfold tuInitFromConfig tuInitWithConfig at hunit
    split at hunit
    · cases hunit
    · split at hunit
      · cases hunit
      · cases hunit
        exact bankWidth_of_unit.2 rfl
  have heq : ((4 : Nat) : Int) = 1 * n := hruns 4 hfour
  omega

end Tusim.Config
