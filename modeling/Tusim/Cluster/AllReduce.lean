import Tusim.Cluster.Delivery

/-!
# All-reduce

`tu_cluster_allreduce_sum_f32`.  A number is its four bytes, and the addition of two numbers is arbitrary.  The call
never looks at what the bulk accesses report, so it returns `0` for spans that are outside; where all spans are inside
it leaves the sums (`allReduced_iff`).
-/

namespace Tusim.Cluster

open Blocks Word Sram

/-- The bytes of a `float`. -/
abbrev FloatBytes := Fin 4 → UInt8

def loadFloat (mem : Nat → UInt8) (addr : Nat) : FloatBytes := fun k => mem (addr + k)

local instance neZero_bytes : NeZero 4 := ⟨by decide⟩

def storeFloat (mem : Nat → UInt8) (addr : Nat) (v : FloatBytes) : Nat → UInt8 :=
  memcpy mem addr (fun i => v (Fin.ofNat 4 i)) 4

variable (fadd : FloatBytes → FloatBytes → FloatBytes)

/-- `accumulator[i] += tmp[i]` for all `i` below `n`. -/
def accumulate (tmp : Nat → UInt8) (n : Nat) (accumulator : Nat → UInt8) : Nat → UInt8 :=
  (List.range n).foldl (fun acc i => storeFloat acc (4 * i) (fadd (loadFloat acc (4 * i)) (loadFloat tmp (4 * i))))
    accumulator

/-- The cores that add their data; `.error` where the source returns `-1`. -/
def gatherLoop (garbage : Nat → UInt8) (srcOffset sizeBytes numElements : UInt32) :
    List Nat → TuClusterState → (Nat → UInt8) → Except TuClusterState (TuClusterState × (Nat → UInt8))
  | [], s, acc => .ok (s, acc)
  | c :: rest, s, acc =>
    match s.cores c with
    | none => .error s
    | some core =>
      if ¬ core.initialized then .error s
      else
        let (sram, tmp, _) := Sram.tuSramReadBulk core.sramO srcOffset.toNat garbage sizeBytes.toNat
        gatherLoop garbage srcOffset sizeBytes numElements rest (s.setCore c { core with sramO := sram })
          (accumulate fadd tmp numElements.toNat acc)

/-- The result written back to one core; a missing core stops the program. -/
def writeBackTo (dstOffset sizeBytes : UInt32) (acc : Nat → UInt8) (s : TuClusterState) (c : Nat) :
    Option TuClusterState :=
  (s.cores c).map fun core =>
    s.setCore c { core with sramO := (Sram.tuSramWriteBulk core.sramO dstOffset.toNat acc sizeBytes.toNat).1 }

/-- `tu_cluster_allreduce_sum_f32` -/
def tuClusterAllreduceSumF32 (s : TuClusterState) (garbage : Nat → UInt8) (srcOffset dstOffset numElements : UInt32) :
    Option (Int × TuClusterState) :=
  if numElements = 0 then some (-1, s)
  else
    let sizeBytes := numElements * 4
    match s.cores 0 with
    | none => none
    | some core =>
      let (sram, acc, _) := Sram.tuSramReadBulk core.sramO srcOffset.toNat (fun _ => 0) sizeBytes.toNat
      match gatherLoop fadd garbage srcOffset sizeBytes numElements (List.range' 1 (s.numCores - 1))
          (s.setCore 0 { core with sramO := sram }) acc with
      | .error s => some (-1, s)
      | .ok (s, acc) =>
        ((List.range s.numCores).foldlM (writeBackTo dstOffset sizeBytes acc) s).map fun s =>
          (0,
            { s with
              stats :=
                { s.stats with
                  totalIccMessages := u64 (s.stats.totalIccMessages + (s.numCores - 1))
                  totalIccBytes := u64 (s.stats.totalIccBytes + sizeBytes.toNat * (s.numCores - 1)) } })

/-! ### The law -/

/-- The sum of the numbers at one place, in the order of the cores. -/
def sumOver (s : TuClusterState) (srcOffset : Nat) (cores : List Nat) (i : Nat) : FloatBytes :=
  cores.foldl (fun acc c => fadd acc (loadFloat (bytesFrom s c srcOffset) (4 * i)))
    (loadFloat (bytesFrom s 0 srcOffset) (4 * i))

/-- The bytes of the sums. -/
def sumBytes (s : TuClusterState) (srcOffset : Nat) (j : Nat) : UInt8 :=
  sumOver fadd s srcOffset (List.range' 1 (s.numCores - 1)) (j / 4) (Fin.ofNat 4 j)

/-- Both spans are inside every core. -/
def SpansInside (s : TuClusterState) (srcOffset dstOffset numElements : UInt32) : Prop :=
  ∀ id < s.numCores, SpanInside s id srcOffset.toNat (4 * numElements.toNat) ∧
    SpanInside s id dstOffset.toNat (4 * numElements.toNat)

/-- The call fails and changes nothing, or all spans are inside, every core has the sums and no other byte changes. -/
def AllReduced (s : TuClusterState) (garbage : Nat → UInt8) (srcOffset dstOffset numElements : UInt32) : Prop :=
  ∃ ret s', tuClusterAllreduceSumF32 fadd s garbage srcOffset dstOffset numElements = some (ret, s') ∧
    ((ret ≠ 0 ∧ s' = s) ∨
      (ret = 0 ∧ SpansInside s srcOffset dstOffset numElements ∧
        ∀ id, Option.Rel (CoreReceived (id < s.numCores) dstOffset.toNat (sumBytes fadd s srcOffset.toNat)
          (4 * numElements.toNat)) (s.cores id) (s'.cores id)))

/-- The cores of a cluster are there and initialised, as they are from its creation on. -/
structure Live (s : TuClusterState) : Prop where
  pos : 0 < s.numCores
  core : ∀ id < s.numCores, ∃ core, s.cores id = some core ∧ core.initialized = true

/-! ### Accumulating -/

variable {fadd}

theorem storeFloat_apply (mem : Nat → UInt8) (i j : Nat) (v : FloatBytes) :
    storeFloat mem (4 * i) v j = if j / 4 = i then v (Fin.ofNat 4 j) else mem j := by
  unfold storeFloat memcpy
  by_cases hj : j / 4 = i
  · have hplace : Fin.ofNat 4 (j - 4 * i) = Fin.ofNat 4 j := by
      apply Fin.ext
      simp only [Fin.ofNat]
      omega
    rw [if_pos (by omega), if_pos hj]
    dsimp only
    rw [hplace]
  · rw [if_neg (by omega), if_neg hj]

theorem accumulate_apply (tmp acc : Nat → UInt8) (n j : Nat) :
    accumulate fadd tmp n acc j =
      if j / 4 < n then fadd (loadFloat acc (4 * (j / 4))) (loadFloat tmp (4 * (j / 4))) (Fin.ofNat 4 j) else acc j := by
  induction n generalizing j with
  | zero => rfl
  | succ n ih =>
    unfold accumulate at ih ⊢
    rw [List.range_succ, List.foldl_append, List.foldl_cons, List.foldl_nil, storeFloat_apply]
    -- the numbers from the current one on are still as they were
    have hlater : loadFloat ((List.range n).foldl (fun acc i =>
        storeFloat acc (4 * i) (fadd (loadFloat acc (4 * i)) (loadFloat tmp (4 * i)))) acc) (4 * n) =
        loadFloat acc (4 * n) := by
      funext k
      have hk := ih (4 * n + k.val)
      rw [if_neg (by omega)] at hk
      exact hk
    by_cases hj : j / 4 = n
    · rw [if_pos hj, if_pos (by omega), hlater, hj]
    · rw [if_neg hj, ih]
      by_cases hlt : j / 4 < n
      · rw [if_pos hlt, if_pos (by omega)]
      · rw [if_neg hlt, if_neg (by omega)]

theorem loadFloat_accumulate (tmp acc : Nat → UInt8) {n i : Nat} (hi : i < n) :
    loadFloat (accumulate fadd tmp n acc) (4 * i) = fadd (loadFloat acc (4 * i)) (loadFloat tmp (4 * i)) := by
  funext k
  have hdiv : (4 * i + k.val) / 4 = i := by omega
  have hplace : Fin.ofNat 4 (4 * i + k.val) = k := by
    apply Fin.ext
    simp only [Fin.ofNat]
    omega
  show accumulate fadd tmp n acc (4 * i + k.val) = _
  rw [accumulate_apply, hdiv, if_pos hi, hplace]

/-- The accumulator, from its numbers. -/
theorem eq_of_loadFloat {mem : Nat → UInt8} {j : Nat} {v : FloatBytes} (h : loadFloat mem (4 * (j / 4)) = v) :
    mem j = v (Fin.ofNat 4 j) := by
  rw [← h]
  unfold loadFloat
  congr 1
  simp only [Fin.ofNat]
  omega

/-! ### Gathering -/

/-- The clusters differ at most in meters and counters. -/
structure OnlyMeters (s s' : TuClusterState) : Prop where
  numCores : s'.numCores = s.numCores
  cores : ∀ id, Option.Rel (fun core core' =>
    core'.initialized = core.initialized ∧ SameBytes core.sramO core'.sramO) (s.cores id) (s'.cores id)

variable {s s' s'' : TuClusterState} {garbage : Nat → UInt8} {srcOffset dstOffset sizeBytes numElements : UInt32}

theorem OnlyMeters.trans (h : OnlyMeters s s') (h' : OnlyMeters s' s'') : OnlyMeters s s'' where
  numCores := h'.numCores.trans h.numCores
  cores id := by
    have hfirst := h.cores id
    have hsecond := h'.cores id
    generalize s.cores id = core, s'.cores id = core', s''.cores id = core'' at hfirst hsecond
    cases hfirst with
    | none =>
      cases hsecond
      exact .none
    | some hcore =>
      cases hsecond with
      | some hcore' => exact .some ⟨hcore'.1.trans hcore.1, hcore.2.trans hcore'.2⟩

theorem OnlyMeters.setCore {c : Nat} {core : TuCore} (hcore : s.cores c = some core) {r : TuCoreRegion}
    (h : SameBytes core.sramO r) : OnlyMeters s (s.setCore c { core with sramO := r }) where
  numCores := rfl
  cores id := by
    show Option.Rel _ _ (Function.update s.cores _ _ id)
    by_cases hid : id = c
    · subst hid
      rw [Function.update_self, hcore]
      exact .some ⟨rfl, h⟩
    · rw [Function.update_of_ne hid]
      cases s.cores id with
      | none => exact .none
      | some core => exact .some ⟨rfl, .refl _⟩

theorem OnlyMeters.bytesFrom_eq (h : OnlyMeters s s') (id offset : Nat) : bytesFrom s' id offset = bytesFrom s id offset := by
  have hcore := h.cores id
  unfold bytesFrom
  generalize s.cores id = core, s'.cores id = core' at hcore
  cases hcore with
  | none => rfl
  | some hcore =>
    funext i
    exact congrFun hcore.2.active _

theorem OnlyMeters.spanInside (h : OnlyMeters s s') {id offset size : Nat} (hspan : SpanInside s id offset size) :
    SpanInside s' id offset size := by
  obtain ⟨hid, core, hcore, hinit, hle⟩ := hspan
  have hrel := h.cores id
  rw [hcore] at hrel
  generalize hcore' : s'.cores id = core' at hrel
  cases hrel with
  | some hrel =>
    rw [SpanInside, hcore']
    exact ⟨by rw [h.numCores]; exact hid, _, rfl, hrel.1.trans hinit, by rw [hrel.2.totalSize]; exact hle⟩

/-- What a bulk read inside a core leaves in the buffer. -/
theorem loadFloat_read {id : Nat} {core : TuCore} (hcore : s.cores id = some core) {offset size i : Nat}
    (hi : 4 * i + 4 ≤ size) (out : Nat → UInt8) :
    loadFloat (memcpy out 0 (fun j => sramDataPtr core.sramO (offset + j)) size) (4 * i) =
      loadFloat (bytesFrom s id offset) (4 * i) := by
  funext k
  unfold loadFloat memcpy bytesFrom
  rw [if_pos (by omega), hcore, Nat.sub_zero]
  rfl

theorem gatherLoop_ok (garbage : Nat → UInt8) (hsize : sizeBytes.toNat = 4 * numElements.toNat) {l : List Nat}
    (hspan : ∀ c ∈ l, SpanInside s c srcOffset.toNat (4 * numElements.toNat)) (acc : Nat → UInt8) :
    ∃ s' acc', gatherLoop fadd garbage srcOffset sizeBytes numElements l s acc = .ok (s', acc') ∧ OnlyMeters s s' ∧
      ∀ i < numElements.toNat, loadFloat acc' (4 * i) =
        l.foldl (fun acc c => fadd acc (loadFloat (bytesFrom s c srcOffset.toNat) (4 * i))) (loadFloat acc (4 * i)) := by
  induction l generalizing s acc with
  | nil =>
    refine ⟨s, acc, rfl, ⟨rfl, ?_⟩, fun _ _ => rfl⟩
    intro id
    cases s.cores id with
    | none => exact .none
    | some core => exact .some ⟨rfl, .refl _⟩
  | cons c l ih =>
    obtain ⟨hc, core, hcore, hinit, hinside⟩ := hspan c List.mem_cons_self
    rw [← hsize] at hinside
    obtain ⟨hsame, htmp⟩ := tuSramReadBulk_inside hinside garbage
    have hmeters := OnlyMeters.setCore hcore hsame
    obtain ⟨s', acc', hloop, hmeters', hacc⟩ := ih
      (fun d hd => hmeters.spanInside (hspan d (List.mem_cons_of_mem _ hd)))
      (accumulate fadd (Sram.tuSramReadBulk core.sramO srcOffset.toNat garbage sizeBytes.toNat).2.1 numElements.toNat acc)
    refine ⟨s', acc', ?_, hmeters.trans hmeters', ?_⟩
    · rw [gatherLoop, hcore]
      dsimp only
      rw [if_neg (by simp [hinit])]
      exact hloop
    · intro i hi
      rw [hacc i hi, loadFloat_accumulate _ _ hi, htmp, loadFloat_read hcore (by omega), List.foldl_cons]
      have hbytes : ∀ d, bytesFrom (s.setCore c { core with
          sramO := (Sram.tuSramReadBulk core.sramO srcOffset.toNat garbage sizeBytes.toNat).1 }) d srcOffset.toNat =
          bytesFrom s d srcOffset.toNat := fun d => hmeters.bytesFrom_eq d _
      simp only [hbytes]

/-! ### Writing back -/

theorem writeBack_ok (acc : Nat → UInt8) (n : Nat)
    (hspan : ∀ c < n, SpanInside s c dstOffset.toNat sizeBytes.toNat) :
    ∃ s', (List.range n).foldlM (writeBackTo dstOffset sizeBytes acc) s = some s' ∧
      ∀ id, Option.Rel (CoreReceived (id < n) dstOffset.toNat acc sizeBytes.toNat) (s.cores id) (s'.cores id) := by
  induction n with
  | zero =>
    refine ⟨s, rfl, fun id => ?_⟩
    cases s.cores id with
    | none => exact .none
    | some core => exact .some (.of_sameBytes (.refl _) rfl (Nat.not_lt_zero _))
  | succ n ih =>
    obtain ⟨s', hfold, hreceived⟩ := ih fun c hc => hspan c (by omega)
    obtain ⟨-, core, hcore, -, hinside⟩ := hspan n (by omega)
    have hlast := hreceived n
    rw [hcore] at hlast
    generalize hcore' : s'.cores n = found at hlast
    cases hlast with
    | @some _ core' hlast =>
      have hwrote := tuSramWriteBulk_inside (r := core'.sramO) (by rw [hlast.totalSize]; exact hinside) acc
      refine ⟨s'.setCore n { core' with
        sramO := (Sram.tuSramWriteBulk core'.sramO dstOffset.toNat acc sizeBytes.toNat).1 }, ?_, ?_⟩
      · rw [List.range_succ, List.foldlM_append, hfold]
        simp only [Option.bind_eq_bind, Option.bind_some, List.foldlM_cons, List.foldlM_nil, writeBackTo, hcore',
          Option.map_some, Option.pure_def]
      · intro id
        show Option.Rel _ _ (Function.update s'.cores _ _ id)
        by_cases hid : id = n
        · subst hid
          rw [Function.update_self, hcore]
          have hactive := hlast.outside (Nat.lt_irrefl _)
          refine .some ⟨hlast.initialized, hwrote.totalSize.trans hlast.totalSize, hwrote.idle.trans hlast.idle, ?_, ?_⟩
          · intro _
            rw [← hactive]
            exact hwrote.active
          · intro hnot
            exact absurd (Nat.lt_succ_self _) hnot
        · rw [Function.update_of_ne hid]
          have hiff : (id < n) = (id < n + 1) := by
            apply propext
            omega
          rw [← hiff]
          exact hreceived id

/-! ### The whole call -/

theorem CoreReceived.after_meters {p : Prop} {offset size : Nat} {bytes bytes' : Nat → UInt8} {core core' core'' : TuCore}
    (hmeters : core'.initialized = core.initialized ∧ SameBytes core.sramO core'.sramO)
    (h : CoreReceived p offset bytes size core' core'') (hbytes : ∀ j < size, bytes j = bytes' j) :
    CoreReceived p offset bytes' size core core'' where
  initialized := h.initialized.trans hmeters.1
  totalSize := h.totalSize.trans hmeters.2.totalSize
  idle := h.idle.trans hmeters.2.idle
  inside hp := by
    rw [h.inside hp, hmeters.2.active]
    funext i
    unfold memcpy
    split
    · exact hbytes _ (by omega)
    · rfl
  outside hnot := by rw [h.outside hnot, hmeters.2.active]

theorem allReduced_of_inside (hlive : Live s) (hzero : numElements ≠ 0)
    (h : SpansInside s srcOffset dstOffset numElements) (garbage : Nat → UInt8) :
    AllReduced fadd s garbage srcOffset dstOffset numElements := by
  obtain ⟨⟨-, core, hcore, hinit, hinside⟩, -⟩ := h 0 hlive.pos
  have hsize : (numElements * 4).toNat = 4 * numElements.toNat := by
    have htotal := core.sramO.totalSize.toNat_lt
    rw [UInt32.toNat_mul, Nat.mul_comm]
    exact Nat.mod_eq_of_lt (by show 4 * _ < _; omega)
  rw [← hsize] at hinside
  obtain ⟨hsame, hread⟩ := tuSramReadBulk_inside hinside fun _ => 0
  have hmeters := OnlyMeters.setCore hcore hsame
  have hothers : ∀ c ∈ List.range' 1 (s.numCores - 1), c < s.numCores := by
    intro c hc
    rw [List.mem_range'_1] at hc
    omega
  obtain ⟨s₁, acc, hloop, hmeters₁, hacc⟩ := @gatherLoop_ok fadd _ _ _ _ garbage hsize _
    (fun c hc => hmeters.spanInside (h c (hothers c hc)).1)
    (Sram.tuSramReadBulk core.sramO srcOffset.toNat (fun _ => 0) (numElements * 4).toNat).2.1
  have hall := hmeters.trans hmeters₁
  obtain ⟨s₂, hwrite, hreceived⟩ := @writeBack_ok s₁ dstOffset (numElements * 4) acc
    s.numCores fun c hc => by
      rw [hsize]
      exact hall.spanInside (h c hc).2
  have hsum : ∀ j < 4 * numElements.toNat, acc j = sumBytes fadd s srcOffset.toNat j := by
    intro j hj
    have hnumber := hacc (j / 4) (by omega)
    rw [hread, loadFloat_read hcore (by omega)] at hnumber
    simp only [hmeters.bytesFrom_eq] at hnumber
    exact eq_of_loadFloat hnumber
  unfold AllReduced tuClusterAllreduceSumF32
  rw [if_neg hzero, hcore]
  dsimp only
  rw [hloop]
  dsimp only
  rw [hall.numCores, hwrite, Option.map_some]
  refine ⟨_, _, rfl, .inr ⟨rfl, h, fun id => ?_⟩⟩
  have hfirst := hall.cores id
  have hlast := hreceived id
  rw [hsize] at hlast
  show Option.Rel _ _ (s₂.cores id)
  generalize s.cores id = core, s₁.cores id = core', s₂.cores id = core'' at hfirst hlast
  cases hfirst with
  | none =>
    cases hlast
    exact .none
  | some hfirst =>
    cases hlast with
    | some hlast => exact .some (.after_meters hfirst hlast hsum)

theorem gatherLoop_live (garbage : Nat → UInt8) (srcOffset sizeBytes numElements : UInt32) {l : List Nat}
    (hlive : ∀ c ∈ l, ∃ core, s.cores c = some core ∧ core.initialized = true) (acc : Nat → UInt8) :
    ∃ result, gatherLoop fadd garbage srcOffset sizeBytes numElements l s acc = .ok result := by
  induction l generalizing s acc with
  | nil => exact ⟨_, rfl⟩
  | cons c l ih =>
    obtain ⟨core, hcore, hinit⟩ := hlive c List.mem_cons_self
    rw [gatherLoop, hcore]
    dsimp only
    rw [if_neg (by simp [hinit])]
    apply ih
    intro d hd
    show ∃ core, Function.update s.cores _ _ d = some core ∧ core.initialized = true
    by_cases hdc : d = c
    · subst hdc
      rw [Function.update_self]
      exact ⟨_, rfl, hinit⟩
    · rw [Function.update_of_ne hdc]
      exact hlive d (List.mem_cons_of_mem _ hd)

/-- The call succeeds whatever the spans are. -/
theorem tuClusterAllreduceSumF32_zero (hlive : Live s) (hzero : numElements ≠ 0) {ret : Int}
    (h : tuClusterAllreduceSumF32 fadd s garbage srcOffset dstOffset numElements = some (ret, s')) : ret = 0 := by
  obtain ⟨core, hcore, hinit⟩ := hlive.core 0 hlive.pos
  unfold tuClusterAllreduceSumF32 at h
  rw [if_neg hzero, hcore] at h
  dsimp only at h
  generalize hsram : (Sram.tuSramReadBulk core.sramO srcOffset.toNat (fun _ => 0) (numElements * 4).toNat).1 = sram at h
  obtain ⟨⟨s₁, acc⟩, hloop⟩ := @gatherLoop_live fadd (s.setCore 0 { core with sramO := sram }) garbage
    srcOffset (numElements * 4) numElements (List.range' 1 (s.numCores - 1)) (by
      intro c hc
      rw [List.mem_range'_1] at hc
      show ∃ core, Function.update s.cores _ _ c = some core ∧ core.initialized = true
      rw [Function.update_of_ne (by omega)]
      exact hlive.core c (by omega))
    (Sram.tuSramReadBulk core.sramO srcOffset.toNat (fun _ => 0) (numElements * 4).toNat).2.1
  rw [hloop] at h
  dsimp only at h
  rw [Option.map_eq_some_iff] at h
  obtain ⟨s₂, -, hpair⟩ := h
  exact (congrArg Prod.fst hpair).symm

/-- The law holds exactly if there is nothing to reduce or all spans are inside. -/
theorem allReduced_iff (hlive : Live s) (garbage : Nat → UInt8) (srcOffset dstOffset numElements : UInt32) :
    AllReduced fadd s garbage srcOffset dstOffset numElements ↔
      numElements = 0 ∨ SpansInside s srcOffset dstOffset numElements := by
  constructor
  · rintro ⟨ret, s', hrun, ⟨hret, -⟩ | ⟨-, hspans, -⟩⟩
    · left
      exact Classical.byContradiction fun hzero => hret (tuClusterAllreduceSumF32_zero hlive hzero hrun)
    · exact .inr hspans
  · rintro (hzero | hspans)
    · refine ⟨-1, s, ?_, .inl ⟨by decide, rfl⟩⟩
      unfold tuClusterAllreduceSumF32
      rw [if_pos hzero]
    · by_cases hzero : numElements = 0
      · refine ⟨-1, s, ?_, .inl ⟨by decide, rfl⟩⟩
        unfold tuClusterAllreduceSumF32
        rw [if_pos hzero]
      · exact allReduced_of_inside hlive hzero hspans garbage

/-- One number, summed over two cores. -/
theorem allReduced_iff_two :
    AllReduced (fun x _ => x) (filledCluster 2 .ring fun _ => filledCore 8 1) (fun _ => 0) 0 4 1 ↔
      (1 : UInt32) = 0 ∨ SpansInside (filledCluster 2 .ring fun _ => filledCore 8 1) 0 4 1 :=
  allReduced_iff ⟨by decide, fun _ _ => ⟨_, rfl, rfl⟩⟩ _ 0 4 1

/-- Three numbers do not fit into eight bytes, and the call reports success. -/
theorem not_allReduced :
    ¬ AllReduced (fun x _ => x) (filledCluster 2 .ring fun _ => filledCore 8 1) (fun _ => 0) 0 0 3 := by
  have hlive : Live (filledCluster 2 .ring fun _ => filledCore 8 1) := ⟨by decide, fun _ _ => ⟨_, rfl, rfl⟩⟩
  rintro ⟨ret, s', hrun, ⟨hret, -⟩ | ⟨-, hspans, -⟩⟩
  · exact hret (tuClusterAllreduceSumF32_zero hlive (by decide) hrun)
  · obtain ⟨⟨-, core, hcore, -, hinside⟩, -⟩ := hspans 0 (by decide)
    rw [← Option.some.inj hcore] at hinside
    exact absurd hinside (by decide)

end Tusim.Cluster
