import Tusim.Cluster.Topology

/-!
# Delivery

A message whose sums do not wrap is delivered exactly if both spans are inside and the interconnect has a way
(`tuClusterSend_iff`).  A broadcast reaches the cores in order up to the first that cannot be reached
(`tuClusterBroadcast_reached`).
-/

namespace Tusim.Cluster

open Blocks Word Sram

variable {s s' s'' : TuClusterState} {garbage : Nat → UInt8}

/-! ### What is received -/

theorem CoreReceived.of_sameBytes {received : Prop} {offset size : Nat} {bytes : Nat → UInt8} {core core' : TuCore}
    (h : SameBytes core.sramO core'.sramO) (hinit : core'.initialized = core.initialized) (hnot : ¬ received) :
    CoreReceived received offset bytes size core core' where
  initialized := hinit
  totalSize := h.totalSize
  idle := h.idle
  inside hreceived := absurd hreceived hnot
  outside _ := h.active

/-- A core that receives, after other cores have or have not. -/
theorem CoreReceived.trans {p q : Prop} {offset size : Nat} {bytes : Nat → UInt8} {core core' core'' : TuCore}
    (h : CoreReceived p offset bytes size core core') (h' : CoreReceived q offset bytes size core' core'')
    (hone : p → ¬ q) : CoreReceived (p ∨ q) offset bytes size core core'' where
  initialized := h'.initialized.trans h.initialized
  totalSize := h'.totalSize.trans h.totalSize
  idle := h'.idle.trans h.idle
  inside := by
    rintro (hp | hq)
    · rw [h'.outside (hone hp), h.inside hp]
    · rw [h'.inside hq, h.outside fun hp => hone hp hq]
  outside hnot := by rw [h'.outside fun hq => hnot (.inr hq), h.outside fun hp => hnot (.inl hp)]

theorem Received.refl (offset : Nat) (bytes : Nat → UInt8) (size : Nat) (s : TuClusterState) :
    Received [] offset bytes size s s where
  cluster := rfl
  hopLatency := rfl
  switchingMode := rfl
  linkBytesPerCycle := rfl
  cores id := by
    cases s.cores id with
    | none => exact .none
    | some core => exact .some (.of_sameBytes (.refl _) rfl List.not_mem_nil)
  messages := rfl
  totalBytes := by rw [List.length_nil, Nat.zero_mul, Nat.add_zero]

theorem Received.trans {d : Nat} {rest : List Nat} {offset size : Nat} {bytes : Nat → UInt8}
    (h : Received [d] offset bytes size s s') (h' : Received rest offset bytes size s' s'') (hd : d ∉ rest) :
    Received (d :: rest) offset bytes size s s'' where
  cluster := h'.cluster.trans h.cluster
  hopLatency := h'.hopLatency.trans h.hopLatency
  switchingMode := h'.switchingMode.trans h.switchingMode
  linkBytesPerCycle := h'.linkBytesPerCycle.trans h.linkBytesPerCycle
  cores id := by
    have hfirst := h.cores id
    have hrest := h'.cores id
    generalize s.cores id = core, s'.cores id = core', s''.cores id = core'' at hfirst hrest
    cases hfirst with
    | none =>
      cases hrest
      exact .none
    | some hcore =>
      cases hrest with
      | some hcore' =>
        have hone : id ∈ [d] → ¬ id ∈ rest := by
          intro hid
          rwa [List.mem_singleton.1 hid]
        have hboth := hcore.trans hcore' hone
        have hmem : (id ∈ [d] ∨ id ∈ rest) = (id ∈ d :: rest) := by
          rw [List.mem_singleton, List.mem_cons]
        rw [hmem] at hboth
        exact .some hboth
  messages := by
    have hfirst := h.messages
    have hrest := h'.messages
    rw [List.length_cons]
    rw [List.length_singleton] at hfirst
    omega
  totalBytes := by
    have hfirst := h.totalBytes
    have hrest := h'.totalBytes
    rw [List.length_singleton, Nat.one_mul] at hfirst
    rw [List.length_cons, Nat.succ_mul]
    omega

section
variable {receivers : List Nat} {offset size : Nat} {bytes : Nat → UInt8}
  (h : Received receivers offset bytes size s s')
include h

theorem Received.spanInside_iff (id offset' size' : Nat) :
    SpanInside s' id offset' size' ↔ SpanInside s id offset' size' := by
  have hcore := h.cores id
  unfold SpanInside
  rw [h.cluster]
  generalize s.cores id = core, s'.cores id = core' at hcore
  cases hcore with
  | none => exact Iff.rfl
  | some hcore => simp [hcore.initialized, hcore.totalSize]

theorem Received.estimate_eq (src dst size' : Nat) :
    tuClusterEstimateTransferCycles s' src dst size' = tuClusterEstimateTransferCycles s src dst size' := by
  unfold tuClusterEstimateTransferCycles
  rw [h.cluster, h.hopLatency, h.switchingMode, h.linkBytesPerCycle]

theorem Received.deliverable_iff (src dst srcOffset dstOffset size' : Nat) :
    Deliverable s' src dst srcOffset dstOffset size' ↔ Deliverable s src dst srcOffset dstOffset size' := by
  unfold Deliverable HasWay
  rw [h.spanInside_iff, h.spanInside_iff, h.estimate_eq]

/-- A core that does not receive keeps its bytes. -/
theorem Received.bytesFrom_eq {src : Nat} (hsrc : src ∉ receivers) (offset' : Nat) :
    bytesFrom s' src offset' = bytesFrom s src offset' := by
  have hcore := h.cores src
  unfold bytesFrom
  generalize s.cores src = core, s'.cores src = core' at hcore
  cases hcore with
  | none => rfl
  | some hcore =>
    funext i
    exact congrFun (hcore.outside hsrc) _

end

/-! ### One message -/

theorem span_check {offset size total : UInt32} (h : offset.toNat + size.toNat < 2 ^ 32) :
    offset + size > total ↔ total.toNat < offset.toNat + size.toNat := by
  rw [gt_iff_lt, UInt32.lt_iff_toNat_lt, UInt32.toNat_add, Nat.mod_eq_of_lt h]

theorem tuClusterSend_delivered (garbage : Nat → UInt8) (msg : TuIccMessage) (hsize : msg.sizeBytes ≠ 0)
    (h : Deliverable s msg.srcCoreId.toNat msg.dstCoreId.toNat msg.srcOffset.toNat msg.dstOffset.toNat
      msg.sizeBytes.toNat) :
    ∃ s', tuClusterSend s garbage msg = some (0, s') ∧
      Received [msg.dstCoreId.toNat] msg.dstOffset.toNat (bytesFrom s msg.srcCoreId.toNat msg.srcOffset.toNat)
        msg.sizeBytes.toNat s s' := by
  obtain ⟨⟨hsrcId, srcCore, hsrc, hsrcInit, hsrcSpan⟩, ⟨hdstId, dstCore, hdst, hdstInit, hdstSpan⟩, latency, hlatency,
    hway⟩ := h
  have hsrcTotal := srcCore.sramO.totalSize.toNat_lt
  have hdstTotal := dstCore.sramO.totalSize.toNat_lt
  have hsrcCheck : ¬ msg.srcOffset + msg.sizeBytes > srcCore.sramO.totalSize := by
    rw [span_check (by omega)]
    omega
  have hdstCheck : ¬ msg.dstOffset + msg.sizeBytes > dstCore.sramO.totalSize := by
    rw [span_check (by omega)]
    omega
  obtain ⟨hread, htmp⟩ := tuSramReadBulk_inside hsrcSpan garbage
  have hbytes : bytesFrom s msg.srcCoreId.toNat msg.srcOffset.toNat =
      fun i => sramDataPtr srcCore.sramO (msg.srcOffset.toNat + i) := by
    unfold bytesFrom
    rw [hsrc]
    rfl
  -- the temporary buffer holds the bytes of the source where they are used
  have hcopy : ∀ mem : Nat → UInt8, memcpy mem msg.dstOffset.toNat
      (memcpy garbage 0 (fun i => sramDataPtr srcCore.sramO (msg.srcOffset.toNat + i)) msg.sizeBytes.toNat)
      msg.sizeBytes.toNat =
      memcpy mem msg.dstOffset.toNat (bytesFrom s msg.srcCoreId.toNat msg.srcOffset.toNat) msg.sizeBytes.toNat := by
    intro mem
    rw [hbytes]
    funext i
    unfold memcpy
    split
    · rw [if_pos (by omega), Nat.sub_zero]
    · rfl
  unfold tuClusterSend
  dsimp only
  rw [if_neg (by omega), if_neg hsize, hsrc, hdst]
  dsimp only
  rw [if_neg (by simp [hsrcInit, hdstInit]), if_neg hsrcCheck, if_neg hdstCheck, hlatency, Option.map_some, if_neg hway]
  generalize hsrcSram : (Sram.tuSramReadBulk srcCore.sramO msg.srcOffset.toNat garbage msg.sizeBytes.toNat).1 = srcSram
    at hread
  have hsame : SameBytes dstCore.sramO
      (if msg.srcCoreId.toNat = msg.dstCoreId.toNat then srcSram else dstCore.sramO) := by
    by_cases heq : msg.srcCoreId.toNat = msg.dstCoreId.toNat
    · rw [if_pos heq]
      rw [heq, hdst] at hsrc
      rwa [Option.some.inj hsrc]
    · rw [if_neg heq]
      exact .refl _
  generalize (if msg.srcCoreId.toNat = msg.dstCoreId.toNat then srcSram else dstCore.sramO) = dstSram at hsame
  have hwrote := tuSramWriteBulk_inside (r := dstSram) (by rw [hsame.totalSize]; exact hdstSpan)
    (Sram.tuSramReadBulk srcCore.sramO msg.srcOffset.toNat garbage msg.sizeBytes.toNat).2.1
  generalize Sram.tuSramWriteBulk dstSram _ _ _ = written at hwrote
  refine ⟨_, rfl, rfl, rfl, rfl, rfl, ?_, ?_, ?_⟩
  · intro id
    show Option.Rel _ _ (Function.update (Function.update s.cores _ _) _ _ id)
    by_cases hid : id = msg.dstCoreId.toNat
    · subst hid
      rw [Function.update_self, hdst]
      refine .some ⟨rfl, hwrote.totalSize.trans hsame.totalSize, hwrote.idle.trans hsame.idle, ?_, ?_⟩
      · intro _
        show sramDataPtr written.1 = _
        rw [hwrote.active, htmp, hsame.active, hcopy]
      · intro hnot
        exact absurd (List.mem_singleton_self _) hnot
    · have hnot : ¬ id ∈ [msg.dstCoreId.toNat] := by
        rwa [List.mem_singleton]
      rw [Function.update_of_ne hid]
      by_cases hid' : id = msg.srcCoreId.toNat
      · subst hid'
        rw [Function.update_self, hsrc]
        exact .some (.of_sameBytes hread rfl hnot)
      · rw [Function.update_of_ne hid']
        cases s.cores id with
        | none => exact .none
        | some core => exact .some (.of_sameBytes (.refl _) rfl hnot)
  · show u64 _ % 2 ^ 64 = _
    unfold u64
    rw [List.length_singleton, Nat.mod_mod]
  · show u64 _ % 2 ^ 64 = _
    unfold u64
    rw [List.length_singleton, Nat.one_mul, Nat.mod_mod]

/-- A mesh with columns has an estimate for every message. -/
theorem estimate_isSome (hcols : s.topology = .mesh → s.meshCols ≠ 0) (src dst size : Nat) :
    ∃ latency, tuClusterEstimateTransferCycles s src dst size = some latency := by
  have hhops : ∃ hops, tuClusterHopDistance s.toTuCluster src dst = some hops := by
    unfold tuClusterHopDistance
    split
    · exact ⟨_, rfl⟩
    split
    · exact ⟨_, rfl⟩
    cases htop : s.topology with
    | none => exact ⟨_, rfl⟩
    | ring => exact ⟨_, rfl⟩
    | mesh =>
      dsimp only
      rw [if_neg (hcols htop)]
      split <;> exact ⟨_, rfl⟩
  obtain ⟨hops, hhops⟩ := hhops
  unfold tuClusterEstimateTransferCycles
  rw [hhops, Option.map_some]
  exact ⟨_, rfl⟩

theorem tuClusterSend_refused (garbage : Nat → UInt8) (msg : TuIccMessage) (hsize : msg.sizeBytes ≠ 0)
    (hsrcWrap : msg.srcOffset.toNat + msg.sizeBytes.toNat < 2 ^ 32)
    (hdstWrap : msg.dstOffset.toNat + msg.sizeBytes.toNat < 2 ^ 32)
    (hcols : s.topology = .mesh → s.meshCols ≠ 0)
    (h : ¬ Deliverable s msg.srcCoreId.toNat msg.dstCoreId.toNat msg.srcOffset.toNat msg.dstOffset.toNat
      msg.sizeBytes.toNat) :
    tuClusterSend s garbage msg = some (-1, s) := by
  unfold tuClusterSend
  dsimp only
  by_cases hids : msg.srcCoreId.toNat ≥ s.numCores ∨ msg.dstCoreId.toNat ≥ s.numCores
  · rw [if_pos hids]
  rw [if_neg hids, if_neg hsize]
  obtain ⟨hsrcId, hdstId⟩ := not_or.1 hids
  cases hsrc : s.cores msg.srcCoreId.toNat with
  | none => rfl
  | some srcCore =>
    cases hdst : s.cores msg.dstCoreId.toNat with
    | none => rfl
    | some dstCore =>
      dsimp only
      split
      · rfl
      rename_i hinit
      split
      · rfl
      rename_i hsrcCheck
      split
      · rfl
      rename_i hdstCheck
      rw [span_check hsrcWrap] at hsrcCheck
      rw [span_check hdstWrap] at hdstCheck
      obtain ⟨latency, hlatency⟩ := estimate_isSome (s := s) hcols msg.srcCoreId.toNat msg.dstCoreId.toNat
        msg.sizeBytes.toNat
      rw [hlatency, Option.map_some, if_pos]
      -- only the way can be missing
      apply Classical.byContradiction
      intro hway
      simp only [not_or, Bool.not_eq_true, Bool.not_eq_false] at hinit
      exact h ⟨⟨by omega, srcCore, hsrc, by simpa using hinit.1, by omega⟩,
        ⟨by omega, dstCore, hdst, by simpa using hinit.2, by omega⟩, latency, hlatency, hway⟩

/-! ### Broadcasts -/

theorem broadcastLoop_reached {src srcOffset dstOffset sizeBytes : UInt32} (hsize : sizeBytes ≠ 0)
    (hsrcWrap : srcOffset.toNat + sizeBytes.toNat < 2 ^ 32) (hdstWrap : dstOffset.toNat + sizeBytes.toNat < 2 ^ 32)
    (hcols : s.topology = .mesh → s.meshCols ≠ 0) {l : List Nat} (hword : ∀ d ∈ l, d < 2 ^ 32) (hl : l.Nodup) :
    ∃ ret s' reached rest, broadcastLoop garbage src srcOffset dstOffset sizeBytes l s = some (ret, s') ∧
      l.filter (· ≠ src.toNat) = reached ++ rest ∧
      (∀ d ∈ reached, Deliverable s src.toNat d srcOffset.toNat dstOffset.toNat sizeBytes.toNat) ∧
      (∀ d, rest.head? = some d → ¬ Deliverable s src.toNat d srcOffset.toNat dstOffset.toNat sizeBytes.toNat) ∧
      Received reached dstOffset.toNat (bytesFrom s src.toNat srcOffset.toNat) sizeBytes.toNat s s' ∧
      (ret = 0 ↔ rest = []) := by
  induction l generalizing s with
  | nil => exact ⟨0, s, [], [], rfl, rfl, by simp, by simp, .refl _ _ _ s, by simp⟩
  | cons d l ih =>
    obtain ⟨hnotin, hl⟩ := List.nodup_cons.1 hl
    have hword' : ∀ d ∈ l, d < 2 ^ 32 := fun d hd => hword d (List.mem_cons_of_mem _ hd)
    by_cases hsrc : d = src.toNat
    · have hskip : (d :: l).filter (· ≠ src.toNat) = l.filter (· ≠ src.toNat) := by
        rw [List.filter_cons, if_neg (by simp [hsrc])]
      rw [hskip, broadcastLoop, if_pos hsrc]
      exact ih hcols hword' hl
    · have hkeep : (d :: l).filter (· ≠ src.toNat) = d :: l.filter (· ≠ src.toNat) := by
        rw [List.filter_cons, if_pos (by simp [hsrc])]
      have hd : (UInt32.ofNat d).toNat = d := UInt32.toNat_ofNat_of_lt' (hword d List.mem_cons_self)
      rw [hkeep, broadcastLoop, if_neg hsrc]
      by_cases hdeliver : Deliverable s src.toNat d srcOffset.toNat dstOffset.toNat sizeBytes.toNat
      · obtain ⟨s', hsend, hreceived⟩ := tuClusterSend_delivered garbage
          ⟨src, UInt32.ofNat d, srcOffset, dstOffset, sizeBytes⟩ hsize (by rw [hd]; exact hdeliver)
        rw [hd] at hreceived
        have hcols' : s'.topology = .mesh → s'.meshCols ≠ 0 := by
          rw [hreceived.cluster]
          exact hcols
        obtain ⟨ret, s'', reached, rest, hloop, hsplit, hreached, hrest, hlater, hret⟩ := ih hcols' hword' hl
        have hd' : d ∉ reached := by
          intro hmem
          have hmem' : d ∈ l.filter (· ≠ src.toNat) := by
            rw [hsplit]
            exact List.mem_append_left _ hmem
          exact hnotin (List.mem_filter.1 hmem').1
        have hkept := @Received.bytesFrom_eq _ _ _ _ _ _ hreceived src.toNat
          (by rw [List.mem_singleton]; exact Ne.symm hsrc) srcOffset.toNat
        rw [hkept] at hlater
        refine ⟨ret, s'', d :: reached, rest, ?_, by rw [hsplit, List.cons_append], ?_, ?_,
          hreceived.trans hlater hd', hret⟩
        · rw [hsend, Option.bind_some]
          exact hloop
        · intro d' hd'
          rcases List.mem_cons.1 hd' with rfl | hd'
          · exact hdeliver
          · exact (hreceived.deliverable_iff _ _ _ _ _).1 (hreached d' hd')
        · intro d' hd' hcon
          exact hrest d' hd' ((hreceived.deliverable_iff _ _ _ _ _).2 hcon)
      · have hsend := tuClusterSend_refused garbage
          ⟨src, UInt32.ofNat d, srcOffset, dstOffset, sizeBytes⟩ hsize hsrcWrap hdstWrap hcols
          (by rw [hd]; exact hdeliver)
        refine ⟨-1, s, [], d :: l.filter (· ≠ src.toNat), ?_, rfl, by simp, ?_, .refl _ _ _ s, by simp⟩
        · rw [hsend, Option.bind_some]
          rfl
        · intro d' hd'
          rw [List.head?_cons, Option.some.injEq] at hd'
          rwa [← hd']

/-! ### The laws of the two calls -/

/-- A message is delivered exactly if `ok`; if it is not, nothing changes. -/
def SendObeys (garbage : Nat → UInt8) (s : TuClusterState) (msg : TuIccMessage) (ok : Prop) : Prop :=
  ∃ ret s', tuClusterSend s garbage msg = some (ret, s') ∧ (ret = 0 ↔ ok) ∧ (ret ≠ 0 → s' = s) ∧
    (ret = 0 → Received (if msg.sizeBytes = 0 then [] else [msg.dstCoreId.toNat]) msg.dstOffset.toNat
      (bytesFrom s msg.srcCoreId.toNat msg.srcOffset.toNat) msg.sizeBytes.toNat s s')

/-- The cores that a broadcast is for, if it has bytes. -/
def destinations (s : TuClusterState) (src sizeBytes : UInt32) : List Nat :=
  if sizeBytes = 0 then [] else (List.range s.numCores).filter (· ≠ src.toNat)

/-- Where the sums do not wrap, a message is delivered exactly if it is empty or both spans are inside and there is a way;
a broadcast delivers to the cores before the first that it cannot deliver to, and succeeds if there is none. -/
theorem tuCluster_delivers (hcores : s.numCores ≤ 256) (hcols : s.topology = .mesh → s.meshCols ≠ 0)
    (garbage : Nat → UInt8) (src srcOffset dstOffset sizeBytes : UInt32)
    (hsrcWrap : srcOffset.toNat + sizeBytes.toNat < 2 ^ 32) (hdstWrap : dstOffset.toNat + sizeBytes.toNat < 2 ^ 32) :
    (∀ dst : UInt32, SendObeys garbage s ⟨src, dst, srcOffset, dstOffset, sizeBytes⟩
      (src.toNat < s.numCores ∧ dst.toNat < s.numCores ∧
        (sizeBytes = 0 ∨ Deliverable s src.toNat dst.toNat srcOffset.toNat dstOffset.toNat sizeBytes.toNat))) ∧
    (s.numCores ≤ src.toNat → tuClusterBroadcast s garbage src srcOffset dstOffset sizeBytes = some (-1, s)) ∧
    (src.toNat < s.numCores →
      ∃ ret s' reached rest, tuClusterBroadcast s garbage src srcOffset dstOffset sizeBytes = some (ret, s') ∧
        destinations s src sizeBytes = reached ++ rest ∧
        (∀ d ∈ reached, Deliverable s src.toNat d srcOffset.toNat dstOffset.toNat sizeBytes.toNat) ∧
        (∀ d, rest.head? = some d → ¬ Deliverable s src.toNat d srcOffset.toNat dstOffset.toNat sizeBytes.toNat) ∧
        Received reached dstOffset.toNat (bytesFrom s src.toNat srcOffset.toNat) sizeBytes.toNat s s' ∧
        (ret = 0 ↔ rest = [])) := by
  refine ⟨?_, ?_, ?_⟩
  · intro dst
    by_cases hzero : sizeBytes = 0
    · subst hzero
      unfold SendObeys tuClusterSend
      dsimp only
      by_cases hids : src.toNat ≥ s.numCores ∨ dst.toNat ≥ s.numCores
      · rw [if_pos hids]
        refine ⟨-1, s, rfl, ?_, fun _ => rfl, fun h => absurd h (by decide)⟩
        constructor
        · intro h
          exact absurd h (by decide)
        · rintro ⟨hsrc, hdst, -⟩
          omega
      · rw [if_neg hids, if_pos rfl]
        refine ⟨0, s, rfl, ?_, fun _ => rfl, fun _ => ?_⟩
        · simp only [true_or, and_true, true_iff]
          omega
        · rw [if_pos rfl]
          exact .refl _ _ _ s
    · by_cases hdeliver : Deliverable s src.toNat dst.toNat srcOffset.toNat dstOffset.toNat sizeBytes.toNat
      · obtain ⟨s', hsend, hreceived⟩ := tuClusterSend_delivered garbage
          ⟨src, dst, srcOffset, dstOffset, sizeBytes⟩ hzero hdeliver
        refine ⟨0, s', hsend, ?_, fun h => absurd rfl h, fun _ => ?_⟩
        · simp only [true_iff]
          exact ⟨hdeliver.1.1, hdeliver.2.1.1, .inr hdeliver⟩
        · rw [if_neg hzero]
          exact hreceived
      · have hsend := tuClusterSend_refused garbage
          ⟨src, dst, srcOffset, dstOffset, sizeBytes⟩ hzero hsrcWrap hdstWrap hcols hdeliver
        refine ⟨-1, s, hsend, ?_, fun _ => rfl, fun h => absurd h (by decide)⟩
        constructor
        · intro h
          exact absurd h (by decide)
        · rintro ⟨-, -, h | h⟩
          · exact absurd h hzero
          · exact absurd h hdeliver
  · intro hsrc
    unfold tuClusterBroadcast
    rw [if_pos hsrc]
  · intro hsrc
    unfold tuClusterBroadcast destinations
    rw [if_neg (by omega)]
    by_cases hzero : sizeBytes = 0
    · rw [if_pos hzero, if_pos hzero]
      exact ⟨0, s, [], [], rfl, rfl, by simp, by simp, .refl _ _ _ s, by simp⟩
    · rw [if_neg hzero, if_neg hzero]
      refine broadcastLoop_reached hzero hsrcWrap hdstWrap hcols ?_ List.nodup_range
      intro d hd
      rw [List.mem_range] at hd
      omega

/-- A core whose output scratchpad has `size` bytes, all of them `byte`. -/
def filledCore (size : UInt32) (byte : UInt8) : TuCore where
  initialized := true
  sramO :=
    { (Memory.zero size).sram 2 with
      data := fun _ => byte, reads := 0, writes := 0, conflicts := 0, stallCycles := 0, arbMode := 1, wordMetering := 0,
      name := "O" }
  estimatedCycles := 0

/-- A cluster in which a message takes one cycle a hop. -/
def filledCluster (numCores : Nat) (topology : TuTopology) (cores : Nat → TuCore) : TuClusterState where
  numCores := numCores
  topology := topology
  meshRoutingMode := tuIccMeshRouteXy
  hopLatency := 1
  switchingMode := tuIccSwitchLegacyHopOnly
  linkBytesPerCycle := 1
  cores id := some (cores id)
  stats := { totalIccMessages := 0, totalIccBytes := 0, totalIccCycles := 0 }

/-- Four bytes from a core to its neighbour on a ring. -/
theorem tuCluster_delivers_four :
    let s := filledCluster 2 .ring fun _ => filledCore 8 0
    SendObeys (fun _ => 0) s ⟨0, 1, 4, 0, 4⟩ ((0 : UInt32).toNat < s.numCores ∧ (1 : UInt32).toNat < s.numCores ∧
      ((4 : UInt32) = 0 ∨ Deliverable s (0 : UInt32).toNat (1 : UInt32).toNat (4 : UInt32).toNat (0 : UInt32).toNat
        (4 : UInt32).toNat)) :=
  (tuCluster_delivers (by decide) (by decide) _ 0 4 0 4 (by decide) (by decide)).1 1

/-- Independent cores refuse a message although both spans are inside; and a broadcast that fails at the last core has
already changed the one before it. -/
theorem not_all_or_nothing :
    (let s := filledCluster 2 .none fun _ => filledCore 8 0;
      ¬ SendObeys (fun _ => 0) s ⟨0, 1, 4, 0, 4⟩ (SpanInside s 0 4 4 ∧ SpanInside s 1 0 4)) ∧
    (let s := filledCluster 3 .ring fun id => if id = 0 then filledCore 8 7 else filledCore (if id = 2 then 2 else 8) 0;
      bytesFrom s 1 0 0 = 0 ∧
        (tuClusterBroadcast s (fun _ => 0) 0 4 0 4).map (fun result => (result.1, bytesFrom result.2 1 0 0)) =
          some (-1, 7)) := by
  refine ⟨?_, by decide +kernel, by decide +kernel⟩
  intro s
  have hret : (tuClusterSend s (fun _ => 0) ⟨0, 1, 4, 0, 4⟩).map Prod.fst = some (-1) := by decide +kernel
  rintro ⟨ret, s', hsend, hiff, -, -⟩
  rw [hsend, Option.map_some] at hret
  have hok : ret = 0 := hiff.2 ⟨⟨by decide, _, rfl, rfl, by decide⟩, by decide, _, rfl, rfl, by decide⟩
  rw [hok] at hret
  exact absurd (Option.some.inj hret) (by simp)

end Tusim.Cluster
