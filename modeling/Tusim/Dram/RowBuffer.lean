import Tusim.Dram.Bandwidth

/-!
# The row buffers of the banks

The history of a run lists the refreshes and the row accesses in the order of their effects.  Under an explicit policy
the buffer of a bank holds the row of the latest access to the bank unless a refresh of its slot came after it
(`BankBuffer`), so an access is a hit exactly when that access opened the same row and the bank was not precharged
since (`RowOpen`); the counters count the hits and the misses of the history (`run_rows`).
-/

namespace Tusim

open Word History TuDramRuntime

namespace TuDramRowEvent

/-- The event opens a row of the bank or closes it. -/
def Touches (setup : TuDramSetup) (channel bank : Nat) : TuDramRowEvent → Prop
  | .refreshed slot => slot = refreshSlotOf setup bank
  | .accessed channel' bank' _ _ _ => channel' = channel ∧ bank' = bank

def isHit : TuDramRowEvent → Bool
  | .refreshed _ => false
  | .accessed _ _ _ _ hit => hit

def isMiss : TuDramRowEvent → Bool
  | .refreshed _ => false
  | .accessed _ _ _ _ hit => !hit

/-- Channel, bank, row and cycle of an access. -/
def place? : TuDramRowEvent → Option (Nat × Nat × Nat × Nat)
  | .refreshed _ => none
  | .accessed channel bank row time _ => some (channel, bank, row, time)

end TuDramRowEvent

open TuDramRowEvent

/-- After the history `past` the bank has the row open at cycle `time`: the latest event of the bank is an access to
that row, the policy leaves it open, and it has not been idle for longer than the timeout of the adaptive policy. -/
def RowOpen (setup : TuDramSetup) (past : List TuDramRowEvent) (channel bank row time : Nat) : Prop :=
  setup.rowPolicy ≠ .closedPage ∧ ∃ last hit, Last (Touches setup channel bank) past (.accessed channel bank row last hit) ∧
    (setup.rowPolicy = .adaptiveTimeout → time - last ≤ setup.rowOpenTimeoutCycles.toNat)

/-- An access is a hit exactly when it finds its row open. -/
def HitExact (setup : TuDramSetup) (past : List TuDramRowEvent) : TuDramRowEvent → Prop
  | .refreshed _ => True
  | .accessed channel bank row time hit => hit = true ↔ RowOpen setup past channel bank row time

namespace TuDramOp

/-- The row access of an operation at cycle `now`. -/
def rowAccess? (setup : TuDramSetup) (now : Nat) : TuDramOp → Option (Nat × Nat × Nat × Nat)
  | .tick => none
  | .read addr numBytes | .write addr numBytes =>
    if numBytes = 0 then none
    else (tuDramDecodeAddress setup.toTuDramModel addr).map fun (channel, bank, row) => (channel, bank, row, now)

/-- The row accesses of a run. -/
def rowAccesses (setup : TuDramSetup) : Nat → List TuDramOp → List (Nat × Nat × Nat × Nat)
  | _, [] => []
  | now, op :: ops => (op.rowAccess? setup now).toList ++ rowAccesses setup (now + op.ticks) ops

/-- The address is not the sentinel of a precharged row. -/
def AddrValid : TuDramOp → Prop
  | .tick => True
  | .read addr _ | .write addr _ => addr < uint64Max

theorem rowAccess?_ofAccess (setup : TuDramSetup) (now addr : Nat) (numBytes : UInt32) (direction : TuDramDirection) :
    (ofAccess addr numBytes direction).rowAccess? setup now =
      if numBytes = 0 then none
      else (tuDramDecodeAddress setup.toTuDramModel addr).map fun (channel, bank, row) => (channel, bank, row, now) := by
  cases direction <;> rfl

theorem addrValid_ofAccess (addr : Nat) (numBytes : UInt32) (direction : TuDramDirection) :
    (ofAccess addr numBytes direction).AddrValid ↔ addr < uint64Max := by
  cases direction <;> exact Iff.rfl

end TuDramOp

open TuDramOp

/-! ### Places -/

theorem rowIndex_inj {setup : TuDramSetup} {channel bank channel' bank' : Nat}
    (hbank : bank < setup.params.banksPerChannel.toNat) (hbank' : bank' < setup.params.banksPerChannel.toNat)
    (h : rowIndex setup channel bank = rowIndex setup channel' bank') : channel = channel' ∧ bank = bank' := by
  unfold rowIndex at h
  have hmod := congrArg (· % setup.params.banksPerChannel.toNat) h
  have hdiv := congrArg (· / setup.params.banksPerChannel.toNat) h
  simp only [Nat.mul_add_mod_self_right, Nat.mod_eq_of_lt hbank, Nat.mod_eq_of_lt hbank'] at hmod
  have hpos : 0 < setup.params.banksPerChannel.toNat := by omega
  simp only [Nat.mul_comm _ setup.params.banksPerChannel.toNat, Nat.mul_add_div hpos, Nat.div_eq_of_lt hbank,
    Nat.div_eq_of_lt hbank', Nat.add_zero] at hdiv
  exact ⟨hdiv, hmod⟩

/-- A refresh closes the rows of the banks of its slot. -/
theorem refreshCloses_rowIndex {setup : TuDramSetup} {slot channel bank : Nat} (hslot : slot < refreshSlots setup)
    (hchannel : channel < setup.numChannels.toNat) (hbank : bank < setup.params.banksPerChannel.toNat) :
    refreshCloses setup slot (rowIndex setup channel bank) = true ↔ slot = refreshSlotOf setup bank := by
  have hpos : 0 < setup.params.banksPerChannel.toNat := by omega
  have hdiv : rowIndex setup channel bank / setup.params.banksPerChannel.toNat = channel := by
    unfold rowIndex
    rw [Nat.mul_comm, Nat.mul_add_div hpos, Nat.div_eq_of_lt hbank, Nat.add_zero]
  have hmod : rowIndex setup channel bank % setup.params.banksPerChannel.toNat = bank := by
    unfold rowIndex
    rw [Nat.mul_add_mod_self_right, Nat.mod_eq_of_lt hbank]
  unfold refreshCloses refreshSlotOf
  rw [hdiv, hmod]
  cases hmode : setup.refreshMode with
  | none => exact absurd hmode (mode_ne_none hslot)
  | allBank =>
    have hzero : slot = 0 := by
      unfold refreshSlots at hslot
      rw [hmode] at hslot
      exact Nat.lt_one_iff.1 hslot
    simp [hchannel, hzero]
  | perBank =>
    simp [hchannel, eq_comm]

/-- The row of an address is not larger than the address. -/
theorem decoded_row_le {model : TuDramModel} {addr channel bank row : Nat}
    (h : tuDramDecodeAddress model addr = some (channel, bank, row)) : row ≤ addr := by
  rw [tuDramDecodeAddress_eq] at h
  simp only [Option.some.injEq, Prod.mk.injEq] at h
  obtain ⟨_, _, hrow⟩ := h
  rw [← hrow]
  refine (Nat.div_le_self _ _).trans ?_
  cases model.addressMapping with
  | rowInterleaved => exact (Nat.div_le_self _ _).trans ((Nat.div_le_self _ _).trans (Nat.div_le_self _ _))
  | burstInterleaved => exact (Nat.div_le_self _ _).trans ((Nat.div_le_self _ _).trans (Nat.div_le_self _ _))
  | xorInterleaved => exact (Nat.div_le_self _ _).trans ((Nat.div_le_self _ _).trans (Nat.div_le_self _ _))

/-! ### The buffer of a bank -/

/-- The buffer of a bank holds what the history says. -/
structure BankBuffer (setup : TuDramSetup) (rows : TuDramRowBuffers) (channel bank : Nat) : Prop where
  sound : rows.openRows (rowIndex setup channel bank) = uint64Max ∨
    ∃ last hit, Last (Touches setup channel bank) rows.history
      (.accessed channel bank (rows.openRows (rowIndex setup channel bank)) last hit)
  complete : ∀ row last hit, Last (Touches setup channel bank) rows.history (.accessed channel bank row last hit) →
    row ≠ uint64Max ∧ rows.openRows (rowIndex setup channel bank) = row ∧
      rows.rowLastAccessCycle (rowIndex setup channel bank) = some last

theorem BankBuffer.refreshFire {dram : TuDramRuntime} (hpolicy : dram.setup.rowPolicy ≠ .legacy) {channel bank : Nat}
    (hchannel : channel < dram.setup.numChannels.toNat) (hbank : bank < dram.setup.params.banksPerChannel.toNat)
    (h : BankBuffer dram.setup dram.rows channel bank) {slot : Nat} (hslot : slot < refreshSlots dram.setup)
    (fireAt : Nat) : BankBuffer dram.setup (refreshFire dram slot fireAt).rows channel bank := by
  have hrows : (Tusim.refreshFire dram slot fireAt).rows =
      { dram.rows with
        openRows := fun i => if refreshCloses dram.setup slot i then uint64Max else dram.rows.openRows i
        history := dram.rows.history ++ [.refreshed slot] } := if_neg hpolicy
  have hcloses := refreshCloses_rowIndex hslot hchannel hbank
  rw [hrows]
  by_cases htouch : slot = refreshSlotOf dram.setup bank
  · refine ⟨Or.inl (if_pos (hcloses.2 htouch)), fun row last hit hlast => ?_⟩
    have heq := (last_snoc_of_pos (by exact htouch)).1 hlast
    exact absurd heq (by simp)
  · have hopen : (if refreshCloses dram.setup slot (rowIndex dram.setup channel bank) = true then uint64Max
        else dram.rows.openRows (rowIndex dram.setup channel bank)) =
        dram.rows.openRows (rowIndex dram.setup channel bank) := if_neg fun hc => htouch (hcloses.1 hc)
    refine ⟨?_, fun row last hit hlast => ?_⟩
    · dsimp only
      rw [hopen]
      refine h.sound.imp id ?_
      rintro ⟨last, hit, hlast⟩
      exact ⟨last, hit, (last_snoc_of_neg (by exact htouch)).2 hlast⟩
    · dsimp only
      rw [hopen]
      exact h.complete row last hit ((last_snoc_of_neg (by exact htouch)).1 hlast)

/-- An access puts its row into the buffer of its bank. -/
theorem BankBuffer.accessed {setup : TuDramSetup} {rows : TuDramRowBuffers} {channel bank channel' bank' : Nat}
    (hbank : bank < setup.params.banksPerChannel.toNat) (hbank' : bank' < setup.params.banksPerChannel.toNat)
    (h : BankBuffer setup rows channel bank) {row : Nat} (hrow : row ≠ uint64Max) (time : Nat) (hit : Bool) :
    BankBuffer setup
      { openRows := Function.update rows.openRows (rowIndex setup channel' bank') row
        rowLastAccessCycle := Function.update rows.rowLastAccessCycle (rowIndex setup channel' bank') (some time)
        history := rows.history ++ [.accessed channel' bank' row time hit] } channel bank := by
  by_cases htouch : channel' = channel ∧ bank' = bank
  · obtain ⟨rfl, rfl⟩ := htouch
    refine ⟨Or.inr ⟨time, hit, ?_⟩, fun row' last hit' hlast => ?_⟩
    · dsimp only
      rw [Function.update_self]
      exact (last_snoc_of_pos ⟨rfl, rfl⟩).2 rfl
    · have heq := (last_snoc_of_pos (by exact ⟨rfl, rfl⟩)).1 hlast
      simp only [TuDramRowEvent.accessed.injEq] at heq
      obtain ⟨_, _, rfl, rfl, _⟩ := heq
      exact ⟨hrow, Function.update_self .., Function.update_self ..⟩
  · have hne : rowIndex setup channel bank ≠ rowIndex setup channel' bank' := by
      intro heq
      obtain ⟨hc, hb⟩ := rowIndex_inj hbank hbank' heq
      exact htouch ⟨hc.symm, hb.symm⟩
    refine ⟨?_, fun row' last hit' hlast => ?_⟩
    · dsimp only
      rw [Function.update_of_ne hne]
      refine h.sound.imp id ?_
      rintro ⟨last, hit', hlast⟩
      exact ⟨last, hit', (last_snoc_of_neg (by exact htouch)).2 hlast⟩
    · dsimp only
      rw [Function.update_of_ne hne, Function.update_of_ne hne]
      exact h.complete row' last hit' ((last_snoc_of_neg (by exact htouch)).1 hlast)

/-- Whether the buffer holds `row` after the idle timeout, and what that says about the history. -/
theorem BankBuffer.hit_iff {setup : TuDramSetup} (hclosed : setup.rowPolicy ≠ .closedPage) {rows : TuDramRowBuffers}
    {channel bank row : Nat} (h : BankBuffer setup rows channel bank) (hrow : row ≠ uint64Max) (now : Nat) :
    (if setup.rowPolicy = .adaptiveTimeout ∧ rows.openRows (rowIndex setup channel bank) ≠ uint64Max ∧
        (rows.rowLastAccessCycle (rowIndex setup channel bank)).any
          (fun last => now - last > setup.rowOpenTimeoutCycles.toNat) then uint64Max
      else rows.openRows (rowIndex setup channel bank)) = row ↔ RowOpen setup rows.history channel bank row now := by
  constructor
  · intro heq
    split at heq
    · exact absurd heq.symm hrow
    · rename_i hlive
      rcases h.sound with hempty | ⟨last, hit, hlast⟩
      · exact absurd (heq.symm.trans hempty) hrow
      · rw [heq] at hlast
        obtain ⟨_, _, htime⟩ := h.complete row last hit hlast
        refine ⟨hclosed, last, hit, hlast, fun hadaptive => Nat.le_of_not_lt fun hlt => hlive ⟨hadaptive, ?_, ?_⟩⟩
        · rw [heq]
          exact hrow
        · rw [htime]
          exact decide_eq_true hlt
  · rintro ⟨_, last, hit, hlast, hidle⟩
    obtain ⟨_, hopen, htime⟩ := h.complete row last hit hlast
    rw [if_neg, hopen]
    rintro ⟨hadaptive, _, hexpired⟩
    rw [htime] at hexpired
    exact Nat.not_lt_of_le (hidle hadaptive) (of_decide_eq_true hexpired)

/-! ### The ledger -/

/-- The ledger of the row accesses of a model with the given setup. -/
structure RowLedger (setup : TuDramSetup) (dram : TuDramRuntime) : Prop where
  setup_eq : dram.setup = setup
  hits : dram.stats.totalRowHits = dram.rows.history.countP isHit
  conflicts : dram.stats.totalRowConflicts = dram.rows.history.countP isMiss
  kinds : dram.stats.totalRowConflicts = dram.stats.totalRowEmptyMisses + dram.stats.totalRowReplacements
  refreshes : ∀ slot, dram.rows.history.count (.refreshed slot) = (dram.refresh.fired slot).length
  banks : setup.rowPolicy ≠ .closedPage → ∀ channel < setup.numChannels.toNat,
    ∀ bank < setup.params.banksPerChannel.toNat, BankBuffer setup dram.rows channel bank
  exact : Everywhere (HitExact setup) dram.rows.history

theorem RowLedger.fresh (setup : TuDramSetup) : RowLedger setup (fresh setup) where
  setup_eq := rfl
  hits := rfl
  conflicts := rfl
  kinds := rfl
  refreshes := fun _ => rfl
  banks := fun _ _ _ _ _ => ⟨Or.inl rfl, fun _ _ _ hlast => absurd hlast (not_last_nil _ _)⟩
  exact := everywhere_nil _

/-- The two states agree on the ledger. -/
structure SameLedger (dram dram' : TuDramRuntime) : Prop where
  rows : dram'.rows = dram.rows
  hits : dram'.stats.totalRowHits = dram.stats.totalRowHits
  conflicts : dram'.stats.totalRowConflicts = dram.stats.totalRowConflicts
  emptyMisses : dram'.stats.totalRowEmptyMisses = dram.stats.totalRowEmptyMisses
  replacements : dram'.stats.totalRowReplacements = dram.stats.totalRowReplacements

theorem RowLedger.of_same {setup : TuDramSetup} {dram dram' : TuDramRuntime} (h : RowLedger setup dram)
    (hsame : SameLedger dram dram') (hsetup : dram'.setup = dram.setup) (hrefresh : dram'.refresh = dram.refresh) :
    RowLedger setup dram' where
  setup_eq := hsetup.trans h.setup_eq
  hits := by rw [hsame.hits, hsame.rows, h.hits]
  conflicts := by rw [hsame.conflicts, hsame.rows, h.conflicts]
  kinds := by rw [hsame.conflicts, hsame.emptyMisses, hsame.replacements, h.kinds]
  refreshes := by
    intro slot
    rw [hsame.rows, hrefresh, h.refreshes]
  banks := by
    rw [hsame.rows]
    exact h.banks
  exact := by
    rw [hsame.rows]
    exact h.exact

theorem ensureBandwidth_ledger (dram : TuDramRuntime) : SameLedger dram (ensureBandwidth dram) := by
  rw [ensureBandwidth_eq]
  exact ⟨rfl, rfl, rfl, rfl, rfl⟩

theorem turnaroundFor_ledger (dram : TuDramRuntime) (channel : Nat) (new : TuDramDirection) :
    SameLedger dram (turnaroundFor dram channel new).1 := by
  rw [turnaroundFor_eq]
  exact ⟨rfl, rfl, rfl, rfl, rfl⟩

theorem transfer_ledger (dram : TuDramRuntime) (direction : TuDramDirection) (channel addr : Nat) (numBytes : UInt32)
    (totalCycles refreshStall : Nat) :
    SameLedger dram (transfer dram direction channel addr numBytes totalCycles refreshStall).1 := by
  cases direction with
  | read => exact ⟨rfl, rfl, rfl, rfl, rfl⟩
  | write => exact ⟨rfl, rfl, rfl, rfl, rfl⟩

theorem RowLedger.refreshFire {setup : TuDramSetup} (hpolicy : setup.rowPolicy ≠ .legacy) {dram : TuDramRuntime}
    (h : RowLedger setup dram) {slot : Nat} (hslot : slot < refreshSlots setup) (fireAt : Nat) :
    RowLedger setup (refreshFire dram slot fireAt) := by
  have hsetup := h.setup_eq
  have hhistory : (Tusim.refreshFire dram slot fireAt).rows.history = dram.rows.history ++ [.refreshed slot] := by
    unfold Tusim.refreshFire
    dsimp only
    rw [if_neg (hsetup ▸ hpolicy)]
  refine ⟨hsetup, ?_, ?_, h.kinds, fun slot' => ?_, fun hclosed channel hchannel bank hbank => ?_, ?_⟩
  · rw [hhistory, List.countP_append]
    exact h.hits
  · rw [hhistory, List.countP_append]
    exact h.conflicts
  · rw [hhistory, List.count_append, h.refreshes]
    by_cases hne : slot' = slot
    · simp [Tusim.refreshFire, hne]
    · simp [Tusim.refreshFire, hne, Ne.symm hne]
  · have hbuffer := h.banks hclosed channel hchannel bank hbank
    subst hsetup
    exact hbuffer.refreshFire hpolicy hchannel hbank hslot fireAt
  · rw [hhistory]
    exact everywhere_snoc.2 ⟨h.exact, trivial⟩

/-- A catch-up keeps the ledger and adds no row access. -/
theorem RowLedger.refreshCatchup {setup : TuDramSetup} (hpolicy : setup.rowPolicy ≠ .legacy) {dram : TuDramRuntime}
    (h : RowLedger setup dram) (now : Nat) (onAccess : Bool) :
    RowLedger setup (refreshCatchup dram now onAccess) ∧
      (refreshCatchup dram now onAccess).rows.history.filterMap place? = dram.rows.history.filterMap place? := by
  apply (refreshCatchup_induction
    (P := fun d => RowLedger setup d ∧ d.rows.history.filterMap place? = dram.rows.history.filterMap place?)
    ?_ h.setup_eq ⟨h, rfl⟩).2
  rintro d slot fireAt hsetup hslot _ ⟨hd, hplaces⟩
  refine ⟨hd.refreshFire hpolicy hslot fireAt, ?_⟩
  unfold Tusim.refreshFire
  dsimp only
  rw [if_neg (hsetup ▸ hpolicy), List.filterMap_append, hplaces]
  exact List.append_nil _

/-- One more access in the history, counted as a hit or as a conflict. -/
theorem RowLedger.record {setup : TuDramSetup} {dram dram' : TuDramRuntime} (h : RowLedger setup dram) {hit : Bool}
    {channel bank row time : Nat} (hsetup : dram'.setup = setup) (hrefresh : dram'.refresh = dram.refresh)
    (hhistory : dram'.rows.history = dram.rows.history ++ [.accessed channel bank row time hit])
    (hhits : dram'.stats.totalRowHits = dram.stats.totalRowHits + if hit then 1 else 0)
    (hconflicts : dram'.stats.totalRowConflicts = dram.stats.totalRowConflicts + if hit then 0 else 1)
    (hkinds : dram'.stats.totalRowConflicts = dram'.stats.totalRowEmptyMisses + dram'.stats.totalRowReplacements)
    (hbanks : setup.rowPolicy ≠ .closedPage → ∀ channel < setup.numChannels.toNat,
      ∀ bank < setup.params.banksPerChannel.toNat, BankBuffer setup dram'.rows channel bank)
    (hexact : hit = true ↔ RowOpen setup dram.rows.history channel bank row time) :
    RowLedger setup dram' ∧
      dram'.rows.history.filterMap place? = dram.rows.history.filterMap place? ++ [(channel, bank, row, time)] := by
  refine ⟨⟨hsetup, ?_, ?_, hkinds, fun slot => ?_, hbanks, ?_⟩, ?_⟩
  · rw [hhits, hhistory, List.countP_append, h.hits]
    cases hit <;> rfl
  · rw [hconflicts, hhistory, List.countP_append, h.conflicts]
    cases hit <;> rfl
  · rw [hhistory, hrefresh, List.count_append, h.refreshes]
    simp
  · rw [hhistory]
    exact everywhere_snoc.2 ⟨h.exact, hexact⟩
  · rw [hhistory, List.filterMap_append]
    rfl

/-- What the accounting of a row access does to the ledger. -/
theorem RowLedger.explicitRowPenalty {setup : TuDramSetup} (hpolicy : setup.rowPolicy ≠ .legacy) {dram : TuDramRuntime}
    (h : RowLedger setup dram) {addr channel bank row : Nat} (haddr : addr < uint64Max)
    (hdecode : tuDramDecodeAddress setup.toTuDramModel addr = some (channel, bank, row))
    (hchannel : channel < setup.numChannels.toNat) (hbank : bank < setup.params.banksPerChannel.toNat) :
    RowLedger setup (explicitRowPenalty dram addr).1 ∧
      (explicitRowPenalty dram addr).1.rows.history.filterMap place? =
        dram.rows.history.filterMap place? ++ [(channel, bank, row, dram.currentCycle)] := by
  have hrow : row ≠ uint64Max := ((decoded_row_le hdecode).trans_lt haddr).ne
  have hsetup := h.setup_eq
  unfold Tusim.explicitRowPenalty
  rw [hsetup, if_neg hpolicy, hdecode]
  dsimp only
  by_cases hclosed : setup.rowPolicy = .closedPage
  · rw [if_pos hclosed]
    refine h.record rfl rfl rfl rfl rfl ?_ (fun hne => absurd hclosed hne) ?_
    · have hkinds := h.kinds
      dsimp only
      omega
    · exact ⟨fun hfalse => absurd hfalse Bool.false_ne_true, fun hopen => absurd hclosed hopen.1⟩
  · rw [if_neg hclosed]
    have hiff := (h.banks hclosed channel hchannel bank hbank).hit_iff hclosed hrow dram.currentCycle
    have hkinds := h.kinds
    have hbanks : ∀ hit, setup.rowPolicy ≠ .closedPage → ∀ channel' < setup.numChannels.toNat,
        ∀ bank' < setup.params.banksPerChannel.toNat, BankBuffer setup
          { openRows := Function.update dram.rows.openRows (rowIndex setup channel bank) row
            rowLastAccessCycle :=
              Function.update dram.rows.rowLastAccessCycle (rowIndex setup channel bank) (some dram.currentCycle)
            history := dram.rows.history ++ [.accessed channel bank row dram.currentCycle hit] } channel' bank' :=
      fun hit _ channel' hchannel' bank' hbank' =>
        (h.banks hclosed channel' hchannel' bank' hbank').accessed hbank' hbank hrow dram.currentCycle hit
    generalize (if setup.rowPolicy = .adaptiveTimeout ∧ dram.rows.openRows (rowIndex setup channel bank) ≠ uint64Max ∧
        (dram.rows.rowLastAccessCycle (rowIndex setup channel bank)).any
          (fun last => dram.currentCycle - last > setup.rowOpenTimeoutCycles.toNat) then uint64Max
      else dram.rows.openRows (rowIndex setup channel bank)) = opened at hiff ⊢
    by_cases hhit : opened = row
    · rw [if_pos hhit]
      have hexact := (iff_true_left (decide_eq_true hhit)).2 (hiff.1 hhit)
      refine h.record rfl rfl rfl ?_ ?_ ?_ (hbanks _) hexact
      · split <;> simp [hhit]
      · split <;> simp [hhit]
      · split <;> exact hkinds
    · rw [if_neg hhit]
      have hexact : decide (opened = row) = true ↔ RowOpen setup dram.rows.history channel bank row dram.currentCycle := by
        rw [decide_eq_true_eq]
        exact hiff
      split
      · refine h.record rfl rfl rfl ?_ ?_ ?_ (hbanks _) hexact
        · split <;> simp [hhit]
        · split <;> simp [hhit]
        · split <;> (dsimp only; omega)
      · refine h.record rfl rfl rfl ?_ ?_ ?_ (hbanks _) hexact
        · split <;> simp [hhit]
        · split <;> simp [hhit]
        · split <;> (dsimp only; omega)

/-! ### Runs -/

/-- The ledger at the start of a timed access. -/
theorem RowLedger.beginAccess {setup : TuDramSetup} (hpolicy : setup.rowPolicy ≠ .legacy) {dram : TuDramRuntime}
    (h : RowLedger setup dram) :
    RowLedger setup (beginAccess dram) ∧
      (beginAccess dram).rows.history.filterMap place? = dram.rows.history.filterMap place? := by
  have hens := ensureBandwidth_keeps dram
  have hsame := ensureBandwidth_ledger dram
  have hcatch := (h.of_same hsame hens.setup hens.refresh).refreshCatchup hpolicy dram.currentCycle true
  rwa [hsame.rows] at hcatch

/-- A timed access keeps the ledger and adds its row access. -/
theorem RowLedger.access {setup : TuDramSetup} (htype : setup.type ≠ .ideal) (hpolicy : setup.rowPolicy ≠ .legacy)
    {dram : TuDramRuntime} (h : RowLedger setup dram) (direction : TuDramDirection) {addr : Nat}
    (haddr : addr < uint64Max) {numBytes : UInt32} (hbytes : numBytes ≠ 0) :
    ∃ channel bank row, tuDramDecodeAddress setup.toTuDramModel addr = some (channel, bank, row) ∧
      RowLedger setup (access dram direction addr numBytes).1 ∧
      (access dram direction addr numBytes).1.rows.history.filterMap place? =
        dram.rows.history.filterMap place? ++ [(channel, bank, row, dram.currentCycle)] := by
  obtain ⟨channel, bank, row, hdecode, hchannel, hbank, _⟩ := tuDramDecodeAddress_range setup.toTuDramModel addr
  obtain ⟨hbegin, hplaces⟩ := h.beginAccess hpolicy
  have hturn := turnaroundFor_keeps (Tusim.beginAccess dram) (decodedPlace dram.setup addr).1 direction
  have hsame := turnaroundFor_ledger (Tusim.beginAccess dram) (decodedPlace dram.setup addr).1 direction
  have hturned : RowLedger setup (turnedAround dram direction addr).1 := hbegin.of_same hsame hturn.setup hturn.refresh
  have hcycle : (turnedAround dram direction addr).1.currentCycle = dram.currentCycle :=
    hturn.cycle.trans (beginAccess_cycle dram)
  have hrow : rowPenaltyFor (turnedAround dram direction addr).1 direction addr =
      Tusim.explicitRowPenalty (turnedAround dram direction addr).1 addr := by
    cases direction with
    | read => exact if_pos (hturned.setup_eq ▸ hpolicy)
    | write => exact if_pos (hturned.setup_eq ▸ hpolicy)
  obtain ⟨hledger, hadded⟩ := hturned.explicitRowPenalty hpolicy haddr hdecode hchannel hbank
  rw [← hrow] at hledger hadded
  refine ⟨channel, bank, row, hdecode, ?_⟩
  rw [access_eq (h.setup_eq ▸ htype) direction addr hbytes]
  refine ⟨hledger.of_same (transfer_ledger ..) rfl rfl, ?_⟩
  rw [(transfer_ledger ..).rows, hadded, hcycle]
  unfold turnedAround
  rw [hsame.rows, hplaces]

/-- An operation keeps the ledger and adds its row access, if it makes one. -/
theorem RowLedger.step {setup : TuDramSetup} (htype : setup.type ≠ .ideal) (hpolicy : setup.rowPolicy ≠ .legacy)
    {dram : TuDramRuntime} (h : RowLedger setup dram) {op : TuDramOp} (hop : op.AddrValid) :
    RowLedger setup (dram.step op) ∧ (dram.step op).rows.history.filterMap place? =
      dram.rows.history.filterMap place? ++ (op.rowAccess? setup dram.currentCycle).toList := by
  rcases op.tick_or_access with rfl | ⟨addr, numBytes, direction, rfl⟩
  · have hclock : RowLedger setup { dram with currentCycle := dram.currentCycle + 1 } :=
      h.of_same ⟨rfl, rfl, rfl, rfl, rfl⟩ rfl rfl
    have hens := ensureBandwidth_keeps { dram with currentCycle := dram.currentCycle + 1 }
    have hsame := ensureBandwidth_ledger { dram with currentCycle := dram.currentCycle + 1 }
    obtain ⟨hcatch, hplaces⟩ := (hclock.of_same hsame hens.setup hens.refresh).refreshCatchup hpolicy
      (ensureBandwidth { dram with currentCycle := dram.currentCycle + 1 }).currentCycle false
    refine ⟨hcatch, hplaces.trans ?_⟩
    rw [hsame.rows]
    exact (List.append_nil _).symm
  · rw [addrValid_ofAccess] at hop
    rw [step_ofAccess, rowAccess?_ofAccess]
    by_cases hbytes : numBytes = 0
    · rw [if_pos hbytes, hbytes, access_zero]
      exact ⟨h, (List.append_nil _).symm⟩
    · obtain ⟨channel, bank, row, hdecode, hledger, hplaces⟩ := h.access htype hpolicy direction hop hbytes
      rw [if_neg hbytes, hdecode]
      exact ⟨hledger, hplaces⟩

theorem RowLedger.exec {setup : TuDramSetup} (htype : setup.type ≠ .ideal) (hpolicy : setup.rowPolicy ≠ .legacy)
    {dram : TuDramRuntime} (h : RowLedger setup dram) {ops : List TuDramOp} (hops : ∀ op ∈ ops, op.AddrValid) :
    RowLedger setup (Run.exec TuDramRuntime.step dram ops) ∧
      (Run.exec TuDramRuntime.step dram ops).rows.history.filterMap place? =
        dram.rows.history.filterMap place? ++ rowAccesses setup dram.currentCycle ops := by
  induction ops generalizing dram with
  | nil => exact ⟨h, (List.append_nil _).symm⟩
  | cons op ops ih =>
    obtain ⟨hstep, hplaces⟩ := h.step htype hpolicy (hops op List.mem_cons_self)
    obtain ⟨hrest, hrestPlaces⟩ := ih hstep fun op' hmem => hops op' (List.mem_cons_of_mem op hmem)
    refine ⟨hrest, hrestPlaces.trans ?_⟩
    rw [hplaces, (step_schedule dram op).1, List.append_assoc]
    rfl

/-- Every access of a history is a hit or a miss. -/
theorem countP_isHit_add_isMiss (history : List TuDramRowEvent) :
    history.countP isHit + history.countP isMiss = (history.filterMap place?).length := by
  induction history with
  | nil => rfl
  | cons e history ih =>
    cases e with
    | refreshed slot => exact ih
    | accessed channel bank row time hit =>
      simp only [List.countP_cons, List.filterMap_cons, place?, List.length_cons, ← ih]
      cases hit with
      | true => simp [isHit, isMiss, Nat.add_right_comm]
      | false => simp [isHit, isMiss, Nat.add_assoc]

/-- In every run of a model with an explicit row policy: the hits and the conflicts count the row accesses, every
conflict is an empty miss or a replacement, and in the history of the refreshes and the row accesses of the run an
access is a hit exactly when it finds its row open. -/
theorem run_rows {setup : TuDramSetup} (htype : setup.type ≠ .ideal) (hpolicy : setup.rowPolicy ≠ .legacy)
    {ops : List TuDramOp} (hops : ∀ op ∈ ops, op.AddrValid) :
    let dram := Run.exec TuDramRuntime.step (fresh setup) ops
    dram.stats.totalRowHits + dram.stats.totalRowConflicts = (rowAccesses setup 0 ops).length ∧
      dram.stats.totalRowConflicts = dram.stats.totalRowEmptyMisses + dram.stats.totalRowReplacements ∧
      dram.stats.totalRowHits = dram.rows.history.countP isHit ∧
      dram.rows.history.filterMap place? = rowAccesses setup 0 ops ∧
      (∀ slot, dram.rows.history.count (.refreshed slot) = (dram.refresh.fired slot).length) ∧
      Everywhere (HitExact setup) dram.rows.history := by
  intro dram
  obtain ⟨h, hplaces⟩ := (RowLedger.fresh setup).exec htype hpolicy hops
  refine ⟨?_, h.kinds, h.hits, hplaces, h.refreshes, h.exact⟩
  rw [h.hits, h.conflicts, countP_isHit_add_isMiss, hplaces]
  rfl

/-- Two reads of one row under the open-page policy. -/
theorem run_rows_open_page :
    let dram := Run.exec TuDramRuntime.step (fresh { (tuDramCreate .hbm2).setup with rowPolicy := .openPage })
      [.read 0 64, .read 0 64]
    dram.stats.totalRowHits + dram.stats.totalRowConflicts = 2 := by
  have htype : ({ (tuDramCreate .hbm2).setup with rowPolicy := .openPage } : TuDramSetup).type ≠ .ideal := by decide
  have hpolicy : ({ (tuDramCreate .hbm2).setup with rowPolicy := .openPage } : TuDramSetup).rowPolicy ≠ .legacy := by
    decide
  have hops : ∀ op ∈ [TuDramOp.read 0 64, .read 0 64], op.AddrValid := by
    simp [AddrValid, uint64Max]
  exact (run_rows htype hpolicy hops).1

end Tusim
