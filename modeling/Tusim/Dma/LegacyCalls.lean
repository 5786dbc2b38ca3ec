import Tusim.Compute.Toplevel
import Tusim.Dma.ChannelAccounting

/-!
# The legacy calls

`tu_dma_load` and `tu_dma_store` move bytes between a region and host memory without a descriptor.  They check the range
with a sum of 32 bits, use the first buffer of the region whichever is active, and book no occupied bytes.

* `commitSubmission_single`: a linear descriptor submitted to an idle synchronous engine is executed at once;
* `legacyAgrees_iff`: the legacy call leaves what the descriptor leaves exactly when both refuse the range, or when no
  bytes are asked for and the latency is charged.
-/

namespace Tusim

open Word Blocks

/-! ### The calls -/

namespace TuDmaEngine

variable (e : TuDmaEngine)

/-- What a legacy call leaves of the counters. -/
def chargeLegacy (direction : TuDmaDirection) (latency offset bytes : UInt32) : TuDmaEngine :=
  { e with
    totalBytes := u64 (e.totalBytes + bytes.toNat)
    totalTransfers := u64 (e.totalTransfers + 1)
    estimatedCycles := u64 (u64 (e.estimatedCycles + latency.toNat) + syncTransferCycles e.cfg direction offset bytes) }

/-- `tu_dma_load`; the second component tells whether the range passed the check. -/
def tuDmaLoad (dst : Nat) (offset : UInt32) (hostPtr : Nat) (bytes : UInt32) : TuDmaEngine × Bool :=
  let r := e.mem.sram dst
  if TuToplevel.exceeds r offset bytes then (e, false)
  else
    let r := { r with data := memcpy r.data offset.toNat (fun i => e.mem.host (hostPtr + i)) bytes.toNat }
    ({ e.chargeLegacy .hostToTu e.cfg.readLatencyCycles offset bytes with
        mem := { e.mem with sram := Function.update e.mem.sram dst r } }, true)

/-- `tu_dma_store` -/
def tuDmaStore (src : Nat) (offset : UInt32) (hostPtr : Nat) (bytes : UInt32) : TuDmaEngine × Bool :=
  let r := e.mem.sram src
  if TuToplevel.exceeds r offset bytes then (e, false)
  else
    let host := memcpy e.mem.host hostPtr (fun i => r.data (offset.toNat + i)) bytes.toNat
    ({ e.chargeLegacy .tuToHost e.cfg.writeLatencyCycles offset bytes with
        mem := { e.mem with host := host } }, true)

end TuDmaEngine

inductive LegacyCall where
  | load | store
  deriving DecidableEq, Repr

def LegacyCall.direction : LegacyCall → TuDmaDirection
  | load => .hostToTu
  | store => .tuToHost

/-- The latency that the call charges. -/
def LegacyCall.latency (call : LegacyCall) (cfg : TuDmaConfig) : UInt32 :=
  match call with
  | load => cfg.readLatencyCycles
  | store => cfg.writeLatencyCycles

/-- The call on region `r`. -/
def LegacyCall.run (call : LegacyCall) (e : TuDmaEngine) (r : Nat) (offset : UInt32) (hostPtr : Nat) (bytes : UInt32) :
    TuDmaEngine × Bool :=
  match call with
  | load => e.tuDmaLoad r offset hostPtr bytes
  | store => e.tuDmaStore r offset hostPtr bytes

/-- The same bytes in the buffers of the regions and in host memory, and the same totals. -/
structure SameOutcome (e e' : TuDmaEngine) : Prop where
  host : e.mem.host = e'.mem.host
  data : ∀ r, (e.mem.sram r).data = (e'.mem.sram r).data
  db : ∀ r, (e.mem.sram r).db = (e'.mem.sram r).db
  counter : e.counter = e'.counter
  totalTransfers : e.totalTransfers = e'.totalTransfers

/-- A linear transfer as a client asks for it. -/
structure LinearRequest where
  region : Nat
  offset : UInt32
  hostPtr : Nat
  elemSize : UInt32
  elemCount : UInt32

namespace LinearRequest

def bytes (q : LinearRequest) : UInt32 := q.elemSize * q.elemCount

/-- The descriptor of the request. -/
def descriptor (q : LinearRequest) (call : LegacyCall) (descId : UInt32) (channel : UInt8) : TuDmaDescriptor :=
  tuDmaDescCreateLinear descId channel call.direction (some q.region) q.offset (some q.hostPtr) q.elemSize q.elemCount

end LinearRequest

/-- The legacy call refuses the request when the submission of its descriptor does, and leaves what it leaves. -/
structure LegacyAgrees (e : TuDmaEngine) (call : LegacyCall) (q : LinearRequest) (desc : TuDmaDescriptor) : Prop where
  accepted : (call.run e q.region q.offset q.hostPtr q.bytes).2 = (admitted e [desc]).isSome
  outcome : SameOutcome (call.run e q.region q.offset q.hostPtr q.bytes).1 (submitChain e [desc]).1

/-! ### Synchronous engines between their calls -/

/-- The channel that a submission of the descriptor selects exists and is below its limit. -/
def ChannelOpen (e : TuDmaEngine) (desc : TuDmaDescriptor) : Prop :=
  selectChannel (newChain e [desc]).1 e.allocated < e.cfg.numChannels ∧
    atLimit e (selectChannel (newChain e [desc]).1 e.allocated) = false

section

variable {e : TuDmaEngine}

/-- A synchronous submission leaves the queue of its channel empty. -/
theorem commitSubmission_head {descs : List TuDmaDescriptor} {i : Nat} (hok : e.view.Ok)
    (hsync : e.cfg.asyncMode = false) (ha : admitted e descs = some i) :
    ((commitSubmission (newChain e descs).1 i e.allocated).channels i).head = none := by
  have hne := (admitted_eq_some ha).1
  have hpos : 0 < descs.length := List.length_pos_iff.2 hne
  have hok' : (acceptChain (newChain e descs).1 i e.allocated).view.Ok := by
    rw [view_acceptChain, newChain_chain e hne, view_newChain]
    exact hok.build_append _ hpos i
  have hcfg : (acceptChain (newChain e descs).1 i e.allocated).cfg = e.cfg :=
    (acceptChain_unexecuted _ i _).cfg.trans (newChain_frame e descs).1
  unfold commitSubmission
  dsimp only
  rw [if_neg (by rw [hcfg, hsync]; simp)]
  generalize acceptChain (newChain e descs).1 i e.allocated = e' at hok' ⊢
  have hseg := hok'.queue_isSeg i
  have hpending := view_executePending hseg (hok'.queue_length i)
  obtain ⟨-, -, hhead⟩ := QueueView.drainAll_keeps (P := fun _ => True) hok' trivial hseg fun _ _ _ => trivial
  rw [← hpending] at hhead
  unfold TuDmaEngine.setChannel
  dsimp only
  rw [Function.update_self]
  exact hhead

/-- The queues of a synchronous engine are empty between its calls. -/
theorem step_heads (op : TuDmaOp) (hok : e.view.Ok) (hsync : e.cfg.asyncMode = false)
    (h : ∀ i, (e.channels i).head = none) (i : Nat) : ((e.step op).channels i).head = none := by
  cases op with
  | submit descs =>
    have hothers : ∀ j, admitted e descs ≠ some j → ((submitChain e descs).1.channels j).head = none := by
      refine (submit_keeps (P := fun v => ∀ j, admitted e descs ≠ some j → (v.channels j).head = none) hok
        (fun _ j _ => h j) (fun _ i' _ ha j hj => ?_) (fun {v i' d} _ _ hv hh j hj => ?_)
        fun {v i'} _ _ hv hh j hj => ?_).2
      · have hne : j ≠ i' := fun heq => hj (heq ▸ ha)
        rw [QueueView.append_of_ne _ _ _ hne]
        exact h j
      · by_cases hji : j = i'
        · subst hji
          rw [hv j hj] at hh
          cases hh
        · rw [v.drain_of_ne d hji]
          exact hv j hj
      · by_cases hji : j = i'
        · subst hji
          rw [QueueView.clearTail_self]
          exact hh
        · rw [v.clearTail_of_ne hji]
          exact hv j hj
    by_cases ha : admitted e descs = some i
    · rcases submitChain_cases e descs with ⟨hnone, -⟩ | ⟨i', hi', heq⟩
      · rw [hnone] at ha
        cases ha
      · obtain rfl : i' = i := Option.some.inj (hi'.symm.trans ha)
        show ((submitChain e descs).1.channels i').head = none
        rw [heq]
        exact commitSubmission_head hok hsync ha
    · exact hothers i ha
  | tick =>
    refine (tick_keeps (P := fun v => ∀ j, (v.channels j).head = none) hok h fun {v w} _ hv hs => ?_).2 i
    cases hs with
    | @start i' d cost _ hh _ =>
      rw [hv i'] at hh
      cases hh
    | @retire i' a _ _ =>
      intro j
      by_cases hji : j = i'
      · subst hji
        rw [QueueView.retire_self]
        exact hv j
      · rw [v.retire_of_ne a hji]
        exact hv j
  | flush channel =>
    refine (flush_keeps channel (P := fun v => ∀ j, (v.channels j).head = none) hok h (fun {v d} _ hv hh => ?_)
      (fun {v} _ hv _ j => ?_) fun {v a} _ hv _ j => ?_).2 i
    · rw [hv] at hh
      cases hh
    · by_cases hji : j = channel.toNat
      · subst hji
        rw [QueueView.clearTail_self]
        exact hv _
      · rw [v.clearTail_of_ne hji]
        exact hv j
    · by_cases hji : j = channel.toNat
      · subst hji
        rw [QueueView.flushActive_self]
        exact hv _
      · rw [v.flushActive_of_ne a hji]
        exact hv j

end

theorem run_heads (cfg : TuDmaConfig) (hsync : cfg.asyncMode = false) (m : Memory) (ops : List TuDmaOp) (i : Nat) :
    ((TuDmaEngine.run cfg m ops).channels i).head = none :=
  (Run.invariant (P := fun e : TuDmaEngine => e.view.Ok ∧ e.cfg.asyncMode = false ∧ ∀ i, (e.channels i).head = none)
    (fun _ op he => ⟨step_ok op he.1, by rw [step_cfg op he.1]; exact he.2.1, step_heads op he.1 he.2.1 he.2.2⟩)
    ⟨fresh_ok cfg m, hsync, fun _ => rfl⟩ ops).2.2 i

/-! ### A single descriptor -/

section

variable {e : TuDmaEngine} {desc : TuDmaDescriptor}

theorem newChain_single_heap (e : TuDmaEngine) (desc : TuDmaDescriptor) :
    (newChain e [desc]).1.heap e.allocated = desc.cleared := by
  rw [newChain_eq]
  show builtHeap e.heap e.allocated [desc] e.allocated = _
  unfold builtHeap
  rw [if_neg (Nat.lt_irrefl _), Nat.sub_self]
  simp [TuDmaDescriptor.cleared]

/-- Without external boundaries a descriptor is admitted if its spans fit and its channel is open. -/
theorem admitted_single (hinternal : externalBoundary e.cfg = false) :
    (admitted e [desc]).isSome = true ↔ descriptorSramSpansValid e.mem.sizes desc = true ∧ ChannelOpen e desc := by
  obtain ⟨hcfg, hmem, -⟩ := newChain_frame e [desc]
  have hspans : chainSpansValid (newChain e [desc]).1 e.allocated = descriptorSramSpansValid e.mem.sizes desc := by
    unfold chainSpansValid
    rw [newChain_chain e (by simp), hmem]
    show (descriptorSramSpansValid _ _ && true) = _
    rw [newChain_single_heap, Bool.and_true]
    rfl
  have haddressed : chainAddressed (newChain e [desc]).1 e.allocated = true := by
    unfold chainAddressed
    rw [hcfg, hinternal]
    rfl
  have hlimit : ∀ i, atLimit (newChain e [desc]).1 i = atLimit e i := by
    intro i
    rw [newChain_eq]
    rfl
  unfold admitted admits ChannelOpen
  rw [if_neg (by simp), hspans, haddressed, hcfg, hlimit, Bool.and_true]
  by_cases hvalid : descriptorSramSpansValid e.mem.sizes desc = true
  · by_cases hchannel : selectChannel (newChain e [desc]).1 e.allocated < e.cfg.numChannels
    · cases atLimit e (selectChannel (newChain e [desc]).1 e.allocated) <;> simp [hvalid, hchannel]
    · simp [hvalid, hchannel]
  · simp [hvalid]

/-- The executor moves and books a pending descriptor that it does not refuse. -/
theorem tuDmaExecuteDesc_moves {d : Nat} (hpending : (e.heap d).completed = false)
    (hinternal : externalBoundary e.cfg = false) (hvalid : descriptorSramSpansValid e.mem.sizes (e.heap d) = true)
    (hcopies : (descriptorCopies e.mem.sizes (e.heap d)).isSome = true) :
    tuDmaExecuteDesc e d =
      (accountTransfer { e with mem := copiedMemory e.mem (e.heap d) } d).emit (.executed d true) := by
  obtain ⟨copies, hcopies⟩ := Option.isSome_iff_exists.1 hcopies
  unfold tuDmaExecuteDesc copiedMemory
  dsimp only
  rw [hpending, hvalid, hinternal, hcopies]
  rfl

theorem executePending_none {i : Nat} (h : (e.channels i).head = none) (n : Nat) : executePending n e i = e := by
  cases n with
  | zero => rfl
  | succ n =>
    unfold executePending
    rw [h]

theorem stampSubmitted_totalTransfers (l : List Nat) (e : TuDmaEngine) :
    (l.foldl stampSubmitted e).totalTransfers = e.totalTransfers := by
  induction l generalizing e with
  | nil => rfl
  | cons d l ih => exact ih (stampSubmitted e d)

theorem acceptChain_totalTransfers (e : TuDmaEngine) (i d : Nat) :
    (acceptChain e i d).totalTransfers = e.totalTransfers := by
  have henqueue : ∀ e : TuDmaEngine, (enqueue e i d).totalTransfers = e.totalTransfers := by
    intro e
    unfold enqueue
    split
    · rfl
    · dsimp only
      split <;> rfl
  have hbind : (commitBinding e i d).totalTransfers = e.totalTransfers := by
    unfold commitBinding
    split <;> rfl
  unfold acceptChain
  dsimp only
  exact (henqueue _).trans ((stampSubmitted_totalTransfers _ _).trans hbind)

theorem accountTransfer_totalTransfers (e : TuDmaEngine) (d : Nat) :
    (accountTransfer e d).totalTransfers = u64 (e.totalTransfers + 1) := by
  unfold accountTransfer
  dsimp only
  split <;> rfl

/-- An admitted descriptor is executed at once by an idle synchronous engine. -/
theorem submitChain_single {i : Nat} (hsync : e.cfg.asyncMode = false) (hinternal : externalBoundary e.cfg = false)
    (hhead : (e.channels i).head = none) (ha : admitted e [desc] = some i)
    (hcopies : (descriptorCopies e.mem.sizes desc).isSome = true) :
    let e' := (submitChain e [desc]).1;
    e'.mem = servedMemory e.cfg e.mem desc ∧
      (∀ c, e'.counter c = u64 (e.counter c + booking e.cfg (copiedMemory e.mem desc) desc c)) ∧
      e'.totalTransfers = u64 (e.totalTransfers + 1) := by
  have hvalid := ((admitted_single hinternal).1 (by rw [ha]; rfl)).1
  have hsubmit : (submitChain e [desc]).1 = commitSubmission (newChain e [desc]).1 i e.allocated := by
    rcases submitChain_cases e [desc] with ⟨hnone, -⟩ | ⟨i', hi', heq⟩
    · rw [hnone] at ha
      cases ha
    · obtain rfl : i' = i := Option.some.inj (hi'.symm.trans ha)
      exact heq
  rw [hsubmit]
  obtain ⟨hcfg, hmem, -⟩ := newChain_frame e [desc]
  have hcounter : (newChain e [desc]).1.counter = e.counter := by
    rw [newChain_eq]
    rfl
  have htransfers : (newChain e [desc]).1.totalTransfers = e.totalTransfers := by rw [newChain_eq]
  have hbound : (commitBinding (newChain e [desc]).1 i e.allocated).counter = (newChain e [desc]).1.counter := by
    unfold commitBinding
    split <;> rfl
  have haccept := acceptChain_unexecuted (newChain e [desc]).1 i e.allocated
  have hunbooked := acceptChain_unbooked (newChain e [desc]).1 i e.allocated
  have htotal := acceptChain_totalTransfers (newChain e [desc]).1 i e.allocated
  have hview := view_acceptChain (newChain e [desc]).1 i e.allocated
  have hcore : ((acceptChain (newChain e [desc]).1 i e.allocated).heap e.allocated).core = desc.cleared.core := by
    rw [haccept.core, newChain_single_heap]
  have hnochain : ((newChain e [desc]).1.channels i).head = none := by
    rw [newChain_eq]
    exact hhead
  have hnolink : (newChain e [desc]).1.next e.allocated = none := by
    unfold TuDmaEngine.next
    rw [newChain_single_heap]
    rfl
  have hcount : (newChain e [desc]).1.allocated = e.allocated + 1 := by
    rw [newChain_eq]
    rfl
  unfold commitSubmission
  dsimp only
  generalize (newChain e [desc]).1 = e₀ at *
  generalize acceptChain e₀ i e.allocated = e₁ at *
  -- the queue of the channel is the descriptor alone
  have hhead₁ : (e₁.channels i).head = some e.allocated := by
    have hself : (e₁.view.channels i).head = _ := congrArg (fun v => (v.channels i).head) hview
    refine hself.trans ?_
    rw [QueueView.append_self]
    simp [hnochain]
  have hnext₁ : e₁.next e.allocated = none := by
    have hself : e₁.view.next = _ := congrArg QueueView.next hview
    rw [← view_next, hself, QueueView.append_next]
    unfold QueueView.link
    rw [view_head, hnochain]
    exact hnolink
  have hallocated₁ : e₁.allocated = e.allocated + 1 := by
    have hself : e₁.view.allocated = _ := congrArg QueueView.allocated hview
    rw [← view_allocated, hself, QueueView.append_allocated]
    exact hcount
  have hcfg₁ : e₁.cfg = e.cfg := haccept.cfg.trans hcfg
  have hmem₁ : e₁.mem = e.mem := haccept.mem.trans hmem
  have htransfer : (e₁.heap e.allocated).transfer = desc.transfer := by
    unfold TuDmaDescriptor.transfer
    rw [hcore]
    rfl
  have hmoves := @tuDmaExecuteDesc_moves e₁ e.allocated (congrArg TuDmaDescriptor.completed hcore)
    (by rw [hcfg₁]; exact hinternal)
    (by
      show descriptorSramSpansValid _ (e₁.heap e.allocated).transfer = true
      rw [hmem₁, htransfer]
      exact hvalid)
    (by
      show (descriptorCopies _ (e₁.heap e.allocated).transfer).isSome = true
      rw [hmem₁, htransfer]
      exact hcopies)
  have hcopied : copiedMemory e₁.mem (e₁.heap e.allocated) = copiedMemory e.mem desc := by
    show copiedMemory _ (e₁.heap e.allocated).transfer = _
    rw [hmem₁, htransfer]
    rfl
  have hidle : ∀ (d : Nat) (f : TuDmaChannelState → TuDmaChannelState) (evs evs' : TuDmaEvent),
      (f ((tuDmaExecuteDesc e₁ d).channels i)).head = none →
      (((((tuDmaExecuteDesc e₁ d).setChannel i f).emit evs).emit evs').channels i).head = none := by
    intro d f evs evs' hf
    unfold TuDmaEngine.emit TuDmaEngine.setChannel
    dsimp only
    rw [Function.update_self]
    exact hf
  rw [if_neg (by rw [hcfg₁, hsync]; simp), hallocated₁]
  unfold executePending
  rw [hhead₁]
  dsimp only
  rw [hnext₁, executePending_none (hidle _ _ _ _ rfl)]
  show (tuDmaExecuteDesc e₁ e.allocated).mem = _ ∧ (∀ c, (tuDmaExecuteDesc e₁ e.allocated).counter c = _) ∧
    (tuDmaExecuteDesc e₁ e.allocated).totalTransfers = _
  rw [hmoves, hcopied]
  refine ⟨?_, fun c => ?_, ?_⟩
  · show (accountTransfer _ _).mem = _
    rw [accountTransfer_mem]
    show (sramStallCycles _ (e₁.heap e.allocated).transfer (descriptorTransferCycles _
      (e₁.heap e.allocated).transfer)).1 = _
    rw [htransfer, hcfg₁]
    rfl
  · refine (accountTransfer_counter _ _ c).trans ?_
    show u64 (e₁.counter c + booking _ _ (e₁.heap e.allocated).transfer c) = _
    rw [htransfer, hcfg₁, hunbooked.counter, hbound, hcounter]
    rfl
  · refine (accountTransfer_totalTransfers _ _).trans ?_
    show u64 (e₁.totalTransfers + 1) = _
    rw [htotal, htransfers]

end

/-! ### Linear requests -/

section

variable {e : TuDmaEngine} {call : LegacyCall} {q : LinearRequest} {descId : UInt32} {channel : UInt8}

theorem descriptor_type : (q.descriptor call descId channel).type = .linear := by cases call <;> rfl

theorem descriptor_totalBytes : (q.descriptor call descId channel).totalBytes = q.bytes := by cases call <;> rfl

theorem descriptor_copies (sizes : Nat → UInt32) :
    (descriptorCopies sizes (q.descriptor call descId channel)).isSome = true := by cases call <;> rfl

theorem descriptor_spansValid {sizes : Nat → UInt32} :
    descriptorSramSpansValid sizes (q.descriptor call descId channel) = true ↔
      q.offset.toNat + q.bytes.toNat ≤ (sizes q.region).toNat := by
  have hfits : sramRangeFits sizes (some q.region) q.offset.toNat q.bytes.toNat = true ↔
      q.offset.toNat + q.bytes.toNat ≤ (sizes q.region).toNat := by
    unfold sramRangeFits
    simp
    omega
  rw [← hfits]
  cases call with
  | load =>
    show (true && sramRangeFits sizes (some q.region) q.offset.toNat q.bytes.toNat) = true ↔ _
    rw [Bool.true_and]
  | store =>
    show (sramRangeFits sizes (some q.region) q.offset.toNat q.bytes.toNat && true) = true ↔ _
    rw [Bool.and_true]

/-- A range that fits passes the check of 32 bits. -/
theorem not_exceeds_of_fits {r : TuSramRegion} {offset bytes : UInt32}
    (h : offset.toNat + bytes.toNat ≤ r.totalSize.toNat) : TuToplevel.exceeds r offset bytes = false := by
  have hsize := r.totalSize.toNat_lt
  unfold TuToplevel.exceeds
  rw [decide_eq_false_iff_not, gt_iff_lt, UInt32.lt_iff_toNat_lt, UInt32.toNat_add, Nat.mod_eq_of_lt (by omega)]
  omega

/-- Without bytes the check of 32 bits is exact. -/
theorem fits_of_not_exceeds {r : TuSramRegion} {offset bytes : UInt32} (hbytes : bytes = 0)
    (h : TuToplevel.exceeds r offset bytes = false) : offset.toNat + bytes.toNat ≤ r.totalSize.toNat := by
  subst hbytes
  unfold TuToplevel.exceeds at h
  rw [decide_eq_false_iff_not, gt_iff_lt, UInt32.lt_iff_toNat_lt, UInt32.add_zero] at h
  show offset.toNat + 0 ≤ _
  omega

theorem run_refused (h : TuToplevel.exceeds (e.mem.sram q.region) q.offset q.bytes = true) :
    call.run e q.region q.offset q.hostPtr q.bytes = (e, false) := by
  cases call with
  | load => exact if_pos h
  | store => exact if_pos h

/-- What a legacy call that passes the check books. -/
theorem run_passed (h : TuToplevel.exceeds (e.mem.sram q.region) q.offset q.bytes = false) :
    let r := call.run e q.region q.offset q.hostPtr q.bytes;
    r.2 = true ∧ r.1.counter .bytes = u64 (e.counter .bytes + q.bytes.toNat) ∧
      r.1.counter .occupied = e.counter .occupied ∧
      r.1.counter .cycles = u64 (u64 (e.counter .cycles + (call.latency e.cfg).toNat) +
        syncTransferCycles e.cfg call.direction q.offset q.bytes) ∧
      r.1.totalTransfers = u64 (e.totalTransfers + 1) := by
  cases call with
  | load =>
    unfold LegacyCall.run TuDmaEngine.tuDmaLoad
    dsimp only
    rw [h]
    exact ⟨rfl, rfl, rfl, rfl, rfl⟩
  | store =>
    unfold LegacyCall.run TuDmaEngine.tuDmaStore
    dsimp only
    rw [h]
    exact ⟨rfl, rfl, rfl, rfl, rfl⟩

/-! ### Empty transfers -/

theorem memcpy_none {mem src : Nat → UInt8} {n : Nat} (hn : n = 0) (dst : Nat) : memcpy mem dst src n = mem :=
  funext fun i => memcpy_outside (by omega)

theorem setRaw_tuSramRawPtr (r : TuSramRegion) : r.setRaw (tuSramRawPtr r) = r := by
  obtain ⟨banks, data, totalSize, db⟩ := r
  cases db with
  | none => rfl
  | some db =>
    unfold TuSramRegion.setRaw tuSramRawPtr
    dsimp only
    split <;> rfl

theorem memcpy_empty (m : Memory) (dst src : TuAddr) : m.memcpy ⟨dst, src, 0⟩ = m := by
  cases dst with
  | sram r o =>
    have hsame : (fun x => if o ≤ x ∧ x < o + 0 then m.read (src.add (x - o)) else tuSramRawPtr (m.sram r) x) =
        tuSramRawPtr (m.sram r) := funext fun x => if_neg (by omega)
    unfold Memory.memcpy
    dsimp only
    rw [hsame, setRaw_tuSramRawPtr]
    have hsram : (fun r' => if r' = r then m.sram r else m.sram r') = m.sram := by
      funext r'
      split
      · rename_i h
        rw [h]
      · rfl
    rw [hsram]
  | host a =>
    have hsame : (fun x => if a ≤ x ∧ x < a + 0 then m.read (src.add (x - a)) else m.host x) = m.host :=
      funext fun x => if_neg (by omega)
    unfold Memory.memcpy
    dsimp only
    rw [hsame]

theorem copiedMemory_empty (hbytes : q.bytes = 0) (m : Memory) :
    copiedMemory m (q.descriptor call descId channel) = m := by
  have hcopies : ∃ dst src, descriptorCopies m.sizes (q.descriptor call descId channel) =
      some [⟨dst, src, q.bytes.toNat⟩] := by
    cases call <;> exact ⟨_, _, rfl⟩
  obtain ⟨dst, src, hcopies⟩ := hcopies
  unfold copiedMemory
  rw [hcopies, hbytes]
  exact memcpy_empty m dst src

/-- An empty transfer leaves every byte. -/
theorem run_empty (hbytes : q.bytes = 0) :
    let r := call.run e q.region q.offset q.hostPtr q.bytes;
    r.1.mem.host = e.mem.host ∧ ∀ k, (r.1.mem.sram k).data = (e.mem.sram k).data ∧
      (r.1.mem.sram k).db = (e.mem.sram k).db := by
  have hzero : q.bytes.toNat = 0 := congrArg UInt32.toNat hbytes
  cases call with
  | load =>
    unfold LegacyCall.run TuDmaEngine.tuDmaLoad
    dsimp only
    split
    · exact ⟨rfl, fun k => ⟨rfl, rfl⟩⟩
    · refine ⟨rfl, fun k => ?_⟩
      dsimp only
      by_cases hk : k = q.region
      · subst hk
        rw [Function.update_self]
        have hdata : memcpy (e.mem.sram q.region).data q.offset.toNat (fun i => e.mem.host (q.hostPtr + i))
            q.bytes.toNat = (e.mem.sram q.region).data := memcpy_none hzero _
        exact ⟨hdata, rfl⟩
      · rw [Function.update_of_ne hk]
        exact ⟨rfl, rfl⟩
  | store =>
    unfold LegacyCall.run TuDmaEngine.tuDmaStore
    dsimp only
    split
    · exact ⟨rfl, fun k => ⟨rfl, rfl⟩⟩
    · have hhost : memcpy e.mem.host q.hostPtr (fun i => (e.mem.sram q.region).data (q.offset.toNat + i))
          q.bytes.toNat = e.mem.host := memcpy_none hzero _
      exact ⟨hhost, fun k => ⟨rfl, rfl⟩⟩

/-- The base latency of an empty transfer is charged per descriptor only. -/
def emptyLatency (cfg : TuDmaConfig) (call : LegacyCall) : Nat :=
  if cfg.baseLatencyScope = .perLogicalSegment then 0 else (call.latency cfg).toNat

/-- An empty transfer is booked with its base latency. -/
theorem booking_empty (cfg : TuDmaConfig) (m : Memory) (hbytes : q.bytes = 0) :
    let desc := q.descriptor call descId channel;
    booking cfg m desc .bytes = 0 ∧ booking cfg m desc .occupied = 0 ∧
      booking cfg m desc .cycles = emptyLatency cfg call := by
  have htotal : (q.descriptor call descId channel).totalBytes = 0 := descriptor_totalBytes.trans hbytes
  have hdirection : (q.descriptor call descId channel).direction = call.direction := by cases call <;> rfl
  generalize q.descriptor call descId channel = desc at htotal hdirection
  have hpayload : descriptorPayloadCycles cfg desc = 0 := if_pos htotal
  have hbursts : descriptorBurstCount cfg desc = 0 := if_pos htotal
  have hbase : descriptorBaseCycles cfg desc = emptyLatency cfg call := by
    unfold descriptorBaseCycles descriptorLogicalSegmentCount emptyLatency
    rw [hdirection, if_pos htotal]
    dsimp only
    by_cases hscope : cfg.baseLatencyScope = .perLogicalSegment
    · rw [if_pos hscope, if_pos hscope, Nat.mul_zero]
      rfl
    · rw [if_neg hscope, if_neg hscope, Nat.mul_one]
      have hread := cfg.readLatencyCycles.toNat_lt
      have hwrite := cfg.writeLatencyCycles.toNat_lt
      cases call with
      | load =>
        show u64 cfg.readLatencyCycles.toNat = _
        exact u64_of_lt (by omega)
      | store =>
        show u64 cfg.writeLatencyCycles.toNat = _
        exact u64_of_lt (by omega)
  have hlt : emptyLatency cfg call < 2 ^ 64 := by
    rw [← hbase]
    exact Nat.mod_lt _ (by decide)
  have htransfer : descriptorTransferCycles cfg desc = emptyLatency cfg call := by
    unfold descriptorTransferCycles combinePayloadIssueCycles
    dsimp only
    rw [hpayload, hbursts, hbase, Nat.zero_mul, if_neg (by omega)]
    exact u64_of_lt hlt
  have hstalls : (sramStallCycles m desc (descriptorTransferCycles cfg desc)).2 = 0 := by
    unfold sramStallCycles
    split
    · rfl
    · rename_i r isWrite base _
      split
      · have hwords : u32 (desc.totalBytes.toNat + (m.sram r).banks.bankWidth.toNat - 1) /
            (m.sram r).banks.bankWidth.toNat = 0 := by
          have hwidth := (m.sram r).banks.bankWidth.toNat_lt
          rw [htotal]
          show u32 (0 + (m.sram r).banks.bankWidth.toNat - 1) / _ = 0
          rw [u32_of_lt (by omega)]
          rcases Nat.eq_zero_or_pos (m.sram r).banks.bankWidth.toNat with h0 | hpos
          · rw [h0]
          · exact Nat.div_eq_of_lt (by omega)
        dsimp only
        rw [hwords]
        rfl
      · rfl
  refine ⟨congrArg UInt32.toNat htotal, ?_, ?_⟩
  · show u64 (descriptorPayloadCycles cfg desc * cfg.busWidthBytes) = 0
    rw [hpayload, Nat.zero_mul]
    rfl
  · show u64 (descriptorTransferCycles cfg desc + _) = _
    rw [hstalls, htransfer]
    exact u64_of_lt hlt

/-- A transfer of bytes occupies the bus. -/
theorem booking_occupied (cfg : TuDmaConfig) (m : Memory) (hbytes : q.bytes ≠ 0) :
    0 < booking cfg m (q.descriptor call descId channel) .occupied ∧
      booking cfg m (q.descriptor call descId channel) .occupied < 2 ^ 64 := by
  have htype : (q.descriptor call descId channel).type = .linear := descriptor_type
  have hpayload := linear_payload cfg htype (by rw [descriptor_totalBytes]; exact hbytes)
  have hlt := (q.descriptor call descId channel).totalBytes.toNat_lt
  show 0 < u64 (_ * _) ∧ u64 (_ * _) < 2 ^ 64
  have hpos := Nat.mul_pos hpayload.1 cfg.busWidthBytes_pos
  have hle := Nat.mul_le_mul (Nat.le_trans hpayload.2 hlt.le) cfg.busWidthBytes_le
  rw [u64_of_lt (by omega)]
  omega

/-! ### The comparison -/

/-- A state of a synchronous engine between its calls. -/
structure SyncSettled (e : TuDmaEngine) : Prop where
  sync : e.cfg.asyncMode = false
  heads : ∀ i, (e.channels i).head = none
  counter_lt : ∀ c, e.counter c < 2 ^ 64

theorem legacyAgrees_of_exceeds (hinternal : externalBoundary e.cfg = false)
    (h : TuToplevel.exceeds (e.mem.sram q.region) q.offset q.bytes = true) :
    LegacyAgrees e call q (q.descriptor call descId channel) := by
  have hnone : admitted e [q.descriptor call descId channel] = none := by
    cases hadmitted : admitted e [q.descriptor call descId channel] with
    | none => rfl
    | some i =>
      have hfits := descriptor_spansValid.1 ((admitted_single hinternal).1 (by rw [hadmitted]; rfl)).1
      rw [not_exceeds_of_fits hfits] at h
      cases h
  have hsubmit : (submitChain e [q.descriptor call descId channel]).1 =
      (newChain e [q.descriptor call descId channel]).1 := by
    rcases submitChain_cases e [q.descriptor call descId channel] with ⟨-, heq⟩ | ⟨i, hi, -⟩
    · exact heq
    · rw [hnone] at hi
      cases hi
  refine ⟨?_, ?_⟩
  · rw [run_refused h, hnone]
    rfl
  · rw [run_refused h, hsubmit, newChain_eq]
    exact ⟨rfl, fun _ => rfl, fun _ => rfl, rfl, rfl⟩

/-- A request that both sides accept leaves the same when it is empty and its latency is charged. -/
theorem sameOutcome_iff (h : SyncSettled e) (hinternal : externalBoundary e.cfg = false)
    (hpassed : TuToplevel.exceeds (e.mem.sram q.region) q.offset q.bytes = false)
    (hadmitted : (admitted e [q.descriptor call descId channel]).isSome = true) :
    SameOutcome (call.run e q.region q.offset q.hostPtr q.bytes).1
        (submitChain e [q.descriptor call descId channel]).1 ↔
      q.bytes = 0 ∧ (call.latency e.cfg = 0 ∨ e.cfg.baseLatencyScope = .perDescriptor) := by
  obtain ⟨i, hi⟩ := Option.isSome_iff_exists.1 hadmitted
  obtain ⟨hmem, hcounter, htransfers⟩ := submitChain_single h.sync hinternal (h.heads i) hi (descriptor_copies _)
  obtain ⟨-, hrunBytes, hrunOccupied, hrunCycles, hrunTransfers⟩ := @run_passed e call q hpassed
  by_cases hbytes : q.bytes = 0
  · obtain ⟨hbookBytes, hbookOccupied, hbookCycles⟩ := @booking_empty call q descId channel e.cfg
      (copiedMemory e.mem (q.descriptor call descId channel)) hbytes
    have hsync := ((syncTransferCycles_bounds e.cfg call.direction q.offset q.bytes).1).2 hbytes
    have hlatency := (call.latency e.cfg).toNat_lt
    have hzero : q.bytes.toNat = 0 := congrArg UInt32.toNat hbytes
    have hcycles : (call.run e q.region q.offset q.hostPtr q.bytes).1.counter .cycles =
        (submitChain e [q.descriptor call descId channel]).1.counter .cycles ↔
          call.latency e.cfg = 0 ∨ e.cfg.baseLatencyScope = .perDescriptor := by
      rw [hrunCycles, hcounter, hsync, hbookCycles, Nat.add_zero, emptyLatency]
      by_cases hscope : e.cfg.baseLatencyScope = .perLogicalSegment
      · rw [if_pos hscope, hscope]
        constructor
        · intro heq
          unfold u64 at heq
          exact Or.inl (UInt32.toNat_inj.1 (show (call.latency e.cfg).toNat = 0 by omega))
        · rintro (hlat | hper)
          · rw [hlat]
            exact Nat.mod_mod _ _
          · cases hper
      · have hper : e.cfg.baseLatencyScope = .perDescriptor := by
          cases hs : e.cfg.baseLatencyScope with
          | perDescriptor => rfl
          | perLogicalSegment => exact absurd hs hscope
        rw [if_neg hscope]
        exact iff_of_true (Nat.mod_mod _ _) (Or.inr hper)
    have hrest : SameOutcome (call.run e q.region q.offset q.hostPtr q.bytes).1
        (submitChain e [q.descriptor call descId channel]).1 ↔
          (call.run e q.region q.offset q.hostPtr q.bytes).1.counter .cycles =
            (submitChain e [q.descriptor call descId channel]).1.counter .cycles := by
      refine ⟨fun hsame => congrFun hsame.counter _, fun heq => ?_⟩
      obtain ⟨hhost, hsram⟩ := @run_empty e call q hbytes
      have hbuffers := sramStallCycles_buffers e.mem (q.descriptor call descId channel)
        (descriptorTransferCycles e.cfg (q.descriptor call descId channel))
      unfold servedMemory at hmem
      rw [copiedMemory_empty hbytes] at hmem
      refine ⟨?_, fun k => ?_, fun k => ?_, funext fun c => ?_, hrunTransfers.trans htransfers.symm⟩
      · rw [hhost, hmem, sramStallCycles_host]
      · rw [(hsram k).1, hmem, (hbuffers k).1]
      · rw [(hsram k).2, hmem, (hbuffers k).2]
      · cases c with
        | bytes => rw [hrunBytes, hcounter, hbookBytes, hzero]
        | occupied =>
          rw [hrunOccupied, hcounter, hbookOccupied, Nat.add_zero]
          exact (u64_of_lt (h.counter_lt .occupied)).symm
        | cycles => exact heq
    rw [hrest, hcycles]
    exact ⟨fun hlat => ⟨hbytes, hlat⟩, fun hlat => hlat.2⟩
  · refine iff_of_false (fun hsame => ?_) fun hempty => hbytes hempty.1
    have hoccupied := congrFun hsame.counter .occupied
    obtain ⟨hpos, hlt⟩ := @booking_occupied call q descId channel e.cfg
      (copiedMemory e.mem (q.descriptor call descId channel)) hbytes
    have hold := h.counter_lt .occupied
    rw [hrunOccupied, hcounter] at hoccupied
    unfold u64 at hoccupied
    omega

theorem legacyAgrees_settled (h : SyncSettled e) (hinternal : externalBoundary e.cfg = false) :
    LegacyAgrees e call q (q.descriptor call descId channel) ↔
      TuToplevel.exceeds (e.mem.sram q.region) q.offset q.bytes = true ∨
        (q.bytes = 0 ∧ ChannelOpen e (q.descriptor call descId channel) ∧
          (call.latency e.cfg = 0 ∨ e.cfg.baseLatencyScope = .perDescriptor)) := by
  cases hexceeds : TuToplevel.exceeds (e.mem.sram q.region) q.offset q.bytes with
  | true => exact iff_of_true (legacyAgrees_of_exceeds hinternal hexceeds) (Or.inl rfl)
  | false =>
    obtain ⟨hpassed, -⟩ := @run_passed e call q hexceeds
    rw [or_iff_right Bool.false_ne_true]
    constructor
    · intro hagrees
      have hadmitted := hagrees.accepted.symm.trans hpassed
      obtain ⟨hbytes, hlatency⟩ := (sameOutcome_iff h hinternal hexceeds hadmitted).1 hagrees.outcome
      exact ⟨hbytes, ((admitted_single hinternal).1 hadmitted).2, hlatency⟩
    · rintro ⟨hbytes, hopen, hlatency⟩
      have hadmitted := (admitted_single hinternal).2
        ⟨descriptor_spansValid.2 (fits_of_not_exceeds hbytes hexceeds), hopen⟩
      exact ⟨hpassed.trans hadmitted.symm, (sameOutcome_iff h hinternal hexceeds hadmitted).2 ⟨hbytes, hlatency⟩⟩

end

theorem run_settled (cfg : TuDmaConfig) (hsync : cfg.asyncMode = false) (m m' : Memory) (ops : List TuDmaOp) :
    SyncSettled { TuDmaEngine.run cfg m ops with mem := m' } where
  sync := by
    show (TuDmaEngine.run cfg m ops).cfg.asyncMode = false
    rw [run_cfg]
    exact hsync
  heads := run_heads cfg hsync m ops
  counter_lt := fun c => by
    show (TuDmaEngine.run cfg m ops).counter c < 2 ^ 64
    rw [(run_transfersBooked cfg m ops).engine c]
    exact Nat.mod_lt _ (by decide)

/-- **The legacy calls equal linear descriptors** on a synchronous engine exactly when the check of 32 bits refuses the
range, or no bytes are asked for on an open channel whose latency is charged per descriptor or is zero.  The memory is
arbitrary, also after a run. -/
theorem legacyAgrees_iff (cfg : TuDmaConfig) (hsync : cfg.asyncMode = false) (hinternal : externalBoundary cfg = false)
    (m m' : Memory) (ops : List TuDmaOp) (call : LegacyCall) (q : LinearRequest) (descId : UInt32) (channel : UInt8) :
    let e := { TuDmaEngine.run cfg m ops with mem := m' };
    LegacyAgrees e call q (q.descriptor call descId channel) ↔
      TuToplevel.exceeds (m'.sram q.region) q.offset q.bytes = true ∨
        (q.bytes = 0 ∧ ChannelOpen e (q.descriptor call descId channel) ∧
          (call.latency cfg = 0 ∨ cfg.baseLatencyScope = .perDescriptor)) := by
  intro e
  have hcfg : e.cfg = cfg := run_cfg cfg m ops
  have hiff := @legacyAgrees_settled e call q descId channel (run_settled cfg hsync m m' ops)
    (by rw [hcfg]; exact hinternal)
  rw [hcfg] at hiff
  exact hiff

/-- A synchronous engine with one channel. -/
def syncConfig : TuDmaConfig := .single false

/-- A store of 8 bytes at offset 60 of a region of 64 bytes, after a load. -/
theorem legacyAgrees_store :
    let q : LinearRequest := { region := 0, offset := 60, hostPtr := 16, elemSize := 4, elemCount := 2 }
    let load := tuDmaDescCreateLinear 1 0 .hostToTu (some 0) 0 (some 0) 4 2
    LegacyAgrees { TuDmaEngine.run syncConfig (Memory.zero 64) [.submit [load]] with mem := Memory.zero 64 } .store q
      (q.descriptor .store 2 0) :=
  (legacyAgrees_iff syncConfig rfl (by decide) _ _ _ .store _ 2 0).2 (Or.inl (by decide))

/-- A load of four bytes books no occupied bytes. -/
theorem not_legacyAgrees :
    let q : LinearRequest := { region := 0, offset := 0, hostPtr := 16, elemSize := 1, elemCount := 4 }
    ¬LegacyAgrees (TuDmaEngine.fresh syncConfig (Memory.zero 64)) .load q (q.descriptor .load 1 0) := by
  intro q h
  exact absurd (congrFun h.outcome.counter .occupied) (by decide)

end Tusim
