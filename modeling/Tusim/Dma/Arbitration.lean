import Tusim.Dma.Queue

/-!
# What arbitration sees

`ArbView` is what the arbitration of the shared bus reads and writes: the cursor, the grant counter, the credits of
deficit round robin, the grants in the log and, for each descriptor, its priority, its stamps and its cost.
Retiring, executing, draining and flushing leave it as it is; a submission only adds fresh descriptors
(`ArbView.Extends`); with a shared serial bus a tick changes it by at most one call of `arbitrate`
(`tuDmaTick_eq`).
-/

namespace Tusim

open Word Segment

/-- What arbitration reads of a descriptor. -/
@[ext] structure DescriptorArb where
  priority : UInt8
  submitted : Nat
  eligible : Nat
  cost : Nat

/-- The stamps of a submission. -/
def DescriptorArb.stamped (a : DescriptorArb) (epoch : Nat) : DescriptorArb :=
  { a with submitted := epoch, eligible := epoch }

@[ext] structure ArbView where
  cfg : TuDmaConfig
  cursor : Nat
  epoch : Nat
  continueVisit : Bool
  continueChannel : Nat
  credits : Nat → Nat
  desc : Nat → DescriptorArb
  /-- channel and cost of every grant, in order -/
  grants : List (Nat × Nat)

def TuDmaDescriptor.arb (cfg : TuDmaConfig) (desc : TuDmaDescriptor) : DescriptorArb where
  priority := desc.priority
  submitted := desc.arbitrationEpochSubmitted
  eligible := desc.arbitrationEpochEligible
  cost := descriptorDrrCost cfg desc

def TuDmaEvent.grant : TuDmaEvent → List (Nat × Nat)
  | .granted i _ cost => [(i, cost)]
  | .accepted .. | .dequeued .. | .executed .. | .retired .. => []

/-- The grants of the shared bus, in order. -/
def grantsOf (log : List TuDmaEvent) : List (Nat × Nat) := log.flatMap (·.grant)

theorem grantsOf_append (log log' : List TuDmaEvent) : grantsOf (log ++ log') = grantsOf log ++ grantsOf log' :=
  List.flatMap_append

def TuDmaEngine.arb (e : TuDmaEngine) : ArbView where
  cfg := e.cfg
  cursor := e.nextSharedChannel
  epoch := e.arbitrationEpoch
  continueVisit := e.drrContinueVisit
  continueChannel := e.drrContinueChannel
  credits i := (e.channels i).drrDeficitCredits
  desc d := (e.heap d).arb e.cfg
  grants := grantsOf e.log

/-! ### Frames -/

section

variable (e : TuDmaEngine)

theorem arb_emit (ev : TuDmaEvent) : (e.emit ev).arb = { e.arb with grants := e.arb.grants ++ ev.grant } := by
  refine ArbView.ext rfl rfl rfl rfl rfl rfl rfl ?_
  show grantsOf (e.log ++ [ev]) = _
  rw [grantsOf_append]
  unfold grantsOf
  rw [List.flatMap_singleton]
  rfl

theorem arb_emit_frame {ev : TuDmaEvent} (h : ev.grant = []) : (e.emit ev).arb = e.arb := by
  rw [arb_emit, h, List.append_nil]

/-- A channel update changes the credits of the channel. -/
theorem arb_setChannel (i : Nat) (f : TuDmaChannelState → TuDmaChannelState) :
    (e.setChannel i f).arb =
      { e.arb with credits := Function.update e.arb.credits i (f (e.channels i)).drrDeficitCredits } := by
  refine ArbView.ext rfl rfl rfl rfl rfl ?_ rfl rfl
  exact funext fun x => Function.apply_update (fun _ => TuDmaChannelState.drrDeficitCredits) e.channels i _ x

theorem arb_setChannel_frame (i : Nat) {f : TuDmaChannelState → TuDmaChannelState}
    (h : (f (e.channels i)).drrDeficitCredits = (e.channels i).drrDeficitCredits) : (e.setChannel i f).arb = e.arb := by
  rw [arb_setChannel, h]
  refine ArbView.ext rfl rfl rfl rfl rfl ?_ rfl rfl
  exact Function.update_eq_self i e.arb.credits

theorem arb_setDesc (d : Nat) (f : TuDmaDescriptor → TuDmaDescriptor) :
    (e.setDesc d f).arb = { e.arb with desc := Function.update e.arb.desc d ((f (e.heap d)).arb e.cfg) } := by
  refine ArbView.ext rfl rfl rfl rfl rfl rfl ?_ rfl
  exact funext fun x => Function.apply_update (fun _ => TuDmaDescriptor.arb e.cfg) e.heap d _ x

theorem arb_setDesc_frame (d : Nat) {f : TuDmaDescriptor → TuDmaDescriptor}
    (h : (f (e.heap d)).arb e.cfg = (e.heap d).arb e.cfg) : (e.setDesc d f).arb = e.arb := by
  rw [arb_setDesc, h]
  refine ArbView.ext rfl rfl rfl rfl rfl rfl ?_ rfl
  exact Function.update_eq_self d e.arb.desc

end

/-! ### Operations without arbitration -/

private theorem arb_accountTransfer (e : TuDmaEngine) (d : Nat) : (accountTransfer e d).arb = e.arb := by
  have hdesc : ∀ mem n, (({ e with mem := mem } : TuDmaEngine).setDesc d fun desc =>
      { desc with completed := true, cyclesCompleted := n }).arb = e.arb := fun mem n =>
    arb_setDesc_frame { e with mem := mem } d rfl
  unfold accountTransfer
  dsimp only
  split
  · rw [arb_setChannel_frame _ _ rfl]
    exact hdesc _ _
  · exact hdesc _ _

@[simp] theorem arb_tuDmaExecuteDesc (e : TuDmaEngine) (d : Nat) : (tuDmaExecuteDesc e d).arb = e.arb := by
  unfold tuDmaExecuteDesc
  dsimp only
  split
  · rfl
  split
  · exact arb_emit_frame e rfl
  split
  · exact arb_emit_frame e rfl
  split
  · exact arb_emit_frame e rfl
  · rw [arb_emit_frame _ rfl, arb_accountTransfer]
    rfl

theorem arb_executePending (n : Nat) (e : TuDmaEngine) (i : Nat) : (executePending n e i).arb = e.arb := by
  induction n generalizing e with
  | zero => rfl
  | succ n ih =>
    unfold executePending
    split
    · rfl
    · dsimp only
      rw [ih, arb_emit_frame _ rfl, arb_emit_frame _ rfl, arb_setChannel_frame _ _ rfl, arb_tuDmaExecuteDesc]

theorem arb_tuDmaFlushChannel (e : TuDmaEngine) (channel : UInt8) : (tuDmaFlushChannel e channel).arb = e.arb := by
  unfold tuDmaFlushChannel
  dsimp only
  split
  · rfl
  · split
    · rw [arb_setChannel_frame _ _ rfl, arb_executePending]
    · rw [arb_emit_frame _ rfl, arb_setChannel_frame _ _ rfl, arb_tuDmaExecuteDesc, arb_setChannel_frame _ _ rfl,
        arb_executePending]

/-! ### Submissions -/

/-- Fresh descriptors from `bound` on carry stamps of the past and the cost of one of `descs`; nothing else
changed. -/
structure ArbView.Extends (a a' : ArbView) (bound : Nat) (descs : List TuDmaDescriptor) : Prop where
  rest : a' = { a with desc := a'.desc }
  old : ∀ d, d ∉ List.range' bound descs.length → a'.desc d = a.desc d
  fresh : ∀ d ∈ List.range' bound descs.length, (a'.desc d).submitted ≤ a.epoch ∧ (a'.desc d).eligible ≤ a.epoch ∧
    ∃ desc ∈ descs, (a'.desc d).cost = descriptorDrrCost a.cfg desc

/-- Stamping a chain writes the present grant counter into its descriptors. -/
private theorem arb_stampSubmitted (l : List Nat) (e : TuDmaEngine) :
    (l.foldl stampSubmitted e).arb =
      { e.arb with desc := fun d =>
          if d ∈ l then (e.arb.desc d).stamped e.arbitrationEpoch else e.arb.desc d } := by
  induction l generalizing e with
  | nil => rfl
  | cons x l ih =>
    have hx : (stampSubmitted e x).arb =
        { e.arb with desc := Function.update e.arb.desc x ((e.arb.desc x).stamped e.arbitrationEpoch) } :=
      arb_setDesc e x _
    rw [List.foldl_cons, ih, hx]
    refine ArbView.ext rfl rfl rfl rfl rfl rfl (funext fun d => ?_) rfl
    show (if d ∈ l then _ else _) = if d ∈ x :: l then _ else _
    by_cases hdx : d = x
    · subst hdx
      simp only [Function.update_self, List.mem_cons_self, if_true]
      split <;> rfl
    · simp only [Function.update_of_ne hdx, List.mem_cons, hdx, false_or]
      split <;> rfl

private theorem arb_commitBinding (e : TuDmaEngine) (i d : Nat) : (commitBinding e i d).arb = e.arb := by
  unfold commitBinding
  split
  · rfl
  · exact arb_setDesc_frame e d (f := fun desc => { desc with channel := UInt8.ofNat i }) rfl

private theorem arb_enqueue (e : TuDmaEngine) (i d : Nat) : (enqueue e i d).arb = e.arb := by
  unfold enqueue
  split
  · exact arb_setChannel_frame e i rfl
  · dsimp only
    rw [arb_setChannel_frame _ i rfl]
    split
    · exact arb_setDesc_frame e _ rfl
    · rfl

private theorem arb_acceptChain (e : TuDmaEngine) (i d : Nat) :
    (acceptChain e i d).arb =
      { e.arb with desc := fun x =>
          if x ∈ e.chain (some d) then (e.arb.desc x).stamped e.arbitrationEpoch else e.arb.desc x } := by
  have hchain : (commitBinding e i d).chain (some d) = e.chain (some d) :=
    congrArg (fun v => QueueView.chain v (some d)) (view_commitBinding e i d)
  have hepoch : (commitBinding e i d).arbitrationEpoch = e.arbitrationEpoch :=
    congrArg ArbView.epoch (arb_commitBinding e i d)
  unfold acceptChain
  dsimp only
  rw [arb_emit_frame _ rfl, arb_setChannel_frame _ i rfl, arb_enqueue, arb_stampSubmitted, arb_commitBinding, hchain,
    hepoch]

private theorem arb_commitSubmission (e : TuDmaEngine) (i d : Nat) :
    (commitSubmission e i d).arb = (acceptChain e i d).arb := by
  unfold commitSubmission
  dsimp only
  split
  · rfl
  · rw [arb_setChannel_frame _ i rfl, arb_executePending]

/-- A submission shows arbitration nothing but fresh descriptors. -/
theorem arb_submitChain (e : TuDmaEngine) (descs : List TuDmaDescriptor) :
    e.arb.Extends (submitChain e descs).1.arb e.allocated descs := by
  have hbuilt : (newChain e descs).1.arb =
      { e.arb with desc := fun d => (builtHeap e.heap e.allocated descs d).arb e.cfg } := by
    rw [newChain_eq]
    rfl
  have hout : ∀ d, d ∉ List.range' e.allocated descs.length → builtHeap e.heap e.allocated descs d = e.heap d := by
    intro d hd
    rw [List.mem_range'_1] at hd
    unfold builtHeap
    split
    · rfl
    · rw [List.getElem?_eq_none (by omega)]
  have hin : ∀ d ∈ List.range' e.allocated descs.length, ∃ desc ∈ descs,
      (builtHeap e.heap e.allocated descs d).arb e.cfg =
        { priority := desc.priority, submitted := 0, eligible := 0, cost := descriptorDrrCost e.cfg desc } := by
    intro d hd
    obtain ⟨desc, hmem, h⟩ := builtHeap_of_mem e.heap hd
    exact ⟨desc, hmem, by rw [h]; rfl⟩
  have hnew : e.arb.Extends (newChain e descs).1.arb e.allocated descs := by
    rw [hbuilt]
    refine ⟨rfl, fun d hd => congrArg (TuDmaDescriptor.arb e.cfg) (hout d hd), fun d hd => ?_⟩
    obtain ⟨desc, hmem, h⟩ := hin d hd
    dsimp only
    rw [h]
    exact ⟨Nat.zero_le _, Nat.zero_le _, desc, hmem, rfl⟩
  rw [submitChain_eq]
  by_cases hnil : descs = []
  · rw [if_pos hnil]
    exact hnew
  rw [if_neg hnil]
  cases ha : admits (newChain e descs).1 e.allocated with
  | false =>
    rw [tuDmaSubmitDesc_refused ha]
    exact hnew
  | true =>
    rw [tuDmaSubmitDesc_admits ha]
    dsimp only
    rw [arb_commitSubmission, arb_acceptChain, newChain_chain e hnil, hbuilt]
    have hepoch : (newChain e descs).1.arbitrationEpoch = e.arbitrationEpoch := by rw [newChain_eq]
    rw [hepoch]
    refine ⟨rfl, fun d hd => ?_, fun d hd => ?_⟩
    · exact (if_neg hd).trans (congrArg (TuDmaDescriptor.arb e.cfg) (hout d hd))
    · obtain ⟨desc, hmem, h⟩ := hin d hd
      dsimp only
      rw [if_pos hd, h]
      exact ⟨Nat.le_refl _, Nat.le_refl _, desc, hmem, rfl⟩

/-! ### Ticks -/

theorem tuDmaTick_eq (e : TuDmaEngine) :
    (tuDmaTick e).1 =
      if (tickChannels e).1.cfg.busMode = .sharedSerial ∧ busBusy (tickChannels e).1 = false then
        arbitrate (tickChannels e).1
      else (tickChannels e).1 := by
  unfold tuDmaTick
  dsimp only
  split
  · rename_i h
    rw [if_pos ⟨h.1, by simpa using h.2⟩]
  · rename_i h
    rw [if_neg fun hc => h ⟨hc.1, by simpa using hc.2⟩]

/-- With a shared bus the channels of a tick only retire. -/
private theorem tickChannel_shared {s : TuDmaEngine × Nat} (h : s.1.cfg.busMode = .sharedSerial) (i : Nat) :
    (tickChannel s i).1.arb = s.1.arb ∧ ∀ j, ((tickChannel s i).1.channels j).head = (s.1.channels j).head := by
  have hretire : (retireActive s i).1.arb = s.1.arb ∧
      ∀ j, ((retireActive s i).1.channels j).head = (s.1.channels j).head := by
    unfold retireActive
    split
    · exact ⟨rfl, fun _ => rfl⟩
    split
    · refine ⟨by rw [arb_emit_frame _ rfl, arb_setChannel_frame _ i rfl], fun j => ?_⟩
      show (Function.update s.1.channels i _ j).head = _
      by_cases hj : j = i
      · subst hj
        rw [Function.update_self]
      · rw [Function.update_of_ne hj]
    · exact ⟨rfl, fun _ => rfl⟩
  have hcfg : (retireActive s i).1.cfg = s.1.cfg := congrArg ArbView.cfg hretire.1
  unfold tickChannel startIndependent
  dsimp only
  rw [if_neg (by rw [hcfg, h]; simp)]
  exact hretire

theorem tickChannels_shared {e : TuDmaEngine} (h : e.cfg.busMode = .sharedSerial) :
    (tickChannels e).1.arb = e.arb ∧ ∀ j, ((tickChannels e).1.channels j).head = (e.channels j).head := by
  have hfold : ∀ (l : List Nat) (s : TuDmaEngine × Nat), s.1.cfg.busMode = .sharedSerial →
      (l.foldl tickChannel s).1.arb = s.1.arb ∧
        ∀ j, ((l.foldl tickChannel s).1.channels j).head = (s.1.channels j).head := by
    intro l
    induction l with
    | nil => exact fun s _ => ⟨rfl, fun _ => rfl⟩
    | cons i l ih =>
      intro s hs
      obtain ⟨harb, hhead⟩ := tickChannel_shared hs i
      have hcfg : (tickChannel s i).1.cfg = s.1.cfg := congrArg ArbView.cfg harb
      obtain ⟨harb', hhead'⟩ := ih (tickChannel s i) (by rw [hcfg]; exact hs)
      exact ⟨harb'.trans harb, fun j => (hhead' j).trans (hhead j)⟩
  exact hfold _ _ h

/-! ### Grants -/

/-- A grant exposes the next head `p`: it becomes eligible with the next grant. -/
def ArbView.expose (a : ArbView) (p : Option Nat) : Nat → DescriptorArb :=
  match p with
  | none => a.desc
  | some h => Function.update a.desc h { a.desc h with eligible := a.epoch + 1 }

theorem arb_grantHead (e : TuDmaEngine) (i d : Nat) :
    (grantHead e i d).arb =
      { e.arb with
        cursor := (i + 1) % e.cfg.numChannels
        epoch := e.arb.epoch + 1
        desc := e.arb.expose (e.next d)
        grants := e.arb.grants ++ [(i, (e.arb.desc d).cost)] } := by
  have hactive : (activateHead e i d).arb = e.arb := by
    unfold activateHead
    rw [arb_emit_frame _ rfl, arb_setChannel_frame _ i rfl]
  generalize hg : (activateHead e i d).emit (.granted i d (descriptorDrrCost e.cfg (e.heap d))) = g
  have hgarb : g.arb = { e.arb with grants := e.arb.grants ++ [(i, (e.arb.desc d).cost)] } := by
    rw [← hg, arb_emit, hactive]
    rfl
  have hhead : (g.channels i).head = e.next d := by
    rw [← hg]
    show (Function.update e.channels i _ i).head = _
    rw [Function.update_self]
  have hexpose : (exposeHead g i).arb = { g.arb with desc := g.arb.expose (e.next d) } := by
    unfold exposeHead ArbView.expose
    rw [hhead]
    cases e.next d with
    | none => rfl
    | some h => exact arb_setDesc g h _
  have hdesc : g.arb.expose (e.next d) = e.arb.expose (e.next d) := by
    rw [hgarb]
    unfold ArbView.expose
    cases e.next d <;> rfl
  have hlast : (tuDmaExecuteDesc (exposeHead g i) d).arb =
      { e.arb with
        desc := e.arb.expose (e.next d), grants := e.arb.grants ++ [(i, (e.arb.desc d).cost)] } := by
    rw [arb_tuDmaExecuteDesc, hexpose, hdesc, hgarb]
  unfold grantHead
  dsimp only
  rw [hg]
  generalize tuDmaExecuteDesc (exposeHead g i) d = x at hlast
  have hcfg : x.cfg = e.cfg := congrArg ArbView.cfg hlast
  have hcursor : ({ x with
      nextSharedChannel := (i + 1) % x.cfg.numChannels, arbitrationEpoch := x.arbitrationEpoch + 1 } : TuDmaEngine).arb =
      { x.arb with cursor := (i + 1) % x.cfg.numChannels, epoch := x.arb.epoch + 1 } := rfl
  rw [hcursor, hcfg, hlast]

end Tusim
