import Tusim.Dma.Execution

/-!
# The work of the engine

A tick and a submission hand descriptors to the executor, one after the other; whatever else they do leaves the memory
and the transfers alone, and the clock does not go back.  `DmaWork` is one such step, and `tuDmaTick_work` and
`tuDmaSubmitDesc_work` take the two operations apart.  So a completed descriptor stays as it is (`Works.completed`).

Only the executor books transfers: apart from the binding of an accepted chain, the other steps leave the counters, the
channel fields and the moved descriptors of the log alone (`Unbooked`, `Bookings`).
-/

namespace Tusim

open Word Relation

/-- A descriptor without its binding, its link and its stamps. -/
def TuDmaDescriptor.core (desc : TuDmaDescriptor) : TuDmaDescriptor :=
  { desc with
    channel := 0, next := none, arbitrationEpochSubmitted := 0, arbitrationEpochEligible := 0,
    arbitrationCycleSubmitted := 0, arbitrationCycleEligible := 0 }

/-- The counters that an execution adds to. -/
inductive DmaCounter where
  | bytes | occupied | cycles
  deriving DecidableEq, Repr

def TuDmaEngine.counter (e : TuDmaEngine) : DmaCounter → Nat
  | .bytes => e.totalBytes
  | .occupied => e.totalOccupiedBytes
  | .cycles => e.estimatedCycles

def TuDmaChannelState.counter (ch : TuDmaChannelState) : DmaCounter → Nat
  | .bytes => ch.totalBytes
  | .occupied => ch.totalOccupiedBytes
  | .cycles => ch.totalCycles

/-- The descriptor that an event tells to have been moved. -/
def TuDmaEvent.movedIds : TuDmaEvent → List Nat
  | .executed d true => [d]
  | .executed _ false | .accepted .. | .dequeued .. | .retired .. | .granted .. => []

/-- The descriptors that the executor moved, in order. -/
def movedIds (log : List TuDmaEvent) : List Nat := log.flatMap (·.movedIds)

theorem movedIds_append (log log' : List TuDmaEvent) : movedIds (log ++ log') = movedIds log ++ movedIds log' :=
  List.flatMap_append

/-- A step that executes nothing. -/
structure Unexecuted (e e' : TuDmaEngine) : Prop where
  cfg : e'.cfg = e.cfg
  mem : e'.mem = e.mem
  clock : e.currentCycle ≤ uint64Max → e.currentCycle ≤ e'.currentCycle ∧ e'.currentCycle ≤ uint64Max
  core : ∀ d, (e'.heap d).core = (e.heap d).core

/-- A step that executes nothing and binds nothing. -/
structure Unbooked (e e' : TuDmaEngine) : Prop extends Unexecuted e e' where
  channel : ∀ d, (e'.heap d).channel = (e.heap d).channel
  counter : e'.counter = e.counter
  channelCounter : ∀ i, (e'.channels i).counter = (e.channels i).counter
  moved : movedIds e'.log = movedIds e.log

inductive DmaWork : TuDmaEngine → TuDmaEngine → Prop where
  | execute (e : TuDmaEngine) (d : Nat) : DmaWork e (tuDmaExecuteDesc e d)
  | other {e e' : TuDmaEngine} (h : Unexecuted e e') : DmaWork e e'

/-- Any number of steps. -/
def Works : TuDmaEngine → TuDmaEngine → Prop := ReflTransGen DmaWork

/-- An execution, or a step that books nothing. -/
inductive Booking : TuDmaEngine → TuDmaEngine → Prop where
  | execute (e : TuDmaEngine) (d : Nat) : Booking e (tuDmaExecuteDesc e d)
  | other {e e' : TuDmaEngine} (h : Unbooked e e') : Booking e e'

/-- Any number of executions and steps that book nothing. -/
def Bookings : TuDmaEngine → TuDmaEngine → Prop := ReflTransGen Booking

namespace Works

theorem refl (e : TuDmaEngine) : Works e e := ReflTransGen.refl

theorem trans {e e' e'' : TuDmaEngine} (h : Works e e') (h' : Works e' e'') : Works e e'' := ReflTransGen.trans h h'

theorem other {e e' : TuDmaEngine} (h : Unexecuted e e') : Works e e' := .single (.other h)

end Works

namespace Bookings

theorem refl (e : TuDmaEngine) : Bookings e e := ReflTransGen.refl

theorem trans {e e' e'' : TuDmaEngine} (h : Bookings e e') (h' : Bookings e' e'') : Bookings e e'' :=
  ReflTransGen.trans h h'

theorem execute (e : TuDmaEngine) (d : Nat) : Bookings e (tuDmaExecuteDesc e d) := .single (.execute e d)

theorem other {e e' : TuDmaEngine} (h : Unbooked e e') : Bookings e e' := .single (.other h)

theorem works {e e' : TuDmaEngine} (h : Bookings e e') : Works e e' :=
  ReflTransGen.mono (fun _ _ hstep => by
    cases hstep with
    | execute d => exact .execute _ d
    | other hun => exact .other hun.toUnexecuted) _ _ h

end Bookings

namespace Unexecuted

variable {e e' : TuDmaEngine}

/-- A step that leaves memory, heap and clock alone. -/
theorem of_same (hcfg : e'.cfg = e.cfg) (hmem : e'.mem = e.mem) (hclock : e'.currentCycle = e.currentCycle)
    (hheap : e'.heap = e.heap) : Unexecuted e e' where
  cfg := hcfg
  mem := hmem
  clock := fun h => ⟨hclock.ge, hclock ▸ h⟩
  core := fun d => by rw [hheap]

theorem refl (e : TuDmaEngine) : Unexecuted e e := of_same rfl rfl rfl rfl

theorem trans {e'' : TuDmaEngine} (h : Unexecuted e e') (h' : Unexecuted e' e'') : Unexecuted e e'' where
  cfg := h'.cfg.trans h.cfg
  mem := h'.mem.trans h.mem
  clock := fun he => ⟨(h.clock he).1.trans (h'.clock (h.clock he).2).1, (h'.clock (h.clock he).2).2⟩
  core := fun d => (h'.core d).trans (h.core d)

/-- A change of a descriptor outside its core. -/
theorem setDesc (e : TuDmaEngine) (d : Nat) {f : TuDmaDescriptor → TuDmaDescriptor}
    (hf : (f (e.heap d)).core = (e.heap d).core) : Unexecuted e (e.setDesc d f) where
  cfg := rfl
  mem := rfl
  clock := fun h => ⟨Nat.le_refl _, h⟩
  core := by
    intro d'
    show (Function.update e.heap d (f (e.heap d)) d').core = _
    by_cases h : d' = d
    · rw [h, Function.update_self, hf]
    · rw [Function.update_of_ne h]

end Unexecuted

namespace Unbooked

variable {e e' : TuDmaEngine}

/-- A step that leaves the heap, the channels and the counters alone. -/
theorem of_same (h : Unexecuted e e') (hheap : e'.heap = e.heap) (hchannels : e'.channels = e.channels)
    (hcounter : e'.counter = e.counter) (hlog : e'.log = e.log) : Unbooked e e' where
  toUnexecuted := h
  channel := fun d => by rw [hheap]
  counter := hcounter
  channelCounter := fun i => by rw [hchannels]
  moved := by rw [hlog]

theorem refl (e : TuDmaEngine) : Unbooked e e := of_same (.refl e) rfl rfl rfl rfl

theorem trans {e'' : TuDmaEngine} (h : Unbooked e e') (h' : Unbooked e' e'') : Unbooked e e'' where
  toUnexecuted := h.toUnexecuted.trans h'.toUnexecuted
  channel := fun d => (h'.channel d).trans (h.channel d)
  counter := h'.counter.trans h.counter
  channelCounter := fun i => (h'.channelCounter i).trans (h.channelCounter i)
  moved := h'.moved.trans h.moved

/-- A change of a channel outside its totals. -/
theorem setChannel (e : TuDmaEngine) (i : Nat) {f : TuDmaChannelState → TuDmaChannelState}
    (hf : (f (e.channels i)).counter = (e.channels i).counter) : Unbooked e (e.setChannel i f) where
  toUnexecuted := .of_same rfl rfl rfl rfl
  channel := fun _ => rfl
  counter := rfl
  channelCounter := by
    intro j
    show (Function.update e.channels i (f (e.channels i)) j).counter = _
    by_cases h : j = i
    · rw [h, Function.update_self, hf]
    · rw [Function.update_of_ne h]
  moved := rfl

/-- A change of a descriptor outside its core and its channel. -/
theorem setDesc (e : TuDmaEngine) (d : Nat) {f : TuDmaDescriptor → TuDmaDescriptor}
    (hf : (f (e.heap d)).core = (e.heap d).core) (hchannel : (f (e.heap d)).channel = (e.heap d).channel) :
    Unbooked e (e.setDesc d f) where
  toUnexecuted := .setDesc e d hf
  channel := by
    intro d'
    show (Function.update e.heap d (f (e.heap d)) d').channel = _
    by_cases h : d' = d
    · rw [h, Function.update_self, hchannel]
    · rw [Function.update_of_ne h]
  counter := rfl
  channelCounter := fun _ => rfl
  moved := rfl

theorem emit (e : TuDmaEngine) (ev : TuDmaEvent) (hev : ev.movedIds = []) : Unbooked e (e.emit ev) where
  toUnexecuted := .of_same rfl rfl rfl rfl
  channel := fun _ => rfl
  counter := rfl
  channelCounter := fun _ => rfl
  moved := by
    show movedIds (e.log ++ [ev]) = _
    rw [movedIds_append]
    show _ ++ (ev.movedIds ++ []) = _
    rw [hev, List.append_nil, List.append_nil]

end Unbooked

theorem activateHead_unbooked (e : TuDmaEngine) (i d : Nat) : Unbooked e (activateHead e i d) :=
  (Unbooked.setChannel e i rfl).trans (.emit _ _ rfl)

theorem satAdd64_bounds {a : Nat} (b : Nat) (h : a ≤ uint64Max) : a ≤ satAdd64 a b ∧ satAdd64 a b ≤ uint64Max := by
  unfold satAdd64
  split <;> omega

/-! ### Ticks -/

theorem retireActive_bookings (s : TuDmaEngine × Nat) (i : Nat) : Bookings s.1 (retireActive s i).1 := by
  unfold retireActive
  split
  · exact .refl _
  · split
    · exact .other ((Unbooked.setChannel s.1 i rfl).trans (.emit _ _ rfl))
    · exact .refl _

theorem startIndependent_bookings (e : TuDmaEngine) (i : Nat) : Bookings e (startIndependent e i) := by
  unfold startIndependent
  split
  · split
    · exact (Bookings.other (activateHead_unbooked e i _)).trans (.execute _ _)
    · exact .refl _
  · exact .refl _

theorem tickChannels_bookings (e : TuDmaEngine) :
    Bookings { e with currentCycle := u64 (e.currentCycle + 1) } (tickChannels e).1 := by
  have hloop : ∀ (l : List Nat) (s : TuDmaEngine × Nat), Bookings s.1 (l.foldl tickChannel s).1 := by
    intro l
    induction l with
    | nil => exact fun s => .refl _
    | cons i l ih =>
      intro s
      rw [List.foldl_cons]
      exact ((retireActive_bookings s i).trans (startIndependent_bookings _ i)).trans (ih (tickChannel s i))
  exact hloop (List.range e.cfg.numChannels) ({ e with currentCycle := u64 (e.currentCycle + 1) }, 0)

/-- A delay moves the clock only. -/
theorem delay_unbooked (e : TuDmaEngine) (delay : Nat) :
    Unbooked e { e with currentCycle := satAdd64 e.currentCycle delay } :=
  .of_same ⟨rfl, rfl, fun h => satAdd64_bounds _ h, fun _ => rfl⟩ rfl rfl rfl rfl

theorem drrDebit_unbooked (e : TuDmaEngine) (i cost probe : Nat) : Unbooked e (drrDebit e i cost probe) :=
  (Unbooked.setChannel e i rfl).trans (delay_unbooked _ _)

theorem drrResetIdle_unbooked (e : TuDmaEngine) (i : Nat) : Unbooked e (drrResetIdle e i) := by
  unfold drrResetIdle
  split
  · exact .setChannel e i rfl
  · exact .refl e

/-- A step that moves the cursors of the arbitration. -/
private theorem cursor_unbooked {e e' : TuDmaEngine} (hcfg : e'.cfg = e.cfg) (hmem : e'.mem = e.mem)
    (hclock : e'.currentCycle = e.currentCycle) (hheap : e'.heap = e.heap) (hchannels : e'.channels = e.channels)
    (hcounter : e'.counter = e.counter) (hlog : e'.log = e.log) : Unbooked e e' :=
  .of_same (.of_same hcfg hmem hclock hheap) hheap hchannels hcounter hlog

theorem drrEndVisit_unbooked (e : TuDmaEngine) (i : Nat) : Unbooked e (drrEndVisit e i) := by
  unfold drrEndVisit
  split
  · exact cursor_unbooked rfl rfl rfl rfl rfl rfl rfl
  · exact .refl e

theorem drrAdvance_unbooked (e : TuDmaEngine) (i : Nat) : Unbooked e (drrAdvance e i) := by
  unfold drrAdvance
  dsimp only
  split <;> exact cursor_unbooked rfl rfl rfl rfl rfl rfl rfl

theorem drrGrant_bookings (e : TuDmaEngine) (i d probe : Nat) : Bookings e (drrGrant e i d probe) := by
  unfold drrGrant
  dsimp only
  have hdebit := drrDebit_unbooked e i (descriptorDrrCost e.cfg (e.heap d)) probe
  have hactive := hdebit.trans (activateHead_unbooked _ i d)
  have hgranted := hactive.trans (.emit _ (.granted i d (descriptorDrrCost e.cfg (e.heap d))) rfl)
  have hexecuted := (Bookings.other (hgranted.trans (drrResetIdle_unbooked _ i))).trans (.execute _ d)
  exact hexecuted.trans (.other (drrAdvance_unbooked _ i))

theorem drrProbe_bookings (e : TuDmaEngine) (probe : Nat) : Bookings e (drrProbe e probe).1 := by
  unfold drrProbe
  dsimp only
  have hvisit : ∀ i, Bookings e (drrVisit e i) := fun i =>
    .other ((Unbooked.setChannel e i (f := fun ch => { ch with drrDeficitCredits := drrVisitCredits e i }) rfl).trans
      (cursor_unbooked rfl rfl rfl rfl rfl rfl rfl))
  split
  · exact .other ((drrResetIdle_unbooked e _).trans (drrEndVisit_unbooked _ _))
  · split
    · exact hvisit _
    · exact (hvisit _).trans (drrGrant_bookings _ _ _ _)

theorem drrRound_bookings (probes : List Nat) (e : TuDmaEngine) : Bookings e (drrRound probes e).1 := by
  induction probes generalizing e with
  | nil => exact .refl e
  | cons probe probes ih =>
    have hprobe := drrProbe_bookings e probe
    unfold drrRound
    rcases hp : drrProbe e probe with ⟨e', found⟩
    rw [hp] at hprobe
    cases found with
    | idle => exact hprobe.trans (ih e')
    | short => exact hprobe.trans (ih e')
    | granted => exact hprobe

theorem drrSelect_bookings (n : Nat) (e : TuDmaEngine) : Bookings e (drrSelect n e) := by
  induction n generalizing e with
  | zero => exact .refl e
  | succ n ih =>
    have hround := drrRound_bookings (List.range e.cfg.numChannels) e
    unfold drrSelect
    dsimp only
    split
    · exact hround
    · exact (hround.trans (.other (delay_unbooked _ _))).trans (ih _)

theorem exposeHead_unbooked (e : TuDmaEngine) (i : Nat) : Unbooked e (exposeHead e i) := by
  unfold exposeHead
  split
  · exact .setDesc e _ rfl rfl
  · exact .refl e

theorem grantHead_bookings (e : TuDmaEngine) (i d : Nat) : Bookings e (grantHead e i d) := by
  unfold grantHead
  dsimp only
  have hactive := activateHead_unbooked e i d
  have hgranted := hactive.trans (.emit _ (.granted i d (descriptorDrrCost e.cfg (e.heap d))) rfl)
  have hexecuted := (Bookings.other (hgranted.trans (exposeHead_unbooked _ i))).trans (.execute _ d)
  exact hexecuted.trans (.other (cursor_unbooked rfl rfl rfl rfl rfl rfl rfl))

/-- A tick moves the clock and works. -/
theorem tuDmaTick_bookings (e : TuDmaEngine) :
    Bookings { e with currentCycle := u64 (e.currentCycle + 1) } (tuDmaTick e).1 := by
  have hchannels := tickChannels_bookings e
  unfold tuDmaTick
  dsimp only
  split
  · refine hchannels.trans ?_
    unfold arbitrate
    split
    · exact drrSelect_bookings _ _
    · split
      · exact grantHead_bookings _ _ _
      · exact .refl _
  · exact hchannels

theorem tuDmaTick_work (e : TuDmaEngine) : Works { e with currentCycle := u64 (e.currentCycle + 1) } (tuDmaTick e).1 :=
  (tuDmaTick_bookings e).works

/-! ### Submissions -/

theorem enqueue_unbooked (e : TuDmaEngine) (i d : Nat) : Unbooked e (enqueue e i d) := by
  unfold enqueue
  split
  · exact .setChannel e i rfl
  · dsimp only
    split
    · exact (Unbooked.setDesc e _ rfl rfl).trans (.setChannel _ i rfl)
    · exact .setChannel e i rfl

theorem stampSubmitted_unbooked (l : List Nat) (e : TuDmaEngine) : Unbooked e (l.foldl stampSubmitted e) := by
  induction l generalizing e with
  | nil => exact .refl e
  | cons d l ih =>
    rw [List.foldl_cons]
    exact (Unbooked.setDesc e d rfl rfl).trans (ih (stampSubmitted e d))

theorem commitBinding_unexecuted (e : TuDmaEngine) (i d : Nat) : Unexecuted e (commitBinding e i d) := by
  unfold commitBinding
  split
  · exact .refl e
  · refine (Unexecuted.setDesc e d (f := fun desc => { desc with channel := UInt8.ofNat i }) rfl).trans ?_
    exact .of_same rfl rfl rfl rfl

/-- Once it is bound, an accepted chain is stamped, enqueued and counted. -/
theorem acceptChain_unbooked (e : TuDmaEngine) (i d : Nat) : Unbooked (commitBinding e i d) (acceptChain e i d) := by
  unfold acceptChain
  dsimp only
  have hstamped := stampSubmitted_unbooked ((commitBinding e i d).chain (some d)) (commitBinding e i d)
  have hqueued := hstamped.trans (enqueue_unbooked _ i d)
  exact (hqueued.trans (.setChannel _ i rfl)).trans (.emit _ _ rfl)

theorem acceptChain_unexecuted (e : TuDmaEngine) (i d : Nat) : Unexecuted e (acceptChain e i d) :=
  (commitBinding_unexecuted e i d).trans (acceptChain_unbooked e i d).toUnexecuted

theorem executePending_bookings (n : Nat) (e : TuDmaEngine) (i : Nat) : Bookings e (executePending n e i) := by
  induction n generalizing e with
  | zero => exact .refl e
  | succ n ih =>
    unfold executePending
    split
    · exact .refl e
    · rename_i d _
      have hcounted : Unbooked (tuDmaExecuteDesc e d) ((tuDmaExecuteDesc e d).setChannel i fun ch => { ch with
          head := e.next d, queueDepth := ch.queueDepth - 1, totalCompleted := u64 (ch.totalCompleted + 1) }) :=
        .setChannel _ i rfl
      have hlogged := (hcounted.trans (.emit _ (.dequeued i d) rfl)).trans (.emit _ (.retired i d) rfl)
      exact ((Bookings.execute e d).trans (.other hlogged)).trans (ih _)

/-- A submission that passes the gates books what it executes, once its chain is bound. -/
theorem commitSubmission_bookings (e : TuDmaEngine) (i d : Nat) :
    Bookings (commitBinding e i d) (commitSubmission e i d) := by
  have haccept := Bookings.other (acceptChain_unbooked e i d)
  unfold commitSubmission
  dsimp only
  split
  · exact haccept
  · exact (haccept.trans (executePending_bookings _ _ _)).trans (.other (.setChannel _ _ rfl))

/-- A submission is refused, or its chain is accepted and executed at once in synchronous mode. -/
theorem tuDmaSubmitDesc_cases (e : TuDmaEngine) (desc : Option Nat) :
    (tuDmaSubmitDesc e desc).1 = e ∨ ∃ i d, (tuDmaSubmitDesc e desc).1 = commitSubmission e i d := by
  unfold tuDmaSubmitDesc
  split
  · exact Or.inl rfl
  · rename_i d
    dsimp only
    repeat' split
    all_goals first
      | exact Or.inl rfl
      | exact Or.inr ⟨_, d, rfl⟩

theorem tuDmaSubmitDesc_work (e : TuDmaEngine) (desc : Option Nat) : Works e (tuDmaSubmitDesc e desc).1 := by
  rcases tuDmaSubmitDesc_cases e desc with heq | ⟨i, d, heq⟩
  · rw [heq]
    exact .refl e
  · rw [heq]
    exact (Works.other (commitBinding_unexecuted e i d)).trans (commitSubmission_bookings e i d).works

/-- In asynchronous mode a submission executes nothing. -/
theorem tuDmaSubmitDesc_unexecuted {e : TuDmaEngine} (hasync : e.cfg.asyncMode = true) (desc : Option Nat) :
    Unexecuted e (tuDmaSubmitDesc e desc).1 := by
  rcases tuDmaSubmitDesc_cases e desc with heq | ⟨i, d, heq⟩
  · rw [heq]
    exact .refl e
  · rw [heq]
    have haccept := acceptChain_unexecuted e i d
    unfold commitSubmission
    dsimp only
    rwa [if_pos (haccept.cfg ▸ hasync)]

/-! ### Flushes and chains -/

theorem tuDmaFlushChannel_bookings (e : TuDmaEngine) (channel : UInt8) : Bookings e (tuDmaFlushChannel e channel) := by
  unfold tuDmaFlushChannel
  dsimp only
  split
  · exact .refl e
  · have hdrained := (executePending_bookings e.allocated e channel.toNat).trans
      (.other (.setChannel _ channel.toNat (f := fun ch => { ch with tail := none }) rfl))
    split
    · exact hdrained
    · exact (hdrained.trans (.execute _ _)).trans (.other ((Unbooked.setChannel _ _ rfl).trans (.emit _ _ rfl)))

theorem tuDmaFlushChannel_work (e : TuDmaEngine) (channel : UInt8) : Works e (tuDmaFlushChannel e channel) :=
  (tuDmaFlushChannel_bookings e channel).works

theorem newChain_frame (e : TuDmaEngine) (descs : List TuDmaDescriptor) :
    (newChain e descs).1.cfg = e.cfg ∧ (newChain e descs).1.mem = e.mem ∧
      (newChain e descs).1.currentCycle = e.currentCycle := by
  rw [newChain_eq]
  exact ⟨rfl, rfl, rfl⟩

/-! ### What work keeps -/

/-- What every step keeps, work keeps. -/
theorem Works.induction {P : TuDmaEngine → Prop} (hexecute : ∀ e d, P e → P (tuDmaExecuteDesc e d))
    (hother : ∀ e e', Unexecuted e e' → P e → P e') {e e' : TuDmaEngine} (h : Works e e') (he : P e) : P e' := by
  induction h with
  | refl => exact he
  | tail _ hstep ih =>
    cases hstep with
    | execute d => exact hexecute _ d ih
    | other hun => exact hother _ _ hun ih

theorem Works.cfg {e e' : TuDmaEngine} (h : Works e e') : e'.cfg = e.cfg :=
  h.induction (P := fun e' => e'.cfg = e.cfg) (fun e₁ d h₁ => (tuDmaExecuteDesc_cfg e₁ d).trans h₁)
    (fun _ _ hun h₁ => hun.cfg.trans h₁) rfl

theorem accountTransfer_completed (e : TuDmaEngine) (d : Nat) : ((accountTransfer e d).heap d).completed = true := by
  unfold accountTransfer
  dsimp only
  split
  all_goals simp [TuDmaEngine.setDesc, TuDmaEngine.setChannel]

/-- A completed descriptor is not executed again. -/
theorem tuDmaExecuteDesc_of_completed {e : TuDmaEngine} {d : Nat} (h : (e.heap d).completed = true) :
    tuDmaExecuteDesc e d = e := by
  unfold tuDmaExecuteDesc
  dsimp only
  rw [if_pos h]

/-- A completed descriptor stays as it is. -/
theorem Works.completed {e e' : TuDmaEngine} (h : Works e e') {d : Nat} (hd : (e.heap d).completed = true) :
    (e'.heap d).core = (e.heap d).core := by
  refine (h.induction (P := fun e' => (e'.heap d).core = (e.heap d).core) ?_ ?_ rfl)
  · intro e₁ d' h₁
    by_cases hd' : d = d'
    · subst hd'
      have hdone : (e₁.heap d).completed = true := (congrArg TuDmaDescriptor.completed h₁).trans hd
      rwa [tuDmaExecuteDesc_of_completed hdone]
    · rw [tuDmaExecuteDesc_heap_of_ne e₁ hd']
      exact h₁
  · exact fun e₁ e₂ hun h₁ => (hun.core d).trans h₁

/-- A descriptor is executed or stays as it is. -/
theorem Works.core {e e' : TuDmaEngine} (h : Works e e') (d : Nat) :
    (e'.heap d).completed = true ∨ (e'.heap d).core = (e.heap d).core := by
  refine (h.induction (P := fun e' => (e'.heap d).completed = true ∨ (e'.heap d).core = (e.heap d).core) ?_ ?_
    (Or.inr rfl))
  · intro e₁ d' h₁
    by_cases hd' : d = d'
    · subst hd'
      rcases tuDmaExecuteDesc_cases e₁ d with heq | heq | ⟨copies, heq⟩
      · rwa [heq]
      · rw [heq]
        exact h₁
      · rw [heq]
        exact Or.inl (accountTransfer_completed _ d)
    · rw [tuDmaExecuteDesc_heap_of_ne e₁ hd']
      exact h₁
  · intro e₁ e₂ hun h₁
    exact h₁.imp (fun hdone => (congrArg TuDmaDescriptor.completed (hun.core d)).trans hdone) (hun.core d).trans

theorem Works.clock {e e' : TuDmaEngine} (h : Works e e') (he : e.currentCycle ≤ uint64Max) :
    e.currentCycle ≤ e'.currentCycle ∧ e'.currentCycle ≤ uint64Max := by
  refine (h.induction (P := fun e' => e.currentCycle ≤ e'.currentCycle ∧ e'.currentCycle ≤ uint64Max) ?_ ?_
    ⟨Nat.le_refl _, he⟩)
  · intro e₁ d h₁
    rwa [tuDmaExecuteDesc_currentCycle]
  · intro e₁ e₂ hun h₁
    have h₂ := hun.clock h₁.2
    exact ⟨h₁.1.trans h₂.1, h₂.2⟩

end Tusim
