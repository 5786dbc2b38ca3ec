import Tusim.Dma.Engine
import Mathlib.Logic.Relation

/-!
# The queues of the engine

`QueueView` is what submissions, ticks and flushes do to the descriptor queues: the pointers and counters of the
channels, the `next` fields, which descriptors have completed and the log.  `view` forgets the rest of the engine
(timing, credits, cursors, memory).  The operations of the engine act on the view by a few small steps:

* `start` moves the head of an idle channel to its active slot and executes it, `retire` empties the active slot;
* `drain` executes the head and counts it as completed, `clearTail` and `flushActive` end a flush;
* `append` puts a freshly built chain at the end of a queue.

`view_tuDmaTick`, `view_tuDmaFlushChannel` and `view_submitChain` decompose the operations into these steps.  The rest
of the development proves facts about queues for the small steps only.
-/

namespace Tusim

open Word Segment Relation

/-- The part of a channel that manages its queue. -/
structure ChannelView where
  head : Option Nat
  tail : Option Nat
  active : Option Nat
  queueDepth : UInt32
  totalSubmitted : Nat
  totalCompleted : Nat

@[ext] structure QueueView where
  cfg : TuDmaConfig
  channels : Nat → ChannelView
  next : Nat → Option Nat
  allocated : Nat
  completed : Nat → Bool
  /-- the executor completes the descriptor -/
  executes : Nat → Bool
  log : List TuDmaEvent

/-- The executor makes its copies for the descriptor and completes it. -/
def executable (cfg : TuDmaConfig) (sizes : Nat → UInt32) (desc : TuDmaDescriptor) : Bool :=
  descriptorSramSpansValid sizes desc && !(externalBoundary cfg && !desc.externalAddressValid) &&
    (descriptorCopies sizes desc).isSome

def TuDmaChannelState.view (ch : TuDmaChannelState) : ChannelView where
  head := ch.head
  tail := ch.tail
  active := ch.active
  queueDepth := ch.queueDepth
  totalSubmitted := ch.totalSubmitted
  totalCompleted := ch.totalCompleted

def TuDmaEngine.view (e : TuDmaEngine) : QueueView where
  cfg := e.cfg
  channels i := (e.channels i).view
  next := e.next
  allocated := e.allocated
  completed d := (e.heap d).completed
  executes d := executable e.cfg e.mem.sizes (e.heap d)
  log := e.log

namespace QueueView

def setChannel (v : QueueView) (i : Nat) (f : ChannelView → ChannelView) : QueueView :=
  { v with channels := Function.update v.channels i (f (v.channels i)) }

def emit (v : QueueView) (evs : List TuDmaEvent) : QueueView := { v with log := v.log ++ evs }

/-- The descriptors visited by following `next` from `p`. -/
def chain (v : QueueView) (p : Option Nat) : List Nat := walk v.next v.allocated p

/-- The queue of a channel. -/
def queue (v : QueueView) (i : Nat) : List Nat := v.chain (v.channels i).head

/-- The executor. -/
def exec (v : QueueView) (d : Nat) : QueueView :=
  if v.completed d then v
  else
    { v with
      completed := Function.update v.completed d (v.executes d), log := v.log ++ [.executed d (v.executes d)] }

/-- The head `d` of channel `i` becomes active and is executed; `cost` is present when the bus was granted. -/
def start (v : QueueView) (i d : Nat) (cost : Option Nat) : QueueView :=
  ((v.setChannel i fun ch =>
      { ch with active := some d, head := v.next d, queueDepth := ch.queueDepth - 1 }).emit
    (.dequeued i d :: (cost.map (.granted i d)).toList)).exec d

def retire (v : QueueView) (i a : Nat) : QueueView :=
  (v.setChannel i fun ch => { ch with active := none, totalCompleted := u64 (ch.totalCompleted + 1) }).emit
    [.retired i a]

/-- The head `d` of channel `i` is executed and counted at once. -/
def drain (v : QueueView) (i d : Nat) : QueueView :=
  ((v.exec d).setChannel i fun ch =>
      { ch with
        head := v.next d, queueDepth := ch.queueDepth - 1, totalCompleted := u64 (ch.totalCompleted + 1) }).emit
    [.dequeued i d, .retired i d]

def drainAll (v : QueueView) (i : Nat) (q : List Nat) : QueueView := q.foldl (fun v d => v.drain i d) v

def clearTail (v : QueueView) (i : Nat) : QueueView := v.setChannel i fun ch => { ch with tail := none }

def flushActive (v : QueueView) (i a : Nat) : QueueView :=
  ((v.exec a).setChannel i fun ch =>
      { ch with active := none, totalCompleted := u64 (ch.totalCompleted + 1) }).emit [.retired i a]

/-- `n` fresh descriptors, each linked to the one after it. -/
def build (v : QueueView) (n : Nat) (executes : Nat → Bool) : QueueView :=
  { v with
    next := fun d =>
      if v.allocated ≤ d ∧ d < v.allocated + n then
        if d + 1 < v.allocated + n then some (d + 1) else none
      else v.next d
    allocated := v.allocated + n
    completed := fun d => if v.allocated ≤ d ∧ d < v.allocated + n then false else v.completed d
    executes := fun d => if v.allocated ≤ d ∧ d < v.allocated + n then executes d else v.executes d }

/-- The chain at `d` is linked behind the tail of channel `i`, or becomes its queue. -/
def link (v : QueueView) (i d : Nat) : QueueView :=
  match (v.channels i).head, (v.channels i).tail with
  | none, _ => v.setChannel i fun ch => { ch with head := some d, tail := some d }
  | some _, none => v.setChannel i fun ch => { ch with tail := some d }
  | some _, some t =>
    ({ v with next := Function.update v.next t (some d) }).setChannel i fun ch => { ch with tail := some d }

/-- The chain `c` with first descriptor `d` goes to the queue of channel `i` and is counted. -/
def append (v : QueueView) (i d : Nat) (c : List Nat) : QueueView :=
  ((v.link i d).setChannel i fun ch =>
    { ch with queueDepth := ch.queueDepth + 1, totalSubmitted := u64 (ch.totalSubmitted + 1) }).emit [.accepted i c]

section

variable (v : QueueView)

@[simp] theorem exec_cfg (d : Nat) : (v.exec d).cfg = v.cfg := by unfold exec; split <;> rfl

@[simp] theorem exec_channels (d : Nat) : (v.exec d).channels = v.channels := by unfold exec; split <;> rfl

@[simp] theorem exec_next (d : Nat) : (v.exec d).next = v.next := by unfold exec; split <;> rfl

@[simp] theorem exec_allocated (d : Nat) : (v.exec d).allocated = v.allocated := by unfold exec; split <;> rfl

@[simp] theorem exec_executes (d : Nat) : (v.exec d).executes = v.executes := by unfold exec; split <;> rfl

@[simp] theorem start_cfg (i d : Nat) (cost : Option Nat) : (v.start i d cost).cfg = v.cfg := exec_cfg _ d

@[simp] theorem start_next (i d : Nat) (cost : Option Nat) : (v.start i d cost).next = v.next := exec_next _ d

@[simp] theorem start_allocated (i d : Nat) (cost : Option Nat) : (v.start i d cost).allocated = v.allocated :=
  exec_allocated _ d

@[simp] theorem start_executes (i d : Nat) (cost : Option Nat) : (v.start i d cost).executes = v.executes :=
  exec_executes _ d

@[simp] theorem drain_cfg (i d : Nat) : (v.drain i d).cfg = v.cfg := exec_cfg v d

@[simp] theorem drain_next (i d : Nat) : (v.drain i d).next = v.next := exec_next v d

@[simp] theorem drain_allocated (i d : Nat) : (v.drain i d).allocated = v.allocated := exec_allocated v d

@[simp] theorem drain_executes (i d : Nat) : (v.drain i d).executes = v.executes := exec_executes v d

end

/-- What a tick does to the queues. -/
inductive TickStep : QueueView → QueueView → Prop where
  | start {v : QueueView} {i d : Nat} (cost : Option Nat) (hi : i < v.cfg.numChannels)
      (hh : (v.channels i).head = some d) (ha : (v.channels i).active = none) : TickStep v (v.start i d cost)
  | retire {v : QueueView} {i a : Nat} (hi : i < v.cfg.numChannels) (ha : (v.channels i).active = some a) :
      TickStep v (v.retire i a)

end QueueView

/-! ### Projections of the view -/

section

variable (e : TuDmaEngine)

@[simp] theorem view_cfg : e.view.cfg = e.cfg := rfl

@[simp] theorem view_head (i : Nat) : (e.view.channels i).head = (e.channels i).head := rfl

@[simp] theorem view_tail (i : Nat) : (e.view.channels i).tail = (e.channels i).tail := rfl

@[simp] theorem view_active (i : Nat) : (e.view.channels i).active = (e.channels i).active := rfl

@[simp] theorem view_queueDepth (i : Nat) : (e.view.channels i).queueDepth = (e.channels i).queueDepth := rfl

@[simp] theorem view_next : e.view.next = e.next := rfl

@[simp] theorem view_allocated : e.view.allocated = e.allocated := rfl

@[simp] theorem view_log : e.view.log = e.log := rfl

@[simp] theorem view_queue (i : Nat) : e.view.queue i = e.queue i := rfl

@[simp] theorem view_chain (p : Option Nat) : e.view.chain p = e.chain p := rfl

end

/-! ### Frames -/

private theorem proj_update {α β : Type} (π : α → β) (h : Nat → α) (d : Nat) (a : α) :
    (fun x => π (Function.update h d a x)) = Function.update (fun x => π (h x)) d (π a) :=
  funext fun x => Function.apply_update (fun _ => π) h d a x

/-- A channel update is one of the view. -/
theorem view_setChannel (e : TuDmaEngine) (i : Nat) {f : TuDmaChannelState → TuDmaChannelState}
    {g : ChannelView → ChannelView} (h : (f (e.channels i)).view = g (e.channels i).view) :
    (e.setChannel i f).view = e.view.setChannel i g := by
  refine QueueView.ext rfl ?_ rfl rfl rfl rfl rfl
  refine (proj_update TuDmaChannelState.view e.channels i _).trans ?_
  rw [h]
  rfl

theorem view_setChannel_frame (e : TuDmaEngine) (i : Nat) {f : TuDmaChannelState → TuDmaChannelState}
    (h : (f (e.channels i)).view = (e.channels i).view) : (e.setChannel i f).view = e.view := by
  refine QueueView.ext rfl ?_ rfl rfl rfl rfl rfl
  refine (proj_update TuDmaChannelState.view e.channels i _).trans ?_
  rw [h]
  exact Function.update_eq_self i _

/-- Writing a descriptor changes its link and its completion flag, as long as the executor treats it as before. -/
theorem view_setDesc (e : TuDmaEngine) (d : Nat) {f : TuDmaDescriptor → TuDmaDescriptor}
    (hx : executable e.cfg e.mem.sizes (f (e.heap d)) = executable e.cfg e.mem.sizes (e.heap d)) :
    (e.setDesc d f).view =
      { e.view with
        next := Function.update e.next d (f (e.heap d)).next,
        completed := Function.update e.view.completed d (f (e.heap d)).completed } := by
  refine QueueView.ext rfl rfl ?_ rfl ?_ ?_ rfl
  · exact proj_update TuDmaDescriptor.next e.heap d _
  · exact proj_update TuDmaDescriptor.completed e.heap d _
  · refine (proj_update (executable e.cfg e.mem.sizes) e.heap d _).trans ?_
    rw [hx]
    exact Function.update_eq_self d _

theorem view_setDesc_frame (e : TuDmaEngine) (d : Nat) {f : TuDmaDescriptor → TuDmaDescriptor}
    (hn : (f (e.heap d)).next = (e.heap d).next) (hc : (f (e.heap d)).completed = (e.heap d).completed)
    (hx : executable e.cfg e.mem.sizes (f (e.heap d)) = executable e.cfg e.mem.sizes (e.heap d)) :
    (e.setDesc d f).view = e.view := by
  rw [view_setDesc e d hx, hn, hc]
  have hnext : Function.update e.next d (e.heap d).next = e.next := Function.update_eq_self d _
  have hcompleted : Function.update e.view.completed d (e.heap d).completed = e.view.completed :=
    Function.update_eq_self d _
  rw [hnext, hcompleted]
  rfl

/-- Only the sizes of the regions are part of the view. -/
theorem view_setMem (e : TuDmaEngine) {mem : Memory} (h : mem.sizes = e.mem.sizes) :
    ({ e with mem := mem } : TuDmaEngine).view = e.view := by
  refine QueueView.ext rfl rfl rfl rfl rfl ?_ rfl
  show (fun d => executable e.cfg mem.sizes (e.heap d)) = _
  rw [h]
  rfl

private theorem meterWord_fold_totalSize (isWrite : Bool) (base : UInt32) (words : List Nat)
    (s : TuSramRegion × Nat) : (words.foldl (meterWord isWrite base) s).1.totalSize = s.1.totalSize := by
  induction words generalizing s with
  | nil => rfl
  | cons w words ih =>
    rw [List.foldl_cons, ih]
    unfold meterWord
    dsimp only
    split <;> rfl

theorem sramStallCycles_sizes (mem : Memory) (desc : TuDmaDescriptor) (n : Nat) :
    (sramStallCycles mem desc n).1.sizes = mem.sizes := by
  unfold sramStallCycles
  split
  · rfl
  · rename_i r isWrite base hr
    split
    · funext r'
      unfold Memory.sizes
      dsimp only
      by_cases h : r' = r
      · rw [h, Function.update_self, meterWord_fold_totalSize, tuSramAdvanceCycle_totalSize]
      · rw [Function.update_of_ne h]
    · rfl

/-- Accounting completes the descriptor and changes nothing else of the view. -/
private theorem view_accountTransfer (e : TuDmaEngine) (d : Nat) :
    (accountTransfer e d).view = { e.view with completed := Function.update e.view.completed d true } := by
  have hmem := view_setMem e (sramStallCycles_sizes e.mem (e.heap d) (descriptorTransferCycles e.cfg (e.heap d)))
  have hdesc : ∀ n, (({ e with mem := (sramStallCycles e.mem (e.heap d)
      (descriptorTransferCycles e.cfg (e.heap d))).1 } : TuDmaEngine).setDesc d fun desc =>
        { desc with completed := true, cyclesCompleted := n }).view =
      { e.view with completed := Function.update e.view.completed d true } := by
    intro n
    rw [view_setDesc _ d rfl, hmem]
    refine QueueView.ext rfl rfl ?_ rfl rfl rfl rfl
    exact Function.update_eq_self d e.next
  unfold accountTransfer
  dsimp only
  split
  · rw [view_setChannel_frame _ _ rfl]
    exact hdesc _
  · exact hdesc _

/-- The executor acts on the view as `QueueView.exec`. -/
@[simp] theorem view_tuDmaExecuteDesc (e : TuDmaEngine) (d : Nat) :
    (tuDmaExecuteDesc e d).view = e.view.exec d := by
  unfold tuDmaExecuteDesc QueueView.exec
  dsimp only
  by_cases hc : (e.heap d).completed = true
  · rw [if_pos hc, if_pos (show e.view.completed d = true from hc)]
  rw [if_neg hc, if_neg (show ¬ e.view.completed d = true from hc)]
  -- the three ways out that leave the descriptor incomplete
  have hbail : e.view.executes d = false → (e.emit (.executed d false)).view =
      { e.view with
        completed := Function.update e.view.completed d (e.view.executes d),
        log := e.view.log ++ [TuDmaEvent.executed d (e.view.executes d)] } := by
    intro hx
    rw [hx]
    refine QueueView.ext rfl rfl rfl rfl ?_ rfl rfl
    have hcf : e.view.completed d = false := Bool.eq_false_of_not_eq_true hc
    rw [← hcf]
    exact (Function.update_eq_self d _).symm
  by_cases hv : (!descriptorSramSpansValid e.mem.sizes (e.heap d)) = true
  · rw [if_pos hv]
    refine hbail ?_
    show executable e.cfg e.mem.sizes (e.heap d) = false
    unfold executable
    simp_all
  rw [if_neg hv]
  by_cases hb : (externalBoundary e.cfg && !(e.heap d).externalAddressValid) = true
  · rw [if_pos hb]
    refine hbail ?_
    show executable e.cfg e.mem.sizes (e.heap d) = false
    unfold executable
    rw [hb]
    simp
  rw [if_neg hb]
  cases hcp : descriptorCopies e.mem.sizes (e.heap d) with
  | none =>
    refine hbail ?_
    show executable e.cfg e.mem.sizes (e.heap d) = false
    unfold executable
    simp [hcp]
  | some copies =>
    have hx : e.view.executes d = true := by
      show executable e.cfg e.mem.sizes (e.heap d) = true
      unfold executable
      rw [Bool.not_eq_true] at hv hb
      rw [hb, hcp]
      simpa using hv
    have hacc := view_accountTransfer { e with mem := e.mem.copyAll copies } d
    rw [view_setMem e (Memory.copyAll_sizes _ _)] at hacc
    refine (congrArg (fun v => QueueView.emit v [.executed d true]) hacc).trans ?_
    rw [hx]
    rfl

/-! ### Ticks -/

open QueueView (TickStep)

/-- The head of a channel becomes active. -/
private theorem view_activateHead (e : TuDmaEngine) (i d : Nat) :
    (activateHead e i d).view = (e.view.setChannel i fun ch =>
      { ch with active := some d, head := e.next d, queueDepth := ch.queueDepth - 1 }).emit [.dequeued i d] := by
  refine (congrArg (fun v => QueueView.emit v [.dequeued i d]) (view_setChannel e i ?_))
  rfl

private theorem emit_emit (v : QueueView) (l m : List TuDmaEvent) : (v.emit l).emit m = v.emit (l ++ m) := by
  unfold QueueView.emit
  simp

theorem tickSteps_cfg {v w : QueueView} (h : ReflTransGen TickStep v w) : w.cfg = v.cfg := by
  induction h with
  | refl => rfl
  | tail _ hstep ih =>
    rw [← ih]
    cases hstep with
    | start => exact QueueView.start_cfg _ _ _ _
    | retire => rfl

theorem view_retireActive (s : TuDmaEngine × Nat) {i : Nat} (hi : i < s.1.cfg.numChannels) :
    ReflTransGen TickStep s.1.view (retireActive s i).1.view := by
  unfold retireActive
  cases ha : (s.1.channels i).active with
  | none => exact .refl
  | some a =>
    dsimp only
    split
    · refine .single ?_
      have h : s.1.view.retire i a = ((s.1.setChannel i fun ch =>
          { ch with active := none, totalCompleted := u64 (ch.totalCompleted + 1) }).emit (.retired i a)).view :=
        congrArg (fun v => QueueView.emit v [.retired i a]) (view_setChannel s.1 i rfl).symm
      rw [← h]
      exact .retire hi ha
    · exact .refl

theorem view_startIndependent (e : TuDmaEngine) {i : Nat} (hi : i < e.cfg.numChannels) :
    ReflTransGen TickStep e.view (startIndependent e i).view := by
  unfold startIndependent
  split
  · rename_i h
    cases hh : (e.channels i).head with
    | none => exact .refl
    | some d =>
      refine .single ?_
      show TickStep _ (tuDmaExecuteDesc (activateHead e i d) d).view
      rw [view_tuDmaExecuteDesc, view_activateHead]
      exact TickStep.start none hi hh h.2
  · exact .refl

/-- A grant of the shared bus: the head of channel `i` becomes active, the grant is logged and the head is
executed. -/
private theorem view_grant {e e₁ e₂ : TuDmaEngine} {i d cost : Nat} (h₁ : e₁.view = e.view)
    (h₂ : e₂.view = ((activateHead e₁ i d).emit (.granted i d cost)).view) :
    (tuDmaExecuteDesc e₂ d).view = e.view.start i d (some cost) := by
  have hv : ((activateHead e₁ i d).emit (.granted i d cost)).view =
      (activateHead e₁ i d).view.emit [.granted i d cost] := rfl
  have hn : e₁.next = e.view.next := congrArg QueueView.next h₁
  rw [view_tuDmaExecuteDesc, h₂, hv, view_activateHead, emit_emit, h₁, hn]
  rfl

private theorem view_drrDebit (e : TuDmaEngine) (i cost probe : Nat) : (drrDebit e i cost probe).view = e.view := by
  have h : (drrDebit e i cost probe).view =
      (e.setChannel i fun ch => { ch with drrDeficitCredits := ch.drrDeficitCredits - cost }).view := rfl
  rw [h]
  exact view_setChannel_frame e i rfl

theorem view_drrResetIdle (e : TuDmaEngine) (i : Nat) : (drrResetIdle e i).view = e.view := by
  unfold drrResetIdle
  split
  · exact view_setChannel_frame e i rfl
  · rfl

theorem view_drrEndVisit (e : TuDmaEngine) (i : Nat) : (drrEndVisit e i).view = e.view := by
  unfold drrEndVisit
  split <;> rfl

theorem view_drrVisit (e : TuDmaEngine) (i : Nat) : (drrVisit e i).view = e.view := by
  have h : (drrVisit e i).view =
      (e.setChannel i fun ch => { ch with drrDeficitCredits := drrVisitCredits e i }).view := rfl
  rw [h]
  exact view_setChannel_frame e i rfl

private theorem view_drrAdvance (e : TuDmaEngine) (i : Nat) : (drrAdvance e i).view = e.view := by
  unfold drrAdvance
  dsimp only
  split <;> rfl

theorem view_drrGrant (e : TuDmaEngine) (i d probe : Nat) :
    (drrGrant e i d probe).view = e.view.start i d (some (descriptorDrrCost e.cfg (e.heap d))) := by
  unfold drrGrant
  dsimp only
  rw [view_drrAdvance]
  exact view_grant (view_drrDebit e i _ probe) (view_drrResetIdle _ i)

/-- A probe leaves the view as it is unless it grants the head it found. -/
theorem view_drrProbe (e : TuDmaEngine) (probe : Nat) :
    ((drrProbe e probe).1.view = e.view ∧ (drrProbe e probe).2 ≠ .granted) ∨
      ((drrProbe e probe).2 = .granted ∧ ∃ i d cost, i < e.cfg.numChannels ∧ (e.channels i).head = some d ∧
        (drrProbe e probe).1.view = e.view.start i d (some cost)) := by
  unfold drrProbe
  dsimp only
  generalize hi : (e.nextSharedChannel + probe) % e.cfg.numChannels = i
  have hlt : i < e.cfg.numChannels := hi ▸ Nat.mod_lt _ e.cfg.numChannels_pos
  cases hh : (e.channels i).head with
  | none =>
    refine .inl ⟨?_, by simp⟩
    exact (view_drrEndVisit _ i).trans (view_drrResetIdle e i)
  | some d =>
    dsimp only
    split
    · exact .inl ⟨view_drrVisit e i, by simp⟩
    · refine .inr ⟨rfl, i, d, descriptorDrrCost e.cfg (e.heap d), hlt, hh, ?_⟩
      rw [← view_drrVisit e i]
      exact view_drrGrant _ i d probe

/-- A round leaves the view as it is or grants one head. -/
private theorem view_drrRound (probes : List Nat) (e : TuDmaEngine) :
    ((drrRound probes e).1.view = e.view ∧ (drrRound probes e).2.2 = false) ∨
      ((drrRound probes e).2.2 = true ∧ ∃ i d cost, i < e.cfg.numChannels ∧ (e.channels i).head = some d ∧
        (drrRound probes e).1.view = e.view.start i d (some cost)) := by
  induction probes generalizing e with
  | nil => exact .inl ⟨rfl, rfl⟩
  | cons probe probes ih =>
    have hprobe := view_drrProbe e probe
    unfold drrRound
    rcases hp : drrProbe e probe with ⟨e', r⟩
    rw [hp] at hprobe
    -- the later probes see the same queues
    have hlater : e'.view = e.view →
        ((drrRound probes e').1.view = e.view ∧ (drrRound probes e').2.2 = false) ∨
          ((drrRound probes e').2.2 = true ∧ ∃ i d cost, i < e.cfg.numChannels ∧ (e.channels i).head = some d ∧
            (drrRound probes e').1.view = e.view.start i d (some cost)) := by
      intro hv
      have hcfg : e'.cfg = e.cfg := congrArg QueueView.cfg hv
      have hhead : ∀ i, (e'.channels i).head = (e.channels i).head := fun i =>
        congrArg (fun v => (v.channels i).head) hv
      have := ih e'
      rw [hv, hcfg] at this
      simpa only [hhead] using this
    cases r with
    | granted =>
      rcases hprobe with ⟨-, h⟩ | ⟨-, h⟩
      · exact absurd rfl h
      · exact .inr ⟨rfl, h⟩
    | idle =>
      rcases hprobe with ⟨hv, -⟩ | ⟨h, -⟩
      · exact hlater hv
      · cases h
    | short =>
      rcases hprobe with ⟨hv, -⟩ | ⟨h, -⟩
      · exact hlater hv
      · cases h

private theorem view_drrSelect (n : Nat) (e : TuDmaEngine)
    (hidle : ∀ i < e.cfg.numChannels, (e.channels i).active = none) :
    ReflTransGen TickStep e.view (drrSelect n e).view := by
  induction n generalizing e with
  | zero => exact .refl
  | succ n ih =>
    unfold drrSelect
    dsimp only
    rcases view_drrRound (List.range e.cfg.numChannels) e with ⟨hv, -⟩ | ⟨hg, i, d, cost, hi, hh, hv⟩
    · split
      · rw [hv]
      · have hdelay : (drrChargeRoundDelay (drrRound (List.range e.cfg.numChannels) e).1
            (drrRound (List.range e.cfg.numChannels) e).1.cfg.drrRoundIssueCycles).view = e.view := hv
        rw [← hdelay]
        refine ih _ fun i hi => ?_
        have hcfg := congrArg QueueView.cfg hdelay
        have hact := congrArg (fun v => (v.channels i).active) hdelay
        rw [show TuDmaEngine.cfg _ = e.cfg from hcfg] at hi
        exact hact.trans (hidle i hi)
    · rw [hg, Bool.true_or, if_pos rfl, hv]
      exact .single (.start _ hi hh (hidle i hi))

/-- The head found for a grant is the head of one of the channels. -/
theorem selectHead_some {e : TuDmaEngine} {best i d : Nat} (h : selectHead e best = some (i, d)) :
    i < e.cfg.numChannels ∧ (e.channels i).head = some d := by
  unfold selectHead at h
  obtain ⟨probe, -, h⟩ := List.exists_of_findSome?_eq_some h
  dsimp only at h
  cases hh : (e.channels ((e.nextSharedChannel + probe) % e.cfg.numChannels)).head with
  | none => simp [hh] at h
  | some d' =>
    simp only [hh] at h
    split at h
    · cases h
    · cases h
      exact ⟨Nat.mod_lt _ e.cfg.numChannels_pos, hh⟩

private theorem view_exposeHead (e : TuDmaEngine) (i : Nat) : (exposeHead e i).view = e.view := by
  unfold exposeHead
  split
  · exact view_setDesc_frame e _ rfl rfl rfl
  · rfl

theorem view_grantHead (e : TuDmaEngine) (i d : Nat) :
    (grantHead e i d).view = e.view.start i d (some (descriptorDrrCost e.cfg (e.heap d))) := by
  unfold grantHead
  exact view_grant rfl (view_exposeHead _ i)

theorem view_arbitrate (e : TuDmaEngine) (hidle : ∀ i < e.cfg.numChannels, (e.channels i).active = none) :
    ReflTransGen TickStep e.view (arbitrate e).view := by
  unfold arbitrate
  split
  · exact view_drrSelect drrRounds e hidle
  · cases h : selectHead e (bestPriority e) with
    | none => exact .refl
    | some p =>
      obtain ⟨i, d⟩ := p
      obtain ⟨hi, hh⟩ := selectHead_some h
      refine .single ?_
      show TickStep _ (grantHead e i d).view
      rw [view_grantHead]
      exact .start _ hi hh (hidle i hi)

theorem view_tickChannels (e : TuDmaEngine) : ReflTransGen TickStep e.view (tickChannels e).1.view := by
  have hloop : ∀ (l : List Nat) (s : TuDmaEngine × Nat), (∀ i ∈ l, i < s.1.cfg.numChannels) →
      ReflTransGen TickStep s.1.view (l.foldl tickChannel s).1.view := by
    intro l
    induction l with
    | nil => intro s _; exact .refl
    | cons i l ih =>
      intro s hl
      rw [List.foldl_cons]
      have hi : i < s.1.cfg.numChannels := hl i (by simp)
      have h₁ := view_retireActive s hi
      have hcfg₁ : (retireActive s i).1.cfg = s.1.cfg := tickSteps_cfg h₁
      have h₂ := view_startIndependent (retireActive s i).1 (by rw [hcfg₁]; exact hi)
      have hcfg₂ : (tickChannel s i).1.cfg = s.1.cfg := (tickSteps_cfg h₂).trans hcfg₁
      refine (h₁.trans h₂).trans (ih (tickChannel s i) fun j hj => ?_)
      rw [hcfg₂]
      exact hl j (by simp [hj])
  exact hloop (List.range e.cfg.numChannels) ({ e with currentCycle := u64 (e.currentCycle + 1) }, 0)
    fun i hi => List.mem_range.1 hi

theorem view_tuDmaTick (e : TuDmaEngine) : ReflTransGen TickStep e.view (tuDmaTick e).1.view := by
  have hloop := view_tickChannels e
  unfold tuDmaTick
  dsimp only
  split
  · rename_i hbus
    refine hloop.trans (view_arbitrate _ fun i hi => ?_)
    have hfree : busBusy (tickChannels e).1 = false := by simpa using hbus.2
    unfold busBusy at hfree
    rw [List.any_eq_false] at hfree
    simpa using hfree i (List.mem_range.2 hi)
  · exact hloop

/-! ### Draining a queue -/

/-- The loop that executes a whole queue. -/
theorem view_executePending {q : List Nat} {n i : Nat} {e : TuDmaEngine} (hq : IsSeg e.next (e.channels i).head q)
    (hn : q.length ≤ n) : (executePending n e i).view = e.view.drainAll i q := by
  induction q generalizing n e with
  | nil =>
    cases n with
    | zero => rfl
    | succ n =>
      have hh : (e.channels i).head = none := hq
      unfold executePending
      rw [hh]
      rfl
  | cons d q ih =>
    obtain ⟨hh, hq⟩ := hq
    obtain ⟨n, rfl⟩ : ∃ m, n = m + 1 := ⟨n - 1, by simp at hn; omega⟩
    unfold executePending
    rw [hh]
    dsimp only
    generalize he' : ((((tuDmaExecuteDesc e d).setChannel i fun ch => { ch with
      head := e.next d, queueDepth := ch.queueDepth - 1,
      totalCompleted := u64 (ch.totalCompleted + 1) }).emit (.dequeued i d)).emit (.retired i d)) = e'
    have hv : e'.view = e.view.drain i d := by
      have hset := view_setChannel (tuDmaExecuteDesc e d) i (f := fun ch =>
          { ch with head := e.next d, queueDepth := ch.queueDepth - 1, totalCompleted := u64 (ch.totalCompleted + 1) })
        (g := fun ch =>
          { ch with head := e.next d, queueDepth := ch.queueDepth - 1, totalCompleted := u64 (ch.totalCompleted + 1) })
        rfl
      rw [view_tuDmaExecuteDesc] at hset
      rw [← he']
      refine (congrArg (fun v => QueueView.emit (QueueView.emit v [.dequeued i d]) [.retired i d]) hset).trans ?_
      rw [emit_emit]
      rfl
    have hnext : e'.next = e.next := by
      have := congrArg QueueView.next hv
      rwa [QueueView.drain_next] at this
    have hhead : (e'.channels i).head = e.next d := by
      have := congrArg (fun v => (v.channels i).head) hv
      refine this.trans ?_
      unfold QueueView.drain QueueView.setChannel QueueView.emit
      simp
    rw [ih (by rw [hnext, hhead]; exact hq) (by simpa using hn), hv]
    rfl

/-- A flush of channel `i` whose queue is `q`. -/
def QueueView.flush (v : QueueView) (i : Nat) (q : List Nat) : QueueView :=
  match (v.channels i).active with
  | none => (v.drainAll i q).clearTail i
  | some a => ((v.drainAll i q).clearTail i).flushActive i a

@[simp] theorem QueueView.drainAll_nil (v : QueueView) (i : Nat) : v.drainAll i [] = v := rfl

@[simp] theorem QueueView.drainAll_cons (v : QueueView) (i d : Nat) (q : List Nat) :
    v.drainAll i (d :: q) = (v.drain i d).drainAll i q := rfl

theorem QueueView.drainAll_active (v : QueueView) (i : Nat) (q : List Nat) :
    ((v.drainAll i q).channels i).active = (v.channels i).active := by
  induction q generalizing v with
  | nil => rfl
  | cons d q ih =>
    rw [QueueView.drainAll_cons, ih]
    unfold QueueView.drain QueueView.setChannel QueueView.emit
    simp

theorem view_tuDmaFlushChannel {e : TuDmaEngine} {channel : UInt8} {q : List Nat}
    (hi : channel.toNat < e.cfg.numChannels) (hq : IsSeg e.next (e.channels channel.toNat).head q)
    (hn : q.length ≤ e.allocated) : (tuDmaFlushChannel e channel).view = e.view.flush channel.toNat q := by
  unfold tuDmaFlushChannel QueueView.flush
  dsimp only
  rw [if_neg (by omega)]
  generalize channel.toNat = i at *
  generalize he' : ((executePending e.allocated e i).setChannel i fun ch => { ch with tail := none }) = e'
  have hv : e'.view = (e.view.drainAll i q).clearTail i := by
    rw [← he', ← view_executePending hq hn]
    exact view_setChannel _ i rfl
  have hactive : (e'.channels i).active = (e.channels i).active := by
    have h := congrArg (fun v => (v.channels i).active) hv
    refine h.trans ?_
    rw [← view_active e i, ← QueueView.drainAll_active e.view i q]
    unfold QueueView.clearTail QueueView.setChannel
    simp
  rw [hactive, view_active]
  cases ha : (e.channels i).active with
  | none => exact hv
  | some a =>
    have hset := view_setChannel (tuDmaExecuteDesc e' a) i
      (f := fun ch => { ch with active := none, totalCompleted := u64 (ch.totalCompleted + 1) })
      (g := fun ch => { ch with active := none, totalCompleted := u64 (ch.totalCompleted + 1) }) rfl
    rw [view_tuDmaExecuteDesc, hv] at hset
    exact congrArg (fun v => QueueView.emit v [.retired i a]) hset

end Tusim
