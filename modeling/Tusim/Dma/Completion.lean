import Tusim.Dma.Queue

/-!
# Completion of admitted descriptors

The executor returns without completing a descriptor whose host pointer is `NULL`; admission does not look at host
pointers, and the callers of the executor count the descriptor as completed all the same.  In a run whose accepted
chains have the host pointers their directions need, every descriptor that leaves its queue has been moved and
completed, and `totalCompleted` counts no other (`run_honoured`).
-/

namespace Tusim

open Word Segment

/-- The host pointer the direction needs is not `NULL`. -/
def hostPointerPresent (desc : TuDmaDescriptor) : Bool :=
  match desc.direction with
  | .hostToTu => desc.srcHost.isSome
  | .tuToHost => desc.dstHost.isSome
  | _ => true

/-- An admitted descriptor with its host pointer has copies to make. -/
theorem descriptorCopies_isSome {sizes : Nat → UInt32} {desc : TuDmaDescriptor}
    (hv : descriptorSramSpansValid sizes desc = true) (hp : hostPointerPresent desc = true) :
    (descriptorCopies sizes desc).isSome = true := by
  obtain ⟨hn, ht⟩ := Bool.and_eq_true_iff.1 hv
  unfold descriptorCopies
  by_cases hm : desc.type = .multicast
  · rw [if_pos hm]
    rfl
  rw [if_neg hm]
  unfold directionRegionsNamed at hn
  rw [if_neg hm] at hn
  have hptr : ∃ src dst, srcPtr desc = some src ∧ dstPtr desc = some dst := by
    unfold hostPointerPresent at hp
    unfold srcPtr dstPtr
    cases hd : desc.direction <;> simp only [hd] at hn hp ⊢
    · obtain ⟨r, hr⟩ := Option.isSome_iff_exists.1 hn
      obtain ⟨x, hx⟩ := Option.isSome_iff_exists.1 hp
      simp [hr, hx]
    · obtain ⟨r, hr⟩ := Option.isSome_iff_exists.1 hn
      obtain ⟨x, hx⟩ := Option.isSome_iff_exists.1 hp
      simp [hr, hx]
    · rw [Bool.and_eq_true] at hn
      obtain ⟨r, hr⟩ := Option.isSome_iff_exists.1 hn.1
      obtain ⟨r', hr'⟩ := Option.isSome_iff_exists.1 hn.2
      simp [hr, hr']
    · cases hn
  obtain ⟨src, dst, hs, hd⟩ := hptr
  rw [hs, hd]
  unfold typeSpansFit at ht
  cases htype : desc.type with
  | multicast => exact absurd htype hm
  | other => simp [htype] at ht
  | linear | strided2d | strided3d | scatter | gather => rfl

/-! ### The invariant -/

/-- A descriptor that has left its queue or was counted is completed. -/
def TuDmaEvent.Finished (completed : Nat → Bool) : TuDmaEvent → Prop
  | .dequeued _ d | .retired _ d => completed d = true
  | .accepted .. | .executed .. | .granted .. => True

namespace QueueView

/-- Descriptor `d` belongs to an accepted chain. -/
def Accepted (v : QueueView) (d : Nat) : Prop := ∃ i, d ∈ acceptedOn v.log i

/-- The active descriptor of the channel is completed, and the channel counts the retired ones. -/
structure ChannelServed (v : QueueView) (i : Nat) : Prop where
  active : ∀ a, (v.channels i).active = some a → v.completed a = true
  count : (v.channels i).totalCompleted = u64 (retiredOn v.log i).length

/-- The executor completes accepted descriptors, and what left a queue is completed. -/
structure Served (v : QueueView) : Prop where
  channel : ∀ i, v.ChannelServed i
  executes : ∀ d, v.Accepted d → v.executes d = true
  completed_lt : ∀ d, v.completed d = true → d < v.allocated
  moved : ∀ d, v.completed d = true → .executed d true ∈ v.log
  finished : ∀ ev ∈ v.log, ev.Finished v.completed

section

variable {v w : QueueView}

private theorem completed_mono (d : Nat) {x : Nat} (h : v.completed x = true) : (v.exec d).completed x = true :=
  (v.exec_completed d x).2 (.inl h)

private theorem finished_mono {completed completed' : Nat → Bool} {ev : TuDmaEvent}
    (h : ∀ d, completed d = true → completed' d = true) (hev : ev.Finished completed) : ev.Finished completed' := by
  cases ev with
  | dequeued i d => exact h d hev
  | retired i d => exact h d hev
  | accepted | executed | granted => trivial

private theorem finished_execEvents (d : Nat) (completed : Nat → Bool) :
    ∀ ev ∈ v.execEvents d, ev.Finished completed := by
  unfold execEvents
  split
  · simp
  · simp [TuDmaEvent.Finished]

private theorem finished_grantEvents (i d : Nat) (cost : Option Nat) (completed : Nat → Bool) :
    ∀ ev ∈ grantEvents i d cost, ev.Finished completed := by
  cases cost <;> simp [grantEvents, TuDmaEvent.Finished]

/-- What is completed after the executor ran has been moved. -/
private theorem Served.moved_exec (h : v.Served) {d x : Nat} (hx : (v.exec d).completed x = true) :
    .executed x true ∈ v.log ∨ .executed x true ∈ v.execEvents d := by
  rcases (v.exec_completed d x).1 hx with hc | ⟨rfl, he⟩
  · exact .inl (h.moved x hc)
  · by_cases hc : v.completed x = true
    · exact .inl (h.moved x hc)
    · refine .inr ?_
      unfold execEvents
      rw [if_neg hc, he]
      exact List.mem_singleton_self _

private theorem count_succ {n : Nat} {l : List Nat} (h : n = u64 l.length) (d : Nat) :
    u64 (n + 1) = u64 (l ++ [d]).length := by
  rw [h, u64_u64_add, List.length_append, List.length_singleton]

private theorem Served.exec_lt (h : v.Served) {d x : Nat} (hd : d < v.allocated)
    (hx : (v.exec d).completed x = true) : x < v.allocated := by
  rcases (v.exec_completed d x).1 hx with hc | ⟨rfl, -⟩
  · exact h.completed_lt x hc
  · exact hd

/-- A channel the step does not touch. -/
private theorem ChannelServed.congr {i : Nat} (h : v.ChannelServed i) (hch : w.channels i = v.channels i)
    (hc : ∀ d, v.completed d = true → w.completed d = true) (hr : retiredOn w.log i = retiredOn v.log i) :
    w.ChannelServed i := by
  refine ⟨fun a ha => hc a ?_, ?_⟩
  · exact h.active a (hch ▸ ha)
  · rw [hch, hr]
    exact h.count

/-- A step that accepts nothing keeps everything but the channel it works on, provided its events are sound. -/
private theorem Served.step (h : v.Served) (evs : List TuDmaEvent) (hlog : w.log = v.log ++ evs)
    (hacc : ∀ j, acceptedOn w.log j = acceptedOn v.log j) (hx : w.executes = v.executes)
    (ha : w.allocated = v.allocated) (hc : ∀ d, v.completed d = true → w.completed d = true)
    (hlt : ∀ d, w.completed d = true → d < v.allocated)
    (hmoved : ∀ d, w.completed d = true → .executed d true ∈ v.log ∨ .executed d true ∈ evs)
    (hfin : ∀ ev ∈ evs, ev.Finished w.completed) (i : Nat)
    (hch : ∀ j, j ≠ i → w.channels j = v.channels j ∧ retiredOn w.log j = retiredOn v.log j)
    (hi : w.ChannelServed i) : w.Served := by
  have hacc : ∀ d, w.Accepted d ↔ v.Accepted d := by simp [Accepted, hacc]
  refine ⟨fun j => ?_, fun d hd => ?_, fun d hd => ?_, fun d hd => ?_, fun ev hev => ?_⟩
  · by_cases hj : j = i
    · subst hj
      exact hi
    · exact (h.channel j).congr (hch j hj).1 hc (hch j hj).2
  · rw [hx]
    exact h.executes d ((hacc d).1 hd)
  · rw [ha]
    exact hlt d hd
  · rw [hlog]
    exact List.mem_append.2 (hmoved d hd)
  · rw [hlog] at hev
    rcases List.mem_append.1 hev with hev | hev
    · exact finished_mono hc (h.finished ev hev)
    · exact hfin ev hev

theorem Served.start (h : v.Served) (hok : v.Ok) {i d : Nat} (cost : Option Nat) (hd : (v.channels i).head = some d) :
    (v.start i d cost).Served := by
  have hdone : (v.start i d cost).completed d = true := by
    rw [start_completed]
    exact (v.exec_completed d d).2 (.inr ⟨rfl, h.executes d ⟨i, (hok.within i).head d hd⟩⟩)
  refine h.step ((.dequeued i d :: grantEvents i d cost) ++ v.execEvents d) ?_ (v.acceptedOn_start i d cost)
    (v.start_executes i d cost) (v.start_allocated i d cost) (fun x hx => ?_)
    (fun x hx => h.exec_lt ((hok.below i).head d hd) (v.start_completed i d cost ▸ hx)) (fun x hx => ?_)
    (fun ev hev => ?_) i (fun j hj => ⟨v.start_of_ne d cost hj, v.retiredOn_start i d cost j⟩)
    ⟨fun a ha => ?_, ?_⟩
  · rw [start_log, List.append_assoc]
  · rw [start_completed]
    exact completed_mono d hx
  · rw [start_completed] at hx
    rcases h.moved_exec hx with hm | hm
    · exact .inl hm
    · exact .inr (List.mem_append_right _ hm)
  · rcases List.mem_append.1 hev with hev | hev
    · rcases List.mem_cons.1 hev with rfl | hev
      · exact hdone
      · exact finished_grantEvents i d cost _ ev hev
    · exact finished_execEvents d _ ev hev
  · rw [start_self] at ha
    cases ha
    exact hdone
  · rw [start_self, retiredOn_start]
    exact (h.channel i).count

theorem Served.retire (h : v.Served) {i a : Nat} (ha : (v.channels i).active = some a) : (v.retire i a).Served := by
  refine h.step [.retired i a] (v.retire_log i a) (v.acceptedOn_retire i a) rfl rfl (fun _ hx => hx)
    h.completed_lt (fun x hx => .inl (h.moved x hx)) (fun ev hev => ?_) i (fun j hj => ⟨v.retire_of_ne a hj, ?_⟩)
    ⟨fun b hb => ?_, ?_⟩
  · obtain rfl := List.mem_singleton.1 hev
    exact (h.channel i).active a ha
  · rw [retiredOn_retire, if_neg (Ne.symm hj), List.append_nil]
  · rw [retire_self] at hb
    cases hb
  · rw [retire_self, retiredOn_retire, if_pos rfl]
    exact count_succ (h.channel i).count a

theorem Served.drain (h : v.Served) (hok : v.Ok) {i d : Nat} (hd : (v.channels i).head = some d) :
    (v.drain i d).Served := by
  have hdone : (v.exec d).completed d = true :=
    (v.exec_completed d d).2 (.inr ⟨rfl, h.executes d ⟨i, (hok.within i).head d hd⟩⟩)
  refine h.step (v.execEvents d ++ [.dequeued i d, .retired i d]) ?_ (v.acceptedOn_drain i d)
    (v.drain_executes i d) (v.drain_allocated i d) (fun x hx => completed_mono d hx)
    (fun x hx => h.exec_lt ((hok.below i).head d hd) hx) (fun x hx => ?_)
    (fun ev hev => ?_) i (fun j hj => ⟨v.drain_of_ne d hj, ?_⟩) ⟨fun a ha => ?_, ?_⟩
  · rw [drain_log, List.append_assoc]
  · rcases h.moved_exec hx with hm | hm
    · exact .inl hm
    · exact .inr (List.mem_append_left _ hm)
  · rcases List.mem_append.1 hev with hev | hev
    · exact finished_execEvents d _ ev hev
    · rcases List.mem_cons.1 hev with rfl | hev
      · exact hdone
      · obtain rfl := List.mem_singleton.1 hev
        exact hdone
  · rw [retiredOn_drain, if_neg (Ne.symm hj), List.append_nil]
  · rw [drain_self] at ha
    exact completed_mono d ((h.channel i).active a ha)
  · rw [drain_self, retiredOn_drain, if_pos rfl]
    exact count_succ (h.channel i).count d

theorem Served.clearTail (h : v.Served) (i : Nat) : (v.clearTail i).Served := by
  refine h.step [] (List.append_nil _).symm (fun _ => rfl) rfl rfl (fun _ hx => hx) h.completed_lt
    (fun x hx => .inl (h.moved x hx)) (fun ev hev => ?_) i (fun j hj => ⟨v.clearTail_of_ne hj, rfl⟩)
    ⟨fun a ha => ?_, ?_⟩
  · cases hev
  · rw [clearTail_self] at ha
    exact (h.channel i).active a ha
  · rw [clearTail_self]
    exact (h.channel i).count

theorem Served.flushActive (h : v.Served) {i a : Nat} (ha : (v.channels i).active = some a) :
    (v.flushActive i a).Served := by
  refine h.step (v.execEvents a ++ [.retired i a]) ?_ (v.acceptedOn_flushActive i a)
    (v.flushActive_executes i a) (v.flushActive_allocated i a) (fun x hx => completed_mono a hx)
    (fun x hx => h.exec_lt (h.completed_lt a ((h.channel i).active a ha)) hx) (fun x hx => ?_)
    (fun ev hev => ?_) i (fun j hj => ⟨v.flushActive_of_ne a hj, ?_⟩) ⟨fun b hb => ?_, ?_⟩
  · rw [flushActive_log, List.append_assoc]
  · rcases h.moved_exec hx with hm | hm
    · exact .inl hm
    · exact .inr (List.mem_append_left _ hm)
  · rcases List.mem_append.1 hev with hev | hev
    · exact finished_execEvents a _ ev hev
    · obtain rfl := List.mem_singleton.1 hev
      exact completed_mono a ((h.channel i).active a ha)
  · rw [retiredOn_flushActive, if_neg (Ne.symm hj), List.append_nil]
  · rw [flushActive_self] at hb
    cases hb
  · rw [flushActive_self, retiredOn_flushActive, if_pos rfl]
    exact count_succ (h.channel i).count a

theorem Served.tickStep (h : v.Served) (hok : v.Ok) (hs : TickStep v w) : w.Served := by
  cases hs with
  | start cost _ hh _ => exact h.start hok cost hh
  | retire _ ha => exact h.retire ha

theorem Served.build (h : v.Served) (hok : v.Ok) (n : Nat) (executes : Nat → Bool) :
    (v.build n executes).Served := by
  have hmono : ∀ d, v.completed d = true → (v.build n executes).completed d = true := fun d hd =>
    (build_completed_of_lt n executes (h.completed_lt d hd)).trans hd
  refine ⟨fun i => (h.channel i).congr rfl hmono rfl, fun d hd => ?_, fun d hd => ?_,
    fun d hd => h.moved d (build_completed n executes hd), fun ev hev => ?_⟩
  · obtain ⟨i, hi⟩ := hd
    rw [build_executes_of_lt n executes (hok.lt i d hi)]
    exact h.executes d ⟨i, hi⟩
  · exact Nat.lt_of_lt_of_le (h.completed_lt d (build_completed n executes hd)) (Nat.le_add_right _ _)
  · exact finished_mono hmono (h.finished ev hev)

/-- A fresh chain that the executor completes goes to a queue. -/
theorem Served.build_append (h : v.Served) (hok : v.Ok) {n : Nat} {executes : Nat → Bool} (i : Nat)
    (hx : ∀ d ∈ List.range' v.allocated n, executes d = true) :
    ((v.build n executes).append i v.allocated (List.range' v.allocated n)).Served := by
  have hb := h.build hok n executes
  refine ⟨fun j => ?_, fun d hd => ?_, fun d hd => ?_, fun d hd => ?_, fun ev hev => ?_⟩
  · by_cases hj : j = i
    · subst hj
      refine ⟨fun a ha => ?_, ?_⟩
      · rw [append_self] at ha
        rw [append_completed]
        exact (hb.channel j).active a ha
      · rw [append_self, retiredOn_appendStep]
        exact (hb.channel j).count
    · refine (hb.channel j).congr (append_of_ne _ _ _ hj) (fun d hd => ?_) (retiredOn_appendStep _ _ _ _ _)
      rw [append_completed]
      exact hd
  · obtain ⟨j, hj⟩ := hd
    rw [append_executes]
    rw [acceptedOn_appendStep, List.mem_append] at hj
    rcases hj with hj | hj
    · exact hb.executes d ⟨j, hj⟩
    · split at hj
      · rw [build_executes_of_mem executes hj]
        exact hx d hj
      · cases hj
  · rw [append_completed] at hd
    rw [append_allocated]
    exact hb.completed_lt d hd
  · rw [append_completed] at hd
    rw [append_log]
    exact List.mem_append_left _ (hb.moved d hd)
  · rw [append_log] at hev
    rw [append_completed]
    rcases List.mem_append.1 hev with hev | hev
    · exact hb.finished ev hev
    · obtain rfl := List.mem_singleton.1 hev
      trivial

end

end QueueView

/-! ### Runs -/

/-- Every descriptor of an accepted submission has the host pointer its direction needs. -/
def PointersPresent (e : TuDmaEngine) : TuDmaOp → Prop
  | .submit descs => (admitted e descs).isSome = true → ∀ desc ∈ descs, hostPointerPresent desc = true
  | .tick | .flush _ => True

/-- Descriptors that left a queue or were counted are completed and their bytes moved, and `totalCompleted` counts
those and no others. -/
def Honoured (e : TuDmaEngine) : Prop :=
  (∀ i d, .dequeued i d ∈ e.log ∨ .retired i d ∈ e.log →
    (e.heap d).completed = true ∧ .executed d true ∈ e.log) ∧
  ∀ i, (e.channels i).totalCompleted = u64 (retiredOn e.log i).length

/-- An admitted chain whose host pointers are present is completed by the executor. -/
theorem executable_of_admitted {e : TuDmaEngine} {descs : List TuDmaDescriptor} {i : Nat}
    (ha : admitted e descs = some i) (hp : ∀ desc ∈ descs, hostPointerPresent desc = true) {d : Nat}
    (hd : d ∈ List.range' e.allocated descs.length) :
    executable e.cfg e.mem.sizes (builtHeap e.heap e.allocated descs d) = true := by
  obtain ⟨hne, hadm, -⟩ := admitted_eq_some ha
  unfold admits at hadm
  simp only [Bool.and_eq_true] at hadm
  obtain ⟨⟨⟨hspans, haddr⟩, -⟩, -⟩ := hadm
  have heap : (newChain e descs).1.heap = builtHeap e.heap e.allocated descs := by rw [newChain_eq]
  have hmem : (newChain e descs).1.mem = e.mem := by rw [newChain_eq]
  have hcfg : (newChain e descs).1.cfg = e.cfg := by rw [newChain_eq]
  unfold chainSpansValid at hspans
  unfold chainAddressed at haddr
  rw [newChain_chain e hne, heap, hmem] at hspans
  rw [newChain_chain e hne, heap, hcfg] at haddr
  have hvalid := List.all_eq_true.1 hspans d hd
  have hpointer : hostPointerPresent (builtHeap e.heap e.allocated descs d) = true := by
    obtain ⟨desc, hdesc, h⟩ := builtHeap_of_mem e.heap hd
    rw [h]
    exact hp desc hdesc
  unfold executable
  rw [hvalid, descriptorCopies_isSome hvalid hpointer, Bool.true_and, Bool.and_true, Bool.not_eq_true',
    Bool.and_eq_false_iff]
  rcases Bool.or_eq_true_iff.1 haddr with hb | hall
  · left
    simpa using hb
  · right
    simpa using List.all_eq_true.1 hall d hd

private theorem step_served {e : TuDmaEngine} (op : TuDmaOp) (hok : e.view.Ok) (h : e.view.Served)
    (hop : PointersPresent e op) : (e.step op).view.Served := by
  cases op with
  | submit descs =>
    refine (submit_keeps hok (fun x => h.build hok _ x) (fun x i hx ha => ?_) ?_ ?_).2
    · refine h.build_append hok i fun d hd => ?_
      rw [hx]
      exact executable_of_admitted ha (hop (by rw [ha]; rfl)) hd
    · intro v j d _ hok hv hh
      exact hv.drain hok hh
    · intro v j _ _ hv _
      exact hv.clearTail j
  | tick => exact (tick_keeps hok h fun hok hv hs => hv.tickStep hok hs).2
  | flush channel =>
    exact (flush_keeps channel hok h (fun hok hv hh => hv.drain hok hh) (fun _ hv _ => hv.clearTail _)
      fun _ hv ha => hv.flushActive ha).2

private theorem fresh_served (cfg : TuDmaConfig) (mem : Memory) : (TuDmaEngine.fresh cfg mem).view.Served := by
  have hacc : ∀ d, ¬ (TuDmaEngine.fresh cfg mem).view.Accepted d := by
    rintro d ⟨i, hd⟩
    cases hd
  refine ⟨fun i => ⟨?_, rfl⟩, ?_, ?_, ?_, ?_⟩
  · intro a ha
    cases ha
  · exact fun d hd => absurd hd (hacc d)
  · intro d hd
    cases hd
  · intro d hd
    cases hd
  · intro ev hev
    cases hev

/-- In a run whose accepted chains have their host pointers, every descriptor that leaves its queue is completed and
moved, and `totalCompleted` counts only such descriptors. -/
theorem run_honoured (cfg : TuDmaConfig) (mem : Memory) (ops : List TuDmaOp)
    (h : Run.Along PointersPresent TuDmaEngine.step (TuDmaEngine.fresh cfg mem) ops) :
    Honoured (TuDmaEngine.run cfg mem ops) := by
  have hinv : (TuDmaEngine.run cfg mem ops).view.Ok ∧ (TuDmaEngine.run cfg mem ops).view.Served :=
    h.invariant (P := fun e => e.view.Ok ∧ e.view.Served)
      (fun e op he hop => ⟨step_ok op he.1, step_served op he.1 he.2 hop⟩) ⟨fresh_ok cfg mem, fresh_served cfg mem⟩
  obtain ⟨-, hserved⟩ := hinv
  refine ⟨fun i d hd => ?_, fun i => (hserved.channel i).count⟩
  have hdone : (TuDmaEngine.run cfg mem ops).view.completed d = true := by
    rcases hd with hd | hd
    · exact hserved.finished _ hd
    · exact hserved.finished _ hd
  exact ⟨hdone, hserved.moved d hdone⟩

/-- A host-to-TU descriptor, executed by a tick and retired by the next one. -/
theorem run_honoured_linear :
    let cfg : TuDmaConfig :=
      { asyncMode := true, numChannels := 1, maxDepth := 4, numChannels_pos := by decide,
        numChannels_le := by decide, maxDepth_pos := by decide }
    Honoured (TuDmaEngine.run cfg (Memory.zero 16)
      [.submit [tuDmaDescCreateLinear 1 0 .hostToTu (some 0) 0 (some 0) 4 1], .tick, .tick]) :=
  run_honoured _ _ _ ⟨fun _ => by decide, trivial, trivial, trivial⟩

/-- The same descriptor with a `NULL` host pointer is counted and never completed. -/
theorem not_honoured_null :
    let cfg : TuDmaConfig :=
      { asyncMode := true, numChannels := 1, maxDepth := 4, numChannels_pos := by decide,
        numChannels_le := by decide, maxDepth_pos := by decide }
    ¬ Honoured (TuDmaEngine.run cfg (Memory.zero 16)
      [.submit [tuDmaDescCreateLinear 1 0 .hostToTu (some 0) 0 none 4 1], .tick, .tick]) := by
  intro cfg h
  exact absurd (h.1 0 0 (by decide)).1 (by decide)

end Tusim
