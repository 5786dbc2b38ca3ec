import Tusim.Dma.Counters

/-!
# Delivery of accepted descriptors

The abstract channel is a list of accepted descriptors of which a first part has been handed to the executor and
the rest waits in the queue.  A run in which every chain is appended behind a whole queue, and no flush finds an
active descriptor that did not complete, refines it (`QueueView.Delivered`): once all queues and active slots are
empty, every accepted descriptor has been executed exactly once and in submission order (`run_deliveredInOrder`).
A submission behind a chain of several descriptors overwrites the link after the head of that chain and loses the
rest.
-/

namespace Tusim

open Word Segment

namespace QueueView

/-- The descriptors of channel `i` handed to the executor, in order. -/
def executedOn (v : QueueView) (i : Nat) : List Nat :=
  (executedIds v.log).filter (· ∈ acceptedOn v.log i)

/-- Every channel has executed a first part of what it accepted and queues the rest. -/
structure Delivered (v : QueueView) : Prop where
  order : ∀ i, v.executedOn i ++ v.queue i = acceptedOn v.log i
  executed_lt : ∀ d ∈ executedIds v.log, d < v.allocated
  completed : ∀ d, v.completed d = true → d ∈ executedIds v.log

section

variable {v w : QueueView}

/-- A queued descriptor has not been executed. -/
theorem Delivered.queue_not_executed (h : v.Delivered) (hok : v.Ok) {i d : Nat} (hd : d ∈ v.queue i) :
    d ∉ executedIds v.log := by
  intro hex
  have hon : d ∈ v.executedOn i := List.mem_filter.2 ⟨hex, by simpa using hok.queue_accepted hd⟩
  have hnodup := hok.nodup i
  rw [← h.order i] at hnodup
  exact (List.nodup_append.1 hnodup).2.2 d hon d hd rfl

theorem Delivered.queue_not_completed (h : v.Delivered) (hok : v.Ok) {i d : Nat} (hd : d ∈ v.queue i) :
    v.completed d = false := by
  cases hc : v.completed d with
  | false => rfl
  | true => exact absurd (h.completed d hc) (h.queue_not_executed hok hd)

/-- A step that executes the head `d` of channel `i` and takes it from the queue. -/
private theorem Delivered.pop (h : v.Delivered) (hok : v.Ok) {i d : Nat} (hd : (v.channels i).head = some d)
    (hacc : ∀ j, acceptedOn w.log j = acceptedOn v.log j)
    (hex : executedIds w.log = executedIds v.log ++ if v.completed d then [] else [d])
    (ha : w.allocated = v.allocated) (hc : w.completed = (v.exec d).completed)
    (hqi : w.queue i = v.chain (v.next d)) (hqj : ∀ j, j ≠ i → w.queue j = v.queue j) : w.Delivered := by
  have hq := hok.queue_of_head hd
  have hmem : d ∈ v.queue i := by rw [hq]; simp
  rw [h.queue_not_completed hok hmem, if_neg (by simp)] at hex
  refine ⟨fun j => ?_, fun x hx => ?_, fun x hx => ?_⟩
  · have hon : w.executedOn j = v.executedOn j ++ [d].filter (· ∈ acceptedOn v.log j) := by
      unfold executedOn
      simp only [hacc]
      rw [hex, List.filter_append]
    by_cases hj : j = i
    · subst hj
      have hin : [d].filter (· ∈ acceptedOn v.log j) = [d] := by
        rw [List.filter_eq_self]
        rintro x hx
        obtain rfl := List.mem_singleton.1 hx
        simpa using hok.queue_accepted hmem
      rw [hon, hin, hqi, List.append_assoc, hacc, ← h.order j, hq]
      rfl
    · have hout : [d].filter (· ∈ acceptedOn v.log j) = [] := by
        rw [List.filter_eq_nil_iff]
        rintro x hx
        obtain rfl := List.mem_singleton.1 hx
        simpa using hok.disjoint i j (Ne.symm hj) x (hok.queue_accepted hmem)
      rw [hon, hout, List.append_nil, hqj j hj, hacc]
      exact h.order j
  · rw [hex] at hx
    rw [ha]
    rcases List.mem_append.1 hx with hx | hx
    · exact h.executed_lt x hx
    · obtain rfl := List.mem_singleton.1 hx
      exact hok.queue_lt hmem
  · rw [hc] at hx
    rw [hex]
    rcases (v.exec_completed d x).1 hx with hx | ⟨rfl, -⟩
    · exact List.mem_append_left _ (h.completed x hx)
    · exact List.mem_append_right _ (List.mem_singleton_self x)

/-- A step that neither accepts nor executes. -/
private theorem Delivered.congr (h : v.Delivered) (hacc : ∀ j, acceptedOn w.log j = acceptedOn v.log j)
    (hex : executedIds w.log = executedIds v.log) (ha : w.allocated = v.allocated)
    (hc : ∀ d, w.completed d = true → v.completed d = true) (hq : ∀ j, w.queue j = v.queue j) : w.Delivered := by
  refine ⟨fun j => ?_, fun x => ?_, fun x hx => ?_⟩
  · unfold executedOn
    simp only [hacc, hex, hq]
    exact h.order j
  · rw [hex, ha]
    exact h.executed_lt x
  · rw [hex]
    exact h.completed x (hc x hx)

theorem Delivered.start (h : v.Delivered) (hok : v.Ok) {i d : Nat} (cost : Option Nat)
    (hd : (v.channels i).head = some d) : (v.start i d cost).Delivered :=
  h.pop hok hd (v.acceptedOn_start i d cost) (v.executedIds_start i d cost) (v.start_allocated i d cost)
    (v.start_completed i d cost) (queue_start_self i d cost) fun _ hj => queue_start_of_ne d cost hj

theorem Delivered.drain (h : v.Delivered) (hok : v.Ok) {i d : Nat} (hd : (v.channels i).head = some d) :
    (v.drain i d).Delivered :=
  h.pop hok hd (v.acceptedOn_drain i d) (v.executedIds_drain i d) (v.drain_allocated i d) (v.drain_completed i d)
    (queue_drain_self i d) fun _ hj => queue_drain_of_ne d hj

theorem Delivered.retire (h : v.Delivered) (i a : Nat) : (v.retire i a).Delivered :=
  h.congr (v.acceptedOn_retire i a) (v.executedIds_retire i a) rfl (fun _ hx => hx) (queue_retire i a)

theorem Delivered.clearTail (h : v.Delivered) (i : Nat) : (v.clearTail i).Delivered :=
  h.congr (fun _ => rfl) rfl rfl (fun _ hx => hx) (queue_clearTail i)

/-- A completed descriptor is not executed again by a flush. -/
theorem Delivered.flushActive (h : v.Delivered) (i : Nat) {a : Nat} (hdone : v.completed a = true) :
    (v.flushActive i a).Delivered := by
  refine h.congr (v.acceptedOn_flushActive i a) ?_ (v.flushActive_allocated i a) (fun x hx => ?_)
    (queue_flushActive i a)
  · rw [executedIds_flushActive, if_pos hdone, List.append_nil]
  · rcases (v.exec_completed a x).1 hx with hx | ⟨rfl, -⟩
    · exact hx
    · exact hdone

theorem Delivered.tickStep (h : v.Delivered) (hok : v.Ok) (hs : TickStep v w) : w.Delivered := by
  cases hs with
  | start cost _ hh _ => exact h.start hok cost hh
  | retire _ _ => exact h.retire _ _

theorem Delivered.build (h : v.Delivered) (hok : v.Ok) (n : Nat) (executes : Nat → Bool) :
    (v.build n executes).Delivered := by
  refine ⟨fun i => ?_, fun d hd => ?_, fun d hd => ?_⟩
  · rw [hok.queue_build]
    exact h.order i
  · exact Nat.lt_of_lt_of_le (h.executed_lt d hd) (Nat.le_add_right _ _)
  · exact h.completed d (build_completed n executes hd)

/-- A fresh chain goes behind a whole queue. -/
theorem Delivered.build_append (h : v.Delivered) (hok : v.Ok) (hl : v.Linked) {n : Nat} (executes : Nat → Bool)
    (hn : 0 < n) {i : Nat} (ha : v.Appendable i) :
    ((v.build n executes).append i v.allocated (List.range' v.allocated n)).Delivered := by
  have hself := hl.queue_append_self executes hok hn ha
  have hother := fun j (hj : j ≠ i) => hok.queue_append_of_ne executes hn hj
  generalize hw : (v.build n executes).append i v.allocated (List.range' v.allocated n) = w at hself hother
  have hacc : ∀ j, acceptedOn w.log j =
      acceptedOn v.log j ++ if i = j then List.range' v.allocated n else [] := by
    intro j
    rw [← hw]
    exact acceptedOn_appendStep _ i v.allocated _ j
  have hex : executedIds w.log = executedIds v.log := by
    rw [← hw]
    exact executedIds_appendStep _ i v.allocated _
  have halloc : w.allocated = v.allocated + n := by
    rw [← hw]
    exact append_allocated _ i v.allocated _
  have hfresh : ∀ d ∈ List.range' v.allocated n, ¬ d < v.allocated := by
    intro d hd
    have := List.mem_range'_1.1 hd
    omega
  -- the fresh descriptors have not been executed
  have hon : ∀ j, w.executedOn j = v.executedOn j := by
    intro j
    unfold executedOn
    rw [hex]
    refine List.filter_congr fun d hd => ?_
    have hlt := h.executed_lt d hd
    have hmem : d ∈ acceptedOn w.log j ↔ d ∈ acceptedOn v.log j := by
      rw [hacc, List.mem_append]
      refine ⟨fun hd => hd.resolve_right fun hd => ?_, .inl⟩
      split at hd
      · exact hfresh d hd hlt
      · cases hd
    simp [hmem]
  refine ⟨fun j => ?_, fun d hd => ?_, fun d hd => ?_⟩
  · rw [hon, hacc]
    by_cases hj : j = i
    · subst hj
      rw [hself, if_pos rfl, ← List.append_assoc, h.order]
    · rw [hother j hj, if_neg (Ne.symm hj), List.append_nil, h.order]
  · rw [hex] at hd
    rw [halloc]
    have := h.executed_lt d hd
    omega
  · rw [hex]
    rw [← hw, append_completed] at hd
    exact h.completed d (build_completed n executes hd)

end

end QueueView

/-! ### Runs -/

/-- An accepted chain finds an empty queue or a tail that is not linked further, and a flush finds the active
descriptor of its channel completed. -/
def KeepsChains (e : TuDmaEngine) : TuDmaOp → Prop
  | .submit descs => ∀ i ∈ admitted e descs,
      (e.channels i).head = none ∨ ∃ t ∈ (e.channels i).tail, e.next t = none
  | .tick => True
  | .flush channel => ∀ a ∈ (e.channels channel.toNat).active, (e.heap a).completed = true

private theorem step_delivered {e : TuDmaEngine} (op : TuDmaOp) (hasync : e.cfg.asyncMode = true) (hok : e.view.Ok)
    (hl : e.view.Linked) (h : e.view.Delivered) (hop : KeepsChains e op) :
    (e.step op).view.Linked ∧ (e.step op).view.Delivered := by
  cases op with
  | submit descs =>
    refine (submit_keeps (P := fun v => v.Linked ∧ v.Delivered) hok (fun x => ?_) (fun x i _ ha => ?_) ?_ ?_).2
    · exact ⟨hl.build hok _ x, h.build hok _ x⟩
    · have hne : 0 < descs.length := List.length_pos_iff.2 (admitted_eq_some ha).1
      have happend : e.view.Appendable i := hop i ha
      exact ⟨hl.build_append _ hok hne happend, h.build_append hok hl x hne happend⟩
    · intro v i d hsync
      rw [hasync] at hsync
      cases hsync
    · intro v i hsync
      rw [hasync] at hsync
      cases hsync
  | tick =>
    exact (tick_keeps (P := fun v => v.Linked ∧ v.Delivered) hok ⟨hl, h⟩ fun hv hs hstep =>
      ⟨hs.1.tickStep hv hstep, hs.2.tickStep hv hstep⟩).2
  | flush channel =>
    -- draining the queue leaves the active descriptor completed
    have hflush := flush_keeps channel
      (P := fun v => v.Linked ∧ v.Delivered ∧
        ∀ a, (v.channels channel.toNat).active = some a → v.completed a = true) hok ⟨hl, h, hop⟩
      (fun {v d} hv hs hh => ⟨hs.1.drain hv hh, hs.2.1.drain hv hh, fun a ha => ?_⟩)
      (fun {v} hv hs hh => ⟨hs.1.clearTail hh, hs.2.1.clearTail _, fun a ha => ?_⟩)
      fun {v a} hv hs ha => ⟨hs.1.flushActive _ _, hs.2.1.flushActive _ (hs.2.2 a ha), fun b hb => ?_⟩
    · exact ⟨hflush.2.1, hflush.2.2.1⟩
    · rw [QueueView.drain_self] at ha
      exact (v.exec_completed d a).2 (.inl (hs.2.2 a ha))
    · rw [QueueView.clearTail_self] at ha
      exact hs.2.2 a ha
    · rw [QueueView.flushActive_self] at hb
      cases hb

private theorem fresh_delivered (cfg : TuDmaConfig) (mem : Memory) :
    (TuDmaEngine.fresh cfg mem).view.Delivered := by
  refine ⟨fun i => ?_, fun d hd => ?_, fun d hd => ?_⟩
  · rw [QueueView.queue_of_head_none rfl]
    rfl
  · cases hd
  · cases hd

/-- What an asynchronous run that keeps its chains has delivered. -/
theorem run_delivered (cfg : TuDmaConfig) (mem : Memory) (ops : List TuDmaOp) (hasync : cfg.asyncMode = true)
    (h : Run.Along KeepsChains TuDmaEngine.step (TuDmaEngine.fresh cfg mem) ops) :
    (TuDmaEngine.run cfg mem ops).view.Delivered := by
  have hinv := h.invariant
    (P := fun e => e.view.Ok ∧ e.cfg.asyncMode = true ∧ e.view.Linked ∧ e.view.Delivered)
    (fun e op he hop => ⟨step_ok op he.1, by rw [step_cfg op he.1]; exact he.2.1,
      step_delivered op he.2.1 he.1 he.2.2.1 he.2.2.2 hop⟩)
    ⟨fresh_ok cfg mem, hasync, fresh_linked cfg mem, fresh_delivered cfg mem⟩
  exact hinv.2.2.2

/-- No descriptor is queued or active. -/
def Drained (e : TuDmaEngine) : Prop :=
  ∀ i < e.cfg.numChannels, (e.channels i).head = none ∧ (e.channels i).active = none

instance (e : TuDmaEngine) : Decidable (Drained e) := inferInstanceAs (Decidable (∀ _ < _, _))

/-- On every channel the accepted descriptors were handed to the executor exactly once, and in submission order. -/
def DeliveredInOrder (e : TuDmaEngine) : Prop :=
  ∀ i < e.cfg.numChannels, (∀ d ∈ acceptedOn e.log i, (executedIds e.log).count d = 1) ∧
    (executedIds e.log).filter (· ∈ acceptedOn e.log i) = acceptedOn e.log i

/-- In an asynchronous run that keeps its chains, a drained engine has delivered every accepted descriptor once and in
order. -/
theorem run_deliveredInOrder (cfg : TuDmaConfig) (mem : Memory) (ops : List TuDmaOp) (hasync : cfg.asyncMode = true)
    (h : Run.Along KeepsChains TuDmaEngine.step (TuDmaEngine.fresh cfg mem) ops)
    (hdrained : Drained (TuDmaEngine.run cfg mem ops)) : DeliveredInOrder (TuDmaEngine.run cfg mem ops) := by
  have hinv := h.invariant
    (P := fun e => e.view.Ok ∧ e.cfg.asyncMode = true ∧ e.view.Linked ∧ e.view.Delivered)
    (fun e op he hop => ⟨step_ok op he.1, by rw [step_cfg op he.1]; exact he.2.1,
      step_delivered op he.2.1 he.1 he.2.2.1 he.2.2.2 hop⟩)
    ⟨fresh_ok cfg mem, hasync, fresh_linked cfg mem, fresh_delivered cfg mem⟩
  have hok : (TuDmaEngine.run cfg mem ops).view.Ok := hinv.1
  have hd : (TuDmaEngine.run cfg mem ops).view.Delivered := hinv.2.2.2
  generalize TuDmaEngine.run cfg mem ops = e at hok hd hdrained
  intro i hi
  have horder := hd.order i
  rw [QueueView.queue_of_head_none (hdrained i hi).1, List.append_nil] at horder
  refine ⟨fun d hmem => ?_, horder⟩
  have hcount : ((executedIds e.log).filter (· ∈ acceptedOn e.log i)).count d = (executedIds e.log).count d :=
    List.count_filter (by simpa using hmem)
  have horder' : (executedIds e.log).filter (· ∈ acceptedOn e.log i) = acceptedOn e.log i := horder
  rw [← hcount, horder']
  exact List.count_eq_one_of_mem (hok.nodup i) hmem

/-- A chain of two behind a single descriptor. -/
theorem run_deliveredInOrder_chain :
    let cfg : TuDmaConfig :=
      { asyncMode := true, numChannels := 1, maxDepth := 4, numChannels_pos := by decide,
        numChannels_le := by decide, maxDepth_pos := by decide }
    let desc := tuDmaDescCreateLinear 1 0 .hostToTu (some 0) 0 (some 0) 4 1
    DeliveredInOrder (TuDmaEngine.run cfg (Memory.zero 16)
      [.submit [desc], .submit [desc, desc], .tick, .flush 0]) :=
  run_deliveredInOrder _ _ _ rfl
    ⟨fun _ _ => .inl rfl, by unfold KeepsChains; decide, trivial, by unfold KeepsChains; decide, trivial⟩ (by decide)

/-- A single descriptor submitted behind a chain of two: the second descriptor of the chain is never executed. -/
theorem not_deliveredInOrder_chain :
    let cfg : TuDmaConfig :=
      { asyncMode := true, numChannels := 1, maxDepth := 4, numChannels_pos := by decide,
        numChannels_le := by decide, maxDepth_pos := by decide }
    let desc := tuDmaDescCreateLinear 1 0 .hostToTu (some 0) 0 (some 0) 4 1
    let e := TuDmaEngine.run cfg (Memory.zero 16) [.submit [desc, desc], .submit [desc], .flush 0]
    Drained e ∧ ¬ DeliveredInOrder e := by
  intro cfg desc e
  refine ⟨by decide, fun h => ?_⟩
  exact absurd ((h 0 (by decide)).1 1 (by decide)) (by decide)

end Tusim
