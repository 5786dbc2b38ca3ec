import Tusim.Dma.Linking

/-!
# Counters

A submission adds one to `queueDepth` and `totalSubmitted` whatever the length of its chain, while ticks and
flushes count descriptor by descriptor.  As long as every accepted submission is a single descriptor the counters
are exact (`run_countersExact`): the depth is the length of the queue, submitted descriptors are completed, queued
or active, and the limit of outstanding descriptors is respected.
-/

namespace Tusim

open Word Segment

namespace QueueView

/-- `1` when the channel has an active descriptor. -/
def activeCount (v : QueueView) (i : Nat) : Nat := if (v.channels i).active.isSome then 1 else 0

/-- The counters of a channel against its queue and the log. -/
structure ChannelCounted (v : QueueView) (i : Nat) : Prop where
  depth : (v.channels i).queueDepth.toNat = (v.queue i).length
  balance : (acceptedOn v.log i).length = (retiredOn v.log i).length + (v.queue i).length + v.activeCount i
  submitted : (v.channels i).totalSubmitted = u64 (acceptedOn v.log i).length
  completed : (v.channels i).totalCompleted = u64 (retiredOn v.log i).length
  limit : (v.queue i).length + v.activeCount i ≤ v.cfg.maxDepth.toNat

def Counted (v : QueueView) : Prop := ∀ i, v.ChannelCounted i

section

variable {v w : QueueView}

private theorem u64_succ {n k : Nat} (h : n = u64 k) : u64 (n + 1) = u64 (k + 1) := by
  rw [h, u64_u64_add]

private theorem toNat_pred {x : UInt32} {n : Nat} (h : x.toNat = n + 1) : (x - 1).toNat = n := by
  have hx := x.toNat_lt
  rw [UInt32.toNat_sub_of_le _ _ (by rw [UInt32.le_iff_toNat_le]; simp; omega)]
  simp [h]

/-- A channel the step does not touch. -/
private theorem ChannelCounted.congr {i : Nat} (h : v.ChannelCounted i) (hcfg : w.cfg = v.cfg)
    (hch : w.channels i = v.channels i) (hq : w.queue i = v.queue i)
    (ha : acceptedOn w.log i = acceptedOn v.log i) (hr : retiredOn w.log i = retiredOn v.log i) :
    w.ChannelCounted i := by
  have hact : w.activeCount i = v.activeCount i := by
    unfold activeCount
    rw [hch]
  refine ⟨?_, ?_, ?_, ?_, ?_⟩
  · rw [hch, hq]
    exact h.depth
  · rw [ha, hr, hq, hact]
    exact h.balance
  · rw [hch, ha]
    exact h.submitted
  · rw [hch, hr]
    exact h.completed
  · rw [hq, hact, hcfg]
    exact h.limit

theorem Counted.start (h : v.Counted) (hok : v.Ok) {i d : Nat} (cost : Option Nat)
    (hd : (v.channels i).head = some d) (hidle : (v.channels i).active = none) : (v.start i d cost).Counted := by
  intro j
  by_cases hj : j = i
  · subst hj
    have hc := h j
    have hlen : (v.queue j).length = (v.chain (v.next d)).length + 1 := by
      rw [hok.queue_of_head hd, List.length_cons]
    have hact : v.activeCount j = 0 := by
      unfold activeCount
      rw [hidle]
      rfl
    have hact' : (v.start j d cost).activeCount j = 1 := by
      unfold activeCount
      rw [start_self]
      rfl
    have hbalance := hc.balance
    have hlimit := hc.limit
    refine ⟨?_, ?_, ?_, ?_, ?_⟩
    · rw [queue_start_self, start_self]
      exact toNat_pred (hc.depth.trans hlen)
    · rw [acceptedOn_start, retiredOn_start, queue_start_self, hact']
      omega
    · rw [start_self, acceptedOn_start]
      exact hc.submitted
    · rw [start_self, retiredOn_start]
      exact hc.completed
    · rw [queue_start_self, hact', start_cfg]
      omega
  · exact (h j).congr (v.start_cfg i d cost) (v.start_of_ne d cost hj) (queue_start_of_ne d cost hj)
      (v.acceptedOn_start i d cost j) (v.retiredOn_start i d cost j)

theorem Counted.drain (h : v.Counted) (hok : v.Ok) {i d : Nat} (hd : (v.channels i).head = some d) :
    (v.drain i d).Counted := by
  intro j
  by_cases hj : j = i
  · subst hj
    have hc := h j
    have hlen : (v.queue j).length = (v.chain (v.next d)).length + 1 := by
      rw [hok.queue_of_head hd, List.length_cons]
    have hact : (v.drain j d).activeCount j = v.activeCount j := by
      unfold activeCount
      rw [drain_self]
    have hbalance := hc.balance
    have hlimit := hc.limit
    refine ⟨?_, ?_, ?_, ?_, ?_⟩
    · rw [queue_drain_self, drain_self]
      exact toNat_pred (hc.depth.trans hlen)
    · rw [acceptedOn_drain, retiredOn_drain, queue_drain_self, hact, if_pos rfl, List.length_append,
        List.length_singleton]
      omega
    · rw [drain_self, acceptedOn_drain]
      exact hc.submitted
    · rw [drain_self, retiredOn_drain, if_pos rfl, List.length_append, List.length_singleton]
      exact u64_succ hc.completed
    · rw [queue_drain_self, hact, drain_cfg]
      omega
  · refine (h j).congr (v.drain_cfg i d) (v.drain_of_ne d hj) (queue_drain_of_ne d hj) (v.acceptedOn_drain i d j) ?_
    rw [retiredOn_drain, if_neg (Ne.symm hj), List.append_nil]

/-- The active descriptor of channel `i` is counted as completed. -/
private theorem Counted.release (h : v.Counted) {i a : Nat} (ha : (v.channels i).active = some a)
    (hcfg : w.cfg = v.cfg) (hself : w.channels i =
      { v.channels i with active := none, totalCompleted := u64 ((v.channels i).totalCompleted + 1) })
    (hother : ∀ j, j ≠ i → w.channels j = v.channels j) (hq : ∀ j, w.queue j = v.queue j)
    (hacc : ∀ j, acceptedOn w.log j = acceptedOn v.log j)
    (hret : ∀ j, retiredOn w.log j = retiredOn v.log j ++ if i = j then [a] else []) : w.Counted := by
  intro j
  by_cases hj : j = i
  · subst hj
    have hc := h j
    have hact : v.activeCount j = 1 := by
      unfold activeCount
      rw [ha]
      rfl
    have hact' : w.activeCount j = 0 := by
      unfold activeCount
      rw [hself]
      rfl
    have hbalance := hc.balance
    have hlimit := hc.limit
    have hlen : (retiredOn w.log j).length = (retiredOn v.log j).length + 1 := by
      rw [hret, if_pos rfl, List.length_append, List.length_singleton]
    refine ⟨?_, ?_, ?_, ?_, ?_⟩
    · rw [hself, hq]
      exact hc.depth
    · rw [hacc, hq, hlen, hact']
      omega
    · rw [hself, hacc]
      exact hc.submitted
    · rw [hself, hlen]
      exact u64_succ hc.completed
    · rw [hq, hact', hcfg]
      omega
  · refine (h j).congr hcfg (hother j hj) (hq j) (hacc j) ?_
    rw [hret, if_neg (Ne.symm hj), List.append_nil]

theorem Counted.retire (h : v.Counted) {i a : Nat} (ha : (v.channels i).active = some a) : (v.retire i a).Counted :=
  h.release ha rfl (v.retire_self i a) (fun _ hj => v.retire_of_ne a hj) (queue_retire i a) (v.acceptedOn_retire i a)
    (v.retiredOn_retire i a)

theorem Counted.flushActive (h : v.Counted) {i a : Nat} (ha : (v.channels i).active = some a) :
    (v.flushActive i a).Counted :=
  h.release ha (v.exec_cfg a) (v.flushActive_self i a) (fun _ hj => v.flushActive_of_ne a hj) (queue_flushActive i a)
    (v.acceptedOn_flushActive i a) (v.retiredOn_flushActive i a)

theorem Counted.clearTail (h : v.Counted) (i : Nat) : (v.clearTail i).Counted := by
  intro j
  by_cases hj : j = i
  · subst hj
    have hc := h j
    have hq := queue_clearTail (v := v) j j
    have hact : (v.clearTail j).activeCount j = v.activeCount j := by
      unfold activeCount
      rw [clearTail_self]
    refine ⟨?_, ?_, ?_, ?_, ?_⟩
    · rw [clearTail_self, hq]
      exact hc.depth
    · rw [hq, hact]
      exact hc.balance
    · rw [clearTail_self]
      exact hc.submitted
    · rw [clearTail_self]
      exact hc.completed
    · rw [hq, hact]
      exact hc.limit
  · exact (h j).congr rfl (v.clearTail_of_ne hj) (queue_clearTail i j) rfl rfl

theorem Counted.build (h : v.Counted) (hok : v.Ok) (n : Nat) (executes : Nat → Bool) :
    (v.build n executes).Counted := fun i =>
  (h i).congr rfl rfl (hok.queue_build n executes i) rfl rfl

/-- One fresh descriptor goes to a channel below its limit. -/
theorem Counted.build_append (h : v.Counted) (hok : v.Ok) (hl : v.Linked) (ht : v.TailsEnd) (executes : Nat → Bool)
    {i : Nat} (hlimit : (v.queue i).length + v.activeCount i < v.cfg.maxDepth.toNat) :
    ((v.build 1 executes).append i v.allocated (List.range' v.allocated 1)).Counted := by
  intro j
  by_cases hj : j = i
  · subst hj
    have hc := h j
    have hq := hl.queue_append_self executes hok Nat.one_pos (ht.appendable j)
    generalize hw : (v.build 1 executes).append j v.allocated (List.range' v.allocated 1) = w at hq
    have hself : w.channels j =
        { v.channels j with
          head := if (v.channels j).head.isNone then some v.allocated else (v.channels j).head,
          tail := some v.allocated, queueDepth := (v.channels j).queueDepth + 1,
          totalSubmitted := u64 ((v.channels j).totalSubmitted + 1) } := by
      rw [← hw]
      exact append_self _ j v.allocated _
    have hact : w.activeCount j = v.activeCount j := by
      unfold activeCount
      rw [hself]
    have hlen : (w.queue j).length = (v.queue j).length + 1 := by
      rw [hq, List.length_append, List.length_range']
    have hacc : (acceptedOn w.log j).length = (acceptedOn v.log j).length + 1 := by
      rw [← hw, acceptedOn_appendStep, if_pos rfl, List.length_append, List.length_range']
      rfl
    have hret : retiredOn w.log j = retiredOn v.log j := by
      rw [← hw]
      exact retiredOn_appendStep _ j v.allocated _ j
    have hcfg : w.cfg = v.cfg := by
      rw [← hw]
      exact append_cfg _ j v.allocated _
    have hbalance := hc.balance
    refine ⟨?_, ?_, ?_, ?_, ?_⟩
    · have hdepth := hc.depth
      have hmax := v.cfg.maxDepth.toNat_lt
      rw [hself, hlen, UInt32.toNat_add, hdepth]
      exact Nat.mod_eq_of_lt (by simp; omega)
    · rw [hacc, hret, hlen, hact]
      omega
    · rw [hself, hacc]
      exact u64_succ hc.submitted
    · rw [hself, hret]
      exact hc.completed
    · rw [hlen, hact, hcfg]
      omega
  · refine (h j).congr (append_cfg _ i v.allocated _) (append_of_ne _ v.allocated _ hj)
      (hok.queue_append_of_ne _ Nat.one_pos hj) ?_ (retiredOn_appendStep _ i v.allocated _ j)
    rw [acceptedOn_appendStep, if_neg (Ne.symm hj), List.append_nil]
    rfl

end

/-- What runs of single descriptors keep. -/
structure Singles (v : QueueView) : Prop where
  linked : v.Linked
  tails : v.TailsEnd
  counted : v.Counted

end QueueView

/-! ### Runs -/

/-- Accepted submissions are single descriptors. -/
def Single (e : TuDmaEngine) : TuDmaOp → Prop
  | .submit descs => (admitted e descs).isSome = true → descs.length = 1
  | .tick | .flush _ => True

/-- An admitted submission finds its channel below the limit. -/
theorem outstanding_lt_of_admitted {e : TuDmaEngine} {descs : List TuDmaDescriptor} {i : Nat}
    (h : admitted e descs = some i) : (outstanding e i).toNat < e.cfg.maxDepth.toNat := by
  obtain ⟨-, hadm, rfl⟩ := admitted_eq_some h
  unfold admits at hadm
  rw [Bool.and_eq_true, Bool.not_eq_true'] at hadm
  have hlimit := hadm.2
  generalize selectChannel (newChain e descs).1 e.allocated = i at hlimit
  have hcfg : (newChain e descs).1.cfg = e.cfg := by rw [newChain_eq]
  have hout : outstanding (newChain e descs).1 i = outstanding e i := by rw [newChain_eq]; rfl
  unfold atLimit at hlimit
  rw [hcfg, hout, Bool.and_eq_false_iff] at hlimit
  have hpos := e.cfg.maxDepth_pos
  rcases hlimit with hlimit | hlimit
  · have := of_decide_eq_false hlimit
    rw [ge_iff_le, UInt32.le_iff_toNat_le] at this
    omega
  · have := of_decide_eq_false hlimit
    rw [gt_iff_lt, UInt32.lt_iff_toNat_lt] at this
    exact absurd hpos this

private theorem outstanding_toNat {e : TuDmaEngine} (h : e.view.Counted) (i : Nat) :
    (outstanding e i).toNat = (e.view.queue i).length + e.view.activeCount i := by
  have hdepth : (e.channels i).queueDepth.toNat = (e.view.queue i).length := (h i).depth
  have hlimit := (h i).limit
  have hmax := e.view.cfg.maxDepth.toNat_lt
  unfold outstanding
  unfold QueueView.activeCount at hlimit ⊢
  rw [UInt32.toNat_add, hdepth, view_active]
  rw [view_active] at hlimit
  split
  · rename_i ha
    rw [if_pos ha] at hlimit
    rw [show (1 : UInt32).toNat = 1 from rfl]
    exact Nat.mod_eq_of_lt (by omega)
  · rename_i ha
    rw [if_neg ha] at hlimit
    rw [show (0 : UInt32).toNat = 0 from rfl]
    exact Nat.mod_eq_of_lt (by omega)

theorem step_singles {e : TuDmaEngine} (op : TuDmaOp) (hok : e.view.Ok) (h : e.view.Singles) (hop : Single e op) :
    (e.step op).view.Singles := by
  cases op with
  | submit descs =>
    refine (submit_keeps hok (fun x => ?_) (fun x i _ ha => ?_) ?_ ?_).2
    · exact ⟨h.linked.build hok _ x, h.tails.build hok _ x, h.counted.build hok _ x⟩
    · have hlen : descs.length = 1 := hop (by rw [ha]; rfl)
      rw [hlen]
      have hlimit := outstanding_lt_of_admitted ha
      rw [outstanding_toNat h.counted] at hlimit
      exact ⟨h.linked.build_append _ hok Nat.one_pos (h.tails.appendable i),
        h.tails.build_append hok x i _, h.counted.build_append hok h.linked h.tails x hlimit⟩
    · intro v i d _ hv hs hh
      exact ⟨hs.linked.drain hv hh, hs.tails.drain hh, hs.counted.drain hv hh⟩
    · intro v i _ _ hs hh
      exact ⟨hs.linked.clearTail hh, hs.tails.clearTail hh, hs.counted.clearTail i⟩
  | tick =>
    refine (tick_keeps hok h fun {v w} hv hs hstep => ⟨hs.linked.tickStep hv hstep, hs.tails.tickStep hstep, ?_⟩).2
    cases hstep with
    | start cost _ hh ha => exact hs.counted.start hv cost hh ha
    | retire _ ha => exact hs.counted.retire ha
  | flush channel =>
    refine (flush_keeps channel hok h (fun hv hs hh => ?_) (fun _ hs hh => ?_) fun _ hs ha => ?_).2
    · exact ⟨hs.linked.drain hv hh, hs.tails.drain hh, hs.counted.drain hv hh⟩
    · exact ⟨hs.linked.clearTail hh, hs.tails.clearTail hh, hs.counted.clearTail _⟩
    · exact ⟨hs.linked.flushActive _ _, hs.tails.flushActive _ _, hs.counted.flushActive ha⟩

theorem fresh_linked (cfg : TuDmaConfig) (mem : Memory) : (TuDmaEngine.fresh cfg mem).view.Linked :=
  fun _ hi => absurd rfl hi

private theorem fresh_singles (cfg : TuDmaConfig) (mem : Memory) : (TuDmaEngine.fresh cfg mem).view.Singles :=
  ⟨fresh_linked cfg mem, fun _ hi => absurd rfl hi, fun _ => ⟨rfl, rfl, rfl, rfl, Nat.zero_le _⟩⟩

theorem run_singles (cfg : TuDmaConfig) (mem : Memory) {ops : List TuDmaOp}
    (h : Run.Along Single TuDmaEngine.step (TuDmaEngine.fresh cfg mem) ops) :
    (TuDmaEngine.run cfg mem ops).view.Singles :=
  (h.invariant (P := fun e => e.view.Ok ∧ e.view.Singles)
    (fun _ op he hop => ⟨step_ok op he.1, step_singles op he.1 he.2 hop⟩)
    ⟨fresh_ok cfg mem, fresh_singles cfg mem⟩).2

/-- The counters of every channel: the depth is the length of the queue; the submitted descriptors are the completed,
the queued and the active ones; the outstanding ones respect the limit. -/
def CountersExact (e : TuDmaEngine) : Prop :=
  ∀ i, (e.channels i).queueDepth.toNat = (e.queue i).length ∧
    (e.channels i).totalSubmitted = u64 (acceptedOn e.log i).length ∧
    (e.channels i).totalCompleted = u64 (retiredOn e.log i).length ∧
    (acceptedOn e.log i).length =
      (retiredOn e.log i).length + (e.queue i).length + (if (e.channels i).active.isSome then 1 else 0) ∧
    (e.queue i).length + (if (e.channels i).active.isSome then 1 else 0) ≤ e.cfg.maxDepth.toNat

/-- In a run whose accepted submissions are single descriptors the counters are exact. -/
theorem run_countersExact (cfg : TuDmaConfig) (mem : Memory) (ops : List TuDmaOp)
    (h : Run.Along Single TuDmaEngine.step (TuDmaEngine.fresh cfg mem) ops) :
    CountersExact (TuDmaEngine.run cfg mem ops) := by
  intro i
  have hc := (run_singles cfg mem h).counted i
  exact ⟨hc.depth, hc.submitted, hc.completed, hc.balance, hc.limit⟩

/-- Two single descriptors, the first of them active. -/
theorem run_countersExact_two :
    let cfg : TuDmaConfig :=
      { asyncMode := true, numChannels := 1, maxDepth := 4, numChannels_pos := by decide,
        numChannels_le := by decide, maxDepth_pos := by decide }
    let desc := tuDmaDescCreateLinear 1 0 .hostToTu (some 0) 0 (some 0) 4 1
    CountersExact (TuDmaEngine.run cfg (Memory.zero 16) [.submit [desc], .submit [desc], .tick]) :=
  run_countersExact _ _ _ ⟨fun _ => rfl, fun _ => rfl, trivial, trivial⟩

/-- A chain of two is counted once. -/
theorem not_countersExact_chain :
    let cfg : TuDmaConfig :=
      { asyncMode := true, numChannels := 1, maxDepth := 4, numChannels_pos := by decide,
        numChannels_le := by decide, maxDepth_pos := by decide }
    let desc := tuDmaDescCreateLinear 1 0 .hostToTu (some 0) 0 (some 0) 4 1
    ¬ CountersExact (TuDmaEngine.run cfg (Memory.zero 16) [.submit [desc, desc], .tick, .tick, .tick]) := by
  intro cfg desc h
  exact absurd (h 0).1 (by decide)

end Tusim
