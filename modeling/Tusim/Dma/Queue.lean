import Tusim.Dma.Submission

/-!
# Well-formed queues

In a reachable engine every `next` field leads to a later descriptor, so that every queue is a finite list
(`QueueView.Ok.queue_isSeg`), and every channel points only to descriptors it accepted, so that the queues of
different channels are disjoint (`QueueView.Ok`).  `tick_keeps`, `flush_keeps` and `submit_keeps` are the induction
rules of the development: what the small steps keep, the operations of the engine keep.
-/

namespace Tusim

open Word Segment Relation

/-! ### Reading the log -/

/-- The descriptors an event accepts on channel `i`. -/
def TuDmaEvent.acceptedOn (i : Nat) : TuDmaEvent → List Nat
  | .accepted j c => if j = i then c else []
  | .dequeued .. | .executed .. | .retired .. | .granted .. => []

/-- The descriptor an event hands to the executor. -/
def TuDmaEvent.executedIds : TuDmaEvent → List Nat
  | .executed d _ => [d]
  | .accepted .. | .dequeued .. | .retired .. | .granted .. => []

/-- The descriptor an event counts as completed on channel `i`. -/
def TuDmaEvent.retiredOn (i : Nat) : TuDmaEvent → List Nat
  | .retired j d => if j = i then [d] else []
  | .accepted .. | .dequeued .. | .executed .. | .granted .. => []

/-- The descriptors of the chains accepted on channel `i`, in submission order. -/
def acceptedOn (log : List TuDmaEvent) (i : Nat) : List Nat := log.flatMap (·.acceptedOn i)

/-- The descriptors handed to the executor, in order. -/
def executedIds (log : List TuDmaEvent) : List Nat := log.flatMap (·.executedIds)

/-- The descriptors counted as completed on channel `i`, in order. -/
def retiredOn (log : List TuDmaEvent) (i : Nat) : List Nat := log.flatMap (·.retiredOn i)

section

variable (ev : TuDmaEvent) (log log' : List TuDmaEvent) (i : Nat)

@[simp] theorem acceptedOn_nil : acceptedOn [] i = [] := rfl

@[simp] theorem acceptedOn_cons : acceptedOn (ev :: log) i = ev.acceptedOn i ++ acceptedOn log i := rfl

@[simp] theorem acceptedOn_append : acceptedOn (log ++ log') i = acceptedOn log i ++ acceptedOn log' i :=
  List.flatMap_append

@[simp] theorem executedIds_nil : executedIds [] = [] := rfl

@[simp] theorem executedIds_cons : executedIds (ev :: log) = ev.executedIds ++ executedIds log := rfl

@[simp] theorem executedIds_append : executedIds (log ++ log') = executedIds log ++ executedIds log' :=
  List.flatMap_append

@[simp] theorem retiredOn_nil : retiredOn [] i = [] := rfl

@[simp] theorem retiredOn_cons : retiredOn (ev :: log) i = ev.retiredOn i ++ retiredOn log i := rfl

@[simp] theorem retiredOn_append : retiredOn (log ++ log') i = retiredOn log i ++ retiredOn log' i :=
  List.flatMap_append

end

attribute [simp] TuDmaEvent.acceptedOn TuDmaEvent.executedIds TuDmaEvent.retiredOn

/-- The pointers of the channel lead to descriptors that satisfy `p`. -/
structure ChannelView.Within (ch : ChannelView) (p : Nat → Prop) : Prop where
  head : ∀ d, ch.head = some d → p d
  tail : ∀ d, ch.tail = some d → p d
  active : ∀ d, ch.active = some d → p d

namespace QueueView

section

variable (v : QueueView) (i j : Nat) (f : ChannelView → ChannelView) (evs : List TuDmaEvent)

@[simp] theorem setChannel_self : (v.setChannel i f).channels i = f (v.channels i) := Function.update_self _ _ _

variable {i j} in
theorem setChannel_of_ne (h : j ≠ i) : (v.setChannel i f).channels j = v.channels j := Function.update_of_ne h _ _

@[simp] theorem setChannel_next : (v.setChannel i f).next = v.next := rfl

@[simp] theorem setChannel_allocated : (v.setChannel i f).allocated = v.allocated := rfl

@[simp] theorem setChannel_cfg : (v.setChannel i f).cfg = v.cfg := rfl

@[simp] theorem setChannel_completed : (v.setChannel i f).completed = v.completed := rfl

@[simp] theorem setChannel_executes : (v.setChannel i f).executes = v.executes := rfl

@[simp] theorem setChannel_log : (v.setChannel i f).log = v.log := rfl

@[simp] theorem emit_channels : (v.emit evs).channels = v.channels := rfl

@[simp] theorem emit_next : (v.emit evs).next = v.next := rfl

@[simp] theorem emit_allocated : (v.emit evs).allocated = v.allocated := rfl

@[simp] theorem emit_cfg : (v.emit evs).cfg = v.cfg := rfl

@[simp] theorem emit_completed : (v.emit evs).completed = v.completed := rfl

@[simp] theorem emit_executes : (v.emit evs).executes = v.executes := rfl

@[simp] theorem emit_log : (v.emit evs).log = v.log ++ evs := rfl

end

/-! ### Pointers -/

/-- Links lead to later descriptors.  Every channel accepted its own descriptors, each once; its pointers and the
links of its descriptors lead to descriptors it accepted. -/
structure Ok (v : QueueView) : Prop where
  ascending : Ascending v.next v.allocated
  within : ∀ i, (v.channels i).Within (· ∈ acceptedOn v.log i)
  closed : ∀ i a b, a ∈ acceptedOn v.log i → v.next a = some b → b ∈ acceptedOn v.log i
  lt : ∀ i, ∀ d ∈ acceptedOn v.log i, d < v.allocated
  nodup : ∀ i, (acceptedOn v.log i).Nodup
  disjoint : ∀ i j, i ≠ j → ∀ d ∈ acceptedOn v.log i, d ∉ acceptedOn v.log j

section

variable {v : QueueView}

theorem Ok.below (h : v.Ok) (i : Nat) : (v.channels i).Within (· < v.allocated) :=
  ⟨fun d hd => h.lt i d ((h.within i).head d hd), fun d hd => h.lt i d ((h.within i).tail d hd),
    fun d hd => h.lt i d ((h.within i).active d hd)⟩

/-- A step that accepts nothing and leaves the links alone. -/
theorem Ok.congr {w : QueueView} (h : v.Ok) (hn : w.next = v.next) (ha : w.allocated = v.allocated)
    (hacc : ∀ i, acceptedOn w.log i = acceptedOn v.log i)
    (hch : ∀ i, (w.channels i).Within (· ∈ acceptedOn v.log i)) : w.Ok := by
  refine ⟨?_, fun i => ?_, fun i a b => ?_, fun i => ?_, fun i => ?_, fun i j hij => ?_⟩
  · rw [hn, ha]
    exact h.ascending
  · rw [hacc]
    exact hch i
  · rw [hacc, hn]
    exact h.closed i a b
  · rw [hacc, ha]
    exact h.lt i
  · rw [hacc]
    exact h.nodup i
  · rw [hacc, hacc]
    exact h.disjoint i j hij

/-- A step that changes one channel. -/
theorem Ok.congr_channel {w : QueueView} (h : v.Ok) (i : Nat) (hn : w.next = v.next) (ha : w.allocated = v.allocated)
    (hacc : ∀ j, acceptedOn w.log j = acceptedOn v.log j) (hch : ∀ j, j ≠ i → w.channels j = v.channels j)
    (hi : (w.channels i).Within (· ∈ acceptedOn v.log i)) : w.Ok := by
  refine h.congr hn ha hacc fun j => ?_
  by_cases hj : j = i
  · subst hj
    exact hi
  · rw [hch j hj]
    exact h.within j

theorem Ok.next_lt (h : v.Ok) {a b : Nat} (hab : v.next a = some b) : b < v.allocated := (h.ascending a b hab).2

theorem Ok.queue_isSeg (h : v.Ok) (i : Nat) : IsSeg v.next (v.channels i).head (v.queue i) :=
  h.ascending.walk_isSeg fun d hd => (h.below i).head d hd

theorem Ok.chain_isSeg (h : v.Ok) {p : Option Nat} (hp : ∀ d, p = some d → d < v.allocated) :
    IsSeg v.next p (v.chain p) := h.ascending.walk_isSeg hp

theorem Ok.chain_eq (h : v.Ok) {p : Option Nat} (hp : ∀ d, p = some d → d < v.allocated) {l : List Nat}
    (hl : IsSeg v.next p l) : v.chain p = l := (h.chain_isSeg hp).unique hl

theorem Ok.queue_eq (h : v.Ok) {i : Nat} {l : List Nat} (hl : IsSeg v.next (v.channels i).head l) :
    v.queue i = l := (h.queue_isSeg i).unique hl

/-- Queues are strictly increasing and below the allocation bound. -/
theorem Ok.chain_sorted (h : v.Ok) {p : Option Nat} (hp : ∀ d, p = some d → d < v.allocated) :
    (v.chain p).Pairwise (· < ·) ∧ ∀ d ∈ v.chain p, d < v.allocated := by
  obtain ⟨l, hl, hs, hlt⟩ := h.ascending.exists_isSeg hp
  rw [h.chain_eq hp hl]
  exact ⟨hs, hlt⟩

theorem Ok.queue_lt (h : v.Ok) {i d : Nat} (hd : d ∈ v.queue i) : d < v.allocated :=
  (h.chain_sorted fun d hd => (h.below i).head d hd).2 d hd

theorem Ok.queue_nodup (h : v.Ok) (i : Nat) : (v.queue i).Nodup :=
  (h.chain_sorted fun d hd => (h.below i).head d hd).1.imp Nat.ne_of_lt

theorem Ok.queue_length (h : v.Ok) (i : Nat) : (v.queue i).length ≤ v.allocated :=
  length_le_of_pairwise_lt (h.chain_sorted fun d hd => (h.below i).head d hd).1 fun _ hd => h.queue_lt hd

/-- Following the links stays among the descriptors a channel accepted. -/
theorem Ok.chain_accepted (h : v.Ok) {i d : Nat} {p : Option Nat} (hp : ∀ a, p = some a → a ∈ acceptedOn v.log i)
    (hd : d ∈ v.chain p) : d ∈ acceptedOn v.log i := by
  have hseg := h.chain_isSeg fun a ha => h.lt i a (hp a ha)
  generalize v.chain p = q at hd hseg
  induction q generalizing p with
  | nil => cases hd
  | cons a q ih =>
    obtain ⟨rfl, hq⟩ := hseg
    rcases List.mem_cons.1 hd with rfl | hd
    · exact hp d rfl
    · exact ih (fun b hb => h.closed i a b (hp a rfl) hb) hd hq

theorem Ok.queue_accepted (h : v.Ok) {i d : Nat} (hd : d ∈ v.queue i) : d ∈ acceptedOn v.log i :=
  h.chain_accepted (h.within i).head hd

theorem queue_of_head_none {i : Nat} (h : (v.channels i).head = none) : v.queue i = [] := by
  unfold queue chain
  rw [h, walk_none]

theorem Ok.queue_of_head (h : v.Ok) {i d : Nat} (hd : (v.channels i).head = some d) :
    v.queue i = d :: v.chain (v.next d) := by
  refine h.queue_eq ?_
  rw [hd]
  exact ⟨rfl, h.chain_isSeg fun _ hb => h.next_lt hb⟩

/-! ### What the small steps leave in the view -/

section

variable (v : QueueView) (i d : Nat) (cost : Option Nat)

/-- The event of the executor. -/
def execEvents : List TuDmaEvent := if v.completed d then [] else [.executed d (v.executes d)]

def grantEvents (i d : Nat) (cost : Option Nat) : List TuDmaEvent := (cost.map (.granted i d)).toList

@[simp] theorem acceptedOn_execEvents (j : Nat) : acceptedOn (v.execEvents d) j = [] := by
  unfold execEvents
  split <;> rfl

@[simp] theorem retiredOn_execEvents (j : Nat) : retiredOn (v.execEvents d) j = [] := by
  unfold execEvents
  split <;> rfl

@[simp] theorem executedIds_execEvents : executedIds (v.execEvents d) = if v.completed d then [] else [d] := by
  unfold execEvents
  split <;> rfl

@[simp] theorem acceptedOn_grantEvents (j : Nat) : acceptedOn (grantEvents i d cost) j = [] := by
  cases cost <;> rfl

@[simp] theorem retiredOn_grantEvents (j : Nat) : retiredOn (grantEvents i d cost) j = [] := by
  cases cost <;> rfl

@[simp] theorem executedIds_grantEvents : executedIds (grantEvents i d cost) = [] := by
  cases cost <;> rfl

theorem exec_log : (v.exec d).log = v.log ++ v.execEvents d := by
  unfold QueueView.exec execEvents
  split <;> simp_all

theorem exec_completed (x : Nat) :
    (v.exec d).completed x = true ↔ v.completed x = true ∨ (x = d ∧ v.executes d = true) := by
  unfold QueueView.exec
  split
  · rename_i hc
    constructor
    · exact .inl
    · rintro (h | ⟨rfl, -⟩)
      · exact h
      · exact hc
  · rename_i hc
    dsimp only
    by_cases hx : x = d
    · subst hx
      rw [Function.update_self]
      simp [hc]
    · rw [Function.update_of_ne hx]
      simp [hx]

@[simp] theorem start_completed : (v.start i d cost).completed = (v.exec d).completed := by
  unfold start exec
  rw [emit_completed, setChannel_completed, emit_executes, setChannel_executes]
  split <;> rfl

theorem start_log :
    (v.start i d cost).log = v.log ++ (.dequeued i d :: grantEvents i d cost) ++ v.execEvents d := by
  unfold start
  rw [exec_log]
  rfl

@[simp] theorem start_self :
    (v.start i d cost).channels i =
      { v.channels i with
        active := some d, head := v.next d, queueDepth := (v.channels i).queueDepth - 1 } := by
  unfold start
  rw [exec_channels, emit_channels, setChannel_self]

variable {i} in
theorem start_of_ne {j : Nat} (h : j ≠ i) : (v.start i d cost).channels j = v.channels j := by
  unfold start
  rw [exec_channels, emit_channels, setChannel_of_ne _ _ h]

@[simp] theorem acceptedOn_start (j : Nat) : acceptedOn (v.start i d cost).log j = acceptedOn v.log j := by
  simp [start_log]

@[simp] theorem retiredOn_start (j : Nat) : retiredOn (v.start i d cost).log j = retiredOn v.log j := by
  simp [start_log]

@[simp] theorem executedIds_start :
    executedIds (v.start i d cost).log = executedIds v.log ++ if v.completed d then [] else [d] := by
  simp [start_log]

@[simp] theorem retire_self :
    (v.retire i d).channels i =
      { v.channels i with active := none, totalCompleted := u64 ((v.channels i).totalCompleted + 1) } := by
  unfold retire
  rw [emit_channels, setChannel_self]

variable {i} in
theorem retire_of_ne {j : Nat} (h : j ≠ i) : (v.retire i d).channels j = v.channels j := by
  unfold retire
  rw [emit_channels, setChannel_of_ne _ _ h]

theorem retire_log : (v.retire i d).log = v.log ++ [.retired i d] := rfl

@[simp] theorem acceptedOn_retire (j : Nat) : acceptedOn (v.retire i d).log j = acceptedOn v.log j := by
  simp [retire_log]

@[simp] theorem retiredOn_retire (j : Nat) :
    retiredOn (v.retire i d).log j = retiredOn v.log j ++ if i = j then [d] else [] := by
  simp [retire_log]

@[simp] theorem executedIds_retire : executedIds (v.retire i d).log = executedIds v.log := by
  simp [retire_log]

@[simp] theorem drain_completed : (v.drain i d).completed = (v.exec d).completed := rfl

theorem drain_log : (v.drain i d).log = v.log ++ v.execEvents d ++ [.dequeued i d, .retired i d] := by
  show (v.exec d).log ++ _ = _
  rw [exec_log]

@[simp] theorem drain_self :
    (v.drain i d).channels i =
      { v.channels i with
        head := v.next d, queueDepth := (v.channels i).queueDepth - 1,
        totalCompleted := u64 ((v.channels i).totalCompleted + 1) } := by
  unfold drain
  rw [emit_channels, setChannel_self, exec_channels]

variable {i} in
theorem drain_of_ne {j : Nat} (h : j ≠ i) : (v.drain i d).channels j = v.channels j := by
  unfold drain
  rw [emit_channels, setChannel_of_ne _ _ h, exec_channels]

@[simp] theorem acceptedOn_drain (j : Nat) : acceptedOn (v.drain i d).log j = acceptedOn v.log j := by
  simp [drain_log]

@[simp] theorem retiredOn_drain (j : Nat) :
    retiredOn (v.drain i d).log j = retiredOn v.log j ++ if i = j then [d] else [] := by
  simp [drain_log]

@[simp] theorem executedIds_drain :
    executedIds (v.drain i d).log = executedIds v.log ++ if v.completed d then [] else [d] := by
  simp [drain_log]

@[simp] theorem clearTail_self : (v.clearTail i).channels i = { v.channels i with tail := none } :=
  v.setChannel_self i _

variable {i} in
theorem clearTail_of_ne {j : Nat} (h : j ≠ i) : (v.clearTail i).channels j = v.channels j := v.setChannel_of_ne _ h

@[simp] theorem flushActive_next : (v.flushActive i d).next = v.next := exec_next v d

@[simp] theorem flushActive_allocated : (v.flushActive i d).allocated = v.allocated := exec_allocated v d

@[simp] theorem flushActive_executes : (v.flushActive i d).executes = v.executes := exec_executes v d

@[simp] theorem flushActive_completed : (v.flushActive i d).completed = (v.exec d).completed := rfl

theorem flushActive_log : (v.flushActive i d).log = v.log ++ v.execEvents d ++ [.retired i d] := by
  show (v.exec d).log ++ _ = _
  rw [exec_log]

@[simp] theorem flushActive_self :
    (v.flushActive i d).channels i =
      { v.channels i with active := none, totalCompleted := u64 ((v.channels i).totalCompleted + 1) } := by
  unfold flushActive
  rw [emit_channels, setChannel_self, exec_channels]

variable {i} in
theorem flushActive_of_ne {j : Nat} (h : j ≠ i) : (v.flushActive i d).channels j = v.channels j := by
  unfold flushActive
  rw [emit_channels, setChannel_of_ne _ _ h, exec_channels]

@[simp] theorem acceptedOn_flushActive (j : Nat) : acceptedOn (v.flushActive i d).log j = acceptedOn v.log j := by
  simp [flushActive_log]

@[simp] theorem retiredOn_flushActive (j : Nat) :
    retiredOn (v.flushActive i d).log j = retiredOn v.log j ++ if i = j then [d] else [] := by
  simp [flushActive_log]

@[simp] theorem executedIds_flushActive :
    executedIds (v.flushActive i d).log = executedIds v.log ++ if v.completed d then [] else [d] := by
  simp [flushActive_log]

@[simp] theorem link_cfg : (v.link i d).cfg = v.cfg := by unfold link; split <;> rfl

@[simp] theorem link_allocated : (v.link i d).allocated = v.allocated := by unfold link; split <;> rfl

@[simp] theorem link_completed : (v.link i d).completed = v.completed := by unfold link; split <;> rfl

@[simp] theorem link_executes : (v.link i d).executes = v.executes := by unfold link; split <;> rfl

@[simp] theorem link_log : (v.link i d).log = v.log := by unfold link; split <;> rfl

variable {i} in
theorem link_of_ne {j : Nat} (h : j ≠ i) : (v.link i d).channels j = v.channels j := by
  unfold link
  split <;> rw [setChannel_of_ne _ _ h]

theorem link_self :
    (v.link i d).channels i =
      { v.channels i with
        head := if (v.channels i).head.isNone then some d else (v.channels i).head, tail := some d } := by
  unfold link
  split <;> rw [setChannel_self] <;> simp_all

@[simp] theorem append_next (c : List Nat) : (v.append i d c).next = (v.link i d).next := rfl

@[simp] theorem append_cfg (c : List Nat) : (v.append i d c).cfg = v.cfg := v.link_cfg i d

@[simp] theorem append_allocated (c : List Nat) : (v.append i d c).allocated = v.allocated := v.link_allocated i d

@[simp] theorem append_completed (c : List Nat) : (v.append i d c).completed = v.completed := v.link_completed i d

@[simp] theorem append_executes (c : List Nat) : (v.append i d c).executes = v.executes := v.link_executes i d

theorem append_log (c : List Nat) : (v.append i d c).log = v.log ++ [.accepted i c] := by
  show (v.link i d).log ++ _ = _
  rw [link_log]

variable {i} in
theorem append_of_ne (c : List Nat) {j : Nat} (h : j ≠ i) : (v.append i d c).channels j = v.channels j := by
  unfold append
  rw [emit_channels, setChannel_of_ne _ _ h, v.link_of_ne d h]

theorem append_self (c : List Nat) :
    (v.append i d c).channels i =
      { v.channels i with
        head := if (v.channels i).head.isNone then some d else (v.channels i).head, tail := some d,
        queueDepth := (v.channels i).queueDepth + 1,
        totalSubmitted := u64 ((v.channels i).totalSubmitted + 1) } := by
  unfold append
  rw [emit_channels, setChannel_self, link_self]

@[simp] theorem acceptedOn_appendStep (c : List Nat) (j : Nat) :
    acceptedOn (v.append i d c).log j = acceptedOn v.log j ++ if i = j then c else [] := by
  simp [append_log]

@[simp] theorem retiredOn_appendStep (c : List Nat) (j : Nat) :
    retiredOn (v.append i d c).log j = retiredOn v.log j := by
  simp [append_log]

@[simp] theorem executedIds_appendStep (c : List Nat) :
    executedIds (v.append i d c).log = executedIds v.log := by
  simp [append_log]

end

/-! ### The small steps keep pointers -/

theorem Ok.start (h : v.Ok) {i d : Nat} (cost : Option Nat) (hd : (v.channels i).head = some d) :
    (v.start i d cost).Ok := by
  refine h.congr_channel i (v.start_next i d cost) (v.start_allocated i d cost) (v.acceptedOn_start i d cost)
    (fun _ hj => v.start_of_ne d cost hj) ?_
  have hmem := (h.within i).head d hd
  rw [start_self]
  refine ⟨fun b hb => h.closed i d b hmem hb, (h.within i).tail, ?_⟩
  rintro b hb
  cases hb
  exact hmem

theorem Ok.retire (h : v.Ok) (i a : Nat) : (v.retire i a).Ok := by
  refine h.congr_channel i rfl rfl (v.acceptedOn_retire i a) (fun _ hj => v.retire_of_ne a hj) ?_
  rw [retire_self]
  refine ⟨(h.within i).head, (h.within i).tail, ?_⟩
  intro b hb
  cases hb

theorem Ok.drain (h : v.Ok) {i d : Nat} (hd : (v.channels i).head = some d) : (v.drain i d).Ok := by
  refine h.congr_channel i (v.drain_next i d) (v.drain_allocated i d) (v.acceptedOn_drain i d)
    (fun _ hj => v.drain_of_ne d hj) ?_
  rw [drain_self]
  exact ⟨fun b hb => h.closed i d b ((h.within i).head d hd) hb, (h.within i).tail, (h.within i).active⟩

theorem Ok.clearTail (h : v.Ok) (i : Nat) : (v.clearTail i).Ok := by
  refine h.congr_channel i rfl rfl (fun _ => rfl) (fun _ hj => v.clearTail_of_ne hj) ?_
  rw [clearTail_self]
  refine ⟨(h.within i).head, ?_, (h.within i).active⟩
  intro b hb
  cases hb

theorem Ok.flushActive (h : v.Ok) (i a : Nat) : (v.flushActive i a).Ok := by
  refine h.congr_channel i (v.flushActive_next i a) (v.flushActive_allocated i a) (v.acceptedOn_flushActive i a)
    (fun _ hj => v.flushActive_of_ne a hj) ?_
  rw [flushActive_self]
  refine ⟨(h.within i).head, (h.within i).tail, ?_⟩
  intro b hb
  cases hb

theorem build_next_of_lt (n : Nat) (executes : Nat → Bool) {d : Nat} (hd : d < v.allocated) :
    (v.build n executes).next d = v.next d := if_neg (by omega)

theorem build_completed_of_lt (n : Nat) (executes : Nat → Bool) {d : Nat} (hd : d < v.allocated) :
    (v.build n executes).completed d = v.completed d := if_neg (by omega)

theorem build_completed (n : Nat) (executes : Nat → Bool) {d : Nat}
    (h : (v.build n executes).completed d = true) : v.completed d = true := by
  have h : (if v.allocated ≤ d ∧ d < v.allocated + n then false else v.completed d) = true := h
  split at h
  · cases h
  · exact h

theorem build_executes_of_lt (n : Nat) (executes : Nat → Bool) {d : Nat} (hd : d < v.allocated) :
    (v.build n executes).executes d = v.executes d := if_neg (by omega)

theorem build_executes_of_mem {n : Nat} (executes : Nat → Bool) {d : Nat} (hd : d ∈ List.range' v.allocated n) :
    (v.build n executes).executes d = executes d := if_pos (List.mem_range'_1.1 hd)

/-- The links of a fresh chain stay inside it. -/
theorem build_next_mem {n : Nat} (executes : Nat → Bool) {d b : Nat} (hd : d ∈ List.range' v.allocated n)
    (hb : (v.build n executes).next d = some b) : b ∈ List.range' v.allocated n := by
  have hd := List.mem_range'_1.1 hd
  have hb : (if v.allocated ≤ d ∧ d < v.allocated + n then
      if d + 1 < v.allocated + n then some (d + 1) else none else v.next d) = some b := hb
  rw [if_pos hd] at hb
  split at hb
  · cases hb
    rw [List.mem_range'_1]
    omega
  · cases hb

theorem link_next_of_ne {i d x : Nat}
    (h : ∀ t, (v.channels i).head ≠ none → (v.channels i).tail = some t → x ≠ t) : (v.link i d).next x = v.next x := by
  unfold link
  split
  · rfl
  · rfl
  · rename_i t hh ht
    exact Function.update_of_ne (h t (by rw [hh]; simp) ht) _ _

theorem link_next {i d x b : Nat} (h : (v.link i d).next x = some b) :
    (b = d ∧ (v.channels i).tail = some x) ∨ v.next x = some b := by
  unfold link at h
  split at h
  · exact .inr h
  · exact .inr h
  · rename_i t _ ht
    have h : Function.update v.next t (some d) x = some b := h
    by_cases hx : x = t
    · rw [hx, Function.update_self] at h
      cases h
      exact .inl ⟨rfl, ht.trans (congrArg some hx.symm)⟩
    · rw [Function.update_of_ne hx] at h
      exact .inr h

theorem Ok.build (h : v.Ok) (n : Nat) (executes : Nat → Bool) : (v.build n executes).Ok := by
  refine ⟨?_, h.within, fun i a b ha hab => ?_, fun i d hd => ?_, h.nodup, h.disjoint⟩
  · intro a b hab
    show a < b ∧ b < v.allocated + n
    have hab : (if v.allocated ≤ a ∧ a < v.allocated + n then
        if a + 1 < v.allocated + n then some (a + 1) else none else v.next a) = some b := hab
    split at hab
    · split at hab
      · cases hab
        omega
      · cases hab
    · have := h.ascending a b hab
      omega
  · rw [build_next_of_lt n executes (h.lt i a ha)] at hab
    exact h.closed i a b ha hab
  · exact Nat.lt_of_lt_of_le (h.lt i d hd) (Nat.le_add_right _ _)

/-- A freshly built chain may be appended to any queue. -/
theorem Ok.build_append (h : v.Ok) {n : Nat} (executes : Nat → Bool) (hn : 0 < n) (i : Nat) :
    ((v.build n executes).append i v.allocated (List.range' v.allocated n)).Ok := by
  have hfirst : v.allocated ∈ List.range' v.allocated n := List.mem_range'_1.2 (by omega)
  have hfresh : ∀ d ∈ List.range' v.allocated n, v.allocated ≤ d ∧ d < v.allocated + n := fun d hd =>
    List.mem_range'_1.1 hd
  have hacc : ∀ j, acceptedOn ((v.build n executes).append i v.allocated (List.range' v.allocated n)).log j =
      acceptedOn v.log j ++ if i = j then List.range' v.allocated n else [] :=
    acceptedOn_appendStep _ i v.allocated _
  have hmem : ∀ j d, d ∈ acceptedOn ((v.build n executes).append i v.allocated (List.range' v.allocated n)).log j ↔
      d ∈ acceptedOn v.log j ∨ (i = j ∧ d ∈ List.range' v.allocated n) := by
    intro j d
    rw [hacc, List.mem_append]
    by_cases hj : i = j <;> simp [hj]
  refine ⟨fun a b hab => ?_, fun j => ?_, fun j a b ha hab => ?_, fun j d hd => ?_, fun j => ?_,
    fun j k hjk d hd hd' => ?_⟩
  · rw [append_next] at hab
    rw [append_allocated]
    rcases link_next hab with ⟨rfl, ht⟩ | hab
    · have hlt := (h.below i).tail a ht
      exact ⟨hlt, Nat.lt_add_of_pos_right hn⟩
    · exact (h.build n executes).ascending a b hab
  · by_cases hj : j = i
    · subst hj
      rw [append_self]
      refine ⟨fun d hd => (hmem j d).2 ?_, fun d hd => (hmem j d).2 ?_, fun d hd => (hmem j d).2 ?_⟩
      · dsimp only at hd
        split at hd
        · cases hd
          exact .inr ⟨rfl, hfirst⟩
        · exact .inl ((h.within j).head d hd)
      · cases hd
        exact .inr ⟨rfl, hfirst⟩
      · exact .inl ((h.within j).active d hd)
    · rw [append_of_ne _ _ _ hj]
      exact ⟨fun d hd => (hmem j d).2 (.inl ((h.within j).head d hd)),
        fun d hd => (hmem j d).2 (.inl ((h.within j).tail d hd)),
        fun d hd => (hmem j d).2 (.inl ((h.within j).active d hd))⟩
  · rw [append_next] at hab
    rw [hmem] at ha ⊢
    rcases link_next hab with ⟨rfl, ht⟩ | hab
    · -- the old tail is linked to the fresh chain
      have hi := (h.within i).tail a ht
      by_cases hij : i = j
      · exact .inr ⟨hij, hfirst⟩
      · rcases ha with ha | ⟨hj, -⟩
        · exact absurd ha (h.disjoint i j hij a hi)
        · exact absurd hj hij
    · rcases ha with ha | ⟨hj, ha⟩
      · rw [build_next_of_lt n executes (h.lt j a ha)] at hab
        exact .inl (h.closed j a b ha hab)
      · exact .inr ⟨hj, build_next_mem executes ha hab⟩
  · rw [append_allocated]
    rcases (hmem j d).1 hd with hd | ⟨-, hd⟩
    · exact Nat.lt_of_lt_of_le (h.lt j d hd) (Nat.le_add_right _ _)
    · exact (hfresh d hd).2
  · rw [hacc]
    split
    · refine List.nodup_append.2 ⟨h.nodup j, List.nodup_range', ?_⟩
      rintro d hd x hx rfl
      have := h.lt j d hd
      have := hfresh d hx
      omega
    · rw [List.append_nil]
      exact h.nodup j
  · have hold : ∀ k, d ∈ acceptedOn v.log k → d ∉ List.range' v.allocated n := by
      intro k hk hx
      have := h.lt k d hk
      have := hfresh d hx
      omega
    rcases (hmem j d).1 hd with hd | ⟨hj, hd⟩
    · rcases (hmem k d).1 hd' with hd' | ⟨-, hd'⟩
      · exact h.disjoint j k hjk d hd hd'
      · exact hold j hd hd'
    · rcases (hmem k d).1 hd' with hd' | ⟨hk, -⟩
      · exact hold k hd' hd
      · exact hjk (hj.symm.trans hk)

theorem Ok.tickStep {w : QueueView} (h : v.Ok) (hs : TickStep v w) : w.Ok := by
  cases hs with
  | start cost hi hh ha => exact h.start cost hh
  | retire hi ha => exact h.retire _ _

/-- What every drain keeps, draining a whole queue keeps. -/
theorem drainAll_keeps {P : QueueView → Prop} {i : Nat} {q : List Nat} (hok : v.Ok) (hP : P v)
    (hq : IsSeg v.next (v.channels i).head q)
    (hdrain : ∀ {v d}, v.Ok → P v → (v.channels i).head = some d → P (v.drain i d)) :
    (v.drainAll i q).Ok ∧ P (v.drainAll i q) ∧ ((v.drainAll i q).channels i).head = none := by
  induction q generalizing v with
  | nil => exact ⟨hok, hP, hq⟩
  | cons d q ih =>
    obtain ⟨hh, hq⟩ := hq
    have hnext : IsSeg (v.drain i d).next ((v.drain i d).channels i).head q := by
      rw [drain_next]
      unfold QueueView.drain
      rwa [emit_channels, setChannel_self]
    exact ih (hok.drain hh) (hdrain hok hP hh) hnext

end

end QueueView

/-! ### Operations -/

section

variable {P : QueueView → Prop} {e : TuDmaEngine}

private theorem tickSteps_keep {v w : QueueView} (h : ReflTransGen QueueView.TickStep v w) (hok : v.Ok) (hP : P v)
    (hstep : ∀ {v w}, v.Ok → P v → QueueView.TickStep v w → P w) : w.Ok ∧ P w := by
  induction h with
  | refl => exact ⟨hok, hP⟩
  | tail _ hs ih => exact ⟨ih.1.tickStep hs, hstep ih.1 ih.2 hs⟩

/-- What the steps of a tick keep, a tick keeps. -/
theorem tick_keeps (hok : e.view.Ok) (hP : P e.view) (hstep : ∀ {v w}, v.Ok → P v → QueueView.TickStep v w → P w) :
    (tuDmaTick e).1.view.Ok ∧ P (tuDmaTick e).1.view :=
  tickSteps_keep (view_tuDmaTick e) hok hP hstep

/-- What the steps of a tick keep, its channels keep before arbitration. -/
theorem tickChannels_keeps (hok : e.view.Ok) (hP : P e.view)
    (hstep : ∀ {v w}, v.Ok → P v → QueueView.TickStep v w → P w) :
    (tickChannels e).1.view.Ok ∧ P (tickChannels e).1.view :=
  tickSteps_keep (view_tickChannels e) hok hP hstep

theorem tickChannels_ok (hok : e.view.Ok) : (tickChannels e).1.view.Ok :=
  (tickChannels_keeps (P := fun _ => True) hok trivial fun _ _ _ => trivial).1

/-- What the steps of a flush keep, a flush keeps. -/
theorem flush_keeps (channel : UInt8) (hok : e.view.Ok) (hP : P e.view)
    (hdrain : ∀ {v d}, v.Ok → P v → (v.channels channel.toNat).head = some d → P (v.drain channel.toNat d))
    (hclear : ∀ {v}, v.Ok → P v → (v.channels channel.toNat).head = none → P (v.clearTail channel.toNat))
    (hactive : ∀ {v a}, v.Ok → P v → (v.channels channel.toNat).active = some a → P (v.flushActive channel.toNat a)) :
    (tuDmaFlushChannel e channel).view.Ok ∧ P (tuDmaFlushChannel e channel).view := by
  by_cases hi : channel.toNat < e.cfg.numChannels
  · have hseg := hok.queue_isSeg channel.toNat
    rw [view_tuDmaFlushChannel hi hseg (hok.queue_length _)]
    generalize channel.toNat = i at *
    obtain ⟨hok', hP', hhead⟩ := QueueView.drainAll_keeps hok hP hseg hdrain
    unfold QueueView.flush
    rw [← QueueView.drainAll_active e.view i (e.view.queue i)]
    cases ha : ((e.view.drainAll i (e.view.queue i)).channels i).active with
    | none => exact ⟨hok'.clearTail i, hclear hok' hP' hhead⟩
    | some a =>
      refine ⟨(hok'.clearTail i).flushActive i a, hactive (hok'.clearTail i) (hclear hok' hP' hhead) ?_⟩
      unfold QueueView.clearTail
      rw [QueueView.setChannel_self]
      exact ha
  · have h : tuDmaFlushChannel e channel = e := by
      unfold tuDmaFlushChannel
      exact if_pos (Nat.le_of_not_lt hi)
    rw [h]
    exact ⟨hok, hP⟩

/-- The channel a submission of `descs` goes to, if it passes the gates. -/
def admitted (e : TuDmaEngine) (descs : List TuDmaDescriptor) : Option Nat :=
  if descs = [] then none
  else if admits (newChain e descs).1 e.allocated then some (selectChannel (newChain e descs).1 e.allocated)
  else none

theorem admitted_eq_some {descs : List TuDmaDescriptor} {i : Nat} (h : admitted e descs = some i) :
    descs ≠ [] ∧ admits (newChain e descs).1 e.allocated = true ∧
      selectChannel (newChain e descs).1 e.allocated = i := by
  unfold admitted at h
  split at h
  · cases h
  · rename_i hne
    split at h
    · rename_i ha
      exact ⟨hne, ha, Option.some.inj h⟩
    · cases h

theorem newChain_chain (e : TuDmaEngine) {descs : List TuDmaDescriptor} (hne : descs ≠ []) :
    (newChain e descs).1.chain (some e.allocated) = List.range' e.allocated descs.length := by
  rw [← view_chain, view_newChain]
  exact e.view.build_chain _ (List.length_pos_iff.2 hne)

theorem builtHeap_of_mem (heap : Nat → TuDmaDescriptor) {n d : Nat} {descs : List TuDmaDescriptor}
    (hd : d ∈ List.range' n descs.length) :
    ∃ desc ∈ descs, builtHeap heap n descs d =
      { desc.cleared with next := if d + 1 < n + descs.length then some (d + 1) else none } := by
  have hd := List.mem_range'_1.1 hd
  have hlt : d - n < descs.length := by omega
  refine ⟨descs[d - n], List.getElem_mem hlt, ?_⟩
  unfold builtHeap
  rw [if_neg (by omega), List.getElem?_eq_getElem hlt]

/-- What building a chain, appending it to the selected channel and draining that channel keep, a submission keeps. -/
theorem submit_keeps {descs : List TuDmaDescriptor} (hok : e.view.Ok)
    (hbuild : ∀ executes, P (e.view.build descs.length executes))
    (happend : ∀ executes i, (∀ d, executes d = executable e.cfg e.mem.sizes (builtHeap e.heap e.allocated descs d)) →
      admitted e descs = some i →
      P ((e.view.build descs.length executes).append i e.allocated (List.range' e.allocated descs.length)))
    (hdrain : ∀ {v i d}, e.cfg.asyncMode = false → v.Ok → P v → (v.channels i).head = some d → P (v.drain i d))
    (hclear : ∀ {v i}, e.cfg.asyncMode = false → v.Ok → P v → (v.channels i).head = none → P (v.clearTail i)) :
    (submitChain e descs).1.view.Ok ∧ P (submitChain e descs).1.view := by
  have hv := view_newChain e descs
  rw [submitChain_eq]
  by_cases hnil : descs = []
  · rw [if_pos hnil]
    show (newChain e descs).1.view.Ok ∧ P (newChain e descs).1.view
    rw [hv]
    exact ⟨hok.build _ _, hbuild _⟩
  rw [if_neg hnil]
  have hpos : 0 < descs.length := List.length_pos_iff.2 hnil
  cases ha : admits (newChain e descs).1 e.allocated with
  | false =>
    rw [tuDmaSubmitDesc_refused ha, hv]
    exact ⟨hok.build _ _, hbuild _⟩
  | true =>
    rw [tuDmaSubmitDesc_admits ha]
    dsimp only
    have hadm : admitted e descs = some (selectChannel (newChain e descs).1 e.allocated) := by
      unfold admitted
      rw [if_neg hnil, if_pos ha]
    generalize selectChannel (newChain e descs).1 e.allocated = i at hadm ⊢
    have hview : (acceptChain (newChain e descs).1 i e.allocated).view =
        (e.view.build descs.length fun d => executable e.cfg e.mem.sizes (builtHeap e.heap e.allocated descs d)).append
          i e.allocated (List.range' e.allocated descs.length) := by
      rw [view_acceptChain, ← view_chain, hv]
      exact congrArg _ (e.view.build_chain _ hpos)
    have hok' : (acceptChain (newChain e descs).1 i e.allocated).view.Ok := by
      rw [hview]
      exact hok.build_append _ hpos i
    have hP' : P (acceptChain (newChain e descs).1 i e.allocated).view := by
      rw [hview]
      exact happend _ i (fun _ => rfl) hadm
    have hcfg : (acceptChain (newChain e descs).1 i e.allocated).cfg = e.cfg := by
      have := congrArg QueueView.cfg hview
      rw [view_cfg] at this
      exact this.trans (QueueView.append_cfg _ i _ _)
    unfold commitSubmission
    dsimp only
    generalize acceptChain (newChain e descs).1 i e.allocated = e' at *
    split
    · exact ⟨hok', hP'⟩
    · rename_i hsync
      have hsync : e.cfg.asyncMode = false := by rw [← hcfg]; simpa using hsync
      have hclearView := view_setChannel (executePending e'.allocated e' i) i (f := fun ch => { ch with tail := none })
        (g := fun ch => { ch with tail := none }) rfl
      have hseg := hok'.queue_isSeg i
      have hpending : (executePending e'.allocated e' i).view = e'.view.drainAll i (e'.view.queue i) :=
        view_executePending hseg (hok'.queue_length i)
      rw [hclearView, hpending]
      obtain ⟨hok'', hP'', hhead⟩ := QueueView.drainAll_keeps hok' hP' hseg fun h₁ h₂ h₃ => hdrain hsync h₁ h₂ h₃
      exact ⟨hok''.clearTail i, hclear hsync hok'' hP'' hhead⟩

/-! ### Accepted descriptors -/

private theorem acceptedOn_tickStep {v w : QueueView} (h : QueueView.TickStep v w) (i : Nat) :
    acceptedOn w.log i = acceptedOn v.log i := by
  cases h with
  | start cost _ _ _ => exact QueueView.acceptedOn_start _ _ _ cost i
  | retire _ _ => exact QueueView.acceptedOn_retire _ _ _ i

theorem acceptedOn_tickChannels (hok : e.view.Ok) (i : Nat) :
    acceptedOn (tickChannels e).1.log i = acceptedOn e.log i :=
  (tickChannels_keeps (P := fun v => acceptedOn v.log i = acceptedOn e.log i) hok rfl fun _ h hs =>
    (acceptedOn_tickStep hs i).trans h).2

theorem acceptedOn_flush (hok : e.view.Ok) (channel : UInt8) (i : Nat) :
    acceptedOn (tuDmaFlushChannel e channel).log i = acceptedOn e.log i :=
  (flush_keeps channel (P := fun v => acceptedOn v.log i = acceptedOn e.log i) hok rfl
    (fun _ h _ => (QueueView.acceptedOn_drain _ _ _ i).trans h) (fun _ h _ => h)
    fun _ h _ => (QueueView.acceptedOn_flushActive _ _ _ i).trans h).2

/-- A submission accepts its own chain or nothing. -/
theorem acceptedOn_submit {descs : List TuDmaDescriptor} (hok : e.view.Ok) {i d : Nat}
    (hd : d ∈ acceptedOn (submitChain e descs).1.log i) :
    d ∈ acceptedOn e.log i ∨ ((admitted e descs).isSome = true ∧ d ∈ List.range' e.allocated descs.length) := by
  refine (submit_keeps (P := fun v => ∀ d ∈ acceptedOn v.log i, d ∈ acceptedOn e.log i ∨
    ((admitted e descs).isSome = true ∧ d ∈ List.range' e.allocated descs.length)) hok ?_ ?_ ?_ ?_).2 d hd
  · exact fun _ x hx => .inl hx
  · intro executes j _ ha x hx
    rw [QueueView.acceptedOn_appendStep, List.mem_append] at hx
    rcases hx with hx | hx
    · exact .inl hx
    · refine .inr ⟨by rw [ha]; rfl, ?_⟩
      split at hx
      · exact hx
      · cases hx
  · intro v j x _ _ h _
    rw [QueueView.acceptedOn_drain]
    exact h
  · intro v j _ _ h _
    exact h

end

/-! ### Runs -/

section

variable (cfg : TuDmaConfig) (mem : Memory)

theorem fresh_ok : (TuDmaEngine.fresh cfg mem).view.Ok := by
  refine ⟨?_, fun i => ⟨?_, ?_, ?_⟩, ?_, ?_, fun i => List.nodup_nil, ?_⟩
  · intro a b hab
    cases hab
  · intro d hd
    cases hd
  · intro d hd
    cases hd
  · intro d hd
    cases hd
  · intro i a b ha
    cases ha
  · intro i d hd
    cases hd
  · intro i j hij d hd
    cases hd

private theorem step_ok_cfg {e : TuDmaEngine} (op : TuDmaOp) (hok : e.view.Ok) :
    (e.step op).view.Ok ∧ (e.step op).view.cfg = e.cfg := by
  cases op with
  | submit descs =>
    refine submit_keeps (P := fun v => v.cfg = e.cfg) hok (fun _ => rfl) (fun executes i _ _ => ?_) ?_ ?_
    · exact QueueView.append_cfg _ i _ _
    · intro v i d _ _ hP _
      exact (QueueView.drain_cfg v i d).trans hP
    · intro v i _ _ hP _
      exact hP
  | tick =>
    refine tick_keeps (P := fun v => v.cfg = e.cfg) hok rfl ?_
    intro v w _ hP hs
    exact (tickSteps_cfg (.single hs)).trans hP
  | flush channel =>
    refine flush_keeps channel (P := fun v => v.cfg = e.cfg) hok rfl ?_ ?_ ?_
    · intro v d _ hP _
      exact (QueueView.drain_cfg v _ d).trans hP
    · intro v _ hP _
      exact hP
    · intro v a _ hP _
      exact (QueueView.exec_cfg v a).trans hP

theorem step_ok {e : TuDmaEngine} (op : TuDmaOp) (hok : e.view.Ok) : (e.step op).view.Ok := (step_ok_cfg op hok).1

theorem step_cfg {e : TuDmaEngine} (op : TuDmaOp) (hok : e.view.Ok) : (e.step op).cfg = e.cfg :=
  (step_ok_cfg op hok).2

theorem run_cfg (ops : List TuDmaOp) : (TuDmaEngine.run cfg mem ops).cfg = cfg :=
  (Run.invariant (P := fun e : TuDmaEngine => e.view.Ok ∧ e.cfg = cfg)
    (fun _ op he => ⟨step_ok op he.1, (step_cfg op he.1).trans he.2⟩) ⟨fresh_ok cfg mem, rfl⟩ ops).2

theorem run_ok (ops : List TuDmaOp) : (TuDmaEngine.run cfg mem ops).view.Ok :=
  Run.invariant (P := fun e : TuDmaEngine => e.view.Ok) (fun _ op => step_ok op) (fresh_ok cfg mem) ops

end

end Tusim
