import Mathlib.Algebra.BigOperators.Group.Finset.Piecewise
import Mathlib.Algebra.Order.Ring.Nat
import Tusim.Dma.Work

/-!
# The accounts of the channels

The executor books a transfer on the engine and on the channel that the descriptor names.  `transfers` replays the
descriptors that a log tells to have been moved and lists what each of them is booked with.

* `TransfersBooked`: the counters of the engine add up all transfers, those of a channel the transfers of the descriptors
  that name it (`Bookings.booked`);
* `QueueView.Dequeues`: a descriptor that was moved was taken from the queue of a channel that had accepted it;
* `run_channelsAccounted`: the counters of a channel add up the transfers served from its queue as long as the
  descriptors behind the head of every accepted chain name the channel that the chain goes to.
-/

namespace Tusim

open Word Finset

/-! ### Transfers -/

/-- What a transfer is booked with; `copied` is the memory after its copies. -/
def booking (cfg : TuDmaConfig) (copied : Memory) (desc : TuDmaDescriptor) : DmaCounter → Nat
  | .bytes => desc.totalBytes.toNat
  | .occupied => u64 (descriptorPayloadCycles cfg desc * cfg.busWidthBytes)
  | .cycles =>
    u64 (descriptorTransferCycles cfg desc + (sramStallCycles copied desc (descriptorTransferCycles cfg desc)).2)

/-- The memory after the copies of a descriptor. -/
def copiedMemory (m : Memory) (desc : TuDmaDescriptor) : Memory := m.copyAll ((descriptorCopies m.sizes desc).getD [])

/-- The memory after a transfer. -/
def servedMemory (cfg : TuDmaConfig) (m : Memory) (desc : TuDmaDescriptor) : Memory :=
  (sramStallCycles (copiedMemory m desc) desc (descriptorTransferCycles cfg desc)).1

/-- A descriptor that was moved, and what it was booked with. -/
structure DmaTransfer where
  desc : Nat
  amount : DmaCounter → Nat

/-- One more descriptor is moved. -/
def serve (cfg : TuDmaConfig) (heap : Nat → TuDmaDescriptor) (s : Memory × List DmaTransfer) (d : Nat) :
    Memory × List DmaTransfer :=
  (servedMemory cfg s.1 (heap d), s.2 ++ [⟨d, booking cfg (copiedMemory s.1 (heap d)) (heap d)⟩])

/-- The descriptors that an engine has moved since its memory was `m`, replayed. -/
def replay (m : Memory) (e : TuDmaEngine) : Memory × List DmaTransfer :=
  (movedIds e.log).foldl (serve e.cfg e.heap) (m, [])

def transfers (m : Memory) (e : TuDmaEngine) : List DmaTransfer := (replay m e).2

/-- The sum of a counter over transfers. -/
def amounts (l : List DmaTransfer) (c : DmaCounter) : Nat := (l.map (·.amount c)).sum

theorem amounts_append (l l' : List DmaTransfer) (c : DmaCounter) :
    amounts (l ++ l') c = amounts l c + amounts l' c := by
  unfold amounts
  rw [List.map_append, List.sum_append]

/-- The counters of every channel add up the transfers served from its queue, and the counters of the engine those of
the channels. -/
structure ChannelsAccounted (m : Memory) (e : TuDmaEngine) : Prop where
  channel : ∀ i < e.cfg.numChannels, ∀ c, (e.channels i).counter c =
    u64 (amounts ((transfers m e).filter fun t => .dequeued i t.desc ∈ e.log) c)
  engine : ∀ c, e.counter c = u64 (∑ i ∈ range e.cfg.numChannels, (e.channels i).counter c)

/-! ### Books -/

/-- The counters add up the transfers, those of a channel by the channel that the descriptors name. -/
structure TransfersBooked (m : Memory) (e : TuDmaEngine) : Prop where
  mem : e.mem = (replay m e).1
  engine : ∀ c, e.counter c = u64 (amounts (transfers m e) c)
  channel : ∀ i < e.cfg.numChannels, ∀ c, (e.channels i).counter c =
    u64 (amounts ((transfers m e).filter fun t => (e.heap t.desc).channel.toNat = i) c)

/-- A descriptor as the executor reads it to move its bytes. -/
def TuDmaDescriptor.transfer (desc : TuDmaDescriptor) : TuDmaDescriptor :=
  { desc.core with completed := false, cyclesCompleted := 0 }

theorem serve_transfer (cfg : TuDmaConfig) (heap : Nat → TuDmaDescriptor) (s : Memory × List DmaTransfer) (d : Nat) :
    serve cfg heap s d = serve cfg (fun d => (heap d).transfer) s d := rfl

theorem foldl_serve_congr (cfg : TuDmaConfig) {heap heap' : Nat → TuDmaDescriptor} {ids : List Nat}
    (h : ∀ d ∈ ids, (heap' d).transfer = (heap d).transfer) (s : Memory × List DmaTransfer) :
    ids.foldl (serve cfg heap') s = ids.foldl (serve cfg heap) s := by
  induction ids generalizing s with
  | nil => rfl
  | cons d ids ih =>
    have hserve : serve cfg heap' s d = serve cfg heap s d := by
      rw [serve_transfer cfg heap', serve_transfer cfg heap]
      unfold serve
      dsimp only
      rw [h d List.mem_cons_self]
    rw [List.foldl_cons, List.foldl_cons, hserve]
    exact ih (fun d' hd' => h d' (List.mem_cons_of_mem d hd')) _

theorem foldl_serve_desc (cfg : TuDmaConfig) (heap : Nat → TuDmaDescriptor) (ids : List Nat)
    (s : Memory × List DmaTransfer) :
    (ids.foldl (serve cfg heap) s).2.map (·.desc) = s.2.map (·.desc) ++ ids := by
  induction ids generalizing s with
  | nil => exact (List.append_nil _).symm
  | cons d ids ih =>
    rw [List.foldl_cons, ih]
    simp [serve]

/-- The transfers are those of the moved descriptors. -/
theorem transfers_desc {m : Memory} {e : TuDmaEngine} {t : DmaTransfer} (ht : t ∈ transfers m e) :
    t.desc ∈ movedIds e.log := by
  have hdesc := foldl_serve_desc e.cfg e.heap (movedIds e.log) (m, [])
  rw [List.map_nil, List.nil_append] at hdesc
  rw [← hdesc]
  exact List.mem_map_of_mem ht

section

variable {m : Memory} {e e' : TuDmaEngine}

/-- A step that changes no counter and no moved descriptor keeps the books. -/
theorem TransfersBooked.congr (h : TransfersBooked m e) (hcfg : e'.cfg = e.cfg) (hmem : e'.mem = e.mem)
    (hlog : movedIds e'.log = movedIds e.log)
    (htransfer : ∀ d ∈ movedIds e.log, (e'.heap d).transfer = (e.heap d).transfer)
    (hnamed : ∀ d ∈ movedIds e.log, (e'.heap d).channel = (e.heap d).channel) (hcounter : e'.counter = e.counter)
    (hchannels : ∀ i, (e'.channels i).counter = (e.channels i).counter) : TransfersBooked m e' := by
  have hreplay : replay m e' = replay m e := by
    unfold replay
    rw [hcfg, hlog]
    exact foldl_serve_congr e.cfg htransfer _
  have hfilter : ∀ i, (transfers m e').filter (fun t => (e'.heap t.desc).channel.toNat = i) =
      (transfers m e).filter (fun t => (e.heap t.desc).channel.toNat = i) := by
    intro i
    unfold transfers
    rw [hreplay]
    refine List.filter_congr fun t ht => ?_
    rw [hnamed t.desc (transfers_desc ht)]
  refine ⟨?_, fun c => ?_, fun i hi c => ?_⟩
  · rw [hmem, hreplay]
    exact h.mem
  · unfold transfers
    rw [hcounter, hreplay]
    exact h.engine c
  · rw [hchannels, hfilter]
    exact h.channel i (hcfg ▸ hi) c

theorem TransfersBooked.unbooked (h : TransfersBooked m e) (hun : Unbooked e e') : TransfersBooked m e' := by
  refine h.congr hun.cfg hun.mem hun.moved (fun d _ => ?_) (fun d _ => hun.channel d) hun.counter hun.channelCounter
  unfold TuDmaDescriptor.transfer
  rw [hun.core d]

/-! ### Executions -/

theorem accountTransfer_log (e : TuDmaEngine) (d : Nat) : (accountTransfer e d).log = e.log := by
  unfold accountTransfer
  dsimp only
  split <;> rfl

/-- The executor changes the completion of its descriptor and nothing else in the heap. -/
theorem accountTransfer_heap (e : TuDmaEngine) (d d' : Nat) :
    ((accountTransfer e d).heap d').transfer = (e.heap d').transfer ∧
      ((accountTransfer e d).heap d').channel = (e.heap d').channel := by
  have hheap : ∃ cycles, (accountTransfer e d).heap =
      Function.update e.heap d { e.heap d with completed := true, cyclesCompleted := cycles } := by
    unfold accountTransfer
    dsimp only
    split <;> exact ⟨_, rfl⟩
  obtain ⟨cycles, hheap⟩ := hheap
  rw [hheap]
  by_cases hd : d' = d
  · subst hd
    rw [Function.update_self]
    exact ⟨rfl, rfl⟩
  · rw [Function.update_of_ne hd]
    exact ⟨rfl, rfl⟩

theorem accountTransfer_counter (e : TuDmaEngine) (d : Nat) (c : DmaCounter) :
    (accountTransfer e d).counter c = u64 (e.counter c + booking e.cfg e.mem (e.heap d) c) := by
  unfold accountTransfer
  dsimp only
  split <;> cases c <;> rfl

theorem accountTransfer_channel (e : TuDmaEngine) (d : Nat) {i : Nat} (hi : i < e.cfg.numChannels) (c : DmaCounter) :
    ((accountTransfer e d).channels i).counter c =
      if (e.heap d).channel.toNat = i then u64 ((e.channels i).counter c + booking e.cfg e.mem (e.heap d) c)
      else (e.channels i).counter c := by
  have hbooked : (accountTransfer e d).channels = e.channels ∧ ¬(e.heap d).channel.toNat < e.cfg.numChannels ∨
      ∃ ch, (accountTransfer e d).channels = Function.update e.channels (e.heap d).channel.toNat ch ∧
        ch.counter c = u64 ((e.channels (e.heap d).channel.toNat).counter c + booking e.cfg e.mem (e.heap d) c) := by
    unfold accountTransfer
    dsimp only
    split
    · exact Or.inr ⟨_, rfl, by cases c <;> rfl⟩
    · rename_i hnone
      exact Or.inl ⟨rfl, hnone⟩
  rcases hbooked with ⟨hsame, hnone⟩ | ⟨ch, hupdate, hcounter⟩
  · rw [hsame, if_neg]
    rintro rfl
    exact hnone hi
  · rw [hupdate]
    by_cases hnamed : (e.heap d).channel.toNat = i
    · subst hnamed
      rw [if_pos rfl, Function.update_self, hcounter]
    · rw [if_neg hnamed, Function.update_of_ne (Ne.symm hnamed)]

/-- The executor leaves its engine alone, reports a refused descriptor, or moves and books it. -/
theorem tuDmaExecuteDesc_books (e : TuDmaEngine) (d : Nat) :
    tuDmaExecuteDesc e d = e ∨ tuDmaExecuteDesc e d = e.emit (.executed d false) ∨
      tuDmaExecuteDesc e d =
        (accountTransfer { e with mem := copiedMemory e.mem (e.heap d) } d).emit (.executed d true) := by
  unfold tuDmaExecuteDesc
  dsimp only
  split
  · exact Or.inl rfl
  split
  · exact Or.inr (Or.inl rfl)
  split
  · exact Or.inr (Or.inl rfl)
  · unfold copiedMemory
    cases descriptorCopies e.mem.sizes (e.heap d) with
    | none => exact Or.inr (Or.inl rfl)
    | some copies => exact Or.inr (Or.inr rfl)

theorem replay_moved (m : Memory) {d : Nat} (hcfg : e'.cfg = e.cfg) (hlog : movedIds e'.log = movedIds e.log ++ [d])
    (htransfer : ∀ d, (e'.heap d).transfer = (e.heap d).transfer) :
    replay m e' = serve e.cfg e.heap (replay m e) d := by
  unfold replay
  rw [hcfg, hlog, foldl_serve_congr e.cfg fun d _ => htransfer d, List.foldl_append]
  rfl

theorem TransfersBooked.execute (h : TransfersBooked m e) (d : Nat) : TransfersBooked m (tuDmaExecuteDesc e d) := by
  rcases tuDmaExecuteDesc_books e d with heq | heq | heq
  · rwa [heq]
  · rw [heq]
    exact h.unbooked (.emit e _ rfl)
  · have hheap := accountTransfer_heap { e with mem := copiedMemory e.mem (e.heap d) } d
    have hcfg := tuDmaExecuteDesc_cfg e d
    rw [heq] at hcfg ⊢
    generalize hmoved : (accountTransfer { e with mem := copiedMemory e.mem (e.heap d) } d).emit (.executed d true) = e'
      at hcfg ⊢
    have hlog : movedIds e'.log = movedIds e.log ++ [d] := by
      rw [← hmoved]
      show movedIds (_ ++ [_]) = _
      rw [movedIds_append, accountTransfer_log]
      rfl
    have hreplay := @replay_moved e e' m d hcfg hlog fun d' => by
      rw [← hmoved]
      exact (hheap d').1
    have htransfers : transfers m e' =
        transfers m e ++ [⟨d, booking e.cfg (copiedMemory e.mem (e.heap d)) (e.heap d)⟩] := by
      unfold transfers
      rw [hreplay, h.mem]
      rfl
    refine ⟨?_, fun c => ?_, fun i hi c => ?_⟩
    · rw [hreplay, ← hmoved]
      show (accountTransfer _ d).mem = _
      rw [accountTransfer_mem]
      unfold serve servedMemory
      rw [← h.mem]
    · rw [htransfers, amounts_append, ← u64_u64_add, ← h.engine c, ← hmoved]
      exact accountTransfer_counter _ d c
    · have hnamed : ∀ t : DmaTransfer, (e'.heap t.desc).channel = (e.heap t.desc).channel := by
        intro t
        rw [← hmoved]
        exact (hheap t.desc).2
      have hchannel := accountTransfer_channel { e with mem := copiedMemory e.mem (e.heap d) } d (hcfg ▸ hi) c
      rw [htransfers, List.filter_append, amounts_append]
      simp only [hnamed]
      rw [← u64_u64_add, ← h.channel i (hcfg ▸ hi) c, ← hmoved]
      refine hchannel.trans ?_
      dsimp only
      by_cases hi' : (e.heap d).channel.toNat = i
      · rw [if_pos hi', List.filter_cons_of_pos (by simpa using hi')]
        rfl
      · rw [if_neg hi', List.filter_cons_of_neg (by simpa using hi'), h.channel i (hcfg ▸ hi) c]
        exact (Nat.mod_mod _ _).symm

theorem Bookings.booked (hbookings : Bookings e e') (h : TransfersBooked m e) : TransfersBooked m e' := by
  induction hbookings with
  | refl => exact h
  | tail _ hstep ih =>
    cases hstep with
    | execute d => exact ih.execute d
    | other hun => exact ih.unbooked hun

/-- The channels that the descriptors name are not rewritten. -/
theorem Bookings.channel (hbookings : Bookings e e') (d : Nat) : (e'.heap d).channel = (e.heap d).channel := by
  induction hbookings with
  | refl => rfl
  | @tail e₁ e₂ _ hstep ih =>
    refine Eq.trans ?_ ih
    cases hstep with
    | execute d' =>
      rcases tuDmaExecuteDesc_books e₁ d' with heq | heq | heq
      · rw [heq]
      · rw [heq]
        rfl
      · rw [heq]
        exact (accountTransfer_heap _ d' d).2
    | other hun => exact hun.channel d

end

/-! ### Where the moved descriptors come from -/

namespace QueueView

/-- What was moved was taken from a queue, what was taken had been accepted there, and only channels of the engine accept
chains. -/
structure Dequeues (v : QueueView) : Prop where
  moved : ∀ d ∈ movedIds v.log, ∃ i, .dequeued i d ∈ v.log
  accepted : ∀ i d, .dequeued i d ∈ v.log → d ∈ acceptedOn v.log i
  active : ∀ i a, (v.channels i).active = some a → .dequeued i a ∈ v.log
  channel : ∀ i, ∀ d ∈ acceptedOn v.log i, i < v.cfg.numChannels

section

variable {v w : QueueView}

theorem Dequeues.step (h : v.Dequeues) (evs : List TuDmaEvent) (hlog : w.log = v.log ++ evs) (hcfg : w.cfg = v.cfg)
    (hmoved : ∀ d ∈ movedIds evs, ∃ i, .dequeued i d ∈ w.log)
    (haccepted : ∀ i d, .dequeued i d ∈ evs → d ∈ acceptedOn v.log i)
    (hactive : ∀ i a, (w.channels i).active = some a → (v.channels i).active = some a ∨ .dequeued i a ∈ evs)
    (hchannel : ∀ i, ∀ d ∈ acceptedOn evs i, i < v.cfg.numChannels) : w.Dequeues := by
  have hold : ∀ ev ∈ v.log, ev ∈ w.log := fun ev hev => by
    rw [hlog]
    exact List.mem_append_left _ hev
  refine ⟨fun d hd => ?_, fun i d hd => ?_, fun i a ha => ?_, fun i d hd => ?_⟩
  · rw [hlog, movedIds_append, List.mem_append] at hd
    rcases hd with hd | hd
    · obtain ⟨i, hi⟩ := h.moved d hd
      exact ⟨i, hold _ hi⟩
    · exact hmoved d hd
  · rw [hlog, acceptedOn_append]
    rw [hlog, List.mem_append] at hd
    exact List.mem_append_left _ (hd.elim (h.accepted i d) (haccepted i d))
  · rcases hactive i a ha with ha | ha
    · exact hold _ (h.active i a ha)
    · rw [hlog]
      exact List.mem_append_right _ ha
  · rw [hcfg]
    rw [hlog, acceptedOn_append, List.mem_append] at hd
    exact hd.elim (h.channel i d) (hchannel i d)

theorem mem_movedIds_execEvents {d x : Nat} (hx : x ∈ movedIds (v.execEvents d)) : x = d := by
  unfold execEvents at hx
  split at hx
  · cases hx
  · cases hd : v.executes d with
    | false =>
      rw [hd] at hx
      cases hx
    | true =>
      rw [hd] at hx
      exact List.mem_singleton.1 hx

theorem movedIds_grantEvents (i d : Nat) (cost : Option Nat) : movedIds (grantEvents i d cost) = [] := by
  cases cost <;> rfl

private theorem not_dequeued_execEvents {d i x : Nat} : .dequeued i x ∉ v.execEvents d := by
  unfold execEvents
  split <;> simp

theorem Dequeues.start (h : v.Dequeues) (hok : v.Ok) {i d : Nat} (cost : Option Nat)
    (hd : (v.channels i).head = some d) : (v.start i d cost).Dequeues := by
  have hhead : ∀ j x, .dequeued j x ∈ (.dequeued i d :: grantEvents i d cost) ++ v.execEvents d → j = i ∧ x = d := by
    intro j x hx
    rcases List.mem_append.1 hx with hx | hx
    · rcases List.mem_cons.1 hx with heq | hx
      · cases heq
        exact ⟨rfl, rfl⟩
      · cases cost <;> simp [grantEvents] at hx
    · exact absurd hx not_dequeued_execEvents
  refine h.step ((.dequeued i d :: grantEvents i d cost) ++ v.execEvents d) ?_ (v.start_cfg i d cost) (fun x hx => ?_)
    (fun j x hx => ?_) (fun j a ha => ?_) (fun j x hx => ?_)
  · rw [start_log, List.append_assoc]
  · refine ⟨i, ?_⟩
    have hxd : x = d := by
      rw [movedIds_append, List.mem_append] at hx
      rcases hx with hx | hx
      · change x ∈ movedIds (grantEvents i d cost) at hx
        rw [movedIds_grantEvents] at hx
        cases hx
      · exact mem_movedIds_execEvents hx
    rw [start_log, hxd]
    simp
  · obtain ⟨rfl, rfl⟩ := hhead j x hx
    exact (hok.within j).head x hd
  · by_cases hj : j = i
    · subst hj
      rw [start_self] at ha
      cases ha
      exact Or.inr (List.mem_append_left _ List.mem_cons_self)
    · rw [v.start_of_ne d cost hj] at ha
      exact Or.inl ha
  · simp at hx

theorem Dequeues.retire (h : v.Dequeues) (i a : Nat) : (v.retire i a).Dequeues := by
  refine h.step [.retired i a] (v.retire_log i a) rfl (fun x hx => ?_) (fun j x hx => ?_) (fun j b hb => ?_)
    (fun j x hx => ?_)
  · cases hx
  · simp at hx
  · by_cases hj : j = i
    · subst hj
      rw [retire_self] at hb
      cases hb
    · rw [v.retire_of_ne a hj] at hb
      exact Or.inl hb
  · simp at hx

theorem Dequeues.drain (h : v.Dequeues) (hok : v.Ok) {i d : Nat} (hd : (v.channels i).head = some d) :
    (v.drain i d).Dequeues := by
  refine h.step (v.execEvents d ++ [.dequeued i d, .retired i d]) ?_ (v.drain_cfg i d) (fun x hx => ⟨i, ?_⟩)
    (fun j x hx => ?_) (fun j a ha => ?_) (fun j x hx => ?_)
  · rw [drain_log, List.append_assoc]
  · have hxd : x = d := by
      rw [movedIds_append, List.mem_append] at hx
      exact mem_movedIds_execEvents (hx.resolve_right (by simp [movedIds, TuDmaEvent.movedIds]))
    rw [drain_log, hxd]
    simp
  · have hjx : j = i ∧ x = d := by
      rcases List.mem_append.1 hx with hx | hx
      · exact absurd hx not_dequeued_execEvents
      · simpa using hx
    obtain ⟨rfl, rfl⟩ := hjx
    exact (hok.within j).head x hd
  · refine Or.inl ?_
    by_cases hj : j = i
    · subst hj
      rwa [drain_self] at ha
    · rwa [v.drain_of_ne d hj] at ha
  · simp at hx

theorem Dequeues.clearTail (h : v.Dequeues) (i : Nat) : (v.clearTail i).Dequeues := by
  refine h.step [] (List.append_nil _).symm rfl (fun x hx => ?_) (fun j x hx => ?_) (fun j a ha => Or.inl ?_)
    (fun j x hx => ?_)
  · cases hx
  · cases hx
  · by_cases hj : j = i
    · subst hj
      rwa [clearTail_self] at ha
    · rwa [v.clearTail_of_ne hj] at ha
  · cases hx

theorem Dequeues.flushActive (h : v.Dequeues) {i a : Nat} (ha : (v.channels i).active = some a) :
    (v.flushActive i a).Dequeues := by
  refine h.step (v.execEvents a ++ [.retired i a]) ?_ (v.exec_cfg a) (fun x hx => ⟨i, ?_⟩) (fun j x hx => ?_)
    (fun j b hb => ?_) (fun j x hx => ?_)
  · rw [flushActive_log, List.append_assoc]
  · have hxa : x = a := by
      rw [movedIds_append, List.mem_append] at hx
      exact mem_movedIds_execEvents (hx.resolve_right (by simp [movedIds, TuDmaEvent.movedIds]))
    rw [flushActive_log, hxa]
    exact List.mem_append_left _ (List.mem_append_left _ (h.active i a ha))
  · rcases List.mem_append.1 hx with hx | hx
    · exact absurd hx not_dequeued_execEvents
    · simp at hx
  · by_cases hj : j = i
    · subst hj
      rw [flushActive_self] at hb
      cases hb
    · rw [v.flushActive_of_ne a hj] at hb
      exact Or.inl hb
  · simp at hx

theorem Dequeues.tickStep (h : v.Dequeues) (hok : v.Ok) (hs : TickStep v w) : w.Dequeues := by
  cases hs with
  | start cost _ hh _ => exact h.start hok cost hh
  | retire _ _ => exact h.retire _ _

theorem Dequeues.build (h : v.Dequeues) (n : Nat) (executes : Nat → Bool) : (v.build n executes).Dequeues :=
  ⟨h.moved, h.accepted, h.active, h.channel⟩

theorem Dequeues.append (h : v.Dequeues) {i : Nat} (hi : i < v.cfg.numChannels) (d : Nat) (c : List Nat) :
    (v.append i d c).Dequeues := by
  refine h.step [.accepted i c] (v.append_log i d c) (v.append_cfg i d c) (fun x hx => ?_) (fun j x hx => ?_)
    (fun j a ha => Or.inl ?_) (fun j x hx => ?_)
  · cases hx
  · simp at hx
  · by_cases hj : j = i
    · subst hj
      rwa [append_self] at ha
    · rwa [v.append_of_ne d c hj] at ha
  · by_cases hj : i = j
    · exact hj ▸ hi
    · simp [hj] at hx

end

end QueueView

/-! ### Operations -/

section

variable {m : Memory} {e : TuDmaEngine}

theorem admitted_lt {descs : List TuDmaDescriptor} {i : Nat} (h : admitted e descs = some i) :
    i < e.cfg.numChannels := by
  obtain ⟨-, hadmits, rfl⟩ := admitted_eq_some h
  have hcfg : (newChain e descs).1.cfg = e.cfg := (newChain_frame e descs).1
  unfold admits at hadmits
  simp only [Bool.and_eq_true, decide_eq_true_eq] at hadmits
  rw [hcfg] at hadmits
  exact hadmits.1.2

theorem step_dequeues (op : TuDmaOp) (hok : e.view.Ok) (h : e.view.Dequeues) : (e.step op).view.Dequeues := by
  cases op with
  | submit descs =>
    refine (submit_keeps hok (fun x => h.build _ x) (fun x i _ ha => ?_) ?_ ?_).2
    · exact (h.build _ x).append (admitted_lt ha) _ _
    · exact fun _ hv hs hh => hs.drain hv hh
    · exact fun _ _ hs _ => hs.clearTail _
  | tick => exact (tick_keeps hok h fun hv hs hstep => hs.tickStep hv hstep).2
  | flush channel =>
    exact (flush_keeps channel hok h (fun hv hs hh => hs.drain hv hh) (fun _ hs _ => hs.clearTail _)
      fun _ hs ha => hs.flushActive ha).2

/-- A submission only builds its chain, or commits it to the channel that admits it. -/
theorem submitChain_cases (e : TuDmaEngine) (descs : List TuDmaDescriptor) :
    (admitted e descs = none ∧ (submitChain e descs).1 = (newChain e descs).1) ∨ ∃ i, admitted e descs = some i ∧
      (submitChain e descs).1 = commitSubmission (newChain e descs).1 i e.allocated := by
  rw [submitChain_eq]
  unfold admitted
  by_cases hnil : descs = []
  · rw [if_pos hnil, if_pos hnil]
    exact Or.inl ⟨rfl, rfl⟩
  · rw [if_neg hnil, if_neg hnil]
    cases ha : admits (newChain e descs).1 e.allocated with
    | false =>
      rw [tuDmaSubmitDesc_refused ha]
      exact Or.inl ⟨rfl, rfl⟩
    | true =>
      rw [tuDmaSubmitDesc_admits ha]
      exact Or.inr ⟨_, rfl, rfl⟩

theorem newChain_heap_of_lt {descs : List TuDmaDescriptor} {d : Nat} (hd : d < e.allocated) :
    (newChain e descs).1.heap d = e.heap d := by
  rw [newChain_eq]
  exact if_pos hd

/-- A fresh descriptor behind the head names the channel that the chain was built with. -/
theorem newChain_heap_tail {descs : List TuDmaDescriptor} {d : Nat}
    (hd : d ∈ List.range' e.allocated descs.length) (hhead : d ≠ e.allocated) :
    ∃ desc ∈ descs.tail, ((newChain e descs).1.heap d).channel = desc.channel := by
  have hd := List.mem_range'_1.1 hd
  have hlt : d - e.allocated - 1 < descs.tail.length := by
    rw [List.length_tail]
    omega
  refine ⟨descs.tail[d - e.allocated - 1], List.getElem_mem hlt, ?_⟩
  rw [newChain_eq, List.getElem_tail]
  show (builtHeap e.heap e.allocated descs d).channel = _
  unfold builtHeap
  rw [if_neg (by omega), List.getElem?_eq_getElem (by omega)]
  simp only [show d - e.allocated - 1 + 1 = d - e.allocated by omega]
  rfl

theorem commitBinding_channel_of_ne (e : TuDmaEngine) (i : Nat) {d d' : Nat} (hd : d' ≠ d) :
    ((commitBinding e i d).heap d').channel = (e.heap d').channel := by
  unfold commitBinding
  split
  · rfl
  · show (Function.update e.heap d _ d').channel = _
    rw [Function.update_of_ne hd]

theorem moved_lt (hok : e.view.Ok) (h : e.view.Dequeues) {d : Nat} (hd : d ∈ movedIds e.log) : d < e.allocated := by
  obtain ⟨i, hi⟩ := h.moved d hd
  exact hok.lt i d (h.accepted i d hi)

theorem step_transfersBooked (op : TuDmaOp) (hok : e.view.Ok) (hdequeues : e.view.Dequeues) (h : TransfersBooked m e) :
    TransfersBooked m (e.step op) := by
  cases op with
  | submit descs =>
    have hchain : TransfersBooked m (newChain e descs).1 := by
      have hheap : ∀ d ∈ movedIds e.log, (newChain e descs).1.heap d = e.heap d :=
        fun d hd => newChain_heap_of_lt (moved_lt hok hdequeues hd)
      obtain ⟨hcfg, hmem, -⟩ := newChain_frame e descs
      refine h.congr hcfg hmem ?_ (fun d hd => by rw [hheap d hd]) (fun d hd => by rw [hheap d hd]) ?_ fun i => ?_
      all_goals rw [newChain_eq]
      rfl
    show TransfersBooked m (submitChain e descs).1
    rcases submitChain_cases e descs with ⟨-, heq⟩ | ⟨i, -, heq⟩
    · rw [heq]
      exact hchain
    · rw [heq]
      refine (commitSubmission_bookings _ i e.allocated).booked ?_
      have hbind := commitBinding_unexecuted (newChain e descs).1 i e.allocated
      have hlog : (newChain e descs).1.log = e.log := by rw [newChain_eq]
      refine hchain.congr hbind.cfg hbind.mem ?_ (fun d _ => ?_) (fun d hd => ?_) ?_ fun j => ?_
      · unfold commitBinding
        split <;> rfl
      · unfold TuDmaDescriptor.transfer
        rw [hbind.core d]
      · rw [hlog] at hd
        exact commitBinding_channel_of_ne _ i (Nat.ne_of_lt (moved_lt hok hdequeues hd))
      · unfold commitBinding
        split <;> rfl
      · unfold commitBinding
        split <;> rfl
  | tick =>
    refine (tuDmaTick_bookings e).booked ?_
    exact h.congr rfl rfl rfl (fun _ _ => rfl) (fun _ _ => rfl) rfl fun _ => rfl
  | flush channel => exact (tuDmaFlushChannel_bookings e channel).booked h

/-- The descriptors behind the head of an accepted chain name the channel that the chain goes to. -/
def NamesItsChannel (e : TuDmaEngine) : TuDmaOp → Prop
  | .submit descs => ∀ i, admitted e descs = some i → ∀ desc ∈ descs.tail, desc.channel.toNat = i
  | .tick | .flush _ => True

/-- Accepted descriptors name the channel that accepted them. -/
def NamedRight (e : TuDmaEngine) : Prop := ∀ i, ∀ d ∈ acceptedOn e.log i, (e.heap d).channel.toNat = i

theorem NamedRight.bookings {e' : TuDmaEngine} (h : NamedRight e) (hbookings : Bookings e e')
    (haccepted : ∀ i, acceptedOn e'.log i = acceptedOn e.log i) : NamedRight e' := by
  intro i d hd
  rw [hbookings.channel d]
  exact h i d (haccepted i ▸ hd)

/-- The head of an admitted chain names its channel once it is bound. -/
theorem commitBinding_channel {descs : List TuDmaDescriptor} {i : Nat} (ha : admitted e descs = some i) :
    ((commitBinding (newChain e descs).1 i e.allocated).heap e.allocated).channel.toNat = i := by
  have hlt := admitted_lt ha
  have hle := e.cfg.numChannels_le
  unfold tuDmaEngineMaxChannels at hle
  obtain ⟨-, -, hselect⟩ := admitted_eq_some ha
  unfold commitBinding
  split
  · rename_i hexplicit
    unfold selectChannel at hselect
    rw [hexplicit] at hselect
    exact hselect
  · unfold TuDmaEngine.setDesc
    dsimp only
    rw [Function.update_self]
    show (UInt8.ofNat i).toNat = i
    rw [UInt8.toNat_ofNat']
    exact Nat.mod_eq_of_lt (by omega)

theorem step_namedRight (op : TuDmaOp) (hok : e.view.Ok) (h : NamedRight e) (hop : NamesItsChannel e op) :
    NamedRight (e.step op) := by
  cases op with
  | submit descs =>
    intro j d hd
    have hsource : d ∈ acceptedOn e.log j ∨
        (admitted e descs = some j ∧ d ∈ List.range' e.allocated descs.length) := by
      refine (submit_keeps (P := fun v => ∀ x ∈ acceptedOn v.log j, x ∈ acceptedOn e.log j ∨
        (admitted e descs = some j ∧ x ∈ List.range' e.allocated descs.length)) hok ?_ ?_ ?_ ?_).2 d hd
      · exact fun _ x hx => Or.inl hx
      · intro executes i _ ha x hx
        rw [QueueView.acceptedOn_appendStep, List.mem_append] at hx
        rcases hx with hx | hx
        · exact Or.inl hx
        · by_cases hij : i = j
          · rw [if_pos hij] at hx
            exact Or.inr ⟨hij ▸ ha, hx⟩
          · rw [if_neg hij] at hx
            cases hx
      · intro v i x _ _ hv _
        rw [QueueView.acceptedOn_drain]
        exact hv
      · exact fun _ _ hv _ => hv
    show ((submitChain e descs).1.heap d).channel.toNat = j
    rcases hsource with hold | ⟨ha, hfresh⟩
    · -- a descriptor of an earlier chain is not touched
      have hlt : d < e.allocated := hok.lt j d hold
      have hchannel : ((submitChain e descs).1.heap d).channel = (e.heap d).channel := by
        rcases submitChain_cases e descs with ⟨-, heq⟩ | ⟨i, -, heq⟩
        · rw [heq, newChain_heap_of_lt hlt]
        · rw [heq, (commitSubmission_bookings _ i e.allocated).channel d,
            commitBinding_channel_of_ne _ i (Nat.ne_of_lt hlt), newChain_heap_of_lt hlt]
      rw [hchannel]
      exact h j d hold
    · rcases submitChain_cases e descs with ⟨hnone, -⟩ | ⟨i, hi, heq⟩
      · rw [hnone] at ha
        cases ha
      · obtain rfl : i = j := Option.some.inj (hi.symm.trans ha)
        rw [heq, (commitSubmission_bookings _ i e.allocated).channel d]
        by_cases hhead : d = e.allocated
        · rw [hhead]
          exact commitBinding_channel ha
        · rw [commitBinding_channel_of_ne _ i hhead]
          obtain ⟨desc, hdesc, hbuilt⟩ := newChain_heap_tail hfresh hhead
          rw [hbuilt]
          exact hop i ha desc hdesc
  | tick =>
    have haccepted : ∀ i, acceptedOn (tuDmaTick e).1.log i = acceptedOn e.log i := fun i =>
      (tick_keeps (P := fun v => acceptedOn v.log i = acceptedOn e.log i) hok rfl fun _ hv hs => by
        cases hs with
        | start cost _ _ _ => exact (QueueView.acceptedOn_start _ _ _ cost i).trans hv
        | retire _ _ => exact (QueueView.acceptedOn_retire _ _ _ i).trans hv).2
    have hticked : NamedRight { e with currentCycle := u64 (e.currentCycle + 1) } := h
    exact hticked.bookings (tuDmaTick_bookings e) haccepted
  | flush channel => exact h.bookings (tuDmaFlushChannel_bookings e channel) (acceptedOn_flush hok channel)

/-! ### Runs -/

/-- What a run keeps as long as its chains name their channels. -/
structure Accounts (m : Memory) (e : TuDmaEngine) : Prop where
  ok : e.view.Ok
  dequeues : e.view.Dequeues
  named : NamedRight e
  booked : TransfersBooked m e

theorem fresh_dequeues (cfg : TuDmaConfig) (m : Memory) : (TuDmaEngine.fresh cfg m).view.Dequeues where
  moved := fun _ hd => by cases hd
  accepted := fun _ _ hd => by cases hd
  active := fun _ _ ha => by cases ha
  channel := fun _ _ hd => by cases hd

theorem fresh_transfersBooked (cfg : TuDmaConfig) (m : Memory) : TransfersBooked m (TuDmaEngine.fresh cfg m) where
  mem := rfl
  engine := fun c => by cases c <;> rfl
  channel := fun _ _ c => by cases c <;> rfl

/-- The books of every run. -/
theorem run_transfersBooked (cfg : TuDmaConfig) (m : Memory) (ops : List TuDmaOp) :
    TransfersBooked m (TuDmaEngine.run cfg m ops) :=
  (Run.invariant (P := fun e : TuDmaEngine => e.view.Ok ∧ e.view.Dequeues ∧ TransfersBooked m e)
    (fun _ op he => ⟨step_ok op he.1, step_dequeues op he.1 he.2.1, step_transfersBooked op he.1 he.2.1 he.2.2⟩)
    ⟨fresh_ok cfg m, fresh_dequeues cfg m, fresh_transfersBooked cfg m⟩ ops).2.2

theorem run_accounts (cfg : TuDmaConfig) (m : Memory) {ops : List TuDmaOp}
    (h : Run.Along NamesItsChannel TuDmaEngine.step (TuDmaEngine.fresh cfg m) ops) :
    Accounts m (TuDmaEngine.run cfg m ops) :=
  h.invariant
    (fun _ op he hop => ⟨step_ok op he.ok, step_dequeues op he.ok he.dequeues, step_namedRight op he.ok he.named hop,
      step_transfersBooked op he.ok he.dequeues he.booked⟩)
    ⟨fresh_ok cfg m, fresh_dequeues cfg m, fun _ _ hd => absurd hd List.not_mem_nil, fresh_transfersBooked cfg m⟩

/-- The transfers of all channels together. -/
theorem sum_amounts_filter {n : Nat} (channel : DmaTransfer → Nat) {l : List DmaTransfer}
    (h : ∀ t ∈ l, channel t < n) (c : DmaCounter) :
    ∑ i ∈ range n, amounts (l.filter fun t => channel t = i) c = amounts l c := by
  induction l with
  | nil => exact Finset.sum_const_zero
  | cons t l ih =>
    have hsplit : ∀ i, amounts ((t :: l).filter fun t => channel t = i) c =
        (if channel t = i then t.amount c else 0) + amounts (l.filter fun t => channel t = i) c := by
      intro i
      by_cases hi : channel t = i
      · rw [if_pos hi, List.filter_cons_of_pos (by simpa using hi)]
        rfl
      · rw [if_neg hi, List.filter_cons_of_neg (by simpa using hi), Nat.zero_add]
    rw [Finset.sum_congr rfl fun i _ => hsplit i, Finset.sum_add_distrib,
      ih fun t' ht' => h t' (List.mem_cons_of_mem t ht'), Finset.sum_ite_eq,
      if_pos (Finset.mem_range.2 (h t List.mem_cons_self))]
    rfl

theorem Accounts.channelsAccounted (h : Accounts m e) : ChannelsAccounted m e := by
  -- a moved descriptor was taken from the queue of the channel that it names
  have hserved : ∀ t ∈ transfers m e, ∃ j < e.cfg.numChannels, .dequeued j t.desc ∈ e.log ∧
      (e.heap t.desc).channel.toNat = j := by
    intro t ht
    obtain ⟨j, hj⟩ := h.dequeues.moved t.desc (transfers_desc ht)
    have haccepted := h.dequeues.accepted j t.desc hj
    exact ⟨j, h.dequeues.channel j t.desc haccepted, hj, h.named j t.desc haccepted⟩
  have hfilter : ∀ i, (transfers m e).filter (fun t => .dequeued i t.desc ∈ e.log) =
      (transfers m e).filter (fun t => (e.heap t.desc).channel.toNat = i) := by
    intro i
    refine List.filter_congr fun t ht => ?_
    obtain ⟨j, -, hj, hnamed⟩ := hserved t ht
    refine decide_eq_decide.2 ⟨fun hi => ?_, fun hi => ?_⟩
    · exact h.named i t.desc (h.dequeues.accepted i t.desc hi)
    · obtain rfl : j = i := hnamed.symm.trans hi
      exact hj
  refine ⟨fun i hi c => ?_, fun c => ?_⟩
  · rw [hfilter]
    exact h.booked.channel i hi c
  · rw [Finset.sum_congr rfl fun i hi => h.booked.channel i (Finset.mem_range.1 hi) c, h.booked.engine c]
    have hlt : ∀ t ∈ transfers m e, (e.heap t.desc).channel.toNat < e.cfg.numChannels := by
      intro t ht
      obtain ⟨j, hj, -, hnamed⟩ := hserved t ht
      rwa [hnamed]
    rw [← sum_amounts_filter (fun t => (e.heap t.desc).channel.toNat) hlt c]
    exact Finset.sum_nat_mod _ _ _

end

/-- **The accounts of the channels are right** in every run whose accepted chains name, behind their heads, the channel
that they go to. -/
theorem run_channelsAccounted (cfg : TuDmaConfig) (m : Memory) (ops : List TuDmaOp)
    (h : Run.Along NamesItsChannel TuDmaEngine.step (TuDmaEngine.fresh cfg m) ops) :
    ChannelsAccounted m (TuDmaEngine.run cfg m ops) :=
  (run_accounts cfg m h).channelsAccounted

/-- A chain of two on channel 1, served by a flush after a tick. -/
theorem run_channelsAccounted_pair :
    let cfg : TuDmaConfig :=
      { asyncMode := true, numChannels := 2, maxDepth := 4, numChannels_pos := by decide
        numChannels_le := by decide, maxDepth_pos := by decide }
    let desc := tuDmaDescCreateLinear 1 1 .hostToTu (some 0) 0 (some 0) 4 1
    ChannelsAccounted (Memory.zero 16)
      (TuDmaEngine.run cfg (Memory.zero 16) [.submit [desc, desc], .tick, .flush 1]) := by
  intro cfg desc
  have hadmitted : admitted (TuDmaEngine.fresh cfg (Memory.zero 16)) [desc, desc] = some 1 := by decide
  refine run_channelsAccounted _ _ _ ⟨fun i hi d hd => ?_, trivial, trivial, trivial⟩
  obtain rfl : 1 = i := Option.some.inj (hadmitted.symm.trans hi)
  obtain rfl := List.mem_singleton.1 hd
  rfl

/-- Round-robin binding takes a chain of two that names channel 1 to channel 0 and rewrites its head only. -/
theorem not_channelsAccounted :
    let cfg : TuDmaConfig :=
      { asyncMode := true, numChannels := 2, maxDepth := 4, bindingPolicy := .roundRobin
        numChannels_pos := by decide, numChannels_le := by decide, maxDepth_pos := by decide }
    let desc := tuDmaDescCreateLinear 1 1 .hostToTu (some 0) 0 (some 0) 4 1
    ¬ChannelsAccounted (Memory.zero 16)
      (TuDmaEngine.run cfg (Memory.zero 16) [.submit [desc, desc], .flush 0]) := by
  intro cfg desc h
  exact absurd (h.channel 1 (by decide) .bytes) (by decide)

end Tusim
