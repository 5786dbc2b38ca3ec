import Tusim.Dma.QueueView

/-!
# Submission

A chain is submitted by `submitChain`: fresh descriptors are allocated and linked, then the head passes the gates of
`tu_dma_submit_desc`.  `newChain_eq` says what the allocation leaves behind, `tuDmaSubmitDesc_admits` and
`tuDmaSubmitDesc_refused` what the gates decide, and `view_submitChain` what a submission does to the queues.
`rejectionJustified_iff` is about the returned identifier, which is `0` on rejection.
-/

namespace Tusim

open Word Segment

/-! ### Gates -/

/-- The gates of `tu_dma_submit_desc`, in their order: the spans, the external addresses, the channel, its limit. -/
def admits (e : TuDmaEngine) (d : Nat) : Bool :=
  chainSpansValid e d && chainAddressed e d && decide (selectChannel e d < e.cfg.numChannels) &&
    !atLimit e (selectChannel e d)

theorem tuDmaSubmitDesc_admits {e : TuDmaEngine} {d : Nat} (h : admits e d = true) :
    tuDmaSubmitDesc e (some d) = (commitSubmission e (selectChannel e d) d, (e.heap d).descId) := by
  unfold admits at h
  simp only [Bool.and_eq_true, decide_eq_true_eq, Bool.not_eq_true'] at h
  obtain ⟨⟨⟨hs, ha⟩, hc⟩, hl⟩ := h
  unfold tuDmaSubmitDesc
  simp only [hs, ha, hl, Bool.not_true, Bool.false_eq_true, if_false]
  rw [if_neg (by omega)]

theorem tuDmaSubmitDesc_refused {e : TuDmaEngine} {d : Nat} (h : admits e d = false) :
    tuDmaSubmitDesc e (some d) = (e, 0) := by
  unfold tuDmaSubmitDesc
  dsimp only
  split
  · rfl
  split
  · rfl
  split
  · rfl
  split
  · rfl
  · rename_i hs ha hc hl
    unfold admits at h
    simp only [Bool.not_eq_true', Bool.not_eq_false, Bool.not_eq_true, ge_iff_le, not_le] at hs ha hc hl
    simp [hs, ha, hc, hl] at h

/-- A reason for rejecting the chain at `d`: a span that does not fit, a missing external address, a channel that does
not exist, a channel at its limit. -/
def Refused (e : TuDmaEngine) (d : Nat) : Prop :=
  (∃ x ∈ e.chain (some d), descriptorSramSpansValid e.mem.sizes (e.heap x) = false) ∨
  (externalBoundary e.cfg = true ∧ ∃ x ∈ e.chain (some d), (e.heap x).externalAddressValid = false) ∨
  e.cfg.numChannels ≤ selectChannel e d ∨
  (0 < e.cfg.maxDepth ∧ e.cfg.maxDepth ≤ outstanding e (selectChannel e d))

instance (e : TuDmaEngine) (d : Nat) : Decidable (Refused e d) := inferInstanceAs (Decidable (_ ∨ _ ∨ _ ∨ _))

theorem refused_iff {e : TuDmaEngine} {d : Nat} : Refused e d ↔ admits e d = false := by
  have hspans : (∃ x ∈ e.chain (some d), descriptorSramSpansValid e.mem.sizes (e.heap x) = false) ↔
      chainSpansValid e d = false := by
    unfold chainSpansValid
    rw [List.all_eq_false]
    simp
  have haddr : (externalBoundary e.cfg = true ∧ ∃ x ∈ e.chain (some d), (e.heap x).externalAddressValid = false) ↔
      chainAddressed e d = false := by
    unfold chainAddressed
    rw [Bool.or_eq_false_iff, List.all_eq_false]
    simp
  have hlimit : (0 < e.cfg.maxDepth ∧ e.cfg.maxDepth ≤ outstanding e (selectChannel e d)) ↔
      atLimit e (selectChannel e d) = true := by
    unfold atLimit
    simp [and_comm]
  unfold Refused
  rw [hspans, haddr, hlimit]
  unfold admits
  by_cases hc : selectChannel e d < e.cfg.numChannels
  · cases chainSpansValid e d <;> cases chainAddressed e d <;> cases atLimit e (selectChannel e d) <;>
      simp [hc, Nat.not_le.2 hc]
  · simp [hc, Nat.le_of_not_lt hc]

/-- What is expected of the returned identifier: after `0` the engine is as before, and `0` is returned exactly for
the reasons of `Refused`. -/
def RejectionJustified (e : TuDmaEngine) (d : Nat) : Prop :=
  ((tuDmaSubmitDesc e (some d)).2 = 0 → (tuDmaSubmitDesc e (some d)).1 = e) ∧
    ((tuDmaSubmitDesc e (some d)).2 = 0 ↔ Refused e d)

/-- A refused chain leaves the whole engine unchanged; an admitted one is reported as rejected exactly when its head
carries the identifier `0`. -/
theorem rejectionJustified_iff (e : TuDmaEngine) (d : Nat) :
    RejectionJustified e d ↔ (Refused e d ∨ (e.heap d).descId ≠ 0) := by
  unfold RejectionJustified
  rw [refused_iff]
  cases ha : admits e d with
  | false => simp [tuDmaSubmitDesc_refused ha]
  | true =>
    rw [tuDmaSubmitDesc_admits ha]
    simp only [Bool.true_eq_false, iff_false, false_or]
    constructor
    · exact fun h => h.2
    · exact fun h => ⟨fun h0 => absurd h0 h, h⟩

/-- A channel with one queued transfer, and a linear descriptor with identifier `0`, which the identifier counter
yields for its `2 ^ 32`-th descriptor. -/
theorem not_rejectionJustified_zero :
    let cfg : TuDmaConfig :=
      { asyncMode := true, numChannels := 1, maxDepth := 4, numChannels_pos := by decide,
        numChannels_le := by decide, maxDepth_pos := by decide }
    let e := newChain (TuDmaEngine.fresh cfg (Memory.zero 16))
      [tuDmaDescCreateLinear 0 0 .hostToTu (some 0) 0 (some 0) 4 1]
    ¬ RejectionJustified e.1 0 := by
  intro cfg e h
  exact absurd (h.2.1 (by decide)) (by decide)

/-! ### Fresh chains -/

/-- The heap with the descriptors `descs` written from address `n` on, each linked to the one after it. -/
def builtHeap (heap : Nat → TuDmaDescriptor) (n : Nat) (descs : List TuDmaDescriptor) (d : Nat) : TuDmaDescriptor :=
  if d < n then heap d
  else
    match descs[d - n]? with
    | none => heap d
    | some desc => { desc.cleared with next := if d + 1 < n + descs.length then some (d + 1) else none }

private theorem builtHeap_nil (heap : Nat → TuDmaDescriptor) (n : Nat) : builtHeap heap n [] = heap := by
  funext d
  unfold builtHeap
  split <;> rfl

private theorem builtHeap_of_lt {heap : Nat → TuDmaDescriptor} {n d : Nat} {descs : List TuDmaDescriptor}
    (h : d < n) : builtHeap heap n descs d = heap d := if_pos h

/-- The first descriptor is written last, with its link. -/
private theorem builtHeap_cons (heap : Nat → TuDmaDescriptor) (n : Nat) (desc : TuDmaDescriptor)
    (descs : List TuDmaDescriptor) :
    builtHeap heap n (desc :: descs) =
      Function.update (builtHeap (Function.update heap n desc.cleared) (n + 1) descs) n
        { desc.cleared with next := if descs = [] then none else some (n + 1) } := by
  funext d
  rcases Nat.lt_trichotomy d n with hd | rfl | hd
  · rw [Function.update_of_ne (by omega), builtHeap_of_lt hd, builtHeap_of_lt (by omega),
      Function.update_of_ne (by omega)]
  · rw [Function.update_self]
    unfold builtHeap
    cases descs <;> simp
  · have hn : ¬ d < n := by omega
    have hn' : ¬ d < n + 1 := by omega
    rw [Function.update_of_ne (by omega)]
    unfold builtHeap
    rw [if_neg hn, if_neg hn', show d - n = d - (n + 1) + 1 by omega, List.getElem?_cons_succ,
      Function.update_of_ne (by omega), List.length_cons,
      show n + (descs.length + 1) = n + 1 + descs.length by omega]

/-- Allocation writes the chain behind the descriptors in use and returns its first descriptor. -/
theorem newChain_eq (e : TuDmaEngine) (descs : List TuDmaDescriptor) :
    newChain e descs =
      ({ e with heap := builtHeap e.heap e.allocated descs, allocated := e.allocated + descs.length },
        if descs = [] then none else some e.allocated) := by
  induction descs generalizing e with
  | nil => simp [newChain, builtHeap_nil]
  | cons desc descs ih =>
    unfold newChain
    dsimp only
    rw [ih]
    unfold allocDescriptor
    dsimp only
    generalize hheap : builtHeap (Function.update e.heap e.allocated desc.cleared) (e.allocated + 1) descs = heap
    have hdesc : heap e.allocated = desc.cleared := by
      rw [← hheap, builtHeap_of_lt (by omega), Function.update_self]
    -- the new descriptor is not linked yet, so it is the last one of its chain
    have hchain : walk (fun d => (heap d).next) (e.allocated + 1 + descs.length) (some e.allocated) =
        [e.allocated] := by
      have hnext : (heap e.allocated).next = none := by rw [hdesc]; rfl
      rw [show e.allocated + 1 + descs.length = e.allocated + descs.length + 1 by omega]
      simp only [walk, hnext, walk_none]
    unfold tuDmaDescChain TuDmaEngine.chain TuDmaEngine.next
    dsimp only
    rw [hchain]
    unfold TuDmaEngine.setDesc
    simp only [List.getLast?_singleton, hdesc, builtHeap_cons, hheap, List.length_cons, reduceCtorEq, if_false]
    rw [show e.allocated + 1 + descs.length = e.allocated + (descs.length + 1) by omega]

/-- A submission builds its chain and passes it through the gates. -/
theorem submitChain_eq (e : TuDmaEngine) (descs : List TuDmaDescriptor) :
    submitChain e descs = tuDmaSubmitDesc (newChain e descs).1 (if descs = [] then none else some e.allocated) := by
  unfold submitChain
  rw [newChain_eq]

theorem view_newChain (e : TuDmaEngine) (descs : List TuDmaDescriptor) :
    (newChain e descs).1.view = e.view.build descs.length fun d =>
      executable e.cfg e.mem.sizes (builtHeap e.heap e.allocated descs d) := by
  rw [newChain_eq]
  have hout : ∀ d, ¬ (e.allocated ≤ d ∧ d < e.allocated + descs.length) →
      builtHeap e.heap e.allocated descs d = e.heap d := by
    intro d hd
    unfold builtHeap
    split
    · rfl
    · rw [List.getElem?_eq_none (by omega)]
  have hin : ∀ d, e.allocated ≤ d ∧ d < e.allocated + descs.length →
      ∃ desc : TuDmaDescriptor, builtHeap e.heap e.allocated descs d =
        { desc.cleared with next := if d + 1 < e.allocated + descs.length then some (d + 1) else none } := by
    intro d hd
    unfold builtHeap
    have hn : ¬ d < e.allocated := by omega
    have hlt : d - e.allocated < descs.length := by omega
    rw [if_neg hn, List.getElem?_eq_getElem hlt]
    exact ⟨_, rfl⟩
  refine QueueView.ext rfl rfl ?_ rfl ?_ ?_ rfl <;> funext d <;>
    by_cases hd : e.allocated ≤ d ∧ d < e.allocated + descs.length
  · obtain ⟨desc, h⟩ := hin d hd
    exact (congrArg TuDmaDescriptor.next h).trans (if_pos hd).symm
  · exact (congrArg TuDmaDescriptor.next (hout d hd)).trans (if_neg hd).symm
  · obtain ⟨desc, h⟩ := hin d hd
    exact (congrArg TuDmaDescriptor.completed h).trans (if_pos hd).symm
  · exact (congrArg TuDmaDescriptor.completed (hout d hd)).trans (if_neg hd).symm
  · exact (if_pos hd).symm
  · exact (congrArg (executable e.cfg e.mem.sizes) (hout d hd)).trans (if_neg hd).symm

/-! ### Submission and the queues -/

/-- A freshly built chain is a segment of consecutive descriptors. -/
theorem QueueView.build_isSeg (v : QueueView) {n : Nat} (executes : Nat → Bool) (hn : 0 < n) :
    IsSeg (v.build n executes).next (some v.allocated) (List.range' v.allocated n) := by
  -- the last `m` descriptors of the chain, by induction on `m`
  have hlast : ∀ m, 0 < m → m ≤ n →
      IsSeg (v.build n executes).next (some (v.allocated + n - m)) (List.range' (v.allocated + n - m) m) := by
    intro m
    induction m with
    | zero => intro h; omega
    | succ m ih =>
      intro _ hm
      rw [List.range'_succ]
      refine ⟨rfl, ?_⟩
      have hin : v.allocated ≤ v.allocated + n - (m + 1) ∧ v.allocated + n - (m + 1) < v.allocated + n := by omega
      have hnext : (v.build n executes).next (v.allocated + n - (m + 1)) =
          if v.allocated + n - (m + 1) + 1 < v.allocated + n then some (v.allocated + n - (m + 1) + 1) else none :=
        if_pos hin
      rw [hnext]
      rcases Nat.eq_zero_or_pos m with rfl | hpos
      · rw [if_neg (by omega)]
        rfl
      · rw [if_pos (by omega), show v.allocated + n - (m + 1) + 1 = v.allocated + n - m by omega]
        exact ih hpos (by omega)
  have := hlast n hn (Nat.le_refl n)
  rwa [show v.allocated + n - n = v.allocated by omega] at this

theorem QueueView.build_chain (v : QueueView) {n : Nat} (executes : Nat → Bool) (hn : 0 < n) :
    (v.build n executes).chain (some v.allocated) = List.range' v.allocated n := by
  refine (v.build_isSeg executes hn).walk_eq ?_
  show (List.range' v.allocated n).length ≤ v.allocated + n
  rw [List.length_range']
  omega

theorem view_commitBinding (e : TuDmaEngine) (i d : Nat) : (commitBinding e i d).view = e.view := by
  unfold commitBinding
  split
  · rfl
  · have h : (e.setDesc d fun desc => { desc with channel := UInt8.ofNat i }).view = e.view :=
      view_setDesc_frame e d rfl rfl rfl
    exact h

private theorem view_stampSubmitted (l : List Nat) (e : TuDmaEngine) : (l.foldl stampSubmitted e).view = e.view := by
  induction l generalizing e with
  | nil => rfl
  | cons d l ih =>
    rw [List.foldl_cons, ih]
    exact view_setDesc_frame e d rfl rfl rfl

/-- Linking a descriptor behind `t`. -/
private theorem view_setNext (e : TuDmaEngine) (t d : Nat) :
    (e.setDesc t fun desc => { desc with next := some d }).view =
      { e.view with next := Function.update e.next t (some d) } := by
  rw [view_setDesc e t rfl]
  refine QueueView.ext rfl rfl rfl rfl ?_ rfl rfl
  exact Function.update_eq_self t _

private theorem view_enqueue (e : TuDmaEngine) (i d : Nat) : (enqueue e i d).view = e.view.link i d := by
  unfold enqueue QueueView.link
  rw [view_head, view_tail]
  cases hh : (e.channels i).head with
  | none =>
    exact view_setChannel e i (f := fun ch => { ch with head := some d, tail := some d })
      (g := fun ch => { ch with head := some d, tail := some d }) rfl
  | some h =>
    cases ht : (e.channels i).tail with
    | none =>
      exact view_setChannel e i (f := fun ch => { ch with tail := some d })
        (g := fun ch => { ch with tail := some d }) rfl
    | some t =>
      have hset := view_setChannel (e.setDesc t fun desc => { desc with next := some d }) i
        (f := fun ch => { ch with tail := some d }) (g := fun ch => { ch with tail := some d }) rfl
      rw [view_setNext] at hset
      exact hset

theorem view_acceptChain (e : TuDmaEngine) (i d : Nat) :
    (acceptChain e i d).view = e.view.append i d (e.chain (some d)) := by
  unfold acceptChain
  dsimp only
  have hchain : (commitBinding e i d).chain (some d) = e.chain (some d) :=
    congrArg (fun v => QueueView.chain v (some d)) (view_commitBinding e i d)
  rw [hchain]
  generalize e.chain (some d) = c
  have hset := view_setChannel (enqueue (c.foldl stampSubmitted (commitBinding e i d)) i d) i
    (f := fun ch => { ch with queueDepth := ch.queueDepth + 1, totalSubmitted := u64 (ch.totalSubmitted + 1) })
    (g := fun ch => { ch with queueDepth := ch.queueDepth + 1, totalSubmitted := u64 (ch.totalSubmitted + 1) }) rfl
  rw [view_enqueue, view_stampSubmitted, view_commitBinding] at hset
  exact congrArg (fun v => QueueView.emit v [.accepted i c]) hset

end Tusim
