import Tusim.Dma.Queue

/-!
# Chains and queues

A submission writes only `tail->next`.  When the queue is empty, or the tail ends its chain (`QueueView.Appendable`),
this puts the new chain behind the whole queue and leaves the other queues alone (`queue_append_self`,
`queue_append_of_ne`).  `QueueView.Linked` is the invariant behind it: following `next` from the tail of a queue ends
where the queue ends.
-/

namespace Tusim

open Word Segment

namespace QueueView

section

variable {v w : QueueView}

/-! ### The queues after a step -/

theorem chain_congr (hn : w.next = v.next) (ha : w.allocated = v.allocated) (p : Option Nat) : w.chain p = v.chain p := by
  unfold chain
  rw [hn, ha]

theorem queue_congr {i : Nat} (hn : w.next = v.next) (ha : w.allocated = v.allocated)
    (hh : (w.channels i).head = (v.channels i).head) : w.queue i = v.queue i := by
  unfold queue
  rw [hh, chain_congr hn ha]

theorem queue_start_self (i d : Nat) (cost : Option Nat) : (v.start i d cost).queue i = v.chain (v.next d) := by
  unfold queue
  rw [start_self]
  exact chain_congr (v.start_next i d cost) (v.start_allocated i d cost) _

theorem queue_start_of_ne {i j : Nat} (d : Nat) (cost : Option Nat) (hj : j ≠ i) :
    (v.start i d cost).queue j = v.queue j :=
  queue_congr (v.start_next i d cost) (v.start_allocated i d cost) (by rw [v.start_of_ne d cost hj])

theorem queue_retire (i a j : Nat) : (v.retire i a).queue j = v.queue j := by
  refine queue_congr rfl rfl ?_
  by_cases hj : j = i
  · subst hj
    rw [retire_self]
  · rw [v.retire_of_ne a hj]

theorem queue_drain_self (i d : Nat) : (v.drain i d).queue i = v.chain (v.next d) := by
  unfold queue
  rw [drain_self]
  exact chain_congr (v.drain_next i d) (v.drain_allocated i d) _

theorem queue_drain_of_ne {i j : Nat} (d : Nat) (hj : j ≠ i) : (v.drain i d).queue j = v.queue j :=
  queue_congr (v.drain_next i d) (v.drain_allocated i d) (by rw [v.drain_of_ne d hj])

theorem queue_clearTail (i j : Nat) : (v.clearTail i).queue j = v.queue j := by
  refine queue_congr rfl rfl ?_
  by_cases hj : j = i
  · subst hj
    rw [clearTail_self]
  · rw [v.clearTail_of_ne hj]

theorem queue_flushActive (i a j : Nat) : (v.flushActive i a).queue j = v.queue j := by
  refine queue_congr (v.flushActive_next i a) (v.flushActive_allocated i a) ?_
  by_cases hj : j = i
  · subst hj
    rw [flushActive_self]
  · rw [v.flushActive_of_ne a hj]

/-- Fresh descriptors are in no queue. -/
theorem Ok.chain_build (h : v.Ok) (n : Nat) (executes : Nat → Bool) {p : Option Nat}
    (hp : ∀ d, p = some d → d < v.allocated) : (v.build n executes).chain p = v.chain p := by
  refine (h.build n executes).chain_eq (fun d hd => Nat.lt_of_lt_of_le (hp d hd) (Nat.le_add_right _ _)) ?_
  refine (h.chain_isSeg hp).congr fun d hd => ?_
  exact build_next_of_lt n executes ((h.chain_sorted hp).2 d hd)

theorem Ok.queue_build (h : v.Ok) (n : Nat) (executes : Nat → Bool) (i : Nat) :
    (v.build n executes).queue i = v.queue i := h.chain_build n executes fun d hd => (h.below i).head d hd

/-! ### Linked queues -/

/-- The chain of the tail of a queue ends where the queue ends. -/
def Linked (v : QueueView) : Prop :=
  ∀ i, (v.channels i).head ≠ none →
    ∃ t, (v.channels i).tail = some t ∧ (v.chain (some t)).getLast? = (v.queue i).getLast?

/-- A chain may be appended to channel `i`: the queue is empty or its tail is not linked further. -/
def Appendable (v : QueueView) (i : Nat) : Prop :=
  (v.channels i).head = none ∨ ∃ t, (v.channels i).tail = some t ∧ v.next t = none

/-- The tail of a queue that can be appended to is the last descriptor of the queue. -/
theorem Linked.queue_eq (h : v.Linked) (hok : v.Ok) {i t : Nat} (hh : (v.channels i).head ≠ none)
    (ht : (v.channels i).tail = some t) (hn : v.next t = none) : ∃ l, v.queue i = l ++ [t] := by
  obtain ⟨t', ht', hlast⟩ := h i hh
  rw [ht] at ht'
  cases ht'
  have hchain : v.chain (some t) = [t] := by
    refine hok.chain_eq ?_ ⟨rfl, hn⟩
    rintro d hd
    cases hd
    exact (hok.below i).tail t ht
  rw [hchain, List.getLast?_singleton] at hlast
  exact ⟨_, (List.dropLast_append_getLast? t hlast.symm).symm⟩

/-- A step that moves no head and no tail. -/
private theorem Linked.congr (h : v.Linked) (hn : w.next = v.next) (ha : w.allocated = v.allocated)
    (hch : ∀ j, (w.channels j).head = (v.channels j).head ∧ (w.channels j).tail = (v.channels j).tail) :
    w.Linked := by
  have hq : ∀ j, w.queue j = v.queue j := fun j => queue_congr hn ha (hch j).1
  intro i hi
  rw [(hch i).1] at hi
  rw [(hch i).2, hq]
  obtain ⟨t, ht, hlast⟩ := h i hi
  exact ⟨t, ht, by rw [chain_congr hn ha, hlast]⟩

/-- A step that takes the head `d` of channel `i`. -/
private theorem Linked.pop (h : v.Linked) (hok : v.Ok) {i d : Nat} (hd : (v.channels i).head = some d)
    (hn : w.next = v.next) (ha : w.allocated = v.allocated)
    (hi : (w.channels i).head = v.next d ∧ (w.channels i).tail = (v.channels i).tail)
    (hch : ∀ j, j ≠ i → w.channels j = v.channels j) : w.Linked := by
  have hq := hok.queue_of_head hd
  have hqi : w.queue i = v.chain (v.next d) := by
    unfold queue
    rw [hi.1, chain_congr hn ha]
  have hqj : ∀ j, j ≠ i → w.queue j = v.queue j := fun j hj => queue_congr hn ha (by rw [hch j hj])
  intro j hj
  by_cases hji : j = i
  · subst hji
    obtain ⟨t, ht, hlast⟩ := h j (by rw [hd]; simp)
    refine ⟨t, hi.2.trans ht, ?_⟩
    -- the queue that is left is not empty and ends where the old one does
    have hne : v.chain (v.next d) ≠ [] := by
      have hseg := hok.chain_isSeg fun _ hx => hok.next_lt (a := d) hx
      intro hnil
      rw [hnil, isSeg_nil] at hseg
      exact hj (hi.1.trans hseg)
    rw [chain_congr hn ha, hlast, hq, hqi, List.getLast?_cons_of_ne_nil hne]
  · rw [hch j hji] at hj ⊢
    obtain ⟨t, ht, hlast⟩ := h j hj
    exact ⟨t, ht, by rw [chain_congr hn ha, hlast, hqj j hji]⟩

theorem Linked.start (h : v.Linked) (hok : v.Ok) {i d : Nat} (cost : Option Nat) (hd : (v.channels i).head = some d) :
    (v.start i d cost).Linked :=
  h.pop hok hd (v.start_next i d cost) (v.start_allocated i d cost) (by rw [start_self]; exact ⟨rfl, rfl⟩)
    fun _ hj => v.start_of_ne d cost hj

theorem Linked.drain (h : v.Linked) (hok : v.Ok) {i d : Nat} (hd : (v.channels i).head = some d) :
    (v.drain i d).Linked :=
  h.pop hok hd (v.drain_next i d) (v.drain_allocated i d) (by rw [drain_self]; exact ⟨rfl, rfl⟩)
    fun _ hj => v.drain_of_ne d hj

theorem Linked.retire (h : v.Linked) (i a : Nat) : (v.retire i a).Linked := by
  refine h.congr rfl rfl fun j => ?_
  by_cases hj : j = i
  · subst hj
    rw [retire_self]
    exact ⟨rfl, rfl⟩
  · rw [v.retire_of_ne a hj]
    exact ⟨rfl, rfl⟩

theorem Linked.flushActive (h : v.Linked) (i a : Nat) : (v.flushActive i a).Linked := by
  refine h.congr (v.flushActive_next i a) (v.flushActive_allocated i a) fun j => ?_
  by_cases hj : j = i
  · subst hj
    rw [flushActive_self]
    exact ⟨rfl, rfl⟩
  · rw [v.flushActive_of_ne a hj]
    exact ⟨rfl, rfl⟩

theorem Linked.clearTail (h : v.Linked) {i : Nat} (hi : (v.channels i).head = none) : (v.clearTail i).Linked := by
  intro j hj
  by_cases hji : j = i
  · subst hji
    rw [clearTail_self] at hj
    exact absurd hi hj
  · rw [v.clearTail_of_ne hji] at hj ⊢
    obtain ⟨t, ht, hlast⟩ := h j hj
    refine ⟨t, ht, ?_⟩
    show (v.chain (some t)).getLast? = _
    rw [hlast, queue_clearTail]

theorem Linked.tickStep (h : v.Linked) (hok : v.Ok) (hs : TickStep v w) : w.Linked := by
  cases hs with
  | start cost _ hh _ => exact h.start hok cost hh
  | retire _ _ => exact h.retire _ _

/-! ### Appending a fresh chain -/

theorem Linked.build (h : v.Linked) (hok : v.Ok) (n : Nat) (executes : Nat → Bool) : (v.build n executes).Linked := by
  intro i hi
  obtain ⟨t, ht, hlast⟩ := h i hi
  refine ⟨t, ht, ?_⟩
  rw [hok.queue_build, hok.chain_build, hlast]
  rintro d hd
  cases hd
  exact (hok.below i).tail t ht

section

variable {n : Nat} (executes : Nat → Bool) {i : Nat}

/-- The appended chain follows the whole queue. -/
theorem Linked.queue_append_self (h : v.Linked) (hok : v.Ok) (hn : 0 < n) (ha : v.Appendable i) :
    ((v.build n executes).append i v.allocated (List.range' v.allocated n)).queue i =
      v.queue i ++ List.range' v.allocated n := by
  refine (hok.build_append executes hn i).queue_eq ?_
  have hfresh := v.build_isSeg executes hn
  have hold : IsSeg (v.build n executes).next (v.channels i).head (v.queue i) := by
    rw [← hok.queue_build n executes i]
    exact (hok.build n executes).queue_isSeg i
  rw [append_next, append_self]
  have hhead : ((v.build n executes).channels i).head = (v.channels i).head := rfl
  have htail : ((v.build n executes).channels i).tail = (v.channels i).tail := rfl
  unfold link
  rw [hhead, htail]
  dsimp only
  cases hh : (v.channels i).head with
  | none =>
    rw [queue_of_head_none hh]
    exact hfresh
  | some a =>
    rcases ha with ha | ⟨t, ht, hend⟩
    · rw [hh] at ha
      cases ha
    · obtain ⟨l, hl⟩ := h.queue_eq hok (by rw [hh]; simp) ht hend
      rw [ht]
      have hnot : t ∉ List.range' v.allocated n := by
        have := (hok.below i).tail t ht
        rw [List.mem_range'_1]
        omega
      have hseg := hold
      rw [hh, hl] at hseg
      have := hseg.link hfresh (hl ▸ hok.queue_nodup i) hnot
      rw [hl]
      exact this

/-- The chains of another channel do not meet the tail that is written. -/
private theorem append_chain (hok : v.Ok) (hn : 0 < n) {j : Nat} (hj : j ≠ i) {p : Option Nat}
    (hp : ∀ d, p = some d → d ∈ acceptedOn v.log j) :
    ((v.build n executes).append i v.allocated (List.range' v.allocated n)).chain p = v.chain p := by
  have hpv : ∀ d, p = some d → d < v.allocated := fun d hd => hok.lt j d (hp d hd)
  have hlt : ∀ d, p = some d → d < v.allocated + n := fun d hd => Nat.lt_of_lt_of_le (hpv d hd) (Nat.le_add_right _ _)
  refine (hok.build_append executes hn i).chain_eq (by rw [append_allocated]; exact hlt) ?_
  have hold : IsSeg (v.build n executes).next p (v.chain p) := by
    rw [← hok.chain_build n executes hpv]
    exact (hok.build n executes).chain_isSeg hlt
  rw [append_next]
  have hhead : ((v.build n executes).channels i).head = (v.channels i).head := rfl
  have htail : ((v.build n executes).channels i).tail = (v.channels i).tail := rfl
  unfold link
  rw [hhead, htail]
  cases hh : (v.channels i).head with
  | none => exact hold
  | some a =>
    cases ht : (v.channels i).tail with
    | none => exact hold
    | some t =>
      refine hold.update_of_notMem (fun hmem => ?_) _
      exact hok.disjoint i j (Ne.symm hj) t ((hok.within i).tail t ht) (hok.chain_accepted hp hmem)

theorem Ok.queue_append_of_ne (hok : v.Ok) (hn : 0 < n) {j : Nat} (hj : j ≠ i) :
    ((v.build n executes).append i v.allocated (List.range' v.allocated n)).queue j = v.queue j := by
  unfold queue
  rw [append_of_ne _ _ _ hj]
  exact append_chain executes hok hn hj (hok.within j).head

/-- Appending a fresh chain keeps the queues linked. -/
theorem Linked.build_append (h : v.Linked) (hok : v.Ok) (hn : 0 < n) (ha : v.Appendable i) :
    ((v.build n executes).append i v.allocated (List.range' v.allocated n)).Linked := by
  have hself := h.queue_append_self executes hok hn ha
  intro j hj
  by_cases hji : j = i
  · subst hji
    refine ⟨v.allocated, by rw [append_self], ?_⟩
    have hchain : ((v.build n executes).append j v.allocated (List.range' v.allocated n)).chain (some v.allocated) =
        List.range' v.allocated n := by
      refine (hok.build_append executes hn j).chain_eq ?_ ?_
      · rintro d hd
        cases hd
        rw [append_allocated]
        exact Nat.lt_add_of_pos_right hn
      · -- the written tail is older than the fresh chain
        rw [append_next]
        have htail : ((v.build n executes).channels j).tail = (v.channels j).tail := rfl
        unfold link
        rw [htail]
        cases hh : ((v.build n executes).channels j).head with
        | none => exact v.build_isSeg executes hn
        | some a =>
          cases ht : (v.channels j).tail with
          | none => exact v.build_isSeg executes hn
          | some t =>
            refine (v.build_isSeg executes hn).update_of_notMem ?_ _
            have := (hok.below j).tail t ht
            rw [List.mem_range'_1]
            omega
    rw [hchain, hself, List.getLast?_append_of_ne_nil]
    intro hnil
    have := congrArg List.length hnil
    rw [List.length_range', List.length_nil] at this
    omega
  · rw [append_of_ne _ _ _ hji] at hj ⊢
    obtain ⟨s, hs, hlast⟩ := h j hj
    refine ⟨s, hs, ?_⟩
    rw [append_chain executes hok hn hji, hlast, hok.queue_append_of_ne executes hn hji]
    rintro d hd
    cases hd
    exact (hok.within j).tail s hs

end

/-! ### Single descriptors -/

/-- Every tail is the last descriptor of its queue. -/
def TailsEnd (v : QueueView) : Prop :=
  ∀ i, (v.channels i).head ≠ none → ∃ t, (v.channels i).tail = some t ∧ v.next t = none

theorem TailsEnd.appendable (h : v.TailsEnd) (i : Nat) : v.Appendable i := by
  by_cases hh : (v.channels i).head = none
  · exact .inl hh
  · exact .inr (h i hh)

/-- A step that moves heads along their links and keeps tails. -/
private theorem TailsEnd.congr (h : v.TailsEnd) (hn : w.next = v.next)
    (hch : ∀ j, ((w.channels j).head ≠ none → (v.channels j).head ≠ none) ∧
      ((w.channels j).head ≠ none → (w.channels j).tail = (v.channels j).tail)) : w.TailsEnd := by
  intro j hj
  obtain ⟨t, ht, hend⟩ := h j ((hch j).1 hj)
  exact ⟨t, ((hch j).2 hj).trans ht, by rw [hn]; exact hend⟩

theorem TailsEnd.start (h : v.TailsEnd) {i d : Nat} (cost : Option Nat) (hd : (v.channels i).head = some d) :
    (v.start i d cost).TailsEnd := by
  refine h.congr (v.start_next i d cost) fun j => ?_
  by_cases hj : j = i
  · subst hj
    rw [start_self, hd]
    exact ⟨fun _ => by simp, fun _ => rfl⟩
  · rw [v.start_of_ne d cost hj]
    exact ⟨id, fun _ => rfl⟩

theorem TailsEnd.drain (h : v.TailsEnd) {i d : Nat} (hd : (v.channels i).head = some d) :
    (v.drain i d).TailsEnd := by
  refine h.congr (v.drain_next i d) fun j => ?_
  by_cases hj : j = i
  · subst hj
    rw [drain_self, hd]
    exact ⟨fun _ => by simp, fun _ => rfl⟩
  · rw [v.drain_of_ne d hj]
    exact ⟨id, fun _ => rfl⟩

theorem TailsEnd.retire (h : v.TailsEnd) (i a : Nat) : (v.retire i a).TailsEnd := by
  refine h.congr rfl fun j => ?_
  by_cases hj : j = i
  · subst hj
    rw [retire_self]
    exact ⟨id, fun _ => rfl⟩
  · rw [v.retire_of_ne a hj]
    exact ⟨id, fun _ => rfl⟩

theorem TailsEnd.flushActive (h : v.TailsEnd) (i a : Nat) : (v.flushActive i a).TailsEnd := by
  refine h.congr (v.flushActive_next i a) fun j => ?_
  by_cases hj : j = i
  · subst hj
    rw [flushActive_self]
    exact ⟨id, fun _ => rfl⟩
  · rw [v.flushActive_of_ne a hj]
    exact ⟨id, fun _ => rfl⟩

theorem TailsEnd.clearTail (h : v.TailsEnd) {i : Nat} (hi : (v.channels i).head = none) : (v.clearTail i).TailsEnd := by
  refine h.congr rfl fun j => ?_
  by_cases hj : j = i
  · subst hj
    rw [clearTail_self]
    exact ⟨id, fun hne => absurd hi hne⟩
  · rw [v.clearTail_of_ne hj]
    exact ⟨id, fun _ => rfl⟩

theorem TailsEnd.tickStep (h : v.TailsEnd) (hs : TickStep v w) : w.TailsEnd := by
  cases hs with
  | start cost _ hh _ => exact h.start cost hh
  | retire _ _ => exact h.retire _ _

theorem TailsEnd.build (h : v.TailsEnd) (hok : v.Ok) (n : Nat) (executes : Nat → Bool) :
    (v.build n executes).TailsEnd := by
  intro i hi
  obtain ⟨t, ht, hend⟩ := h i hi
  exact ⟨t, ht, by rw [build_next_of_lt n executes ((hok.below i).tail t ht)]; exact hend⟩

/-- Appending one fresh descriptor. -/
theorem TailsEnd.build_append (h : v.TailsEnd) (hok : v.Ok) (executes : Nat → Bool) (i : Nat)
    (c : List Nat) : ((v.build 1 executes).append i v.allocated c).TailsEnd := by
  have hnew : (v.build 1 executes).next v.allocated = none := by
    show (if v.allocated ≤ v.allocated ∧ v.allocated < v.allocated + 1 then
      if v.allocated + 1 < v.allocated + 1 then some (v.allocated + 1) else none else _) = none
    rw [if_pos (by omega), if_neg (by omega)]
  intro j hj
  rw [append_next]
  by_cases hji : j = i
  · subst hji
    refine ⟨v.allocated, by rw [append_self], ?_⟩
    rw [link_next_of_ne, hnew]
    intro t _ ht
    exact Nat.ne_of_gt ((hok.below j).tail t ht)
  · rw [append_of_ne _ _ _ hji] at hj ⊢
    obtain ⟨s, hs, hend⟩ := h j hj
    refine ⟨s, hs, ?_⟩
    rw [link_next_of_ne, build_next_of_lt 1 executes ((hok.below j).tail s hs), hend]
    rintro t _ ht rfl
    exact hok.disjoint j i hji s ((hok.within j).tail s hs) ((hok.within i).tail s ht)

end

end QueueView

end Tusim
