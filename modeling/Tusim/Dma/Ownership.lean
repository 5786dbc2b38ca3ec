import Tusim.Dma.Counters

/-!
# Release of descriptors

`tu_dma_destroy` frees the queue of a channel and then the chain of its active descriptor.  In a run of single
descriptors the active descriptor of a channel is linked to nothing or to the head of the queue
(`QueueView.ActiveLinked`); in the second case the queue is walked, and freed, twice.  `destroySafe_iff` says that
destruction is safe exactly when no active descriptor is linked.
-/

namespace Tusim

open Word Segment

/-! ### Walks that release -/

/-- Visit and free the descriptors of a list in order. -/
def release (l : List Nat) : List TuDmaRelease := l.flatMap fun d => [.visit d, .free d]

/-- No descriptor is visited once it has been freed. -/
def NoUseAfterRelease (rs : List TuDmaRelease) : Prop :=
  rs.Pairwise fun r s => ∀ d, r = .free d → s ≠ .visit d

@[simp] theorem release_cons (d : Nat) (l : List Nat) : release (d :: l) = .visit d :: .free d :: release l := rfl

theorem release_append (l m : List Nat) : release (l ++ m) = release l ++ release m := List.flatMap_append

theorem mem_release_visit {l : List Nat} {d : Nat} : .visit d ∈ release l ↔ d ∈ l := by
  simp [release]

theorem count_free_release (l : List Nat) (d : Nat) : (release l).count (.free d) = l.count d := by
  induction l with
  | nil => rfl
  | cons a l ih =>
    rw [release_cons, List.count_cons, List.count_cons, List.count_cons, ih]
    have h : (TuDmaRelease.free a == .free d) = (a == d) := by
      rw [Bool.eq_iff_iff, beq_iff_eq, beq_iff_eq]
      exact ⟨fun h => by cases h; rfl, fun h => by rw [h]⟩
    rw [h]
    simp

/-- Releasing descriptors that are all different uses none after its release. -/
theorem noUseAfterRelease_release {l : List Nat} (h : l.Nodup) : NoUseAfterRelease (release l) := by
  induction l with
  | nil => exact List.Pairwise.nil
  | cons a l ih =>
    obtain ⟨ha, hl⟩ := List.nodup_cons.1 h
    refine List.Pairwise.cons ?_ (List.Pairwise.cons ?_ (ih hl))
    · intro s _ d hd
      cases hd
    · rintro s hs d hd rfl
      cases hd
      exact ha (mem_release_visit.1 hs)

theorem tuDmaDescDestroy_eq (e : TuDmaEngine) (p : Option Nat) : tuDmaDescDestroy e p = release (e.chain p) := rfl

namespace QueueView

/-- Active descriptors have left their queue. -/
def Owned (v : QueueView) : Prop := ∀ i a, (v.channels i).active = some a → a ∉ v.queue i

/-- The active descriptor of channel `i` is linked to nothing or to the head of the queue. -/
def ActiveLinked (v : QueueView) (i : Nat) : Prop :=
  ∀ a, (v.channels i).active = some a → v.next a = none ∨ v.next a = (v.channels i).head

section

variable {v w : QueueView}

/-- A step that queues nothing and starts nothing. -/
private theorem Owned.congr (h : v.Owned) (hq : ∀ j, ∀ d ∈ w.queue j, d ∈ v.queue j)
    (hact : ∀ j a, (w.channels j).active = some a → (v.channels j).active = some a) : w.Owned :=
  fun i a ha hm => h i a (hact i a ha) (hq i a hm)

theorem Owned.start (h : v.Owned) (hok : v.Ok) {i d : Nat} (cost : Option Nat) (hd : (v.channels i).head = some d) :
    (v.start i d cost).Owned := by
  intro j a ha
  by_cases hj : j = i
  · subst hj
    rw [start_self] at ha
    cases ha
    rw [queue_start_self]
    have hnodup := hok.queue_nodup j
    rw [hok.queue_of_head hd, List.nodup_cons] at hnodup
    exact hnodup.1
  · rw [v.start_of_ne d cost hj] at ha
    rw [queue_start_of_ne d cost hj]
    exact h j a ha

theorem Owned.retire (h : v.Owned) (i a : Nat) : (v.retire i a).Owned := by
  refine h.congr (fun j d hd => by rwa [queue_retire] at hd) fun j b hb => ?_
  by_cases hj : j = i
  · subst hj
    rw [retire_self] at hb
    cases hb
  · rwa [v.retire_of_ne a hj] at hb

theorem Owned.drain (h : v.Owned) (hok : v.Ok) {i d : Nat} (hd : (v.channels i).head = some d) :
    (v.drain i d).Owned := by
  refine h.congr (fun j x hx => ?_) fun j a ha => ?_
  · by_cases hj : j = i
    · subst hj
      rw [queue_drain_self] at hx
      rw [hok.queue_of_head hd]
      exact List.mem_cons_of_mem d hx
    · rwa [queue_drain_of_ne d hj] at hx
  · by_cases hj : j = i
    · subst hj
      rwa [drain_self] at ha
    · rwa [v.drain_of_ne d hj] at ha

theorem Owned.clearTail (h : v.Owned) (i : Nat) : (v.clearTail i).Owned := by
  refine h.congr (fun j d hd => by rwa [queue_clearTail] at hd) fun j a ha => ?_
  by_cases hj : j = i
  · subst hj
    rwa [clearTail_self] at ha
  · rwa [v.clearTail_of_ne hj] at ha

theorem Owned.flushActive (h : v.Owned) (i a : Nat) : (v.flushActive i a).Owned := by
  refine h.congr (fun j d hd => by rwa [queue_flushActive] at hd) fun j b hb => ?_
  by_cases hj : j = i
  · subst hj
    rw [flushActive_self] at hb
    cases hb
  · rwa [v.flushActive_of_ne a hj] at hb

theorem Owned.build (h : v.Owned) (hok : v.Ok) (n : Nat) (executes : Nat → Bool) : (v.build n executes).Owned :=
  h.congr (fun j d hd => by rwa [hok.queue_build] at hd) fun _ _ ha => ha

theorem Owned.build_append (h : v.Owned) (hok : v.Ok) (hl : v.Linked) (ht : v.TailsEnd) (executes : Nat → Bool)
    (i : Nat) : ((v.build 1 executes).append i v.allocated (List.range' v.allocated 1)).Owned := by
  intro j a ha
  by_cases hj : j = i
  · subst hj
    rw [append_self] at ha
    have ha : (v.channels j).active = some a := ha
    rw [hl.queue_append_self _ hok Nat.one_pos (ht.appendable j), List.mem_append]
    rintro (hm | hm)
    · exact h j a ha hm
    · have := (hok.below j).active a ha
      have := List.mem_range'_1.1 hm
      omega
  · rw [append_of_ne _ _ _ hj] at ha
    rw [hok.queue_append_of_ne _ Nat.one_pos hj]
    exact h j a ha

/-! ### Links of active descriptors -/

theorem ActiveLinked.start (i d : Nat) (cost : Option Nat) : (v.start i d cost).ActiveLinked i := by
  intro a ha
  rw [start_self] at ha ⊢
  cases ha
  exact .inr (by rw [start_next])

/-- A step that keeps links and channel `i`. -/
private theorem ActiveLinked.congr {i : Nat} (h : v.ActiveLinked i) (hn : w.next = v.next)
    (hch : w.channels i = v.channels i) : w.ActiveLinked i := by
  intro a ha
  rw [hch] at ha ⊢
  rw [hn]
  exact h a ha

theorem ActiveLinked.of_active_none {i : Nat} (h : (v.channels i).active = none) : v.ActiveLinked i := by
  intro a ha
  rw [h] at ha
  cases ha

theorem ActiveLinked.tickStep (h : ∀ i, v.ActiveLinked i) (hs : TickStep v w) (i : Nat) : w.ActiveLinked i := by
  cases hs with
  | @start j d cost _ _ _ =>
    by_cases hi : i = j
    · subst hi
      exact ActiveLinked.start i d cost
    · exact (h i).congr (v.start_next j d cost) (v.start_of_ne d cost hi)
  | @retire j a _ _ =>
    by_cases hi : i = j
    · subst hi
      exact .of_active_none (by rw [retire_self])
    · exact (h i).congr rfl (v.retire_of_ne a hi)

theorem ActiveLinked.build (hok : v.Ok) {i : Nat} (h : v.ActiveLinked i) (n : Nat) (executes : Nat → Bool) :
    (v.build n executes).ActiveLinked i := by
  intro a ha
  rw [build_next_of_lt n executes ((hok.below i).active a ha)]
  exact h a ha

/-- Appending a single descriptor writes the tail of a queue, which is not active. -/
theorem ActiveLinked.build_append (hok : v.Ok) (hl : v.Linked) (ht : v.TailsEnd) (ho : v.Owned) (i : Nat) {j : Nat}
    (h : v.ActiveLinked j) (executes : Nat → Bool) (c : List Nat) :
    ((v.build 1 executes).append i v.allocated c).ActiveLinked j := by
  have hnext : ∀ a, (v.channels j).active = some a →
      ((v.build 1 executes).append i v.allocated c).next a = v.next a := by
    intro a ha
    rw [append_next, link_next_of_ne, build_next_of_lt 1 executes ((hok.below j).active a ha)]
    rintro t hh htail rfl
    by_cases hj : j = i
    · subst hj
      obtain ⟨t, ht', hend⟩ := ht j hh
      have hsame : some t = some a := ht'.symm.trans htail
      cases hsame
      obtain ⟨l, hq⟩ := hl.queue_eq hok hh ht' hend
      exact ho j a ha (by rw [hq]; simp)
    · exact hok.disjoint j i hj a ((hok.within j).active a ha) ((hok.within i).tail a htail)
  intro a ha
  by_cases hj : j = i
  · subst hj
    rw [append_self] at ha ⊢
    have ha : (v.channels j).active = some a := ha
    rw [hnext a ha]
    have hhead : ((v.build 1 executes).channels j).head = (v.channels j).head := rfl
    dsimp only
    rw [hhead]
    cases hh : (v.channels j).head with
    | none =>
      left
      have := h a ha
      rw [hh] at this
      exact this.elim id id
    | some b =>
      have := h a ha
      rw [hh] at this
      simpa using this
  · rw [append_of_ne _ _ _ hj] at ha ⊢
    rw [hnext a ha]
    exact h a ha

end

end QueueView

/-! ### Runs -/

/-- The part of the invariant that concerns active descriptors. -/
structure OwnedEngine (v : QueueView) : Prop where
  linked : v.Linked
  tails : v.TailsEnd
  owned : v.Owned
  active : ∀ i, v.ActiveLinked i

private theorem flush_active {e : TuDmaEngine} {channel : UInt8} (hok : e.view.Ok)
    (hi : channel.toNat < e.cfg.numChannels) :
    ((tuDmaFlushChannel e channel).view.channels channel.toNat).active = none := by
  rw [view_tuDmaFlushChannel hi (hok.queue_isSeg _) (hok.queue_length _)]
  generalize channel.toNat = i
  unfold QueueView.flush
  cases ha : (e.view.channels i).active with
  | none =>
    dsimp only
    rw [QueueView.clearTail_self, ← ha]
    exact QueueView.drainAll_active e.view i _
  | some a =>
    dsimp only
    rw [QueueView.flushActive_self]

theorem step_owned {e : TuDmaEngine} (op : TuDmaOp) (hasync : e.cfg.asyncMode = true) (hok : e.view.Ok)
    (h : OwnedEngine e.view) (hop : Single e op) : OwnedEngine (e.step op).view := by
  cases op with
  | submit descs =>
    refine (submit_keeps hok (fun x => ?_) (fun x i _ ha => ?_) ?_ ?_).2
    · exact ⟨h.linked.build hok _ x, h.tails.build hok _ x, h.owned.build hok _ x,
        fun i => (h.active i).build hok _ x⟩
    · have hlen : descs.length = 1 := hop (by rw [ha]; rfl)
      rw [hlen]
      exact ⟨h.linked.build_append _ hok Nat.one_pos (h.tails.appendable i),
        h.tails.build_append hok x i _, h.owned.build_append hok h.linked h.tails x i,
        fun j => (h.active j).build_append hok h.linked h.tails h.owned i x _⟩
    · intro v i d hsync
      rw [hasync] at hsync
      cases hsync
    · intro v i hsync
      rw [hasync] at hsync
      cases hsync
  | tick =>
    refine (tick_keeps hok h fun {v w} hv hs hstep => ⟨hs.linked.tickStep hv hstep, hs.tails.tickStep hstep, ?_,
      QueueView.ActiveLinked.tickStep hs.active hstep⟩).2
    cases hstep with
    | start cost _ hh _ => exact hs.owned.start hv cost hh
    | retire _ _ => exact hs.owned.retire _ _
  | flush channel =>
    by_cases hi : channel.toNat < e.cfg.numChannels
    · -- draining moves the head away from the active descriptor, which goes at the end
      have hflush := (flush_keeps channel
        (P := fun v => v.Linked ∧ v.TailsEnd ∧ v.Owned ∧ ∀ j, j ≠ channel.toNat → v.ActiveLinked j) hok
        ⟨h.linked, h.tails, h.owned, fun j _ => h.active j⟩
        (fun {v d} hv hs hh => ⟨hs.1.drain hv hh, hs.2.1.drain hh, hs.2.2.1.drain hv hh, fun j hj =>
          (hs.2.2.2 j hj).congr (v.drain_next _ d) (v.drain_of_ne d hj)⟩)
        (fun {v} _ hs hh => ⟨hs.1.clearTail hh, hs.2.1.clearTail hh, hs.2.2.1.clearTail _, fun j hj =>
          (hs.2.2.2 j hj).congr rfl (v.clearTail_of_ne hj)⟩)
        fun {v a} _ hs _ => ⟨hs.1.flushActive _ a, hs.2.1.flushActive _ a, hs.2.2.1.flushActive _ a, fun j hj =>
          (hs.2.2.2 j hj).congr (v.flushActive_next _ a) (v.flushActive_of_ne a hj)⟩).2
      refine ⟨hflush.1, hflush.2.1, hflush.2.2.1, fun j => ?_⟩
      by_cases hj : j = channel.toNat
      · subst hj
        exact .of_active_none (flush_active hok hi)
      · exact hflush.2.2.2 j hj
    · have hsame : e.step (.flush channel) = e := by
        show tuDmaFlushChannel e channel = e
        unfold tuDmaFlushChannel
        exact if_pos (Nat.le_of_not_lt hi)
      rw [hsame]
      exact h

private theorem fresh_owned (cfg : TuDmaConfig) (mem : Memory) : OwnedEngine (TuDmaEngine.fresh cfg mem).view := by
  refine ⟨fresh_linked cfg mem, fun _ hi => absurd rfl hi, fun i a ha => ?_, fun i a ha => ?_⟩
  · cases ha
  · cases ha

theorem run_owned (cfg : TuDmaConfig) (mem : Memory) {ops : List TuDmaOp} (hasync : cfg.asyncMode = true)
    (h : Run.Along Single TuDmaEngine.step (TuDmaEngine.fresh cfg mem) ops) :
    (TuDmaEngine.run cfg mem ops).view.Ok ∧ OwnedEngine (TuDmaEngine.run cfg mem ops).view := by
  have hinv := h.invariant (P := fun e => e.view.Ok ∧ e.cfg.asyncMode = true ∧ OwnedEngine e.view)
    (fun e op he hop => ⟨step_ok op he.1, by rw [step_cfg op he.1]; exact he.2.1,
      step_owned op he.2.1 he.1 he.2.2 hop⟩)
    ⟨fresh_ok cfg mem, hasync, fresh_owned cfg mem⟩
  exact ⟨hinv.1, hinv.2.2⟩

/-! ### Destruction -/

/-- A descriptor that is queued or active. -/
def Live (e : TuDmaEngine) (d : Nat) : Prop :=
  ∃ i < e.cfg.numChannels, d ∈ e.queue i ∨ (e.channels i).active = some d

/-- Destruction frees every live descriptor exactly once and visits none after its release. -/
def DestroySafe (e : TuDmaEngine) : Prop :=
  (∀ d, Live e d → (tuDmaDestroy e).count (.free d) = 1) ∧ NoUseAfterRelease (tuDmaDestroy e)

/-- The descriptors of a channel, queued and active. -/
private def held (e : TuDmaEngine) (i : Nat) : List Nat := e.queue i ++ (e.channels i).active.toList

private theorem destroyChannel_eq {e : TuDmaEngine} (hok : e.view.Ok) (h : OwnedEngine e.view) {i : Nat}
    (hnone : ∀ a, (e.channels i).active = some a → e.next a = none) :
    tuDmaDestroyChannel e i = release (held e i) := by
  unfold tuDmaDestroyChannel held
  dsimp only
  rw [tuDmaDescDestroy_eq, release_append]
  congr 1
  cases ha : (e.channels i).active with
  | none => rfl
  | some a =>
    have hne : some a ≠ (e.channels i).head := by
      intro hhead
      refine h.owned i a ha ?_
      rw [hok.queue_of_head hhead.symm]
      exact List.mem_cons_self
    have hchain : e.chain (some a) = [a] := by
      rw [← view_chain]
      refine hok.chain_eq ?_ ⟨rfl, hnone a ha⟩
      rintro d hd
      cases hd
      exact (hok.below i).active a ha
    rw [if_pos ⟨rfl, hne⟩, tuDmaDescDestroy_eq, hchain]
    rfl

private theorem mem_held {e : TuDmaEngine} {i d : Nat} :
    d ∈ held e i ↔ d ∈ e.queue i ∨ (e.channels i).active = some d := by
  unfold held
  rw [List.mem_append, Option.mem_toList]

private theorem held_accepted {e : TuDmaEngine} (hok : e.view.Ok) {i d : Nat} (hd : d ∈ held e i) :
    d ∈ acceptedOn e.log i := by
  rcases mem_held.1 hd with hd | hd
  · exact hok.queue_accepted hd
  · exact (hok.within i).active d hd

/-- No descriptor is held twice. -/
private theorem held_nodup {e : TuDmaEngine} (hok : e.view.Ok) (h : OwnedEngine e.view) (n : Nat) :
    ((List.range n).flatMap (held e)).Nodup := by
  rw [List.nodup_flatMap]
  constructor
  · intro i _
    unfold held
    refine List.nodup_append.2 ⟨hok.queue_nodup i, ?_, ?_⟩
    · cases (e.channels i).active <;> simp
    · rintro d hd a ha rfl
      exact h.owned i d (by simpa using ha) hd
  · refine List.nodup_range.imp fun {i j} hij => ?_
    apply List.disjoint_left.2
    intro d hi hj
    exact hok.disjoint i j hij d (held_accepted hok hi) (held_accepted hok hj)

private theorem destroySafe_of_unlinked {e : TuDmaEngine} (hok : e.view.Ok) (h : OwnedEngine e.view)
    (hnone : ∀ i < e.cfg.numChannels, ∀ a, (e.channels i).active = some a → e.next a = none) : DestroySafe e := by
  have hnodup := held_nodup hok h e.cfg.numChannels
  have hdestroy : tuDmaDestroy e = release ((List.range e.cfg.numChannels).flatMap (held e)) := by
    unfold tuDmaDestroy release
    rw [List.flatMap_assoc]
    refine List.flatMap_congr fun i hi => ?_
    exact destroyChannel_eq hok h (hnone i (List.mem_range.1 hi))
  unfold DestroySafe
  rw [hdestroy]
  refine ⟨fun d hd => ?_, noUseAfterRelease_release hnodup⟩
  obtain ⟨i, hi, hd⟩ := hd
  rw [count_free_release]
  exact List.count_eq_one_of_mem hnodup
    (List.mem_flatMap.2 ⟨i, List.mem_range.2 hi, mem_held.2 hd⟩)

/-- A linked active descriptor leads back to the head of the queue, which has been freed. -/
private theorem unsafe_of_linked {e : TuDmaEngine} (hok : e.view.Ok) (h : OwnedEngine e.view) {i a b : Nat}
    (hi : i < e.cfg.numChannels) (ha : (e.channels i).active = some a) (hb : e.next a = some b) :
    ¬ NoUseAfterRelease (tuDmaDestroy e) := by
  have hhead : (e.channels i).head = some b := by
    rcases h.active i a ha with hn | hn
    · rw [view_next, hb] at hn
      cases hn
    · rw [← view_head, ← hn]
      exact hb
  have hqueue : e.queue i = b :: e.chain (e.next b) := hok.queue_of_head hhead
  have hchain : e.chain (some a) = a :: b :: e.chain (e.next b) := by
    have hseg := hok.queue_isSeg i
    rw [view_queue, hqueue] at hseg
    rw [← view_chain]
    refine hok.chain_eq ?_ ⟨rfl, ?_⟩
    · rintro d hd
      cases hd
      exact (hok.below i).active a ha
    · rw [view_next, hb, ← hhead]
      exact hseg
  have hne : (e.channels i).active ≠ (e.channels i).head := by
    rw [ha, hhead]
    intro hab
    refine h.owned i a ha ?_
    rw [view_queue, hqueue, Option.some.inj hab]
    exact List.mem_cons_self
  have hchannel : tuDmaDestroyChannel e i =
      [.visit b] ++ ([.free b] ++ (release (e.chain (e.next b)) ++ ([.visit a, .free a] ++
        ([.visit b] ++ (.free b :: release (e.chain (e.next b))))))) := by
    unfold tuDmaDestroyChannel
    dsimp only
    rw [if_pos ⟨by rw [ha]; rfl, hne⟩, tuDmaDescDestroy_eq, tuDmaDescDestroy_eq, ha, hchain,
      show e.chain (e.channels i).head = b :: e.chain (e.next b) from hqueue]
    simp
  intro hsafe
  have hsub : (tuDmaDestroyChannel e i).Sublist (tuDmaDestroy e) :=
    List.sublist_flatten_of_mem (List.mem_map.2 ⟨i, List.mem_range.2 hi, rfl⟩)
  have hpair := hsafe.sublist hsub
  rw [hchannel] at hpair
  have hpair := (List.pairwise_append.1 (List.pairwise_append.1 hpair).2.1).2.2
  exact hpair (.free b) (List.mem_singleton_self _) (.visit b) (by simp) b rfl rfl

/-- In an asynchronous run of single descriptors, destruction is safe exactly when no active descriptor is linked. -/
theorem destroySafe_iff (cfg : TuDmaConfig) (mem : Memory) (ops : List TuDmaOp) (hasync : cfg.asyncMode = true)
    (h : Run.Along Single TuDmaEngine.step (TuDmaEngine.fresh cfg mem) ops) :
    DestroySafe (TuDmaEngine.run cfg mem ops) ↔
      ∀ i < cfg.numChannels, ∀ a ∈ ((TuDmaEngine.run cfg mem ops).channels i).active,
        (TuDmaEngine.run cfg mem ops).next a = none := by
  obtain ⟨hok, howned⟩ := run_owned cfg mem hasync h
  have hcfg : (TuDmaEngine.run cfg mem ops).cfg = cfg := run_cfg cfg mem ops
  generalize TuDmaEngine.run cfg mem ops = e at *
  constructor
  · intro hsafe i hi a ha
    cases hn : e.next a with
    | none => rfl
    | some b => exact absurd hsafe.2 (unsafe_of_linked hok howned (by rw [hcfg]; exact hi) ha hn)
  · intro hnone
    refine destroySafe_of_unlinked hok howned fun i hi a ha => ?_
    rw [hcfg] at hi
    exact hnone i hi a ha

/-- An active descriptor and one queued after it started: they are not linked. -/
theorem destroySafe_unlinked :
    let cfg : TuDmaConfig :=
      { asyncMode := true, numChannels := 1, maxDepth := 4, numChannels_pos := by decide,
        numChannels_le := by decide, maxDepth_pos := by decide }
    let desc := tuDmaDescCreateLinear 1 0 .hostToTu (some 0) 0 (some 0) 4 1
    DestroySafe (TuDmaEngine.run cfg (Memory.zero 16) [.submit [desc], .tick, .submit [desc]]) := by
  intro cfg desc
  exact (destroySafe_iff cfg (Memory.zero 16) [.submit [desc], .tick, .submit [desc]] rfl
    ⟨fun _ => rfl, trivial, fun _ => rfl, trivial⟩).2 (by decide)

/-- Two descriptors queued before the first one starts: the second is freed and visited again. -/
theorem not_destroySafe_linked :
    let cfg : TuDmaConfig :=
      { asyncMode := true, numChannels := 1, maxDepth := 4, numChannels_pos := by decide,
        numChannels_le := by decide, maxDepth_pos := by decide }
    let desc := tuDmaDescCreateLinear 1 0 .hostToTu (some 0) 0 (some 0) 4 1
    ¬ DestroySafe (TuDmaEngine.run cfg (Memory.zero 16) [.submit [desc], .submit [desc], .tick]) := by
  intro cfg desc h
  exact absurd (h.1 1 ⟨0, by decide, .inl (by decide)⟩) (by decide)

end Tusim
