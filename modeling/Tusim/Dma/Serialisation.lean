import Tusim.Dma.Delivery
import Tusim.Dma.ChannelAccounting
import Tusim.Lib.Commuting

/-!
# Transfers in any order

An asynchronous engine moves descriptors in the order of its arbitration.  The memory is the one after the copies of the
descriptors in the order in which they were executed (`Moved`).  Every channel keeps its own order, so if descriptors of
different channels do not use each other's bytes, the same memory is left by executing them in the order of submission
(`run_serialised`): copies on different channels commute.
-/

namespace Tusim

open Word Emission Commuting

/-! ### Copies as steps on the bytes -/

/-- The bytes after a copy. -/
def copyBytes (bytes : TuAddr → UInt8) (c : Memcpy) (a : TuAddr) : UInt8 :=
  ((List.range c.bytes).find? fun k => a = c.dst.add k).elim (bytes a) fun k => bytes (c.src.add k)

theorem TuAddr.add_inj {a : TuAddr} {k l : Nat} (h : a.add k = a.add l) : k = l := by
  cases a with
  | sram r o => simpa using h
  | host x => simpa using h

theorem copyBytes_self (bytes : TuAddr → UInt8) (c : Memcpy) {k : Nat} (hk : k < c.bytes) :
    copyBytes bytes c (c.dst.add k) = bytes (c.src.add k) := by
  unfold copyBytes
  cases hfind : (List.range c.bytes).find? fun l => c.dst.add k = c.dst.add l with
  | none =>
    rw [List.find?_eq_none] at hfind
    exact absurd (by simp) (hfind k (List.mem_range.2 hk))
  | some l =>
    have hl := List.find?_some hfind
    rw [TuAddr.add_inj (of_decide_eq_true hl)]
    rfl

theorem copyBytes_of_ne (bytes : TuAddr → UInt8) {c : Memcpy} {a : TuAddr} (ha : ∀ k < c.bytes, a ≠ c.dst.add k) :
    copyBytes bytes c a = bytes a := by
  unfold copyBytes
  rw [List.find?_eq_none.2 (fun k hk => by simpa using ha k (List.mem_range.1 hk))]
  rfl

theorem Memory.read_memcpy (m : Memory) (c : Memcpy) : (m.memcpy c).read = copyBytes m.read c := by
  funext a
  by_cases ha : ∃ k < c.bytes, a = c.dst.add k
  · obtain ⟨k, hk, rfl⟩ := ha
    rw [copyBytes_self _ c hk]
    exact m.read_memcpy_self c.dst c.src hk
  · have hne : ∀ k < c.bytes, a ≠ c.dst.add k := fun k hk heq => ha ⟨k, hk, heq⟩
    rw [copyBytes_of_ne _ hne]
    exact m.read_memcpy_of_ne c.dst c.src hne

theorem Memory.read_copyAll (m : Memory) (cs : List Memcpy) : (m.copyAll cs).read = cs.foldl copyBytes m.read := by
  unfold Memory.copyAll
  induction cs generalizing m with
  | nil => rfl
  | cons c cs ih => rw [List.foldl_cons, List.foldl_cons, ih, m.read_memcpy]

/-- The places the copies read. -/
def sources (cs : List Memcpy) : Set TuAddr := {a | ∃ c ∈ cs, ∃ k < c.bytes, a = c.src.add k}

/-- The places the copies write. -/
def targets (cs : List Memcpy) : Set TuAddr := {a | ∃ c ∈ cs, ∃ k < c.bytes, a = c.dst.add k}

theorem copyBytes_within (c : Memcpy) : Within (fun bytes => copyBytes bytes c) (sources [c]) (targets [c]) where
  frame bytes a ha := copyBytes_of_ne bytes fun k hk heq => ha ⟨c, by simp, k, hk, heq⟩
  depends bytes bytes' h a ha := by
    obtain ⟨c', hc', k, hk, rfl⟩ := ha
    obtain rfl := List.mem_singleton.1 hc'
    rw [copyBytes_self _ _ hk, copyBytes_self _ _ hk]
    exact h _ (Or.inl ⟨c', by simp, k, hk, rfl⟩)

theorem copies_within (cs : List Memcpy) : Within (fun bytes => cs.foldl copyBytes bytes) (sources cs) (targets cs) := by
  induction cs with
  | nil => exact Within.id.mono (Set.empty_subset _) (Set.empty_subset _)
  | cons c cs ih =>
    refine ((copyBytes_within c).comp ih).mono ?_ ?_
    · rintro a (⟨c', hc', h⟩ | ⟨c', hc', h⟩)
      · exact ⟨c', by simp_all, h⟩
      · exact ⟨c', by simp_all, h⟩
    · rintro a (⟨c', hc', h⟩ | ⟨c', hc', h⟩)
      · exact ⟨c', by simp_all, h⟩
      · exact ⟨c', by simp_all, h⟩

/-! ### The memory of a run -/

/-- The copies of descriptor `d`. -/
def TuDmaEngine.copiesOf (e : TuDmaEngine) (d : Nat) : List Memcpy := (descriptorCopies e.mem.sizes (e.heap d)).getD []

theorem servedMemory_read (cfg : TuDmaConfig) (m : Memory) (desc : TuDmaDescriptor) :
    (servedMemory cfg m desc).read = ((descriptorCopies m.sizes desc).getD []).foldl copyBytes m.read := by
  rw [← Memory.read_copyAll]
  funext a
  exact sramStallCycles_read _ _ _ a

theorem servedMemory_sizes (cfg : TuDmaConfig) (m : Memory) (desc : TuDmaDescriptor) :
    (servedMemory cfg m desc).sizes = m.sizes :=
  (sramStallCycles_sizes _ _ _).trans (m.copyAll_sizes _)

/-- The bytes after a replay are those after the copies of its descriptors. -/
theorem foldl_serve_read (cfg : TuDmaConfig) (heap : Nat → TuDmaDescriptor) (ids : List Nat) (s : Memory × List DmaTransfer) :
    (ids.foldl (serve cfg heap) s).1.sizes = s.1.sizes ∧
      (ids.foldl (serve cfg heap) s).1.read =
        ids.foldl (fun bytes d => ((descriptorCopies s.1.sizes (heap d)).getD []).foldl copyBytes bytes) s.1.read := by
  induction ids generalizing s with
  | nil => exact ⟨rfl, rfl⟩
  | cons d ids ih =>
    obtain ⟨hsizes, hread⟩ := ih (serve cfg heap s d)
    have hserved : (serve cfg heap s d).1.sizes = s.1.sizes := servedMemory_sizes cfg s.1 (heap d)
    rw [List.foldl_cons, List.foldl_cons, hsizes, hread, hserved]
    refine ⟨rfl, ?_⟩
    rw [show (serve cfg heap s d).1.read = _ from servedMemory_read cfg s.1 (heap d)]

/-- The memory of a run holds the copies of the moved descriptors, in the order in which they were moved. -/
theorem run_read (cfg : TuDmaConfig) (m : Memory) (ops : List TuDmaOp) :
    (TuDmaEngine.run cfg m ops).mem.read =
      (movedIds (TuDmaEngine.run cfg m ops).log).foldl
        (fun bytes d => ((TuDmaEngine.run cfg m ops).copiesOf d).foldl copyBytes bytes) m.read := by
  have hmem := (run_transfersBooked cfg m ops).mem
  generalize TuDmaEngine.run cfg m ops = e at hmem
  obtain ⟨hsizes, hread⟩ := foldl_serve_read e.cfg e.heap (movedIds e.log) (m, [])
  have hkept : e.mem.sizes = m.sizes := by
    rw [hmem]
    exact hsizes
  unfold TuDmaEngine.copiesOf
  rw [hkept, ← hread, hmem]
  rfl

/-! ### The order of submission -/

/-- The descriptors an event accepts. -/
def TuDmaEvent.acceptedIds : TuDmaEvent → List Nat
  | .accepted _ c => c
  | .dequeued .. | .executed .. | .retired .. | .granted .. => []

/-- The accepted descriptors of all channels, in submission order. -/
def acceptedIds (log : List TuDmaEvent) : List Nat := log.flatMap (·.acceptedIds)

theorem mem_acceptedIds {log : List TuDmaEvent} {d : Nat} : d ∈ acceptedIds log ↔ ∃ i, d ∈ acceptedOn log i := by
  unfold acceptedIds acceptedOn
  simp only [List.mem_flatMap]
  constructor
  · rintro ⟨ev, hev, hd⟩
    cases ev with
    | accepted i c => exact ⟨i, .accepted i c, hev, by simpa [TuDmaEvent.acceptedIds] using hd⟩
    | dequeued | executed | retired | granted => cases hd
  · rintro ⟨i, ev, hev, hd⟩
    refine ⟨ev, hev, ?_⟩
    cases ev with
    | accepted j c =>
      simp only [TuDmaEvent.acceptedOn] at hd
      split at hd
      · exact hd
      · cases hd
    | dequeued | executed | retired | granted => cases hd

/-- Every channel accepts its descriptors in submission order. -/
theorem QueueView.Ok.acceptedIds_filter {v : QueueView} (h : v.Ok) (i : Nat) :
    (acceptedIds v.log).filter (· ∈ acceptedOn v.log i) = acceptedOn v.log i := by
  have hlog : ∀ log : List TuDmaEvent, (∀ ev ∈ log, ev ∈ v.log) →
      (acceptedIds log).filter (· ∈ acceptedOn v.log i) = acceptedOn log i := by
    intro log hsub
    induction log with
    | nil => rfl
    | cons ev log ih =>
      have hev : ev ∈ v.log := hsub ev (by simp)
      have hrest := ih fun ev' hev' => hsub ev' (by simp [hev'])
      show ((ev.acceptedIds ++ acceptedIds log).filter _) = ev.acceptedOn i ++ acceptedOn log i
      rw [List.filter_append, hrest]
      congr 1
      cases ev with
      | accepted j c =>
        have hon : ∀ d ∈ c, d ∈ acceptedOn v.log j := fun d hd => List.mem_flatMap.2 ⟨_, hev, by simpa using hd⟩
        by_cases hij : j = i
        · subst hij
          simpa [TuDmaEvent.acceptedIds, TuDmaEvent.acceptedOn] using hon
        · simpa [TuDmaEvent.acceptedIds, TuDmaEvent.acceptedOn, hij] using fun d hd => h.disjoint j i hij d (hon d hd)
      | dequeued | executed | retired | granted => rfl
  exact hlog v.log fun _ hev => hev

theorem QueueView.Ok.acceptedIds_nodup {v : QueueView} (h : v.Ok) : (acceptedIds v.log).Nodup := by
  rw [List.nodup_iff_count_le_one]
  intro d
  by_cases hd : d ∈ acceptedIds v.log
  · obtain ⟨i, hi⟩ := mem_acceptedIds.1 hd
    have hcount : ((acceptedIds v.log).filter (· ∈ acceptedOn v.log i)).count d = (acceptedIds v.log).count d :=
      List.count_filter (by simpa using hi)
    rw [← hcount, h.acceptedIds_filter i]
    exact List.nodup_iff_count_le_one.1 (h.nodup i) d
  · rw [List.count_eq_zero_of_not_mem hd]
    exact Nat.zero_le 1

theorem movedIds_sublist (log : List TuDmaEvent) : (movedIds log).Sublist (executedIds log) := by
  induction log with
  | nil => exact List.Sublist.slnil
  | cons ev log ih =>
    show (ev.movedIds ++ movedIds log).Sublist (ev.executedIds ++ executedIds log)
    refine List.Sublist.append ?_ ih
    cases ev with
    | executed d moved => cases moved <;> simp [TuDmaEvent.movedIds, TuDmaEvent.executedIds]
    | accepted | dequeued | retired | granted => exact List.nil_sublist _

/-- The moved descriptors in the order of their submission. -/
def TuDmaEngine.submitted (e : TuDmaEngine) : List Nat := (acceptedIds e.log).filter (· ∈ movedIds e.log)

/-- Moved descriptors of different channels do not use each other's bytes. -/
def ChannelsApart (e : TuDmaEngine) : Prop :=
  ∀ i j, i ≠ j → ∀ d ∈ acceptedOn e.log i, ∀ d' ∈ acceptedOn e.log j, d ∈ movedIds e.log → d' ∈ movedIds e.log →
    ¬ Conflict (sources (e.copiesOf d)) (targets (e.copiesOf d)) (sources (e.copiesOf d')) (targets (e.copiesOf d'))

section

variable {e : TuDmaEngine} (hdelivered : e.view.Delivered) (hdequeues : e.view.Dequeues) (hok : e.view.Ok)

include hdequeues in
theorem moved_accepted {d : Nat} (hd : d ∈ movedIds e.log) : ∃ i, d ∈ acceptedOn e.log i := by
  obtain ⟨i, hi⟩ := hdequeues.moved d hd
  exact ⟨i, hdequeues.accepted i d hi⟩

include hdelivered in
/-- The moved descriptors of a channel are moved in the order in which it accepted them. -/
theorem moved_precedes {i a b : Nat} (ha : a ∈ acceptedOn e.log i) (hb : b ∈ acceptedOn e.log i)
    (hab : Precedes (movedIds e.log) a b) : Precedes (acceptedOn e.log i) a b := by
  have hexecuted : Precedes (executedIds e.log) a b := List.Sublist.trans hab (movedIds_sublist e.log)
  have hon : Precedes (e.view.executedOn i) a b := by
    have hfilter := hexecuted.filter (· ∈ acceptedOn e.log i)
    have hpair : [a, b].filter (· ∈ acceptedOn e.log i) = [a, b] := by simp [ha, hb]
    rwa [hpair] at hfilter
  have happend := hon.append (e.view.queue i)
  rwa [hdelivered.order i] at happend

include hdelivered hdequeues hok in
theorem moved_nodup : (movedIds e.log).Nodup := by
  rw [List.nodup_iff_count_le_one]
  intro d
  by_cases hd : d ∈ movedIds e.log
  · obtain ⟨i, hi⟩ := moved_accepted hdequeues hd
    have hcount : (e.view.executedOn i).count d = (executedIds e.log).count d := List.count_filter (decide_eq_true hi)
    have hnodup : (e.view.executedOn i).Nodup := by
      have hall := hok.nodup i
      rw [← hdelivered.order i] at hall
      exact (List.nodup_append.1 hall).1
    have hle := (movedIds_sublist e.log).count_le d
    have hone := List.nodup_iff_count_le_one.1 hnodup d
    omega
  · rw [List.count_eq_zero_of_not_mem hd]
    exact Nat.zero_le 1

include hdelivered hdequeues hok in
/-- The order of the moves and the order of submission leave the same bytes. -/
theorem moved_fold (hapart : ChannelsApart e) (bytes : TuAddr → UInt8) :
    (movedIds e.log).foldl (fun bytes d => (e.copiesOf d).foldl copyBytes bytes) bytes =
      e.submitted.foldl (fun bytes d => (e.copiesOf d).foldl copyBytes bytes) bytes := by
  have hnodup := moved_nodup hdelivered hdequeues hok
  have hsubmitted : e.submitted.Nodup := hok.acceptedIds_nodup.filter _
  have hperm : (movedIds e.log).Perm e.submitted := by
    rw [List.perm_ext_iff_of_nodup hnodup hsubmitted]
    intro d
    unfold TuDmaEngine.submitted
    rw [List.mem_filter]
    constructor
    · intro hd
      exact ⟨mem_acceptedIds.2 (moved_accepted hdequeues hd), by simpa using hd⟩
    · rintro ⟨-, hd⟩
      simpa using hd
  refine foldl_eq_of_order hsubmitted hperm ?_ bytes
  intro a b hab hswap
  have ha : a ∈ movedIds e.log := hperm.mem_iff.2 hab.mem_left
  have hb : b ∈ movedIds e.log := hperm.mem_iff.2 (hab.subset (by simp))
  obtain ⟨i, hi⟩ := moved_accepted hdequeues ha
  obtain ⟨j, hj⟩ := moved_accepted hdequeues hb
  -- descriptors that do not commute share a channel
  obtain rfl : i = j := by
    by_contra hij
    refine hswap fun s => ?_
    exact (copies_within _).comm (copies_within _) (hapart i j hij a hi b hj ha hb) s
  have hne : a ≠ b := by
    rintro rfl
    exact hab.asymm hsubmitted hab
  rcases precedes_or ha hb hne with h | h
  · exact h
  · have haccepted : Precedes (acceptedOn e.log i) a b := by
      have hall : Precedes (acceptedIds e.log) a b := List.Sublist.trans hab List.filter_sublist
      have hfilter := hall.filter (· ∈ acceptedOn e.log i)
      have hpair : [a, b].filter (· ∈ acceptedOn e.log i) = [a, b] := by simp [hi, hj]
      have hchannel : (acceptedIds e.log).filter (· ∈ acceptedOn e.log i) = acceptedOn e.log i := hok.acceptedIds_filter i
      rwa [hpair, hchannel] at hfilter
    exact absurd (moved_precedes hdelivered hj hi h) (haccepted.asymm (hok.nodup i))

end

theorem foldl_copies (e : TuDmaEngine) (ids : List Nat) (m : Memory) :
    ids.foldl (fun bytes d => (e.copiesOf d).foldl copyBytes bytes) m.read = (m.copyAll (ids.flatMap e.copiesOf)).read := by
  rw [Memory.read_copyAll, List.foldl_flatMap]

/-- At any time of an asynchronous run that keeps its chains, if moved descriptors of different channels do not use each
other's bytes, the memory holds what moving them one by one in the order of submission leaves. -/
theorem run_serialised (cfg : TuDmaConfig) (m : Memory) (ops : List TuDmaOp) (hasync : cfg.asyncMode = true)
    (h : Run.Along KeepsChains TuDmaEngine.step (TuDmaEngine.fresh cfg m) ops)
    (hapart : ChannelsApart (TuDmaEngine.run cfg m ops)) (a : TuAddr) :
    (TuDmaEngine.run cfg m ops).mem.read a =
      (m.copyAll ((TuDmaEngine.run cfg m ops).submitted.flatMap (TuDmaEngine.run cfg m ops).copiesOf)).read a := by
  have hdequeues : (TuDmaEngine.run cfg m ops).view.Ok ∧ (TuDmaEngine.run cfg m ops).view.Dequeues :=
    Run.invariant (P := fun e : TuDmaEngine => e.view.Ok ∧ e.view.Dequeues)
      (fun _ op he => ⟨step_ok op he.1, step_dequeues op he.1 he.2⟩) ⟨fresh_ok cfg m, fresh_dequeues cfg m⟩ ops
  have hdelivered := run_delivered cfg m ops hasync h
  rw [run_read, moved_fold hdelivered hdequeues.2 hdequeues.1 hapart, foldl_copies]

/-- Two loads on two channels, of which the engine moves the later one first. -/
theorem run_serialised_two :
    let cfg : TuDmaConfig :=
      { asyncMode := true, numChannels := 2, maxDepth := 4, numChannels_pos := by decide,
        numChannels_le := by decide, maxDepth_pos := by decide }
    let first := tuDmaDescCreateLinear 1 1 .hostToTu (some 0) 8 (some 8) 4 1
    let second := tuDmaDescCreateLinear 1 0 .hostToTu (some 0) 0 (some 0) 4 1
    let e := TuDmaEngine.run cfg (Memory.zero 16) [.submit [first], .submit [second], .tick, .tick]
    movedIds e.log = [1, 0] ∧
      e.mem.read (.sram 0 8) = ((Memory.zero 16).copyAll (e.submitted.flatMap e.copiesOf)).read (.sram 0 8) := by
  intro cfg first second e
  have hlog : e.log = [.accepted 1 [0], .accepted 0 [1], .dequeued 0 1, .executed 1 true, .dequeued 1 0,
      .executed 0 true, .retired 0 1, .retired 1 0] := by decide +kernel
  have hfirst : e.copiesOf 0 = [⟨.sram 0 8, .host 8, 4⟩] := by decide +kernel
  have hsecond : e.copiesOf 1 = [⟨.sram 0 0, .host 0, 4⟩] := by decide +kernel
  -- the two loads read and write different bytes
  have hload : ¬ Conflict (sources (e.copiesOf 0)) (targets (e.copiesOf 0)) (sources (e.copiesOf 1)) (targets (e.copiesOf 1)) := by
    rw [hfirst, hsecond]
    rintro ⟨_, h | h | h⟩
    all_goals
      obtain ⟨⟨c, hc, k, hk, rfl⟩, c', hc', l, hl, heq⟩ := h
      obtain rfl := List.mem_singleton.1 hc
      obtain rfl := List.mem_singleton.1 hc'
      simp [TuAddr.add] at heq hk hl
    omega
  have hapart : ChannelsApart e := by
    rintro i j hij d hd d' hd' - -
    simp [hlog, acceptedOn, TuDmaEvent.acceptedOn] at hd hd'
    obtain ⟨rfl, rfl⟩ | ⟨rfl, rfl⟩ := hd <;> obtain ⟨rfl, rfl⟩ | ⟨rfl, rfl⟩ := hd'
    · exact absurd rfl hij
    · exact hload
    · exact fun h => hload h.symm
    · exact absurd rfl hij
  refine ⟨by rw [hlog]; rfl, run_serialised cfg _ _ rfl ?_ hapart _⟩
  exact ⟨by unfold KeepsChains; decide, by unfold KeepsChains; decide, trivial, trivial, trivial⟩

end Tusim
