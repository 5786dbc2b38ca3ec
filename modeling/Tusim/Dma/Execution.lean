import Tusim.Dma.Admission
import Tusim.Dma.Queue

/-!
# Executing a chain

`executeChain` hands the descriptors of a chain to the executor one after the other.  A descriptor is executed with
the contents it had at the start, so the memory afterwards is the one after the copies of all descriptors
(`executeChain_read`).  Copies that carry places of one address range to the same places of another one can be taken
in any order: `copyAll_places` says what they leave behind.
-/

namespace Tusim

open Word

/-- Every descriptor of the chain, in order. -/
def executeChain (e : TuDmaEngine) (head : Option Nat) : TuDmaEngine := (e.chain head).foldl tuDmaExecuteDesc e

/-! ### The executor and the other descriptors -/

private theorem accountTransfer_heap_of_ne (e : TuDmaEngine) {d d' : Nat} (hd : d' ≠ d) :
    (accountTransfer e d).heap d' = e.heap d' := by
  unfold accountTransfer
  dsimp only
  split <;> exact Function.update_of_ne hd _ _

private theorem accountTransfer_cfg (e : TuDmaEngine) (d : Nat) : (accountTransfer e d).cfg = e.cfg := by
  unfold accountTransfer
  dsimp only
  split <;> rfl

theorem tuDmaExecuteDesc_cfg (e : TuDmaEngine) (d : Nat) : (tuDmaExecuteDesc e d).cfg = e.cfg := by
  rcases tuDmaExecuteDesc_cases e d with h | h | ⟨copies, h⟩
  · rw [h]
  · rw [h]
    rfl
  · rw [h]
    exact accountTransfer_cfg _ d

theorem tuDmaExecuteDesc_heap_of_ne (e : TuDmaEngine) {d d' : Nat} (hd : d' ≠ d) :
    (tuDmaExecuteDesc e d).heap d' = e.heap d' := by
  rcases tuDmaExecuteDesc_cases e d with h | h | ⟨copies, h⟩
  · rw [h]
  · rw [h]
    rfl
  · rw [h]
    exact accountTransfer_heap_of_ne _ hd

/-- The executor does not move the clock. -/
theorem tuDmaExecuteDesc_currentCycle (e : TuDmaEngine) (d : Nat) :
    (tuDmaExecuteDesc e d).currentCycle = e.currentCycle := by
  rcases tuDmaExecuteDesc_cases e d with h | h | ⟨copies, h⟩
  · rw [h]
  · rw [h]
    rfl
  · rw [h]
    show (accountTransfer _ d).currentCycle = _
    unfold accountTransfer
    dsimp only
    split <;> rfl

theorem tuDmaExecuteDesc_sizes (e : TuDmaEngine) (d : Nat) : (tuDmaExecuteDesc e d).mem.sizes = e.mem.sizes := by
  rcases tuDmaExecuteDesc_cases e d with h | h | ⟨copies, h⟩
  · rw [h]
  · rw [h]
    rfl
  · rw [h]
    show (accountTransfer _ d).mem.sizes = _
    rw [accountTransfer_mem, sramStallCycles_sizes]
    exact e.mem.copyAll_sizes copies

/-- The copies of a descriptor do not depend on the ones executed before it. -/
theorem executorCopies_of_ne (e : TuDmaEngine) {d d' : Nat} (hd : d' ≠ d) :
    executorCopies (tuDmaExecuteDesc e d) d' = executorCopies e d' := by
  unfold executorCopies
  rw [tuDmaExecuteDesc_heap_of_ne e hd, tuDmaExecuteDesc_cfg, tuDmaExecuteDesc_sizes]

/-! ### The memory afterwards -/

/-- Memories that are read alike are read alike after the same copies. -/
private theorem read_memcpy_congr {m m' : Memory} (h : ∀ a, m.read a = m'.read a) (c : Memcpy) (a : TuAddr) :
    (m.memcpy c).read a = (m'.memcpy c).read a := by
  obtain ⟨dst, src, n⟩ := c
  by_cases ha : ∃ k < n, a = dst.add k
  · obtain ⟨k, hk, rfl⟩ := ha
    rw [m.read_memcpy_self dst src hk, m'.read_memcpy_self dst src hk, h]
  · have hne : ∀ k < n, a ≠ dst.add k := fun k hk heq => ha ⟨k, hk, heq⟩
    rw [m.read_memcpy_of_ne dst src hne, m'.read_memcpy_of_ne dst src hne, h]

private theorem read_copyAll_congr {m m' : Memory} (h : ∀ a, m.read a = m'.read a) (cs : List Memcpy) (a : TuAddr) :
    (m.copyAll cs).read a = (m'.copyAll cs).read a := by
  unfold Memory.copyAll
  induction cs generalizing m m' with
  | nil => exact h a
  | cons c cs ih => exact ih (read_memcpy_congr h c)

/-- The copies of all descriptors. -/
private theorem foldl_read {ds : List Nat} (hds : ds.Nodup) (e : TuDmaEngine) (a : TuAddr) :
    (ds.foldl tuDmaExecuteDesc e).mem.read a = (e.mem.copyAll (ds.flatMap (executorCopies e))).read a := by
  induction ds generalizing e with
  | nil => rfl
  | cons d ds ih =>
    rw [List.nodup_cons] at hds
    have hrest : ds.flatMap (executorCopies (tuDmaExecuteDesc e d)) = ds.flatMap (executorCopies e) := by
      apply List.flatMap_congr
      intro d' hd'
      exact executorCopies_of_ne e (ne_of_mem_of_not_mem hd' hds.1)
    rw [List.foldl_cons, ih hds.2, hrest, read_copyAll_congr (tuDmaExecuteDesc_read e d), List.flatMap_cons]
    unfold Memory.copyAll
    rw [List.foldl_append]

private theorem foldl_idleData (ds : List Nat) (e : TuDmaEngine) (r : Nat) :
    ((ds.foldl tuDmaExecuteDesc e).mem.sram r).idleData = (e.mem.sram r).idleData := by
  induction ds generalizing e with
  | nil => rfl
  | cons d ds ih => rw [List.foldl_cons, ih, tuDmaExecuteDesc_idleData]

theorem executeChain_frame (e : TuDmaEngine) (head : Option Nat) :
    (executeChain e head).cfg = e.cfg ∧ (executeChain e head).mem.sizes = e.mem.sizes := by
  unfold executeChain
  induction e.chain head generalizing e with
  | nil => exact ⟨rfl, rfl⟩
  | cons d ds ih =>
    obtain ⟨hcfg, hsizes⟩ := ih (tuDmaExecuteDesc e d)
    rw [List.foldl_cons, hcfg, hsizes, tuDmaExecuteDesc_cfg, tuDmaExecuteDesc_sizes]
    exact ⟨rfl, rfl⟩

/-! ### Fresh chains -/

/-- Every descriptor of a list is one of the chain built from it. -/
private theorem exists_builtHeap (heap : Nat → TuDmaDescriptor) {n : Nat} {descs : List TuDmaDescriptor}
    {desc : TuDmaDescriptor} (hdesc : desc ∈ descs) :
    ∃ d ∈ List.range' n descs.length, builtHeap heap n descs d =
      { desc.cleared with next := if d + 1 < n + descs.length then some (d + 1) else none } := by
  obtain ⟨i, hi, rfl⟩ := List.getElem_of_mem hdesc
  refine ⟨n + i, List.mem_range'_1.2 (by omega), ?_⟩
  unfold builtHeap
  rw [if_neg (by omega), Nat.add_sub_cancel_left, List.getElem?_eq_getElem hi]

/-- The copies of a descriptor that has not been executed. -/
def pendingCopies (e : TuDmaEngine) (desc : TuDmaDescriptor) : List Memcpy :=
  if !descriptorSramSpansValid e.mem.sizes desc then []
  else if externalBoundary e.cfg && !desc.externalAddressValid then []
  else (descriptorCopies e.mem.sizes desc).getD []

/-- The memory after a fresh chain is the one after copies, and these are the ones of its descriptors. -/
theorem executeChain_newChain (e : TuDmaEngine) (descs : List TuDmaDescriptor) :
    ∃ copies, (∀ c, c ∈ copies ↔ ∃ desc ∈ descs, c ∈ pendingCopies e desc) ∧
      (∀ a, (executeChain (newChain e descs).1 (newChain e descs).2).mem.read a = (e.mem.copyAll copies).read a) ∧
      ∀ r, ((executeChain (newChain e descs).1 (newChain e descs).2).mem.sram r).idleData =
        (e.mem.sram r).idleData := by
  have hmem : (newChain e descs).1.mem = e.mem := by rw [newChain_eq]
  have hheap : (newChain e descs).1.heap = builtHeap e.heap e.allocated descs := by rw [newChain_eq]
  have hcfg : (newChain e descs).1.cfg = e.cfg := by rw [newChain_eq]
  have hchain : (newChain e descs).1.chain (newChain e descs).2 = List.range' e.allocated descs.length := by
    by_cases hnil : descs = []
    · rw [hnil]
      exact Segment.walk_none _ _
    · rw [← newChain_chain e hnil]
      congr 1
      rw [newChain_eq]
      exact if_neg hnil
  have hpending : ∀ d desc next, builtHeap e.heap e.allocated descs d = { desc.cleared with next := next } →
      executorCopies (newChain e descs).1 d = pendingCopies e desc := by
    intro d desc next hd
    unfold executorCopies
    rw [hheap, hd, hmem, hcfg]
    rfl
  refine ⟨(List.range' e.allocated descs.length).flatMap (executorCopies (newChain e descs).1), ?_, ?_, ?_⟩
  · intro c
    rw [List.mem_flatMap]
    constructor
    · rintro ⟨d, hd, hc⟩
      obtain ⟨desc, hdesc, hbuilt⟩ := builtHeap_of_mem e.heap hd
      rw [hpending d desc _ hbuilt] at hc
      exact ⟨desc, hdesc, hc⟩
    · rintro ⟨desc, hdesc, hc⟩
      obtain ⟨d, hd, hbuilt⟩ := exists_builtHeap e.heap hdesc
      rw [← hpending d desc _ hbuilt] at hc
      exact ⟨d, hd, hc⟩
  · intro a
    unfold executeChain
    rw [hchain, foldl_read List.nodup_range', hmem]
  · intro r
    unfold executeChain
    rw [foldl_idleData, hmem]

/-! ### Copies that agree -/

/-- No copy writes what another one reads, and where two write the same byte they bring the same value. -/
structure CopiesAgree (m : Memory) (cs : List Memcpy) : Prop where
  apart : ∀ c ∈ cs, ∀ c' ∈ cs, ∀ k < c.bytes, ∀ l < c'.bytes, c.src.add k ≠ c'.dst.add l
  agree : ∀ c ∈ cs, ∀ c' ∈ cs, ∀ k < c.bytes, ∀ l < c'.bytes, c.dst.add k = c'.dst.add l →
    m.read (c.src.add k) = m.read (c'.src.add l)

/-- What copies that agree leave behind. -/
theorem CopiesAgree.copyAll {m : Memory} {cs : List Memcpy} (h : CopiesAgree m cs) :
    (∀ c ∈ cs, ∀ k < c.bytes, (m.copyAll cs).read (c.dst.add k) = m.read (c.src.add k)) ∧
      ∀ a, (∀ c ∈ cs, ∀ k < c.bytes, a ≠ c.dst.add k) → (m.copyAll cs).read a = m.read a := by
  induction cs generalizing m with
  | nil => exact ⟨fun c hc => absurd hc List.not_mem_nil, fun a _ => rfl⟩
  | cons first cs ih =>
    have hin : ∀ {c}, c ∈ cs → c ∈ first :: cs := fun hc => List.mem_cons_of_mem _ hc
    have hsource : ∀ c ∈ first :: cs, ∀ k < c.bytes, (m.memcpy first).read (c.src.add k) = m.read (c.src.add k) :=
      fun c hc k hk => m.read_memcpy_of_ne first.dst first.src
        fun l hl => h.apart c hc first List.mem_cons_self k hk l hl
    have hnext : CopiesAgree (m.memcpy first) cs := by
      refine ⟨fun c hc c' hc' => h.apart c (hin hc) c' (hin hc'), fun c hc c' hc' k hk l hl heq => ?_⟩
      rw [hsource c (hin hc) k hk, hsource c' (hin hc') l hl]
      exact h.agree c (hin hc) c' (hin hc') k hk l hl heq
    obtain ⟨hcopied, hkept⟩ := ih hnext
    constructor
    · intro c hc k hk
      -- a byte that a later copy writes again gets the same value
      by_cases hlater : ∃ c' ∈ cs, ∃ l < c'.bytes, c.dst.add k = c'.dst.add l
      · obtain ⟨c', hc', l, hl, heq⟩ := hlater
        show ((m.memcpy first).copyAll cs).read _ = _
        rw [heq, hcopied c' hc' l hl, hsource c' (hin hc') l hl]
        exact (h.agree c hc c' (hin hc') k hk l hl heq).symm
      · rcases List.mem_cons.1 hc with rfl | hc
        · exact (hkept _ fun c' hc' l hl heq => hlater ⟨c', hc', l, hl, heq⟩).trans
            (m.read_memcpy_self c.dst c.src hk)
        · exact absurd ⟨c, hc, k, hk, rfl⟩ hlater
    · intro a ha
      exact (hkept a fun c hc => ha c (hin hc)).trans
        (m.read_memcpy_of_ne first.dst first.src fun k hk => ha first List.mem_cons_self k hk)

section

variable {src dst : Nat → TuAddr}

/-- Copies of places: the bytes named by a copy are those of its source, the others stay. -/
theorem copyAll_places (hsrc : ∀ b k, (src b).add k = src (b + k)) (hdst : ∀ b k, (dst b).add k = dst (b + k))
    (hinj : ∀ x y, dst x = dst y → x = y) (hdisj : ∀ x y, src x ≠ dst y) {cs : List Memcpy}
    (hcs : ∀ c ∈ cs, ∃ b, c = ⟨dst b, src b, c.bytes⟩) (m : Memory) :
    (∀ x, (∃ b n, ⟨dst b, src b, n⟩ ∈ cs ∧ b ≤ x ∧ x < b + n) → (m.copyAll cs).read (dst x) = m.read (src x)) ∧
      ∀ a, (∀ x, (∃ b n, ⟨dst b, src b, n⟩ ∈ cs ∧ b ≤ x ∧ x < b + n) → a ≠ dst x) →
        (m.copyAll cs).read a = m.read a := by
  have hshift : ∀ c ∈ cs, ∃ b, ⟨dst b, src b, c.bytes⟩ ∈ cs ∧
      ∀ k, c.dst.add k = dst (b + k) ∧ c.src.add k = src (b + k) := fun c hc => by
    obtain ⟨b, heq⟩ := hcs c hc
    refine ⟨b, by rw [← heq]; exact hc, fun k => ?_⟩
    rw [heq]
    exact ⟨hdst b k, hsrc b k⟩
  have hagree : CopiesAgree m cs := by
    refine ⟨fun c hc c' hc' k _ l _ => ?_, fun c hc c' hc' k _ l _ heq => ?_⟩
    · obtain ⟨b, -, hb⟩ := hshift c hc
      obtain ⟨b', -, hb'⟩ := hshift c' hc'
      rw [(hb k).2, (hb' l).1]
      exact hdisj _ _
    · obtain ⟨b, -, hb⟩ := hshift c hc
      obtain ⟨b', -, hb'⟩ := hshift c' hc'
      rw [(hb k).1, (hb' l).1] at heq
      rw [(hb k).2, (hb' l).2, hinj _ _ heq]
  obtain ⟨hcopied, hkept⟩ := hagree.copyAll
  constructor
  · rintro x ⟨b, n, hmem, hle, hlt⟩
    have hread := hcopied _ hmem (x - b) (by dsimp only; omega)
    rwa [hsrc, hdst, Nat.add_sub_cancel' hle] at hread
  · intro a ha
    refine hkept a fun c hc k hk => ?_
    obtain ⟨b, hmem, hb⟩ := hshift c hc
    rw [(hb k).1]
    exact ha (b + k) ⟨b, c.bytes, hmem, by omega, by omega⟩

end

end Tusim
