import Tusim.Dma.Work

/-!
# Loads

A load copies host bytes to the active buffers of SRAM regions.  When every descriptor of the engine is a load, host
memory never changes, the idle buffers of double-buffered regions keep their bytes, and the active buffer of a region
keeps its bytes while the engine only issues loads that bring nothing new (`Works.undisturbed`).
-/

namespace Tusim

open Word Relation

/-- The bytes of a buffer of region `r` after a copy from host memory. -/
def fillBuffer (host : Nat → UInt8) (r : Nat) (buffer : Nat → UInt8) (c : Memcpy) : Nat → UInt8 :=
  match c.dst, c.src with
  | .sram r' o, .host a =>
    if r' = r then fun x => if o ≤ x ∧ x < o + c.bytes then host (a + (x - o)) else buffer x else buffer
  | _, _ => buffer

/-- The buffer of region `r` holds the bytes that the descriptor brings: bringing them changes nothing. -/
def HoldsLoad (host : Nat → UInt8) (sizes : Nat → UInt32) (desc : TuDmaDescriptor) (r : Nat) (buffer : Nat → UInt8) :
    Prop := ∀ copies ∈ descriptorCopies sizes desc, copies.foldl (fillBuffer host r) buffer = buffer

/-- The copy goes from host memory to a region. -/
def Memcpy.IsLoad (c : Memcpy) : Prop := (∃ r o, c.dst = .sram r o) ∧ ∃ a, c.src = .host a

/-! ### The copies of a load -/

theorem memcpy_load {c : Memcpy} (h : c.IsLoad) (m : Memory) :
    (m.memcpy c).host = m.host ∧
      ∀ r, tuSramRawPtr ((m.memcpy c).sram r) = fillBuffer m.host r (tuSramRawPtr (m.sram r)) c := by
  obtain ⟨⟨r', o, hdst⟩, a, hsrc⟩ := h
  obtain ⟨dst, src, n⟩ := c
  subst hdst hsrc
  refine ⟨rfl, fun r => ?_⟩
  by_cases hr : r = r'
  · subst hr
    simp [Memory.memcpy, fillBuffer, Memory.read]
  · simp [Memory.memcpy, fillBuffer, hr, Ne.symm hr]

theorem copyAll_load {copies : List Memcpy} (h : ∀ c ∈ copies, c.IsLoad) (m : Memory) :
    (m.copyAll copies).host = m.host ∧
      ∀ r, tuSramRawPtr ((m.copyAll copies).sram r) =
        copies.foldl (fillBuffer m.host r) (tuSramRawPtr (m.sram r)) := by
  unfold Memory.copyAll
  induction copies generalizing m with
  | nil => exact ⟨rfl, fun _ => rfl⟩
  | cons c copies ih =>
    obtain ⟨hhost, hraw⟩ := memcpy_load (h c List.mem_cons_self) m
    obtain ⟨hhost', hraw'⟩ := ih (fun c' hc' => h c' (List.mem_cons_of_mem c hc')) (m.memcpy c)
    rw [List.foldl_cons]
    refine ⟨hhost'.trans hhost, fun r => ?_⟩
    rw [hraw' r, hraw r, hhost, List.foldl_cons]

/-- An admitted load copies from host memory to regions. -/
theorem descriptorCopies_isLoad {sizes : Nat → UInt32} {desc : TuDmaDescriptor} {copies : List Memcpy}
    (hdir : desc.direction = .hostToTu) (hnamed : directionRegionsNamed desc = true)
    (hcopies : descriptorCopies sizes desc = some copies) : ∀ c ∈ copies, c.IsLoad := by
  unfold descriptorCopies at hcopies
  by_cases htype : desc.type = .multicast
  · rw [if_pos htype, Option.some.injEq] at hcopies
    subst hcopies
    intro c hc
    obtain ⟨d, _, hd⟩ := List.mem_filterMap.1 hc
    split at hd
    · cases hd
    · dsimp only at hd
      split at hd
      · cases hd
      · cases hd
        exact ⟨⟨_, _, rfl⟩, _, rfl⟩
  · have hdst : ∃ r, desc.dstRegion = some r := by
      unfold directionRegionsNamed at hnamed
      rw [if_neg htype, hdir] at hnamed
      exact Option.isSome_iff_exists.1 hnamed
    obtain ⟨r, hr⟩ := hdst
    rw [if_neg htype] at hcopies
    unfold srcPtr dstPtr at hcopies
    rw [hdir, hr] at hcopies
    cases hsrc : desc.srcHost with
    | none => simp [hsrc] at hcopies
    | some a =>
      rw [hsrc] at hcopies
      dsimp only [Option.map_some] at hcopies
      cases htype' : desc.type with
      | linear | strided2d | scatter | gather =>
        rw [htype'] at hcopies
        cases hcopies
        simp [executeLinear, executeStrided2d, executeScatter, executeGather, Memcpy.IsLoad]
      | strided3d =>
        rw [htype'] at hcopies
        cases hcopies
        intro c hc
        obtain ⟨_, _, hc⟩ := List.mem_flatMap.1 hc
        obtain ⟨_, _, rfl⟩ := List.mem_map.1 hc
        exact ⟨⟨_, _, rfl⟩, _, rfl⟩
      | multicast => exact absurd htype' htype
      | other => simp [htype'] at hcopies

/-- For a linear load: the bytes at its destination are the ones at its source. -/
theorem holdsLoad_linear {host : Nat → UInt8} {sizes : Nat → UInt32} {desc : TuDmaDescriptor} {r a : Nat}
    {buffer : Nat → UInt8} (htype : desc.type = .linear) (hdir : desc.direction = .hostToTu)
    (hsrc : desc.srcHost = some a) (hdst : desc.dstRegion = some r) :
    HoldsLoad host sizes desc r buffer ↔
      ∀ k < desc.totalBytes.toNat, buffer (desc.dstBase.toNat + k) = host (a + k) := by
  have hcopies : descriptorCopies sizes desc =
      some [⟨.sram r desc.dstBase.toNat, .host a, desc.totalBytes.toNat⟩] := by
    unfold descriptorCopies srcPtr dstPtr
    simp [htype, hdir, hsrc, hdst, executeLinear]
  unfold HoldsLoad
  rw [hcopies]
  constructor
  · intro h k hk
    have heq := congrFun (h _ rfl) (desc.dstBase.toNat + k)
    simp [fillBuffer, hk] at heq
    exact heq.symm
  · intro h copies hc
    cases hc
    funext x
    by_cases hx : desc.dstBase.toNat ≤ x ∧ x < desc.dstBase.toNat + desc.totalBytes.toNat
    · have hk := h (x - desc.dstBase.toNat) (by omega)
      rw [Nat.add_sub_cancel' hx.1] at hk
      simp [fillBuffer, hx, hk]
    · simp [fillBuffer, hx]

/-! ### Executing loads -/

/-- Every descriptor of the heap is a load, or has no direction. -/
def LoadsOnly (e : TuDmaEngine) : Prop := ∀ d, (e.heap d).direction = .hostToTu ∨ (e.heap d).direction = .other

/-- The executor copies nothing, or completes the descriptor. -/
theorem executorCopies_cases (e : TuDmaEngine) (d : Nat) :
    executorCopies e d = [] ∨
      ((e.heap d).completed = false ∧ directionRegionsNamed (e.heap d) = true ∧
        descriptorCopies e.mem.sizes (e.heap d) = some (executorCopies e d) ∧
        ((tuDmaExecuteDesc e d).heap d).completed = true) := by
  unfold executorCopies tuDmaExecuteDesc
  dsimp only
  split
  · exact Or.inl rfl
  split
  · exact Or.inl rfl
  split
  · exact Or.inl rfl
  rename_i hdone hvalid _
  cases hcopies : descriptorCopies e.mem.sizes (e.heap d) with
  | none => exact Or.inl rfl
  | some copies =>
    refine Or.inr ⟨by simpa using hdone, ?_, rfl, accountTransfer_completed _ d⟩
    have hspans : descriptorSramSpansValid e.mem.sizes (e.heap d) = true := by simpa using hvalid
    unfold descriptorSramSpansValid at hspans
    exact (Bool.and_eq_true_iff.1 hspans).1

theorem executorCopies_isLoad {e : TuDmaEngine} (hloads : LoadsOnly e) (d : Nat) :
    ∀ c ∈ executorCopies e d, c.IsLoad := by
  rcases executorCopies_cases e d with heq | ⟨_, hnamed, hcopies, _⟩
  · rw [heq]
    exact fun c hc => absurd hc List.not_mem_nil
  · rcases hloads d with hdir | hdir
    · exact descriptorCopies_isLoad hdir hnamed hcopies
    · unfold directionRegionsNamed at hnamed
      simp [hdir] at hnamed

/-- What the execution of a load does to memory. -/
theorem tuDmaExecuteDesc_load {e : TuDmaEngine} (hloads : LoadsOnly e) (d : Nat) :
    (tuDmaExecuteDesc e d).mem.host = e.mem.host ∧
      ∀ r, tuSramRawPtr ((tuDmaExecuteDesc e d).mem.sram r) =
        (executorCopies e d).foldl (fillBuffer e.mem.host r) (tuSramRawPtr (e.mem.sram r)) := by
  obtain ⟨hhost, hraw⟩ := copyAll_load (executorCopies_isLoad hloads d) e.mem
  refine ⟨?_, fun r => ?_⟩
  · funext a
    exact (tuDmaExecuteDesc_read e d (.host a)).trans (congrFun hhost a)
  · funext x
    exact (tuDmaExecuteDesc_read e d (.sram r x)).trans (congrFun (hraw r) x)

/-- The engine has only loads, and host memory and the sizes of the regions are the given ones. -/
structure LoadEngine (host : Nat → UInt8) (sizes : Nat → UInt32) (e : TuDmaEngine) : Prop where
  loads : LoadsOnly e
  host_eq : e.mem.host = host
  sizes_eq : e.mem.sizes = sizes

variable {host : Nat → UInt8} {sizes : Nat → UInt32} {e e₁ e' : TuDmaEngine}

theorem LoadEngine.execute (h : LoadEngine host sizes e) (d : Nat) : LoadEngine host sizes (tuDmaExecuteDesc e d) where
  loads := by
    intro d'
    by_cases hd : d' = d
    · subst hd
      have hdir : ((tuDmaExecuteDesc e d').heap d').direction = (e.heap d').direction := by
        rcases tuDmaExecuteDesc_cases e d' with heq | heq | ⟨copies, heq⟩
        · rw [heq]
        · rw [heq]
          rfl
        · rw [heq]
          show ((accountTransfer _ d').heap d').direction = _
          unfold accountTransfer
          dsimp only
          split
          all_goals simp [TuDmaEngine.setDesc, TuDmaEngine.setChannel]
      rw [hdir]
      exact h.loads d'
    · rw [tuDmaExecuteDesc_heap_of_ne e hd]
      exact h.loads d'
  host_eq := (tuDmaExecuteDesc_load h.loads d).1.trans h.host_eq
  sizes_eq := (tuDmaExecuteDesc_sizes e d).trans h.sizes_eq

theorem LoadEngine.works (h : LoadEngine host sizes e) (hworks : Works e e') : LoadEngine host sizes e' := by
  refine hworks.induction (P := LoadEngine host sizes) (fun e₁ d h₁ => h₁.execute d) ?_ h
  intro e₁ e₂ hun h₁
  refine ⟨fun d => ?_, by rw [hun.mem, h₁.host_eq], by rw [hun.mem, h₁.sizes_eq]⟩
  have hdir := congrArg TuDmaDescriptor.direction (hun.core d)
  have hsame : (e₂.heap d).direction = (e₁.heap d).direction := hdir
  rw [hsame]
  exact h₁.loads d

/-- Work does not touch the idle buffers. -/
theorem Works.idleData (h : Works e e') (r : Nat) : (e'.mem.sram r).idleData = (e.mem.sram r).idleData := by
  refine h.induction (P := fun e' => (e'.mem.sram r).idleData = (e.mem.sram r).idleData) ?_ ?_ rfl
  · exact fun e₁ d h₁ => (tuDmaExecuteDesc_idleData e₁ d r).trans h₁
  · intro e₁ e₂ hun h₁
    rwa [hun.mem]

/-- The active buffer of a region keeps its bytes when it holds the ones of every load that is issued. -/
theorem Works.undisturbed (h : Works e e₁) (h' : Works e₁ e') (hload : LoadEngine host sizes e) {r : Nat}
    (hholds : ∀ d, (e.heap d).completed = false → (e'.heap d).completed = true →
      HoldsLoad host sizes (e.heap d) r (tuSramRawPtr (e.mem.sram r))) :
    tuSramRawPtr (e₁.mem.sram r) = tuSramRawPtr (e.mem.sram r) := by
  induction h with
  | refl => rfl
  | tail hprev hstep ih =>
    rename_i e₁ e₂
    have hsame := ih ((ReflTransGen.single hstep).trans h')
    cases hstep with
    | other hun => rwa [hun.mem]
    | execute d =>
      have hload₁ := hload.works hprev
      rw [(tuDmaExecuteDesc_load hload₁.loads d).2 r, hsame, hload₁.host_eq]
      rcases executorCopies_cases e₁ d with heq | ⟨hpending, _, hcopies, hdone⟩
      · rw [heq]
        rfl
      · -- the load was pending at the start, and it is complete at the end
        have hcore := (Works.core hprev d).resolve_left (by simp [hpending])
        have hpending' : (e.heap d).completed = false :=
          (congrArg TuDmaDescriptor.completed hcore).symm.trans hpending
        have hdone' : (e'.heap d).completed = true :=
          (congrArg TuDmaDescriptor.completed (Works.completed h' hdone)).trans hdone
        have hcopies' : descriptorCopies sizes (e.heap d) = some (executorCopies e₁ d) := by
          rw [← hcopies, hload₁.sizes_eq]
          exact (congrArg (descriptorCopies sizes) hcore).symm
        exact hholds d hpending' hdone' _ hcopies'

end Tusim
