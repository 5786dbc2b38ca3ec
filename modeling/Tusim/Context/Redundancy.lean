import Mathlib.Data.Finset.Card
import Tusim.Context.Table

/-!
# What the manager keeps twice

The manager keeps the active context as the state of a context and as `active_ctx_id`, and the allocated contexts as
states and as `active_count`.  Two calls let these come apart: freeing an idle context counts it down again, and a direct
restore leaves the running context active.  Along a run the table stays consistent as long as neither happens, and no
longer (`consistent_iff`).
-/

namespace Tusim

namespace CtxTable

variable (t : CtxTable) (max : Nat)

/-- The contexts that are not idle. -/
def busy : Finset Nat := (Finset.range max).filter fun i => t.states i ≠ .idle

/-- At most one context is active, it is the one named active, and the count is right. -/
structure Consistent : Prop where
  unique : ∀ i < max, ∀ j < max, t.states i = .active → t.states j = .active → i = j
  named : ∀ i < max, t.states i = .active → i = t.activeId.toNat
  count : t.count.toNat = (t.busy max).card

variable {t max}

theorem mem_busy {i : Nat} : i ∈ t.busy max ↔ i < max ∧ t.states i ≠ .idle := by
  unfold busy
  rw [Finset.mem_filter, Finset.mem_range]

/-- A context that is not named active is not active. -/
theorem consistent_of_named (hnamed : ∀ i < max, t.states i = .active → i = t.activeId.toNat)
    (hcount : t.count.toNat = (t.busy max).card) : t.Consistent max where
  unique i hi j hj hi' hj' := (hnamed i hi hi').trans (hnamed j hj hj').symm
  named := hnamed
  count := hcount

theorem busy_set {i : Nat} {state : TuCtxState} (hi : t.states i ≠ .idle) (hstate : state ≠ .idle) :
    (t.set i state).busy max = t.busy max := by
  ext j
  rw [mem_busy, mem_busy, set_states]
  by_cases hj : j = i
  · rw [hj, Function.update_self]
    simp [hi, hstate]
  · rw [Function.update_of_ne hj]

theorem busy_set_insert {i : Nat} {state : TuCtxState} (hlt : i < max) (hstate : state ≠ .idle) :
    (t.set i state).busy max = insert i (t.busy max) := by
  ext j
  rw [Finset.mem_insert, mem_busy, mem_busy, set_states]
  by_cases hj : j = i
  · rw [hj, Function.update_self]
    simp [hlt, hstate]
  · rw [Function.update_of_ne hj]
    simp [hj]

theorem busy_set_erase {i : Nat} : (t.set i .idle).busy max = (t.busy max).erase i := by
  ext j
  rw [Finset.mem_erase, mem_busy, mem_busy, set_states]
  by_cases hj : j = i
  · rw [hj, Function.update_self]
    simp
  · rw [Function.update_of_ne hj]
    simp [hj]

/-- A context that was set to another state is not the active one. -/
theorem named_set {id : Nat} {i : Nat} {state : TuCtxState} (hnamed : ∀ j < max, t.states j = .active → j = id)
    (hactive : state ≠ .active) : ∀ j < max, (t.set i state).states j = .active → j = id := by
  intro j hj hj'
  rw [set_states] at hj'
  by_cases hji : j = i
  · rw [hji, Function.update_self] at hj'
    exact absurd hj' hactive
  · rw [Function.update_of_ne hji] at hj'
    exact hnamed j hj hj'

theorem named_resume {i : Nat} (hmax : max < 2 ^ 32) (hlt : i < max) (hnone : ∀ j < max, t.states j ≠ .active) :
    ∀ j < max, (t.set i .active).states j = .active → j = (UInt32.ofNat i).toNat := by
  intro j hj hj'
  rw [UInt32.toNat_ofNat_of_lt' (Nat.lt_trans hlt hmax)]
  by_contra hji
  rw [set_states, Function.update_of_ne hji] at hj'
  exact hnone j hj hj'

theorem card_busy_lt {i : Nat} (hlt : i < max) (hi : t.states i = .idle) : (t.busy max).card < max := by
  have hsub : t.busy max ⊆ (Finset.range max).erase i := by
    intro j hj
    obtain ⟨hj, hbusy⟩ := mem_busy.1 hj
    rw [Finset.mem_erase, Finset.mem_range]
    refine ⟨?_, hj⟩
    rintro rfl
    exact hbusy hi
  have hcard := Finset.card_le_card hsub
  rw [Finset.card_erase_of_mem (Finset.mem_range.2 hlt), Finset.card_range] at hcard
  omega

namespace Consistent

variable (h : t.Consistent max)
include h

/-- An allocated context changes to a state that is neither active nor idle. -/
theorem set {i : Nat} {state : TuCtxState} (hi : t.states i ≠ .idle) (hidle : state ≠ .idle)
    (hactive : state ≠ .active) : (t.set i state).Consistent max := by
  apply consistent_of_named
  · exact named_set h.named hactive
  · rw [set_count, busy_set hi hidle]
    exact h.count

theorem resume {i : Nat} (hmax : max < 2 ^ 32) (hlt : i < max) (hi : t.states i ≠ .idle)
    (hnone : ∀ j < max, t.states j ≠ .active) : (t.resume i).Consistent max := by
  apply consistent_of_named
  · exact named_resume hmax hlt hnone
  · show t.count.toNat = ((t.set i .active).busy max).card
    rw [busy_set hi (by simp)]
    exact h.count

theorem claim {i : Nat} (hmax : max < 2 ^ 32) (hlt : i < max) (hi : t.states i = .idle) :
    (t.claim i).Consistent max := by
  have hnotMem : i ∉ t.busy max := fun hmem => (mem_busy.1 hmem).2 hi
  have hfree := card_busy_lt hlt hi
  have hcount : ∀ state : TuCtxState, state ≠ .idle → (t.count + 1).toNat = ((t.set i state).busy max).card := by
    intro state hstate
    rw [busy_set_insert hlt hstate, Finset.card_insert_of_notMem hnotMem, ← h.count, UInt32.toNat_add]
    apply Nat.mod_eq_of_lt
    rw [← h.count] at hfree
    show t.count.toNat + 1 < 2 ^ 32
    omega
  unfold CtxTable.claim
  split
  · rename_i hzero
    have hnone : ∀ j < max, t.states j ≠ .active := by
      intro j hj hj'
      have hmem : j ∈ t.busy max := mem_busy.2 ⟨hj, by simp [hj']⟩
      have hpos := Finset.card_pos.2 ⟨j, hmem⟩
      rw [← h.count, hzero] at hpos
      exact absurd hpos (by simp)
    apply consistent_of_named
    · exact named_resume hmax hlt hnone
    · exact hcount .active (by simp)
  · apply consistent_of_named
    · exact named_set h.named (by simp)
    · exact hcount .ready (by simp)

theorem release {i : Nat} (hlt : i < max) (hi : t.states i ≠ .idle) : (t.release i).Consistent max := by
  have hmem : i ∈ t.busy max := mem_busy.2 ⟨hlt, hi⟩
  have hpos := Finset.card_pos.2 ⟨i, hmem⟩
  rw [← h.count] at hpos
  apply consistent_of_named
  · exact named_set h.named (by simp)
  · show (if t.count > 0 then t.count - 1 else t.count).toNat = ((t.set i .idle).busy max).card
    have hcount : t.count > 0 := UInt32.lt_iff_toNat_lt.2 hpos
    rw [if_pos hcount, busy_set_erase, Finset.card_erase_of_mem hmem, ← h.count]
    exact UInt32.toNat_sub_of_le _ _ (UInt32.le_iff_toNat_le.2 hpos)

/-- Counting down an idle context leaves the count too small. -/
theorem not_release {i : Nat} (hi : t.states i = .idle) (hcount : t.count > 0) : ¬ (t.release i).Consistent max := by
  intro h'
  have hnotMem : i ∉ t.busy max := fun hmem => (mem_busy.1 hmem).2 hi
  have hpos : 0 < t.count.toNat := UInt32.lt_iff_toNat_lt.1 hcount
  have hdown : (if t.count > 0 then t.count - 1 else t.count).toNat = ((t.set i .idle).busy max).card := h'.count
  have hsub : (t.count - 1).toNat = t.count.toNat - 1 := UInt32.toNat_sub_of_le _ _ (UInt32.le_iff_toNat_le.2 hpos)
  rw [if_pos hcount, busy_set_erase, Finset.erase_eq_of_notMem hnotMem, ← h.count, hsub] at hdown
  omega

omit h in
/-- Resuming a context while another one is active leaves two of them. -/
theorem not_resume {i j : Nat} (hi : i < max) (hready : t.states i = .ready) (hj : j < max)
    (hactive : t.states j = .active) : ¬ (t.resume i).Consistent max := by
  intro h'
  have hne : j ≠ i := by
    rintro rfl
    rw [hready] at hactive
    exact absurd hactive (by simp)
  have hi' : (t.set i .active).states i = .active := by rw [set_states, Function.update_self]
  have hj' : (t.set i .active).states j = .active := by rw [set_states, Function.update_of_ne hne, hactive]
  exact hne (h'.unique j hj i hi hj' hi')

end Consistent

end CtxTable

open TuCtxManager

variable {D C : Type} [Zero D] [Zero C]

namespace TuCtxManager

def Consistent (mgr : TuCtxManager D C) : Prop := mgr.table.Consistent mgr.maxContexts

/-- The call does not free an idle context while contexts are counted, nor restore a context while another is active. -/
def Orderly (mgr : TuCtxManager D C) (e : CtxCall D C × CtxEnv D C) : Prop :=
  match e.1 with
  | .free id => id.toNat < mgr.maxContexts → mgr.stateOf id.toNat = .idle → mgr.activeCount = 0
  | .restore id => id.toNat < mgr.maxContexts → mgr.stateOf id.toNat = .ready →
      ∀ i < mgr.maxContexts, mgr.stateOf i ≠ .active
  | _ => True

variable {mgr : TuCtxManager D C}

theorem maxContexts_lt (mgr : TuCtxManager D C) : mgr.maxContexts < 2 ^ 32 := mgr.cfg.maxContexts.toNat_lt

theorem Consistent.of_table {mgr' : TuCtxManager D C} {t : CtxTable} (h : t.Consistent mgr.maxContexts)
    (hcfg : mgr'.cfg = mgr.cfg) (htable : mgr'.table = t) : mgr'.Consistent := by
  unfold Consistent
  have hmax : mgr'.maxContexts = mgr.maxContexts := congrArg (·.maxContexts.toNat) hcfg
  rw [htable, hmax]
  exact h

/-- Parking the running context leaves no active one. -/
theorem Consistent.park (h : mgr.Consistent) (hrunning : mgr.Running) :
    (mgr.table.set mgr.activeCtxId.toNat .ready).Consistent mgr.maxContexts ∧
      ∀ i < mgr.maxContexts, (mgr.table.set mgr.activeCtxId.toNat .ready).states i ≠ .active := by
  have hbusy : mgr.table.states mgr.activeCtxId.toNat ≠ .idle := by
    rw [show mgr.table.states mgr.activeCtxId.toNat = .active from hrunning.2]
    simp
  have hpark : (mgr.table.set mgr.activeCtxId.toNat .ready).Consistent mgr.maxContexts :=
    CtxTable.Consistent.set h hbusy (by simp) (by simp)
  refine ⟨hpark, fun i hi hactive => ?_⟩
  have hi := hpark.named i hi hactive
  rw [hi, CtxTable.set_activeId, CtxTable.set_states] at hactive
  rw [show mgr.table.activeId = mgr.activeCtxId from rfl, Function.update_self] at hactive
  exact absurd hactive (by simp)

/-- Without a running context no context is active. -/
theorem Consistent.none_active (h : mgr.Consistent) (hrunning : ¬ mgr.Running) :
    ∀ i < mgr.maxContexts, mgr.stateOf i ≠ .active := by
  intro i hi hactive
  have hnamed : i = mgr.activeCtxId.toNat := h.named i hi hactive
  exact hrunning ⟨hnamed ▸ hi, hnamed ▸ hactive⟩

theorem Consistent.save (h : mgr.Consistent) (env : CtxEnv D C) : (tuCtxSave env mgr).1.Consistent := by
  obtain ⟨hcfg, ⟨-, htable⟩ | ⟨-, hrunning, htable⟩⟩ := tuCtxSave_table env mgr
  · exact Consistent.of_table h hcfg htable
  · exact Consistent.of_table (h.park hrunning).1 hcfg htable

theorem Consistent.restore (h : mgr.Consistent) (id : Nat)
    (hnone : ∀ i < mgr.maxContexts, mgr.stateOf i ≠ .active) : (tuCtxRestore mgr id).1.Consistent := by
  rcases tuCtxRestore_cases mgr id with ⟨hrestore, -⟩ | ⟨⟨hlt, hready⟩, mgr', hrestore, hcfg, htable, -⟩
  · rw [hrestore]
    exact h
  · rw [hrestore]
    have hbusy : mgr.table.states id ≠ .idle := by
      rw [show mgr.table.states id = .ready from hready]
      simp
    exact Consistent.of_table (CtxTable.Consistent.resume h mgr.maxContexts_lt hlt hbusy hnone) hcfg htable

theorem Consistent.switch (h : mgr.Consistent) (env : CtxEnv D C) (id : Nat) : (tuCtxSwitch env mgr id).1.Consistent := by
  unfold tuCtxSwitch
  dsimp only
  obtain ⟨hcfg, ⟨hfail, -, htable⟩ | ⟨hok, hrunning, hsame⟩ | ⟨hok, hrunning, htable⟩⟩ := switchSave_table env mgr
  · rw [if_pos (by simp [hfail])]
    exact Consistent.of_table h hcfg htable
  · rw [if_neg (by simp [hok]), hsame]
    exact h.restore id (h.none_active hrunning)
  · rw [if_neg (by simp [hok])]
    obtain ⟨hpark, hnone⟩ := h.park hrunning
    apply Consistent.restore (Consistent.of_table hpark hcfg htable)
    intro i hi
    have hmax : (switchSave env mgr).1.maxContexts = mgr.maxContexts := congrArg (·.maxContexts.toNat) hcfg
    rw [show (switchSave env mgr).1.stateOf i = _ from congrArg (CtxTable.states · i) htable]
    exact hnone i (hmax ▸ hi)

theorem Consistent.alloc (h : mgr.Consistent) (env : CtxEnv D C) : (tuCtxAlloc env mgr).1.Consistent := by
  rcases tuCtxAlloc_cases env mgr with hsame | ⟨i, hlt, hidle, ⟨ctx, hstate, hset⟩ | ⟨mgr', halloc, hcfg, htable, -⟩⟩
  · rw [hsame]
    exact h
  · rw [hset]
    have hkept : (mgr.table.set i (mgr.stateOf i)).Consistent mgr.maxContexts := by
      rw [set_stateOf]
      exact h
    refine Consistent.of_table hkept rfl ?_
    rw [table_setContext, hstate, hidle]
  · rw [halloc]
    exact Consistent.of_table (CtxTable.Consistent.claim h mgr.maxContexts_lt hlt hidle) hcfg htable

theorem Consistent.free (h : mgr.Consistent) (env : CtxEnv D C) {id : Nat}
    (hidle : id < mgr.maxContexts → mgr.stateOf id = .idle → mgr.activeCount = 0) : (tuCtxFree env mgr id).Consistent := by
  obtain ⟨hcfg, ⟨htable, -⟩ | ⟨hlt, hactive, htable⟩ | ⟨hrunning, hid, htable⟩ | ⟨hrunning, hlt, hactive, hid, -⟩⟩ :=
    tuCtxFree_table env mgr id
  · exact Consistent.of_table h hcfg htable
  · by_cases hstate : mgr.stateOf id = .idle
    · -- nothing is counted, so nothing is counted down
      have hzero : mgr.table.count = 0 := hidle hlt hstate
      refine Consistent.of_table (show mgr.table.Consistent mgr.maxContexts from h) hcfg ?_
      rw [htable]
      unfold CtxTable.release
      rw [if_neg (by rw [hzero]; decide), ← hstate]
      exact set_stateOf mgr id
    · exact Consistent.of_table (CtxTable.Consistent.release h hlt hstate) hcfg htable
  · have hpark := (h.park hrunning).1
    rw [← hid] at hpark
    refine Consistent.of_table (CtxTable.Consistent.release hpark (hid ▸ hrunning.1) ?_) hcfg htable
    rw [CtxTable.set_states, Function.update_self]
    simp
  · exact absurd (h.named id hlt hactive) hid

theorem Consistent.block (h : mgr.Consistent) (env : CtxEnv D C) : (tuCtxBlockCurrent env mgr).1.Consistent := by
  obtain ⟨hcfg, htable | ⟨hrunning, htable⟩⟩ := tuCtxBlockCurrent_table env mgr
  · exact Consistent.of_table h hcfg htable
  · refine Consistent.of_table (CtxTable.Consistent.set (h.park hrunning).1 ?_ (by simp) (by simp)) hcfg htable
    rw [CtxTable.set_states, Function.update_self]
    simp

theorem Consistent.unblock (h : mgr.Consistent) (id : Nat) : (tuCtxUnblock mgr id).1.Consistent := by
  obtain ⟨hcfg, htable | ⟨hblocked, htable⟩⟩ := tuCtxUnblock_table mgr id
  · exact Consistent.of_table h hcfg htable
  · refine Consistent.of_table (CtxTable.Consistent.set h ?_ (by simp) (by simp)) hcfg htable
    rw [show mgr.table.states id = .blocked from hblocked]
    simp

/-! ### Runs -/

theorem Consistent.step (h : mgr.Consistent) {e : CtxCall D C × CtxEnv D C} (ho : mgr.Orderly e) :
    (mgr.step e).Consistent := by
  obtain ⟨call, env⟩ := e
  cases call with
  | alloc => exact h.alloc env
  | free id => exact h.free env ho
  | save => exact h.save env
  | restore id =>
    by_cases hready : id.toNat < mgr.maxContexts ∧ mgr.stateOf id.toNat = .ready
    · exact h.restore id.toNat (ho hready.1 hready.2)
    · rcases tuCtxRestore_cases mgr id.toNat with ⟨hrestore, -⟩ | ⟨hready', -⟩
      · show (tuCtxRestore mgr id.toNat).1.Consistent
        rw [hrestore]
        exact h
      · exact absurd hready' hready
  | switch id => exact h.switch env id.toNat
  | requestSwitch =>
    show (tuCtxRequestSwitch env mgr).1.Consistent
    unfold tuCtxRequestSwitch
    split
    · exact h
    · exact h.switch env _
  | blockCurrent => exact h.block env
  | unblock id => exact h.unblock id.toNat
  | setPriority id priority =>
    show (if id.toNat < mgr.maxContexts ∧ mgr.stateOf id.toNat ≠ .idle then
      mgr.setContext id.toNat { mgr.contexts id.toNat with priority := priority } else mgr).Consistent
    split
    · refine Consistent.of_table (show mgr.table.Consistent mgr.maxContexts from h) rfl ?_
      rw [table_setContext]
      exact set_stateOf mgr id.toNat
    · exact h
  | useCore op => exact h

theorem not_consistent_step (h : mgr.Consistent) {e : CtxCall D C × CtxEnv D C} (ho : ¬ mgr.Orderly e) :
    ¬ (mgr.step e).Consistent := by
  obtain ⟨call, env⟩ := e
  cases call with
  | free id =>
    obtain ⟨hlt, hidle, hcount⟩ : id.toNat < mgr.maxContexts ∧ mgr.stateOf id.toNat = .idle ∧ mgr.activeCount ≠ 0 := by
      unfold Orderly at ho
      simpa using ho
    have hcount : mgr.table.count > 0 := UInt32.pos_iff_ne_zero.2 hcount
    intro hstep
    have hstep : (tuCtxFree env mgr id.toNat).Consistent := hstep
    obtain ⟨hcfg, ⟨-, hactive⟩ | ⟨-, -, htable⟩ | ⟨hrunning, hid, -⟩ | ⟨-, -, hactive, -⟩⟩ := tuCtxFree_table env mgr id.toNat
    · rw [hactive hlt] at hidle
      exact absurd hidle (by simp)
    · unfold Consistent at hstep
      rw [htable, show (tuCtxFree env mgr id.toNat).maxContexts = mgr.maxContexts from
        congrArg (·.maxContexts.toNat) hcfg] at hstep
      exact CtxTable.Consistent.not_release h hidle hcount hstep
    · rw [hid, hrunning.2] at hidle
      exact absurd hidle (by simp)
    · rw [hactive] at hidle
      exact absurd hidle (by simp)
  | restore id =>
    obtain ⟨hlt, hready, i, hi, hactive⟩ : id.toNat < mgr.maxContexts ∧ mgr.stateOf id.toNat = .ready ∧
        ∃ i < mgr.maxContexts, mgr.stateOf i = .active := by
      unfold Orderly at ho
      simpa using ho
    intro hstep
    have hstep : (tuCtxRestore mgr id.toNat).1.Consistent := hstep
    rcases tuCtxRestore_cases mgr id.toNat with ⟨-, hnot⟩ | ⟨-, mgr', hrestore, hcfg, htable, -⟩
    · exact hnot ⟨hlt, hready⟩
    · unfold Consistent at hstep
      rw [hrestore, htable, show mgr'.maxContexts = mgr.maxContexts from congrArg (·.maxContexts.toNat) hcfg] at hstep
      exact CtxTable.Consistent.not_resume hlt hready hi hactive hstep
  | _ => exact absurd trivial ho

theorem consistent_create {core : TuState D C} {cfg : TuCtxManagerConfig} (h : tuCtxManagerCreate core cfg = some mgr) :
    mgr.Consistent := by
  unfold tuCtxManagerCreate at h
  split at h
  · obtain rfl := Option.some.inj h
    apply CtxTable.consistent_of_named
    · intro i _ hactive
      exact absurd hactive (by simp [table, stateOf])
    · show (0 : UInt32).toNat = _
      rw [Finset.card_eq_zero.2]
      · rfl
      · apply Finset.filter_eq_empty_iff.2
        intro i _
        simp [table, stateOf]
  · simp at h

end TuCtxManager

/-- In every run of a new manager: what it keeps twice agrees in every state reached exactly as long as every call is
orderly. -/
theorem consistent_iff {core : TuState D C} {cfg : TuCtxManagerConfig} {mgr : TuCtxManager D C}
    (h : tuCtxManagerCreate core cfg = some mgr) (es : List (CtxCall D C × CtxEnv D C)) :
    (∀ k, (Run.exec step mgr (es.take k)).Consistent) ↔ Run.Along Orderly step mgr es :=
  Run.forall_take_iff_along (I := Consistent) (P := Consistent) (fun _ h => h) (fun _ _ h ho => h.step ho)
    (fun _ _ h ho => not_consistent_step h ho) (consistent_create h) es

theorem consistent_switching :
    ∃ mgr, tuCtxManagerCreate (TuState.fresh Nat Nat 16) twoContexts = some mgr ∧
      ∀ k, (Run.exec step mgr (([.alloc, .alloc, .switch 1, .blockCurrent, .restore 0, .free 1, .unblock 1,
        .switch 7].map (quiet Nat Nat)).take k)).Consistent := by
  refine ⟨_, rfl, (consistent_iff (show tuCtxManagerCreate (TuState.fresh Nat Nat 16) twoContexts = some _ from rfl) _).2 ?_⟩
  refine ⟨trivial, trivial, trivial, trivial, ?_, ?_, trivial, trivial, trivial⟩
  · intro _ _
    decide
  · intro _ hidle
    exact absurd hidle (by decide)

/-- Freeing slot 1, which is idle, counts the running context 0 down, and the next context is made active beside it. -/
theorem freeIdle_not_consistent :
    ∃ mgr, tuCtxManagerCreate (TuState.fresh Nat Nat 16) twoContexts = some mgr ∧
      (let mgr' := Run.exec step mgr ([.alloc, .free 1].map (quiet Nat Nat))
       mgr'.stateOf 0 = .active ∧ mgr'.activeCount = 0 ∧ ¬ mgr'.Consistent) ∧
      (let mgr' := Run.exec step mgr ([.alloc, .free 1, .alloc].map (quiet Nat Nat))
       mgr'.stateOf 0 = .active ∧ mgr'.stateOf 1 = .active ∧ ¬ mgr'.Consistent) := by
  refine ⟨_, rfl, ⟨by decide, by decide, ?_⟩, by decide, by decide, ?_⟩
  · intro h
    exact absurd h.count (by decide)
  · intro h
    exact absurd (h.unique 0 (by decide) 1 (by decide) (by decide) (by decide)) (by decide)

end Tusim
