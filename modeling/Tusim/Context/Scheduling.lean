import Tusim.Context.Resumption
import Tusim.Lib.Choosing
import Tusim.Lib.Rotation

/-!
# Scheduling

Round robin takes the first ready context behind the active one; each selection brings the cursor closer to a context that
stays ready (`selects_le`).  The priority policy takes the first best of the ready contexts, but starts with a priority of
zero that a context has to exceed: where every ready context has priority zero it takes none (`schedules_iff`).
-/

namespace Tusim

open Word TuCtxManager

variable {D C : Type} [Zero D] [Zero C]

namespace TuCtxManager

variable (mgr : TuCtxManager D C)

/-- The context is ready. -/
def Ready (i : Nat) : Prop := i < mgr.maxContexts ∧ mgr.stateOf i = .ready

/-- Whenever a context is ready the scheduler picks one, under the priority policy one of the highest priority. -/
def Schedules : Prop :=
  (∃ i, mgr.Ready i) → ∃ id, tuCtxScheduleNext mgr = some id ∧ mgr.Ready id ∧
    (mgr.cfg.schedPolicy = .priority → ∀ j, mgr.Ready j → (mgr.contexts j).priority ≤ (mgr.contexts id).priority)

/-- The contexts that the requests of a run select. -/
def selections : TuCtxManager D C → List (CtxCall D C × CtxEnv D C) → List Nat
  | _, [] => []
  | mgr, e :: es =>
    match e.1 with
    | .requestSwitch =>
      let (mgr', ok) := tuCtxRequestSwitch e.2 mgr
      if ok then mgr'.activeCtxId.toNat :: selections mgr' es else selections mgr' es
    | _ => selections (mgr.step e) es

/-- A request, or a call that makes no other context the active one. -/
def RequestOrPassive (e : CtxCall D C × CtxEnv D C) : Prop :=
  match e.1 with
  | .alloc | .restore _ | .switch _ => False
  | _ => True

/-- Under round robin a context that stays ready is selected after at most `max_contexts - 1` selections of others. -/
def Fair : Prop :=
  mgr.cfg.schedPolicy = .roundRobin → ∀ c es, Run.Along (fun m e => m.Ready c ∧ RequestOrPassive e) step mgr es →
    c ∉ selections mgr es → (selections mgr es).length ≤ mgr.maxContexts - 1

/-- The numbers of the contexts are numbers of an `int`. -/
def Countable : Prop := mgr.maxContexts ≤ 2 ^ 31

/-- The priority policy finds a ready context of a positive priority if one is ready at all. -/
def Prioritised : Prop :=
  mgr.cfg.schedPolicy = .priority → (∃ i, mgr.Ready i) → ∃ i, mgr.Ready i ∧ 0 < (mgr.contexts i).priority

end TuCtxManager

variable {mgr : TuCtxManager D C}

/-! ### Priorities -/

/-- What the loop compares: the priority of a ready context. -/
def score (mgr : TuCtxManager D C) : Option Nat → Nat
  | none => 0
  | some i => if mgr.stateOf i = .ready then (mgr.contexts i).priority.toNat else 0

/-- The loop of the priority policy is a scan for the first best context. -/
theorem priorityLoop_eq (is : List Nat) {best : UInt8 × Option Nat} (h : best.1.toNat = score mgr best.2) :
    (is.foldl (fun (best : UInt8 × Option Nat) i =>
      if mgr.stateOf i = TuCtxState.ready ∧ (mgr.contexts i).priority > best.1 then ((mgr.contexts i).priority, some i)
      else best) best).2 = FirstBest.scan (score mgr) best.2 (is.map some) := by
  induction is generalizing best with
  | nil => rfl
  | cons i is ih =>
    rw [List.foldl_cons, List.map_cons, FirstBest.scan_cons]
    by_cases hready : mgr.stateOf i = TuCtxState.ready
    · have hscore : score mgr (some i) = (mgr.contexts i).priority.toNat := if_pos hready
      by_cases hgt : (mgr.contexts i).priority > best.1
      · have hlt : score mgr best.2 < score mgr (some i) := by
          rw [← h, hscore]
          exact UInt8.lt_iff_toNat_lt.1 hgt
        rw [if_pos ⟨hready, hgt⟩, FirstBest.better_of_lt hlt]
        exact ih hscore.symm
      · have hle : score mgr (some i) ≤ score mgr best.2 := by
          rw [← h, hscore]
          exact UInt8.le_iff_toNat_le.1 (UInt8.not_lt.1 hgt)
        rw [if_neg (fun hboth => hgt hboth.2), FirstBest.better_of_le hle]
        exact ih h
    · have hle : score mgr (some i) ≤ score mgr best.2 := by
        rw [show score mgr (some i) = 0 from if_neg hready]
        exact Nat.zero_le _
      rw [if_neg (fun hboth => hready hboth.1), FirstBest.better_of_le hle]
      exact ih h

theorem scheduleNext_priority (hpolicy : mgr.cfg.schedPolicy = .priority) :
    tuCtxScheduleNext mgr =
      (FirstBest.scan (score mgr) none ((List.range mgr.maxContexts).map some)).filter fun id => id < 2 ^ 31 := by
  unfold tuCtxScheduleNext
  rw [hpolicy]
  dsimp only
  rw [priorityLoop_eq _ rfl]

/-- Under the priority policy a ready context of the highest priority is picked iff one has a positive priority. -/
theorem schedules_priority (hcount : mgr.Countable) (hpolicy : mgr.cfg.schedPolicy = .priority) :
    mgr.Schedules ↔ ((∃ i, mgr.Ready i) → ∃ i, mgr.Ready i ∧ 0 < (mgr.contexts i).priority) := by
  unfold TuCtxManager.Schedules
  apply forall_congr'
  rintro -
  rw [scheduleNext_priority hpolicy]
  have hready : ∀ i, mgr.Ready i → score mgr (some i) = (mgr.contexts i).priority.toNat := fun i hi => if_pos hi.2
  have hbest := (FirstBest.le_scan (score mgr) none ((List.range mgr.maxContexts).map some)).2
  have hchoice := FirstBest.scan_eq_or_mem (score mgr) none ((List.range mgr.maxContexts).map some)
  generalize hscan : FirstBest.scan (score mgr) none ((List.range mgr.maxContexts).map some) = choice at hbest hchoice ⊢
  constructor
  · rintro ⟨id, hid, hidReady, -⟩
    obtain ⟨rfl, -⟩ := Option.filter_eq_some_iff.1 hid
    refine ⟨id, hidReady, ?_⟩
    by_contra hzero
    -- a choice of priority zero would not have replaced the start
    have hall : ∀ x ∈ (List.range mgr.maxContexts).map some, score mgr x ≤ score mgr none := by
      intro x hx
      refine (hbest x hx).trans ?_
      rw [hready id hidReady]
      have hle : (mgr.contexts id).priority ≤ 0 := UInt8.not_lt.1 hzero
      exact UInt8.le_iff_toNat_le.1 hle
    rw [FirstBest.scan_eq_self hall] at hscan
    exact absurd hscan nofun
  · rintro ⟨i, hi, hpos⟩
    have hmem : ∀ j, mgr.Ready j → some j ∈ (List.range mgr.maxContexts).map some :=
      fun j hj => List.mem_map.2 ⟨j, List.mem_range.2 hj.1, rfl⟩
    have hscore := hbest (some i) (hmem i hi)
    rw [hready i hi] at hscore
    have hpos' : 0 < (mgr.contexts i).priority.toNat := UInt8.lt_iff_toNat_lt.1 hpos
    rcases hchoice with rfl | hchosen
    · exact absurd hscore (by show ¬ _ ≤ 0; omega)
    · obtain ⟨id, hid, rfl⟩ := List.mem_map.1 hchosen
      have hlt := List.mem_range.1 hid
      have hidReady : mgr.Ready id := by
        refine ⟨hlt, ?_⟩
        by_contra hnot
        rw [show score mgr (some id) = 0 from if_neg hnot] at hscore
        omega
      refine ⟨id, ?_, hidReady, fun _ j hj => ?_⟩
      · have hint : id < 2 ^ 31 := hlt.trans_le hcount
        rw [Option.filter_some, if_pos (by simpa using hint)]
      · have hle := hbest (some j) (hmem j hj)
        rw [hready j hj, hready id hidReady] at hle
        exact UInt8.le_iff_toNat_le.2 hle

/-! ### Round robin -/

/-- The context the search starts with. -/
def cursor (mgr : TuCtxManager D C) : Nat := u32 (mgr.activeCtxId.toNat + 1) % mgr.maxContexts

theorem cursor_lt {c : Nat} (hc : c < mgr.maxContexts) : cursor mgr < mgr.maxContexts := Nat.mod_lt _ (by omega)

theorem scheduleNext_roundRobin (hcount : mgr.Countable) (hpolicy : mgr.cfg.schedPolicy = .roundRobin) :
    tuCtxScheduleNext mgr =
      ((List.range mgr.maxContexts).find? fun i => mgr.stateOf ((cursor mgr + i) % mgr.maxContexts) = .ready).map fun i =>
        (cursor mgr + i) % mgr.maxContexts := by
  have hmap : ((List.range mgr.maxContexts).map fun i => u32 (cursor mgr + i) % mgr.maxContexts) =
      (List.range mgr.maxContexts).map fun i => (cursor mgr + i) % mgr.maxContexts := by
    apply List.map_congr_left
    intro i hi
    have hlt := List.mem_range.1 hi
    have hcursor := cursor_lt hlt
    unfold TuCtxManager.Countable at hcount
    rw [u32_of_lt (by omega)]
  unfold tuCtxScheduleNext
  rw [hpolicy]
  dsimp only
  rw [show u32 (mgr.activeCtxId.toNat + 1) % mgr.maxContexts = cursor mgr from rfl, hmap, List.find?_map]
  cases hfind : (List.range mgr.maxContexts).find?
      ((fun id => decide (mgr.stateOf id = TuCtxState.ready)) ∘ fun i => (cursor mgr + i) % mgr.maxContexts) with
  | none =>
    rw [show ((fun i => decide (mgr.stateOf ((cursor mgr + i) % mgr.maxContexts) = TuCtxState.ready))) =
      (fun id => decide (mgr.stateOf id = TuCtxState.ready)) ∘ fun i => (cursor mgr + i) % mgr.maxContexts from rfl, hfind]
    rfl
  | some i =>
    have hlt := List.mem_range.1 (List.mem_of_find?_eq_some hfind)
    have hmod : (cursor mgr + i) % mgr.maxContexts < mgr.maxContexts := Nat.mod_lt _ (by omega)
    rw [show ((fun i => decide (mgr.stateOf ((cursor mgr + i) % mgr.maxContexts) = TuCtxState.ready))) =
      (fun id => decide (mgr.stateOf id = TuCtxState.ready)) ∘ fun i => (cursor mgr + i) % mgr.maxContexts from rfl, hfind]
    rw [Option.map_some, Option.filter_some, if_pos (by simpa using hmod.trans_le hcount)]

/-- No ready context is passed over. -/
theorem roundRobin_first (hcount : mgr.Countable) (hpolicy : mgr.cfg.schedPolicy = .roundRobin) {c : Nat} (hc : mgr.Ready c) :
    ∃ q ≤ Rotation.dist mgr.maxContexts (cursor mgr) c,
      tuCtxScheduleNext mgr = some ((cursor mgr + q) % mgr.maxContexts) ∧
        mgr.Ready ((cursor mgr + q) % mgr.maxContexts) := by
  have hcursor := cursor_lt hc.1
  have hreach := Rotation.add_dist hcursor hc.1
  have hdist := Rotation.dist_lt hcursor hc.1
  rw [scheduleNext_roundRobin hcount hpolicy]
  cases hfind : (List.range mgr.maxContexts).find? fun i =>
      decide (mgr.stateOf ((cursor mgr + i) % mgr.maxContexts) = .ready) with
  | none =>
    have hnone := List.find?_range_eq_none.1 hfind _ hdist
    rw [hreach, hc.2] at hnone
    simp at hnone
  | some q =>
    obtain ⟨hready, hq, hbefore⟩ := List.find?_range_eq_some.1 hfind
    have hpos : 0 < mgr.maxContexts := Nat.zero_lt_of_lt hc.1
    refine ⟨q, ?_, rfl, Nat.mod_lt _ hpos, by simpa using hready⟩
    by_contra hgt
    have hpassed := hbefore _ (not_le.1 hgt)
    rw [hreach, hc.2] at hpassed
    simp at hpassed

theorem schedules_roundRobin (hcount : mgr.Countable) (hpolicy : mgr.cfg.schedPolicy = .roundRobin) : mgr.Schedules := by
  rintro ⟨i, hi⟩
  obtain ⟨q, -, hnext, hready⟩ := roundRobin_first hcount hpolicy hi
  refine ⟨_, hnext, hready, fun hpriority => ?_⟩
  rw [hpolicy] at hpriority
  exact absurd hpriority nofun

/-! ### Who is active after a call -/

variable (env : CtxEnv D C)

theorem tuCtxSwitch_activeCtxId_of_failed {id : Nat} (hfail : (tuCtxSwitch env mgr id).2 = false) :
    (tuCtxSwitch env mgr id).1.activeCtxId = mgr.activeCtxId := by
  have hsave : (switchSave env mgr).1.activeCtxId = mgr.activeCtxId := by
    rcases (switchSave_table env mgr).2 with ⟨-, -, htable⟩ | ⟨-, -, hsame⟩ | ⟨-, -, htable⟩
    · exact congrArg CtxTable.activeId htable
    · rw [hsame]
    · exact congrArg CtxTable.activeId htable
  unfold tuCtxSwitch at hfail ⊢
  dsimp only at hfail ⊢
  split at hfail
  · rename_i hsaved
    rw [if_pos hsaved]
    exact hsave
  · rename_i hsaved
    rw [if_neg hsaved]
    rcases tuCtxRestore_cases (switchSave env mgr).1 id with ⟨hrestore, -⟩ | ⟨-, mgr', hrestore, -⟩
    · rw [hrestore]
      exact hsave
    · rw [hrestore] at hfail
      exact absurd hfail (by simp)

variable (mgr) in
/-- A request selects what the scheduler picks, or nothing changes hands. -/
theorem tuCtxRequestSwitch_cases :
    (tuCtxRequestSwitch env mgr).2 = false ∧ (tuCtxRequestSwitch env mgr).1.activeCtxId = mgr.activeCtxId ∨
      (tuCtxRequestSwitch env mgr).2 = true ∧ ∃ id, tuCtxScheduleNext mgr = some id ∧
        (tuCtxRequestSwitch env mgr).1.activeCtxId = UInt32.ofNat id := by
  unfold tuCtxRequestSwitch
  cases hnext : tuCtxScheduleNext mgr with
  | none => exact Or.inl ⟨rfl, rfl⟩
  | some id =>
    dsimp only
    cases hok : (tuCtxSwitch env mgr id).2 with
    | false => exact Or.inl ⟨rfl, tuCtxSwitch_activeCtxId_of_failed env hok⟩
    | true => exact Or.inr ⟨rfl, id, rfl, tuCtxSwitch_activeCtxId env mgr hok⟩

theorem passive_activeCtxId {call : CtxCall D C} (hpassive : RequestOrPassive (call, env))
    (hrequest : ∀ env', (call, env) ≠ (.requestSwitch, env')) : (mgr.step (call, env)).activeCtxId = mgr.activeCtxId := by
  cases call with
  | alloc => exact hpassive.elim
  | restore id => exact hpassive.elim
  | switch id => exact hpassive.elim
  | requestSwitch => exact absurd rfl (hrequest env)
  | free id =>
    rcases (tuCtxFree_table env mgr id.toNat).2 with ⟨h, -⟩ | ⟨-, -, h⟩ | ⟨-, -, h⟩ | ⟨-, -, -, -, h⟩ <;>
      exact congrArg CtxTable.activeId h
  | save =>
    rcases (tuCtxSave_table env mgr).2 with ⟨-, h⟩ | ⟨-, -, h⟩ <;> exact congrArg CtxTable.activeId h
  | blockCurrent =>
    rcases (tuCtxBlockCurrent_table env mgr).2 with h | ⟨-, h⟩ <;> exact congrArg CtxTable.activeId h
  | unblock id =>
    rcases (tuCtxUnblock_table mgr id.toNat).2 with h | ⟨-, h⟩ <;> exact congrArg CtxTable.activeId h
  | setPriority id priority =>
    show (if id.toNat < mgr.maxContexts ∧ mgr.stateOf id.toNat ≠ .idle then
      mgr.setContext id.toNat { mgr.contexts id.toNat with priority := priority } else mgr).activeCtxId = _
    split <;> rfl
  | useCore op => rfl

/-! ### Runs of requests -/

variable (mgr) in
theorem step_maxContexts (e : CtxCall D C × CtxEnv D C) : (mgr.step e).maxContexts = mgr.maxContexts :=
  congrArg (fun cfg : TuCtxManagerConfig => cfg.maxContexts.toNat) (step_cfg mgr e)

theorem cursor_step {e : CtxCall D C × CtxEnv D C} (h : (mgr.step e).activeCtxId = mgr.activeCtxId) :
    cursor (mgr.step e) = cursor mgr := by
  unfold cursor
  rw [h, step_maxContexts]

/-- A request that selects another context brings the cursor closer to one that is ready. -/
theorem request_closer (hcount : mgr.Countable) (hpolicy : mgr.cfg.schedPolicy = .roundRobin) {c : Nat} (hc : mgr.Ready c)
    (hok : (tuCtxRequestSwitch env mgr).2 = true) (hother : (tuCtxRequestSwitch env mgr).1.activeCtxId.toNat ≠ c) :
    Rotation.dist mgr.maxContexts (cursor (mgr.step (.requestSwitch, env))) c + 1 ≤
      Rotation.dist mgr.maxContexts (cursor mgr) c := by
  obtain ⟨q, hq, hnext, hready⟩ := roundRobin_first hcount hpolicy hc
  rcases tuCtxRequestSwitch_cases mgr env with ⟨hfail, -⟩ | ⟨-, id, hid, hactive⟩
  · rw [hok] at hfail
    exact absurd hfail (by decide)
  · rw [hnext, Option.some.injEq] at hid
    have hlt : id < mgr.maxContexts := hid ▸ hready.1
    unfold TuCtxManager.Countable at hcount
    have hnat : (UInt32.ofNat id).toNat = id := by
      rw [UInt32.toNat_ofNat']
      omega
    rw [hactive, hnat] at hother
    have hcursor := cursor_lt hc.1
    have hne : q ≠ Rotation.dist mgr.maxContexts (cursor mgr) c := by
      rintro rfl
      rw [Rotation.add_dist hcursor hc.1] at hid
      exact hother hid.symm
    have hmoved : cursor (mgr.step (.requestSwitch, env)) = ((cursor mgr + q) % mgr.maxContexts + 1) % mgr.maxContexts := by
      unfold cursor
      rw [step_maxContexts]
      show u32 ((tuCtxRequestSwitch env mgr).1.activeCtxId.toNat + 1) % mgr.maxContexts = _
      rw [hactive, hnat, u32_of_lt (by omega), ← hid]
      rfl
    have hadvance := Rotation.dist_advance hcursor hc.1 (lt_of_le_of_ne hq hne)
    rw [hmoved]
    omega

/-- A run selects no more contexts than lie between the cursor and one that stays ready and is not selected. -/
theorem selects_le (hcount : mgr.Countable) (hpolicy : mgr.cfg.schedPolicy = .roundRobin) {c : Nat}
    {es : List (CtxCall D C × CtxEnv D C)} (hc : c < mgr.maxContexts)
    (h : Run.Along (fun m e => m.Ready c ∧ RequestOrPassive e) step mgr es) (hother : c ∉ selections mgr es) :
    (selections mgr es).length ≤ Rotation.dist mgr.maxContexts (cursor mgr) c := by
  induction es generalizing mgr with
  | nil => exact Nat.zero_le _
  | cons e es ih =>
    obtain ⟨⟨hready, hpassive⟩, hrest⟩ := h
    obtain ⟨call, env⟩ := e
    have hmax := step_maxContexts mgr (call, env)
    have hcount' : (mgr.step (call, env)).Countable := by
      unfold TuCtxManager.Countable at hcount ⊢
      rwa [hmax]
    have hpolicy' : (mgr.step (call, env)).cfg.schedPolicy = .roundRobin := by rw [step_cfg, hpolicy]
    have hnext := @ih (mgr.step (call, env)) hcount' hpolicy' (hmax ▸ hc) hrest
    rw [hmax] at hnext
    by_cases hrequest : ∃ env', (call, env) = (.requestSwitch, env')
    · obtain ⟨env', heq⟩ := hrequest
      obtain ⟨rfl, rfl⟩ := Prod.mk.inj heq
      cases hok : (tuCtxRequestSwitch env mgr).2 with
      | false =>
        have hsame : selections mgr ((.requestSwitch, env) :: es) = selections (mgr.step (.requestSwitch, env)) es := by
          show (if (tuCtxRequestSwitch env mgr).2 then _ else _) = _
          rw [hok, if_neg Bool.false_ne_true]
          rfl
        rw [hsame] at hother ⊢
        rcases tuCtxRequestSwitch_cases mgr env with ⟨-, hkept⟩ | ⟨htrue, -⟩
        · have hcursor : cursor (mgr.step (.requestSwitch, env)) = cursor mgr := cursor_step hkept
          rw [← hcursor]
          exact hnext hother
        · rw [hok] at htrue
          exact absurd htrue (by decide)
      | true =>
        have hcons : selections mgr ((.requestSwitch, env) :: es) =
            (tuCtxRequestSwitch env mgr).1.activeCtxId.toNat :: selections (mgr.step (.requestSwitch, env)) es := by
          show (if (tuCtxRequestSwitch env mgr).2 then _ else _) = _
          rw [hok, if_pos rfl]
          rfl
        rw [hcons, List.mem_cons, not_or] at hother
        rw [hcons, List.length_cons]
        have hcloser := request_closer env hcount hpolicy hready hok (Ne.symm hother.1)
        have hle := hnext hother.2
        omega
    · have hne : ∀ env', (call, env) ≠ (.requestSwitch, env') := fun env' heq => hrequest ⟨env', heq⟩
      have hsame : selections mgr ((call, env) :: es) = selections (mgr.step (call, env)) es := by
        cases call with
        | requestSwitch => exact absurd rfl (hne env)
        | _ => rfl
      rw [hsame] at hother ⊢
      rw [← cursor_step (passive_activeCtxId env hpassive hne)]
      exact hnext hother

theorem fair (hcount : mgr.Countable) : mgr.Fair := by
  intro hpolicy c es h hother
  cases es with
  | nil => exact Nat.zero_le _
  | cons e es =>
    have hc : c < mgr.maxContexts := h.1.1.1
    have hle := selects_le hcount hpolicy hc h hother
    have hdist := Rotation.dist_lt (cursor_lt hc) hc
    omega

/-- The scheduler does what it should exactly where the priority policy finds a positive priority, as long as the numbers of
contexts are numbers of an `int`. -/
theorem schedules_iff (mgr : TuCtxManager D C) :
    (mgr.Countable ∧ mgr.Prioritised → mgr.Schedules ∧ mgr.Fair) ∧
      (mgr.Countable → (mgr.Schedules ∧ mgr.Fair ↔ mgr.Prioritised)) := by
  have hiff : mgr.Countable → (mgr.Schedules ∧ mgr.Fair ↔ mgr.Prioritised) := by
    intro hcount
    rw [and_iff_left (fair hcount)]
    unfold TuCtxManager.Prioritised
    cases hpolicy : mgr.cfg.schedPolicy with
    | roundRobin => exact iff_of_true (schedules_roundRobin hcount hpolicy) nofun
    | priority => exact (schedules_priority hcount hpolicy).trans ⟨fun h _ => h, fun h => h rfl⟩
  exact ⟨fun h => (hiff h.1).2 h.2, hiff⟩

/-- Two contexts, the second one ready with priority zero: under the priority policy none is picked. -/
theorem zeroPriority_not_scheduled :
    ∃ mgr, tuCtxManagerCreate (TuState.fresh Nat Nat 16) { twoContexts with schedPolicy := .priority } = some mgr ∧
      (let mgr' := Run.exec step mgr ([.alloc, .alloc, .setPriority 1 0].map (quiet Nat Nat))
       mgr'.Ready 1 ∧ tuCtxScheduleNext mgr' = none ∧ ¬ mgr'.Schedules) := by
  refine ⟨_, rfl, ⟨by decide, by decide⟩, by decide, ?_⟩
  intro h
  obtain ⟨id, hid, -⟩ := h ⟨1, by decide, by decide⟩
  exact absurd ((show none = some id from hid)) nofun

end Tusim
