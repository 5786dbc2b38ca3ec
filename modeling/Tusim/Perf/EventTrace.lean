import Mathlib.Data.List.Induction
import Mathlib.Data.UInt
import Tusim.Lib.Timeline
import Tusim.Lib.Word

/-!
# The event trace

The writer of waveform files (`event_trace.c`).  A signal remembers its last value and whether that value still has to
be written; a tick writes the values that changed and then a new timestamp, and closing the trace writes what is left.
The file is the list of its lines; of the header only the declarations and the initial values are kept.
-/

namespace Tusim.Perf

open Word

/-- `tu_trace_signal_width_t` -/
inductive TuTraceSignalWidth
  | sig1Bit
  | sig4Bit
  | sig8Bit
  | sig16Bit
  | sig32Bit
  | sig64Bit
  deriving DecidableEq, Repr

def TuTraceSignalWidth.bits : TuTraceSignalWidth → Nat
  | .sig1Bit => 1
  | .sig4Bit => 4
  | .sig8Bit => 8
  | .sig16Bit => 16
  | .sig32Bit => 32
  | .sig64Bit => 64

inductive VcdLine
  /-- `$var` -/
  | var (type : String) (width : Nat) (id name : String)
  /-- a change of a signal of one bit -/
  | scalar (bit : Bool) (id : String)
  /-- a change of a signal of several bits, the highest first -/
  | vector (bits : List Bool) (id : String)
  /-- `#cycle` -/
  | time (cycle : Nat)
  deriving DecidableEq, Repr

structure TraceSignal where
  id : String
  name : String
  width : TuTraceSignalWidth
  lastValue : UInt64 := 0
  dirty : Bool := false
  deriving DecidableEq

/-- `tu_event_trace_t` with an open file -/
structure TuEventTrace where
  currentCycle : Nat := 0
  maxSignals : Nat
  headerWritten : Bool := false
  signals : List TraceSignal := []
  file : List VcdLine := []

/-- The line of `$dumpvars` for a signal. -/
def TraceSignal.zeroLine (s : TraceSignal) : VcdLine :=
  if s.width.bits = 1 then .scalar false s.id else .vector (List.replicate s.width.bits false) s.id

/-- `write_vcd_header` -/
def writeVcdHeader (t : TuEventTrace) : TuEventTrace :=
  if t.headerWritten then t
  else
    { t with
      file := t.file ++
        t.signals.map (fun s => .var (if s.width.bits = 1 then "wire" else "reg") s.width.bits s.id s.name) ++
        t.signals.map TraceSignal.zeroLine ++ [.time 0]
      headerWritten := true }

/-- The line for the last value of a signal. -/
def TraceSignal.changeLine (s : TraceSignal) : VcdLine :=
  if s.width.bits = 1 then .scalar (s.lastValue.toNat.testBit 0) s.id
  else .vector ((List.range s.width.bits).reverse.map s.lastValue.toNat.testBit) s.id

/-- `write_signal_change` -/
def writeSignalChange (t : TuEventTrace) (sigIdx : Nat) : TuEventTrace :=
  match t.signals[sigIdx]? with
  | none => t
  | some s =>
    if !s.dirty then t
    else { t with file := t.file ++ [s.changeLine], signals := t.signals.set sigIdx { s with dirty := false } }

/-- The loop over `write_signal_change`. -/
def flushChanges (t : TuEventTrace) : TuEventTrace := (List.range t.signals.length).foldl writeSignalChange t

/-- `tu_trace_create` -/
def tuTraceCreate (maxSignals : UInt32) : TuEventTrace where
  maxSignals := if maxSignals > 0 then maxSignals.toNat else 64

/-- `tu_trace_add_signal` -/
def tuTraceAddSignal (t : TuEventTrace) (id name : String) (width : TuTraceSignalWidth) : TuEventTrace :=
  if t.signals.length ≥ t.maxSignals then t
  else { t with signals := t.signals ++ [{ id := id, name := name, width := width }] }

/-- `tu_trace_signal` -/
def tuTraceSignal (t : TuEventTrace) (signalIndex : Int) (value : UInt64) : TuEventTrace :=
  if signalIndex < 0 then t
  else
    match t.signals[signalIndex.toNat]? with
    | none => t
    | some s =>
      if s.lastValue ≠ value then
        { t with signals := t.signals.set signalIndex.toNat { s with lastValue := value, dirty := true } }
      else t

/-- `tu_trace_tick` -/
def tuTraceTick (t : TuEventTrace) (cycles : UInt64) : TuEventTrace :=
  if !t.headerWritten then writeVcdHeader t
  else
    let hasChanges := t.signals.any (·.dirty)
    if !hasChanges ∧ cycles = 0 then t
    else
      let t := flushChanges t
      if cycles > 0 then
        let currentCycle := u64 (t.currentCycle + cycles.toNat)
        { t with currentCycle := currentCycle, file := t.file ++ [.time currentCycle] }
      else t

/-- `tu_trace_close`: the file it leaves. -/
def tuTraceClose (t : TuEventTrace) : List VcdLine :=
  let anyDirty := t.signals.any (·.dirty)
  let t := if anyDirty && t.headerWritten then flushChanges t else t
  if t.headerWritten then t.file ++ [.time t.currentCycle] else t.file

/-! ### Calls -/

inductive TraceCall
  | signal (signalIndex : Int) (value : UInt64)
  | tick (cycles : UInt64)
  deriving DecidableEq

def traceStep (t : TuEventTrace) : TraceCall → TuEventTrace
  | .signal i v => tuTraceSignal t i v
  | .tick c => tuTraceTick t c

/-- A trace with its signals registered; a signal is given by identifier, name and width. -/
def registerSignals (maxSignals : UInt32) (specs : List (String × String × TuTraceSignalWidth)) : TuEventTrace :=
  specs.foldl (fun t spec => tuTraceAddSignal t spec.1 spec.2.1 spec.2.2) (tuTraceCreate maxSignals)

/-- The value a string of bits stands for, the highest bit first. -/
def bitsValue (bits : List Bool) : Nat := bits.foldl (fun v b => 2 * v + b.toNat) 0

/-- What a reader of the file makes of a line. -/
def VcdLine.event : VcdLine → Option (Timeline.Event String Nat)
  | .var _ _ _ _ => none
  | .scalar bit id => some (.set id bit.toNat)
  | .vector bits id => some (.set id (bitsValue bits))
  | .time cycle => some (.time cycle)

def vcdEvents (file : List VcdLine) : List (Timeline.Event String Nat) := file.filterMap VcdLine.event

end Tusim.Perf

/-!
### Replaying a waveform

Reading the file of a trace gives every signal its value at every time, if the first tick does not advance the time
(`replay_of_still`): the first tick writes the header and returns, whatever its length.  The invariant (`Follows`): the
file shows all times before the current one, and at the current time the signals that are not dirty.
-/

namespace Tusim.Perf

open Timeline Word

/-! ### The calls as a timeline -/

def TraceCall.delta : TraceCall → Nat
  | .signal _ _ => 0
  | .tick c => c.toNat

/-- The simulated time after the calls. -/
def clock (calls : List TraceCall) : Nat := (calls.map TraceCall.delta).sum

/-- The values that the calls set, and the times of the ticks. -/
def timeline : Nat → List TraceCall → List (Event Nat UInt64)
  | _, [] => []
  | now, .signal i v :: calls => (if i < 0 then [] else [.set i.toNat v]) ++ timeline now calls
  | now, .tick c :: calls => .time (now + c.toNat) :: timeline (now + c.toNat) calls

theorem clock_append (p q : List TraceCall) : clock (p ++ q) = clock p + clock q := by
  unfold clock
  rw [List.map_append, List.sum_append]

theorem timeline_signal (now : Nat) (i : Int) (v : UInt64) (p : List TraceCall) :
    timeline now (.signal i v :: p) = (if i < 0 then [] else [.set i.toNat v]) ++ timeline now p := rfl

theorem timeline_tick (now : Nat) (c : UInt64) (p : List TraceCall) :
    timeline now (.tick c :: p) = .time (now + c.toNat) :: timeline (now + c.toNat) p := rfl

theorem timeline_append (now : Nat) (p q : List TraceCall) :
    timeline now (p ++ q) = timeline now p ++ timeline (now + clock p) q := by
  induction p generalizing now with
  | nil => rfl
  | cons call p ih =>
    have hclock : clock (call :: p) = call.delta + clock p := rfl
    rw [hclock, ← Nat.add_assoc, List.cons_append]
    cases call with
    | signal i v =>
      rw [timeline_signal, timeline_signal, ih, List.append_assoc]
      rfl
    | tick c =>
      rw [timeline_tick, timeline_tick, ih]
      rfl

theorem clock_tick (p : List TraceCall) (c : UInt64) : clock (p ++ [.tick c]) = clock p + c.toNat := by
  rw [clock_append]
  exact congrArg _ (Nat.add_zero _)

theorem timeline_snoc_tick (p : List TraceCall) (c : UInt64) :
    timeline 0 (p ++ [.tick c]) = timeline 0 p ++ [.time (clock p + c.toNat)] := by
  rw [timeline_append, Nat.zero_add]
  rfl

/-- A tick sets no value. -/
theorem final_timeline_tick (p : List TraceCall) (c : UInt64) (f : Nat → UInt64) :
    final f (timeline 0 (p ++ [.tick c])) = final f (timeline 0 p) := by
  rw [timeline_snoc_tick, final_append]
  rfl

theorem le_of_mem_timeline {now s : Nat} {p : List TraceCall} (h : s ∈ times (timeline now p)) : s ≤ now + clock p := by
  induction p generalizing now with
  | nil => exact absurd h List.not_mem_nil
  | cons call p ih =>
    have hclock : clock (call :: p) = call.delta + clock p := rfl
    rw [hclock, ← Nat.add_assoc]
    cases call with
    | signal i v =>
      rw [timeline_signal] at h
      apply ih
      split at h <;> exact h
    | tick c =>
      rw [timeline_tick] at h
      rcases List.mem_cons.1 h with rfl | h
      · exact Nat.le_add_right _ _
      · exact ih h

/-- The current time is that of a tick. -/
theorem clock_mem_timeline {now : Nat} {p : List TraceCall} (h : 0 < clock p) : now + clock p ∈ times (timeline now p) := by
  induction p generalizing now with
  | nil => exact absurd h (Nat.lt_irrefl 0)
  | cons call p ih =>
    have hclock : clock (call :: p) = call.delta + clock p := rfl
    rw [hclock] at h ⊢
    rw [← Nat.add_assoc]
    cases call with
    | signal i v =>
      have hmem := @ih now (by simpa [TraceCall.delta] using h)
      rw [timeline_signal]
      split <;> exact hmem
    | tick c =>
      rw [timeline_tick, times_time, List.mem_cons]
      rcases Nat.eq_zero_or_pos (clock p) with hzero | hpos
      · rw [hzero]
        exact Or.inl rfl
      · exact Or.inr (ih hpos)

/-! ### Lines -/

theorem bitsValue_testBit (v w : Nat) : bitsValue ((List.range w).reverse.map v.testBit) = v % 2 ^ w := by
  have hfrom : ∀ acc, ((List.range w).reverse.map v.testBit).foldl (fun v b => 2 * v + b.toNat) acc =
      acc * 2 ^ w + v % 2 ^ w := by
    induction w with
    | zero => simp [Nat.mod_one]
    | succ w ih =>
      intro acc
      rw [List.range_succ, List.reverse_append, List.reverse_singleton, List.singleton_append, List.map_cons,
        List.foldl_cons, ih, Nat.toNat_testBit, Nat.mod_pow_succ, Nat.pow_succ]
      ring
  unfold bitsValue
  rw [hfrom, Nat.zero_mul, Nat.zero_add]

theorem bitsValue_zeros (w : Nat) : bitsValue (List.replicate w false) = 0 := by
  unfold bitsValue
  induction w with
  | zero => rfl
  | succ w ih => exact ih

/-- The value of a signal as its lines show it. -/
def TraceSignal.shown (s : TraceSignal) : Nat := s.lastValue.toNat % 2 ^ s.width.bits

theorem changeLine_event (s : TraceSignal) : s.changeLine.event = some (.set s.id s.shown) := by
  unfold TraceSignal.changeLine TraceSignal.shown
  split
  · rename_i h
    rw [h]
    show some (Event.set s.id (s.lastValue.toNat.testBit 0).toNat) = _
    rw [Nat.toNat_testBit, Nat.pow_zero, Nat.div_one, Nat.pow_one]
  · show some (Event.set s.id (bitsValue _)) = _
    rw [bitsValue_testBit]

theorem zeroLine_event (s : TraceSignal) : s.zeroLine.event = some (.set s.id 0) := by
  unfold TraceSignal.zeroLine
  split
  · rfl
  · show some (Event.set s.id (bitsValue _)) = _
    rw [bitsValue_zeros]

theorem vcdEvents_append (l l' : List VcdLine) : vcdEvents (l ++ l') = vcdEvents l ++ vcdEvents l' := List.filterMap_append

theorem vcdEvents_time (c : Nat) : vcdEvents [.time c] = [.time c] := rfl

/-- The changes that are written at once. -/
def changes (l : List TraceSignal) : List VcdLine := (l.filter (·.dirty)).map TraceSignal.changeLine

theorem changes_snoc (l : List TraceSignal) (s : TraceSignal) :
    changes (l ++ [s]) = changes l ++ if s.dirty then [s.changeLine] else [] := by
  unfold changes
  rw [List.filter_append, List.map_append, List.filter_singleton]
  cases s.dirty <;> rfl

theorem times_changes (l : List TraceSignal) : times (vcdEvents (changes l)) = [] := by
  induction l with
  | nil => rfl
  | cons s l ih =>
    unfold changes at ih ⊢
    rw [List.filter_cons]
    split
    · unfold vcdEvents at ih ⊢
      rw [List.map_cons, List.filterMap_cons_some (changeLine_event s)]
      exact ih
    · exact ih

/-- Dirty signals get their last values, the others keep what they have. -/
theorem final_changes {l : List TraceSignal} (hids : (l.map TraceSignal.id).Nodup) {s : TraceSignal} (hs : s ∈ l)
    (f : String → Nat) : final f (vcdEvents (changes l)) s.id = if s.dirty then s.shown else f s.id := by
  induction l generalizing f with
  | nil => exact absurd hs List.not_mem_nil
  | cons a l ih =>
    rw [List.map_cons, List.nodup_cons] at hids
    have hother : ∀ v, .set a.id v ∉ vcdEvents (changes l) := by
      intro v hv
      unfold vcdEvents changes at hv
      obtain ⟨line, hline, hevent⟩ := List.mem_filterMap.1 hv
      obtain ⟨b, hb, rfl⟩ := List.mem_map.1 hline
      rw [changeLine_event, Option.some.injEq, Event.set.injEq] at hevent
      exact hids.1 (hevent.1 ▸ List.mem_map_of_mem (List.mem_filter.1 hb).1)
    have hcons : final f (vcdEvents (changes (a :: l))) =
        final (if a.dirty then Function.update f a.id a.shown else f) (vcdEvents (changes l)) := by
      unfold changes
      rw [List.filter_cons]
      split
      · unfold vcdEvents
        rw [List.map_cons, List.filterMap_cons_some (changeLine_event a)]
        rfl
      · rfl
    rw [hcons]
    rcases List.mem_cons.1 hs with rfl | hs
    · rw [final_of_not_set hother]
      split
      · exact Function.update_self _ _ _
      · rfl
    · rw [ih hids.2 hs]
      have hne : s.id ≠ a.id := fun heq => hids.1 (heq ▸ List.mem_map_of_mem hs)
      congr 1
      split
      · exact Function.update_of_ne hne _ _
      · rfl

/-! ### Flushing -/

def TraceSignal.clean (s : TraceSignal) : TraceSignal := { s with dirty := false }

theorem flushChanges_eq (t : TuEventTrace) :
    flushChanges t = { t with
      file := t.file ++ changes t.signals
      signals := t.signals.map TraceSignal.clean } := by
  have hrun : ∀ k ≤ t.signals.length, (List.range k).foldl writeSignalChange t = { t with
      file := t.file ++ changes (t.signals.take k)
      signals := (t.signals.take k).map TraceSignal.clean ++ t.signals.drop k } := by
    intro k hk
    induction k with
    | zero => simp [changes]
    | succ k ih =>
      have hlt : k < t.signals.length := hk
      rw [List.range_succ, List.foldl_append, ih (by omega), List.foldl_cons, List.foldl_nil]
      have hget : ((t.signals.take k).map TraceSignal.clean ++ t.signals.drop k)[k]? =
          some t.signals[k] := by
        rw [List.getElem?_append_right (by simp), List.length_map, List.length_take, Nat.min_eq_left hlt.le, Nat.sub_self,
          List.getElem?_drop, Nat.add_zero]
        exact List.getElem?_eq_getElem hlt
      have htake : t.signals.take (k + 1) = t.signals.take k ++ [t.signals[k]] := List.take_succ_eq_append_getElem hlt
      have hdrop : t.signals.drop k = t.signals[k] :: t.signals.drop (k + 1) := List.drop_eq_getElem_cons hlt
      unfold writeSignalChange
      dsimp only
      rw [hget]
      dsimp only
      rw [htake, List.map_append, List.map_singleton, changes_snoc]
      by_cases hdirty : t.signals[k].dirty = true
      · rw [hdirty, Bool.not_true, if_neg Bool.false_ne_true, if_pos rfl, List.set_append_right _ _ (by simp), List.length_map, List.length_take,
          Nat.min_eq_left hlt.le, Nat.sub_self, hdrop, List.set_cons_zero, List.append_assoc, List.append_assoc]
        rfl
      · rw [Bool.eq_false_iff.2 hdirty, Bool.not_false, if_pos rfl, hdrop]
        have hclean : t.signals[k].clean = t.signals[k] := by
          unfold TraceSignal.clean
          rw [← Bool.eq_false_iff.2 hdirty]
        rw [hclean, if_neg Bool.false_ne_true, List.append_nil, List.append_assoc]
        rfl
  unfold flushChanges
  rw [hrun _ (Nat.le_refl _), List.take_length, List.drop_length, List.append_nil]

/-! ### The invariant -/

/-- Before the first call nothing is set. -/
def zeros {K V : Type} [Zero V] : K → V := fun _ => 0

/-- The file of the trace `t` follows the calls `p`. -/
structure Follows (decls : List (String × TuTraceSignalWidth)) (p : List TraceCall) (t : TuEventTrace) : Prop where
  decls : t.signals.map (fun s => (s.id, s.width)) = decls
  last : ∀ (i : Nat) (s : TraceSignal), t.signals[i]? = some s → s.lastValue = final zeros (timeline 0 p) i
  cycle : t.currentCycle = clock p
  closed : t.headerWritten = false → t.file = [] ∧ clock p = 0
  sorted : (times (vcdEvents t.file)).Pairwise (· ≤ ·)
  times_le : ∀ s ∈ times (vcdEvents t.file), s ≤ clock p
  clock_mem : 0 < clock p → clock p ∈ times (vcdEvents t.file)
  past : ∀ time < clock p, ∀ (i : Nat) (s : TraceSignal), t.signals[i]? = some s →
    valueAt time zeros (vcdEvents t.file) s.id = (valueAt time zeros (timeline 0 p) i).toNat % 2 ^ s.width.bits
  now : ∀ (i : Nat) (s : TraceSignal), t.signals[i]? = some s → s.dirty = false →
    final zeros (vcdEvents t.file) s.id = s.shown

namespace Follows

variable {decls : List (String × TuTraceSignalWidth)} {p : List TraceCall} {t : TuEventTrace}

/-- A signal keeps its identifier and width. -/
theorem signal_of_decls (h : Follows decls p t) {signals : List TraceSignal}
    (hdecls : signals.map (fun s => (s.id, s.width)) = decls) {i : Nat} {s : TraceSignal} (hs : signals[i]? = some s) :
    ∃ s', t.signals[i]? = some s' ∧ s'.id = s.id ∧ s'.width = s.width := by
  have hmap : (t.signals.map fun s => (s.id, s.width))[i]? = some (s.id, s.width) := by
    rw [h.decls, ← hdecls, List.getElem?_map, hs]
    rfl
  rw [List.getElem?_map] at hmap
  obtain ⟨s', hs', heq⟩ := Option.map_eq_some_iff.1 hmap
  exact ⟨s', hs', congrArg Prod.fst heq, congrArg Prod.snd heq⟩

/-- What the file and the calls say about a past time stays. -/
theorem past_append (h : Follows decls p t) {signals : List TraceSignal}
    (hdecls : signals.map (fun s => (s.id, s.width)) = decls) (lines : List VcdLine) (q : List TraceCall) {time : Nat}
    (htime : time < clock p) {i : Nat} {s : TraceSignal} (hs : signals[i]? = some s) :
    valueAt time zeros (vcdEvents (t.file ++ lines)) s.id =
      (valueAt time zeros (timeline 0 (p ++ q)) i).toNat % 2 ^ s.width.bits := by
  obtain ⟨s', hs', hid, hwidth⟩ := h.signal_of_decls hdecls hs
  have hlater : clock p ∈ times (timeline 0 p) := by
    have hmem := @clock_mem_timeline 0 p (by omega)
    rwa [Nat.zero_add] at hmem
  rw [vcdEvents_append, valueAt_append_of_lt ⟨_, h.clock_mem (by omega), htime⟩, timeline_append,
    valueAt_append_of_lt ⟨_, hlater, htime⟩, ← hid, ← hwidth]
  exact h.past time htime i s' hs'

theorem times_timeline_le (p : List TraceCall) : ∀ s ∈ times (timeline 0 p), s ≤ clock p := by
  intro s hs
  have hle := le_of_mem_timeline hs
  omega

/-- After a flush the file shows every signal. -/
theorem flush (h : Follows decls p t) (hids : (decls.map Prod.fst).Nodup) {i : Nat} {s : TraceSignal}
    (hs : t.signals[i]? = some s) :
    final zeros (vcdEvents (t.file ++ changes t.signals)) s.id = (final zeros (timeline 0 p) i).toNat % 2 ^ s.width.bits := by
  have hids' : (t.signals.map TraceSignal.id).Nodup := by
    rw [← h.decls, List.map_map] at hids
    exact hids
  rw [vcdEvents_append, final_append, final_changes hids' (List.mem_of_getElem? hs), ← h.last i s hs]
  split
  · rfl
  · rename_i hdirty
    exact h.now i s hs (Bool.eq_false_iff.2 hdirty)

theorem signal (h : Follows decls p t) (i : Int) (v : UInt64) : Follows decls (p ++ [.signal i v]) (traceStep t (.signal i v)) := by
  have hclock : clock (p ++ [.signal i v]) = clock p := by
    rw [clock_append]
    rfl
  have htimeline : timeline 0 (p ++ [.signal i v]) = timeline 0 p ++ if i < 0 then [] else [.set i.toNat v] := by
    rw [timeline_append, timeline_signal]
    exact congrArg _ (List.append_nil _)
  -- only the values of the signals change
  have hkeep : ∀ signals : List TraceSignal, signals.map (fun s => (s.id, s.width)) = decls →
      (∀ (j : Nat) (s : TraceSignal), signals[j]? = some s →
        s.lastValue = final zeros (timeline 0 (p ++ [.signal i v])) j) →
      (∀ (j : Nat) (s : TraceSignal), signals[j]? = some s → s.dirty = false →
        final zeros (vcdEvents t.file) s.id = s.shown) →
      Follows decls (p ++ [.signal i v]) { t with signals := signals } := by
    intro signals hdecls hlast hnow
    refine { decls := hdecls, last := hlast, cycle := by rw [hclock]; exact h.cycle, closed := ?_, sorted := h.sorted,
             times_le := ?_, clock_mem := ?_, past := ?_, now := hnow }
    · rw [hclock]
      exact h.closed
    · rw [hclock]
      exact h.times_le
    · rw [hclock]
      exact h.clock_mem
    · intro time htime j s hs
      rw [hclock] at htime
      have hpast := h.past_append hdecls [] [.signal i v] htime hs
      rwa [List.append_nil] at hpast
  show Follows decls _ (tuTraceSignal t i v)
  unfold tuTraceSignal
  by_cases hneg : i < 0
  · rw [if_pos hneg]
    rw [if_pos hneg, List.append_nil] at htimeline
    exact hkeep t.signals h.decls (fun j s hs => by rw [htimeline]; exact h.last j s hs) h.now
  · rw [if_neg hneg]
    rw [if_neg hneg] at htimeline
    have hfinal : ∀ j, final zeros (timeline 0 (p ++ [.signal i v])) j =
        if j = i.toNat then v else final zeros (timeline 0 p) j := by
      intro j
      rw [htimeline, final_append]
      exact Function.update_apply _ _ _ _
    cases hget : t.signals[i.toNat]? with
    | none =>
      dsimp only
      apply hkeep t.signals h.decls _ h.now
      intro j s hs
      have hne : j ≠ i.toNat := by
        rintro rfl
        rw [hget] at hs
        cases hs
      rw [hfinal, if_neg hne]
      exact h.last j s hs
    | some s =>
      dsimp only
      have hlt := (List.getElem?_eq_some_iff.1 hget).1
      by_cases hsame : s.lastValue = v
      · rw [if_neg (fun hne => hne hsame)]
        apply hkeep t.signals h.decls _ h.now
        intro j s' hs'
        rw [hfinal]
        split
        · rename_i heq
          rw [heq, hget, Option.some.injEq] at hs'
          rw [← hs', hsame]
        · exact h.last j s' hs'
      · rw [if_pos hsame]
        apply hkeep
        · rw [List.map_set, ← h.decls]
          apply List.ext_getElem?
          intro j
          by_cases hj : i.toNat = j
          · rw [← hj, List.getElem?_set_self (by rwa [List.length_map]), List.getElem?_map, hget]
            rfl
          · rw [List.getElem?_set_ne hj]
        · intro j s' hs'
          rw [hfinal]
          split
          · rename_i heq
            rw [heq, List.getElem?_set_self hlt, Option.some.injEq] at hs'
            rw [← hs']
          · rename_i hne
            rw [List.getElem?_set_ne (Ne.symm hne)] at hs'
            exact h.last j s' hs'
        · intro j s' hs' hdirty
          by_cases heq : j = i.toNat
          · rw [heq, List.getElem?_set_self hlt, Option.some.injEq] at hs'
            rw [← hs'] at hdirty
            cases hdirty
          · rw [List.getElem?_set_ne (Ne.symm heq)] at hs'
            exact h.now j s' hs' hdirty

/-- The first tick writes the header; it must not advance the time. -/
theorem header (h : Follows decls p t) (hopen : t.headerWritten = false) :
    Follows decls (p ++ [.tick 0]) (traceStep t (.tick 0)) := by
  obtain ⟨hfile, hzero⟩ := h.closed hopen
  have hclock : clock (p ++ [.tick 0]) = clock p := clock_tick p 0
  have hvars : ∀ l : List TraceSignal, vcdEvents (l.map fun s =>
      .var (if s.width.bits = 1 then "wire" else "reg") s.width.bits s.id s.name) = [] := by
    intro l
    induction l with
    | nil => rfl
    | cons s l ih => exact ih
  have hzeros : ∀ l : List TraceSignal, vcdEvents (l.map TraceSignal.zeroLine) = l.map fun s => .set s.id 0 := by
    intro l
    induction l with
    | nil => rfl
    | cons s l ih =>
      rw [List.map_cons, List.map_cons, ← ih]
      exact List.filterMap_cons_some (zeroLine_event s)
  have hevents : vcdEvents (traceStep t (.tick 0)).file = (t.signals.map fun s => .set s.id 0) ++ [.time 0] := by
    show vcdEvents (tuTraceTick t 0).file = _
    unfold tuTraceTick writeVcdHeader
    rw [hopen, Bool.not_false, if_pos rfl, if_neg Bool.false_ne_true, hfile, List.nil_append]
    dsimp only
    rw [vcdEvents_append, vcdEvents_append, hvars, hzeros, List.nil_append, vcdEvents_time]
  have hsignals : (traceStep t (.tick 0)).signals = t.signals ∧ (traceStep t (.tick 0)).currentCycle = t.currentCycle ∧
      (traceStep t (.tick 0)).headerWritten = true := by
    show (tuTraceTick t 0).signals = _ ∧ (tuTraceTick t 0).currentCycle = _ ∧ (tuTraceTick t 0).headerWritten = _
    unfold tuTraceTick writeVcdHeader
    rw [hopen, Bool.not_false, if_pos rfl, if_neg Bool.false_ne_true]
    exact ⟨rfl, rfl, rfl⟩
  have htimes : times ((t.signals.map fun s => Event.set s.id 0) ++ [.time 0]) = [0] := by
    rw [times_append]
    have hnone : ∀ l : List TraceSignal, times (l.map fun s => Event.set s.id 0) = [] := by
      intro l
      induction l with
      | nil => rfl
      | cons s l ih => exact ih
    rw [hnone]
    rfl
  have hshown : ∀ (l : List TraceSignal) (id : String), final zeros (l.map fun s => Event.set s.id 0) id = 0 := by
    intro l id
    have hfrom : ∀ f : String → Nat, f id = 0 → final f (l.map fun s => Event.set s.id 0) id = 0 := by
      induction l with
      | nil => exact fun f hf => hf
      | cons s l ih =>
        intro f hf
        apply ih
        show Function.update f s.id 0 id = 0
        rw [Function.update_apply]
        split
        · rfl
        · exact hf
    exact hfrom zeros rfl
  obtain ⟨hsig, hcycle, hwritten⟩ := hsignals
  refine { decls := ?_, last := ?_, cycle := ?_, closed := ?_, sorted := ?_, times_le := ?_, clock_mem := ?_, past := ?_,
           now := ?_ }
  · rw [hsig]
    exact h.decls
  · intro i s hs
    rw [hsig] at hs
    rw [final_timeline_tick]
    exact h.last i s hs
  · rw [hcycle, hclock]
    exact h.cycle
  · rw [hwritten]
    exact fun hcontra => absurd hcontra (by decide)
  · rw [hevents, htimes]
    exact List.pairwise_singleton _ _
  · rw [hevents, htimes]
    intro s hs
    rw [List.mem_singleton.1 hs]
    exact Nat.zero_le _
  · rw [hclock, hzero]
    exact fun hcontra => absurd hcontra (Nat.lt_irrefl 0)
  · rw [hclock, hzero]
    exact fun time htime => absurd htime (Nat.not_lt_zero time)
  · intro i s hs hdirty
    rw [hsig] at hs
    have hold := h.now i s hs hdirty
    rw [hfile] at hold
    rw [hevents, final_append]
    show final zeros (t.signals.map fun s => Event.set s.id 0) s.id = s.shown
    rw [hshown, ← hold]
    rfl

/-- A tick that has nothing to do. -/
theorem idle (h : Follows decls p t) : Follows decls (p ++ [.tick 0]) t := by
  have hclock : clock (p ++ [.tick 0]) = clock p := clock_tick p 0
  refine { decls := h.decls, last := ?_, cycle := ?_, closed := ?_, sorted := h.sorted, times_le := ?_, clock_mem := ?_,
           past := ?_, now := h.now }
  · rw [final_timeline_tick]
    exact h.last
  · rw [hclock]
    exact h.cycle
  · rw [hclock]
    exact h.closed
  · rw [hclock]
    exact h.times_le
  · rw [hclock]
    exact h.clock_mem
  · intro time htime i s hs
    rw [hclock] at htime
    have hpast := h.past_append h.decls [] [.tick 0] htime hs
    rwa [List.append_nil] at hpast

/-- What changed and the new time, if it advances, are written. -/
theorem flushed (h : Follows decls p t) (hids : (decls.map Prod.fst).Nodup) (hopen : t.headerWritten = true) (c : UInt64)
    {marks : List Nat} (hmarks : 0 < c.toNat ∧ marks = [clock p + c.toNat] ∨ c.toNat = 0 ∧ marks = []) :
    Follows decls (p ++ [.tick c]) { t with
      currentCycle := clock p + c.toNat
      file := t.file ++ (changes t.signals ++ marks.map VcdLine.time)
      signals := t.signals.map TraceSignal.clean } := by
  have hclock := clock_tick p c
  have htimeline := timeline_snoc_tick p c
  have hfinal : final zeros (timeline 0 (p ++ [.tick c])) = final zeros (timeline 0 p) := final_timeline_tick p c zeros
  have hdecls : (t.signals.map TraceSignal.clean).map (fun s : TraceSignal => (s.id, s.width)) = decls := by
    rw [List.map_map, ← h.decls]
    rfl
  have hclean : ∀ (i : Nat) (s : TraceSignal), (t.signals.map TraceSignal.clean)[i]? = some s →
      ∃ s', t.signals[i]? = some s' ∧ s = s'.clean := by
    intro i s hs
    rw [List.getElem?_map] at hs
    obtain ⟨s', hs', heq⟩ := Option.map_eq_some_iff.1 hs
    exact ⟨s', hs', heq.symm⟩
  have hmarksEvents : vcdEvents (marks.map VcdLine.time) = marks.map Event.time := by
    rcases hmarks with ⟨-, rfl⟩ | ⟨-, rfl⟩ <;> rfl
  have hmarksTimes : times (marks.map (Event.time : Nat → Event String Nat)) = marks := by
    rcases hmarks with ⟨-, rfl⟩ | ⟨-, rfl⟩ <;> rfl
  have hevents : vcdEvents (t.file ++ (changes t.signals ++ marks.map VcdLine.time)) =
      vcdEvents (t.file ++ changes t.signals) ++ marks.map Event.time := by
    rw [← List.append_assoc, vcdEvents_append, hmarksEvents]
  have htimes : times (vcdEvents (t.file ++ changes t.signals)) = times (vcdEvents t.file) := by
    rw [vcdEvents_append, times_append, times_changes, List.append_nil]
  have hfinalFile : final zeros (vcdEvents (t.file ++ (changes t.signals ++ marks.map VcdLine.time))) =
      final zeros (vcdEvents (t.file ++ changes t.signals)) := by
    rw [hevents, final_append]
    rcases hmarks with ⟨-, rfl⟩ | ⟨-, rfl⟩ <;> rfl
  refine { decls := hdecls, last := ?_, cycle := hclock.symm, closed := ?_, sorted := ?_, times_le := ?_, clock_mem := ?_,
           past := ?_, now := ?_ }
  · intro i s hs
    obtain ⟨s', hs', rfl⟩ := hclean i s hs
    rw [hfinal]
    exact h.last i s' hs'
  · intro hcontra
    have hcontra : t.headerWritten = false := hcontra
    rw [hopen] at hcontra
    cases hcontra
  · dsimp only
    rw [hevents, times_append, htimes, hmarksTimes]
    rcases hmarks with ⟨-, rfl⟩ | ⟨-, rfl⟩
    · rw [List.pairwise_append]
      refine ⟨h.sorted, List.pairwise_singleton _ _, ?_⟩
      intro a ha b hb
      rw [List.mem_singleton.1 hb]
      exact (h.times_le a ha).trans (Nat.le_add_right _ _)
    · rw [List.append_nil]
      exact h.sorted
  · dsimp only
    rw [hevents, times_append, htimes, hmarksTimes, hclock]
    intro s hs
    rcases List.mem_append.1 hs with hs | hs
    · exact (h.times_le s hs).trans (Nat.le_add_right _ _)
    · rcases hmarks with ⟨-, rfl⟩ | ⟨-, rfl⟩
      · exact (List.mem_singleton.1 hs).le
      · exact absurd hs List.not_mem_nil
  · dsimp only
    rw [hevents, times_append, htimes, hmarksTimes, hclock]
    intro hpos
    rw [List.mem_append]
    rcases hmarks with ⟨-, rfl⟩ | ⟨hc, rfl⟩
    · exact Or.inr List.mem_cons_self
    · rw [hc, Nat.add_zero] at hpos ⊢
      exact Or.inl (h.clock_mem hpos)
  · intro time htime i s hs
    rcases Nat.lt_or_ge time (clock p) with hlt | hge
    · exact h.past_append hdecls _ [.tick c] hlt hs
    · obtain ⟨s', hs', rfl⟩ := hclean i s hs
      rw [hclock] at htime
      rcases hmarks with ⟨-, rfl⟩ | ⟨hc, rfl⟩
      · have hflush := h.flush hids hs'
        have hle : ∀ a ∈ times (vcdEvents (t.file ++ changes t.signals)), a ≤ time := by
          rw [htimes]
          exact fun a ha => (h.times_le a ha).trans hge
        dsimp only
        rw [hevents, valueAt_append_of_le hle, htimeline,
          valueAt_append_of_le (fun a ha => (times_timeline_le p a ha).trans hge)]
        show (if clock p + c.toNat ≤ time then _ else final zeros (vcdEvents (t.file ++ changes t.signals))) s'.id =
          ((if clock p + c.toNat ≤ time then _ else final zeros (timeline 0 p)) i).toNat % _
        rw [if_neg (by omega), if_neg (by omega)]
        exact hflush
      · omega
  · intro i s hs _
    obtain ⟨s', hs', rfl⟩ := hclean i s hs
    have hflush := h.flush hids hs'
    rw [← h.last i s' hs'] at hflush
    dsimp only
    rw [hfinalFile]
    exact hflush

/-- A later tick writes what changed, and the new time. -/
theorem tick (h : Follows decls p t) (hids : (decls.map Prod.fst).Nodup) (hopen : t.headerWritten = true) (c : UInt64)
    (hsum : clock p + c.toNat < 2 ^ 64) : Follows decls (p ++ [.tick c]) (traceStep t (.tick c)) := by
  show Follows decls _ (tuTraceTick t c)
  unfold tuTraceTick
  rw [hopen, Bool.not_true, if_neg Bool.false_ne_true]
  dsimp only
  by_cases hidle : (!t.signals.any (·.dirty)) = true ∧ c = 0
  · rw [if_pos hidle, hidle.2]
    exact h.idle
  · have hcycle : u64 (t.currentCycle + c.toNat) = clock p + c.toNat := by
      rw [h.cycle]
      exact u64_of_lt hsum
    rw [if_neg hidle, flushChanges_eq]
    dsimp only
    by_cases hpos : c > 0
    · have hflushed := h.flushed hids hopen c (Or.inl ⟨UInt64.lt_iff_toNat_lt.1 hpos, rfl⟩)
      rw [if_pos hpos, hcycle, List.append_assoc]
      exact hflushed
    · have hc : c.toNat = 0 := by
        rw [gt_iff_lt, UInt64.lt_iff_toNat_lt] at hpos
        exact Nat.eq_zero_of_not_pos hpos
      have hflushed := h.flushed hids hopen c (Or.inr ⟨hc, rfl⟩)
      rw [hc, Nat.add_zero, ← h.cycle, List.map_nil, List.append_nil] at hflushed
      rw [if_neg hpos]
      exact hflushed

/-- Closing writes what is left, if the header is there. -/
theorem close (h : Follows decls p t) (hids : (decls.map Prod.fst).Nodup)
    (hshown : t.headerWritten = false → ∀ (i : Nat) (s : TraceSignal), t.signals[i]? = some s →
      (final zeros (timeline 0 p) i).toNat % 2 ^ s.width.bits = 0) :
    (times (vcdEvents (tuTraceClose t))).Pairwise (· ≤ ·) ∧
      ∀ (time i : Nat) (s : TraceSignal), t.signals[i]? = some s →
        valueAt time zeros (vcdEvents (tuTraceClose t)) s.id =
          (valueAt time zeros (timeline 0 p) i).toNat % 2 ^ s.width.bits := by
  by_cases hopen : t.headerWritten = true
  · have hclose : tuTraceClose t = t.file ++ (changes t.signals ++ [.time (clock p)]) := by
      unfold tuTraceClose
      dsimp only
      rw [hopen, Bool.and_true]
      split
      · rw [flushChanges_eq]
        dsimp only
        rw [if_pos hopen, List.append_assoc, h.cycle]
      · rename_i hclean
        have hnone : changes t.signals = [] := by
          unfold changes
          rw [List.map_eq_nil_iff, List.filter_eq_nil_iff]
          intro s hs hdirty
          exact hclean (List.any_eq_true.2 ⟨s, hs, hdirty⟩)
        rw [hnone, List.nil_append, h.cycle]
    have hevents : vcdEvents (tuTraceClose t) = vcdEvents (t.file ++ changes t.signals) ++ [.time (clock p)] := by
      rw [hclose, ← List.append_assoc, vcdEvents_append, vcdEvents_time]
    have htimes : times (vcdEvents (t.file ++ changes t.signals)) = times (vcdEvents t.file) := by
      rw [vcdEvents_append, times_append, times_changes, List.append_nil]
    constructor
    · rw [hevents, times_append, htimes, List.pairwise_append]
      refine ⟨h.sorted, List.pairwise_singleton _ _, ?_⟩
      intro a ha b hb
      rw [List.mem_singleton.1 hb]
      exact h.times_le a ha
    · intro time i s hs
      rcases Nat.lt_or_ge time (clock p) with hlt | hge
      · have hpast := h.past_append h.decls (changes t.signals ++ [.time (clock p)]) [] hlt hs
        rw [List.append_nil] at hpast
        rw [hclose]
        exact hpast
      · have hle : ∀ a ∈ times (vcdEvents (t.file ++ changes t.signals) ++ [.time (clock p)]), a ≤ time := by
          intro a ha
          rw [times_append, htimes] at ha
          rcases List.mem_append.1 ha with ha | ha
          · exact (h.times_le a ha).trans hge
          · rwa [List.mem_singleton.1 ha]
        rw [hevents, valueAt_of_le hle, valueAt_of_le fun a ha => (times_timeline_le p a ha).trans hge, final_append]
        exact h.flush hids hs
  · -- no tick: nothing is written
    have hopen : t.headerWritten = false := Bool.eq_false_iff.2 hopen
    obtain ⟨hfile, hzero⟩ := h.closed hopen
    have hclose : tuTraceClose t = [] := by
      unfold tuTraceClose
      dsimp only
      rw [hopen, Bool.and_false, if_neg Bool.false_ne_true, hopen, if_neg Bool.false_ne_true]
      exact hfile
    rw [hclose]
    refine ⟨List.Pairwise.nil, ?_⟩
    intro time i s hs
    rw [valueAt_of_le fun a ha => (times_timeline_le p a ha).trans (by omega), hshown hopen i s hs]
    rfl

end Follows

/-! ### Whole files -/

def TraceCall.isTick : TraceCall → Bool
  | .signal _ _ => false
  | .tick _ => true

/-- The file that the calls and a close leave replays the calls: its timestamps do not decrease, and at every time it
gives every signal the value that was set last before the time was left. -/
def Replays (t : TuEventTrace) (calls : List TraceCall) : Prop :=
  (times (vcdEvents (tuTraceClose (calls.foldl traceStep t)))).Pairwise (· ≤ ·) ∧
    ∀ (time i : Nat) (s : TraceSignal), t.signals[i]? = some s →
      valueAt time zeros (vcdEvents (tuTraceClose (calls.foldl traceStep t))) s.id =
        (valueAt time zeros (timeline 0 calls) i).toNat % 2 ^ s.width.bits

/-- The first tick has length zero; without a tick every signal ends as zero. -/
def StillStart (t : TuEventTrace) (calls : List TraceCall) : Prop :=
  match calls.find? TraceCall.isTick with
  | some call => call = .tick 0
  | none => ∀ (i : Nat) (s : TraceSignal), t.signals[i]? = some s →
      (final zeros (timeline 0 calls) i).toNat % 2 ^ s.width.bits = 0

/-- Registered signals have not been set, and nothing has been written. -/
theorem registerSignals_spec (maxSignals : UInt32) (specs : List (String × String × TuTraceSignalWidth)) :
    (registerSignals maxSignals specs).file = [] ∧ (registerSignals maxSignals specs).currentCycle = 0 ∧
      (registerSignals maxSignals specs).headerWritten = false ∧
      (∀ s ∈ (registerSignals maxSignals specs).signals, s.lastValue = 0) ∧
      ((registerSignals maxSignals specs).signals.map TraceSignal.id).Sublist (specs.map Prod.fst) := by
  induction specs using List.reverseRecOn with
  | nil => exact ⟨rfl, rfl, rfl, fun s hs => absurd hs List.not_mem_nil, List.Sublist.slnil⟩
  | append_singleton specs spec ih =>
    obtain ⟨hfile, hcycle, hopen, hlast, hids⟩ := ih
    have hadd : registerSignals maxSignals (specs ++ [spec]) =
        tuTraceAddSignal (registerSignals maxSignals specs) spec.1 spec.2.1 spec.2.2 := List.foldl_append
    rw [hadd]
    unfold tuTraceAddSignal
    split
    · refine ⟨hfile, hcycle, hopen, hlast, hids.trans ?_⟩
      rw [List.map_append]
      exact List.sublist_append_left _ _
    · refine ⟨hfile, hcycle, hopen, ?_, ?_⟩
      · intro s hs
        rcases List.mem_append.1 hs with hs | hs
        · exact hlast s hs
        · rw [List.mem_singleton.1 hs]
      · rw [List.map_append, List.map_append]
        exact hids.append (List.Sublist.refl _)

/-- The invariant of a run whose first tick has length zero. -/
theorem follows_run {maxSignals : UInt32} {specs : List (String × String × TuTraceSignalWidth)}
    (hids : (specs.map Prod.fst).Nodup) {calls : List TraceCall}
    (hstill : ∀ call, calls.find? TraceCall.isTick = some call → call = .tick 0) (hsum : clock calls < 2 ^ 64) :
    let t := registerSignals maxSignals specs
    Follows (t.signals.map fun s => (s.id, s.width)) calls (calls.foldl traceStep t) ∧
      ((calls.foldl traceStep t).headerWritten = true ↔ (calls.find? TraceCall.isTick).isSome) := by
  intro t
  obtain ⟨hfile, hcycle, hopen, hlast, hsub⟩ := registerSignals_spec maxSignals specs
  have hids' : ((t.signals.map fun s => (s.id, s.width)).map Prod.fst).Nodup := by
    rw [List.map_map]
    exact hids.sublist hsub
  induction calls using List.reverseRecOn with
  | nil =>
    refine ⟨?_, ?_⟩
    · refine { decls := rfl, last := ?_, cycle := hcycle, closed := fun _ => ⟨hfile, rfl⟩, sorted := ?_, times_le := ?_,
               clock_mem := ?_, past := ?_, now := ?_ }
      · exact fun i s hs => hlast s (List.mem_of_getElem? hs)
      · show (times (vcdEvents t.file)).Pairwise _
        rw [hfile]
        exact List.Pairwise.nil
      · show ∀ s ∈ times (vcdEvents t.file), _
        rw [hfile]
        exact fun s hs => absurd hs List.not_mem_nil
      · exact fun h => absurd h (Nat.lt_irrefl 0)
      · exact fun time h => absurd h (Nat.not_lt_zero time)
      · intro i s hs _
        show final zeros (vcdEvents t.file) s.id = s.shown
        rw [hfile]
        unfold TraceSignal.shown
        rw [hlast s (List.mem_of_getElem? hs)]
        exact (Nat.zero_mod _).symm
    · show t.headerWritten = true ↔ _
      rw [hopen]
      simp
  | append_singleton calls call ih =>
    rw [clock_append] at hsum
    have hstill' : ∀ c, calls.find? TraceCall.isTick = some c → c = .tick 0 := by
      intro c hc
      apply hstill
      rw [List.find?_append, hc]
      rfl
    obtain ⟨hfollows, hheader⟩ := ih hstill' (by omega)
    rw [List.foldl_append, List.foldl_cons, List.foldl_nil]
    cases call with
    | signal i v =>
      refine ⟨hfollows.signal i v, ?_⟩
      have hsame : (traceStep (calls.foldl traceStep t) (.signal i v)).headerWritten =
          (calls.foldl traceStep t).headerWritten := by
        show (tuTraceSignal _ i v).headerWritten = _
        unfold tuTraceSignal
        split
        · rfl
        · split
          · rfl
          · split <;> rfl
      rw [hsame, hheader, List.find?_append]
      simp [TraceCall.isTick]
    | tick c =>
      have hwritten : ((calls ++ [TraceCall.tick c]).find? TraceCall.isTick).isSome = true := by
        rw [List.find?_append]
        simp [TraceCall.isTick]
      by_cases hopen' : (calls.foldl traceStep t).headerWritten = true
      · have hlen : clock [TraceCall.tick c] = c.toNat := Nat.add_zero _
        refine ⟨hfollows.tick hids' hopen' c (by omega), iff_of_true ?_ hwritten⟩
        have hsame : (traceStep (calls.foldl traceStep t) (.tick c)).headerWritten =
            (calls.foldl traceStep t).headerWritten := by
          show (tuTraceTick _ c).headerWritten = _
          unfold tuTraceTick
          rw [hopen', Bool.not_true, if_neg Bool.false_ne_true, flushChanges_eq]
          dsimp only
          split
          · exact hopen'
          · split <;> exact hopen'
        rw [hsame]
        exact hopen'
      · -- the first tick
        have hnone : calls.find? TraceCall.isTick = none := by
          rw [← Option.not_isSome_iff_eq_none, ← hheader]
          exact hopen'
        have hc : TraceCall.tick c = .tick 0 := by
          apply hstill
          rw [List.find?_append, hnone]
          rfl
        rw [hc] at hwritten ⊢
        have hopen'' : (calls.foldl traceStep t).headerWritten = false := Bool.eq_false_iff.2 hopen'
        refine ⟨hfollows.header hopen'', iff_of_true ?_ hwritten⟩
        show (tuTraceTick _ 0).headerWritten = true
        unfold tuTraceTick writeVcdHeader
        rw [hopen'', Bool.not_false, if_pos rfl, if_neg Bool.false_ne_true]

/-- A file replays its calls if the first tick has length zero, or if without a tick every signal ends as zero, and if the
time has 64 bits. -/
theorem replay_of_still (maxSignals : UInt32) (specs : List (String × String × TuTraceSignalWidth))
    (hids : (specs.map Prod.fst).Nodup) (calls : List TraceCall) (hstill : StillStart (registerSignals maxSignals specs) calls)
    (hsum : clock calls < 2 ^ 64) : Replays (registerSignals maxSignals specs) calls := by
  let t := registerSignals maxSignals specs
  have hfirst : ∀ call, calls.find? TraceCall.isTick = some call → call = .tick 0 := by
    intro call hcall
    unfold StillStart at hstill
    rw [hcall] at hstill
    exact hstill
  obtain ⟨hfollows, hheader⟩ := @follows_run maxSignals _ hids _ hfirst hsum
  have hids' : ((t.signals.map fun s => (s.id, s.width)).map Prod.fst).Nodup := by
    rw [List.map_map]
    exact hids.sublist (registerSignals_spec maxSignals specs).2.2.2.2
  have hmoved : ∀ {i : Nat} {s : TraceSignal}, (calls.foldl traceStep t).signals[i]? = some s →
      ∃ s', t.signals[i]? = some s' ∧ s'.id = s.id ∧ s'.width = s.width := by
    intro i s hs
    have hmap : (t.signals.map fun s => (s.id, s.width))[i]? = some (s.id, s.width) := by
      rw [← hfollows.decls, List.getElem?_map, hs]
      rfl
    rw [List.getElem?_map] at hmap
    obtain ⟨s', hs', heq⟩ := Option.map_eq_some_iff.1 hmap
    exact ⟨s', hs', congrArg Prod.fst heq, congrArg Prod.snd heq⟩
  obtain ⟨hsorted, hvalues⟩ := hfollows.close hids' (by
    intro hopen i s hs
    obtain ⟨s', hs', -, hwidth⟩ := hmoved hs
    have hnone : calls.find? TraceCall.isTick = none := by
      rw [← Option.not_isSome_iff_eq_none, ← hheader, hopen]
      decide
    unfold StillStart at hstill
    rw [hnone] at hstill
    rw [← hwidth]
    exact hstill i s' hs')
  refine ⟨hsorted, ?_⟩
  intro time i s hs
  obtain ⟨s', hs', hid, hwidth⟩ := hfollows.signal_of_decls rfl hs
  rw [← hid, ← hwidth]
  exact hvalues time i s' hs'

/-- Two signals, one of which is set before the first tick and between ticks. -/
theorem replay_of_still_two :
    Replays (registerSignals 4 [("!", "TU_CORE.cycle", .sig8Bit), ("#", "TU_CORE.dma", .sig1Bit)])
      [.signal 0 300, .tick 0, .signal 1 1, .tick 5, .signal 0 7] :=
  replay_of_still 4 _ (by decide) _ rfl (by decide)

/-- The first tick has length five: the value set after it is written at time zero. -/
theorem first_tick_lost :
    ¬ Replays (registerSignals 4 [("!", "TU_CORE.cycle", .sig8Bit)]) [.tick 5, .signal 0 7, .tick 1] := by
  intro h
  have hvalue := h.2 0 0 { id := "!", name := "TU_CORE.cycle", width := .sig8Bit } rfl
  revert hvalue
  decide

end Tusim.Perf
