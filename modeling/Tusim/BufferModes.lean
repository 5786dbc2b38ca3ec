import Tusim.Lib.PingPong
import Tusim.Lib.Run
import Tusim.SramAccess

/-!
# A region through its changes of mode

Sequences of `tu_sram_enable_double_buffer`, `tu_sram_disable_double_buffer`, `tu_sram_swap_buffers` and bulk accesses,
compared with `PingPong.Buffers`: two plain arrays with an index, or one.  The counters of a double buffer are left out.

* `Matches` relates a region to its reference, and every operation keeps it (`matches_step`);
* `reads_eq_reference`: the reads of every sequence of operations give what they give on the reference;
* `doubleBuffer_refines` adds what disabling, two swaps and accesses outside the region keep.
-/

namespace Tusim.Sram

open Blocks PingPong

/-- `tu_sram_enable_double_buffer` -/
def enableDoubleBuffer (r : TuCoreRegion) : TuCoreRegion :=
  { r with toTuSramRegion := tuSramEnableDoubleBuffer r.toTuSramRegion }

/-- `tu_sram_swap_buffers` -/
def swapBuffers (r : TuCoreRegion) : TuCoreRegion := { r with toTuSramRegion := tuSramSwapBuffers r.toTuSramRegion }

def tuSramDisableDoubleBuffer (r : TuCoreRegion) : TuCoreRegion :=
  match r.db with
  | none => r
  | some db =>
    { r with
      data := if db.activeIdx = 1 then memcpy r.data 0 db.shadowData r.totalSize.toNat else r.data
      db := none }

/-- An operation on a region; a read comes with what its buffer holds before. -/
inductive BufferOp where
  | enable
  | disable
  | swap
  | read (addr bytes : UInt32) (out : Nat → UInt8)
  | write (addr bytes : UInt32) (data : Nat → UInt8)

/-- The region after an operation, and the buffer of a read. -/
def bufferStep (r : TuCoreRegion) : BufferOp → TuCoreRegion × Option (Nat → UInt8)
  | .enable => (enableDoubleBuffer r, none)
  | .disable => (tuSramDisableDoubleBuffer r, none)
  | .swap => (swapBuffers r, none)
  | .read addr bytes out =>
    let (r, out, _) := tuSramReadBulk r addr.toNat out bytes.toNat
    (r, some out)
  | .write addr bytes data => ((tuSramWriteBulk r addr.toNat data bytes.toNat).1, none)

/-- The same operation on plain arrays; an empty region has no second one. -/
def referenceStep {n : Nat} (b : Buffers UInt8 n) : BufferOp → Buffers UInt8 n × Option (Nat → UInt8)
  | .enable => (if n = 0 then b else b.enable 0, none)
  | .disable => (b.disable, none)
  | .swap => (b.swap, none)
  | .read addr bytes out => (b, some (overlay out (b.read addr.toNat bytes.toNat)))
  | .write addr bytes data => (b.write addr.toNat bytes.toNat data, none)

/-- A double buffer as `double_buffer.c` makes it: enabled, with an index of zero or one. -/
def WellFormed (r : TuCoreRegion) : Prop := ∀ db, r.db = some db → db.enabled = true ∧ db.activeIdx ≤ 1

/-- The arrays of a region. -/
def reference (r : TuCoreRegion) : Buffers UInt8 r.totalSize.toNat :=
  match r.db with
  | none => .single fun i => r.data i
  | some db => .double (fun i => r.data i) (fun i => db.shadowData i) (db.activeIdx = 1)

/-- A region and its reference hold the same bytes. -/
inductive Matches {n : Nat} (r : TuCoreRegion) : Buffers UInt8 n → Prop
  | single {cells : Fin n → UInt8} (hsize : r.totalSize.toNat = n) (hdb : r.db = none)
      (hcells : ∀ i : Fin n, r.data i = cells i) : Matches r (.single cells)
  | double {first second : Fin n → UInt8} {onSecond : Bool} {db : TuDoubleBuffer} (hsize : r.totalSize.toNat = n)
      (hdb : r.db = some db) (henabled : db.enabled = true) (hindex : db.activeIdx = if onSecond then 1 else 0)
      (hfirst : ∀ i : Fin n, r.data i = first i) (hsecond : ∀ i : Fin n, db.shadowData i = second i) :
      Matches r (.double first second onSecond)

variable {n : Nat} {r : TuCoreRegion} {b : Buffers UInt8 n}

theorem matches_reference (h : WellFormed r) : Matches r (reference r) := by
  unfold reference
  split
  · rename_i hdb
    exact .single rfl hdb fun _ => rfl
  · rename_i db hdb
    obtain ⟨henabled, hle⟩ := h db hdb
    refine .double rfl hdb henabled ?_ (fun _ => rfl) fun _ => rfl
    by_cases h1 : db.activeIdx = 1
    · simp [h1]
    · simp [h1]
      omega

theorem Matches.size (h : Matches r b) : r.totalSize.toNat = n := by
  cases h with
  | single hsize _ _ => exact hsize
  | double hsize _ _ _ _ _ => exact hsize

theorem Matches.active (h : Matches r b) (i : Fin n) : sramDataPtr r i = b.active i := by
  unfold sramDataPtr tuSramRawPtr
  cases h with
  | single hsize hdb hcells =>
    rw [hdb]
    exact hcells i
  | double hsize hdb henabled hindex hfirst hsecond =>
    rename_i first second onSecond db
    rw [hdb]
    dsimp only
    cases onSecond with
    | false =>
      rw [hindex, henabled]
      exact hfirst i
    | true =>
      rw [hindex, henabled]
      exact hsecond i

theorem Matches.wellFormed (h : Matches r b) : WellFormed r := by
  cases h with
  | single hsize hdb hcells =>
    intro db hdb'
    cases hdb.symm.trans hdb'
  | double hsize hdb henabled hindex hfirst hsecond =>
    rename_i first second onSecond db
    intro db' hdb'
    cases hdb.symm.trans hdb'
    refine ⟨henabled, ?_⟩
    cases onSecond <;> simp [hindex]

/-! ### One operation -/

theorem matches_enable (h : Matches r b) : Matches (enableDoubleBuffer r) (if n = 0 then b else b.enable 0) := by
  have hsize := h.size
  unfold enableDoubleBuffer tuSramEnableDoubleBuffer
  by_cases h0 : n = 0
  · have hzero : r.totalSize = 0 := UInt32.toNat_inj.1 (by rw [hsize, h0]; rfl)
    rw [if_pos (.inl hzero), if_pos h0]
    exact h
  · have hne : r.totalSize ≠ 0 := by
      intro hzero
      rw [hzero] at hsize
      exact h0 hsize.symm
    rw [if_neg h0]
    cases h with
    | single _ hdb hcells =>
      have hoff : tuSramIsDoubleBuffered r.toTuSramRegion = false := by
        unfold tuSramIsDoubleBuffered
        rw [hdb]
        rfl
      rw [if_neg (by simp [hne, hoff])]
      exact .double hsize rfl rfl rfl hcells fun _ => rfl
    | double _ hdb henabled hindex hfirst hsecond =>
      have hon : tuSramIsDoubleBuffered r.toTuSramRegion = true := by
        unfold tuSramIsDoubleBuffered
        rw [hdb]
        exact henabled
      rw [if_pos (.inr hon)]
      exact .double hsize hdb henabled hindex hfirst hsecond

theorem disable_active (h : WellFormed r) {i : Nat} (hi : i < r.totalSize.toNat) :
    sramDataPtr (tuSramDisableDoubleBuffer r) i = sramDataPtr r i := by
  unfold tuSramDisableDoubleBuffer
  cases hdb : r.db with
  | none => rfl
  | some db =>
    obtain ⟨henabled, hle⟩ := h db hdb
    unfold sramDataPtr tuSramRawPtr
    rw [hdb]
    dsimp only
    by_cases h1 : db.activeIdx = 1
    · simp only [h1, henabled, if_true]
      have hcopied := @memcpy_inside _ r.data db.shadowData 0 _ _ hi
      rw [Nat.zero_add] at hcopied
      exact hcopied
    · have h0 : db.activeIdx = 0 := by omega
      simp [h0, henabled]

theorem tuSramDisableDoubleBuffer_frame (r : TuCoreRegion) :
    (tuSramDisableDoubleBuffer r).db = none ∧ (tuSramDisableDoubleBuffer r).totalSize = r.totalSize := by
  unfold tuSramDisableDoubleBuffer
  split
  · rename_i hdb
    exact ⟨hdb, rfl⟩
  · exact ⟨rfl, rfl⟩

theorem matches_disable (h : Matches r b) : Matches (tuSramDisableDoubleBuffer r) b.disable := by
  obtain ⟨hdb, hsize⟩ := tuSramDisableDoubleBuffer_frame r
  refine .single (by rw [hsize, h.size]) hdb fun i => ?_
  have hactive := disable_active h.wellFormed (i := i) (by rw [h.size]; exact i.2)
  unfold sramDataPtr tuSramRawPtr at hactive
  rw [hdb] at hactive
  exact hactive.trans (h.active i)

theorem swapBuffers_of_some {db : TuDoubleBuffer} (hdb : r.db = some db) (henabled : db.enabled = true) :
    swapBuffers r = { r with db := some { db with activeIdx := if db.activeIdx = 0 then 1 else 0 } } := by
  unfold swapBuffers tuSramSwapBuffers
  rw [hdb]
  simp [henabled]

theorem swapBuffers_of_none (hdb : r.db = none) : swapBuffers r = r := by
  unfold swapBuffers tuSramSwapBuffers
  rw [hdb]

theorem matches_swap (h : Matches r b) : Matches (swapBuffers r) b.swap := by
  have hsize : (swapBuffers r).totalSize.toNat = n := by
    rw [← h.size]
    exact congrArg UInt32.toNat (tuSramSwapBuffers_totalSize r.toTuSramRegion)
  cases h with
  | single hsize' hdb hcells =>
    rw [swapBuffers_of_none hdb] at hsize ⊢
    exact .single hsize hdb hcells
  | double hsize' hdb henabled hindex hfirst hsecond =>
    rename_i first second onSecond db
    rw [swapBuffers_of_some hdb henabled] at hsize ⊢
    refine .double hsize rfl henabled ?_ hfirst hsecond
    cases onSecond <;> simp [hindex]

/-- Two swaps change nothing. -/
theorem swapBuffers_swapBuffers (h : WellFormed r) : swapBuffers (swapBuffers r) = r := by
  cases hdb : r.db with
  | none => rw [swapBuffers_of_none hdb, swapBuffers_of_none hdb]
  | some db =>
    obtain ⟨henabled, hle⟩ := h db hdb
    have hindex : (if (if db.activeIdx = 0 then 1 else 0) = 0 then 1 else 0) = db.activeIdx := by
      split <;> split <;> omega
    have honce := swapBuffers_of_some hdb henabled
    have hdb' : (swapBuffers r).db = some { db with activeIdx := if db.activeIdx = 0 then 1 else 0 } := by rw [honce]
    rw [swapBuffers_of_some hdb' henabled, honce]
    dsimp only
    rw [hindex, ← hdb]

/-- Other meters and counters make no difference. -/
theorem Matches.of_sameBytes {r' : TuCoreRegion} (h : Matches r b) (hsame : SameBytes r r') : Matches r' b := by
  cases h with
  | single hsize hdb hcells =>
    exact .single (by rw [hsame.totalSize, hsize]) (hsame.db.trans hdb) (by rw [hsame.data]; exact hcells)
  | double hsize hdb henabled hindex hfirst hsecond =>
    exact .double (by rw [hsame.totalSize, hsize]) (hsame.db.trans hdb) henabled hindex
      (by rw [hsame.data]; exact hfirst) hsecond

theorem matches_setActive (h : Matches r b) {bytes : Nat → UInt8} {cells : Fin n → UInt8}
    (hcells : ∀ i : Fin n, bytes i = cells i) (writes : Nat) :
    Matches { setActive r bytes with writes := writes } (b.setActive cells) := by
  have hsize : (r.toTuSramRegion.setRaw bytes).totalSize.toNat = n := by
    rw [TuSramRegion.setRaw_totalSize, h.size]
  cases h with
  | single hsize' hdb hold =>
    refine .single hsize ?_ ?_
    · show (r.toTuSramRegion.setRaw bytes).db = none
      unfold TuSramRegion.setRaw
      rw [hdb]
    · show ∀ i : Fin n, (r.toTuSramRegion.setRaw bytes).data i = cells i
      unfold TuSramRegion.setRaw
      rw [hdb]
      exact hcells
  | double hsize' hdb henabled hindex hfirst hsecond =>
    rename_i first second onSecond db
    cases onSecond with
    | false =>
      have hraw : r.toTuSramRegion.setRaw bytes = { r.toTuSramRegion with data := bytes } := by
        unfold TuSramRegion.setRaw
        rw [hdb]
        simp [hindex, hdb]
      refine .double hsize ?_ henabled hindex ?_ hsecond
      · show (r.toTuSramRegion.setRaw bytes).db = some db
        rw [hraw]
        exact hdb
      · show ∀ i : Fin n, (r.toTuSramRegion.setRaw bytes).data i = cells i
        rw [hraw]
        exact hcells
    | true =>
      have hraw : r.toTuSramRegion.setRaw bytes =
          { r.toTuSramRegion with db := some { db with shadowData := bytes } } := by
        unfold TuSramRegion.setRaw
        rw [hdb]
        simp [hindex, henabled]
      have hdb' : (r.toTuSramRegion.setRaw bytes).db = some { db with shadowData := bytes } := by rw [hraw]
      refine .double hsize hdb' henabled hindex ?_ hcells
      show ∀ i : Fin n, (r.toTuSramRegion.setRaw bytes).data i = first i
      rw [hraw]
      exact hfirst

theorem matches_write (h : Matches r b) (addr bytes : Nat) (data : Nat → UInt8) :
    Matches (tuSramWriteBulk r addr data bytes).1 (b.write addr bytes data) := by
  by_cases hzero : bytes = 0
  · subst hzero
    unfold tuSramWriteBulk
    rw [if_pos (.inr rfl), Buffers.write_zero]
    exact h
  by_cases hfit : addr + bytes ≤ n
  · have hgo : ¬ (¬ boundsCheck r addr bytes = true ∨ bytes = 0) := by
      rw [boundsCheck_iff, h.size]
      omega
    unfold tuSramWriteBulk Buffers.write
    rw [if_pos hfit, if_neg hgo]
    have hmetered := h.of_sameBytes (sameBytes_sramMeter r addr bytes true)
    refine matches_setActive hmetered (fun i => ?_) _
    unfold memcpy
    split
    · rfl
    · exact hmetered.active i
  · rw [tuSramWriteBulk_outside (by rw [h.size]; omega), Buffers.write_of_lt (by omega)]
    exact h

theorem read_eq_reference (h : Matches r b) (addr bytes : Nat) (out : Nat → UInt8) :
    (tuSramReadBulk r addr out bytes).2.1 = overlay out (b.read addr bytes) := by
  by_cases hfit : addr + bytes ≤ n
  · rw [(tuSramReadBulk_inside (by rw [h.size]; exact hfit) out).2, Buffers.read_of_le hfit]
    funext i
    unfold memcpy overlay
    dsimp only
    by_cases hi : i < bytes
    · rw [if_pos (by omega), dif_pos hi, Nat.sub_zero]
      exact h.active ⟨addr + i, by omega⟩
    · rw [if_neg (by omega), dif_neg hi]
  · rw [tuSramReadBulk_outside (by rw [h.size]; omega), Buffers.read_of_lt (by omega)]
    rfl

theorem matches_read (h : Matches r b) (addr bytes : Nat) (out : Nat → UInt8) :
    Matches (tuSramReadBulk r addr out bytes).1 b := by
  by_cases hfit : addr + bytes ≤ n
  · exact h.of_sameBytes (tuSramReadBulk_inside (by rw [h.size]; exact hfit) out).1
  · rw [tuSramReadBulk_outside (by rw [h.size]; omega)]
    exact h

/-- Every operation gives what it gives on the reference, and keeps the two alike. -/
theorem matches_step (h : Matches r b) (op : BufferOp) :
    (bufferStep r op).2 = (referenceStep b op).2 ∧ Matches (bufferStep r op).1 (referenceStep b op).1 := by
  cases op with
  | enable => exact ⟨rfl, matches_enable h⟩
  | disable => exact ⟨rfl, matches_disable h⟩
  | swap => exact ⟨rfl, matches_swap h⟩
  | read addr bytes out =>
    exact ⟨congrArg some (read_eq_reference h addr.toNat bytes.toNat out), matches_read h addr.toNat bytes.toNat out⟩
  | write addr bytes data => exact ⟨rfl, matches_write h addr.toNat bytes.toNat data⟩

/-- The reads of a sequence of operations are those of plain arrays. -/
theorem reads_eq_reference (h : WellFormed r) (ops : List BufferOp) :
    Run.outputs bufferStep r ops = Run.outputs referenceStep (reference r) ops :=
  Run.outputs_eq_of_simulation (R := fun r b => Matches r b) (fun _ _ op hmatch => matches_step hmatch op) (matches_reference h) ops

/-- **A double-buffered region is two plain arrays.**  The reads of every sequence of operations are those of the
reference, disabling keeps the active bytes, two swaps change nothing, and neither does an access that is not inside. -/
theorem doubleBuffer_refines (r : TuCoreRegion) (h : WellFormed r) :
    (∀ ops, Run.outputs bufferStep r ops = Run.outputs referenceStep (reference r) ops) ∧
      ∀ ops, let r' := Run.exec (fun r op => (bufferStep r op).1) r ops;
        (∀ i < r'.totalSize.toNat, sramDataPtr (tuSramDisableDoubleBuffer r') i = sramDataPtr r' i) ∧
        swapBuffers (swapBuffers r') = r' ∧
        ∀ addr bytes : UInt32, r'.totalSize.toNat < addr.toNat + bytes.toNat →
          (∀ data, (tuSramWriteBulk r' addr.toNat data bytes.toNat).1 = r') ∧
          ∀ out, (tuSramReadBulk r' addr.toNat out bytes.toNat).1 = r' ∧
            (tuSramReadBulk r' addr.toNat out bytes.toNat).2.1 = out := by
  refine ⟨reads_eq_reference h, fun ops => ?_⟩
  dsimp only
  have hrun : WellFormed (Run.exec (fun r op => (bufferStep r op).1) r ops) := by
    refine Run.invariant (P := WellFormed) (fun s op hs => ?_) h ops
    exact (matches_step (matches_reference hs) op).2.wellFormed
  generalize Run.exec (fun r op => (bufferStep r op).1) r ops = r' at hrun ⊢
  refine ⟨fun i hi => disable_active hrun hi, swapBuffers_swapBuffers hrun, fun addr bytes hout => ⟨fun data => ?_,
    fun out => ?_⟩⟩
  · rw [tuSramWriteBulk_outside hout]
  · rw [tuSramReadBulk_outside hout]
    exact ⟨rfl, rfl⟩

/-- A region right after its initialisation. -/
theorem doubleBuffer_refines_fresh :
    Run.outputs bufferStep (tuSramInitRuntime 64 "W-buf" 32 4 1 2 4) [.enable, .swap, .read 0 4 fun _ => 7] =
      Run.outputs referenceStep (reference (tuSramInitRuntime 64 "W-buf" 32 4 1 2 4))
        [.enable, .swap, .read 0 4 fun _ => 7] :=
  (doubleBuffer_refines _ fun db hdb => nomatch (show none = some db from hdb)).1 _

end Tusim.Sram
