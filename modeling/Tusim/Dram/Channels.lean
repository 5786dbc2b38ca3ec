import Tusim.Dram.Bandwidth

/-!
# The channels of a memory

An access that finds its channel taken waits for it, but the channel counts as taken only for the cycles of the access
from the current cycle on, without the wait.  As long as no access waits (`ChannelFree`), availability only grows and
the transfers of a channel follow each other (`run_channels`); after an access that waited, repeating it takes the
channel during the transfer before, or gives the channel free earlier than before (`repeat_of_waits`).
-/

namespace Tusim

open TuDramRuntime

/-- The channel of an address. -/
def channelOf (setup : TuDramSetup) (addr : Nat) : Nat := (decodedPlace setup addr).1

/-- The operation is no timed access, or an access that finds its channel available. -/
def ChannelFree (dram : TuDramRuntime) : TuDramOp → Prop
  | .tick => True
  | .read addr numBytes | .write addr numBytes =>
    dram.setup.type = .ideal ∨ numBytes = 0 ∨
      (dram.channels (channelOf dram.setup addr)).availableCycle ≤ dram.currentCycle

instance ChannelFree.decidable (dram : TuDramRuntime) : (op : TuDramOp) → Decidable (ChannelFree dram op)
  | .tick => inferInstanceAs (Decidable True)
  | .read .. | .write .. => inferInstanceAs (Decidable (_ ∨ _ ∨ _))

/-- Two transfers use a channel at the same time. -/
def Overlap (a b : Nat × Nat) : Prop := a.1 < b.2 ∧ b.1 < a.2

/-- No operation of the run makes a channel available earlier than before. -/
def AvailabilityMonotone (dram : TuDramRuntime) (ops : List TuDramOp) : Prop :=
  ∀ past op rest, ops = past ++ op :: rest → ∀ channel,
    ((Run.exec step dram past).channels channel).availableCycle ≤
      ((Run.exec step dram (past ++ [op])).channels channel).availableCycle

/-- Consecutive accesses to a channel do not transfer at the same time. -/
def TransfersDisjoint (dram : TuDramRuntime) : Prop :=
  ∀ channel, List.IsChain (fun a b => ¬ Overlap a b) (dram.channels channel).transfers

/-! ### One operation -/

/-- The two states agree on the availability and the transfers of a channel. -/
def SameChannel (a b : TuDramChannel) : Prop := b.availableCycle = a.availableCycle ∧ b.transfers = a.transfers

theorem transfer_channel_self (dram : TuDramRuntime) (direction : TuDramDirection) (channel addr : Nat)
    (numBytes : UInt32) (totalCycles refreshStall : Nat) :
    ∃ busy, ((transfer dram direction channel addr numBytes totalCycles refreshStall).1.channels channel).availableCycle =
        dram.currentCycle + busy ∧
      ((transfer dram direction channel addr numBytes totalCycles refreshStall).1.channels channel).transfers =
        (dram.channels channel).transfers ++
          [(dram.currentCycle + channelStall dram channel, dram.currentCycle + channelStall dram channel + busy)] := by
  refine ⟨totalCycles + burstCycles dram.setup (occupiedBytesFor dram.setup addr numBytes direction), ?_, ?_⟩
  · simp [transfer]
  · simp [transfer]

theorem transfer_channel_of_ne (dram : TuDramRuntime) (direction : TuDramDirection) {channel channel' : Nat}
    (h : channel' ≠ channel) (addr : Nat) (numBytes : UInt32) (totalCycles refreshStall : Nat) :
    (transfer dram direction channel addr numBytes totalCycles refreshStall).1.channels channel' =
      dram.channels channel' := by
  simp [transfer, h]

/-- A timed access takes its channel and no other. -/
theorem access_channels {dram : TuDramRuntime} (htype : dram.setup.type ≠ .ideal) (direction : TuDramDirection)
    (addr : Nat) {numBytes : UInt32} (hbytes : numBytes ≠ 0) :
    (∃ busy, ((access dram direction addr numBytes).1.channels (channelOf dram.setup addr)).availableCycle =
        dram.currentCycle + busy ∧
      ((access dram direction addr numBytes).1.channels (channelOf dram.setup addr)).transfers =
        (dram.channels (channelOf dram.setup addr)).transfers ++
          [(dram.currentCycle + channelStall dram (channelOf dram.setup addr),
            dram.currentCycle + channelStall dram (channelOf dram.setup addr) + busy)]) ∧
      ∀ channel ≠ channelOf dram.setup addr,
        SameChannel (dram.channels channel) ((access dram direction addr numBytes).1.channels channel) := by
  obtain ⟨d, totalCycles, refreshStall, heq, _, hcycle, _, hchan⟩ := access_transfer htype direction addr hbytes
  have hstall : channelStall d (channelOf dram.setup addr) = channelStall dram (channelOf dram.setup addr) := by
    unfold channelStall
    rw [hcycle, (hchan _).1]
  rw [heq]
  refine ⟨?_, fun channel hne => ?_⟩
  · obtain ⟨busy, havail, htransfers⟩ := transfer_channel_self d direction (channelOf dram.setup addr) addr numBytes
      totalCycles refreshStall
    refine ⟨busy, havail.trans (by rw [hcycle]), htransfers.trans ?_⟩
    rw [hstall, hcycle, (hchan _).2]
  · have hother := transfer_channel_of_ne d direction hne addr numBytes totalCycles refreshStall
    exact ⟨(congrArg _ hother).trans (hchan channel).1, (congrArg _ hother).trans (hchan channel).2⟩

theorem channelFree_ofAccess (dram : TuDramRuntime) (addr : Nat) (numBytes : UInt32) (direction : TuDramDirection) :
    ChannelFree dram (.ofAccess addr numBytes direction) ↔ dram.setup.type = .ideal ∨ numBytes = 0 ∨
      (dram.channels (channelOf dram.setup addr)).availableCycle ≤ dram.currentCycle := by
  cases direction <;> exact Iff.rfl

theorem tick_channels (dram : TuDramRuntime) : (tuDramTick dram).channels = dram.channels :=
  (refreshCatchup_frame ..).2.2.trans (ensureBandwidth_channels _)

/-- What an operation does to the channels: nothing, or it is a timed access and takes one. -/
theorem step_channels (dram : TuDramRuntime) (op : TuDramOp) :
    (ChannelFree dram op ∧ ∀ channel, SameChannel (dram.channels channel) ((dram.step op).channels channel)) ∨
      ∃ direction addr numBytes, dram.setup.type ≠ .ideal ∧ numBytes ≠ 0 ∧
        (∀ d : TuDramRuntime, d.step op = (access d direction addr numBytes).1) ∧
        (ChannelFree dram op ↔ (dram.channels (channelOf dram.setup addr)).availableCycle ≤ dram.currentCycle) := by
  rcases op.tick_or_access with rfl | ⟨addr, numBytes, direction, rfl⟩
  · refine Or.inl ⟨trivial, ?_⟩
    show ∀ channel, SameChannel _ ((tuDramTick dram).channels channel)
    rw [tick_channels]
    exact fun channel => ⟨rfl, rfl⟩
  · rw [TuDramOp.step_ofAccess, channelFree_ofAccess]
    by_cases hbytes : numBytes = 0
    · rw [hbytes, access_zero]
      exact Or.inl ⟨Or.inr (Or.inl rfl), fun _ => ⟨rfl, rfl⟩⟩
    by_cases htype : dram.setup.type = .ideal
    · rw [access_of_ideal htype direction addr hbytes]
      exact Or.inl ⟨Or.inl htype, fun _ => ⟨rfl, rfl⟩⟩
    · refine Or.inr ⟨direction, addr, numBytes, htype, hbytes, TuDramOp.step_ofAccess addr numBytes direction, ?_⟩
      simp [htype, hbytes]

/-! ### Runs without a wait -/

/-- The transfers of a channel follow each other, and the channel is available after the last one. -/
structure Serial (ch : TuDramChannel) : Prop where
  chain : List.IsChain (fun a b => ¬ Overlap a b) ch.transfers
  ends : ∀ t ∈ ch.transfers.getLast?, t.2 ≤ ch.availableCycle

theorem Serial.of_same {a b : TuDramChannel} (h : Serial a) (hsame : SameChannel a b) : Serial b := by
  obtain ⟨havail, htransfers⟩ := hsame
  exact ⟨htransfers ▸ h.chain, by rw [havail, htransfers]; exact h.ends⟩

/-- An access that finds its channel available transfers from the current cycle on. -/
theorem step_serial {dram : TuDramRuntime} (h : ∀ channel, Serial (dram.channels channel)) {op : TuDramOp}
    (hfree : ChannelFree dram op) (channel : Nat) :
    Serial ((dram.step op).channels channel) ∧
      (dram.channels channel).availableCycle ≤ ((dram.step op).channels channel).availableCycle := by
  rcases step_channels dram op with ⟨_, hsame⟩ | ⟨direction, addr, numBytes, htype, hbytes, hstep, hiff⟩
  · exact ⟨(h channel).of_same (hsame channel), (hsame channel).1.ge⟩
  · obtain ⟨⟨busy, havail, htransfers⟩, hothers⟩ := access_channels htype direction addr hbytes
    have hle := hiff.1 hfree
    have hstall : channelStall dram (channelOf dram.setup addr) = 0 := by
      unfold channelStall
      exact if_neg (Nat.not_lt_of_le hle)
    rw [hstall, Nat.add_zero] at htransfers
    rw [hstep]
    by_cases hchannel : channel = channelOf dram.setup addr
    · rw [hchannel]
      refine ⟨⟨?_, ?_⟩, by omega⟩
      · rw [htransfers, List.isChain_append]
        refine ⟨(h _).chain, List.isChain_singleton _, fun t ht u hu => ?_⟩
        have hend := (h _).ends t ht
        rw [List.head?_cons, Option.mem_some_iff] at hu
        rintro ⟨_, hlt⟩
        rw [← hu] at hlt
        exact absurd (hend.trans hle) (Nat.not_le_of_lt hlt)
      · rw [htransfers, havail]
        intro t ht
        rw [List.getLast?_concat, Option.mem_some_iff] at ht
        rw [← ht]
    · exact ⟨(h channel).of_same (hothers channel hchannel), (hothers channel hchannel).1.ge⟩

theorem serial_of_along {setup : TuDramSetup} {ops : List TuDramOp} (h : Run.Along ChannelFree step (fresh setup) ops)
    (channel : Nat) : Serial ((Run.exec step (fresh setup) ops).channels channel) := by
  refine h.invariant (P := fun d => ∀ channel, Serial (d.channels channel)) ?_ (fun channel => ?_) channel
  · exact fun d op hd hfree channel => (step_serial hd hfree channel).1
  · exact ⟨List.isChain_nil, fun t ht => absurd ht (by simp [fresh])⟩

theorem disjoint_of_along {setup : TuDramSetup} {ops : List TuDramOp}
    (h : Run.Along ChannelFree step (fresh setup) ops) :
    AvailabilityMonotone (fresh setup) ops ∧ TransfersDisjoint (Run.exec step (fresh setup) ops) := by
  refine ⟨fun past op rest hops channel => ?_, fun channel => (serial_of_along h channel).chain⟩
  rw [hops, Run.along_append] at h
  rw [Run.exec_append, Run.exec_cons, Run.exec_nil]
  exact (step_serial (serial_of_along h.1) h.2.1 channel).2

/-! ### After a wait -/

theorem access_cycle {dram : TuDramRuntime} (htype : dram.setup.type ≠ .ideal) (direction : TuDramDirection)
    (addr : Nat) {numBytes : UInt32} (hbytes : numBytes ≠ 0) :
    (access dram direction addr numBytes).1.currentCycle = dram.currentCycle := by
  obtain ⟨d, _, _, heq, _, hcycle, _⟩ := access_transfer htype direction addr hbytes
  rw [heq]
  exact hcycle

/-- An access that waits, and the same access again in the same cycle. -/
theorem repeat_of_waits {dram : TuDramRuntime} {op : TuDramOp} (hwaits : ¬ ChannelFree dram op) :
    ¬ (AvailabilityMonotone dram [op, op] ∧ TransfersDisjoint (Run.exec step dram [op, op])) := by
  rintro ⟨hmono, hdisjoint⟩
  rcases step_channels dram op with ⟨hfree, _⟩ | ⟨direction, addr, numBytes, htype, hbytes, hstep, hiff⟩
  · exact hwaits hfree
  · have hsetup : (dram.step op).setup = dram.setup := step_setup dram op
    have hcycle : (dram.step op).currentCycle = dram.currentCycle := by
      rw [hstep]
      exact access_cycle htype direction addr hbytes
    obtain ⟨⟨busy₁, havail₁, htransfers₁⟩, _⟩ := access_channels htype direction addr hbytes
    obtain ⟨⟨busy₂, havail₂, htransfers₂⟩, _⟩ :=
      @access_channels (dram.step op) (hsetup ▸ htype) direction addr numBytes hbytes
    rw [← hstep] at havail₁ htransfers₁ havail₂ htransfers₂
    rw [hsetup] at havail₂ htransfers₂
    rw [hiff] at hwaits
    have hmono₁ := hmono [] op [op] rfl (channelOf dram.setup addr)
    have hmono₂ := hmono [op] op [] rfl (channelOf dram.setup addr)
    have hlast := hdisjoint (channelOf dram.setup addr)
    simp only [List.nil_append, List.cons_append, Run.exec_cons, Run.exec_nil] at hmono₁ hmono₂ hlast
    rw [htransfers₂, List.isChain_append] at hlast
    have hno := hlast.2.2 _ (by rw [htransfers₁, List.getLast?_concat]; rfl) _ rfl
    unfold Overlap channelStall at hno
    dsimp only at hno
    split at hno <;> split at hno <;> omega

end Tusim
