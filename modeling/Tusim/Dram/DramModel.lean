import Mathlib.Logic.ExistsUnique
import Tusim.Lib.Digits
import Tusim.Lib.Word

/-!
# The DRAM model: geometry and address mapping

A model is created from its parameters with the burst-interleaved mapping; `tuDramSetAddressMapping` changes the
mapping and refuses the XOR hash when the number of channels is no power of two.  Addresses are unbounded here; the
source's are 64 bits wide.
-/

namespace Tusim

open Word

inductive TuDramAddressMapping
  | burstInterleaved
  | rowInterleaved
  | xorInterleaved
deriving DecidableEq, Repr

structure TuDramParams where
  burstLength : UInt32
  channels : UInt32
  banksPerChannel : UInt32
  rowBufferSize : UInt32
deriving DecidableEq, Repr

structure TuDramModel where
  params : TuDramParams
  numChannels : UInt32
  addressMapping : TuDramAddressMapping
  numChannels_ne : numChannels ≠ 0
  banksPerChannel_ne : params.banksPerChannel ≠ 0
  burstLength_ne : params.burstLength ≠ 0
  xor_channels : addressMapping = .xorInterleaved → numChannels &&& (numChannels - 1) = 0

def tuDramCreateCustom (params : TuDramParams) : Option TuDramModel :=
  if h : params.channels = 0 ∨ params.banksPerChannel = 0 ∨ params.burstLength = 0 then
    none
  else
    some
      { params := params
        numChannels := params.channels
        addressMapping := .burstInterleaved
        numChannels_ne := fun h' => h (Or.inl h')
        banksPerChannel_ne := fun h' => h (Or.inr (Or.inl h'))
        burstLength_ne := fun h' => h (Or.inr (Or.inr h'))
        xor_channels := nofun }

def tuDramSetAddressMapping (dram : TuDramModel) (mapping : TuDramAddressMapping) : Option TuDramModel :=
  if h : mapping = .xorInterleaved ∧ (dram.numChannels = 0 ∨ dram.numChannels &&& (dram.numChannels - 1) ≠ 0) then
    none
  else
    some
      { dram with
        addressMapping := mapping
        xor_channels := fun hm => Decidable.not_not.1 fun hne => h ⟨hm, Or.inr hne⟩ }

namespace TuDramModel

def burstsPerRow (dram : TuDramModel) : Nat :=
  let bursts := dram.params.rowBufferSize.toNat / dram.params.burstLength.toNat
  if bursts = 0 then 1 else bursts

end TuDramModel

/-- Channel, bank and row of an address. -/
def tuDramDecodeAddress (dram : TuDramModel) (addr : Nat) : Option (Nat × Nat × Nat) :=
  if dram.numChannels = 0 ∨ dram.params.banksPerChannel = 0 ∨ dram.params.burstLength = 0 then
    none
  else
    let burst := addr / dram.params.burstLength.toNat
    let banks := dram.params.banksPerChannel.toNat
    match dram.addressMapping with
    | .rowInterleaved =>
      let rowGroup := burst / dram.burstsPerRow
      let channel := u32 (rowGroup % dram.numChannels.toNat)
      let channelGroup := rowGroup / dram.numChannels.toNat
      some (channel, u32 (channelGroup % banks), channelGroup / banks)
    | .burstInterleaved =>
      let baseChannel := u32 (burst % dram.numChannels.toNat)
      let channelGroup := burst / dram.numChannels.toNat / dram.burstsPerRow
      some (baseChannel, u32 (channelGroup % banks), channelGroup / banks)
    | .xorInterleaved =>
      let baseChannel := u32 (burst % dram.numChannels.toNat)
      let channelGroup := burst / dram.numChannels.toNat / dram.burstsPerRow
      if dram.numChannels &&& (dram.numChannels - 1) ≠ 0 then
        none
      else
        let channel := baseChannel ^^^ u32 (channelGroup &&& (dram.numChannels - 1).toNat)
        some (channel, u32 (channelGroup % banks), channelGroup / banks)

end Tusim

/-!
### The DRAM address mapping is a bijection

A burst is a number in mixed radix: its digits are a channel, a column and a bank, and the row is the rest.  The
modes differ in the order of the digits; the XOR hash permutes the channels by the low bits of the digits above the
channel, so that the same hash takes it back.
-/

namespace Tusim

open Word Digits

namespace TuDramModel

/-- The column of a burst: its place in the row of its channel. -/
def column (dram : TuDramModel) (burst : Nat) : Nat :=
  match dram.addressMapping with
  | .rowInterleaved => burst % dram.burstsPerRow
  | .burstInterleaved | .xorInterleaved => burst / dram.numChannels.toNat % dram.burstsPerRow

/-- The burst at a channel, bank, row and column. -/
def burstAt (dram : TuDramModel) (channel bank row column : Nat) : Nat :=
  let channelGroup := dram.params.banksPerChannel.toNat * row + bank
  match dram.addressMapping with
  | .rowInterleaved => dram.burstsPerRow * (dram.numChannels.toNat * channelGroup + channel) + column
  | .burstInterleaved => dram.numChannels.toNat * (dram.burstsPerRow * channelGroup + column) + channel
  | .xorInterleaved =>
    dram.numChannels.toNat * (dram.burstsPerRow * channelGroup + column) +
      (channel ^^^ channelGroup % dram.numChannels.toNat)

variable (dram : TuDramModel)

theorem numChannels_pos : 0 < dram.numChannels.toNat :=
  toNat_pos dram.numChannels_ne

theorem banksPerChannel_pos : 0 < dram.params.banksPerChannel.toNat :=
  toNat_pos dram.banksPerChannel_ne

theorem burstLength_pos : 0 < dram.params.burstLength.toNat :=
  toNat_pos dram.burstLength_ne

theorem burstsPerRow_pos : 0 < dram.burstsPerRow := by
  unfold burstsPerRow
  dsimp only
  split
  · exact Nat.one_pos
  · rename_i hne
    exact Nat.pos_of_ne_zero hne

theorem column_lt (burst : Nat) : dram.column burst < dram.burstsPerRow := by
  have hpos := dram.burstsPerRow_pos
  unfold column
  split <;> exact Nat.mod_lt _ hpos

end TuDramModel

open TuDramModel

/-- A remainder by a 32-bit value fits 32 bits. -/
theorem u32_mod_toNat (x : Nat) (n : UInt32) (h : 0 < n.toNat) : u32 (x % n.toNat) = x % n.toNat :=
  Nat.mod_eq_of_lt ((Nat.mod_lt x h).trans n.toNat_lt)

/-! ### The channels of the XOR hash -/

section

variable {dram : TuDramModel} (hxor : dram.addressMapping = .xorInterleaved)

include hxor

theorem numChannels_pow : ∃ k, dram.numChannels.toNat = 2 ^ k := by
  have hand := dram.xor_channels hxor
  have hpos := dram.numChannels_pos
  have hle : (1 : UInt32) ≤ dram.numChannels := UInt32.le_iff_toNat_le.2 hpos
  rw [← UInt32.toNat_inj, UInt32.toNat_and, UInt32.toNat_sub_of_le _ _ hle] at hand
  exact (Nat.and_sub_one_eq_zero_iff_isPowerOfTwo (Nat.ne_of_gt hpos)).1 hand

/-- The mask of the hash takes the remainder. -/
theorem and_numChannels_sub_one (x : Nat) :
    u32 (x &&& (dram.numChannels - 1).toNat) = x % dram.numChannels.toNat := by
  have hpos := dram.numChannels_pos
  have hle : (1 : UInt32) ≤ dram.numChannels := UInt32.le_iff_toNat_le.2 hpos
  obtain ⟨k, hk⟩ := numChannels_pow hxor
  have hone : (1 : UInt32).toNat = 1 := rfl
  rw [UInt32.toNat_sub_of_le _ _ hle, hone, hk, Nat.and_two_pow_sub_one_eq_mod, ← hk]
  exact u32_mod_toNat x dram.numChannels hpos

theorem xor_numChannels_lt {a b : Nat} (ha : a < dram.numChannels.toNat) (hb : b < dram.numChannels.toNat) :
    a ^^^ b < dram.numChannels.toNat := by
  obtain ⟨k, hk⟩ := numChannels_pow hxor
  rw [hk] at ha hb ⊢
  exact Nat.xor_lt_two_pow ha hb

end

/-! ### Decoding and its inverse -/

/-- What the decoder makes of a burst, without the guards and the casts. -/
theorem tuDramDecodeAddress_eq (dram : TuDramModel) (addr : Nat) :
    tuDramDecodeAddress dram addr =
      let burst := addr / dram.params.burstLength.toNat
      let channels := dram.numChannels.toNat
      let banks := dram.params.banksPerChannel.toNat
      let channelGroup := match dram.addressMapping with
        | .rowInterleaved => burst / dram.burstsPerRow / channels
        | .burstInterleaved | .xorInterleaved => burst / channels / dram.burstsPerRow
      let channel := match dram.addressMapping with
        | .rowInterleaved => burst / dram.burstsPerRow % channels
        | .burstInterleaved => burst % channels
        | .xorInterleaved => burst % channels ^^^ channelGroup % channels
      some (channel, channelGroup % banks, channelGroup / banks) := by
  -- a created model passes the guard of the source
  have hguard : ¬ (dram.numChannels = 0 ∨ dram.params.banksPerChannel = 0 ∨ dram.params.burstLength = 0) := by
    have h1 := dram.numChannels_ne
    have h2 := dram.banksPerChannel_ne
    have h3 := dram.burstLength_ne
    simp [h1, h2, h3]
  unfold tuDramDecodeAddress
  rw [if_neg hguard]
  cases hmode : dram.addressMapping with
  | rowInterleaved => simp only [u32_mod_toNat, numChannels_pos, banksPerChannel_pos]
  | burstInterleaved => simp only [u32_mod_toNat, numChannels_pos, banksPerChannel_pos]
  | xorInterleaved =>
    have hand := dram.xor_channels hmode
    simp only [u32_mod_toNat, numChannels_pos, banksPerChannel_pos, and_numChannels_sub_one hmode, hand, ne_eq,
      not_true_eq_false, if_false]

/-- The place of an address is in range, and it is the place of its burst. -/
theorem tuDramDecodeAddress_range (dram : TuDramModel) (addr : Nat) :
    ∃ channel bank row, tuDramDecodeAddress dram addr = some (channel, bank, row) ∧
      channel < dram.numChannels.toNat ∧ bank < dram.params.banksPerChannel.toNat ∧
      dram.burstAt channel bank row (dram.column (addr / dram.params.burstLength.toNat)) =
        addr / dram.params.burstLength.toNat := by
  have hn := dram.numChannels_pos
  have hb := dram.banksPerChannel_pos
  rw [tuDramDecodeAddress_eq]
  unfold burstAt column
  generalize addr / dram.params.burstLength.toNat = burst
  cases hmode : dram.addressMapping with
  | rowInterleaved =>
    refine ⟨_, _, _, rfl, Nat.mod_lt _ hn, Nat.mod_lt _ hb, ?_⟩
    dsimp only
    rw [Nat.div_add_mod, Nat.div_add_mod, Nat.div_add_mod]
  | burstInterleaved =>
    refine ⟨_, _, _, rfl, Nat.mod_lt _ hn, Nat.mod_lt _ hb, ?_⟩
    dsimp only
    rw [Nat.div_add_mod, Nat.div_add_mod, Nat.div_add_mod]
  | xorInterleaved =>
    refine ⟨_, _, _, rfl, xor_numChannels_lt hmode (Nat.mod_lt _ hn) (Nat.mod_lt _ hn), Nat.mod_lt _ hb, ?_⟩
    dsimp only
    -- the same hash a second time gives the channel bits back
    rw [Nat.div_add_mod, Nat.div_add_mod, Nat.xor_assoc, Nat.xor_self, Nat.xor_zero, Nat.div_add_mod]

/-- The burst at a place decodes to that place. -/
theorem tuDramDecodeAddress_burstAt {dram : TuDramModel} {channel bank row column addr : Nat}
    (hchannel : channel < dram.numChannels.toNat) (hbank : bank < dram.params.banksPerChannel.toNat)
    (hcolumn : column < dram.burstsPerRow)
    (haddr : addr / dram.params.burstLength.toNat = dram.burstAt channel bank row column) :
    tuDramDecodeAddress dram addr = some (channel, bank, row) ∧
      dram.column (dram.burstAt channel bank row column) = column := by
  have hn := dram.numChannels_pos
  rw [tuDramDecodeAddress_eq, haddr]
  unfold burstAt TuDramModel.column
  cases hmode : dram.addressMapping with
  | rowInterleaved => simp [mul_add_div_of_lt, Nat.mod_eq_of_lt, hchannel, hbank, hcolumn]
  | burstInterleaved => simp [mul_add_div_of_lt, Nat.mod_eq_of_lt, hchannel, hbank, hcolumn]
  | xorInterleaved =>
    have hhash := xor_numChannels_lt hmode hchannel
      (Nat.mod_lt (dram.params.banksPerChannel.toNat * row + bank) hn)
    simp [mul_add_div_of_lt, Nat.mod_eq_of_lt hhash, Nat.mod_eq_of_lt hbank, Nat.mod_eq_of_lt hcolumn, hhash, hbank,
      hcolumn, Nat.xor_assoc]

/-- Every burst has a place in range, and every place is that of exactly one burst. -/
theorem tuDramDecodeAddress_bijective (dram : TuDramModel) :
    (∀ addr, ∃ channel bank row, tuDramDecodeAddress dram addr = some (channel, bank, row) ∧
      channel < dram.numChannels.toNat ∧ bank < dram.params.banksPerChannel.toNat ∧
      dram.column (addr / dram.params.burstLength.toNat) < dram.burstsPerRow) ∧
    ∀ channel bank row column, channel < dram.numChannels.toNat → bank < dram.params.banksPerChannel.toNat →
      column < dram.burstsPerRow →
      ∃! burst, dram.column burst = column ∧ ∀ addr, addr / dram.params.burstLength.toNat = burst →
        tuDramDecodeAddress dram addr = some (channel, bank, row) := by
  constructor
  · intro addr
    obtain ⟨channel, bank, row, hdecode, hchannel, hbank, _⟩ := tuDramDecodeAddress_range dram addr
    exact ⟨channel, bank, row, hdecode, hchannel, hbank, dram.column_lt _⟩
  · intro channel bank row column hchannel hbank hcolumn
    refine ⟨dram.burstAt channel bank row column, ⟨?_, ?_⟩, ?_⟩
    · have haddr := Nat.mul_div_cancel (dram.burstAt channel bank row column) dram.burstLength_pos
      exact (tuDramDecodeAddress_burstAt hchannel hbank hcolumn haddr).2
    · intro addr haddr
      exact (tuDramDecodeAddress_burstAt hchannel hbank hcolumn haddr).1
    · rintro burst ⟨rfl, hdecode⟩
      have haddr := Nat.mul_div_cancel burst dram.burstLength_pos
      obtain ⟨channel', bank', row', hdecode', _, _, hplace⟩ :=
        tuDramDecodeAddress_range dram (burst * dram.params.burstLength.toNat)
      rw [hdecode _ haddr] at hdecode'
      cases hdecode'
      rw [haddr] at hplace
      exact hplace.symm

end Tusim
