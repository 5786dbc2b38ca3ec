import Mathlib.Algebra.Order.Group.Nat
import Mathlib.Data.List.Basic
import Mathlib.Tactic.Ring

/-!
# Byte strings

Numbers as byte strings with the least significant byte first, and the bits of a byte string.  `ofLE` undoes
`leBytes` (`ofLE_leBytes`).  `readLE_block` reads a number between other bytes.
Bit `i` of a byte string is bit `i % 8` of byte `i / 8`; setting a bit changes no other one (`bitAt_setBit`).
-/

namespace Bytes

/-- The lowest `k` bytes of a number, the least significant first. -/
def leBytes : Nat → Nat → List UInt8
  | 0, _ => []
  | k + 1, n => UInt8.ofNat n :: leBytes k (n / 256)

/-- The number with these bytes, the least significant first. -/
def ofLE : List UInt8 → Nat
  | [] => 0
  | b :: bs => b.toNat + 256 * ofLE bs

/-- The number in the `k` bytes from an offset. -/
def readLE (k : Nat) (s : List UInt8) (off : Nat) : Nat := ofLE ((s.drop off).take k)

@[simp] theorem length_leBytes (k n : Nat) : (leBytes k n).length = k := by
  induction k generalizing n with
  | zero => rfl
  | succ k ih => simp [leBytes, ih]

theorem ofLE_leBytes {k n : Nat} (h : n < 256 ^ k) : ofLE (leBytes k n) = n := by
  induction k generalizing n with
  | zero => simp_all [leBytes, ofLE]
  | succ k ih =>
    rw [Nat.pow_succ, Nat.mul_comm] at h
    have hrest := ih (Nat.div_lt_of_lt_mul h)
    have hbyte : (UInt8.ofNat n).toNat = n % 256 := UInt8.toNat_ofNat'
    have hdiv := Nat.mod_add_div n 256
    unfold leBytes ofLE
    omega

/-- The number written between two byte strings. -/
theorem readLE_block {k n off : Nat} {s : List UInt8} (h : n < 256 ^ k) (pre post : List UInt8)
    (hs : s = pre ++ leBytes k n ++ post) (hoff : off = pre.length) : readLE k s off = n := by
  unfold readLE
  rw [hs, hoff, List.append_assoc, List.drop_left, List.take_left' (length_leBytes k n), ofLE_leBytes h]

theorem ofLE_lt (s : List UInt8) : ofLE s < 256 ^ s.length := by
  induction s with
  | nil => exact Nat.one_pos
  | cons b s ih =>
    have hb := b.toNat_lt
    rw [ofLE, List.length_cons, Nat.pow_succ]
    omega

theorem readLE_lt (k : Nat) (s : List UInt8) (off : Nat) : readLE k s off < 256 ^ k :=
  Nat.lt_of_lt_of_le (ofLE_lt _) (Nat.pow_le_pow_right (by decide) (List.length_take_le ..))

/-- A byte string is the one of its number. -/
theorem leBytes_ofLE (s : List UInt8) : leBytes s.length (ofLE s) = s := by
  induction s with
  | nil => rfl
  | cons b s ih =>
    have hb := b.toNat_lt
    have hlow : UInt8.ofNat (b.toNat + 256 * ofLE s) = b := by
      apply UInt8.toNat.inj
      rw [UInt8.toNat_ofNat']
      omega
    have hrest : (b.toNat + 256 * ofLE s) / 256 = ofLE s := by omega
    rw [List.length_cons, ofLE, leBytes, hlow, hrest, ih]

/-- Writing the number that was read gives the bytes back. -/
theorem leBytes_readLE {k off : Nat} {s : List UInt8} (h : off + k ≤ s.length) :
    leBytes k (readLE k s off) = (s.drop off).take k := by
  have hlen : ((s.drop off).take k).length = k := by
    rw [List.length_take, List.length_drop]
    omega
  have hwhole := leBytes_ofLE ((s.drop off).take k)
  rw [hlen] at hwhole
  exact hwhole

/-! ### Numbers in a memory -/

/-- The number in the `k` bytes of a memory from an address. -/
def loadLE (k : Nat) (mem : Nat → UInt8) (a : Nat) : Nat := ofLE ((List.range k).map fun i => mem (a + i))

/-- The bytes of a number as a memory of its own. -/
def cellsLE (k n : Nat) : Nat → UInt8 := fun i => (leBytes k n).getD i 0

theorem loadLE_congr {k a a' : Nat} {mem mem' : Nat → UInt8} (h : ∀ i < k, mem (a + i) = mem' (a' + i)) :
    loadLE k mem a = loadLE k mem' a' := by
  unfold loadLE
  rw [List.map_congr_left fun i hi => h i (List.mem_range.1 hi)]

theorem loadLE_cells {k n a : Nat} {mem : Nat → UInt8} (hn : n < 256 ^ k) (h : ∀ i < k, mem (a + i) = cellsLE k n i) :
    loadLE k mem a = n := by
  have hbytes : (List.range k).map (fun i => mem (a + i)) = leBytes k n := by
    refine List.ext_getElem (by simp) fun i hi _ => ?_
    rw [List.length_map, List.length_range] at hi
    rw [List.getElem_map, List.getElem_range, h i hi, cellsLE, List.getD_eq_getElem?_getD,
      List.getElem?_eq_getElem, Option.getD_some]
  unfold loadLE
  rw [hbytes, ofLE_leBytes hn]

/-! ### Records of one width -/

section

variable {α : Type} {f : α → List UInt8} {w : Nat}

theorem length_flatMap_width (hf : ∀ x, (f x).length = w) (xs : List α) : (xs.flatMap f).length = w * xs.length := by
  induction xs with
  | nil => rfl
  | cons x xs ih =>
    rw [List.flatMap_cons, List.length_append, hf, ih, List.length_cons]
    ring

/-- The records before one of them, and the ones after it. -/
theorem flatMap_split (f : α → List UInt8) {xs : List α} {i : Nat} (hi : i < xs.length) :
    xs.flatMap f = (xs.take i).flatMap f ++ f xs[i] ++ (xs.drop (i + 1)).flatMap f := by
  conv_lhs => rw [← List.take_append_drop i xs, List.drop_eq_getElem_cons hi]
  rw [List.flatMap_append, List.flatMap_cons, List.append_assoc]

theorem length_take_flatMap (hf : ∀ x, (f x).length = w) {xs : List α} {i : Nat} (hi : i ≤ xs.length) :
    ((xs.take i).flatMap f).length = w * i := by
  rw [length_flatMap_width hf, List.length_take_of_le hi]

end

/-- The records of one width from the start of a byte string. -/
theorem flatMap_records (s : List UInt8) (w k : Nat) :
    (List.range k).flatMap (fun i => (s.drop (w * i)).take w) = s.take (w * k) := by
  induction k with
  | zero => simp
  | succ k ih =>
    rw [List.range_succ, List.flatMap_append, ih, List.flatMap_singleton, Nat.mul_succ, List.take_add]

/-! ### Bits -/

/-- Bit `i % 8` of byte `i / 8`. -/
def bitAt (s : List UInt8) (i : Nat) : Bool := (s.getD (i / 8) 0).toNat.testBit (i % 8)

/-- Set bit `i % 8` of byte `i / 8`. -/
def setBit (s : List UInt8) (i : Nat) : List UInt8 := s.modify (i / 8) (· ||| UInt8.ofNat (1 <<< (i % 8)))

@[simp] theorem length_setBit (s : List UInt8) (i : Nat) : (setBit s i).length = s.length := by
  simp [setBit]

theorem bitAt_replicate (m i : Nat) : bitAt (List.replicate m 0) i = false := by
  unfold bitAt
  have h : (List.replicate m (0 : UInt8)).getD (i / 8) 0 = 0 := by
    rw [List.getD_eq_getElem?_getD, List.getElem?_replicate]
    split <;> rfl
  rw [h]
  simp

theorem bitAt_setBit {s : List UInt8} {i : Nat} (hi : i < 8 * s.length) (j : Nat) :
    bitAt (setBit s i) j = (bitAt s j || decide (j = i)) := by
  have hlt : i / 8 < s.length := by omega
  have hmask : (UInt8.ofNat (1 <<< (i % 8))).toNat = 2 ^ (i % 8) := by
    have hpow : 2 ^ (i % 8) < 2 ^ 8 := Nat.pow_lt_pow_right (by decide) (Nat.mod_lt i (by decide))
    rw [Nat.one_shiftLeft, UInt8.toNat_ofNat_of_lt' hpow]
  unfold bitAt setBit
  rw [List.getD_eq_getElem?_getD, List.getD_eq_getElem?_getD, List.getElem?_modify]
  by_cases hbyte : i / 8 = j / 8
  · have hsame : i % 8 = j % 8 ↔ j = i := by omega
    have hbit : (2 ^ (i % 8)).testBit (j % 8) = decide (j = i) := by
      rw [Nat.testBit_two_pow]
      simp [hsame]
    simp [← hbyte, List.getElem?_eq_getElem hlt, hmask, hbit]
  · have hne : j ≠ i := fun h => hbyte (by rw [h])
    simp [hbyte, hne]

theorem bitAt_append_left {s : List UInt8} {i : Nat} (hi : i < 8 * s.length) (t : List UInt8) :
    bitAt (s ++ t) i = bitAt s i := by
  have hlt : i / 8 < s.length := by omega
  unfold bitAt
  rw [List.getD_eq_getElem?_getD, List.getElem?_append_left hlt, List.getD_eq_getElem?_getD]

/-- A byte string is determined by its bits. -/
theorem ext_bitAt {s t : List UInt8} (hlen : s.length = t.length) (h : ∀ i < 8 * s.length, bitAt s i = bitAt t i) :
    s = t := by
  apply List.ext_getElem hlen
  intro i hi hi'
  apply UInt8.toNat.inj
  apply Nat.eq_of_testBit_eq
  intro j
  by_cases hj : j < 8
  · have hbit := h (8 * i + j) (by omega)
    have hbyte : (8 * i + j) / 8 = i := by omega
    have hplace : (8 * i + j) % 8 = j := by omega
    unfold bitAt at hbit
    rw [hbyte, hplace, List.getD_eq_getElem?_getD, List.getD_eq_getElem?_getD, List.getElem?_eq_getElem hi,
      List.getElem?_eq_getElem hi'] at hbit
    exact hbit
  · have hhigh : ∀ b : UInt8, b.toNat.testBit j = false := fun b =>
      Nat.testBit_lt_two_pow (Nat.lt_of_lt_of_le b.toNat_lt (Nat.pow_le_pow_right (by decide) (Nat.not_lt.1 hj)))
    rw [hhigh, hhigh]

/-- The bits of a byte from the `k`-th on are clear. -/
theorem and_not_mask_eq_zero (b : UInt8) (k : Nat) :
    b &&& ~~~(UInt8.ofNat (1 <<< k - 1)) = 0 ↔ ∀ j, k ≤ j → j < 8 → b.toNat.testBit j = false := by
  have hbit : ∀ j < 8, (b &&& ~~~(UInt8.ofNat (1 <<< k - 1))).toBitVec.getLsbD j =
      (b.toNat.testBit j && !decide (j < k)) := by
    intro j hj
    have hmask : (UInt8.ofNat (1 <<< k - 1)).toBitVec.getLsbD j = decide (j < k) := by
      rw [Nat.one_shiftLeft]
      change (BitVec.ofNat 8 (2 ^ k - 1)).getLsbD j = _
      rw [BitVec.getLsbD_ofNat, Nat.testBit_two_pow_sub_one]
      simp [hj]
    have hsame : b.toBitVec.getLsbD j = b.toNat.testBit j := rfl
    rw [UInt8.toBitVec_and, BitVec.getLsbD_and, UInt8.toBitVec_not, BitVec.getLsbD_not, hmask, hsame]
    simp [hj]
  constructor
  · intro h j hkj hj
    have hzero := hbit j hj
    rw [h] at hzero
    simpa [Nat.not_lt.2 hkj] using hzero.symm
  · intro h
    apply UInt8.eq_of_toBitVec_eq
    apply BitVec.eq_of_getLsbD_eq
    intro j hj
    rw [hbit j hj]
    by_cases hjk : j < k
    · simp [hjk]
    · simp [h j (Nat.not_lt.1 hjk) hj]

end Bytes
