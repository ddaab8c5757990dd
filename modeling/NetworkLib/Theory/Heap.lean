import Mathlib.Logic.Function.Basic
import Mathlib.Order.Lattice
import Mathlib.Tactic

/-! # A heap with an allocator of its own mind

A **heap** maps handles to optional cells. An allocation takes the handle the allocator wants when
that is free, so a handle that was freed may come back, and a new handle otherwise. -/

namespace NetworkLib

/-- Cells by handle; from `size` on all handles are free. -/
structure Heap (α : Type*) where
  cell : ℕ → Option α
  size : ℕ
  bounded : ∀ h, size ≤ h → cell h = none

namespace Heap

variable {α : Type*} (m : Heap α)

/-- The heap without cells. -/
def empty : Heap α := { cell := fun _ => none, size := 0, bounded := fun _ _ => rfl }

/-- The handle an allocation takes. -/
def place (wanted : ℕ) : ℕ := if (m.cell wanted).isNone then wanted else m.size

/-- Allocate a cell. -/
def alloc (wanted : ℕ) (a : α) : Heap α where
  cell := Function.update m.cell (m.place wanted) (some a)
  size := max m.size (m.place wanted + 1)
  bounded := by
    intro h hsize
    have hne : h ≠ m.place wanted := by
      have hle := (le_max_right _ _).trans hsize
      omega
    rw [Function.update_of_ne hne]
    exact m.bounded h ((le_max_left _ _).trans hsize)

/-- Free a cell. -/
def free (handle : ℕ) : Heap α where
  cell := Function.update m.cell handle none
  size := m.size
  bounded := by
    intro h hsize
    by_cases hh : h = handle
    · rw [hh, Function.update_self]
    · rw [Function.update_of_ne hh]
      exact m.bounded h hsize

/-- Change a cell. -/
def modify (handle : ℕ) (f : α → α) : Heap α where
  cell := Function.update m.cell handle ((m.cell handle).map f)
  size := m.size
  bounded := by
    intro h hsize
    by_cases hh : h = handle
    · rw [hh, Function.update_self, ← hh, m.bounded h hsize]
      rfl
    · rw [Function.update_of_ne hh]
      exact m.bounded h hsize

variable {m}

@[simp] theorem cell_empty (h : ℕ) : (empty : Heap α).cell h = none := rfl

/-- **An allocation takes a free handle.** -/
theorem cell_place (wanted : ℕ) : m.cell (m.place wanted) = none := by
  unfold place
  split
  · next h => exact Option.isNone_iff_eq_none.mp h
  · exact m.bounded _ le_rfl

/-- A new cell is not one in use. -/
theorem place_ne {h wanted : ℕ} {a : α} (ha : m.cell h = some a) : h ≠ m.place wanted := by
  rintro rfl
  rw [cell_place] at ha
  cases ha

@[simp] theorem cell_alloc_place (wanted : ℕ) (a : α) :
    (m.alloc wanted a).cell (m.place wanted) = some a := Function.update_self ..

/-- An allocation leaves the other cells. -/
theorem cell_alloc_of_ne {h wanted : ℕ} (a : α) (hne : h ≠ m.place wanted) :
    (m.alloc wanted a).cell h = m.cell h := Function.update_of_ne hne ..

@[simp] theorem cell_free_self (h : ℕ) : (m.free h).cell h = none := Function.update_self ..

/-- Freeing a cell leaves the others. -/
theorem cell_free_of_ne {h handle : ℕ} (hne : h ≠ handle) : (m.free handle).cell h = m.cell h :=
  Function.update_of_ne hne ..

@[simp] theorem cell_modify_self (h : ℕ) (f : α → α) :
    (m.modify h f).cell h = (m.cell h).map f := Function.update_self ..

/-- Writing a cell leaves the others. -/
theorem cell_modify_of_ne {h handle : ℕ} (f : α → α) (hne : h ≠ handle) :
    (m.modify handle f).cell h = m.cell h := Function.update_of_ne hne ..

/-- Freeing makes no cell. -/
theorem cell_of_free {h handle : ℕ} {a : α} (ha : (m.free handle).cell h = some a) :
    m.cell h = some a := by
  by_cases hh : h = handle
  · rw [hh, cell_free_self] at ha
    cases ha
  · rwa [cell_free_of_ne hh] at ha

end Heap

end NetworkLib
