import Mathlib.Logic.Function.Basic
import Mathlib.Order.Basic

/-!
# Blocks of memory owned by pointer slots

A heap holds blocks at finitely many addresses, and slots point to blocks or
are null. While every slot points to a block of its own, releasing a slot and
giving it a new block act on the contents of the slots like updates of a
function: nothing but the slot itself changes.
-/

namespace NcdfPlugin.OwnedBlocks

variable {κ β : Type*}

/-- Blocks by address. Only finitely many addresses are in use. -/
structure Heap (β : Type*) where
  /-- Block at an address, when there is one. -/
  cells : ℕ → Option β
  /-- Bound of the addresses in use. -/
  bound : ℕ
  /-- Nothing lies from there on. -/
  free_of_le : ∀ a,bound≤a → cells a=none

/-- Choice of the address of a new block. Freed addresses may come back. -/
structure Allocator (β : Type*) where
  /-- The address chosen. -/
  pick : Heap β → ℕ
  /-- It is not in use. -/
  pick_free : ∀ h : Heap β,h.cells (pick h)=none

/-- The allocator that never uses an address twice. -/
def nextAddress : Allocator β := ⟨Heap.bound,fun h => h.free_of_le _ (Nat.le_refl _)⟩

/-- A block is put at an address. -/
def Heap.put (h : Heap β) (a : ℕ) (b : β) : Heap β where
  cells := Function.update h.cells a (some b)
  bound := max h.bound (a+1)
  free_of_le a' ha' := by
    have hne : a'≠a := by omega
    rw [Function.update_of_ne hne]
    exact h.free_of_le a' (by omega)

/-- `free`. -/
def Heap.free (h : Heap β) (a : ℕ) : Heap β where
  cells := Function.update h.cells a none
  bound := h.bound
  free_of_le a' ha' := by
    by_cases hne : a'=a
    · rw [hne,Function.update_self]
    · rw [Function.update_of_ne hne]
      exact h.free_of_le a' ha'

/-- A heap and the slots that point into it. -/
structure Store (κ β : Type*) where
  /-- The blocks. -/
  heap : Heap β
  /-- Address of a slot, none for a null pointer. -/
  ptr : κ → Option ℕ

/-- Block that a slot points to. -/
def Store.content (s : Store κ β) (k : κ) : Option β := (s.ptr k).bind s.heap.cells

/-- Every slot is null or points to a block of its own. -/
structure Owned (s : Store κ β) : Prop where
  /-- No pointer dangles. -/
  live : ∀ k a,s.ptr k=some a → ∃ b,s.heap.cells a=some b
  /-- No block is shared. -/
  apart : ∀ k k' a,s.ptr k=some a → s.ptr k'=some a → k=k'

variable {s : Store κ β}

/-- A slot without a block is null. -/
theorem Owned.ptr_eq_none_iff (h : Owned s) (k : κ) : s.ptr k=none ↔ s.content k=none := by
  unfold Store.content
  cases hk : s.ptr k with
  | none => simp
  | some a =>
    obtain ⟨b,hb⟩ := h.live k a hk
    simp [hb]

variable [DecidableEq κ]

/-- The block of a slot is freed and the slot becomes null. -/
def Store.release (s : Store κ β) (k : κ) : Store κ β :=
  match s.ptr k with
  | none => s
  | some a => ⟨s.heap.free a,Function.update s.ptr k none⟩

/-- A slot gets a new block; an old one is not freed. -/
def Store.install (A : Allocator β) (s : Store κ β) (k : κ) (b : β) : Store κ β :=
  ⟨s.heap.put (A.pick s.heap) b,Function.update s.ptr k (some (A.pick s.heap))⟩

/-- Releasing one pointer keeps every other one. -/
theorem ptr_release_of_ne {k k' : κ} (h : k'≠k) : (s.release k).ptr k'=s.ptr k' := by
  unfold Store.release
  cases s.ptr k with
  | none => rfl
  | some a => exact Function.update_of_ne h _ _

/-- Installing a block at one pointer keeps every other one. -/
theorem ptr_install_of_ne (A : Allocator β) {k k' : κ} (h : k'≠k) (b : β) :
    (s.install A k b).ptr k'=s.ptr k' := Function.update_of_ne h _ _

/-- A release leaves no pointer to the freed block, since no two pointers share one. -/
theorem Owned.release (h : Owned s) (k : κ) : Owned (s.release k) := by
  unfold Store.release
  cases hk : s.ptr k with
  | none => exact h
  | some a =>
    have hkept {k' : κ} {a' : ℕ} (hk' : Function.update s.ptr k none k'=some a') :
        s.ptr k'=some a' ∧ a'≠a := by
      by_cases hkk : k'=k
      · rw [hkk,Function.update_self] at hk'
        cases hk'
      · rw [Function.update_of_ne hkk] at hk'
        exact ⟨hk',fun haa => hkk (h.apart k' k a (haa ▸ hk') hk)⟩
    constructor
    · intro k' a' hk'
      obtain ⟨hptr,hne⟩ := hkept hk'
      obtain ⟨b,hb⟩ := h.live k' a' hptr
      exact ⟨b,(Function.update_of_ne hne _ _).trans hb⟩
    · intro k' k'' a' hk' hk''
      exact h.apart k' k'' a' (hkept hk').1 (hkept hk'').1

/-- Releasing a slot removes its content and no other. -/
theorem Owned.content_release (h : Owned s) (k : κ) :
    (s.release k).content=Function.update s.content k none := by
  funext k'
  unfold Store.release
  cases hk : s.ptr k with
  | none =>
    by_cases hkk : k'=k
    · rw [hkk,Function.update_self,Store.content,hk]
      rfl
    · rw [Function.update_of_ne hkk]
  | some a =>
    by_cases hkk : k'=k
    · rw [hkk,Function.update_self,Store.content]
      simp only [Function.update_self,Option.bind_none]
    · rw [Function.update_of_ne hkk,Store.content,Store.content]
      simp only [Function.update_of_ne hkk]
      cases hk' : s.ptr k' with
      | none => rfl
      | some a' =>
        have hne : a'≠a := fun haa => hkk (h.apart k' k a (haa ▸ hk') hk)
        exact Function.update_of_ne hne _ _

omit [DecidableEq κ] in
/-- Pointers of other slots do not lead to the new block. -/
theorem Owned.ptr_ne_pick (h : Owned s) (A : Allocator β) {k : κ} {a : ℕ} (hk : s.ptr k=some a) :
    a≠A.pick s.heap := by
  rintro rfl
  obtain ⟨b,hb⟩ := h.live k _ hk
  rw [A.pick_free] at hb
  cases hb

/-- A new block is shared by nobody. -/
theorem Owned.install (h : Owned s) (A : Allocator β) (k : κ) (b : β) :
    Owned (s.install A k b) := by
  constructor
  · intro k' a hk'
    by_cases hkk : k'=k
    · refine ⟨b,?_⟩
      simp only [Store.install,hkk,Function.update_self,Option.some.injEq] at hk' ⊢
      rw [←hk']
      exact Function.update_self _ _ _
    · simp only [Store.install,Function.update_of_ne hkk] at hk' ⊢
      obtain ⟨b',hb'⟩ := h.live k' a hk'
      exact ⟨b',(Function.update_of_ne (h.ptr_ne_pick A hk') _ _).trans hb'⟩
  · intro k' k'' a hk' hk''
    simp only [Store.install] at hk' hk''
    by_cases hkk : k'=k <;> by_cases hkk' : k''=k
    · rw [hkk,hkk']
    · rw [hkk,Function.update_self] at hk'
      rw [Function.update_of_ne hkk'] at hk''
      exact absurd (Option.some.inj hk').symm (h.ptr_ne_pick A hk'')
    · rw [hkk',Function.update_self] at hk''
      rw [Function.update_of_ne hkk] at hk'
      exact absurd (Option.some.inj hk'').symm (h.ptr_ne_pick A hk')
    · rw [Function.update_of_ne hkk] at hk'
      rw [Function.update_of_ne hkk'] at hk''
      exact h.apart k' k'' a hk' hk''

/-- A new block is the content of its slot, and no other content changes. -/
theorem Owned.content_install (h : Owned s) (A : Allocator β) (k : κ) (b : β) :
    (s.install A k b).content=Function.update s.content k (some b) := by
  funext k'
  by_cases hkk : k'=k
  · rw [hkk,Function.update_self,Store.content]
    simp only [Store.install,Function.update_self,Option.bind_some]
    exact Function.update_self _ _ _
  · rw [Function.update_of_ne hkk,Store.content,Store.content]
    simp only [Store.install,Function.update_of_ne hkk]
    cases hk' : s.ptr k' with
    | none => rfl
    | some a => exact Function.update_of_ne (h.ptr_ne_pick A hk') _ _

end NcdfPlugin.OwnedBlocks
