import Mathlib.Data.List.Basic
import Mathlib.Data.List.Nodup
import Mathlib.Logic.Function.Basic

/-!
# Flat layouts of multi-dimensional arrays

A hyperslab lists the multi-indices of a box in the order of its axes,
last axis fastest. When all axes but one or two have length one, the box is
a line or a rectangle, and its list is the row-major list of that rectangle
in the order in which the two axes occur.
-/

namespace NcdfPlugin.FlatLayout

variable {α δ : Type*}

/-- Row-major list of an n by m rectangle: the second index runs fastest. -/
def rowMajor (n m : ℕ) (f : ℕ → ℕ → α) : List α :=
  (List.range n).flatMap fun j => (List.range m).map (f j)

/-- One more row is appended at the end of the flat list. -/
theorem rowMajor_succ (n m : ℕ) (f : ℕ → ℕ → α) :
    rowMajor (n+1) m f=rowMajor n m f++(List.range m).map (f n) := by
  simp [rowMajor,List.range_succ]

/-- The flat list has a place for each row and column. -/
@[simp] theorem rowMajor_length (n m : ℕ) (f : ℕ → ℕ → α) :
    (rowMajor n m f).length=n*m := by
  induction n with
  | zero => simp [rowMajor]
  | succ n ih => rw [rowMajor_succ,List.length_append,ih]; simp [Nat.succ_mul]

/-- Values may be converted before or after they are laid out. -/
theorem rowMajor_map {β : Type*} (g : α → β) (n m : ℕ) (f : ℕ → ℕ → α) :
    (rowMajor n m f).map g=rowMajor n m fun j i => g (f j i) := by
  simp [rowMajor,List.map_flatMap,Function.comp_def]

/-- Flat position j*m+i of the rectangle holds the entry (j,i). -/
theorem rowMajor_getElem? {n m : ℕ} (f : ℕ → ℕ → α) {j i : ℕ} (hj : j<n) (hi : i < m) :
    (rowMajor n m f)[j*m+i]? = some (f j i) := by
  induction n with
  | zero => omega
  | succ n ih =>
    rw [rowMajor_succ]
    by_cases hlast : j<n
    · have hbound : j*m+i<n*m := by
        have := Nat.mul_le_mul_right m (Nat.succ_le_of_lt hlast)
        rw [Nat.succ_mul] at this
        omega
      rw [List.getElem?_append_left (by simpa using hbound)]
      exact ih hlast
    · obtain rfl : j=n := by omega
      rw [List.getElem?_append_right (by simp)]
      simp [hi]

/-- Every flat position below n*m splits into its row and column. -/
theorem rowMajor_getElem?_flat {n m : ℕ} (f : ℕ → ℕ → α) {c : ℕ} (hc : c<n*m) :
    (rowMajor n m f)[c]? = some (f (c/m) (c%m)) := by
  have hm : 0 < m := Nat.pos_of_ne_zero (by rintro rfl; simp at hc)
  have hrow : c/m<n := Nat.div_lt_of_lt_mul (by rwa [Nat.mul_comm])
  have h := rowMajor_getElem? f hrow (Nat.mod_lt c hm)
  rwa [Nat.div_add_mod'] at h

/-- The rectangle as one list over its flat positions. -/
theorem rowMajor_eq_map_range (n m : ℕ) (f : ℕ → ℕ → α) :
    rowMajor n m f=(List.range (n*m)).map fun c => f (c/m) (c%m) := by
  apply List.ext_getElem?
  intro c
  by_cases hc : c<n*m
  · rw [rowMajor_getElem?_flat f hc,List.getElem?_map,List.getElem?_range hc,Option.map_some]
  · rw [List.getElem?_eq_none (by simpa using hc),List.getElem?_eq_none (by simpa using hc)]

/-- A row and a column within the sizes have their place within the flat list. -/
theorem flat_lt {n m j i : ℕ} (hj : j<n) (hi : i < m) : j*m+i<n*m := by
  have := Nat.mul_le_mul_right m (Nat.succ_le_of_lt hj)
  rw [Nat.succ_mul] at this
  omega

/-- Multi-indices of a box, one start and one count per axis, in the order
of the axes with the last axis fastest. -/
def hyperslab : List (ℕ×ℕ) → List (List ℕ)
  | [] => [[]]
  | (start,count)::axes =>
    (List.range count).flatMap fun k => (hyperslab axes).map ((start+k)::·)

/-- An axis of length one only prefixes its start. -/
theorem hyperslab_unit (start : ℕ) (axes : List (ℕ×ℕ)) :
    hyperslab ((start,1)::axes)=(hyperslab axes).map (start::·) := by
  simp [hyperslab]

section Boxes

variable (start count : δ → ℕ) {a b : δ} {axes : List δ}

/-- Box whose axes all have length one: one multi-index. -/
theorem hyperslab_point (h : ∀ d∈axes,count d=1) :
    hyperslab (axes.map fun d => (start d,count d))=[axes.map start] := by
  induction axes with
  | nil => rfl
  | cons d axes ih =>
    have hd := h d List.mem_cons_self
    have htail := ih fun d' hd' => h d' (List.mem_cons_of_mem _ hd')
    rw [List.map_cons,hd,hyperslab_unit,htail]
    rfl

variable [DecidableEq δ]

/-- Moving the start of an axis that does not occur changes nothing. -/
theorem map_update_of_notMem (ha : a∉axes) (f : δ → ℕ) (k : ℕ) :
    axes.map (Function.update f a k)=axes.map f := by
  apply List.map_congr_left
  intro d hd
  exact Function.update_of_ne (by rintro rfl; exact ha hd) _ _

/-- Box with exactly one axis of arbitrary length: a line along that axis. -/
theorem hyperslab_line (ha : a∈axes) (hnodup : axes.Nodup)
    (h : ∀ d∈axes,d≠a → count d=1) :
    hyperslab (axes.map fun d => (start d,count d))=
      (List.range (count a)).map fun k => axes.map (Function.update start a (start a+k)) := by
  induction axes with
  | nil => cases ha
  | cons d axes ih =>
    obtain ⟨hd,htail⟩ := List.nodup_cons.mp hnodup
    by_cases hda : d=a
    · subst hda
      have hpoint := hyperslab_point start count fun d' (hd' : d'∈axes) =>
        h d' (List.mem_cons_of_mem _ hd') (by rintro rfl; exact hd hd')
      rw [List.map_cons,hyperslab,hpoint]
      simp only [List.map_cons,List.map_nil,Function.update_self,map_update_of_notMem hd]
      exact (List.map_eq_flatMap ..).symm
    · have hmem : a∈axes := (List.mem_cons.mp ha).resolve_left (fun he => hda he.symm)
      have hrest := ih hmem htail fun d' hd' => h d' (List.mem_cons_of_mem _ hd')
      rw [List.map_cons,h d List.mem_cons_self hda,hyperslab_unit,hrest,List.map_map]
      simp [Function.comp_def,Function.update_of_ne hda]

/-- Box with exactly two axes of arbitrary length, the first of which occurs
before the second: the row-major rectangle of the two. -/
theorem hyperslab_rectangle (hab : a≠b) (ha : a∈axes) (hb : b∈axes) (hnodup : axes.Nodup)
    (horder : axes.idxOf a<axes.idxOf b) (h : ∀ d∈axes,d≠a → d≠b → count d=1) :
    hyperslab (axes.map fun d => (start d,count d))=
      rowMajor (count a) (count b) fun j i =>
        axes.map (Function.update (Function.update start a (start a+j)) b (start b+i)) := by
  induction axes with
  | nil => cases ha
  | cons d axes ih =>
    obtain ⟨hd,htail⟩ := List.nodup_cons.mp hnodup
    have hdb : d≠b := by
      rintro rfl
      rw [List.idxOf_cons_self] at horder
      omega
    have hmemb : b∈axes := (List.mem_cons.mp hb).resolve_left (fun he => hdb he.symm)
    by_cases hda : d=a
    · subst hda
      have hline := hyperslab_line start count hmemb htail
        fun d' hd' hne => h d' (List.mem_cons_of_mem _ hd') (by rintro rfl; exact hd hd') hne
      rw [List.map_cons,hyperslab,hline,rowMajor]
      apply List.flatMap_congr
      intro j _
      rw [List.map_map]
      apply List.map_congr_left
      intro i _
      rw [Function.update_comm hab,List.map_cons,Function.update_self,map_update_of_notMem hd]
      rfl
    · have hmema : a∈axes := (List.mem_cons.mp ha).resolve_left (fun he => hda he.symm)
      have horder' : axes.idxOf a<axes.idxOf b := by
        rw [List.idxOf_cons_ne _ hda,List.idxOf_cons_ne _ hdb] at horder
        omega
      have hrest := ih hmema hmemb htail horder'
        fun d' hd' => h d' (List.mem_cons_of_mem _ hd')
      rw [List.map_cons,h d List.mem_cons_self hda hdb,hyperslab_unit,hrest,rowMajor_map]
      simp [Function.update_of_ne hda,Function.update_of_ne hdb]

end Boxes

end NcdfPlugin.FlatLayout
