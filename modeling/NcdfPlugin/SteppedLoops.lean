import NcdfPlugin.FlatLayout
import Mathlib.Algebra.Order.Floor.Ring
import Mathlib.Tactic.Linarith
import Mathlib.Tactic.Ring

/-!
# Loops in equal steps

A loop that starts at a value and adds a positive step while it is at most a
bound visits an arithmetic progression. Two nested loops that stop after a
common number of turns of the inner one visit the first points of the lattice
of both progressions, row by row.
-/

namespace NcdfPlugin.SteppedLoops

open FlatLayout

section Rows

variable {α : Type} [Field α] [LinearOrder α]

/-- Values of `for (x = a; x <= b; x += d)`, in n turns at most. -/
def stepRow (d b : α) : ℕ → α → List α
  | 0,_ => []
  | n+1,x => if x≤b then x::stepRow d b n (x+d) else []

variable [FloorRing α]

/-- Number of turns of such a loop without a limit. -/
def stepCount (d a b : α) : ℕ := (⌊(b-a)/d⌋+1).toNat

/-- Two nested loops, in n turns of the inner one at most. None when the
outer loop needs more turns than it is given. -/
def stepLattice (dy by' dx bx ax : α) : ℕ → ℕ → α → Option (List (α×α))
  | 0,_,_ => none
  | fuel+1,n,y =>
    if y≤by' ∧ 0<n then
      let row := stepRow dx bx n ax
      (stepLattice dy by' dx bx ax fuel (n-row.length) (y+dy)).map fun rest => row.map (y,·)++rest
    else some []

variable [IsStrictOrderedRing α] {d a b : α}

/-- A turn of the loop is made as long as its value does not pass the end. -/
theorem lt_stepCount_iff (hd : 0<d) (k : ℕ) : k < stepCount d a b ↔ a+k*d≤b := by
  have hfloor : (k : ℤ)≤⌊(b-a)/d⌋ ↔ a+k*d≤b := by
    rw [Int.le_floor,Int.cast_natCast,le_div_iff₀ hd]
    constructor <;> intro h <;> linarith
  rw [←hfloor,stepCount]
  omega

/-- One turn fewer is left after a step. -/
theorem stepCount_step (hd : 0<d) (h : a≤b) : stepCount d a b=stepCount d (a+d) b+1 := by
  refine eq_of_forall_lt_iff fun k => ?_
  cases k with
  | zero => simpa [lt_stepCount_iff hd] using h
  | succ k =>
    rw [Nat.add_lt_add_iff_right,lt_stepCount_iff hd,lt_stepCount_iff hd]
    push_cast
    rw [add_mul,one_mul,add_comm ((k : α)*d) d,add_assoc]

/-- A loop whose start lies past its end makes no turn. -/
theorem stepCount_past (hd : 0<d) (h : ¬a≤b) : stepCount d a b=0 := by
  by_contra hpos
  have hzero := (lt_stepCount_iff hd 0).mp (Nat.pos_of_ne_zero hpos)
  simp only [Nat.cast_zero,zero_mul,add_zero] at hzero
  exact h hzero

/-- The values of the loop. -/
theorem stepRow_eq (hd : 0<d) (n : ℕ) (a : α) :
    stepRow d b n a=((List.range (stepCount d a b)).map fun k : ℕ => a+k*d).take n := by
  induction n generalizing a with
  | zero => simp [stepRow]
  | succ n ih =>
    by_cases h : a≤b
    · have hshift : (fun k : ℕ => a+d+k*d)=(fun k : ℕ => a+k*d)∘Nat.succ := by
        funext k
        simp only [Function.comp_apply,Nat.cast_succ]
        ring
      rw [stepRow,if_pos h,ih,stepCount_step hd h,List.range_succ_eq_map,List.map_cons,
        List.take_succ_cons,hshift,List.map_map]
      simp
    · rw [stepRow,if_neg h,stepCount_past hd h]
      simp

variable {dy by' dx bx ax y : α}

/-- Point of the lattice in a row and a column. -/
def latticePoint (dy y dx ax : α) (j i : ℕ) : α×α := (y+j*dy,ax+i*dx)

/-- The nested loops end, and visit the first points of the lattice. -/
theorem stepLattice_eq (hy : 0<dy) (hx : 0<dx) {fuel : ℕ} (n : ℕ) (hfuel : stepCount dy y by'<fuel) :
    stepLattice dy by' dx bx ax fuel n y=
      some ((rowMajor (stepCount dy y by') (stepCount dx ax bx) (latticePoint dy y dx ax)).take n) := by
  induction fuel generalizing n y with
  | zero => omega
  | succ fuel ih =>
    rw [stepLattice]
    by_cases h : y≤by' ∧ 0<n
    · have hrows := stepCount_step hy h.1
      have hshift : latticePoint dy (y+dy) dx ax=fun j => latticePoint dy y dx ax (j+1) := by
        funext j i
        simp only [latticePoint,Nat.cast_succ,Prod.mk.injEq,and_true]
        ring
      have hfirst : (List.range (stepCount dx ax bx)).map (latticePoint dy y dx ax 0)=
          ((List.range (stepCount dx ax bx)).map fun k : ℕ => ax+k*dx).map (y,·) := by
        rw [List.map_map]
        refine List.map_congr_left fun i _ => ?_
        simp [latticePoint]
      have hsplit : rowMajor (stepCount dy y by') (stepCount dx ax bx) (latticePoint dy y dx ax)=
          ((List.range (stepCount dx ax bx)).map fun k : ℕ => ax+k*dx).map (y,·)++
            rowMajor (stepCount dy (y+dy) by') (stepCount dx ax bx) (latticePoint dy (y+dy) dx ax) := by
        rw [hrows,rowMajor,List.range_succ_eq_map,List.flatMap_cons,hfirst,List.flatMap_map,hshift]
        rfl
      have hleft : n-min n (stepCount dx ax bx)=n-stepCount dx ax bx := by omega
      rw [if_pos h]
      dsimp only
      rw [ih (y := y+dy) _ (by omega),Option.map_some,hsplit,List.take_append,stepRow_eq hx]
      simp only [List.length_map,List.length_range,List.length_take,List.map_take,hleft]
    · have hnone : (rowMajor (stepCount dy y by') (stepCount dx ax bx)
          (latticePoint dy y dx ax)).take n=[] := by
        rcases Nat.eq_zero_or_pos n with rfl | hn
        · rw [List.take_zero]
        · rw [stepCount_past hy fun hle => h ⟨hle,hn⟩]
          simp [rowMajor]
      rw [if_neg h,hnone]

/-- The points that are visited up to a limit are the first ones of the lattice, row by row.
-/
theorem mem_take_rowMajor {β : Type} (f : ℕ → ℕ → β) (rows columns n : ℕ) (p : β) :
    p∈(rowMajor rows columns f).take n ↔
      ∃ j < rows,∃ i < columns,j*columns+i<n ∧ f j i=p := by
  rw [List.mem_take_iff_getElem]
  constructor
  · rintro ⟨k,hk,rfl⟩
    rw [rowMajor_length,Nat.lt_min] at hk
    have hpos : 0 < columns := Nat.pos_of_ne_zero (by rintro rfl; simp at hk)
    refine ⟨k/columns,Nat.div_lt_of_lt_mul (by rw [Nat.mul_comm]; exact hk.2),k%columns,
      Nat.mod_lt k hpos,by rw [Nat.div_add_mod']; exact hk.1,?_⟩
    have hget := rowMajor_getElem?_flat f hk.2
    exact (List.getElem_of_getElem? hget).2.symm
  · rintro ⟨j,hj,i,hi,hlt,rfl⟩
    have hget := rowMajor_getElem? f hj hi
    obtain ⟨hbound,heq⟩ := List.getElem_of_getElem? hget
    exact ⟨j*columns+i,Nat.lt_min.mpr ⟨hlt,hbound⟩,heq⟩

end Rows

end NcdfPlugin.SteppedLoops
