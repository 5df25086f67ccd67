import Mathlib.Algebra.Order.Ring.Int
import Mathlib.Data.List.Basic
import Mathlib.Tactic.Common

/-!
# Data behind a mask

A mask holds one bit for each place, in words of a fixed width with the first place
in the most significant bit. A cursor walks over it bit by bit. The data behind the
mask lists values for the marked places only, so the value of a place stands at its
rank, the number of marked places before it. Spreading the listed values of a partial
sequence over its own mask gives the sequence back.
-/

namespace NcdfPlugin.MaskedData

section Cursor

variable {w : ℕ}

/-- Place in a mask: a word and a bit of it. The bit may have run out. -/
structure Cursor where
  /-- Word. -/
  index : ℕ
  /-- Bit of that word, counted from the lowest. -/
  bit : ℤ

/-- The most significant bit of the first word. -/
def Cursor.start (w : ℕ) : Cursor := ⟨0,(w : ℤ)-1⟩

/-- After the lowest bit comes the next word. -/
def Cursor.settle (w : ℕ) (c : Cursor) : Cursor := if c.bit<0 then ⟨c.index+1,(w : ℤ)-1⟩ else c

/-- The next bit. -/
def Cursor.step (c : Cursor) : Cursor := {c with bit := c.bit-1}

/-- The bit at the cursor and the settled cursor, none behind the last word. -/
def readBit (mask : List (BitVec w)) (c : Cursor) : Option (Bool×Cursor) :=
  (mask[(c.settle w).index]?).map fun word => (word.getLsbD (c.settle w).bit.toNat,c.settle w)

/-- Bit of a place, false behind the last word. -/
def maskBit (mask : List (BitVec w)) (k : ℕ) : Bool :=
  ((mask[k/w]?).map fun word => word.getLsbD (w-1-k%w)).getD false

/-- The cursor is at the bit of a place. -/
def At (w k : ℕ) (c : Cursor) : Prop := c.settle w=⟨k/w,(w : ℤ)-1-(k%w : ℕ)⟩

/-- Reading starts at the first bit of the mask with no value taken from the data. -/
theorem at_start (hw : 0 < w) : At w 0 (Cursor.start w) := by
  have hbit : ¬(w : ℤ)-1<0 := by omega
  simp [At,Cursor.settle,Cursor.start,hbit]

/-- Word and bit of the next place. -/
theorem div_mod_succ (hw : 0 < w) (k : ℕ) :
    ((k+1)/w=k/w+1 ∧ (k+1)%w=0 ∧ k%w=w-1) ∨ ((k+1)/w=k/w ∧ (k+1)%w=k%w+1 ∧ k%w+1<w) := by
  have hk : k%w<w := Nat.mod_lt k hw
  have hsplit := Nat.mod_add_div k w
  by_cases hlast : k%w+1<w
  · obtain ⟨hdiv,hmod⟩ := (Nat.div_mod_unique hw).mpr
      (⟨by omega,hlast⟩ : k%w+1+w*(k/w)=k+1 ∧ k%w+1<w)
    exact Or.inr ⟨hdiv,hmod,hlast⟩
  · obtain ⟨hdiv,hmod⟩ := (Nat.div_mod_unique hw).mpr
      (⟨by rw [Nat.mul_succ]; omega,hw⟩ : 0+w*(k/w+1)=k+1 ∧ 0<w)
    exact Or.inl ⟨hdiv,hmod,by omega⟩

/-- From one place to the next. -/
theorem At.step (hw : 0 < w) {k : ℕ} {c : Cursor} (h : At w k c) : At w (k+1) (c.settle w).step := by
  rw [At] at h
  rw [At,h,Cursor.step,Cursor.settle]
  dsimp only
  rcases div_mod_succ hw k with ⟨hdiv,hmod,hlast⟩ | ⟨hdiv,hmod,hlast⟩
  · have hout : (w : ℤ)-1-(k%w : ℕ)-1<0 := by omega
    rw [if_pos hout,hdiv,hmod,Nat.cast_zero,sub_zero]
  · have hin : ¬(w : ℤ)-1-(k%w : ℕ)-1<0 := by omega
    rw [if_neg hin,hdiv,hmod,Nat.cast_succ,sub_add_eq_sub_sub]

/-- A read at a place that the mask covers gives the bit of that place and settles the
cursor on its word. -/
theorem readBit_of_at (hw : 0 < w) {mask : List (BitVec w)} {k : ℕ} {c : Cursor} (h : At w k c)
    (hk : k<w*mask.length) : readBit mask c=some (maskBit mask k,c.settle w) := by
  have hword : k/w < mask.length := Nat.div_lt_of_lt_mul hk
  have hmod : k%w<w := Nat.mod_lt k hw
  rw [At] at h
  rw [readBit,maskBit,h]
  dsimp only
  rw [List.getElem?_eq_getElem hword,Option.map_some,Option.map_some,Option.getD_some]
  congr 3
  omega

end Cursor

section Ranks

variable {β γ : Type*}

/-- Number of marked places before a place. -/
def rank (marked : ℕ → Bool) (k : ℕ) : ℕ := ((List.range k).filter marked).length

@[simp] theorem rank_zero (marked : ℕ → Bool) : rank marked 0=0 := rfl

/-- A marked place takes one more value from the data than there were before it. -/
theorem rank_succ (marked : ℕ → Bool) (k : ℕ) :
    rank marked (k+1)=rank marked k+if marked k=true then 1 else 0 := by
  rw [rank,rank,List.range_succ,List.filter_append,List.length_append]
  by_cases h : marked k=true <;> simp [h]

/-- The number of values taken grows with the place. -/
theorem rank_mono (marked : ℕ → Bool) {k n : ℕ} (h : k≤n) : rank marked k ≤ rank marked n := by
  induction n,h using Nat.le_induction with
  | base => exact le_rfl
  | succ n _ ih =>
    rw [rank_succ]
    omega

/-- A marked place has a lower rank than any later one. -/
theorem rank_lt (marked : ℕ → Bool) {k n : ℕ} (hk : marked k=true) (h : k<n) :
    rank marked k < rank marked n := by
  have hsucc := rank_mono marked (Nat.succ_le_of_lt h)
  rw [Nat.succ_eq_add_one,rank_succ,if_pos hk] at hsucc
  omega

/-- Value of a place from the data of the marked places. -/
def spread (missing : β) (marked : ℕ → Bool) (data : List β) (k : ℕ) : β :=
  if marked k=true then data.getD (rank marked k) missing else missing

/-- Marked places and data of a partial sequence. -/
structure Lists (value : ℕ → Option β) (n : ℕ) (marked : ℕ → Bool) (data : List β) : Prop where
  /-- Places with a value are marked. -/
  marks : ∀ k<n,marked k=(value k).isSome
  /-- Values in the order of their places. -/
  lists : (List.range n).filterMap value <+: data

/-- The rank of a place is the number of values before it, when the mask marks exactly the
places with values. -/
theorem rank_eq_length {value : ℕ → Option β} {marked : ℕ → Bool} {n k : ℕ}
    (h : ∀ k<n,marked k=(value k).isSome) (hk : k≤n) :
    rank marked k=((List.range k).filterMap value).length := by
  induction k with
  | zero => rfl
  | succ k ih =>
    rw [rank_succ,ih (by omega),h k hk,List.range_succ,List.filterMap_append,List.length_append]
    cases hvalue : value k with
    | none => simp [hvalue]
    | some v => simp [hvalue]

/-- Spreading the listed values over their own mask gives every value back at its place, and
the marker elsewhere. -/
theorem spread_of_lists {missing : β} {value : ℕ → Option β} {n : ℕ} {marked : ℕ → Bool} {data : List β}
    (h : Lists value n marked data) {k : ℕ} (hk : k<n) :
    spread missing marked data k=(value k).getD missing := by
  rw [spread,h.marks k hk]
  cases hvalue : value k with
  | none => rfl
  | some v =>
    obtain ⟨m,rfl⟩ := Nat.exists_eq_add_of_le (Nat.succ_le_of_lt hk)
    obtain ⟨more,rfl⟩ := h.lists
    have hrank := rank_eq_length h.marks hk.le
    have hdata : (List.range (k.succ+m)).filterMap value++more=
        (List.range k).filterMap value++v::(((List.range m).map (k.succ+·)).filterMap value++more) := by
      rw [List.range_add,List.range_succ,List.filterMap_append,List.filterMap_append]
      simp [hvalue]
    rw [if_pos (Option.isSome_some : (some v).isSome=true),hrank,hdata,List.getD_eq_getElem?_getD,
      List.getElem?_append_right le_rfl,Nat.sub_self]
    rfl

end Ranks

end NcdfPlugin.MaskedData
