import NcdfPlugin.NcdfEvenMap
import Mathlib.Tactic.Linarith
import Mathlib.Tactic.FieldSimp
import Mathlib.Tactic.Ring
import Mathlib.Tactic.NormNum

/-!
# Coordinates by the index formula

Of a coordinate array the loader keeps the two ends, in single precision, and
the mean step between them, which it also computes in single precision. It
does not look at the entries in between. The index formula therefore gives the
whole array exactly when the array is spaced by the kept step from an exact
first entry. Where single precision is exact on the mean step, this says that
the array is evenly spaced and that its ends survive the narrowing, and then
the last entry is always met as it was kept.
-/

namespace NcdfPlugin.NcdfCoordinates

open NcdfLibrary NcdfDiscovery NcdfTimeUnits NcdfMessage NcdfDialog NcdfEvenMap

section Arrays

variable {α : Type} [Field α]

/-- Consecutive entries are one given step apart. -/
def SpacedBy (step : α) (values : List α) : Prop :=
  ∀ k,k+1 < values.length → values.getD (k+1) 0-values.getD k 0=step

/-- Consecutive entries have one difference. -/
def EvenlySpaced (values : List α) : Prop := ∃ step,SpacedBy step values

/-- Coordinate of a node by the index formula. -/
def byIndex (first increment : α) (k : ℕ) : α := first+k*increment

/-- The index formula gives the array. -/
def Reproduces (first increment : α) (values : List α) : Prop :=
  ∀ k < values.length,byIndex first increment k=values.getD k 0

/-- An evenly spaced array is given by its first entry and its step. -/
theorem getD_of_spacedBy {values : List α} {step : α} (h : SpacedBy step values) {k : ℕ}
    (hk : k < values.length) : values.getD k 0=byIndex (values.getD 0 0) step k := by
  induction k with
  | zero => simp [byIndex]
  | succ k ih =>
    have hstep := h k hk
    rw [sub_eq_iff_eq_add] at hstep
    rw [hstep,ih (by omega),byIndex,byIndex]
    push_cast
    ring

/-- The index formula gives an array exactly when it starts from the first
entry and the entries are one increment apart. -/
theorem reproduces_iff_spacedBy {first increment : α} {values : List α} (hne : values≠[]) :
    Reproduces first increment values ↔
      SpacedBy increment values ∧ first=values.getD 0 0 := by
  have hpos := List.length_pos_of_ne_nil hne
  constructor
  · intro h
    refine ⟨fun k hk => ?_,by simpa [byIndex] using h 0 hpos⟩
    rw [←h (k+1) hk,←h k (by omega),byIndex,byIndex]
    push_cast
    ring
  · rintro ⟨hspaced,rfl⟩ k hk
    exact (getD_of_spacedBy hspaced hk).symm

variable [LinearOrder α]

/-- The narrowing keeps both ends of an array. -/
def EndsExact (env : Env α) (values : List α) : Prop :=
  firstBound env values=values.getD 0 0 ∧ lastBound env values=values.getD (values.length-1) 0

/-- The step that the loader computes for an array. -/
def keptStep (env : Env α) (values : List α) : α :=
  gridIncrement env (firstBound env values) (lastBound env values) values.length

/-- Single precision is exact where the loader computes the step of an array:
on the difference of the kept ends, on the number of steps and on the
quotient. -/
structure StepExact (env : Env α) (values : List α) : Prop where
  /-- The difference of the kept ends. -/
  difference : env.toFloat (lastBound env values-firstBound env values)=
    lastBound env values-firstBound env values
  /-- The number of steps. -/
  count : env.toFloat ((values.length-1 : ℕ) : α)=((values.length-1 : ℕ) : α)
  /-- The mean step. -/
  quotient : env.toFloat ((lastBound env values-firstBound env values)/((values.length-1 : ℕ) : α))=
    (lastBound env values-firstBound env values)/((values.length-1 : ℕ) : α)

omit [LinearOrder α] in
/-- Where the computation of the step is exact, the kept step is the mean step between the
two kept ends. -/
theorem keptStep_eq {env : Env α} {values : List α} (h : StepExact env values)
    (hlength : 2≤values.length) :
    keptStep env values=
      (lastBound env values-firstBound env values)/((values.length-1 : ℕ) : α) := by
  rw [keptStep,gridIncrement,h.difference,stepCount,if_pos (by omega),h.count,h.quotient]

variable [IsStrictOrderedRing α]

/-- With an exact step the index formula gives the last bound at the last
node. -/
theorem byIndex_last {env : Env α} {values : List α} (h : StepExact env values)
    (hlength : 2≤values.length) :
    byIndex (firstBound env values) (keptStep env values) (values.length-1)=
      lastBound env values := by
  have hne : ((values.length-1 : ℕ) : α)≠0 := Nat.cast_ne_zero.mpr (by omega)
  rw [byIndex,keptStep_eq h hlength]
  field_simp
  ring

/-- An evenly spaced array with exact ends is spaced by an exact step. -/
theorem spacedBy_keptStep {env : Env α} {values : List α} (h : StepExact env values)
    (heven : EvenlySpaced values) (hends : EndsExact env values) :
    SpacedBy (keptStep env values) values := by
  obtain ⟨step,hstep⟩ := heven
  intro k hk
  have hlength : 2≤values.length := by omega
  have hne : ((values.length-1 : ℕ) : α)≠0 := Nat.cast_ne_zero.mpr (by omega)
  have hend : values.getD (values.length-1) 0=values.getD 0 0+(values.length-1 : ℕ)*step :=
    getD_of_spacedBy hstep (by omega)
  rw [keptStep_eq h hlength,hends.1,hends.2,hend,add_sub_cancel_left,mul_div_cancel_left₀ _ hne]
  exact hstep k hk

/-- Where the step is exact, the index formula gives the whole array exactly
when the array is evenly spaced and its ends are exact. -/
theorem reproduces_iff {env : Env α} {values : List α} (hne : values≠[])
    (h : StepExact env values) :
    Reproduces (firstBound env values) (keptStep env values) values ↔
      EvenlySpaced values ∧ EndsExact env values := by
  rw [reproduces_iff_spacedBy hne]
  constructor
  · rintro ⟨hspaced,hfirst⟩
    refine ⟨⟨_,hspaced⟩,hfirst,?_⟩
    rcases Nat.lt_or_ge values.length 2 with hone | htwo
    · have hlast : values.length-1=0 := by omega
      rw [lastBound,hlast]
      exact hfirst
    · rw [←byIndex_last h htwo,getD_of_spacedBy hspaced (by omega),hfirst]
  · rintro ⟨heven,hends⟩
    exact ⟨spacedBy_keptStep h heven hends,hends.1⟩

end Arrays

section Files

variable {α : Type} [Field α] [LinearOrder α] [FloorRing α]

/-- An axis of a message: its array, and the index formula on it. The first
entry is met as it was kept, the whole array exactly when it is spaced by the
kept step from an exact first entry. Without rounding in that step, the last
entry is met as it was kept, and the whole array exactly when it is evenly
spaced with exact ends. -/
structure AxisFormula (env : Env α) (first increment : α) (length : ℕ) (values : List α) : Prop where
  /-- Number of entries. -/
  length_eq : values.length=length
  /-- The step of the message is the one computed from the kept ends. -/
  increment_eq : increment=keptStep env values
  /-- The first entry, narrowed. -/
  first_end : 0<length → byIndex first increment 0=env.toFloat (values.getD 0 0)
  /-- The whole array. -/
  whole : 0<length → (Reproduces first increment values ↔
    SpacedBy increment values ∧ env.toFloat (values.getD 0 0)=values.getD 0 0)
  /-- The last entry, narrowed. -/
  last_end : StepExact env values → 2≤length →
    byIndex first increment (length-1)=env.toFloat (values.getD (length-1) 0)
  /-- The whole array, by its own spacing. -/
  whole_exact : StepExact env values → 0<length →
    (Reproduces first increment values ↔ EvenlySpaced values ∧ EndsExact env values)

variable [IsStrictOrderedRing α]

omit [FloorRing α] in
/-- What a message keeps of a coordinate array, its first value and the kept step, is what
the formula starts from. -/
theorem axisFormula_bounds (env : Env α) (values : List α) :
    AxisFormula env (firstBound env values) (keptStep env values) values.length values where
  length_eq := rfl
  increment_eq := rfl
  first_end := fun _ => by simp [byIndex,firstBound]
  whole := fun hpos => reproduces_iff_spacedBy (List.ne_nil_of_length_pos hpos)
  last_end := fun hstep htwo => byIndex_last hstep htwo
  whole_exact := fun hstep hpos => reproduces_iff (List.ne_nil_of_length_pos hpos) hstep

/-- Coordinates of every file that nc_get accepts: each step it gives keeps first value and
step of the arrays it has read. -/
theorem coordinates_of_accepted (env : Env α) (s : MainDialog α) (filename : String) :
    ∀ m∈(ncGet env s filename).2.myDataVector,∃ lats lons,
      m.latValues=some lats ∧ m.lonValues=some lons ∧
      AxisFormula env m.firstGridPointLat m.jDirectionIncr m.latLength lats ∧
      AxisFormula env m.firstGridPointLong m.iDirectionIncr m.lonLength lons := by
  intro m hm
  rw [ncGet_eq] at hm
  obtain ⟨ids,info,coords,i,rfl⟩ := step_of_fileSteps hm
  exact ⟨coords.lats,coords.lons,rfl,rfl,axisFormula_bounds env coords.lats,
    axisFormula_bounds env coords.lons⟩

end Files

section Sample

/-- The latitudes of a file with two of them are given by the formula. -/
theorem coordinates_of_accepted_even :
    ∃ m∈(ncGet twoFiles {} "d\\a.nc").2.myDataVector,m.latValues=some [10,11] ∧
      Reproduces m.firstGridPointLat m.jDirectionIncr [10,11] := by
  have hmem : (some [10,11],2)∈(ncGet twoFiles {} "d\\a.nc").2.myDataVector.map
      fun m => (m.latValues,m.latLength) := by decide +kernel
  obtain ⟨m,hm,heq⟩ := List.mem_map.mp hmem
  obtain ⟨hvalues,hlength⟩ := Prod.mk.inj heq
  obtain ⟨lats,lons,hlats,-,hlat,-⟩ := coordinates_of_accepted twoFiles {} "d\\a.nc" m hm
  obtain rfl : lats=[10,11] := Option.some.inj (hlats.symm.trans hvalues)
  refine ⟨m,hm,hvalues,(hlat.whole_exact ⟨rfl,rfl,rfl⟩ (by omega)).mpr ⟨⟨1,fun k hk => ?_⟩,rfl,rfl⟩⟩
  obtain rfl : k=0 := by
    simp only [List.length_cons,List.length_nil] at hk
    omega
  norm_num

/-- A readable file with uneven latitudes. -/
def unevenEnv : Env ℚ :=
  sampleEnv fun _ => some (sampleFile [0] [0,1,3] [20,21] fun _ => [0,0,0,0,0,0])

/-- It is accepted, and its second latitude is not given by the formula. -/
theorem not_coordinates_uneven :
    (ncGet unevenEnv {} "a.nc").1=0 ∧
    ∃ m∈(ncGet unevenEnv {} "a.nc").2.myDataVector,m.latValues=some [0,1,3] ∧
      byIndex m.firstGridPointLat m.jDirectionIncr 1≠1 := by
  have hmem : (some [0,1,3],(3 : ℚ)/(1+1))∈(ncGet unevenEnv {} "a.nc").2.myDataVector.map
      fun m => (m.latValues,byIndex m.firstGridPointLat m.jDirectionIncr 1) := by decide +kernel
  obtain ⟨m,hm,heq⟩ := List.mem_map.mp hmem
  obtain ⟨hvalues,hnode⟩ := Prod.mk.inj heq
  refine ⟨by decide +kernel,m,hm,hvalues,?_⟩
  rw [hnode]
  norm_num

end Sample

end NcdfPlugin.NcdfCoordinates
