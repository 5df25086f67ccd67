import NcdfPlugin.NcdfDialog
import Mathlib.Tactic.Linarith

/-!
# Messages of evenly spaced files

The loader keeps of a coordinate array its ends, its length and the mean
step. For an evenly spaced array in exact arithmetic these are the nodes of
the array itself, in either direction.
-/

namespace NcdfPlugin.NcdfEvenMap

open NcdfLibrary NcdfDiscovery NcdfTimeUnits NcdfMessage NcdfDialog

/-- Evenly spaced coordinates of at least two nodes, rising or falling. -/
structure Axis (α : Type) [Field α] where
  /-- Coordinate of node zero. -/
  start : α
  /-- Difference from a node to the next. -/
  step : α
  /-- Number of nodes. -/
  count : ℕ
  /-- There are two nodes at least. -/
  two_le : 2 ≤ count
  /-- The nodes differ. -/
  step_ne : step≠0

section Axis

variable {α : Type} [Field α]

/-- Coordinate of a node. -/
def Axis.node (a : Axis α) (k : ℕ) : α := a.start+k*a.step

/-- Coordinate of the last node. -/
def Axis.last (a : Axis α) : α := a.node (a.count-1)

/-- The coordinate array. -/
def Axis.values (a : Axis α) : List α := (List.range a.count).map a.node

/-- An axis has a coordinate for each of its nodes. -/
@[simp] theorem Axis.values_length (a : Axis α) : a.values.length=a.count := by
  simp [Axis.values]

/-- The entry of a node in the coordinate array is the coordinate of the node. -/
theorem Axis.values_getD (a : Axis α) {k : ℕ} (hk : k < a.count) :
    a.values.getD k 0=a.node k := by
  simp [Axis.values,hk]

@[simp] theorem Axis.node_zero (a : Axis α) : a.node 0=a.start := by simp [Axis.node]

/-- The last node is count minus one steps from the first. -/
theorem Axis.last_eq (a : Axis α) : a.last=a.start+(a.count-1)*a.step := by
  have hcount := a.two_le
  rw [Axis.last,Axis.node,Nat.cast_sub (by omega),Nat.cast_one]

/-- An axis has at least one interval between its nodes. -/
theorem Axis.count_sub_one_pos [LinearOrder α] [IsStrictOrderedRing α] (a : Axis α) :
    0<(a.count : α)-1 := by
  have htwo : (2 : α)≤a.count := by exact_mod_cast a.two_le
  linarith

end Axis

variable {α : Type} [Field α] [LinearOrder α] [FloorRing α]

/-- A message that the loader builds, without rounding, from two evenly
spaced coordinate arrays. -/
def EvenlyLoaded (m : DataMessage α) (lat lon : Axis α) : Prop :=
  ∃ (env : Env α) (filename : String) (ids : VarIds) (info : CFTimeInfo α) (times : List α)
    (i : ℕ),(∀ x,env.toFloat x=x) ∧
      m=stepMessage env filename ids info ⟨lat.values,lon.values,times⟩ i

/-- Geometry of a message that agrees with its axes. -/
structure OnAxes (m : DataMessage α) (lat lon : Axis α) : Prop where
  /-- Number of columns. -/
  columns : m.noPointsParallel=lon.count
  /-- Number of rows. -/
  rows : m.noPointsMeridian=lat.count
  /-- Row zero. -/
  firstLat : m.firstGridPointLat=lat.start
  /-- Last row. -/
  lastLat : m.lastGridPointLat=lat.last
  /-- Column zero. -/
  firstLong : m.firstGridPointLong=lon.start
  /-- Last column. -/
  lastLong : m.lastGridPointLong=lon.last
  /-- Step between columns. -/
  iIncr : m.iDirectionIncr=lon.step
  /-- Step between rows. -/
  jIncr : m.jDirectionIncr=lat.step
  /-- Length of the longitude array. -/
  lonLength : m.lonLength=lon.count
  /-- Length of the latitude array. -/
  latLength : m.latLength=lat.count

omit [FloorRing α] in
/-- Without rounding, the mean step of the ends is the step of the axis. -/
theorem gridIncrement_axis [IsStrictOrderedRing α] {env : Env α} (hexact : ∀ x,env.toFloat x=x)
    (a : Axis α) : gridIncrement env a.start a.last a.count=a.step := by
  have hcount := a.two_le
  have hne : (a.count : α)-1≠0 := by
    rw [sub_ne_zero]
    exact_mod_cast (by omega : a.count≠1)
  rw [gridIncrement,hexact,hexact,stepCount,if_pos (by omega),hexact,Nat.cast_sub (by omega),
    Nat.cast_one,a.last_eq]
  field_simp
  ring

/-- The loader keeps the nodes of evenly spaced arrays. -/
theorem EvenlyLoaded.onAxes [IsStrictOrderedRing α] {m : DataMessage α} {lat lon : Axis α}
    (h : EvenlyLoaded m lat lon) : OnAxes m lat lon := by
  obtain ⟨env,filename,ids,info,times,i,hexact,rfl⟩ := h
  have hfirst (a : Axis α) : firstBound env a.values=a.start := by
    have hcount := a.two_le
    rw [firstBound,hexact,a.values_getD (by omega),a.node_zero]
  have hlast (a : Axis α) : lastBound env a.values=a.last := by
    have hcount := a.two_le
    rw [lastBound,hexact,a.values_length,a.values_getD (by omega),Axis.last]
  constructor <;> simp [stepMessage,hfirst,hlast,gridIncrement_axis hexact]

section Sample

/-- A step of a file with the given axes. -/
def sampleMap (lat lon : Axis ℚ) : DataMessage ℚ :=
  stepMessage (sampleEnv fun _ => none) "map.nc" ⟨3,4,1,2,0,5,-1⟩ ⟨none,1,false⟩
    ⟨lat.values,lon.values,[0]⟩ 0

/-- The sample message is one that the loader builds from its two axes. -/
theorem evenlyLoaded_sampleMap (lat lon : Axis ℚ) : EvenlyLoaded (sampleMap lat lon) lat lon :=
  ⟨_,_,_,_,_,_,fun _ => rfl,rfl⟩

/-- Two nodes one degree apart. -/
def unitAxis : Axis ℚ := ⟨0,1,2,by decide,by decide⟩

/-- Two latitudes one degree apart, from north to south. -/
def southward : Axis ℚ := ⟨1,-1,2,by decide,by decide⟩

end Sample

end NcdfPlugin.NcdfEvenMap
