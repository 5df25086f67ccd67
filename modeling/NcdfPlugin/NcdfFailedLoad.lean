import NcdfPlugin.NcdfDialog

/-!
# What a failing load leaves behind

`addChildren` saves the loaded steps and the selected position before it
calls `nc_get`, and restores both when the load fails. The path and the time
choice are changed before the call, and the cached identifiers inside it, as
soon as the discovery is over. These three are not restored.
-/

namespace NcdfPlugin.NcdfFailedLoad

open NcdfLibrary NcdfDiscovery NcdfMessage NcdfTimeStep NcdfReader NcdfDialog

section Preservation

variable {α : Type} [Field α]

/-- Equality of every component that later reads depend on. -/
structure Preserved (s s' : MainDialog α) : Prop where
  /-- The loaded time steps are the same. -/
  myDataVector : s'.myDataVector=s.myDataVector
  /-- The selected position is the same. -/
  lastSelectedTimeIndex : s'.lastSelectedTimeIndex=s.lastSelectedTimeIndex
  /-- The path of the loaded file is the same. -/
  currentFilePath : s'.currentFilePath=s.currentFilePath
  /-- The time choice has the same entries. -/
  choiceTime : s'.choiceTime=s.choiceTime
  /-- The availability flags and cached identifiers are the same. -/
  cache : s'.cache=s.cache

variable [LinearOrder α] [FloorRing α]

/-- The load ends before the discovery, or discovers what is cached. -/
def DiscoveryUnchanged (env : Env α) (filename : String) (cache : FileCache) : Prop :=
  match openAndDiscover env filename with
  | .error _ => True
  | .ok (_,ids) => FileCache.ofIds ids=cache

omit [LinearOrder α] [FloorRing α] in
/-- That condition is about the cache after the load. -/
theorem cacheAfter_eq_iff (env : Env α) (filename : String) (cache : FileCache) :
    cacheAfter env filename cache=cache ↔ DiscoveryUnchanged env filename cache := by
  unfold cacheAfter DiscoveryUnchanged
  cases openAndDiscover env filename with
  | error e => exact ⟨fun _ => trivial,fun _ => rfl⟩
  | ok found => exact Iff.rfl

/-- The dialog after a failing load: steps and position restored, path and
time choice as set before the call, cached fields as the discovery left them. -/
theorem addChildren_failed {env : Env α} {s : MainDialog α} {fn : String}
    (h : (ncGet env (beforeLoad s fn) (filePath s fn)).1≠0) :
    (addChildren env s fn).1=
      {s with
        choiceTime := []
        currentFilePath := filePath s fn
        cache := cacheAfter env (filePath s fn) s.cache} := by
  unfold addChildren
  dsimp only
  rw [if_pos h,ncGet_eq]
  rfl

/-- A failing load changes nothing exactly when the path was already that
file's, the time choice was empty, and the discovery found what was cached. -/
theorem addChildren_failed_preserved_iff {env : Env α} {s : MainDialog α} {fn : String}
    (h : (ncGet env (beforeLoad s fn) (filePath s fn)).1≠0) :
    Preserved s (addChildren env s fn).1 ↔
      s.currentFilePath=filePath s fn ∧ s.choiceTime=[] ∧
        DiscoveryUnchanged env (filePath s fn) s.cache := by
  rw [addChildren_failed h,←cacheAfter_eq_iff]
  constructor
  · intro hp
    exact ⟨hp.currentFilePath.symm,hp.choiceTime.symm,hp.cache⟩
  · rintro ⟨hpath,hchoice,hcache⟩
    exact ⟨rfl,rfl,hpath.symm,hchoice.symm,hcache⟩

end Preservation

section Sample

/-- A file whose latitude variable cannot be found. -/
def noLatitude : NcFile ℚ :=
  {sampleSteps 1 with
    inqVarid := fun name => ["time","","lon","w","v","u"].findIdx? (· = name)}

/-- The file `a.nc` is readable, `b.nc` has no latitude. -/
def secondBroken : Env ℚ :=
  sampleEnv fun path =>
    if path="d\\a.nc" then some (sampleSteps 1)
    else if path="d\\b.nc" then some noLatitude else none

/-- The dialog after the directory `d` with the file `a.nc` was entered. -/
def afterFirst : MainDialog ℚ := onDirChanged {} "d" ⟨[("a.nc",secondBroken)],by decide⟩

/-- The dialog after the directory `d` with the unopenable `c.nc` alone was
entered. -/
def afterMissing : MainDialog ℚ := onDirChanged {} "d" ⟨[("c.nc",secondBroken)],by decide⟩

/-- Adding the file `c.nc`, which cannot be opened, a second time changes nothing that the
first time did not. -/
theorem addChildren_failed_preserved_iff_missing :
    Preserved afterMissing (addChildren secondBroken afterMissing "c.nc").1 ↔
      afterMissing.currentFilePath=filePath afterMissing "c.nc" ∧ afterMissing.choiceTime=[] ∧
        DiscoveryUnchanged secondBroken (filePath afterMissing "c.nc") afterMissing.cache :=
  addChildren_failed_preserved_iff (by decide +kernel)

/-- Adding `b.nc` after `a.nc` fails after its discovery, which leaves other
cached identifiers than those of the steps that stay loaded. -/
theorem addChildren_failed_changes :
    (ncGet secondBroken (beforeLoad afterFirst "b.nc") (filePath afterFirst "b.nc")).1≠0 ∧
      ¬Preserved afterFirst (addChildren secondBroken afterFirst "b.nc").1 := by
  refine ⟨by decide +kernel,fun h => ?_⟩
  have hcache := h.cache
  revert hcache
  decide +kernel

end Sample

end NcdfPlugin.NcdfFailedLoad
