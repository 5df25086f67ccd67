import NcdfPlugin.NcdfCalls

/-!
# At most one loaded step

Values of a step are kept in its message or in a copy of it. Four handlers
move the selected position. The tree, the slider and the previous and next
buttons release the step they leave; the time choice does not. Steps loaded
in place by the buttons stay loaded when the time choice moves on, and this
is the only way to a second loaded step.
-/

namespace NcdfPlugin.NcdfLoadedStep

open NcdfLibrary NcdfMessage NcdfTimeStep NcdfReader NcdfDialog NcdfSelection NcdfCalls GuardedRun

section Buffers

variable {α : Type} [Field α]

/-- A message without value buffers. -/
structure Unloaded (m : DataMessage α) : Prop where
  /-- No eastward current. -/
  ucurr : m.ucurr=none
  /-- No northward current. -/
  vcurr : m.vcurr=none
  /-- No latitudes of current values. -/
  uvlats : m.uvlats=none
  /-- No longitudes of current values. -/
  uvlons : m.uvlons=none
  /-- No sea temperature. -/
  sst : m.sst=none
  /-- No salinity. -/
  salinity : m.salinity=none

/-- A message that was cleared has no value buffers. -/
theorem unloaded_clear (m : DataMessage α) : Unloaded m.clear := ⟨rfl,rfl,rfl,rfl,rfl,rfl⟩

/-- A message without its values has no value buffers. -/
theorem unloaded_emptied (m : DataMessage α) : Unloaded (emptied m) := ⟨rfl,rfl,rfl,rfl,rfl,rfl⟩

variable [LinearOrder α]

/-- A read that fails leaves no values in a message that had none before. -/
theorem unloaded_failedRead {env : Env α} {cache : FileCache} {m : DataMessage α}
    (hread : (readTimeStepData env cache m).1=false) (hm : Unloaded m) :
    Unloaded (readTimeStepData env cache m).2 := by
  unfold readTimeStepData at hread ⊢
  split
  · exact hm
  next hloaded =>
    rw [if_neg hloaded] at hread
    split
    · exact unloaded_emptied m
    next hopen =>
      rw [hopen] at hread
      dsimp only at hread
      split
      · exact unloaded_emptied m
      next hstep =>
        rw [hstep] at hread
        cases hread

variable [FloorRing α]

/-- Steps come without values from a load. -/
theorem unloaded_fileSteps (env : Env α) (filename : String) :
    ∀ m∈fileSteps env filename,Unloaded m := by
  intro m hm
  obtain ⟨ids,info,coords,i,rfl⟩ := step_of_fileSteps hm
  exact ⟨rfl,rfl,rfl,rfl,rfl,rfl⟩

end Buffers

section Vector

variable {α : Type} [Field α]

/-- Every step but the one at a position is unloaded. -/
def UnloadedExcept (vector : List (DataMessage α)) (last : ℤ) : Prop :=
  ∀ (k : ℕ) (m : DataMessage α),vector[k]? = some m → (k : ℤ)≠last → Unloaded m

/-- The step at a position is unloaded, or there is no such step. -/
def UnloadedAt (vector : List (DataMessage α)) (i : ℤ) : Prop := ∀ m,stepAt vector i=some m → Unloaded m

/-- Where no step is loaded, none but the selected one is, whichever that is. -/
theorem unloadedExcept_of_all {vector : List (DataMessage α)} (h : ∀ m∈vector,Unloaded m)
    (last : ℤ) : UnloadedExcept vector last := fun _ m hm _ => h m (List.mem_of_getElem? hm)

/-- Moving the position is harmless exactly when the step left behind is
unloaded. -/
theorem unloadedExcept_move_iff {vector : List (DataMessage α)} {last idx : ℤ}
    (h : UnloadedExcept vector last) (hne : idx≠last) :
    UnloadedExcept vector idx ↔ UnloadedAt vector last := by
  constructor
  · intro hidx m hm
    obtain ⟨k,rfl,hk⟩ := stepAt_some hm
    exact hidx k m hk hne.symm
  · intro hlast k m hk _
    by_cases hkl : (k : ℤ)=last
    · exact hlast m (by rw [←hkl,stepAt_ofNat,hk])
    · exact h k m hk hkl

/-- After the release of the position every step is unloaded. -/
theorem unloaded_clearStep {vector : List (DataMessage α)} {last : ℤ}
    (h : UnloadedExcept vector last) : ∀ m∈clearStep vector last,Unloaded m := by
  intro m hm
  obtain ⟨k,hk⟩ := List.mem_iff_getElem?.mp hm
  unfold clearStep at hk
  split at hk
  next hin =>
    rw [List.getElem?_modify] at hk
    obtain ⟨old,hold,rfl⟩ := Option.map_eq_some_iff.mp hk
    split
    · exact unloaded_clear old
    next hne => exact h k old hold (by omega)
  next hout =>
    have hk' := (List.getElem?_eq_some_iff.mp hk).1
    exact h k m hk (by omega)

/-- One replaced step may be loaded. -/
theorem unloadedExcept_set {vector : List (DataMessage α)} (h : ∀ m∈vector,Unloaded m) (k : ℕ)
    (read : DataMessage α) : UnloadedExcept (vector.set k read) k := by
  intro j m hj hne
  rw [List.getElem?_set_ne (by omega)] at hj
  exact h m (List.mem_of_getElem? hj)

/-- A step that is replaced by one without values keeps all steps unloaded. -/
theorem unloaded_set {vector : List (DataMessage α)} (h : ∀ m∈vector,Unloaded m) (k : ℕ)
    {read : DataMessage α} (hread : Unloaded read) : ∀ m∈vector.set k read,Unloaded m := by
  intro m hm
  rcases List.mem_or_eq_of_mem_set hm with hold | rfl
  · exact h m hold
  · exact hread

end Vector

section Selected

variable {α : Type} [Field α]

/-- Only the selected step may be loaded. -/
def OnlySelectedLoaded (s : MainDialog α) : Prop :=
  UnloadedExcept s.myDataVector s.lastSelectedTimeIndex

variable [LinearOrder α]

/-- A step that is selected from the loaded ones is the only one that is read. -/
theorem onlySelected_selectLoadedStep {env : Env α} {s : MainDialog α} (h : OnlySelectedLoaded s)
    (idx : ℤ) : OnlySelectedLoaded (selectLoadedStep env s idx).1 := by
  unfold selectLoadedStep
  split
  · exact h
  next m hm =>
    have hvector : UnloadedExcept
        (if s.lastSelectedTimeIndex≠idx then releasedVector s else s.myDataVector) idx := by
      split
      next => exact unloadedExcept_of_all (unloaded_clearStep h) idx
      next hlast => exact not_not.mp hlast ▸ h
    generalize (if s.lastSelectedTimeIndex≠idx then releasedVector s else s.myDataVector)=vector
      at hvector ⊢
    dsimp only
    split
    · exact hvector
    · exact hvector

/-- The slider frees the step that it leaves before it reads the next one. -/
theorem onlySelected_onTimeline {env : Env α} {s : MainDialog α} (h : OnlySelectedLoaded s)
    (idx : ℤ) : OnlySelectedLoaded (onTimeline env s idx).1 := by
  unfold onTimeline
  split
  · exact h
  · split
    · exact h
    · exact unloadedExcept_of_all (unloaded_clearStep h) idx

/-- Reading a step by its position frees the selected one first, so no two are loaded. -/
theorem onlySelected_readData {env : Env α} {s : MainDialog α} (h : OnlySelectedLoaded s)
    (idx : ℤ) : OnlySelectedLoaded (readData env s idx).1 := by
  have hreleased := unloaded_clearStep h
  unfold readData
  split
  · exact h
  next m hm =>
    obtain ⟨k,rfl,hk⟩ := stepAt_some hm
    dsimp only
    split
    next hok => exact unloadedExcept_set hreleased k _
    next hfail =>
      have hm' := hreleased m (List.mem_of_getElem? hk)
      have hread := unloaded_failedRead (Bool.eq_false_of_not_eq_true hfail) hm'
      exact unloadedExcept_of_all (unloaded_set hreleased k hread) _

/-- The time choice moves to another step without releasing a loaded one. -/
def LeavesLoaded (s : MainDialog α) (idx : ℤ) : Prop :=
  (stepAt s.myDataVector idx).isSome ∧ idx≠s.lastSelectedTimeIndex ∧
    ¬UnloadedAt s.myDataVector s.lastSelectedTimeIndex

/-- The time choice is harmless exactly when it leaves no loaded step. -/
theorem onlySelected_onTimeChange_iff {env : Env α} {s : MainDialog α} (h : OnlySelectedLoaded s)
    (idx : ℤ) : OnlySelectedLoaded (onTimeChange env s idx).1 ↔ ¬LeavesLoaded s idx := by
  unfold onTimeChange LeavesLoaded
  cases hstep : stepAt s.myDataVector idx with
  | none => simpa using h
  | some m =>
    dsimp only
    by_cases hne : idx≠s.lastSelectedTimeIndex
    · rw [if_pos hne]
      refine (unloadedExcept_move_iff h hne).trans ?_
      simp [hne]
    · rw [if_neg hne]
      simpa [hne] using h

variable [FloorRing α]

/-- nc_get leaves steps without value buffers, and selects none. -/
theorem onlySelected_ncGet (env : Env α) (s : MainDialog α) (filename : String) :
    OnlySelectedLoaded (ncGet env s filename).2 := by
  rw [ncGet_eq]
  exact unloadedExcept_of_all (unloaded_fileSteps env filename) _

/-- Listing the steps of a file reads none of them. -/
theorem onlySelected_addChildren (env : Env α) {s : MainDialog α} (h : OnlySelectedLoaded s)
    (fn : String) : OnlySelectedLoaded (addChildren env s fn).1 := by
  have hload := onlySelected_ncGet env (beforeLoad s fn) (filePath s fn)
  unfold addChildren
  dsimp only
  split
  · exact h
  · exact hload

/-- Listing a file reads no step. -/
theorem onlySelected_addFile {s : MainDialog α} (entry : String×Env α) (h : OnlySelectedLoaded s) :
    OnlySelectedLoaded (addFile s entry) := by
  unfold addFile
  split
  · exact onlySelected_addChildren entry.2 h entry.1
  · exact h

/-- The click of a file node reads no step. -/
theorem onlySelected_selectFileNode {env : Env α} {s : MainDialog α} (h : OnlySelectedLoaded s)
    (fn : String) : OnlySelectedLoaded (selectFileNode env s fn) := by
  unfold selectFileNode
  split
  · rw [ncGet_eq]
    have hsteps := unloaded_fileSteps env (filePath s fn)
    dsimp only
    split
    · exact unloadedExcept_of_all hsteps _
    · exact unloadedExcept_of_all hsteps _
  · exact h

/-- The click of a step node selects among the loaded steps, after a change of file where
the node is of another one. -/
theorem onlySelected_selectStepNode {env : Env α} {s : MainDialog α} (h : OnlySelectedLoaded s)
    (fn : String) (k : ℕ) : OnlySelectedLoaded (selectStepNode env s fn k).1 := by
  have hload := onlySelected_ncGet env (beforeSwitch s) (filePath s fn)
  rcases selectStepNode_cases env s fn k with ⟨-,hout⟩ | ⟨-,-,hout⟩ | ⟨-,-,-,hout⟩ | ⟨-,-,-,hout⟩
  · rw [hout]
    exact h
  · rw [hout]
    exact onlySelected_selectLoadedStep h k
  · rw [hout]
    exact hload
  · rw [hout]
    exact onlySelected_selectLoadedStep (s:=switched env s (filePath s fn)) hload k

/-- A call of the time choice leaves no loaded step; other calls are free. -/
def LeavesUnloaded (s : MainDialog α) : Call α → Prop
  | .handler (.select _ (.timeChoice idx)) => ¬LeavesLoaded s idx
  | _ => True

/-- Exactness of the condition for one call. -/
theorem onlySelected_callStep_iff (s : MainDialog α) (call : Call α) (h : OnlySelectedLoaded s) :
    OnlySelectedLoaded (callStep s call) ↔ LeavesUnloaded s call := by
  cases call with
  | handler e =>
    cases e with
    | dirChanged dir listing =>
      have hstart : OnlySelectedLoaded {s with dirText := dir,treeFiles := []} := h
      have hfiles := run_invariant_all (fun _ entry hs => onlySelected_addFile entry hs) hstart
        listing.entries
      exact iff_of_true hfiles trivial
    | fileNode env fn => exact iff_of_true (onlySelected_selectFileNode h fn) trivial
    | select env selection =>
      cases selection with
      | stepNode fn k => exact iff_of_true (onlySelected_selectStepNode h fn k) trivial
      | timeChoice idx => exact onlySelected_onTimeChange_iff h idx
      | slider idx => exact iff_of_true (onlySelected_onTimeline h idx) trivial
      | prevNext idx => exact iff_of_true (onlySelected_readData h idx) trivial
  | ncGet env filename => exact iff_of_true (onlySelected_ncGet env s filename) trivial
  | addChildren env fn => exact iff_of_true (onlySelected_addChildren env h fn) trivial
  | readncdfFile env position =>
    refine iff_of_true ?_ trivial
    unfold callStep
    dsimp only
    split
    · exact h
    · exact h

/-- In a run from the initial dialog only the selected step is ever loaded
exactly when no call of the time choice leaves a loaded step behind. -/
theorem onlySelected_along_iff (calls : List (Call α)) :
    OnlySelectedLoaded ({} : MainDialog α) ∧
    (Along callStep (fun s call => OnlySelectedLoaded (callStep s call)) {} calls ↔
      Along callStep LeavesUnloaded {} calls) := by
  have hinitial : OnlySelectedLoaded ({} : MainDialog α) :=
    unloadedExcept_of_all (fun _ hm => by cases hm) _
  exact ⟨hinitial,along_good_iff (fun _ _ (_ : True) => trivial)
    (fun s call _ h => onlySelected_callStep_iff s call h) trivial hinitial⟩

end Selected

section Sample

/-- The directory is entered, a step is loaded by the buttons, and the other
one is chosen. -/
def buttonThenChoice : List (Call ℚ) :=
  [.handler enterTwoFiles,.handler (.select twoFiles (.prevNext 0)),
    .handler (.select twoFiles (.timeChoice 1))]

/-- Step zero stays loaded while step one is selected. -/
theorem not_onlySelected_choice : ¬OnlySelectedLoaded (run callStep {} buttonThenChoice) := by
  have hlast : (run callStep {} buttonThenChoice).lastSelectedTimeIndex=1 := by decide +kernel
  have hloaded : ((run callStep {} buttonThenChoice).myDataVector[0]?.bind (·.ucurr)).isSome=true := by
    decide +kernel
  intro h
  obtain ⟨m,hm,hu⟩ := Option.bind_eq_some_iff.mp (Option.eq_some_of_isSome hloaded)
  have hunloaded := h 0 m hm (by rw [hlast]; decide)
  rw [hunloaded.ucurr] at hu
  cases hu

end Sample

end NcdfPlugin.NcdfLoadedStep
