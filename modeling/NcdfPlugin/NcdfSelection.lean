import NcdfPlugin.NcdfDialog

/-!
# What selecting a time step does

The four selection handlers do the same three things in different orders:
they move the selected position, read the step, and show what was read. Each
handler gets one lemma that names the position it ends on, the read whose
result decides, and the grids it leaves; none of them touches the file the
steps come from.
-/

namespace NcdfPlugin.NcdfSelection

open NcdfLibrary NcdfMessage NcdfTimeStep NcdfReader NcdfDialog GuardedRun

section Outcomes

variable {α : Type} [Field α]

/-- Nothing about the tree and the loaded file changes, except that steps
may be replaced by messages of the same steps. -/
structure SameFiles (s s' : MainDialog α) : Prop where
  /-- The directory is the same. -/
  dirText : s'.dirText=s.dirText
  /-- The tree is the same. -/
  treeFiles : s'.treeFiles=s.treeFiles
  /-- The path of the loaded file is the same. -/
  currentFilePath : s'.currentFilePath=s.currentFilePath
  /-- Steps of a file stay steps of that file. -/
  steps : ∀ filename,StepsOf filename s.myDataVector → StepsOf filename s'.myDataVector

theorem SameFiles.refl (s : MainDialog α) : SameFiles s s := ⟨rfl,rfl,rfl,fun _ h => h⟩

variable [LinearOrder α]

/-- Outcome of a selection that ends on a position after a read: what was
read is shown and handed over when the flag says so. -/
structure Switched (env : Env α) (s : MainDialog α) (idx : ℤ) (read : Bool×DataMessage α)
    (out : MainDialog α×Option (DataMessage α)) : Prop where
  /-- Tree and loaded file stay. -/
  sameFiles : SameFiles s out.1
  /-- The position is the selected one. -/
  last : out.1.lastSelectedTimeIndex=idx
  /-- The grids are those of the read message, or the old ones. -/
  gui : out.1.gui=if read.1=true then readncdfFile env s.gui read.2 else s.gui
  /-- The message handed to `readncdfFile`. -/
  handed : out.2=if read.1=true then some read.2 else none

/-- The read of a step that was copied into `myData`. -/
def copiedRead (env : Env α) (s : MainDialog α) (m : DataMessage α) : Bool×DataMessage α :=
  readTimeStepData env s.cache (s.myData.assign m)

/-- What is read into the copy of a step is of that step. -/
theorem sameStep_copiedRead (env : Env α) (s : MainDialog α) (m : DataMessage α) :
    SameStep m (copiedRead env s m).2 :=
  (sameStep_assign s.myData m).trans (sameStep_readTimeStepData env s.cache _)

/-- Where there is no such step a selection does nothing. -/
theorem selectLoadedStep_none {env : Env α} {s : MainDialog α} {idx : ℤ}
    (h : stepAt s.myDataVector idx=none) : selectLoadedStep env s idx=(s,none) := by
  simp [selectLoadedStep,h]

/-- The tree handler ends on the node's position in any case, and shows the
step when the read succeeds. -/
theorem selectLoadedStep_some {env : Env α} {s : MainDialog α} {idx : ℤ} {m : DataMessage α}
    (h : stepAt s.myDataVector idx=some m) :
    Switched env s idx (copiedRead env s m) (selectLoadedStep env s idx) := by
  have hfiles : ∀ vector,(∀ filename,StepsOf filename s.myDataVector → StepsOf filename vector) →
      Switched env s idx (copiedRead env s m)
        (if (copiedRead env s m).1=true then
          handOver env {takeStep s vector idx m with myData := (copiedRead env s m).2}
            (copiedRead env s m).2
        else ({takeStep s vector idx m with myData := (copiedRead env s m).2},none)) := by
    intro vector hvector
    by_cases hok : (copiedRead env s m).1=true
    · rw [if_pos hok]
      exact ⟨⟨rfl,rfl,rfl,hvector⟩,rfl,(if_pos hok).symm,(if_pos hok).symm⟩
    · rw [if_neg hok]
      exact ⟨⟨rfl,rfl,rfl,hvector⟩,rfl,(if_neg hok).symm,(if_neg hok).symm⟩
  have hvector := hfiles (if s.lastSelectedTimeIndex≠idx then
      releasedVector s else s.myDataVector) (by
    intro filename hsteps
    split
    · exact stepsOf_clearStep _ hsteps
    · exact hsteps)
  unfold selectLoadedStep
  rw [h]
  exact hvector

/-- The time choice and the slider show the step whatever the read returns. -/
theorem showStep_switched {env : Env α} {s : MainDialog α} {vector : List (DataMessage α)}
    {idx : ℤ} {m : DataMessage α}
    (hvector : ∀ filename,StepsOf filename s.myDataVector → StepsOf filename vector) :
    Switched env s idx (true,(copiedRead env s m).2) (showStep env s vector idx m) :=
  ⟨⟨rfl,rfl,rfl,hvector⟩,rfl,rfl,rfl⟩

/-- The choice of a step that is there and not selected yet switches to it. -/
theorem onTimeChange_some {env : Env α} {s : MainDialog α} {idx : ℤ} {m : DataMessage α}
    (h : stepAt s.myDataVector idx=some m) (hne : idx≠s.lastSelectedTimeIndex) :
    Switched env s idx (true,(copiedRead env s m).2) (onTimeChange env s idx) := by
  unfold onTimeChange
  rw [h]
  dsimp only
  rw [if_pos hne]
  exact showStep_switched fun _ hsteps => hsteps

/-- The choice of a time does nothing when there is no such step, or when it is selected
already. -/
theorem onTimeChange_ignored {env : Env α} {s : MainDialog α} {idx : ℤ}
    (h : stepAt s.myDataVector idx=none ∨ idx=s.lastSelectedTimeIndex) :
    onTimeChange env s idx=(s,none) := by
  unfold onTimeChange
  rcases h with hnone | hlast
  · rw [hnone]
  · split
    · rfl
    · rw [if_neg (not_not.mpr hlast)]

/-- The slider switches to a step that is there and not selected yet. -/
theorem onTimeline_some {env : Env α} {s : MainDialog α} {idx : ℤ} {m : DataMessage α}
    (h : stepAt s.myDataVector idx=some m) (hne : idx≠s.lastSelectedTimeIndex) :
    Switched env s idx (true,(copiedRead env s m).2) (onTimeline env s idx) := by
  unfold onTimeline
  rw [if_neg hne,h]
  exact showStep_switched fun _ hsteps => stepsOf_clearStep _ hsteps

/-- The slider does nothing on the selected step, or where there is none. -/
theorem onTimeline_ignored {env : Env α} {s : MainDialog α} {idx : ℤ}
    (h : stepAt s.myDataVector idx=none ∨ idx=s.lastSelectedTimeIndex) :
    onTimeline env s idx=(s,none) := by
  unfold onTimeline
  rcases h with hnone | hlast
  · rw [hnone]
    split <;> rfl
  · rw [if_pos hlast]

/-- Where there is no such step nothing is read. -/
theorem readData_none {env : Env α} {s : MainDialog α} {idx : ℤ}
    (h : stepAt (releasedVector s) idx=none) : readData env s idx=(s,none) := by
  unfold readData
  rw [h]

/-- Previous and next end on the new position only when the read succeeds. -/
theorem readData_some {env : Env α} {s : MainDialog α} {idx : ℤ} {m : DataMessage α}
    (h : stepAt (releasedVector s) idx=some m) :
    Switched env s
      (if (readTimeStepData env s.cache m).1=true then idx else s.lastSelectedTimeIndex)
      (readTimeStepData env s.cache m) (readData env s idx) := by
  obtain ⟨k,rfl,hk⟩ := stepAt_some h
  have hvector : ∀ filename,StepsOf filename s.myDataVector →
      StepsOf filename ((releasedVector s).set k (readTimeStepData env s.cache m).2) :=
    fun filename hsteps => stepsOf_set (stepsOf_clearStep _ hsteps) hk
      (sameStep_readTimeStepData env s.cache m)
  unfold readData
  rw [h]
  dsimp only
  by_cases hok : (readTimeStepData env s.cache m).1=true
  · rw [if_pos hok,if_pos hok]
    exact ⟨⟨rfl,rfl,rfl,hvector⟩,rfl,(if_pos hok).symm,(if_pos hok).symm⟩
  · rw [if_neg hok,if_neg hok]
    exact ⟨⟨rfl,rfl,rfl,hvector⟩,rfl,(if_neg hok).symm,(if_neg hok).symm⟩

/-- No selection in the loaded file touches the tree or the file. -/
theorem sameFiles_selectLoadedStep (env : Env α) (s : MainDialog α) (idx : ℤ) :
    SameFiles s (selectLoadedStep env s idx).1 := by
  cases h : stepAt s.myDataVector idx with
  | none =>
    rw [selectLoadedStep_none h]
    exact SameFiles.refl s
  | some m => exact (selectLoadedStep_some h).sameFiles

/-- The time choice and the slider ignore the selection or switch to it,
whatever the read returns. -/
theorem unchecked_cases {env : Env α} {s : MainDialog α} {idx : ℤ}
    {out : MainDialog α×Option (DataMessage α)}
    (hignored : stepAt s.myDataVector idx=none ∨ idx=s.lastSelectedTimeIndex → out=(s,none))
    (hsome : ∀ m,stepAt s.myDataVector idx=some m → idx≠s.lastSelectedTimeIndex →
      Switched env s idx (true,(copiedRead env s m).2) out) :
    ((stepAt s.myDataVector idx=none ∨ idx=s.lastSelectedTimeIndex) ∧ out=(s,none)) ∨
      ∃ m,stepAt s.myDataVector idx=some m ∧ Switched env s idx (true,(copiedRead env s m).2) out := by
  by_cases hlast : idx=s.lastSelectedTimeIndex
  · exact Or.inl ⟨Or.inr hlast,hignored (Or.inr hlast)⟩
  · cases h : stepAt s.myDataVector idx with
    | none => exact Or.inl ⟨Or.inl rfl,hignored (Or.inl h)⟩
    | some m => exact Or.inr ⟨m,rfl,hsome m h hlast⟩

/-- What the choice of a time does, in all cases: nothing, or a switch to a step that it has
read. -/
theorem onTimeChange_cases (env : Env α) (s : MainDialog α) (idx : ℤ) :
    ((stepAt s.myDataVector idx=none ∨ idx=s.lastSelectedTimeIndex) ∧
        onTimeChange env s idx=(s,none)) ∨
      ∃ m,stepAt s.myDataVector idx=some m ∧
        Switched env s idx (true,(copiedRead env s m).2) (onTimeChange env s idx) :=
  unchecked_cases onTimeChange_ignored fun _ h hne => onTimeChange_some h hne

/-- What the slider does, in all cases: nothing, or a switch to a step that it has read. -/
theorem onTimeline_cases (env : Env α) (s : MainDialog α) (idx : ℤ) :
    ((stepAt s.myDataVector idx=none ∨ idx=s.lastSelectedTimeIndex) ∧
        onTimeline env s idx=(s,none)) ∨
      ∃ m,stepAt s.myDataVector idx=some m ∧
        Switched env s idx (true,(copiedRead env s m).2) (onTimeline env s idx) :=
  unchecked_cases onTimeline_ignored fun _ h hne => onTimeline_some h hne

/-- The choice of a time changes no file. -/
theorem sameFiles_onTimeChange (env : Env α) (s : MainDialog α) (idx : ℤ) :
    SameFiles s (onTimeChange env s idx).1 := by
  rcases onTimeChange_cases env s idx with ⟨-,hout⟩ | ⟨m,-,hswitched⟩
  · rw [hout]
    exact SameFiles.refl s
  · exact hswitched.sameFiles

/-- The slider changes no file. -/
theorem sameFiles_onTimeline (env : Env α) (s : MainDialog α) (idx : ℤ) :
    SameFiles s (onTimeline env s idx).1 := by
  rcases onTimeline_cases env s idx with ⟨-,hout⟩ | ⟨m,-,hswitched⟩
  · rw [hout]
    exact SameFiles.refl s
  · exact hswitched.sameFiles

/-- Reading a step changes no file. -/
theorem sameFiles_readData (env : Env α) (s : MainDialog α) (idx : ℤ) :
    SameFiles s (readData env s idx).1 := by
  cases h : stepAt (releasedVector s) idx with
  | none =>
    rw [readData_none h]
    exact SameFiles.refl s
  | some m => exact (readData_some h).sameFiles

/-- A step handed over by the tree handler is a step of the loaded file. -/
theorem selectLoadedStep_hands {env : Env α} {s : MainDialog α} {k : ℕ} {filename : String}
    {m : DataMessage α} (hsteps : StepsOf filename s.myDataVector)
    (h : (selectLoadedStep env s k).2=some m) : m.fileName=filename ∧ m.timeIndex=k := by
  cases hstep : stepAt s.myDataVector k with
  | none =>
    rw [selectLoadedStep_none hstep] at h
    cases h
  | some m₀ =>
    rw [(selectLoadedStep_some hstep).handed] at h
    split at h
    · obtain rfl := Option.some.inj h
      have hsame := sameStep_copiedRead env s m₀
      rw [hsame.fileName,hsame.timeIndex]
      rw [stepAt_ofNat] at hstep
      exact hsteps k m₀ hstep
    · cases h

end Outcomes

section FileSwitch

variable {α : Type} [Field α] [LinearOrder α] [FloorRing α]

/-- The dialog after a successful file switch, before the step is selected. -/
def switched (env : Env α) (s : MainDialog α) (filename : String) : MainDialog α :=
  {(ncGet env (beforeSwitch s) filename).2 with currentFilePath := filename}

/-- A time-step node of the tree selects in the loaded file, or switches to
its own file first; a failing switch ends there. -/
theorem selectStepNode_cases (env : Env α) (s : MainDialog α) (fn : String) (k : ℕ) :
    (hasStepNode s fn k=false ∧ selectStepNode env s fn k=(s,none)) ∨
    (hasStepNode s fn k=true ∧ filePath s fn=s.currentFilePath ∧
      selectStepNode env s fn k=selectLoadedStep env s k) ∨
    (hasStepNode s fn k=true ∧ filePath s fn≠s.currentFilePath ∧
      loadCode env (filePath s fn)≠0 ∧
      selectStepNode env s fn k=((ncGet env (beforeSwitch s) (filePath s fn)).2,none)) ∨
    (hasStepNode s fn k=true ∧ filePath s fn≠s.currentFilePath ∧
      loadCode env (filePath s fn)=0 ∧
      selectStepNode env s fn k=selectLoadedStep env (switched env s (filePath s fn)) k) := by
  have hcode : (ncGet env (beforeSwitch s) (filePath s fn)).1=loadCode env (filePath s fn) := by
    rw [ncGet_eq]
  unfold selectStepNode
  dsimp only
  by_cases hnode : hasStepNode s fn k=true
  · rw [if_pos hnode]
    by_cases hpath : filePath s fn=s.currentFilePath
    · rw [if_neg (not_not.mpr hpath)]
      exact Or.inr (Or.inl ⟨hnode,hpath,rfl⟩)
    · rw [if_pos hpath]
      by_cases hret : loadCode env (filePath s fn)=0
      · rw [if_neg (not_not.mpr (hcode.trans hret))]
        exact Or.inr (Or.inr (Or.inr ⟨hnode,hpath,hret,rfl⟩))
      · rw [if_pos (by rw [hcode]; exact hret)]
        exact Or.inr (Or.inr (Or.inl ⟨hnode,hpath,hret,rfl⟩))
  · rw [if_neg hnode]
    exact Or.inl ⟨by simpa using hnode,rfl⟩

end FileSwitch

end NcdfPlugin.NcdfSelection
