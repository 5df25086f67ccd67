import NcdfPlugin.NcdfSelection

/-!
# The shown step and the selected step

The selected position moves before the step is read in three of the four
handlers, and `readncdfFile` returns early for a message without data. The
two positions stay equal exactly while every selection delivers data, starts
without grids, or ends on the position it started from.
-/

namespace NcdfPlugin.NcdfShownStep

open NcdfLibrary NcdfMessage NcdfTimeStep NcdfReader NcdfDialog NcdfSelection GuardedRun

section Positions

variable {α : Type} [Field α] [LinearOrder α] [FloorRing α]

/-- Each loaded step carries its own position. -/
def Indexed (s : MainDialog α) : Prop := ∃ filename,StepsOf filename s.myDataVector

omit [LinearOrder α] [FloorRing α] in
/-- Where the files stay the same the steps keep their positions. -/
theorem Indexed.of_sameFiles {s s' : MainDialog α} (h : Indexed s) (hfiles : SameFiles s s') :
    Indexed s' := by
  obtain ⟨filename,hsteps⟩ := h
  exact ⟨filename,hfiles.steps filename hsteps⟩

omit [LinearOrder α] [FloorRing α] in
/-- A step found at a position is the step of that position. -/
theorem Indexed.timeIndex {s : MainDialog α} (h : Indexed s) {idx : ℤ} {m : DataMessage α}
    (hm : stepAt s.myDataVector idx=some m) : m.timeIndex=idx := by
  obtain ⟨filename,hsteps⟩ := h
  obtain ⟨k,rfl,hk⟩ := stepAt_some hm
  exact (hsteps k m hk).2

/-- nc_get numbers the steps that it makes. -/
theorem indexed_ncGet (env : Env α) (s : MainDialog α) (filename : String) :
    Indexed (ncGet env s filename).2 := by
  rw [ncGet_eq]
  exact ⟨filename,stepsOf_fileSteps env filename⟩

/-- Listing a file keeps the numbers. -/
theorem indexed_addFile {s : MainDialog α} (entry : String×Env α) (h : Indexed s) :
    Indexed (addFile s entry) := by
  unfold addFile
  split
  · unfold addChildren
    dsimp only
    split
    · exact h
    · exact indexed_ncGet entry.2 (beforeLoad s entry.1) (filePath s entry.1)
  · exact h

/-- A new directory keeps the numbers. -/
theorem indexed_onDirChanged {s : MainDialog α} (dir : String) (listing : DirListing α)
    (h : Indexed s) : Indexed (onDirChanged s dir listing) := by
  have hempty : Indexed {s with dirText := dir,treeFiles := []} := h
  exact run_invariant_all (fun _ entry hs => indexed_addFile entry hs) hempty listing.entries

/-- The click of a file node loads numbered steps. -/
theorem indexed_selectFileNode {s : MainDialog α} (env : Env α) (fn : String) (h : Indexed s) :
    Indexed (selectFileNode env s fn) := by
  unfold selectFileNode
  split
  · dsimp only
    split
    · exact indexed_ncGet env s (filePath s fn)
    · exact indexed_ncGet env s (filePath s fn)
  · exact h

/-- A change of file loads numbered steps. -/
theorem indexed_switched (env : Env α) (s : MainDialog α) (filename : String) :
    Indexed (switched env s filename) :=
  indexed_ncGet env (beforeSwitch s) filename

/-- Every selection keeps the numbers. -/
theorem indexed_handleSelection {s : MainDialog α} (env : Env α) (selection : Selection)
    (h : Indexed s) : Indexed (handleSelection env s selection).1 := by
  cases selection with
  | stepNode fn k =>
    change Indexed (selectStepNode env s fn k).1
    rcases selectStepNode_cases env s fn k with
      ⟨-,heq⟩ | ⟨-,-,heq⟩ | ⟨-,-,-,heq⟩ | ⟨-,-,-,heq⟩
    · rw [heq]
      exact h
    · rw [heq]
      exact h.of_sameFiles (sameFiles_selectLoadedStep env s k)
    · rw [heq]
      exact indexed_ncGet env _ _
    · rw [heq]
      exact (indexed_switched env s _).of_sameFiles (sameFiles_selectLoadedStep env _ k)
  | timeChoice idx => exact h.of_sameFiles (sameFiles_onTimeChange env s idx)
  | slider idx => exact h.of_sameFiles (sameFiles_onTimeline env s idx)
  | prevNext idx => exact h.of_sameFiles (sameFiles_readData env s idx)

/-- Positions are right in every reachable dialog. -/
theorem indexed_of_reachable {s : MainDialog α} (h : Reachable s) : Indexed s := by
  obtain ⟨events,rfl⟩ := h
  refine run_invariant_all (fun s e hs => ?_) ⟨"",stepsOf_nil _⟩ events
  cases e with
  | dirChanged dir listing => exact indexed_onDirChanged dir listing hs
  | fileNode env fn => exact indexed_selectFileNode env fn hs
  | select env selection => exact indexed_handleSelection env selection hs

end Positions

section Shown

variable {α : Type} [Field α] [LinearOrder α]

/-- While grids are loaded, the displayed message is the selected step. -/
def Shown (s : MainDialog α) : Prop :=
  s.gui.loaded → s.gui.myMessage.timeIndex=s.lastSelectedTimeIndex

instance (s : MainDialog α) : Decidable (Shown s) :=
  inferInstanceAs (Decidable (s.gui.loaded → _=_))

/-- A read that succeeds and delivers data, a display without grids, or a
selection of the position that is selected already. -/
def Shows (s : MainDialog α) (idx : ℤ) (read : Bool×DataMessage α) : Prop :=
  (read.1=true ∧ hasAnyData read.2=true) ∨ ¬s.gui.loaded ∨ idx=s.lastSelectedTimeIndex

/-- What a switch shows is what it selects exactly under that condition. -/
theorem shown_switched_iff {env : Env α} {s : MainDialog α} {idx : ℤ}
    {read : Bool×DataMessage α} {out : MainDialog α×Option (DataMessage α)}
    (h : Switched env s idx read out) (hindex : read.1=true → read.2.timeIndex=idx)
    (hs : Shown s) : Shown out.1 ↔ Shows s idx read := by
  by_cases hdata : read.1=true ∧ hasAnyData read.2=true
  · refine ⟨fun _ => Or.inl hdata,fun _ _ => ?_⟩
    rw [h.gui,h.last,if_pos hdata.1,(readncdfFile_shown hdata.2).timeIndex]
    exact hindex hdata.1
  · have hgui : out.1.gui=s.gui := by
      rw [h.gui]
      split
      · rename_i hok
        exact readncdfFile_noData (by simpa using fun hany => hdata ⟨hok,hany⟩)
      · rfl
    unfold Shown Shows
    rw [hgui,h.last]
    constructor
    · intro hshown
      by_cases hloaded : s.gui.loaded
      · exact Or.inr (Or.inr ((hshown hloaded).symm.trans (hs hloaded)))
      · exact Or.inr (Or.inl hloaded)
    · rintro (hread | hempty | hsame) hloaded
      · exact absurd hread hdata
      · exact absurd hloaded hempty
      · rw [hsame]
        exact hs hloaded

/-- Condition on one selection, on the state before it and on the answer of
its read. Loading another file always meets it. -/
def KeepsShown (s : MainDialog α) : Env α×Selection → Prop
  | (env,.stepNode fn k) => hasStepNode s fn k=true → filePath s fn=s.currentFilePath →
      ∀ m∈stepAt s.myDataVector k,Shows s k (copiedRead env s m)
  | (env,.timeChoice idx) =>
      ∀ m∈stepAt s.myDataVector idx,Shows s idx (true,(copiedRead env s m).2)
  | (env,.slider idx) =>
      ∀ m∈stepAt s.myDataVector idx,Shows s idx (true,(copiedRead env s m).2)
  | (env,.prevNext idx) =>
      ∀ m∈stepAt (releasedVector s) idx,(readTimeStepData env s.cache m).1=true →
        Shows s idx (readTimeStepData env s.cache m)

/-- A step selected among the loaded ones is shown exactly when its read delivers data,
nothing is on display or it was selected already. -/
theorem shown_selectLoadedStep_iff {env : Env α} {s : MainDialog α} {idx : ℤ} (hi : Indexed s)
    (hs : Shown s) : Shown (selectLoadedStep env s idx).1 ↔
      ∀ m∈stepAt s.myDataVector idx,Shows s idx (copiedRead env s m) := by
  cases h : stepAt s.myDataVector idx with
  | none =>
    rw [selectLoadedStep_none h]
    exact ⟨fun _ m hm => absurd hm (by simp),fun _ => hs⟩
  | some m =>
    rw [shown_switched_iff (selectLoadedStep_some h)
      (fun _ => (sameStep_copiedRead env s m).timeIndex.trans (hi.timeIndex h)) hs]
    simp

/-- The choice of a time and the slider do not check their read, and share the condition
under which they show what they select. -/
theorem shown_unchecked_iff {env : Env α} {s : MainDialog α} {idx : ℤ}
    {out : MainDialog α×Option (DataMessage α)} (hi : Indexed s) (hs : Shown s)
    (hcases : ((stepAt s.myDataVector idx=none ∨ idx=s.lastSelectedTimeIndex) ∧ out=(s,none)) ∨
      ∃ m,stepAt s.myDataVector idx=some m ∧
        Switched env s idx (true,(copiedRead env s m).2) out) :
    Shown out.1 ↔
      ∀ m∈stepAt s.myDataVector idx,Shows s idx (true,(copiedRead env s m).2) := by
  rcases hcases with ⟨hnone | hlast,hout⟩ | ⟨m,h,hswitched⟩
  · rw [hout,hnone]
    exact ⟨fun _ m hm => absurd hm (by simp),fun _ => hs⟩
  · rw [hout]
    exact ⟨fun _ m _ => Or.inr (Or.inr hlast),fun _ => hs⟩
  · rw [shown_switched_iff hswitched
      (fun _ => (sameStep_copiedRead env s m).timeIndex.trans (hi.timeIndex h)) hs,h]
    simp

/-- A step read by its position is shown exactly when a read that succeeds delivers data,
nothing is on display or it was selected already. -/
theorem shown_readData_iff {env : Env α} {s : MainDialog α} {idx : ℤ} (hi : Indexed s)
    (hs : Shown s) : Shown (readData env s idx).1 ↔
      ∀ m∈stepAt (releasedVector s) idx,(readTimeStepData env s.cache m).1=true →
        Shows s idx (readTimeStepData env s.cache m) := by
  cases h : stepAt (releasedVector s) idx with
  | none =>
    rw [readData_none h]
    exact ⟨fun _ m hm => absurd hm (by simp),fun _ => hs⟩
  | some m =>
    have hreleased : m.timeIndex=idx := by
      obtain ⟨filename,hsteps⟩ := hi
      obtain ⟨k,rfl,hk⟩ := stepAt_some h
      exact (stepsOf_clearStep _ hsteps k m hk).2
    have hindex := (sameStep_readTimeStepData env s.cache m).timeIndex.trans hreleased
    rw [shown_switched_iff (readData_some h) (fun hok => by rw [if_pos hok]; exact hindex) hs]
    by_cases hok : (readTimeStepData env s.cache m).1=true
    · simp [hok]
    · simp [Shows,hok]

variable [FloorRing α]

/-- One selection of a time step. -/
def selectionStep (s : MainDialog α) (e : Env α×Selection) : MainDialog α :=
  (handleSelection e.1 s e.2).1

/-- A change of file releases the grids, after which any outcome is shown. -/
theorem shown_switchedFile {env : Env α} {s : MainDialog α} (filename : String) (k : ℕ) :
    Shown (selectLoadedStep env (switched env s filename) k).1 := by
  have hempty : ¬(switched env s filename).gui.loaded := by
    unfold switched
    rw [ncGet_eq]
    exact not_loaded_freeGrids s.gui
  rw [shown_selectLoadedStep_iff (indexed_switched env s filename)
    fun hloaded => absurd hloaded hempty]
  exact fun m _ => Or.inr (Or.inl hempty)

/-- Exactness of the condition for one selection. -/
theorem shown_selectionStep_iff (s : MainDialog α) (e : Env α×Selection) (hi : Indexed s)
    (hs : Shown s) : Shown (selectionStep s e) ↔ KeepsShown s e := by
  obtain ⟨env,selection⟩ := e
  cases selection with
  | stepNode fn k =>
    change Shown (selectStepNode env s fn k).1 ↔ _
    unfold KeepsShown
    rcases selectStepNode_cases env s fn k with
      ⟨hnode,heq⟩ | ⟨hnode,hpath,heq⟩ | ⟨-,hpath,-,heq⟩ | ⟨-,hpath,-,heq⟩
    · rw [heq]
      exact ⟨fun _ htrue => absurd htrue (by simp [hnode]),fun _ => hs⟩
    · rw [heq,shown_selectLoadedStep_iff hi hs]
      exact ⟨fun h _ _ => h,fun h => h hnode hpath⟩
    · rw [heq,ncGet_eq]
      exact ⟨fun _ _ hsame => absurd hsame hpath,
        fun _ hloaded => absurd hloaded (not_loaded_freeGrids s.gui)⟩
    · rw [heq]
      exact ⟨fun _ _ hsame => absurd hsame hpath,fun _ => shown_switchedFile _ k⟩
  | timeChoice idx =>
    exact shown_unchecked_iff hi hs (onTimeChange_cases env s idx)
  | slider idx =>
    exact shown_unchecked_iff hi hs (onTimeline_cases env s idx)
  | prevNext idx => exact shown_readData_iff hi hs

/-- From any reachable dialog that shows its selected step, a sequence of
selections shows the selected step after each of them exactly when every one
of them meets the condition. -/
theorem shown_along_iff {s : MainDialog α} (hreach : Reachable s) (hs : Shown s)
    (selections : List (Env α×Selection)) :
    Along selectionStep (fun s e => Shown (selectionStep s e)) s selections ↔
      Along selectionStep KeepsShown s selections :=
  along_good_iff (fun _ e hi => indexed_handleSelection e.1 e.2 hi)
    (fun s e hi hgood => shown_selectionStep_iff s e hi hgood) (indexed_of_reachable hreach) hs

end Shown

section Sample

/-- The dialog after the directory with two readable files was entered. -/
def twoFilesEntered : MainDialog ℚ := dialogStep {} enterTwoFiles

/-- A step of the tree, then another one with the slider while the file can
no longer be opened. -/
def failingSlider : List (Env ℚ×Selection) :=
  [(twoFiles,.stepNode "b.nc" 0),(sampleEnv fun _ => none,.slider 1)]

/-- A step of the tree, the next one, and the first one again. -/
def workingSelections : List (Env ℚ×Selection) :=
  [(twoFiles,.stepNode "b.nc" 0),(twoFiles,.slider 1),(twoFiles,.prevNext 0)]

/-- A run of selections over two files, all of whose reads deliver data. -/
theorem shown_along_iff_working :
    Along selectionStep (fun s e => Shown (selectionStep s e)) twoFilesEntered
        workingSelections ↔
      Along selectionStep KeepsShown twoFilesEntered workingSelections :=
  shown_along_iff ⟨[enterTwoFiles],rfl⟩ (by decide +kernel) workingSelections

/-- After the failing read the slider's step is selected and the tree's step
is shown. -/
theorem not_shown_along :
    ¬Along selectionStep (fun s e => Shown (selectionStep s e)) twoFilesEntered failingSlider := by
  rintro ⟨-,hshown,-⟩
  revert hshown
  decide +kernel

end Sample

end NcdfPlugin.NcdfShownStep
