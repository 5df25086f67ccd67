import NcdfPlugin.NcdfSelection

/-!
# Calls of the dialog's operations

Runs may also call the loader, the addition of one file and the grid reader
directly, outside of any handler. What a call does to the displayed grids is
a short list of operations on them: a release of all grids, or the display
of a message that the dialog holds.
-/

namespace NcdfPlugin.NcdfCalls

open NcdfLibrary NcdfMessage NcdfTimeStep NcdfReader NcdfDialog NcdfSelection GuardedRun

section Calls

variable {α : Type} [Field α]

/-- A handler of the dialog, or one of its operations called directly. -/
inductive Call (α : Type) [Zero α] where
  /-- A handler. -/
  | handler (e : DialogEvent α)
  /-- `nc_get`. -/
  | ncGet (env : Env α) (filename : String)
  /-- `addChildren`. -/
  | addChildren (env : Env α) (fn : String)
  /-- `readncdfFile` with a loaded step, or with `myData`. -/
  | readncdfFile (env : Env α) (position : Option ℕ)

/-- Message that the dialog holds at a position, or in `myData`. -/
def heldMessage (s : MainDialog α) : Option ℕ → Option (DataMessage α)
  | some k => s.myDataVector[k]?
  | none => some s.myData

/-- An operation on the displayed grids. -/
inductive GridOp (α : Type) [Field α] where
  /-- All grids are released. -/
  | free
  /-- A message is displayed. -/
  | display (env : Env α) (m : DataMessage α)

variable [LinearOrder α]

/-- Effect of an operation. -/
def applyOp (gui : GuiGrids α) : GridOp α → GuiGrids α
  | .free => gui.freeGrids
  | .display env m => readncdfFile env gui m

variable [FloorRing α]

/-- The dialog after a call. -/
def callStep (s : MainDialog α) : Call α → MainDialog α
  | .handler e => dialogStep s e
  | .ncGet env filename => (NcdfDialog.ncGet env s filename).2
  | .addChildren env fn => (NcdfDialog.addChildren env s fn).1
  | .readncdfFile env position =>
    match heldMessage s position with
    | some m => {s with gui := NcdfReader.readncdfFile env s.gui m}
    | none => s

/-- Whether a selection switches to another file. -/
def switchesFile (s : MainDialog α) : Selection → Bool
  | .stepNode fn k => hasStepNode s fn k && decide (filePath s fn≠s.currentFilePath)
  | _ => false

/-- Whether a file node replaces the displayed file. -/
def replacesFile (env : Env α) (s : MainDialog α) (fn : String) : Bool :=
  hasStepNode s fn 0 && decide (loadCode env (filePath s fn)=0) &&
    !(fileSteps env (filePath s fn)).isEmpty

/-- Operations on the grids that a call performs, in order. -/
def gridOps (s : MainDialog α) : Call α → List (GridOp α)
  | .handler (.select env selection) =>
    (if switchesFile s selection=true then [.free] else [])++
      ((handleSelection env s selection).2.map (GridOp.display env)).toList
  | .handler (.fileNode env fn) => if replacesFile env s fn=true then [.free] else []
  | .readncdfFile env position => ((heldMessage s position).map (GridOp.display env)).toList
  | _ => []

end Calls

section Displayed

variable {α : Type} [Field α] [LinearOrder α]

/-- The grids of an outcome are those of the message it handed over. -/
def Displays (env : Env α) (s : MainDialog α) (out : MainDialog α×Option (DataMessage α)) : Prop :=
  out.1.gui=(out.2.map (GridOp.display env)).toList.foldl applyOp s.gui

/-- A call that reads nothing has nothing to display. -/
theorem displays_none (env : Env α) (s : MainDialog α) : Displays env s (s,none) := rfl

/-- A switch of the step displays what it read, whatever it read it into. -/
theorem displays_of_switched {env : Env α} {s : MainDialog α} {idx : ℤ} {read : Bool×DataMessage α}
    {out : MainDialog α×Option (DataMessage α)} (h : Switched env s idx read out) :
    Displays env s out := by
  unfold Displays
  rw [h.gui,h.handed]
  by_cases hread : read.1=true
  · rw [if_pos hread,if_pos hread]
    rfl
  · rw [if_neg hread,if_neg hread]
    rfl

/-- A step that is taken from the loaded ones is displayed from its own message. -/
theorem displays_selectLoadedStep (env : Env α) (s : MainDialog α) (idx : ℤ) :
    Displays env s (selectLoadedStep env s idx) := by
  cases h : stepAt s.myDataVector idx with
  | none =>
    rw [selectLoadedStep_none h]
    exact displays_none env s
  | some m => exact displays_of_switched (selectLoadedStep_some h)

/-- The choice of a time displays the step of that time. -/
theorem displays_onTimeChange (env : Env α) (s : MainDialog α) (idx : ℤ) :
    Displays env s (onTimeChange env s idx) := by
  rcases onTimeChange_cases env s idx with ⟨-,hout⟩ | ⟨m,-,hswitched⟩
  · rw [hout]
    exact displays_none env s
  · exact displays_of_switched hswitched

/-- The slider displays the step it was moved to. -/
theorem displays_onTimeline (env : Env α) (s : MainDialog α) (idx : ℤ) :
    Displays env s (onTimeline env s idx) := by
  rcases onTimeline_cases env s idx with ⟨-,hout⟩ | ⟨m,-,hswitched⟩
  · rw [hout]
    exact displays_none env s
  · exact displays_of_switched hswitched

/-- A step that is read on its own is displayed as it was read. -/
theorem displays_readData (env : Env α) (s : MainDialog α) (idx : ℤ) :
    Displays env s (readData env s idx) := by
  cases h : stepAt (releasedVector s) idx with
  | none =>
    rw [readData_none h]
    exact displays_none env s
  | some m => exact displays_of_switched (readData_some h)

variable [FloorRing α]

/-- A node of another file releases the grids before anything is displayed. -/
theorem gui_selectStepNode (env : Env α) (s : MainDialog α) (fn : String) (k : ℕ) :
    (selectStepNode env s fn k).1.gui=
      (gridOps s (.handler (.select env (.stepNode fn k)))).foldl applyOp s.gui := by
  have hswitch : ∀ b,hasStepNode s fn k=b → switchesFile s (.stepNode fn k)=
      (b && decide (filePath s fn≠s.currentFilePath)) := fun b hb => by rw [switchesFile,hb]
  have hops : gridOps s (.handler (.select env (.stepNode fn k)))=
      (if switchesFile s (.stepNode fn k)=true then [.free] else [])++
        ((selectStepNode env s fn k).2.map (GridOp.display env)).toList := rfl
  rw [hops,List.foldl_append]
  rcases selectStepNode_cases env s fn k with ⟨hnode,hout⟩ | ⟨hnode,hpath,hout⟩ |
    ⟨hnode,hpath,-,hout⟩ | ⟨hnode,hpath,-,hout⟩
  · rw [hout,hswitch _ hnode,Bool.false_and,if_neg Bool.false_ne_true]
    rfl
  · rw [hout,hswitch _ hnode,decide_eq_false (not_not.mpr hpath),Bool.and_false,
      if_neg Bool.false_ne_true]
    exact displays_selectLoadedStep env s k
  · rw [hout,hswitch _ hnode,decide_eq_true hpath,Bool.and_true,if_pos rfl,ncGet_eq]
    rfl
  · rw [hout,hswitch _ hnode,decide_eq_true hpath,Bool.and_true,if_pos rfl,
      displays_selectLoadedStep env (switched env s (filePath s fn)) k,switched,ncGet_eq]
    rfl

/-- The click of a file node releases the grids when its load delivers steps, and shows
nothing new. -/
theorem gui_selectFileNode (env : Env α) (s : MainDialog α) (fn : String) :
    (selectFileNode env s fn).gui=
      (gridOps s (.handler (.fileNode env fn))).foldl applyOp s.gui := by
  have hops : gridOps s (.handler (.fileNode env fn))=
      if replacesFile env s fn=true then [.free] else [] := rfl
  rw [hops]
  unfold selectFileNode replacesFile
  rw [ncGet_eq]
  dsimp only
  by_cases hnode : hasStepNode s fn 0=true
  · rw [if_pos hnode,hnode,Bool.true_and]
    by_cases hstay : loadCode env (filePath s fn)≠0 ∨ (fileSteps env (filePath s fn)).isEmpty=true
    · have hkeep : ¬((decide (loadCode env (filePath s fn)=0) &&
          !(fileSteps env (filePath s fn)).isEmpty)=true) := by
        rcases hstay with hcode | hempty
        · simp [hcode]
        · simp [hempty]
      rw [if_pos hstay,if_neg hkeep]
      rfl
    · have hload : (decide (loadCode env (filePath s fn)=0) &&
          !(fileSteps env (filePath s fn)).isEmpty)=true := by
        obtain ⟨hcode,hempty⟩ := not_or.mp hstay
        simp [not_not.mp hcode,hempty]
      rw [if_neg hstay,if_pos hload]
      rfl
  · rw [if_neg hnode,Bool.eq_false_of_not_eq_true hnode,Bool.false_and,Bool.false_and,
      if_neg Bool.false_ne_true]
    rfl

/-- Adding files leaves the grids alone. -/
theorem gui_addChildren (env : Env α) (s : MainDialog α) (fn : String) :
    (addChildren env s fn).1.gui=s.gui := by
  unfold addChildren
  dsimp only
  rw [ncGet_eq]
  split <;> rfl

/-- To list a file shows nothing new. -/
theorem gui_addFile (s : MainDialog α) (entry : String×Env α) : (addFile s entry).gui=s.gui := by
  unfold addFile
  split
  · exact gui_addChildren entry.2 s entry.1
  · rfl

/-- To list the files of a directory shows nothing new, by induction over the entries. -/
theorem gui_addFiles (entries : List (String×Env α)) (s : MainDialog α) :
    (entries.foldl addFile s).gui=s.gui := by
  have hstep : ∀ (s' : MainDialog α) entry,s'.gui=s.gui → (addFile s' entry).gui=s.gui :=
    fun s' entry h => (gui_addFile s' entry).trans h
  exact run_invariant_all hstep rfl entries

/-- A call changes the grids by its operations on them, and in no other way. -/
theorem gui_callStep (s : MainDialog α) (call : Call α) :
    (callStep s call).gui=(gridOps s call).foldl applyOp s.gui := by
  cases call with
  | handler e =>
    cases e with
    | dirChanged dir listing => exact gui_addFiles listing.entries _
    | fileNode env fn => exact gui_selectFileNode env s fn
    | select env selection =>
      cases selection with
      | stepNode fn k => exact gui_selectStepNode env s fn k
      | timeChoice idx => exact displays_onTimeChange env s idx
      | slider idx => exact displays_onTimeline env s idx
      | prevNext idx => exact displays_readData env s idx
  | ncGet env filename =>
    unfold callStep
    dsimp only
    rw [ncGet_eq]
    rfl
  | addChildren env fn => exact gui_addChildren env s fn
  | readncdfFile env position =>
    unfold callStep gridOps
    dsimp only
    cases heldMessage s position with
    | none => rfl
    | some m => rfl

end Displayed

end NcdfPlugin.NcdfCalls
