import NcdfPlugin.NcdfCalls
import NcdfPlugin.NcdfGapFill

/-!
# Shape of the displayed grids

Rows of a released grid are counted by the message that is displayed at that
moment. Every message of the dialog has the sizes of its coordinate arrays,
and the grids have the sizes of the displayed message from their construction
to their release, so the count is right in the reader, in both handlers that
release grids on a change of file, and at the end of the dialog.
-/

namespace NcdfPlugin.NcdfGridShape

open NcdfLibrary NcdfMessage NcdfTimeStep NcdfReader NcdfDialog NcdfSelection NcdfCalls NcdfGapFill GuardedRun

section Sizes

variable {α : Type} [Field α]

/-- The grid of a message has the size of its coordinate arrays. -/
structure Sized (m : DataMessage α) : Prop where
  /-- Rows are latitudes. -/
  rows : m.noPointsMeridian=m.latLength
  /-- Columns are longitudes. -/
  columns : m.noPointsParallel=m.lonLength

/-- A new message has no rows, no columns and no coordinates. -/
theorem sized_default : Sized ({} : DataMessage α) := ⟨rfl,rfl⟩

/-- Freeing the buffers of a message keeps its sizes. -/
theorem sized_clear {m : DataMessage α} (h : Sized m) : Sized m.clear := ⟨h.rows,h.columns⟩

/-- An assigned message has the sizes of the one it is assigned from. -/
theorem sized_assign (m : DataMessage α) {other : DataMessage α} (h : Sized other) :
    Sized (m.assign other) := ⟨h.rows,h.columns⟩

/-- Sizes are left alone by a change of value buffers and flags. -/
theorem sized_of_emptied {m m' : DataMessage α} (heq : emptied m'=emptied m) (h : Sized m) :
    Sized m' := by
  have hemptied : Sized (emptied m) := ⟨h.rows,h.columns⟩
  rw [←heq] at hemptied
  exact ⟨hemptied.rows,hemptied.columns⟩

variable [LinearOrder α]

/-- Reading a step changes buffers only, not the sizes. -/
theorem sized_read (env : Env α) (cache : FileCache) {m : DataMessage α} (h : Sized m) :
    Sized (readTimeStepData env cache m).2 := sized_of_emptied (readTimeStepData_emptied env cache m) h

variable [FloorRing α]

/-- Every loaded step has the size of the coordinate arrays of its file. -/
theorem sized_fileSteps (env : Env α) (filename : String) : ∀ m∈fileSteps env filename,Sized m := by
  intro m hm
  obtain ⟨ids,info,coords,i,rfl⟩ := step_of_fileSteps hm
  exact ⟨rfl,rfl⟩

end Sizes

section Held

variable {α : Type} [Field α]

/-- Every message that the dialog holds is sized. -/
structure HoldsSized (s : MainDialog α) : Prop where
  /-- The loaded steps. -/
  steps : ∀ m∈s.myDataVector,Sized m
  /-- The copy of a step. -/
  data : Sized s.myData

/-- Freeing one step keeps the sizes of all. -/
theorem sized_clearStep {vector : List (DataMessage α)} (h : ∀ m∈vector,Sized m) (i : ℤ) :
    ∀ m∈clearStep vector i,Sized m := by
  intro m hm
  unfold clearStep at hm
  split at hm
  · obtain ⟨k,hk⟩ := List.mem_iff_getElem?.mp hm
    rw [List.getElem?_modify] at hk
    obtain ⟨old,hold,rfl⟩ := Option.map_eq_some_iff.mp hk
    have hsized := h old (List.mem_of_getElem? hold)
    split
    · exact sized_clear hsized
    · exact hsized
  · exact h m hm

/-- The step that an index finds is one of the loaded ones. -/
theorem sized_stepAt {vector : List (DataMessage α)} (h : ∀ m∈vector,Sized m) {i : ℤ}
    {m : DataMessage α} (hm : stepAt vector i=some m) : Sized m := by
  obtain ⟨k,-,hk⟩ := stepAt_some hm
  exact h m (List.mem_of_getElem? hk)

variable [LinearOrder α]

/-- An outcome holds sized messages and hands over a sized one. -/
structure SizedOutcome (out : MainDialog α×Option (DataMessage α)) : Prop where
  /-- The dialog that is left. -/
  holds : HoldsSized out.1
  /-- The message handed over. -/
  handed : ∀ m∈out.2,Sized m

omit [LinearOrder α] in
/-- A call that hands nothing over leaves the dialog as it was. -/
theorem sizedOutcome_none {s : MainDialog α} (h : HoldsSized s) : SizedOutcome (s,none) :=
  ⟨h,fun _ hm => by cases hm⟩

/-- A sized message that is handed over is also the one that the dialog keeps a copy of. -/
theorem sizedOutcome_handOver {env : Env α} {s : MainDialog α} {m : DataMessage α}
    (h : HoldsSized s) (hm : Sized m) : SizedOutcome (handOver env s m) := by
  refine ⟨⟨h.steps,h.data⟩,?_⟩
  rintro m' ⟨⟩
  exact hm

/-- The copy of a step that a selection reads has the sizes of the step. -/
theorem sized_copiedRead (env : Env α) (s : MainDialog α) {m : DataMessage α} (hm : Sized m) :
    Sized (copiedRead env s m).2 := sized_read env s.cache (sized_assign s.myData hm)

/-- Steps that are selected come from the loaded ones. -/
theorem sizedOutcome_selectLoadedStep {env : Env α} {s : MainDialog α} (h : HoldsSized s)
    (idx : ℤ) : SizedOutcome (selectLoadedStep env s idx) := by
  unfold selectLoadedStep
  split
  · exact sizedOutcome_none h
  next m hm =>
    have hread := sized_copiedRead env s (sized_stepAt h.steps hm)
    have hvector : ∀ m∈(if s.lastSelectedTimeIndex≠idx then releasedVector s else s.myDataVector),
        Sized m := by
      split
      · exact sized_clearStep h.steps _
      · exact h.steps
    generalize (if s.lastSelectedTimeIndex≠idx then releasedVector s else s.myDataVector)=vector
      at hvector ⊢
    dsimp only
    split
    · exact sizedOutcome_handOver ⟨hvector,hread⟩ hread
    · exact sizedOutcome_none ⟨hvector,hread⟩

/-- A step is shown after it has been read into the list of steps. -/
theorem sizedOutcome_showStep {env : Env α} {s : MainDialog α} {vector : List (DataMessage α)}
    (hvector : ∀ m∈vector,Sized m) (idx : ℤ) {m : DataMessage α} (hm : Sized m) :
    SizedOutcome (showStep env s vector idx m) := by
  have hread := sized_copiedRead env s hm
  exact sizedOutcome_handOver ⟨hvector,hread⟩ hread

/-- The choice of a time keeps the sizes. -/
theorem sizedOutcome_onTimeChange {env : Env α} {s : MainDialog α} (h : HoldsSized s) (idx : ℤ) :
    SizedOutcome (onTimeChange env s idx) := by
  unfold onTimeChange
  split
  · exact sizedOutcome_none h
  next m hm =>
    split
    · exact sizedOutcome_showStep h.steps idx (sized_stepAt h.steps hm)
    · exact sizedOutcome_none h

/-- The slider keeps the sizes. -/
theorem sizedOutcome_onTimeline {env : Env α} {s : MainDialog α} (h : HoldsSized s) (idx : ℤ) :
    SizedOutcome (onTimeline env s idx) := by
  unfold onTimeline
  split
  · exact sizedOutcome_none h
  · split
    · exact sizedOutcome_none h
    next m hm =>
      exact sizedOutcome_showStep (sized_clearStep h.steps _) idx (sized_stepAt h.steps hm)

/-- Reading a step on its own keeps the sizes. -/
theorem sizedOutcome_readData {env : Env α} {s : MainDialog α} (h : HoldsSized s) (idx : ℤ) :
    SizedOutcome (readData env s idx) := by
  unfold readData
  split
  · exact sizedOutcome_none h
  next m hm =>
    have hreleased := sized_clearStep h.steps s.lastSelectedTimeIndex
    have hread := sized_read env s.cache (sized_stepAt hreleased hm)
    have hvector : ∀ m'∈(releasedVector s).set idx.toNat (readTimeStepData env s.cache m).2,
        Sized m' := by
      intro m' hm'
      rcases List.mem_or_eq_of_mem_set hm' with hold | rfl
      · exact hreleased m' hold
      · exact hread
    dsimp only
    split
    · exact sizedOutcome_handOver ⟨hvector,h.data⟩ hread
    · exact sizedOutcome_none ⟨hvector,h.data⟩

variable [FloorRing α]

/-- nc_get builds its messages from the coordinate arrays that it has read, so rows and
columns are their lengths. -/
theorem holdsSized_ncGet (env : Env α) {s : MainDialog α} (h : Sized s.myData) (filename : String) :
    HoldsSized (ncGet env s filename).2 := by
  rw [ncGet_eq]
  exact ⟨sized_fileSteps env filename,h⟩

/-- Listing the steps of a file keeps the sizes, also where the file cannot be read. -/
theorem holdsSized_addChildren (env : Env α) {s : MainDialog α} (h : HoldsSized s) (fn : String) :
    HoldsSized (addChildren env s fn).1 := by
  have hload := holdsSized_ncGet env (s:=beforeLoad s fn) h.data (filePath s fn)
  unfold addChildren
  dsimp only
  split
  · exact ⟨h.steps,hload.data⟩
  · exact ⟨hload.steps,hload.data⟩

/-- Listing a file keeps the sizes. -/
theorem holdsSized_addFile {s : MainDialog α} (entry : String×Env α) (h : HoldsSized s) :
    HoldsSized (addFile s entry) := by
  unfold addFile
  split
  · have hchildren := holdsSized_addChildren entry.2 h entry.1
    exact ⟨hchildren.steps,hchildren.data⟩
  · exact h

/-- The click of a file node keeps the sizes. -/
theorem holdsSized_selectFileNode {env : Env α} {s : MainDialog α} (h : HoldsSized s)
    (fn : String) : HoldsSized (selectFileNode env s fn) := by
  have hload := holdsSized_ncGet env h.data (filePath s fn)
  unfold selectFileNode
  split
  · dsimp only
    split
    · exact hload
    · exact ⟨hload.steps,hload.data⟩
  · exact h

/-- The click of a step node hands over a sized message, if it hands over any. -/
theorem sizedOutcome_selectStepNode {env : Env α} {s : MainDialog α} (h : HoldsSized s)
    (fn : String) (k : ℕ) : SizedOutcome (selectStepNode env s fn k) := by
  have hload := holdsSized_ncGet env (s:=beforeSwitch s) h.data (filePath s fn)
  rcases selectStepNode_cases env s fn k with ⟨-,hout⟩ | ⟨-,-,hout⟩ | ⟨-,-,-,hout⟩ | ⟨-,-,-,hout⟩
  · rw [hout]
    exact sizedOutcome_none h
  · rw [hout]
    exact sizedOutcome_selectLoadedStep h k
  · rw [hout]
    exact sizedOutcome_none hload
  · rw [hout]
    have hswitched : HoldsSized (switched env s (filePath s fn)) := ⟨hload.steps,hload.data⟩
    exact sizedOutcome_selectLoadedStep hswitched k

/-- So does any other selection. -/
theorem sizedOutcome_handleSelection {env : Env α} {s : MainDialog α} (h : HoldsSized s)
    (selection : Selection) : SizedOutcome (handleSelection env s selection) := by
  cases selection with
  | stepNode fn k => exact sizedOutcome_selectStepNode h fn k
  | timeChoice idx => exact sizedOutcome_onTimeChange h idx
  | slider idx => exact sizedOutcome_onTimeline h idx
  | prevNext idx => exact sizedOutcome_readData h idx

/-- Every call leaves sized messages only. -/
theorem holdsSized_callStep {s : MainDialog α} (h : HoldsSized s) (call : Call α) :
    HoldsSized (callStep s call) := by
  cases call with
  | handler e =>
    cases e with
    | dirChanged dir listing =>
      have hstart : HoldsSized {s with dirText := dir,treeFiles := []} := ⟨h.steps,h.data⟩
      exact run_invariant_all (fun _ entry hs => holdsSized_addFile entry hs) hstart listing.entries
    | fileNode env fn => exact holdsSized_selectFileNode h fn
    | select env selection => exact (sizedOutcome_handleSelection h selection).holds
  | ncGet env filename => exact holdsSized_ncGet env h.data filename
  | addChildren env fn => exact holdsSized_addChildren env h fn
  | readncdfFile env position =>
    unfold callStep
    dsimp only
    split
    · exact ⟨h.steps,h.data⟩
    · exact h

/-- A displayed message is sized. -/
def OpSized : GridOp α → Prop
  | .free => True
  | .display _ m => Sized m

omit [LinearOrder α] [FloorRing α] in
/-- What is displayed of a call is sized when the message handed over is. -/
theorem opSized_display {env : Env α} {message : Option (DataMessage α)}
    (h : ∀ m∈message,Sized m) : ∀ op∈(message.map (GridOp.display env)).toList,OpSized op := by
  intro op hop
  obtain ⟨m,hm,rfl⟩ := Option.map_eq_some_iff.mp (Option.mem_toList.mp hop)
  exact h m hm

/-- Calls display messages that the dialog holds or has just read. -/
theorem opSized_gridOps {s : MainDialog α} (h : HoldsSized s) (call : Call α) :
    ∀ op∈gridOps s call,OpSized op := by
  have hfree : ∀ op∈[(GridOp.free : GridOp α)],OpSized op := by
    intro op hop
    obtain rfl := List.mem_singleton.mp hop
    trivial
  have hnone : ∀ op∈([] : List (GridOp α)),OpSized op := fun _ hop => by cases hop
  cases call with
  | handler e =>
    cases e with
    | dirChanged dir listing => exact hnone
    | fileNode env fn =>
      unfold gridOps
      dsimp only
      split
      · exact hfree
      · exact hnone
    | select env selection =>
      intro op hop
      rcases List.mem_append.mp hop with hswitch | hhanded
      · split at hswitch
        · exact hfree op hswitch
        · exact hnone op hswitch
      · exact opSized_display (sizedOutcome_handleSelection h selection).handed op hhanded
  | ncGet env filename => exact hnone
  | addChildren env fn => exact hnone
  | readncdfFile env position =>
    refine opSized_display fun m hm => ?_
    cases position with
    | none =>
      obtain rfl := Option.some.inj hm
      exact h.data
    | some k => exact h.steps m (List.mem_of_getElem? hm)

end Held

section Grids

variable {α : Type} [Field α]

/-- The grids that are present. -/
def displayedGrids (gui : GuiGrids α) : List (Grid α) :=
  [gui.gridu,gui.gridv,gui.gridMag,gui.gridSST,gui.gridSalinity].reduceOption

/-- The displayed grids have the size of the displayed message, and that of
its coordinate arrays. -/
structure ShapedGrids (gui : GuiGrids α) : Prop where
  /-- Sizes of the message. -/
  sized : Sized gui.myMessage
  /-- Shape of each grid. -/
  shaped : ∀ grid∈displayedGrids gui,
    Shaped gui.myMessage.noPointsMeridian gui.myMessage.noPointsParallel grid

/-- Freed grids are null pointers, of any shape. -/
theorem shapedGrids_freeGrids {gui : GuiGrids α} (h : ShapedGrids gui) :
    ShapedGrids gui.freeGrids := by
  refine ⟨h.sized,fun grid hgrid => ?_⟩
  simp [displayedGrids,GuiGrids.freeGrids,List.reduceOption] at hgrid

/-- The displayed grids are those of the five pointers of the dialog that are not null. -/
theorem mem_displayedGrids {gui : GuiGrids α} {grid : Grid α} :
    grid∈displayedGrids gui ↔ gui.gridu=some grid ∨ gui.gridv=some grid ∨
      gui.gridMag=some grid ∨ gui.gridSST=some grid ∨ gui.gridSalinity=some grid := by
  simp [displayedGrids,List.reduceOption_mem_iff,eq_comm]

/-- Built grids have the sizes of their message. -/
theorem shaped_builtGrids (m : DataMessage α) :
    ∀ grid∈present (builtGrids m),Shaped m.noPointsMeridian m.noPointsParallel grid := by
  have hmap {source : Option (List α)} {grid : Grid α}
      (h : source.map (buildGrid m.noPointsMeridian m.noPointsParallel)=some grid) :
      Shaped m.noPointsMeridian m.noPointsParallel grid := by
    obtain ⟨values,-,rfl⟩ := Option.map_eq_some_iff.mp h
    exact shaped_tabulate _ _ _
  have hcurrent {source : Option (List α)} {grid : Grid α}
      (h : (if hasCurrent m=true then
        source.map (buildGrid m.noPointsMeridian m.noPointsParallel) else none)=some grid) :
      Shaped m.noPointsMeridian m.noPointsParallel grid := by
    split at h
    · exact hmap h
    · cases h
  intro grid hgrid
  rcases mem_present.mp hgrid with hu | hv | hsst | hsal
  · exact hcurrent hu
  · exact hcurrent hv
  · exact hmap hsst
  · exact hmap hsal

variable [LinearOrder α]

/-- Grids whose gaps were filled have the sizes that they had before. -/
theorem shaped_fillAllGrids {grids : GridSet α} {nj ni : ℕ}
    (h : ∀ grid∈present grids,Shaped nj ni grid) :
    ∀ grid∈present (fillAllGrids grids ni nj),Shaped nj ni grid := by
  have hmap {source : Option (Grid α)} {grid : Grid α}
      (hsource : ∀ old,source=some old → Shaped nj ni old)
      (hgrid : source.map (fillGrid ni nj)=some grid) : Shaped nj ni grid := by
    obtain ⟨old,hold,rfl⟩ := Option.map_eq_some_iff.mp hgrid
    exact shaped_fillGrid (hsource old hold)
  intro grid hgrid
  rw [fillAllGrids_eq_map,mem_present] at hgrid
  simp only [mem_present] at h
  rcases hgrid with hu | hv | hsst | hsal
  · exact hmap (fun old hold => h old (Or.inl hold)) hu
  · exact hmap (fun old hold => h old (Or.inr (Or.inl hold))) hv
  · exact hmap (fun old hold => h old (Or.inr (Or.inr (Or.inl hold)))) hsst
  · exact hmap (fun old hold => h old (Or.inr (Or.inr (Or.inr hold)))) hsal

/-- A displayed message brings grids of its own size. -/
theorem shapedGrids_readncdfFile (env : Env α) {gui : GuiGrids α} (h : ShapedGrids gui)
    {m : DataMessage α} (hm : Sized m) : ShapedGrids (readncdfFile env gui m) := by
  have hfilled := shaped_fillAllGrids (shaped_builtGrids m)
  unfold readncdfFile
  split
  · refine ⟨sized_assign _ hm,fun grid hgrid => ?_⟩
    rw [mem_displayedGrids] at hgrid
    dsimp only at hgrid
    rcases hgrid with hu | hv | hmag | hsst | hsal
    · exact hfilled grid (mem_present.mpr (Or.inl hu))
    · exact hfilled grid (mem_present.mpr (Or.inr (Or.inl hv)))
    · split at hmag
      · obtain rfl := Option.some.inj hmag
        exact shaped_tabulate _ _ _
      · cases hmag
    · exact hfilled grid (mem_present.mpr (Or.inr (Or.inr (Or.inl hsst))))
    · exact hfilled grid (mem_present.mpr (Or.inr (Or.inr (Or.inr hsal))))
  · exact h

/-- Each operation on the grids keeps their shape. -/
theorem shapedGrids_applyOp {gui : GuiGrids α} {op : GridOp α} (h : ShapedGrids gui)
    (hop : OpSized op) : ShapedGrids (applyOp gui op) := by
  cases op with
  | free => exact shapedGrids_freeGrids h
  | display env m => exact shapedGrids_readncdfFile env h hop

end Grids

section Releases

variable {α : Type} [Field α]

/-- A grid given back: its rows, and how many of them the loop releases. -/
structure Release where
  /-- Rows that were allocated. -/
  allocated : ℕ
  /-- Rows that are released. -/
  released : ℕ

/-- The loops that release grids, all with one count of rows. -/
def releaseRows (rows : ℕ) (grids : List (Grid α)) : List Release :=
  grids.map fun grid => ⟨grid.length,rows⟩

/-- Releases of an operation. The reader takes its count before it overwrites
the displayed message, and uses it after. -/
def opReleases (gui : GuiGrids α) : GridOp α → List Release
  | .free => releaseRows gui.myMessage.noPointsMeridian (displayedGrids gui)
  | .display _ m =>
    if hasAnyData m=true then releaseRows gui.myMessage.noPointsMeridian (displayedGrids gui) else []

/-- Releases at the end of the dialog, which leaves out the salinity grid. -/
def closingReleases (gui : GuiGrids α) : List Release :=
  releaseRows gui.myMessage.noPointsMeridian
    [gui.gridu,gui.gridv,gui.gridMag,gui.gridSST].reduceOption

/-- As many rows as were allocated. -/
def Release.Exact (r : Release) : Prop := r.released=r.allocated

/-- Grids of the size that is on display are freed with exactly the rows they were allocated
with. -/
theorem releaseRows_exact {gui : GuiGrids α} (h : ShapedGrids gui) {grids : List (Grid α)}
    (hgrids : ∀ grid∈grids,grid∈displayedGrids gui) :
    ∀ r∈releaseRows gui.myMessage.noPointsMeridian grids,r.Exact := by
  intro r hr
  obtain ⟨grid,hgrid,rfl⟩ := List.mem_map.mp hr
  exact (h.shaped grid (hgrids grid hgrid)).rows.symm

/-- An operation on the grids frees each of them with the number of rows it was allocated
with. -/
theorem opReleases_exact {gui : GuiGrids α} (h : ShapedGrids gui) (op : GridOp α) :
    ∀ r∈opReleases gui op,r.Exact := by
  have hall := releaseRows_exact h fun _ hgrid => hgrid
  cases op with
  | free => exact hall
  | display env m =>
    unfold opReleases
    dsimp only
    split
    · exact hall
    · intro r hr
      cases hr

/-- The destructor of the dialog frees each grid with the number of rows it was allocated
with. -/
theorem closingReleases_exact {gui : GuiGrids α} (h : ShapedGrids gui) :
    ∀ r∈closingReleases gui,r.Exact := by
  refine releaseRows_exact h fun grid hgrid => ?_
  rw [mem_displayedGrids]
  simp only [List.reduceOption_mem_iff,List.mem_cons,List.not_mem_nil,or_false] at hgrid
  rcases hgrid with hu | hv | hmag | hsst
  · exact Or.inl hu.symm
  · exact Or.inr (Or.inl hv.symm)
  · exact Or.inr (Or.inr (Or.inl hmag.symm))
  · exact Or.inr (Or.inr (Or.inr (Or.inl hsst.symm)))

variable [LinearOrder α] [FloorRing α]

/-- Releases of a call, those of its operations on the grids. -/
def callReleases (s : MainDialog α) (call : Call α) : List Release :=
  emitted applyOp opReleases s.gui (gridOps s call)

/-- The messages that the dialog holds are sized and its grids are shaped. -/
structure ShapedDialog (s : MainDialog α) : Prop where
  /-- Held messages. -/
  holds : HoldsSized s
  /-- Displayed grids. -/
  grids : ShapedGrids s.gui

omit [LinearOrder α] [FloorRing α] in
/-- A new dialog holds no steps and no grids. -/
theorem shapedDialog_initial : ShapedDialog ({} : MainDialog α) := by
  refine ⟨⟨fun _ hm => (by cases hm),sized_default⟩,sized_default,fun grid hgrid => ?_⟩
  simp [displayedGrids,List.reduceOption] at hgrid

/-- Every call keeps the sizes of the messages and the shapes of the grids. -/
theorem shapedDialog_callStep {s : MainDialog α} (h : ShapedDialog s) (call : Call α) :
    ShapedDialog (callStep s call) := by
  refine ⟨holdsSized_callStep h.holds call,?_⟩
  rw [gui_callStep]
  exact run_invariant_ok (fun _ _ => shapedGrids_applyOp) h.grids (opSized_gridOps h.holds call)

/-- All releases of a call are of the right size, since the grids before it are shaped. -/
theorem callReleases_exact {s : MainDialog α} (h : ShapedDialog s) (call : Call α) :
    ∀ r∈callReleases s call,r.Exact := by
  have hstep : ∀ (gui : GuiGrids α) op,ShapedGrids gui → OpSized op → ShapedGrids (applyOp gui op) :=
    fun _ _ => shapedGrids_applyOp
  exact emitted_allowed hstep (fun _ op hgui _ => opReleases_exact hgui op) h.grids
    (opSized_gridOps h.holds call)

/-- Shape of the grids in every run. Each grid has the rows and columns of the
displayed message, which are the lengths of its coordinate arrays; every grid
released on the way, and at the end of the dialog, is released with as many
rows as it was allocated with. -/
theorem displayed_shape (calls : List (Call α)) :
    (∀ grid∈displayedGrids (run callStep {} calls).gui,
      Shaped (run callStep {} calls).gui.myMessage.noPointsMeridian
        (run callStep {} calls).gui.myMessage.noPointsParallel grid) ∧
    Sized (run callStep {} calls).gui.myMessage ∧
    (∀ r∈emitted callStep callReleases ({} : MainDialog α) calls,r.Exact) ∧
    ∀ r∈closingReleases (run callStep {} calls).gui,r.Exact := by
  have hstep : ∀ (s : MainDialog α) call,ShapedDialog s → ShapedDialog (callStep s call) :=
    fun _ call h => shapedDialog_callStep h call
  have hrun := run_invariant_all hstep shapedDialog_initial calls
  have hreleased : ∀ r∈emitted callStep callReleases ({} : MainDialog α) calls,r.Exact :=
    emitted_allowed (fun s call h (_ : True) => hstep s call h)
      (fun _ call h _ => callReleases_exact h call) shapedDialog_initial fun _ _ => trivial
  exact ⟨hrun.grids.shaped,hrun.grids.sized,hreleased,closingReleases_exact hrun.grids⟩

end Releases

end NcdfPlugin.NcdfGridShape
