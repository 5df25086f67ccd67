import NcdfPlugin.NcdfReader
import NcdfPlugin.GuardedRun
import Mathlib.Data.Rat.Sqrt
import Mathlib.Data.Rat.Floor

/-!
# Handlers of the main dialog

The dialog keeps the loaded time steps, the path they were loaded from, the
selected position, the identifiers of the last discovery and the displayed
grids. Each handler is a total function of the dialog and of what the outside
world answers during that call; it also returns the message it handed to
`readncdfFile`, if any. Sliders, labels and checkboxes are only written.
-/

namespace NcdfPlugin.NcdfDialog

open NcdfLibrary NcdfDiscovery NcdfMessage NcdfTimeStep NcdfReader

/-- Modelled fields of `MainDialog`. -/
structure MainDialog (α : Type) [Field α] where
  /-- Directory shown in `m_textCtrlDir`. -/
  dirText : String := ""
  /-- File nodes of the tree with the number of their time-step nodes. -/
  treeFiles : List (String×ℕ) := []
  /-- Entries of `m_choiceTime`. -/
  choiceTime : List String := []
  /-- `m_currentFilePath`. -/
  currentFilePath : String := ""
  /-- `myDataVector`. -/
  myDataVector : List (DataMessage α) := []
  /-- `m_lastSelectedTimeIndex`. -/
  lastSelectedTimeIndex : ℤ := -1
  /-- Availability flags and cached identifiers. -/
  cache : FileCache := {}
  /-- `myData`. -/
  myData : DataMessage α := {}
  /-- Message and grids the overlays draw from. -/
  gui : GuiGrids α := {}

/-- Files of a directory in the order they are met, each with the answers
the world gives while it is loaded. Names in a directory are distinct; a
directory that cannot be read has no files. -/
structure DirListing (α : Type) [Zero α] where
  /-- Names and answers. -/
  entries : List (String×Env α)
  /-- No name occurs twice. -/
  nodup : (entries.map Prod.fst).Nodup

section Loading

variable {α : Type} [Field α] [LinearOrder α] [FloorRing α]

/-- Full path of a file node. -/
def filePath (s : MainDialog α) (fn : String) : String := s.dirText++"\\"++fn

/-- `nc_get`: the return code and the dialog it leaves behind. -/
def ncGet (env : Env α) (s : MainDialog α) (filename : String) : ℤ×MainDialog α :=
  let s := {s with myDataVector := [],lastSelectedTimeIndex := -1}
  match openAndDiscover env filename with
  | .error e => (e.code,s)
  | .ok (file,ids) =>
    let s := {s with cache := FileCache.ofIds ids}
    match loadSteps env filename file ids with
    | .error e => (e.code,s)
    | .ok steps => (0,{s with myDataVector := steps})

/-- Label of a time step in the tree and in the time choice. -/
def timeText (env : Env α) (timeIndex : ℕ) (m : DataMessage α) : String :=
  match m.timeValid,m.dataDateTime with
  | true,some dt => env.formatHour dt
  | _,_ => "time"++toString (timeIndex+1)

/-- The dialog on which `addChildren` calls `nc_get`. -/
def beforeLoad (s : MainDialog α) (fn : String) : MainDialog α :=
  {s with
    myDataVector := []
    lastSelectedTimeIndex := -1
    choiceTime := []
    currentFilePath := filePath s fn}

/-- `addChildren`: the dialog and the number of time-step nodes appended. -/
def addChildren (env : Env α) (s : MainDialog α) (fn : String) : MainDialog α×ℕ :=
  let (ret,after) := ncGet env (beforeLoad s fn) (filePath s fn)
  if ret≠0 then
    ({after with
      myDataVector := s.myDataVector
      lastSelectedTimeIndex := s.lastSelectedTimeIndex},0)
  else
    ({after with choiceTime := after.choiceTime++after.myDataVector.mapIdx (timeText env)},
      after.myDataVector.length)

/-- Lower-case text after the last dot, the whole name without one. -/
def extension (s : String) : String :=
  String.ofList ((s.toList.reverse.takeWhile (· ≠ '.')).reverse.map Char.toLower)

/-- One turn of the directory loop: files of other kinds are skipped. -/
def addFile (s : MainDialog α) (entry : String×Env α) : MainDialog α :=
  if extension entry.1="nc" ∨ extension entry.1="nc4" then
    let (after,children) := addChildren entry.2 s entry.1
    {after with treeFiles := after.treeFiles++[(entry.1,children)]}
  else s

/-- `onDirChanged` with `fillDirTree`: a new tree for a new directory. -/
def onDirChanged (s : MainDialog α) (dir : String) (listing : DirListing α) : MainDialog α :=
  listing.entries.foldl addFile {s with dirText := dir,treeFiles := []}

/-- Whether the tree has a time-step node at a position of a file. -/
def hasStepNode (s : MainDialog α) (fn : String) (k : ℕ) : Bool :=
  s.treeFiles.any fun entry => decide (entry.1=fn ∧ k<entry.2)

/-- `onTreeSelectionChanged` on a file node with children. -/
def selectFileNode (env : Env α) (s : MainDialog α) (fn : String) : MainDialog α :=
  if hasStepNode s fn 0=true then
    let (ret,after) := ncGet env s (filePath s fn)
    if ret≠0 ∨ after.myDataVector.isEmpty=true then after
    else {after with gui := after.gui.freeGrids,lastSelectedTimeIndex := -1}
  else s

end Loading

section Showing

variable {α : Type} [Field α] [LinearOrder α]

/-- Release of the buffers at a position, when the position is in range. -/
def clearStep (vector : List (DataMessage α)) (i : ℤ) : List (DataMessage α) :=
  if 0 ≤ i ∧ i<vector.length then vector.modify i.toNat DataMessage.clear else vector

/-- The vector after the release of the selected step. -/
def releasedVector (s : MainDialog α) : List (DataMessage α) :=
  clearStep s.myDataVector s.lastSelectedTimeIndex

/-- Step at a position, when the position is in range. -/
def stepAt (vector : List (DataMessage α)) (i : ℤ) : Option (DataMessage α) :=
  if 0 ≤ i then vector[i.toNat]? else none

/-- Copy of a step into `myData`, which makes it the selected one. -/
def takeStep (s : MainDialog α) (vector : List (DataMessage α)) (idx : ℤ) (m : DataMessage α) :
    MainDialog α :=
  {s with myDataVector := vector,myData := s.myData.assign m,lastSelectedTimeIndex := idx}

/-- Call of `readncdfFile`, recorded with its argument. -/
def handOver (env : Env α) (s : MainDialog α) (m : DataMessage α) :
    MainDialog α×Option (DataMessage α) :=
  ({s with gui := readncdfFile env s.gui m},some m)

/-- Tail of the tree handler: the selected step is read, and shown when the
read succeeds. The previous step is released unless it is the same one. -/
def selectLoadedStep (env : Env α) (s : MainDialog α) (idx : ℤ) :
    MainDialog α×Option (DataMessage α) :=
  match stepAt s.myDataVector idx with
  | none => (s,none)
  | some m =>
    let vector := if s.lastSelectedTimeIndex≠idx then releasedVector s else s.myDataVector
    let s := takeStep s vector idx m
    let (ok,read) := readTimeStepData env s.cache s.myData
    let s := {s with myData := read}
    if ok=true then handOver env s read else (s,none)

/-- Common tail of the time choice and the slider: the selected step is
read and shown whatever the read returns. -/
def showStep (env : Env α) (s : MainDialog α) (vector : List (DataMessage α)) (idx : ℤ)
    (m : DataMessage α) : MainDialog α×Option (DataMessage α) :=
  let s := takeStep s vector idx m
  let read := (readTimeStepData env s.cache s.myData).2
  handOver env {s with myData := read} read

/-- `onTimeChange` with the selection of the choice control. -/
def onTimeChange (env : Env α) (s : MainDialog α) (selectedIndex : ℤ) :
    MainDialog α×Option (DataMessage α) :=
  match stepAt s.myDataVector selectedIndex with
  | none => (s,none)
  | some m =>
    if selectedIndex≠s.lastSelectedTimeIndex then showStep env s s.myDataVector selectedIndex m
    else (s,none)

/-- `OnTimeline` with the value of the slider. -/
def onTimeline (env : Env α) (s : MainDialog α) (selectedIndex : ℤ) :
    MainDialog α×Option (DataMessage α) :=
  if selectedIndex=s.lastSelectedTimeIndex then (s,none)
  else
    match stepAt s.myDataVector selectedIndex with
    | none => (s,none)
    | some m => showStep env s (releasedVector s) selectedIndex m

/-- `readData` with the position stored in the tree item. The step is read
in place after the release, which keeps every position in range. -/
def readData (env : Env α) (s : MainDialog α) (idx : ℤ) : MainDialog α×Option (DataMessage α) :=
  match stepAt (releasedVector s) idx with
  | none => (s,none)
  | some m =>
    let (ok,read) := readTimeStepData env s.cache m
    let s := {s with myDataVector := (releasedVector s).set idx.toNat read}
    if ok=true then handOver env {s with lastSelectedTimeIndex := idx} read else (s,none)

/-- The dialog on which a change of file calls `nc_get`. -/
def beforeSwitch (s : MainDialog α) : MainDialog α :=
  {s with
    myDataVector := []
    lastSelectedTimeIndex := -1
    choiceTime := []
    gui := s.gui.freeGrids}

variable [FloorRing α]

/-- `onTreeSelectionChanged` on a time-step node: a node of another file
than the current one first loads that file. -/
def selectStepNode (env : Env α) (s : MainDialog α) (fn : String) (k : ℕ) :
    MainDialog α×Option (DataMessage α) :=
  if hasStepNode s fn k=true then
    let fileName := filePath s fn
    if fileName≠s.currentFilePath then
      let (ret,after) := ncGet env (beforeSwitch s) fileName
      if ret≠0 then (after,none)
      else selectLoadedStep env {after with currentFilePath := fileName} k
    else selectLoadedStep env s k
  else (s,none)

end Showing

section Events

variable {α : Type} [Field α]

/-- The four ways of selecting a time step. -/
inductive Selection where
  /-- A time-step node of the tree. -/
  | stepNode (fn : String) (k : ℕ)
  /-- An entry of the time choice. -/
  | timeChoice (selectedIndex : ℤ)
  /-- A position of the slider. -/
  | slider (selectedIndex : ℤ)
  /-- The previous or the next node, with its stored position. -/
  | prevNext (idx : ℤ)
  deriving DecidableEq

/-- Events of the dialog with the answers the world gives during each. -/
inductive DialogEvent (α : Type) [Zero α] where
  /-- A directory is entered and its files are added. -/
  | dirChanged (dir : String) (listing : DirListing α)
  /-- A file node is selected. -/
  | fileNode (env : Env α) (fn : String)
  /-- A time step is selected. -/
  | select (env : Env α) (selection : Selection)

variable [LinearOrder α] [FloorRing α]

/-- Handler of a selection. -/
def handleSelection (env : Env α) (s : MainDialog α) :
    Selection → MainDialog α×Option (DataMessage α)
  | .stepNode fn k => selectStepNode env s fn k
  | .timeChoice selectedIndex => onTimeChange env s selectedIndex
  | .slider selectedIndex => onTimeline env s selectedIndex
  | .prevNext idx => readData env s idx

/-- Handler of an event, with the message handed to `readncdfFile`. -/
def handle (s : MainDialog α) : DialogEvent α → MainDialog α×Option (DataMessage α)
  | .dirChanged dir listing => (onDirChanged s dir listing,none)
  | .fileNode env fn => (selectFileNode env s fn,none)
  | .select env selection => handleSelection env s selection

/-- One event of the dialog. -/
def dialogStep (s : MainDialog α) (e : DialogEvent α) : MainDialog α := (handle s e).1

/-- Dialog states reached from the initial one. -/
def Reachable (s : MainDialog α) : Prop := ∃ events,s=GuardedRun.run dialogStep {} events

end Events

section LoadResult

variable {α : Type} [Field α] [LinearOrder α] [FloorRing α]

/-- Return code of a load, which the dialog has no part in. -/
def loadCode (env : Env α) (filename : String) : ℤ :=
  match openAndDiscover env filename with
  | .error e => e.code
  | .ok (file,ids) =>
    match loadSteps env filename file ids with
    | .error e => e.code
    | .ok _ => 0

/-- Time steps of a load, none when it fails. -/
def fileSteps (env : Env α) (filename : String) : List (DataMessage α) :=
  match openAndDiscover env filename with
  | .error _ => []
  | .ok (file,ids) => (loadSteps env filename file ids).toOption.getD []

/-- Cached fields after a load: those of its discovery, if it got that far. -/
def cacheAfter (env : Env α) (filename : String) (cache : FileCache) : FileCache :=
  match openAndDiscover env filename with
  | .error _ => cache
  | .ok (_,ids) => FileCache.ofIds ids

/-- Everything `nc_get` does to the dialog. -/
theorem ncGet_eq (env : Env α) (s : MainDialog α) (filename : String) :
    ncGet env s filename=(loadCode env filename,
      {s with
        myDataVector := fileSteps env filename
        lastSelectedTimeIndex := -1
        cache := cacheAfter env filename s.cache}) := by
  unfold ncGet loadCode fileSteps cacheAfter
  cases openAndDiscover env filename with
  | error e => rfl
  | ok found =>
    obtain ⟨file,ids⟩ := found
    dsimp only
    cases loadSteps env filename file ids with
    | error e => rfl
    | ok steps => rfl

/-- A failing load delivers no time steps. -/
theorem fileSteps_of_failed {env : Env α} {filename : String} (h : loadCode env filename≠0) :
    fileSteps env filename=[] := by
  unfold loadCode at h
  unfold fileSteps
  split
  · rfl
  · rename_i file ids hopen
    rw [hopen] at h
    dsimp only at h
    cases hload : loadSteps env filename file ids with
    | error e => rfl
    | ok steps =>
      rw [hload] at h
      exact absurd rfl h

/-- The steps of a load are the steps of that file. -/
theorem stepsOf_fileSteps (env : Env α) (filename : String) :
    StepsOf filename (fileSteps env filename) := by
  unfold fileSteps
  split
  · exact stepsOf_nil filename
  · rename_i file ids _
    cases hload : loadSteps env filename file ids with
    | error e => exact stepsOf_nil filename
    | ok steps => exact stepsOf_loadSteps hload

/-- Every step of a load is made from one pair of coordinate arrays. -/
theorem step_of_fileSteps {env : Env α} {filename : String} {m : DataMessage α}
    (hm : m∈fileSteps env filename) :
    ∃ ids info coords i,m=stepMessage env filename ids info coords i := by
  unfold fileSteps at hm
  split at hm
  · cases hm
  · rename_i file ids _
    cases hload : loadSteps env filename file ids with
    | error e =>
      rw [hload] at hm
      cases hm
    | ok steps =>
      rw [hload] at hm
      obtain ⟨coords,info,-,rfl⟩ := loadSteps_ok hload
      obtain ⟨i,-,rfl⟩ := List.mem_map.mp hm
      exact ⟨ids,info,coords,i,rfl⟩

end LoadResult

section Vectors

variable {α : Type} [Field α]

/-- An index that is not negative finds the step of that position, if there is one. -/
theorem stepAt_ofNat (vector : List (DataMessage α)) (k : ℕ) : stepAt vector k=vector[k]? := by
  simp [stepAt]

/-- A step found at a position is found at a natural position. -/
theorem stepAt_some {vector : List (DataMessage α)} {i : ℤ} {m : DataMessage α}
    (h : stepAt vector i=some m) : ∃ k : ℕ,i=k ∧ vector[k]? = some m := by
  unfold stepAt at h
  split at h
  · exact ⟨i.toNat,by omega,h⟩
  · cases h

/-- Releasing one step keeps the files and positions of all. -/
theorem stepsOf_clearStep {filename : String} {vector : List (DataMessage α)} (i : ℤ)
    (h : StepsOf filename vector) : StepsOf filename (clearStep vector i) := by
  unfold clearStep
  split
  · intro k m hm
    rw [List.getElem?_modify] at hm
    obtain ⟨m',hm',rfl⟩ := Option.map_eq_some_iff.mp hm
    split
    · exact h k m' hm'
    · exact h k m' hm'
  · exact h

/-- Replacing a step by a message of the same step keeps them too. -/
theorem stepsOf_set {filename : String} {vector : List (DataMessage α)} {k : ℕ}
    {m m' : DataMessage α} (h : StepsOf filename vector) (hm : vector[k]? = some m)
    (hsame : SameStep m m') : StepsOf filename (vector.set k m') := by
  intro j x hx
  rw [List.getElem?_set] at hx
  split at hx
  · rename_i hjk
    split at hx
    · obtain rfl := Option.some.inj hx
      rw [hsame.fileName,hsame.timeIndex,←hjk]
      exact h k m hm
    · cases hx
  · exact h j x hx

end Vectors

section Sample

/-- A readable file: dimensions zero to two are time, latitude and longitude
of the given sizes, variables zero to five the coordinates, the current
components and the sea temperature, found by their names. -/
def sampleFile (times lats lons : List ℚ) (values : ℤ → List ℚ) : NcFile ℚ where
  inq := .ok (3,6)
  attText := fun _ _ => none
  attFloat := fun _ _ => none
  attDouble := fun _ _ => none
  inqVarid := fun name => ["time","lat","lon","u","v","sst"].findIdx? (· = name)
  varDims := fun varid =>
    if varid=0 then some [0] else if varid=1 then some [1] else if varid=2 then some [2]
    else some [0,1,2]
  inqDimid := fun name => ["time","lat","lon"].findIdx? (· = name)
  dimName := fun dimid => ["time","lat","lon"].getD dimid ""
  dimLen := fun dimid => ([times,lats,lons].map List.length)[dimid]?
  varType := fun varid => if varid≤2 then .double else .other
  getVarDouble := fun varid =>
    ⟨0,if varid=0 then times else if varid=1 then lats else if varid=2 then lons else []⟩
  getVarFloat := fun _ => ⟨-1,[]⟩
  getVaraDouble := fun _ _ _ => ⟨-1,[]⟩
  getVaraFloat := fun varid _ _ => ⟨0,values varid⟩

/-- A world in which the given files open and nothing else fails. -/
def sampleEnv (files : String → Option (NcFile ℚ)) : Env ℚ where
  ncOpen := fun path _ =>
    match files path with
    | some file => .ok file
    | none => .error unusableFile
  calloc := fun _ => true
  toFloat := id
  toFloat_zero := rfl
  sqrt := Rat.sqrt
  toLower := Char.toLower
  parseFormat := fun _ _ => none
  getYear := fun _ => 0
  formatHour := fun _ => ""

/-- Two steps of a two by two grid with constant values. -/
def sampleSteps (value : ℚ) : NcFile ℚ :=
  sampleFile [0,1] [10,11] [20,21] fun _ => [value,value,value,value]

/-- Two readable files `a.nc` and `b.nc` in the directory `d`. -/
def twoFiles : Env ℚ :=
  sampleEnv fun path =>
    if path="d\\a.nc" then some (sampleSteps 1)
    else if path="d\\b.nc" then some (sampleSteps 2) else none

/-- The directory `d` is entered. -/
def enterTwoFiles : DialogEvent ℚ :=
  .dirChanged "d" ⟨[("a.nc",twoFiles),("b.nc",twoFiles)],by decide⟩

example : (dialogStep {} enterTwoFiles).treeFiles=[("a.nc",2),("b.nc",2)] := by decide +kernel

end Sample

end NcdfPlugin.NcdfDialog
