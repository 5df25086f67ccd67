import NcdfPlugin.NcdfCalls
import NcdfPlugin.NcdfOverlay
import NcdfPlugin.NcdfDirection

/-!
# The plugin

The host starts the plugin, opens and closes its dialog, passes on input and asks
for frames. The handlers of the dialog switch overlays, show check boxes, reset the
factory and hand data to it. The dialog and the factory inside the plugin run as
each of them runs alone. A frame shows the dropped arrows while there are any,
otherwise the overlays, and nothing at all while the dialog is closed.
-/

namespace NcdfPlugin.NcdfSession

open NcdfLibrary NcdfMessage NcdfTimeStep NcdfReader NcdfDialog NcdfSelection NcdfCalls NcdfOverlay
  NcdfDirection GuardedRun

section State

/-- A check box of the dialog. -/
structure CheckBox where
  /-- Whether it is shown. -/
  visible : Bool := false
  /-- Whether it is checked. -/
  value : Bool := false

/-- The check boxes. -/
inductive Box where
  | dCurrent
  | bmpCurrentForce
  | particles
  | seaTemp
  | seaTempIso
  | salinity
  deriving DecidableEq

/-- Settings that the plugin keeps. -/
structure Settings where
  /-- `m_bncdfUseHiDef`. -/
  useHiDef : Bool
  /-- `m_bncdfShowIcon`. -/
  showIcon : Bool
  /-- Visibility of the overlays. -/
  flags : ShowFlags
  /-- `m_iParticleDensity`. -/
  particleDensity : ℤ
  /-- `m_ncdf_dialog_sx`. -/
  dialogSx : ℤ
  /-- `m_ncdf_dialog_sy`. -/
  dialogSy : ℤ
  /-- `m_ncdf_dialog_x`. -/
  dialogX : ℤ
  /-- `m_ncdf_dialog_y`. -/
  dialogY : ℤ
  /-- `m_choice`. -/
  choice : ℤ
  /-- `m_ncdf_dir`. -/
  ncdfDir : String

variable {α : Type} [Field α]

/-- The dialog with its controls. -/
structure Window (α : Type) [Field α] where
  /-- Files and grids. -/
  main : MainDialog α := {}
  /-- Whether it is on the screen. -/
  shown : Bool := false
  /-- The check boxes. -/
  boxes : Box → CheckBox := fun _ => {}
  /-- `m_ArrowList`. -/
  arrowList : List (α×α) := []
  /-- `m_cursor_lat` and `m_cursor_lon`. -/
  cursor : α×α

/-- `ncdf_pi` with its dialog and its factory. -/
structure NcdfPi (α : Type) [Field α] where
  /-- Settings. -/
  settings : Settings
  /-- `b_showODAS`. -/
  showODAS : Bool := false
  /-- `m_pncdfDialog`. -/
  dialog : Option (Window α) := none
  /-- `m_pncdfOverlayFactory`; its view of dialog and settings is `view`. -/
  factory : Factory α := {}

/-- The dialog's own part, also before the dialog exists. -/
def NcdfPi.main (p : NcdfPi α) : MainDialog α :=
  match p.dialog with
  | some w => w.main
  | none => {}

/-- The factory reads the grids and the settings through its pointers. -/
def viewOf (s : Factory α) (gui : GuiGrids α) (flags : ShowFlags) : Factory α :=
  {s with gui := gui,flags := flags}

/-- What the factory sees. -/
def NcdfPi.view (p : NcdfPi α) : Factory α := viewOf p.factory p.main.gui p.settings.flags

/-- The plugin with a changed dialog. -/
def NcdfPi.withWindow (p : NcdfPi α) (w : Window α) : NcdfPi α := {p with dialog := some w}

/-- The plugin with changed switches and a changed dialog. -/
def NcdfPi.withPanel (p : NcdfPi α) (panel : ShowFlags×Window α) : NcdfPi α :=
  {p with settings := {p.settings with flags := panel.1},dialog := some panel.2}

/-- `MainDialog` with `setPlugIn`, and the text event of the directory. The
cursor is not initialised. -/
def newWindow (memory : α×α) (settings : Settings) (main : MainDialog α) : Window α where
  main := main
  boxes := fun
    | .dCurrent => {value := settings.flags.showCurrentDir}
    | .bmpCurrentForce => {value := settings.flags.showCurrentForce}
    | .particles => {value := settings.flags.showParticles}
    | _ => {}
  cursor := memory

end State

section Panels

variable {α : Type} [Field α]

/-- Whether the loaded file has the data of a box. -/
def available (cache : FileCache) : Box → Bool
  | .dCurrent => cache.fileHasCurrent
  | .bmpCurrentForce => cache.fileHasCurrent
  | .particles => cache.fileHasCurrent
  | .seaTemp => cache.fileHasSeaTemp
  | .seaTempIso => cache.fileHasSeaTemp
  | .salinity => cache.fileHasSalinity

/-- The given boxes are shown when the file has their data. -/
def Window.showBoxes (w : Window α) (which : List Box) : Window α :=
  {w with
    boxes := fun b =>
      if b∈which then {w.boxes b with visible := available w.main.cache b} else w.boxes b}

/-- `SetValue` on boxes. -/
def Window.setValues (w : Window α) (which : List Box) (value : Bool) : Window α :=
  {w with boxes := fun b => if b∈which then {w.boxes b with value := value} else w.boxes b}

/-- The three switches of the current: off without data, and on with data where
the handler turns them on. -/
def switchCurrent (enable : Bool) (panel : ShowFlags×Window α) : ShowFlags×Window α :=
  if panel.2.main.cache.fileHasCurrent=false then
    ({panel.1 with showCurrentDir := false,showCurrentForce := false,showParticles := false},panel.2)
  else if enable=true then
    ({panel.1 with showCurrentDir := true,showCurrentForce := true,showParticles := true},
      panel.2.setValues [.dCurrent,.bmpCurrentForce,.particles] true)
  else panel

/-- Both switches of the sea temperature are off without data. -/
def switchSeaTemp (panel : ShowFlags×Window α) : ShowFlags×Window α :=
  if panel.2.main.cache.fileHasSeaTemp=false then
    ({panel.1 with showSeaTemp := false,showSeaTempIso := false},panel.2)
  else panel

/-- A change of file turns the sea temperature off in any case. -/
def clearSeaTemp (panel : ShowFlags×Window α) : ShowFlags×Window α :=
  if panel.2.main.cache.fileHasSeaTemp=true then
    ({panel.1 with showSeaTemp := false},panel.2.setValues [.seaTemp] false)
  else ({panel.1 with showSeaTemp := false,showSeaTempIso := false},panel.2)

/-- Salinity is on exactly with data. -/
def switchSalinity (panel : ShowFlags×Window α) : ShowFlags×Window α :=
  if panel.2.main.cache.fileHasSalinity=true then
    ({panel.1 with showSalinity := true},panel.2.setValues [.salinity] true)
  else ({panel.1 with showSalinity := false},panel.2)

/-- Boxes and switches after a file node was loaded. The box of the isolines is
not among those shown. -/
def fileNodePanel (flags : ShowFlags) (w : Window α) : ShowFlags×Window α :=
  switchSalinity (switchSeaTemp (switchCurrent true
    (flags,w.showBoxes [.dCurrent,.bmpCurrentForce,.particles,.seaTemp,.salinity])))

/-- Boxes and switches after a change of file. -/
def fileSwitchPanel (flags : ShowFlags) (w : Window α) : ShowFlags×Window α :=
  switchSalinity (switchCurrent true (clearSeaTemp
    (flags,w.showBoxes [.dCurrent,.bmpCurrentForce,.particles,.seaTemp,.seaTempIso,.salinity])))

/-- Boxes and switches at the end of a selection. -/
def selectionPanel (flags : ShowFlags) (w : Window α) : ShowFlags×Window α :=
  switchSalinity (switchSeaTemp (switchCurrent false
    (flags,w.showBoxes [.dCurrent,.bmpCurrentForce,.particles,.seaTemp,.seaTempIso,.salinity])))

end Panels

section Handlers

variable {α : Type} [Field α] [LinearOrder α]

/-- What `readncdfFile` does to the factory. -/
def handedOver (s : Factory α) : Option (DataMessage α) → Factory α
  | some m => if hasAnyData m=true then setData (reset s) m else s
  | none => s

/-- End of a selection in the tree. A position out of range leaves the boxes
alone. -/
def finishSelection (env : Env α) (p : NcdfPi α) (w : Window α) (k : ℕ) : NcdfPi α :=
  match stepAt w.main.myDataVector k with
  | none => p.withWindow w
  | some _ =>
    let out := selectLoadedStep env w.main k
    {p with factory := handedOver p.factory out.2}.withPanel
      (selectionPanel p.settings.flags {w with main := out.1})

/-- A selection outside of the tree leaves the boxes alone. -/
def onSelection (p : NcdfPi α) (w : Window α)
    (out : MainDialog α×Option (DataMessage α)) : NcdfPi α :=
  {p with factory := handedOver p.factory out.2}.withWindow {w with main := out.1}

variable [FloorRing α]

/-- `onTreeSelectionChanged` on a time-step node. -/
def onStepNode (env : Env α) (p : NcdfPi α) (w : Window α) (fn : String) (k : ℕ) : NcdfPi α :=
  if hasStepNode w.main fn k=true then
    let fileName := filePath w.main fn
    if fileName≠w.main.currentFilePath then
      let p := {p with factory := reset p.factory}
      let (ret,after) := ncGet env (beforeSwitch w.main) fileName
      if ret≠0 then p.withWindow {w with main := after}
      else
        let panel := fileSwitchPanel p.settings.flags {w with main := {after with currentFilePath := fileName}}
        finishSelection env (p.withPanel panel) panel.2 k
    else finishSelection env p w k
  else p

/-- Whether the tree has a node for a file. -/
def hasFileNode (s : MainDialog α) (fn : String) : Bool :=
  s.treeFiles.any fun entry => decide (entry.1=fn)

/-- `onTreeSelectionChanged` on a file node. A node without children carries no
position, and only the boxes are updated. -/
def onFileNode (env : Env α) (p : NcdfPi α) (w : Window α) (fn : String) : NcdfPi α :=
  if hasStepNode w.main fn 0=true then
    let (ret,after) := ncGet env w.main (filePath w.main fn)
    if ret≠0 ∨ after.myDataVector.isEmpty=true then p.withWindow {w with main := after}
    else
      {p with factory := reset p.factory}.withPanel (fileNodePanel p.settings.flags
        {w with main := {after with gui := after.gui.freeGrids,lastSelectedTimeIndex := -1}})
  else if hasFileNode w.main fn=true then p.withPanel (selectionPanel p.settings.flags w)
  else p

/-- Handlers of the dialog for files and time steps. -/
def onDialog (p : NcdfPi α) (w : Window α) : DialogEvent α → NcdfPi α
  | .dirChanged dir listing => p.withWindow {w with main := onDirChanged w.main dir listing}
  | .fileNode env fn => onFileNode env p w fn
  | .select env (.stepNode fn k) => onStepNode env p w fn k
  | .select env (.timeChoice idx) => onSelection p w (onTimeChange env w.main idx)
  | .select env (.slider idx) => onSelection p w (onTimeline env w.main idx)
  | .select env (.prevNext idx) => onSelection p w (readData env w.main idx)

end Handlers

section Events

variable {α : Type} [Field α]

/-- Switches after a click on a box: five handlers take over its value, the one
of the particles inverts its switch. -/
def clickFlags (flags : ShowFlags) (value : Bool) : Box → ShowFlags
  | .dCurrent => {flags with showCurrentDir := value}
  | .bmpCurrentForce => {flags with showCurrentForce := value}
  | .particles => {flags with showParticles := !flags.showParticles}
  | .seaTemp => {flags with showSeaTemp := value}
  | .seaTempIso => {flags with showSeaTempIso := value}
  | .salinity => {flags with showSalinity := value}

/-- A click toggles a visible box and calls its handler. -/
def onClick (p : NcdfPi α) (w : Window α) (b : Box) : NcdfPi α :=
  if (w.boxes b).visible=true then
    let value := !(w.boxes b).value
    p.withPanel (clickFlags p.settings.flags value b,w.setValues [b] value)
  else p

/-- `OnContextMenu`: the answer of the user drops an arrow at the cursor or
removes all. Without a focused time step nothing is asked. -/
def onContextMenu (p : NcdfPi α) (w : Window α) (focused ok : Bool) : NcdfPi α :=
  if focused=false then p
  else if ok=true then
    {p with showODAS := true}.withWindow {w with arrowList := w.arrowList++[w.cursor]}
  else {p with showODAS := false}.withWindow {w with arrowList := []}

/-- Calls of the host and input of the user. -/
inductive PluginEvent (α : Type) [Field α] where
  /-- `OnToolbarToolCallback`. -/
  | toolbar (memory : α×α) (listing : DirListing α)
  /-- The dialog is closed. -/
  | close
  /-- `onFileButtonClick` with the directory that was chosen. -/
  | fileButton (path : String) (listing : DirListing α)
  /-- Input about files and time steps. -/
  | dialog (e : DialogEvent α)
  /-- A click on a check box. -/
  | click (b : Box)
  /-- `SetCursorLatLon`. -/
  | cursor (lat lon : α)
  /-- `OnContextMenuItemCallback`. -/
  | contextMenu (focused ok : Bool)
  /-- `SetDefaults`. -/
  | setDefaults
  /-- `RenderOverlay`, or `RenderGLOverlay` when it is not a device context. -/
  | frame (w : FrameWorld)

variable [LinearOrder α]

/-- `OnncdfDialogClose`, up to the configuration. -/
def onncdfDialogClose (p : NcdfPi α) (w : Window α) : NcdfPi α :=
  {p with factory := reset p.factory}.withWindow {w with shown := false}

variable [FloorRing α]

/-- The overlay of a frame, when the frame gets to it. -/
def frameOverlay (p : NcdfPi α) (fw : FrameWorld) : Option (Factory α×List (Draw α)) :=
  if p.showODAS=true then none
  else match p.dialog with
    | some _ => if p.factory.ready=true then some (doRender fw p.view) else none
    | none => none

/-- Input reaches the dialog while it is on the screen. -/
def onShown (p : NcdfPi α) (f : Window α → NcdfPi α) : NcdfPi α :=
  match p.dialog with
  | some w => if w.shown=true then f w else p
  | none => p

/-- One event. -/
def pluginStep (p : NcdfPi α) : PluginEvent α → NcdfPi α
  | .toolbar memory listing =>
    match p.dialog with
    | some w => p.withWindow {w with shown := true}
    | none =>
      let main := onDirChanged {} p.settings.ncdfDir listing
      p.withWindow {newWindow memory p.settings main with shown := true}
  | .close => onShown p (onncdfDialogClose p)
  | .fileButton path listing =>
    onShown p fun w =>
      {p with settings := {p.settings with ncdfDir := path}}.withWindow
        {w with main := onDirChanged w.main path listing}
  | .dialog e => onShown p fun w => onDialog p w e
  | .click b => onShown p fun w => onClick p w b
  | .cursor lat lon =>
    match p.dialog with
    | some w => p.withWindow {w with cursor := (lat,lon)}
    | none => p
  | .contextMenu focused ok =>
    match p.dialog with
    | some w => onContextMenu p w focused ok
    | none => p
  | .setDefaults => {p with settings := {p.settings with showIcon := true}}
  | .frame fw =>
    match frameOverlay p fw with
    | some out => {p with factory := out.1}
    | none => p

/-- Textures that an event draws. -/
def pluginDraws (p : NcdfPi α) : PluginEvent α → List (Draw α)
  | .frame fw => ((frameOverlay p fw).map Prod.snd).getD []
  | _ => []

end Events

section Simulation

variable {α : Type} [Field α] [LinearOrder α]

/-- What the factory is told when the grids change. -/
def overlayEventOf : GridOp α → OverlayEvent α
  | .free => .fileChanged
  | .display env m => .load env m

/-- Effect of a change of the grids on the factory itself. -/
def toldOf (s : Factory α) : GridOp α → Factory α
  | .free => reset s
  | .display _ m => handedOver s (some m)

variable [FloorRing α]

/-- What the factory sees after an operation on the grids is what its own event makes of
what it saw before. -/
theorem overlayStep_viewOf (s : Factory α) (gui : GuiGrids α) (flags : ShowFlags) (op : GridOp α) :
    overlayStep (viewOf s gui flags) (overlayEventOf op)=viewOf (toldOf s op) (applyOp gui op) flags := by
  cases op with
  | free => rfl
  | display env m =>
    unfold overlayStep overlayEventOf overlayEvent toldOf handedOver applyOp
    dsimp only
    by_cases hdata : hasAnyData m=true
    · rw [if_pos hdata,if_pos hdata]
      rfl
    · rw [if_neg hdata,if_neg hdata,readncdfFile,if_neg hdata]

/-- The same over all operations of an event, by induction over them. -/
theorem run_viewOf (ops : List (GridOp α)) (s : Factory α) (gui : GuiGrids α) (flags : ShowFlags) :
    run overlayStep (viewOf s gui flags) (ops.map overlayEventOf)=
      viewOf (ops.foldl toldOf s) (ops.foldl applyOp gui) flags := by
  induction ops generalizing s gui with
  | nil => rfl
  | cons op ops ih => rw [List.map_cons,run_cons,overlayStep_viewOf,ih,List.foldl_cons,List.foldl_cons]

end Simulation

section Panel

variable {α : Type} [Field α]

/-- The box of the salinity, while it is visible, shows the switch. -/
def InStep (flags : ShowFlags) (w : Window α) : Prop :=
  (w.boxes .salinity).visible=true → (w.boxes .salinity).value=flags.showSalinity

/-- Only boxes differ. -/
structure SameWindow (w w' : Window α) : Prop where
  /-- Files and grids are the same. -/
  main : w'.main=w.main
  /-- The window is still open or still closed. -/
  shown : w'.shown=w.shown
  /-- The arrows are the same. -/
  arrowList : w'.arrowList=w.arrowList

theorem SameWindow.refl (w : Window α) : SameWindow w w := ⟨rfl,rfl,rfl⟩

/-- Changes of boxes compose. -/
theorem SameWindow.trans {w w' w'' : Window α} (h : SameWindow w w') (h' : SameWindow w' w'') :
    SameWindow w w'' :=
  ⟨h'.main.trans h.main,h'.shown.trans h.shown,h'.arrowList.trans h.arrowList⟩

/-- Showing boxes changes nothing else of the window. -/
theorem sameWindow_showBoxes (w : Window α) (which : List Box) : SameWindow w (w.showBoxes which) :=
  ⟨rfl,rfl,rfl⟩

/-- Checking boxes changes nothing else of the window. -/
theorem sameWindow_setValues (w : Window α) (which : List Box) (value : Bool) :
    SameWindow w (w.setValues which value) :=
  ⟨rfl,rfl,rfl⟩

/-- Only the listed boxes are checked. -/
theorem setValues_of_notMem {which : List Box} {b : Box} (h : b∉which) (w : Window α) (value : Bool) :
    (w.setValues which value).boxes b=w.boxes b :=
  if_neg h

/-- A part of a panel that leaves the salinity alone. -/
structure SparesSalinity (part : ShowFlags×Window α → ShowFlags×Window α) : Prop where
  /-- Only boxes change. -/
  window : ∀ panel,SameWindow panel.2 (part panel).2
  /-- Not that of the salinity. -/
  salinity : ∀ panel,(part panel).2.boxes .salinity=panel.2.boxes .salinity

/-- Two handlers that leave the box of the salinity and its switch alone leave them alone
together. -/
theorem SparesSalinity.comp {first second : ShowFlags×Window α → ShowFlags×Window α}
    (h : SparesSalinity first) (h' : SparesSalinity second) : SparesSalinity (second ∘ first) :=
  ⟨fun panel => (h.window panel).trans (h'.window _),fun panel => (h'.salinity _).trans (h.salinity panel)⟩

/-- The switch of the current leaves the salinity alone. -/
theorem sparesSalinity_switchCurrent (enable : Bool) :
    SparesSalinity (switchCurrent enable : ShowFlags×Window α → _) := by
  refine ⟨fun panel => ?_,fun panel => ?_⟩
  · unfold switchCurrent
    split_ifs
    · exact SameWindow.refl _
    · exact sameWindow_setValues _ _ _
    · exact SameWindow.refl _
  · unfold switchCurrent
    split_ifs
    · rfl
    · exact setValues_of_notMem (by decide) _ _
    · rfl

/-- The switch of the sea temperature leaves the salinity alone. -/
theorem sparesSalinity_switchSeaTemp :
    SparesSalinity (switchSeaTemp : ShowFlags×Window α → _) := by
  refine ⟨fun panel => ?_,fun panel => ?_⟩
  · unfold switchSeaTemp
    split_ifs <;> exact SameWindow.refl _
  · unfold switchSeaTemp
    split_ifs <;> rfl

/-- Clearing the sea temperature leaves the salinity alone. -/
theorem sparesSalinity_clearSeaTemp : SparesSalinity (clearSeaTemp : ShowFlags×Window α → _) := by
  refine ⟨fun panel => ?_,fun panel => ?_⟩
  · unfold clearSeaTemp
    split_ifs
    · exact sameWindow_setValues _ _ _
    · exact SameWindow.refl _
  · unfold clearSeaTemp
    split_ifs
    · exact setValues_of_notMem (by decide) _ _
    · rfl

/-- The switch of the salinity changes boxes only. -/
theorem sameWindow_switchSalinity (panel : ShowFlags×Window α) :
    SameWindow panel.2 (switchSalinity panel).2 := by
  unfold switchSalinity
  split_ifs
  · exact sameWindow_setValues _ _ _
  · exact SameWindow.refl _

/-- The salinity is switched on exactly when its box was shown, so box and switch agree. -/
theorem inStep_switchSalinity {panel : ShowFlags×Window α}
    (h : (panel.2.boxes .salinity).visible=panel.2.main.cache.fileHasSalinity) :
    InStep (switchSalinity panel).1 (switchSalinity panel).2 := by
  unfold switchSalinity
  split_ifs with hhas
  · exact fun _ => congrArg CheckBox.value (if_pos (by decide))
  · intro hvisible
    exact absurd (h.symm.trans hvisible) hhas

/-- What a panel does: boxes change, and the salinity is in step. -/
theorem panel_spec {part : ShowFlags×Window α → ShowFlags×Window α} (hpart : SparesSalinity part)
    (flags : ShowFlags) (w : Window α) {which : List Box} (hmem : Box.salinity∈which) :
    SameWindow w (switchSalinity (part (flags,w.showBoxes which))).2 ∧
      InStep (switchSalinity (part (flags,w.showBoxes which))).1
        (switchSalinity (part (flags,w.showBoxes which))).2 := by
  have hwindow := (sameWindow_showBoxes w which).trans (hpart.window (flags,w.showBoxes which))
  refine ⟨hwindow.trans (sameWindow_switchSalinity _),inStep_switchSalinity ?_⟩
  rw [hpart.salinity,hwindow.main]
  exact congrArg CheckBox.visible (if_pos hmem)

/-- After the click of a file node the box of the salinity and its switch agree. -/
theorem fileNodePanel_spec (flags : ShowFlags) (w : Window α) :
    SameWindow w (fileNodePanel flags w).2 ∧ InStep (fileNodePanel flags w).1 (fileNodePanel flags w).2 :=
  panel_spec ((sparesSalinity_switchCurrent true).comp sparesSalinity_switchSeaTemp) flags w (by decide)

/-- After a change of file the box of the salinity and its switch agree. -/
theorem fileSwitchPanel_spec (flags : ShowFlags) (w : Window α) :
    SameWindow w (fileSwitchPanel flags w).2 ∧
      InStep (fileSwitchPanel flags w).1 (fileSwitchPanel flags w).2 :=
  panel_spec (sparesSalinity_clearSeaTemp.comp (sparesSalinity_switchCurrent true)) flags w (by decide)

/-- After a selection the box of the salinity and its switch agree. -/
theorem selectionPanel_spec (flags : ShowFlags) (w : Window α) :
    SameWindow w (selectionPanel flags w).2 ∧
      InStep (selectionPanel flags w).1 (selectionPanel flags w).2 :=
  panel_spec ((sparesSalinity_switchCurrent false).comp sparesSalinity_switchSeaTemp) flags w (by decide)

end Panel

section Handled

variable {α : Type} [Field α] [LinearOrder α]

/-- Everything a handler does, given what becomes of the dialog's own part and
of the grids. -/
structure Handled (p : NcdfPi α) (w : Window α) (main : MainDialog α) (ops : List (GridOp α))
    (p' : NcdfPi α) (w' : Window α) : Prop where
  /-- The dialog after the handler. -/
  dialog : p'.dialog=some w'
  /-- Its files and grids. -/
  main : w'.main=main
  /-- The factory is told each change of the grids. -/
  factory : p'.factory=ops.foldl toldOf p.factory
  /-- The dialog stays where it is. -/
  shown : w'.shown=w.shown
  /-- Arrows stay. -/
  arrowList : w'.arrowList=w.arrowList
  /-- So does the mode of the arrows. -/
  showODAS : p'.showODAS=p.showODAS
  /-- Of the settings, only switches change. -/
  settings : p'.settings={p.settings with flags := p'.settings.flags}
  /-- The salinity stays in step. -/
  salinity : InStep p.settings.flags w → InStep p'.settings.flags w'

/-- Two stages of a handler are one handler that does what both do to the grids. -/
theorem Handled.trans {p p' p'' : NcdfPi α} {w w' w'' : Window α} {main main' : MainDialog α}
    {ops ops' : List (GridOp α)} (h : Handled p w main ops p' w')
    (h' : Handled p' w' main' ops' p'' w'') : Handled p w main' (ops++ops') p'' w'' where
  dialog := h'.dialog
  main := h'.main
  factory := by rw [h'.factory,h.factory,List.foldl_append]
  shown := h'.shown.trans h.shown
  arrowList := h'.arrowList.trans h.arrowList
  showODAS := h'.showODAS.trans h.showODAS
  settings := by rw [h'.settings,h.settings]
  salinity := h'.salinity ∘ h.salinity

/-- A handler that changes neither boxes nor switches does only what it does to dialog and
grids. -/
theorem handled_withWindow {p p' : NcdfPi α} (w : Window α) (main : MainDialog α) {ops : List (GridOp α)}
    (hfactory : p'.factory=ops.foldl toldOf p.factory) (hodas : p'.showODAS=p.showODAS)
    (hsettings : p'.settings=p.settings) :
    Handled p w main ops (p'.withWindow {w with main := main}) {w with main := main} where
  dialog := rfl
  main := rfl
  factory := hfactory
  shown := rfl
  arrowList := rfl
  showODAS := hodas
  settings := by rw [NcdfPi.withWindow,hsettings]
  salinity := fun h => by
    rw [NcdfPi.withWindow,hsettings]
    exact h

/-- A handler that ends with a panel of boxes does to dialog and grids what it did before
the panel. -/
theorem handled_withPanel {p : NcdfPi α} (p' : NcdfPi α) {w : Window α} {main : MainDialog α}
    {ops : List (GridOp α)} {panel : ShowFlags×Window α} (hfactory : p'.factory=ops.foldl toldOf p.factory)
    (hodas : p'.showODAS=p.showODAS) (hsettings : p'.settings=p.settings)
    (hpanel : SameWindow {w with main := main} panel.2 ∧ InStep panel.1 panel.2) :
    Handled p w main ops (p'.withPanel panel) panel.2 where
  dialog := rfl
  main := hpanel.1.main
  factory := hfactory
  shown := hpanel.1.shown
  arrowList := hpanel.1.arrowList
  showODAS := hodas
  settings := by rw [NcdfPi.withPanel,hsettings]
  salinity := fun _ => hpanel.2

/-- The factory is told what was handed over. -/
theorem handedOver_eq (s : Factory α) (env : Env α) (handed : Option (DataMessage α)) :
    handedOver s handed=(handed.map (GridOp.display env)).toList.foldl toldOf s := by
  cases handed <;> rfl

/-- The end of a click on a step node selects among the loaded steps and shows the
selection. -/
theorem handled_finishSelection (env : Env α) (p : NcdfPi α) (w : Window α) (k : ℕ) :
    ∃ w',Handled p w (selectLoadedStep env w.main k).1
      ((selectLoadedStep env w.main k).2.map (GridOp.display env)).toList (finishSelection env p w k) w' := by
  unfold finishSelection
  cases hstep : stepAt w.main.myDataVector k with
  | none =>
    rw [selectLoadedStep_none hstep]
    exact ⟨w,handled_withWindow w w.main rfl rfl rfl⟩
  | some m =>
    exact ⟨_,handled_withPanel _ (handedOver_eq _ env _) rfl rfl (selectionPanel_spec _ _)⟩

/-- A handler that only selects shows what was handed over, if anything was. -/
theorem handled_onSelection (env : Env α) (p : NcdfPi α) (w : Window α)
    (out : MainDialog α×Option (DataMessage α)) :
    ∃ w',Handled p w out.1 (out.2.map (GridOp.display env)).toList (onSelection p w out) w' :=
  ⟨_,handled_withWindow w out.1 (handedOver_eq _ env _) rfl rfl⟩

variable [FloorRing α]

omit [LinearOrder α] [FloorRing α] in
/-- A step node changes the file when it is in the tree and its path is not the current one.
-/
theorem switchesFile_stepNode (s : MainDialog α) (fn : String) (k : ℕ) :
    switchesFile s (.stepNode fn k)=(hasStepNode s fn k && decide (filePath s fn≠s.currentFilePath)) := rfl

/-- The click of a step node, with or without a change of file, is what the dialog does and
the operations on the grids that go with it. -/
theorem handled_onStepNode (env : Env α) {p : NcdfPi α} {w : Window α} (fn : String) (k : ℕ)
    (hdialog : p.dialog=some w) :
    ∃ w',Handled p w (dialogStep w.main (.select env (.stepNode fn k)))
      (gridOps w.main (.handler (.select env (.stepNode fn k)))) (onStepNode env p w fn k) w' := by
  have hops : gridOps w.main (.handler (.select env (.stepNode fn k)))=
      (if switchesFile w.main (.stepNode fn k)=true then [.free] else [])++
        ((selectStepNode env w.main fn k).2.map (GridOp.display env)).toList := rfl
  have hmain : dialogStep w.main (.select env (.stepNode fn k))=(selectStepNode env w.main fn k).1 := rfl
  rw [hops,hmain,switchesFile_stepNode]
  unfold onStepNode
  rcases selectStepNode_cases env w.main fn k with ⟨hnode,hout⟩ | ⟨hnode,hpath,hout⟩ |
    ⟨hnode,hpath,hcode,hout⟩ | ⟨hnode,hpath,hcode,hout⟩
  · rw [hout,hnode,if_neg Bool.false_ne_true,Bool.false_and,if_neg Bool.false_ne_true]
    exact ⟨w,hdialog,rfl,rfl,rfl,rfl,rfl,rfl,id⟩
  · rw [hout,hnode,if_pos rfl,decide_eq_false (not_not.mpr hpath),Bool.and_false,if_neg Bool.false_ne_true]
    dsimp only
    rw [if_neg (not_not.mpr hpath)]
    exact handled_finishSelection env p w k
  · rw [hout,hnode,if_pos rfl,decide_eq_true hpath,Bool.and_true,if_pos rfl]
    dsimp only
    rw [if_pos hpath,ncGet_eq]
    dsimp only
    rw [if_pos hcode]
    exact ⟨_,handled_withWindow w _ rfl rfl rfl⟩
  · rw [hout,hnode,if_pos rfl,decide_eq_true hpath,Bool.and_true,if_pos rfl]
    dsimp only
    rw [if_pos hpath,switched,ncGet_eq]
    dsimp only
    rw [if_neg (not_not.mpr hcode)]
    -- the file is switched, then the step is selected in it
    have hpanel := fileSwitchPanel_spec p.settings.flags
      {w with main := switched env w.main (filePath w.main fn)}
    rw [switched,ncGet_eq] at hpanel
    have hswitch : Handled p w _ [.free] _ _ :=
      handled_withPanel {p with factory := reset p.factory} rfl rfl rfl hpanel
    obtain ⟨w',hfinish⟩ := handled_finishSelection env
      ({p with factory := reset p.factory}.withPanel (fileSwitchPanel p.settings.flags _)) _ k
    rw [hswitch.main] at hfinish
    exact ⟨w',hswitch.trans hfinish⟩

/-- The click of a file node is what the dialog does, and the operations on the grids that
go with it. -/
theorem handled_onFileNode (env : Env α) {p : NcdfPi α} {w : Window α} (fn : String)
    (hdialog : p.dialog=some w) :
    ∃ w',Handled p w (dialogStep w.main (.fileNode env fn)) (gridOps w.main (.handler (.fileNode env fn)))
      (onFileNode env p w fn) w' := by
  have hops : gridOps w.main (.handler (.fileNode env fn))=
      if replacesFile env w.main fn=true then [.free] else [] := rfl
  have hmain : dialogStep w.main (.fileNode env fn)=selectFileNode env w.main fn := rfl
  rw [hops,hmain]
  unfold onFileNode selectFileNode replacesFile
  rw [ncGet_eq]
  dsimp only
  by_cases hnode : hasStepNode w.main fn 0=true
  · rw [if_pos hnode,if_pos hnode,hnode,Bool.true_and]
    by_cases hstay : loadCode env (filePath w.main fn)≠0 ∨ (fileSteps env (filePath w.main fn)).isEmpty=true
    · have hkeep : ¬(decide (loadCode env (filePath w.main fn)=0) &&
          !(fileSteps env (filePath w.main fn)).isEmpty)=true := by
        rcases hstay with hcode | hempty
        · simp [hcode]
        · simp [hempty]
      rw [if_pos hstay,if_pos hstay,if_neg hkeep]
      exact ⟨_,handled_withWindow w _ rfl rfl rfl⟩
    · have hload : (decide (loadCode env (filePath w.main fn)=0) &&
          !(fileSteps env (filePath w.main fn)).isEmpty)=true := by
        obtain ⟨hcode,hempty⟩ := not_or.mp hstay
        simp [not_not.mp hcode,hempty]
      rw [if_neg hstay,if_neg hstay,if_pos hload]
      exact ⟨_,handled_withPanel {p with factory := reset p.factory} rfl rfl rfl
        (fileNodePanel_spec p.settings.flags _)⟩
  · rw [if_neg hnode,if_neg hnode,Bool.eq_false_of_not_eq_true hnode,Bool.false_and,Bool.false_and,
      if_neg Bool.false_ne_true]
    split_ifs
    · exact ⟨_,handled_withPanel p rfl rfl rfl (selectionPanel_spec p.settings.flags w)⟩
    · exact ⟨w,hdialog,rfl,rfl,rfl,rfl,rfl,rfl,id⟩

/-- Every handler does to the dialog's own part what it does without the plugin,
and tells the factory each change of the grids. -/
theorem handled_onDialog {p : NcdfPi α} {w : Window α} (e : DialogEvent α) (hdialog : p.dialog=some w) :
    ∃ w',Handled p w (dialogStep w.main e) (gridOps w.main (.handler e)) (onDialog p w e) w' := by
  cases e with
  | dirChanged dir listing => exact ⟨_,handled_withWindow w _ rfl rfl rfl⟩
  | fileNode env fn => exact handled_onFileNode env fn hdialog
  | select env selection =>
    cases selection with
    | stepNode fn k => exact handled_onStepNode env fn k hdialog
    | timeChoice idx => exact handled_onSelection env p w _
    | slider idx => exact handled_onSelection env p w _
    | prevNext idx => exact handled_onSelection env p w _

end Handled

section Frames

variable {α : Type} [Field α] [LinearOrder α]

/-- What a frame leaves alone. -/
structure Untouched (s s' : Factory α) : Prop where
  /-- Fields of the dialog. -/
  gui : s'.gui=s.gui
  /-- Settings. -/
  flags : s'.flags=s.flags
  /-- Whether there is something to render. -/
  ready : s'.ready=s.ready

omit [LinearOrder α] in
theorem Untouched.refl (s : Factory α) : Untouched s s := ⟨rfl,rfl,rfl⟩

omit [LinearOrder α] in
/-- What two stages leave untouched both together leave untouched. -/
theorem Untouched.trans {s s' s'' : Factory α} (h : Untouched s s') (h' : Untouched s' s'') :
    Untouched s s'' :=
  ⟨h'.gui.trans h.gui,h'.flags.trans h.flags,h'.ready.trans h.ready⟩

omit [LinearOrder α] in
/-- Dropping a texture touches neither grids nor switches nor the readiness of the overlays.
-/
theorem untouched_lazyRebuild (s : Factory α) (X : ColorFunc) : Untouched s (lazyRebuild s X) := by
  unfold lazyRebuild
  split <;> exact ⟨rfl,rfl,rfl⟩

/-- Neither does building a texture, whether or not it succeeds. -/
theorem untouched_createTexture (w : FrameWorld) (s : Factory α) (grid : Grid α) (nj ni : ℕ)
    (X : ColorFunc) : Untouched s (createTexture w s grid nj ni X).1 := by
  unfold createTexture
  dsimp only
  split <;> exact ⟨rfl,rfl,rfl⟩

/-- Neither does rendering an overlay. -/
theorem untouched_renderAsked (w : FrameWorld) (s : Factory α) (X : ColorFunc) :
    Untouched s (renderAsked w s X).1 := by
  have hfresh := untouched_lazyRebuild s X
  unfold renderAsked renderGridOverlay
  split
  · dsimp only
    cases gridOf s.gui X with
    | none => exact Untouched.refl s
    | some grid =>
      dsimp only
      split
      · exact Untouched.refl s
      · split
        · exact hfresh
        · split <;> exact hfresh.trans (untouched_createTexture _ _ _ _ _ _)
  · exact Untouched.refl s

variable [FloorRing α]

/-- Neither does extracting the isolines. -/
theorem untouched_renderSeaTempIsoLines (s : Factory α) : Untouched s (renderSeaTempIsoLines s) := by
  unfold renderSeaTempIsoLines
  dsimp only
  split
  · exact Untouched.refl s
  · split
    · exact Untouched.refl s
    · exact ⟨rfl,rfl,rfl⟩

/-- A whole frame leaves grids, switches and readiness untouched, as each of its overlays
does. -/
theorem untouched_doRender (w : FrameWorld) (s : Factory α) : Untouched s (doRender w s).1 := by
  unfold doRender
  split
  · exact Untouched.refl s
  · dsimp only
    have hseaTemp := (untouched_renderAsked w s .seaCurrent).trans
      (untouched_renderAsked w (renderAsked w s .seaCurrent).1 .seaTemp)
    split
    · exact (hseaTemp.trans (untouched_renderSeaTempIsoLines _)).trans (untouched_renderAsked w _ .salinity)
    · exact hseaTemp.trans (untouched_renderAsked w _ .salinity)

end Frames

section Runs

variable {α : Type} [Field α] [LinearOrder α] [FloorRing α]

/-- Whether the dialog is on the screen. -/
def NcdfPi.isShown (p : NcdfPi α) : Bool :=
  match p.dialog with
  | some w => w.shown
  | none => false

/-- What an event of the plugin is for the dialog's own part. -/
def dialogEvents (p : NcdfPi α) : PluginEvent α → List (DialogEvent α)
  | .toolbar _ listing => if p.dialog.isNone=true then [.dirChanged p.settings.ncdfDir listing] else []
  | .fileButton path listing => if p.isShown=true then [.dirChanged path listing] else []
  | .dialog e => if p.isShown=true then [e] else []
  | _ => []

/-- What an event of the plugin is for the factory. -/
def overlayEvents (p : NcdfPi α) : PluginEvent α → List (OverlayEvent α)
  | .close => if p.isShown=true then [.closed] else []
  | .dialog e =>
    if p.isShown=true then
      (gridOps p.main (.handler e)).map overlayEventOf++[.toggle (pluginStep p (.dialog e)).settings.flags]
    else []
  | .click b => if p.isShown=true then [.toggle (pluginStep p (.click b)).settings.flags] else []
  | .frame fw => if (frameOverlay p fw).isSome=true then [.frame fw] else []
  | _ => []

omit [LinearOrder α] [FloorRing α] in
/-- While the dialog is shown a handler acts on its window. -/
theorem onShown_of_shown {p : NcdfPi α} (f : Window α → NcdfPi α) (h : p.isShown=true) :
    ∃ w,p.dialog=some w ∧ w.shown=true ∧ onShown p f=f w := by
  unfold NcdfPi.isShown at h
  cases hdialog : p.dialog with
  | none =>
    rw [hdialog] at h
    cases h
  | some w =>
    rw [hdialog] at h
    refine ⟨w,rfl,h,?_⟩
    unfold onShown
    rw [hdialog]
    exact if_pos h

omit [LinearOrder α] [FloorRing α] in
/-- While it is not shown the handler does nothing. -/
theorem onShown_of_hidden {p : NcdfPi α} (f : Window α → NcdfPi α) (h : ¬p.isShown=true) :
    onShown p f=p := by
  unfold NcdfPi.isShown at h
  unfold onShown
  cases hdialog : p.dialog with
  | none => rfl
  | some w =>
    rw [hdialog] at h
    exact if_neg h

omit [LinearOrder α] [FloorRing α] in
/-- The part of the session that the dialog keeps is that of its window. -/
theorem main_of_dialog {p : NcdfPi α} {w : Window α} (h : p.dialog=some w) : p.main=w.main := by
  rw [NcdfPi.main,h]

omit [LinearOrder α] [FloorRing α] in
/-- A factory that already has the grids and switches sees itself. -/
theorem viewOf_self {s : Factory α} {gui : GuiGrids α} {flags : ShowFlags} (hgui : s.gui=gui)
    (hflags : s.flags=flags) : viewOf s gui flags=s := by
  subst hgui hflags
  rfl

/-- Changes of the grids draw nothing. -/
theorem emitted_overlayEventOf (s : Factory α) (ops : List (GridOp α)) :
    emitted overlayStep drawsOf s (ops.map overlayEventOf)=[] := by
  induction ops generalizing s with
  | nil => rfl
  | cons op ops ih =>
    have hnone : drawsOf s (overlayEventOf op)=[] := by
      cases op with
      | free => rfl
      | display env m =>
        unfold drawsOf overlayEventOf overlayEvent
        dsimp only
        split <;> rfl
    rw [List.map_cons,emitted,hnone,ih]
    rfl

/-- A frame that gets to the overlays renders what the factory sees. -/
theorem frameOverlay_some {p : NcdfPi α} {fw : FrameWorld} {out : Factory α×List (Draw α)}
    (h : frameOverlay p fw=some out) : out=doRender fw p.view := by
  unfold frameOverlay at h
  split at h
  · cases h
  · split at h
    · split at h
      · exact (Option.some.inj h).symm
      · cases h
    · cases h

/-- A new directory shows nothing new. -/
theorem gui_onDirChanged (s : MainDialog α) (dir : String) (listing : DirListing α) :
    (onDirChanged s dir listing).gui=s.gui :=
  gui_addFiles listing.entries _

/-- The dialog's own part runs as it runs alone. -/
theorem main_pluginStep (p : NcdfPi α) (e : PluginEvent α) :
    (pluginStep p e).main=run dialogStep p.main (dialogEvents p e) := by
  cases e with
  | toolbar memory listing =>
    dsimp only [pluginStep,dialogEvents]
    cases hdialog : p.dialog with
    | none =>
      dsimp only
      rw [Option.isNone_none,if_pos rfl,NcdfPi.main,NcdfPi.main,hdialog]
      rfl
    | some w =>
      rw [main_of_dialog hdialog]
      rfl
  | close =>
    dsimp only [pluginStep,dialogEvents]
    by_cases h : p.isShown=true
    · obtain ⟨w,hdialog,-,heq⟩ := onShown_of_shown (onncdfDialogClose p) h
      rw [heq,main_of_dialog hdialog]
      rfl
    · rw [onShown_of_hidden _ h]
      rfl
  | fileButton path listing =>
    dsimp only [pluginStep,dialogEvents]
    by_cases h : p.isShown=true
    · obtain ⟨w,hdialog,-,heq⟩ := onShown_of_shown _ h
      rw [heq,main_of_dialog hdialog,if_pos h]
      rfl
    · rw [onShown_of_hidden _ h,if_neg h]
      rfl
  | dialog e =>
    dsimp only [pluginStep,dialogEvents]
    by_cases h : p.isShown=true
    · obtain ⟨w,hdialog,-,heq⟩ := onShown_of_shown (fun w => onDialog p w e) h
      obtain ⟨w',hhandled⟩ := handled_onDialog e hdialog
      rw [heq,main_of_dialog hhandled.dialog,main_of_dialog hdialog,hhandled.main,if_pos h]
      rfl
    · rw [onShown_of_hidden _ h,if_neg h]
      rfl
  | click b =>
    dsimp only [pluginStep,dialogEvents]
    by_cases h : p.isShown=true
    · obtain ⟨w,hdialog,-,heq⟩ := onShown_of_shown (fun w => onClick p w b) h
      rw [heq,onClick,main_of_dialog hdialog]
      split
      · rfl
      · exact main_of_dialog hdialog
    · rw [onShown_of_hidden _ h]
      rfl
  | cursor lat lon =>
    dsimp only [pluginStep,dialogEvents]
    cases hdialog : p.dialog with
    | none => rfl
    | some w =>
      rw [main_of_dialog hdialog]
      rfl
  | contextMenu focused ok =>
    dsimp only [pluginStep,dialogEvents]
    cases hdialog : p.dialog with
    | none => rfl
    | some w =>
      rw [main_of_dialog hdialog]
      dsimp only [onContextMenu]
      split
      · exact main_of_dialog hdialog
      · split <;> rfl
  | setDefaults => rfl
  | frame fw =>
    dsimp only [pluginStep,dialogEvents]
    cases frameOverlay p fw <;> rfl

/-- A handler changes what the factory sees by what the factory is told. -/
theorem Handled.view {p p' : NcdfPi α} {w w' : Window α} {main : MainDialog α} {ops : List (GridOp α)}
    (h : Handled p w main ops p' w') (hdialog : p.dialog=some w)
    (hgui : main.gui=ops.foldl applyOp w.main.gui) :
    p'.view=run overlayStep p.view (ops.map overlayEventOf++[.toggle p'.settings.flags]) := by
  rw [run_append,NcdfPi.view,NcdfPi.view,main_of_dialog hdialog,main_of_dialog h.dialog,run_viewOf,h.factory,
    h.main,hgui]
  rfl

/-- The factory runs as it runs alone. -/
theorem view_pluginStep (p : NcdfPi α) (e : PluginEvent α) :
    (pluginStep p e).view=run overlayStep p.view (overlayEvents p e) := by
  cases e with
  | toolbar memory listing =>
    dsimp only [pluginStep,overlayEvents]
    cases hdialog : p.dialog with
    | none =>
      rw [NcdfPi.view,NcdfPi.view,main_of_dialog rfl,NcdfPi.main,hdialog]
      exact congrArg (viewOf p.factory · p.settings.flags) (gui_onDirChanged {} _ listing)
    | some w =>
      rw [NcdfPi.view,NcdfPi.view,main_of_dialog rfl,main_of_dialog hdialog]
      rfl
  | close =>
    dsimp only [pluginStep,overlayEvents]
    by_cases h : p.isShown=true
    · obtain ⟨w,hdialog,-,heq⟩ := onShown_of_shown (onncdfDialogClose p) h
      rw [heq,if_pos h,NcdfPi.view,NcdfPi.view,main_of_dialog rfl,main_of_dialog hdialog]
      rfl
    · rw [onShown_of_hidden _ h,if_neg h]
      rfl
  | fileButton path listing =>
    dsimp only [pluginStep,overlayEvents]
    by_cases h : p.isShown=true
    · obtain ⟨w,hdialog,-,heq⟩ := onShown_of_shown _ h
      rw [heq,NcdfPi.view,NcdfPi.view,main_of_dialog rfl,main_of_dialog hdialog]
      exact congrArg (viewOf p.factory · p.settings.flags) (gui_onDirChanged w.main path listing)
    · rw [onShown_of_hidden _ h]
      rfl
  | dialog e =>
    dsimp only [pluginStep,overlayEvents]
    by_cases h : p.isShown=true
    · obtain ⟨w,hdialog,-,heq⟩ := onShown_of_shown (fun w => onDialog p w e) h
      obtain ⟨w',hhandled⟩ := handled_onDialog e hdialog
      rw [heq,if_pos h,main_of_dialog hdialog]
      exact hhandled.view hdialog (gui_callStep w.main (.handler e))
    · rw [onShown_of_hidden _ h,if_neg h]
      rfl
  | click b =>
    dsimp only [pluginStep,overlayEvents]
    by_cases h : p.isShown=true
    · obtain ⟨w,hdialog,-,heq⟩ := onShown_of_shown (fun w => onClick p w b) h
      rw [heq,if_pos h,onClick]
      split
      · rw [NcdfPi.view,NcdfPi.view,main_of_dialog rfl,main_of_dialog hdialog]
        rfl
      · rfl
    · rw [onShown_of_hidden _ h,if_neg h]
      rfl
  | cursor lat lon =>
    dsimp only [pluginStep,overlayEvents]
    cases hdialog : p.dialog with
    | none => rfl
    | some w =>
      rw [NcdfPi.view,NcdfPi.view,main_of_dialog rfl,main_of_dialog hdialog]
      rfl
  | contextMenu focused ok =>
    dsimp only [pluginStep,overlayEvents]
    cases hdialog : p.dialog with
    | none => rfl
    | some w =>
      dsimp only [onContextMenu]
      split
      · rfl
      · split
        all_goals
          rw [NcdfPi.view,NcdfPi.view,main_of_dialog rfl,main_of_dialog hdialog]
          rfl
  | setDefaults => rfl
  | frame fw =>
    dsimp only [pluginStep,overlayEvents]
    cases hframe : frameOverlay p fw with
    | none => rfl
    | some out =>
      have hout := frameOverlay_some hframe
      have hkept := untouched_doRender fw p.view
      rw [Option.isSome_some,if_pos rfl,hout]
      exact viewOf_self hkept.gui hkept.flags

/-- The plugin draws what the factory draws alone. -/
theorem pluginDraws_eq (p : NcdfPi α) (e : PluginEvent α) :
    pluginDraws p e=emitted overlayStep drawsOf p.view (overlayEvents p e) := by
  cases e with
  | toolbar memory listing => rfl
  | close =>
    dsimp only [pluginDraws,overlayEvents]
    split <;> rfl
  | fileButton path listing => rfl
  | dialog e =>
    dsimp only [pluginDraws,overlayEvents]
    split
    · rw [emitted_append,emitted_overlayEventOf]
      rfl
    · rfl
  | click b =>
    dsimp only [pluginDraws,overlayEvents]
    split <;> rfl
  | cursor lat lon => rfl
  | contextMenu focused ok => rfl
  | setDefaults => rfl
  | frame fw =>
    dsimp only [pluginDraws,overlayEvents]
    cases hframe : frameOverlay p fw with
    | none => rfl
    | some out =>
      rw [frameOverlay_some hframe,Option.isSome_some,if_pos rfl]
      exact (List.append_nil _).symm

/-- The view of a session as a run of the factory alone. -/
theorem view_run (settings : Settings) (events : List (PluginEvent α)) :
    (run pluginStep {settings := settings} events).view=run overlayStep {}
      (.toggle settings.flags::emitted pluginStep overlayEvents {settings := settings} events) :=
  run_simulates view_pluginStep {settings := settings} events

/-- The plugin is its dialog and its factory side by side. In every session the
dialog's own part and what the factory sees are states of runs of these alone, and
the textures of all frames are drawn by the run of the factory. -/
theorem session_refines (settings : Settings) (events : List (PluginEvent α)) :
    let start : NcdfPi α := {settings := settings}
    let p := run pluginStep start events
    let seen := .toggle settings.flags::emitted pluginStep overlayEvents start events
    p.main=run dialogStep {} (emitted pluginStep dialogEvents start events) ∧
      p.view=run overlayStep {} seen ∧
      emitted pluginStep pluginDraws start events=emitted overlayStep drawsOf {} seen := by
  intro start p seen
  exact ⟨run_simulates main_pluginStep start events,view_run settings events,
    emitted_simulates view_pluginStep pluginDraws_eq start events⟩

end Runs

end NcdfPlugin.NcdfSession
