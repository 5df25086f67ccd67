import NcdfPlugin.NcdfSession

/-!
# Frames of a session

A frame shows one of three things: the dropped arrows, the overlays, or nothing.
Arrows are shown while there are any. Overlays are shown while there are none and
data was handed over after the last change of file and the last closing. So nothing
is shown while the dialog is closed, and nothing but arrows from its reopening to the
next selection of a time step. The box of the salinity, while it is visible, shows
the switch that the frames look at.
-/

namespace NcdfPlugin.NcdfFrames

open NcdfLibrary NcdfMessage NcdfTimeStep NcdfReader NcdfDialog NcdfCalls NcdfOverlay NcdfDirection NcdfSession
  GuardedRun

section Program

variable {α : Type} [Field α] [LinearOrder α] [FloorRing α]

/-- What `RenderOverlay` and `RenderGLOverlay` draw. -/
structure Frame (α : Type) [Field α] where
  /-- The value returned to the host. -/
  returned : Bool
  /-- Dropped arrows with the current there. -/
  arrows : List ((α×α)×CurrentData α)
  /-- Outcome of the overlays, when the frame gets to them. -/
  overlay : Option (Factory α×List (Draw α))

/-- Arrows of a window with the current at their places. -/
def arrowsOf (libm : Libm α) (w : Window α) : List ((α×α)×CurrentData α) :=
  w.arrowList.map fun a => (a,getCurrentData libm w.main.gui a.1 a.2)

/-- `RenderOverlayArrow`: arrows of a dialog on the screen. -/
def renderOverlayArrow (libm : Libm α) (p : NcdfPi α) : List ((α×α)×CurrentData α) :=
  match p.dialog with
  | some w => if w.shown=true then arrowsOf libm w else []
  | none => []

/-- `RenderOverlay`. What the function for the arrows returns is not looked at. -/
def renderOverlay (libm : Libm α) (p : NcdfPi α) (fw : FrameWorld) : Frame α :=
  if p.showODAS=true then ⟨true,renderOverlayArrow libm p,none⟩
  else ⟨(frameOverlay p fw).isSome,[],frameOverlay p fw⟩

/-- Nothing is drawn. -/
def Frame.Blank (f : Frame α) : Prop := f.arrows=[] ∧ f.overlay=none

/-- Events after which the factory waits for data. -/
def Resets : OverlayEvent α → Prop
  | .fileChanged => True
  | .closed => True
  | _ => False

/-- Data was handed over, and neither was the file changed nor the dialog
closed since. -/
def HandedSince (seen : List (OverlayEvent α)) : Prop :=
  ∃ before env m after,seen=before++.load env m::after ∧ hasAnyData m=true ∧ ∀ e∈after,¬Resets e

end Program

section Ready

variable {α : Type} [Field α] [LinearOrder α] [FloorRing α]

omit [LinearOrder α] [FloorRing α] in
/-- Before any event nothing was handed over. -/
theorem not_handedSince_nil : ¬HandedSince ([] : List (OverlayEvent α)) := by
  rintro ⟨before,env,m,after,hseen,-⟩
  exact absurd hseen (by simp)

omit [LinearOrder α] [FloorRing α] in
/-- The last event decides, or leaves the decision to those before it. -/
theorem handedSince_append (seen : List (OverlayEvent α)) (e : OverlayEvent α) :
    HandedSince (seen++[e]) ↔
      (∃ env m,e=.load env m ∧ hasAnyData m=true) ∨ (¬Resets e ∧ HandedSince seen) := by
  constructor
  · rintro ⟨before,env,m,after,hseen,hdata,hafter⟩
    rcases List.eq_nil_or_concat after with rfl | ⟨after,last,rfl⟩
    · obtain ⟨-,hlast⟩ := List.append_inj' hseen rfl
      exact Or.inl ⟨env,m,List.singleton_injective hlast,hdata⟩
    · rw [List.concat_eq_append,←List.cons_append,←List.append_assoc] at hseen
      obtain ⟨hinit,hlast⟩ := List.append_inj' hseen rfl
      have hin : ∀ e∈after.concat last,¬Resets e := hafter
      rw [List.concat_eq_append] at hin
      refine Or.inr ⟨?_,before,env,m,after,hinit,hdata,fun e he => hin e (List.mem_append_left _ he)⟩
      rw [List.singleton_injective hlast]
      exact hin last (List.mem_append_right _ List.mem_cons_self)
  · rintro (⟨env,m,rfl,hdata⟩ | ⟨hkeeps,before,env,m,after,rfl,hdata,hafter⟩)
    · exact ⟨seen,env,m,[],rfl,hdata,fun e he => (by cases he)⟩
    · refine ⟨before,env,m,after++[e],by rw [List.append_assoc,List.cons_append],hdata,fun e' he => ?_⟩
      rcases List.mem_append.mp he with hin | hin
      · exact hafter e' hin
      · rw [List.mem_singleton.mp hin]
        exact hkeeps

/-- Whether there is something to render after one event: when it hands data over, or when
there was something and it resets nothing. -/
theorem ready_overlayStep (s : Factory α) (e : OverlayEvent α) :
    (overlayStep s e).ready=true ↔
      (∃ env m,e=.load env m ∧ hasAnyData m=true) ∨ (¬Resets e ∧ s.ready=true) := by
  -- an event of another kind keeps what there is, or resets
  have hkeeps : (∀ env m,e≠.load env m) → ¬Resets e → (overlayStep s e).ready=s.ready →
      ((overlayStep s e).ready=true ↔
        (∃ env m,e=.load env m ∧ hasAnyData m=true) ∨ (¬Resets e ∧ s.ready=true)) := by
    intro hload hreset hready
    rw [hready]
    refine ⟨fun h => Or.inr ⟨hreset,h⟩,?_⟩
    rintro (⟨env,m,heq,-⟩ | ⟨-,h⟩)
    · exact absurd heq (hload env m)
    · exact h
  have hresets : (∀ env m,e≠.load env m) → Resets e → (overlayStep s e).ready=false →
      ((overlayStep s e).ready=true ↔
        (∃ env m,e=.load env m ∧ hasAnyData m=true) ∨ (¬Resets e ∧ s.ready=true)) := by
    intro hload hreset hready
    rw [hready]
    refine iff_of_false Bool.false_ne_true ?_
    rintro (⟨env,m,heq,-⟩ | ⟨hkept,-⟩)
    · exact hload env m heq
    · exact hkept hreset
  cases e with
  | load env m =>
    unfold overlayStep overlayEvent
    dsimp only
    by_cases hdata : hasAnyData m=true
    · rw [if_pos hdata]
      exact iff_of_true rfl (Or.inl ⟨env,m,rfl,hdata⟩)
    · rw [if_neg hdata]
      refine ⟨fun h => Or.inr ⟨id,h⟩,?_⟩
      rintro (⟨env',m',heq,hdata'⟩ | ⟨-,h⟩)
      · cases heq
        exact absurd hdata' hdata
      · exact h
  | fileChanged => exact hresets (fun _ _ => nofun) trivial rfl
  | closed => exact hresets (fun _ _ => nofun) trivial rfl
  | toggle flags => exact hkeeps (fun _ _ => nofun) id rfl
  | frame w => exact hkeeps (fun _ _ => nofun) id (untouched_doRender w s).ready

/-- There is something to render exactly when data was handed over since. -/
theorem ready_run_iff (seen : List (OverlayEvent α)) :
    (run overlayStep {} seen).ready=true ↔ HandedSince seen := by
  induction seen using List.reverseRecOn with
  | nil => exact iff_of_false Bool.false_ne_true not_handedSince_nil
  | append_singleton seen e ih => rw [run_append,run_cons,run_nil,ready_overlayStep,handedSince_append,ih]

end Ready

section Invariant

variable {α : Type} [Field α] [LinearOrder α] [FloorRing α]

/-- What holds in every state of a session. -/
structure SessionInv (p : NcdfPi α) : Prop where
  /-- Overlays are ready only while the dialog is on the screen. -/
  ready_shown : p.factory.ready=true → p.isShown=true
  /-- The mode of the arrows is on while there are arrows. -/
  arrows : p.showODAS=true ↔ ∃ w,p.dialog=some w ∧ w.arrowList≠[]
  /-- The box of the salinity is in step. -/
  inStep : ∀ w,p.dialog=some w → InStep p.settings.flags w

omit [LinearOrder α] [FloorRing α] in
/-- Whether the plugin shows its dialog is what the dialog's window says. -/
theorem isShown_of_dialog {p : NcdfPi α} {w : Window α} (h : p.dialog=some w) : p.isShown=w.shown := by
  rw [NcdfPi.isShown,h]

omit [LinearOrder α] [FloorRing α] in
/-- Everything about the arrows and the switch that a changed window has to say. -/
theorem SessionInv.of_window {p p' : NcdfPi α} {w w' : Window α} (h : SessionInv p)
    (hdialog : p.dialog=some w) (hdialog' : p'.dialog=some w')
    (hready : p'.factory.ready=true → w'.shown=true)
    (harrows : (p'.showODAS=true ↔ p.showODAS=true) ∧ w'.arrowList=w.arrowList)
    (hinStep : InStep p.settings.flags w → InStep p'.settings.flags w') : SessionInv p' where
  ready_shown := fun h' => (isShown_of_dialog hdialog').trans (hready h')
  arrows := by
    rw [harrows.1,h.arrows]
    constructor
    · rintro ⟨w1,hw,hne⟩
      obtain rfl := Option.some.inj (hdialog.symm.trans hw)
      exact ⟨w',hdialog',by rwa [harrows.2]⟩
    · rintro ⟨w1,hw,hne⟩
      obtain rfl := Option.some.inj (hdialog'.symm.trans hw)
      exact ⟨w,hdialog,by rwa [←harrows.2]⟩
  inStep := fun w1 hw => by
    obtain rfl := Option.some.inj (hdialog'.symm.trans hw)
    exact hinStep (h.inStep w hdialog)

omit [LinearOrder α] [FloorRing α] in
/-- A click on a box leaves the other boxes alone; that of the salinity is set
with its switch. -/
theorem inStep_click {flags : ShowFlags} {w : Window α} (b : Box) (value : Bool) (h : InStep flags w) :
    InStep (clickFlags flags value b) (w.setValues [b] value) := by
  intro hvisible
  cases b with
  | salinity => rfl
  | dCurrent => exact h hvisible
  | bmpCurrentForce => exact h hvisible
  | particles => exact h hvisible
  | seaTemp => exact h hvisible
  | seaTempIso => exact h hvisible

/-- Every event of the plugin keeps the invariant, by cases over the events. -/
theorem sessionInv_pluginStep (p : NcdfPi α) (e : PluginEvent α) (h : SessionInv p) :
    SessionInv (pluginStep p e) := by
  cases e with
  | toolbar memory listing =>
    dsimp only [pluginStep]
    cases hdialog : p.dialog with
    | none =>
      refine ⟨fun _ => rfl,iff_of_false ?_ ?_,?_⟩
      · intro hodas
        obtain ⟨w,hw,-⟩ := h.arrows.mp hodas
        rw [hdialog] at hw
        cases hw
      · rintro ⟨w,hw,hne⟩
        obtain rfl := Option.some.inj hw
        exact hne rfl
      · intro w hw hvisible
        obtain rfl := Option.some.inj hw
        cases hvisible
    | some w => exact h.of_window hdialog rfl (fun _ => rfl) ⟨Iff.rfl,rfl⟩ id
  | close =>
    dsimp only [pluginStep]
    by_cases hshown : p.isShown=true
    · obtain ⟨w,hdialog,-,heq⟩ := onShown_of_shown (onncdfDialogClose p) hshown
      rw [heq]
      exact h.of_window hdialog rfl (fun hready => (by cases hready)) ⟨Iff.rfl,rfl⟩ id
    · rw [onShown_of_hidden _ hshown]
      exact h
  | fileButton path listing =>
    dsimp only [pluginStep]
    by_cases hshown : p.isShown=true
    · obtain ⟨w,hdialog,hw,heq⟩ := onShown_of_shown _ hshown
      rw [heq]
      exact h.of_window hdialog rfl (fun _ => hw) ⟨Iff.rfl,rfl⟩ id
    · rw [onShown_of_hidden _ hshown]
      exact h
  | dialog e =>
    dsimp only [pluginStep]
    by_cases hshown : p.isShown=true
    · obtain ⟨w,hdialog,hw,heq⟩ := onShown_of_shown (fun w => onDialog p w e) hshown
      obtain ⟨w',hhandled⟩ := handled_onDialog e hdialog
      rw [heq]
      exact h.of_window hdialog hhandled.dialog (fun _ => hhandled.shown.trans hw)
        ⟨by rw [hhandled.showODAS],hhandled.arrowList⟩ hhandled.salinity
    · rw [onShown_of_hidden _ hshown]
      exact h
  | click b =>
    dsimp only [pluginStep]
    by_cases hshown : p.isShown=true
    · obtain ⟨w,hdialog,hw,heq⟩ := onShown_of_shown (fun w => onClick p w b) hshown
      rw [heq,onClick]
      split
      · exact h.of_window hdialog rfl (fun _ => hw) ⟨Iff.rfl,rfl⟩ (inStep_click b _)
      · exact h
    · rw [onShown_of_hidden _ hshown]
      exact h
  | cursor lat lon =>
    dsimp only [pluginStep]
    cases hdialog : p.dialog with
    | none => exact h
    | some w =>
      exact h.of_window hdialog rfl
        (fun hready => (isShown_of_dialog hdialog).symm.trans (h.ready_shown hready)) ⟨Iff.rfl,rfl⟩ id
  | contextMenu focused ok =>
    dsimp only [pluginStep]
    cases hdialog : p.dialog with
    | none => exact h
    | some w =>
      have hready : p.factory.ready=true → w.shown=true :=
        fun hready => (isShown_of_dialog hdialog).symm.trans (h.ready_shown hready)
      dsimp only [onContextMenu]
      split
      · exact h
      · split
        · exact ⟨hready,iff_of_true rfl ⟨_,rfl,by simp⟩,fun w' hw => by
            obtain rfl := Option.some.inj hw
            exact h.inStep w hdialog⟩
        · refine ⟨hready,iff_of_false Bool.false_ne_true ?_,fun w' hw => ?_⟩
          · rintro ⟨w',hw,hne⟩
            obtain rfl := Option.some.inj hw
            exact hne rfl
          · obtain rfl := Option.some.inj hw
            exact h.inStep w hdialog
  | setDefaults => exact ⟨h.ready_shown,h.arrows,h.inStep⟩
  | frame fw =>
    dsimp only [pluginStep]
    cases hframe : frameOverlay p fw with
    | none => exact h
    | some out =>
      have hready : out.1.ready=p.factory.ready := by
        rw [frameOverlay_some hframe]
        exact (untouched_doRender fw p.view).ready
      exact ⟨fun h' => h.ready_shown (hready.symm.trans h'),h.arrows,h.inStep⟩

omit [LinearOrder α] [FloorRing α] in
/-- What holds at the start of a session. -/
theorem sessionInv_start (settings : Settings) : SessionInv ({settings := settings} : NcdfPi α) := by
  refine ⟨fun h => (by cases h),iff_of_false Bool.false_ne_true ?_,fun w hw => (by cases hw)⟩
  rintro ⟨w,hw,-⟩
  cases hw

/-- The invariant holds in every state of every session. -/
theorem sessionInv_run (settings : Settings) (events : List (PluginEvent α)) :
    SessionInv (run pluginStep {settings := settings} events) :=
  run_invariant_all sessionInv_pluginStep (sessionInv_start settings) events

/-- The overlays are ready exactly when data was handed over since the last change of file
and closing. -/
theorem ready_iff_handedSince (settings : Settings) (events : List (PluginEvent α)) :
    (run pluginStep ({settings := settings} : NcdfPi α) events).factory.ready=true ↔
      HandedSince (.toggle settings.flags::emitted pluginStep overlayEvents {settings := settings} events) := by
  rw [←ready_run_iff,←view_run]
  rfl

/-- While the dialog is not shown no arrow is drawn. -/
theorem renderOverlayArrow_of_hidden (libm : Libm α) {p : NcdfPi α} (h : p.isShown=false) :
    renderOverlayArrow libm p=[] := by
  unfold renderOverlayArrow
  cases hdialog : p.dialog with
  | none => rfl
  | some w =>
    rw [isShown_of_dialog hdialog] at h
    exact if_neg (ne_true_of_eq_false h)

/-- While the overlays are not ready a frame does not get to them. -/
theorem frameOverlay_of_waiting {p : NcdfPi α} (fw : FrameWorld) (h : ¬p.factory.ready=true) :
    frameOverlay p fw=none := by
  unfold frameOverlay
  rw [if_neg h]
  split
  · rfl
  · split <;> rfl

omit [LinearOrder α] [FloorRing α] in
/-- A visible box of the salinity decides, with the data alone, whether a frame
gets to the salinity. -/
theorem SessionInv.asked_salinity {p : NcdfPi α} (h : SessionInv p) {w : Window α} (hdialog : p.dialog=some w)
    (hvisible : (w.boxes .salinity).visible=true) (fw : FrameWorld) :
    asked fw p.view .salinity=
      ((w.boxes .salinity).value && w.main.gui.gridSalinity.isSome && w.main.gui.hasSalinity) := by
  rw [h.inStep w hdialog hvisible,asked,NcdfPi.view,main_of_dialog hdialog]
  rfl

/-- What a frame shows, in every session. Nothing without a dialog on the screen;
the arrows while there are any; otherwise the overlays exactly when data was handed
over since the last change of file and the last closing. Salinity is among them
exactly when there is data and its box, if visible, is checked. -/
theorem frame_of_session (libm : Libm α) (settings : Settings) (events : List (PluginEvent α))
    (fw : FrameWorld) :
    let start : NcdfPi α := {settings := settings}
    let p := run pluginStep start events
    let seen := .toggle settings.flags::emitted pluginStep overlayEvents start events
    (p.isShown=false → (renderOverlay libm p fw).Blank) ∧
    ∀ w,p.dialog=some w → w.shown=true →
      (w.arrowList≠[] → renderOverlay libm p fw=⟨true,arrowsOf libm w,none⟩) ∧
      (w.arrowList=[] → HandedSince seen →
        renderOverlay libm p fw=⟨true,[],some (doRender fw p.view)⟩) ∧
      (w.arrowList=[] → ¬HandedSince seen → renderOverlay libm p fw=⟨false,[],none⟩) ∧
      ((w.boxes .salinity).visible=true → asked fw p.view .salinity=
        ((w.boxes .salinity).value && w.main.gui.gridSalinity.isSome && w.main.gui.hasSalinity)) := by
  intro start p seen
  have hinv : SessionInv p := sessionInv_run settings events
  have hready : p.factory.ready=true ↔ HandedSince seen := ready_iff_handedSince settings events
  refine ⟨fun hhidden => ?_,fun w hdialog hshown => ⟨fun harrows => ?_,fun hnone hhanded => ?_,
    fun hnone hwaits => ?_,fun hvisible => hinv.asked_salinity hdialog hvisible fw⟩⟩
  · have hwaits : ¬p.factory.ready=true := fun h => by
      rw [hinv.ready_shown h] at hhidden
      cases hhidden
    unfold renderOverlay
    split
    · exact ⟨renderOverlayArrow_of_hidden libm hhidden,rfl⟩
    · exact ⟨rfl,frameOverlay_of_waiting fw hwaits⟩
  · have hodas : p.showODAS=true := hinv.arrows.mpr ⟨w,hdialog,harrows⟩
    rw [renderOverlay,if_pos hodas,renderOverlayArrow,hdialog]
    dsimp only
    rw [if_pos hshown]
  all_goals
    have hodas : ¬p.showODAS=true := fun h => by
      obtain ⟨w',hw,hne⟩ := hinv.arrows.mp h
      obtain rfl := Option.some.inj (hdialog.symm.trans hw)
      exact hne hnone
    rw [renderOverlay,if_neg hodas,frameOverlay,if_neg hodas,hdialog]
    dsimp only
  · rw [if_pos (hready.mpr hhanded)]
    rfl
  · rw [if_neg (fun h => hwaits (hready.mp h))]
    rfl

end Invariant

end NcdfPlugin.NcdfFrames
