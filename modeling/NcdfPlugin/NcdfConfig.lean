import NcdfPlugin.NcdfFrames

/-!
# Settings across sessions

Settings are read from the configuration when the plugin is started and written to
it whenever the dialog is closed, also at the end of a session. What is read later
is what was written last, except for two positions: that from the left is read under
another name than it is written, and that from the top is brought onto the screen.
The choice that the dialog notes when it is destroyed comes too late to be written.
-/

namespace NcdfPlugin.NcdfConfig

open NcdfLibrary NcdfDialog NcdfOverlay NcdfSession NcdfFrames GuardedRun

section Files

/-- The configuration: numbers under `/Settings` by their names, and the entry
`ncdfDirectory` under `/Directories`. -/
structure Config where
  /-- Entries under `/Settings`. -/
  settings : String → Option ℤ
  /-- The directory. -/
  ncdfDirectory : Option String

/-- `Read` of a number. -/
def Config.readLong (c : Config) (key : String) (default : ℤ) : ℤ := (c.settings key).getD default

/-- `Read` of a truth value. -/
def Config.readBool (c : Config) (key : String) (default : Bool) : Bool :=
  match c.settings key with
  | some v => decide (v≠0)
  | none => default

end Files

section Host

variable {α : Type} [Field α] [LinearOrder α]

variable [FloorRing α]

/-- Settings that no event ever changes. -/
structure Fixed (first : Config) (s : Settings) : Prop where
  /-- Definition. -/
  useHiDef : s.useHiDef=first.readBool "ncdfUseHiDef" false
  /-- Density of the particles. -/
  particleDensity : s.particleDensity=first.readLong "ParticleDensity" 5
  /-- Width of the dialog. -/
  dialogSx : s.dialogSx=first.readLong "ncdfDialogSizeX" 270
  /-- Height of the dialog. -/
  dialogSy : s.dialogSy=first.readLong "ncdfDialogSizeY" 460
  /-- The area, although it is noted at the end. -/
  choice : s.choice=first.readLong "AreaChoice" 0

/-- What is fixed over all sessions does not depend on icon, switches and directory. -/
theorem Fixed.congr {first : Config} {s s' : Settings} (h : Fixed first s) {icon : Bool} {flags : ShowFlags}
    {dir : String} (heq : s'={s with showIcon := icon,flags := flags,ncdfDir := dir}) : Fixed first s' := by
  subst heq
  exact ⟨h.useHiDef,h.particleDensity,h.dialogSx,h.dialogSy,h.choice⟩

end Host

end NcdfPlugin.NcdfConfig
