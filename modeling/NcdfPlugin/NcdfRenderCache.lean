import NcdfPlugin.NcdfColorTable

/-!
# Coherence of the render caches

A load marks the textures and the isolines for rebuilding and discards the
particles; the caches themselves change when their overlay is next drawn.
What is drawn from a cache is what the most recent load gives, however long
an overlay was hidden and whatever allocation failed in between. A history of
the loads is kept beside the renderer, to say what the most recent one gives.
-/

namespace NcdfPlugin.NcdfRenderCache

open GuardedRun ExactArithmetic NcdfLibrary NcdfMessage NcdfReader NcdfInterpolation NcdfIsoLine
open NcdfOverlay NcdfColorTable

section Particles

variable {π : Type}

/-- `Particle`. The history of positions, colours and the velocity are one
trail. -/
structure Particle (π : Type) where
  /-- `m_Duration`. -/
  duration : ℕ
  /-- `m_Run`. -/
  run : ℕ
  /-- Positions on the map and on the screen. -/
  trail : π
  /-- Number of loads when the particle was spawned. -/
  born : ℕ

/-- What an update of the particles takes from the view, the random numbers
and the grids of the current. -/
structure ParticleWorld (π : Type) where
  /-- `m_iParticleDensity`. -/
  sliderVal : ℤ := 5
  /-- Screen positions after a change of the view. -/
  reproject : π → π := id
  /-- Next position, or a new one in the view. -/
  move : π → π := id
  /-- Duration and trail of an attempt to spawn, if it finds a position. -/
  spawn : ℕ → Option (ℕ×π) := fun _ => none

/-- Updates that a particle waits for. -/
def runCount : ℕ := 6

/-- Greatest age of a particle. -/
def maxDuration : ℕ := 50

/-- Update of all particles. One that is too old is replaced by the last one,
which is then updated in its place. -/
def updateParticles (move : π → π) : List (Particle π) → List (Particle π)
  | [] => []
  | it::rest =>
    if it.run+1 < runCount then {it with run := it.run+1}::updateParticles move rest
    else if maxDuration < it.duration then
      if h : rest=[] then [] else updateParticles move (rest.getLast h::rest.dropLast)
    else
      {it with run := 0,duration := it.duration+1,trail := move it.trail}::updateParticles move rest
termination_by particles => particles.length
decreasing_by
  · simp
  · have hlen := List.length_pos_of_ne_nil h
    simp only [List.length_cons,List.length_dropLast]
    omega
  · simp

/-- Number of particles wanted on a grid: a fifth of the slider value for each
node, at most one for each and a hundred thousand in all. -/
def totalParticles (sliderVal : ℤ) (ni nj : ℕ) : ℤ :=
  min (min ((sliderVal*ni*nj).tdiv 5) (ni*nj)) 100000

/-- One attempt to spawn, with the counter of waiting updates. -/
def spawnOne (w : ParticleWorld π) (born : ℕ) (state : List (Particle π)×ℕ) (npi : ℕ) :
    List (Particle π)×ℕ :=
  match w.spawn npi with
  | none => state
  | some (duration,trail) =>
    (state.1++[⟨duration,state.2,trail,born⟩],if state.2+1=runCount then 0 else state.2+1)

/-- Removal of a part of the surplus, and spawning of a part of what misses. -/
def adjustParticles (w : ParticleWorld π) (born ni nj : ℕ) (particles : List (Particle π)) :
    List (Particle π) :=
  let total := totalParticles w.sliderVal ni nj
  let remove := ((particles.length-total).tdiv 16).toNat
  let kept := particles.take (particles.length-remove)
  let newCount := ((total-kept.length).tdiv 64).toNat
  ((List.range newCount).foldl (spawnOne w born) (kept,0)).1

/-- A particle that still waits keeps its trail and its age, and is counted one update
nearer to the next one. -/
theorem updateParticles_waits {move : π → π} {it : Particle π}
    (hrun : it.run+1 < runCount) (rest : List (Particle π)) :
    updateParticles move (it::rest)=
      {it with run := it.run+1}::updateParticles move rest := by
  rw [updateParticles,if_pos hrun]

/-- One that is too old is removed; at the end of the vector nothing follows. -/
theorem updateParticles_expires_last {move : π → π} {it : Particle π}
    (hrun : ¬it.run+1 < runCount) (hold : maxDuration < it.duration) : updateParticles move [it]=[] := by
  rw [updateParticles,if_neg hrun,if_pos hold,dif_pos rfl]

/-- Elsewhere the last particle of the vector is updated in its place. -/
theorem updateParticles_expires {move : π → π} {it : Particle π} {rest : List (Particle π)}
    (hrun : ¬it.run+1 < runCount) (hold : maxDuration < it.duration) (hne : rest≠[]) :
    updateParticles move (it::rest)=updateParticles move (rest.getLast hne::rest.dropLast) := by
  rw [updateParticles,if_neg hrun,if_pos hold,dif_neg hne]

/-- Any other particle is moved, is counted one update older and starts to wait again. -/
theorem updateParticles_moves {move : π → π} {it : Particle π} (hrun : ¬it.run+1 < runCount)
    (hold : ¬maxDuration < it.duration) (rest : List (Particle π)) :
    updateParticles move (it::rest)=
      {it with run := 0,duration := it.duration+1,trail := move it.trail}::
        updateParticles move rest := by
  rw [updateParticles,if_neg hrun,if_neg hold]

/-- Every particle left by an update was there before it, at another place. -/
theorem born_updateParticles {born : ℕ} (move : π → π) {particles : List (Particle π)}
    (h : ∀ p∈particles,p.born=born) : ∀ p∈updateParticles move particles,p.born=born := by
  induction particles using updateParticles.induct with
  | case1 => simp [updateParticles]
  | case2 it rest hrun ih =>
    obtain ⟨hit,hrest⟩ := List.forall_mem_cons.mp h
    rw [updateParticles_waits hrun]
    exact List.forall_mem_cons.mpr ⟨hit,ih hrest⟩
  | case3 it hrun hold =>
    rw [updateParticles_expires_last hrun hold]
    exact fun _ hp => by cases hp
  | case4 it rest hrun hold hne ih =>
    obtain ⟨-,hrest⟩ := List.forall_mem_cons.mp h
    rw [updateParticles_expires hrun hold hne]
    refine ih (List.forall_mem_cons.mpr ⟨hrest _ (List.getLast_mem hne),fun p hp => ?_⟩)
    exact hrest p (List.dropLast_subset rest hp)
  | case5 it rest hrun hold ih =>
    obtain ⟨hit,hrest⟩ := List.forall_mem_cons.mp h
    rw [updateParticles_moves hrun hold]
    exact List.forall_mem_cons.mpr ⟨hit,ih hrest⟩

/-- A spawned particle carries the number of loads at its time, and those that were there
keep theirs. -/
theorem born_spawnOne {w : ParticleWorld π} {born : ℕ} {state : List (Particle π)×ℕ}
    (h : ∀ p∈state.1,p.born=born) (npi : ℕ) : ∀ p∈(spawnOne w born state npi).1,p.born=born := by
  unfold spawnOne
  split
  · exact h
  · intro p hp
    rcases List.mem_append.mp hp with hold | hnew
    · exact h p hold
    · obtain rfl := List.mem_singleton.mp hnew
      rfl

/-- All attempts of a frame spawn particles after the same number of loads, by induction
over the attempts. -/
theorem born_spawn {w : ParticleWorld π} {born : ℕ} (attempts : List ℕ)
    {state : List (Particle π)×ℕ} (h : ∀ p∈state.1,p.born=born) :
    ∀ p∈(attempts.foldl (spawnOne w born) state).1,p.born=born := by
  induction attempts generalizing state with
  | nil => exact h
  | cons npi attempts ih => exact ih (born_spawnOne h npi)

/-- Removal of a surplus and spawning keep the loads that the particles were spawned after.
-/
theorem born_adjustParticles {w : ParticleWorld π} {born : ℕ} (ni nj : ℕ)
    {particles : List (Particle π)} (h : ∀ p∈particles,p.born=born) :
    ∀ p∈adjustParticles w born ni nj particles,p.born=born :=
  born_spawn _ fun p hp => h p (List.mem_of_mem_take hp)

end Particles

section Renderer

variable {α π : Type} [Field α]

/-- `ncdfOverlayFactory` with its particles, and the factory as each load left
it, the most recent first. -/
structure Renderer (α π : Type) [Field α] where
  /-- Textures, isolines and the grids they are drawn from. -/
  factory : Factory α := {}
  /-- `m_ParticleMap`. -/
  particleMap : Option (List (Particle π)) := none
  /-- `m_bUpdateParticles`. -/
  updateParticles : Bool := true
  /-- `m_particleBurstCount`. -/
  particleBurstCount : ℕ := 0
  /-- The loads so far. -/
  loads : List (Factory α) := []

/-- What a frame draws from the caches. -/
structure FrameDraws (α π : Type) where
  /-- Textured overlays. -/
  textures : List (Draw α) := []
  /-- Isolines. -/
  isoSegments : List (IsoSeg α) := []
  /-- Particles. -/
  particles : List (Particle π) := []

variable [LinearOrder α]

/-- `RenderParticles`, with the particles it draws. -/
def renderParticles (w : FrameWorld) (pw : ParticleWorld π) (r : Renderer α π) :
    Renderer α π×List (Particle π) :=
  let gui := r.factory.gui
  let ni := gui.myMessage.lonLength
  let nj := gui.myMessage.latLength
  if r.factory.attached=false ∨ gui.gridu.isNone=true ∨ gui.gridv.isNone=true ∨ ni≤1 ∨ nj≤1 ∨
      gui.myMessage.lastGridPointLat ≤ gui.myMessage.firstGridPointLat ∨
      gui.myMessage.lastGridPointLong ≤ gui.myMessage.firstGridPointLong then (r,[])
  else
    let shown := (r.particleMap.getD []).map fun p => {p with trail := pw.reproject p.trail}
    let shouldUpdate := r.updateParticles || decide (0 < r.particleBurstCount)
    let particles :=
      if shouldUpdate=true then
        adjustParticles pw r.loads.length ni nj (NcdfRenderCache.updateParticles pw.move shown)
      else shown
    ({r with
      particleMap := some particles
      updateParticles := false
      particleBurstCount := r.particleBurstCount-1},if w.toDC=true then [] else particles)

/-- Whether a frame shows the isolines. -/
def isoAsked (s : Factory α) : Bool :=
  s.flags.showSeaTempIso && s.gui.gridSST.isSome && s.gui.hasSeaTemp

/-- Isolines drawn at the end of `RenderSeaTempIsoLines`. -/
def isoLinesDrawn (w : FrameWorld) (s : Factory α) : List (IsoSeg α) :=
  if (isoAsked s && !w.toDC)=true then s.isoSegments else []

variable [FloorRing α]

/-- `DoRenderncdfOverlay` with particles, isolines and textures. -/
def renderFrame (w : FrameWorld) (pw : ParticleWorld π) (r : Renderer α π) :
    Renderer α π×FrameDraws α π :=
  if renders r.factory=false then (r,{})
  else
    let rendered := doRender w r.factory
    let particles :=
      if r.factory.flags.showParticles=true then renderParticles w pw r
      else ({r with particleMap := none},[])
    ({particles.1 with factory := rendered.1},⟨rendered.2,isoLinesDrawn w rendered.1,particles.2⟩)

/-- What happens to the renderer. -/
inductive RenderEvent (α π : Type) [Field α] where
  /-- `readncdfFile` with a message. -/
  | load (env : Env α) (m : DataMessage α)
  /-- The dialog frees its grids and resets the factory. -/
  | fileChanged
  /-- `reset` on its own. -/
  | reset
  /-- The visibility settings change. -/
  | toggle (flags : ShowFlags)
  /-- The timer of the particles fires. -/
  | timer
  /-- A frame is rendered. -/
  | frame (w : FrameWorld) (pw : ParticleWorld π)

/-- `readncdfFile` up to the end of `setData`. -/
def loadData (env : Env α) (r : Renderer α π) (m : DataMessage α) : Renderer α π :=
  if hasAnyData m=true then
    let factory := overlayStep r.factory (.load env m)
    { factory := factory
      particleMap := none
      updateParticles := true
      particleBurstCount := 30
      loads := factory::r.loads }
  else r

/-- Effect of an event, with the draws of a frame. -/
def renderEvent (r : Renderer α π) : RenderEvent α π → Renderer α π×FrameDraws α π
  | .load env m => (loadData env r m,{})
  | .fileChanged => ({r with factory := overlayStep r.factory .fileChanged},{})
  | .reset => ({r with factory := overlayStep r.factory .closed},{})
  | .toggle flags => ({r with factory := overlayStep r.factory (.toggle flags)},{})
  | .timer => ({r with updateParticles := true},{})
  | .frame w pw => renderFrame w pw r

/-- Renderer after an event. -/
def renderStep (r : Renderer α π) (e : RenderEvent α π) : Renderer α π := (renderEvent r e).1

end Renderer

section Coherence

variable {α : Type} [Field α] [LinearOrder α]

/-- Texture built from a grid with the sizes and bounds of a factory. -/
def textureFor (l : Factory α) (grid : Grid α) : TextureData α :=
  let ni := l.gui.myMessage.lonLength
  let nj := l.gui.myMessage.latLength
  ⟨grid,ni,nj,decide (0 ≤ l.gui.myMessage.jDirectionIncr),repeatsAround l ni,dataRange grid nj ni⟩

/-- Texture of an overlay as a load gives it. -/
def textureOf (l : Factory α) (X : ColorFunc) : Option (TextureData α) :=
  (gridOf l.gui X).map (textureFor l)

/-- The grids, sizes and bounds of a load are in place. -/
structure SameData (l s : Factory α) : Prop where
  /-- Fields of the dialog. -/
  gui : s.gui=l.gui
  /-- Latitude bounds. -/
  lats : s.tlat=l.tlat ∧ s.blat=l.blat
  /-- Longitude bounds. -/
  lons : s.tlon=l.tlon ∧ s.blon=l.blon

omit [LinearOrder α] in
theorem SameData.refl (l : Factory α) : SameData l l := ⟨rfl,⟨rfl,rfl⟩,rfl,rfl⟩

omit [LinearOrder α] in
/-- What a frame decides by may change its caches, but the grids of the load stay in place.
-/
theorem SameData.view {l s s' : Factory α} (h : SameData l s) (hview : SameView s s') :
    SameData l s' :=
  ⟨hview.gui.trans h.gui,⟨hview.lats.1.trans h.lats.1,hview.lats.2.trans h.lats.2⟩,
    hview.lons.1.trans h.lons.1,hview.lons.2.trans h.lons.2⟩

/-- With the grids of a load in place a texture that is built is that of the load. -/
theorem SameData.textureFor_eq {l s : Factory α} (h : SameData l s) (grid : Grid α) :
    textureFor s grid=textureFor l grid := by
  simp only [textureFor,repeatsAround,h.gui,h.lons.1,h.lons.2]

/-- Valid textures are those of a load. -/
def TexturesFrom (l s : Factory α) : Prop :=
  ∀ X,Cached s X → ∃ texture,(s.slots X).texture=some texture ∧ textureOf l X=some texture

/-- Outcome of rendering an overlay: everything but its slot is as before,
valid textures stay those of the load, and so is what was drawn. -/
structure OverlayRendered (l s : Factory α) (r : Factory α×List (Draw α)) : Prop where
  /-- What the frame decides by is as before. -/
  view : SameView s r.1
  /-- The isolines are as before. -/
  iso : r.1.needsIsoRebuild=s.needsIsoRebuild ∧ r.1.isoSegments=s.isoSegments
  /-- Valid textures. -/
  textures : TexturesFrom l r.1
  /-- Drawn textures. -/
  draws : ∀ d∈r.2,textureOf l d.colorFunc=some d.texture

/-- An overlay that is not rendered leaves everything as it is and draws nothing. -/
theorem overlayRendered_skipped {l s : Factory α} (h : TexturesFrom l s) :
    OverlayRendered l s (s,[]) := ⟨SameView.refl s,⟨rfl,rfl⟩,h,fun _ hd => by cases hd⟩

/-- Dropping the texture of one overlay leaves the others and everything else, and clears
its own flag. -/
theorem texturesFrom_lazyRebuild {l s : Factory α} (h : TexturesFrom l s) (X : ColorFunc) :
    TexturesFrom l (lazyRebuild s X) ∧ SameView s (lazyRebuild s X) ∧
      ((lazyRebuild s X).needsIsoRebuild=s.needsIsoRebuild ∧
        (lazyRebuild s X).isoSegments=s.isoSegments) ∧
      ((lazyRebuild s X).slots X).needsRebuild=false := by
  unfold lazyRebuild
  split
  next =>
    refine ⟨fun Y hY => ?_,⟨rfl,rfl,rfl,⟨rfl,rfl⟩,rfl,rfl⟩,⟨rfl,rfl⟩,by simp [Factory.setSlot]⟩
    by_cases hYX : Y=X
    · subst hYX
      simp [Cached,Factory.setSlot] at hY
    · simp only [Cached,Factory.setSlot,if_neg hYX] at hY ⊢
      exact h Y hY
  next hflag => exact ⟨h,SameView.refl s,⟨rfl,rfl⟩,Bool.eq_false_of_not_eq_true hflag⟩

/-- A created texture is that of the load; a failed creation leaves none. -/
theorem texturesFrom_createTexture {l s : Factory α} (h : TexturesFrom l s) (hdata : SameData l s)
    (w : FrameWorld) {X : ColorFunc} {grid : Grid α} (hgrid : gridOf s.gui X=some grid) :
    let r := createTexture w s grid s.gui.myMessage.latLength s.gui.myMessage.lonLength X
    TexturesFrom l r.1 ∧ SameView s r.1 ∧
      (r.1.needsIsoRebuild=s.needsIsoRebuild ∧ r.1.isoSegments=s.isoSegments) ∧
      (r.2=true → Cached r.1 X) := by
  dsimp only
  unfold createTexture
  dsimp only
  split
  next => exact ⟨h,⟨rfl,rfl,rfl,⟨rfl,rfl⟩,rfl,rfl⟩,⟨rfl,rfl⟩,fun hr => by cases hr⟩
  next =>
    refine ⟨fun Y hY => ?_,⟨rfl,rfl,rfl,⟨rfl,rfl⟩,rfl,rfl⟩,⟨rfl,rfl⟩,fun _ => ?_⟩
    · by_cases hYX : Y=X
      · subst hYX
        refine ⟨textureFor s grid,by simp [Factory.setSlot,textureFor],?_⟩
        rw [textureOf,←hdata.gui,hgrid,Option.map_some,hdata.textureFor_eq]
      · simp only [Cached,Factory.setSlot,if_neg hYX] at hY ⊢
        exact h Y hY
    · simp [Cached,Factory.setSlot]

/-- A valid texture is drawn as it is, so the draw shows what the load gives. -/
theorem drawTexture_from {l s : Factory α} (h : TexturesFrom l s) {X : ColorFunc} (hX : Cached s X)
    (w : FrameWorld) (grid : Grid α) (nj ni : ℕ) :
    ∀ d∈drawTexture w s grid nj ni X,textureOf l d.colorFunc=some d.texture := by
  obtain ⟨texture,htexture,hfrom⟩ := h X hX
  intro d hd
  unfold drawTexture at hd
  rw [htexture] at hd
  dsimp only at hd
  split at hd
  · cases hd
  · obtain rfl := List.mem_singleton.mp hd
    exact hfrom

/-- Rendering one overlay, whichever allocation fails, draws from a texture of the load or
draws nothing. -/
theorem overlayRendered_renderGridOverlay {l s : Factory α} (h : TexturesFrom l s)
    (hdata : SameData l s) (w : FrameWorld) (X : ColorFunc) :
    OverlayRendered l s (renderGridOverlay w s X) := by
  obtain ⟨hfresh,hview,hiso,hflag⟩ := texturesFrom_lazyRebuild h X
  unfold renderGridOverlay
  dsimp only
  split
  · exact overlayRendered_skipped h
  next grid hgrid =>
    split
    · exact overlayRendered_skipped h
    · have hgrid' : gridOf (lazyRebuild s X).gui X=some grid := by rw [hview.gui,hgrid]
      have hcreated := texturesFrom_createTexture hfresh (hdata.view hview) w hgrid'
      rw [hview.gui] at hcreated
      dsimp only at hcreated
      obtain ⟨hcreated,hview',hiso',hvalid⟩ := hcreated
      split
      next htex => exact ⟨hview,hiso,hfresh,drawTexture_from hfresh ⟨htex,hflag⟩ w grid _ _⟩
      next =>
        have hiso'' := And.intro (hiso'.1.trans hiso.1) (hiso'.2.trans hiso.2)
        split
        next hok =>
          exact ⟨hview.trans hview',hiso'',hcreated,drawTexture_from hcreated (hvalid hok) w grid _ _⟩
        next => exact ⟨hview.trans hview',hiso'',hcreated,fun _ hd => by cases hd⟩

/-- An overlay that is asked for is drawn from its cached texture, or from one built of the
present grid. -/
theorem overlayRendered_renderAsked {l s : Factory α} (h : TexturesFrom l s) (hdata : SameData l s)
    (w : FrameWorld) (X : ColorFunc) : OverlayRendered l s (renderAsked w s X) := by
  unfold renderAsked
  split
  · exact overlayRendered_renderGridOverlay h hdata w X
  · exact overlayRendered_skipped h

variable [FloorRing α]

/-- Isolines as a load gives them. -/
def isoSegmentsOf (l : Factory α) : Option (List (IsoSeg α)) :=
  let ni := l.gui.myMessage.lonLength
  let nj := l.gui.myMessage.latLength
  l.gui.gridSST.map fun grid => (isoLevels grid nj ni).flatMap fun temp =>
    (isoLine (isoPlacement l nj ni) grid ni nj temp).map isoSeg

/-- Valid isolines are those of a load. -/
def IsoLinesFrom (l s : Factory α) : Prop :=
  s.needsIsoRebuild=false → isoSegmentsOf l=some s.isoSegments

/-- With the grids of a load in place the isolines that are extracted are those of the load.
-/
theorem SameData.isoSegmentsOf_eq {l s : Factory α} (h : SameData l s) :
    isoSegmentsOf s=isoSegmentsOf l := by
  simp only [isoSegmentsOf,isoPlacement,h.gui,h.lats.1,h.lats.2,h.lons.1,h.lons.2]

/-- The isolines are rebuilt from the present grid, or they are there. -/
theorem isoLinesFrom_renderSeaTempIsoLines {l s : Factory α} (h : IsoLinesFrom l s)
    (hdata : SameData l s) :
    IsoLinesFrom l (renderSeaTempIsoLines s) ∧ SameView s (renderSeaTempIsoLines s) ∧
      (renderSeaTempIsoLines s).slots=s.slots := by
  unfold renderSeaTempIsoLines
  dsimp only
  split
  · exact ⟨h,SameView.refl s,rfl⟩
  next grid hgrid =>
    split
    · exact ⟨h,SameView.refl s,rfl⟩
    · refine ⟨fun _ => ?_,⟨rfl,rfl,rfl,⟨rfl,rfl⟩,rfl,rfl⟩,rfl⟩
      rw [←hdata.isoSegmentsOf_eq,isoSegmentsOf,hgrid]
      rfl

/-- After the isolines of a grid were asked for they are valid. -/
theorem needsIsoRebuild_renderSeaTempIsoLines {s : Factory α} (hattached : s.attached=true)
    (hsizes : 2 ≤ s.gui.myMessage.lonLength ∧ 2 ≤ s.gui.myMessage.latLength)
    (hgrid : s.gui.gridSST.isSome=true) : (renderSeaTempIsoLines s).needsIsoRebuild=false := by
  obtain ⟨grid,hgrid⟩ := Option.isSome_iff_exists.mp hgrid
  unfold renderSeaTempIsoLines
  dsimp only
  rw [hgrid]
  dsimp only
  split
  next hskip =>
    rcases hskip with hdetached | hcolumns | hrows | hvalid
    · rw [hattached] at hdetached
      cases hdetached
    · omega
    · omega
    · exact hvalid
  next => rfl

omit [LinearOrder α] [FloorRing α] in
/-- What the guards of a frame ensure. -/
theorem renders_true {s : Factory α} (h : renders s=true) :
    s.attached=true ∧ s.gui.loaded ∧
      2 ≤ s.gui.myMessage.lonLength ∧ 2 ≤ s.gui.myMessage.latLength := by
  simp only [renders,Bool.and_eq_true,Bool.or_eq_true,decide_eq_true_eq] at h
  obtain ⟨⟨⟨⟨hattached,hgrids⟩,hsizes⟩,-⟩,-⟩ := h
  refine ⟨hattached,?_,hsizes⟩
  rcases hgrids with (hcurrent | hsst) | hsal
  · exact Or.inl hcurrent.1
  · exact Or.inr (Or.inr (Or.inr (Or.inl hsst.1)))
  · exact Or.inr (Or.inr (Or.inr (Or.inr hsal.1)))

/-- Valid caches are those of a load. -/
structure CachesFrom (l s : Factory α) : Prop where
  /-- Textures. -/
  textures : TexturesFrom l s
  /-- Isolines. -/
  iso : IsoLinesFrom l s

/-- Outcome of a frame that gets past the guards. -/
structure FrameRendered (l s : Factory α) (w : FrameWorld) (r : Factory α×List (Draw α)) : Prop where
  /-- What the frame decides by is as before. -/
  view : SameView s r.1
  /-- Valid caches. -/
  caches : CachesFrom l r.1
  /-- Drawn textures. -/
  draws : ∀ d∈r.2,textureOf l d.colorFunc=some d.texture
  /-- Drawn isolines. -/
  isoDrawn : isoLinesDrawn w r.1≠[] → isoSegmentsOf l=some (isoLinesDrawn w r.1)

/-- Isolines that a frame shows are those of the present grid afterwards, extracted anew
where the flag asks for it. -/
theorem isoLines_stage {l s : Factory α} (h : CachesFrom l s) (hdata : SameData l s)
    (hattached : s.attached=true)
    (hsizes : 2 ≤ s.gui.myMessage.lonLength ∧ 2 ≤ s.gui.myMessage.latLength) :
    let s' := if isoAsked s=true then renderSeaTempIsoLines s else s
    CachesFrom l s' ∧ SameView s s' ∧ (isoAsked s=true → s'.needsIsoRebuild=false) := by
  dsimp only
  split
  next hasked =>
    obtain ⟨hiso,hview,hslots⟩ := isoLinesFrom_renderSeaTempIsoLines h.iso hdata
    have hgrid : s.gui.gridSST.isSome=true := by
      simp only [isoAsked,Bool.and_eq_true] at hasked
      exact hasked.1.2
    refine ⟨⟨fun X hX => ?_,hiso⟩,hview,
      fun _ => needsIsoRebuild_renderSeaTempIsoLines hattached hsizes hgrid⟩
    simp only [Cached,hslots] at hX ⊢
    exact h.textures X hX
  next hasked => exact ⟨h,SameView.refl s,fun htrue => absurd htrue hasked⟩

/-- Rendering an overlay keeps valid caches those of the load. -/
theorem OverlayRendered.caches {l s : Factory α} {r : Factory α×List (Draw α)}
    (h : OverlayRendered l s r) (hiso : IsoLinesFrom l s) : CachesFrom l r.1 := by
  refine ⟨h.textures,?_⟩
  unfold IsoLinesFrom
  rw [h.iso.1,h.iso.2]
  exact hiso

omit [LinearOrder α] [FloorRing α] in
/-- When isolines are drawn they were asked for, and are the cached ones. -/
theorem isoLinesDrawn_of_ne {w : FrameWorld} {s : Factory α} (h : isoLinesDrawn w s≠[]) :
    isoAsked s=true ∧ isoLinesDrawn w s=s.isoSegments := by
  unfold isoLinesDrawn at h ⊢
  split at h
  next hshown =>
    rw [Bool.and_eq_true] at hshown
    exact ⟨hshown.1,by simp [hshown.1,hshown.2]⟩
  next => exact absurd rfl h

omit [LinearOrder α] [FloorRing α] in
/-- Whether isolines are asked for does not change within a frame. -/
theorem isoAsked_of_view {s s' : Factory α} (h : SameView s s') : isoAsked s'=isoAsked s := by
  simp only [isoAsked,h.flags,h.gui]

/-- The factory of a frame before its isolines. -/
def afterSeaTemp (w : FrameWorld) (s : Factory α) : Factory α :=
  (renderAsked w (renderAsked w s .seaCurrent).1 .seaTemp).1

/-- The factory of a frame after its isolines. -/
def afterIsoLines (w : FrameWorld) (s : Factory α) : Factory α :=
  if isoAsked s=true then renderSeaTempIsoLines (afterSeaTemp w s) else afterSeaTemp w s

/-- A frame that gets to the overlays renders them one after another: current, sea
temperature, isolines and salinity. -/
theorem doRender_eq {s : Factory α} (w : FrameWorld) (h : renders s=true) :
    doRender w s=((renderAsked w (afterIsoLines w s) .salinity).1,
      (renderAsked w s .seaCurrent).2++(renderAsked w (renderAsked w s .seaCurrent).1 .seaTemp).2++
        (renderAsked w (afterIsoLines w s) .salinity).2) := by
  rw [doRender,if_neg (by simp [h])]
  rfl

/-- A frame draws what the load gives, and leaves the caches so. -/
theorem frameRendered_doRender {l s : Factory α} (h : CachesFrom l s) (hdata : SameData l s)
    (w : FrameWorld) (hrenders : renders s=true) : FrameRendered l s w (doRender w s) := by
  obtain ⟨hattached,-,hsizes⟩ := renders_true hrenders
  have hcurrent := overlayRendered_renderAsked h.textures hdata w .seaCurrent
  have hdata1 := hdata.view hcurrent.view
  have hseaTemp := overlayRendered_renderAsked hcurrent.textures hdata1 w .seaTemp
  have hdata2 : SameData l (afterSeaTemp w s) := hdata1.view hseaTemp.view
  have hview2 : SameView s (afterSeaTemp w s) := hcurrent.view.trans hseaTemp.view
  have hcaches2 : CachesFrom l (afterSeaTemp w s) := hseaTemp.caches (hcurrent.caches h.iso).iso
  have hstage := isoLines_stage hcaches2 hdata2 (hview2.attached.trans hattached)
    (by rw [hview2.gui]; exact hsizes)
  rw [isoAsked_of_view hview2] at hstage
  obtain ⟨hcaches3,hview3,hvalid⟩ := hstage
  have hsalinity := overlayRendered_renderAsked hcaches3.textures (hdata2.view hview3) w .salinity
  have hcaches : CachesFrom l (renderAsked w (afterIsoLines w s) .salinity).1 :=
    hsalinity.caches hcaches3.iso
  have hview : SameView s (renderAsked w (afterIsoLines w s) .salinity).1 :=
    (hview2.trans hview3).trans hsalinity.view
  rw [doRender_eq w hrenders]
  refine ⟨hview,hcaches,fun d hd => ?_,fun hdrawn => ?_⟩
  · rcases List.mem_append.mp hd with hd | hd
    · rcases List.mem_append.mp hd with hd | hd
      · exact hcurrent.draws d hd
      · exact hseaTemp.draws d hd
    · exact hsalinity.draws d hd
  · obtain ⟨hshown,hsegments⟩ := isoLinesDrawn_of_ne hdrawn
    have hasked : isoAsked s=true := (isoAsked_of_view hview).symm.trans hshown
    rw [hsegments]
    exact hcaches.iso (hsalinity.iso.1.trans (hvalid hasked))

end Coherence

section Runs

variable {α π : Type} [Field α] [LinearOrder α] [FloorRing α]

omit [FloorRing α] in
/-- The particles of a frame were spawned before it or in it. -/
theorem born_renderParticles {w : FrameWorld} {pw : ParticleWorld π} {r : Renderer α π}
    (h : ∀ p∈r.particleMap.getD [],p.born=r.loads.length) :
    (∀ p∈(renderParticles w pw r).1.particleMap.getD [],p.born=r.loads.length) ∧
      (∀ p∈(renderParticles w pw r).2,p.born=r.loads.length) ∧
      (renderParticles w pw r).1.loads=r.loads := by
  have hshown : ∀ p∈(r.particleMap.getD []).map fun p => {p with trail := pw.reproject p.trail},
      p.born=r.loads.length := by
    intro p hp
    obtain ⟨q,hq,rfl⟩ := List.mem_map.mp hp
    exact h q hq
  have hadjusted := born_adjustParticles (w:=pw) r.factory.gui.myMessage.lonLength
    r.factory.gui.myMessage.latLength (born_updateParticles pw.move hshown)
  unfold renderParticles
  dsimp only
  split
  · exact ⟨h,fun _ hp => (by cases hp),rfl⟩
  · have hparticles : ∀ p∈(if (r.updateParticles || decide (0 < r.particleBurstCount))=true then
        adjustParticles pw r.loads.length r.factory.gui.myMessage.lonLength
          r.factory.gui.myMessage.latLength (updateParticles pw.move
            ((r.particleMap.getD []).map fun p => {p with trail := pw.reproject p.trail}))
        else (r.particleMap.getD []).map fun p => {p with trail := pw.reproject p.trail}),
        p.born=r.loads.length := by
      split
      · exact hadjusted
      · exact hshown
    refine ⟨hparticles,?_,rfl⟩
    by_cases hdc : w.toDC=true
    · rw [if_pos hdc]
      exact fun _ hp => by cases hp
    · rw [if_neg hdc]
      exact hparticles

omit [FloorRing α] in
/-- Particles that are hidden are discarded, and shown ones are no older than the most
recent load. -/
theorem born_shownParticles (w : FrameWorld) (pw : ParticleWorld π) {r : Renderer α π}
    (h : ∀ p∈r.particleMap.getD [],p.born=r.loads.length) :
    let shown := if r.factory.flags.showParticles=true then renderParticles w pw r
      else ({r with particleMap := none},[])
    (∀ p∈shown.1.particleMap.getD [],p.born=r.loads.length) ∧
      (∀ p∈shown.2,p.born=r.loads.length) ∧ shown.1.loads=r.loads := by
  dsimp only
  split
  · exact born_renderParticles h
  · exact ⟨fun _ hp => (by cases hp),fun _ hp => (by cases hp),rfl⟩

/-- What the renderer keeps over every run. -/
structure Valid (r : Renderer α π) : Prop where
  /-- Grids are those of a load. -/
  data : r.factory.gui.loaded → ∃ l∈r.loads.head?,SameData l r.factory
  /-- Before the first load nothing is cached. -/
  unloaded : r.loads=[] → (∀ X,¬Cached r.factory X) ∧ r.factory.needsIsoRebuild=true
  /-- After it valid caches are those of the most recent load. -/
  caches : ∀ l∈r.loads.head?,CachesFrom l r.factory
  /-- Particles were spawned after it. -/
  born : ∀ p∈r.particleMap.getD [],p.born=r.loads.length

/-- What a frame draws is what the most recent load gives, and the isolines
are those of the present grid. -/
structure FromLatestLoad (r : Renderer α π) (drawn : FrameDraws α π) : Prop where
  /-- Textures. -/
  textures : ∀ d∈drawn.textures,∃ l∈r.loads.head?,textureOf l d.colorFunc=some d.texture
  /-- Isolines. -/
  iso : drawn.isoSegments≠[] → isoSegmentsOf r.factory=some drawn.isoSegments
  /-- Particles. -/
  particles : ∀ p∈drawn.particles,r.loads≠[] ∧ p.born=r.loads.length

/-- The initial renderer. -/
theorem valid_initial : Valid ({} : Renderer α π) := by
  refine ⟨fun h => ?_,fun _ => ⟨fun X hX => ?_,rfl⟩,fun _ hl => ?_,fun _ hp => ?_⟩
  · simp [GuiGrids.loaded] at h
  · cases hX.1
  · cases hl
  · cases hp

/-- An event that changes no cache keeps the renderer valid, as long as the grids stay those
of a load or go. -/
theorem Valid.of_sameCaches {r : Renderer α π} (h : Valid r) {s : Factory α}
    (hslots : s.slots=r.factory.slots) (hneeds : s.needsIsoRebuild=r.factory.needsIsoRebuild)
    (hsegments : s.isoSegments=r.factory.isoSegments)
    (hdata : s.gui.loaded → ∃ l∈r.loads.head?,SameData l s) : Valid {r with factory := s} := by
  refine ⟨hdata,fun hnone => ?_,fun l hl => ⟨fun X hX => ?_,fun hiso => ?_⟩,h.born⟩
  · obtain ⟨hcached,hneeds'⟩ := h.unloaded hnone
    refine ⟨fun X hX => hcached X ?_,hneeds.trans hneeds'⟩
    simpa only [Cached,hslots] using hX
  · simp only [Cached,hslots] at hX ⊢
    exact (h.caches l hl).textures X hX
  · dsimp only
    rw [hsegments]
    exact (h.caches l hl).iso (hneeds.symm.trans hiso)

/-- After a load every cache is invalid, and the grids are its own. -/
theorem valid_loadData {env : Env α} {r : Renderer α π} (h : Valid r) (m : DataMessage α) :
    Valid (loadData env r m) := by
  unfold loadData
  split
  next hdata =>
    have hstale (X : ColorFunc) : ¬Cached (overlayStep r.factory (.load env m)) X := by
      intro hX
      simp [Cached,overlayStep,overlayEvent,hdata,setData] at hX
    have hneeds : (overlayStep r.factory (.load env m)).needsIsoRebuild=true := by
      simp [overlayStep,overlayEvent,hdata,setData]
    refine ⟨fun _ => ⟨_,rfl,SameData.refl _⟩,fun hnone => (by cases hnone),?_,fun _ hp => (by cases hp)⟩
    rintro l ⟨⟩
    refine ⟨fun X hX => absurd hX (hstale X),fun hiso => ?_⟩
    rw [hneeds] at hiso
    cases hiso
  next => exact h

/-- A frame keeps the renderer valid, and all that it draws is what the most recent load
gives. -/
theorem valid_renderFrame {r : Renderer α π} (h : Valid r) (w : FrameWorld) (pw : ParticleWorld π) :
    Valid (renderFrame w pw r).1 ∧ FromLatestLoad r (renderFrame w pw r).2 := by
  unfold renderFrame
  split
  next => exact ⟨h,fun _ hd => (by cases hd),fun hne => absurd rfl hne,fun _ hp => by cases hp⟩
  next hskip =>
    have hrenders : renders r.factory=true := Bool.eq_true_of_not_eq_false hskip
    obtain ⟨-,hloaded,-⟩ := renders_true hrenders
    obtain ⟨l,hl,hdata⟩ := h.data hloaded
    have hloads : r.loads≠[] := fun hnil => by
      rw [hnil] at hl
      cases hl
    have hframe := frameRendered_doRender (h.caches l hl) hdata w hrenders
    have hsame := hdata.view hframe.view
    have hlatest : ∀ l'∈r.loads.head?,l'=l := fun l' hl' => Option.mem_unique hl' hl
    have hparticles := born_shownParticles w pw h.born
    dsimp only
    generalize (if r.factory.flags.showParticles=true then renderParticles w pw r
      else ({r with particleMap := none},[]))=shown at hparticles ⊢
    obtain ⟨hborn,hdrawn,hkept⟩ := hparticles
    refine ⟨⟨fun _ => ?_,fun hnone => ?_,fun l' hl' => ?_,?_⟩,?_,fun hne => ?_,fun p hp => ?_⟩
    · rw [hkept]
      exact ⟨l,hl,hsame⟩
    · exact absurd (hkept.symm.trans hnone) hloads
    · rw [hkept] at hl'
      rw [hlatest l' hl']
      exact hframe.caches
    · rw [hkept]
      exact hborn
    · exact fun d hd => ⟨l,hl,hframe.draws d hd⟩
    · exact hdata.isoSegmentsOf_eq.trans (hframe.isoDrawn hne)
    · exact ⟨hloads,hdrawn p hp⟩

/-- Every event keeps the renderer valid, and draws from the latest load. -/
theorem valid_renderEvent {r : Renderer α π} (h : Valid r) (e : RenderEvent α π) :
    Valid (renderEvent r e).1 ∧ FromLatestLoad r (renderEvent r e).2 := by
  have hnone : FromLatestLoad r ({} : FrameDraws α π) :=
    ⟨fun _ hd => (by cases hd),fun hne => absurd rfl hne,fun _ hp => (by cases hp)⟩
  cases e with
  | load env m => exact ⟨valid_loadData h m,hnone⟩
  | fileChanged =>
    exact ⟨h.of_sameCaches rfl rfl rfl fun hloaded => absurd hloaded (not_loaded_freeGrids _),hnone⟩
  | reset =>
    refine ⟨h.of_sameCaches rfl rfl rfl fun hloaded => ?_,hnone⟩
    obtain ⟨l,hl,hdata⟩ := h.data hloaded
    exact ⟨l,hl,hdata.gui,hdata.lats,hdata.lons⟩
  | toggle flags =>
    refine ⟨h.of_sameCaches rfl rfl rfl fun hloaded => ?_,hnone⟩
    obtain ⟨l,hl,hdata⟩ := h.data hloaded
    exact ⟨l,hl,hdata.gui,hdata.lats,hdata.lons⟩
  | timer => exact ⟨⟨h.data,h.unloaded,h.caches,h.born⟩,hnone⟩
  | frame w pw => exact valid_renderFrame h w pw

/-- Coherence in every run. Whatever was loaded, changed, hidden or failed to
be allocated before, an event draws textures of the most recent load only,
isolines of the present grid only, and particles spawned since that load. -/
theorem draws_from_latest (events : List (RenderEvent α π)) (e : RenderEvent α π) :
    FromLatestLoad (run renderStep {} events) (renderEvent (run renderStep {} events) e).2 := by
  have hstep : ∀ (r : Renderer α π) e,Valid r → Valid (renderStep r e) :=
    fun _ e h => (valid_renderEvent h e).1
  exact (valid_renderEvent (run_invariant_all hstep valid_initial events) e).2

end Runs

end NcdfPlugin.NcdfRenderCache
