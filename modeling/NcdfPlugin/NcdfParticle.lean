import NcdfPlugin.RingBuffer
import NcdfPlugin.SwapRemove
import NcdfPlugin.NcdfDirection
import NcdfPlugin.NcdfSeam
import NcdfPlugin.NcdfGridAccess
import NcdfPlugin.NcdfRenderCache
import NcdfPlugin.NcdfColorMap

/-!
# Particles of the current

A particle leaves a trail of positions in a ring of eight nodes. In every
sixth update it moves with the current and writes its next node, or marks it
as dead where there is too little current; when it leaves the view it is
placed anew. Old particles are removed, and a frame then brings their number
closer to the wanted one. Functions of the canvas, random numbers and memory
that was never initialised come from outside. Writes of a longitude are
numbered, to tell which nodes hold one and in which order they were written.
-/

namespace NcdfPlugin.NcdfParticle

open ExactArithmetic RingBuffer NcdfLibrary NcdfMessage NcdfReader NcdfInterpolation NcdfDirection
open NcdfRenderCache (runCount maxDuration totalParticles)
open NcdfGridAccess (IsInt32 int32 int32_of_isInt32)
open NcdfColorMap (Rgb seaCurrentColor)

/-- `ParticleNode`. -/
structure ParticleNode (α : Type) where
  /-- `m_Pos[0]`. -/
  lon : α
  /-- `m_Pos[1]`. -/
  lat : α
  /-- `m_Screen`. -/
  screen : α×α
  /-- `m_Color`. -/
  color : Rgb
  /-- Number of the write that gave the longitude, none before the first. -/
  stamp : Option ℕ
  deriving DecidableEq

/-- `Particle`. -/
structure Particle (α : Type) where
  /-- `m_Duration`. -/
  duration : ℤ
  /-- `m_HistoryPos` and `m_HistorySize`. -/
  cursor : Cursor
  /-- `m_Run`. -/
  run : ℤ
  /-- `m_Velocity`. -/
  velocity : α
  /-- `m_History`. -/
  history : ℕ → ParticleNode α
  /-- Writes of a longitude so far. -/
  writes : ℕ

/-- `MAX_PARTICLE_HISTORY`. -/
def maxParticleHistory : ℕ := 8

section Nodes

variable {α : Type}

/-- The current node. -/
def Particle.current (p : Particle α) : ParticleNode α := p.history p.cursor.pos

/-- One node replaced. -/
def Particle.setNode (p : Particle α) (k : ℕ) (node : ParticleNode α) : Particle α :=
  {p with history := Function.update p.history k node}

@[simp] theorem Particle.setNode_duration (p : Particle α) (k : ℕ) (node : ParticleNode α) :
    (p.setNode k node).duration=p.duration := rfl

@[simp] theorem Particle.setNode_cursor (p : Particle α) (k : ℕ) (node : ParticleNode α) :
    (p.setNode k node).cursor=p.cursor := rfl

@[simp] theorem Particle.setNode_run (p : Particle α) (k : ℕ) (node : ParticleNode α) :
    (p.setNode k node).run=p.run := rfl

@[simp] theorem Particle.setNode_velocity (p : Particle α) (k : ℕ) (node : ParticleNode α) :
    (p.setNode k node).velocity=p.velocity := rfl

@[simp] theorem Particle.setNode_writes (p : Particle α) (k : ℕ) (node : ParticleNode α) :
    (p.setNode k node).writes=p.writes := rfl

@[simp] theorem Particle.setNode_history (p : Particle α) (k : ℕ) (node : ParticleNode α) :
    (p.setNode k node).history=Function.update p.history k node := rfl

end Nodes

/-- `PlugIn_ViewPort`. -/
structure ViewPort (α : Type) where
  /-- `clat`. -/
  clat : α
  /-- `clon`. -/
  clon : α
  /-- `view_scale_ppm`. -/
  viewScalePpm : α
  /-- `skew`. -/
  skew : α
  /-- `rotation`. -/
  rotation : α
  /-- `pix_width`. -/
  pixWidth : ℤ
  /-- `pix_height`. -/
  pixHeight : ℤ

/-- What stays the same from frame to frame. -/
structure Setup (α : Type) where
  /-- The mathematical library. -/
  libm : Libm α
  /-- `m_iParticleDensity`. -/
  sliderVal : ℤ
  /-- What comes of the result of a conversion to `int` or of a product. -/
  toInt : ℤ → ℤ
  /-- Only results outside the range of `int` are undefined. -/
  toInt_eq : ∀ z,IsInt32 z → toInt z=z

/-- `total_particles`. The same as before as long as both products are in the
range of `int`. -/
def wantedParticles {α : Type} (setup : Setup α) (ni nj : ℕ) : ℤ :=
  min (min (setup.toInt ((setup.sliderVal*ni*nj).tdiv 5)) (setup.toInt (ni*nj))) 100000

/-- While both products fit an `int` the number aimed at is that of exact arithmetic. -/
theorem wantedParticles_eq {α : Type} {setup : Setup α} {ni nj : ℕ}
    (hdensity : IsInt32 ((setup.sliderVal*ni*nj).tdiv 5)) (hgrid : IsInt32 (ni*nj)) :
    wantedParticles setup ni nj=totalParticles setup.sliderVal ni nj := by
  rw [wantedParticles,setup.toInt_eq _ hdensity,setup.toInt_eq _ hgrid,totalParticles]

/-- What one frame sees of the dialog and of the outside world. -/
structure Surroundings (α : Type) [Field α] where
  /-- Whether the pointer to the dialog is set. -/
  attached : Bool
  /-- Message and grids of the dialog. -/
  gui : GuiGrids α
  /-- `vp`. -/
  viewPort : ViewPort α
  /-- `GetCanvasPixLL`: pixel of a latitude and a longitude. -/
  pixLL : α → α → ℤ×ℤ
  /-- `GetCanvasLLPix`: latitude and longitude of a pixel. -/
  llPix : ℤ×ℤ → α×α
  /-- Results of `rand`, in the order of its calls. -/
  rand : ℕ → ℕ
  /-- `RAND_MAX`. -/
  randMax : ℕ
  /-- What the n-th particle of the frame is made from before it is assigned. -/
  uninitialised : ℕ → Particle α

section Motion

variable {α : Type} [Field α] [LinearOrder α] [FloorRing α]

/-- `history_size`: 27 over the root of the density, from four to eight. -/
def historySize (setup : Setup α) : ℕ :=
  let density : α := decimal 1 5*setup.sliderVal
  (max 4 (min (truncate ((27 : ℕ)/setup.libm.sqrt (max density (decimal 1 10)))) maxParticleHistory)).toNat

/-- Whatever the density and the square root are, a trail has four to eight nodes. -/
theorem historySize_bounds (setup : Setup α) : 4 ≤ historySize setup ∧ historySize setup≤8 := by
  unfold historySize maxParticleHistory
  dsimp only
  omega

/-- Longitude that marks a dead node. -/
def deadLon : α := -(10000 : ℕ)

/-- Components of the current at a position, when both are there. -/
def flowAt (e : Surroundings α) (pos : α×α) : Option (α×α) :=
  let vx := getInterpolatedValue e.gui.myMessage (e.gui.gridu.getD []) pos.1 pos.2 true
  let vy := getInterpolatedValue e.gui.myMessage (e.gui.gridv.getD []) pos.1 pos.2 true
  if vx≠notDef ∧ vy≠notDef then some (vx,vy) else none

/-- Force of a current. -/
def speed (libm : Libm α) (v : α×α) : α := libm.sqrt (v.1*v.1+v.2*v.2)

/-- Longitude and latitude one step along a current, stored in single
precision. -/
def advect (libm : Libm α) (v pos : α×α) : α×α :=
  let d := speed libm v*(runCount : α)*decimal 194 100
  let angr := libm.toFloat (particleBearing libm v.1 v.2/halfTurn*libm.pi)
  let latr := pos.2*libm.toFloat libm.pi/halfTurn
  let D := libm.toFloat (d/(3443 : ℕ))
  let sD := libm.sin D
  let cD := libm.cos D
  let sy := libm.sin latr
  let cy := libm.cos latr
  let sa := libm.sin angr
  let ca := libm.cos angr
  (libm.toFloat (pos.1+libm.asin (sa*sD/cy)*halfTurn/libm.toFloat libm.pi),
    libm.toFloat (libm.asin (sy*cD+cy*sD*ca)*halfTurn/libm.toFloat libm.pi))

/-- Position of a node. -/
def ParticleNode.pos (node : ParticleNode α) : α×α := (node.lon,node.lat)

/-- Pixel as it is stored in a node. -/
def storedPixel (libm : Libm α) (ps : ℤ×ℤ) : α×α := (libm.toFloat ps.1,libm.toFloat ps.2)

/-- A node with a position and its pixel. -/
def ParticleNode.place (setup : Setup α) (e : Surroundings α) (pos : α×α) (stamp : ℕ)
    (node : ParticleNode α) : ParticleNode α :=
  {node with
    lon := pos.1
    lat := pos.2
    screen := storedPixel setup.libm (e.pixLL pos.2 pos.1)
    stamp := some stamp}

/-- A node marked as dead. Its latitude stays. -/
def ParticleNode.kill (stamp : ℕ) (node : ParticleNode α) : ParticleNode α :=
  {node with lon := deadLon,stamp := some stamp}

/-- More than fifty pixels outside the view. -/
def OffScreen (vp : ViewPort α) (ps : ℤ×ℤ) : Prop :=
  ps.1 < -50 ∨ vp.pixWidth+50 < ps.1 ∨ ps.2 < -50 ∨ vp.pixHeight+50 < ps.2

instance (vp : ViewPort α) (ps : ℤ×ℤ) : Decidable (OffScreen vp ps) :=
  inferInstanceAs (Decidable (_ ∨ _ ∨ _ ∨ _))

/-- A random pixel of the view, from two calls of `rand`. -/
def randomPixel (e : Surroundings α) (calls : ℕ) : ℤ×ℤ :=
  (e.rand calls%max 1 e.viewPort.pixWidth,e.rand (calls+1)%max 1 e.viewPort.pixHeight)

/-- Longitude and latitude of a pixel in single precision. -/
def pixelPosition (libm : Libm α) (e : Surroundings α) (rp : ℤ×ℤ) : α×α :=
  (libm.toFloat (e.llPix rp).2,libm.toFloat (e.llPix rp).1)

/-- Respawn of a particle whose new node k is outside the view. The new
position is stored in node k, all nodes are marked as dead, the position is
reset, and node k is assigned its own longitude and latitude, since `p` and
`n.m_Pos` are the same array. -/
def recycle (setup : Setup α) (e : Surroundings α) (calls : ℕ) (it : Particle α) (k : ℕ) :
    Particle α×ℕ :=
  let rp := randomPixel e calls
  let p := pixelPosition setup.libm e rp
  let respawned := it.setNode k
    {it.history k with lon := p.1,lat := p.2,screen := storedPixel setup.libm rp}
  let cleared : Particle α := {respawned with
    history := fun h =>
      if h < maxParticleHistory then (respawned.history h).kill it.writes else respawned.history h
    cursor := ⟨0,1⟩
    writes := it.writes+1}
  let n := cleared.history k
  (cleared.setNode k {n with lon := n.lon,lat := n.lat},calls+2)

/-- New position and force, when the particle is young enough and there is
enough current at its current node. -/
def movement (setup : Setup α) (e : Surroundings α) (it : Particle α) : Option ((α×α)×α) :=
  match flowAt e it.current.pos with
  | none => none
  | some v =>
    let vkn := speed setup.libm v
    if it.duration < (maxDuration : ℤ)-historySize setup ∧ decimal 3 10<vkn ∧ vkn<(100 : ℕ) then
      some (advect setup.libm v it.current.pos,vkn)
    else none

/-- The update of a particle that is not removed, after its counters. -/
def advance (setup : Setup α) (e : Surroundings α) (calls : ℕ) (it : Particle α) : Particle α×ℕ :=
  let moved := {it with cursor := it.cursor.advance (historySize setup),writes := it.writes+1}
  let k := moved.cursor.pos
  match movement setup e it with
  | none => (moved.setNode k ((it.history k).kill it.writes),calls)
  | some (p,vkn) =>
    let placed := moved.setNode k ((it.history k).place setup e p it.writes)
    let shown :=
      if OffScreen e.viewPort (e.pixLL p.2 p.1) then recycle setup e calls placed k else (placed,calls)
    ({shown.1.setNode k {shown.1.history k with color := seaCurrentColor vkn} with velocity := vkn},
      shown.2)

/-- A particle whose next node is marked as dead. -/
def died (setup : Setup α) (it : Particle α) : Particle α :=
  let cursor := it.cursor.advance (historySize setup)
  { it with
    cursor := cursor
    history := Function.update it.history cursor.pos ((it.history cursor.pos).kill it.writes)
    writes := it.writes+1 }

/-- A particle whose next node has a new position. -/
def moved (setup : Setup α) (e : Surroundings α) (it : Particle α) (p : α×α) (vkn : α) : Particle α :=
  let cursor := it.cursor.advance (historySize setup)
  let node := {(it.history cursor.pos).place setup e p it.writes with color := seaCurrentColor vkn}
  { it with
    cursor := cursor
    velocity := vkn
    history := Function.update it.history cursor.pos node
    writes := it.writes+1 }

/-- A particle that was placed anew: all nodes are marked as dead. -/
def recycled (setup : Setup α) (e : Surroundings α) (calls : ℕ) (it : Particle α) (vkn : α) :
    Particle α :=
  let k := (it.cursor.advance (historySize setup)).pos
  let rp := randomPixel e calls
  let node : ParticleNode α :=
    { lon := deadLon
      lat := (pixelPosition setup.libm e rp).2
      screen := storedPixel setup.libm rp
      color := seaCurrentColor vkn
      stamp := some (it.writes+1) }
  { it with
    cursor := ⟨0,1⟩
    velocity := vkn
    history := Function.update (fun h =>
      if h < maxParticleHistory then (it.history h).kill (it.writes+1) else it.history h) k node
    writes := it.writes+2 }

/-- The next node is one of the array, whatever the position was. -/
theorem next_lt (setup : Setup α) (c : Cursor) :
    (c.advance (historySize setup)).pos < maxParticleHistory := by
  obtain ⟨hlow,hhigh⟩ := historySize_bounds setup
  unfold Cursor.advance maxParticleHistory
  dsimp only
  split <;> omega

/-- What an executed update does to a particle, in three cases: its next node is marked as
dead, it is moved, or it is placed anew. -/
theorem advance_cases (setup : Setup α) (e : Surroundings α) (calls : ℕ) (it : Particle α) :
    (movement setup e it=none ∧ advance setup e calls it=(died setup it,calls)) ∨
    ∃ p vkn,movement setup e it=some (p,vkn) ∧
      ((¬OffScreen e.viewPort (e.pixLL p.2 p.1) ∧
          advance setup e calls it=(moved setup e it p vkn,calls)) ∨
        OffScreen e.viewPort (e.pixLL p.2 p.1) ∧
          advance setup e calls it=(recycled setup e calls it vkn,calls+2)) := by
  unfold advance
  cases hmove : movement setup e it with
  | none => exact Or.inl ⟨rfl,rfl⟩
  | some found =>
    obtain ⟨p,vkn⟩ := found
    refine Or.inr ⟨p,vkn,rfl,?_⟩
    dsimp only
    by_cases hoff : OffScreen e.viewPort (e.pixLL p.2 p.1)
    · refine Or.inr ⟨hoff,?_⟩
      rw [if_pos hoff]
      have hnext := next_lt setup it.cursor
      simp only [recycle,recycled,Particle.setNode,Prod.mk.injEq,Particle.mk.injEq,true_and,and_true]
      funext h
      by_cases hk : h=(it.cursor.advance (historySize setup)).pos
      · subst hk
        simp [hnext,ParticleNode.kill]
      · simp [hk]
    · refine Or.inl ⟨hoff,?_⟩
      rw [if_neg hoff]
      simp [moved,Particle.setNode]

/-- A particle whose next position is near the view is moved there. -/
theorem advance_moved {setup : Setup α} {e : Surroundings α} {it : Particle α} {p : α×α} {vkn : α}
    (hmove : movement setup e it=some (p,vkn)) (hon : ¬OffScreen e.viewPort (e.pixLL p.2 p.1))
    (calls : ℕ) : advance setup e calls it=(moved setup e it p vkn,calls) := by
  rcases advance_cases setup e calls it with ⟨hnone,-⟩ | ⟨p',vkn',hsome,⟨-,h⟩ | ⟨hoff,-⟩⟩
  · cases hmove.symm.trans hnone
  · obtain ⟨rfl,rfl⟩ := Prod.mk.inj (Option.some.inj (hmove.symm.trans hsome))
    exact h
  · obtain ⟨rfl,rfl⟩ := Prod.mk.inj (Option.some.inj (hmove.symm.trans hsome))
    exact absurd hoff hon

/-- A particle whose next position is too far outside the view is placed anew, which takes
two random numbers. -/
theorem advance_recycled {setup : Setup α} {e : Surroundings α} {it : Particle α} {p : α×α} {vkn : α}
    (hmove : movement setup e it=some (p,vkn)) (hoff : OffScreen e.viewPort (e.pixLL p.2 p.1))
    (calls : ℕ) : advance setup e calls it=(recycled setup e calls it vkn,calls+2) := by
  rcases advance_cases setup e calls it with ⟨hnone,-⟩ | ⟨p',vkn',hsome,⟨hon,-⟩ | ⟨-,h⟩⟩
  · cases hmove.symm.trans hnone
  · obtain ⟨rfl,rfl⟩ := Prod.mk.inj (Option.some.inj (hmove.symm.trans hsome))
    exact absurd hoff hon
  · obtain ⟨rfl,rfl⟩ := Prod.mk.inj (Option.some.inj (hmove.symm.trans hsome))
    exact h

/-- One turn of the update loop: the particle it leaves, or none. -/
def updateParticle (setup : Setup α) (e : Surroundings α) (calls : ℕ) (it : Particle α) :
    Option (Particle α)×ℕ :=
  if it.run+1 < runCount then (some {it with run := it.run+1},calls)
  else if maxDuration < it.duration then (none,calls)
  else
    let updated := advance setup e calls {it with run := 0,duration := it.duration+1}
    (some updated.1,updated.2)

/-- The update loop. -/
def updateLoop (setup : Setup α) (e : Surroundings α) (particles : List (Particle α)) (calls : ℕ) :
    List (Particle α)×ℕ :=
  (SwapRemove.loop (updateParticle setup e) (particles.length+1) 0 particles calls).getD
    (particles,calls)

end Motion

section Spawning

variable {α : Type} [Field α] [LinearOrder α] [FloorRing α]

/-- Attempts to find a position with enough current, with the calls of `rand`
they leave behind. Stronger currents are more likely. -/
def findSpot (setup : Setup α) (e : Surroundings α) : ℕ → ℕ → Option ((α×α)×α)×ℕ
  | 0,calls => (none,calls)
  | attempts+1,calls =>
    let p := pixelPosition setup.libm e (randomPixel e calls)
    match flowAt e p with
    | none => findSpot setup e attempts (calls+2)
    | some v =>
      let mag := speed setup.libm v
      if mag<decimal 3 10 then findSpot setup e attempts (calls+2)
      else if (e.rand (calls+2) : α)/e.randMax < min 1 ((mag-decimal 3 10)/decimal 17 10) then
        (some (p,mag),calls+3)
      else findSpot setup e attempts (calls+3)

/-- A particle with its first node. The velocity is not assigned, nor are the
other nodes. -/
def firstNode (setup : Setup α) (e : Surroundings α) (npi : ℕ) (run duration : ℕ) (p : α×α) (vkn : α) :
    Particle α :=
  let np := e.uninitialised npi
  let node := {(np.history 0).place setup e p 0 with color := seaCurrentColor vkn}
  { duration := duration
    cursor := ⟨0,1⟩
    run := run
    velocity := np.velocity
    history := Function.update (fun h => {np.history h with stamp := none}) 0 node
    writes := 1 }

/-- One turn of the loop that fills the history, from the position before. -/
def prefillStep (setup : Setup α) (e : Surroundings α) (vkn : α) (state : Particle α×(α×α)) (h : ℕ) :
    Particle α×(α×α) :=
  let np := state.1
  let fakePos :=
    match flowAt e state.2 with
    | some v => advect setup.libm v state.2
    | none => state.2
  let node := {(np.history h).place setup e fakePos np.writes with color := seaCurrentColor vkn}
  ({np.setNode h node with cursor := ⟨h,h+1⟩,writes := np.writes+1},fakePos)

/-- A filled node is the current one, and counters do not change. -/
theorem prefillStep_current (setup : Setup α) (e : Surroundings α) (vkn : α)
    (state : Particle α×(α×α)) (h : ℕ) :
    (prefillStep setup e vkn state h).1.current.pos=(prefillStep setup e vkn state h).2 := by
  simp [prefillStep,Particle.current,ParticleNode.pos,ParticleNode.place]

/-- The nodes that are filled. -/
def prefilled (setup : Setup α) : List ℕ :=
  List.range' 1 (min (historySize setup) maxParticleHistory-1)

/-- A spawned particle. -/
def newParticle (setup : Setup α) (e : Surroundings α) (npi run duration : ℕ) (p : α×α) (vkn : α) :
    Particle α :=
  ((prefilled setup).foldl (prefillStep setup e vkn) (firstNode setup e npi run duration p vkn,p)).1

/-- Filling the history of a new particle does not change the counters it was spawned with.
-/
theorem newParticle_counters (setup : Setup α) (e : Surroundings α) (npi run duration : ℕ) (p : α×α)
    (vkn : α) :
    (newParticle setup e npi run duration p vkn).run=run ∧
      (newParticle setup e npi run duration p vkn).duration=duration := by
  unfold newParticle
  induction prefilled setup using List.reverseRecOn with
  | nil => exact ⟨rfl,rfl⟩
  | append_singleton nodes h ih =>
    rw [List.foldl_append]
    exact ih

/-- Particles, the counter of waiting updates, and the calls of `rand`. -/
structure SpawnState (α : Type) where
  /-- `particles`. -/
  particles : List (Particle α)
  /-- `run`. -/
  run : ℕ
  /-- Calls so far. -/
  calls : ℕ

/-- One turn of the spawning loop. -/
def spawnStep (setup : Setup α) (e : Surroundings α) (s : SpawnState α) (npi : ℕ) : SpawnState α :=
  match findSpot setup e 30 s.calls with
  | (none,calls) => {s with calls := calls}
  | (some (p,vkn),calls) =>
    if vkn<decimal 3 10 then {s with calls := calls}
    else
      { particles := s.particles++
          [newParticle setup e npi s.run (e.rand calls%(maxDuration/2)) p vkn]
        run := if s.run+1=runCount then 0 else s.run+1
        calls := calls+1 }

/-- Calls of `pop_back`, with the number of those on an empty vector. -/
def popBacks {τ : Type} : ℕ → List τ → List τ×ℕ
  | 0,l => (l,0)
  | n+1,[] => ((popBacks n ([] : List τ)).1,(popBacks n ([] : List τ)).2+1)
  | n+1,x::l => popBacks n (x::l).dropLast

/-- What is left of the particles after a part of the surplus is removed. -/
def removeSurplus (setup : Setup α) (ni nj : ℕ) (particles : List (Particle α)) :
    List (Particle α)×ℕ :=
  popBacks ((particles.length-wantedParticles setup ni nj).tdiv 16).toNat particles

/-- Spawning of a part of what misses. -/
def spawnMissing (setup : Setup α) (e : Surroundings α) (ni nj : ℕ) (particles : List (Particle α))
    (calls : ℕ) : List (Particle α) :=
  let newCount := ((wantedParticles setup ni nj-particles.length).tdiv 64).toNat
  ((List.range newCount).foldl (spawnStep setup e) ⟨particles,0,calls⟩).particles

end Spawning

section Frames

variable {α : Type} [Field α] [LinearOrder α]

/-- `ParticleMap`. -/
structure ParticleMap (α : Type) where
  /-- `m_Particles`. -/
  particles : List (Particle α) := []
  /-- `last_viewport`, none while it is not valid. -/
  lastViewPort : Option (ViewPort α) := none

/-- The fields of the factory that the particles use. -/
structure ParticleState (α : Type) where
  /-- `m_ParticleMap`. -/
  particleMap : Option (ParticleMap α) := none
  /-- `m_bUpdateParticles`. -/
  bUpdateParticles : Bool := true
  /-- `m_particleBurstCount`. -/
  particleBurstCount : ℕ := 0
  /-- Calls of `pop_back` on an empty vector so far. -/
  emptyPops : ℕ := 0

/-- The particles there are. -/
def ParticleState.particles (s : ParticleState α) : List (Particle α) :=
  (s.particleMap.getD {}).particles

/-- Whether the cached view is that of a view port. -/
def SameView (vp lvp : ViewPort α) : Prop :=
  vp.viewScalePpm=lvp.viewScalePpm ∧ vp.skew=lvp.skew ∧ vp.rotation=lvp.rotation ∧
    vp.clat=lvp.clat ∧ vp.clon=lvp.clon

instance (vp lvp : ViewPort α) : Decidable (SameView vp lvp) :=
  inferInstanceAs (Decidable (_ ∧ _ ∧ _ ∧ _ ∧ _))

/-- Pixels of the live nodes of a particle in a new view. -/
def reproject (setup : Setup α) (e : Surroundings α) (it : Particle α) : Particle α :=
  {it with
    history := fun i =>
      let n := it.history i
      if i < it.cursor.size ∧ n.lon≠deadLon then
        {n with screen := storedPixel setup.libm (e.pixLL n.lat n.lon)}
      else n}

/-- The map with its cached view brought up to date. -/
def refreshView (setup : Setup α) (e : Surroundings α) (pm : ParticleMap α) : ParticleMap α :=
  let changed := {pm with
    particles := pm.particles.map (reproject setup e)
    lastViewPort := some e.viewPort}
  match pm.lastViewPort with
  | none => changed
  | some lvp => if SameView e.viewPort lvp then pm else changed

/-- Whether `RenderParticles` goes past its first tests. -/
def Renders (e : Surroundings α) : Prop :=
  e.attached=true ∧ (e.gui.gridu.isSome=true ∧ e.gui.gridv.isSome=true) ∧
    (1 < e.gui.myMessage.lonLength ∧ 1 < e.gui.myMessage.latLength) ∧
    e.gui.myMessage.firstGridPointLat < e.gui.myMessage.lastGridPointLat ∧
    e.gui.myMessage.firstGridPointLong < e.gui.myMessage.lastGridPointLong

instance (e : Surroundings α) : Decidable (Renders e) :=
  inferInstanceAs (Decidable (_ ∧ _ ∧ _ ∧ _ ∧ _))

variable [FloorRing α]

/-- The part of a frame that a timer or a load asks for: updates, removals and
spawning, with the calls of `pop_back` on an empty vector. -/
def updateParticles (setup : Setup α) (e : Surroundings α) (particles : List (Particle α)) :
    List (Particle α)×ℕ :=
  let ni := e.gui.myMessage.lonLength
  let nj := e.gui.myMessage.latLength
  let updated := updateLoop setup e particles 0
  let kept := removeSurplus setup ni nj updated.1
  (spawnMissing setup e ni nj kept.1 updated.2,kept.2)

/-- `RenderParticles` up to the drawing. -/
def renderParticles (setup : Setup α) (e : Surroundings α) (s : ParticleState α) : ParticleState α :=
  if Renders e then
    let pm := refreshView setup e (s.particleMap.getD {})
    let shouldUpdate := s.bUpdateParticles || decide (0 < s.particleBurstCount)
    let updated := if shouldUpdate=true then updateParticles setup e pm.particles else (pm.particles,0)
    { particleMap := some {pm with particles := updated.1}
      bUpdateParticles := false
      particleBurstCount := s.particleBurstCount-1
      emptyPops := s.emptyPops+updated.2 }
  else s

/-- What happens to the particles. -/
inductive ParticleEvent (α : Type) [Field α] where
  /-- `RenderParticles`. -/
  | frame (e : Surroundings α)
  /-- `ClearParticles`. -/
  | clear
  /-- The timer fires. -/
  | timer
  /-- `setData`. -/
  | load

/-- Effect of an event. -/
def particleStep (setup : Setup α) (s : ParticleState α) : ParticleEvent α → ParticleState α
  | .frame e => renderParticles setup e s
  | .clear => {s with particleMap := none}
  | .timer => {s with bUpdateParticles := true}
  | .load => {s with particleMap := none,bUpdateParticles := true,particleBurstCount := 30}

end Frames

section Invariants

variable {α : Type} [Field α] [LinearOrder α]

/-- What is left after particles were taken from the end was there before. -/
theorem mem_popBacks {τ : Type} {n : ℕ} {l : List τ} {x : τ} (h : x∈(popBacks n l).1) : x∈l := by
  induction n generalizing l with
  | zero => exact h
  | succ n ih =>
    cases l with
    | nil => exact ih h
    | cons y l => exact List.dropLast_subset _ (ih h)

/-- The particles after a change of the view are the same ones. -/
theorem mem_refreshView {setup : Setup α} {e : Surroundings α} {pm : ParticleMap α} {p : Particle α}
    (h : p∈(refreshView setup e pm).particles) :
    p∈pm.particles ∨ ∃ q∈pm.particles,reproject setup e q=p := by
  unfold refreshView at h
  dsimp only at h
  split at h
  · exact Or.inr (List.mem_map.mp h)
  · split at h
    · exact Or.inl h
    · exact Or.inr (List.mem_map.mp h)

variable [FloorRing α] {setup : Setup α} {P : Particle α → Prop}

/-- A property of single particles that every operation on one preserves. -/
structure Kept (setup : Setup α) (P : Particle α → Prop) : Prop where
  /-- A waiting update. -/
  waits : ∀ p,P p → P {p with run := p.run+1}
  /-- An update that is executed. -/
  advances : ∀ e calls p,P p →
    P (advance setup e calls {p with run := 0,duration := p.duration+1}).1
  /-- A change of the view. -/
  reprojects : ∀ e p,P p → P (reproject setup e p)
  /-- Spawning at a position that was found. -/
  spawns : ∀ e npi run duration calls p vkn calls',findSpot setup e 30 calls=(some (p,vkn),calls') →
    P (newParticle setup e npi run duration p vkn)

/-- A kept property passes through one turn of the update loop, whichever branch it takes.
-/
theorem Kept.updateParticle (h : Kept setup P) (e : Surroundings α) (calls : ℕ) {p q : Particle α}
    (hp : P p) (hq : (updateParticle setup e calls p).1=some q) : P q := by
  unfold NcdfParticle.updateParticle at hq
  split at hq
  · obtain rfl := Option.some.inj hq
    exact h.waits p hp
  · split at hq
    · cases hq
    · obtain rfl := Option.some.inj hq
      exact h.advances e calls p hp

/-- A kept property passes through the whole loop. -/
theorem Kept.updateLoop (h : Kept setup P) (e : Surroundings α) {particles : List (Particle α)}
    (hall : ∀ p∈particles,P p) (calls : ℕ) : ∀ p∈(updateLoop setup e particles calls).1,P p := by
  unfold NcdfParticle.updateLoop
  cases hloop : SwapRemove.loop (NcdfParticle.updateParticle setup e) (particles.length+1) 0 particles
      calls with
  | none => exact hall
  | some result =>
    exact SwapRemove.loop_forall (fun s x y hx hy => h.updateParticle e s hx hy) hall hloop

/-- A spawned particle joins others with the property. -/
theorem Kept.spawnStep (h : Kept setup P) (e : Surroundings α) {s : SpawnState α}
    (hall : ∀ p∈s.particles,P p) (npi : ℕ) : ∀ p∈(spawnStep setup e s npi).particles,P p := by
  unfold NcdfParticle.spawnStep
  split
  next => exact hall
  next p vkn calls hspot =>
    split
    · exact hall
    · intro q hq
      rcases List.mem_append.mp hq with hold | hnew
      · exact hall q hold
      · obtain rfl := List.mem_singleton.mp hnew
        exact h.spawns _ _ _ _ _ _ _ _ hspot

/-- A kept property passes through update, removal and spawning. -/
theorem Kept.updateParticles (h : Kept setup P) (e : Surroundings α) {particles : List (Particle α)}
    (hall : ∀ p∈particles,P p) : ∀ p∈(updateParticles setup e particles).1,P p := by
  have hloop := h.updateLoop e hall 0
  have hkept : ∀ p∈(removeSurplus setup e.gui.myMessage.lonLength e.gui.myMessage.latLength
      (NcdfParticle.updateLoop setup e particles 0).1).1,P p :=
    fun p hp => hloop p (mem_popBacks hp)
  have hstep (s : SpawnState α) (npi : ℕ) (hs : ∀ p∈s.particles,P p) :
      ∀ p∈(NcdfParticle.spawnStep setup e s npi).particles,P p := h.spawnStep e hs npi
  exact GuardedRun.run_invariant_all hstep hkept _

/-- What every operation on a single particle preserves, every event of the pool preserves.
-/
theorem Kept.particleStep (h : Kept setup P) {s : ParticleState α} (hall : ∀ p∈s.particles,P p)
    (event : ParticleEvent α) : ∀ p∈(particleStep setup s event).particles,P p := by
  cases event with
  | frame e =>
    have hview : ∀ p∈(refreshView setup e (s.particleMap.getD {})).particles,P p := by
      intro p hp
      rcases mem_refreshView hp with hold | ⟨q,hq,rfl⟩
      · exact hall p hold
      · exact h.reprojects e q (hall q hq)
    unfold NcdfParticle.particleStep renderParticles
    dsimp only
    split
    · change ∀ p∈(if (s.bUpdateParticles || decide (0 < s.particleBurstCount))=true then
        NcdfParticle.updateParticles setup e (refreshView setup e (s.particleMap.getD {})).particles
        else ((refreshView setup e (s.particleMap.getD {})).particles,0)).1,P p
      split
      · exact h.updateParticles e hview
      · exact hview
    · exact hall
  | clear => exact fun p hp => by cases hp
  | timer => exact hall
  | load => exact fun p hp => by cases hp

/-- In every run from construction all particles have such a property. -/
theorem Kept.run (h : Kept setup P) (events : List (ParticleEvent α)) :
    ∀ p∈(GuardedRun.run (NcdfParticle.particleStep setup) {} events).particles,P p := by
  have hstep (s : ParticleState α) (event : ParticleEvent α) (hs : ∀ p∈s.particles,P p) :
      ∀ p∈(NcdfParticle.particleStep setup s event).particles,P p := h.particleStep hs event
  exact GuardedRun.run_invariant_all hstep (fun _ hp => by cases hp) events

end Invariants

section SingleParticle

variable {α : Type} [Field α] [LinearOrder α]

/-- Where the view is the cached one no pixel is computed again. -/
theorem refreshView_same (setup : Setup α) (e : Surroundings α) (particles : List (Particle α)) :
    refreshView setup e ⟨particles,some e.viewPort⟩=⟨particles,some e.viewPort⟩ :=
  if_pos ⟨rfl,rfl,rfl,rfl,rfl⟩

variable [FloorRing α] {setup : Setup α} {e : Surroundings α}

/-- A frame after a load updates the particles, pending or not, as long as the burst lasts.
-/
theorem renderParticles_burst (hrenders : Renders e) {pm : Option (ParticleMap α)}
    {particles : List (Particle α)}
    (hview : refreshView setup e (pm.getD {})=⟨particles,some e.viewPort⟩) (pending : Bool)
    (burst emptyPops : ℕ) :
    renderParticles setup e ⟨pm,pending,burst+1,emptyPops⟩=
      ⟨some ⟨(updateParticles setup e particles).1,some e.viewPort⟩,false,burst,
        emptyPops+(updateParticles setup e particles).2⟩ := by
  have hpending : (pending || decide (0<burst+1))=true := by simp
  rw [renderParticles,if_pos hrenders]
  dsimp only
  rw [hview,if_pos hpending]
  rfl

/-- A pool that wants 64 particles and has none spawns one, where a position with enough
current is found. -/
theorem updateParticles_spawn
    (hwanted : wantedParticles setup e.gui.myMessage.lonLength e.gui.myMessage.latLength=64)
    {p : α×α} {vkn : α} {calls : ℕ} (hspot : findSpot setup e 30 0=(some (p,vkn),calls))
    (hvkn : decimal 3 10≤vkn) :
    updateParticles setup e []=
      ([newParticle setup e 0 0 (e.rand calls%(maxDuration/2)) p vkn],0) := by
  have hloop : updateLoop setup e [] 0=([],0) := rfl
  have hkept : removeSurplus setup e.gui.myMessage.lonLength e.gui.myMessage.latLength
      ([] : List (Particle α))=([],0) := by
    rw [removeSurplus,hwanted]
    rfl
  have hcount : ((64-(([] : List (Particle α)).length : ℤ)).tdiv 64).toNat=1 := rfl
  unfold updateParticles
  dsimp only
  rw [hloop,hkept,spawnMissing,hwanted,hcount]
  simp [List.range_one,spawnStep,hspot,not_lt.mpr hvkn]

/-- A pool that wants 64 particles and has one neither removes nor spawns any. -/
theorem updateParticles_single
    (hwanted : wantedParticles setup e.gui.myMessage.lonLength e.gui.myMessage.latLength=64)
    {it q : Particle α} {calls : ℕ} (hq : updateParticle setup e 0 it=(some q,calls)) :
    updateParticles setup e [it]=([q],0) := by
  have hloop : updateLoop setup e [it] 0=([q],calls) := by
    simp [updateLoop,SwapRemove.loop,SwapRemove.indexRange,hq]
  have hkept : removeSurplus setup e.gui.myMessage.lonLength e.gui.myMessage.latLength [q]=
      ([q],0) := by
    rw [removeSurplus,hwanted]
    rfl
  have hcount : ((64-([q].length : ℤ)).tdiv 64).toNat=0 := by
    rw [List.length_singleton]
    rfl
  unfold updateParticles
  dsimp only
  rw [hloop,hkept,spawnMissing,hwanted,hcount]
  rfl

end SingleParticle

section Equator

open Bearings NcdfSeam

/-- Degrees of one step at a speed. -/
noncomputable def eastStep (c : ℝ) : ℝ := degrees (c*(runCount : ℝ)*decimal 194 100/(3443 : ℕ))

/-- Length of one step to the east along the equator, in degrees: six frames at a rate in
knots over the radius in nautical miles. -/
theorem eastStep_eq (c : ℝ) : eastStep c=degrees (c*6*(194/100)/3443) := by
  norm_num [eastStep,decimal,runCount]

/-- Eastward currents move particles eastward. -/
theorem eastStep_pos {c : ℝ} (hc : 0 < c) : 0 < eastStep c := by
  have := Real.pi_pos
  rw [eastStep_eq,degrees_eq]
  positivity

/-- Slow steps are less than a degree. -/
theorem eastStep_lt {c : ℝ} (hc : c≤1) : eastStep c<1 := by
  have hpi := Real.two_le_pi
  rw [eastStep_eq,degrees_eq,div_lt_one Real.pi_pos]
  linarith

/-- An eastward current has the force of its only component. -/
theorem speed_east {c : ℝ} (hc : 0 ≤ c) : speed realLibm (c,0)=c := by
  change √(c*c+0*0)=c
  rw [mul_zero,add_zero,Real.sqrt_mul_self hc]

/-- A current to the east moves along the equator. -/
theorem advect_east {c : ℝ} (hc : 0 < c) (hle : c≤1) (lon : ℝ) :
    advect realLibm (c,0) (lon,0)=(lon+eastStep c,0) := by
  have hpi := Real.two_le_pi
  have hbearing : particleBearing realLibm c 0/halfTurn*Real.pi=Real.pi/2 := by
    have harg : atan2 c 0=Real.pi/2 := by
      have hvector : (⟨0,c⟩ : ℂ)=(c : ℂ)*Complex.I := by apply Complex.ext <;> simp
      rw [atan2,hvector,Complex.arg_real_mul _ hc,Complex.arg_I]
    change atan2 c 0*180/Real.pi/180*Real.pi=Real.pi/2
    rw [harg]
    field_simp
  have hdistance : speed realLibm (c,0)*(runCount : ℝ)*decimal 194 100/(3443 : ℕ)=
      c*6*(194/100)/3443 := by
    rw [speed_east hc.le]
    norm_num [decimal,runCount]
  have hasin : Real.arcsin (Real.sin (c*6*(194/100)/3443))=c*6*(194/100)/3443 := by
    refine Real.arcsin_sin ?_ ?_ <;> linarith
  rw [eastStep_eq,degrees_eq]
  unfold advect
  dsimp only
  rw [hdistance]
  change (lon+Real.arcsin (Real.sin (particleBearing realLibm c 0/halfTurn*Real.pi)*
      Real.sin (c*6*(194/100)/3443)/Real.cos (0*Real.pi/180))*180/Real.pi,
    Real.arcsin (Real.sin (0*Real.pi/180)*Real.cos (c*6*(194/100)/3443)+
      Real.cos (0*Real.pi/180)*Real.sin (c*6*(194/100)/3443)*
        Real.cos (particleBearing realLibm c 0/halfTurn*Real.pi))*180/Real.pi)=_
  rw [hbearing,zero_mul,zero_div,Real.sin_zero,Real.cos_zero,Real.sin_pi_div_two,
    Real.cos_pi_div_two,one_mul,div_one,hasin]
  simp

/-- A current of 0.35 m/s. -/
noncomputable def slowCurrent : ℝ := decimal 7 20

/-- The slow current as a fraction. -/
theorem slowCurrent_eq : slowCurrent=7/20 := by norm_num [slowCurrent,decimal]

theorem slowCurrent_pos : 0 < slowCurrent := by norm_num [slowCurrent_eq]

/-- It is slow enough for its steps to be short. -/
theorem slowCurrent_le_one : slowCurrent≤1 := by norm_num [slowCurrent_eq]

/-- It is not taken for a missing value. -/
theorem slowCurrent_ne_notDef : slowCurrent≠notDef := by norm_num [slowCurrent_eq,notDef]

/-- It is strong enough to move and to spawn. -/
theorem slowCurrent_moves : decimal 3 10 < slowCurrent ∧ slowCurrent<(100 : ℕ) := by
  constructor <;> norm_num [slowCurrent_eq,decimal]

/-- A global map of octants with eight rows around the equator. -/
noncomputable def octants : DataMessage ℝ where
  noPointsParallel := 8
  noPointsMeridian := 8
  firstGridPointLat := -(35 : ℕ)
  lastGridPointLat := (35 : ℕ)
  lastGridPointLong := (315 : ℕ)
  iDirectionIncr := (45 : ℕ)
  jDirectionIncr := (10 : ℕ)
  latLength := 8
  lonLength := 8

/-- Eight columns of 45 degrees cover the globe. -/
theorem globalColumns_octants : GlobalColumns octants := by
  constructor <;> norm_num [octants,fullTurn]

/-- The rows around the equator are read. -/
theorem rowsRead_octants : RowsRead octants 0 := by
  have hrow : rowCoord octants 0=7/2 := by norm_num [rowCoord,octants]
  refine ⟨?_,?_,?_⟩
  · norm_num [Spaced,octants,tiny,tenBillion]
  · norm_num [isYInMap,octants]
  · rw [hrow,truncate_of_nonneg (by norm_num)]
    norm_num [octants]

/-- A view of the globe from above a point of the equator, a hundred pixels to
the radius. The other side has no pixels. The inverse is that of the centre.
A current of 0.35 m/s flows to the east everywhere. -/
noncomputable def globe (clon : ℝ) : Surroundings ℝ where
  attached := true
  gui := {myMessage := octants,gridu := some (evenGrid octants slowCurrent),gridv := some (evenGrid octants 0)}
  viewPort := ⟨0,clon,1,0,0,800,600⟩
  pixLL lat lon :=
    if Real.cos (radians lat)*Real.cos (radians (lon-clon))<0 then (-2147483647,-2147483647)
    else (400+truncate ((100 : ℕ)*(Real.cos (radians lat)*Real.sin (radians (lon-clon)))),
      300-truncate ((100 : ℕ)*Real.sin (radians lat)))
  llPix := fun _ => (0,clon)
  rand n := [400,300].getD n 0
  randMax := 32767
  uninitialised := fun _ => ⟨0,⟨0,0⟩,0,0,fun _ => ⟨0,0,(0,0),⟨0,0,0⟩,none⟩,0⟩

/-- The default density. -/
noncomputable def slowSetup : Setup ℝ := ⟨realLibm,5,int32,fun _ => int32_of_isInt32⟩

/-- A frame of the sample view gets to the particles. -/
theorem renders_globe (clon : ℝ) : Renders (globe clon) := by
  refine ⟨rfl,⟨rfl,rfl⟩,⟨?_,?_⟩,?_,?_⟩ <;> norm_num [globe,octants]

/-- With the default density a trail has eight nodes. -/
theorem historySize_slow : historySize slowSetup=8 := by
  have hdensity : max (decimal 1 5*((5 : ℤ) : ℝ)) (decimal 1 10)=1 := by norm_num [decimal]
  have hquotient : truncate (((27 : ℕ) : ℝ)/√(max (decimal 1 5*((5 : ℤ) : ℝ)) (decimal 1 10)))=27 := by
    rw [hdensity,Real.sqrt_one,div_one]
    exact truncate_intCast 27
  unfold historySize
  change (max 4 (min (truncate (((27 : ℕ) : ℝ)/√(max (decimal 1 5*((5 : ℤ) : ℝ)) (decimal 1 10))))
    maxParticleHistory)).toNat=8
  rw [hquotient]
  rfl

/-- The current at the equator, west of the last column. -/
theorem flowAt_globe (clon : ℝ) {lon : ℝ} (hlon : lon<315) :
    flowAt (globe clon) (lon,0)=some (slowCurrent,0) := by
  have hbefore : normalizeX octants lon < octants.firstGridPointLong+fullTurn := by
    rcases le_or_gt lon 0 with hle | hpos
    · exact globalColumns_octants.normalizeX_lt hle
    · rw [globalColumns_octants.normalizeX_eq,
        reduce_of_mem fullTurn_pos (by exact hpos.le) (by norm_num [octants,fullTurn]; linarith)]
      norm_num [octants,fullTurn]
      linarith
  have hu : getInterpolatedValue octants (evenGrid octants slowCurrent) lon 0 true=slowCurrent :=
    globalColumns_octants.value_even rowsRead_octants hbefore slowCurrent_ne_notDef
  have hv : getInterpolatedValue octants (evenGrid octants 0) lon 0 true=0 :=
    globalColumns_octants.value_even rowsRead_octants hbefore (by norm_num [notDef])
  unfold flowAt
  change (if getInterpolatedValue octants (evenGrid octants slowCurrent) lon 0 true≠notDef ∧
      getInterpolatedValue octants (evenGrid octants 0) lon 0 true≠notDef then
    some (getInterpolatedValue octants (evenGrid octants slowCurrent) lon 0 true,
      getInterpolatedValue octants (evenGrid octants 0) lon 0 true) else none)=_
  rw [hu,hv,if_pos ⟨slowCurrent_ne_notDef,by norm_num [notDef]⟩]

/-- In the orthographic view the front half of the globe is on the screen. -/
theorem onScreen_globe {clon lat lon : ℝ}
    (hfront : 0≤Real.cos (radians lat)*Real.cos (radians (lon-clon))) :
    ¬OffScreen (globe clon).viewPort ((globe clon).pixLL lat lon) := by
  have hbound {x : ℝ} (hx : |x|≤1) : -100 ≤ truncate (((100 : ℕ) : ℝ)*x) ∧
      truncate (((100 : ℕ) : ℝ)*x)≤100 := by
    obtain ⟨hlow,hhigh⟩ := abs_le.mp hx
    unfold truncate
    split
    · exact ⟨Int.le_floor.mpr (by push_cast; linarith),
        Int.cast_le.mp ((Int.floor_le _).trans (by push_cast; linarith : _≤((100 : ℤ) : ℝ)))⟩
    · exact ⟨Int.cast_le.mp ((by push_cast; linarith : ((-100 : ℤ) : ℝ)≤_).trans (Int.le_ceil _)),
        Int.ceil_le.mpr (by push_cast; linarith)⟩
  have hproduct : |Real.cos (radians lat)*Real.sin (radians (lon-clon))|≤1 := by
    rw [abs_mul]
    exact mul_le_one₀ (Real.abs_cos_le_one _) (abs_nonneg _) (Real.abs_sin_le_one _)
  have hx := hbound hproduct
  have hy := hbound (Real.abs_sin_le_one (radians lat))
  unfold OffScreen globe
  dsimp only
  rw [if_neg (not_lt.mpr hfront)]
  omega

/-- The back half of the globe is mapped far outside the view. -/
theorem offScreen_globe {clon lat lon : ℝ}
    (hback : Real.cos (radians lat)*Real.cos (radians (lon-clon))<0) :
    OffScreen (globe clon).viewPort ((globe clon).pixLL lat lon) := by
  unfold OffScreen globe
  dsimp only
  rw [if_pos hback]
  omega

/-- A young particle at the equator moves one step to the east, at the force of the slow
current. -/
theorem movement_globe (clon : ℝ) {it : Particle ℝ} {lon : ℝ} (hpos : it.current.pos=(lon,0))
    (hlon : lon<315) (hyoung : it.duration<42) :
    movement slowSetup (globe clon) it=some ((lon+eastStep slowCurrent,0),slowCurrent) := by
  have hyoung' : it.duration < (maxDuration : ℤ)-historySize slowSetup := by
    rw [historySize_slow]
    exact hyoung
  have hspeed : speed slowSetup.libm (slowCurrent,0)=slowCurrent := speed_east slowCurrent_pos.le
  have hadvect : advect slowSetup.libm (slowCurrent,0) (lon,0)=(lon+eastStep slowCurrent,0) :=
    advect_east slowCurrent_pos slowCurrent_le_one lon
  rw [movement,hpos,flowAt_globe clon hlon]
  dsimp only
  rw [hspeed,hadvect,if_pos ⟨hyoung',slowCurrent_moves⟩]

/-- The centre of the view is the first position tried, and it is taken. -/
theorem findSpot_globe {clon : ℝ} (hclon : clon<315) :
    findSpot slowSetup (globe clon) 30 0=(some ((clon,0),slowCurrent),3) := by
  have hspeed : speed slowSetup.libm (slowCurrent,0)=slowCurrent := speed_east slowCurrent_pos.le
  have hposition : pixelPosition slowSetup.libm (globe clon) (randomPixel (globe clon) 0)=(clon,0) := rfl
  have hrand : (globe clon).rand (0+2)=0 := rfl
  rw [findSpot,hposition,flowAt_globe clon hclon]
  dsimp only
  have hlikely : ((0 : ℕ) : ℝ)/((globe clon).randMax : ℝ) <
      min 1 ((slowCurrent-decimal 3 10)/decimal 17 10) := by
    rw [Nat.cast_zero,zero_div]
    norm_num [slowCurrent_eq,decimal]
  rw [hspeed,if_neg (not_lt.mpr slowCurrent_moves.1.le),hrand,if_pos hlikely]

/-- The positions that fill a history go to the east step by step. -/
theorem prefill_globe (clon vkn : ℝ) (n : ℕ) {h : ℕ} {state : Particle ℝ×(ℝ×ℝ)} {lon : ℝ}
    (hpos : state.2=(lon,0)) (hcurrent : state.1.current.pos=state.2) (hlon : lon+n<315) :
    ((List.range' h n).foldl (prefillStep slowSetup (globe clon) vkn) state).1.current.pos=
      (lon+n*eastStep slowCurrent,0) := by
  have hstep : eastStep slowCurrent<1 := eastStep_lt slowCurrent_le_one
  induction n generalizing h state lon with
  | zero =>
    rw [Nat.cast_zero,zero_mul,add_zero]
    exact hcurrent.trans hpos
  | succ n ih =>
    rw [Nat.cast_succ] at hlon ⊢
    have hn : (0 : ℝ)≤n := Nat.cast_nonneg n
    have hadvect : advect slowSetup.libm (slowCurrent,0) (lon,0)=(lon+eastStep slowCurrent,0) :=
      advect_east slowCurrent_pos slowCurrent_le_one lon
    have hnext : (prefillStep slowSetup (globe clon) vkn state h).2=(lon+eastStep slowCurrent,0) := by
      unfold prefillStep
      dsimp only
      rw [hpos,flowAt_globe clon (by linarith)]
      exact hadvect
    rw [List.range'_succ,List.foldl_cons,
      ih hnext (prefillStep_current _ _ _ _ _) (by linarith)]
    congr 1
    ring

/-- The particle that a view of the globe spawns. -/
noncomputable def globeParticle (clon : ℝ) : Particle ℝ :=
  newParticle slowSetup (globe clon) 0 0 0 (clon,0) slowCurrent

/-- The prefilled trail leads seven steps to the east of the point where the particle was
spawned. -/
theorem globeParticle_pos {clon : ℝ} (hclon : clon+7<315) :
    (globeParticle clon).current.pos=(clon+7*eastStep slowCurrent,0) := by
  have hnodes : prefilled slowSetup=List.range' 1 7 := by
    rw [prefilled,historySize_slow]
    rfl
  have hfirst : (firstNode slowSetup (globe clon) 0 0 0 (clon,0) slowCurrent).current.pos=(clon,0) := by
    simp [firstNode,Particle.current,ParticleNode.pos,ParticleNode.place]
  have hlon : clon+((7 : ℕ) : ℝ)<315 := by exact_mod_cast hclon
  rw [globeParticle,newParticle,hnodes,prefill_globe clon slowCurrent 7 rfl hfirst hlon]
  norm_num

/-- On the sample map as many particles are wanted as it has nodes. -/
theorem wantedParticles_slow (clon : ℝ) :
    wantedParticles slowSetup (globe clon).gui.myMessage.lonLength
      (globe clon).gui.myMessage.latLength=64 := by
  refine (wantedParticles_eq (by change IsInt32 ((5*8*8 : ℤ).tdiv 5); decide)
    (by change IsInt32 (8*8); decide)).trans ?_
  change min (min ((5*8*8 : ℤ).tdiv 5) (8*8)) 100000=64
  decide

/-- The first frame after a load spawns one particle with a full trail. -/
theorem load_frame_globe {clon : ℝ} (hclon : clon<315) :
    GuardedRun.run (particleStep slowSetup) {} [.load,.frame (globe clon)]=
      ⟨some ⟨[globeParticle clon],some (globe clon).viewPort⟩,false,29,0⟩ := by
  have hupdate := updateParticles_spawn (wantedParticles_slow clon) (findSpot_globe hclon)
    slowCurrent_moves.1.le
  have hframe : particleStep slowSetup ⟨none,true,30,0⟩ (.frame (globe clon))=
      ⟨some ⟨[globeParticle clon],some (globe clon).viewPort⟩,false,29,0⟩ := by
    have hview : refreshView slowSetup (globe clon) {}=⟨[],some (globe clon).viewPort⟩ := rfl
    rw [particleStep,renderParticles_burst (renders_globe clon) hview,hupdate]
    rfl
  exact hframe

/-- A later frame over a single particle does to it what one turn of the update loop does.
-/
theorem frame_globe {clon : ℝ} {it q : Particle ℝ} {calls : ℕ}
    (hq : updateParticle slowSetup (globe clon) 0 it=(some q,calls)) (burst : ℕ) :
    particleStep slowSetup ⟨some ⟨[it],some (globe clon).viewPort⟩,false,burst+1,0⟩
        (.frame (globe clon))=
      ⟨some ⟨[q],some (globe clon).viewPort⟩,false,burst,0⟩ := by
  rw [particleStep,renderParticles_burst (renders_globe clon) (refreshView_same _ _ _),
    updateParticles_single (wantedParticles_slow clon) hq]
  rfl

/-- Some frames that all wait only count the waiting updates, by induction on their number.
-/
theorem waiting_frames_globe {clon : ℝ} (n : ℕ) {it : Particle ℝ} (hrun : it.run+n<6) (burst : ℕ) :
    GuardedRun.run (particleStep slowSetup) ⟨some ⟨[it],some (globe clon).viewPort⟩,false,burst+n,0⟩
        (List.replicate n (.frame (globe clon)))=
      ⟨some ⟨[{it with run := it.run+n}],some (globe clon).viewPort⟩,false,burst,0⟩ := by
  induction n generalizing it with
  | zero => simp
  | succ n ih =>
    rw [Nat.cast_succ] at hrun
    have hwait : updateParticle slowSetup (globe clon) 0 it=(some {it with run := it.run+1},0) :=
      if_pos (by change it.run+1<6; omega)
    have hnext : ({it with run := it.run+1} : Particle ℝ).run+n<6 := by
      dsimp only
      omega
    rw [List.replicate_succ,GuardedRun.run_cons,←Nat.add_assoc,frame_globe hwait (burst+n),ih hnext]
    simp only [Nat.cast_succ,add_comm (n : ℤ) 1,add_assoc]

/-- Of six frames five wait, and the sixth one executes the update. -/
theorem six_frames_globe {clon : ℝ} {it : Particle ℝ} (hrun : it.run=0)
    (hyoung : it.duration ≤ maxDuration) (burst : ℕ) :
    GuardedRun.run (particleStep slowSetup) ⟨some ⟨[it],some (globe clon).viewPort⟩,false,burst+6,0⟩
        (List.replicate 6 (.frame (globe clon)))=
      ⟨some ⟨[(advance slowSetup (globe clon) 0 {it with run := 0,duration := it.duration+1}).1],
        some (globe clon).viewPort⟩,false,burst,0⟩ := by
  have hlast : updateParticle slowSetup (globe clon) 0 {it with run := it.run+(5 : ℕ)}=
      (some (advance slowSetup (globe clon) 0 {it with run := 0,duration := it.duration+1}).1,
        (advance slowSetup (globe clon) 0 {it with run := 0,duration := it.duration+1}).2) := by
    have hdue : ¬it.run+((5 : ℕ) : ℤ)+1 < (runCount : ℤ) := by
      rw [hrun]
      decide
    rw [updateParticle,if_neg hdue,if_neg (not_lt.mpr hyoung)]
  have hsplit : List.replicate 6 (ParticleEvent.frame (globe clon))=
      List.replicate 5 (.frame (globe clon))++[.frame (globe clon)] := rfl
  rw [hsplit,GuardedRun.run_append,waiting_frames_globe 5 (by rw [hrun]; decide) (burst+1),
    GuardedRun.run_cons,GuardedRun.run_nil,frame_globe hlast]

/-- The particle at its first update. -/
noncomputable def dueParticle (clon : ℝ) : Particle ℝ := {globeParticle clon with run := 0,duration := 1}

/-- After seven frames the only particle of the first view has been moved once. -/
theorem seven_frames_globe :
    (GuardedRun.run (particleStep slowSetup) {}
        (.load::List.replicate 7 (.frame (globe 0)))).particles=
      [moved slowSetup (globe 0) (dueParticle 0) (8*eastStep slowCurrent,0) slowCurrent] := by
  obtain ⟨hrun,hduration⟩ := newParticle_counters slowSetup (globe 0) 0 0 0 (0,0) slowCurrent
  have hstep := eastStep_lt slowCurrent_le_one
  have hstep' := eastStep_pos slowCurrent_pos
  have hpi := Real.pi_pos
  have hmovement : movement slowSetup (globe 0) (dueParticle 0)=some ((8*eastStep slowCurrent,0),slowCurrent) := by
    have hlon : (0 : ℝ)+7*eastStep slowCurrent+eastStep slowCurrent=8*eastStep slowCurrent := by ring
    have hyoung : (dueParticle 0).duration<42 := by
      change (1 : ℤ)<42
      decide
    have hpos : (dueParticle 0).current.pos=(0+7*eastStep slowCurrent,0) := globeParticle_pos (by norm_num)
    rw [movement_globe 0 hpos (by linarith) hyoung,hlon]
  have hfront : ¬OffScreen (globe 0).viewPort ((globe 0).pixLL 0 (8*eastStep slowCurrent)) := by
    refine onScreen_globe (mul_nonneg ?_ (Real.cos_nonneg_of_mem_Icc ⟨?_,?_⟩))
    · simp [radians]
    · rw [sub_zero]
      have : 0≤8*eastStep slowCurrent*Real.pi/180 := by positivity
      unfold radians
      linarith
    · unfold radians
      nlinarith
  have hstart : GuardedRun.run (particleStep slowSetup) {} [.load,.frame (globe 0)]=
      ⟨some ⟨[globeParticle 0],some (globe 0).viewPort⟩,false,23+6,0⟩ := load_frame_globe (by norm_num)
  have hsplit : (.load::List.replicate 7 (.frame (globe 0)) : List (ParticleEvent ℝ))=
      [.load,.frame (globe 0)]++List.replicate 6 (.frame (globe 0)) := rfl
  have hyoung : (globeParticle 0).duration=0 := hduration
  have hzero : (globeParticle 0).run=0 := hrun
  have hdue : ({globeParticle 0 with run := 0,duration := (globeParticle 0).duration+1} :
      Particle ℝ)=dueParticle 0 := by
    rw [hyoung,dueParticle,zero_add]
  rw [hsplit,GuardedRun.run_append,hstart,six_frames_globe hzero (by rw [hyoung]; decide) 23,hdue,
    advance_moved hmovement hfront]
  rfl

end Equator

end NcdfPlugin.NcdfParticle
