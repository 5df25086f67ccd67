import NcdfPlugin.NcdfTrail

/-!
# Respawn and the marker of dead nodes

Recycling clears all longitudes of a particle, that of the new position among
them, and then assigns the position to itself: what reappears is dead. A dead
node is no obstacle to the next update, which asks for the current at the
marker as at any longitude. On a map of the whole globe that is a meridian
like the others. Otherwise the marker is off the map, and the longitudes of
live nodes come from where the particle was spawned, step by step.
-/

namespace NcdfPlugin.NcdfRespawn

open ExactArithmetic RingBuffer NcdfLibrary NcdfMessage NcdfReader NcdfInterpolation NcdfDirection
open NcdfParticle NcdfTrail GuardedRun
open NcdfRenderCache (runCount maxDuration)

section Recycling

variable {α : Type} [Field α] [LinearOrder α]

/-- After recycling the current node holds the position and the pixel of the
respawn, and no other node is live. -/
structure Reappears (setup : Setup α) (e : Surroundings α) (calls : ℕ) (it : Particle α) : Prop where
  /-- Longitude. -/
  lon : it.current.lon=(pixelPosition setup.libm e (randomPixel e calls)).1
  /-- Latitude. -/
  lat : it.current.lat=(pixelPosition setup.libm e (randomPixel e calls)).2
  /-- Pixel. -/
  screen : it.current.screen=storedPixel setup.libm (randomPixel e calls)
  /-- The other nodes are dead. -/
  alone : ∀ h < maxParticleHistory,h ≠ it.cursor.pos → (it.history h).lon=deadLon

variable [FloorRing α]

/-- Every node of a recycled particle is dead, the one with the respawn position included.
-/
theorem recycled_dead (setup : Setup α) (e : Surroundings α) (calls : ℕ) (it : Particle α) (vkn : α)
    {h : ℕ} (hh : h < maxParticleHistory) : ((recycled setup e calls it vkn).history h).lon=deadLon := by
  unfold recycled
  dsimp only
  rw [Function.update_apply,if_pos hh]
  split <;> rfl

/-- The current node of a recycled particle: the new one, or node zero. -/
theorem recycled_current (setup : Setup α) (e : Surroundings α) (calls : ℕ) (it : Particle α)
    (vkn : α) :
    (recycled setup e calls it vkn).current.lat=
        (if (it.cursor.advance (historySize setup)).pos=0 then
          (pixelPosition setup.libm e (randomPixel e calls)).2 else (it.history 0).lat) ∧
      (recycled setup e calls it vkn).current.screen=
        if (it.cursor.advance (historySize setup)).pos=0 then
          storedPixel setup.libm (randomPixel e calls) else (it.history 0).screen := by
  unfold recycled Particle.current
  dsimp only
  by_cases hk : (it.cursor.advance (historySize setup)).pos=0
  · rw [if_pos hk,if_pos hk,hk,Function.update_self]
    exact ⟨rfl,rfl⟩
  · rw [if_neg hk,if_neg hk,Function.update_of_ne (Ne.symm hk)]
    exact ⟨rfl,rfl⟩

/-- A recycled particle reappears only where the respawn has the longitude of
the marker, and then at a new node zero, or at an old one that has the
latitude and the pixel already. -/
theorem reappears_iff (setup : Setup α) (e : Surroundings α) (calls : ℕ) {it : Particle α} {p : α×α}
    {vkn : α} (hmove : movement setup e it=some (p,vkn))
    (hoff : OffScreen e.viewPort (e.pixLL p.2 p.1)) :
    Reappears setup e calls (advance setup e calls it).1 ↔
      (pixelPosition setup.libm e (randomPixel e calls)).1=deadLon ∧
        ((it.cursor.advance (historySize setup)).pos=0 ∨
          (it.history 0).lat=(pixelPosition setup.libm e (randomPixel e calls)).2 ∧
            (it.history 0).screen=storedPixel setup.libm (randomPixel e calls)) := by
  obtain ⟨hlat,hscreen⟩ := recycled_current setup e calls it vkn
  have hdead : (recycled setup e calls it vkn).current.lon=deadLon :=
    recycled_dead setup e calls it vkn (by decide : 0 < maxParticleHistory)
  rw [advance_recycled hmove hoff]
  constructor
  · intro h
    refine ⟨h.lon.symm.trans hdead,?_⟩
    by_cases hk : (it.cursor.advance (historySize setup)).pos=0
    · exact Or.inl hk
    · rw [if_neg hk] at hlat hscreen
      exact Or.inr ⟨hlat.symm.trans h.lat,hscreen.symm.trans h.screen⟩
  · rintro ⟨hlon,hnode⟩
    refine ⟨hdead.trans hlon.symm,?_,?_,fun h hh _ => recycled_dead setup e calls it vkn hh⟩
    · rw [hlat]
      split
      next => rfl
      next hk => exact (hnode.resolve_left hk).1
    · rw [hscreen]
      split
      next => rfl
      next hk => exact (hnode.resolve_left hk).2

end Recycling

section Lives

variable {α : Type} [Field α] [LinearOrder α] [FloorRing α]

/-- What happens to a particle from its spawning to its removal. -/
inductive LifeEvent (α : Type) [Field α] where
  /-- An update that is not due. -/
  | wait
  /-- An update that is executed, after some calls of `rand`. -/
  | update (e : Surroundings α) (calls : ℕ)
  /-- A change of the view. -/
  | view (e : Surroundings α)

/-- The particle at an update that is due. -/
def due (it : Particle α) : Particle α := {it with run := 0,duration := it.duration+1}

/-- Effect of an event on a particle. -/
def lifeStep (setup : Setup α) (it : Particle α) : LifeEvent α → Particle α
  | .wait => {it with run := it.run+1}
  | .update e calls => (advance setup e calls (due it)).1
  | .view e => reproject setup e it

/-- A life from spawning at a position that was found. -/
def Lived (setup : Setup α) (it : Particle α) : Prop :=
  ∃ e npi run duration calls p vkn calls' events,findSpot setup e 30 calls=(some (p,vkn),calls') ∧
    it=GuardedRun.run (lifeStep setup) (newParticle setup e npi run duration p vkn) events

/-- One event more. -/
theorem Lived.next {setup : Setup α} {it : Particle α} (h : Lived setup it) (event : LifeEvent α) :
    Lived setup (lifeStep setup it event) := by
  obtain ⟨e,npi,run,duration,calls,p,vkn,calls',events,hspot,rfl⟩ := h
  refine ⟨e,npi,run,duration,calls,p,vkn,calls',events++[event],hspot,?_⟩
  rw [GuardedRun.run_append]
  rfl

/-- Every particle of every run has a life. -/
theorem lived (setup : Setup α) (events : List (ParticleEvent α)) :
    ∀ it∈(run (particleStep setup) {} events).particles,Lived setup it := by
  have hkept : Kept setup (Lived setup) :=
    { waits := fun _ h => h.next .wait
      advances := fun e calls _ h => h.next (.update e calls)
      reprojects := fun e _ h => h.next (.view e)
      spawns := fun e npi run duration calls p vkn calls' hspot =>
        ⟨e,npi,run,duration,calls,p,vkn,calls',[],hspot,rfl⟩ }
  exact hkept.run events

end Lives

section Marker

variable {α : Type} [Field α] [LinearOrder α] [FloorRing α]

/-- At the longitude of the marker there is enough current to move, and the
step from there ends in the view at another longitude. -/
def MarkerFlows (setup : Setup α) (e : Surroundings α) (lat : α) : Prop :=
  ∃ v,flowAt e (deadLon,lat)=some v ∧
    (decimal 3 10 < speed setup.libm v ∧ speed setup.libm v<(100 : ℕ)) ∧
    ¬OffScreen e.viewPort (e.pixLL (advect setup.libm v (deadLon,lat)).2
      (advect setup.libm v (deadLon,lat)).1) ∧
    (advect setup.libm v (deadLon,lat)).1≠deadLon

/-- A dead node is followed by a dead node, unless the particle is recycled. -/
def MarkerKept (setup : Setup α) (it : Particle α) : LifeEvent α → Prop
  | .update e calls =>
    it.current.lon=deadLon →
      (advance setup e calls (due it)).1.current.lon=deadLon ∨
        ∃ p vkn,movement setup e (due it)=some (p,vkn) ∧ OffScreen e.viewPort (e.pixLL p.2 p.1)
  | _ => True

/-- A young particle is not updated from the marker where there is a current. -/
def MarkerCalm (setup : Setup α) (it : Particle α) : LifeEvent α → Prop
  | .update e _ =>
    it.current.lon=deadLon → it.duration+1 < (maxDuration : ℤ)-historySize setup →
      ¬MarkerFlows setup e it.current.lat
  | _ => True

/-- When a particle is moved, and where to: it is young enough, and the current at its node
is neither too weak nor too strong. -/
theorem movement_eq_some {setup : Setup α} {e : Surroundings α} {it : Particle α} {p : α×α} {vkn : α} :
    movement setup e it=some (p,vkn) ↔
      ∃ v,flowAt e it.current.pos=some v ∧ it.duration < (maxDuration : ℤ)-historySize setup ∧
        (decimal 3 10 < speed setup.libm v ∧ speed setup.libm v<(100 : ℕ)) ∧
        advect setup.libm v it.current.pos=p ∧ speed setup.libm v=vkn := by
  unfold movement
  cases hflow : flowAt e it.current.pos with
  | none => simp
  | some v =>
    dsimp only
    split
    next hmoves =>
      constructor
      · intro h
        obtain ⟨rfl,rfl⟩ := Prod.mk.inj (Option.some.inj h)
        exact ⟨v,rfl,hmoves.1,hmoves.2,rfl,rfl⟩
      · rintro ⟨v',hv,-,-,rfl,rfl⟩
        obtain rfl := Option.some.inj hv
        rfl
    next hmoves =>
      simp only [reduceCtorEq,Option.some.injEq,exists_eq_left',false_iff]
      exact fun ⟨hyoung,hspeed,_⟩ => hmoves ⟨hyoung,hspeed⟩

/-- The current node of a moved particle has its new position. -/
theorem moved_current (setup : Setup α) (e : Surroundings α) (it : Particle α) (p : α×α) (vkn : α) :
    (moved setup e it p vkn).current.pos=p := by
  simp [moved,Particle.current,ParticleNode.pos,ParticleNode.place]

/-- The current node of a particle in too little current is dead. -/
theorem died_current (setup : Setup α) (it : Particle α) : (died setup it).current.lon=deadLon := by
  simp [died,Particle.current,ParticleNode.kill]

/-- The marker is kept exactly where there is no current at it. -/
theorem markerKept_iff (setup : Setup α) (it : Particle α) (event : LifeEvent α) :
    MarkerKept setup it event ↔ MarkerCalm setup it event := by
  cases event with
  | wait => exact Iff.rfl
  | view e => exact Iff.rfl
  | update e calls =>
    refine imp_congr_right fun hdead => ?_
    have hpos : (due it).current.pos=(deadLon,it.current.lat) := Prod.ext hdead rfl
    constructor
    · rintro hkept hyoung ⟨v,hflow,hspeed,hon,hlon⟩
      have hmove : movement setup e (due it)=
          some (advect setup.libm v (deadLon,it.current.lat),speed setup.libm v) :=
        movement_eq_some.mpr ⟨v,hpos ▸ hflow,hyoung,hspeed,by rw [hpos],rfl⟩
      rcases hkept with hdead' | ⟨p,vkn,hsome,hoff⟩
      · rw [advance_moved hmove hon] at hdead'
        have hcurrent := congrArg Prod.fst
          (moved_current setup e (due it) (advect setup.libm v (deadLon,it.current.lat))
            (speed setup.libm v))
        exact hlon (hcurrent.symm.trans hdead')
      · obtain ⟨rfl,rfl⟩ := Prod.mk.inj (Option.some.inj (hmove.symm.trans hsome))
        exact hon hoff
    · intro hcalm
      rcases advance_cases setup e calls (due it) with ⟨-,h⟩ | ⟨p,vkn,hmove,⟨hon,h⟩ | ⟨hoff,-⟩⟩
      · rw [h]
        exact Or.inl (died_current setup (due it))
      · left
        by_contra hlive
        obtain ⟨v,hflow,hyoung,hspeed,rfl,rfl⟩ := movement_eq_some.mp hmove
        have hcurrent := congrArg Prod.fst
          (moved_current setup e (due it) (advect setup.libm v (due it).current.pos)
            (speed setup.libm v))
        rw [h] at hlive
        rw [hpos] at hflow hon hcurrent hlive
        exact hcalm hyoung ⟨v,hflow,hspeed,hon,fun heq => hlive (hcurrent.trans heq)⟩
      · exact Or.inr ⟨p,vkn,hmove,hoff⟩

end Marker

section Provenance

variable {α : Type} [Field α] [LinearOrder α] [FloorRing α]

/-- Positions that some origins lead to by steps along the currents of some
frames. -/
inductive Travelled (setup : Setup α) (frames : List (Surroundings α)) (origins : List (α×α)) :
    α×α → Prop where
  /-- An origin. -/
  | origin {pos : α×α} (hpos : pos∈origins) : Travelled setup frames origins pos
  /-- One step further. -/
  | step {e : Surroundings α} {pos v : α×α} (he : e∈frames) (hflow : flowAt e pos=some v)
      (hpos : Travelled setup frames origins pos) :
      Travelled setup frames origins (advect setup.libm v pos)

/-- Frames of the updates of a life. -/
def updateFrames (events : List (LifeEvent α)) : List (Surroundings α) :=
  events.filterMap fun event =>
    match event with
    | .update e _ => some e
    | _ => none

/-- Positions that the updates of a life respawn at, if they recycle. -/
def respawns (setup : Setup α) (events : List (LifeEvent α)) : List (α×α) :=
  events.filterMap fun event =>
    match event with
    | .update e calls => some (pixelPosition setup.libm e (randomPixel e calls))
    | _ => none

/-- The current node was written, and every live node that was written is
reached from the origins. -/
structure Traced (setup : Setup α) (frames : List (Surroundings α)) (origins : List (α×α))
    (it : Particle α) : Prop where
  /-- The current node was written. -/
  written : it.current.stamp.isSome=true
  /-- Live nodes are reached from the origins. -/
  live : ∀ k,(it.history k).stamp.isSome=true → (it.history k).lon≠deadLon →
    Travelled setup frames origins (it.history k).pos

variable {setup : Setup α} {frames : List (Surroundings α)} {origins : List (α×α)}
  {it it' : Particle α}

/-- Writing the new current node keeps a particle traced when the node is dead or was
reached by steps along currents. -/
theorem Traced.write (h : Traced setup frames origins it) {node : ParticleNode α}
    (hhistory : it'.history=Function.update it.history it'.cursor.pos node)
    (hstamp : node.stamp.isSome=true)
    (hnode : node.lon≠deadLon → Travelled setup frames origins node.pos) :
    Traced setup frames origins it' := by
  constructor
  · rw [Particle.current,hhistory,Function.update_self]
    exact hstamp
  · intro k hk hlive
    rw [hhistory] at hk hlive ⊢
    by_cases hcurrent : k=it'.cursor.pos
    · subst hcurrent
      rw [Function.update_self] at hlive ⊢
      exact hnode hlive
    · rw [Function.update_of_ne hcurrent] at hk hlive ⊢
      exact h.live k hk hlive

/-- Whether a particle is traced depends on its cursor and on positions and writes of its
nodes only. -/
theorem Traced.congr (h : Traced setup frames origins it) (hcursor : it'.cursor=it.cursor)
    (hpos : ∀ k,(it'.history k).pos=(it.history k).pos)
    (hstamp : ∀ k,(it'.history k).stamp=(it.history k).stamp) : Traced setup frames origins it' := by
  constructor
  · rw [Particle.current,hstamp,hcursor]
    exact h.written
  · intro k hk hlive
    have hlon : (it'.history k).lon=(it.history k).lon := congrArg Prod.fst (hpos k)
    rw [hpos]
    exact h.live k (hstamp k ▸ hk) (hlon ▸ hlive)

/-- A calm update writes a node that is dead or one step from a live one, so the particle
stays traced. -/
theorem Traced.advance (h : Traced setup frames origins it) {e : Surroundings α} (he : e∈frames)
    (calls : ℕ) (hcalm : MarkerCalm setup it (.update e calls)) :
    Traced setup frames origins (advance setup e calls (due it)).1 := by
  have hdue : Traced setup frames origins (due it) := h.congr rfl (fun _ => rfl) fun _ => rfl
  rcases advance_cases setup e calls (due it) with ⟨-,heq⟩ | ⟨p,vkn,hmove,⟨hon,heq⟩ | ⟨-,heq⟩⟩
  · rw [heq]
    exact hdue.write rfl rfl fun hlive => absurd rfl hlive
  · obtain ⟨v,hflow,hyoung,hspeed,rfl,rfl⟩ := movement_eq_some.mp hmove
    rw [heq]
    refine hdue.write rfl rfl fun hlive => ?_
    by_cases hdead : it.current.lon=deadLon
    · -- a step from the marker would have to end at its longitude
      have hpos : (due it).current.pos=(deadLon,it.current.lat) := Prod.ext hdead rfl
      rw [hpos] at hflow hon
      refine absurd ⟨v,hflow,hspeed,hon,?_⟩ (hcalm hdead hyoung)
      rw [←hpos]
      exact hlive
    · exact .step he hflow (hdue.live _ hdue.written hdead)
  · rw [heq]
    have hnext := next_lt setup (due it).cursor
    constructor
    · unfold recycled Particle.current
      dsimp only
      rw [Function.update_apply]
      split <;> rfl
    · intro k hk hlive
      by_cases hnode : k < maxParticleHistory
      · exact absurd (recycled_dead setup e calls (due it) vkn hnode) hlive
      · have hold : (recycled setup e calls (due it) vkn).history k=(due it).history k := by
          unfold recycled
          dsimp only
          rw [Function.update_of_ne (by omega),if_neg hnode]
        rw [hold] at hk hlive ⊢
        exact hdue.live k hk hlive

/-- The nodes of a spawned particle are reached from its first position. -/
theorem traced_newParticle {e : Surroundings α} (he : e∈frames) {p : α×α} (hp : p∈origins)
    (npi run duration : ℕ) (vkn : α) :
    Traced setup frames origins (newParticle setup e npi run duration p vkn) := by
  have hfirst : Traced setup frames origins (firstNode setup e npi run duration p vkn) := by
    constructor
    · rfl
    · intro k hk _
      by_cases hzero : k=0
      · subst hzero
        exact .origin hp
      · unfold firstNode at hk
        dsimp only at hk
        rw [Function.update_of_ne hzero] at hk
        cases hk
  have hfill (nodes : List ℕ) :
      Traced setup frames origins (nodes.foldl (prefillStep setup e vkn)
          (firstNode setup e npi run duration p vkn,p)).1 ∧
        Travelled setup frames origins (nodes.foldl (prefillStep setup e vkn)
          (firstNode setup e npi run duration p vkn,p)).2 := by
    induction nodes using List.reverseRecOn with
    | nil => exact ⟨hfirst,.origin hp⟩
    | append_singleton nodes k ih =>
      rw [List.foldl_append]
      obtain ⟨htraced,hreached⟩ := ih
      have hnext : Travelled setup frames origins (prefillStep setup e vkn
          (nodes.foldl (prefillStep setup e vkn) (firstNode setup e npi run duration p vkn,p)) k).2 := by
        unfold prefillStep
        dsimp only
        split
        next v hflow => exact .step he hflow hreached
        next => exact hreached
      exact ⟨htraced.write rfl rfl fun _ => hnext,hnext⟩
  exact (hfill (prefilled setup)).1

/-- A life whose steps are all calm keeps its nodes traced, by induction over the steps. -/
theorem Traced.life (h : Traced setup frames origins it) {events : List (LifeEvent α)}
    (hframes : ∀ e∈updateFrames events,e∈frames)
    (hcalm : Along (lifeStep setup) (MarkerCalm setup) it events) :
    Traced setup frames origins (run (lifeStep setup) it events) := by
  induction events generalizing it with
  | nil => exact h
  | cons event events ih =>
    obtain ⟨hhead,htail⟩ := hcalm
    cases event with
    | wait =>
      exact ih (h.congr rfl (fun _ => rfl) fun _ => rfl) hframes htail
    | update e calls =>
      obtain ⟨he,hrest⟩ := List.forall_mem_cons.mp hframes
      exact ih (h.advance he calls hhead) hrest htail
    | view e =>
      refine ih (h.congr rfl (fun k => ?_) fun k => ?_) hframes htail
      · change ((reproject setup e it).history k).pos=_
        unfold reproject
        dsimp only
        split <;> rfl
      · change ((reproject setup e it).history k).stamp=_
        unfold reproject
        dsimp only
        split <;> rfl

/-- In every life a dead node is followed by dead nodes, up to recycling,
exactly when no update starts from the marker where there is a current. The
longitudes of live nodes are then those of the spawn or of respawns, moved step
by step. -/
theorem marker_iff (setup : Setup α) (e : Surroundings α) (npi first duration : ℕ) (p : α×α) (vkn : α)
    (events : List (LifeEvent α)) :
    (Along (lifeStep setup) (MarkerKept setup) (newParticle setup e npi first duration p vkn) events ↔
      Along (lifeStep setup) (MarkerCalm setup) (newParticle setup e npi first duration p vkn) events) ∧
    (Along (lifeStep setup) (MarkerCalm setup) (newParticle setup e npi first duration p vkn) events →
      ∀ k,let node :=
          (run (lifeStep setup) (newParticle setup e npi first duration p vkn) events).history k
        node.stamp.isSome=true → node.lon≠deadLon →
          Travelled setup (e::updateFrames events) (p::respawns setup events) node.pos) := by
  constructor
  · have hsame : MarkerKept setup=MarkerCalm setup :=
      funext fun it => funext fun event => propext (markerKept_iff setup it event)
    rw [hsame]
  · intro hcalm
    have hstart : Traced setup (e::updateFrames events) (p::respawns setup events)
        (newParticle setup e npi first duration p vkn) :=
      traced_newParticle List.mem_cons_self List.mem_cons_self npi first duration vkn
    exact (hstart.life (fun e he => List.mem_cons_of_mem _ he) hcalm).live

end Provenance

section Regional

variable {α : Type} [Field α] [LinearOrder α] [IsStrictOrderedRing α]

/-- A map that does not cover the globe, with longitudes beyond the reach of
the marker. -/
structure Regional (m : DataMessage α) : Prop where
  /-- Less than a turn. -/
  covers : coversGlobe m=false
  /-- The first column is east of the marker, one turn to the right. -/
  first : deadLon+fullTurn < m.firstGridPointLong
  /-- So is the last one. -/
  last : deadLon+fullTurn < m.lastGridPointLong

/-- Longitudes to the west of both ends are off such a map. -/
theorem Regional.isXInMap_west {m : DataMessage α} (h : Regional m) {x : α}
    (hx : x≤deadLon+fullTurn) : isXInMap m x=false := by
  have hfirst := hx.trans_lt h.first
  have hlast := hx.trans_lt h.last
  have hturn := fullTurn_pos (α := α)
  have hcovers : ¬coversGlobe m=true := by simp [h.covers]
  unfold isXInMap
  rw [if_neg hcovers]
  dsimp only
  have hwrapped : x < if halfTurn < m.firstGridPointLong ∧ m.lastGridPointLong<halfTurn then
      m.lastGridPointLong+fullTurn else m.lastGridPointLong := by
    split <;> linarith
  split
  · exact decide_eq_false fun hmem => not_le.mpr hfirst hmem.1
  · exact decide_eq_false fun hmem => not_le.mpr hwrapped hmem.1

variable [FloorRing α]

/-- There is no current at the marker. -/
theorem Regional.flowAt_marker {e : Surroundings α} (h : Regional e.gui.myMessage) (lat : α) :
    flowAt e (deadLon,lat)=none := by
  have hturn := fullTurn_pos (α := α)
  have hpoint {x : α} (hx : x≤deadLon+fullTurn) : isPointInMap e.gui.myMessage x lat=false := by
    rw [isPointInMap,h.isXInMap_west hx,Bool.false_and]
  have hreach : reachX e.gui.myMessage deadLon lat=none := by
    rw [reachX,hpoint (by linarith),hpoint le_rfl,hpoint (by linarith)]
    rfl
  have hvalue (grid : Grid α) : getInterpolatedValue e.gui.myMessage grid deadLon lat true=notDef := by
    rw [getInterpolatedValue,hreach]
  unfold flowAt
  dsimp only
  rw [hvalue,if_neg (fun hdef => hdef.1 rfl)]

/-- On regional maps every life is calm, since the marker lies in no such map. -/
theorem calm_regional (setup : Setup α) {events : List (LifeEvent α)}
    (h : ∀ e∈updateFrames events,Regional e.gui.myMessage) (it : Particle α) :
    Along (lifeStep setup) (MarkerCalm setup) it events := by
  induction events generalizing it with
  | nil => trivial
  | cons event events ih =>
    cases event with
    | wait => exact ⟨trivial,ih h _⟩
    | view e => exact ⟨trivial,ih h _⟩
    | update e calls =>
      obtain ⟨he,hrest⟩ := List.forall_mem_cons.mp h
      refine ⟨?_,ih hrest _⟩
      rintro - - ⟨v,hflow,-⟩
      cases (he.flowAt_marker it.current.lat).symm.trans hflow

end Regional

section Globe

open Bearings

/-- Circles of latitude have full length on the equator. -/
theorem cos_equator : Real.cos (radians 0)=1 := by simp [radians]

/-- The marker of dead nodes as a real number. -/
theorem deadLon_real : (deadLon : ℝ)= -10000 := by norm_num [deadLon]

/-- Seen from 170 degrees east, a particle at the meridian of Greenwich leaves
the view. -/
theorem leaves_globe {it : Particle ℝ} {lon : ℝ} (hpos : it.current.pos=(lon,0)) (hlow : 0≤lon)
    (hhigh : lon≤8) (hyoung : it.duration<42) :
    movement slowSetup (globe 170) it=some ((lon+eastStep slowCurrent,0),slowCurrent) ∧
      OffScreen (globe 170).viewPort ((globe 170).pixLL 0 (lon+eastStep slowCurrent)) := by
  have hstep := eastStep_lt slowCurrent_le_one
  have hstep' := eastStep_pos slowCurrent_pos
  have hpi := Real.pi_pos
  refine ⟨movement_globe 170 hpos (by linarith) hyoung,offScreen_globe ?_⟩
  rw [cos_equator,one_mul,←Real.cos_neg]
  refine Real.cos_neg_of_pi_div_two_lt_of_lt ?_ ?_
  · rw [radians_eq]
    nlinarith
  · rw [radians_eq]
    nlinarith

/-- It then stays at the marker, at node zero. -/
theorem recycled_globe {it : Particle ℝ} (hcursor : it.cursor=⟨7,8⟩) :
    (recycled slowSetup (globe 170) 0 it slowCurrent).current.pos=(deadLon,0) := by
  have hnext : (it.cursor.advance (historySize slowSetup)).pos=0 := by
    rw [hcursor,historySize_slow]
    rfl
  unfold recycled Particle.current ParticleNode.pos
  dsimp only
  rw [hnext,Function.update_self]
  rfl

/-- From the marker, which is the meridian of 80 degrees east, it moves on in
the view. -/
theorem revives_globe {it : Particle ℝ} (hpos : it.current.pos=(deadLon,0))
    (hyoung : it.duration<42) :
    movement slowSetup (globe 170) it=some ((deadLon+eastStep slowCurrent,0),slowCurrent) ∧
      ¬OffScreen (globe 170).viewPort ((globe 170).pixLL 0 (deadLon+eastStep slowCurrent)) := by
  have hstep := eastStep_lt slowCurrent_le_one
  have hstep' := eastStep_pos slowCurrent_pos
  have hpi := Real.pi_pos
  refine ⟨movement_globe 170 hpos (by rw [deadLon_real]; norm_num) hyoung,onScreen_globe ?_⟩
  have hturns : deadLon+eastStep slowCurrent-170=eastStep slowCurrent-90+((-28 : ℤ) : ℝ)*360 := by
    rw [deadLon_real]
    push_cast
    ring
  rw [cos_equator,one_mul,hturns,radians_add_turns,Real.cos_add_int_mul_two_pi]
  refine Real.cos_nonneg_of_mem_Icc ⟨?_,?_⟩
  · rw [radians_eq]
    nlinarith
  · rw [radians_eq]
    nlinarith

/-- A number of waiting updates changes one counter and nothing else. -/
theorem run_waits {α : Type} [Field α] [LinearOrder α] [FloorRing α] (setup : Setup α)
    (it : Particle α) (n : ℕ) :
    run (lifeStep setup) it (List.replicate n .wait)={it with run := it.run+n} := by
  induction n generalizing it with
  | zero => simp
  | succ n ih =>
    rw [List.replicate_succ,run_cons,ih]
    simp only [lifeStep,Nat.cast_succ,add_comm (n : ℤ) 1,add_assoc]

/-- The next step of the sample particle leads out of a view on the other side of the globe.
-/
theorem leaves_dueParticle :
    movement slowSetup (globe 170) (dueParticle 0)=
        some ((0+7*eastStep slowCurrent+eastStep slowCurrent,0),slowCurrent) ∧
      OffScreen (globe 170).viewPort
        ((globe 170).pixLL 0 (0+7*eastStep slowCurrent+eastStep slowCurrent)) := by
  have hstep := eastStep_lt slowCurrent_le_one
  have hstep' := eastStep_pos slowCurrent_pos
  have hpos : (dueParticle 0).current.pos=(0+7*eastStep slowCurrent,0) := globeParticle_pos (by norm_num)
  have hyoung : (dueParticle 0).duration<42 := by
    change (1 : ℤ)<42
    decide
  exact leaves_globe hpos (by linarith) (by linarith) hyoung

/-- The particle of the first view, updated while it is seen from 170 degrees east. -/
theorem reappears_iff_globe :
    (movement slowSetup (globe 170) (dueParticle 0)=
        some ((0+7*eastStep slowCurrent+eastStep slowCurrent,0),slowCurrent) ∧
      OffScreen (globe 170).viewPort
        ((globe 170).pixLL 0 (0+7*eastStep slowCurrent+eastStep slowCurrent))) ∧
    (Reappears slowSetup (globe 170) 0 (advance slowSetup (globe 170) 0 (dueParticle 0)).1 ↔
      (pixelPosition slowSetup.libm (globe 170) (randomPixel (globe 170) 0)).1=deadLon ∧
        (((dueParticle 0).cursor.advance (historySize slowSetup)).pos=0 ∨
          ((dueParticle 0).history 0).lat=
              (pixelPosition slowSetup.libm (globe 170) (randomPixel (globe 170) 0)).2 ∧
            ((dueParticle 0).history 0).screen=
              storedPixel slowSetup.libm (randomPixel (globe 170) 0))) :=
  ⟨leaves_dueParticle,reappears_iff slowSetup (globe 170) 0 leaves_dueParticle.1 leaves_dueParticle.2⟩

/-- It is respawned at 170 degrees east, and does not reappear there. -/
theorem not_reappears_globe :
    (movement slowSetup (globe 170) (dueParticle 0)=
        some ((0+7*eastStep slowCurrent+eastStep slowCurrent,0),slowCurrent) ∧
      OffScreen (globe 170).viewPort
        ((globe 170).pixLL 0 (0+7*eastStep slowCurrent+eastStep slowCurrent))) ∧
    ¬Reappears slowSetup (globe 170) 0 (advance slowSetup (globe 170) 0 (dueParticle 0)).1 := by
  refine ⟨leaves_dueParticle,fun h => ?_⟩
  have hrespawn : (pixelPosition slowSetup.libm (globe 170) (randomPixel (globe 170) 0)).1=170 := rfl
  have hlon := h.lon
  rw [advance_recycled leaves_dueParticle.1 leaves_dueParticle.2,hrespawn] at hlon
  have hdead : (recycled slowSetup (globe 170) 0 (dueParticle 0) slowCurrent).current.lon=deadLon :=
    recycled_dead _ _ _ _ _ (by decide : 0 < maxParticleHistory)
  linarith [hdead.symm.trans hlon,deadLon_real]

/-- Updates of the particle of the first view, seen from 170 degrees east: the
first one recycles it, the second one moves it on from the marker. -/
theorem not_markerKept_globe :
    ¬Along (lifeStep slowSetup) (MarkerKept slowSetup) (globeParticle 0)
      (List.replicate 5 .wait++[.update (globe 170) 0]++List.replicate 5 .wait++
        [.update (globe 170) 0]) := by
  intro hkept
  have hcursor : (globeParticle 0).cursor=⟨7,8⟩ := by
    rw [globeParticle,(newParticle_trail slowSetup (globe 0) 0 0 0 (0,0) slowCurrent).2.1,
      historySize_slow]
  have hduration : (globeParticle 0).duration=0 :=
    (newParticle_counters slowSetup (globe 0) 0 0 0 (0,0) slowCurrent).2
  have hdue : due ({globeParticle 0 with run := (globeParticle 0).run+(5 : ℕ)} : Particle ℝ)=
      dueParticle 0 := by
    rw [due,dueParticle,hduration,zero_add]
  have hrecycled : run (lifeStep slowSetup) (globeParticle 0)
      (List.replicate 5 .wait++[.update (globe 170) 0])=
        recycled slowSetup (globe 170) 0 (dueParticle 0) slowCurrent := by
    rw [run_append,run_waits,run_cons,run_nil,lifeStep,hdue,
      advance_recycled leaves_dueParticle.1 leaves_dueParticle.2]
  rw [along_append] at hkept
  have hlast := hkept.2.1
  rw [run_append,hrecycled,run_waits] at hlast
  have hpos : (due (recycled slowSetup (globe 170) 0 (dueParticle 0) slowCurrent)).current.pos=
      (deadLon,0) := recycled_globe hcursor
  have hyoung : (due (recycled slowSetup (globe 170) 0 (dueParticle 0) slowCurrent)).duration<42 := by
    change (1 : ℤ)+1<42
    decide
  obtain ⟨hmove,hon⟩ := revives_globe hpos hyoung
  rcases hlast (congrArg Prod.fst hpos) with hdead | ⟨p,vkn,hsome,hoff⟩
  · change (advance slowSetup (globe 170) 0 (due (recycled slowSetup (globe 170) 0 (dueParticle 0)
      slowCurrent))).1.current.lon=deadLon at hdead
    rw [advance_moved hmove hon] at hdead
    have hcurrent := congrArg Prod.fst (moved_current slowSetup (globe 170)
      (due (recycled slowSetup (globe 170) 0 (dueParticle 0) slowCurrent))
      (deadLon+eastStep slowCurrent,0) slowCurrent)
    have hstep' := eastStep_pos slowCurrent_pos
    have hsame : (deadLon : ℝ)+eastStep slowCurrent=deadLon := hcurrent.symm.trans hdead
    linarith
  · obtain ⟨rfl,rfl⟩ := Prod.mk.inj (Option.some.inj (hmove.symm.trans hsome))
    exact hon hoff

end Globe

end NcdfPlugin.NcdfRespawn
