import NcdfPlugin.NcdfPopulation

/-!
# The particles of the render caches and their nodes

The model of the render caches keeps the particles only as far as they matter
to the coherence of the caches: their counters, a trail, and the load that they
were spawned after. The model of the particles keeps their nodes. Both are of
one vector. Here the trail is the particle itself, with a number that no other
entry of the vector carries; every frame of the particles is then a frame of
the caches, for the right changes of trails and the right attempts to spawn,
and so is every run.
-/

namespace NcdfPlugin.NcdfParticlePool

open ExactArithmetic NcdfLibrary NcdfMessage NcdfReader NcdfInterpolation NcdfOverlay NcdfColorTable
open NcdfParticle NcdfPopulation GuardedRun SwapRemove
open NcdfRenderCache (runCount maxDuration totalParticles ParticleWorld Renderer RenderEvent
  updateParticles_waits updateParticles_expires_last updateParticles_expires updateParticles_moves)
open NcdfGridAccess (IsInt32)

section Records

variable {α : Type}

/-- A particle of the render caches whose trail is a particle with its nodes,
and a number that tells it from the others. -/
abbrev Entry (α : Type) := NcdfRenderCache.Particle (ℕ×Particle α)

/-- The number of an entry. -/
def ident (q : Entry α) : ℕ := q.trail.1

/-- The particle that an entry stands for. The counters are those of the
entry; the copies in its trail are not used. -/
def record (q : Entry α) : Particle α := {q.trail.2 with run := q.run,duration := q.duration}

/-- An entry whose trail has the counters of the entry stands for its trail. -/
theorem record_eq {q : Entry α} (hrun : q.trail.2.run=q.run)
    (hduration : q.trail.2.duration=q.duration) : record q=q.trail.2 := by
  rw [record,←hrun,←hduration]

variable {π : Type}

/-- Only what a move does to the trails of the pool matters to an update of it. -/
theorem updateParticles_congr {move move' : π → π} {l : List (NcdfRenderCache.Particle π)}
    (h : ∀ q∈l,move q.trail=move' q.trail) :
    NcdfRenderCache.updateParticles move l=NcdfRenderCache.updateParticles move' l := by
  induction l using NcdfRenderCache.updateParticles.induct with
  | case1 => rw [NcdfRenderCache.updateParticles,NcdfRenderCache.updateParticles]
  | case2 it rest hrun ih =>
    obtain ⟨-,hrest⟩ := List.forall_mem_cons.mp h
    rw [updateParticles_waits hrun,updateParticles_waits hrun,ih hrest]
  | case3 it hrun hold =>
    rw [updateParticles_expires_last hrun hold,updateParticles_expires_last hrun hold]
  | case4 it rest hrun hold hne ih =>
    obtain ⟨-,hrest⟩ := List.forall_mem_cons.mp h
    rw [updateParticles_expires hrun hold hne,updateParticles_expires hrun hold hne]
    exact ih fun q hq => hrest q ((getLast_perm hne).mem_iff.mp hq)
  | case5 it rest hrun hold ih =>
    obtain ⟨hit,hrest⟩ := List.forall_mem_cons.mp h
    rw [updateParticles_moves hrun hold,updateParticles_moves hrun hold,hit,ih hrest]

/-- An update removes particles and puts others in their places, but what moves
keep of a trail is kept in every particle that is left. -/
theorem updateParticles_subperm {κ : Type} (key : π → κ) {move : π → π}
    (hmove : ∀ t,key (move t)=key t) (l : List (NcdfRenderCache.Particle π)) :
    ((NcdfRenderCache.updateParticles move l).map fun q => key q.trail).Subperm
      (l.map fun q => key q.trail) := by
  induction l using NcdfRenderCache.updateParticles.induct with
  | case1 => rw [NcdfRenderCache.updateParticles]
  | case2 it rest hrun ih =>
    rw [updateParticles_waits hrun]
    exact (List.subperm_cons _).mpr ih
  | case3 it hrun hold =>
    rw [updateParticles_expires_last hrun hold]
    exact List.nil_subperm
  | case4 it rest hrun hold hne ih =>
    rw [updateParticles_expires hrun hold hne]
    have hsame := ((getLast_perm hne).map fun q => key q.trail).subperm
    exact (ih.trans hsame).trans (List.sublist_cons_self _ _).subperm
  | case5 it rest hrun hold ih =>
    rw [updateParticles_moves hrun hold,List.map_cons,List.map_cons]
    dsimp only
    rw [hmove]
    exact (List.subperm_cons _).mpr ih

end Records

section Updates

variable {α : Type} [Field α] [LinearOrder α] [FloorRing α]

/-- Executed updates do not age a particle beyond the count of the loop. -/
theorem advance_duration (setup : Setup α) (e : Surroundings α) (calls : ℕ) (it : Particle α) :
    (advance setup e calls it).1.duration=it.duration := by
  rcases advance_cases setup e calls it with ⟨-,h⟩ | ⟨p,vkn,-,⟨-,h⟩ | ⟨-,h⟩⟩ <;> rw [h] <;> rfl

/-- The particle of an entry after an executed update, with the calls of `rand`. -/
def advanced (setup : Setup α) (e : Surroundings α) (calls : ℕ) (q : Entry α) : Particle α×ℕ :=
  advance setup e calls {record q with run := 0,duration := q.duration+1}

/-- The entry that stands for it. -/
def advancedEntry (setup : Setup α) (e : Surroundings α) (calls : ℕ) (q : Entry α) : Entry α :=
  {q with run := 0,duration := q.duration+1,trail := (q.trail.1,(advanced setup e calls q).1)}

/-- The entry after an executed update stands for the updated particle, since an update
leaves the counters to the loop. -/
theorem record_advancedEntry (setup : Setup α) (e : Surroundings α) (calls : ℕ) (q : Entry α) :
    record (advancedEntry setup e calls q)=(advanced setup e calls q).1 := by
  refine record_eq ?_ ?_
  · exact advance_run setup e calls _
  · exact (advance_duration setup e calls _).trans (Nat.cast_succ q.duration).symm

/-- One turn of the update loop, on a particle that an entry stands for. -/
theorem updateParticle_record (setup : Setup α) (e : Surroundings α) (calls : ℕ) (q : Entry α) :
    updateParticle setup e calls (record q)=
      if q.run+1 < runCount then (some (record {q with run := q.run+1}),calls)
      else if maxDuration < q.duration then (none,calls)
      else (some (record (advancedEntry setup e calls q)),(advanced setup e calls q).2) := by
  have hwaits : (record q).run+1 < (runCount : ℤ) ↔ q.run+1 < runCount := by
    change (q.run : ℤ)+1 < (runCount : ℤ) ↔ _
    exact_mod_cast Iff.rfl
  have hold : (maxDuration : ℤ) < (record q).duration ↔ maxDuration < q.duration := Nat.cast_lt
  simp only [updateParticle,hwaits,hold,record_advancedEntry]
  rfl

/-- The update loop is an update of the entries. Which numbers a recycled
particle draws depends on those before it, so the move of a trail is read off
the loop; it can be, since no two trails of the pool are the same. -/
theorem sweep_record (setup : Setup α) (e : Surroundings α) (l : List (Entry α)) (calls : ℕ)
    (hdistinct : (l.map ident).Nodup) :
    ∃ move : ℕ×Particle α → ℕ×Particle α,(∀ t,(move t).1=t.1) ∧
      (sweep (updateParticle setup e) calls (l.map record)).1=
        (NcdfRenderCache.updateParticles move l).map record := by
  induction l using NcdfRenderCache.updateParticles.induct generalizing calls with
  | case1 => exact ⟨id,fun _ => rfl,by simp [sweep,NcdfRenderCache.updateParticles]⟩
  | case2 it rest hrun ih =>
    obtain ⟨move,hmove,hrest⟩ := ih calls (List.nodup_cons.mp hdistinct).2
    have hvisit := updateParticle_record setup e calls it
    rw [if_pos hrun] at hvisit
    refine ⟨move,hmove,?_⟩
    rw [List.map_cons,sweep_keeps hvisit,hrest,updateParticles_waits hrun,List.map_cons]
  | case3 it hrun hold =>
    have hvisit := updateParticle_record setup e calls it
    rw [if_neg hrun,if_pos hold] at hvisit
    refine ⟨id,fun _ => rfl,?_⟩
    rw [List.map_singleton,sweep_removes_last hvisit,updateParticles_expires_last hrun hold,
      List.map_nil]
  | case4 it rest hrun hold hne ih =>
    have hvisit := updateParticle_record setup e calls it
    rw [if_neg hrun,if_pos hold] at hvisit
    have hsame : ((rest.getLast hne::rest.dropLast).map ident).Nodup :=
      ((getLast_perm hne).map ident).nodup_iff.mpr (List.nodup_cons.mp hdistinct).2
    obtain ⟨move,hmove,hrest⟩ := ih calls hsame
    have hne' : rest.map record≠[] := by simpa using hne
    refine ⟨move,hmove,?_⟩
    rw [List.map_cons,sweep_removes hvisit hne',updateParticles_expires hrun hold hne,←hrest,
      List.map_cons,List.getLast_map,List.map_dropLast]
  | case5 it rest hrun hold ih =>
    obtain ⟨hfresh,hdistinct⟩ := List.nodup_cons.mp hdistinct
    have hvisit := updateParticle_record setup e calls it
    rw [if_neg hrun,if_neg hold] at hvisit
    obtain ⟨move,hmove,hrest⟩ := ih (advanced setup e calls it).2 hdistinct
    -- the head is moved as the loop moves it, all others as before
    let move' (t : ℕ×Particle α) : ℕ×Particle α :=
      if t.1=ident it then (t.1,(advanced setup e calls it).1) else move t
    have hothers : ∀ q∈rest,move' q.trail=move q.trail := by
      intro q hq
      refine if_neg fun hsame => hfresh ?_
      rw [←hsame]
      exact List.mem_map_of_mem hq
    have hhead : move' it.trail=(it.trail.1,(advanced setup e calls it).1) := if_pos rfl
    refine ⟨move',fun t => ?_,?_⟩
    · unfold move'
      split
      · rfl
      · exact hmove t
    · rw [List.map_cons,sweep_keeps hvisit,hrest,updateParticles_moves hrun hold,hhead,
        updateParticles_congr hothers,List.map_cons]
      rfl

end Updates

section Spawning

variable {α : Type} [Field α] [LinearOrder α] [FloorRing α]

/-- What an attempt to spawn gives in a state of the spawning loop, if it finds
a position. -/
def attempt (setup : Setup α) (e : Surroundings α) (s : SpawnState α) (npi : ℕ) :
    Option (ℕ×Particle α) :=
  match findSpot setup e 30 s.calls with
  | (none,_) => none
  | (some (p,vkn),calls) =>
    if vkn<decimal 3 10 then none
    else
      let duration := e.rand calls%(maxDuration/2)
      some (duration,newParticle setup e npi s.run duration p vkn)

/-- One turn of the spawning loop by what its attempt gives: nothing is added, or a particle
with the counters of the turn. -/
theorem spawnStep_attempt (setup : Setup α) (e : Surroundings α) (s : SpawnState α) (npi : ℕ) :
    (attempt setup e s npi=none ∧ (spawnStep setup e s npi).particles=s.particles ∧
        (spawnStep setup e s npi).run=s.run) ∨
      ∃ duration np,attempt setup e s npi=some (duration,np) ∧ np.run=s.run ∧ np.duration=duration ∧
        (spawnStep setup e s npi).particles=s.particles++[np] ∧
        (spawnStep setup e s npi).run=if s.run+1=runCount then 0 else s.run+1 := by
  unfold attempt spawnStep
  match findSpot setup e 30 s.calls with
  | (none,calls) => exact Or.inl ⟨rfl,rfl,rfl⟩
  | (some (p,vkn),calls) =>
    by_cases hslow : vkn<decimal 3 10
    · exact Or.inl (by simp [hslow])
    · obtain ⟨hrun,hduration⟩ := newParticle_counters setup e npi s.run
        (e.rand calls%(maxDuration/2)) p vkn
      refine Or.inr ⟨_,_,if_neg hslow,hrun,hduration,?_,?_⟩
      · simp only [if_neg hslow]
      · simp only [if_neg hslow]

/-- The attempts of a frame, numbered on from the entries that there are. -/
def attempts (setup : Setup α) (e : Surroundings α) (s : SpawnState α) (fresh npi : ℕ) :
    Option (ℕ×(ℕ×Particle α)) :=
  (attempt setup e ((List.range npi).foldl (spawnStep setup e) s) npi).map
    fun found => (found.1,(fresh+npi,found.2))

/-- Entries after some turns of the spawning loop: they stand for the particles
after as many turns, with the same counter of waiting updates, and their
numbers stay apart. The induction is on the number of turns. -/
theorem spawn_record (setup : Setup α) (e : Surroundings α) {w : ParticleWorld (ℕ×Particle α)}
    {kept : List (Entry α)} {fresh : ℕ} (born calls : ℕ)
    (hspawn : w.spawn=attempts setup e ⟨kept.map record,0,calls⟩ fresh)
    (hdistinct : (kept.map ident).Nodup) (hfresh : ∀ q∈kept,ident q<fresh) (n : ℕ) :
    let entries := (List.range n).foldl (NcdfRenderCache.spawnOne w born) (kept,0)
    let s := (List.range n).foldl (spawnStep setup e) ⟨kept.map record,0,calls⟩
    entries.1.map record=s.particles ∧ entries.2=s.run ∧ (entries.1.map ident).Nodup ∧
      ∀ q∈entries.1,ident q<fresh+n := by
  dsimp only
  induction n with
  | zero => exact ⟨rfl,rfl,hdistinct,hfresh⟩
  | succ n ih =>
    obtain ⟨hrecord,hwaits,hapart,hbelow⟩ := ih
    rw [List.range_succ,List.foldl_append,List.foldl_append,List.foldl_cons,List.foldl_cons,
      List.foldl_nil,List.foldl_nil]
    rcases spawnStep_attempt setup e
      ((List.range n).foldl (spawnStep setup e) ⟨kept.map record,0,calls⟩) n with
      ⟨hnone,hparticles,hrun⟩ | ⟨duration,np,hsome,hnprun,hnpduration,hparticles,hrun⟩
    · have hmiss : w.spawn n=none := by rw [hspawn,attempts,hnone,Option.map_none]
      have hsame : NcdfRenderCache.spawnOne w born
          ((List.range n).foldl (NcdfRenderCache.spawnOne w born) (kept,0)) n=
          (List.range n).foldl (NcdfRenderCache.spawnOne w born) (kept,0) := by
        rw [NcdfRenderCache.spawnOne,hmiss]
      rw [hsame,hparticles,hrun]
      exact ⟨hrecord,hwaits,hapart,fun q hq => (hbelow q hq).trans (Nat.lt_succ_self _)⟩
    · have hfound : w.spawn n=some (duration,(fresh+n,np)) := by
        rw [hspawn,attempts,hsome,Option.map_some]
      have hnew : NcdfRenderCache.spawnOne w born
          ((List.range n).foldl (NcdfRenderCache.spawnOne w born) (kept,0)) n=
          (((List.range n).foldl (NcdfRenderCache.spawnOne w born) (kept,0)).1++
            [⟨duration,((List.range n).foldl (NcdfRenderCache.spawnOne w born) (kept,0)).2,
              (fresh+n,np),born⟩],
            if ((List.range n).foldl (NcdfRenderCache.spawnOne w born) (kept,0)).2+1=runCount then 0
            else ((List.range n).foldl (NcdfRenderCache.spawnOne w born) (kept,0)).2+1) := by
        rw [NcdfRenderCache.spawnOne,hfound]
      rw [hnew,hparticles,hrun,hwaits]
      refine ⟨?_,rfl,?_,?_⟩
      · rw [List.map_append,hrecord,List.map_singleton,record_eq hnprun hnpduration]
      · rw [List.map_append,List.map_singleton]
        refine List.Nodup.append hapart (List.nodup_singleton _) ?_
        rw [List.disjoint_singleton]
        intro hmem
        obtain ⟨q,hq,hsame⟩ := List.mem_map.mp hmem
        exact absurd hsame (hbelow q hq).ne
      · intro q hq
        rcases List.mem_append.mp hq with hold | hlast
        · exact (hbelow q hold).trans (Nat.lt_succ_self _)
        · obtain rfl := List.mem_singleton.mp hlast
          exact Nat.lt_succ_self _

/-- The calls of `pop_back` take from the end. -/
theorem popBacks_take {τ : Type} (n : ℕ) (l : List τ) : (popBacks n l).1=l.take (l.length-n) := by
  induction n generalizing l with
  | zero => simp [popBacks]
  | succ n ih =>
    cases l with
    | nil =>
      rw [popBacks_nil,List.take_nil]
    | cons x l =>
      rw [popBacks,ih,List.length_dropLast,List.dropLast_eq_take,List.take_take]
      congr 1
      simp only [List.length_cons]
      omega

end Spawning

section Frames

variable {α : Type} [Field α] [LinearOrder α]

/-- Renderer and pool of particles are of the same vector: the entries stand
for the particles in order, no two have one number, and both wait for the same
updates. -/
structure Shows (r : Renderer α (ℕ×Particle α)) (s : ParticleState α) : Prop where
  /-- The entries. -/
  particles : r.particleMap.map (List.map record)=s.particleMap.map ParticleMap.particles
  /-- Their numbers. -/
  distinct : ((r.particleMap.getD []).map ident).Nodup
  /-- `m_bUpdateParticles`. -/
  pending : r.updateParticles=s.bUpdateParticles
  /-- `m_particleBurstCount`. -/
  burst : r.particleBurstCount=s.particleBurstCount

omit [LinearOrder α] in
/-- The entries of a renderer stand for the particles there are, also before
the first frame has made a map. -/
theorem Shows.entries {r : Renderer α (ℕ×Particle α)} {s : ParticleState α} (h : Shows r s) :
    (r.particleMap.getD []).map record=s.particles := by
  have hmaps := h.particles
  unfold ParticleState.particles
  cases hr : r.particleMap <;> cases hs : s.particleMap <;> rw [hr,hs] at hmaps
  · rfl
  · cases hmaps
  · cases hmaps
  · exact Option.some.inj hmaps

/-- The change of the trails when the view of a frame is not the cached one. -/
def viewChange (setup : Setup α) (e : Surroundings α) (pm : ParticleMap α) (t : ℕ×Particle α) :
    ℕ×Particle α :=
  let changed := (t.1,reproject setup e t.2)
  match pm.lastViewPort with
  | none => changed
  | some lvp => if SameView e.viewPort lvp then t else changed

/-- A change of the view keeps the numbers of the entries. -/
theorem viewChange_fst (setup : Setup α) (e : Surroundings α) (pm : ParticleMap α)
    (t : ℕ×Particle α) : (viewChange setup e pm t).1=t.1 := by
  unfold viewChange
  dsimp only
  split
  · rfl
  · split <;> rfl

/-- The entries after a change of the view stand for the particles after it. -/
theorem viewChange_record (setup : Setup α) (e : Surroundings α) (pm : ParticleMap α)
    {l : List (Entry α)} (hl : l.map record=pm.particles) :
    (l.map fun q => {q with trail := viewChange setup e pm q.trail}).map record=
      (refreshView setup e pm).particles := by
  rw [List.map_map]
  unfold refreshView viewChange
  cases pm.lastViewPort with
  | none =>
    dsimp only
    rw [←hl,List.map_map]
    rfl
  | some lvp =>
    dsimp only
    by_cases hsame : NcdfParticle.SameView e.viewPort lvp
    · simp only [if_pos hsame]
      exact hl
    · simp only [if_neg hsame]
      rw [←hl,List.map_map]
      rfl

/-- What a frame sees of the dialog, and that the numbers of particles it aims
at are in the range of `int`. -/
structure SeenBy (setup : Setup α) (f : Factory α) (e : Surroundings α) : Prop where
  /-- The pointer to the dialog. -/
  attached : e.attached=f.attached
  /-- Message and grids. -/
  gui : e.gui=f.gui
  /-- The product with the density. -/
  density : IsInt32
    ((setup.sliderVal*f.gui.myMessage.lonLength*f.gui.myMessage.latLength).tdiv 5)
  /-- The product of the sizes. -/
  grid : IsInt32 (f.gui.myMessage.lonLength*f.gui.myMessage.latLength)

/-- Both models of a frame are stopped by the same tests, as long as the frame sees what the
factory draws from. -/
theorem SeenBy.renders_iff {setup : Setup α} {f : Factory α} {e : Surroundings α}
    (h : SeenBy setup f e) :
    (f.attached=false ∨ f.gui.gridu.isNone=true ∨ f.gui.gridv.isNone=true ∨
      f.gui.myMessage.lonLength≤1 ∨ f.gui.myMessage.latLength≤1 ∨
      f.gui.myMessage.lastGridPointLat ≤ f.gui.myMessage.firstGridPointLat ∨
      f.gui.myMessage.lastGridPointLong ≤ f.gui.myMessage.firstGridPointLong) ↔ ¬Renders e := by
  rw [Renders,h.attached,h.gui]
  simp only [not_and_or,not_lt,Bool.not_eq_true,Option.isSome_eq_false_iff,or_assoc]

variable [FloorRing α]

/-- The update of a frame, on entries: for the moves that the loop makes and
the attempts that follow it, the entries after the update stand for the
particles after it. -/
theorem updateParticles_record (setup : Setup α) (e : Surroundings α) {l : List (Entry α)}
    (born : ℕ) (hdistinct : (l.map ident).Nodup) (hrange : l.length < indexRange)
    (hwanted : wantedParticles setup e.gui.myMessage.lonLength e.gui.myMessage.latLength=
      totalParticles setup.sliderVal e.gui.myMessage.lonLength e.gui.myMessage.latLength)
    (reproject : ℕ×Particle α → ℕ×Particle α) :
    ∃ w : ParticleWorld (ℕ×Particle α),w.reproject=reproject ∧
      let entries := NcdfRenderCache.adjustParticles w born e.gui.myMessage.lonLength
        e.gui.myMessage.latLength (NcdfRenderCache.updateParticles w.move l)
      entries.map record=(updateParticles setup e (l.map record)).1 ∧ (entries.map ident).Nodup := by
  obtain ⟨move,hmove,hsweep⟩ := sweep_record setup e l 0 hdistinct
  have hloop : updateLoop setup e (l.map record) 0=sweep (updateParticle setup e) 0 (l.map record) := by
    have hshort : (l.map record).length < indexRange := by rwa [List.length_map]
    rw [updateLoop,loop_sweep hshort (Nat.lt_succ_self _),Option.getD_some]
  -- what is left of the update and of the removal of a surplus
  let updated := NcdfRenderCache.updateParticles move l
  let total := totalParticles setup.sliderVal e.gui.myMessage.lonLength e.gui.myMessage.latLength
  let kept := updated.take (updated.length-((updated.length-total).tdiv 16).toNat)
  have hupdated : (updateLoop setup e (l.map record) 0).1=updated.map record := by rw [hloop,hsweep]
  have hkept : (removeSurplus setup e.gui.myMessage.lonLength e.gui.myMessage.latLength
      (updateLoop setup e (l.map record) 0).1).1=kept.map record := by
    rw [removeSurplus,popBacks_take,hupdated,hwanted,List.length_map,←List.map_take]
  have hapart : (kept.map ident).Nodup := by
    have hsubperm := updateParticles_subperm Prod.fst hmove l
    have hupdatedApart : (updated.map ident).Nodup := by
      obtain ⟨ids,hperm,hsublist⟩ := hsubperm
      exact hperm.nodup_iff.mp (hsublist.nodup hdistinct)
    exact ((List.take_sublist _ _).map ident).nodup hupdatedApart
  have hfresh : ∀ q∈kept,ident q < (kept.map ident).toFinset.sup id+1 := fun q hq =>
    Nat.lt_succ_of_le (Finset.le_sup (f := id) (List.mem_toFinset.mpr (List.mem_map_of_mem hq)))
  let calls := (updateLoop setup e (l.map record) 0).2
  let w : ParticleWorld (ℕ×Particle α) :=
    { sliderVal := setup.sliderVal
      reproject := reproject
      move := move
      spawn := attempts setup e ⟨kept.map record,0,calls⟩ ((kept.map ident).toFinset.sup id+1) }
  have hspawned := spawn_record setup e (w := w) born calls rfl hapart hfresh
    ((total-kept.length).tdiv 64).toNat
  refine ⟨w,rfl,?_,hspawned.2.2.1⟩
  refine hspawned.1.trans ?_
  rw [updateParticles,spawnMissing,hkept,hwanted,List.length_map]

/-- The entries of a frame: those of the frame before, in its view, updated when
an update is due. -/
theorem frameEntries_record {setup : Setup α} {e : Surroundings α} {r : Renderer α (ℕ×Particle α)}
    {s : ParticleState α} (h : Shows r s) (hseen : SeenBy setup r.factory e)
    (hrange : s.particles.length < indexRange) :
    let pm := refreshView setup e (s.particleMap.getD {})
    let due := s.bUpdateParticles || decide (0 < s.particleBurstCount)
    ∃ w : ParticleWorld (ℕ×Particle α),
      let shown := (r.particleMap.getD []).map fun q => {q with trail := w.reproject q.trail}
      let entries :=
        if due=true then
          NcdfRenderCache.adjustParticles w r.loads.length r.factory.gui.myMessage.lonLength
            r.factory.gui.myMessage.latLength (NcdfRenderCache.updateParticles w.move shown)
        else shown
      entries.map record=
          (if due=true then updateParticles setup e pm.particles else (pm.particles,0)).1 ∧
        (entries.map ident).Nodup := by
  dsimp only
  let change := viewChange setup e (s.particleMap.getD {})
  let shown := (r.particleMap.getD []).map fun q => {q with trail := change q.trail}
  have hrecord : shown.map record=(refreshView setup e (s.particleMap.getD {})).particles :=
    viewChange_record setup e _ h.entries
  have hapart : (shown.map ident).Nodup := by
    have hsame : shown.map ident=(r.particleMap.getD []).map ident := by
      rw [List.map_map]
      exact List.map_congr_left fun q _ => viewChange_fst setup e _ q.trail
    rw [hsame]
    exact h.distinct
  by_cases hdue : (s.bUpdateParticles || decide (0 < s.particleBurstCount))=true
  · have hlength : shown.length < indexRange := by
      have hcount := congrArg List.length h.entries
      rw [List.length_map] at hcount
      rwa [List.length_map,hcount]
    have hwanted : wantedParticles setup e.gui.myMessage.lonLength e.gui.myMessage.latLength=
        totalParticles setup.sliderVal e.gui.myMessage.lonLength e.gui.myMessage.latLength := by
      rw [hseen.gui]
      exact wantedParticles_eq hseen.density hseen.grid
    obtain ⟨w,hw,hupdate,hnumbers⟩ :=
      updateParticles_record setup e r.loads.length hapart hlength hwanted change
    refine ⟨w,?_⟩
    rw [if_pos hdue,if_pos hdue,hw,←hrecord,←hseen.gui]
    exact ⟨hupdate,hnumbers⟩
  · refine ⟨{reproject := change},?_⟩
    rw [if_neg hdue,if_neg hdue]
    exact ⟨hrecord,hapart⟩

/-- A frame of the particles is a frame of the caches, and without a device
context the entries it draws stand for the particles there are. -/
theorem renderParticles_shows {setup : Setup α} {e : Surroundings α}
    {r : Renderer α (ℕ×Particle α)} {s : ParticleState α} (h : Shows r s)
    (hseen : SeenBy setup r.factory e) (hrange : s.particles.length < indexRange) :
    ∃ pw,∀ w,Shows (NcdfRenderCache.renderParticles w pw r).1 (renderParticles setup e s) ∧
      (NcdfRenderCache.renderParticles w pw r).2.map record=
        if Renders e ∧ w.toDC=false then (renderParticles setup e s).particles else [] := by
  obtain ⟨pw,hrecord,hnumbers⟩ := frameEntries_record h hseen hrange
  refine ⟨pw,fun w => ?_⟩
  unfold NcdfRenderCache.renderParticles renderParticles
  dsimp only
  by_cases hrenders : Renders e
  · have hpast := not_iff_not.mpr hseen.renders_iff
    rw [if_neg (hpast.mpr (not_not.mpr hrenders)),if_pos hrenders,h.pending,h.burst]
    refine ⟨⟨congrArg some hrecord,hnumbers,rfl,rfl⟩,?_⟩
    by_cases hdc : w.toDC=true
    · simp [hdc]
    · simp only [if_neg hdc,hrecord]
      simp [hdc,hrenders,ParticleState.particles]
  · rw [if_pos (hseen.renders_iff.mpr hrenders),if_neg hrenders,if_neg (fun hboth => hrenders hboth.1)]
    exact ⟨h,rfl⟩

end Frames

section Scenes

variable {α : Type} [Field α] [LinearOrder α] [FloorRing α]

/-- What happens to the factory, with all that a frame sees. -/
inductive SceneEvent (α : Type) [Field α] where
  /-- `readncdfFile` with a message. -/
  | load (env : Env α) (m : DataMessage α)
  /-- The dialog frees its grids and resets the factory. -/
  | fileChanged
  /-- `reset` on its own. -/
  | reset
  /-- The visibility settings change. -/
  | toggle (flags : ShowFlags)
  /-- The timer of the particles fires. -/
  | timer
  /-- A frame is rendered. -/
  | frame (w : FrameWorld) (e : Surroundings α)

/-- An event as the render caches see it. -/
def SceneEvent.cached (pw : ParticleWorld (ℕ×Particle α)) : SceneEvent α → RenderEvent α (ℕ×Particle α)
  | .load env m => .load env m
  | .fileChanged => .fileChanged
  | .reset => .reset
  | .toggle flags => .toggle flags
  | .timer => .timer
  | .frame w _ => .frame w pw

/-- What an event does to textures, isolines and grids. -/
def SceneEvent.factory (f : Factory α) : SceneEvent α → Factory α
  | .load env m => overlayStep f (.load env m)
  | .fileChanged => overlayStep f .fileChanged
  | .reset => overlayStep f .closed
  | .toggle flags => overlayStep f (.toggle flags)
  | .timer => f
  | .frame w _ => overlayStep f (.frame w)

/-- What an event means for the particles: a load discards them, and so does a
frame that does not show them. -/
def SceneEvent.pool (f : Factory α) : SceneEvent α → List (ParticleEvent α)
  | .load _ m => if hasAnyData m=true then [.load] else []
  | .timer => [.timer]
  | .frame _ e =>
    if renders f=false then [] else if f.flags.showParticles=true then [.frame e] else [.clear]
  | .fileChanged | .reset | .toggle _ => []

/-- Factory and particles after an event. -/
def sceneStep (setup : Setup α) (state : Factory α×ParticleState α) (event : SceneEvent α) :
    Factory α×ParticleState α :=
  (event.factory state.1,run (particleStep setup) state.2 (event.pool state.1))

/-- Frames see what the factory draws from. -/
def Sees (setup : Setup α) (state : Factory α×ParticleState α) : SceneEvent α → Prop
  | .frame _ e => SeenBy setup state.1 e
  | _ => True

/-- Textures, isolines and grids change in the model with particles as they do in the one
without. -/
theorem factory_renderStep (r : Renderer α (ℕ×Particle α)) (pw : ParticleWorld (ℕ×Particle α))
    (event : SceneEvent α) :
    (NcdfRenderCache.renderStep r (event.cached pw)).factory=event.factory r.factory := by
  cases event with
  | load env m =>
    by_cases hdata : hasAnyData m=true
    · simp only [NcdfRenderCache.renderStep,NcdfRenderCache.renderEvent,SceneEvent.cached,
        NcdfRenderCache.loadData,if_pos hdata,SceneEvent.factory]
    · simp only [NcdfRenderCache.renderStep,NcdfRenderCache.renderEvent,SceneEvent.cached,
        NcdfRenderCache.loadData,if_neg hdata,SceneEvent.factory,overlayStep,overlayEvent]
  | fileChanged => rfl
  | reset => rfl
  | toggle flags => rfl
  | timer => rfl
  | frame w e =>
    change (NcdfRenderCache.renderFrame w pw r).1.factory=(doRender w r.factory).1
    unfold NcdfRenderCache.renderFrame
    by_cases hrenders : renders r.factory=false
    · rw [if_pos hrenders,doRender,if_pos hrenders]
    · rw [if_neg hrenders]

/-- What a step of a scene does to the particles is a run of them. -/
theorem snd_sceneStep (setup : Setup α) (state : Factory α×ParticleState α) (event : SceneEvent α) :
    (sceneStep setup state event).2=run (particleStep setup) state.2 (event.pool state.1) := rfl

/-- The particles of a scene are those of a run of the particles alone. -/
theorem scene_pool (setup : Setup α) (events : List (SceneEvent α)) :
    (run (sceneStep setup) ({},{}) events).2=run (particleStep setup) {}
      (emitted (sceneStep setup) (fun state event => event.pool state.1) ({},{}) events) :=
  run_simulates (snd_sceneStep setup) ({},{}) events

/-- Every event of a scene is one of the caches, and leaves entries that stand
for the particles it leaves. -/
theorem sceneStep_shows {setup : Setup α} {r : Renderer α (ℕ×Particle α)} {s : ParticleState α}
    (h : Shows r s) (hrange : s.particles.length < indexRange) {event : SceneEvent α}
    (hsees : Sees setup (r.factory,s) event) :
    ∃ pw,Shows (NcdfRenderCache.renderStep r (event.cached pw))
      (sceneStep setup (r.factory,s) event).2 := by
  cases event with
  | load env m =>
    refine ⟨{},?_⟩
    change Shows (NcdfRenderCache.loadData env r m)
      (run (particleStep setup) s (if hasAnyData m=true then [.load] else []))
    unfold NcdfRenderCache.loadData
    by_cases hdata : hasAnyData m=true
    · rw [if_pos hdata,if_pos hdata]
      exact ⟨rfl,List.nodup_nil,rfl,rfl⟩
    · rw [if_neg hdata,if_neg hdata]
      exact h
  | fileChanged => exact ⟨{},h.particles,h.distinct,h.pending,h.burst⟩
  | reset => exact ⟨{},h.particles,h.distinct,h.pending,h.burst⟩
  | toggle flags => exact ⟨{},h.particles,h.distinct,h.pending,h.burst⟩
  | timer => exact ⟨{},h.particles,h.distinct,rfl,h.burst⟩
  | frame w e =>
    obtain ⟨pw,hframe⟩ := renderParticles_shows h hsees hrange
    refine ⟨pw,?_⟩
    change Shows (NcdfRenderCache.renderFrame w pw r).1 (run (particleStep setup) s
      (if renders r.factory=false then [] else
        if r.factory.flags.showParticles=true then [.frame e] else [.clear]))
    unfold NcdfRenderCache.renderFrame
    by_cases hrenders : renders r.factory=false
    · rw [if_pos hrenders,if_pos hrenders]
      exact h
    · rw [if_neg hrenders,if_neg hrenders]
      by_cases hshow : r.factory.flags.showParticles=true
      · rw [if_pos hshow,if_pos hshow]
        obtain ⟨hmaps,hnumbers,hpending,hburst⟩ := (hframe w).1
        exact ⟨hmaps,hnumbers,hpending,hburst⟩
      · rw [if_neg hshow,if_neg hshow]
        exact ⟨rfl,List.nodup_nil,h.pending,h.burst⟩

/-- Every run of a scene is a run of the caches, whose entries stand for the
particles at its end. What holds of the entries in every run of the caches,
such as that none is older than the most recent load, so holds of the particles
with their nodes. -/
theorem scene_shows {setup : Setup α} {events : List (SceneEvent α)}
    (hsees : Along (sceneStep setup) (Sees setup) ({},{}) events) :
    ∃ cached : List (RenderEvent α (ℕ×Particle α)),
      List.Forall₂ (fun event seen => ∃ pw,seen=event.cached pw) events cached ∧
        let r := run NcdfRenderCache.renderStep {} cached
        let state := run (sceneStep setup) ({},{}) events
        r.factory=state.1 ∧ Shows r state.2 := by
  induction events using List.reverseRecOn with
  | nil => exact ⟨[],List.Forall₂.nil,rfl,rfl,List.nodup_nil,rfl,rfl⟩
  | append_singleton events event ih =>
    obtain ⟨hbefore,hlast,-⟩ := (along_append _ _ _).mp hsees
    obtain ⟨cached,hcached,hfactory,hshows⟩ := ih hbefore
    have hrange : (run (sceneStep setup) ({},{}) events).2.particles.length < indexRange := by
      rw [scene_pool]
      exact (length_le_hundredThousand setup _).trans_lt (by decide)
    have hstate : run (sceneStep setup) ({},{}) events=
        ((run NcdfRenderCache.renderStep {} cached).factory,
          (run (sceneStep setup) ({},{}) events).2) := by rw [hfactory]
    rw [hstate] at hlast
    obtain ⟨pw,hnext⟩ := sceneStep_shows hshows hrange hlast
    refine ⟨cached++[event.cached pw],?_,?_,?_⟩
    · exact List.rel_append hcached (List.Forall₂.cons ⟨pw,rfl⟩ List.Forall₂.nil)
    · rw [run_append,run_append,run_cons,run_nil,run_cons,run_nil,factory_renderStep,hfactory]
      rfl
    · rw [run_append,run_append,run_cons,run_nil,run_cons,run_nil,hstate]
      exact hnext

end Scenes

end NcdfPlugin.NcdfParticlePool
