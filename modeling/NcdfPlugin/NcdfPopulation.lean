import NcdfPlugin.NcdfParticle

/-!
# Number of particles

An update visits every particle that was there at its start once, removes the
old ones among those that waited long enough, and leaves the images of the
others. Surplus is then removed in sixteenths and what misses is spawned in
parts of 64, by the same target. The target is never below zero as long as
the density is not, and a run from an empty pool then stays at or below it.
A target of minus sixteen or less takes particles from an empty pool.
-/

namespace NcdfPlugin.NcdfPopulation

open ExactArithmetic NcdfLibrary NcdfMessage NcdfInterpolation NcdfDirection NcdfParticle GuardedRun
open NcdfRenderCache (runCount maxDuration totalParticles)
open NcdfGridAccess (IsInt32 signedBound int32 int32_of_isInt32)

section Pass

variable {α : Type} [Field α] [LinearOrder α] [FloorRing α]

/-- Waited long enough, and too old. -/
def Expired (p : Particle α) : Prop := (runCount : ℤ) ≤ p.run+1 ∧ (maxDuration : ℤ) < p.duration

instance (p : Particle α) : Decidable (Expired p) := inferInstanceAs (Decidable (_ ∧ _))

/-- Image of a particle that is not removed, with the calls of `rand` before
its visit. -/
def updated (setup : Setup α) (e : Surroundings α) (v : ℕ×Particle α) : Particle α :=
  if v.2.run+1 < runCount then {v.2 with run := v.2.run+1}
  else (advance setup e v.1 {v.2 with run := 0,duration := v.2.duration+1}).1

/-- A visit removes a particle exactly when it has expired, whatever random numbers are
left. -/
theorem updateParticle_fst (setup : Setup α) (e : Surroundings α) (calls : ℕ) (it : Particle α) :
    (updateParticle setup e calls it).1=if Expired it then none else some (updated setup e (calls,it)) := by
  unfold updateParticle updated Expired
  by_cases hwaits : it.run+1 < (runCount : ℤ)
  · simp [hwaits]
  · by_cases hold : (maxDuration : ℤ) < it.duration
    · simp [hwaits,hold,not_lt.mp hwaits]
    · simp [hwaits,hold]

/-- Executed updates do not count. -/
theorem advance_run (setup : Setup α) (e : Surroundings α) (calls : ℕ) (it : Particle α) :
    (advance setup e calls it).1.run=it.run := by
  rcases advance_cases setup e calls it with ⟨-,h⟩ | ⟨p,vkn,-,⟨-,h⟩ | ⟨-,h⟩⟩ <;> rw [h] <;> rfl

/-- One more, or from the start again after six. -/
theorem updated_run (setup : Setup α) (e : Surroundings α) (v : ℕ×Particle α) :
    (updated setup e v).run=if v.2.run+1 < runCount then v.2.run+1 else 0 := by
  unfold updated
  split
  · rfl
  · rw [advance_run]

/-- The loop visits each particle of the start once, and leaves the images of
those that are not expired. -/
theorem updateLoop_visits (setup : Setup α) (e : Surroundings α) {particles : List (Particle α)}
    (hrange : particles.length < SwapRemove.indexRange) (calls : ℕ) :
    ∃ visits : List (ℕ×Particle α),(visits.map Prod.snd).Perm particles ∧
      (updateLoop setup e particles calls).1=
        (visits.filter fun v => ¬Expired v.2).map (updated setup e) := by
  obtain ⟨visited,hperm,hloop⟩ :=
    @SwapRemove.loop_eq _ _ (updateParticle setup e) _ hrange _ (Nat.lt_succ_self _) calls
  refine ⟨SwapRemove.trace (updateParticle setup e) calls visited,?_,?_⟩
  · rw [SwapRemove.trace_map_snd]
    exact hperm
  · rw [updateLoop,hloop,Option.getD_some,SwapRemove.survivors_of_test (updateParticle_fst setup e)]

/-- The loop does not add particles. -/
theorem length_updateLoop (setup : Setup α) (e : Surroundings α) {particles : List (Particle α)}
    (hrange : particles.length < SwapRemove.indexRange) (calls : ℕ) :
    (updateLoop setup e particles calls).1.length≤particles.length := by
  obtain ⟨visits,hperm,hleft⟩ := updateLoop_visits setup e hrange calls
  rw [hleft,List.length_map,←hperm.length_eq,List.length_map]
  exact List.length_filter_le _ _

/-- One pass over the particles. Each particle of the start is visited once;
those that are not expired are left, with one more update counted, and nothing
else is. -/
theorem update_pass (setup : Setup α) (e : Surroundings α) {particles : List (Particle α)}
    (hrange : particles.length < SwapRemove.indexRange) (calls : ℕ) :
    ∃ visits : List (ℕ×Particle α),(visits.map Prod.snd).Perm particles ∧
      (updateLoop setup e particles calls).1=
        (visits.filter fun v => ¬Expired v.2).map (updated setup e) ∧
      ∀ v∈visits,(updated setup e v).run=if v.2.run+1 < runCount then v.2.run+1 else 0 := by
  obtain ⟨visits,hperm,hleft⟩ := updateLoop_visits setup e hrange calls
  exact ⟨visits,hperm,hleft,fun v _ => updated_run setup e v⟩

/-- An expired particle in front of one that waits. -/
theorem update_pass_expired :
    ∃ visits : List (ℕ×Particle ℝ),
      (visits.map Prod.snd).Perm [{globeParticle 0 with run := 5,duration := 51},globeParticle 0] ∧
      (updateLoop slowSetup (globe 0) [{globeParticle 0 with run := 5,duration := 51},globeParticle 0]
        0).1=(visits.filter fun v => ¬Expired v.2).map (updated slowSetup (globe 0)) ∧
      ∀ v∈visits,(updated slowSetup (globe 0) v).run=if v.2.run+1 < runCount then v.2.run+1 else 0 :=
  update_pass slowSetup (globe 0) (by simp [SwapRemove.indexRange]) 0

end Pass

section Counts

variable {α : Type}

/-- Rounding toward zero and down give the same count of turns. -/
theorem toNat_tdiv (x : ℤ) {n : ℤ} (hn : 0<n) : (x.tdiv n).toNat=(x/n).toNat := by
  rcases le_or_gt 0 x with hx | hx
  · rw [Int.tdiv_eq_ediv_of_nonneg hx]
  · have htoward := Int.tdiv_nonneg (neg_nonneg.mpr hx.le) hn.le
    rw [Int.neg_tdiv] at htoward
    have hdown : x/n<0 := Int.ediv_neg_of_neg_of_pos hx hn
    omega

/-- Every call on an empty vector is counted. -/
theorem popBacks_nil {τ : Type} (n : ℕ) : popBacks n ([] : List τ)=([],n) := by
  induction n with
  | zero => rfl
  | succ n ih => rw [popBacks,ih]

/-- Calls of `pop_back` do not add particles. -/
theorem length_popBacks {τ : Type} (n : ℕ) (l : List τ) : (popBacks n l).1.length≤l.length := by
  induction n generalizing l with
  | zero => exact le_rfl
  | succ n ih =>
    cases l with
    | nil => exact ih []
    | cons x l =>
      refine (ih _).trans ?_
      rw [List.length_dropLast]
      exact Nat.sub_le _ _

variable [Field α] [LinearOrder α] [FloorRing α]

/-- One turn of the spawning loop adds at most one particle. -/
theorem length_spawnStep (setup : Setup α) (e : Surroundings α) (s : SpawnState α) (npi : ℕ) :
    (spawnStep setup e s npi).particles.length ≤ s.particles.length+1 := by
  unfold spawnStep
  split
  · exact Nat.le_succ _
  · split
    · exact Nat.le_succ _
    · simp

/-- Some turns of the spawning loop add at most as many particles, by induction over the
turns. -/
theorem length_spawnSteps (setup : Setup α) (e : Surroundings α) (turns : List ℕ) (s : SpawnState α) :
    (turns.foldl (spawnStep setup e) s).particles.length ≤ s.particles.length+turns.length := by
  induction turns generalizing s with
  | nil => exact Nat.le_refl _
  | cons npi turns ih =>
    have hfirst := length_spawnStep setup e s npi
    have hrest := ih (spawnStep setup e s npi)
    rw [List.foldl_cons,List.length_cons]
    omega

/-- Spawning does not go beyond the target: only a part of what misses is tried. -/
theorem length_spawnMissing (setup : Setup α) (e : Surroundings α) (ni nj : ℕ)
    (particles : List (Particle α)) (calls : ℕ) :
    ((spawnMissing setup e ni nj particles calls).length : ℤ) ≤
      max (particles.length : ℤ) (wantedParticles setup ni nj) := by
  have hspawned := length_spawnSteps setup e
    (List.range ((wantedParticles setup ni nj-particles.length).tdiv 64).toNat) ⟨particles,0,calls⟩
  rw [List.length_range,toNat_tdiv _ (by decide)] at hspawned
  unfold spawnMissing
  dsimp only
  rw [toNat_tdiv _ (by decide)]
  dsimp only at hspawned
  omega

/-- After a part of a frame there are at most as many as before it, or as
wanted. -/
theorem length_updateParticles (setup : Setup α) (e : Surroundings α) {particles : List (Particle α)}
    (hrange : particles.length < SwapRemove.indexRange) :
    ((updateParticles setup e particles).1.length : ℤ) ≤
      max (particles.length : ℤ)
        (wantedParticles setup e.gui.myMessage.lonLength e.gui.myMessage.latLength) := by
  have hloop := length_updateLoop setup e hrange 0
  have hkept : (removeSurplus setup e.gui.myMessage.lonLength e.gui.myMessage.latLength
      (updateLoop setup e particles 0).1).1.length≤particles.length :=
    (length_popBacks _ _).trans hloop
  have hspawned := length_spawnMissing setup e e.gui.myMessage.lonLength e.gui.myMessage.latLength
    (removeSurplus setup e.gui.myMessage.lonLength e.gui.myMessage.latLength
      (updateLoop setup e particles 0).1).1 (updateLoop setup e particles 0).2
  unfold updateParticles
  dsimp only
  omega

/-- Nothing is taken from an empty pool when at least as many are wanted as
there are, or nearly so. -/
theorem emptyPops_updateParticles (setup : Setup α) (e : Surroundings α)
    {particles : List (Particle α)} (hrange : particles.length < SwapRemove.indexRange)
    (hwanted : (particles.length : ℤ) <
      wantedParticles setup e.gui.myMessage.lonLength e.gui.myMessage.latLength+16) :
    (updateParticles setup e particles).2=0 := by
  have hloop := length_updateLoop setup e hrange 0
  have hturns : (((updateLoop setup e particles 0).1.length-
      wantedParticles setup e.gui.myMessage.lonLength e.gui.myMessage.latLength).tdiv 16).toNat=0 := by
    rw [toNat_tdiv _ (by decide)]
    omega
  unfold updateParticles removeSurplus
  dsimp only
  rw [hturns]
  rfl

end Counts

section Runs

variable {α : Type} [Field α] [LinearOrder α]

/-- A change of the view keeps the number of particles. -/
theorem length_refreshView (setup : Setup α) (e : Surroundings α) (pm : ParticleMap α) :
    (refreshView setup e pm).particles.length=pm.particles.length := by
  unfold refreshView
  dsimp only
  split
  · exact List.length_map _
  · split
    · rfl
    · exact List.length_map _

variable [FloorRing α]

/-- What a frame does to the number of particles and of empty calls. -/
theorem renderParticles_cases (setup : Setup α) (e : Surroundings α) (s : ParticleState α) :
    ∃ particles : List (Particle α),particles.length=s.particles.length ∧
      ((renderParticles setup e s).particles.length=particles.length ∧
          (renderParticles setup e s).emptyPops=s.emptyPops ∨
        (renderParticles setup e s).particles=(updateParticles setup e particles).1 ∧
          (renderParticles setup e s).emptyPops=
            s.emptyPops+(updateParticles setup e particles).2) := by
  refine ⟨_,length_refreshView setup e (s.particleMap.getD {}),?_⟩
  unfold renderParticles
  dsimp only
  by_cases hrenders : Renders e
  · rw [if_pos hrenders]
    by_cases hpending : (s.bUpdateParticles || decide (0 < s.particleBurstCount))=true
    · rw [if_pos hpending]
      exact Or.inr ⟨rfl,rfl⟩
    · rw [if_neg hpending]
      exact Or.inl ⟨rfl,rfl⟩
  · rw [if_neg hrenders,length_refreshView]
    exact Or.inl ⟨rfl,rfl⟩

/-- In every run there are at most a hundred thousand particles, so the
unsigned index of the update loop never comes around. -/
theorem length_le_hundredThousand (setup : Setup α) (events : List (ParticleEvent α)) :
    (run (particleStep setup) {} events).particles.length≤100000 := by
  have hstep (s : ParticleState α) (event : ParticleEvent α) (hs : s.particles.length≤100000) :
      (particleStep setup s event).particles.length≤100000 := by
    cases event with
    | frame e =>
      obtain ⟨particles,hlength,⟨hsame,-⟩ | ⟨hupdate,-⟩⟩ := renderParticles_cases setup e s
      · exact (hsame.trans hlength).le.trans hs
      · have hrange : particles.length < SwapRemove.indexRange := by
          unfold SwapRemove.indexRange
          omega
        have hcount := length_updateParticles setup e hrange
        have hcap : wantedParticles setup e.gui.myMessage.lonLength e.gui.myMessage.latLength≤100000 :=
          min_le_right _ _
        change (renderParticles setup e s).particles.length≤100000
        rw [hupdate]
        omega
    | clear => exact Nat.zero_le _
    | timer => exact hs
    | load => exact Nat.zero_le _
  exact run_invariant_all hstep (Nat.zero_le _) events

/-- The size of the data stays the same. -/
def Sized (ni nj : ℕ) : ParticleEvent α → Prop
  | .frame e => e.gui.myMessage.lonLength=ni ∧ e.gui.myMessage.latLength=nj
  | _ => True

/-- Nothing was taken from an empty pool, and there are not more particles than
there should be. -/
structure Populated (sliderVal : ℤ) (ni nj : ℕ) (s : ParticleState α) : Prop where
  /-- No call of `pop_back` on an empty vector. -/
  noEmptyPops : s.emptyPops=0
  /-- At most a fifth of the slider value for each node, one for each and a
  hundred thousand in all. -/
  bounded : (s.particles.length : ℚ) ≤ max 0 (min (min ((sliderVal : ℚ)/5*ni*nj) (ni*nj)) 100000)

/-- A target above minus sixteen is not exceeded, and takes nothing from an
empty pool. -/
theorem target_kept {setup : Setup α} {ni nj : ℕ} (hwanted : -16 < wantedParticles setup ni nj)
    {events : List (ParticleEvent α)} (hsized : ∀ event∈events,Sized ni nj event) :
    (run (particleStep setup) {} events).emptyPops=0 ∧
      ((run (particleStep setup) {} events).particles.length : ℤ) ≤
        max 0 (wantedParticles setup ni nj) := by
  have hcap : wantedParticles setup ni nj≤100000 := min_le_right _ _
  have hstep (s : ParticleState α) (event : ParticleEvent α)
      (hs : s.emptyPops=0 ∧ (s.particles.length : ℤ) ≤ max 0 (wantedParticles setup ni nj))
      (hevent : Sized ni nj event) :
      (particleStep setup s event).emptyPops=0 ∧
        ((particleStep setup s event).particles.length : ℤ) ≤ max 0 (wantedParticles setup ni nj) := by
    obtain ⟨hpops,hcount⟩ := hs
    cases event with
    | frame e =>
      obtain ⟨rfl,rfl⟩ := hevent
      obtain ⟨particles,hlength,⟨hsame,hpops'⟩ | ⟨hupdate,hpops'⟩⟩ := renderParticles_cases setup e s
      · change (renderParticles setup e s).emptyPops=0 ∧
          ((renderParticles setup e s).particles.length : ℤ)≤_
        rw [hpops',hsame,hlength]
        exact ⟨hpops,hcount⟩
      · have hrange : particles.length < SwapRemove.indexRange := by
          unfold SwapRemove.indexRange
          omega
        have hempty := emptyPops_updateParticles setup e hrange (by omega)
        have hupdated := length_updateParticles setup e hrange
        change (renderParticles setup e s).emptyPops=0 ∧
          ((renderParticles setup e s).particles.length : ℤ)≤_
        rw [hpops',hupdate,hempty,hpops]
        exact ⟨rfl,by omega⟩
    | clear => exact ⟨hpops,le_max_left _ _⟩
    | timer => exact ⟨hpops,hcount⟩
    | load => exact ⟨hpops,le_max_left _ _⟩
  exact run_invariant_ok hstep ⟨rfl,le_max_left _ _⟩ hsized

end Runs

section Targets

variable {α : Type}

/-- The quotient of a product by five, rounded toward zero. -/
theorem tdiv_five_bounds (x : ℤ) : (-80<x ↔ -16 < x.tdiv 5) ∧
    (x<5*2147483648 ↔ x.tdiv 5<2147483648) ∧ (0 < x.tdiv 5 → 5*x.tdiv 5≤x) := by
  rcases le_or_gt 0 x with hx | hx
  · rw [Int.tdiv_eq_ediv_of_nonneg hx]
    omega
  · have hneg : x.tdiv 5= -((-x)/5) := by
      rw [←Int.tdiv_eq_ediv_of_nonneg (by omega : 0≤ -x),Int.neg_tdiv,neg_neg]
    rw [hneg]
    omega

/-- Products in the range of `int` give the target as it was meant. -/
theorem target_exact {setup : Setup α} {ni nj : ℕ} (hlow : -80 < setup.sliderVal*ni*nj)
    (hhigh : setup.sliderVal*ni*nj<5*2147483648) (hgrid : (ni*nj : ℤ)<2147483648) :
    wantedParticles setup ni nj=totalParticles setup.sliderVal ni nj ∧
      -16 < totalParticles setup.sliderVal ni nj := by
  obtain ⟨hlow',hhigh',-⟩ := tdiv_five_bounds (setup.sliderVal*ni*nj)
  have hbelow := hlow'.mp hlow
  have habove := hhigh'.mp hhigh
  have hnodes : 0≤(ni*nj : ℤ) := by positivity
  refine ⟨wantedParticles_eq ?_ ?_,?_⟩
  · unfold IsInt32 signedBound
    omega
  · unfold IsInt32 signedBound
    omega
  · unfold totalParticles
    omega

/-- A target is at most what there should be. -/
theorem target_le (sliderVal : ℤ) (ni nj : ℕ) :
    ((max 0 (totalParticles sliderVal ni nj) : ℤ) : ℚ)≤
      max 0 (min (min ((sliderVal : ℚ)/5*ni*nj) (ni*nj)) 100000) := by
  rcases le_or_gt (totalParticles sliderVal ni nj) 0 with hnone | hsome
  · rw [max_eq_left hnone,Int.cast_zero]
    exact le_max_left _ _
  · rw [max_eq_right hsome.le]
    refine le_max_of_le_right ?_
    obtain ⟨-,-,hround⟩ := tdiv_five_bounds (sliderVal*ni*nj)
    unfold totalParticles at hsome ⊢
    obtain ⟨hpair,-⟩ := lt_min_iff.mp hsome
    obtain ⟨hdensity,-⟩ := lt_min_iff.mp hpair
    have hscaled : ((5*(sliderVal*ni*nj).tdiv 5 : ℤ) : ℚ)≤((sliderVal*ni*nj : ℤ) : ℚ) :=
      Int.cast_le.mpr (hround hdensity)
    push_cast at hscaled ⊢
    refine min_le_min (min_le_min ?_ le_rfl) le_rfl
    linarith

variable [Field α]

/-- A sea without data, looked at from its south-western corner. -/
def emptySea (ni nj : ℕ) : Surroundings α where
  attached := true
  gui :=
    { myMessage := {lonLength := ni,latLength := nj,lastGridPointLat := 1,lastGridPointLong := 1}
      gridu := some (List.replicate nj (List.replicate ni notDef))
      gridv := some (List.replicate nj (List.replicate ni notDef)) }
  viewPort := ⟨0,0,1,0,0,800,600⟩
  pixLL := fun _ _ => (0,0)
  llPix := fun _ => (0,0)
  rand := fun _ => 0
  randMax := 32767
  uninitialised := fun _ => ⟨0,⟨0,0⟩,0,0,fun _ => ⟨0,0,(0,0),⟨0,0,0⟩,none⟩,0⟩

variable [LinearOrder α] [IsStrictOrderedRing α] [FloorRing α]

omit [FloorRing α] in
/-- A frame over a sea without currents gets to the particles. -/
theorem renders_emptySea {ni nj : ℕ} (hni : 1<ni) (hnj : 1<nj) :
    Renders (emptySea ni nj : Surroundings α) :=
  ⟨rfl,⟨rfl,rfl⟩,⟨hni,hnj⟩,zero_lt_one,zero_lt_one⟩

/-- The first frame takes from the empty pool when the target is too low. -/
theorem first_frame_pops {setup : Setup α} {ni nj : ℕ} (hni : 1<ni) (hnj : 1<nj)
    (hwanted : wantedParticles setup ni nj≤ -16) :
    0 < (run (particleStep setup) {} [.frame (emptySea ni nj)]).emptyPops := by
  have hturns : 0 < ((0-wantedParticles setup ni nj).tdiv 16).toNat := by
    rw [toNat_tdiv _ (by decide)]
    omega
  have hpops : (updateParticles setup (emptySea ni nj) []).2=
      ((0-wantedParticles setup ni nj).tdiv 16).toNat := by
    change (popBacks ((0-wantedParticles setup ni nj).tdiv 16).toNat ([] : List (Particle α))).2=_
    rw [popBacks_nil]
  change 0 < (renderParticles setup (emptySea ni nj) {}).emptyPops
  rw [renderParticles,if_pos (renders_emptySea hni hnj)]
  change 0<0+(updateParticles setup (emptySea ni nj) []).2
  rw [hpops]
  omega

/-- For a density and a size of the data, the particles stay within bounds in
every run, whatever comes of products outside the range of `int`, exactly when
the products are in that range and the target is above minus sixteen. -/
theorem population_iff (libm : Libm α) (sliderVal : ℤ) {ni nj : ℕ} (hni : 1<ni) (hnj : 1<nj) :
    (∀ (toInt : ℤ → ℤ) (htoInt : ∀ z,IsInt32 z → toInt z=z) (events : List (ParticleEvent α)),
        (∀ event∈events,Sized ni nj event) →
          Populated sliderVal ni nj (run (particleStep ⟨libm,sliderVal,toInt,htoInt⟩) {} events)) ↔
      -80 < sliderVal*ni*nj ∧ sliderVal*ni*nj<5*2147483648 ∧ (ni*nj : ℤ)<2147483648 := by
  constructor
  · intro hall
    by_contra hcond
    -- outside the range of int this platform gives minus sixteen
    have hhostile (z : ℤ) (hz : IsInt32 z) : (if IsInt32 z then z else -16)=z := if_pos hz
    have hwanted : wantedParticles (α := α) ⟨libm,sliderVal,_,hhostile⟩ ni nj≤ -16 := by
      obtain ⟨hlow,hhigh,-⟩ := tdiv_five_bounds (sliderVal*ni*nj)
      have hgrid : -signedBound≤(ni*nj : ℤ) := by
        have hnodes : 0≤(ni*nj : ℤ) := by positivity
        unfold signedBound
        omega
      unfold wantedParticles IsInt32 signedBound
      unfold signedBound at hgrid
      dsimp only
      split_ifs <;> omega
    have hpopulated := hall _ hhostile [.frame (emptySea ni nj)]
      (List.forall_mem_singleton.mpr ⟨rfl,rfl⟩)
    exact (first_frame_pops hni hnj hwanted).ne' hpopulated.noEmptyPops
  · rintro ⟨hlow,hhigh,hgrid⟩ toInt htoInt events hsized
    have hexact : wantedParticles (⟨libm,sliderVal,toInt,htoInt⟩ : Setup α) ni nj=
        totalParticles sliderVal ni nj ∧ -16 < totalParticles sliderVal ni nj :=
      target_exact hlow hhigh hgrid
    obtain ⟨hpops,hcount⟩ := target_kept (hexact.1 ▸ hexact.2) hsized
    rw [hexact.1] at hcount
    exact ⟨hpops,(Int.cast_le.mpr hcount).trans (target_le sliderVal ni nj)⟩

/-- The default density of five on a grid of eight by eight nodes, where 64 particles are
wanted. -/
theorem population_iff_default :
    (∀ (toInt : ℤ → ℤ) (htoInt : ∀ z,IsInt32 z → toInt z=z) (events : List (ParticleEvent ℝ)),
        (∀ event∈events,Sized 8 8 event) →
          Populated 5 8 8 (run (particleStep ⟨realLibm,5,toInt,htoInt⟩) {} events)) ↔
      -80<(5*(8 : ℕ)*(8 : ℕ) : ℤ) ∧ (5*(8 : ℕ)*(8 : ℕ) : ℤ)<5*2147483648 ∧
        ((8 : ℕ)*(8 : ℕ) : ℤ)<2147483648 :=
  population_iff realLibm 5 (by decide) (by decide)

/-- A density below zero on the smallest grid: the first frame calls
`pop_back` on the empty vector. -/
theorem not_populated_negative :
    (∀ event∈[(.frame (emptySea 2 2) : ParticleEvent ℝ)],Sized 2 2 event) ∧
    ¬Populated (-20) 2 2
      (run (particleStep ⟨realLibm,-20,int32,fun _ => int32_of_isInt32⟩) {}
        [.frame (emptySea 2 2)]) := by
  refine ⟨List.forall_mem_singleton.mpr ⟨rfl,rfl⟩,fun hpopulated => ?_⟩
  have hwanted : wantedParticles (⟨realLibm,-20,int32,fun _ => int32_of_isInt32⟩ : Setup ℝ) 2 2≤ -16 := by
    change min (min (int32 ((-20*2*2 : ℤ).tdiv 5)) (int32 (2*2))) 100000≤ -16
    decide
  exact (first_frame_pops (by decide) (by decide) hwanted).ne' hpopulated.noEmptyPops

end Targets

end NcdfPlugin.NcdfPopulation
