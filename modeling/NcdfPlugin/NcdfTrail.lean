import NcdfPlugin.NcdfParticle
import Mathlib.Tactic.IntervalCases

/-!
# Trails of the particles

The nodes of a particle are the ring of its most recent positions, in every
run: updates write the next node, recycling starts the ring anew, spawning
fills it. The walk that draws a trail therefore ends, and goes through the
nodes from the newest to the oldest. It makes every node more transparent
than the one before by a decay that depends on the velocity, on eight bits.
-/

namespace NcdfPlugin.NcdfTrail

open ExactArithmetic RingBuffer NcdfParticle GuardedRun
open NcdfRenderCache (runCount)
open NcdfColorMap (Rgb)

section Ring

variable {α : Type}

/-- Numbers of the writes that gave the longitudes. -/
def stamps (p : Particle α) (k : ℕ) : Option ℕ := (p.history k).stamp

/-- The nodes of a particle are a ring of its most recent writes. -/
structure TrailKept (cap : ℕ) (p : Particle α) : Prop where
  /-- Position and size agree. -/
  valid : p.cursor.Valid cap
  /-- From the newest node to the oldest, the writes are earlier and earlier. -/
  recent : ∃ l : List ℕ,contents cap p.cursor (stamps p)=l.map some ∧ l.Pairwise (·>·) ∧
    ∀ n∈l,n < p.writes

variable {cap : ℕ} {p q : Particle α}

/-- An update that writes the next node keeps the trail: its nodes are still those of the
last writes, in their order. -/
theorem TrailKept.push (h : TrailKept cap p) (hcursor : q.cursor=p.cursor.advance cap)
    (hstamps : stamps q=Function.update (stamps p) q.cursor.pos (some p.writes))
    (hwrites : q.writes=p.writes+1) : TrailKept cap q := by
  obtain ⟨hvalid,l,hl,hpairwise,hbelow⟩ := h
  refine ⟨hcursor ▸ hvalid.advance,(p.writes::l).take cap,?_,?_,?_⟩
  · rw [hstamps,hcursor,contents_push hvalid,hl,←List.map_cons,List.map_take]
  · exact (List.pairwise_cons.mpr ⟨hbelow,hpairwise⟩).sublist (List.take_sublist _ _)
  · intro n hn
    rw [hwrites]
    rcases List.mem_cons.mp (List.mem_of_mem_take hn) with rfl | hold
    · exact Nat.lt_succ_self _
    · exact (hbelow n hold).trans (Nat.lt_succ_self _)

/-- A trail of one node. -/
theorem trailKept_first (hcap : 0 < cap) (hcursor : q.cursor=⟨0,1⟩) {n : ℕ}
    (hstamp : stamps q 0=some n) (hwrites : n < q.writes) : TrailKept cap q := by
  refine ⟨hcursor ▸ valid_first hcap,[n],?_,List.pairwise_singleton _ _,?_⟩
  · simp [contents,hcursor,hstamp]
  · intro m hm
    obtain rfl := List.mem_singleton.mp hm
    exact hwrites

/-- Trails depend on position, size and writes only. -/
theorem TrailKept.congr (h : TrailKept cap p) (hcursor : q.cursor=p.cursor)
    (hstamps : stamps q=stamps p) (hwrites : q.writes=p.writes) : TrailKept cap q := by
  obtain ⟨hvalid,l,hl,hpairwise,hbelow⟩ := h
  exact ⟨hcursor ▸ hvalid,l,by rw [hcursor,hstamps,hl],hpairwise,hwrites ▸ hbelow⟩

/-- The longitude of every node of the trail was written. -/
theorem TrailKept.written (h : TrailKept cap p) : ∀ k < p.cursor.size,(stamps p k).isSome=true := by
  obtain ⟨l,hl,-⟩ := h.recent
  refine (forall_mem_contents h.valid (P := fun s : Option ℕ => s.isSome=true)).mp fun s hs => ?_
  rw [hl] at hs
  obtain ⟨n,-,rfl⟩ := List.mem_map.mp hs
  rfl

end Ring

section Updates

variable {α : Type} [Field α] [LinearOrder α] [FloorRing α]

/-- Trails are kept by updates, whether they move a particle, let it die or
place it anew. -/
theorem trailKept_advance (setup : Setup α) (e : Surroundings α) (calls : ℕ) {it : Particle α}
    (h : TrailKept (historySize setup) it) :
    TrailKept (historySize setup) (advance setup e calls it).1 := by
  have hcap : 0 < historySize setup := by
    have := (historySize_bounds setup).1
    omega
  have hstamps (node : ParticleNode α) (k : ℕ) (history : ℕ → ParticleNode α) :
      (fun h => (Function.update history k node h).stamp)=
        Function.update (fun h => (history h).stamp) k node.stamp :=
    Function.comp_update ParticleNode.stamp history k node
  rcases advance_cases setup e calls it with ⟨-,hdied⟩ | ⟨p,vkn,-,⟨-,hmoved⟩ | ⟨-,hrecycled⟩⟩
  · rw [hdied]
    exact h.push rfl (hstamps _ _ _) rfl
  · rw [hmoved]
    exact h.push rfl (hstamps _ _ _) rfl
  · rw [hrecycled]
    refine trailKept_first hcap rfl (n := it.writes+1) ?_ (Nat.lt_succ_self _)
    unfold stamps recycled
    dsimp only
    by_cases hk : 0=(it.cursor.advance (historySize setup)).pos
    · rw [←hk,Function.update_self]
    · rw [Function.update_of_ne hk]
      rfl

/-- The loop that fills the history of a new particle, from any node on, writes the nodes of
a trail one by one. -/
theorem prefill_from (setup : Setup α) (e : Surroundings α) (vkn : α) (n : ℕ) {h : ℕ}
    {state : Particle α×(α×α)} (hcursor : state.1.cursor=⟨h,h+1⟩)
    (hroom : h+1+n ≤ historySize setup) (hkept : TrailKept (historySize setup) state.1) :
    let filled := ((List.range' (h+1) n).foldl (prefillStep setup e vkn) state).1
    TrailKept (historySize setup) filled ∧ filled.cursor=⟨h+n,h+n+1⟩ ∧
      filled.velocity=state.1.velocity := by
  induction n generalizing h state with
  | zero => exact ⟨hkept,hcursor,rfl⟩
  | succ n ih =>
    have hadvance : state.1.cursor.advance (historySize setup)=⟨h+1,h+1+1⟩ := by
      rw [hcursor,Cursor.advance,if_neg (by dsimp only; omega),if_neg (by dsimp only; omega)]
    have hstep : TrailKept (historySize setup) (prefillStep setup e vkn state (h+1)).1 :=
      hkept.push (by rw [hadvance]; rfl) (Function.comp_update ParticleNode.stamp _ _ _) rfl
    have hnext : (prefillStep setup e vkn state (h+1)).1.cursor=⟨h+1,h+1+1⟩ := rfl
    obtain ⟨hfilled,hcursor',hvelocity⟩ := ih hnext (by omega) hstep
    rw [List.range'_succ,List.foldl_cons]
    refine ⟨hfilled,?_,hvelocity⟩
    rw [hcursor']
    congr 1 <;> omega

/-- A spawned particle has a full trail, and a velocity that was never
assigned. -/
theorem newParticle_trail (setup : Setup α) (e : Surroundings α) (npi run duration : ℕ) (p : α×α)
    (vkn : α) :
    TrailKept (historySize setup) (newParticle setup e npi run duration p vkn) ∧
      (newParticle setup e npi run duration p vkn).cursor=
        ⟨historySize setup-1,historySize setup⟩ ∧
      (newParticle setup e npi run duration p vkn).velocity=(e.uninitialised npi).velocity := by
  obtain ⟨hlow,hhigh⟩ := historySize_bounds setup
  have hfirst : TrailKept (historySize setup) (firstNode setup e npi run duration p vkn) := by
    refine trailKept_first (by omega) rfl (n := 0) ?_ Nat.one_pos
    rfl
  have hstart : (firstNode setup e npi run duration p vkn,p).1.cursor=⟨0,0+1⟩ := rfl
  obtain ⟨hkept,hcursor,hvelocity⟩ := prefill_from setup e vkn (historySize setup-1) hstart (by omega)
    hfirst
  have hnodes : prefilled setup=List.range' (0+1) (historySize setup-1) := by
    rw [prefilled,maxParticleHistory,Nat.min_eq_left hhigh]
  unfold newParticle
  rw [hnodes]
  refine ⟨hkept,?_,hvelocity⟩
  rw [hcursor]
  congr 1 <;> omega

/-- Every operation on a particle keeps its trail in the ring of nodes. -/
theorem kept_trailKept (setup : Setup α) : Kept setup (TrailKept (historySize setup)) where
  waits := fun _ h => h.congr rfl rfl rfl
  advances := fun e calls _ h => trailKept_advance setup e calls (h.congr rfl rfl rfl)
  reprojects := by
    intro e p h
    refine h.congr rfl (funext fun k => ?_) rfl
    unfold stamps reproject
    dsimp only
    split <;> rfl
  spawns := fun e npi run duration _ p vkn _ _ => (newParticle_trail setup e npi run duration p vkn).1

end Updates

section Drawing

variable {α : Type} [Field α] [LinearOrder α] [FloorRing α]

/-- `trailSteps`: the length of the history times twice the velocity, within
bounds. -/
def trailSteps (setup : Setup α) (velocity : α) : ℕ :=
  let velFactor : α := max (decimal 3 10) (min ((3 : ℕ) : α) (velocity*(2 : ℕ)))
  (max 2 (min (truncate ((historySize setup : α)*velFactor)) maxParticleHistory)).toNat

/-- `alphaDecay`. -/
def alphaDecay (setup : Setup α) (velocity : α) : ℕ := 250/trailSteps setup velocity

/-- `alpha -= alphaDecay` on eight bits. -/
def fade (decay alpha : ℕ) : ℕ := (alpha+256-decay)%256

/-- The walk that draws a trail: its nodes, each with its alpha. -/
def trailVisits (setup : Setup α) (it : Particle α) (fuel : ℕ) : Option (List (ℕ×ℕ)) :=
  walk (historySize setup) it.cursor (fade (alphaDecay setup it.velocity)) fuel it.cursor.pos 250

/-- A line of a trail. -/
structure TrailLine (α : Type) where
  /-- First point. -/
  first : α×α
  /-- Second point. -/
  second : α×α
  /-- Colour. -/
  color : Rgb
  /-- Opacity. -/
  alpha : ℕ

/-- What the walk keeps from node to node, and the lines drawn so far. -/
structure TrailPen (α : Type) where
  /-- `lp`. -/
  lp : Option (α×α) := none
  /-- `lip`, none while `lip_valid` is false. -/
  lip : Option (α×α) := none
  /-- `lc`, none before the first live node. -/
  lc : Option (Rgb×ℕ) := none
  /-- Lines. -/
  lines : List (TrailLine α) := []

/-- Two pixels are less than a view apart. -/
def Near (e : Surroundings α) (a b : α×α) : Prop := |a.1-b.1| < e.viewPort.pixWidth

instance (e : Surroundings α) (a b : α×α) : Decidable (Near e a b) :=
  inferInstanceAs (Decidable (_ < _))

/-- The line to an interpolated point, if there is one to start from. -/
def TrailPen.lineTo (pen : TrailPen α) (e : Surroundings α) (sip : α×α) : TrailPen α :=
  match pen.lip,pen.lc with
  | some lip,some lc =>
    if Near e lip sip then
      {pen with lip := some sip,lines := pen.lines++[⟨lip,sip,lc.1,lc.2⟩]}
    else {pen with lip := some sip}
  | _,_ => {pen with lip := some sip}

/-- One node of the walk. Dead nodes are passed over. -/
def drawNode (setup : Setup α) (e : Surroundings α) (it : Particle α) (pen : TrailPen α) (v : ℕ×ℕ) :
    TrailPen α :=
  let n := it.history v.1
  if n.lon=deadLon then pen
  else
    let drawn :=
      match pen.lp with
      | none => pen
      | some lp =>
        if Near e lp n.screen then
          let d := setup.libm.toFloat it.run/(runCount : α)
          pen.lineTo e (d*lp.1+(1-d)*n.screen.1,d*lp.2+(1-d)*n.screen.2)
        else pen
    {drawn with lp := some n.screen,lc := some (n.color,v.2)}

/-- The lines of a trail. -/
def drawTrail (setup : Setup α) (e : Surroundings α) (it : Particle α) (visits : List (ℕ×ℕ)) :
    List (TrailLine α) := (visits.foldl (drawNode setup e it) {}).lines

/-- Alphas of the lines drawn so far, then that of the last live node. -/
def TrailPen.alphas (pen : TrailPen α) : List ℕ :=
  pen.lines.map TrailLine.alpha++(pen.lc.map Prod.snd).toList

omit [FloorRing α] in
/-- A line gets the alpha of the last live node. -/
theorem TrailPen.lineTo_alphas (pen : TrailPen α) (e : Surroundings α) (sip : α×α) :
    ((pen.lineTo e sip).lines.map TrailLine.alpha).Sublist pen.alphas := by
  unfold TrailPen.lineTo
  split
  next lip lc hlip hlc =>
    split
    · simp [TrailPen.alphas,hlc]
    · exact List.sublist_append_left _ _
  next => exact List.sublist_append_left _ _

omit [FloorRing α] in
/-- The visit of a node draws at most one line, with the value that the visit carries. -/
theorem drawNode_alphas (setup : Setup α) (e : Surroundings α) (it : Particle α) (pen : TrailPen α)
    (v : ℕ×ℕ) : (drawNode setup e it pen v).alphas.Sublist (pen.alphas++[v.2]) := by
  unfold drawNode
  dsimp only
  split
  · exact List.sublist_append_left _ _
  · have hlines (drawn : TrailPen α) (h : (drawn.lines.map TrailLine.alpha).Sublist pen.alphas) :
        (drawn.lines.map TrailLine.alpha++[v.2]).Sublist (pen.alphas++[v.2]) :=
      h.append (List.Sublist.refl _)
    refine hlines _ ?_
    split
    · exact List.sublist_append_left _ _
    · split
      · exact pen.lineTo_alphas e _
      · exact List.sublist_append_left _ _

omit [FloorRing α] in
/-- The lines of a trail have alphas of its visits, in their order. -/
theorem drawTrail_alphas (setup : Setup α) (e : Surroundings α) (it : Particle α)
    (visits : List (ℕ×ℕ)) :
    ((drawTrail setup e it visits).map TrailLine.alpha).Sublist (visits.map Prod.snd) := by
  have hall : (visits.foldl (drawNode setup e it) {}).alphas.Sublist (visits.map Prod.snd) := by
    induction visits using List.reverseRecOn with
    | nil => exact List.Sublist.refl _
    | append_singleton visits v ih =>
      rw [List.foldl_append,List.map_append]
      exact (drawNode_alphas setup e it _ v).trans (ih.append (List.Sublist.refl _))
  exact (List.sublist_append_left _ _).trans hall

/-- The walk goes through the nodes of a trail once each, from the newest to
the oldest. -/
structure WalksTrail (setup : Setup α) (it : Particle α) (visits : List (ℕ×ℕ)) : Prop where
  /-- The walk ends with these visits. -/
  ends : ∀ fuel,it.cursor.size≤fuel → trailVisits setup it fuel=some visits
  /-- Each node below the size is visited once. -/
  once : (visits.map Prod.fst).Perm (List.range it.cursor.size)
  /-- Later visits are to nodes that were written earlier. -/
  ordered : ∃ l : List ℕ,visits.map (fun v => stamps it v.1)=l.map some ∧ l.Pairwise (·>·)

/-- The walk of a kept trail in closed form. -/
def trailWalk (setup : Setup α) (it : Particle α) : List (ℕ×ℕ) :=
  (List.range it.cursor.size).map fun age =>
    (nodeOf (historySize setup) it.cursor.pos age,(fade (alphaDecay setup it.velocity))^[age] 250)

/-- The walk of the drawing ends, and visits the trail from the newest node to the oldest.
-/
theorem TrailKept.walks {setup : Setup α} {it : Particle α}
    (h : TrailKept (historySize setup) it) : WalksTrail setup it (trailWalk setup it) := by
  obtain ⟨hvalid,l,hl,hpairwise,-⟩ := h
  refine ⟨fun fuel hfuel => walk_eq hvalid _ hfuel 250,?_,l,?_,hpairwise⟩
  · rw [trailWalk,List.map_map]
    exact visited_perm hvalid
  · rw [←hl,trailWalk,List.map_map]
    rfl

/-- The ring of a particle in every run. Position and size are within bounds
and agree, the longitude of every node below the size was written, and the
walk that draws the trail ends after one visit of each of these nodes, from
the newest to the oldest. -/
theorem trail_ring (setup : Setup α) (events : List (ParticleEvent α)) :
    ∀ it∈(run (particleStep setup) {} events).particles,
      it.cursor.pos < historySize setup ∧
      (1 ≤ it.cursor.size ∧ it.cursor.size ≤ historySize setup ∧ historySize setup≤8) ∧
      (it.cursor.size < historySize setup → it.cursor.pos=it.cursor.size-1) ∧
      (∀ k < it.cursor.size,(stamps it k).isSome=true) ∧
      ∃ visits,WalksTrail setup it visits := by
  intro it hit
  have hkept := (kept_trailKept setup).run events it hit
  obtain ⟨hpos,hsize,hle,hfresh⟩ := hkept.valid
  refine ⟨hpos,⟨hsize,hle,(historySize_bounds setup).2⟩,fun hlt => ?_,hkept.written,_,hkept.walks⟩
  have := hfresh hlt
  omega

section Sample

/-- The first particle that is spawned after a load, with a trail of eight nodes. -/
theorem trail_ring_first :
    globeParticle 0∈(run (particleStep slowSetup) {} [.load,.frame (globe 0)]).particles ∧
    (globeParticle 0).cursor.pos < historySize slowSetup ∧
    (1 ≤ (globeParticle 0).cursor.size ∧ (globeParticle 0).cursor.size ≤ historySize slowSetup ∧
      historySize slowSetup≤8) ∧
    ((globeParticle 0).cursor.size < historySize slowSetup →
      (globeParticle 0).cursor.pos=(globeParticle 0).cursor.size-1) ∧
    (∀ k < (globeParticle 0).cursor.size,(stamps (globeParticle 0) k).isSome=true) ∧
    ∃ visits,WalksTrail slowSetup (globeParticle 0) visits := by
  have hmem : globeParticle 0∈(run (particleStep slowSetup) {} [.load,.frame (globe 0)]).particles := by
    rw [load_frame_globe (by norm_num)]
    exact List.mem_singleton_self _
  exact ⟨hmem,trail_ring slowSetup _ _ hmem⟩

end Sample

end Drawing

section Fading

/-- Until the first wrap the alpha is what is left of 250. -/
theorem fade_iterate {decay age : ℕ} (h : age*decay≤250) : (fade decay)^[age] 250=250-age*decay := by
  induction age with
  | zero => simp
  | succ age ih =>
    rw [Nat.succ_mul] at h
    rw [Function.iterate_succ_apply',ih (by omega),fade,Nat.succ_mul]
    omega

/-- Alphas along a walk never rise exactly when none of them wraps. -/
theorem fade_pairwise_iff {decay n : ℕ} (hdecay : decay<256) :
    ((List.range (n+1)).map fun age => (fade decay)^[age] 250).Pairwise (·≥·) ↔ n*decay≤250 := by
  rw [List.pairwise_map]
  constructor
  · intro hpairwise
    by_contra hwraps
    -- the last alpha before the first wrap is smaller than the next one
    have hpos : 0<decay := Nat.pos_of_ne_zero fun h => hwraps (by simp [h])
    have hfits : 250/decay*decay≤250 := Nat.div_mul_le_self 250 decay
    have hover : 250<250/decay*decay+decay := by
      have hmod := Nat.div_add_mod' 250 decay
      have hlt := Nat.mod_lt 250 hpos
      omega
    have hlt : 250/decay<n := by
      by_contra hle
      exact hwraps ((Nat.mul_le_mul_right decay (not_lt.mp hle)).trans hfits)
    have hnext := hpairwise.rel_get_of_lt (a := ⟨250/decay,by simp; omega⟩)
      (b := ⟨250/decay+1,by simp; omega⟩) (Nat.lt_succ_self _)
    simp only [List.get_eq_getElem,List.getElem_range,ge_iff_le] at hnext
    rw [Function.iterate_succ_apply',fade_iterate hfits,fade] at hnext
    omega
  · intro hfits
    refine List.pairwise_lt_range.imp_of_mem fun {a b} ha hb hab => ?_
    rw [List.mem_range] at ha hb
    have hbfits : b*decay≤250 := (Nat.mul_le_mul_right decay (by omega)).trans hfits
    have hle : a*decay≤b*decay := Nat.mul_le_mul_right decay hab.le
    rw [fade_iterate (hle.trans hbfits),fade_iterate hbfits]
    omega

/-- A walk of at most eight nodes does not wrap exactly when it is at most one
longer than the steps that the decay is made for. -/
theorem decay_fits_iff {steps n : ℕ} (hlow : 2 ≤ steps) (hhigh : steps≤8) (hn : n≤7) :
    n*(250/steps)≤250 ↔ n ≤ steps := by
  interval_cases steps <;> omega

variable {α : Type} [Field α] [LinearOrder α] [FloorRing α] [IsStrictOrderedRing α]

omit [IsStrictOrderedRing α] in
/-- Two to eight steps are to be seen of a trail, whatever its velocity is. -/
theorem trailSteps_bounds (setup : Setup α) (velocity : α) :
    2 ≤ trailSteps setup velocity ∧ trailSteps setup velocity≤8 := by
  unfold trailSteps maxParticleHistory
  dsimp only
  omega

omit [IsStrictOrderedRing α] in
/-- The number of steps as one expression, with the decimal fractions written out. -/
theorem trailSteps_eq (setup : Setup α) (velocity : α) : trailSteps setup velocity=
    (max 2 (min (truncate ((historySize setup : α)*max (3/10) (min 3 (velocity*2)))) 8)).toNat := by
  simp only [trailSteps,maxParticleHistory,decimal,Nat.cast_ofNat]

/-- Steps of a trail by its velocity. -/
theorem le_trailSteps_iff (setup : Setup α) (velocity : α) {n : ℕ} (hn : n≤7) :
    n ≤ trailSteps setup velocity ↔ n≤2 ∨ (n : α)≤2*velocity*historySize setup := by
  obtain ⟨hlow,hhigh⟩ := historySize_bounds setup
  have hcapLow : (4 : α) ≤ historySize setup := by exact_mod_cast hlow
  have hcapHigh : (historySize setup : α)≤8 := by exact_mod_cast hhigh
  have hnonneg : 0≤(historySize setup : α)*max (3/10) (min 3 (velocity*2)) := by positivity
  have htruncate : (n : ℤ) ≤ truncate ((historySize setup : α)*max (3/10) (min 3 (velocity*2))) ↔
      (n : α)≤(historySize setup : α)*max (3/10) (min 3 (velocity*2)) := by
    rw [truncate_of_nonneg hnonneg,Int.le_floor,Int.cast_natCast]
  have hsteps : n ≤ trailSteps setup velocity ↔
      n≤2 ∨ (n : ℤ) ≤ truncate ((historySize setup : α)*max (3/10) (min 3 (velocity*2))) := by
    rw [trailSteps_eq]
    omega
  rw [hsteps,htruncate]
  by_cases hsmall : n≤2
  · simp [hsmall]
  · have hthree : (3 : α)≤n := by exact_mod_cast (by omega : 3≤n)
    have hseven : (n : α)≤7 := by exact_mod_cast hn
    refine or_congr_right ?_
    rw [mul_max_of_nonneg _ _ (by positivity),le_max_iff,mul_min_of_nonneg _ _ (by positivity),
      le_min_iff]
    constructor
    · rintro (h | ⟨-,h⟩)
      · linarith
      · linarith
    · intro h
      exact Or.inr ⟨by linarith,by linarith⟩

/-- On the walk through a trail no node is more opaque than a newer one. -/
def Fades (setup : Setup α) (it : Particle α) : Prop :=
  ∃ visits,WalksTrail setup it visits ∧ (visits.map Prod.snd).Pairwise (·≥·)

omit [IsStrictOrderedRing α] in
/-- There is only one walk over a trail, since every visit determines the next one. -/
theorem WalksTrail.unique {setup : Setup α} {it : Particle α} {visits visits' : List (ℕ×ℕ)}
    (h : WalksTrail setup it visits) (h' : WalksTrail setup it visits') : visits=visits' :=
  Option.some.inj ((h.ends _ le_rfl).symm.trans (h'.ends _ le_rfl))

omit [IsStrictOrderedRing α] in
/-- No line of a fading trail is more opaque than one before it. -/
theorem Fades.lines {setup : Setup α} {it : Particle α} (h : Fades setup it) (e : Surroundings α) :
    ∃ visits,WalksTrail setup it visits ∧
      ((drawTrail setup e it visits).map TrailLine.alpha).Pairwise (·≥·) := by
  obtain ⟨visits,hwalks,hpairwise⟩ := h
  exact ⟨visits,hwalks,hpairwise.sublist (drawTrail_alphas setup e it visits)⟩

/-- A kept trail fades exactly when it has at most three nodes, or a velocity
that is large enough for their number. -/
theorem TrailKept.fades_exactly {setup : Setup α} {it : Particle α}
    (hkept : TrailKept (historySize setup) it) :
    Fades setup it ↔
      it.cursor.size≤3 ∨ ((it.cursor.size : α)-1)≤2*it.velocity*historySize setup := by
  obtain ⟨-,hsize,hle,-⟩ := hkept.valid
  obtain ⟨-,hcap⟩ := historySize_bounds setup
  obtain ⟨hlow,hhigh⟩ := trailSteps_bounds setup it.velocity
  obtain ⟨n,hn⟩ : ∃ n,it.cursor.size=n+1 := ⟨it.cursor.size-1,by omega⟩
  have halphas : (trailWalk setup it).map Prod.snd=
      (List.range (n+1)).map fun age => (fade (alphaDecay setup it.velocity))^[age] 250 := by
    rw [trailWalk,List.map_map,hn]
    rfl
  have hdecay : alphaDecay setup it.velocity<256 :=
    (Nat.div_le_self 250 (trailSteps setup it.velocity)).trans_lt (by decide)
  have hfades : Fades setup it ↔ ((trailWalk setup it).map Prod.snd).Pairwise (·≥·) := by
    constructor
    · rintro ⟨visits,hwalks,hpairwise⟩
      rwa [hwalks.unique hkept.walks] at hpairwise
    · exact fun hpairwise => ⟨_,hkept.walks,hpairwise⟩
  rw [hfades,halphas,fade_pairwise_iff hdecay,alphaDecay,decay_fits_iff hlow hhigh (by omega),
    le_trailSteps_iff setup it.velocity (by omega),hn]
  push_cast
  rw [add_sub_cancel_right]

/-- Trails fade in every run exactly at particles with at most three nodes, or
with a velocity that is large enough for their number of nodes. -/
theorem fades_iff (setup : Setup α) (events : List (ParticleEvent α)) :
    ∀ it∈(run (particleStep setup) {} events).particles,
      Fades setup it ↔
        it.cursor.size≤3 ∨ ((it.cursor.size : α)-1)≤2*it.velocity*historySize setup :=
  fun it hit => ((kept_trailKept setup).run events it hit).fades_exactly

/-- After seven frames the particle of the sample view has moved once. -/
theorem moved_mem_sevenFrames :
    moved slowSetup (globe 0) (dueParticle 0) (8*eastStep slowCurrent,0) slowCurrent∈
      (run (particleStep slowSetup) {} (.load::List.replicate 7 (.frame (globe 0)))).particles := by
  rw [seven_frames_globe]
  exact List.mem_singleton_self _

/-- A particle that was updated once in a slow current, seven frames after the load. -/
theorem fades_iff_slow :
    moved slowSetup (globe 0) (dueParticle 0) (8*eastStep slowCurrent,0) slowCurrent∈
        (run (particleStep slowSetup) {} (.load::List.replicate 7 (.frame (globe 0)))).particles ∧
    (Fades slowSetup (moved slowSetup (globe 0) (dueParticle 0) (8*eastStep slowCurrent,0) slowCurrent) ↔
      (moved slowSetup (globe 0) (dueParticle 0) (8*eastStep slowCurrent,0) slowCurrent).cursor.size≤3 ∨
        (((moved slowSetup (globe 0) (dueParticle 0) (8*eastStep slowCurrent,0) slowCurrent).cursor.size : ℝ)-1)≤
          2*(moved slowSetup (globe 0) (dueParticle 0) (8*eastStep slowCurrent,0) slowCurrent).velocity*
            historySize slowSetup) :=
  ⟨moved_mem_sevenFrames,fades_iff slowSetup _ _ moved_mem_sevenFrames⟩

/-- Its trail has eight nodes, and the decay is made for five steps. -/
theorem not_fades_slow :
    ∃ it∈(run (particleStep slowSetup) {} (.load::List.replicate 7 (.frame (globe 0)))).particles,
      it.cursor.size=8 ∧ it.velocity=slowCurrent ∧ ¬Fades slowSetup it := by
  have hsize : (moved slowSetup (globe 0) (dueParticle 0) (8*eastStep slowCurrent,0) slowCurrent).cursor.size=8 := by
    have hcursor := (newParticle_trail slowSetup (globe 0) 0 0 0 (0,0) slowCurrent).2.1
    change ((newParticle slowSetup (globe 0) 0 0 0 (0,0) slowCurrent).cursor.advance
      (historySize slowSetup)).size=8
    rw [hcursor,historySize_slow]
    rfl
  have hkept := (kept_trailKept slowSetup).run _ _ moved_mem_sevenFrames
  refine ⟨_,moved_mem_sevenFrames,hsize,rfl,fun hfades => ?_⟩
  have hcond := hkept.fades_exactly.mp hfades
  have hvelocity : (moved slowSetup (globe 0) (dueParticle 0) (8*eastStep slowCurrent,0) slowCurrent).velocity=
      slowCurrent := rfl
  rw [hsize,hvelocity,historySize_slow,slowCurrent_eq] at hcond
  norm_num at hcond

end Fading

end NcdfPlugin.NcdfTrail
