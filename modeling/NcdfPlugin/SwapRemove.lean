import Mathlib.Data.List.Perm.Basic

/-!
# Loops that remove by overwriting with the last element

The loop visits an array by an unsigned index. A visit leaves the element, or
it removes it: the last element takes its place, the array becomes shorter,
and the index is stepped back so that the same place is visited again. The
places before the index hold survivors in the order of their visits. Every
element that was there at the start is visited exactly once, whatever state
the visits pass on.
-/

namespace NcdfPlugin.SwapRemove

section Loop

variable {τ σ : Type*} (visit : σ → τ → Option τ×σ)

/-- Values of the unsigned index. -/
def indexRange : ℕ := 4294967296

/-- The loop with fuel, from an index, an array and a state of the visits. -/
def loop : ℕ → ℕ → List τ → σ → Option (List τ×σ)
  | 0,_,_,_ => none
  | fuel+1,i,l,s =>
    match l[i]? with
    | none => some (l,s)
    | some x =>
      match visit s x with
      | (some y,s') => loop fuel ((i+1)%indexRange) (l.set i y) s'
      | (none,s') =>
        -- the index is stepped back, below zero for the first element, and on
        loop fuel (((i+indexRange-1)%indexRange+1)%indexRange)
          (l.set i (l.getLast?.getD x)).dropLast s'

/-- Visits in the order of a list, each with the state it finds. -/
def trace : σ → List τ → List (σ×τ)
  | _,[] => []
  | s,x::xs => (s,x)::trace (visit s x).2 xs

/-- State after the visits of a list. -/
def finalState (s : σ) (visited : List τ) : σ := visited.foldl (fun s x => (visit s x).2) s

/-- What the visits of a list leave. -/
def survivors (s : σ) (visited : List τ) : List τ :=
  (trace visit s visited).filterMap fun v => (visit v.1 v.2).1

/-- The loop as a recursion over the places that are not yet visited. A removed
element is followed by the last of them, which is visited in its place. -/
def sweep : σ → List τ → List τ×σ
  | s,[] => ([],s)
  | s,x::rest =>
    match visit s x with
    | (some y,s') => (y::(sweep s' rest).1,(sweep s' rest).2)
    | (none,s') => if h : rest=[] then ([],s') else sweep s' (rest.getLast h::rest.dropLast)
termination_by _ l => l.length
decreasing_by
  · simp
  · have hlen := List.length_pos_of_ne_nil h
    simp only [List.length_cons,List.length_dropLast]
    omega

/-- The trace of a list of visits visits the elements of the list. -/
theorem trace_map_snd (s : σ) (visited : List τ) : (trace visit s visited).map Prod.snd=visited := by
  induction visited generalizing s with
  | nil => rfl
  | cons x xs ih => rw [trace,List.map_cons,ih]

variable {visit}

/-- Stepping back and on again leads to the same index, also from zero, where the unsigned
index comes around. -/
theorem step_back {i : ℕ} (hi : i < indexRange) :
    ((i+indexRange-1)%indexRange+1)%indexRange=i := by
  unfold indexRange at hi ⊢
  omega

/-- The last element in the place of a removed one, which was not the last
itself. -/
theorem replace_by_last (done : List τ) (x : τ) {rest : List τ} (hne : rest≠[]) :
    ((done++x::rest).set done.length (((done++x::rest).getLast?).getD x)).dropLast=
      done++rest.getLast hne::rest.dropLast := by
  have hfront := List.dropLast_append_getLast hne
  have hwhole : done++x::rest=(done++x::rest.dropLast)++[rest.getLast hne] := by simp [hfront]
  have hlast : (done++x::rest).getLast? = some (rest.getLast hne) :=
    (congrArg List.getLast? hwhole).trans List.getLast?_concat
  have hset : (done++x::rest).set done.length (rest.getLast hne)=
      (done++rest.getLast hne::rest.dropLast)++[rest.getLast hne] := by
    simp [hfront]
  rw [hlast,Option.getD_some,hset,List.dropLast_concat]

/-- The last element of an array, when it is removed, is overwritten with itself and
dropped. -/
theorem remove_last (done : List τ) (x : τ) :
    ((done++[x]).set done.length ((done++[x]).getLast?.getD x)).dropLast=done := by
  simp

/-- A survivor stays in its place, and the visits go on behind it. -/
theorem sweep_keeps {s s' : σ} {x y : τ} (hvisit : visit s x=(some y,s')) (rest : List τ) :
    sweep visit s (x::rest)=(y::(sweep visit s' rest).1,(sweep visit s' rest).2) := by
  rw [sweep,hvisit]

/-- A removal at the end of the array leaves nothing more to visit. -/
theorem sweep_removes_last {s s' : σ} {x : τ} (hvisit : visit s x=(none,s')) :
    sweep visit s [x]=([],s') := by
  rw [sweep,hvisit]
  exact dif_pos rfl

/-- A removal elsewhere puts the last element in front of those that are not yet
visited. -/
theorem sweep_removes {s s' : σ} {x : τ} (hvisit : visit s x=(none,s')) {rest : List τ}
    (hne : rest≠[]) :
    sweep visit s (x::rest)=sweep visit s' (rest.getLast hne::rest.dropLast) := by
  rw [sweep,hvisit]
  exact dif_neg hne

/-- The elements that are not yet visited stay the same. -/
theorem getLast_perm {rest : List τ} (hne : rest≠[]) : (rest.getLast hne::rest.dropLast).Perm rest := by
  have hback := (List.perm_append_singleton (rest.getLast hne) rest.dropLast).symm
  rwa [List.dropLast_append_getLast hne] at hback

/-- From survivors and elements that are not yet visited the loop leaves the
former and what the recursion leaves of the latter. The induction is on the
number of the elements that are not yet visited. -/
theorem loop_from (n : ℕ) {done rest : List τ} {fuel : ℕ} (s : σ) (hn : rest.length=n)
    (hfuel : n<fuel) (hrange : done.length+n < indexRange) :
    loop visit fuel done.length (done++rest) s=
      some (done++(sweep visit s rest).1,(sweep visit s rest).2) := by
  induction n generalizing done rest fuel s with
  | zero =>
    obtain ⟨fuel,rfl⟩ : ∃ k,fuel=k+1 := ⟨fuel-1,by omega⟩
    obtain rfl := List.length_eq_zero_iff.mp hn
    simp [loop,sweep]
  | succ n ih =>
    obtain ⟨fuel,rfl⟩ : ∃ k,fuel=k+1 := ⟨fuel-1,by omega⟩
    obtain ⟨x,rest,rfl⟩ := List.exists_of_length_succ rest hn
    rw [List.length_cons,Nat.add_right_cancel_iff] at hn
    have hhead : (done++x::rest)[done.length]? = some x := by simp
    have hfuel' : n<fuel := Nat.lt_of_succ_lt_succ hfuel
    have hsame : done.length+n < indexRange := by omega
    rw [loop,hhead]
    dsimp only
    cases hvisit : visit s x with
    | mk outcome s' =>
    cases outcome with
    | some y =>
      -- the survivor joins the places before the index
      have hmore : (done++[y]).length+n < indexRange := by
        rw [List.length_append,List.length_singleton]
        omega
      have hset : (done++x::rest).set done.length y=(done++[y])++rest := by simp
      have hnext : (done.length+1)%indexRange=(done++[y]).length := by
        rw [List.length_append,List.length_singleton,Nat.mod_eq_of_lt (by omega)]
      dsimp only
      rw [hset,hnext,ih s' hn hfuel' hmore,sweep_keeps hvisit,List.append_assoc,List.singleton_append]
    | none =>
      -- the last element takes the place, and the index stays
      have hback := step_back (i := done.length) (by omega)
      dsimp only
      rw [hback]
      rcases eq_or_ne rest [] with rfl | hne
      · have hloop := ih s' hn hfuel' hsame
        rw [List.append_nil] at hloop
        rw [remove_last,hloop,sweep_removes_last hvisit,sweep]
      · have hlength := (getLast_perm hne).length_eq.trans hn
        rw [replace_by_last done x hne,ih s' hlength hfuel' hsame,sweep_removes hvisit hne]

/-- The loop over an array ends with what the recursion leaves, as long as the
array is shorter than the range of the index. -/
theorem loop_sweep {l : List τ} (hrange : l.length < indexRange) {fuel : ℕ} (hfuel : l.length<fuel)
    (s : σ) : loop visit fuel 0 l s=some (sweep visit s l) := by
  have hrange' : ([] : List τ).length+l.length < indexRange := by simpa using hrange
  exact loop_from l.length s rfl hfuel hrange'

/-- The recursion visits each element once, in some order, and leaves the
survivors in the order of their visits. -/
theorem sweep_visits (s : σ) (l : List τ) :
    ∃ visited,visited.Perm l ∧
      sweep visit s l=(survivors visit s visited,finalState visit s visited) := by
  induction s,l using sweep.induct visit with
  | case1 s => exact ⟨[],List.Perm.refl _,by simp [sweep,survivors,trace,finalState]⟩
  | case2 s x rest y s' hvisit ih =>
    obtain ⟨visited,hperm,hsweep⟩ := ih
    refine ⟨x::visited,hperm.cons x,?_⟩
    rw [sweep_keeps hvisit,hsweep]
    simp [survivors,trace,finalState,hvisit]
  | case3 s x s' hvisit =>
    refine ⟨[x],List.Perm.refl _,?_⟩
    rw [sweep_removes_last hvisit]
    simp [survivors,trace,finalState,hvisit]
  | case4 s x rest s' hvisit hne ih =>
    obtain ⟨visited,hperm,hsweep⟩ := ih
    refine ⟨x::visited,(hperm.trans (getLast_perm hne)).cons x,?_⟩
    rw [sweep_removes hvisit hne,hsweep]
    simp [survivors,trace,finalState,hvisit]

/-- The loop over an array ends, after one visit of each of its elements, and
leaves the survivors in the order of their visits. -/
theorem loop_eq {l : List τ} (hrange : l.length < indexRange) {fuel : ℕ} (hfuel : l.length<fuel)
    (s : σ) :
    ∃ visited,visited.Perm l ∧
      loop visit fuel 0 l s=some (survivors visit s visited,finalState visit s visited) := by
  obtain ⟨visited,hperm,hsweep⟩ := @sweep_visits _ _ visit s l
  exact ⟨visited,hperm,(loop_sweep hrange hfuel s).trans (congrArg some hsweep)⟩

/-- What visits preserve holds of all that the loop leaves, however long the
array is. -/
theorem loop_forall {P : τ → Prop} (hvisit : ∀ s x y,P x → (visit s x).1=some y → P y) {fuel i : ℕ}
    {l : List τ} {s : σ} (h : ∀ x∈l,P x) {result : List τ×σ}
    (hloop : loop visit fuel i l s=some result) : ∀ x∈result.1,P x := by
  induction fuel generalizing i l s with
  | zero => cases hloop
  | succ fuel ih =>
    rw [loop] at hloop
    cases hx : l[i]? with
    | none =>
      rw [hx] at hloop
      obtain rfl := Option.some.inj hloop
      exact h
    | some x =>
      rw [hx] at hloop
      dsimp only at hloop
      have hmem := List.mem_of_getElem? hx
      cases houtcome : visit s x with
      | mk outcome s' =>
      rw [houtcome] at hloop
      cases outcome with
      | some y =>
        refine ih (fun z hz => ?_) hloop
        rcases List.mem_or_eq_of_mem_set hz with hold | rfl
        · exact h z hold
        · exact hvisit s x z (h x hmem) (by rw [houtcome])
      | none =>
        refine ih (fun z hz => ?_) hloop
        rcases List.mem_or_eq_of_mem_set (List.dropLast_subset _ hz) with hold | rfl
        · exact h z hold
        · cases hlast : l.getLast? with
          | none => exact h x hmem
          | some w => exact h w (List.mem_of_getLast? hlast)

/-- Visits that remove by a test of the element: what they leave are the images
of the others. -/
theorem survivors_of_test {expired : τ → Prop} [DecidablePred expired] {image : σ×τ → τ}
    (hvisit : ∀ s x,(visit s x).1=if expired x then none else some (image (s,x))) (s : σ)
    (visited : List τ) :
    survivors visit s visited=
      ((trace visit s visited).filter fun v => ¬expired v.2).map image := by
  unfold survivors
  induction trace visit s visited with
  | nil => rfl
  | cons v visits ih =>
    rw [List.filterMap_cons,hvisit,List.filter_cons,ih]
    by_cases hv : expired v.2 <;> simp [hv]

end Loop

end NcdfPlugin.SwapRemove
