import Mathlib.Data.List.Induction
import Mathlib.Logic.Function.Basic
import Mathlib.Data.Set.Basic

/-!
# In-place sweeps

A sweep visits sites one after the other and overwrites each with a value
computed from the store it reads. When no written value reaches the
computation of another site, the sweep is the update of the visited sites
from one snapshot, in whatever order they are visited. Filling a gap between
two present neighbours is such an update. Operations that are interleaved
over several stores act on each store as they would alone.
-/

namespace NcdfPlugin.InPlaceSweep

section Sweep

variable {ι β : Type*} [DecidableEq ι]

/-- One visit: a site receives the value computed from the current store. -/
def visit (f : (ι → β) → ι → β) (store : ι → β) (c : ι) : ι → β :=
  Function.update store c (f store c)

/-- Visits in the order of a list, each reading what the earlier ones left. -/
def sweep (f : (ι → β) → ι → β) (store : ι → β) (sites : List ι) : ι → β :=
  sites.foldl (visit f) store

/-- Update of the listed sites from the given store as a snapshot. -/
def snapshotUpdate (f : (ι → β) → ι → β) (store : ι → β) (sites : List ι) : ι → β :=
  fun c => if c∈sites then f store c else store c

/-- A store in which some sites already have their new value. -/
def PartlyUpdated (f : (ι → β) → ι → β) (store store' : ι → β) : Prop :=
  ∀ c,store' c=store c ∨ store' c=f store c

/-- New values do not depend on which other sites are already updated. -/
def NonCascading (f : (ι → β) → ι → β) (store : ι → β) : Prop :=
  ∀ store',PartlyUpdated f store store' → ∀ c,f store' c=f store c

variable {f : (ι → β) → ι → β} {store : ι → β}

/-- An update from a snapshot is a partial update: each site holds its old value or the one
computed from old values. -/
theorem partlyUpdated_snapshotUpdate (sites : List ι) :
    PartlyUpdated f store (snapshotUpdate f store sites) := by
  intro c
  unfold snapshotUpdate
  split
  · exact Or.inr rfl
  · exact Or.inl rfl

/-- A visit adds its site to the snapshot update. -/
theorem visit_snapshotUpdate (h : NonCascading f store) (sites : List ι) (c : ι) :
    visit f (snapshotUpdate f store sites) c=snapshotUpdate f store (sites++[c]) := by
  funext x
  have hvalue := h _ (partlyUpdated_snapshotUpdate sites) c
  by_cases hx : x=c
  · subst hx
    rw [visit,Function.update_self,hvalue,snapshotUpdate,if_pos (by simp)]
  · rw [visit,Function.update_of_ne hx,snapshotUpdate,snapshotUpdate]
    simp [hx]

/-- A sweep without cascades is the update from one snapshot. -/
theorem sweep_eq_snapshotUpdate (h : NonCascading f store) (sites : List ι) :
    sweep f store sites=snapshotUpdate f store sites := by
  have hsplit : ∀ visited,sweep f (snapshotUpdate f store visited) sites=
      snapshotUpdate f store (visited++sites) := by
    induction sites with
    | nil => intro visited; simp [sweep]
    | cons c sites ih =>
      intro visited
      have hstep := ih (visited++[c])
      rw [←visit_snapshotUpdate h,List.append_assoc,List.singleton_append] at hstep
      exact hstep
  have hempty : snapshotUpdate f store []=store := by
    funext c
    simp [snapshotUpdate]
  have hwhole := hsplit []
  rwa [hempty,List.nil_append] at hwhole

/-- After any part of a sweep each site has its old or its new value. -/
theorem partlyUpdated_sweep (h : NonCascading f store) (sites : List ι) :
    PartlyUpdated f store (sweep f store sites) := by
  rw [sweep_eq_snapshotUpdate h]
  exact partlyUpdated_snapshotUpdate sites

end Sweep

section Gaps

variable {ι β : Type*} [DecidableEq β]

/-- A missing site between two neighbours that are not missing. -/
def Gap (missing : β) (before after : ι → ι) (store : ι → β) (c : ι) : Prop :=
  store c=missing ∧ store (before c)≠missing ∧ store (after c)≠missing

instance (missing : β) (before after : ι → ι) (store : ι → β) (c : ι) :
    Decidable (Gap missing before after store c) := inferInstanceAs (Decidable (_ ∧ _ ∧ _))

/-- Value of a site after the filling of gaps. -/
def fillGap (missing : β) (mean : β → β → β) (before after : ι → ι) (store : ι → β) (c : ι) : β :=
  if Gap missing before after store c then mean (store (before c)) (store (after c)) else store c

/-- Sites on lines: each is the successor of the site before it, unless it is
the first of its line, and the predecessor of the site after it. -/
structure OnLines (before after : ι → ι) : Prop where
  /-- The first site of a line precedes itself. -/
  after_before : ∀ c,before c=c ∨ after (before c)=c
  /-- Lines do not end. -/
  before_after : ∀ c,before (after c)=c

variable {missing : β} {mean : β → β → β} {before after : ι → ι} {store store' : ι → β}

/-- A site that is not missing keeps its value. -/
theorem fillGap_of_present {c : ι} (h : store c≠missing) :
    fillGap missing mean before after store c=store c :=
  if_neg fun hgap => h hgap.1

/-- The two sites from which the value of a missing site is computed have values, so they
are no gaps and stay as they are. -/
theorem fillGap_neighbours (mean : β → β → β) (hlines : OnLines before after) {c : ι}
    (h : store c=missing) :
    fillGap missing mean before after store (before c)=store (before c) ∧
      fillGap missing mean before after store (after c)=store (after c) := by
  constructor
  · refine if_neg fun hgap => ?_
    rcases hlines.after_before c with hfirst | hback
    · rw [hfirst] at hgap
      exact hgap.2.1 (hfirst.symm ▸ h)
    · exact hgap.2.2 (hback.symm ▸ h)
  · refine if_neg fun hgap => hgap.2.1 ?_
    rw [hlines.before_after c]
    exact h

/-- Next to a missing site nothing changes while gaps are being filled. -/
theorem neighbours_unchanged (hlines : OnLines before after)
    (hpart : PartlyUpdated (fillGap missing mean before after) store store') {c : ι}
    (h : store c=missing) : store' (before c)=store (before c) ∧ store' (after c)=store (after c) := by
  obtain ⟨hbefore,hafter⟩ := fillGap_neighbours mean hlines h
  constructor
  · rcases hpart (before c) with heq | heq
    · exact heq
    · exact heq.trans hbefore
  · rcases hpart (after c) with heq | heq
    · exact heq
    · exact heq.trans hafter

/-- A site that is still missing was missing at first. -/
theorem missing_of_partlyUpdated
    (hpart : PartlyUpdated (fillGap missing mean before after) store store') {c : ι}
    (h : store' c=missing) : store c=missing := by
  by_contra hpresent
  rcases hpart c with heq | heq
  · exact hpresent (heq.symm.trans h)
  · exact hpresent ((heq.trans (fillGap_of_present hpresent)).symm.trans h)

/-- Filled values are never inputs: while gaps are being filled, both
neighbours of a gap are as they were at first. -/
theorem gap_inputs (hlines : OnLines before after)
    (hpart : PartlyUpdated (fillGap missing mean before after) store store') {c : ι}
    (h : Gap missing before after store' c) :
    (store' (before c)=store (before c) ∧ store' (after c)=store (after c)) ∧
      Gap missing before after store c := by
  have hmissing := missing_of_partlyUpdated hpart h.1
  obtain ⟨hbefore,hafter⟩ := neighbours_unchanged hlines hpart hmissing
  exact ⟨⟨hbefore,hafter⟩,hmissing,hbefore ▸ h.2.1,hafter ▸ h.2.2⟩

/-- The filling of gaps does not cascade. -/
theorem nonCascading_fillGap (hlines : OnLines before after) :
    NonCascading (fillGap missing mean before after) store := by
  intro store' hpart c
  by_cases hmissing : store c=missing
  · obtain ⟨hbefore,hafter⟩ := neighbours_unchanged hlines hpart hmissing
    by_cases hstill : store' c=missing
    · -- nothing was written here yet, or the mean is itself the marker
      simp only [fillGap,Gap,hbefore,hafter,hstill,hmissing]
    · rw [fillGap_of_present hstill]
      rcases hpart c with heq | heq
      · exact absurd (heq.trans hmissing) hstill
      · exact heq
  · have hkept : store' c=store c := by
      rcases hpart c with heq | heq
      · exact heq
      · exact heq.trans (fillGap_of_present hmissing)
    rw [fillGap_of_present (hkept ▸ hmissing),fillGap_of_present hmissing,hkept]

/-- Two stores lack a value at the same sites. -/
def SameMask (missing : β) (store store' : ι → β) : Prop :=
  ∀ c,store c=missing ↔ store' c=missing

/-- All values that are not missing lie in a set. -/
def PresentIn (missing : β) (S : Set β) (store : ι → β) : Prop := ∀ c,store c≠missing → store c∈S

/-- Means of values of one set lie in a larger one, which excludes the marker. -/
structure MeansInto (missing : β) (mean : β → β → β) (S T : Set β) : Prop where
  /-- The second set is the larger. -/
  subset : S⊆T
  /-- Means of two values. -/
  mean_mem : ∀ a∈S,∀ b∈S,mean a b∈T
  /-- No mean is the marker. -/
  clear : missing∉T

omit [DecidableEq β] in
/-- Gaps depend on the mask alone. -/
theorem SameMask.gap_iff (hmask : SameMask missing store store') (c : ι) :
    Gap missing before after store c ↔ Gap missing before after store' c := by
  exact and_congr (hmask c) (and_congr (not_congr (hmask (before c))) (not_congr (hmask (after c))))

/-- A site is missing afterwards when it was, and was no gap. -/
theorem fillGap_eq_missing_iff {S T : Set β} (hmeans : MeansInto missing mean S T)
    (hpresent : PresentIn missing S store) (c : ι) :
    fillGap missing mean before after store c=missing ↔
      store c=missing ∧ ¬Gap missing before after store c := by
  unfold fillGap
  split
  next hgap =>
    have hmean := hmeans.mean_mem _ (hpresent _ hgap.2.1) _ (hpresent _ hgap.2.2)
    exact ⟨fun heq => absurd (heq ▸ hmean) hmeans.clear,fun hnot => absurd hgap hnot.2⟩
  next hgap => exact ⟨fun heq => ⟨heq,hgap⟩,fun hnot => hnot.1⟩

/-- Where means of values of a set lie in a larger one, a filled store has values of the
larger set. -/
theorem presentIn_fillGap {S T : Set β} (hmeans : MeansInto missing mean S T)
    (hpresent : PresentIn missing S store) :
    PresentIn missing T (fillGap missing mean before after store) := by
  intro c hc
  unfold fillGap at hc ⊢
  split
  next hgap => exact hmeans.mean_mem _ (hpresent _ hgap.2.1) _ (hpresent _ hgap.2.2)
  next hgap =>
    rw [if_neg hgap] at hc
    exact hmeans.subset (hpresent c hc)

variable [DecidableEq ι]

/-- Values that a mean cannot leave are not left by a whole update from a snapshot either.
-/
theorem presentIn_snapshotUpdate {S T : Set β} (hmeans : MeansInto missing mean S T)
    (hpresent : PresentIn missing S store) (sites : List ι) :
    PresentIn missing T (snapshotUpdate (fillGap missing mean before after) store sites) := by
  intro c hc
  unfold snapshotUpdate at hc ⊢
  split
  next hin =>
    rw [if_pos hin] at hc
    exact presentIn_fillGap hmeans hpresent c hc
  next hout =>
    rw [if_neg hout] at hc
    exact hmeans.subset (hpresent c hc)

/-- Filling keeps a common mask, although each store is filled by itself. -/
theorem SameMask.snapshotUpdate {S T S' T' : Set β} (hmask : SameMask missing store store')
    (hmeans : MeansInto missing mean S T) (hmeans' : MeansInto missing mean S' T')
    (hpresent : PresentIn missing S store) (hpresent' : PresentIn missing S' store')
    (sites : List ι) :
    SameMask missing (snapshotUpdate (fillGap missing mean before after) store sites)
      (snapshotUpdate (fillGap missing mean before after) store' sites) := by
  intro c
  unfold InPlaceSweep.snapshotUpdate
  split
  · rw [fillGap_eq_missing_iff hmeans hpresent,fillGap_eq_missing_iff hmeans' hpresent',hmask c,
      hmask.gap_iff c]
  · exact hmask c

end Gaps

section Interleaving

variable {κ σ : Type*} [DecidableEq κ]

/-- One operation applied to the stores of the listed keys in turn. -/
def touchEach (keys : List κ) (stores : κ → σ) (op : σ → σ) : κ → σ :=
  keys.foldl (fun s k => Function.update s k (op (s k))) stores

/-- Distinct keys are touched once each by a loop over them, and no other key is touched at
all. -/
theorem touchEach_apply {keys : List κ} (hnodup : keys.Nodup) (stores : κ → σ) (op : σ → σ) (k : κ) :
    touchEach keys stores op k=if k∈keys then op (stores k) else stores k := by
  unfold touchEach
  induction keys generalizing stores with
  | nil => simp
  | cons key keys ih =>
    obtain ⟨hnot,htail⟩ := List.nodup_cons.mp hnodup
    rw [List.foldl_cons,ih htail]
    by_cases hk : k=key
    · subst hk
      simp [hnot]
    · simp [hk]

/-- Several loops over distinct keys act on each store as if its own operations were made
alone, one after another. -/
theorem foldl_touchEach_apply {keys : List κ} (hnodup : keys.Nodup) (ops : List (σ → σ))
    (stores : κ → σ) (k : κ) :
    ops.foldl (touchEach keys) stores k=
      if k∈keys then ops.foldl (fun s op => op s) (stores k) else stores k := by
  induction ops generalizing stores with
  | nil => simp
  | cons op ops ih =>
    rw [List.foldl_cons,ih,touchEach_apply hnodup]
    split <;> rfl

end Interleaving

section Scatter

variable {κ ι β γ : Type*} [DecidableEq ι]

/-- A loop that writes one entry in each turn, with a value computed from the
current store. -/
def scatter (key : κ → ι) (value : κ → (ι → β) → β) (store : ι → β) (turns : List κ) : ι → β :=
  turns.foldl (fun store c => Function.update store (key c) (value c store)) store

/-- The last turn of a scatter writes last, and computes its value from what all the turns
before it left. -/
theorem scatter_append (key : κ → ι) (value : κ → (ι → β) → β) (store : ι → β) (turns : List κ) (c : κ) :
    scatter key value store (turns++[c])=
      Function.update (scatter key value store turns) (key c)
        (value c (scatter key value store turns)) := by
  simp [scatter,List.foldl_append]

/-- An entry that is the key of no turn keeps its value through the whole scatter. -/
theorem scatter_of_notMem (key : κ → ι) (value : κ → (ι → β) → β) {turns : List κ} {x : ι} (h : ∀ c∈turns,key c≠x) (store : ι → β) :
    scatter key value store turns x=store x := by
  induction turns using List.reverseRecOn with
  | nil => rfl
  | append_singleton turns c ih =>
    have hc := h c (List.mem_append_right _ (List.mem_singleton_self c))
    rw [scatter_append,Function.update_of_ne hc.symm]
    exact ih fun d hd => h d (List.mem_append_left _ hd)

/-- When the turns write different entries and read none of them, each entry
receives its value from the store before the loop. -/
theorem scatter_of_mem (key : κ → ι) (value : κ → (ι → β) → β) {turns : List κ} {store : ι → β}
    (hkeys : ∀ c∈turns,∀ d∈turns,key c=key d → c=d)
    (hreads : ∀ c∈turns,∀ store',(∀ x,(∀ d∈turns,key d≠x) → store' x=store x) →
      value c store'=value c store) {c : κ} (hc : c∈turns) :
    scatter key value store turns (key c)=value c store := by
  induction turns using List.reverseRecOn with
  | nil => cases hc
  | append_singleton turns d ih =>
    have hd : d∈turns++[d] := List.mem_append_right _ (List.mem_singleton_self d)
    rw [scatter_append]
    by_cases hcd : key c=key d
    · obtain rfl := hkeys c hc d hd hcd
      rw [Function.update_self]
      exact hreads c hd _ fun x hx =>
        scatter_of_notMem key value (fun e he => hx e (List.mem_append_left _ he)) store
    · have hc' : c∈turns := by
        rcases List.mem_append.mp hc with hold | hnew
        · exact hold
        · exact absurd (congrArg key (List.mem_singleton.mp hnew)) hcd
      rw [Function.update_of_ne hcd]
      refine ih (fun a ha b hb => hkeys a (List.mem_append_left _ ha) b (List.mem_append_left _ hb))
        (fun a ha store' hstore' => ?_) hc'
      refine hreads a (List.mem_append_left _ ha) store' fun x hx => ?_
      exact hstore' x fun e he => hx e (List.mem_append_left _ he)

/-- A map of the values that commutes with every turn commutes with the whole scatter, so
both sides may be compared turn by turn. -/
theorem scatter_map (f : β → γ) (key : κ → ι) (value : κ → (ι → β) → β)
    (value' : κ → (ι → γ) → γ)
    (hvalue : ∀ c store,f (value c store)=value' c (f∘store)) (store : ι → β) (turns : List κ) :
    f∘scatter key value store turns=scatter key value' (f∘store) turns := by
  induction turns using List.reverseRecOn with
  | nil => rfl
  | append_singleton turns c ih =>
    rw [scatter_append,scatter_append,←ih,←hvalue,Function.comp_update]

end Scatter

end NcdfPlugin.InPlaceSweep
