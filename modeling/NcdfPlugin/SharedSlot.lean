import NcdfPlugin.GuardedRun
import Mathlib.Data.List.Basic

/-!
# One slot shared by several owners

Each owner fills the slot when it is used for the first time since the last
reset, and relies on the slot's content at its later uses. The slot serves
every use exactly when no owner is used again after another one has been
used. The history of uses since the last reset decides this alone.
-/

namespace NcdfPlugin.SharedSlot

open GuardedRun

variable {X : Type*} [DecidableEq X]

/-- A reset, or the use of the slot by an owner. -/
inductive SlotOp (X : Type*) where
  | reset
  | use (x : X)
  deriving DecidableEq

/-- The slot and the owners that have filled it since the last reset. -/
structure SlotState (X : Type*) where
  /-- Owners that will not fill the slot again before a reset. -/
  built : List X := []
  /-- Owner of the present content. -/
  owner : Option X := none

/-- An owner fills the slot at its first use after a reset. -/
def slotStep (s : SlotState X) : SlotOp X → SlotState X
  | .reset => {s with built := []}
  | .use x => if x∈s.built then s else ⟨x::s.built,some x⟩

/-- The content that a use finds is the user's own. -/
def Owned (s : SlotState X) : SlotOp X → Prop
  | .reset => True
  | .use x => (slotStep s (.use x)).owner=some x

omit [DecidableEq X] in
/-- Uses since the last reset, the latest first. -/
def recent (since : List X) : SlotOp X → List X
  | .reset => []
  | .use x => x::since

omit [DecidableEq X] in
/-- An owner used before is the latest one used. -/
def Returns (since : List X) : SlotOp X → Prop
  | .reset => True
  | .use x => x∈since → since.head? = some x

/-- State of a slot that has served every use of a history. -/
structure Tracks (s : SlotState X) (since : List X) : Prop where
  /-- The owners that filled the slot are those of the history. -/
  built_iff : ∀ x,x∈s.built ↔ x∈since
  /-- The content belongs to the latest of them. -/
  owner_eq : ∀ x,since.head? = some x → s.owner=some x

omit [DecidableEq X] in
/-- Before anything is drawn the slot belongs to nobody else. -/
theorem tracks_nil (owner : Option X) : Tracks ⟨[],owner⟩ [] := ⟨by simp,by simp⟩

/-- After served uses the next one is served exactly when its owner is new
or the latest. -/
theorem Tracks.owned_iff {s : SlotState X} {since : List X} (h : Tracks s since) (op : SlotOp X) :
    Owned s op ↔ Returns since op := by
  cases op with
  | reset => exact Iff.rfl
  | use x =>
    by_cases hx : x∈s.built
    · have hmem := (h.built_iff x).mp hx
      obtain ⟨y,hy⟩ : ∃ y,since.head? = some y :=
        Option.ne_none_iff_exists'.mp (by simpa using List.ne_nil_of_mem hmem)
      have howner := h.owner_eq y hy
      simp only [Owned,slotStep,if_pos hx,Returns,howner,hy]
      exact ⟨fun heq _ => heq,fun heq => heq hmem⟩
    · have hmem : x∉since := fun hc => hx ((h.built_iff x).mpr hc)
      simp only [Owned,slotStep,if_neg hx,Returns]
      exact iff_of_true trivial fun hc => absurd hc hmem

/-- A served use keeps the state and the history together. -/
theorem Tracks.step {s : SlotState X} {since : List X} (h : Tracks s since) {op : SlotOp X}
    (hop : Returns since op) : Tracks (slotStep s op) (recent since op) := by
  cases op with
  | reset => exact tracks_nil _
  | use x =>
    have howned : Owned s (.use x) := (h.owned_iff _).mpr hop
    refine ⟨fun y => ?_,fun y hy => ?_⟩
    · by_cases hx : x∈s.built
      · have hmem := (h.built_iff x).mp hx
        rw [slotStep,if_pos hx,h.built_iff,recent,List.mem_cons]
        exact ⟨Or.inr,fun hc => hc.elim (fun heq => heq ▸ hmem) id⟩
      · rw [slotStep,if_neg hx,recent,List.mem_cons,List.mem_cons,h.built_iff]
    · obtain rfl : x=y := by simpa [recent] using hy
      exact howned

/-- The slot serves all uses of a run exactly when no owner returns after
another one was used. -/
theorem along_owned_iff {s : SlotState X} {since : List X} (h : Tracks s since)
    (ops : List (SlotOp X)) : Along slotStep Owned s ops ↔ Along recent Returns since ops := by
  induction ops generalizing s since with
  | nil => exact Iff.rfl
  | cons op ops ih =>
    rw [along_cons,along_cons,h.owned_iff]
    exact and_congr_right fun hop => ih (h.step hop)

end NcdfPlugin.SharedSlot
