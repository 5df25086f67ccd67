import Mathlib.Data.List.Chain
import Mathlib.Order.Lattice

/-!
# Search among increasing stops

Stops are positions with a value, in increasing order. The search returns the
two neighbouring stops around a position: the first neighbours whose second
stop is at or above it.
-/

namespace NcdfPlugin.IncreasingStops

variable {α β : Type*}

/-- Neighbouring stops, in order. -/
def neighbours (stops : List (α×β)) : List ((α×β)×(α×β)) := stops.zip stops.tail

@[simp] theorem neighbours_cons_cons (a b : α×β) (rest : List (α×β)) :
    neighbours (a::b::rest)=(a,b)::neighbours (b::rest) := rfl

/-- Both neighbours are stops. -/
theorem mem_of_neighbours {stops : List (α×β)} {a b : α×β} (h : (a,b)∈neighbours stops) :
    a∈stops ∧ b∈stops :=
  ⟨(List.of_mem_zip h).1,List.mem_of_mem_tail (List.of_mem_zip h).2⟩

/-- Every stop after the first has a neighbour before it. -/
theorem exists_neighbour {first : α×β} {rest : List (α×β)} {b : α×β} (h : b∈rest) :
    ∃ a,(a,b)∈neighbours (first::rest) := by
  induction rest generalizing first with
  | nil => cases h
  | cons second rest ih =>
    rw [neighbours_cons_cons]
    rcases List.mem_cons.mp h with rfl | h
    · exact ⟨first,List.mem_cons_self⟩
    · obtain ⟨a,ha⟩ := ih h
      exact ⟨a,List.mem_cons_of_mem _ ha⟩

variable [LinearOrder α]

/-- Stops in increasing order. -/
def Increasing (stops : List (α×β)) : Prop := stops.Pairwise fun a b => a.1<b.1

/-- Stops are increasing when each lies above its neighbour. -/
theorem increasing_of_isChain {stops : List (α×β)}
    (h : stops.IsChain fun a b => a.1<b.1) : Increasing stops :=
  haveI : IsTrans (α×β) fun a b => a.1<b.1 := ⟨fun _ _ _ => lt_trans⟩
  List.isChain_iff_pairwise.mp h

/-- Neighbours of increasing stops are increasing. -/
theorem Increasing.neighbours_lt {stops : List (α×β)} (hinc : Increasing stops) {a b : α×β}
    (h : (a,b)∈neighbours stops) : a.1<b.1 := by
  induction stops with
  | nil => cases h
  | cons first rest ih =>
    cases rest with
    | nil => cases h
    | cons second rest =>
      rw [neighbours_cons_cons] at h
      rcases List.mem_cons.mp h with h | h
      · cases h
        exact List.rel_of_pairwise_cons hinc List.mem_cons_self
      · exact ih (List.Pairwise.of_cons hinc) h

/-- The first neighbours whose second stop is at or above a position. -/
def findNeighbours (x : α) : List (α×β) → Option ((α×β)×(α×β))
  | a::b::rest => if x≤b.1 then some (a,b) else findNeighbours x (b::rest)
  | _ => none

/-- Between two neighbours the search finds these two: the second stop of
every earlier pair is at or below the first of them. -/
theorem findNeighbours_eq {stops : List (α×β)} (hinc : Increasing stops) {a b : α×β}
    (h : (a,b)∈neighbours stops) {x : α} (hlow : a.1<x) (hhigh : x≤b.1) :
    findNeighbours x stops=some (a,b) := by
  induction stops with
  | nil => cases h
  | cons first rest ih =>
    cases rest with
    | nil => cases h
    | cons second rest =>
      rw [neighbours_cons_cons] at h
      rcases List.mem_cons.mp h with h | h
      · cases h
        rw [findNeighbours,if_pos hhigh]
      · have hrest : Increasing (second::rest) := List.Pairwise.of_cons hinc
        have hbelow : second.1≤a.1 := by
          rcases List.mem_cons.mp (mem_of_neighbours h).1 with rfl | ha
          · exact le_rfl
          · exact (List.rel_of_pairwise_cons hrest ha).le
        rw [findNeighbours,if_neg (not_le.mpr (hbelow.trans_lt hlow))]
        exact ih hrest h

/-- A stop after the first is found with the neighbour before it. -/
theorem findNeighbours_stop {first : α×β} {rest : List (α×β)}
    (hinc : Increasing (first::rest)) {b : α×β} (hb : b∈rest) :
    ∃ a,(a,b)∈neighbours (first::rest) ∧ findNeighbours b.1 (first::rest)=some (a,b) := by
  obtain ⟨a,ha⟩ := exists_neighbour hb
  exact ⟨a,ha,findNeighbours_eq hinc ha (hinc.neighbours_lt ha) le_rfl⟩

end NcdfPlugin.IncreasingStops
