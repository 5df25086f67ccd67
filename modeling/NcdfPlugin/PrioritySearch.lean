import Mathlib.Data.Prod.Lex
import Mathlib.Order.Bounds.Basic

/-!
# Searches in order of priority

A list of searches is tried from its first to its last, and the first answer
counts. When every search answers with the least of its own candidates, the
answer is the least of all candidates ranked first by the position of their
search. Searches nest, so the rank of a nested search is a longer tuple.
-/

namespace NcdfPlugin.PrioritySearch

variable {A κ : Type*}

/-- Searches that answer alike are as good as each other. -/
theorem findSome?_congr {find find' : A → Option κ} {l : List A} (h : ∀ a∈l,find a=find' a) :
    l.findSome? find=l.findSome? find' := by
  induction l with
  | nil => rfl
  | cons a l ih =>
    rw [List.findSome?_cons,List.findSome?_cons,h a List.mem_cons_self,
      ih fun a' ha' => h a' (List.mem_cons_of_mem _ ha')]

section Answers

variable [LinearOrder κ] {S : Set κ} {answer : Option κ}

/-- Right answers of a search for the least candidate. -/
def Finds (S : Set κ) : Option κ → Prop
  | none => S=∅
  | some k => IsLeast S k

/-- A search that finds least elements answers with exactly the least one. -/
theorem Finds.eq_some_iff (h : Finds S answer) (k : κ) : answer=some k ↔ IsLeast S k := by
  cases answer with
  | none =>
    have hempty : S=∅ := h
    simp [hempty,IsLeast]
  | some k' =>
    have hleast : IsLeast S k' := h
    rw [Option.some.injEq]
    exact ⟨fun heq => heq ▸ hleast,fun hk => hleast.unique hk⟩

/-- It answers with nothing exactly when there is nothing to find. -/
theorem Finds.eq_none_iff (h : Finds S answer) : answer=none ↔ S=∅ := by
  cases answer with
  | none => exact ⟨fun _ => h,fun _ => rfl⟩
  | some k =>
    have hleast : IsLeast S k := h
    exact ⟨fun hnone => (Option.some_ne_none k hnone).elim,
      fun hempty => (Set.notMem_empty k (hempty ▸ hleast.1)).elim⟩

/-- The only candidate is the least one. -/
theorem finds_of_unique (hS : ∀ k,k∈S ↔ answer=some k) : Finds S answer := by
  cases answer with
  | none => exact Set.eq_empty_of_forall_notMem fun k hk => nomatch (hS k).mp hk
  | some k =>
    exact ⟨(hS k).mpr rfl,fun k' hk' => (Option.some.inj ((hS k').mp hk')).le⟩

end Answers

/-- The first number of a range with a property. -/
theorem finds_find?_range (n : ℕ) (p : ℕ → Bool) :
    Finds {i | i<n ∧ p i=true} ((List.range n).find? p) := by
  cases h : (List.range n).find? p with
  | none =>
    refine Set.eq_empty_of_forall_notMem fun i hi => ?_
    exact List.find?_eq_none.mp h i (List.mem_range.mpr hi.1) hi.2
  | some k =>
    obtain ⟨hk,before,rest,hsplit,hbefore⟩ := List.find?_eq_some_iff_append.mp h
    have hmem : k∈List.range n := List.mem_of_find?_eq_some h
    refine ⟨⟨List.mem_range.mp hmem,hk⟩,fun i hi => ?_⟩
    have hsorted : (before++k::rest).Pairwise (·<·) := hsplit ▸ List.pairwise_lt_range
    have hi' : i∈before++k::rest := hsplit ▸ List.mem_range.mpr hi.1
    rcases List.mem_append.mp hi' with hfront | hback
    · exact absurd hi.2 (by simpa using hbefore i hfront)
    · rcases List.mem_cons.mp hback with rfl | hrest
      · exact le_rfl
      · exact (List.rel_of_pairwise_cons (List.pairwise_append.mp hsorted).2.1 hrest).le

section Ranks

variable [LinearOrder κ]

/-- Candidates of a list of searches, ranked by the position of their search. -/
def ranked (l : List A) (S : A → Set κ) : Set (ℕ×ₗκ) :=
  {key | ∃ a,l[(ofLex key).1]? = some a ∧ (ofLex key).2∈S a}

/-- The first answer of a list of searches, with the position of its search. -/
def searchRanked (find : A → Option κ) : List A → Option (ℕ×ₗκ)
  | [] => none
  | a::l =>
    match find a with
    | some k => some (toLex (0,k))
    | none => (searchRanked find l).map fun key => toLex ((ofLex key).1+1,(ofLex key).2)

omit [LinearOrder κ] in
/-- Without the positions this is the first answer. -/
theorem searchRanked_map (find : A → Option κ) (l : List A) :
    (searchRanked find l).map (fun key => (ofLex key).2)=l.findSome? find := by
  induction l with
  | nil => rfl
  | cons a l ih =>
    rw [searchRanked,List.findSome?_cons]
    cases find a with
    | some k => rfl
    | none => rw [←ih,Option.map_map]; rfl

omit [LinearOrder κ] in
/-- Searches within searches, with the positions left out of the answer, are two searches in
a row. -/
theorem searchRanked_nested_map (find : A → Option κ) (ls : List (List A)) :
    (searchRanked (searchRanked find) ls).map (fun key => (ofLex (ofLex key).2).2)=
      ls.findSome? fun l => l.findSome? find := by
  have houter := congrArg (Option.map fun key => (ofLex key).2)
    (searchRanked_map (searchRanked find) ls)
  rw [Option.map_map,List.map_findSome?] at houter
  have hinner : (Option.map fun key : ℕ×ₗκ => (ofLex key).2)∘searchRanked find=
      fun l => l.findSome? find := funext (searchRanked_map find)
  rw [hinner] at houter
  exact houter

omit [LinearOrder κ] in
/-- What is ranked first are the elements of the first search. -/
@[simp] theorem mem_ranked_zero (a : A) (l : List A) (S : A → Set κ) (k : κ) :
    toLex (0,k)∈ranked (a::l) S ↔ k∈S a := by
  simp [ranked]

omit [LinearOrder κ] in
/-- What is ranked further back are the elements of the searches behind the first. -/
@[simp] theorem mem_ranked_succ (a : A) (l : List A) (S : A → Set κ) (n : ℕ) (k : κ) :
    toLex (n+1,k)∈ranked (a::l) S ↔ toLex (n,k)∈ranked l S := by
  simp [ranked]

/-- When every search finds its least candidate, trying them in order finds
the candidate of least rank. -/
theorem finds_searchRanked {find : A → Option κ} {S : A → Set κ} {l : List A}
    (h : ∀ a∈l,Finds (S a) (find a)) : Finds (ranked l S) (searchRanked find l) := by
  induction l with
  | nil => exact Set.eq_empty_of_forall_notMem fun key hkey => by simp [ranked] at hkey
  | cons a l ih =>
    have ha := h a List.mem_cons_self
    have hl := ih fun a' ha' => h a' (List.mem_cons_of_mem _ ha')
    rw [searchRanked]
    cases hfind : find a with
    | some k =>
      have hleast : IsLeast (S a) k := by simpa [hfind,Finds] using ha
      refine ⟨(mem_ranked_zero a l S k).mpr hleast.1,?_⟩
      rintro ⟨_ | n,k'⟩ hkey
      · have hk' := (mem_ranked_zero a l S k').mp hkey
        exact Prod.Lex.toLex_le_toLex.mpr (Or.inr ⟨rfl,hleast.2 hk'⟩)
      · exact Prod.Lex.toLex_le_toLex.mpr (Or.inl n.succ_pos)
    | none =>
      have hempty : S a=∅ := by simpa [hfind,Finds] using ha
      have hfirst (k' : κ) : toLex (0,k')∉ranked (a::l) S := by simp [hempty]
      cases hrest : searchRanked find l with
      | none =>
        have hnone : ranked l S=∅ := by simpa [hrest,Finds] using hl
        refine Set.eq_empty_of_forall_notMem ?_
        rintro ⟨_ | n,k'⟩ hkey
        · exact hfirst k' hkey
        · have hkey' := (mem_ranked_succ a l S n k').mp hkey
          simp [hnone] at hkey'
      | some key =>
        have hleast : IsLeast (ranked l S) key := by simpa [hrest,Finds] using hl
        refine ⟨(mem_ranked_succ a l S _ _).mpr hleast.1,?_⟩
        rintro ⟨_ | n,k'⟩ hkey
        · exact (hfirst k' hkey).elim
        · have hle := Prod.Lex.le_iff.mp (hleast.2 ((mem_ranked_succ a l S n k').mp hkey))
          refine Prod.Lex.toLex_le_toLex.mpr ?_
          rcases hle with hlt | ⟨heq,hle⟩
          · exact Or.inl (Nat.succ_lt_succ hlt)
          · exact Or.inr ⟨congrArg Nat.succ heq,hle⟩

end Ranks

end NcdfPlugin.PrioritySearch
