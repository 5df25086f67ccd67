import Mathlib.Algebra.Ring.Nat
import Mathlib.Data.List.Basic

/-!
# Subdivision with a stack of fixed depth

An item is either flat and emitted, or replaced by its two halves. A loop
takes items from a stack and pushes the second half below the first. As long
as the stack has room for the levels of an item, the loop emits what the
recursive subdivision emits and leaves the rest of the stack alone. It needs
as many turns as the subdivision has items.
-/

namespace NcdfPlugin.SplittingStack

variable {ι β : Type*}

/-- How a loop ends. -/
inductive Outcome (β : Type*) where
  /-- The stack is empty: what was emitted. -/
  | done (out : List β)
  /-- An item was pushed onto a full stack. -/
  | overrun
  /-- The turns were used up. -/
  | unfinished
  deriving DecidableEq

/-- The loop, for a stack with its top first and at most `depth` items. -/
def drain (depth : ℕ) (rule : ι → Option (ι×ι)) (emit : ι → List β) :
    ℕ → List ι → List β → Outcome β
  | _,[],out => .done out
  | 0,_::_,_ => .unfinished
  | fuel+1,x::rest,out =>
    match rule x with
    | none => drain depth rule emit fuel rest (out++emit x)
    | some (first,second) =>
      if depth<rest.length+2 then .overrun
      else drain depth rule emit fuel (first::second::rest) out

/-- All items are flat after n levels. -/
def FlatWithin (rule : ι → Option (ι×ι)) : ℕ → ι → Prop
  | 0,x => rule x=none
  | n+1,x => ∀ first second,rule x=some (first,second) →
    FlatWithin rule n first ∧ FlatWithin rule n second

/-- The first halves of n levels are all split. -/
def SplitsFirst (rule : ι → Option (ι×ι)) : ℕ → ι → Prop
  | 0,_ => True
  | n+1,x => ∃ first second,rule x=some (first,second) ∧ SplitsFirst rule n first

/-- What the recursive subdivision emits. -/
def flatten (rule : ι → Option (ι×ι)) (emit : ι → List β) : ℕ → ι → List β
  | 0,x => emit x
  | n+1,x =>
    match rule x with
    | none => emit x
    | some (first,second) => flatten rule emit n first++flatten rule emit n second

/-- Items of the recursive subdivision. -/
def turns (rule : ι → Option (ι×ι)) : ℕ → ι → ℕ
  | 0,_ => 1
  | n+1,x =>
    match rule x with
    | none => 1
    | some (first,second) => turns rule n first+turns rule n second+1

variable {depth : ℕ} {rule : ι → Option (ι×ι)} {emit : ι → List β}

/-- An item that can be split so many levels deep takes less than two turns for each of its
leaves. -/
theorem turns_lt (rule : ι → Option (ι×ι)) (n : ℕ) (x : ι) : turns rule n x<2^(n+1) := by
  induction n generalizing x with
  | zero => simp [turns]
  | succ n ih =>
    have hpow : 2^(n+1+1)=2^(n+1)+2^(n+1) := by rw [Nat.pow_succ]; omega
    have hone : 1≤2^(n+1) := Nat.one_le_two_pow
    unfold turns
    split
    next => omega
    next first second _ =>
      have hfirst := ih first
      have hsecond := ih second
      omega

/-- With room for its levels an item is replaced by what its subdivision emits. -/
theorem drain_flatten {n : ℕ} {x : ι} (hflat : FlatWithin rule n x) {rest : List ι}
    (hroom : rest.length+n+1≤depth) (fuel : ℕ) (out : List β) :
    drain depth rule emit (fuel+turns rule n x) (x::rest) out=
      drain depth rule emit fuel rest (out++flatten rule emit n x) := by
  induction n generalizing x rest fuel out with
  | zero =>
    have hnone : rule x=none := hflat
    simp only [turns,drain,hnone,flatten]
  | succ n ih =>
    cases hx : rule x with
    | none => simp only [turns,drain,hx,flatten]
    | some halves =>
      obtain ⟨first,second⟩ := halves
      obtain ⟨hfirst,hsecond⟩ := hflat first second hx
      have hturns : fuel+turns rule (n+1) x=fuel+turns rule n second+turns rule n first+1 := by
        simp only [turns,hx]
        omega
      rw [hturns,drain,hx]
      dsimp only
      rw [if_neg (by omega),ih hfirst (by rw [List.length_cons]; omega),ih hsecond (by omega)]
      simp only [flatten,hx,List.append_assoc]

/-- A single item with room on the stack for all its levels is emitted completely, given a
turn for each of its parts. -/
theorem drain_single {n : ℕ} {x : ι} (hflat : FlatWithin rule n x) (hroom : n+1≤depth) {fuel : ℕ}
    (hfuel : turns rule n x≤fuel) (out : List β) :
    drain depth rule emit fuel [x] out=.done (out++flatten rule emit n x) := by
  obtain ⟨spare,rfl⟩ := Nat.exists_eq_add_of_le' hfuel
  rw [drain_flatten hflat (by simpa using hroom)]
  cases spare <;> rfl

/-- Whatever room there is, an item that becomes flat is either replaced by
what its subdivision emits or overruns the stack on the way. -/
theorem drain_ends {n : ℕ} {x : ι} (hflat : FlatWithin rule n x) (rest : List ι) (fuel : ℕ)
    (out : List β) :
    drain depth rule emit (fuel+turns rule n x) (x::rest) out=.overrun ∨
      drain depth rule emit (fuel+turns rule n x) (x::rest) out=
        drain depth rule emit fuel rest (out++flatten rule emit n x) := by
  induction n generalizing x rest fuel out with
  | zero =>
    have hnone : rule x=none := hflat
    exact Or.inr (by simp only [turns,drain,hnone,flatten])
  | succ n ih =>
    cases hx : rule x with
    | none => exact Or.inr (by simp only [turns,drain,hx,flatten])
    | some halves =>
      obtain ⟨first,second⟩ := halves
      obtain ⟨hfirst,hsecond⟩ := hflat first second hx
      have hturns : fuel+turns rule (n+1) x=fuel+turns rule n second+turns rule n first+1 := by
        simp only [turns,hx]
        omega
      rw [hturns,drain,hx]
      dsimp only
      split
      next => exact Or.inl rfl
      next =>
        -- the first half, and after it the second one
        rcases ih hfirst (second::rest) (fuel+turns rule n second) out with hover | hgone
        · exact Or.inl hover
        · rw [hgone]
          rcases ih hsecond rest fuel (out++flatten rule emit n first) with hover | hgone'
          · exact Or.inl hover
          · refine Or.inr (hgone'.trans ?_)
            simp only [flatten,hx,List.append_assoc]

/-- A single item that becomes flat does not use up enough turns. -/
theorem drain_single_ends {n : ℕ} {x : ι} (hflat : FlatWithin rule n x) {fuel : ℕ}
    (hfuel : turns rule n x≤fuel) (out : List β) :
    drain depth rule emit fuel [x] out≠.unfinished := by
  obtain ⟨spare,rfl⟩ := Nat.exists_eq_add_of_le' hfuel
  intro hend
  rcases drain_ends hflat [] spare out with hover | hgone
  · rw [hover] at hend
    cases hend
  · rw [hgone] at hend
    cases spare <;> cases hend

/-- First halves that go on splitting fill the stack, in as many turns as
there are levels. -/
theorem drain_overrun {n : ℕ} {x : ι} (hsplits : SplitsFirst rule n x) {rest : List ι}
    (hroom : rest.length+1≤depth) (hfull : depth<rest.length+n+1) (fuel : ℕ) (out : List β) :
    drain depth rule emit fuel (x::rest) out=.overrun ∨
      fuel<n ∧ drain depth rule emit fuel (x::rest) out=.unfinished := by
  induction n generalizing x rest fuel with
  | zero => omega
  | succ n ih =>
    cases fuel with
    | zero => exact Or.inr ⟨Nat.succ_pos n,rfl⟩
    | succ fuel =>
      obtain ⟨first,second,hx,hfirst⟩ := hsplits
      rw [drain,hx]
      dsimp only
      split
      next => exact Or.inl rfl
      next hroom' =>
        have hroom'' : (second::rest).length+1≤depth := by
          rw [List.length_cons]
          omega
        have hrest := ih hfirst hroom'' (by rw [List.length_cons]; omega) fuel
        exact hrest.imp_right fun ⟨hfuel,hend⟩ => ⟨Nat.succ_lt_succ hfuel,hend⟩

/-- What every flat item emits and what the halves of an item pass on to it
holds of the whole subdivision. -/
theorem flatten_induction (P : ι → List β → Prop) (Inv : ι → Prop)
    (hleaf : ∀ x,Inv x → rule x=none → P x (emit x))
    (hsplit : ∀ x first second out out',Inv x → rule x=some (first,second) → P first out →
      P second out' → P x (out++out'))
    (hinv : ∀ x first second,Inv x → rule x=some (first,second) → Inv first ∧ Inv second)
    {n : ℕ} {x : ι} (hflat : FlatWithin rule n x) (hx : Inv x) : P x (flatten rule emit n x) := by
  induction n generalizing x with
  | zero => exact hleaf x hx hflat
  | succ n ih =>
    cases hrule : rule x with
    | none =>
      simp only [flatten,hrule]
      exact hleaf x hx hrule
    | some halves =>
      obtain ⟨first,second⟩ := halves
      obtain ⟨hfirst,hsecond⟩ := hflat first second hrule
      obtain ⟨hinv1,hinv2⟩ := hinv x first second hx hrule
      simp only [flatten,hrule]
      exact hsplit x first second _ _ hx hrule (ih hfirst hinv1) (ih hsecond hinv2)

end NcdfPlugin.SplittingStack
