import Mathlib.Data.List.Nodup
import Mathlib.Logic.Function.Iterate

/-!
# Ring buffers walked backwards

A ring of fixed capacity keeps its most recent entries. The cursor holds the
node of the newest one and the number of entries; while the ring is not full
the newest entry is the last of a prefix. Entries are numbered by age, and an
advance followed by a write adds one entry and drops the oldest of a full
ring. A walk that steps back from the newest entry, around the lower end of
the ring, meets each entry once and then ends.
-/

namespace NcdfPlugin.RingBuffer

/-- Node of the newest entry and number of entries. -/
structure Cursor where
  /-- Newest node. -/
  pos : ℕ
  /-- Entries. -/
  size : ℕ
  deriving DecidableEq

/-- One entry more, at the next node. -/
def Cursor.advance (cap : ℕ) (c : Cursor) : Cursor :=
  ⟨if cap ≤ c.pos+1 then 0 else c.pos+1,if cap < c.size+1 then cap else c.size+1⟩

/-- Position and size agree. -/
structure Cursor.Valid (cap : ℕ) (c : Cursor) : Prop where
  /-- The newest node is in the ring. -/
  pos_lt : c.pos < cap
  /-- There is an entry. -/
  size_pos : 0 < c.size
  /-- No more entries than nodes. -/
  size_le : c.size ≤ cap
  /-- Entries of a ring that is not full are a prefix of the nodes. -/
  fresh : c.size < cap → c.pos+1=c.size

/-- Node of the entry of an age. -/
def nodeOf (cap pos age : ℕ) : ℕ := if age≤pos then pos-age else pos+cap-age

/-- The newest entry is in the current node. -/
@[simp] theorem nodeOf_zero (cap pos : ℕ) : nodeOf cap pos 0=pos := by simp [nodeOf]

/-- Entries of different age are in different nodes, as long as the ring holds them. -/
theorem nodeOf_inj {cap pos a b : ℕ} (ha : a < cap) (hb : b < cap)
    (h : nodeOf cap pos a=nodeOf cap pos b) : a=b := by
  unfold nodeOf at h
  split_ifs at h <;> omega

variable {cap : ℕ} {c : Cursor}

/-- A valid cursor stays valid when the next node is written. -/
theorem Cursor.Valid.advance (h : c.Valid cap) : (c.advance cap).Valid cap := by
  obtain ⟨_,hsize,hle,hfresh⟩ := h
  unfold Cursor.advance
  constructor
  · dsimp only
    split_ifs <;> omega
  · dsimp only
    split_ifs <;> omega
  · dsimp only
    split_ifs <;> omega
  · dsimp only
    split_ifs <;> omega

/-- The first entry of a ring. -/
theorem valid_first (hcap : 0 < cap) : Cursor.Valid cap ⟨0,1⟩ :=
  ⟨hcap,Nat.one_pos,hcap,fun _ => rfl⟩

/-- Older entries keep their nodes. -/
theorem nodeOf_advance (h : c.Valid cap) {age : ℕ} (hage : age+1 < cap) :
    nodeOf cap (c.advance cap).pos (age+1)=nodeOf cap c.pos age := by
  have hpos := h.pos_lt
  unfold nodeOf Cursor.advance
  dsimp only
  split_ifs <;> omega

/-- Entries are at nodes below the size. -/
theorem nodeOf_lt_size (h : c.Valid cap) {age : ℕ} (hage : age < c.size) :
    nodeOf cap c.pos age < c.size := by
  obtain ⟨hpos,-,hle,hfresh⟩ := h
  unfold nodeOf
  by_cases hfull : c.size < cap
  · have := hfresh hfull
    split <;> omega
  · split <;> omega

/-- The node below a size is that of an entry. -/
theorem exists_age (h : c.Valid cap) {k : ℕ} (hk : k < c.size) :
    ∃ age < c.size,nodeOf cap c.pos age=k := by
  obtain ⟨hpos,-,hle,hfresh⟩ := h
  by_cases hbelow : k ≤ c.pos
  · refine ⟨c.pos-k,?_,?_⟩
    · by_cases hfull : c.size < cap
      · have := hfresh hfull
        omega
      · omega
    · rw [nodeOf,if_pos (by omega)]
      omega
  · have hfull : ¬c.size < cap := fun hlt => by
      have := hfresh hlt
      omega
    refine ⟨c.pos+cap-k,by omega,?_⟩
    rw [nodeOf,if_neg (by omega)]
    omega

section Contents

variable {β : Type*}

/-- Entries, newest first. -/
def contents (cap : ℕ) (c : Cursor) (store : ℕ → β) : List β :=
  (List.range c.size).map fun age => store (nodeOf cap c.pos age)

/-- An advance and a write put an entry in front and forget what is beyond the
capacity. -/
theorem contents_push (h : c.Valid cap) (store : ℕ → β) (x : β) :
    contents cap (c.advance cap) (Function.update store (c.advance cap).pos x)=
      (x::contents cap c store).take cap := by
  have hcap : 0 < cap := Nat.lt_of_le_of_lt (Nat.zero_le _) h.pos_lt
  have hsize : (c.advance cap).size=min cap (c.size+1) := by
    unfold Cursor.advance
    dsimp only
    split_ifs <;> omega
  refine List.ext_getElem ?_ fun age hage _ => ?_
  · simp [contents,hsize]
  · have hlt : age < min cap (c.size+1) := by simpa [contents,hsize] using hage
    cases age with
    | zero => simp [contents]
    | succ age =>
      have hcap' : age+1 < cap := by omega
      have hne : nodeOf cap (c.advance cap).pos (age+1)≠(c.advance cap).pos := by
        intro heq
        have hsame := nodeOf_inj hcap' hcap
          (heq.trans (nodeOf_zero cap _).symm)
        omega
      simp only [contents,List.getElem_map,List.getElem_range,List.getElem_take,
        List.getElem_cons_succ]
      rw [Function.update_of_ne hne,nodeOf_advance h hcap']

/-- A property of all nodes below the size is one of all entries. -/
theorem forall_mem_contents (h : c.Valid cap) {store : ℕ → β} {P : β → Prop} :
    (∀ x∈contents cap c store,P x) ↔ ∀ k < c.size,P (store k) := by
  simp only [contents,List.mem_map,List.mem_range]
  constructor
  · intro hall k hk
    obtain ⟨age,hage,rfl⟩ := exists_age h hk
    exact hall _ ⟨age,hage,rfl⟩
  · rintro hall _ ⟨age,hage,rfl⟩
    exact hall _ (nodeOf_lt_size h hage)

end Contents

section Walk

variable {σ : Type*}

/-- The node after a node of the walk, none where the walk ends. -/
def next (cap : ℕ) (c : Cursor) (i : ℕ) : Option ℕ :=
  if i=0 then if c.size ≤ cap-1 ∨ cap-1=c.pos then none else some (cap-1)
  else if i-1=c.pos then none else some (i-1)

/-- The unbounded walk, with fuel: each visited node with the value of a
counter that changes from node to node. -/
def walk (cap : ℕ) (c : Cursor) (f : σ → σ) : ℕ → ℕ → σ → Option (List (ℕ×σ))
  | 0,_,_ => none
  | fuel+1,i,s =>
    match next cap c i with
    | none => some [(i,s)]
    | some j => (walk cap c f fuel j (f s)).map ((i,s)::·)

/-- From an entry the walk goes to the next older one, and ends at the
oldest. -/
theorem next_nodeOf (h : c.Valid cap) {age : ℕ} (hage : age < c.size) :
    next cap c (nodeOf cap c.pos age)=
      if age+1 < c.size then some (nodeOf cap c.pos (age+1)) else none := by
  obtain ⟨hpos,-,hle,hfresh⟩ := h
  by_cases hfull : c.size < cap
  · have := hfresh hfull
    unfold next nodeOf
    split_ifs <;> first | rfl | omega
  · have hsize : c.size=cap := by omega
    unfold next nodeOf
    split_ifs <;> first | rfl | omega | (congr 1; omega)

/-- The walk from the node of a given age visits this node and all older ones, by induction
on the number of nodes that are left. -/
theorem walk_from (h : c.Valid cap) (f : σ → σ) (n : ℕ) {age fuel : ℕ} (s : σ)
    (hn : age+(n+1)=c.size) (hfuel : n<fuel) :
    walk cap c f fuel (nodeOf cap c.pos age) s=
      some ((List.range (n+1)).map fun k => (nodeOf cap c.pos (age+k),f^[k] s)) := by
  induction n generalizing age fuel s with
  | zero =>
    obtain ⟨fuel,rfl⟩ : ∃ k,fuel=k+1 := ⟨fuel-1,by omega⟩
    rw [walk,next_nodeOf h (by omega),if_neg (by omega)]
    simp
  | succ n ih =>
    obtain ⟨fuel,rfl⟩ : ∃ k,fuel=k+1 := ⟨fuel-1,by omega⟩
    have hnext : age+1+(n+1)=c.size := by omega
    have hrest := ih (f s) hnext (Nat.lt_of_succ_lt_succ hfuel)
    rw [walk,next_nodeOf h (by omega),if_pos (by omega)]
    dsimp only
    rw [hrest,Option.map_some,List.range_succ_eq_map (n := n+1),List.map_cons,List.map_map]
    congr 2
    refine List.map_congr_left fun k _ => ?_
    simp only [Function.comp_apply,Function.iterate_succ_apply]
    congr 2
    omega

/-- The walk ends, with as much fuel as there are entries or more, and visits
them from the newest to the oldest. -/
theorem walk_eq (h : c.Valid cap) (f : σ → σ) {fuel : ℕ} (hfuel : c.size≤fuel) (s : σ) :
    walk cap c f fuel c.pos s=
      some ((List.range c.size).map fun age => (nodeOf cap c.pos age,f^[age] s)) := by
  have hpos := h.size_pos
  have hall : 0+(c.size-1+1)=c.size := by omega
  have hwalk := walk_from h f (c.size-1) s hall (by omega : c.size-1<fuel)
  rw [nodeOf_zero,Nat.sub_add_cancel hpos] at hwalk
  simpa using hwalk

/-- Each node below the size is visited once. -/
theorem visited_perm (h : c.Valid cap) :
    ((List.range c.size).map (nodeOf cap c.pos)).Perm (List.range c.size) := by
  refine (List.perm_ext_iff_of_nodup ?_ List.nodup_range).mpr fun k => ?_
  · refine List.nodup_range.map_on fun a ha b hb heq => ?_
    have hle := h.size_le
    rw [List.mem_range] at ha hb
    exact nodeOf_inj (by omega) (by omega) heq
  · simp only [List.mem_map,List.mem_range]
    constructor
    · rintro ⟨age,hage,rfl⟩
      exact nodeOf_lt_size h hage
    · intro hk
      exact exists_age h hk

end Walk

end NcdfPlugin.RingBuffer
