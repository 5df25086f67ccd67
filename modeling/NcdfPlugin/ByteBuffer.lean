import NcdfPlugin.FlatLayout
import Mathlib.Data.Int.Order.Basic
import Mathlib.Tactic.Ring
import Mathlib.Tactic.Linarith

/-!
# Images in a flat buffer

Commands write and copy ranges of a buffer, and stop at the first range that
is not inside it or overlaps the range it is copied from. A buffer with k
bytes for each entry of a rectangle holds an image. Commands on the bytes of
entries and on rows change the image as one would expect and never stop, and
so do sequences and loops of them.
-/

namespace NcdfPlugin.ByteBuffer

open FlatLayout

section Commands

variable {β : Type}

/-- Commands on a buffer. -/
inductive ByteOp (β : Type) where
  /-- One byte is written. -/
  | store (off : ℤ) (v : β)
  /-- The same value is written n times. -/
  | fill (off : ℤ) (n : ℕ) (v : β)
  /-- A range of n bytes is copied. -/
  | copy (dst src : ℤ) (n : ℕ)

/-- A range of n bytes lies in a buffer. -/
def Within (size off : ℤ) (n : ℕ) : Prop := 0≤off ∧ off+n ≤ size

instance (size off : ℤ) (n : ℕ) : Decidable (Within size off n) :=
  inferInstanceAs (Decidable (_ ∧ _))

/-- What a command touches lies in a buffer, and copies do not overlap. -/
def ByteOp.Allowed (size : ℤ) : ByteOp β → Prop
  | .store off _ => Within size off 1
  | .fill off n _ => Within size off n
  | .copy dst src n => Within size dst n ∧ Within size src n ∧ (dst+n ≤ src ∨ src+n≤dst)

instance (size : ℤ) (op : ByteOp β) : Decidable (op.Allowed size) :=
  match op with
  | .store off _ => inferInstanceAs (Decidable (Within size off 1))
  | .fill off n _ => inferInstanceAs (Decidable (Within size off n))
  | .copy _ _ _ => inferInstanceAs (Decidable (_ ∧ _ ∧ _))

/-- The bytes after a command. -/
def ByteOp.apply : ByteOp β → (ℤ → β) → ℤ → β
  | .store off v,bytes => Function.update bytes off v
  | .fill off n v,bytes => fun q => if off≤q ∧ q<off+n then v else bytes q
  | .copy dst src n,bytes => fun q => if dst≤q ∧ q<dst+n then bytes (src+(q-dst)) else bytes q

/-- Inside the target of a copy stands what stood at the same place of its source before. -/
theorem apply_copy_inside (dst src : ℤ) {n i : ℕ} (hi : i < n) (bytes : ℤ → β) :
    (ByteOp.copy dst src n).apply bytes (dst+i)=bytes (src+i) := by
  have hplace : src+(dst+i-dst)=src+i := by ring
  exact (if_pos (by omega)).trans (congrArg bytes hplace)

/-- A copy changes no byte outside its target. -/
theorem apply_copy_outside {dst : ℤ} (src : ℤ) {n : ℕ} {q : ℤ} (hq : q<dst ∨ dst+n≤q)
    (bytes : ℤ → β) : (ByteOp.copy dst src n).apply bytes q=bytes q := if_neg (by omega)

/-- The bytes after a list of commands, if all of them are allowed. -/
def exec (size : ℤ) : List (ByteOp β) → (ℤ → β) → Option (ℤ → β)
  | [],bytes => some bytes
  | op::ops,bytes => if op.Allowed size then exec size ops (op.apply bytes) else none

/-- An operation that stays in the buffer is executed, and the rest on the bytes that it
leaves. -/
theorem exec_cons {size : ℤ} {op : ByteOp β} (h : op.Allowed size) (ops : List (ByteOp β))
    (bytes : ℤ → β) : exec size (op::ops) bytes=exec size ops (op.apply bytes) := if_pos h

/-- Two lists of operations are executed one after the other, unless the first leaves the
buffer. -/
theorem exec_append (size : ℤ) (ops ops' : List (ByteOp β)) (bytes : ℤ → β) :
    exec size (ops++ops') bytes=(exec size ops bytes).bind (exec size ops') := by
  induction ops generalizing bytes with
  | nil => rfl
  | cons op ops ih =>
    by_cases h : op.Allowed size
    · rw [List.cons_append,exec_cons h,exec_cons h,ih]
    · rw [List.cons_append,exec,exec,if_neg h,if_neg h,Option.bind_none]

/-- Commands that did not stop were all allowed. -/
theorem allowed_of_exec {size : ℤ} {ops : List (ByteOp β)} {bytes bytes' : ℤ → β}
    (h : exec size ops bytes=some bytes') : ∀ op∈ops,op.Allowed size := by
  induction ops generalizing bytes with
  | nil => exact fun _ hop => absurd hop List.not_mem_nil
  | cons op ops ih =>
    by_cases hop : op.Allowed size
    · rw [exec_cons hop] at h
      exact List.forall_mem_cons.mpr ⟨hop,ih h⟩
    · rw [exec,if_neg hop] at h
      cases h

end Commands

section Layout

variable {β : Type} {k w h : ℕ}

/-- Place of byte c of an entry. -/
def slot (k w : ℕ) (p : ℕ×ℕ) (c : ℕ) : ℕ := k*(p.1*w+p.2)+c

/-- An entry lies in a rectangle of h rows and w columns. -/
def InFrame (w h : ℕ) (p : ℕ×ℕ) : Prop := p.1<h ∧ p.2<w

/-- A buffer holds the bytes of an image. -/
def Holds (k w h : ℕ) (bytes : ℤ → β) (image : ℕ×ℕ → ℕ → β) : Prop :=
  ∀ p,InFrame w h p → ∀ c<k,bytes (slot k w p c)=image p c

/-- Bytes of a slot follow its first one. -/
theorem slot_zero_add (p : ℕ×ℕ) (c : ℕ) : slot k w p 0+c=slot k w p c := rfl

/-- Rows have the same number of bytes. -/
theorem slot_row (y : ℕ) : slot k w (y,0) 0=y*(k*w) := by
  unfold slot
  dsimp only
  ring

/-- The last byte of an entry is in the rectangle. -/
theorem slot_add_le {p : ℕ×ℕ} (hp : InFrame w h p) : slot k w p 0+k ≤ k*(w*h) := by
  have hlast : p.1*w+p.2+1≤h*w := flat_lt hp.1 hp.2
  have hscaled := Nat.mul_le_mul_left k hlast
  rw [mul_comm h w] at hscaled
  unfold slot
  linarith

/-- Rows follow one another. -/
theorem row_add_le_row {a b : ℕ} (hab : a<b) : slot k w (a,0) 0+k*w ≤ slot k w (b,0) 0 := by
  rw [slot_row,slot_row,←Nat.succ_mul]
  exact Nat.mul_le_mul_right (k*w) hab

/-- A row of the frame ends within the buffer. -/
theorem row_add_le {y : ℕ} (hy : y<h) : slot k w (y,0) 0+k*w ≤ k*(w*h) := by
  rw [slot_row,←Nat.succ_mul,←mul_assoc k w h,mul_comm (k*w) h]
  exact Nat.mul_le_mul_right (k*w) hy

/-- Entries have their own indices. -/
theorem flat_injective {p q : ℕ×ℕ} (hp : p.2<w) (hq : q.2<w) (heq : p.1*w+p.2=q.1*w+q.2) : p=q := by
  have hrow : p.1=q.1 := by
    have hdiv (r : ℕ×ℕ) (hr : r.2<w) : (r.1*w+r.2)/w=r.1 := by
      rw [mul_comm,Nat.mul_add_div (by omega),Nat.div_eq_of_lt hr,add_zero]
    rw [←hdiv p hp,heq,hdiv q hq]
  refine Prod.ext hrow ?_
  rw [hrow] at heq
  exact Nat.add_left_cancel heq

/-- Entries have their own bytes. -/
theorem slot_disjoint {p q : ℕ×ℕ} (hp : p.2<w) (hq : q.2<w) (hne : p≠q) :
    slot k w p 0+k ≤ slot k w q 0 ∨ slot k w q 0+k ≤ slot k w p 0 := by
  have hstep {a b : ℕ} (hab : a<b) : k*a+0+k≤k*b+0 := by
    have := Nat.mul_le_mul_left k (Nat.succ_le_of_lt hab)
    rw [Nat.mul_succ] at this
    omega
  rcases Nat.lt_or_gt_of_ne fun heq => hne (flat_injective hp hq heq) with hlt | hgt
  · exact Or.inl (hstep hlt)
  · exact Or.inr (hstep hgt)

/-- The bytes of a row are those of its entries. -/
theorem slot_mem_row {p : ℕ×ℕ} (hp : p.2<w) {c : ℕ} (hc : c<k) (y : ℕ) :
    slot k w (y,0) 0 ≤ slot k w p c ∧ slot k w p c < slot k w (y,0) 0+k*w ↔ p.1=y := by
  have hplace : slot k w p c=p.1*(k*w)+(p.2*k+c) := by
    unfold slot
    ring
  have hin : p.2*k+c<k*w := by
    rw [mul_comm k w]
    exact flat_lt hp hc
  rw [slot_row,hplace]
  have hless {a b : ℕ} (hab : a*(k*w)<b*(k*w)+k*w) : a≤b := by
    rw [←Nat.succ_mul] at hab
    exact Nat.lt_succ_iff.mp (lt_of_mul_lt_mul_right hab (Nat.zero_le _))
  constructor
  · rintro ⟨hlow,hhigh⟩
    exact le_antisymm (hless (by omega)) (hless (by omega))
  · rintro rfl
    omega

end Layout

section Images

variable {β τ : Type} {enc : τ → ℕ → β} {k w h : ℕ}

/-- On a buffer that holds an image in an encoding, the commands do not stop
and leave the changed image. -/
def Simulates (enc : τ → ℕ → β) (k w h : ℕ) (ops : List (ByteOp β)) (f : (ℕ×ℕ → τ) → ℕ×ℕ → τ) :
    Prop :=
  ∀ bytes image,Holds k w h bytes (enc∘image) →
    ∃ bytes',exec (k*(w*h) : ℕ) ops bytes=some bytes' ∧ Holds k w h bytes' (enc∘f image)

/-- A single command simulates a change of the image when it stays in the buffer and keeps
bytes and image in step. -/
theorem Simulates.single {op : ByteOp β} {f : (ℕ×ℕ → τ) → ℕ×ℕ → τ}
    (hallowed : op.Allowed (k*(w*h) : ℕ))
    (hstep : ∀ bytes image,Holds k w h bytes (enc∘image) →
      Holds k w h (op.apply bytes) (enc∘f image)) : Simulates enc k w h [op] f :=
  fun bytes image himage => ⟨_,exec_cons hallowed [] bytes,hstep bytes image himage⟩

/-- No operation simulates the identity. -/
theorem Simulates.nil : Simulates enc k w h [] id := fun bytes _ himage => ⟨bytes,rfl,himage⟩

/-- Two sequences of commands, one after the other, simulate the composition of their
changes. -/
theorem Simulates.append {ops ops' : List (ByteOp β)} {f g : (ℕ×ℕ → τ) → ℕ×ℕ → τ}
    (hf : Simulates enc k w h ops f) (hg : Simulates enc k w h ops' g) :
    Simulates enc k w h (ops++ops') (g∘f) := by
  intro bytes image himage
  obtain ⟨middle,hfirst,hmiddle⟩ := hf bytes image himage
  obtain ⟨last,hsecond,hlast⟩ := hg middle (f image) hmiddle
  exact ⟨last,by rw [exec_append,hfirst,Option.bind_some,hsecond],hlast⟩

/-- Two changes of an image that agree on the entries of the rectangle are simulated by the
same commands; entries outside of it do not count. -/
theorem Simulates.congr {ops : List (ByteOp β)} {f g : (ℕ×ℕ → τ) → ℕ×ℕ → τ}
    (hf : Simulates enc k w h ops f) (hfg : ∀ image p,InFrame w h p → f image p=g image p) :
    Simulates enc k w h ops g := by
  intro bytes image himage
  obtain ⟨bytes',hexec,hholds⟩ := hf bytes image himage
  refine ⟨bytes',hexec,fun p hp c hc => ?_⟩
  rw [hholds p hp c hc,Function.comp_apply,hfg image p hp,Function.comp_apply]

/-- A loop over a list whose turns each simulate a step simulates the fold of these steps.
-/
theorem Simulates.flatMap {κ : Type} {turns : List κ} {ops : κ → List (ByteOp β)}
    {step : (ℕ×ℕ → τ) → κ → ℕ×ℕ → τ}
    (hstep : ∀ a∈turns,Simulates enc k w h (ops a) fun image => step image a) :
    Simulates enc k w h (turns.flatMap ops) fun image => turns.foldl step image := by
  induction turns with
  | nil => exact Simulates.nil
  | cons a turns ih =>
    obtain ⟨ha,hturns⟩ := List.forall_mem_cons.mp hstep
    exact (ha.append (ih hturns) :)

/-- A loop whose turns change and read only their own line leaves in each line what its own
turn makes of it, in whatever order the turns are made. -/
theorem foldl_lines (line : ℕ×ℕ → ℕ) {step : (ℕ×ℕ → τ) → ℕ → ℕ×ℕ → τ}
    (hother : ∀ image i p,line p≠i → step image i p=image p)
    (hown : ∀ image image' : ℕ×ℕ → τ,∀ i,(∀ q,line q=i → image q=image' q) →
      ∀ p,line p=i → step image i p=step image' i p)
    (n : ℕ) (image : ℕ×ℕ → τ) (p : ℕ×ℕ) :
    (List.range n).foldl step image p=if line p<n then step image (line p) p else image p := by
  induction n generalizing p with
  | zero => rfl
  | succ n ih =>
    rw [List.range_succ,List.foldl_append,List.foldl_cons,List.foldl_nil]
    rcases Nat.lt_trichotomy (line p) n with hlt | heq | hgt
    · rw [hother _ n p hlt.ne,ih,if_pos hlt,if_pos (by omega)]
    · have hbefore (q : ℕ×ℕ) (hq : line q=n) : (List.range n).foldl step image q=image q := by
        rw [ih,if_neg (by omega)]
      rw [hown _ image n hbefore p heq,if_pos (by omega),heq]
    · rw [hother _ n p hgt.ne',ih,if_neg (by omega),if_neg (by omega)]

/-- Copying the bytes of one entry over those of another one copies the entry of the image.
-/
theorem Simulates.copyEntry (enc : τ → ℕ → β) (k : ℕ) {p q : ℕ×ℕ} (hp : InFrame w h p) (hq : InFrame w h q) (hne : p≠q) :
    Simulates enc k w h [.copy (slot k w p 0) (slot k w q 0) k]
      fun image => Function.update image p (image q) := by
  refine Simulates.single ⟨⟨by omega,?_⟩,⟨by omega,?_⟩,?_⟩ fun bytes image himage r hr c hc => ?_
  · exact_mod_cast slot_add_le hp
  · exact_mod_cast slot_add_le hq
  · exact_mod_cast slot_disjoint hp.2 hq.2 hne
  · dsimp only [Function.comp_apply]
    by_cases hrp : r=p
    · rw [hrp,Function.update_self,←slot_zero_add p c,Nat.cast_add,apply_copy_inside _ _ hc]
      exact himage q hq c hc
    · have hapart := slot_disjoint (k := k) hr.2 hp.2 hrp
      rw [Function.update_of_ne hrp,apply_copy_outside _ (by rw [←slot_zero_add r c]; omega)]
      exact himage r hr c hc

/-- Copying the bytes of one row over those of another one copies the row of the image,
entry by entry. -/
theorem Simulates.copyRow (enc : τ → ℕ → β) (k w : ℕ) {y y' : ℕ} (hy : y<h) (hy' : y'<h) (hne : y≠y') :
    Simulates enc k w h [.copy (slot k w (y,0) 0) (slot k w (y',0) 0) (k*w)]
      fun image p => if p.1=y then image (y',p.2) else image p := by
  have happart : slot k w (y,0) 0+k*w ≤ slot k w (y',0) 0 ∨
      slot k w (y',0) 0+k*w ≤ slot k w (y,0) 0 := by
    rcases Nat.lt_or_gt_of_ne hne with hlt | hgt
    · exact Or.inl (row_add_le_row hlt)
    · exact Or.inr (row_add_le_row hgt)
  refine Simulates.single ⟨⟨by omega,?_⟩,⟨by omega,?_⟩,?_⟩ fun bytes image himage r hr c hc => ?_
  · exact_mod_cast row_add_le hy
  · exact_mod_cast row_add_le hy'
  · exact_mod_cast happart
  · have hrow := slot_mem_row hr.2 hc y
    dsimp only [Function.comp_apply]
    by_cases hry : r.1=y
    · obtain ⟨i,hi⟩ := Nat.exists_eq_add_of_le (hrow.mpr hry).1
      have hplace : slot k w (y',r.2) c+slot k w (y,0) 0=slot k w (y',0) 0+slot k w r c := by
        unfold slot
        rw [hry]
        ring
      have hsource : (slot k w (y',0) 0 : ℤ)+i=slot k w (y',r.2) c := by omega
      have hlt := (hrow.mpr hry).2
      rw [if_pos hry,hi,Nat.cast_add,apply_copy_inside _ _ (by omega),hsource]
      exact himage (y',r.2) ⟨hy',hr.2⟩ c hc
    · have hout := mt hrow.mp hry
      rw [if_neg hry,apply_copy_outside _ (by omega)]
      exact himage r hr c hc

/-- Writing one byte of an entry keeps bytes and image in step when the same component of
the image is written. -/
theorem Holds.store {bytes : ℤ → β} {image : ℕ×ℕ → ℕ → β} (himage : Holds k w h bytes image) {p : ℕ×ℕ}
    (hp : InFrame w h p) {i : ℕ} (hi : i < k) (v : β) :
    Holds k w h ((ByteOp.store (slot k w p i) v).apply bytes)
      (Function.update image p (Function.update (image p) i v)) := by
  intro r hr c hc
  rw [ByteOp.apply]
  by_cases hrp : r=p
  · rw [hrp,Function.update_self]
    by_cases hci : c=i
    · rw [hci,Function.update_self,Function.update_self]
    · have hne : (slot k w p c : ℤ)≠slot k w p i := by
        rw [←slot_zero_add p c,←slot_zero_add p i]
        omega
      rw [Function.update_of_ne hci,Function.update_of_ne hne,himage p hp c hc]
  · have hapart := slot_disjoint (k := k) hr.2 hp.2 hrp
    have hne : (slot k w r c : ℤ)≠slot k w p i := by
      rw [←slot_zero_add r c,←slot_zero_add p i]
      omega
    rw [Function.update_of_ne hrp,Function.update_of_ne hne,himage r hr c hc]

/-- A store into a slot of the frame stays in the buffer. -/
theorem allowed_store {p : ℕ×ℕ} (hp : InFrame w h p) {i : ℕ} (hi : i < k) (v : β) :
    (ByteOp.store (slot k w p i : ℤ) v).Allowed (k*(w*h) : ℕ) := by
  have hlast := slot_add_le (k := k) hp
  rw [←slot_zero_add p i]
  exact ⟨by omega,by push_cast at hlast ⊢; linarith⟩

/-- Bytes of an entry that are written one after another stay in the buffer, and change this
entry of the image only. -/
theorem exec_stores {p : ℕ×ℕ} (hp : InFrame w h p) {channels : List (ℕ×β)}
    (hchannels : ∀ b∈channels,b.1<k) {image : ℕ×ℕ → ℕ → β} {bytes : ℤ → β}
    (himage : Holds k w h bytes image) :
    ∃ bytes',exec (k*(w*h) : ℕ) (channels.map fun b => .store (slot k w p b.1) b.2) bytes=
        some bytes' ∧
      Holds k w h bytes' (Function.update image p
        (channels.foldl (fun entry b => Function.update entry b.1 b.2) (image p))) := by
  induction channels generalizing image bytes with
  | nil =>
    refine ⟨bytes,rfl,?_⟩
    rwa [List.foldl_nil,Function.update_eq_self]
  | cons b channels ih =>
    obtain ⟨hb,htail⟩ := List.forall_mem_cons.mp hchannels
    obtain ⟨bytes',hexec,hholds⟩ := ih htail (himage.store hp hb b.2)
    refine ⟨bytes',?_,?_⟩
    · rw [List.map_cons,exec_cons (allowed_store hp hb b.2)]
      exact hexec
    · rwa [Function.update_self,Function.update_idem] at hholds

/-- Writing the bytes of an entry one after another simulates the change of the value that
these bytes encode. -/
theorem Simulates.stores {p : ℕ×ℕ} (hp : InFrame w h p) {f : τ → τ} (channels : List (ℕ×β))
    (hchannels : ∀ b∈channels,b.1<k)
    (henc : ∀ v,channels.foldl (fun entry b => Function.update entry b.1 b.2) (enc v)=enc (f v)) :
    Simulates enc k w h (channels.map fun b => .store (slot k w p b.1) b.2)
      fun image => Function.update image p (f (image p)) := by
  intro bytes image himage
  obtain ⟨bytes',hexec,hholds⟩ := exec_stores hp hchannels himage
  refine ⟨bytes',hexec,?_⟩
  rwa [Function.comp_apply,henc,←Function.comp_update] at hholds

/-- The buffer is filled with one value. -/
theorem exec_fill (v : β) (bytes : ℤ → β) :
    ∃ bytes',exec (k*(w*h) : ℕ) [.fill 0 (k*(w*h)) v] bytes=some bytes' ∧
      Holds k w h bytes' fun _ _ => v := by
  have hallowed : (ByteOp.fill 0 (k*(w*h)) v).Allowed (k*(w*h) : ℕ) := ⟨le_rfl,(zero_add _).le⟩
  refine ⟨_,exec_cons hallowed [] bytes,fun p hp c hc => if_pos ?_⟩
  have hlast := slot_add_le (k := k) hp
  rw [←slot_zero_add p c]
  omega

end Images

end NcdfPlugin.ByteBuffer
