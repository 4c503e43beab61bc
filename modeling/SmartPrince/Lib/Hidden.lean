import SmartPrince.Lib.Memory

/-! # Memories that agree but for hidden objects

A program that reads none of the hidden objects does the same in two memories
that agree on all others, wherever it stores. The logs may differ. -/
namespace SmartPrince.Lib.Hidden
open SmartPrince.Lib.Loop SmartPrince.Lib.Memory

variable {ι : Type} {hidden : ι → Prop}

/-- Every byte of every object that is not hidden is the same. -/
def Agree (hidden : ι → Prop) (m m' : Mem ι) : Prop :=
  ∀ p : Ptr ι, ¬ hidden p.base → m.byte p = m'.byte p

theorem Agree.refl (m : Mem ι) : Agree hidden m m := fun _ _ => rfl

theorem Agree.trans {m m' m'' : Mem ι} (h : Agree hidden m m') (h' : Agree hidden m' m'') :
    Agree hidden m m'' := fun p hp => (h p hp).trans (h' p hp)

/-- What leaves all other objects alone changes hidden ones at most. -/
theorem agree_of_leaves {m m' : Mem ι} (h : ∀ b, ¬ hidden b → Leaves b m m') :
    Agree hidden m m' := fun p hp => (h p.base hp p rfl).symm

/-! ## Operations -/

section Operations
variable {m m' : Mem ι} (h : Agree hidden m m') {p : Ptr ι}
include h

theorem Agree.sum {ps : List (Ptr ι)} (hps : ∀ p ∈ ps, ¬ hidden p.base) :
    (m.sum ps).1 = (m'.sum ps).1 ∧ Agree hidden (m.sum ps).2 (m'.sum ps).2 := by
  constructor
  · rw [Mem.sum_fst, Mem.sum_fst]
    exact congrArg List.sum (List.map_congr_left fun p hp => by rw [h p (hps p hp)])
  · intro p hp
    rw [Mem.sum_byte, Mem.sum_byte, h p hp]

variable [DecidableEq ι]

theorem Agree.store (p : Ptr ι) (v : UInt8) : Agree hidden (m.store p v) (m'.store p v) := by
  intro q hq
  rw [Mem.store_byte, Mem.store_byte, Function.update_apply, Function.update_apply, h q hq]

theorem Agree.copy (hp : ¬ hidden p.base) (dst : Ptr ι) :
    Agree hidden (m.copy dst p) (m'.copy dst p) := by
  unfold Mem.copy
  dsimp only [Mem.load]
  rw [h p hp]
  exact Agree.store h dst _

theorem Agree.put (p : Ptr ι) (vs : List UInt8) : Agree hidden (m.put p vs) (m'.put p vs) := by
  intro q hq
  rw [Mem.put_byte, Mem.put_byte, patch, patch, h q hq]

theorem Agree.memset (dst : Ptr ι) (x : UInt8) (n : Nat) :
    Agree hidden (m.memset dst x n) (m'.memset dst x n) :=
  loop_rel _ h fun _ _ _ hm => hm.store _ x

theorem Agree.memcpy (hp : ¬ hidden p.base) (dst : Ptr ι) (n : Nat) :
    Agree hidden (m.memcpy dst p n) (m'.memcpy dst p n) :=
  loop_rel _ h fun k _ _ hm => hm.copy (show ¬ hidden (p + k).base from hp) _

end Operations

/-! ## Walks -/

variable {γ : Type*}

/-- The cursors are the same, and meet `P`. -/
structure Alongside (hidden : ι → Prop) (P : γ → Prop) (s s' : γ × Mem ι) : Prop where
  cursor : s.1 = s'.1
  reads : P s.1
  bytes : Agree hidden s.2 s'.2

/-- Cursors that are moved in the same way. -/
theorem Alongside.moved {P : γ → Prop} {s s' : γ × Mem ι} (h : Alongside hidden P s s')
    {f : γ → γ} (hf : ∀ c, P c → P (f c)) : Alongside hidden P (f s.1, s.2) (f s'.1, s'.2) :=
  ⟨congrArg f h.cursor, hf _ h.reads, h.bytes⟩

/-- A loop whose cursors stay out of the hidden objects. -/
theorem loop_alongside {P : γ → Prop} {body : Nat → γ × Mem ι → γ × Mem ι} {c : γ} {m m' : Mem ι}
    (hc : P c) (hm : Agree hidden m m')
    (h : ∀ k c m m', P c → Agree hidden m m' →
      Alongside hidden P (body k (c, m)) (body k (c, m'))) (n : Nat) :
    Alongside hidden P (loop n body (c, m)) (loop n body (c, m')) := by
  refine loop_rel (Alongside hidden P) ⟨rfl, hc, hm⟩ ?_
  intro k ⟨c, m⟩ ⟨c', m'⟩ hs
  cases hs.cursor
  exact h k c m m' hs.reads hs.bytes

end SmartPrince.Lib.Hidden
