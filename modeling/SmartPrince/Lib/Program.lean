import Mathlib.Logic.Basic

/-! # Programs over a state

A program takes a state to a result and a state. What is kept by a program
whatever it does, such as fields it never writes or a log it only extends, is a
preorder between the state before and the state after; the rules here prove
one from the program's text. -/
namespace SmartPrince.Lib.Program

variable {σ α β : Type}

abbrev Prog (σ α : Type) := StateM σ α

theorem bind_apply (p : Prog σ α) (f : α → Prog σ β) (s : σ) :
    (p >>= f) s = f (p s).1 (p s).2 := rfl

theorem get_bind (f : σ → Prog σ β) (s : σ) : (get >>= f) s = f s s := rfl

theorem modify_bind (g : σ → σ) (f : PUnit → Prog σ β) (s : σ) :
    (modify g >>= f) s = f ⟨⟩ (g s) := rfl

/-! ## Pre- and postconditions -/

/-- From a state that meets `P`, the result and the state it ends in meet `Q`. -/
def Triple (P : σ → Prop) (p : Prog σ α) (Q : α → σ → Prop) : Prop :=
  ∀ s, P s → Q (p s).1 (p s).2

section Triples
variable {P : σ → Prop} {Q : α → σ → Prop}

theorem triple_pure {a : α} (h : ∀ s, P s → Q a s) : Triple P (pure a) Q := h

theorem triple_modify {f : σ → σ} {Q : PUnit → σ → Prop} (h : ∀ s, P s → Q ⟨⟩ (f s)) :
    Triple P (modify f : Prog σ PUnit) Q := h

theorem triple_get {f : σ → Prog σ α} (h : ∀ s₀, Triple (fun s => P s ∧ s = s₀) (f s₀) Q) :
    Triple P (get >>= f) Q := fun s hs => h s s ⟨hs, rfl⟩

theorem triple_bind (R : β → σ → Prop) {p : Prog σ β} {f : β → Prog σ α} (hp : Triple P p R)
    (hf : ∀ b, Triple (R b) (f b) Q) : Triple P (p >>= f) Q :=
  fun s hs => hf _ _ (hp s hs)

/-- What holds before a step may hold after it. -/
theorem triple_keep {p : Prog σ β} {f : β → Prog σ α} (hp : Triple P p fun _ => P)
    (hf : ∀ b, Triple P (f b) Q) : Triple P (p >>= f) Q := triple_bind (fun _ => P) hp hf

theorem triple_ite {c : Prop} [Decidable c] {p q : Prog σ α} (hp : c → Triple P p Q)
    (hq : ¬ c → Triple P q Q) : Triple P (if c then p else q) Q := by
  split
  · exact hp ‹_›
  · exact hq ‹_›

theorem triple_conseq {P' : σ → Prop} {p : Prog σ α} (h : Triple P p Q) (hP : ∀ s, P' s → P s) :
    Triple P' p Q := fun s hs => h s (hP s hs)

/-- The state the program starts from, by name. -/
theorem triple_fix {p : Prog σ α} (h : ∀ s₀, P s₀ → Triple (fun s => s = s₀) p Q) :
    Triple P p Q := fun s hs => h s hs s rfl

end Triples

/-! ## What a program keeps -/

/-- A relation between states that skips and composes. -/
structure Frame (R : σ → σ → Prop) : Prop where
  refl : ∀ s, R s s
  trans : ∀ {s t u}, R s t → R t u → R s u

/-- Whatever state the program starts in, it ends in a related one. -/
def Keeps (R : σ → σ → Prop) (p : Prog σ α) : Prop := ∀ s, R s (p s).2

variable {R : σ → σ → Prop}

theorem keeps_modify {f : σ → σ} (h : ∀ s, R s (f s)) : Keeps R (modify f : Prog σ PUnit) := h

theorem keeps_ite {c : Prop} [Decidable c] {p q : Prog σ α} (hp : Keeps R p) (hq : Keeps R q) :
    Keeps R (if c then p else q) := by
  split
  · exact hp
  · exact hq

section Rules
variable (hR : Frame R)
include hR

theorem keeps_pure (a : α) : Keeps R (pure a : Prog σ α) := hR.refl

theorem keeps_get : Keeps R (get : Prog σ σ) := hR.refl

theorem keeps_bind {p : Prog σ α} {f : α → Prog σ β} (hp : Keeps R p) (hf : ∀ a, Keeps R (f a)) :
    Keeps R (p >>= f) := fun s => hR.trans (hp s) (hf _ _)

end Rules

/-! ## Two runs -/

/-- From related states the results are the same, and the states end up related. -/
def Alike (R : σ → σ → Prop) (p : Prog σ α) : Prop :=
  ∀ s s', R s s' → (p s).1 = (p s').1 ∧ R (p s).2 (p s').2

theorem alike_pure (a : α) : Alike R (pure a : Prog σ α) := fun _ _ h => ⟨rfl, h⟩

theorem alike_modify {f : σ → σ} (h : ∀ s s', R s s' → R (f s) (f s')) :
    Alike R (modify f : Prog σ PUnit) := fun s s' hs => ⟨rfl, h s s' hs⟩

theorem alike_bind {p : Prog σ α} {f : α → Prog σ β} (hp : Alike R p) (hf : ∀ a, Alike R (f a)) :
    Alike R (p >>= f) := by
  intro s s' hs
  obtain ⟨hret, hstate⟩ := hp s s' hs
  rw [bind_apply, bind_apply, ← hret]
  exact hf _ _ _ hstate

/-- What is read of the state is the same in both runs. -/
theorem alike_get {f : σ → Prog σ α} (hread : ∀ s s', R s s' → f s = f s')
    (hf : ∀ s, Alike R (f s)) : Alike R (get >>= f) := by
  intro s s' hs
  rw [get_bind, get_bind, ← hread s s' hs]
  exact hf s s s' hs

theorem alike_ite {c : Prop} [Decidable c] {p q : Prog σ α} (hp : Alike R p) (hq : Alike R q) :
    Alike R (if c then p else q) := by
  split
  · exact hp
  · exact hq

end SmartPrince.Lib.Program
