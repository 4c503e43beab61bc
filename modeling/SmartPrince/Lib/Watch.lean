import SmartPrince.Lib.Program

/-! # Programs that are watched

What a program does with a resource is no part of the state it works on. It is
written once more with notes between its steps; the notes go to a log, and
without them the program is the one it watches. -/
namespace SmartPrince.Lib.Watch
open SmartPrince.Lib.Program

variable {σ ε α β : Type}

/-- A state, and what was noted on the way to it, newest first. -/
structure Logged (σ ε : Type) where
  state : σ
  log : List ε

/-- A program that notes nothing. -/
def act (p : Prog σ α) : Prog (Logged σ ε) α := fun l =>
  ((p l.state).1, { l with state := (p l.state).2 })

def note (e : ε) : Prog (Logged σ ε) PUnit := modify fun l => { l with log := e :: l.log }

/-! ## Without the notes -/

/-- Without its notes `q` is `p`. -/
def Watches (q : Prog (Logged σ ε) α) (p : Prog σ α) : Prop :=
  ∀ l, (q l).1 = (p l.state).1 ∧ (q l).2.state = (p l.state).2

theorem watches_act (p : Prog σ α) : Watches (act p : Prog (Logged σ ε) α) p := fun _ => ⟨rfl, rfl⟩

theorem watches_pure (a : α) : Watches (pure a : Prog (Logged σ ε) α) (pure a) := fun _ => ⟨rfl, rfl⟩

theorem watches_bind {q : Prog (Logged σ ε) α} {p : Prog σ α} {g : α → Prog (Logged σ ε) β}
    {f : α → Prog σ β} (hq : Watches q p) (hf : ∀ a, Watches (g a) (f a)) :
    Watches (q >>= g) (p >>= f) := by
  intro l
  obtain ⟨ha, hs⟩ := hq l
  have hnext := hf (q l).1 (q l).2
  rw [hs, ha] at hnext
  rwa [bind_apply, bind_apply, ha]

/-- A note more. -/
theorem watches_note {e : ε} {q : PUnit → Prog (Logged σ ε) α} {p : Prog σ α}
    (h : Watches (q ⟨⟩) p) : Watches (note e >>= q) p := fun l => h { l with log := e :: l.log }

theorem watches_ite {c : Prop} [Decidable c] {q q' : Prog (Logged σ ε) α} {p p' : Prog σ α}
    (h : Watches q p) (h' : Watches q' p') :
    Watches (if c then q else q') (if c then p else p') := by
  split
  · exact h
  · exact h'

/-! ## With them -/

section Triples
variable {P : Logged σ ε → Prop}

theorem triple_act {p : Prog σ α} {Q : α → Logged σ ε → Prop}
    (h : ∀ l, P l → Q (p l.state).1 { l with state := (p l.state).2 }) : Triple P (act p) Q := h

theorem triple_note {e : ε} {Q : PUnit → Logged σ ε → Prop}
    (h : ∀ l, P l → Q ⟨⟩ { l with log := e :: l.log }) : Triple P (note e) Q := h

end Triples

/-- What is known of the log. -/
theorem act_log {K : List ε → Prop} (p : Prog σ α) :
    Triple (fun l => K l.log) (act p) fun _ l => K l.log := triple_act fun _ hl => hl

end SmartPrince.Lib.Watch
