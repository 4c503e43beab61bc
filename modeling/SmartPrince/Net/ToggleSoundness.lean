import Mathlib.Algebra.GroupWithZero.Nat
import SmartPrince.Net.RelaySoundness

/-! # What the interrupt switches over

`IRA1` is to switch relay 1 over. It asks `Relay_Index` for the relay's state,
which is that of relay 1 only until a command for another relay is given. What
relay 1 should do is followed here from the events alone, beside the server. -/
namespace SmartPrince.Net.ToggleSoundness
open SmartPrince.Lib.Run
open SmartPrince.Net.Networks SmartPrince.Net.RelaySoundness

/-- The relays are numbered 0 to 3. -/
instance neZero_relays : NeZero 4 := ⟨by decide⟩

/-- An interrupt leaves the command in force that switches relay 1 off where it
was last commanded on, and on otherwise. -/
def SwitchesOver (l : Ledger) : Event → Prop
  | .ira1 => inForce (tick l .ira1).server.relayIndex =
      some (0, decide (l.commanded 0 ≠ some true))
  | _ => True

/-- Whether relay 1 is to be on, as the events so far command it when each
interrupt switches it over, and whether the last command was for another relay. -/
structure Relay1 where
  on : Bool
  other : Bool

def hear (h : Relay1) : Event → Relay1
  | .relayOn k => if k = 0 then ⟨true, false⟩ else { h with other := true }
  | .relayOff k => if k = 0 then ⟨false, false⟩ else { h with other := true }
  | .ira1 => ⟨!h.on, false⟩
  | .client _ => h

/-- No interrupt comes while relay 1 is on and another relay was commanded since. -/
def Undisturbed (h : Relay1) : Event → Prop
  | .ira1 => ¬ (h.on = true ∧ h.other = true)
  | _ => True

/-- The server is at the start, with no relay commanded. -/
def quiet : Relay1 := ⟨false, false⟩

/-- The last command for relay 1 is as the events have it, and `Relay_Index`
says so where it was the last of all. -/
structure Represents (l : Ledger) (h : Relay1) : Prop where
  last : h.on = decide (l.commanded 0 = some true)
  index : l.server.relayIndex = 1 ↔ h.on = true ∧ h.other = false

theorem represents_started (buffRcv buffSnd : List UInt8) :
    Represents (started buffRcv buffSnd) quiet := by
  refine ⟨rfl, ?_⟩
  constructor
  · intro h
    cases h
  · rintro ⟨h, -⟩
    cases h

/-- The interrupt finds 1 in `Relay_Index` exactly where relay 1 is on, unless
it comes while another relay's command hides that. -/
theorem Represents.switchesOver_iff {l : Ledger} {h : Relay1} (hr : Represents l h) (e : Event) :
    SwitchesOver l e ↔ Undisturbed h e := by
  cases e with
  | ira1 =>
    have hidx : (tick l .ira1).server.relayIndex = if l.server.relayIndex = 1 then 5 else 1 := rfl
    have hon : decide (l.commanded 0 ≠ some true) = !h.on := by
      rw [hr.last, decide_not]
    unfold SwitchesOver Undisturbed
    rw [hidx, hon]
    by_cases hone : l.server.relayIndex = 1
    · obtain ⟨ho, hother⟩ := hr.index.mp hone
      rw [if_pos hone, ho, hother]
      simp [inForce]
    · rw [if_neg hone]
      rw [hr.index] at hone
      cases ho : h.on
      · simp [inForce]
      · cases hother : h.other
        · exact absurd ⟨ho, hother⟩ hone
        · simp [inForce]
  | _ => exact Iff.rfl

/-- A command for relay `k` is the last of all. -/
theorem Represents.command {l : Ledger} {h : Relay1} (hr : Represents l h) {e : Event}
    {k : Fin 4} {on : Bool} (hidx : (step l.server e).relayIndex = 1 ↔ k = 0 ∧ on = true) :
    Represents (command l e k on) (if k = 0 then ⟨on, false⟩ else { h with other := true }) := by
  by_cases hk : k = 0
  · subst hk
    rw [if_pos rfl]
    refine ⟨?_, ?_⟩
    · simp [RelaySoundness.command]
    · simpa [RelaySoundness.command] using hidx
  · rw [if_neg hk]
    refine ⟨?_, ?_⟩
    · simpa [RelaySoundness.command, Function.update_of_ne (Ne.symm hk)] using hr.last
    · simpa [RelaySoundness.command, hk] using hidx

theorem Represents.ira1 {l : Ledger} {h : Relay1} (hr : Represents l h)
    (hu : Undisturbed h .ira1) : Represents (tick l .ira1) (hear h .ira1) := by
  have hone : l.server.relayIndex = 1 ↔ h.on = true := by
    rw [hr.index]
    exact ⟨fun hi => hi.1, fun ho => ⟨ho, Bool.eq_false_iff.mpr fun hother => hu ⟨ho, hother⟩⟩⟩
  have hon : decide (l.server.relayIndex ≠ 1) = !h.on := by
    cases ho : h.on <;> simp [hone, ho]
  have hidx : (step l.server .ira1).relayIndex = 1 ↔ (0 : Fin 4) = 0 ∧ (!h.on) = true := by
    change (if l.server.relayIndex = 1 then 5 else 1) = 1 ↔ _
    by_cases h1 : l.server.relayIndex = 1
    · simp [h1, hone.mp h1]
    · have ho : h.on = false := by simpa [hone] using h1
      simp [h1, ho]
  have hc := hr.command hidx
  rw [if_pos rfl] at hc
  rw [RelaySoundness.tick, hon]
  exact hc

theorem Represents.tick {l : Ledger} {h : Relay1} (hr : Represents l h) {e : Event}
    (hs : SwitchesOver l e) : Represents (tick l e) (hear h e) := by
  cases e with
  | relayOn k =>
    refine hr.command ?_
    change k.val + 1 = 1 ↔ k = 0 ∧ true = true
    exact ⟨fun h => ⟨Fin.ext (Nat.succ.inj h), rfl⟩, fun h => by rw [h.1]; rfl⟩
  | relayOff k =>
    refine hr.command ?_
    change k.val + 5 = 1 ↔ k = 0 ∧ false = true
    simp
  | ira1 => exact hr.ira1 ((hr.switchesOver_iff .ira1).mp hs)
  | client r =>
    rw [RelaySoundness.tick]
    split
    · refine ⟨hr.last, ?_⟩
      rw [answered, serve_relayIndex]
      exact hr.index
    · refine ⟨hr.last, ?_⟩
      rw [serve_relayIndex]
      exact hr.index

/-- **Every interrupt switches relay 1 over exactly where none comes while
relay 1 is on and another relay was commanded since.** Over every sequence of
signals, interrupts and clients, from the program's start. -/
theorem ira1_switches_over_iff (buffRcv buffSnd : List UInt8) (es : List Event) :
    Always tick SwitchesOver (started buffRcv buffSnd) es ↔ Always hear Undisturbed quiet es :=
  always_related (fun _ _ e hr => hr.switchesOver_iff e) (fun _ _ _ hr hs => hr.tick hs)
    (represents_started buffRcv buffSnd)

/-- Relay 1 and then relay 2 are switched on; the interrupt switches relay 1 on again. -/
theorem relay1_on_again :
    ¬ Always tick SwitchesOver (started (List.replicate (buffSize + 5) 0) [])
      [.relayOn 0, .relayOn 1, .ira1] := by
  intro h
  have hlast : inForce _ = some _ := h [.relayOn 0, .relayOn 1] .ira1 [] rfl
  revert hlast
  decide

end SmartPrince.Net.ToggleSoundness
