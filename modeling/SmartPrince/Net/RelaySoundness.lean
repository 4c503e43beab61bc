import Mathlib.Logic.Function.Basic
import SmartPrince.Net.ReplySoundness

/-! # What a client knows of the relays

The relays are commanded one at a time, and all commands go through
`Relay_Index`: a poll reports the last of them, whichever relay it was for.
Beside the server's state this file keeps what was commanded of each relay
and what a client has made of the replies to its polls. -/
namespace SmartPrince.Net.RelaySoundness
open SmartPrince.Lib.CString SmartPrince.Lib.Run
open SmartPrince.Net.Networks SmartPrince.Net.RequestSoundness SmartPrince.Net.ReplySoundness

/-- The switches of the four relays as far as they are known. -/
abbrev Switches := Fin 4 → Option Bool

def unknown : Switches := fun _ => none

/-- The texts of the commands for relay `k`. -/
def gpon (k : Fin 4) : List UInt8 := ofText "GPON" ++ [UInt8.ofNat (49 + k)]

def goff (k : Fin 4) : List UInt8 := ofText "GOFF" ++ [UInt8.ofNat (49 + k)]

/-- What a client that obeys a reply makes of its switches. -/
def obey (reply : List UInt8) (known : Switches) : Switches := fun k =>
  if strstr reply (gpon k) then some true
  else if strstr reply (goff k) then some false
  else known k

/-- The server, what was commanded last of each relay, what had been commanded
at the last poll, and what the client knows from the replies. -/
structure Ledger where
  server : Server
  commanded : Switches
  polled : Switches
  known : Switches

/-- A poll is served to a client that is recognised. -/
def answered (l : Ledger) (r : Received) : Ledger :=
  { server := serve l.server r
    commanded := l.commanded
    polled := l.commanded
    known := obey (written l.server r) l.known }

/-- One relay is commanded by an event that does `e` to the server. -/
def command (l : Ledger) (e : Event) (k : Fin 4) (on : Bool) : Ledger :=
  { l with
    server := step l.server e
    commanded := Function.update l.commanded k (some on) }

def tick (l : Ledger) : Event → Ledger
  | .relayOn k => command l (.relayOn k) k true
  | .relayOff k => command l (.relayOff k) k false
  -- `IRA1` commands relay 1 to be on unless that is the last command
  | .ira1 => command l .ira1 0 (decide (l.server.relayIndex ≠ 1))
  | .client r => if recognised l.server r then answered l r else { l with server := serve l.server r }

/-- The program's start: `Relay_Index` is 0, and the stack holds anything. -/
def started (buffRcv buffSnd : List UInt8) : Ledger :=
  ⟨⟨buffRcv, buffSnd, 0⟩, unknown, unknown, unknown⟩

/-- Right after a poll the client knows of every relay what was commanded last. -/
def UpToDate (l : Ledger) : Event → Prop
  | .client r => recognised l.server r = true → (tick l (.client r)).known = l.commanded
  | _ => True

/-- The relay that the last command was for, and what it was. -/
def inForce (relayIndex : Nat) : Option (Fin 4 × Bool) :=
  match relayIndex with
  | 1 => some (0, true)
  | 2 => some (1, true)
  | 3 => some (2, true)
  | 4 => some (3, true)
  | 5 => some (0, false)
  | 6 => some (1, false)
  | 7 => some (2, false)
  | 8 => some (3, false)
  | _ => none

/-- A poll comes when every relay but the one commanded last was left, by the
commands since the poll before, as it was then. -/
def OthersSettled (l : Ledger) : Event → Prop
  | .client r => recognised l.server r = true →
      ∀ k, (∀ on, inForce l.server.relayIndex ≠ some (k, on)) → l.polled k = l.commanded k
  | _ => True

/-! ## What one reply says -/

theorem obey_replyText {i : Nat} (hi : i ≤ 8) (known : Switches) (k : Fin 4) :
    obey (replyText i ++ [0]) known k =
      match inForce i with
      | some (k', on) => if k = k' then some on else known k
      | none => known k := by
  have hon : ∀ i ∈ List.range 9, ∀ k : Fin 4,
      strstr (replyText i ++ [0]) (gpon k) = decide (inForce i = some (k, true)) := by decide
  have hoff : ∀ i ∈ List.range 9, ∀ k : Fin 4,
      strstr (replyText i ++ [0]) (goff k) = decide (inForce i = some (k, false)) := by decide
  have hr : i ∈ List.range 9 := List.mem_range.mpr (by omega)
  rw [obey, hon i hr k, hoff i hr k]
  rcases inForce i with _ | ⟨k', on⟩
  · simp
  · by_cases hk : k = k'
    · subst hk
      cases on <;> simp
    · simp [hk, Ne.symm hk]

/-! ## What the server has -/

/-- `Relay_Index` is the last command, and the client knows what had been
commanded at its last poll. -/
structure Abreast (l : Ledger) : Prop where
  index : l.server.relayIndex ≤ 8
  last : ∀ k on, inForce l.server.relayIndex = some (k, on) → l.commanded k = some on
  known : l.known = l.polled

theorem abreast_started (buffRcv buffSnd : List UInt8) : Abreast (started buffRcv buffSnd) :=
  ⟨Nat.zero_le 8, (fun _ _ h => nomatch h), rfl⟩

theorem Abreast.command {l : Ledger} (h : Abreast l) {e : Event} {k : Fin 4} {on : Bool}
    (hi : (step l.server e).relayIndex ≤ 8)
    (hf : inForce (step l.server e).relayIndex = some (k, on)) : Abreast (command l e k on) := by
  refine ⟨hi, fun k' on' h' => ?_, h.known⟩
  rw [RelaySoundness.command, hf] at h'
  cases h'
  exact Function.update_self ..

theorem serve_relayIndex (s : Server) (r : Received) : (serve s r).relayIndex = s.relayIndex := by
  unfold serve
  split <;> rfl

theorem written_of_recognised {s : Server} {r : Received} (h : recognised s r = true) :
    written s r = replyText s.relayIndex ++ [0] := by
  rw [written, serve_of_recognised h]
  exact outgoing_reply (recv s r)

/-- After a poll the client knows of the relay commanded last what was
commanded, and of the others what it knew. -/
theorem Abreast.upToDate_iff {l : Ledger} (h : Abreast l) (e : Event) :
    OthersSettled l e ↔ UpToDate l e := by
  cases e with
  | client r =>
    refine imp_congr_right fun hr => ?_
    have hknown : (tick l (.client r)).known =
        obey (replyText l.server.relayIndex ++ [0]) l.known := by
      rw [tick, if_pos hr, answered, written_of_recognised hr]
    rw [hknown, funext_iff]
    refine forall_congr' fun k => ?_
    rw [obey_replyText h.index, h.known]
    cases hf : inForce l.server.relayIndex with
    | none => simp
    | some c =>
      obtain ⟨k', on⟩ := c
      by_cases hk : k = k'
      · subst hk
        simp [h.last k on hf]
      · simp [hk, Ne.symm hk]
  | _ => exact Iff.rfl

theorem inForce_on : ∀ k : Fin 4, inForce (k + 1) = some (k, true) := by decide

theorem inForce_off : ∀ k : Fin 4, inForce (k + 5) = some (k, false) := by decide

theorem Abreast.tick {l : Ledger} (h : Abreast l) {e : Event} (ha : OthersSettled l e) :
    Abreast (tick l e) := by
  cases e with
  | relayOn k => exact h.command (show k.val + 1 ≤ 8 by omega) (inForce_on k)
  | relayOff k => exact h.command (show k.val + 5 ≤ 8 by omega) (inForce_off k)
  | ira1 =>
    by_cases hone : l.server.relayIndex = 1
    · have hidx : (step l.server .ira1).relayIndex = 5 := if_pos hone
      refine h.command (by omega) ?_
      rw [hidx, decide_eq_false (not_not.mpr hone)]
      rfl
    · have hidx : (step l.server .ira1).relayIndex = 1 := if_neg hone
      refine h.command (by omega) ?_
      rw [hidx, decide_eq_true hone]
      rfl
  | client r =>
    by_cases hr : recognised l.server r = true
    · have hknown := (h.upToDate_iff (.client r)).mp ha hr
      rw [RelaySoundness.tick, if_pos hr] at hknown ⊢
      refine ⟨?_, ?_, hknown⟩
      · rw [answered, serve_relayIndex]
        exact h.index
      · rw [answered, serve_relayIndex]
        exact h.last
    · rw [RelaySoundness.tick, if_neg hr]
      refine ⟨?_, ?_, h.known⟩
      · rw [serve_relayIndex]
        exact h.index
      · rw [serve_relayIndex]
        exact h.last

/-- **No command is lost exactly where every poll finds the relays other than
the one commanded last as they were at the poll before.** Over every sequence
of signals, interrupts and clients, from the program's start. -/
theorem polls_up_to_date_iff (buffRcv buffSnd : List UInt8) (es : List Event) :
    Always tick UpToDate (started buffRcv buffSnd) es ↔
      Always tick OthersSettled (started buffRcv buffSnd) es :=
  (always_iff (fun _ e h => h.upToDate_iff e) (fun _ _ h ha => h.tick ha)
    (abreast_started buffRcv buffSnd)).symm

/-- Relay 1 and then relay 2 are switched on before the first poll, which
reports relay 2 alone. -/
theorem first_of_two_lost :
    ¬ Always tick UpToDate (started (List.replicate (buffSize + 5) 0) [])
      [.relayOn 0, .relayOn 1, .client poll] := by
  intro h
  have hfirst := congrFun (h [.relayOn 0, .relayOn 1] (.client poll) [] rfl (by decide)) 0
  revert hfirst
  decide

end SmartPrince.Net.RelaySoundness
