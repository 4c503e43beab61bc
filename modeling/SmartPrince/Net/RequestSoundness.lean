import SmartPrince.Lib.Run
import SmartPrince.Net.Networks

/-! # Whose bytes the server's test looks at

`recv` writes a request over the start of `buff_rcv` and terminates nothing,
so `strstr` reads on into what is left there from earlier clients, or from the
stack before the first one. -/
namespace SmartPrince.Net.RequestSoundness
open SmartPrince.Lib.CString SmartPrince.Lib.Run SmartPrince.Net.Networks

/-- The client's own bytes hold the text before any NUL among them. -/
def OwnText (r : Received) : Prop := whoIAm <:+: cstr r.bytes

/-- The test says of a client what its own bytes say. -/
def OwnTest (s : Server) : Event → Prop
  | .client r => recognised s r = true ↔ OwnText r
  | _ => True

/-- The bytes left behind the request do no harm: the request is empty, has a
NUL or the text itself, or what lies behind it up to the first NUL neither has
the text nor completes one that the request ends with the beginning of. -/
def Harmless (s : Server) : Event → Prop
  | .client r => r.bytes = [] ∨ 0 ∈ r.bytes ∨ whoIAm <:+: r.bytes ∨
      Apart whoIAm r.bytes (cstr (s.buffRcv.drop r.bytes.length))
  | _ => True

theorem recognised_nil {r : Received} (h : r.bytes = []) (s : Server) : recognised s r = false := by
  simp [recognised, h]

theorem ownText_nil {r : Received} (h : r.bytes = []) : ¬ OwnText r := by
  rw [OwnText, h]
  decide

/-- The string searched is the request and what lies behind it. -/
theorem recognised_eq {r : Received} (h : r.bytes ≠ []) (s : Server) :
    recognised s r = strstr (r.bytes ++ s.buffRcv.drop r.bytes.length) whoIAm := by
  have hpos : r.bytes.length > 0 := List.length_pos_iff.mpr h
  simp only [recognised, hpos, decide_true, Bool.true_and, recv, overwrite]

theorem ownTest_iff_harmless (s : Server) (e : Event) : OwnTest s e ↔ Harmless s e := by
  cases e with
  | client r =>
    simp only [OwnTest, Harmless]
    by_cases hr : r.bytes = []
    · simp [recognised_nil hr, ownText_nil hr, hr]
    · rw [recognised_eq hr, OwnText, strstr_own_iff, or_iff_right hr]
  | _ => exact Iff.rfl

/-- **Earlier clients have no influence exactly where what they left does no
harm.** From any state, over any sequence of clients, signals and interrupts. -/
theorem own_test_iff (s : Server) (es : List Event) :
    Always step OwnTest s es ↔ Always step Harmless s es :=
  always_congr ownTest_iff_harmless

/-- The buffers zeroed, no command given. -/
def fresh : Server := ⟨List.replicate (buffSize + 5) 0, List.replicate (buffSize + 5) 0, 0⟩

/-- A client that sends the whole request line and one that sends its first letter. -/
def poll : Received := ⟨whoIAm ++ ofText "\r\n", by decide⟩

def letter : Received := ⟨ofText "G", by decide⟩

/-- The second client is granted the command for what the first one sent. -/
theorem own_test_fails : ¬ Always step OwnTest fresh [.client poll, .client letter] := by
  intro h
  have hletter := h [.client poll] (.client letter) [] rfl
  revert hletter
  simp only [OwnTest, OwnText]
  decide

end SmartPrince.Net.RequestSoundness
