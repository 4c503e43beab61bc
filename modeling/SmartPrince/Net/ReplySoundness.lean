import SmartPrince.Net.RequestSoundness

/-! # Who is sent a reply

`net_server` builds a reply only for a client it recognises, but writes
`buff_snd` to every client, and clears it for none. A client that is not
recognised gets the last reply built for another one, or what the stack held
before the first. -/
namespace SmartPrince.Net.ReplySoundness
open SmartPrince.Lib.CString SmartPrince.Net.Networks SmartPrince.Net.RequestSoundness

/-- The requests of a history, without the signals and interrupts between them. -/
def clients : List Event → List Received
  | [] => []
  | .client r :: es => r :: clients es
  | _ :: es => clients es

/-- Whether each of a sequence of clients is recognised. -/
def verdicts (s : Server) : List Received → List Bool
  | [] => []
  | r :: rs => recognised s r :: verdicts (serve s r) rs

/-- What the clients that are not recognised are sent, in order. -/
def told (s : Server) : List Event → List (List UInt8)
  | [] => []
  | .client r :: es =>
    if recognised s r then told (serve s r) es else written s r :: told (serve s r) es
  | e :: es => told (step s e) es

/-- Whatever was commanded, and so whatever was replied to the others, the
clients that are not recognised are sent the same. -/
def Independent (s : Server) (rs : List Received) : Prop :=
  ∀ es es', clients es = rs → clients es' = rs → told s es = told s es'

/-- Once a client was recognised, so are all after it. -/
def OnlyRecognised (s : Server) (rs : List Received) : Prop :=
  (verdicts s rs).Pairwise fun a b => a = true → b = true

/-! ## What recognition depends on -/

theorem recognised_congr {s t : Server} (h : s.buffRcv = t.buffRcv) (r : Received) :
    recognised s r = recognised t r := by
  simp only [recognised, recv, h]

@[simp] theorem serve_buffRcv (s : Server) (r : Received) :
    (serve s r).buffRcv = overwrite s.buffRcv r.bytes := by
  unfold serve
  split <;> rfl

theorem verdicts_congr {s t : Server} (h : s.buffRcv = t.buffRcv) (rs : List Received) :
    verdicts s rs = verdicts t rs := by
  induction rs generalizing s t with
  | nil => rfl
  | cons r rs ih =>
    have hs : (serve s r).buffRcv = (serve t r).buffRcv := by rw [serve_buffRcv, serve_buffRcv, h]
    rw [verdicts, verdicts, recognised_congr h, ih hs]

theorem serve_of_unrecognised {s : Server} {r : Received} (h : recognised s r = false) :
    serve s r = recv s r := by
  rw [serve, h]
  rfl

theorem serve_of_recognised {s : Server} {r : Received} (h : recognised s r = true) :
    serve s r = reply (recv s r) := by
  rw [serve, h]
  rfl

/-! ## What is sent -/

/-- The bytes that a `write` of `buff_snd` sends. -/
def outgoing (s : Server) : List UInt8 := s.buffSnd.take (strlen s.buffSnd + 1)

theorem written_of_unrecognised {s : Server} {r : Received} (h : recognised s r = false) :
    written s r = outgoing s := by
  rw [written, serve_of_unrecognised h]
  rfl

/-- The text of the reply for a value of `Relay_Index`. -/
def replyText (i : Nat) : List UInt8 :=
  ofText "\n" ++ ofText (relaySwitch.getD i "") ++ ofText "\n"

theorem replyText_no_nul (i : Nat) : 0 ∉ replyText i := by
  have hall : ∀ t ∈ "" :: relaySwitch, 0 ∉ ofText "\n" ++ ofText t ++ ofText "\n" := by decide
  refine hall _ ?_
  rw [List.getD_eq_getElem?_getD]
  cases he : relaySwitch[i]? with
  | none => exact List.mem_cons_self
  | some t => exact List.mem_cons_of_mem _ (List.mem_of_getElem? he)

theorem outgoing_reply (s : Server) : outgoing (reply s) = replyText s.relayIndex ++ [0] := by
  have he : (reply s).buffSnd = replyText s.relayIndex ++ 0 ::
      s.buffSnd.drop (replyText s.relayIndex ++ [0]).length := by
    simp only [reply, overwrite, replyText, List.append_assoc, List.cons_append, List.nil_append]
  rw [outgoing, he, strlen, cstr_append (replyText_no_nul _)]
  simp [cstr, List.take_append]

/-! ## Where nothing is passed on -/

/-- **As long as nobody was recognised, everyone is sent what the stack held.** -/
theorem told_of_onlyRecognised {es : List Event} {s : Server}
    (h : OnlyRecognised s (clients es)) :
    told s es = List.replicate ((verdicts s (clients es)).count false) (outgoing s) := by
  induction es generalizing s with
  | nil => rfl
  | cons e es ih =>
    have hquiet : ∀ t : Server, t.buffRcv = s.buffRcv → t.buffSnd = s.buffSnd →
        OnlyRecognised s (clients es) →
        told t es = List.replicate ((verdicts s (clients es)).count false) (outgoing s) := by
      intro t hr hs hes
      have he := verdicts_congr hr (clients es)
      rw [ih (by rw [OnlyRecognised, he]; exact hes), he, outgoing, outgoing, hs]
    cases e with
    | client r =>
      obtain ⟨hfirst, hrest⟩ := List.pairwise_cons.mp h
      simp only [told, clients, verdicts]
      cases hv : recognised s r with
      | true =>
        -- nobody after it is sent anything but a reply of their own
        have hnone : (verdicts (serve s r) (clients es)).count false = 0 :=
          List.count_eq_zero.mpr fun hmem => Bool.false_ne_true (hfirst false hmem hv)
        rw [if_pos rfl, ih hrest, List.count_cons_of_ne (by decide), hnone]
        rfl
      | false =>
        rw [if_neg (by decide), ih hrest, written_of_unrecognised hv, List.count_cons_self,
          List.replicate_succ, serve_of_unrecognised hv]
        rfl
    | relayOn k => exact hquiet _ rfl rfl h
    | relayOff k => exact hquiet _ rfl rfl h
    | ira1 => exact hquiet _ rfl rfl h

/-! ## Where a reply is passed on -/

/-- A history in which relay `k` is switched on before every client. -/
def insist (k : Fin 4) (rs : List Received) : List Event :=
  rs.flatMap fun r => [.relayOn k, .client r]

theorem clients_insist (k : Fin 4) (rs : List Received) : clients (insist k rs) = rs := by
  induction rs with
  | nil => rfl
  | cons r rs ih => exact congrArg (r :: ·) ih

theorem told_insist_cons (s : Server) (k : Fin 4) (r : Received) (rs : List Received) :
    told s (insist k (r :: rs)) =
      if recognised s r then told (reply (recv (step s (.relayOn k)) r)) (insist k rs)
      else outgoing s :: told (recv (step s (.relayOn k)) r) (insist k rs) := by
  have hr : recognised (step s (.relayOn k)) r = recognised s r := recognised_congr rfl r
  show told (step s (.relayOn k)) (.client r :: insist k rs) = _
  rw [told, hr]
  cases hs : recognised s r with
  | true =>
    rw [if_pos rfl, if_pos rfl, serve_of_recognised (hr.trans hs)]
  | false =>
    rw [if_neg (by decide), if_neg (by decide), written_of_unrecognised (hr.trans hs),
      serve_of_unrecognised (hr.trans hs)]
    rfl

theorem outgoing_insisted (s : Server) (k : Fin 4) (r : Received) :
    outgoing (reply (recv (step s (.relayOn k)) r)) = replyText (k + 1) ++ [0] :=
  outgoing_reply (recv (step s (.relayOn k)) r)

/-- After a reply, every client that is not recognised is sent that reply. -/
theorem told_insist {k : Fin 4} {rs : List Received} {s : Server}
    (h : outgoing s = replyText (k + 1) ++ [0]) :
    told s (insist k rs) =
      List.replicate ((verdicts s rs).count false) (replyText (k + 1) ++ [0]) := by
  induction rs generalizing s with
  | nil => rfl
  | cons r rs ih =>
    have hv : ∀ t : Server, t.buffRcv = overwrite s.buffRcv r.bytes →
        verdicts t rs = verdicts (serve s r) rs := fun t ht =>
      verdicts_congr (ht.trans (serve_buffRcv s r).symm) rs
    rw [told_insist_cons, verdicts]
    cases recognised s r with
    | true =>
      rw [if_pos rfl, ih (outgoing_insisted s k r), hv _ rfl, List.count_cons_of_ne (by decide)]
    | false =>
      have hsame : outgoing (recv (step s (.relayOn k)) r) = replyText (k + 1) ++ [0] := h
      rw [if_neg (by decide), List.count_cons_self, List.replicate_succ, h, ih hsame, hv _ rfl]

theorem replyText_ne : replyText ((0 : Fin 4) + 1) ++ [0] ≠ replyText ((1 : Fin 4) + 1) ++ [0] := by
  decide

theorem replicate_eq {α : Type*} {n : Nat} {a b : α} (hab : a ≠ b)
    (h : List.replicate n a = List.replicate n b) : n = 0 := by
  cases n with
  | zero => rfl
  | succ n => exact absurd (List.cons.inj h).1 hab

/-- Two histories that command different relays tell on the first reply passed on. -/
theorem onlyRecognised_of_told {rs : List Received} {s t : Server} (hrcv : s.buffRcv = t.buffRcv)
    (h : told s (insist 0 rs) = told t (insist 1 rs)) : OnlyRecognised s rs := by
  induction rs generalizing s t with
  | nil => exact List.Pairwise.nil
  | cons r rs ih =>
    have hv : ∀ u : Server, u.buffRcv = overwrite s.buffRcv r.bytes →
        verdicts u rs = verdicts (serve s r) rs := fun u hu =>
      verdicts_congr (hu.trans (serve_buffRcv s r).symm) rs
    have hrcv' : overwrite t.buffRcv r.bytes = overwrite s.buffRcv r.bytes := by rw [hrcv]
    rw [told_insist_cons, told_insist_cons, recognised_congr hrcv.symm] at h
    cases hs : recognised s r with
    | true =>
      rw [hs, if_pos rfl, if_pos rfl, told_insist (outgoing_insisted s 0 r),
        told_insist (outgoing_insisted t 1 r), hv (reply (recv (step s (.relayOn 0)) r)) rfl,
        hv (reply (recv (step t (.relayOn 1)) r)) hrcv'] at h
      -- nobody after it is passed the reply
      have hall : ∀ b ∈ verdicts (serve s r) rs, b = true := fun b hb => by
        have hnone := List.count_eq_zero.mp (replicate_eq replyText_ne h)
        exact Bool.eq_true_of_not_eq_false fun hf => hnone (hf ▸ hb)
      exact List.pairwise_cons.mpr ⟨fun b hb _ => hall b hb,
        List.pairwise_of_forall_mem_list fun _ _ b hb _ => hall b hb⟩
    | false =>
      rw [hs, if_neg (by decide), if_neg (by decide)] at h
      have hrest := ih hrcv'.symm (List.cons.inj h).2
      rw [OnlyRecognised, hv _ rfl] at hrest
      exact List.pairwise_cons.mpr ⟨fun b _ htrue => absurd htrue (by rw [hs]; decide), hrest⟩

/-- **A client that is not recognised is told nothing exactly where none of
them comes after one that is.** From any state, over any sequence of clients. -/
theorem unrecognised_independent_iff (s : Server) (rs : List Received) :
    Independent s rs ↔ OnlyRecognised s rs := by
  constructor
  · intro h
    exact onlyRecognised_of_told rfl (h _ _ (clients_insist 0 rs) (clients_insist 1 rs))
  · rintro h es es' rfl hes'
    rw [told_of_onlyRecognised h, told_of_onlyRecognised (hes'.symm ▸ h), hes']

/-- A client that sends one letter, over the first one of the request line. -/
def stranger : Received := ⟨ofText "x", by decide⟩

/-- It is sent the command for whichever relay the client before it was told. -/
theorem stranger_not_independent : ¬ Independent fresh [poll, stranger] := by
  intro h
  have htold := h [.relayOn 0, .client poll, .client stranger]
    [.relayOn 1, .client poll, .client stranger] rfl rfl
  revert htold
  decide

end SmartPrince.Net.ReplySoundness
