import SmartPrince.Net.HttpServer
import SmartPrince.Net.RequestLineSoundness

/-! # When a client of the HTTP server is handled properly

`s_handle_client` takes a connection that was closed for a header that was
received, and leaves the socket open where `recv` fails or the buffer is full.
What is right is the run in which the header ends in time, with a request
line that its parser returns a position for. -/
namespace SmartPrince.Net.HandleSoundness
open SmartPrince.Lib.CString SmartPrince.Net.HttpParser SmartPrince.Net.HttpServer
open SmartPrince.Net.RequestLineSoundness

/-- The bytes received end a header, and a NUL of the buffer is behind them. -/
def Complete (received : List UInt8) : Prop :=
  [13, 10, 13, 10] <:+ received ∧ received.length < headerSize

/-- The parser is given a complete header only, a response is sent exactly for
one, and the socket is closed once. -/
structure Proper (h : Handled) : Prop where
  parsed : h.parsed.isSome = true → Complete h.received
  sent : h.sent ≠ [] ↔ Complete h.received
  closed : h.closed = 1

/-! ## The bytes received -/

/-- The first calls of `recv` return these bytes, and no fewer of them end a header. -/
structure Reading (recv : Nat → Recv) (received : List UInt8) : Prop where
  bytes : ∀ i b, received[i]? = some b → recv i = .byte b
  unended : ∀ n, n < received.length → endsHeader (received.take n) = false

/-- They do end one. -/
structure Arrives (recv : Nat → Recv) (received : List UInt8) : Prop extends
    Reading recv received where
  ends : endsHeader received = true

theorem Reading.snoc {recv : Nat → Recv} {received : List UInt8} (h : Reading recv received)
    (hends : endsHeader received = false) {b : UInt8} (hb : recv received.length = .byte b) :
    Reading recv (received ++ [b]) := by
  refine ⟨fun i x hx => ?_, fun n hn => ?_⟩
  · rcases Nat.lt_trichotomy i received.length with hi | rfl | hi
    · rw [List.getElem?_append_left hi] at hx
      exact h.bytes i x hx
    · rw [List.getElem?_concat_length] at hx
      rw [hb, Option.some.inj hx]
    · rw [List.getElem?_eq_none (by rw [List.length_append, List.length_singleton]; omega)] at hx
      cases hx
  · rw [List.length_append, List.length_singleton] at hn
    rcases Nat.lt_succ_iff_lt_or_eq.mp hn with hn | rfl
    · rw [List.take_append_of_le_length (Nat.le_of_lt hn)]
      exact h.unended n hn
    · rw [List.take_left]
      exact hends

/-- The four ways the loop stops. -/
inductive Stopped (recv : Nat → Recv) : Int × List UInt8 → Prop
  | header {received} (h : Arrives recv received) (hlen : received.length ≤ headerSize) :
      Stopped recv (1, received)
  | closed {received} (h : Reading recv received) (hends : endsHeader received = false)
      (hr : recv received.length = .closed) : Stopped recv (0, received)
  | failed {received} (h : Reading recv received) (hends : endsHeader received = false)
      (hr : recv received.length = .failed) : Stopped recv (-1, received)
  | full {received} (h : Reading recv received) (hends : endsHeader received = false)
      (hlen : received.length = headerSize) : Stopped recv (-1, received)

theorem readHeader_stopped {recv : Nat → Recv} {room : Nat} {received : List UInt8}
    (h : Reading recv received) (hends : endsHeader received = false)
    (hroom : received.length + room = headerSize) : Stopped recv (readHeader recv room received) := by
  induction room generalizing received with
  | zero => exact .full h hends hroom
  | succ room ih =>
    rw [readHeader]
    cases hr : recv received.length with
    | closed => exact .closed h hends hr
    | failed => exact .failed h hends hr
    | byte b =>
      have hnext := h.snoc hends hr
      have hlen : (received ++ [b]).length + room = headerSize := by
        rw [List.length_append, List.length_singleton]
        omega
      dsimp only
      by_cases he : endsHeader (received ++ [b]) = true
      · rw [if_pos he]
        exact .header ⟨hnext, he⟩ (by omega)
      · rw [if_neg he]
        exact ih hnext (Bool.eq_false_iff.mpr he) hlen

/-- The header that arrives first is what every reading starts with. -/
theorem Arrives.eq_take {recv : Nat → Recv} {a b : List UInt8} (ha : Arrives recv a)
    (hb : Reading recv b) (h : a.length ≤ b.length) : a = b := by
  have htake : b.take a.length = a := by
    refine List.ext_getElem? fun i => ?_
    by_cases hi : i < a.length
    · rw [List.getElem?_take_of_lt hi]
      have h1 := ha.bytes i _ (List.getElem?_eq_getElem hi)
      have h2 := hb.bytes i _ (List.getElem?_eq_getElem (Nat.lt_of_lt_of_le hi h))
      rw [h1] at h2
      rw [List.getElem?_eq_getElem hi, List.getElem?_eq_getElem (Nat.lt_of_lt_of_le hi h),
        Recv.byte.inj h2]
    · rw [List.getElem?_eq_none (by rw [List.length_take]; omega), List.getElem?_eq_none (by omega)]
  rcases Nat.lt_or_eq_of_le h with hlt | heq
  · have hopen := hb.unended a.length hlt
    rw [htake, ha.ends] at hopen
    cases hopen
  · rw [← htake, heq, List.take_length]

/-- A reading that stopped before a header ended has not missed one. -/
theorem Arrives.not_stopped {recv : Nat → Recv} {a b : List UInt8} (ha : Arrives recv a)
    (hb : Reading recv b) (hends : endsHeader b = false) (h : a.length ≤ b.length) : False := by
  have he := ha.eq_take hb h
  rw [← he, ha.ends] at hends
  cases hends

theorem Arrives.length_le {recv : Nat → Recv} {a : List UInt8} (ha : Arrives recv a) {n : Nat}
    (h : ∀ b, recv n ≠ .byte b) : a.length ≤ n := by
  by_contra hn
  exact h _ (ha.bytes n _ (List.getElem?_eq_getElem (Nat.lt_of_not_le hn)))

/-- Nor one that stopped for want of a byte. -/
theorem Arrives.not_cut {recv : Nat → Recv} {a b : List UInt8} (ha : Arrives recv a)
    (hb : Reading recv b) (hends : endsHeader b = false)
    (hstop : ∀ x, recv b.length ≠ .byte x) : False :=
  ha.not_stopped hb hends (ha.length_le hstop)

/-! ## What ends a header -/

theorem complete_of_ends {received : List UInt8} (h : endsHeader received = true)
    (hlen : received.length < headerSize) : Complete received := by
  simp only [endsHeader, Bool.and_eq_true, decide_eq_true_eq, beq_iff_eq] at h
  exact ⟨h.2 ▸ List.drop_suffix _ _, hlen⟩

/-- What ends with CR LF CR LF and was not taken for a header is shorter than six bytes. -/
theorem length_of_complete {received : List UInt8} (h : Complete received)
    (hends : endsHeader received = false) : received.length < 6 := by
  by_contra hlen
  have hdrop := List.suffix_iff_eq_drop.mp h.1
  have he : received.length - 1 - 3 = received.length - [13, 10, 13, 10].length := by
    rw [Nat.sub_sub]
    rfl
  have htrue : endsHeader received = true := by
    simp only [endsHeader, Bool.and_eq_true, decide_eq_true_eq, beq_iff_eq]
    exact ⟨by omega, by rw [he]; exact hdrop.symm⟩
  rw [hends] at htrue
  cases htrue

/-! ## Its request line -/

theorem takeWhile_length_le {p : UInt8 → Bool} {a b : List UInt8} {x : UInt8} (hx : p x = false) :
    ((a ++ x :: b).takeWhile p).length ≤ a.length := by
  induction a with
  | nil => rw [List.nil_append, List.takeWhile_cons_of_neg (by simp [hx]), List.length_nil]
  | cons c a ih =>
    by_cases hc : p c = true
    · rw [List.cons_append, List.takeWhile_cons_of_pos hc, List.length_cons, List.length_cons]
      omega
    · rw [List.cons_append, List.takeWhile_cons_of_neg hc]
      exact Nat.zero_le _

theorem requestLine_length_le (front rest : List UInt8) :
    (requestLine (cstr (front ++ 13 :: rest))).length ≤ front.length := by
  have hline : ((cstr (front ++ 13 :: rest)).takeWhile (· ≠ 13)).length ≤ front.length := by
    by_cases h0 : 0 ∈ front
    · rw [cstr_append_of_mem h0]
      exact ((List.takeWhile_sublist _).trans (List.takeWhile_sublist _)).length_le
    · rw [cstr_append h0, cstr, List.takeWhile_cons_of_pos (by decide)]
      exact takeWhile_length_le (by decide)
  exact (List.length_take_le' _ _).trans hline

theorem TwoSpaces.length_ge {l : List UInt8} (h : TwoSpaces l) : 2 ≤ l.length := by
  by_cases h32 : 32 ∈ l
  · obtain ⟨m, b, rfl, hm⟩ := List.eq_append_cons_of_mem h32
    rw [twoSpaces_append hm] at h
    have hb := List.length_pos_of_mem ((List.dropWhile_sublist _).mem h)
    rw [List.length_append, List.length_cons]
    omega
  · exact absurd h (not_twoSpaces h32)

theorem not_twoSpaces_of_short {received : List UInt8} (h : [13, 10, 13, 10] <:+ received)
    (hlen : received.length < 6) : ¬ TwoSpaces (requestLine (cstr received)) := by
  obtain ⟨front, rfl⟩ := h
  rw [List.length_append] at hlen
  intro h2
  have hge := TwoSpaces.length_ge h2
  have hle := requestLine_length_le front [10, 13, 10]
  simp only [List.length_cons, List.length_nil] at hlen
  omega

/-- The buffer from its start on: behind what was received stands a NUL. -/
theorem copyLine_received {received : List UInt8} (h : received.length < headerSize)
    (behind : List UInt8) :
    copyLine (lineSize - 1) (overwrite (zeros headerSize) received ++ behind) =
      requestLine (cstr received) := by
  have hk : headerSize - received.length = headerSize - received.length - 1 + 1 := by omega
  have hbuf : overwrite (zeros headerSize) received ++ behind =
      received ++ [0] ++ (zeros (headerSize - received.length - 1) ++ behind) := by
    rw [overwrite, zeros, List.drop_replicate, hk, List.replicate_succ, List.append_assoc,
      List.append_assoc]
    rfl
  have hcstr : cstr (received ++ [0]) = cstr received := by
    by_cases h0 : 0 ∈ received
    · exact cstr_append_of_mem h0
    · rw [cstr_nul h0, cstr_eq_self h0]
  rw [copyLine_eq, hbuf, cstr_append_of_mem (List.mem_append_right _ List.mem_cons_self), hcstr]
  rfl

/-! ## A whole client -/

section Client
variable {recv : Nat → Recv} {client : Client} {stack : Stack} {received : List UInt8}

/-- A reading that failed: the socket stays open. -/
theorem handled_failed (h : readHeader recv headerSize [] = (-1, received)) :
    ¬ Proper (sHandleClient recv client stack) := by
  intro hproper
  have hclosed := hproper.closed
  simp only [sHandleClient, h] at hclosed
  cases hclosed

/-- Any other is parsed, and answered where the parser returns a position. -/
theorem handled_parsed {readLen : Int} (h : readHeader recv headerSize [] = (readLen, received))
    (h0 : ¬ readLen < 0) :
    let line := copyLine (lineSize - 1) (overwrite (zeros headerSize) received ++ stack.behindBuffer)
    let handled := sHandleClient recv client stack
    (handled.received = received ∧ handled.parsed.isSome = true) ∧
      (TwoSpaces line ∧ handled.sent ≠ [] ∧ handled.closed = 1 ∨
        ¬ TwoSpaces line ∧ handled.closed = 0) := by
  intro line handled
  have hpos := parse_position (overwrite (zeros headerSize) received ++ stack.behindBuffer)
    (zeros lineSize ++ stack.behindRequest)
  rcases hpos with ⟨h2, hp⟩ | ⟨h2, hp⟩
  · have hhandled : handled.received = received ∧ handled.parsed.isSome = true ∧
        handled.sent ≠ [] ∧ handled.closed = 1 := by
      simp [handled, sHandleClient, h, h0, hp]
    exact ⟨⟨hhandled.1, hhandled.2.1⟩, .inl ⟨h2, hhandled.2.2⟩⟩
  · have hhandled : handled.received = received ∧ handled.parsed.isSome = true ∧
        handled.closed = 0 := by
      -- neither `NULL` nor a pointer that was never set is a position
      cases hr : (sParseHttpRequestLine (overwrite (zeros headerSize) received ++ stack.behindBuffer)
          (zeros lineSize ++ stack.behindRequest)).1 with
      | offset n => exact absurd hr (hp n)
      | unspecified => simp [handled, sHandleClient, h, h0, hr]
      | null => simp [handled, sHandleClient, h, h0, hr]
    exact ⟨⟨hhandled.1, hhandled.2.1⟩, .inr ⟨h2, hhandled.2.2⟩⟩

/-- What a proper run has received, if its reading did not fail. -/
theorem handled_proper {readLen : Int} (h : readHeader recv headerSize [] = (readLen, received))
    (h0 : ¬ readLen < 0) :
    Proper (sHandleClient recv client stack) ↔
      Complete received ∧ TwoSpaces (requestLine (cstr received)) := by
  obtain ⟨⟨hreceived, hparsed⟩, hend⟩ :=
    @handled_parsed recv client stack received readLen h h0
  constructor
  · intro hproper
    have hcomplete := hproper.parsed hparsed
    rw [hreceived] at hcomplete
    refine ⟨hcomplete, ?_⟩
    rw [← copyLine_received hcomplete.2 stack.behindBuffer]
    rcases hend with ⟨h2, -⟩ | ⟨-, hopen⟩
    · exact h2
    · have hclosed := hproper.closed
      rw [hopen] at hclosed
      cases hclosed
  · rintro ⟨hcomplete, h2⟩
    rw [← copyLine_received hcomplete.2 stack.behindBuffer] at h2
    obtain ⟨-, hsent, hclosed⟩ := hend.resolve_right fun hno => hno.1 h2
    have hc : Complete (sHandleClient recv client stack).received := hreceived ▸ hcomplete
    exact ⟨fun _ => hc, iff_of_true hsent hc, hclosed⟩

/-- **A client is handled properly exactly where a header ends inside the
buffer before `recv` stops, and its first line has two spaces.** -/
theorem handled_properly_iff (recv : Nat → Recv) (client : Client) (stack : Stack) :
    Proper (sHandleClient recv client stack) ↔
      ∃ received, Arrives recv received ∧ received.length < headerSize ∧
        TwoSpaces (requestLine (cstr received)) := by
  have hnone : Reading recv [] :=
    ⟨fun _ _ h => absurd h (by simp), fun _ h => absurd h (Nat.not_lt_zero _)⟩
  have hstopped : Stopped recv (readHeader recv headerSize []) := readHeader_stopped hnone rfl rfl
  generalize hr : readHeader recv headerSize [] = r at hstopped
  cases hstopped with
  | @header received h hlen =>
    rw [handled_proper hr (by decide)]
    constructor
    · exact fun ⟨hcomplete, h2⟩ => ⟨received, h, hcomplete.2, h2⟩
    · rintro ⟨other, ho, hlt, h2⟩
      have he : received = other := by
        rcases Nat.le_total received.length other.length with hle | hle
        · exact h.eq_take ho.toReading hle
        · exact (ho.eq_take h.toReading hle).symm
      subst he
      exact ⟨complete_of_ends h.ends hlt, h2⟩
  | @closed received h hends hclosed =>
    rw [handled_proper hr (by decide)]
    refine iff_of_false ?_ ?_
    · rintro ⟨hcomplete, h2⟩
      exact not_twoSpaces_of_short hcomplete.1 (length_of_complete hcomplete hends) h2
    · rintro ⟨other, ho, -⟩
      -- the header would have ended before the close
      exact ho.not_cut h hends (by simp [hclosed])
  | @failed received h hends hfailed =>
    refine iff_of_false (handled_failed hr) ?_
    rintro ⟨other, ho, -⟩
    exact ho.not_cut h hends (by simp [hfailed])
  | @full received h hends hlen =>
    refine iff_of_false (handled_failed hr) ?_
    rintro ⟨other, ho, hlt, -⟩
    exact ho.not_stopped h hends (by omega)

end Client

/-- A `recv` that fails at once: the socket is never closed. -/
theorem failed_recv_not_proper :
    ¬ Proper (sHandleClient (fun _ => .failed) ⟨[], 0⟩ ⟨[], [], []⟩) :=
  handled_failed (show readHeader (fun _ => .failed) headerSize [] = (-1, []) from rfl)

end SmartPrince.Net.HandleSoundness
