import SmartPrince.Common.Debug

/-! # The room in the array of `debug_log`

Each of the five appends leaves a string in the array and needs room for its
own text and a NUL. `vsnprintf` cuts the message to what is left of the array,
and a message that fills it leaves none for the line feed. -/
namespace SmartPrince.Common.DebugBounds
open SmartPrince.Lib.CString SmartPrince.Common.File SmartPrince.Common.Debug

/-- All bytes of a store lie in the array. -/
def Inside (st : Store) : Prop := 0 ≤ st.off ∧ st.off + st.bytes.length ≤ bufSize

/-- Nothing was stored outside the array, and the string ends in it. -/
structure Contained (b : Buffer) : Prop where
  stores : ∀ st ∈ b.stores, Inside st
  string : b.strlen + 1 ≤ bufSize

/-! ## Appends -/

/-- The string so far, which all stores in the array have built. -/
structure Built (b : Buffer) (s : List UInt8) : Prop where
  text : ∃ rest, b.bytes = s ++ 0 :: rest
  noNul : 0 ∉ s
  fits : s.length < bufSize
  size : bufSize ≤ b.bytes.length
  stores : ∀ st ∈ b.stores, Inside st

/-- Some store has left the array. -/
def Outside (b : Buffer) : Prop := ∃ st ∈ b.stores, ¬ Inside st

theorem Outside.store {b : Buffer} (h : Outside b) (off : Int) (bytes : List UInt8) :
    Outside (b.store off bytes) := by
  obtain ⟨st, hst, hout⟩ := h
  exact ⟨st, List.mem_append_left _ hst, hout⟩

theorem Outside.not_contained {b : Buffer} (h : Outside b) : ¬ Contained b := fun hc => by
  obtain ⟨st, hst, hout⟩ := h
  exact hout (hc.stores st hst)

theorem outside_store (b : Buffer) {off : Nat} {bytes : List UInt8}
    (h : bufSize < off + bytes.length) : Outside (b.store off bytes) := by
  refine ⟨_, List.mem_append_right _ List.mem_cons_self, fun hin => ?_⟩
  have hle := hin.2
  dsimp only at hle
  omega

section Appends
variable {b : Buffer} {s t : List UInt8}

theorem Built.strlen (h : Built b s) : b.strlen = s.length := by
  obtain ⟨rest, hb⟩ := h.text
  rw [Buffer.strlen, hb]
  exact congrArg List.length (cstr_nul h.noNul)

theorem Built.contained (h : Built b s) : Contained b :=
  ⟨h.stores, by rw [h.strlen]; exact h.fits⟩

/-- The string that a store with a NUL leaves behind what it does not touch. -/
theorem built_store {old : List UInt8} (hb : b.bytes = s ++ old) (hs : 0 ∉ s) (ht : 0 ∉ t)
    (hsize : bufSize ≤ b.bytes.length) (hin : ∀ st ∈ b.stores, Inside st)
    (hfit : s.length + t.length < bufSize) :
    Built (b.store s.length (t ++ [0])) (s ++ t) := by
  have hold : (t ++ [0]).length ≤ old.length := by
    rw [hb, List.length_append] at hsize
    rw [List.length_append, List.length_singleton]
    omega
  refine ⟨⟨old.drop (t ++ [0]).length, ?_⟩, ?_, ?_, ?_, ?_⟩
  · change put b.bytes s.length (t ++ [0]) = _
    rw [hb, put_append hold]
    simp only [List.append_assoc, List.singleton_append]
  · exact fun h => (List.mem_append.mp h).elim hs ht
  · rwa [List.length_append]
  · change bufSize ≤ (put b.bytes s.length (t ++ [0])).length
    rwa [length_put]
  · intro st hst
    rcases List.mem_append.mp hst with hst | hst
    · exact hin st hst
    · rw [List.mem_singleton.mp hst]
      refine ⟨Int.natCast_nonneg _, ?_⟩
      simp only [List.length_append, List.length_singleton]
      omega

theorem Built.append (h : Built b s) (ht : 0 ∉ t) (hfit : s.length + t.length < bufSize) :
    Built (b.store s.length (t ++ [0])) (s ++ t) := by
  obtain ⟨rest, hb⟩ := h.text
  exact built_store hb h.noNul ht h.size h.stores hfit

theorem not_mem_take {n : Nat} (ht : 0 ∉ t) : 0 ∉ t.take n := fun h => ht (List.mem_of_mem_take h)

/-- The last append has room exactly if its text and a NUL fit. -/
theorem Built.strcat_iff (h : Built b s) (ht : 0 ∉ t) :
    Contained (b.strcat t) ↔ s.length + t.length < bufSize := by
  unfold Buffer.strcat
  rw [h.strlen]
  constructor
  · intro hc
    by_contra hlong
    refine Outside.not_contained (outside_store b ?_) hc
    rw [List.length_append, List.length_singleton]
    omega
  · exact fun hfit => (h.append ht hfit).contained

end Appends

/-! ## The room that is computed -/

theorem room_eq {n : Nat} (h : n ≤ bufSize) : room n = bufSize - n := by
  have hlt : ((bufSize : Int) - n) % 2 ^ 64 = bufSize - n := by
    unfold bufSize at h ⊢
    exact Int.emod_eq_of_lt (by omega) (by omega)
  unfold room
  rw [hlt]
  omega

/-- Text that is cut to the room left, which is not empty. -/
theorem fitting_eq {n : Nat} (h : n < bufSize) (text : List UInt8) :
    fitting (room n) text = text.take (bufSize - 1 - n) ++ [0] := by
  unfold fitting snprintf
  rw [room_eq h.le, if_neg (by omega)]
  congr 2
  omega

theorem printed_eq {text : List UInt8} (h : text.length < bufSize) :
    printed text = text.length := by
  unfold bufSize at h
  exact if_pos (by omega)

theorem addInt_eq {m n : Nat} (h : m + n ≤ bufSize) : addInt m n = ((m + n : Nat) : Int) := by
  unfold bufSize at h
  unfold addInt
  rw [Int.bmod_eq_of_le (by omega) (by omega)]
  omega

theorem decimal_length (x : Int32) : (decimal x.toInt).length ≤ 11 := by
  have hlo := Int32.le_toInt x
  have hhi := Int32.toInt_lt x
  have hdigits : (Nat.toDigits 10 x.toInt.natAbs).length ≤ 10 :=
    (Nat.length_toDigits_le_iff (by decide) (by decide)).mpr (by omega)
  unfold decimal
  rw [List.length_append, List.length_map]
  split
  · rw [List.length_singleton]
    omega
  · rw [List.length_nil]
    omega

theorem threadText_length (threadnr : Int32) : (threadText threadnr).length ≤ 14 := by
  have h := decimal_length threadnr
  have hopen : (ofText "[").length = 1 := by decide
  have hclose : (ofText "] ").length = 2 := by decide
  unfold threadText
  rw [List.length_append, List.length_append, hopen, hclose]
  omega

theorem threadText_no_nul (threadnr : Int32) : 0 ∉ threadText threadnr := by
  unfold threadText
  rw [List.mem_append, List.mem_append, not_or, not_or]
  exact ⟨⟨by decide, decimal_no_nul _⟩, by decide⟩

/-! ## The message -/

section Message
variable (threadnr : Int32) {msg err : List UInt8} {b : Buffer}

/-- The thread number and what is kept of the message. -/
def shown (msg : List UInt8) : List UInt8 :=
  threadText threadnr ++ msg.take (bufSize - 1 - (threadText threadnr).length)

theorem shown_length (msg : List UInt8) :
    (shown threadnr msg).length = min ((threadText threadnr).length + msg.length) (bufSize - 1) := by
  have h := threadText_length threadnr
  unfold shown bufSize
  rw [List.length_append, List.length_take]
  omega

theorem addMessage_built (hmsg : 0 ∉ msg) (hsize : bufSize ≤ b.bytes.length)
    (hnew : b.stores = []) : Built (addMessage threadnr msg b).1 (shown threadnr msg) := by
  have hthread := threadText_length threadnr
  have hshort : (threadText threadnr).length < bufSize := by unfold bufSize; omega
  have hfirst : fitting bufSize (threadText threadnr) = threadText threadnr ++ [0] := by
    unfold fitting snprintf
    rw [if_neg (by decide), List.take_of_length_le (Nat.le_sub_one_of_lt hshort)]
  have hthis : Built (b.store 0 (threadText threadnr ++ [0])) (threadText threadnr) :=
    built_store (s := []) rfl List.not_mem_nil (threadText_no_nul threadnr) hsize
      (by rw [hnew]; exact nofun) (by rwa [List.length_nil, Nat.zero_add])
  unfold addMessage shown
  dsimp only
  rw [hfirst, printed_eq hshort, fitting_eq hshort]
  refine hthis.append (not_mem_take hmsg) ?_
  have hlen := shown_length threadnr msg
  rw [← List.length_append]
  change (shown threadnr msg).length < bufSize
  rw [hlen]
  exact lt_of_le_of_lt (Nat.min_le_right _ _) (by decide)

/-- `n` is the end of the string as long as the message was not cut. -/
theorem addMessage_end (msg : List UInt8) (b : Buffer)
    (h : (threadText threadnr).length + msg.length < bufSize) :
    (addMessage threadnr msg b).2 = (shown threadnr msg).length := by
  have hthread : (threadText threadnr).length < bufSize := by omega
  have hmsg : msg.length < bufSize := by omega
  unfold addMessage
  dsimp only
  rw [shown_length, min_eq_left (Nat.le_sub_one_of_lt h), printed_eq hthread, printed_eq hmsg,
    addInt_eq h.le]

end Message

/-! ## The text of `errno` -/

section Errno
variable {b : Buffer} {s t err : List UInt8} {n : Int}

/-- `strncat` as far as its text fits. -/
theorem Built.strncat (h : Built b s) (ht : 0 ∉ t) {k : Nat}
    (hfit : s.length + (t.take k).length < bufSize) :
    Built (b.strncat t k) (s ++ t.take k) := by
  unfold Buffer.strncat
  rw [h.strlen]
  exact h.append (not_mem_take ht) hfit

theorem Built.strncat_outside (h : Built b s) {k : Nat}
    (hlong : bufSize ≤ s.length + (t.take k).length) : Outside (b.strncat t k) := by
  unfold Buffer.strncat
  rw [h.strlen]
  refine outside_store b ?_
  rw [List.length_append, List.length_singleton]
  omega

theorem colon_length : (ofText ": ").length = 2 := by decide

/-- The string of a message that was not cut, with the colon behind it. -/
theorem Built.colon (h : Built b s) (hroom : s.length + 2 < bufSize) :
    Built (b.strncat (ofText ": ") (room b.strlen)) (s ++ ofText ": ") := by
  have htake : (ofText ": ").take (room s.length) = ofText ": " := by
    rw [List.take_of_length_le]
    rw [colon_length, room_eq h.fits.le]
    omega
  rw [h.strlen]
  have hthis := h.strncat (t := ofText ": ") (k := room s.length) (by decide)
    (by rwa [htake, colon_length])
  rwa [htake] at hthis

/-- `strncat` writes its NUL behind the bytes it was told to append. -/
theorem Built.colon_outside (h : Built b s) (hroom : bufSize ≤ s.length + 2) :
    Outside (b.strncat (ofText ": ") (room b.strlen)) := by
  rw [h.strlen, room_eq h.fits.le]
  refine h.strncat_outside ?_
  rw [List.length_take, colon_length]
  omega

/-- A text cut to the room left has room for a line feed behind it exactly if
it was not cut, and does not reach the end. -/
theorem Built.posix_iff (h : Built b s) (herr : 0 ∉ err) :
    Contained ((b.store s.length (fitting (room s.length) err)).strcat (ofText "\n")) ↔
      s.length + err.length + 1 < bufSize := by
  have hfits := h.fits
  have hkept : (err.take (bufSize - 1 - s.length)).length =
      min (bufSize - 1 - s.length) err.length := List.length_take
  have herrno := h.append (not_mem_take (n := bufSize - 1 - s.length) herr) (by omega)
  rw [fitting_eq hfits, herrno.strcat_iff (by decide), List.length_append, hkept]
  change _ + 1 < bufSize ↔ _
  omega

/-- The same for a text cut to one byte more, whose NUL may lie behind the array. -/
theorem Built.gnu_iff (h : Built b s) (herr : 0 ∉ err) :
    Contained ((b.strncat err (room b.strlen)).strcat (ofText "\n")) ↔
      s.length + err.length + 1 < bufSize := by
  have hkept : (err.take (bufSize - s.length)).length = min (bufSize - s.length) err.length :=
    List.length_take
  rw [h.strlen, room_eq h.fits.le]
  by_cases hfit : s.length + err.length < bufSize
  · have herrno := h.strncat herr (k := bufSize - s.length) (by omega)
    rw [herrno.strcat_iff (by decide), List.length_append, hkept]
    change _ + 1 < bufSize ↔ _
    omega
  · have hout := h.strncat_outside (t := err) (k := bufSize - s.length) (by omega)
    exact iff_of_false (hout.store _ _).not_contained (by omega)

/-- The colon, the text and the line feed behind a message whose end is `n`
where it was not cut. -/
theorem Built.errno_iff (h : Built b s) (v : StrerrorR) (herr : 0 ∉ err)
    (hn : s.length + 1 < bufSize → n = s.length) :
    Contained ((addErrno v err b n).strcat (ofText "\n")) ↔
      s.length + 2 + err.length + 1 < bufSize := by
  by_cases hroom : s.length + 2 < bufSize
  · have hcolon := h.colon hroom
    have hlen : (s ++ ofText ": ").length = s.length + 2 := by
      rw [List.length_append, colon_length]
    have hend : addInt n 2 = (s ++ ofText ": ").length := by
      rw [hn (by omega), hlen]
      exact addInt_eq hroom.le
    unfold addErrno
    dsimp only
    rw [hend, ← hlen]
    cases v with
    | posix => exact hcolon.posix_iff herr
    | gnu => exact hcolon.gnu_iff herr
  · have hout := h.colon_outside (Nat.le_of_not_lt hroom)
    refine iff_of_false (Outside.not_contained ?_) (by omega)
    unfold addErrno
    cases v with
    | posix => exact (hout.store _ _).store _ _
    | gnu => exact (hout.store _ _).store _ _

end Errno

section Log
variable (v : StrerrorR) (threadnr : Int32) {msg : List UInt8} (hmsg : 0 ∉ msg)
  (buf : Vector UInt8 bufSize) (behind : List UInt8)
include hmsg

theorem addMessage_array :
    Built (addMessage threadnr msg ⟨buf.toList ++ behind, []⟩).1 (shown threadnr msg) :=
  addMessage_built threadnr hmsg (le_length_array buf behind) rfl

theorem debugLog_message_iff (err : List UInt8) :
    Contained (debugLog v threadnr false msg err buf behind) ↔
      (threadText threadnr).length + msg.length ≤ 1022 := by
  have hlen := shown_length threadnr msg
  have hcap : bufSize = 1024 := rfl
  change Contained ((addMessage threadnr msg _).1.strcat (ofText "\n")) ↔ _
  rw [(addMessage_array threadnr hmsg buf behind).strcat_iff (by decide), hlen]
  change _ + 1 < bufSize ↔ _
  omega

theorem debugLog_errno_iff {err : List UInt8} (herr : 0 ∉ err) :
    Contained (debugLog v threadnr true msg err buf behind) ↔
      (threadText threadnr).length + msg.length + (2 + err.length) ≤ 1022 := by
  have hlen := shown_length threadnr msg
  have hcap : bufSize = 1024 := rfl
  have hend := addMessage_end threadnr msg ⟨buf.toList ++ behind, []⟩
  have hbuilt := (addMessage_array threadnr hmsg buf behind).errno_iff v herr
    (fun hlt => hend (by omega))
  rw [hlen] at hbuilt
  refine hbuilt.trans ?_
  omega

end Log

/-- **The string stays in the array exactly as long as the thread number, the
message and the text of `errno` leave room for the line feed and the NUL.** -/
theorem debugLog_contained_iff (v : StrerrorR) (threadnr : Int32) (errnoFlag : Bool)
    {msg err : List UInt8} (hmsg : 0 ∉ msg) (herr : 0 ∉ err) (buf : Vector UInt8 bufSize)
    (behind : List UInt8) :
    Contained (debugLog v threadnr errnoFlag msg err buf behind) ↔
      (threadText threadnr).length + msg.length + (if errnoFlag then 2 + err.length else 0) ≤
        1022 := by
  cases errnoFlag with
  | false => exact debugLog_message_iff v threadnr hmsg buf behind err
  | true => exact debugLog_errno_iff v threadnr hmsg buf behind herr

theorem threadText_zero_length : (threadText 0).length = 4 := by decide +kernel

theorem debugLog_contained_short :
    Contained (debugLog .posix 0 true (ofText "no camera") (ofText "No such device")
      (Vector.replicate bufSize 7) [9]) := by
  refine (debugLog_contained_iff .posix 0 true (by decide) (by decide) _ _).mpr ?_
  rw [threadText_zero_length]
  decide

/-- A message that fills the array: the line feed takes the place of the NUL. -/
theorem debugLog_long_not_contained :
    ¬ Contained (debugLog .posix 0 false (List.replicate 1019 65) [] (Vector.replicate bufSize 7)
      [9]) := by
  have h0 : (0 : UInt8) ∉ List.replicate 1019 65 := fun h =>
    absurd (List.eq_of_mem_replicate h) (by decide)
  rw [debugLog_message_iff _ _ h0, threadText_zero_length, List.length_replicate]
  decide

end SmartPrince.Common.DebugBounds
