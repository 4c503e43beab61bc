import SmartPrince.Common.JpegFields

/-! # What `decode_jpeg_raw` stores of a frame

Of a frame that is as wide as it was the rows are stored as they come, those of
luma as they are and those of chroma resampled down the frame: a row of either
field goes to every other row of its plane. -/
namespace SmartPrince.Common.JpegFieldsSoundness
open SmartPrince.Lib.Fill SmartPrince.Lib.Loop
open SmartPrince.Common.JpegUtils hiding accept luma chroma block scan decodeJpegRaw
open SmartPrince.Common.JpegEncode SmartPrince.Common.JpegFields

/-! ## The rows as they are -/

/-- The frame is as wide as it was, and its chroma was halved across. -/
structure Plain (q : Fields) : Prop where
  hsf : q.frame.hsf = 2
  same : q.frame.outputWidth = q.frame.width
  pos : 0 < q.frame.width
  even : q.frame.width % 2 = 0

section Field
variable {q : Fields} (hq : Plain q)

include hq

theorem Plain.hdown : q.frame.hdown = 0 := by
  have := hq.pos
  unfold Picture.hdown
  rw [hq.same, if_neg (by omega), if_neg (by omega)]

theorem Plain.xsl : q.frame.xsl = 0 := by
  unfold Picture.xsl
  simp [hq.hdown, hq.same]

theorem Plain.xsc : q.frame.xsc = 0 := by
  rw [Picture.xsc, hq.xsl]

theorem Plain.lumaRow (row : Nat → UInt8) (xd : Nat) (raw0 : Nat → Option UInt8) :
    lumaRow q.frame row xd raw0 = loop q.frame.width (fun x raw0 => put raw0 (xd + x) (row x)) raw0 := by
  unfold JpegUtils.lumaRow
  simp only [hq.hdown, hq.xsl, if_true, Nat.zero_add]

theorem Plain.chr (row : Rows) : chr q.frame row = row := by
  funext y x
  simp [JpegUtils.chr, hq.hdown, hq.xsc]

end Field

/-! ## Chroma, resampled down the frame -/

/-- A row of chroma as it is stored, from those of a block. -/
def resampled (q : Fields) (ctype : Int) (chr : Rows) (j : Nat) : Nat → UInt8 :=
  if ctype = y4mChroma422 then if q.frame.vsf = 1 then chr j else chr (j / 2)
  else if q.frame.vsf = 1 then fun x => half (chr (2 * j) x) (chr (2 * j + 1) x)
  else chr j

/-- Whether the rows are asserted to lie in the plane. -/
def asserted (q : Fields) (ctype : Int) : Bool := ctype ≠ y4mChroma422 ∧ q.frame.vsf = 1

theorem chroma_eq (q : Fields) (ctype : Int) (chr1 chr2 : Rows) (yc : Nat) (s : Chroma) :
    chroma q ctype chr1 chr2 yc s = loop (chromaRows q ctype) (fun j =>
      chromaRow q.frame (asserted q ctype) (yc + j * q.numfields) (resampled q ctype chr1 j)
        (resampled q ctype chr2 j)) s := by
  unfold chroma chromaRows asserted resampled
  by_cases hc : ctype = y4mChroma422
  · by_cases hv : q.frame.vsf = 1
    · simp [hc, hv]
    · simp only [hc, hv, if_true, if_false]
      -- every row twice
      rw [show 16 = 2 * 8 from rfl, ← loop_pairs]
      refine loop_congr (fun y s _ => ?_) s
      have heven : 2 * y / 2 = y := by omega
      have hodd : (2 * y + 1) / 2 = y := by omega
      simp [heven, hodd]
  · by_cases hv : q.frame.vsf = 1 <;> simp [hc, hv]

theorem half_self (a : UInt8) : half a a = a := by
  unfold half
  rw [← Nat.two_mul, Nat.shiftRight_one, Nat.mul_div_cancel_left _ Nat.two_pos]
  exact UInt8.ofNat_toNat

/-! ## One field is stored -/

/-- The chroma planes so far, unless the process was aborted. -/
structure Kept (S : Set Nat) (u v : Nat → UInt8) (s : Chroma) : Prop where
  going : s.aborted = false
  raw1 : Holds S u s.raw1
  raw2 : Holds S v s.raw2

section Blocks
variable {q : Fields} {ctype : Int} {k first : Nat} {plane : Fin 3 → Nat → UInt8}

theorem chromaRow_kept {T : Set Nat} {start : Nat → Nat} {r yc : Nat} {asserted : Bool} {u v : Nat → UInt8} {s : Chroma}
    (h : Kept (T ∪ rows start (q.frame.width / 2) r 0) (plane 1) (plane 2) s)
    (hstart : start r = yc * q.frame.width / 2)
    (hlimit : asserted → yc * q.frame.width / 2 + q.frame.width / 2 ≤ q.frame.width * q.frame.height / 4)
    (hu : ∀ x, x < q.frame.width / 2 → u x = plane 1 (start r + x))
    (hv : ∀ x, x < q.frame.width / 2 → v x = plane 2 (start r + x)) :
    Kept (T ∪ rows start (q.frame.width / 2) (r + 1) 0) (plane 1) (plane 2)
      (chromaRow q.frame asserted yc u v s) := by
  rw [← rows_row]
  refine loop_inv (fun x => Kept (T ∪ rows start (q.frame.width / 2) r x) (plane 1) (plane 2)) h
    fun x s hx hs => ?_
  have hin : ¬ (asserted ∧ ¬ yc * q.frame.width / 2 + x < q.frame.width * q.frame.height / 4) := by
    rintro ⟨ha, hlt⟩
    have := hlimit ha
    omega
  rw [chromaSample, if_neg (by simp [hs.going]), if_neg hin, rows_sample, Set.union_insert, ← hstart]
  exact ⟨hs.going, hs.raw1.put (hu x hx), hs.raw2.put (hv x hx)⟩

variable (q plane) in
/-- The rows of block `k` of a field are those of the planes, where it starts with row `first`. -/
structure Gives (ctype : Int) (first k : Nat) (data : Fin 3 → Rows) : Prop where
  luma : ∀ y x, data 0 y x =
    plane 0 ((first + (8 * q.frame.vsf * k + y) * q.numfields) * q.frame.width + x)
  chroma : ∀ c, c ≠ 0 → ∀ j x, resampled q ctype (data c) j x =
    plane c ((first + (chromaRows q ctype * k + j) * q.numfields) * q.frame.width / 2 + x)

variable (q plane) in
/-- The planes after `k` blocks of a field; `T` holds the rows of the fields before. -/
structure At (ctype : Int) (first : Nat) (T : Fin 3 → Set Nat) (k : Nat) (d : Decoding) : Prop where
  yl : d.yl = first + 8 * q.frame.vsf * k * q.numfields
  yc : d.yc = first + chromaRows q ctype * k * q.numfields
  luma : Holds (T 0 ∪ rows (fun r => (first + r * q.numfields) * q.frame.width) q.frame.width
    (8 * q.frame.vsf * k) 0) (plane 0) d.raw0
  chroma : Kept (T 1 ∪ rows (fun r => (first + r * q.numfields) * q.frame.width / 2)
    (q.frame.width / 2) (chromaRows q ctype * k) 0) (plane 1) (plane 2) ⟨d.raw1, d.raw2, false⟩

variable {T : Fin 3 → Set Nat} {data : Fin 3 → Rows} {d : Decoding}

theorem luma_at (hq : Plain q) (hdata : Gives q plane ctype first k data)
    (h : At q plane ctype first T k d) :
    Holds (T 0 ∪ rows (fun r => (first + r * q.numfields) * q.frame.width) q.frame.width
      (8 * q.frame.vsf * (k + 1)) 0) (plane 0) (luma q (data 0) d).raw0 := by
  unfold luma
  dsimp only
  rw [Nat.mul_succ]
  refine loop_inv (fun y => Holds (T 0 ∪ rows (fun r => (first + r * q.numfields) * q.frame.width)
    q.frame.width (8 * q.frame.vsf * k + y) 0) (plane 0)) h.luma fun y raw0 _ hraw => ?_
  have hstart : (d.yl + y * q.numfields) * q.frame.width =
      (first + (8 * q.frame.vsf * k + y) * q.numfields) * q.frame.width := by
    rw [h.yl]
    ring
  rw [hq.lumaRow, hstart]
  exact hraw.row fun x _ => hdata.luma y x

theorem chroma_at (hq : Plain q) (hfirst : first < q.numfields)
    (hroom : asserted q ctype → 4 * (k + 1) * q.numfields ≤ q.frame.height / 2)
    (hdata : Gives q plane ctype first k data) (h : At q plane ctype first T k d) :
    Kept (T 1 ∪ rows (fun r => (first + r * q.numfields) * q.frame.width / 2) (q.frame.width / 2)
        (chromaRows q ctype * (k + 1)) 0) (plane 1) (plane 2)
      (chroma q ctype (data 1) (data 2) d.yc ⟨d.raw1, d.raw2, false⟩) := by
  rw [chroma_eq, Nat.mul_succ]
  refine loop_inv (fun j => Kept (T 1 ∪ rows (fun r => (first + r * q.numfields) * q.frame.width / 2)
    (q.frame.width / 2) (chromaRows q ctype * k + j) 0) (plane 1) (plane 2)) h.chroma
    fun j s hj hs => ?_
  have hyc := h.yc
  have hrow : (first + (chromaRows q ctype * k + j) * q.numfields) * q.frame.width / 2 =
      (d.yc + j * q.numfields) * q.frame.width / 2 := by
    rw [hyc, Nat.add_assoc first, ← Nat.add_mul]
  refine chromaRow_kept hs hrow (fun ha => ?_) (fun x _ => hdata.chroma 1 (by decide) j x)
    fun x _ => hdata.chroma 2 (by decide) j x
  have hrows : chromaRows q ctype = 4 := by
    obtain ⟨hc, hv⟩ := of_decide_eq_true ha
    rw [chromaRows, if_neg hc, if_pos hv]
  rw [hrows] at hj hyc
  have hlast : d.yc + j * q.numfields + 1 ≤ q.frame.height / 2 := by
    have hnext : (4 * k + j + 1) * q.numfields ≤ 4 * (k + 1) * q.numfields :=
      Nat.mul_le_mul_right _ (by omega)
    rw [Nat.add_mul, Nat.one_mul, Nat.add_mul] at hnext
    have := hroom ha
    omega
  calc (d.yc + j * q.numfields) * q.frame.width / 2 + q.frame.width / 2
      = (d.yc + j * q.numfields + 1) * (q.frame.width / 2) := by
        rw [Nat.mul_div_assoc _ (Nat.dvd_of_mod_eq_zero hq.even), Nat.succ_mul]
    _ ≤ q.frame.height / 2 * (q.frame.width / 2) := Nat.mul_le_mul_right _ hlast
    _ ≤ q.frame.height * q.frame.width / (2 * 2) := Nat.div_mul_div_le ..
    _ = q.frame.width * q.frame.height / 4 := by rw [Nat.mul_comm]

theorem block_at (hq : Plain q) (hfirst : first < q.numfields)
    (hroom : asserted q ctype → 4 * (k + 1) * q.numfields ≤ q.frame.height / 2)
    (hdata : Gives q plane ctype first k data) (h : At q plane ctype first T k d) :
    (block q ctype data d).2 = false ∧ At q plane ctype first T (k + 1) (block q ctype data d).1 := by
  have hluma := luma_at hq hdata h
  have hchroma := chroma_at hq hfirst hroom hdata h
  have hhsf : ¬ q.frame.hsf = 1 := by simp [hq.hsf]
  unfold block
  simp only [if_neg hhsf, hq.chr]
  refine ⟨hchroma.going, ?_, ?_, hluma, rfl, hchroma.raw1, hchroma.raw2⟩
  · change d.yl + 8 * q.frame.vsf * q.numfields = _
    rw [h.yl]
    ring
  · change d.yc + chromaRows q ctype * q.numfields = _
    rw [h.yc]
    ring

/-- The calls of a field that are left, one after the other. -/
theorem scan_at (hq : Plain q) (hfirst : first < q.numfields) {jpeg : Jpeg} {calls : Nat}
    (hdata : ∀ k, k < calls → ∃ data, jpeg.rawData k = some data ∧ Gives q plane ctype first k data)
    (hroom : asserted q ctype → 4 * calls * q.numfields ≤ q.frame.height / 2)
    (hk : k ≤ calls) (h : At q plane ctype first T k d) :
    (scan q ctype jpeg (8 * q.frame.vsf * calls) k (8 * q.frame.vsf * k) d).2 = .done ∧
      At q plane ctype first T calls
        (scan q ctype jpeg (8 * q.frame.vsf * calls) k (8 * q.frame.vsf * k) d).1 := by
  obtain ⟨left, hleft⟩ : ∃ left, calls = k + left := ⟨calls - k, by omega⟩
  induction left generalizing k d with
  | zero =>
    obtain rfl : calls = k := hleft
    rw [scan, if_neg (Nat.lt_irrefl _)]
    exact ⟨rfl, h⟩
  | succ left ih =>
    obtain ⟨data, hread, hgives⟩ := hdata k (by omega)
    obtain ⟨hgoing, hnext⟩ := block_at hq hfirst (fun hc => (Nat.mul_le_mul_right _ (by omega)).trans
      (hroom hc)) hgives h
    have hmore : 8 * q.frame.vsf * k < 8 * q.frame.vsf * calls :=
      Nat.mul_lt_mul_of_pos_left (by omega) (by have := q.frame.vsf_cases; omega)
    rw [scan, if_pos hmore, hread]
    simp only [hgoing, Bool.false_eq_true, if_false]
    rw [← Nat.mul_succ]
    exact ih (by omega) hnext (by omega)

end Blocks

/-! ## The fields make up the frame -/

/-- The rows that the first `fields` fields store. -/
def stored (start : Nat → Nat → Nat) (len rowsOf fields : Nat) : Set Nat :=
  {i | ∃ g, g < fields ∧ i ∈ rows (start g) len rowsOf 0}

theorem stored_zero (start : Nat → Nat → Nat) (len rowsOf : Nat) : stored start len rowsOf 0 = ∅ := by
  ext i
  simp [stored]

theorem stored_succ (start : Nat → Nat → Nat) (len rowsOf fields : Nat) :
    stored start len rowsOf (fields + 1) = stored start len rowsOf fields ∪ rows (start fields) len rowsOf 0 := by
  ext i
  simp only [stored, Set.mem_ofPred_eq, Set.mem_union, Nat.lt_succ_iff_lt_or_eq]
  constructor
  · rintro ⟨g, hg | rfl, hi⟩
    · exact .inl ⟨g, hg, hi⟩
    · exact .inr hi
  · rintro (⟨g, hg, hi⟩ | hi)
    · exact ⟨g, .inl hg, hi⟩
    · exact ⟨fields, .inr rfl, hi⟩

/-- A sample of a row lies within as many rows. -/
theorem row_lt {row x len total : Nat} (hrow : row < total) (hx : x < len) : row * len + x < total * len :=
  calc row * len + x < row * len + len := Nat.add_lt_add_left hx _
    _ = (row + 1) * len := (Nat.succ_mul ..).symm
    _ ≤ total * len := Nat.mul_le_mul_right _ hrow

/-- Where every row of a group of `n` is the first of some field. -/
theorem stored_all {n len rowsOf : Nat} {first : Nat → Nat} (hlt : ∀ g, g < n → first g < n)
    (hfirst : ∀ r, r < n → ∃ g, g < n ∧ first g = r) (i : Nat) :
    i ∈ stored (fun g r => (first g + r * n) * len) len rowsOf n ↔ i < rowsOf * n * len := by
  constructor
  · rintro ⟨g, hg, hi⟩
    obtain ⟨r, x, hr, hx, rfl⟩ := mem_rows.mp hi
    exact row_lt (calc first g + r * n < n + r * n := Nat.add_lt_add_right (hlt g hg) _
      _ = (r + 1) * n := by rw [Nat.succ_mul, Nat.add_comm]
      _ ≤ rowsOf * n := Nat.mul_le_mul_right _ hr) hx
  · intro hi
    have hlen : 0 < len := Nat.pos_of_ne_zero fun h => by simp [h] at hi
    have hn : 0 < n := Nat.pos_of_ne_zero fun h => by simp [h] at hi
    have hrow : i / len < rowsOf * n := Nat.div_lt_of_lt_mul (by rwa [Nat.mul_comm])
    obtain ⟨g, hg, hgr⟩ := hfirst (i / len % n) (Nat.mod_lt _ hn)
    refine ⟨g, hg, mem_rows.mpr ⟨i / len / n, i % len, ?_, Nat.mod_lt _ hlen, ?_⟩⟩
    · exact Nat.div_lt_of_lt_mul (by rwa [Nat.mul_comm])
    · change i = (first g + i / len / n * n) * len + i % len
      rw [hgr, Nat.mul_comm (i / len / n), Nat.mod_add_div, Nat.mul_comm, Nat.div_add_mod]

section Fields
variable {q : Fields} {ctype : Int} {plane : Fin 3 → Nat → UInt8} {first : Nat → Nat} {calls : Nat}

variable (q ctype plane first calls) in
/-- The planes after `fields` fields. -/
structure Restored (fields : Nat) (d : Decoding) : Prop where
  luma : Holds (stored (fun g r => (first g + r * q.numfields) * q.frame.width) q.frame.width
    (8 * q.frame.vsf * calls) fields) (plane 0) d.raw0
  chroma : Kept (stored (fun g r => (first g + r * q.numfields) * q.frame.width / 2)
    (q.frame.width / 2) (chromaRows q ctype * calls) fields) (plane 1) (plane 2) ⟨d.raw1, d.raw2, false⟩

variable (q ctype plane first calls) in
/-- The fields in the buffer are those of the frame, in the order of its rows. -/
structure Delivers (jpeg : Nat → Jpeg) : Prop where
  lt : ∀ g, g < q.numfields → first g < q.numfields
  room : asserted q ctype → 4 * calls * q.numfields ≤ q.frame.height / 2
  start : ∀ g, g < q.numfields → ∃ hd, (jpeg g).start = some hd ∧
    hd.outputHeight = 8 * q.frame.vsf * calls
  finish : ∀ g, g < q.numfields → (jpeg g).finish = true
  rawData : ∀ g, g < q.numfields → ∀ k, k < calls → ∃ data, (jpeg g).rawData k = some data ∧
    Gives q plane ctype (first g) k data

theorem decodeFields_restored (hq : Plain q) {jpeg : Nat → Jpeg}
    (hjpeg : Delivers q ctype plane first calls jpeg) {left field : Nat} {d : Decoding}
    (hleft : field + left = q.numfields) (h : Restored q ctype plane first calls field d) :
    (decodeFields q ctype first jpeg left field d).2 = .done ∧
      Restored q ctype plane first calls q.numfields (decodeFields q ctype first jpeg left field d).1 := by
  induction left generalizing field d with
  | zero =>
    obtain rfl : field = q.numfields := hleft
    exact ⟨rfl, h⟩
  | succ left ih =>
    have hfield : field < q.numfields := by omega
    obtain ⟨hd, hstart, hheight⟩ := hjpeg.start field hfield
    let T : Fin 3 → Set Nat := fun c =>
      if c = 0 then stored (fun g r => (first g + r * q.numfields) * q.frame.width) q.frame.width
        (8 * q.frame.vsf * calls) field
      else stored (fun g r => (first g + r * q.numfields) * q.frame.width / 2)
        (q.frame.width / 2) (chromaRows q ctype * calls) field
    have hat : At q plane ctype (first field) T 0 { d with yl := first field, yc := first field } := by
      refine ⟨by simp, by simp, ?_, ?_⟩
      · simpa [T, rows_zero] using h.luma
      · simpa [T, rows_zero] using h.chroma
    obtain ⟨hdone, hend⟩ := scan_at hq (hjpeg.lt field hfield) (hjpeg.rawData field hfield) hjpeg.room
      (Nat.zero_le _) hat
    rw [decodeFields, hstart]
    dsimp only
    rw [hheight]
    rw [Nat.mul_zero] at hdone hend
    generalize scan q ctype (jpeg field) (8 * q.frame.vsf * calls) 0 0 _ = out at hdone hend ⊢
    obtain ⟨d', stop⟩ := out
    obtain rfl : stop = .done := hdone
    dsimp only
    rw [if_pos (hjpeg.finish field hfield)]
    refine ih (by omega) ⟨?_, ?_⟩
    · rw [stored_succ]
      exact hend.luma
    · rw [stored_succ]
      exact hend.chroma

end Fields

/-! ## The frame -/

/-- The bytes of the planes of a frame. -/
def planeSize (ctype : Int) (width height : Nat) : Fin 3 → Nat
  | 0 => width * height
  | _ => width / 2 * if ctype = y4mChroma422 then height else height / 2

theorem planeSize_chroma (ctype : Int) (width height : Nat) {c : Fin 3} (hc : c ≠ 0) :
    planeSize ctype width height c = width / 2 * if ctype = y4mChroma422 then height else height / 2 := by
  unfold planeSize
  split
  · exact absurd rfl hc
  · rfl

theorem numfields_cases (itype : Int) :
    (numfields itype = 1 ∧ ∀ g, firstRow itype g = 0) ∨
    (numfields itype = 2 ∧ ((∀ g, firstRow itype g = g) ∨ ∀ g, firstRow itype g = 1 - g)) := by
  unfold numfields firstRow
  by_cases ht : itype = y4mIlaceTopFirst
  · simp [ht]
  · by_cases hb : itype = y4mIlaceBottomFirst
    · have hne : y4mIlaceBottomFirst ≠ y4mIlaceTopFirst := by decide
      simp [hb, hne]
    · simp [ht, hb]

theorem firstRow_lt (itype : Int) {g : Nat} (hg : g < numfields itype) :
    firstRow itype g < numfields itype := by
  obtain ⟨hn, hf⟩ | ⟨hn, hf | hf⟩ := numfields_cases itype <;> rw [hn] at hg ⊢ <;> rw [hf] <;> omega

theorem firstRow_onto (itype : Int) {r : Nat} (hr : r < numfields itype) :
    ∃ g, g < numfields itype ∧ firstRow itype g = r := by
  obtain ⟨hn, hf⟩ | ⟨hn, hf | hf⟩ := numfields_cases itype <;> rw [hn] at hr ⊢
  · exact ⟨0, by omega, by rw [hf]; omega⟩
  · exact ⟨r, hr, hf r⟩
  · exact ⟨1 - r, by omega, by rw [hf]; omega⟩

theorem holds_eq {S : Set Nat} {f : Nat → UInt8} {p : Nat → Option UInt8} {size : Nat}
    (h : Holds S f p) (hS : ∀ i, i ∈ S ↔ i < size) : p = fun i => if i < size then some (f i) else none := by
  funext i
  by_cases hi : i < size
  · rw [if_pos hi, h.inside i ((hS i).mpr hi)]
  · rw [if_neg hi, h.outside i fun hin => hi ((hS i).mp hin)]

section Frame
variable {q : Fields} {itype ctype : Int} {width height calls : Nat} {plane : Fin 3 → Nat → UInt8}

variable (q itype ctype width height calls) in
/-- The blocks of the fields add up to the frame. -/
structure AddsUp : Prop where
  numfields : q.numfields = numfields itype
  width : q.frame.width = width
  luma : 8 * q.frame.vsf * calls * q.numfields = height
  chroma : chromaRows q ctype * calls * q.numfields =
    if ctype = y4mChroma422 then height else height / 2

theorem restored_plane (hq : Plain q) (hsum : AddsUp q itype ctype width height calls) {d : Decoding}
    (h : Restored q ctype plane (firstRow itype) calls q.numfields d) (c : Fin 3) :
    d.raw c = fun i => if i < planeSize ctype width height c then some (plane c i) else none := by
  have hall : ∀ len rowsOf i, i ∈ stored (fun g r => (firstRow itype g + r * q.numfields) * len) len rowsOf
      q.numfields ↔ i < rowsOf * q.numfields * len := fun len rowsOf i => by
    rw [hsum.numfields]
    exact stored_all (fun g hg => firstRow_lt itype hg) (fun r hr => firstRow_onto itype hr) i
  have hsame : ∀ rowsOf, stored (fun g r => (firstRow itype g + r * q.numfields) * q.frame.width / 2)
      (q.frame.width / 2) rowsOf q.numfields = stored (fun g r => (firstRow itype g + r * q.numfields) *
        (q.frame.width / 2)) (q.frame.width / 2) rowsOf q.numfields := fun rowsOf => by
    simp only [Nat.mul_div_assoc _ (Nat.dvd_of_mod_eq_zero hq.even)]
  obtain ⟨hluma, -, hraw1, hraw2⟩ := h
  rw [hsame] at hraw1 hraw2
  have hchroma : ∀ i, i ∈ stored (fun g r => (firstRow itype g + r * q.numfields) *
      (q.frame.width / 2)) (q.frame.width / 2) (chromaRows q ctype * calls) q.numfields ↔
      i < planeSize ctype width height 1 := fun i => by
    rw [hall, hsum.chroma, hsum.width, Nat.mul_comm]
    rfl
  match c with
  | 0 =>
    refine holds_eq hluma fun i => ?_
    rw [hall, hsum.luma, hsum.width, Nat.mul_comm]
    rfl
  | 1 => exact holds_eq hraw1 hchroma
  | 2 => exact holds_eq hraw2 hchroma

/-- The planes are what the blocks gave, and nothing is stored behind them. -/
theorem decodeJpegRaw_planes (hq : Plain q) (hsum : AddsUp q itype ctype width height calls)
    {jpeg : Nat → Jpeg} {hd : Header} (hstart : (jpeg 0).start = some hd)
    (haccept : accept hd width height = some q)
    (hjpeg : Delivers q ctype plane (firstRow itype) calls jpeg)
    (hquiet : ∀ g, g < q.numfields → (jpeg g).warningSeen = false) (buf1 buf2 : Rows) :
    decodeJpegRaw jpeg buf1 buf2 itype ctype width height =
      ⟨fun c i => if i < planeSize ctype width height c then some (plane c i) else none, some 0⟩ := by
  have hfirst : (if q.numfields = 2 then firstRow itype else fun _ => 0) = firstRow itype := by
    obtain ⟨h1, hf⟩ | ⟨h2, -⟩ := numfields_cases itype
    · rw [hsum.numfields, h1, if_neg (by decide)]
      exact (funext hf).symm
    · rw [hsum.numfields, h2, if_pos rfl]
  have hempty : Restored q ctype plane (firstRow itype) calls 0
      ⟨fun _ => none, fun _ => none, fun _ => none, 0, 0, buf1, buf2⟩ := by
    constructor <;> rw [stored_zero]
    · exact holds_none
    · exact ⟨rfl, holds_none, holds_none⟩
  have hfields := decodeFields_restored hq hjpeg (Nat.zero_add _) hempty
  have hwarned : ¬ (List.range q.numfields).any (fun f => (jpeg f).warningSeen) = true := by
    simp only [List.any_eq_true, List.mem_range, not_exists, not_and]
    intro f hf
    rw [hquiet f hf]
    decide
  unfold decodeJpegRaw
  rw [hstart]
  dsimp only
  rw [haccept]
  dsimp only
  rw [if_neg (by rw [hsum.numfields]; exact fun h => h.2 h.1), hfirst]
  generalize decodeFields _ _ _ _ _ _ _ = out at hfields ⊢
  obtain ⟨d, stop⟩ := out
  obtain ⟨rfl, hend⟩ : stop = .done ∧ _ := hfields
  dsimp only
  rw [if_neg hwarned]
  congr 1
  exact funext (restored_plane hq hsum hend)

end Frame

end SmartPrince.Common.JpegFieldsSoundness
