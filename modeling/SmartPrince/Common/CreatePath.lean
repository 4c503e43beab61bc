import SmartPrince.Common.File

/-! # The directories that `create_path` makes

Every prefix of the path that a slash follows is given to `mkdir`, shortest
first, and an error is ignored where the name exists. Of a shorter prefix that
is no directory the next call complains; of the last one nobody does. -/
namespace SmartPrince.Common.CreatePath
open SmartPrince.Lib.FileSystem SmartPrince.Common.File

/-- A prefix of the path that ends before a slash. -/
def Before (path p : List UInt8) : Prop := p ≠ [] ∧ p ++ [slash] <+: path

/-! ## The prefixes in order -/

def cuts (buffer : List UInt8) : List UInt8 → List (List UInt8)
  | [] => []
  | c :: rest =>
    if c = slash then buffer :: cuts (buffer ++ [c]) rest else cuts (buffer ++ [c]) rest

def prefixes (path : List UInt8) : List (List UInt8) :=
  if path.head? = some slash then cuts (path.take 1) (path.drop 1) else cuts [] path

/-- A slash of `c :: rest` is the first byte or a slash of `rest`. -/
theorem cut_cons_iff {buffer rest p : List UInt8} {c : UInt8} :
    (∃ a b, c :: rest = a ++ slash :: b ∧ p = buffer ++ a) ↔
      (c = slash ∧ p = buffer) ∨ ∃ a b, rest = a ++ slash :: b ∧ p = (buffer ++ [c]) ++ a := by
  constructor
  · rintro ⟨a, b, he, rfl⟩
    cases a with
    | nil => exact .inl ⟨(List.cons.inj he).1, List.append_nil buffer⟩
    | cons d a =>
      obtain ⟨rfl, he'⟩ := List.cons.inj he
      exact .inr ⟨a, b, he', (List.append_assoc buffer [c] a).symm⟩
  · rintro (⟨rfl, rfl⟩ | ⟨a, b, rfl, rfl⟩)
    · exact ⟨[], rest, rfl, (List.append_nil p).symm⟩
    · exact ⟨c :: a, b, rfl, List.append_assoc buffer [c] a⟩

theorem mem_cuts {buffer rest p : List UInt8} :
    p ∈ cuts buffer rest ↔ ∃ a b, rest = a ++ slash :: b ∧ p = buffer ++ a := by
  induction rest generalizing buffer with
  | nil => simp [cuts]
  | cons c rest ih =>
    rw [cut_cons_iff, ← ih, cuts]
    split
    · next hc => rw [List.mem_cons, and_iff_right hc]
    · next hc => rw [or_iff_right fun h => hc h.1]

theorem cuts_longer {buffer rest p : List UInt8} (h : p ∈ cuts buffer rest) :
    buffer.length ≤ p.length := by
  obtain ⟨a, b, -, rfl⟩ := mem_cuts.mp h
  rw [List.length_append]
  exact Nat.le_add_right ..

theorem cuts_sorted (buffer rest : List UInt8) :
    (cuts buffer rest).Pairwise (·.length < ·.length) := by
  induction rest generalizing buffer with
  | nil => exact .nil
  | cons c rest ih =>
    unfold cuts
    split
    · refine .cons (fun p hp => ?_) (ih _)
      have hlong := cuts_longer hp
      rw [List.length_append] at hlong
      exact hlong
    · exact ih _

theorem before_iff {path p : List UInt8} :
    Before path p ↔ p ≠ [] ∧ ∃ b, path = p ++ slash :: b := by
  refine and_congr_right fun _ => exists_congr fun b => ?_
  rw [List.append_assoc, eq_comm]
  rfl

theorem mem_prefixes {path p : List UInt8} : p ∈ prefixes path ↔ Before path p := by
  rw [before_iff]
  unfold prefixes
  cases path with
  | nil => simp [cuts]
  | cons c rest =>
    split
    · next hc =>
      obtain rfl : c = slash := Option.some.inj hc
      rw [mem_cuts]
      constructor
      · rintro ⟨a, b, rfl, rfl⟩
        exact ⟨List.cons_ne_nil _ _, b, rfl⟩
      · rintro ⟨hp, b, he⟩
        cases p with
        | nil => exact absurd rfl hp
        | cons d a =>
          obtain ⟨rfl, he'⟩ := List.cons.inj he
          exact ⟨a, b, he', rfl⟩
    · next hc =>
      rw [mem_cuts]
      constructor
      · rintro ⟨a, b, he, rfl⟩
        refine ⟨?_, b, he⟩
        rintro rfl
        exact hc (congrArg some (List.cons.inj he).1)
      · rintro ⟨-, b, he⟩
        exact ⟨p, b, he, rfl⟩

theorem prefixes_sorted (path : List UInt8) :
    (prefixes path).Pairwise (·.length < ·.length) := by
  unfold prefixes
  split
  · exact cuts_sorted ..
  · exact cuts_sorted ..

/-! ## The calls of `mkdir` -/

section Calls
variable {allowed : List Name → Bool}

/-- The loop over the prefixes that are still to be made. -/
def makeAll (allowed : List Name → Bool) : List (List UInt8) → Files Name → Created
  | [], fs => ⟨0, fs, []⟩
  | p :: ps, fs =>
    match mkdir allowed p fs with
    | .ok fs => (makeAll allowed ps fs).after p
    | .error .eexist => makeAll allowed ps fs
    | .error _ => ⟨-1, fs, []⟩

theorem createLoop_eq (buffer rest : List UInt8) (fs : Files Name) :
    createLoop allowed buffer rest fs = makeAll allowed (cuts buffer rest) fs := by
  induction rest generalizing buffer fs with
  | nil => rfl
  | cons c rest ih =>
    unfold createLoop cuts
    split
    · unfold makeAll
      cases mkdir allowed buffer fs with
      | ok fs => exact congrArg (Created.after · buffer) (ih ..)
      | error e =>
        cases e with
        | eexist => exact ih ..
        | enoent | enotdir | eacces => rfl
    · exact ih ..

theorem createPath_eq (path : List UInt8) (fs : Files Name) :
    createPath allowed path fs = makeAll allowed (prefixes path) fs := by
  unfold createPath prefixes
  split
  · exact createLoop_eq ..
  · exact createLoop_eq ..

/-- What can become of the first prefix. -/
theorem makeAll_cons (allowed : List Name → Bool) (p : List UInt8) (ps : List (List UInt8)) (fs : Files Name) :
    (∃ fs', mkdir allowed p fs = .ok fs' ∧
      makeAll allowed (p :: ps) fs = (makeAll allowed ps fs').after p) ∨
    (mkdir allowed p fs = .error .eexist ∧
      makeAll allowed (p :: ps) fs = makeAll allowed ps fs) ∨
    ∃ e, e ≠ .eexist ∧ mkdir allowed p fs = .error e ∧
      makeAll allowed (p :: ps) fs = ⟨-1, fs, []⟩ := by
  rw [makeAll]
  cases mkdir allowed p fs with
  | ok fs' => exact .inl ⟨fs', rfl, rfl⟩
  | error e =>
    cases e with
    | eexist => exact .inr (.inl ⟨rfl, rfl⟩)
    | enoent => exact .inr (.inr ⟨.enoent, nofun, rfl, rfl⟩)
    | enotdir => exact .inr (.inr ⟨.enotdir, nofun, rfl, rfl⟩)
    | eacces => exact .inr (.inr ⟨.eacces, nofun, rfl, rfl⟩)

/-- What is known when `mkdir` was called for the prefixes, one by one. -/
structure Ran (allowed : List Name → Bool) (ps : List (List UInt8)) (fs : Files Name)
    (out : Created) : Prop where
  ret : out.ret = 0 ∨ out.ret = -1
  grown : Grown fs out.files
  created : ∀ q, fs.kind q = none → out.files.kind q ≠ none →
    allowed q = true ∧ ∃ p ∈ out.made, q = fs.place p
  made : out.made.Sublist ps
  fresh : ∀ p ∈ out.made, fs.kind (fs.place p) = none
  failed : out.ret = -1 →
    ∃ p ∈ ps, ∃ e, e ≠ Errno.eexist ∧ mkdir allowed p out.files = .error e
  done : out.ret = 0 →
    ∀ p ∈ ps, out.files.Resolves p ∧ out.files.kind (out.files.place p) ≠ none

variable {p : List UInt8} {ps : List (List UInt8)} {fs fs' : Files Name} {out : Created}

theorem Ran.nil : Ran allowed [] fs ⟨0, fs, []⟩ where
  ret := .inl rfl
  grown := .refl fs
  created _ hq hq' := absurd hq hq'
  made := .slnil
  fresh := nofun
  failed := nofun
  done _ := nofun

theorem Ran.refused {e : Errno} (he : e ≠ .eexist) (hm : mkdir allowed p fs = .error e) :
    Ran allowed (p :: ps) fs ⟨-1, fs, []⟩ where
  ret := .inr rfl
  grown := .refl fs
  created _ hq hq' := absurd hq hq'
  made := List.nil_sublist _
  fresh := nofun
  failed _ := ⟨p, List.mem_cons_self, e, he, hm⟩
  done := nofun

theorem Ran.skipped (hm : mkdir allowed p fs = .error .eexist) (h : Ran allowed ps fs out) :
    Ran allowed (p :: ps) fs out where
  ret := h.ret
  grown := h.grown
  created := h.created
  made := h.made.cons p
  fresh := h.fresh
  failed hret := by
    obtain ⟨q, hq, hfail⟩ := h.failed hret
    exact ⟨q, List.mem_cons_of_mem p hq, hfail⟩
  done hret := by
    obtain ⟨hr, hk⟩ := mkdir_eexist_iff.mp hm
    refine List.forall_mem_cons.mpr ⟨⟨h.grown.resolves hr, ?_⟩, h.done hret⟩
    rw [h.grown.place]
    exact h.grown.exists hk

theorem Ran.after (hm : mkdir allowed p fs = .ok fs') (h : Ran allowed ps fs' out) :
    Ran allowed (p :: ps) fs (out.after p) := by
  obtain ⟨hg, hr, hk, ha, hdir, hrest⟩ := mkdir_ok hm
  have hgrown : Grown fs out.files := hg.trans h.grown
  refine ⟨h.ret, hgrown, fun q hq hq' => ?_, h.made.cons_cons p, ?_, fun hret => ?_, fun hret => ?_⟩
  · by_cases hqp : q = fs.place p
    · exact ⟨hqp ▸ ha, p, List.mem_cons_self, hqp⟩
    · obtain ⟨hall, r, hr, he⟩ := h.created q ((hrest q hqp).trans hq) hq'
      exact ⟨hall, r, List.mem_cons_of_mem p hr, he.trans hg.place⟩
  · refine List.forall_mem_cons.mpr ⟨hk, fun r hr => ?_⟩
    have hnone := h.fresh r hr
    rw [hg.place] at hnone
    by_contra hsome
    exact hg.exists hsome hnone
  · obtain ⟨q, hq, hfail⟩ := h.failed hret
    exact ⟨q, List.mem_cons_of_mem p hq, hfail⟩
  · refine List.forall_mem_cons.mpr ⟨⟨hgrown.resolves hr, ?_⟩, h.done hret⟩
    have hplace : out.files.place p = fs.place p := hgrown.place
    rw [show (out.after p).files = out.files from rfl, hplace, h.grown.kept hdir]
    exact Option.some_ne_none _

theorem makeAll_ran (allowed : List Name → Bool) (ps : List (List UInt8)) (fs : Files Name) :
    Ran allowed ps fs (makeAll allowed ps fs) := by
  induction ps generalizing fs with
  | nil => exact .nil
  | cons p ps ih =>
    obtain ⟨fs', hm, he⟩ | ⟨hm, he⟩ | ⟨e, hne, hm, he⟩ := makeAll_cons allowed p ps fs
    · rw [he]
      exact (ih fs').after hm
    · rw [he]
      exact (ih fs).skipped hm
    · rw [he]
      exact .refused hne hm

end Calls

/-! ## The path as a whole -/

section Path
variable (allowed : List Name → Bool) (path : List UInt8) (fs : Files Name)

/-- What `create_path` is to do. -/
structure Creates (out : Created) : Prop where
  ret : out.ret = 0 ∨ out.ret = -1
  ok : out.ret = 0 → ∀ p, Before path p → out.files.IsDirectory p
  failed : out.ret = -1 →
    ∃ p, Before path p ∧ ∃ e, e ≠ Errno.eexist ∧ mkdir allowed p out.files = .error e
  kept : ∀ q k, fs.kind q = some k → out.files.kind q = some k
  created : ∀ q, fs.kind q = none → out.files.kind q ≠ none →
    out.files.kind q = some .directory ∧ ∃ p ∈ out.made, q = fs.place p
  made : ∀ p ∈ out.made, Before path p ∧ fs.kind (fs.place p) = none
  order : out.made.Pairwise (·.length < ·.length)

/-- A directory, or nothing that stands in the way of one. -/
def Makeable (p : List UInt8) : Prop :=
  fs.kind (fs.place p) = some .directory ∨
    fs.kind (fs.place p) = none ∧ allowed (fs.place p) = true

/-- What stands before the last slash names a regular file, and nothing fails before. -/
def Blocked : Prop :=
  ∃ last name, path = last ++ slash :: name ∧ slash ∉ name ∧ last ≠ [] ∧
    fs.kind (fs.place last) = some .regular ∧
      ∀ p, Before path p → components p ≠ components last → Makeable allowed fs p

variable {allowed path fs} {p last name : List UInt8} {cur : Files Name}

/-- The prefix before the last slash is the longest. -/
theorem before_last (hname : slash ∉ name) (h : Before (last ++ slash :: name) p) :
    p = last ∨ ∃ b, last = p ++ slash :: b := by
  obtain ⟨-, b, he⟩ := before_iff.mp h
  rcases List.append_eq_append_iff.mp he with ⟨a, hp, hb⟩ | ⟨a, hl, hb⟩
  · cases a with
    | nil => exact .inl (hp.trans (List.append_nil last))
    | cons c a =>
      obtain ⟨-, rfl⟩ := List.cons.inj hb
      exact absurd (List.mem_append_right a List.mem_cons_self) hname
  · cases a with
    | nil => exact .inl (hl.trans (List.append_nil p)).symm
    | cons c a =>
      obtain ⟨rfl, -⟩ := List.cons.inj hb
      exact .inr ⟨a, hl⟩

theorem exists_last (h : slash ∈ path) :
    ∃ last name, path = last ++ slash :: name ∧ slash ∉ name := by
  obtain ⟨a, b, he, ha⟩ := List.eq_append_cons_of_mem (List.mem_reverse.mpr h)
  refine ⟨b.reverse, a.reverse, ?_, by simpa using ha⟩
  rw [← List.reverse_reverse path, he]
  simp

theorem start_append {a b : List UInt8} (ha : a ≠ []) : fs.start (a ++ b) = fs.start a := by
  cases a with
  | nil => exact absurd rfl ha
  | cons c a => rfl

theorem steps_slash (a b : List UInt8) : steps (a ++ slash :: b) = steps a ++ steps b := by
  unfold steps
  rw [components_slash, List.map_append]

/-- A prefix that a longer path with more components passes through is a directory. -/
theorem isDirectory_of_longer {a b : List UInt8} (ha : cur.Resolves a)
    (hr : cur.Resolves (a ++ slash :: b)) (hb : components b ≠ []) : cur.IsDirectory a := by
  have hway := hr.2
  rw [start_append ha.1] at hway
  exact ⟨ha, hway (steps a) (steps b) (steps_slash a b) fun h => hb (List.map_eq_nil_iff.mp h)⟩

/-- In a path that went through, only the last components can be those of a regular file. -/
theorem isDirectory_or (h : ∀ p, Before (last ++ slash :: name) p → cur.Resolves p)
    (hname : slash ∉ name) (hp : Before (last ++ slash :: name) p)
    (hl : Before (last ++ slash :: name) last) (hne : components p ≠ components last) :
    cur.IsDirectory p := by
  rcases before_last hname hp with rfl | ⟨b, rfl⟩
  · exact absurd rfl hne
  · refine isDirectory_of_longer (h p hp) (h _ hl) fun hb => hne ?_
    rw [components_slash, hb, List.append_nil]

theorem components_shorter (hname : slash ∉ name) {a b : List UInt8}
    (h : Before (last ++ slash :: name) (a ++ slash :: b)) (hb : components b ≠ []) :
    components a ≠ components last := by
  intro he
  have hlen := congrArg List.length he
  have hpos := List.length_pos_iff.mpr hb
  rcases before_last hname h with rfl | ⟨c, rfl⟩
  · rw [components_slash, List.length_append] at hlen
    omega
  · rw [components_slash, components_slash, List.length_append, List.length_append] at hlen
    omega

theorem makeable_dir (hm : Makeable allowed fs p) (hg : Grown fs cur)
    (he : cur.kind (cur.place p) ≠ none) : cur.kind (cur.place p) = some .directory := by
  rw [hg.place] at he ⊢
  rcases hm with hdir | ⟨hnone, -⟩
  · exact hg.kept hdir
  · cases hg.kind (fs.place p) with
    | inl h => exact absurd (h.trans hnone) he
    | inr h => exact h.2

theorem mem_of_shorter {q : List UInt8} {l ps : List (List UInt8)}
    (hps : prefixes path = l ++ p :: ps) (hq : Before path q) (hlt : q.length < p.length) :
    q ∈ l := by
  have hsorted := prefixes_sorted path
  rw [hps] at hsorted
  have hlater := (List.pairwise_cons.mp (List.pairwise_append.mp hsorted).2.1).1
  have hmem := mem_prefixes.mpr hq
  rw [hps, List.mem_append, List.mem_cons] at hmem
  rcases hmem with h | rfl | h
  · exact h
  · exact absurd hlt (Nat.lt_irrefl _)
  · exact absurd (hlater q h) (Nat.lt_asymm hlt)

theorem place_eq (fs : Files Name) {q : List UInt8} (hp : Before path p) (hq : Before path q)
    (h : components p = components q) : fs.place p = fs.place q := by
  obtain ⟨hp0, b, hb⟩ := before_iff.mp hp
  obtain ⟨hq0, c, hc⟩ := before_iff.mp hq
  unfold Files.place steps
  rw [← start_append (b := slash :: b) hp0, ← hb, ← start_append (b := slash :: c) hq0, ← hc, h]

section Passes
variable (hmk : ∀ p, Before (last ++ slash :: name) p → components p ≠ components last →
    Makeable allowed fs p)
include hmk

/-- Where all shorter prefixes exist, the next one resolves. -/
theorem resolves_next (hname : slash ∉ name) (hg : Grown fs cur) (hp : Before (last ++ slash :: name) p)
    (hshort : ∀ q, Before (last ++ slash :: name) q → q.length < p.length →
      cur.kind (cur.place q) ≠ none) : cur.Resolves p := by
  refine ⟨hp.1, fun ss₁ ss₂ he hne => ?_⟩
  obtain ⟨c₁, c₂, hc, rfl, rfl⟩ := List.map_eq_append_iff.mp he
  have hc₂ : c₂ ≠ [] := fun h => hne (List.map_eq_nil_iff.mpr h)
  by_cases hc₁ : c₁ = []
  · subst hc₁
    exact start_dir
  · obtain ⟨a, b, rfl, rfl, rfl⟩ := components_cut hc hc₁ hc₂
    have ha : a ≠ [] := by
      rintro rfl
      exact hc₁ components_nil
    have hbefore : Before (last ++ slash :: name) a := by
      obtain ⟨-, t, ht⟩ := before_iff.mp hp
      refine before_iff.mpr ⟨ha, b ++ slash :: t, ht.trans ?_⟩
      rw [List.append_assoc, List.cons_append]
    have hlen : a.length < (a ++ slash :: b).length := by
      rw [List.length_append, List.length_cons]
      omega
    rw [start_append ha]
    exact makeable_dir (hmk a hbefore (components_shorter hname hp hc₂)) hg
      (hshort a hbefore hlen)

/-- There `mkdir` fails for a name that exists, and for nothing else. -/
theorem mkdir_next (hlast : last ≠ []) (hreg : fs.kind (fs.place last) = some .regular)
    (hg : Grown fs cur) (hp : Before (last ++ slash :: name) p) (hr : cur.Resolves p)
    {e : Errno} (he : mkdir allowed p cur = .error e) : e = .eexist := by
  refine (mkdir_error hr he).resolve_right ?_
  rintro ⟨hnone, hfalse⟩
  rw [hg.place] at hnone hfalse
  have hnone' : fs.kind (fs.place p) = none := by
    by_contra hsome
    exact hg.exists hsome hnone
  have hne : components p ≠ components last := by
    intro hc
    have hpl := place_eq fs hp (before_iff.mpr ⟨hlast, name, rfl⟩) hc
    cases (hpl ▸ hnone').symm.trans hreg
  rcases hmk p hp hne with hdir | ⟨-, htrue⟩
  · cases hnone'.symm.trans hdir
  · cases hfalse.symm.trans htrue

/-- No call of `mkdir` fails but for a name that exists. -/
theorem makeAll_passes (hname : slash ∉ name) (hlast : last ≠ []) (hreg : fs.kind (fs.place last) = some .regular)
    {l ps : List (List UInt8)} (hps : prefixes (last ++ slash :: name) = l ++ ps)
    (hg : Grown fs cur) (hl : ∀ q ∈ l, cur.kind (cur.place q) ≠ none) :
    (makeAll allowed ps cur).ret = 0 := by
  induction ps generalizing l cur with
  | nil => rfl
  | cons p ps ih =>
    have hnext : prefixes (last ++ slash :: name) = (l ++ [p]) ++ ps := by
      rw [hps, List.append_assoc, List.singleton_append]
    have hp : Before (last ++ slash :: name) p := by
      rw [← mem_prefixes, hps]
      exact List.mem_append_right l List.mem_cons_self
    have hr : cur.Resolves p := resolves_next hmk hname hg hp fun q hq hlt =>
      hl q (mem_of_shorter hps hq hlt)
    obtain ⟨cur', hm, he⟩ | ⟨hm, he⟩ | ⟨e, hne, hm, -⟩ := makeAll_cons allowed p ps cur
    · obtain ⟨hg', -, -, -, hdir, -⟩ := mkdir_ok hm
      rw [he]
      refine ih hnext (hg.trans hg') fun q hq => ?_
      rw [hg'.place]
      rcases List.mem_append.mp hq with hq | hq
      · exact hg'.exists (hl q hq)
      · rw [List.mem_singleton.mp hq, hdir]
        exact Option.some_ne_none _
    · rw [he]
      refine ih hnext hg fun q hq => ?_
      rcases List.mem_append.mp hq with hq | hq
      · exact hl q hq
      · rw [List.mem_singleton.mp hq]
        exact (mkdir_eexist_iff.mp hm).2
    · exact absurd (mkdir_next hmk hlast hreg hg hp hr hm) hne

end Passes

section Done
variable {out : Created} (hran : Ran allowed (prefixes path) fs out)
include hran

/-- What is a directory at the end was one before, or could be made. -/
theorem makeable_of_isDirectory (hd : out.files.IsDirectory p) : Makeable allowed fs p := by
  have hk := hd.2
  rw [hran.grown.place] at hk
  rcases hran.grown.kind (fs.place p) with he | ⟨hnone, -⟩
  · exact .inl (he.symm.trans hk)
  · have hsome : out.files.kind (fs.place p) ≠ none := by
      rw [hk]
      exact Option.some_ne_none _
    exact .inr ⟨hnone, (hran.created _ hnone hsome).1⟩

theorem directories_of_done (hb : ¬ Blocked allowed path fs) (hret : out.ret = 0)
    (hp : Before path p) : out.files.IsDirectory p := by
  have hres (q : List UInt8) (hq : Before path q) : out.files.Resolves q :=
    (hran.done hret q (mem_prefixes.mpr hq)).1
  obtain ⟨hp0, b, he⟩ := before_iff.mp hp
  obtain ⟨last, name, rfl, hname⟩ :=
    exists_last (he ▸ List.mem_append_right p List.mem_cons_self)
  have hlast : last ≠ [] := by
    rcases before_last hname hp with rfl | ⟨c, rfl⟩
    · exact hp0
    · exact List.append_ne_nil_of_left_ne_nil hp0 _
  have hl : Before (last ++ slash :: name) last := before_iff.mpr ⟨hlast, name, rfl⟩
  by_contra hnot
  have hc : components p = components last := by
    by_contra hne
    exact hnot (isDirectory_or hres hname hp hl hne)
  have hreg : out.files.kind (out.files.place p) = some .regular := by
    obtain ⟨k, hk⟩ := Option.ne_none_iff_exists'.mp (hran.done hret p (mem_prefixes.mpr hp)).2
    cases k with
    | directory => exact absurd ⟨hres p hp, hk⟩ hnot
    | regular => exact hk
  rw [hran.grown.place, place_eq fs hp hl hc] at hreg
  refine hb ⟨last, name, rfl, hname, hlast, hran.grown.regular hreg, fun q hq hne => ?_⟩
  exact makeable_of_isDirectory hran (isDirectory_or hres hname hq hl hne)

theorem Ran.creates (hb : ¬ Blocked allowed path fs) : Creates allowed path fs out where
  ret := hran.ret
  ok hret p hp := directories_of_done hran hb hret hp
  failed hret := by
    obtain ⟨p, hp, hfail⟩ := hran.failed hret
    exact ⟨p, mem_prefixes.mp hp, hfail⟩
  kept q k hk := hran.grown.kept hk
  created q hq hq' := by
    refine ⟨?_, (hran.created q hq hq').2⟩
    cases hran.grown.kind q with
    | inl h => exact absurd (h.trans hq) hq'
    | inr h => exact h.2
  made p hp := ⟨mem_prefixes.mp (hran.made.subset hp), hran.fresh p hp⟩
  order := (prefixes_sorted path).sublist hran.made

end Done

/-- **`create_path` does what it is to do exactly if what stands before the last
slash does not name a regular file that all calls of `mkdir` get past.** -/
theorem createPath_creates_iff (allowed : List Name → Bool) (path : List UInt8)
    (fs : Files Name) :
    Creates allowed path fs (createPath allowed path fs) ↔ ¬ Blocked allowed path fs := by
  rw [createPath_eq]
  have hran := makeAll_ran allowed (prefixes path) fs
  constructor
  · rintro hc ⟨last, name, rfl, hname, hlast, hreg, hmk⟩
    have hret := makeAll_passes hmk hname hlast hreg (l := []) rfl (.refl fs) nofun
    have hdir := (hc.ok hret last (before_iff.mpr ⟨hlast, name, rfl⟩)).2
    rw [hran.grown.place] at hdir
    cases (hran.grown.kept hreg).symm.trans hdir
  · exact hran.creates

end Path

/-- A regular file `f` in the root, which is the working directory too. -/
def oneFile : Files Name where
  kind q := if q = [] then some .directory else if q = [[102]] then some .regular else none
  cwd := []
  root_dir := rfl
  parent_dir q hq := by
    by_cases h : q = []
    · rw [h]
      rfl
    · rw [if_neg h] at hq
      split at hq
      · next hf =>
        rw [hf]
        rfl
      · exact absurd rfl hq
  cwd_dir := rfl

/-- `f/x` where `f` is a regular file: the result is 0, and `f` is what it was. -/
theorem file_not_created :
    ¬ Creates (fun _ => true) [102, 47, 120] oneFile
      (createPath (fun _ => true) [102, 47, 120] oneFile) := by
  intro hc
  have hdir := (hc.ok rfl [102] ⟨by decide, by decide⟩).2
  cases hdir

end SmartPrince.Common.CreatePath
