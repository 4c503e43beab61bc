import Mathlib.Data.List.Basic
import Mathlib.Logic.Function.Basic

/-! # Directories and regular files

A file system without links: what stands at each place, and how the components
of a path lead from one place to the next. A place is the list of the names
from it up to the root. -/
namespace SmartPrince.Lib.FileSystem

inductive Kind where
  | directory
  | regular
  deriving DecidableEq, Repr

inductive Errno where
  | eexist
  | enoent
  | enotdir
  | eacces
  deriving DecidableEq, Repr

/-- What a component of a path says. -/
inductive Step (ν : Type*) where
  | stay
  | up
  | into (name : ν)
  deriving DecidableEq, Repr

section Places
variable {ν : Type*}

def Step.enter : Step ν → List ν → List ν
  | .stay, q => q
  | .up, q => q.tail
  | .into n, q => n :: q

/-- Where the components lead, whatever stands on the way. -/
def walk (q : List ν) (ss : List (Step ν)) : List ν := ss.foldl (fun q s => s.enter q) q

variable (ν) in
/-- What stands where; what exists stands in a directory. -/
structure Files where
  kind : List ν → Option Kind
  cwd : List ν
  root_dir : kind [] = some .directory
  parent_dir : ∀ q, kind q ≠ none → kind q.tail = some .directory
  cwd_dir : kind cwd = some .directory

/-- The place that the components lead to, if all places on the way are directories. -/
def Files.reach (fs : Files ν) : List ν → List (Step ν) → Except Errno (List ν)
  | q, [] => .ok q
  | q, s :: ss =>
    match fs.kind q with
    | some .directory => fs.reach (s.enter q) ss
    | some .regular => .error .enotdir
    | none => .error .enoent

/-- A new directory. -/
def Files.make [DecidableEq ν] (fs : Files ν) (q : List ν)
    (h : fs.kind q.tail = some .directory) : Files ν where
  kind := Function.update fs.kind q (some .directory)
  cwd := fs.cwd
  root_dir := by
    by_cases hq : [] = q
    · rw [hq, Function.update_self]
    · rw [Function.update_of_ne hq, fs.root_dir]
  parent_dir r hr := by
    by_cases ht : r.tail = q
    · rw [ht, Function.update_self]
    · rw [Function.update_of_ne ht]
      by_cases hq : r = q
      · rw [hq, h]
      · rw [Function.update_of_ne hq] at hr
        exact fs.parent_dir r hr
  cwd_dir := by
    by_cases hq : fs.cwd = q
    · rw [hq, Function.update_self]
    · rw [Function.update_of_ne hq, fs.cwd_dir]

/-- All places on the way are directories. -/
def Files.Way (fs : Files ν) (q : List ν) (ss : List (Step ν)) : Prop :=
  ∀ ss₁ ss₂, ss = ss₁ ++ ss₂ → ss₂ ≠ [] → fs.kind (walk q ss₁) = some .directory

variable {fs fs' fs'' : Files ν} {q : List ν}

theorem way_nil : fs.Way q [] := by
  intro ss₁ ss₂ h hne
  exact absurd (List.append_eq_nil_iff.mp h.symm).2 hne

theorem way_cons {s : Step ν} {ss : List (Step ν)} :
    fs.Way q (s :: ss) ↔ fs.kind q = some .directory ∧ fs.Way (s.enter q) ss := by
  constructor
  · intro h
    refine ⟨h [] _ rfl (List.cons_ne_nil s ss), fun ss₁ ss₂ he hne => ?_⟩
    exact h (s :: ss₁) ss₂ (by rw [he, List.cons_append]) hne
  · rintro ⟨hq, h⟩ ss₁ ss₂ he hne
    cases ss₁ with
    | nil => exact hq
    | cons t ss₁ =>
      obtain ⟨rfl, he'⟩ := List.cons.inj he
      exact h ss₁ ss₂ he' hne

theorem reach_ok_iff {ss : List (Step ν)} {r : List ν} :
    fs.reach q ss = .ok r ↔ fs.Way q ss ∧ r = walk q ss := by
  induction ss generalizing q with
  | nil =>
    rw [Files.reach, Except.ok.injEq, and_iff_right way_nil, eq_comm]
    rfl
  | cons s ss ih =>
    rw [Files.reach, way_cons]
    cases hk : fs.kind q with
    | none => simp
    | some k =>
      cases k with
      | directory =>
        simp only [ih, true_and]
        rfl
      | regular => simp

theorem reach_ne_eexist {ss : List (Step ν)} : fs.reach q ss ≠ .error .eexist := by
  induction ss generalizing q with
  | nil => nofun
  | cons s ss ih =>
    rw [Files.reach]
    split
    · exact ih
    · nofun
    · nofun

/-- A name is missing only in a directory that exists. -/
theorem tail_dir {s : Step ν} (hq : fs.kind q = some .directory)
    (hm : fs.kind (s.enter q) = none) : fs.kind (s.enter q).tail = some .directory := by
  cases s with
  | stay => cases hq.symm.trans hm
  | up =>
    have hup : fs.kind q.tail = some .directory :=
      fs.parent_dir q fun h => by cases hq.symm.trans h
    cases hup.symm.trans hm
  | into n => exact hq

/-! ## File systems that grow -/

/-- What existed is what it was; what is new is a directory. -/
structure Grown (fs fs' : Files ν) : Prop where
  cwd : fs'.cwd = fs.cwd
  kind : ∀ q, fs'.kind q = fs.kind q ∨ fs.kind q = none ∧ fs'.kind q = some .directory

theorem Grown.refl (fs : Files ν) : Grown fs fs := ⟨rfl, fun _ => .inl rfl⟩

theorem Grown.kept (h : Grown fs fs') {k : Kind} (hk : fs.kind q = some k) :
    fs'.kind q = some k := by
  cases h.kind q with
  | inl he => exact he.trans hk
  | inr he => cases he.1.symm.trans hk

theorem Grown.exists (h : Grown fs fs') (hq : fs.kind q ≠ none) : fs'.kind q ≠ none := by
  obtain ⟨k, hk⟩ := Option.ne_none_iff_exists'.mp hq
  rw [h.kept hk]
  exact Option.some_ne_none k

theorem Grown.regular (h : Grown fs fs') (hk : fs'.kind q = some .regular) :
    fs.kind q = some .regular := by
  cases h.kind q with
  | inl he => exact he.symm.trans hk
  | inr he => cases he.2.symm.trans hk

theorem Grown.trans (h : Grown fs fs') (h' : Grown fs' fs'') : Grown fs fs'' := by
  refine ⟨h'.cwd.trans h.cwd, fun q => ?_⟩
  cases h.kind q with
  | inl he =>
    cases h'.kind q with
    | inl he' => exact .inl (he'.trans he)
    | inr he' => exact .inr ⟨he.symm.trans he'.1, he'.2⟩
  | inr he => exact .inr ⟨he.1, h'.kept he.2⟩

theorem Grown.way (h : Grown fs fs') {ss : List (Step ν)} (hw : fs.Way q ss) : fs'.Way q ss :=
  fun ss₁ ss₂ he hne => h.kept (hw ss₁ ss₂ he hne)

theorem grown_make [DecidableEq ν] (h : fs.kind q.tail = some .directory)
    (hq : fs.kind q = none) : Grown fs (fs.make q h) := by
  refine ⟨rfl, fun r => ?_⟩
  by_cases hr : r = q
  · subst hr
    exact .inr ⟨hq, Function.update_self ..⟩
  · exact .inl (Function.update_of_ne hr ..)

end Places

/-! ## Paths -/

abbrev Name := List UInt8

def slash : UInt8 := '/'.toUInt8

def components (path : List UInt8) : List Name := (path.splitOn slash).filter (· ≠ [])

def step (name : Name) : Step Name :=
  if name = ['.'.toUInt8] then .stay
  else if name = ['.'.toUInt8, '.'.toUInt8] then .up
  else .into name

def steps (path : List UInt8) : List (Step Name) := (components path).map step

section Paths
variable (allowed : List Name → Bool) (path : List UInt8) (fs : Files Name)

def Files.start : List Name := if path.head? = some slash then [] else fs.cwd

/-- The place that a path names. -/
def Files.place : List Name := walk (fs.start path) (steps path)

/-- The path is not empty and resolves up to its last component. -/
def Files.Resolves : Prop := path ≠ [] ∧ fs.Way (fs.start path) (steps path)

def Files.IsDirectory : Prop := fs.Resolves path ∧ fs.kind (fs.place path) = some .directory

/-- A new directory at a place that the way leads to. -/
def Files.mkdirAt (q : List Name) : Except Errno (Files Name) :=
  if fs.kind q ≠ none then .error .eexist
  else if h : fs.kind q.tail = some .directory then
    if allowed q then .ok (fs.make q h) else .error .eacces
  else .error .enoent

/-- `mkdir`; what is allowed is a matter of the place. -/
def mkdir : Except Errno (Files Name) :=
  if path = [] then .error .enoent
  else
    match fs.reach (fs.start path) (steps path) with
    | .error e => .error e
    | .ok q => fs.mkdirAt allowed q

variable {allowed path fs} {fs' : Files Name} {p : List UInt8} {q : List Name}

theorem start_dir : fs.kind (fs.start path) = some .directory := by
  unfold Files.start
  split
  · exact fs.root_dir
  · exact fs.cwd_dir

/-- The way to a place that is missing ends in a directory. -/
theorem tail_of_way {ss : List (Step Name)} (hq : fs.kind q = some .directory)
    (hw : fs.Way q ss) (hm : fs.kind (walk q ss) = none) :
    fs.kind (walk q ss).tail = some .directory := by
  induction ss generalizing q with
  | nil => cases hq.symm.trans hm
  | cons s ss ih =>
    cases ss with
    | nil => exact tail_dir hq hm
    | cons t ss =>
      have hw' := (way_cons.mp hw).2
      exact ih (way_cons.mp hw').1 hw' hm

theorem mkdir_resolved (h : fs.Resolves path) :
    mkdir allowed path fs = fs.mkdirAt allowed (fs.place path) := by
  unfold mkdir
  rw [if_neg h.1, reach_ok_iff.mpr ⟨h.2, rfl⟩]
  rfl

theorem mkdir_unresolved (allowed : List Name → Bool) (h : ¬ fs.Resolves path) :
    ∃ e, e ≠ .eexist ∧ mkdir allowed path fs = .error e := by
  unfold mkdir
  by_cases hp : path = []
  · exact ⟨.enoent, nofun, if_pos hp⟩
  · rw [if_neg hp]
    cases hr : fs.reach (fs.start path) (steps path) with
    | error e =>
      refine ⟨e, ?_, rfl⟩
      rintro rfl
      exact reach_ne_eexist hr
    | ok r => exact absurd ⟨hp, (reach_ok_iff.mp hr).1⟩ h

/-- `mkdir` says that the name exists exactly where it does. -/
theorem mkdir_eexist_iff :
    mkdir allowed path fs = .error .eexist ↔
      fs.Resolves path ∧ fs.kind (fs.place path) ≠ none := by
  by_cases hr : fs.Resolves path
  · rw [mkdir_resolved hr, and_iff_right hr]
    unfold Files.mkdirAt
    split
    · next hk => exact iff_of_true rfl hk
    · next hk =>
      refine iff_of_false ?_ hk
      split
      · split
        · nofun
        · nofun
      · nofun
  · obtain ⟨e, he, hm⟩ := mkdir_unresolved allowed hr
    rw [hm]
    exact iff_of_false (fun h => he (Except.error.inj h)) fun h => hr h.1

/-- `mkdir` makes what is missing and allowed. -/
theorem mkdir_ok_iff :
    mkdir allowed path fs = .ok fs' ↔
      fs.Resolves path ∧ fs.kind (fs.place path) = none ∧ allowed (fs.place path) = true ∧
        ∃ h, fs' = fs.make (fs.place path) h := by
  by_cases hr : fs.Resolves path
  · rw [mkdir_resolved hr, and_iff_right hr]
    unfold Files.mkdirAt
    by_cases hk : fs.kind (fs.place path) = none
    · have ht : fs.kind (fs.place path).tail = some .directory := tail_of_way start_dir hr.2 hk
      rw [if_neg (not_not_intro hk), dif_pos ht, and_iff_right hk]
      by_cases ha : allowed (fs.place path) = true
      · rw [if_pos ha, and_iff_right ha, Except.ok.injEq, eq_comm]
        exact ⟨fun h => ⟨ht, h⟩, fun ⟨_, h⟩ => h⟩
      · rw [if_neg ha]
        exact iff_of_false nofun fun h => ha h.1
    · rw [if_pos hk]
      exact iff_of_false nofun fun h => hk h.1
  · obtain ⟨e, -, hm⟩ := mkdir_unresolved allowed hr
    rw [hm]
    exact iff_of_false nofun fun h => hr h.1

theorem Grown.start (h : Grown fs fs') : fs'.start path = fs.start path := by
  unfold Files.start
  rw [h.cwd]

theorem Grown.place (h : Grown fs fs') : fs'.place path = fs.place path := by
  unfold Files.place
  rw [h.start]

theorem Grown.resolves (h : Grown fs fs') (hr : fs.Resolves path) : fs'.Resolves path :=
  ⟨hr.1, by rw [h.start]; exact h.way hr.2⟩

/-- Where the path resolves, `mkdir` fails for what exists and for what is not allowed. -/
theorem mkdir_error {e : Errno} (hr : fs.Resolves path) (h : mkdir allowed path fs = .error e) :
    e = .eexist ∨ fs.kind (fs.place path) = none ∧ allowed (fs.place path) = false := by
  by_cases hk : fs.kind (fs.place path) = none
  · by_cases ha : allowed (fs.place path) = true
    · have ht : fs.kind (fs.place path).tail = some .directory := tail_of_way start_dir hr.2 hk
      cases h.symm.trans (mkdir_ok_iff.mpr ⟨hr, hk, ha, ht, rfl⟩)
    · exact .inr ⟨hk, Bool.eq_false_iff.mpr ha⟩
  · exact .inl (Except.error.inj (h.symm.trans (mkdir_eexist_iff.mpr ⟨hr, hk⟩)))

/-- What a successful `mkdir` does. -/
theorem mkdir_ok (h : mkdir allowed path fs = .ok fs') :
    Grown fs fs' ∧ fs.Resolves path ∧ fs.kind (fs.place path) = none ∧
      allowed (fs.place path) = true ∧ fs'.kind (fs.place path) = some .directory ∧
        ∀ q, q ≠ fs.place path → fs'.kind q = fs.kind q := by
  obtain ⟨hr, hk, ha, ht, rfl⟩ := mkdir_ok_iff.mp h
  exact ⟨grown_make ht hk, hr, hk, ha, Function.update_self .., fun q hq =>
    Function.update_of_ne hq ..⟩

/-! ## Components -/

theorem components_slash (a b : List UInt8) :
    components (a ++ slash :: b) = components a ++ components b := by
  unfold components
  rw [List.splitOn_append_cons_self, List.filter_append]

theorem components_of_not_mem (h : slash ∉ p) (hp : p ≠ []) : components p = [p] := by
  unfold components
  rw [List.splitOn_eq_singleton h]
  simp [hp]

theorem components_nil : components [] = [] := rfl

theorem components_length_le (h : slash ∉ p) : (components p).length ≤ 1 := by
  by_cases hp : p = []
  · rw [hp, components_nil]
    exact Nat.zero_le 1
  · rw [components_of_not_mem h hp]
    exact Nat.le_refl 1

/-- Where the components of a path are cut, there is a slash. -/
theorem components_cut {p : List UInt8} {l₁ l₂ : List Name} (h : components p = l₁ ++ l₂)
    (h₁ : l₁ ≠ []) (h₂ : l₂ ≠ []) :
    ∃ a b, p = a ++ slash :: b ∧ components a = l₁ ∧ components b = l₂ := by
  induction hn : p.length using Nat.strongRecOn generalizing p l₁ with
  | _ n ih =>
    by_cases hs : slash ∈ p
    · obtain ⟨a, b, rfl, ha⟩ := List.eq_append_cons_of_mem hs
      have hlt : b.length < n := by
        rw [← hn, List.length_append, List.length_cons]
        omega
      rw [components_slash] at h
      by_cases hne : a = []
      · subst hne
        obtain ⟨a', b', rfl, ha', hb'⟩ := ih b.length hlt h h₁ rfl
        exact ⟨slash :: a', b', rfl, (components_slash [] a').trans ha', hb'⟩
      · have hone := components_of_not_mem ha hne
        rw [hone] at h
        cases l₁ with
        | nil => exact absurd rfl h₁
        | cons m l₁ =>
          obtain ⟨rfl, hb⟩ := List.cons.inj h
          by_cases hl : l₁ = []
          · subst hl
            exact ⟨a, b, rfl, hone, hb⟩
          · obtain ⟨a', b', rfl, ha', hb'⟩ := ih b.length hlt hb hl rfl
            refine ⟨a ++ slash :: a', b', by simp, ?_, hb'⟩
            rw [components_slash, hone, ha']
            rfl
    · have hlen := components_length_le hs
      have hpos₁ := List.length_pos_iff.mpr h₁
      have hpos₂ := List.length_pos_iff.mpr h₂
      rw [h, List.length_append] at hlen
      omega

end Paths

end SmartPrince.Lib.FileSystem
