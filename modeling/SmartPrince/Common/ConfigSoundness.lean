import Mathlib.Data.List.Nodup
import Mathlib.Data.List.Pairwise
import SmartPrince.Common.File

/-! # What a configuration leaves in `RunCfg`

Every option is stored once. A string that is too long for its array goes on
behind it; but the strings are stored in the order of their arrays, so none is
stored over one that came before. -/
namespace SmartPrince.Common.ConfigSoundness
open SmartPrince.Lib.CString SmartPrince.Common.File

/-! ## The layout and the order -/

def isStr (f : ConfigField) : Bool :=
  match f.default with
  | .str _ => true
  | .int _ => false

/-- The bytes of two fields lie apart. -/
def Apart (f g : ConfigField) : Prop := f.off + f.size ≤ g.off ∨ g.off + g.size ≤ f.off

instance (f g : ConfigField) : Decidable (Apart f g) := inferInstanceAs (Decidable (_ ∨ _))

instance : Std.Symm Apart := ⟨fun _ _ => Or.symm⟩

/-- A load of the second field does not reach the first one, whatever it stores. -/
def Passes (f g : ConfigField) : Prop :=
  f.off + f.size ≤ g.off ∨ Apart f g ∧ isStr g = false

instance (f g : ConfigField) : Decidable (Passes f g) := inferInstanceAs (Decidable (_ ∨ _))

section Layout
variable {f g : ConfigField}

theorem mem_layout (f : ConfigField) : f ∈ ConfigField.layout := by
  cases f <;> decide

theorem mem_loadOrder (f : ConfigField) : f ∈ loadOrder := by
  cases f <;> decide

theorem apart_of_ne (h : f ≠ g) : Apart f g := by
  have hall : ConfigField.layout.Pairwise Apart := by decide +kernel
  exact hall.forall (mem_layout f) (mem_layout g) h

theorem off_le (f : ConfigField) : f.off + f.size ≤ runConfigSize := by
  cases f <;> decide

theorem loadOrder_passes : loadOrder.Pairwise Passes := by decide +kernel

theorem key_ne (h : f ≠ g) : ofText f.key ≠ ofText g.key := fun hkey => by
  have hnodup : (ConfigField.layout.map fun f => ofText f.key).Nodup := by decide +kernel
  exact h (List.inj_on_of_nodup_map hnodup (mem_layout f) (mem_layout g) hkey)

end Layout

/-! ## What is stored -/

/-- The string that is configured for a field. -/
def text (cfg : Config) (f : ConfigField) : List UInt8 :=
  match f.default with
  | .str default => cstr (cfg.optionFindStr (ofText f.key) (ofText default))
  | .int _ => []

/-- Every string is shorter than its array. -/
def Fits (cfg : Config) : Prop := ∀ f, isStr f = true → (text cfg f).length < f.size

def fieldBytes (runCfg : List UInt8) (f : ConfigField) : List UInt8 := region runCfg f.off f.size

section Bytes
variable {cfg cfg' : Config} {f g : ConfigField} {runCfg : List UInt8}

theorem bytes_str (cfg : Config) (h : isStr f = true) : cfg.bytes f = text cfg f ++ [0] := by
  unfold isStr at h
  unfold Config.bytes text
  cases hd : f.default with
  | str default => rfl
  | int n =>
    rw [hd] at h
    cases h

theorem bytes_int (cfg : Config) (h : isStr f = false) : (cfg.bytes f).length = f.size := by
  cases f <;> first | rfl | cases h

theorem text_no_nul (cfg : Config) (f : ConfigField) : 0 ∉ text cfg f := by
  unfold text
  cases f.default with
  | str default => exact cstr_no_nul _
  | int n => exact List.not_mem_nil

theorem Fits.bytes_le (h : Fits cfg) (f : ConfigField) : (cfg.bytes f).length ≤ f.size := by
  cases hf : isStr f with
  | true =>
    rw [bytes_str cfg hf, List.length_append, List.length_singleton]
    exact h f hf
  | false => exact (bytes_int cfg hf).le

/-- What stays in its own array leaves the others. -/
theorem load_apart (hlen : (cfg.bytes f).length ≤ f.size) (h : g ≠ f) (runCfg : List UInt8) :
    fieldBytes (cfg.load runCfg f) g = fieldBytes runCfg g := by
  have hapart := apart_of_ne h
  unfold Apart at hapart
  exact region_put_apart (by omega)

theorem load_passes (h : Passes f g) (runCfg : List UInt8) :
    fieldBytes (cfg.load runCfg g) f = fieldBytes runCfg f := by
  rcases h with h | ⟨h, hint⟩
  · exact region_put_apart (.inl h)
  · refine region_put_apart ?_
    rw [bytes_int cfg hint]
    exact h

theorem loads_pass {fs : List ConfigField} (h : ∀ g ∈ fs, Passes f g) (runCfg : List UInt8) :
    fieldBytes (fs.foldl cfg.load runCfg) f = fieldBytes runCfg f := by
  induction fs generalizing runCfg with
  | nil => rfl
  | cons g fs ih =>
    rw [List.foldl_cons, ih fun g' hg' => h g' (List.mem_cons_of_mem g hg')]
    exact load_passes (h g List.mem_cons_self) runCfg

theorem loads_length (fs : List ConfigField) (runCfg : List UInt8) :
    (fs.foldl cfg.load runCfg).length = runCfg.length := by
  induction fs generalizing runCfg with
  | nil => rfl
  | cons f fs ih => rw [List.foldl_cons, ih, Config.load, length_put]

/-- A field holds what its own load has stored in it. -/
theorem fieldBytes_load (cfg : Config) (f : ConfigField) (hlen : runConfigSize ≤ runCfg.length) :
    ∃ old : List UInt8, old.length = f.size ∧ fieldBytes (fileConfigLoad cfg runCfg) f =
      (cfg.bytes f).take f.size ++ old.drop (cfg.bytes f).length := by
  obtain ⟨before, after, hsplit⟩ := List.append_of_mem (mem_loadOrder f)
  have hpass := loadOrder_passes
  rw [hsplit, List.pairwise_append] at hpass
  have hafter := (List.pairwise_cons.mp hpass.2.1).1
  have hroom : f.off + f.size ≤ (before.foldl cfg.load runCfg).length := by
    rw [loads_length]
    exact (off_le f).trans hlen
  refine ⟨_, length_region hroom, ?_⟩
  unfold fileConfigLoad
  rw [hsplit, List.foldl_append, List.foldl_cons, loads_pass hafter]
  exact region_put_start hroom

end Bytes

/-! ## Strings in their arrays -/

/-- The field is a string that ends in its array, a prefix of what is configured. -/
structure Holds (cfg : Config) (runCfg : List UInt8) (f : ConfigField) : Prop where
  terminated : 0 ∈ fieldBytes (fileConfigLoad cfg runCfg) f
  string : cstr (fieldBytes (fileConfigLoad cfg runCfg) f) <+: text cfg f

/-- Two files that differ in the option of a field only. -/
def DifferAt (f : ConfigField) (cfg cfg' : Config) : Prop :=
  ∀ key, key ≠ ofText f.key →
    cfg.optionFindStr key = cfg'.optionFindStr key ∧ cfg.optionFindInt key = cfg'.optionFindInt key

/-- What is expected of two files: strings that end in their arrays, loads that
change their own field alone, and the same bytes in all fields whose options are the same. -/
structure Sound (cfg cfg' : Config) (runCfg : List UInt8) : Prop where
  strings : ∀ f, isStr f = true → Holds cfg runCfg f ∧ Holds cfg' runCfg f
  frame : ∀ f, isStr f = true → ∀ g, g ≠ f → ∀ old,
    fieldBytes (cfg.load old f) g = fieldBytes old g ∧
      fieldBytes (cfg'.load old f) g = fieldBytes old g
  differ : ∀ f, isStr f = true → DifferAt f cfg cfg' → ∀ g, g ≠ f →
    fieldBytes (fileConfigLoad cfg runCfg) g = fieldBytes (fileConfigLoad cfg' runCfg) g

section Sound
variable {cfg cfg' : Config} {f g : ConfigField} {runCfg : List UInt8}

theorem holds_iff (h : isStr f = true) (hlen : runConfigSize ≤ runCfg.length) :
    Holds cfg runCfg f ↔ (text cfg f).length < f.size := by
  obtain ⟨old, hold, hbytes⟩ := fieldBytes_load cfg f hlen
  have h0 := text_no_nul cfg f
  rw [bytes_str cfg h] at hbytes
  constructor
  · intro hh
    by_contra hlong
    have hmem := hh.terminated
    rw [hbytes, List.take_append_of_le_length (Nat.le_of_not_lt hlong), List.drop_eq_nil_of_le
      (by rw [List.length_append]; omega), List.append_nil] at hmem
    exact h0 (List.mem_of_mem_take hmem)
  · intro hlt
    rw [List.take_of_length_le (by rw [List.length_append]; exact hlt), List.append_assoc,
      List.singleton_append] at hbytes
    constructor
    · rw [hbytes]
      exact List.mem_append_right _ List.mem_cons_self
    · rw [hbytes, cstr_nul h0]

theorem bytes_differ (h : DifferAt f cfg cfg') (hg : g ≠ f) : cfg.bytes g = cfg'.bytes g := by
  obtain ⟨hstr, hint⟩ := h (ofText g.key) (key_ne hg)
  unfold Config.bytes
  rw [hstr, hint]

/-- Two runs of loads agree on a field as long as they do not load what differs into it. -/
theorem loads_differ (hfit : Fits cfg) (hfit' : Fits cfg') (h : DifferAt f cfg cfg') (hg : g ≠ f)
    (fs : List ConfigField) {old old' : List UInt8} (hold : fieldBytes old g = fieldBytes old' g) :
    fieldBytes (fs.foldl cfg.load old) g = fieldBytes (fs.foldl cfg'.load old') g := by
  induction fs generalizing old old' with
  | nil => exact hold
  | cons e fs ih =>
    refine ih ?_
    by_cases he : e = f
    · rw [he, load_apart (hfit.bytes_le f) hg, load_apart (hfit'.bytes_le f) hg, hold]
    · unfold Config.load
      rw [bytes_differ h he]
      exact region_put_congr hold _ _

/-- **The loads are sound exactly if every string is shorter than its array.** -/
theorem fileConfigLoad_sound_iff (cfg cfg' : Config) (runCfg : Vector UInt8 runConfigSize)
    (behind : List UInt8) :
    Sound cfg cfg' (runCfg.toList ++ behind) ↔ Fits cfg ∧ Fits cfg' := by
  have hlen := le_length_array runCfg behind
  constructor
  · intro h
    exact ⟨fun f hf => (holds_iff hf hlen).mp (h.strings f hf).1,
      fun f hf => (holds_iff hf hlen).mp (h.strings f hf).2⟩
  · rintro ⟨hfit, hfit'⟩
    constructor
    · intro f hf
      exact ⟨(holds_iff hf hlen).mpr (hfit f hf), (holds_iff hf hlen).mpr (hfit' f hf)⟩
    · intro f hf g hg old
      exact ⟨load_apart (hfit.bytes_le f) hg old, load_apart (hfit'.bytes_le f) hg old⟩
    · intro f hf hdiffer g hg
      exact loads_differ hfit hfit' hdiffer hg loadOrder rfl

end Sound

/-- A file that gives a name, and no option else. -/
def named (name : String) : Config where
  optionFindStr key default := if key = ofText "name" then ofText name else default
  optionFindInt _ n := n

/-- Eight characters leave no room for the NUL. -/
theorem named_eight_not_sound :
    ¬ Sound (named "camera01") (named "cm01") (List.replicate runConfigSize 0) := fun h => by
  have hname := (holds_iff rfl (by rw [List.length_replicate])).mp (h.strings .name rfl).1
  exact absurd hname (by decide)

end SmartPrince.Common.ConfigSoundness
