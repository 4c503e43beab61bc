import Mathlib.Algebra.GroupWithZero.Nat
import Mathlib.Algebra.Ring.Int.Defs
import Mathlib.Algebra.Ring.Nat
import SmartPrince.Lib.CString
import SmartPrince.Lib.FileSystem

/-! # Paths and file names, `file.c`

`create_path` makes the directories of a path, which is the list of the bytes
before its NUL. `mystrftime` replaces the specifiers that only Motion knows and leaves the
others to `strftime`. The format string is the list of the bytes from its start
on, whatever follows its NUL; behind the bytes given the memory reads as NULs.
The array `formatstring` is here as long as what is written into it.
`file_config_load` copies what a configuration file says into `RunCfg`, byte by
byte. -/
namespace SmartPrince.Common.File
open SmartPrince.Lib.CString SmartPrince.Lib.FileSystem

/-! ## `create_path` -/

/-- What is returned, the file system then, and the directories made, in order. -/
structure Created where
  ret : Int
  files : Files Name
  made : List (List UInt8)

/-- The same, with a directory made before. -/
def Created.after (created : Created) (p : List UInt8) : Created :=
  { created with made := p :: created.made }

/-- The loop: the next slash of the bytes given becomes `start`, and `buffer`
holds all bytes before it. -/
def createLoop (allowed : List Name → Bool) (buffer : List UInt8) :
    List UInt8 → Files Name → Created
  | [], fs => ⟨0, fs, []⟩
  | c :: rest, fs =>
    if c = slash then
      match mkdir allowed buffer fs with
      | .ok fs => (createLoop allowed (buffer ++ [c]) rest fs).after buffer
      | .error .eexist => createLoop allowed (buffer ++ [c]) rest fs
      | .error _ => ⟨-1, fs, []⟩
    else createLoop allowed (buffer ++ [c]) rest fs

def createPath (allowed : List Name → Bool) (path : List UInt8) (fs : Files Name) : Created :=
  if path.head? = some slash then createLoop allowed (path.take 1) (path.drop 1) fs
  else createLoop allowed [] path fs

/-! ## `mystrftime` -/

def pathMax : Nat := 4096

structure Coord where
  x : Int
  y : Int
  width : Int
  height : Int

structure ImageData where
  diffs : Int
  shot : Int
  location : Coord
  totalLabels : Int

/-- The fields of `struct context` that a file name can show. -/
structure Context where
  currentImage : ImageData
  noise : Int
  threshold : Int
  eventNr : Int
  textEventString : List UInt8

/-- `sprintf(tempstr, "%d", n)` -/
def decimal (n : Int) : List UInt8 :=
  (if n < 0 then ['-'.toUInt8] else []) ++ (Nat.toDigits 10 n.natAbs).map Char.toUInt8

/-- `sprintf(tempstr, "%02d", n)` -/
def decimal2 (n : Int) : List UInt8 :=
  List.replicate (2 - (decimal n).length) '0'.toUInt8 ++ decimal n

/-- `snprintf(tempstr, PATH_MAX, "%s", s)` -/
def fitted (s : List UInt8) : List UInt8 := cstr (snprintf pathMax (cstr s))

/-- What the `switch` makes of the byte behind a `%`. -/
inductive Specifier where
  | text (tempstr : List UInt8)  -- what it leaves in `tempstring`
  | absent                       -- `++pos_userformat`
  | other                        -- copied with the %-sign
  deriving DecidableEq, Repr

section Expansion
variable (cnt : Context) (filename : Option (List UInt8)) (sqltype : Int)

def specifier (d : UInt8) : Specifier :=
  if d = 'v'.toUInt8 then .text (decimal2 cnt.eventNr)
  else if d = 'q'.toUInt8 then .text (decimal2 cnt.currentImage.shot)
  else if d = 'D'.toUInt8 then .text (decimal cnt.currentImage.diffs)
  else if d = 'N'.toUInt8 then .text (decimal cnt.noise)
  else if d = 'i'.toUInt8 then .text (decimal cnt.currentImage.location.width)
  else if d = 'J'.toUInt8 then .text (decimal cnt.currentImage.location.height)
  else if d = 'K'.toUInt8 then .text (decimal cnt.currentImage.location.x)
  else if d = 'L'.toUInt8 then .text (decimal cnt.currentImage.location.y)
  else if d = 'o'.toUInt8 then .text (decimal cnt.threshold)
  else if d = 'Q'.toUInt8 then .text (decimal cnt.currentImage.totalLabels)
  else if d = 't'.toUInt8 then .text []
  else if d = 'C'.toUInt8 then
    if cstr cnt.textEventString = [] then .absent else .text (fitted cnt.textEventString)
  else if d = 'f'.toUInt8 then
    match filename with
    | some s => .text (fitted s)
    | none => .absent
  else if d = 'n'.toUInt8 then
    if sqltype = 0 then .absent else .text (decimal sqltype)
  else .other

/-- The bytes written into `formatstring` before its last NUL, and how many
bytes of the format string were read. -/
structure Expansion where
  formatstring : List UInt8
  read : Nat
  deriving DecidableEq, Repr

/-- The rest of the loop after some bytes were written and some read. -/
def Expansion.after (e : Expansion) (written : List UInt8) (read : Nat) : Expansion :=
  ⟨written ++ e.formatstring, read + e.read⟩

/-- What is written for a byte behind a `%` that goes on with the next byte:
`tempstring`, or where that is empty the byte itself. -/
def replaced (d : UInt8) (tempstr : List UInt8) : List UInt8 :=
  if tempstr = [] then [d] else tempstr

/-- The loop, from `pos_userformat` on. -/
def expand : List UInt8 → Expansion
  | [] => ⟨[], 1⟩
  | c :: buf =>
    if c = 0 then ⟨[], 1⟩
    else if c = '%'.toUInt8 then
      match buf with
      | [] => ⟨['%'.toUInt8], 2⟩
      | d :: buf =>
        -- the cursor steps back, the `%` is copied and its NUL is found again
        if d = 0 then ⟨['%'.toUInt8], 2⟩
        else
          match specifier cnt filename sqltype d with
          | .other => (expand buf).after ['%'.toUInt8, d] 2
          | .text tempstr => (expand buf).after (replaced d tempstr) 2
          | .absent =>
            -- the cursor stands one further, and that byte is copied whatever it is
            match buf with
            | [] => (expand []).after [0] 3
            | e :: buf => (expand buf).after [e] 3
    else (expand buf).after [c] 1

/-- The string that `strftime` is given. -/
def expandedFormat (userformat : List UInt8) : List UInt8 :=
  cstr ((expand cnt filename sqltype userformat).formatstring ++ [0])

/-- What is stored at `s`, and the number that is returned; `strftime` is
given the size of `s` and the expanded format. -/
def mystrftime (strftime : Nat → List UInt8 → List UInt8 × Nat) (max : Nat)
    (userformat : Option (List UInt8)) : List UInt8 × Nat :=
  match userformat with
  | none => ([0], 0)
  | some userformat => strftime max (expandedFormat cnt filename sqltype userformat)

/-! ## `file_config_load` -/

/-- The fields of `RunConfig`. -/
inductive ConfigField where
  | who
  | name
  | id
  | net
  | ip
  | port
  | start
  | step
  | ncnt
  | mode
  | target
  | type
  | opcode
  | mplay
  | save
  | acc
  deriving DecidableEq, Repr

namespace ConfigField

/-- The fields as they lie one behind the other. -/
def layout : List ConfigField :=
  [.who, .name, .id, .net, .ip, .port, .start, .step, .ncnt, .mode, .target, .type, .opcode,
    .mplay, .save, .acc]

def size : ConfigField → Nat
  | .name => 8
  | .net => 16
  | .ip => 16
  | .target => 8
  | .type => 8
  | _ => 4

def off (f : ConfigField) : Nat := ((layout.takeWhile (· ≠ f)).map size).sum

def key : ConfigField → String
  | .who => "who"
  | .name => "name"
  | .id => "id"
  | .net => "net"
  | .ip => "ip"
  | .port => "port"
  | .start => "start"
  | .step => "step"
  | .ncnt => "ncnt"
  | .mode => "mode"
  | .target => "target"
  | .type => "type"
  | .opcode => "opcode"
  | .mplay => "mplay"
  | .save => "save"
  | .acc => "acc"

/-- What is asked for, a string or an `int`, and its default. -/
inductive Default where
  | str (text : String)
  | int (n : Int32)

def default : ConfigField → Default
  | .who => .int 0
  | .name => .str "cm01"
  | .id => .int 1
  | .net => .str "10.10.0."
  | .ip => .str "10.10.0.1"
  | .port => .int 9001
  | .start => .int 1
  | .step => .int 4
  | .ncnt => .int 4
  | .mode => .int 1
  | .target => .str "faces"
  | .type => .str "class"
  | .opcode => .int 0
  | .mplay => .int 0
  | .save => .int 0
  | .acc => .int 9700

end ConfigField

/-- `sizeof(RunConfig)` -/
def runConfigSize : Nat := (ConfigField.layout.map ConfigField.size).sum

/-- What `option_find_str` and `option_find_int` return for a file, by key and default. -/
structure Config where
  optionFindStr : List UInt8 → List UInt8 → List UInt8
  optionFindInt : List UInt8 → Int32 → Int32

/-- An `unsigned int` in memory. -/
def wordBytes (n : UInt32) : List UInt8 :=
  [n.toUInt8, (n >>> 8).toUInt8, (n >>> 16).toUInt8, (n >>> 24).toUInt8]

/-- What is stored for a field: the string with its NUL, however long it is, or a number. -/
def Config.bytes (cfg : Config) (f : ConfigField) : List UInt8 :=
  match f.default with
  | .str text => cstr (cfg.optionFindStr (ofText f.key) (ofText text)) ++ [0]
  | .int n => wordBytes (cfg.optionFindInt (ofText f.key) n).toUInt32

/-- `runCfg` are the bytes from `RunCfg` on. -/
def Config.load (cfg : Config) (runCfg : List UInt8) (f : ConfigField) : List UInt8 :=
  put runCfg f.off (cfg.bytes f)

/-- The order in which the fields are loaded. -/
def loadOrder : List ConfigField :=
  [.name, .net, .ip, .target, .type, .who, .id, .port, .start, .step, .ncnt, .mode, .opcode,
    .mplay, .save, .acc]

def fileConfigLoad (cfg : Config) (runCfg : List UInt8) : List UInt8 :=
  loadOrder.foldl cfg.load runCfg

/-! ## One turn of the loop -/

theorem decimal_no_nul (n : Int) : 0 ∉ decimal n := by
  unfold decimal
  rw [List.mem_append, not_or]
  constructor
  · split
    · decide
    · exact List.not_mem_nil
  · intro h
    obtain ⟨c, hc, h0⟩ := List.mem_map.mp h
    have hdigit := Nat.isDigit_of_mem_toDigits (by decide) (by decide) hc
    simp only [Char.isDigit, Bool.and_eq_true, decide_eq_true_eq, ge_iff_le] at hdigit
    have hlo : 48 ≤ c.val.toNat := hdigit.1
    have hhi : c.val.toNat ≤ 57 := hdigit.2
    have hmod : c.val.toNat % 256 = 0 := congrArg UInt8.toNat h0
    omega

theorem decimal2_no_nul (n : Int) : 0 ∉ decimal2 n := by
  unfold decimal2
  rw [List.mem_append, not_or]
  exact ⟨fun h => absurd (List.eq_of_mem_replicate h) (by decide), decimal_no_nul n⟩

/-- What is left in `tempstring` is the string up to its NUL. -/
def Specifier.NoNul (s : Specifier) : Prop := ∀ tempstr, s = .text tempstr → 0 ∉ tempstr

theorem Specifier.NoNul.text {tempstr : List UInt8} (h : 0 ∉ tempstr) :
    (Specifier.text tempstr).NoNul := by
  intro t ht
  cases ht
  exact h

theorem Specifier.NoNul.ite {p : Prop} [Decidable p] {s t : Specifier} (hs : s.NoNul)
    (ht : t.NoNul) : (if p then s else t).NoNul := by
  split
  · exact hs
  · exact ht

theorem specifier_no_nul (d : UInt8) : (specifier cnt filename sqltype d).NoNul := by
  unfold specifier
  refine .ite (.text (decimal2_no_nul _)) ?_
  refine .ite (.text (decimal2_no_nul _)) ?_
  refine .ite (.text (decimal_no_nul _)) ?_
  refine .ite (.text (decimal_no_nul _)) ?_
  refine .ite (.text (decimal_no_nul _)) ?_
  refine .ite (.text (decimal_no_nul _)) ?_
  refine .ite (.text (decimal_no_nul _)) ?_
  refine .ite (.text (decimal_no_nul _)) ?_
  refine .ite (.text (decimal_no_nul _)) ?_
  refine .ite (.text (decimal_no_nul _)) ?_
  refine .ite (.text List.not_mem_nil) ?_
  refine .ite (.ite nofun (.text (cstr_no_nul _))) ?_
  refine .ite ?_ (.ite (.ite nofun (.text (decimal_no_nul _))) nofun)
  cases filename with
  | none => exact nofun
  | some s => exact .text (cstr_no_nul _)

/-- What a byte behind a `%` is replaced by. -/
def expansion (d : UInt8) : List UInt8 :=
  match specifier cnt filename sqltype d with
  | .text tempstr => replaced d tempstr
  | .absent => []
  | .other => ['%'.toUInt8, d]

theorem expansion_no_nul {d : UInt8} (h0 : d ≠ 0) : 0 ∉ expansion cnt filename sqltype d := by
  have hd : 0 ∉ [d] := fun h => h0 (List.mem_singleton.mp h).symm
  unfold expansion
  cases hs : specifier cnt filename sqltype d with
  | text tempstr =>
    dsimp only [replaced]
    split
    · exact hd
    · exact specifier_no_nul cnt filename sqltype d tempstr hs
  | absent => exact List.not_mem_nil
  | other => exact List.not_mem_cons_of_ne_of_not_mem (by decide) hd

variable {cnt filename sqltype} {c d : UInt8} {buf : List UInt8}

@[simp] theorem percent_ne_nul : ('%'.toUInt8 = 0) = False := eq_false (by decide)

@[simp] theorem specifier_percent : specifier cnt filename sqltype '%'.toUInt8 = .other := rfl

@[simp] theorem specifier_nul : specifier cnt filename sqltype 0 = .other := rfl

theorem ne_nul_of_absent (h : specifier cnt filename sqltype d = .absent) : d ≠ 0 := by
  rintro rfl
  rw [specifier_nul] at h
  cases h

theorem expand_nul : expand cnt filename sqltype (0 :: buf) = ⟨[], 1⟩ := by
  rw [expand.eq_def]
  exact if_pos rfl

theorem expand_percent_nul :
    expand cnt filename sqltype ('%'.toUInt8 :: 0 :: buf) = ⟨['%'.toUInt8], 2⟩ := by
  rw [expand.eq_def]
  simp

theorem expand_literal (h0 : c ≠ 0) (hc : c ≠ '%'.toUInt8) :
    expand cnt filename sqltype (c :: buf) = (expand cnt filename sqltype buf).after [c] 1 := by
  rw [expand.eq_def]
  simp only [if_neg h0, if_neg hc]

theorem expand_code (h0 : d ≠ 0) (ha : specifier cnt filename sqltype d ≠ .absent) :
    expand cnt filename sqltype ('%'.toUInt8 :: d :: buf) =
      (expand cnt filename sqltype buf).after (expansion cnt filename sqltype d) 2 := by
  rw [expand.eq_def]
  simp only [percent_ne_nul, if_false, if_true, if_neg h0, expansion]
  cases hs : specifier cnt filename sqltype d with
  | text tempstr => rfl
  | absent => exact absurd hs ha
  | other => rfl

theorem expand_absent (ha : specifier cnt filename sqltype d = .absent) (e : UInt8) :
    expand cnt filename sqltype ('%'.toUInt8 :: d :: e :: buf) =
      (expand cnt filename sqltype buf).after [e] 3 := by
  rw [expand.eq_def]
  simp only [percent_ne_nul, if_false, if_true, if_neg (ne_nul_of_absent ha), ha]

end Expansion

end SmartPrince.Common.File
