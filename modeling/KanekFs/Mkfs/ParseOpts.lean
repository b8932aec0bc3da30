import KanekFs.Lib.Checks
import KanekFs.Mkfs.BlockMap
import KanekFs.Mkfs.ValidateSize

/-!
# The command line of mkfs

`parse_opts` and `main` of `kfs_mkfs.c`. What `getopt` reports is a list of options with their
arguments, in the order in which it finds them, and what `stat` and `get_bd_size` say of the file
is a `Target`. `parse_opts` leaves the process, returns a code, or copies a string behind the end of
its buffer.

* `Acceptable` is what a command line has to be, without flags and without an order of the checks:
  which options go together, and which numbers they take.
* `parseOptions_eq_ok_iff`: the checks pass for these command lines and no others.
* `mkfs_outcome`: the program ends with success for them and for a request for help, and it writes
  nothing: `parse_opts` exits behind its last check. This is for arguments that fit their buffers;
  `parseOpts_eq_undefined_iff` says which command lines have no defined end.
-/

namespace KanekFs.Mkfs

open CString Ctype Word

/-! ## Definitions -/

def cmdGraph : ℕ := 0x000008
def optV : ℕ := 0x000010
def optH : ℕ := 0x000020
def optF : ℕ := 0x000040
def optD : ℕ := 0x000080
def optW : ℕ := 0x000800
def optM : ℕ := 0x001000
def optK : ℕ := 0x002000
def optXItems : ℕ := 0x004000
def optXBlocks : ℕ := 0x008000
def mkfsCreateFile : ℕ := 0x100000
def mkfsIsBlockdevice : ℕ := 0x200000
def mkfsIsRegularFile : ℕ := 0x400000

def mkfsDefaultPercentage : ℕ := 10

/-- How a function ends when it does not go on. -/
inductive Outcome
  | exit (status : ℤ)
  | ret (rc : ℤ)
  | undefined
  deriving DecidableEq

/-- An option as `getopt` reports it; `x` is among those that take no argument. -/
inductive Opt
  | f (optarg : CStr)
  | d (optarg : CStr)
  | i (optarg : CStr)
  | s (optarg : CStr)
  | p (optarg : CStr)
  | k (optarg : CStr)
  | w (optarg : CStr)
  | m (optarg : CStr)
  | x
  | v
  | h
  /-- a character that is no option, or one without its argument -/
  | other

/-- What the system says of the file. -/
structure Target where
  stat_rc : ℤ
  is_reg : Bool
  is_blk : Bool
  st_size : ℤ
  bd_size : Fin (2 ^ 64)

/-- `options_t` -/
structure OptionsT extends Options where
  file_name : CStr
  conf_file : CStr
  metadata_file : CStr
  str_size : CStr
  str_slots_num : CStr
  str_sinodes_num : CStr
  str_percentage : CStr
  str_key : CStr

/-- `options_t` after `memset`. -/
def OptionsT.zero : OptionsT where
  sinodes_num := 0
  slots_num := 0
  size := 0
  percentage := 0
  flags := 0
  file_name := ofBuffer []
  conf_file := ofBuffer []
  metadata_file := ofBuffer []
  str_size := ofBuffer []
  str_slots_num := ofBuffer []
  str_sinodes_num := ofBuffer []
  str_percentage := ofBuffer []
  str_key := ofBuffer []

def validateNum (str_size : CStr) : ℕ :=
  let l := toInt32 (strlen str_size)
  if ¬ (str_size.chars.take l.toNat).all isdigit then 0 else strtoul str_size

/-- Which command is asked for. -/
def parseCommand (command : CStr) : Except Outcome ℕ :=
  if strncmp 3 command.chars (ofChars "kfs").chars = 0 then .ok cmdKfs
  else if strncmp 4 command.chars (ofChars "meta").chars = 0 then .ok cmdMeta
  else if strncmp 3 command.chars (ofChars "sis").chars = 0 then .ok cmdSis
  else if strncmp 5 command.chars (ofChars "graph").chars = 0 then .ok cmdGraph
  else .error (.exit 1)

/-- `strcpy` into a buffer of `len` bytes. -/
def strcpy (len : ℕ) (s : CStr) : Except Outcome CStr :=
  if strlen s < len then .ok s else .error .undefined

/-- The `switch` on the option. -/
def takeOption : ℕ × OptionsT → Opt → Except Outcome (ℕ × OptionsT)
  | (flags, options), .f optarg => do
    let file_name ← strcpy 240 optarg
    return (flags ||| optF, { options with file_name })
  | (flags, options), .d optarg => do
    let str_size ← strcpy 32 optarg
    return (flags ||| optD, { options with str_size })
  | (flags, options), .i optarg => do
    let str_sinodes_num ← strcpy 24 optarg
    return (flags ||| optI, { options with str_sinodes_num })
  | (flags, options), .s optarg => do
    let str_slots_num ← strcpy 24 optarg
    return (flags ||| optS, { options with str_slots_num })
  | (flags, options), .p optarg => do
    let str_percentage ← strcpy 10 optarg
    return (flags ||| optP, { options with str_percentage })
  | (flags, options), .k optarg => do
    let str_key ← strcpy 20 optarg
    return (flags ||| optK, { options with str_key })
  | (flags, options), .w optarg => do
    let conf_file ← strcpy 240 optarg
    return (flags ||| optW, { options with conf_file })
  | (flags, options), .m optarg => do
    let metadata_file ← strcpy 240 optarg
    return (flags ||| optM, { options with metadata_file })
  -- `optarg`, which is compared with "blocks" and "items", is NULL
  | _, .x => .error .undefined
  | (flags, options), .v => return (flags ||| optV, options)
  | (flags, options), .h => return (flags ||| optH, options)
  | _, .other => .error (.exit 1)

/-- The combinations that are refused. -/
def InvalidCombination (flags : ℕ) : Prop :=
  flags &&& optH ≠ 0 ∨ flags &&& optV = flags ∨
  flags &&& (optP ||| optS) = optP ||| optS ∨ flags &&& (optP ||| optI) = optP ||| optI ∨
  flags &&& (cmdMeta ||| optI) = cmdMeta ||| optI ∨
  flags &&& (cmdGraph ||| optI) = cmdGraph ||| optI ∨
  flags &&& (cmdSis ||| optS) = cmdSis ||| optS ∨
  flags &&& (cmdGraph ||| optS) = cmdGraph ||| optS ∨
  flags &&& (cmdMeta ||| cmdGraph ||| cmdSis) ≠ 0 ∧ flags &&& optK = 0

instance (flags : ℕ) : Decidable (InvalidCombination flags) := by
  unfold InvalidCombination
  infer_instance

/-- The checks on the flags, and `options.flags`. -/
def checkFlags (flags : ℕ) (options : OptionsT) : Except Outcome OptionsT :=
  if flags &&& optH ≠ 0 then .error (.exit 0)
  else
    let need_file := flags &&& (optXBlocks ||| optXItems) = 0
    if need_file ∧ flags &&& optF = 0 then .error (.exit 1)
    else if InvalidCombination flags then .error (.exit 1)
    else .ok { options with flags }

/-- `-d` -/
def readSize (options : OptionsT) : Except Outcome OptionsT :=
  if options.has optD then
    match validateSize options.str_size with
    | none => .error .undefined
    | some size =>
      if size = 0 then .error (.ret (-1))
      else if size < minFs then .error (.ret (-1))
      else .ok { options with size }
  else .ok options

/-- `-p`; the number is converted to an `int`. -/
def readPercentage (options : OptionsT) : Except Outcome OptionsT :=
  if options.has optP then
    let percentage := toInt32 (validateNum options.str_percentage)
    if percentage < 2 ∨ percentage > 90 then .error (.ret (-1))
    else .ok { options with percentage := percentage.toNat }
  else .ok { options with percentage := mkfsDefaultPercentage }

/-- `-i` -/
def readSinodesNum (options : OptionsT) : Except Outcome OptionsT :=
  if options.has optI then
    let sinodes_num := validateNum options.str_sinodes_num
    if sinodes_num = 0 then .error (.ret (-1)) else .ok { options with sinodes_num }
  else .ok options

/-- `-s` -/
def readSlotsNum (options : OptionsT) : Except Outcome OptionsT :=
  if options.has optS then
    let slots_num := validateNum options.str_slots_num
    if slots_num = 0 then .error (.ret (-1)) else .ok { options with slots_num }
  else .ok options

/-- `options.flags |= mask` -/
def OptionsT.addFlag (options : OptionsT) (mask : ℕ) : OptionsT :=
  { options with flags := options.flags ||| mask }

/-- The file to write to, if one is needed. -/
def readTarget (target : Target) (options : OptionsT) : Except Outcome OptionsT :=
  if options.flags &&& (optXBlocks ||| optXItems) ≠ 0 then .ok options
  else if target.stat_rc ≠ 0 then
    if options.flags &&& optXItems = 0 then
      .ok ((options.addFlag mkfsCreateFile).addFlag mkfsIsRegularFile)
    else .ok options
  else if target.is_reg = false ∧ target.is_blk = false then .error (.ret (-1))
  else
    let options :=
      if target.is_reg then
        let options :=
          if target.st_size > 0 then { options with size := ofInt64 target.st_size } else options
        options.addFlag mkfsIsRegularFile
      else options
    let options :=
      if target.is_blk then
        { options with size := target.bd_size }.addFlag mkfsIsBlockdevice
      else options
    -- a file that is there turns `-s` on
    .ok (options.addFlag optS)

/-- A file can only be created with a size. -/
def checkCreate (options : OptionsT) : Except Outcome OptionsT :=
  if options.has mkfsCreateFile ∧ ¬ options.has optD then .error (.ret (-1)) else .ok options

/-- The part of `parse_opts` behind the loop over the options. -/
def checkOptions (target : Target) (r : ℕ × OptionsT) : Except Outcome OptionsT := do
  let options ← checkFlags r.1 r.2
  let options ← readSize options
  let options ← readPercentage options
  let options ← readSinodesNum options
  let options ← readSlotsNum options
  let options ← readTarget target options
  checkCreate options

/-- `parse_opts` up to its last check; the options are a local variable. -/
def parseOptions (argv : List CStr) (opts : List Opt) (target : Target) :
    Except Outcome OptionsT := do
  let command ← match argv[1]? with
    | none => .error (.exit 1)
    | some command => .ok command
  let cmd ← parseCommand command
  let r ← opts.foldlM takeOption (cmd, OptionsT.zero)
  checkOptions target r

/-- `parse_opts`: behind the last check the process exits. -/
def parseOpts (argv : List CStr) (opts : List Opt) (target : Target) : Outcome :=
  match parseOptions argv opts target with
  | .error outcome => outcome
  | .ok _ => .exit 0

/-- `main`, and what is written; `options` is the global variable. -/
def mkfsMain (argv : List CStr) (opts : List Opt) (target : Target) (options : Options)
    (device_blocks : ℕ → ℕ) (sb_time sinodes_time : ℕ) : Outcome × Option Written :=
  match parseOpts argv opts target with
  | .ret rc =>
    if rc < 0 then (.ret rc, none)
    else
      let bc := computeValues options device_blocks
      if options.has (optXBlocks ||| optXItems) then (.exit 0, none)
      else
        match buildFilesystem bc sb_time sinodes_time with
        | none => (.undefined, none)
        | some w => (.ret 0, some w)
  | outcome => (outcome, none)

/-! ## Acceptable command lines -/

/-- The flag of an option. -/
def Opt.bit : Opt → ℕ
  | .f _ => optF
  | .d _ => optD
  | .i _ => optI
  | .s _ => optS
  | .p _ => optP
  | .k _ => optK
  | .w _ => optW
  | .m _ => optM
  | .v => optV
  | .h => optH
  | .x | .other => 0

/-- The argument of an option. -/
def Opt.arg : Opt → CStr
  | .f optarg | .d optarg | .i optarg | .s optarg | .p optarg | .k optarg | .w optarg
  | .m optarg => optarg
  | .x | .v | .h | .other => ofBuffer []

/-- It is an option, and its argument fits the buffer for it. -/
def Opt.Readable : Opt → Prop
  | .f optarg | .w optarg | .m optarg => strlen optarg < 240
  | .d optarg => strlen optarg < 32
  | .i optarg | .s optarg => strlen optarg < 24
  | .p optarg => strlen optarg < 10
  | .k optarg => strlen optarg < 20
  | .v | .h => True
  | .x | .other => False

instance : (o : Opt) → Decidable o.Readable
  | .f optarg | .w optarg | .m optarg => inferInstanceAs (Decidable (strlen optarg < 240))
  | .d optarg => inferInstanceAs (Decidable (strlen optarg < 32))
  | .i optarg | .s optarg => inferInstanceAs (Decidable (strlen optarg < 24))
  | .p optarg => inferInstanceAs (Decidable (strlen optarg < 10))
  | .k optarg => inferInstanceAs (Decidable (strlen optarg < 20))
  | .v | .h => isTrue trivial
  | .x | .other => isFalse id

/-- What the `switch` does with it is defined: an argument fits its buffer, and there is one where
one is read. -/
def Opt.Fits (o : Opt) : Prop := o.Readable ∨ o = .other

/-- The option with this flag is on the command line. -/
def Given (opts : List Opt) (bit : ℕ) : Prop := ∃ o ∈ opts, o.bit = bit

/-- The argument of the last option with this flag. -/
def lastArg (opts : List Opt) (bit : ℕ) : CStr :=
  opts.foldl (fun s o => if o.bit = bit then o.arg else s) (ofBuffer [])

/-- The command line starts with a command, and its options can be read. -/
structure Readable (cmd : ℕ) (argv : List CStr) (opts : List Opt) : Prop where
  command : ∃ command, argv[1]? = some command ∧ parseCommand command = .ok cmd
  options : ∀ o ∈ opts, o.Readable

/-- The loop over the options comes to an argument that does not fit its buffer, or to `-x`. -/
def Overruns (argv : List CStr) (opts : List Opt) : Prop :=
  ∃ cmd front o rest, Readable cmd argv front ∧ opts = front ++ o :: rest ∧ ¬ o.Fits

/-- What is asked of a command line: its options go together, their numbers are in range, and
there is a file to write to, or a size for a new one. -/
structure Acceptable (cmd : ℕ) (argv : List CStr) (opts : List Opt) (target : Target) : Prop
    extends Readable cmd argv opts where
  no_help : ¬ Given opts optH
  file : Given opts optF
  percentage_alone : Given opts optP → ¬ Given opts optS ∧ ¬ Given opts optI
  sinodes_command : Given opts optI → cmd = cmdKfs ∨ cmd = cmdSis
  slots_command : Given opts optS → cmd = cmdKfs ∨ cmd = cmdMeta
  key : cmd ≠ cmdKfs → Given opts optK
  size : Given opts optD → ∃ n, validateSize (lastArg opts optD) = some n ∧ minFs ≤ n
  percentage : Given opts optP → 2 ≤ toInt32 (validateNum (lastArg opts optP)) ∧
    toInt32 (validateNum (lastArg opts optP)) ≤ 90
  sinodes : Given opts optI → validateNum (lastArg opts optI) ≠ 0
  slots : Given opts optS → validateNum (lastArg opts optS) ≠ 0
  target : if target.stat_rc = 0 then target.is_reg = true ∨ target.is_blk = true
    else Given opts optD

/-! ## The options one by one -/

/-- An option stores its argument. -/
def Opt.store (options : OptionsT) : Opt → OptionsT
  | .f file_name => { options with file_name }
  | .d str_size => { options with str_size }
  | .i str_sinodes_num => { options with str_sinodes_num }
  | .s str_slots_num => { options with str_slots_num }
  | .p str_percentage => { options with str_percentage }
  | .k str_key => { options with str_key }
  | .w conf_file => { options with conf_file }
  | .m metadata_file => { options with metadata_file }
  | .x | .v | .h | .other => options

def flagsOf (cmd : ℕ) (opts : List Opt) : ℕ := opts.foldl (fun flags o => flags ||| o.bit) cmd

def stored (opts : List Opt) : OptionsT := opts.foldl Opt.store .zero

open Checks

section Options

variable {cmd : ℕ} {opts : List Opt} {options options' : OptionsT}

lemma strcpy_eq_ok_iff {len : ℕ} {s t : CStr} : strcpy len s = .ok t ↔ strlen s < len ∧ t = s := by
  unfold strcpy
  split <;> simp_all [eq_comm]

lemma takeOption_eq_ok_iff (r : ℕ × OptionsT) (o : Opt) (r' : ℕ × OptionsT) :
    takeOption r o = .ok r' ↔ o.Readable ∧ r' = (r.1 ||| o.bit, o.store r.2) := by
  obtain ⟨flags, options⟩ := r
  cases o <;> simp only [takeOption, bind_eq_ok, strcpy_eq_ok_iff, pure_eq_ok, reduceCtorEq,
    Opt.Readable, Opt.bit, Opt.store, false_and, true_and, and_assoc, exists_and_left,
    exists_eq_left, eq_comm (b := r')]

/-- The loop over the options. -/
lemma foldlM_takeOption_eq_ok_iff {r : ℕ × OptionsT} :
    opts.foldlM takeOption (cmd, .zero) = .ok r ↔
      (∀ o ∈ opts, o.Readable) ∧ r = (flagsOf cmd opts, stored opts) := by
  rw [foldlM_eq_ok_iff takeOption_eq_ok_iff]
  -- flags and options do not depend on each other
  have hfold : ∀ r : ℕ × OptionsT, opts.foldl (fun r o => (r.1 ||| o.bit, Opt.store r.2 o)) r =
      (flagsOf r.1 opts, opts.foldl Opt.store r.2) := by
    intro r
    induction opts generalizing r with
    | nil => rfl
    | cons o opts ih => exact ih _
  rw [hfold, stored]

/-- A buffer holds the argument of the last option that is stored there. -/
lemma field_stored {field : OptionsT → CStr} {bit : ℕ} (hzero : field .zero = ofBuffer [])
    (h : ∀ options o, field (Opt.store options o) = if o.bit = bit then o.arg else field options) :
    field (stored opts) = lastArg opts bit := by
  rw [stored, lastArg, ← hzero]
  symm
  apply List.foldl_hom
  intro options o
  exact (h options o).symm

lemma str_size_stored : (stored opts).str_size = lastArg opts optD :=
  field_stored rfl fun _ o => by cases o <;> rfl

lemma str_percentage_stored : (stored opts).str_percentage = lastArg opts optP :=
  field_stored rfl fun _ o => by cases o <;> rfl

lemma str_sinodes_num_stored : (stored opts).str_sinodes_num = lastArg opts optI :=
  field_stored rfl fun _ o => by cases o <;> rfl

lemma str_slots_num_stored : (stored opts).str_slots_num = lastArg opts optS :=
  field_stored rfl fun _ o => by cases o <;> rfl

end Options

/-! ## The flags -/

def commands : List ℕ := [cmdKfs, cmdMeta, cmdSis, cmdGraph]

def optMasks : List ℕ := [optV, optH, optF, optD, optI, optS, optP, optW, optM, optK]

section Flags

variable {cmd c mask : ℕ} (opts : List Opt)

lemma mem_commands {command : CStr} (h : parseCommand command = .ok cmd) : cmd ∈ commands := by
  unfold parseCommand at h
  split_ifs at h <;> simp_all [commands]

lemma bit_mem (o : Opt) : o.bit ∈ 0 :: optMasks := by
  cases o <;> simp only [Opt.bit] <;> decide

/-- The flag of an option is set exactly when it is given. -/
lemma given_iff (hcmd : cmd ∈ commands) (hmask : mask ∈ optMasks) :
    flagsOf cmd opts &&& mask ≠ 0 ↔ Given opts mask := by
  have hzero : ∀ cmd ∈ commands, ∀ mask ∈ optMasks, cmd &&& mask = 0 := by decide
  have hbit : ∀ bit ∈ 0 :: optMasks, ∀ mask ∈ optMasks, bit &&& mask ≠ 0 ↔ bit = mask := by decide
  rw [flagsOf, foldl_or_and_ne_zero, or_iff_right (not_not.mpr (hzero cmd hcmd mask hmask))]
  simp only [fun o => hbit _ (bit_mem o) mask hmask, Given]

/-- The flag of a command is set exactly when it is the one that was asked for. -/
lemma command_iff (hcmd : cmd ∈ commands) (hc : c ∈ commands) :
    flagsOf cmd opts &&& c ≠ 0 ↔ cmd = c := by
  have hone : ∀ cmd ∈ commands, ∀ c ∈ commands, cmd &&& c ≠ 0 ↔ cmd = c := by decide
  have hbit : ∀ bit ∈ 0 :: optMasks, ∀ c ∈ commands, bit &&& c = 0 := by decide
  rw [flagsOf, foldl_or_and_ne_zero, hone cmd hcmd c hc]
  simp [fun o => hbit _ (bit_mem o) c hc]

/-- No option sets one of the other flags. -/
lemma flagsOf_and_eq_zero (hcmd : cmd ∈ commands)
    (hmask : mask ∈ [optXBlocks ||| optXItems, mkfsCreateFile]) :
    flagsOf cmd opts &&& mask = 0 := by
  have hzero : ∀ bit ∈ commands ++ 0 :: optMasks,
      ∀ mask ∈ [optXBlocks ||| optXItems, mkfsCreateFile], bit &&& mask = 0 := by decide
  by_contra h
  rw [← ne_eq, flagsOf, foldl_or_and_ne_zero] at h
  rcases h with h | ⟨o, -, ho⟩
  · exact h (hzero cmd (List.mem_append_left _ hcmd) mask hmask)
  · exact ho (hzero o.bit (List.mem_append_right _ (bit_mem o)) mask hmask)

/-- Both flags are set. -/
lemma both_iff {flags a b : ℕ} (ha : a ∈ commands ++ optMasks) (hb : b ∈ commands ++ optMasks) :
    flags &&& (a ||| b) = a ||| b ↔ flags &&& a ≠ 0 ∧ flags &&& b ≠ 0 := by
  have hpow : ∀ a ∈ commands ++ optMasks, a = 2 ^ a.log2 := by decide
  rw [hpow a ha, hpow b hb]
  exact and_or_two_pow

/-- The command always counts among the flags, so `-v` is never alone. -/
lemma and_optV_ne (hcmd : cmd ∈ commands) : flagsOf cmd opts &&& optV ≠ flagsOf cmd opts := by
  intro h
  have hzero : ∀ cmd ∈ commands, optV &&& cmd = 0 := by decide
  refine (command_iff opts hcmd hcmd).mpr rfl ?_
  rw [← h, Nat.and_assoc, hzero cmd hcmd, Nat.and_zero]

/-- The combinations of options that are not refused. -/
lemma not_invalidCombination_iff (hcmd : cmd ∈ commands) :
    ¬ InvalidCombination (flagsOf cmd opts) ↔ ¬ Given opts optH ∧
      (Given opts optP → ¬ Given opts optS ∧ ¬ Given opts optI) ∧
      (Given opts optI → cmd = cmdKfs ∨ cmd = cmdSis) ∧
      (Given opts optS → cmd = cmdKfs ∨ cmd = cmdMeta) ∧ (cmd ≠ cmdKfs → Given opts optK) := by
  have hgiven : ∀ mask ∈ optMasks, flagsOf cmd opts &&& mask ≠ 0 ↔ Given opts mask :=
    fun _ hmask => given_iff opts hcmd hmask
  have hcommand : ∀ c ∈ commands, flagsOf cmd opts &&& c ≠ 0 ↔ cmd = c :=
    fun _ hc => command_iff opts hcmd hc
  have hother : flagsOf cmd opts &&& (cmdMeta ||| cmdGraph ||| cmdSis) ≠ 0 ↔
      (cmd = cmdMeta ∨ cmd = cmdGraph) ∨ cmd = cmdSis := by
    rw [Nat.and_comm, or_and_ne_zero, or_and_ne_zero]
    simp only [Nat.and_comm _ (flagsOf cmd opts)]
    rw [hcommand _ (by decide), hcommand _ (by decide), hcommand _ (by decide)]
  have hkey : flagsOf cmd opts &&& optK = 0 ↔ ¬ Given opts optK := by
    rw [← hgiven _ (by decide), not_not]
  unfold InvalidCombination
  rw [both_iff (by decide) (by decide), both_iff (by decide) (by decide),
    both_iff (by decide) (by decide), both_iff (by decide) (by decide),
    both_iff (by decide) (by decide), both_iff (by decide) (by decide), hother, hkey,
    hgiven optH (by decide), hgiven optP (by decide), hgiven optS (by decide),
    hgiven optI (by decide), hcommand cmdMeta (by decide), hcommand cmdGraph (by decide),
    hcommand cmdSis (by decide)]
  have hv := and_optV_ne opts hcmd
  -- one command at a time
  simp only [commands, List.mem_cons, List.not_mem_nil, or_false] at hcmd
  rcases hcmd with rfl | rfl | rfl | rfl <;>
    simp [cmdKfs, cmdMeta, cmdSis, cmdGraph] <;> tauto

end Flags

/-! ## The numbers and the file -/

namespace OptionsT

variable (options : OptionsT) (target : Target)

def withFlags (flags : ℕ) : OptionsT := { options with flags }

def withSize : OptionsT :=
  { options with size :=
      if options.has optD then (validateSize options.str_size).getD 0 else options.size }

def withPercentage : OptionsT :=
  { options with percentage :=
      if options.has optP then (toInt32 (validateNum options.str_percentage)).toNat
      else mkfsDefaultPercentage }

def withSinodesNum : OptionsT :=
  { options with sinodes_num :=
      if options.has optI then validateNum options.str_sinodes_num else options.sinodes_num }

def withSlotsNum : OptionsT :=
  { options with slots_num :=
      if options.has optS then validateNum options.str_slots_num else options.slots_num }

/-- The size that a file has, if it is there. -/
def targetSize : ℕ :=
  if target.is_blk then target.bd_size
  else if target.is_reg = true ∧ target.st_size > 0 then ofInt64 target.st_size
  else options.size

/-- The flags that a file that is there leads to. -/
def targetFlags (flags : ℕ) : ℕ :=
  let flags := if target.is_reg then flags ||| mkfsIsRegularFile else flags
  let flags := if target.is_blk then flags ||| mkfsIsBlockdevice else flags
  flags ||| optS

def withTarget : OptionsT :=
  if target.stat_rc ≠ 0 then
    options.withFlags (options.flags ||| mkfsCreateFile ||| mkfsIsRegularFile)
  else { options with
    size := targetSize options target
    flags := targetFlags target options.flags }

end OptionsT

section Steps

variable {options options' : OptionsT} {target : Target} {flags : ℕ}

lemma checkFlags_eq_ok_iff (hx : flags &&& (optXBlocks ||| optXItems) = 0) :
    checkFlags flags options = .ok options' ↔
      flags &&& optH = 0 ∧ flags &&& optF ≠ 0 ∧ ¬ InvalidCombination flags ∧
        options' = options.withFlags flags := by
  simp only [checkFlags, hx, true_and, ite_error_eq_ok, not_not, ne_eq, Except.ok.injEq,
    OptionsT.withFlags, eq_comm (b := options')]

lemma readSize_eq_ok_iff : readSize options = .ok options' ↔
    (options.has optD → ∃ n, validateSize options.str_size = some n ∧ minFs ≤ n) ∧
      options' = options.withSize := by
  unfold readSize
  by_cases hd : options.has optD
  · simp only [hd, if_true, OptionsT.withSize, forall_const]
    cases validateSize options.str_size with
    | none => simp
    | some n =>
      have hmin : ¬ n = 0 ∧ ¬ n < minFs ↔ minFs ≤ n := by
        unfold minFs
        omega
      rw [ite_error_eq_ok, ite_error_eq_ok, ← and_assoc, hmin]
      simp [eq_comm (b := options')]
  · simp [hd, OptionsT.withSize, eq_comm (b := options')]

lemma readPercentage_eq_ok_iff : readPercentage options = .ok options' ↔
    (options.has optP → 2 ≤ toInt32 (validateNum options.str_percentage) ∧
      toInt32 (validateNum options.str_percentage) ≤ 90) ∧ options' = options.withPercentage := by
  unfold readPercentage
  by_cases hp : options.has optP
  · simp only [hp, if_true, ite_error_eq_ok, not_or, not_lt, forall_const, Except.ok.injEq,
      OptionsT.withPercentage, eq_comm (b := options')]
  · simp [hp, OptionsT.withPercentage, eq_comm (b := options')]

lemma readSinodesNum_eq_ok_iff : readSinodesNum options = .ok options' ↔
    (options.has optI → validateNum options.str_sinodes_num ≠ 0) ∧
      options' = options.withSinodesNum := by
  unfold readSinodesNum
  by_cases hi : options.has optI
  · simp [hi, OptionsT.withSinodesNum, eq_comm (b := options')]
  · simp [hi, OptionsT.withSinodesNum, eq_comm (b := options')]

lemma readSlotsNum_eq_ok_iff : readSlotsNum options = .ok options' ↔
    (options.has optS → validateNum options.str_slots_num ≠ 0) ∧
      options' = options.withSlotsNum := by
  unfold readSlotsNum
  by_cases hs : options.has optS
  · simp [hs, OptionsT.withSlotsNum, eq_comm (b := options')]
  · simp [hs, OptionsT.withSlotsNum, eq_comm (b := options')]

lemma readTarget_eq_ok_iff (hx : options.flags &&& (optXBlocks ||| optXItems) = 0) :
    readTarget target options = .ok options' ↔
      (target.stat_rc = 0 → target.is_reg = true ∨ target.is_blk = true) ∧
        options' = options.withTarget target := by
  have hitems : options.flags &&& optXItems = 0 := by
    rw [Nat.and_or_distrib_left, Nat.or_eq_zero_iff] at hx
    exact hx.2
  rw [readTarget, if_neg (not_not.mpr hx)]
  by_cases hstat : target.stat_rc = 0
  · rcases hr : target.is_reg <;> rcases hb : target.is_blk <;> by_cases hsize : target.st_size > 0
    all_goals
      simp [hstat, hr, hb, hsize, OptionsT.withTarget, OptionsT.addFlag, OptionsT.targetSize,
        OptionsT.targetFlags, eq_comm (b := options')]
  · simp [hstat, hitems, OptionsT.withTarget, OptionsT.withFlags, OptionsT.addFlag,
      eq_comm (b := options')]

lemma checkCreate_eq_ok_iff : checkCreate options = .ok options' ↔
    (options.has mkfsCreateFile → options.has optD) ∧ options' = options := by
  simp [checkCreate, eq_comm (b := options')]

end Steps

/-! ## What parse_opts accepts -/

/-- What `parse_opts` has in its variable in the end. -/
def finalOptions (cmd : ℕ) (opts : List Opt) (target : Target) : OptionsT :=
  ((stored opts).withFlags (flagsOf cmd opts)).withSize.withPercentage.withSinodesNum.withSlotsNum
    |>.withTarget target

section Accept

variable {cmd mask : ℕ} {argv : List CStr} {opts : List Opt} {target : Target}
  {options : OptionsT}

lemma has_iff (hcmd : cmd ∈ commands) (hmask : mask ∈ optMasks)
    (hflags : options.flags = flagsOf cmd opts) : options.has mask = true ↔ Given opts mask := by
  rw [Options.has, decide_eq_true_iff, hflags, given_iff opts hcmd hmask]

/-- The flags that the file leads to are none of the others. -/
lemma targetFlags_and_ne_zero {flags : ℕ} (hmask : mask ∈ commands ++ mkfsCreateFile :: optMasks) :
    OptionsT.targetFlags target flags &&& mask ≠ 0 ↔ flags &&& mask ≠ 0 ∨ mask = optS := by
  have hzero : ∀ mask ∈ commands ++ mkfsCreateFile :: optMasks,
      mkfsIsRegularFile &&& mask = 0 ∧ mkfsIsBlockdevice &&& mask = 0 := by decide
  have hs : ∀ mask ∈ commands ++ mkfsCreateFile :: optMasks, optS &&& mask ≠ 0 ↔ mask = optS := by
    decide
  rw [OptionsT.targetFlags, or_and_ne_zero, hs mask hmask]
  have hregular := (hzero mask hmask).1
  have hblock := (hzero mask hmask).2
  split_ifs <;> simp [Nat.and_or_distrib_right, hregular, hblock]

/-- A file is to be created exactly when there is none. -/
lemma has_create_iff (hcmd : cmd ∈ commands) (hflags : options.flags = flagsOf cmd opts) :
    (options.withTarget target).has mkfsCreateFile = true ↔ target.stat_rc ≠ 0 := by
  have hno := flagsOf_and_eq_zero opts hcmd (List.mem_cons_of_mem _ List.mem_cons_self)
  rw [Options.has, decide_eq_true_iff, OptionsT.withTarget]
  by_cases hstat : target.stat_rc = 0
  · rw [if_neg (not_not.mpr hstat), targetFlags_and_ne_zero (by decide), hflags, hno]
    simp [hstat, mkfsCreateFile, optS]
  · rw [if_pos hstat, OptionsT.withFlags, or_and_ne_zero, or_and_ne_zero]
    simp [hstat, mkfsCreateFile]

/-- Of the commands and options, a file that is there adds `-s`, and a new one none. -/
lemma has_withTarget_iff (hflags : options.flags = flagsOf cmd opts)
    (hmask : mask ∈ commands ++ optMasks) : (options.withTarget target).has mask = true ↔
      flagsOf cmd opts &&& mask ≠ 0 ∨ target.stat_rc = 0 ∧ mask = optS := by
  have hmem : mask ∈ commands ++ mkfsCreateFile :: optMasks := by
    rcases List.mem_append.mp hmask with h | h
    · exact List.mem_append_left _ h
    · exact List.mem_append_right _ (List.mem_cons_of_mem _ h)
  rw [Options.has, decide_eq_true_iff, OptionsT.withTarget]
  by_cases hstat : target.stat_rc = 0
  · rw [if_neg (not_not.mpr hstat), targetFlags_and_ne_zero hmem, hflags]
    simp [hstat]
  · have hzero : ∀ mask ∈ commands ++ optMasks,
        mkfsCreateFile &&& mask = 0 ∧ mkfsIsRegularFile &&& mask = 0 := by decide
    rw [if_pos hstat, OptionsT.withFlags, or_and_ne_zero, or_and_ne_zero, hflags]
    simp [hstat, hzero mask hmask]

/-- The command line is read: the command, then the options. -/
lemma readable_iff {r : ℕ × OptionsT} :
    Readable cmd argv opts ∧ r = (flagsOf cmd opts, stored opts) ↔
      ∃ command, argv[1]? = some command ∧ parseCommand command = .ok cmd ∧
        opts.foldlM takeOption (cmd, .zero) = .ok r := by
  rw [foldlM_takeOption_eq_ok_iff]
  constructor
  · rintro ⟨⟨⟨command, hargv, hcmd⟩, hall⟩, hr⟩
    exact ⟨command, hargv, hcmd, hall, hr⟩
  · rintro ⟨command, hargv, hcmd, hall, hr⟩
    exact ⟨⟨⟨command, hargv, hcmd⟩, hall⟩, hr⟩

lemma parseOptions_eq_ok : parseOptions argv opts target = .ok options ↔
    ∃ cmd, Readable cmd argv opts ∧
      checkOptions target (flagsOf cmd opts, stored opts) = .ok options := by
  have hsplit : parseOptions argv opts target = .ok options ↔
      ∃ command, argv[1]? = some command ∧ ∃ cmd, parseCommand command = .ok cmd ∧
        ∃ r, opts.foldlM takeOption (cmd, .zero) = .ok r ∧ checkOptions target r = .ok options := by
    unfold parseOptions
    cases argv[1]? with
    | none => simp
    | some command =>
      simp only [bind_eq_ok, Except.ok.injEq, exists_eq_left', Option.some.injEq]
  rw [hsplit]
  constructor
  · rintro ⟨command, hargv, cmd, hcmd, r, hr, hchecks⟩
    obtain ⟨hread, rfl⟩ := readable_iff.mpr ⟨command, hargv, hcmd, hr⟩
    exact ⟨cmd, hread, hchecks⟩
  · rintro ⟨cmd, hread, hchecks⟩
    obtain ⟨command, hargv, hcmd, hr⟩ := readable_iff.mp ⟨hread, rfl⟩
    exact ⟨command, hargv, cmd, hcmd, _, hr, hchecks⟩

/-- The checks, each about the command line as it was given. -/
lemma checkOptions_eq_ok_iff (hcmd : cmd ∈ commands) :
    checkOptions target (flagsOf cmd opts, stored opts) = .ok options ↔
      (¬ Given opts optH ∧ Given opts optF ∧ ¬ InvalidCombination (flagsOf cmd opts) ∧
        (Given opts optD → ∃ n, validateSize (lastArg opts optD) = some n ∧ minFs ≤ n) ∧
        (Given opts optP → 2 ≤ toInt32 (validateNum (lastArg opts optP)) ∧
          toInt32 (validateNum (lastArg opts optP)) ≤ 90) ∧
        (Given opts optI → validateNum (lastArg opts optI) ≠ 0) ∧
        (Given opts optS → validateNum (lastArg opts optS) ≠ 0) ∧
        (target.stat_rc = 0 → target.is_reg = true ∨ target.is_blk = true) ∧
        (target.stat_rc ≠ 0 → Given opts optD)) ∧ options = finalOptions cmd opts target := by
  have hx := flagsOf_and_eq_zero opts hcmd List.mem_cons_self
  let base := (stored opts).withFlags (flagsOf cmd opts)
  have hflags : base.flags = flagsOf cmd opts := rfl
  have hhelp := given_iff opts hcmd (show optH ∈ optMasks by decide)
  have hfile := given_iff opts hcmd (show optF ∈ optMasks by decide)
  have hd := has_iff hcmd (show optD ∈ optMasks by decide) hflags
  have hp := has_iff hcmd (show optP ∈ optMasks by decide) hflags
  have hi := has_iff hcmd (show optI ∈ optMasks by decide) hflags
  have hs := has_iff hcmd (show optS ∈ optMasks by decide) hflags
  -- the file does not change whether a size was given
  have hd' : (base.withSize.withPercentage.withSinodesNum.withSlotsNum.withTarget target).has optD =
      true ↔ base.has optD = true := by
    rw [has_withTarget_iff rfl (by decide), hd, given_iff opts hcmd (by decide)]
    simp [optD, optS]
  rw [← hd, ← hp, ← hi, ← hs, ← hhelp, ← hfile, not_not, ← str_size_stored, ← str_percentage_stored,
    ← str_sinodes_num_stored, ← str_slots_num_stored]
  simp only [checkOptions, bind_eq_ok]
  constructor
  · rintro ⟨o₁, h₁, o₂, h₂, o₃, h₃, o₄, h₄, o₅, h₅, o₆, h₆, h₇⟩
    obtain ⟨hno, hf, hcombination, rfl⟩ := (checkFlags_eq_ok_iff hx).mp h₁
    obtain ⟨hsize, rfl⟩ := readSize_eq_ok_iff.mp h₂
    obtain ⟨hpercentage, rfl⟩ := readPercentage_eq_ok_iff.mp h₃
    obtain ⟨hsinodes, rfl⟩ := readSinodesNum_eq_ok_iff.mp h₄
    obtain ⟨hslots, rfl⟩ := readSlotsNum_eq_ok_iff.mp h₅
    obtain ⟨htarget, rfl⟩ := (readTarget_eq_ok_iff hx).mp h₆
    obtain ⟨hcreate, rfl⟩ := checkCreate_eq_ok_iff.mp h₇
    rw [has_create_iff hcmd rfl, hd'] at hcreate
    exact ⟨⟨hno, hf, hcombination, hsize, hpercentage, hsinodes, hslots, htarget, hcreate⟩, rfl⟩
  · rintro ⟨⟨hno, hf, hcombination, hsize, hpercentage, hsinodes, hslots, htarget, hcreate⟩, rfl⟩
    refine ⟨_, (checkFlags_eq_ok_iff hx).mpr ⟨hno, hf, hcombination, rfl⟩,
      _, readSize_eq_ok_iff.mpr ⟨hsize, rfl⟩,
      _, readPercentage_eq_ok_iff.mpr ⟨hpercentage, rfl⟩,
      _, readSinodesNum_eq_ok_iff.mpr ⟨hsinodes, rfl⟩,
      _, readSlotsNum_eq_ok_iff.mpr ⟨hslots, rfl⟩,
      _, (readTarget_eq_ok_iff hx).mpr ⟨htarget, rfl⟩,
      checkCreate_eq_ok_iff.mpr ⟨?_, rfl⟩⟩
    rw [has_create_iff hcmd rfl, hd']
    exact hcreate

/-- **The checks of `parse_opts`** pass for the acceptable command lines and for no others. -/
theorem parseOptions_eq_ok_iff : parseOptions argv opts target = .ok options ↔
    ∃ cmd, Acceptable cmd argv opts target ∧ options = finalOptions cmd opts target := by
  rw [parseOptions_eq_ok]
  apply exists_congr
  intro cmd
  constructor
  · rintro ⟨hread, hchecks⟩
    obtain ⟨command, -, hcommand⟩ := hread.command
    have hcmd := mem_commands hcommand
    rw [checkOptions_eq_ok_iff hcmd, not_invalidCombination_iff opts hcmd] at hchecks
    obtain ⟨⟨hno, hf, hcombination, hsize, hpercentage, hsinodes, hslots, hthere, hnew⟩, hfinal⟩ :=
      hchecks
    refine ⟨⟨hread, hno, hf, hcombination.2.1, hcombination.2.2.1, hcombination.2.2.2.1,
      hcombination.2.2.2.2, hsize, hpercentage, hsinodes, hslots, ?_⟩, hfinal⟩
    split_ifs with hstat
    · exact hthere hstat
    · exact hnew hstat
  · rintro ⟨h, hfinal⟩
    obtain ⟨command, -, hcommand⟩ := h.command
    have hcmd := mem_commands hcommand
    have htarget := h.target
    refine ⟨h.toReadable, ?_⟩
    rw [checkOptions_eq_ok_iff hcmd, not_invalidCombination_iff opts hcmd]
    refine ⟨⟨h.no_help, h.file, ⟨h.no_help, h.percentage_alone, h.sinodes_command, h.slots_command,
      h.key⟩, h.size, h.percentage, h.sinodes, h.slots, ?_, ?_⟩, hfinal⟩
    · intro hstat
      rwa [if_pos hstat] at htarget
    · intro hstat
      rwa [if_neg hstat] at htarget

/-- Help is shown when it is asked for and the command line can be read so far. -/
def AsksHelp (argv : List CStr) (opts : List Opt) : Prop :=
  ∃ cmd, Readable cmd argv opts ∧ Given opts optH

end Accept

/-! ## How mkfs ends -/

/-- The ends that are no success. -/
def Outcome.Failure (outcome : Outcome) : Prop := outcome = .exit 1 ∨ outcome = .ret (-1)

section Ends

variable {cmd : ℕ} {argv : List CStr} {opts : List Opt} {target : Target} {options : OptionsT}
  {outcome : Outcome}

lemma strcpy_eq_error {len : ℕ} {s : CStr} (h : strcpy len s = .error outcome) :
    outcome = .undefined ∧ ¬ strlen s < len := by
  unfold strcpy at h
  split_ifs at h with hlen
  exact ⟨(Except.error.inj h).symm, hlen⟩

/-- The loop over the options ends at one that is none, or at one whose argument does not fit. -/
lemma takeOption_eq_error {r : ℕ × OptionsT} {o : Opt} (h : takeOption r o = .error outcome) :
    outcome = .exit 1 ∨ outcome = .undefined ∧ ¬ o.Fits := by
  have hstrcpy : ∀ {len s} {f : CStr → ℕ × OptionsT}, (do
      let s' ← strcpy len s
      return f s' : Except Outcome (ℕ × OptionsT)) = .error outcome →
      outcome = .undefined ∧ ¬ strlen s < len := by
    intro len s f h
    cases hcopy : strcpy len s with
    | error e =>
      rw [hcopy, error_bind, Except.error.injEq] at h
      exact strcpy_eq_error (h ▸ hcopy)
    | ok s' =>
      rw [hcopy] at h
      cases h
  obtain ⟨flags, options⟩ := r
  cases o with
  | x =>
    cases h
    exact .inr ⟨rfl, by simp [Opt.Fits, Opt.Readable]⟩
  | other =>
    cases h
    exact .inl rfl
  | v => cases h
  | h => cases h
  | _ =>
    obtain ⟨rfl, hlen⟩ := hstrcpy h
    exact .inr ⟨rfl, by simpa [Opt.Fits, Opt.Readable] using hlen⟩

/-- An option whose argument does not fit. -/
lemma takeOption_of_not_fits {r : ℕ × OptionsT} {o : Opt} (h : ¬ o.Fits) :
    takeOption r o = .error .undefined := by
  obtain ⟨flags, options⟩ := r
  simp only [Opt.Fits, not_or] at h
  cases o with
  | x => rfl
  | v => exact absurd trivial h.1
  | h => exact absurd trivial h.1
  | other => exact absurd rfl h.2
  | _ =>
    simp only [Opt.Readable] at h
    rw [takeOption, strcpy, if_neg h.1, error_bind]

/-- The size is read where its length fits an `int`. -/
lemma errs_readSize (hsize : strlen options.str_size < 32) :
    Errs Outcome.Failure (readSize options) := by
  unfold readSize
  split
  · cases hread : validateSize options.str_size with
    | none =>
      simp only [validateSize, toInt32_of_lt (hsize.trans (by decide))] at hread
      split_ifs at hread
      omega
    | some size =>
      dsimp only
      split_ifs
      · exact errs_error (.inr rfl)
      · exact errs_error (.inr rfl)
      · exact errs_ok _
  · exact errs_ok _

lemma errs_readPercentage (options : OptionsT) : Errs Outcome.Failure (readPercentage options) := by
  unfold readPercentage
  dsimp only
  split_ifs
  · exact errs_error (.inr rfl)
  · exact errs_ok _
  · exact errs_ok _

lemma errs_readSinodesNum (options : OptionsT) :
    Errs Outcome.Failure (readSinodesNum options) := by
  unfold readSinodesNum
  dsimp only
  split_ifs
  · exact errs_error (.inr rfl)
  · exact errs_ok _
  · exact errs_ok _

lemma errs_readSlotsNum (options : OptionsT) : Errs Outcome.Failure (readSlotsNum options) := by
  unfold readSlotsNum
  dsimp only
  split_ifs
  · exact errs_error (.inr rfl)
  · exact errs_ok _
  · exact errs_ok _

lemma errs_readTarget (target : Target) (options : OptionsT) :
    Errs Outcome.Failure (readTarget target options) := by
  unfold readTarget
  split_ifs
  · exact errs_ok _
  · exact errs_ok _
  · exact errs_ok _
  · exact errs_error (.inr rfl)
  all_goals exact errs_ok _

lemma errs_checkCreate (options : OptionsT) : Errs Outcome.Failure (checkCreate options) := by
  unfold checkCreate
  split_ifs
  · exact errs_error (.inr rfl)
  · exact errs_ok _

/-- The checks on the flags leave the size alone. -/
lemma checkFlags_str_size {flags : ℕ} {options' : OptionsT}
    (h : checkFlags flags options = .ok options') : options'.str_size = options.str_size := by
  unfold checkFlags at h
  dsimp only at h
  split_ifs at h
  rw [← Except.ok.inj h]

/-- The checks end with success only to show the help. -/
lemma checkOptions_eq_error {r : ℕ × OptionsT} (hsize : strlen r.2.str_size < 32)
    (h : checkOptions target r = .error outcome) :
    outcome = .exit 0 ∧ r.1 &&& optH ≠ 0 ∨ outcome.Failure ∧ r.1 &&& optH = 0 := by
  by_cases hhelp : r.1 &&& optH = 0
  · right
    refine ⟨?_, hhelp⟩
    have hflags : Errs Outcome.Failure (checkFlags r.1 r.2) := by
      unfold checkFlags
      rw [if_neg (not_not.mpr hhelp)]
      dsimp only
      split_ifs
      · exact errs_error (.inl rfl)
      · exact errs_error (.inl rfl)
      · exact errs_ok _
    have hchecks : Errs Outcome.Failure (checkOptions target r) :=
      hflags.bind fun options hoptions =>
        (errs_readSize (checkFlags_str_size hoptions ▸ hsize)).bind fun options _ =>
          (errs_readPercentage options).bind fun options _ =>
            (errs_readSinodesNum options).bind fun options _ =>
              (errs_readSlotsNum options).bind fun options _ =>
                (errs_readTarget target options).bind fun options _ => errs_checkCreate options
    exact hchecks outcome h
  · left
    refine ⟨?_, hhelp⟩
    rw [checkOptions, checkFlags, if_pos hhelp] at h
    cases h
    rfl

/-- The argument of `-d` fits its buffer. -/
lemma str_size_lt (h : ∀ o ∈ opts, o.Readable) : strlen (stored opts).str_size < 32 := by
  have hstore : ∀ options : OptionsT, strlen options.str_size < 32 →
      strlen (opts.foldl Opt.store options).str_size < 32 := by
    induction opts with
    | nil => exact fun _ h => h
    | cons o opts ih =>
      intro options hoptions
      rw [List.forall_mem_cons] at h
      refine ih h.2 _ ?_
      cases o with
      | d str_size => exact h.1
      | _ => exact hoptions
  exact hstore _ (by decide)

/-- Help is shown when it is asked for. -/
lemma parseOptions_of_help (h : AsksHelp argv opts) :
    parseOptions argv opts target = .error (.exit 0) := by
  obtain ⟨cmd, hread, hhelp⟩ := h
  obtain ⟨command, hargv, hcommand, hr⟩ := readable_iff.mp ⟨hread, rfl⟩
  have hflag : flagsOf cmd opts &&& optH ≠ 0 :=
    (given_iff opts (mem_commands hcommand) (by decide)).mpr hhelp
  have hchecks : checkOptions target (flagsOf cmd opts, stored opts) = .error (.exit 0) := by
    rw [checkOptions, checkFlags, if_pos hflag]
    rfl
  simp only [parseOptions, hargv, hcommand, hr, ok_bind, hchecks]

/-- Where the checks of `parse_opts` end, help was asked for or something is wrong. -/
lemma parseOptions_eq_error (h : parseOptions argv opts target = .error outcome) :
    outcome = .exit 0 ∧ AsksHelp argv opts ∨ outcome.Failure ∨
      outcome = .undefined ∧ Overruns argv opts := by
  unfold parseOptions at h
  cases hargv : argv[1]? with
  | none =>
    rw [hargv] at h
    cases h
    exact .inr (.inl (.inl rfl))
  | some command =>
    cases hcommand : parseCommand command with
    | error e =>
      have he : e = .exit 1 := by
        unfold parseCommand at hcommand
        split_ifs at hcommand
        simpa using hcommand.symm
      simp only [hargv, hcommand, ok_bind, error_bind, Except.error.injEq] at h
      exact .inr (.inl (.inl (h.symm.trans he)))
    | ok cmd =>
      cases hr : opts.foldlM takeOption (cmd, OptionsT.zero) with
      | error e =>
        simp only [hargv, hcommand, hr, ok_bind, error_bind, Except.error.injEq] at h
        subst h
        obtain ⟨front, o, rest, r, hopts, hfront, ho⟩ := foldlM_eq_error hr
        obtain ⟨hread, -⟩ := readable_iff.mpr ⟨command, hargv, hcommand, hfront⟩
        rcases takeOption_eq_error ho with hexit | ⟨hundef, hfits⟩
        · exact .inr (.inl (.inl hexit))
        · exact .inr (.inr ⟨hundef, cmd, front, o, rest, hread, hopts, hfits⟩)
      | ok r =>
        simp only [hargv, hcommand, hr, ok_bind] at h
        obtain ⟨hread, rfl⟩ := readable_iff.mpr ⟨command, hargv, hcommand, hr⟩
        rcases checkOptions_eq_error (str_size_lt hread.options) h with ⟨hexit, hflag⟩ | ⟨hfail, -⟩
        · have hgiven := (given_iff opts (mem_commands hcommand) (by decide)).mp hflag
          exact .inl ⟨hexit, cmd, hread, hgiven⟩
        · exact .inr (.inl hfail)

lemma not_failure_exit_zero : ¬ Outcome.Failure (.exit 0) := by
  simp [Outcome.Failure]

/-- The command lines without a defined end: an argument that does not fit is copied all the
same. -/
theorem parseOpts_eq_undefined_iff :
    parseOpts argv opts target = .undefined ↔ Overruns argv opts := by
  unfold parseOpts
  constructor
  · intro h
    cases hparse : parseOptions argv opts target with
    | ok options =>
      rw [hparse] at h
      cases h
    | error outcome =>
      rw [hparse] at h
      obtain rfl : outcome = .undefined := h
      rcases parseOptions_eq_error hparse with ⟨h, -⟩ | (h | h) | ⟨-, hover⟩
      · cases h
      · cases h
      · cases h
      · exact hover
  · rintro ⟨cmd, front, o, rest, hread, rfl, hfits⟩
    obtain ⟨command, hargv, hcommand, hr⟩ := readable_iff.mp ⟨hread, rfl⟩
    have hloop : (front ++ o :: rest).foldlM takeOption (cmd, OptionsT.zero) =
        .error .undefined := by
      rw [List.foldlM_append, hr, ok_bind, List.foldlM_cons, takeOption_of_not_fits hfits,
        error_bind]
    simp only [parseOptions, hargv, hcommand, ok_bind, hloop, error_bind]

/-- All ends of `parse_opts` where the arguments fit: success for help and for an acceptable command
line, else one of the failures. -/
lemma parseOpts_cases (target : Target) (hfits : ¬ Overruns argv opts) :
    (parseOpts argv opts target = .exit 0 ∧
        (AsksHelp argv opts ∨ ∃ cmd, Acceptable cmd argv opts target)) ∨
      ((parseOpts argv opts target).Failure ∧
        ¬ (AsksHelp argv opts ∨ ∃ cmd, Acceptable cmd argv opts target)) := by
  unfold parseOpts
  cases h : parseOptions argv opts target with
  | ok options =>
    obtain ⟨cmd, hcmd, -⟩ := parseOptions_eq_ok_iff.mp h
    exact .inl ⟨rfl, .inr ⟨cmd, hcmd⟩⟩
  | error outcome =>
    rcases parseOptions_eq_error h with ⟨rfl, hhelp⟩ | hfail | ⟨-, hover⟩
    · exact .inl ⟨rfl, .inl hhelp⟩
    · refine .inr ⟨hfail, ?_⟩
      rintro (hhelp | ⟨cmd, hcmd⟩)
      · rw [parseOptions_of_help hhelp] at h
        cases h
        exact not_failure_exit_zero hfail
      · rw [parseOptions_eq_ok_iff.mpr ⟨cmd, hcmd, rfl⟩] at h
        cases h
    · exact absurd hover hfits

/-- **How mkfs ends** where the arguments fit their buffers: with success for an acceptable command
line and when help is asked for, else with a failure, and in either case nothing is written: behind
its last check `parse_opts` does not return. -/
theorem mkfs_outcome (argv : List CStr) (opts : List Opt) (target : Target) (options : Options)
    (device_blocks : ℕ → ℕ) (sb_time sinodes_time : ℕ) (hfits : ¬ Overruns argv opts) :
    ((mkfsMain argv opts target options device_blocks sb_time sinodes_time).1 = .exit 0 ↔
        AsksHelp argv opts ∨ ∃ cmd, Acceptable cmd argv opts target) ∧
      ((mkfsMain argv opts target options device_blocks sb_time sinodes_time).1 ≠ .exit 0 →
        (mkfsMain argv opts target options device_blocks sb_time sinodes_time).1.Failure) ∧
      (mkfsMain argv opts target options device_blocks sb_time sinodes_time).2 = none := by
  have hmain : mkfsMain argv opts target options device_blocks sb_time sinodes_time =
      (parseOpts argv opts target, none) := by
    rcases parseOpts_cases target hfits with ⟨hexit, -⟩ | ⟨hfail | hfail, -⟩
    all_goals simp [mkfsMain, *]
  rw [hmain]
  rcases parseOpts_cases target hfits with ⟨hexit, hyes⟩ | ⟨hfail, hno⟩
  · exact ⟨iff_of_true hexit hyes, fun h => absurd hexit h, rfl⟩
  · refine ⟨iff_of_false ?_ hno, fun _ => hfail, rfl⟩
    intro hexit
    exact not_failure_exit_zero (hexit ▸ hfail)

/-- Options that all fit. -/
lemma not_overruns (h : ∀ o ∈ opts, o.Fits) : ¬ Overruns argv opts := by
  rintro ⟨cmd, front, o, rest, -, rfl, hfits⟩
  exact hfits (h o (by simp))

/-- `mkfs kfs -f x -d 100M -p 50` -/
def argvKfs : List CStr := [ofChars "mkfs", ofChars "kfs"]

def optsKfs : List Opt := [.f (ofChars "x"), .d (ofChars "100M"), .p (ofChars "50")]

/-- There is no such file. -/
def absent : Target := ⟨-1, false, false, 0, 0⟩

theorem mkfs_outcome_kfs :
    ((mkfsMain argvKfs optsKfs absent OptionsT.zero.toOptions (fun _ => 0) 0 0).1 = .exit 0 ↔
        AsksHelp argvKfs optsKfs ∨ ∃ cmd, Acceptable cmd argvKfs optsKfs absent) ∧
      ((mkfsMain argvKfs optsKfs absent OptionsT.zero.toOptions (fun _ => 0) 0 0).1 ≠ .exit 0 →
        (mkfsMain argvKfs optsKfs absent OptionsT.zero.toOptions (fun _ => 0) 0 0).1.Failure) ∧
      (mkfsMain argvKfs optsKfs absent OptionsT.zero.toOptions (fun _ => 0) 0 0).2 = none := by
  refine mkfs_outcome argvKfs optsKfs absent OptionsT.zero.toOptions (fun _ => 0) 0 0
    (not_overruns ?_)
  simp only [optsKfs, List.forall_mem_cons]
  exact ⟨.inl (by decide), .inl (by decide), .inl (by decide), by simp⟩

end Ends

end KanekFs.Mkfs
