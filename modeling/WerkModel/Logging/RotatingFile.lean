import WerkModel.Lib.Lines
import WerkModel.Lib.System

-- A log file that is rotated when it gets too long. Each access to the disk may fail, and the writer
-- goes on with the next record.
namespace Logging

abbrev Bytes := List UInt8

def isNewline (byte : UInt8) : Bool :=
  byte = 10

structure RotatingFile where
  -- The log and its retained files, by the number in their names.
  files    : Nat → Option Bytes
  -- Whether the log is open.
  file     : Bool
  bytes    : Nat
  -- What rotations have removed, the oldest first.
  removed  : List Bytes
  -- How many files the rotation has removed that is not finished yet.
  removals : Nat

namespace RotatingFile

structure Config where
  max  : Nat
  keep : Nat

-- The step of a call that fails.
inductive Fault
  | flush
  | remove
  | rename (index : Nat)
  | open
  -- A part of the line is written.
  | write (written : Nat)
  deriving DecidableEq

-- Whether a step has succeeded is returned with what it has left.
abbrev Outcome :=
  RotatingFile × Bool

def Outcome.bind (outcome : Outcome) (next : RotatingFile → Outcome) : Outcome :=
  if outcome.2 then next outcome.1 else outcome

section Write

variable (config : Config) (fault : Option Fault) (s : RotatingFile)

def setFile (index : Nat) (content : Option Bytes) : RotatingFile :=
  { s with files := Function.update s.files index content }

def move (index : Nat) (content : Bytes) : RotatingFile :=
  (s.setFile (index + 1) (some content)).setFile index none

def closeFile : Outcome :=
  ({ s with file := false }, !(s.file && fault = some .flush))

def removeOldest : Outcome :=
  match s.files config.keep with
  | none         => (s, true)
  | some content =>
    if fault = some .remove then
      (s, false)
    else
      ({ s.setFile config.keep none with
          removed := s.removed ++ [content], removals := s.removals + 1 }, true)

-- Renames the files below a number to the next one, from the oldest one to the log itself.
def shift : Nat → RotatingFile → Outcome
  | 0, s         => (s, true)
  | index + 1, s =>
    match s.files index with
    | none         => shift index s
    | some content =>
      if fault = some (.rename index) then (s, false) else shift index (s.move index content)

def finishRotation : RotatingFile :=
  { s with bytes := 0, removals := 0 }

def rotate : Outcome :=
  (((s.closeFile fault).bind (removeOldest config fault)).bind (shift fault config.keep)).bind
    fun s => (s.finishRotation, true)

def openFile : Outcome :=
  if s.file then
    (s, true)
  else if fault = some .open then
    (s, false)
  else
    ({ s.setFile 0 (some ((s.files 0).getD [])) with file := true }, true)

def append (line : Bytes) : RotatingFile :=
  s.setFile 0 (some ((s.files 0).getD [] ++ line))

def writeAll (line : Bytes) : Outcome :=
  match fault with
  | some (.write written) => (s.append (line.take written), false)
  | _                     => ({ s.append line with bytes := s.bytes + line.length }, true)

def exceeds (line : Bytes) : Bool :=
  0 < s.bytes ∧ config.max < s.bytes + line.length

def write (line : Bytes) : Outcome :=
  ((if s.exceeds config line then s.rotate config fault else (s, true)).bind
    (openFile fault)).bind (writeAll fault · line)

end Write

structure Call where
  line  : Bytes
  fault : Option Fault

-- The log as it is opened, with complete lines in all of its files.
def opened (files : Nat → Option Bytes) : RotatingFile where
  files    := Function.update files 0 (some ((files 0).getD []))
  file     := true
  bytes    := ((files 0).getD []).length
  removed  := []
  removals := 0

def writes (config : Config) (files : Nat → Option Bytes) : System RotatingFile Call Bool where
  Init s := s = opened files
  Step s call ok s' := Lines.IsLine isNewline call.line ∧
    (∀ written, call.fault = some (.write written) → written < call.line.length) ∧
    s.write config call.fault call.line = (s', ok)

-- What the files hold from the oldest one on.
def contents (files : Nat → Option Bytes) : Nat → Bytes
  | 0         => []
  | count + 1 => (files count).getD [] ++ contents files count

def log (config : Config) (s : RotatingFile) : Bytes :=
  contents s.files (config.keep + 1)

def acknowledged (h : List (Call × Bool)) : List Bytes :=
  (h.reverse.filter Prod.snd).map fun event => event.1.line

section Contents

theorem contents_succ (files : Nat → Option Bytes) (count : Nat) :
    contents files (count + 1) = (files count).getD [] ++ contents files count :=
  rfl

variable {files files' : Nat → Option Bytes} {count index : Nat} {content : Option Bytes}

theorem contents_congr (h : ∀ index < count, files' index = files index) :
    contents files' count = contents files count := by
  induction count
  case zero => rfl
  case succ count hi =>
    rw [contents_succ, contents_succ, h count (Nat.lt_succ_self _),
      hi fun i hl => h i (Nat.lt_succ_of_lt hl)]

theorem contents_update (h : count ≤ index) :
    contents (Function.update files index content) count = contents files count :=
  contents_congr fun _ hi => Function.update_of_ne (hi.trans_le h).ne _ _

theorem contents_append (line : Bytes) :
    contents (Function.update files 0 (some ((files 0).getD [] ++ line))) (count + 1) =
      contents files (count + 1) ++ line := by
  induction count
  case zero => simp [contents]
  case succ count hi =>
    rw [contents_succ, hi, Function.update_of_ne (Nat.succ_ne_zero _), ←List.append_assoc]
    rfl

end Contents

section Shift

variable {fault : Option Fault} {s s' : RotatingFile} {count : Nat} {ok : Bool}

-- The files below a free number move up to it, and all of them if no step fails. A step that fails
-- leaves the number free, unless the file below it has moved before.
structure Shifted (fault : Option Fault) (count : Nat) (s s' : RotatingFile) (ok : Bool) :
    Prop where
  file     : s'.file = s.file
  bytes    : s'.bytes = s.bytes
  removed  : s'.removed = s.removed
  removals : s'.removals = s.removals
  contents : contents s'.files (count + 1) = contents s.files (count + 1)
  above    : ∀ index > count, s'.files index = s.files index
  moved    : ∀ index content, s'.files index = some content → ∃ index, s.files index = some content
  shifts   : ok = true → s'.files 0 = none
  failed   : ok = false → s'.files 0 = s.files 0 ∧ ∃ index < count,
    fault = some (.rename index) ∧ (s.files index).isSome = true ∧
      (index + 1 = count ∨ s.files (count - 1) = none → s'.files count = none)

theorem shifted (hn : s.files count = none) (h : shift fault count s = (s', ok)) :
    Shifted fault count s s' ok := by
  induction count generalizing s
  case zero =>
    obtain ⟨rfl, rfl⟩ := Prod.mk.inj h
    exact ⟨rfl, rfl, rfl, rfl, rfl, fun _ _ => rfl, fun i _ h => ⟨i, h⟩, fun _ => hn, nofun⟩
  case succ index hi =>
    rw [shift] at h
    split at h
    case h_1 hf =>
      have t := hi hf h
      have hs : s'.files (index + 1) = s.files (index + 1) := t.above _ (Nat.lt_succ_self _)
      refine ⟨t.file, t.bytes, t.removed, t.removals, ?_, fun i hl => t.above i (by omega), t.moved,
        t.shifts, fun ho => ?_⟩
      case refine_1 => rw [contents_succ, t.contents, hs, contents_succ s.files (index + 1)]
      case refine_2 =>
        obtain ⟨hz, i, hl, hf, hm, -⟩ := t.failed ho
        exact ⟨hz, i, Nat.lt_succ_of_lt hl, hf, hm, fun _ => hs.trans hn⟩
    case h_2 content hf =>
      split at h
      case isTrue hfault =>
        obtain ⟨rfl, rfl⟩ := Prod.mk.inj h
        exact ⟨rfl, rfl, rfl, rfl, rfl, fun _ _ => rfl, fun i _ h => ⟨i, h⟩, nofun,
          fun _ => ⟨rfl, index, Nat.lt_succ_self _, hfault, by rw [hf]; rfl, fun _ => hn⟩⟩
      case isFalse =>
        have hone : (s.move index content).files index = none := Function.update_self ..
        have hup : (s.move index content).files (index + 1) = some content :=
          (Function.update_of_ne (Nat.succ_ne_self _) ..).trans (Function.update_self ..)
        have hrest {i} (h₁ : i ≠ index) (h₂ : i ≠ index + 1) :
            (s.move index content).files i = s.files i :=
          (Function.update_of_ne h₁ ..).trans (Function.update_of_ne h₂ ..)
        have t := hi hone h
        have hs : s'.files (index + 1) = some content :=
          (t.above _ (Nat.lt_succ_self _)).trans hup
        refine ⟨t.file, t.bytes, t.removed, t.removals, ?_, fun i hl => ?_, fun i c hc => ?_, t.shifts,
          fun ho => ?_⟩
        case refine_1 =>
          have hb : RotatingFile.contents (s.move index content).files index =
              RotatingFile.contents s.files index :=
            contents_congr fun i hl => hrest hl.ne (by omega)
          rw [contents_succ, t.contents, hs, contents_succ, hone, hb, contents_succ s.files,
            hn, contents_succ s.files, hf]
          rfl
        case refine_2 => rw [t.above i (by omega), hrest (by omega) (by omega)]
        case refine_3 =>
          obtain ⟨j, hj⟩ := t.moved i c hc
          by_cases h₁ : j = index
          case pos => rw [h₁, hone] at hj; nomatch hj
          case neg =>
            by_cases h₂ : j = index + 1
            case pos => rw [h₂, hup] at hj; exact ⟨index, hf.trans hj⟩
            case neg => exact ⟨j, hrest h₁ h₂ ▸ hj⟩
        case refine_4 =>
          obtain ⟨hz, i, hl, hfault, hm, -⟩ := t.failed ho
          refine ⟨hz.trans (hrest (by omega) (by omega)), i, by omega, hfault,
            hrest hl.ne (by omega) ▸ hm, fun hc => ?_⟩
          rw [Nat.add_sub_cancel, hf] at hc
          obtain hc | hc := hc
          · omega
          · nomatch hc

end Shift
-- What holds between two calls, and what a call writes.
section Calls

variable {config : Config} {fault : Option Fault} {s s' : RotatingFile} {ok : Bool} {line : Bytes}

-- What a step establishes, whether it succeeds or fails.
def Outcome.Meets (outcome : Outcome) (Q E : RotatingFile → Prop) : Prop :=
  (outcome.2 = true → Q outcome.1) ∧ (outcome.2 = false → E outcome.1)

theorem Outcome.Meets.bind {outcome : Outcome} {next : RotatingFile → Outcome}
    {Q R E : RotatingFile → Prop} (h : outcome.Meets Q E) (hn : ∀ s, Q s → (next s).Meets R E) :
    (outcome.bind next).Meets R E := by
  rw [Outcome.bind]
  split
  case isTrue ho  => exact hn outcome.1 (h.left ho)
  case isFalse ho => exact ⟨fun h => absurd h ho, h.right⟩

structure Consistent (config : Config) (s : RotatingFile) : Prop where
  ended    : ∀ index content, s.files index = some content → Lines.Ended isNewline content
  removed  : ∀ content ∈ s.removed, Lines.Ended isNewline content
  short    : ∀ index content, s.files index = some content →
    content.length ≤ config.max ∨ (Lines.cut isNewline content).length ≤ 1
  kept     : ∀ index > config.keep, s.files index = none
  bytes    : s.bytes = ((s.files 0).getD []).length
  -- A rotation that has removed the oldest file is not finished, and has left its number free.
  removals : s.removals = 0 ∨ s.removals = 1 ∧ s.files config.keep = none

def total (config : Config) (s : RotatingFile) : Bytes :=
  s.removed.flatten ++ s.log config

-- The step that fails leaves no part of the line, and no rotation half done that has already moved a
-- file to the oldest number.
def Harmless (config : Config) (s : RotatingFile) (call : Call) : Prop :=
  match call.fault with
  | some (.write written) => written = 0
  | some (.rename index)  => s.exceeds config call.line = true → (s.files index).isSome = true →
    index + 1 < config.keep → s.files (config.keep - 1) = none
  | _                     => True

theorem Consistent.of_files (c : Consistent config s) (hb : s'.bytes = ((s'.files 0).getD []).length)
    (hr : s'.removed = s.removed) (hk : ∀ index > config.keep, s'.files index = none)
    (hm : ∀ index content, s'.files index = some content →
      ∃ index, s.files index = some content)
    (ho : s'.removals = 0 ∨ s'.removals = 1 ∧ s'.files config.keep = none) :
    Consistent config s' where
  ended index content hc := (hm index content hc).elim fun index hc => c.ended index content hc
  removed  := hr ▸ c.removed
  short index content hc := (hm index content hc).elim fun index hc => c.short index content hc
  kept     := hk
  bytes    := hb
  removals := ho

theorem removeOldest_spec (hk : 0 < config.keep) (c : Consistent config s)
    (h : removeOldest config fault s = (s', ok)) :
    Consistent config s' ∧ total config s' = total config s ∧ s'.file = s.file ∧
      (∀ index ≠ config.keep, s'.files index = s.files index) ∧
      (ok = true → s'.files config.keep = none) := by
  rw [removeOldest] at h
  split at h
  case h_1 hf =>
    obtain ⟨rfl, rfl⟩ := Prod.mk.inj h
    exact ⟨c, rfl, rfl, fun _ _ => rfl, fun _ => hf⟩
  case h_2 content hf =>
    split at h
    case isTrue =>
      obtain ⟨rfl, rfl⟩ := Prod.mk.inj h
      exact ⟨c, rfl, rfl, fun _ _ => rfl, nofun⟩
    case isFalse =>
      obtain ⟨rfl, rfl⟩ := Prod.mk.inj h
      have hn : (s.setFile config.keep none).files config.keep = none := Function.update_self ..
      have hrest {index} (hi : index ≠ config.keep) :
          (s.setFile config.keep none).files index = s.files index := Function.update_of_ne hi ..
      have hr : s.removals = 0 := by
        obtain hr | ⟨-, hr⟩ := c.removals
        · exact hr
        · rw [hf] at hr; nomatch hr
      refine ⟨⟨fun index content hc => ?_, fun content hc => ?_, fun index content hc => ?_,
        fun index hi => ?_, ?_, .inr ⟨by rw [hr], hn⟩⟩, ?_, rfl, fun _ => hrest, fun _ => hn⟩
      case refine_1 =>
        by_cases hi : index = config.keep
        case pos => rw [hi] at hc; exact absurd (hn.symm.trans hc) nofun
        case neg => exact c.ended index content (hrest hi ▸ hc)
      case refine_2 =>
        obtain hc | hc := List.mem_append.mp hc
        · exact c.removed content hc
        · exact c.ended config.keep content (List.mem_singleton.mp hc ▸ hf)
      case refine_3 =>
        by_cases hi : index = config.keep
        case pos => rw [hi] at hc; exact absurd (hn.symm.trans hc) nofun
        case neg => exact c.short index content (hrest hi ▸ hc)
      case refine_4 => exact (hrest (by omega)).trans (c.kept index hi)
      case refine_5 => exact c.bytes.trans (by rw [←hrest hk.ne])
      case refine_6 =>
        have hl : log config s = content ++ contents s.files config.keep := by
          rw [log, contents_succ, hf, Option.getD_some]
        have hl' : log config (s.setFile config.keep none) = contents s.files config.keep := by
          rw [log, contents_succ, hn]
          exact contents_update le_rfl
        change (s.removed ++ [content]).flatten ++ log config (s.setFile config.keep none) = _
        rw [hl', total, hl]
        simp

theorem shift_spec (c : Consistent config s)
    (hn : s.files config.keep = none)
    (hh : ∀ index, fault = some (.rename index) → (s.files index).isSome = true →
      index + 1 < config.keep → s.files (config.keep - 1) = none)
    (h : shift fault config.keep s = (s', ok)) :
    total config s' = total config s ∧ s'.file = s.file ∧
      (ok = false → Consistent config s') ∧
      (ok = true → s'.files 0 = none ∧ Consistent config s'.finishRotation) := by
  have t := shifted hn h
  have hkept : ∀ index > config.keep, s'.files index = none := fun index hi =>
    (t.above index hi).trans (c.kept index hi)
  refine ⟨?_, t.file, fun ho => ?_, fun ho => ?_⟩
  case refine_1 => rw [total, total, log, log, t.removed, t.contents]
  case refine_2 =>
    obtain ⟨hz, index, hi, hf, hs, hfree⟩ := t.failed ho
    have hfree : s'.files config.keep = none := by
      refine hfree ?_
      by_cases he : index + 1 = config.keep
      · exact .inl he
      · exact .inr (hh index hf hs (by omega))
    refine c.of_files ?_ t.removed hkept t.moved ?_
    case refine_1 => rw [t.bytes, hz, c.bytes]
    case refine_2 => rw [t.removals]; exact c.removals.imp_right fun hr => ⟨hr.left, hfree⟩
  case refine_3 =>
    have hz := t.shifts ho
    exact ⟨hz, c.of_files (by simp [finishRotation, hz]) t.removed hkept t.moved (.inl rfl)⟩

theorem rotate_spec (hk : 0 < config.keep) (c : Consistent config s)
    (hh : ∀ index, fault = some (.rename index) → (s.files index).isSome = true →
      index + 1 < config.keep → s.files (config.keep - 1) = none) :
    (s.rotate config fault).Meets
      (fun s' => Consistent config s' ∧ total config s' = total config s ∧ s'.bytes = 0)
      (fun s' => Consistent config s' ∧ total config s' = total config s) := by
  have hclose : (s.closeFile fault).Meets
      (fun s' => Consistent config s' ∧ total config s' = total config s ∧ s'.files = s.files)
      (fun s' => Consistent config s' ∧ total config s' = total config s) := by
    have c : Consistent config (s.closeFile fault).1 := ⟨c.ended, c.removed, c.short, c.kept,
      c.bytes, c.removals⟩
    exact ⟨fun _ => ⟨c, rfl, rfl⟩, fun _ => ⟨c, rfl⟩⟩
  have hremove (s₁ : RotatingFile) (h₁ : Consistent config s₁ ∧ total config s₁ = total config s ∧
      s₁.files = s.files) : (s₁.removeOldest config fault).Meets
      (fun s' => (Consistent config s' ∧ s'.files config.keep = none ∧
        ∀ index ≠ config.keep, s'.files index = s.files index) ∧ total config s' = total config s)
      (fun s' => Consistent config s' ∧ total config s' = total config s) := by
    obtain ⟨c, ht, hf⟩ := h₁
    obtain ⟨c, ht', -, hr, hn⟩ := removeOldest_spec hk c (Eq.refl (s₁.removeOldest config fault))
    exact ⟨fun ho => ⟨⟨c, hn ho, hf ▸ hr⟩, ht'.trans ht⟩, fun _ => ⟨c, ht'.trans ht⟩⟩
  have hshift (s₂ : RotatingFile) (h₂ : (Consistent config s₂ ∧ s₂.files config.keep = none ∧
      ∀ index ≠ config.keep, s₂.files index = s.files index) ∧ total config s₂ = total config s) :
      (shift fault config.keep s₂).Meets
      (fun s' => (s'.files 0 = none ∧ Consistent config s'.finishRotation) ∧
        total config s' = total config s)
      (fun s' => Consistent config s' ∧ total config s' = total config s) := by
    obtain ⟨⟨c, hn, hr⟩, ht⟩ := h₂
    have hh : ∀ index, fault = some (.rename index) → (s₂.files index).isSome = true →
        index + 1 < config.keep → s₂.files (config.keep - 1) = none := by
      intro index hf hs hi
      rw [hr (config.keep - 1) (by omega)]
      exact hh index hf (hr index (by omega) ▸ hs) hi
    obtain ⟨ht', -, hfail, hok⟩ := shift_spec c hn hh (Eq.refl (shift fault config.keep s₂))
    exact ⟨fun ho => ⟨hok ho, ht'.trans ht⟩, fun ho => ⟨hfail ho, ht'.trans ht⟩⟩
  refine ((hclose.bind hremove).bind hshift).bind fun s₃ h₃ => ?_
  exact ⟨fun _ => ⟨h₃.left.right, h₃.right, rfl⟩, nofun⟩

theorem total_append : total config (s.append line) = total config s ++ line := by
  have hl : log config (s.append line) = log config s ++ line := contents_append line
  rw [total, hl, total, List.append_assoc]
  rfl

theorem Consistent.append (hk : 0 < config.keep) (c : Consistent config s)
    (he : Lines.Ended isNewline line)
    (hs : s.bytes + line.length ≤ config.max ∨
      (Lines.cut isNewline ((s.files 0).getD [] ++ line)).length ≤ 1) :
    Consistent config { s.append line with bytes := s.bytes + line.length } := by
  have hself : (s.append line).files 0 = some ((s.files 0).getD [] ++ line) := by
    simp [RotatingFile.append, setFile]
  have hother {index} (hi : index ≠ 0) : (s.append line).files index = s.files index :=
    Function.update_of_ne hi ..
  have hold : Lines.Ended isNewline ((s.files 0).getD []) := by
    cases hf : s.files 0
    case none => exact .nil
    case some => exact c.ended 0 _ hf
  refine ⟨fun index content hc => ?_, c.removed, fun index content hc => ?_, fun index hi => ?_, ?_,
    c.removals.imp_right fun hr => ⟨hr.left, (hother hk.ne').trans hr.right⟩⟩
  case refine_1 =>
    by_cases hi : index = 0
    case pos =>
      rw [hi] at hc
      obtain rfl := Option.some.inj (hself.symm.trans hc)
      exact hold.append he
    case neg => exact c.ended index content ((hother hi).symm.trans hc)
  case refine_2 =>
    by_cases hi : index = 0
    case pos =>
      rw [hi] at hc
      obtain rfl := Option.some.inj (hself.symm.trans hc)
      exact hs.imp_left fun h => by rwa [List.length_append, ←c.bytes]
    case neg => exact c.short index content ((hother hi).symm.trans hc)
  case refine_3 => exact (hother (by omega)).trans (c.kept index hi)
  case refine_4 => rw [c.bytes, hself, Option.getD_some, List.length_append]

theorem Consistent.append_nil (hk : 0 < config.keep) (c : Consistent config s) :
    Consistent config (s.append []) ∧ total config (s.append []) = total config s := by
  refine ⟨c.append hk .nil ?_, total_append.trans (List.append_nil _)⟩
  rw [List.append_nil, List.length_nil, Nat.add_zero, c.bytes]
  cases hf : s.files 0
  case none => exact .inl (Nat.zero_le _)
  case some => exact c.short 0 _ hf

theorem openFile_spec (hk : 0 < config.keep) (c : Consistent config s) :
    (s.openFile fault).Meets
      (fun s' => Consistent config s' ∧ total config s' = total config s ∧ s'.bytes = s.bytes)
      (fun s' => Consistent config s' ∧ total config s' = total config s) := by
  rw [openFile]
  split
  case isTrue => exact ⟨fun _ => ⟨c, rfl, rfl⟩, nofun⟩
  case isFalse =>
    split
    case isTrue  => exact ⟨nofun, fun _ => ⟨c, rfl⟩⟩
    case isFalse =>
      have ha : s.setFile 0 (some ((s.files 0).getD [])) = s.append [] := by
        rw [RotatingFile.append, List.append_nil]
      obtain ⟨c, ht⟩ := c.append_nil hk
      rw [ha]
      exact ⟨fun _ => ⟨⟨c.ended, c.removed, c.short, c.kept, c.bytes, c.removals⟩, ht, rfl⟩, nofun⟩

theorem writeAll_spec (hk : 0 < config.keep) (c : Consistent config s)
    (hl : Lines.IsLine isNewline line) (hs : s.bytes = 0 ∨ s.bytes + line.length ≤ config.max)
    (hf : ∀ written, fault = some (.write written) → written = 0) :
    (s.writeAll fault line).Meets
      (fun s' => Consistent config s' ∧ total config s' = total config s ++ line)
      (fun s' => Consistent config s' ∧ total config s' = total config s) := by
  have hfits : s.bytes + line.length ≤ config.max ∨
      (Lines.cut isNewline ((s.files 0).getD [] ++ line)).length ≤ 1 := by
    obtain hs | hs := hs
    case inr => exact .inl hs
    case inl =>
      have hn : (s.files 0).getD [] = [] :=
        List.eq_nil_of_length_eq_zero (c.bytes.symm.trans hs)
      rw [hn, List.nil_append, hl.cut_eq]
      exact .inr le_rfl
  unfold writeAll
  split
  case h_1 written =>
    obtain rfl := hf written rfl
    exact ⟨nofun, fun _ => c.append_nil hk⟩
  case h_2 =>
    have ht : total config (s.append line) = total config s ++ line := total_append
    exact ⟨fun _ => ⟨c.append hk hl.ended hfits, ht⟩, nofun⟩

theorem write_spec (hk : 0 < config.keep) (c : Consistent config s)
    (hl : Lines.IsLine isNewline line) (hh : Harmless config s ⟨line, fault⟩) :
    (s.write config fault line).Meets
      (fun s' => Consistent config s' ∧ total config s' = total config s ++ line)
      (fun s' => Consistent config s' ∧ total config s' = total config s) := by
  have hrotate : (if s.exceeds config line then s.rotate config fault else (s, true)).Meets
      (fun s' => (Consistent config s' ∧
        (s'.bytes = 0 ∨ s'.bytes + line.length ≤ config.max)) ∧ total config s' = total config s)
      (fun s' => Consistent config s' ∧ total config s' = total config s) := by
    split
    case isTrue he =>
      have hh : ∀ index, fault = some (.rename index) → (s.files index).isSome = true →
          index + 1 < config.keep → s.files (config.keep - 1) = none := by
        rintro index rfl hs hi
        exact hh he hs hi
      have h := rotate_spec hk c hh
      exact ⟨fun ho => ⟨⟨(h.left ho).left, .inl (h.left ho).right.right⟩, (h.left ho).right.left⟩,
        h.right⟩
    case isFalse he =>
      rw [exceeds, decide_eq_true_eq, not_and_or, not_lt, not_lt, Nat.le_zero] at he
      exact ⟨fun _ => ⟨⟨c, he⟩, rfl⟩, nofun⟩
  have hopen (s₁ : RotatingFile) (h₁ : (Consistent config s₁ ∧
      (s₁.bytes = 0 ∨ s₁.bytes + line.length ≤ config.max)) ∧ total config s₁ = total config s) :
      (s₁.openFile fault).Meets
      (fun s' => (Consistent config s' ∧
        (s'.bytes = 0 ∨ s'.bytes + line.length ≤ config.max)) ∧ total config s' = total config s)
      (fun s' => Consistent config s' ∧ total config s' = total config s) := by
    obtain ⟨⟨c, hs⟩, ht⟩ := h₁
    have h : (s₁.openFile fault).Meets _ _ := openFile_spec hk c
    refine ⟨fun ho => ?_, fun ho => ⟨(h.right ho).left, (h.right ho).right.trans ht⟩⟩
    obtain ⟨c, ht', hb⟩ := h.left ho
    exact ⟨⟨c, hb ▸ hs⟩, ht'.trans ht⟩
  have hwrite (s₂ : RotatingFile) (h₂ : (Consistent config s₂ ∧
      (s₂.bytes = 0 ∨ s₂.bytes + line.length ≤ config.max)) ∧ total config s₂ = total config s) :
      (s₂.writeAll fault line).Meets
      (fun s' => Consistent config s' ∧ total config s' = total config s ++ line)
      (fun s' => Consistent config s' ∧ total config s' = total config s) := by
    obtain ⟨⟨c, hs⟩, ht⟩ := h₂
    rw [←ht]
    refine writeAll_spec hk c hl hs ?_
    rintro written rfl
    exact hh
  exact (hrotate.bind hopen).bind hwrite

end Calls

-- Runs of calls in which each step may fail, but harmlessly.
section Runs

variable {config : Config} {files : Nat → Option Bytes} {h : List (Call × Bool)} {s : RotatingFile}

-- The files of an earlier log: their lines are complete, and none is beyond the retention.
structure Complete (config : Config) (files : Nat → Option Bytes) : Prop where
  ended : ∀ index content, files index = some content → Lines.Ended isNewline content
  kept  : ∀ index > config.keep, files index = none

def Short (config : Config) (files : Nat → Option Bytes) : Prop :=
  ∀ index content, files index = some content →
    content.length ≤ config.max ∨ (Lines.cut isNewline content).length ≤ 1

-- Each acknowledged record is a line of the log after the earlier ones, unless it was in the files
-- that rotations have removed.
structure Retains (config : Config) (files : Nat → Option Bytes) (h : List (Call × Bool))
    (s : RotatingFile) : Prop where
  records  : Lines.cut isNewline s.removed.flatten ++ Lines.cut isNewline (s.log config) =
    Lines.cut isNewline (contents files (config.keep + 1)) ++ acknowledged h
  removals : s.removals ≤ 1
  kept     : ∀ index > config.keep, s.files index = none
  short    : Short config s.files

theorem opened_consistent (hk : 0 < config.keep) (hc : Complete config files)
    (hs : Short config files) : Consistent config (opened files) ∧
      total config (opened files) = contents files (config.keep + 1) := by
  have c : Consistent config ⟨files, false, ((files 0).getD []).length, [], 0⟩ :=
    ⟨hc.ended, nofun, hs, hc.kept, rfl, .inl rfl⟩
  obtain ⟨c, ht⟩ := c.append_nil hk
  rw [RotatingFile.append, List.append_nil] at c ht
  exact ⟨⟨c.ended, c.removed, c.short, c.kept, c.bytes, c.removals⟩, ht⟩

theorem contents_ended (hc : Complete config files) (count : Nat) :
    Lines.Ended isNewline (contents files count) := by
  induction count
  case zero => exact .nil
  case succ count hi =>
    refine Lines.Ended.append ?_ hi
    cases hf : files count
    case none => exact .nil
    case some => exact hc.ended count _ hf

theorem acknowledged_cons {call : Call} {ok : Bool} :
    acknowledged ((call, ok) :: h) = acknowledged h ++ if ok then [call.line] else [] := by
  rw [acknowledged, List.reverse_cons, List.filter_append, List.map_append]
  cases ok <;> rfl

theorem rotating_log_retains (hk : 0 < config.keep) (hc : Complete config files)
    (hs : Short config files)
    (r : ((writes config files).restrict fun s call _ _ => Harmless config s call).Run h s) :
    Retains config files h s := by
  have hi : Consistent config s ∧ (∀ line ∈ acknowledged h, Lines.IsLine isNewline line) ∧
      total config s = contents files (config.keep + 1) ++ (acknowledged h).flatten := by
    refine r.invariant (I := fun h s => Consistent config s ∧
      (∀ line ∈ acknowledged h, Lines.IsLine isNewline line) ∧
      total config s = contents files (config.keep + 1) ++ (acknowledged h).flatten) ?init ?step
    case init =>
      rintro s rfl
      obtain ⟨c, ht⟩ := opened_consistent hk hc hs
      exact ⟨c, nofun, ht.trans (List.append_nil _).symm⟩
    case step =>
      rintro h s ⟨line, fault⟩ ok s' - ⟨c, hl, ht⟩ ⟨⟨hline, -, hw⟩, hh⟩
      have hspec := write_spec hk c hline hh
      rw [hw] at hspec
      rw [acknowledged_cons]
      cases ok
      case false =>
        obtain ⟨c, ht'⟩ := hspec.right rfl
        exact ⟨c, by simpa using hl, by simpa using ht'.trans ht⟩
      case true =>
        obtain ⟨c, ht'⟩ := hspec.left rfl
        refine ⟨c, fun other ho => ?_, ?_⟩
        · obtain ho | ho := List.mem_append.mp ho
          · exact hl other ho
          · exact List.mem_singleton.mp ho ▸ hline
        · rw [ht', ht, List.append_assoc, List.flatten_append]
          simp
  obtain ⟨c, hl, ht⟩ := hi
  refine ⟨?_, ?_, c.kept, c.short⟩
  case refine_1 =>
    rw [←Lines.cut_append (.flatten c.removed)]
    change Lines.cut isNewline (total config s) = _
    rw [ht, Lines.cut_append (contents_ended hc _), Lines.cut_flatten hl]
  case refine_2 =>
    obtain hr | ⟨hr, -⟩ := c.removals
    · exact hr.trans_le (Nat.zero_le 1)
    · exact hr.le

def sampleFiles (count : Nat) : Nat → Option Bytes :=
  fun index => if index < count then some [10] else none

theorem sampleFiles_complete {count : Nat} (h : count ≤ config.keep + 1) :
    Complete config (sampleFiles count) where
  ended index content hc := by
    rw [sampleFiles] at hc
    split at hc
    case isTrue  =>
      obtain rfl := Option.some.inj hc
      exact Lines.IsLine.ended ⟨[], 10, rfl, rfl, nofun⟩
    case isFalse => nomatch hc
  kept index hi := by
    rw [sampleFiles, if_neg]
    omega

theorem sampleFiles_short {count : Nat} : Short config (sampleFiles count) := by
  intro index content hc
  rw [sampleFiles] at hc
  split at hc
  case isTrue  => obtain rfl := Option.some.inj hc; exact .inr le_rfl
  case isFalse => nomatch hc

def sampleCall (fault : Option Fault) : Call where
  line  := [98, 10]
  fault := fault

theorem sampleCall_line : Lines.IsLine isNewline [98, 10] :=
  ⟨[98], 10, rfl, rfl, by simp [isNewline]⟩

theorem rotating_log_retains_sample : Retains ⟨1, 1⟩ (sampleFiles 1) [(sampleCall none, true)]
    ((opened (sampleFiles 1)).write ⟨1, 1⟩ none [98, 10]).1 := by
  refine rotating_log_retains Nat.zero_lt_one (sampleFiles_complete (Nat.le_succ 1))
    sampleFiles_short (.step (.init rfl) ⟨⟨sampleCall_line, nofun, rfl⟩, trivial⟩)

-- A record is appended to what is left of the one before it, and a rotation that has failed removes
-- a second file when it is tried again.
theorem rotating_log_loses :
    (¬∀ config files h s, 0 < config.keep → Complete config files → Short config files →
      (writes config files).Run h s →
      ∀ line ∈ acknowledged h, line ∈ Lines.cut isNewline s.removed.flatten ++
        Lines.cut isNewline (s.log config)) ∧
    ¬∀ config files h s, 0 < config.keep → Complete config files → Short config files →
      (writes config files).Run h s → s.removals ≤ 1 := by
  constructor
  case left =>
    intro hr
    have hfault (written : Nat) (h : some (Fault.write 1) = some (.write written)) :
        written < 2 := by
      obtain rfl := Fault.write.inj (Option.some.inj h)
      exact Nat.one_lt_two
    have r : (writes ⟨100, 1⟩ (sampleFiles 0)).Run
        [(sampleCall none, true), (sampleCall (some (.write 1)), false)] _ :=
      .step (.step (.init rfl) ⟨sampleCall_line, hfault, rfl⟩) ⟨sampleCall_line, nofun, rfl⟩
    have hm := hr _ _ _ _ Nat.zero_lt_one (sampleFiles_complete (Nat.zero_le _))
      sampleFiles_short r [98, 10] (by decide)
    exact absurd hm (by decide)
  case right =>
    intro hr
    have r : (writes ⟨1, 3⟩ (sampleFiles 4)).Run
        [(sampleCall (some (.rename 0)), false), (sampleCall (some (.rename 1)), false)] _ :=
      .step (.step (.init rfl) ⟨sampleCall_line, nofun, rfl⟩) ⟨sampleCall_line, nofun, rfl⟩
    have hm := hr _ _ _ _ (by decide) (sampleFiles_complete le_rfl) sampleFiles_short r
    exact absurd hm (by decide)

end Runs
end RotatingFile
end Logging
