import Mathlib
import Wrenn.Lib.Words

/-!
# The text of a healthcheck

A healthcheck is a line of flags `--name=value` and a command.  The parser works on the words of the line and joins
the words of the command by single blanks.

* `parseHealthcheck_reads`: an accepted line is a sequence of flags and a command, every setting is that of its last
  flag, and the command is kept exactly if all white space in it is single blanks;
* `blanks_in_command_lost`: a command that is not kept.
-/

namespace Wrenn.Recipe.Healthcheck

open Lib.Words

inductive Setting where
  | interval | timeout | startPeriod | retries
  deriving DecidableEq, Repr

def Setting.flag : Setting → Text
  | .interval => "--interval".toList
  | .timeout => "--timeout".toList
  | .startPeriod => "--start-period".toList
  | .retries => "--retries".toList

/-- `HealthcheckConfig`, durations in nanoseconds -/
structure Config where
  cmd : Text
  interval : ℤ
  timeout : ℤ
  startPeriod : ℤ
  retries : ℤ
  deriving DecidableEq

def Config.get (hc : Config) : Setting → ℤ
  | .interval => hc.interval
  | .timeout => hc.timeout
  | .startPeriod => hc.startPeriod
  | .retries => hc.retries

def Config.set (hc : Config) (x : ℤ) : Setting → Config
  | .interval => { hc with interval := x }
  | .timeout => { hc with timeout := x }
  | .startPeriod => { hc with startPeriod := x }
  | .retries => { hc with retries := x }

def defaults : Config := ⟨[], 3 * 10 ^ 9, 10 * 10 ^ 9, 0, 0⟩

inductive ParseError where
  /-- `empty healthcheck` -/
  | empty
  /-- `malformed flag (missing '='): %q` -/
  | malformed (token : Text)
  /-- `parse interval`, `parse timeout`, `parse start period` or `parse retries`, and the error of the value -/
  | value (setting : Setting) (val : Text)
  /-- `unknown healthcheck flag: %q` -/
  | unknown (token : Text)
  /-- `healthcheck has no command` -/
  | noCommand
  deriving DecidableEq

/-! ### Numbers -/

def readDigits : Text → ℤ → Option ℤ
  | [], n => some n
  | c :: s, n => if c.isDigit then readDigits s (10 * n + (c.toNat - '0'.toNat : ℕ)) else none

/-- `strconv.Atoi`, for an `int` of 64 bits -/
def atoi (s : Text) : Option ℤ :=
  let body := if s.head? = some '-' ∨ s.head? = some '+' then s.tail else s
  if body = [] then none
  else
    (readDigits body 0).bind fun n =>
      let x := if s.head? = some '-' then -n else n
      if -2 ^ 63 ≤ x ∧ x < 2 ^ 63 then some x else none

/-- `time.ParseDuration` on whole seconds -/
def wholeSeconds (s : Text) : Option ℤ :=
  if s.getLast? = some 's' then
    (atoi s.dropLast).bind fun n => if -2 ^ 63 ≤ n * 10 ^ 9 ∧ n * 10 ^ 9 < 2 ^ 63 then some (n * 10 ^ 9) else none
  else none

/-! ### The parser -/

section Parser

variable (parseDuration : Text → Option ℤ)

def read : Setting → Text → Option ℤ
  | .retries => atoi
  | _ => parseDuration

/-- The `switch` on the name of a flag. -/
def setFlag (hc : Config) (token key val : Text) : Except ParseError Config :=
  match [Setting.interval, .timeout, .startPeriod, .retries].find? fun f => decide (key = f.flag) with
  | none => .error (.unknown token)
  | some f =>
    match read parseDuration f val with
    | none => .error (.value f val)
    | some x => .ok (hc.set x f)

/-- The loop over the tokens, up to the first one that is not a flag. -/
def readFlags (hc : Config) : List Text → Except ParseError (Config × List Text)
  | [] => .ok (hc, [])
  | token :: tokens =>
    if token.take 2 ≠ ['-', '-'] then .ok (hc, token :: tokens)
    else
      match cut '=' token with
      | none => .error (.malformed token)
      | some (key, val) =>
        match setFlag parseDuration hc token key val with
        | .error e => .error e
        | .ok hc => readFlags hc tokens

def parseHealthcheck (s : Text) : Except ParseError Config :=
  if trim s = [] then .error .empty
  else
    match readFlags parseDuration defaults (fields (trim s)) with
    | .error e => .error e
    | .ok (_, []) => .error .noCommand
    | .ok (hc, token :: tokens) => .ok { hc with cmd := unwords (token :: tokens) }

end Parser

/-! ### What a line says -/

structure Flag where
  key : Text
  val : Text
  gap : Text

def Flag.token (f : Flag) : Text := f.key ++ '=' :: f.val

structure Flag.Ok (f : Flag) : Prop where
  dashes : f.token.take 2 = ['-', '-']
  key : '=' ∉ f.key
  known : ∃ x : Setting, f.key = x.flag
  word : IsWord f.token
  gap : IsGap f.gap

/-- The line consists of the flags, each with the white space after it, and the command. -/
structure Reading (line : Text) (flags : List Flag) (cmd : Text) : Prop where
  text : line = (flags.flatMap fun f => f.token ++ f.gap) ++ cmd
  flags : ∀ f ∈ flags, f.Ok
  cmd_trimmed : Trimmed cmd
  cmd_ne_nil : cmd ≠ []
  cmd_dashes : cmd.take 2 ≠ ['-', '-']

/-- The value of the last flag of a name. -/
def lastVal (key : Text) (flags : List Flag) : Option Text :=
  ((flags.filter fun f => decide (f.key = key)).getLast?).map Flag.val

/-- A setting has the value of its last flag, or its default. -/
def Holds (read : Text → Option ℤ) (dflt : ℤ) (last : Option Text) (x : ℤ) : Prop :=
  (last = none → x = dflt) ∧ ∀ v, last = some v → read v = some x

variable {parseDuration : Text → Option ℤ} {hc hc' : Config} {s w g r token key val cmd : Text}
  {tokens tokens' : List Text}
  {flags : List Flag} {f : Flag} {x : Setting}

theorem get_set (hc : Config) (d : ℤ) (y x : Setting) : (hc.set d y).get x = if x = y then d else hc.get x := by
  cases x <;> cases y <;> rfl

theorem flag_inj : ∀ {x y : Setting}, x.flag = y.flag → x = y := by
  rintro (_ | _ | _ | _) (_ | _ | _ | _) <;> decide +kernel

theorem setFlag_spec (h : setFlag parseDuration hc token key val = .ok hc') :
    ∃ x d, key = Setting.flag x ∧ read parseDuration x val = some d ∧ hc' = hc.set d x := by
  unfold setFlag at h
  split at h
  · cases h
  · next x hx =>
    have hkey : key = x.flag := by simpa using List.find?_some hx
    split at h
    · cases h
    · next d hd =>
      cases h
      exact ⟨x, d, hkey, hd, rfl⟩

theorem lastVal_cons :
    lastVal key (f :: flags) = (lastVal key flags).or (if f.key = key then some f.val else none) := by
  unfold lastVal
  by_cases hf : f.key = key
  · rw [List.filter_cons_of_pos (by simpa using hf), List.getLast?_cons, if_pos hf]
    cases (flags.filter fun f => decide (f.key = key)).getLast? <;> rfl
  · rw [List.filter_cons_of_neg (by simpa using hf), if_neg hf, Option.or_none]

/-- A flag is read before the ones that follow it. -/
theorem Holds.cons {y : Setting} {d n : ℤ} (hf : f.key = y.flag) (hd : read parseDuration y f.val = some d)
    (h : Holds (read parseDuration x) ((hc.set d y).get x) (lastVal x.flag flags) n) :
    Holds (read parseDuration x) (hc.get x) (lastVal x.flag (f :: flags)) n := by
  rw [lastVal_cons, hf]
  rw [get_set] at h
  by_cases hxy : x = y
  · subst hxy
    rw [if_pos rfl] at h
    rw [if_pos rfl]
    rcases hl : lastVal x.flag flags with _ | v
    · refine ⟨fun hn => (by cases hn), fun v hv => ?_⟩
      cases hv
      rw [hd, h.1 hl]
    · refine ⟨fun hn => (by cases hn), fun u hu => ?_⟩
      cases hu
      exact h.2 v hl
  · rw [if_neg hxy] at h
    rwa [if_neg fun he => hxy (flag_inj he.symm), Option.or_none]

/-- What the loop does to a flag and the rest of the line. -/
theorem readFlags_cons (hw : IsWord w) (hdash : w.take 2 = ['-', '-'])
    (h : readFlags parseDuration hc (w :: tokens) = .ok (hc', token :: tokens')) (hg : IsGap g) : ∃ f : Flag, ∃ y d,
      f.token = w ∧ f.gap = g ∧ f.Ok ∧ f.key = Setting.flag y ∧ read parseDuration y f.val = some d ∧
      readFlags parseDuration (hc.set d y) tokens = .ok (hc', token :: tokens') := by
  rw [readFlags, if_neg (not_not.mpr hdash)] at h
  split at h
  · cases h
  · next key val hcut =>
    obtain ⟨rfl, hkey⟩ := eq_of_cut hcut
    split at h
    · cases h
    · next hc₁ hset =>
      obtain ⟨y, d, hy, hd, rfl⟩ := setFlag_spec hset
      exact ⟨⟨key, val, g⟩, y, d, rfl, rfl, ⟨hdash, hkey, ⟨y, hy⟩, hw, hg⟩, hy, hd, h⟩

theorem take_two_append (hw : w ≠ []) (hg : IsGap g) : (w ++ (g ++ r)).take 2 = ['-', '-'] → w.take 2 = ['-', '-'] := by
  obtain ⟨a, w, rfl⟩ := List.exists_cons_of_ne_nil hw
  obtain ⟨b, g, rfl⟩ := List.exists_cons_of_ne_nil hg.1
  cases w with
  | nil =>
    intro h
    have hb := hg.2 b List.mem_cons_self
    simp only [List.cons_append, List.nil_append, List.take_succ_cons, List.take_zero, List.cons.injEq, and_true] at h
    rw [h.2] at hb
    exact absurd hb (by decide)
  | cons c w => exact id

/-- The loop, started with `hc` on a line, ends with `hc'` at the words `tokens` of the command. -/
def Reads (parseDuration : Text → Option ℤ) (hc : Config) (line : Text) (hc' : Config) (tokens : List Text) : Prop :=
  ∃ flags cmd, Reading line flags cmd ∧ fields cmd = tokens ∧
    ∀ x, Holds (read parseDuration x) (hc.get x) (lastVal x.flag flags) (hc'.get x)

theorem reads_command (parseDuration : Text → Option ℤ) (hc : Config) (hs : Trimmed s) (hne : s ≠ [])
    (hdash : s.take 2 ≠ ['-', '-']) :
    Reads parseDuration hc s hc (fields s) :=
  ⟨[], s, ⟨rfl, List.forall_mem_nil _, hs, hne, hdash⟩, rfl, fun _ => ⟨fun _ => rfl, fun v hv => by cases hv⟩⟩

theorem readFlags_reads (h : Trimmed s) (hne : s ≠ [])
    (hread : readFlags parseDuration hc (fields s) = .ok (hc', token :: tokens)) :
    Reads parseDuration hc s hc' (token :: tokens) := by
  refine word_induction (P := fun s => Trimmed s → ∀ hc,
      readFlags parseDuration hc (fields s) = .ok (hc', token :: tokens) →
        Reads parseDuration hc s hc' (token :: tokens)) (fun w hw hs hc h => ?_)
    (fun w g r hw hg hr hrne ih hs hc h => ?_) h hne h hc hread
  · by_cases hdash : w.take 2 = ['-', '-']
    · rw [fields_word hw] at h
      obtain ⟨f, y, d, -, -, -, -, -, h⟩ :=
        readFlags_cons (g := [' ']) hw hdash h ⟨by decide, List.forall_mem_singleton.mpr (by decide)⟩
      cases h
    · have hcommand := reads_command parseDuration hc hs hw.1 hdash
      rw [fields_word hw, readFlags, if_pos hdash] at h
      cases h
      rwa [fields_word hw] at hcommand
  · by_cases hdash : w.take 2 = ['-', '-']
    · rw [fields_cons hw hg] at h
      obtain ⟨f, y, d, hf, hgap, hok, hkey, hd, h⟩ := readFlags_cons hw hdash h hg
      obtain ⟨flags, cmd, hreading, hcmd, hholds⟩ := ih hr _ h
      refine ⟨f :: flags, cmd, ⟨?_, List.forall_mem_cons.mpr ⟨hok, hreading.flags⟩, hreading.cmd_trimmed,
        hreading.cmd_ne_nil,
        hreading.cmd_dashes⟩, hcmd, fun x => (hholds x).cons hkey hd⟩
      rw [List.flatMap_cons, hf, hgap, List.append_assoc, List.append_assoc, ← hreading.text]
    · have hcommand := reads_command parseDuration hc hs (by simp [hw.1]) fun h => hdash (take_two_append hw.1 hg h)
      rw [fields_cons hw hg, readFlags, if_pos hdash] at h
      cases h
      rwa [fields_cons hw hg] at hcommand

/-- **An accepted line** consists of flags and a command; every setting is that of its last flag, or the default; the
command is kept as it is written exactly if its white space is single blanks. -/
theorem parseHealthcheck_reads (h : parseHealthcheck parseDuration s = .ok hc) :
    ∃ flags cmd, Reading (trim s) flags cmd ∧
      (∀ x, Holds (read parseDuration x) (defaults.get x) (lastVal x.flag flags) (hc.get x)) ∧
      (hc.cmd = cmd ↔ SingleSpaced cmd) := by
  unfold parseHealthcheck at h
  split_ifs at h with hne
  split at h
  · cases h
  · cases h
  · next hc₁ token tokens hread =>
    cases h
    obtain ⟨flags, cmd, hreading, hcmd, hholds⟩ := readFlags_reads (trimmed_trim s) hne hread
    refine ⟨flags, cmd, hreading, fun x => ?_, ?_⟩
    · have := hholds x
      cases x <;> exact this
    · rw [← hcmd]
      exact unwords_fields_iff hreading.cmd_trimmed hreading.cmd_ne_nil

/-- `--retries=3 curl -f localhost` -/
theorem plain_line_read : ∃ hc, parseHealthcheck wholeSeconds "--retries=3 curl -f localhost".toList = .ok hc ∧
    ∃ flags cmd, Reading (trim "--retries=3 curl -f localhost".toList) flags cmd ∧
      (∀ x, Holds (read wholeSeconds x) (defaults.get x) (lastVal x.flag flags) (hc.get x)) ∧
      (hc.cmd = cmd ↔ SingleSpaced cmd) :=
  ⟨⟨"curl -f localhost".toList, 3 * 10 ^ 9, 10 * 10 ^ 9, 0, 3⟩,
    by decide +kernel, parseHealthcheck_reads (by decide +kernel)⟩

/-- Two blanks inside quotes become one. -/
theorem blanks_in_command_lost : parseHealthcheck wholeSeconds "grep -q 'a  b' log".toList =
    .ok { defaults with cmd := "grep -q 'a b' log".toList } := by
  decide +kernel

end Wrenn.Recipe.Healthcheck
