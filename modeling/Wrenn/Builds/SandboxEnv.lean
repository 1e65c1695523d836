import Mathlib.Data.List.Nodup
import Mathlib.Logic.Function.Basic
import Wrenn.Lib.Words

/-!
# The environment of a sandbox

A build reads the variables of its sandbox from the output of `env`, one line `NAME=value` for each.  Every line is
trimmed before it is cut at its first `=`, so a blank at either end of the line is lost.

* `fetchSandboxEnv_exact_iff`: the variables come back as they are exactly if no name begins with a blank and no value
  ends with one.
-/

namespace Wrenn.Builds.SandboxEnv

open Lib.Words

abbrev Env := Text → Option Text

/-- One pass of the loop; `strings.SplitN` with a limit of two. -/
def addLine (env : Env) (line : Text) : Env :=
  if trim line = [] then env
  else
    match cut '=' (trim line) with
    | none => env
    | some (name, val) => Function.update env name (some val)

def parseSandboxEnv (raw : Text) : Env := (raw.splitOn '\n').foldl addLine fun _ => none

inductive FetchError where
  /-- `fetch env: %w` -/
  | exec (err : Text)
  /-- `fetch env: command exited with code %d` -/
  | exit (code : ℤ)

structure ExecResponse where
  exitCode : ℤ
  stdout : Text

def fetchSandboxEnv (resp : Except Text ExecResponse) : Except FetchError Env :=
  match resp with
  | .error err => .error (.exec err)
  | .ok resp => if resp.exitCode ≠ 0 then .error (.exit resp.exitCode) else .ok (parseSandboxEnv resp.stdout)

/-! ### The output of `env` -/

def line (e : Text × Text) : Text := e.1 ++ '=' :: e.2

def printEnv (l : List (Text × Text)) : Text := l.flatMap fun e => line e ++ ['\n']

/-- What can stand in a line of `env`. -/
structure Printable (e : Text × Text) : Prop where
  name_ne_nil : e.1 ≠ []
  name_eq : '=' ∉ e.1
  name_newline : '\n' ∉ e.1
  val_newline : '\n' ∉ e.2

/-- The ends of the line are not white space. -/
structure Unpadded (e : Text × Text) : Prop where
  name : ∀ c ∈ e.1.head?, isSpace c = false
  val : ∀ c ∈ e.2.getLast?, isSpace c = false

variable {e : Text × Text} {l : List (Text × Text)}

theorem splitOn_printEnv (h : ∀ e ∈ l, Printable e) : (printEnv l).splitOn '\n' = l.map line ++ [[]] := by
  induction l with
  | nil => rfl
  | cons e l ih =>
    have he := h e List.mem_cons_self
    have hline : ∀ c ∈ line e, (c == '\n') = false := by
      intro c hc
      refine beq_eq_false_iff_ne.mpr fun hn => ?_
      subst hn
      rcases List.mem_append.mp hc with hc | hc
      · exact he.name_newline hc
      · exact he.val_newline (List.mem_of_ne_of_mem (by decide) hc)
    have hsplit := List.splitOnP_append_cons_of_forall_mem hline '\n' rfl (printEnv l)
    rw [printEnv, List.flatMap_cons, List.append_assoc, List.singleton_append]
    refine hsplit.trans (congrArg (line e :: ·) (ih fun e he => h e (List.mem_cons_of_mem _ he)))

theorem trimmed_line : Trimmed (line e) ↔ Unpadded e := by
  have heq : isSpace '=' = false := by decide
  have hhead : (line e).head? = e.1.head?.or (some '=') := List.head?_append
  have hlast : (line e).getLast? = some (e.2.getLast?.getD '=') := by
    rw [line, List.getLast?_append_of_ne_nil _ (List.cons_ne_nil _ _), List.getLast?_cons]
  refine ⟨fun h => ⟨fun c hc => h.1 c ?_, fun c hc => h.2 c ?_⟩, fun h => ⟨fun c hc => ?_, fun c hc => ?_⟩⟩
  · rw [hhead, hc]
    rfl
  · rw [hlast, hc]
    rfl
  · rw [hhead] at hc
    cases hn : e.1.head? with
    | none => rw [hn] at hc; cases hc; exact heq
    | some d => rw [hn] at hc; cases hc; exact h.name _ hn
  · rw [hlast] at hc
    cases hv : e.2.getLast? with
    | none => rw [hv] at hc; cases hc; exact heq
    | some d => rw [hv] at hc; cases hc; exact h.val _ hv

theorem addLine_line (env : Env) (hp : Printable e) (hu : Unpadded e) :
    addLine env (line e) = Function.update env e.1 (some e.2) := by
  rw [addLine, trim_eq_self (trimmed_line.mpr hu), if_neg (by simp [line]), line, cut_append hp.name_eq]

theorem foldl_addLine (hp : ∀ e ∈ l, Printable e) (hu : ∀ e ∈ l, Unpadded e) (hnodup : (l.map Prod.fst).Nodup)
    (env : Env) (name val : Text) :
    (l.map line).foldl addLine env name = some val ↔
      (name, val) ∈ l ∨ (name ∉ l.map Prod.fst ∧ env name = some val) := by
  induction l generalizing env with
  | nil => simp
  | cons e l ih =>
    obtain ⟨hnot, hnodup⟩ := List.nodup_cons.mp hnodup
    rw [List.map_cons, List.foldl_cons, addLine_line env (hp e List.mem_cons_self) (hu e List.mem_cons_self),
      ih (fun e he => hp e (List.mem_cons_of_mem _ he)) (fun e he => hu e (List.mem_cons_of_mem _ he)) hnodup,
      List.map_cons, List.mem_cons, List.mem_cons]
    by_cases hname : name = e.1
    · subst hname
      have hno : (e.1, val) ∉ l := fun hmem => hnot (List.mem_map.mpr ⟨_, hmem, rfl⟩)
      simp [hno, hnot, Prod.ext_iff, eq_comm]
    · simp [hname, Prod.ext_iff]

/-- What the parser returns has no white space at either end. -/
theorem unpadded_of_foldl {lines : List Text} {env : Env} (h : ∀ name val, env name = some val → Unpadded (name, val))
    {name val : Text} (hv : lines.foldl addLine env name = some val) : Unpadded (name, val) := by
  induction lines generalizing env with
  | nil => exact h name val hv
  | cons l lines ih =>
    refine ih (fun n v hn => ?_) hv
    rw [addLine] at hn
    split_ifs at hn
    · exact h n v hn
    · cases hc : cut '=' (trim l) with
      | none => rw [hc] at hn; exact h n v hn
      | some p =>
        rw [hc] at hn
        dsimp only at hn
        by_cases hname : n = p.1
        · subst hname
          rw [Function.update_self] at hn
          cases hn
          have htrim := trimmed_trim l
          rw [(eq_of_cut hc).1] at htrim
          exact trimmed_line.mp htrim
        · rw [Function.update_of_ne hname] at hn
          exact h n v hn

/-- **The environment is captured as it is**, in whatever order `env` prints it, exactly if no line of it is padded. -/
theorem fetchSandboxEnv_exact_iff (hnodup : (l.map Prod.fst).Nodup) (hp : ∀ e ∈ l, Printable e) :
    (∃ env, fetchSandboxEnv (.ok ⟨0, printEnv l⟩) = .ok env ∧ ∀ name val, env name = some val ↔ (name, val) ∈ l) ↔
      ∀ e ∈ l, Unpadded e := by
  constructor
  · rintro ⟨env, henv, hall⟩ e he
    cases henv
    have hnone : ∀ name val, (fun _ => none : Env) name = some val → Unpadded (name, val) := nofun
    exact unpadded_of_foldl hnone ((hall e.1 e.2).mpr he)
  · intro hu
    refine ⟨_, rfl, fun name val => ?_⟩
    have hempty : addLine ((l.map line).foldl addLine fun _ => none) [] =
        (l.map line).foldl addLine fun _ => none := rfl
    rw [parseSandboxEnv, splitOn_printEnv hp, List.foldl_append, List.foldl_cons, List.foldl_nil, hempty,
      foldl_addLine hp hu hnodup]
    simp

theorem two_variables_captured :
    ∃ env, fetchSandboxEnv (.ok ⟨0, printEnv [(['A'], ['=', ' ', 'x']), (['B'], [])]⟩) = .ok env ∧
      ∀ name val, env name = some val ↔ (name, val) ∈ [(['A'], ['=', ' ', 'x']), (['B'], [])] := by
  refine (fetchSandboxEnv_exact_iff (by decide) ?_).mpr ?_
  · simp only [List.forall_mem_cons, List.not_mem_nil, IsEmpty.forall_iff, implies_true, and_true]
    exact ⟨⟨by decide, by decide, by decide, by decide⟩, ⟨by decide, by decide, by decide, by decide⟩⟩
  · simp only [List.forall_mem_cons, List.not_mem_nil, IsEmpty.forall_iff, implies_true, and_true]
    refine ⟨⟨?_, ?_⟩, ⟨?_, ?_⟩⟩ <;> rintro c ⟨⟩ <;> decide

/-- `PS1=> ` comes back as `PS1=>`. -/
theorem trailing_blank_lost :
    parseSandboxEnv (printEnv [(['P', 'S', '1'], ['>', ' '])]) ['P', 'S', '1'] = some ['>'] := by
  decide +kernel

end Wrenn.Builds.SandboxEnv
