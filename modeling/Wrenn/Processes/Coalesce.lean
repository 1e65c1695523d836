import Mathlib.Data.List.Basic
import Wrenn.Lib.Runs

/-!
# The output reader of `envd`

`coalesce_read_loop` reads what a process writes, and merges what comes within a short window into one chunk.  Its calls
of `read`, of `poll` and of the clock are the moves; the answers are labels.
-/

namespace Wrenn.Processes.Coalesce

open Wrenn.Lib.Runs

def COALESCE_CAP : ℕ := 64 * 1024

inductive Answer
  /-- `Ok` of a read; without bytes it is the end of the file -/
  | ok (bytes : List UInt8)
  | wouldBlock
  | interrupted
  | error
  /-- is the window over? -/
  | clock (ended : Bool)
  /-- `poll` failed, by `EINTR` or not -/
  | pollFailed (eintr : Bool)
  /-- `poll` returned, with `POLLIN` or without: a timeout, or only `POLLHUP` and the like -/
  | polled (pollin : Bool)
  deriving DecidableEq, Repr

def Answer.bytes : Answer → List UInt8
  | .ok bytes => bytes
  | _ => []

inductive Pc
  | read
  | wait
  | window
  | poll
  | drain
  | finished
  deriving DecidableEq, Repr

structure Loop where
  pc : Pc
  acc : List UInt8
  published : List (List UInt8)
  deriving DecidableEq, Repr

/-- `publish(std::mem::take(&mut acc))` -/
def Loop.flush (l : Loop) : Loop := ⟨.read, [], l.published ++ [l.acc]⟩

/-- The end of the function, which publishes what is left. -/
def Loop.finish (l : Loop) : Loop := ⟨.finished, [], if l.acc = [] then l.published else l.published ++ [l.acc]⟩

def Loop.extend (l : Loop) (bytes : List UInt8) : Loop :=
  if bytes = [] then l.finish else { l with pc := .window, acc := l.acc ++ bytes }

def step (chunkSize : ℕ) (l : Loop) (a : Answer) : Option Loop :=
  match l.pc, a with
  | .read, .ok bytes | .drain, .ok bytes => if bytes.length ≤ chunkSize then some (l.extend bytes) else none
  | .read, .wouldBlock => some { l with pc := .wait }
  | .read, .interrupted => some l
  | .read, .error => some l.finish
  | .wait, .pollFailed eintr => some (if eintr then { l with pc := .read } else l.finish)
  | .wait, .polled _ => some { l with pc := .read }
  | .window, .clock ended =>
    some (if l.acc.length < COALESCE_CAP then if ended then l.flush else { l with pc := .poll } else l.flush)
  | .poll, .pollFailed eintr => some (if eintr then { l with pc := .window } else l.flush)
  | .poll, .polled pollin => some (if pollin then { l with pc := .drain } else l.flush)
  | .drain, .wouldBlock | .drain, .interrupted | .drain, .error => some l.flush
  | _, _ => none

def start : Loop := ⟨.read, [], []⟩

/-- What is kept between two moves. -/
def Fits (chunkSize : ℕ) (l : Loop) : Prop :=
  match l.pc with
  | .read | .wait | .finished => l.acc = []
  | .window => l.acc ≠ [] ∧ l.acc.length ≤ COALESCE_CAP - 1 + chunkSize
  | .poll | .drain => l.acc ≠ [] ∧ l.acc.length < COALESCE_CAP

/-- A chunk that may be published. -/
def Chunk (chunkSize : ℕ) (c : List UInt8) : Prop := c ≠ [] ∧ c.length ≤ COALESCE_CAP - 1 + chunkSize

structure Good (chunkSize : ℕ) (l : Loop) : Prop where
  fits : Fits chunkSize l
  chunks : ∀ c ∈ l.published, Chunk chunkSize c

/-- A move that reads `bytes`, and neither loses nor adds any. -/
def Kept (chunkSize : ℕ) (l l' : Loop) (bytes : List UInt8) : Prop :=
  Good chunkSize l' ∧ l'.published.flatten ++ l'.acc = l.published.flatten ++ l.acc ++ bytes

variable {chunkSize : ℕ} {l l' : Loop} {a : Answer}

section

variable (hch : ∀ c ∈ l.published, Chunk chunkSize c)
include hch

theorem kept_goto (pc : Pc) (h : Fits chunkSize { l with pc := pc }) : Kept chunkSize l { l with pc := pc } [] :=
  ⟨⟨h, hch⟩, (List.append_nil _).symm⟩

theorem kept_flush (hacc : Chunk chunkSize l.acc) : Kept chunkSize l l.flush [] := by
  refine ⟨⟨rfl, fun c hc => ?_⟩, by simp [Loop.flush]⟩
  rcases List.mem_append.mp hc with hc | hc
  · exact hch c hc
  · rw [List.mem_singleton.mp hc]
    exact hacc

theorem kept_finish (hacc : l.acc = [] ∨ Chunk chunkSize l.acc) : Kept chunkSize l l.finish [] := by
  by_cases hnil : l.acc = []
  · rw [Loop.finish, if_pos hnil]
    exact ⟨⟨rfl, hch⟩, by rw [hnil, List.append_nil, List.append_nil]⟩
  · rw [Loop.finish, if_neg hnil]
    obtain ⟨hg, heq⟩ := kept_flush hch (hacc.resolve_left hnil)
    exact ⟨⟨rfl, hg.chunks⟩, heq⟩

theorem kept_extend (hacc : l.acc = [] ∨ Chunk chunkSize l.acc) (hlen : l.acc.length < COALESCE_CAP)
    {bytes : List UInt8} (hb : bytes.length ≤ chunkSize) : Kept chunkSize l (l.extend bytes) bytes := by
  by_cases hnil : bytes = []
  · rw [Loop.extend, if_pos hnil, hnil]
    exact kept_finish hch hacc
  · rw [Loop.extend, if_neg hnil]
    refine ⟨⟨⟨fun he => hnil (List.append_eq_nil_iff.mp he).2, ?_⟩, hch⟩, (List.append_assoc ..).symm⟩
    rw [List.length_append]
    omega

end

theorem Good.step (hg : Good chunkSize l) (h : step chunkSize l a = some l') : Kept chunkSize l l' a.bytes := by
  obtain ⟨pc, acc, published⟩ := l
  obtain ⟨hfits, hch⟩ := hg
  cases pc with
  | read =>
    -- nothing is kept here
    have hnil : acc = [] := hfits
    cases a with
    | ok bytes =>
      obtain ⟨hb, h⟩ := Option.ite_none_right_eq_some.mp h
      cases h
      exact kept_extend hch (.inl hnil) (hnil ▸ (by decide : 0 < COALESCE_CAP)) hb
    | wouldBlock => cases h; exact kept_goto hch .wait hnil
    | interrupted => cases h; exact kept_goto hch .read hnil
    | error => cases h; exact kept_finish hch (.inl hnil)
    | _ => cases h
  | wait =>
    cases a with
    | pollFailed eintr =>
      cases h
      cases eintr with
      | true => exact kept_goto hch .read hfits
      | false => exact kept_finish hch (.inl hfits)
    | polled pollin => cases h; exact kept_goto hch .read hfits
    | _ => cases h
  | window =>
    cases a with
    | clock ended =>
      cases h
      split_ifs with hlen hover
      · exact kept_flush hch hfits
      · exact kept_goto hch .poll ⟨hfits.1, hlen⟩
      · exact kept_flush hch hfits
    | _ => cases h
  | poll =>
    have hacc : Chunk chunkSize acc := ⟨hfits.1, by have hlen : acc.length < COALESCE_CAP := hfits.2; omega⟩
    cases a with
    | pollFailed eintr =>
      cases h
      cases eintr with
      | true => exact kept_goto hch .window hacc
      | false => exact kept_flush hch hacc
    | polled pollin =>
      cases h
      cases pollin with
      | true => exact kept_goto hch .drain hfits
      | false => exact kept_flush hch hacc
    | _ => cases h
  | drain =>
    have hacc : Chunk chunkSize acc := ⟨hfits.1, by have hlen : acc.length < COALESCE_CAP := hfits.2; omega⟩
    cases a with
    | ok bytes =>
      obtain ⟨hb, h⟩ := Option.ite_none_right_eq_some.mp h
      cases h
      exact kept_extend hch (.inr hacc) hfits.2 hb
    | wouldBlock => cases h; exact kept_flush hch hacc
    | interrupted => cases h; exact kept_flush hch hacc
    | error => cases h; exact kept_flush hch hacc
    | _ => cases h
  | finished => cases a <;> cases h

end Wrenn.Processes.Coalesce
