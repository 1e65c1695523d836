import Mathlib.Data.List.Basic

/-!
# The loop-device registry

One read-only loop device per base image, shared by every sandbox of that image and counted by the
registry.  `acquire` attaches on first use, `release` detaches when the last reference goes.
-/

namespace Wrenn.Devicemapper.Loops

structure LoopEntry where
  device : String
  refcount : ℕ
  deriving DecidableEq, Repr

/-- `entries` of the registry, by image path. -/
abbrev LoopRegistry := String → Option LoopEntry

def newLoopRegistry : LoopRegistry := fun _ => none

/-- `Acquire`; `losetup` is what attaching the file answers, `none` when it fails. -/
def acquire (r : LoopRegistry) (losetup : String → Option String) (imagePath : String) :
    Option (LoopRegistry × String) :=
  match r imagePath with
  | some e => some (Function.update r imagePath (some { e with refcount := e.refcount + 1 }), e.device)
  | none =>
    match losetup imagePath with
    | none => none
    | some dev => some (Function.update r imagePath (some ⟨dev, 1⟩), dev)

/-- `Release`; a failed detach is logged and the entry is dropped all the same. -/
def release (r : LoopRegistry) (imagePath : String) : LoopRegistry :=
  match r imagePath with
  | none => r
  | some e =>
    if e.refcount ≤ 1 then Function.update r imagePath none
    else Function.update r imagePath (some { e with refcount := e.refcount - 1 })

end Wrenn.Devicemapper.Loops
