import Mathlib.Data.List.Basic

/-! The enumerations and byte strings that the kernel module and the control
plane share: movement states, pin states, kernel error numbers and file
contents. -/
namespace Smoothfs

inductive MovementState
  | placed | planAccepted | destinationReserved | copyInProgress | copyComplete | copyVerified
  | cutoverInProgress | switched | cleanupInProgress | cleanupComplete | failed | stale
  deriving DecidableEq, Repr

inductive PinState
  | none | hot | cold | hardlink | lease | lun
  deriving DecidableEq, Repr

inductive Errno
  | eagain | einval | enoent | ebusy | ealready | estale | eio | enospc | eloop | eisdir | e2big | efbig
  | eperm | exdev | eexist | enodata
  deriving DecidableEq, Repr

def MovementState.preCutover : MovementState → Bool
  | .planAccepted | .destinationReserved | .copyInProgress | .copyComplete | .copyVerified => true
  | _ => false

abbrev Bytes := List UInt8

def pwrite (content : Bytes) (pos : Nat) (data : Bytes) : Bytes :=
  content.take pos ++ List.replicate (pos - content.length) 0 ++ data ++ content.drop (pos + data.length)

structure StagedRange where
  pos : Nat
  data : Bytes
  deriving DecidableEq, Repr

def drainRanges (content : Bytes) (ranges : List StagedRange) : Bytes :=
  ranges.foldl (fun content range => pwrite content range.pos range.data) content

end Smoothfs
