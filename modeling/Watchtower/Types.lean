import Mathlib.Algebra.Group.Nat.Defs
import Mathlib.Data.List.Basic

namespace Watchtower

abbrev Bytes := List UInt8

/-- Decides which hashes are in a list. -/
instance : LawfulBEq Bytes := inferInstance

/-- An `anyhow::Error`, as the message it carries. -/
abbrev Error := String

/-- The largest Fuel block height. Heights are u32 in the source. -/
def u32Max : Nat := 2 ^ 32 - 1

/-- `BlockHeight::succ`: there is no height after the last u32. -/
def BlockHeight.succ (h : Nat) : Option Nat :=
  if h < u32Max then some (h + 1) else none

/-- A compressed Fuel block in its only version, V0. Registrations and
compressed transactions are handed on unread. -/
structure VersionedCompressedBlock where
  height : Nat
  time : Nat
  registrations : Bytes
  transactions : Bytes
  deriving DecidableEq

end Watchtower
