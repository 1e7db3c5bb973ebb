import Mathlib.Algebra.GroupWithZero.Nat
import Mathlib.Data.List.Basic
import Mathlib.Data.Nat.Notation

/-!
# The hash tables of the kernel module

`spp_hash_table_new`, `spp_hash_add` and `spp_hash_get`. A table is an array of chains; the element
comparison and the allocator are arguments, as they are in the source. `entries` counts additions
only: `spp_hash_get` unlinks a node without counting it out.
-/

namespace Tqos

namespace Spp

/-- The error codes the tables return. -/
inductive Errno
  | eexist
  | enomem
deriving DecidableEq, Repr

/-- `struct spp_hash_table`; the callbacks are arguments of the operations. -/
structure SppHashTable (α : Type) (size : ℕ) where
  entries : UInt32
  head : Vector (List α) size
deriving DecidableEq

variable {α ν : Type} {size : ℕ}

/-- `spp_hash_table_new`. -/
def sppHashTableNew (α : Type) (size : ℕ) : SppHashTable α size :=
  ⟨0, Vector.replicate size []⟩

/-- `hash %= ht->size`. -/
def bucket [NeZero size] (hash : UInt32) : Fin size := Fin.ofNat size hash.toNat

/-- `spp_hash_add`: the new node goes to the front of its chain. -/
def sppHashAdd [NeZero size] (equ : α → ν → Bool) (new : ν → Option α) (ht : SppHashTable α size)
    (hash : UInt32) (v : ν) : Except Errno Unit × SppHashTable α size :=
  let h : Fin size := bucket hash
  if ht.head[h].any (equ · v) then (.error .eexist, ht)
  else
    match new v with
    | none => (.error .enomem, ht)
    | some node => (.ok (), ⟨ht.entries + 1, ht.head.set h (node :: ht.head[h])⟩)

/-- `spp_hash_get`: the first node that compares equal; with `del` it is unlinked and nothing is
returned. -/
def sppHashGet [NeZero size] (equ : α → ν → Bool) (ht : SppHashTable α size) (hash : UInt32)
    (v : ν) (del : Bool) : Option α × SppHashTable α size :=
  let h : Fin size := bucket hash
  match ht.head[h].find? (equ · v) with
  | none => (none, ht)
  | some node =>
    if del then (none, { ht with head := ht.head.set h (ht.head[h].eraseP (equ · v)) })
    else (some node, ht)

end Spp

end Tqos
