import Os161.Kern.Block
import Os161.Kern.Copyinout
import Os161.Lib.Bytes
import Os161.Lib.Prog

/-!
# User memory as a map

Where it does not matter how an address is translated, the memory of a process
is a partial map of bytes, somewhere in the state of the kernel (`UserLens`). An
access to an address that is not mapped fails.
-/

namespace Os161.Kern

open Os161.Lib

/-- The place of the user memory in a state. -/
structure UserLens (S : Type) where
  get : S → ByteMap
  set : ByteMap → S → S
  get_set : ∀ u s, get (set u s) = u
  set_get : ∀ s, set (get s) s = s
  set_set : ∀ u u' s, set u (set u' s) = set u s

/-- Access to it, one byte at a time. -/
def UserLens.space {S A B E F : Type} (L : UserLens S) : UserSpace (Prog S A B E F) where
  load va := do
    let s ← call Prog.mem
    match L.get s va.toNat with
    | some b => pure b
    | none => throw .EFAULT
  store va b := do
    let s ← call Prog.mem
    if (L.get s va.toNat).isSome then
      call (Prog.put (L.set (Function.update (L.get s) va.toNat (some b)) s))
    else
      throw .EFAULT

/-- The four bytes of a word, the most significant one first. -/
def wordBytes (w : BitVec 32) : List UInt8 := (List.range 4).map (Block.wordByte ⟨w⟩)

def wordOfBytes (b : List UInt8) : BitVec 32 :=
  (Block.be32 (b.getD 0 0) (b.getD 1 0) (b.getD 2 0) (b.getD 3 0)).toBitVec

@[simp] theorem length_wordBytes (w : BitVec 32) : (wordBytes w).length = 4 := rfl

@[simp] theorem wordOfBytes_wordBytes (w : BitVec 32) : wordOfBytes (wordBytes w) = w :=
  congrArg UInt32.toBitVec (Block.be32_wordByte ⟨w⟩)

end Os161.Kern
