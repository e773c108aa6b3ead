import Os161.Sfs.Io

/-!
# Files as byte arrays

What a file is for: a size, and a byte at every position, which is zero from
the size on. Writing lays bytes over it and never makes it shorter; reading
returns what there is of the range asked for.

`Request` is one call of `sfs_read` or `sfs_write`, and `Request.apply` what it
makes of the files. A write that stops half-way has written the bytes that it
took from its uio, so the answer of the request, as far as it tells how much is
left, takes part in what the files are afterwards.
-/

namespace Os161.Sfs

open Os161.Kern Os161.Lib

/-- The bytes `l` laid over `v` from `off` on. -/
def patchBytes (v : Nat → UInt8) (off : Nat) (l : List UInt8) (p : Nat) : UInt8 :=
  if off ≤ p ∧ p < off + l.length then l.getD (p - off) 0 else v p

theorem patchBytes_nil (v : Nat → UInt8) (off : Nat) : patchBytes v off [] = v := by
  funext p
  exact if_neg fun h => by simp only [List.length_nil] at h; omega

theorem patchBytes_append (v : Nat → UInt8) (off : Nat) (a b : List UInt8) :
    patchBytes (patchBytes v off a) (off + a.length) b = patchBytes v off (a ++ b) := by
  funext p
  simp only [patchBytes, List.length_append, List.getD_eq_getElem?_getD]
  by_cases ha : off ≤ p ∧ p < off + a.length
  · rw [if_neg (by omega), if_pos ha, if_pos (by omega), List.getElem?_append_left (by omega)]
  · by_cases hb : off + a.length ≤ p ∧ p < off + a.length + b.length
    · rw [if_pos hb, if_pos (by omega), List.getElem?_append_right (by omega),
        show p - (off + a.length) = p - off - a.length by omega]
    · rw [if_neg hb, if_neg ha, if_neg (by omega)]

/-! ## Byte arrays -/

structure ByteFile where
  size : Nat
  byte : Nat → UInt8
  past : ∀ p, size ≤ p → byte p = 0

namespace ByteFile

/-- A file in which nothing has been written. -/
def empty : ByteFile := ⟨0, fun _ => 0, fun _ _ => rfl⟩

def write (a : ByteFile) (off : Nat) (l : List UInt8) : ByteFile where
  size := max a.size (off + l.length)
  byte := patchBytes a.byte off l
  past p hp := by
    rw [patchBytes, if_neg (by omega)]
    exact a.past p (by omega)

/-- At most `len` bytes from `off` on. -/
def read (a : ByteFile) (off len : Nat) : List UInt8 :=
  (List.range (min len (a.size - off))).map fun i => a.byte (off + i)

/-- Where the first read is short there is nothing left for the second. -/
theorem read_add (a : ByteFile) (off i j : Nat) :
    a.read off (i + j) = a.read off i ++ a.read (off + i) j := by
  have h : min (i + j) (a.size - off) = min i (a.size - off) + min j (a.size - (off + i)) := by
    omega
  rw [read, read, read, h, List.range_add, List.map_append, List.map_map]
  congr 1
  refine List.map_congr_left fun k hk => ?_
  have hlt := List.mem_range.1 hk
  show a.byte (off + (min i (a.size - off) + k)) = a.byte (off + i + k)
  rw [show off + (min i (a.size - off) + k) = off + i + k by omega]

end ByteFile

/-! ## Requests -/

inductive Request where
  | read (f : UInt32) (off len : Nat)
  | write (f : UInt32) (off : Nat) (data : List UInt8)

namespace Request

def file : Request → UInt32
  | read f _ _ => f
  | write f _ _ => f

/-- The first position behind the request. -/
def stop : Request → Nat
  | read _ off len => off + len
  | write _ off data => off + data.length

def prog : Request → SfsProg IoResult
  | read f off len => sfsRead f off len
  | write f off data => sfsWrite f off data

/-- The files after a request that was answered by `x`. -/
def apply (a : UInt32 → ByteFile) (x : IoResult) : Request → UInt32 → ByteFile
  | read _ _ _ => a
  | write f off data =>
    Function.update a f ((a f).write off (data.take (data.length - x.2.resid)))

/-- What a successful answer has to be. -/
def Answers (a : UInt32 → ByteFile) (x : IoResult) : Request → Prop
  | read f off len => x.1 = .ok () → x.2.iov = (a f).read off len
  | write _ _ _ => x.1 = .ok () → x.2.resid = 0

end Request

/-- One request after the other. -/
def requests : List Request → SfsProg (List IoResult)
  | [] => pure []
  | r :: rs => do
      let x ← r.prog
      let xs ← requests rs
      pure (x :: xs)

/-- The files after some requests. -/
def applyAll (a : UInt32 → ByteFile) : List Request → List IoResult → UInt32 → ByteFile
  | r :: rs, x :: xs => applyAll (r.apply a x) rs xs
  | _, _ => a

/-- Every request has been answered from the files as they were at its turn. -/
def AnswersAll (a : UInt32 → ByteFile) : List Request → List IoResult → Prop
  | [], [] => True
  | r :: rs, x :: xs => r.Answers a x ∧ AnswersAll (r.apply a x) rs xs
  | _, _ => False

end Os161.Sfs
