import Mathlib.Data.List.TakeWhile

/-!
# C strings

A `char *` that is not NULL, by the bytes in front of the terminating zero. The
pieces that the kernel takes off a path are strings as well: the front part
ends where a zero has been stored, the rest starts further on in the same
buffer.
-/

namespace Os161.Kern

/-- The bytes in front of the terminating zero. -/
@[ext] structure CString where
  bytes : List UInt8
  nonzero : ∀ x ∈ bytes, x ≠ 0
  deriving DecidableEq

namespace CString

def strlen (s : CString) : Nat := s.bytes.length

/-- The string that starts at the beginning of `l`. -/
def ofBytes (l : List UInt8) : CString where
  bytes := l.takeWhile (· ≠ 0)
  nonzero := fun x hx => by simpa using List.mem_takeWhile_imp hx

theorem ofBytes_append_zero (s : CString) (l : List UInt8) : ofBytes (s.bytes ++ 0 :: l) = s := by
  apply CString.ext
  show List.takeWhile _ _ = _
  rw [List.takeWhile_append_of_pos (by simpa using s.nonzero)]
  simp

theorem ofBytes_bytes (s : CString) : ofBytes s.bytes = s := by
  apply CString.ext
  exact List.takeWhile_eq_self_iff.2 (by simpa using s.nonzero)

/-! ## Pieces -/

/-- `strcat`. -/
def strcat (s t : CString) : CString where
  bytes := s.bytes ++ t.bytes
  nonzero := fun x hx => (List.mem_append.1 hx).elim (s.nonzero x) (t.nonzero x)

/-- `s`, after `s[n] = 0`. -/
def cut (s : CString) (n : Nat) : CString where
  bytes := s.bytes.take n
  nonzero := fun x hx => s.nonzero x (List.mem_of_mem_take hx)

/-- `&s[n]`, for `n` up to the length. -/
def after (s : CString) (n : Nat) : CString where
  bytes := s.bytes.drop n
  nonzero := fun x hx => s.nonzero x (List.mem_of_mem_drop hx)

/-- `s` from the first byte on that is not `c`. -/
def skip (s : CString) (c : UInt8) : CString where
  bytes := s.bytes.dropWhile (· = c)
  nonzero := fun x hx => s.nonzero x ((List.dropWhile_suffix _).subset hx)

end CString

end Os161.Kern
