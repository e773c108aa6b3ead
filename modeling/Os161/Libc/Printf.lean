import Mathlib.Logic.Function.Basic

/-!
# Printing numbers

`__pf_printnum` of `lib/libc/__printf.c` fills a buffer from its end. The pointer `x` may be
any number here, so that it could leave the buffer, and the places where something has been
stored are kept. `INTTYPE` has `w` bits.
-/

namespace Os161.Libc

/-- `NUMBER_BUF_SIZE`. -/
def numberBufSize (w : Nat) : Nat := w / 3 + 2

/-- `"0123456789abcdef"`. -/
def digits : List UInt8 := [48, 49, 50, 51, 52, 53, 54, 55, 56, 57, 97, 98, 99, 100, 101, 102]

def digit (d : Nat) : UInt8 := digits.getD d 0

structure Numbuf where
  buf : Int → UInt8
  x : Int
  stored : List Int

/-- `*x-- = c`. -/
def Numbuf.put (s : Numbuf) (c : UInt8) : Numbuf where
  buf := Function.update s.buf s.x c
  x := s.x - 1
  stored := s.x :: s.stored

/-- The digit loop, which is left with `none` when it goes on for more than `fuel` rounds. -/
def printnum.loop {w : Nat} (base : BitVec w) : Nat → BitVec w → Numbuf → Option Numbuf
  | 0, _, _ => none
  | fuel + 1, xnum, s =>
    let s := s.put (digit (xnum % base).toNat)
    let xnum := xnum / base
    if 0 < xnum then printnum.loop base fuel xnum s else some s

/-- `__pf_printnum` up to where `x` points at the number; `buf` is what was in the buffer. -/
def printnum {w : Nat} (base : Nat) (num : BitVec w) (buf : Int → UInt8) (fuel : Nat) :
    Option Numbuf :=
  let s : Numbuf := ⟨buf, (numberBufSize w : Int) - 1, []⟩
  (printnum.loop (BitVec.ofNat w base) fuel num (s.put 0)).map fun s => { s with x := s.x + 1 }

end Os161.Libc
