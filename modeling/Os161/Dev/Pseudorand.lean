import Mathlib.Data.Int.ModEq

/-!
# The pseudorandom generator

`dev/generic/pseudorand.c`: one step of the generator of Park and Miller, with the product
taken apart so that it stays within 32 bits. The locals are `int32_t`, so arithmetic on
them is that of `BitVec 32` and comparison is signed.
-/

namespace Os161.Dev.Pseudorand

def MULTIPLIER : BitVec 32 := 16807

def MODULUS : BitVec 32 := 0x7fffffff

def K1 : BitVec 32 := 127773

def K2 : BitVec 32 := 2836

/-- `struct pseudorand_softc`. -/
structure Softc where
  psSeed : BitVec 32
  deriving DecidableEq

/-- `pseudorand_random`: the value, and the new state. -/
def pseudorandRandom (ps : Softc) : BitVec 32 × Softc :=
  let hi := ps.psSeed.udiv K1
  let lo := ps.psSeed.umod K1
  let tmp := MULTIPLIER * lo - K2 * hi
  let tmp := if tmp.sle 0 then tmp + MODULUS else tmp
  (tmp - 1, ⟨tmp⟩)

/-- `pseudorand_randmax`. -/
def pseudorandRandmax : BitVec 32 := MODULUS - 2

/-- The values of `n` calls, and the state after them. -/
def calls : Nat → Softc → List (BitVec 32) × Softc
  | 0, ps => ([], ps)
  | n + 1, ps =>
    let r := pseudorandRandom ps
    let rest := calls n r.2
    (r.1 :: rest.1, rest.2)

end Os161.Dev.Pseudorand
