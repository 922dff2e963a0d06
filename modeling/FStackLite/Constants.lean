import Mathlib.Algebra.Group.Int.Defs

/-!
# Shared constants

The limits of DPDK and of the C language, and the numbers of errors, that more than one
part of the code uses.
-/

namespace FStackLite

abbrev rteMaxEthports : Nat := 32

abbrev maxPktBurst : Nat := 32

def intMax : Int := 2 ^ 31 - 1

def einval : Int := 22

def enomem : Int := 12

end FStackLite
