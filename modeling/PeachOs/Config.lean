import Mathlib.Algebra.Group.Nat.Defs

/-!
# Constants of `config.h` and `status.h`

Error codes are returned negated.
-/

namespace PeachOs

def heapBlockSizeBytes : UInt32 := 4096
def heapStartAddr : UInt32 := 0x1000000
def heapSizeInBytes : UInt32 := 104857600

def peachosAllOk : Int := 0
def einvarg : Int := 1
def eio : Int := 2
def ebadpath : Int := 3
def enomem : Int := 4
def efsnotus : Int := 5
def erdonly : Int := 6
def eunimp : Int := 7
def eistkn : Int := 8

end PeachOs
