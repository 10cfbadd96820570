import Mathlib

/-! Where the boot structures lie in guest memory: `layout.h`, the constants of
`vm.h` and `mptable.h`. -/
namespace Kthxvm.Layout

def zeroPageStart : UInt64 := 0x7000
def bootStackStart : UInt64 := 0x8000
def bootStackPointer : UInt64 := 0x8ff0
def bootGdtOffset : UInt64 := 0x500
def bootIdtOffset : UInt64 := 0x520
def pml4Start : UInt64 := 0x9000
def pdpteStart : UInt64 := 0xa000
def pdeStart : UInt64 := 0xb000
def cmdlineStart : UInt64 := 0x20000
def cmdlineMaxSize : UInt64 := 0x10000
def ebdaStart : UInt64 := 0x9fc00
def himemStart : UInt64 := 0x100000
def mptableStart : UInt64 := 0x9fc00

def maxMemSize32 : UInt64 := (1 : UInt64) <<< 32

def gapSize32 : UInt64 := (768 : UInt64) <<< 20

def gapStart32 : UInt64 := maxMemSize32 - gapSize32

end Kthxvm.Layout
