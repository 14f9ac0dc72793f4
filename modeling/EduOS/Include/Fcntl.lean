import Mathlib

/-!
# Open flags

The flags of `include/fs/vfs.h` that the modelled calls read.
-/

namespace EduOS

def oCreat : BitVec 32 := 0x0040

def oExcl : BitVec 32 := 0x0080

def oNonblock : BitVec 32 := 0x0800

end EduOS
