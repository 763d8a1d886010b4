/-!
# Binary floating point numbers

A literal number is a 64-bit binary floating point number.  Lowering never computes with it, so it
is kept as its bits.
-/

namespace TemplateLowering

/-- The bits of a binary floating point number of double precision. -/
structure Binary64 where
  bits : UInt64
deriving DecidableEq, Inhabited, Repr

namespace Binary64

def zero : Binary64 := ⟨0⟩
def one : Binary64 := ⟨0x3FF0000000000000⟩
def two : Binary64 := ⟨0x4000000000000000⟩

end Binary64
end TemplateLowering
