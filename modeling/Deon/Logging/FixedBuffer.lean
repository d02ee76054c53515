import Deon.Strings

/-! `FixedBuffer<SIZE>` of `LogStream.h`. A buffer carries the proof that what is
written lies inside its array, so that a `memcpy` past the end has no result. -/
namespace Deon.Logging

def kLargeBuffer : Nat := 4000 * 1000

structure FixedBuffer (SIZE : Nat) where
  data : Bytes
  inside : data.length ≤ SIZE

variable {SIZE : Nat}

/-- `static_cast<int>` of a `size_t`. -/
def toInt (len : Nat) : Int := Int.bmod len (2^32)

theorem toInt_small {len : Nat} (small : len < 2^31) : toInt len = len := by
  unfold toInt
  rw [Int.bmod_eq_of_le] <;> omega

namespace FixedBuffer

def empty : FixedBuffer SIZE := ⟨[],Nat.zero_le _⟩

def avail (b : FixedBuffer SIZE) : Int := SIZE - b.data.length

/-- `append(const char*, size_t)`; `none` stands for a copy past the end of the array. -/
def append (b : FixedBuffer SIZE) (buf : Bytes) : Option (FixedBuffer SIZE) :=
  if toInt buf.length < b.avail then
    if room : b.data.length + buf.length ≤ SIZE then
      some ⟨b.data ++ buf,by simpa using room⟩
    else none
  else some b

theorem append_fits {b : FixedBuffer SIZE} {buf : Bytes} (small : buf.length < 2^31)
    (room : (buf.length : Int) < b.avail) :
    ∃ c, b.append buf = some c ∧ c.data = b.data ++ buf := by
  have inside : b.data.length + buf.length ≤ SIZE := by
    unfold avail at room
    omega
  unfold append
  rw [toInt_small small,if_pos room,dif_pos inside]
  exact ⟨_,rfl,rfl⟩

theorem append_full {b : FixedBuffer SIZE} {buf : Bytes} (small : buf.length < 2^31)
    (full : ¬ (buf.length : Int) < b.avail) : b.append buf = some b := by
  unfold append
  rw [toInt_small small,if_neg full]

end FixedBuffer

end Deon.Logging
