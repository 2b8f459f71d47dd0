import ElfLoader.Basic

/-!
`CString` and `CStr::to_str`, which `not_relocated` calls on the image's name
(relocation.rs). Both come from Rust's `alloc` and `core` libraries, not from
the sources, and are modelled as those libraries document them: a `CString` is
a run of bytes none of which is NUL, and `to_str` is `str::from_utf8` on them,
which accepts exactly the well-formed UTF-8 sequences and decodes them.

`fromUtf8` follows `run_utf8_validation`: the first byte of a sequence gives
its width (`utf8_char_width`), the second byte is checked against the range
that first byte allows (which rules out overlong forms, surrogates and code
points past `U+10FFFF`), and every later byte must be a continuation byte.
-/

namespace ElfLoader

/-- A continuation byte, `10xxxxxx`. -/
def isCont (b : UInt8) : Bool := 0x80 ≤ b && b ≤ 0xBF

/-- `utf8_char_width`: the length of the sequence a first byte starts, `0` for
a byte that starts none. -/
def utf8CharWidth (b : UInt8) : Nat :=
  if b ≤ 0x7F then 1
  else if 0xC2 ≤ b ∧ b ≤ 0xDF then 2
  else if 0xE0 ≤ b ∧ b ≤ 0xEF then 3
  else if 0xF0 ≤ b ∧ b ≤ 0xF4 then 4
  else 0

/-- The second bytes `run_utf8_validation` accepts after the first byte of a
three- or four-byte sequence. -/
def secondOk (b₀ b₁ : UInt8) : Bool :=
  if b₀ = 0xE0 then 0xA0 ≤ b₁ && b₁ ≤ 0xBF
  else if b₀ = 0xED then 0x80 ≤ b₁ && b₁ ≤ 0x9F
  else if b₀ = 0xF0 then 0x90 ≤ b₁ && b₁ ≤ 0xBF
  else if b₀ = 0xF4 then 0x80 ≤ b₁ && b₁ ≤ 0x8F
  else isCont b₁

/-- `str::from_utf8`: the characters the bytes encode, or `none` (its `Err`)
when they are not well-formed UTF-8. -/
def fromUtf8 : List UInt8 → Option (List Char)
  | [] => some []
  | b₀ :: rest =>
    match utf8CharWidth b₀, rest with
    | 1, rest => (Char.ofNat b₀.toNat :: ·) <$> fromUtf8 rest
    | 2, b₁ :: rest =>
      if isCont b₁ then (Char.ofNat (b₀.toNat % 0x20 * 0x40 + b₁.toNat % 0x40) :: ·) <$> fromUtf8 rest
      else none
    | 3, b₁ :: b₂ :: rest =>
      if secondOk b₀ b₁ && isCont b₂ then
        (Char.ofNat (b₀.toNat % 0x10 * 0x1000 + b₁.toNat % 0x40 * 0x40 + b₂.toNat % 0x40) :: ·) <$>
          fromUtf8 rest
      else none
    | 4, b₁ :: b₂ :: b₃ :: rest =>
      if secondOk b₀ b₁ && isCont b₂ && isCont b₃ then
        (Char.ofNat (b₀.toNat % 0x08 * 0x40000 + b₁.toNat % 0x40 * 0x1000 + b₂.toNat % 0x40 * 0x40 +
          b₃.toNat % 0x40) :: ·) <$> fromUtf8 rest
      else none
    | _, _ => none

/-- Text, multi-byte characters included, decodes back. -/
example : fromUtf8 "é€😀".toUTF8.data.toList = some "é€😀".data := by decide

/-- A surrogate (`U+D800`, encoded `ED A0 80`) is not UTF-8. -/
example : fromUtf8 [0xED, 0xA0, 0x80] = none := by decide

/-- A `CString`: its bytes, without the terminating NUL, none of which is NUL. -/
structure CString where
  bytes : List UInt8
  noNul : 0 ∉ bytes

/-- `CStr::to_str`: the text of the bytes when they are UTF-8. -/
def CString.toStr (s : CString) : Option String :=
  (fromUtf8 s.bytes).map String.mk

/-- `.to_str().unwrap()`: the text, or the panic of `Result::unwrap` on the
`Utf8Error`. -/
def CString.toStrUnwrap (s : CString) : Except Abort String :=
  match s.toStr with
  | some str => .ok str
  | none => .error .unwrapErr

theorem CString.toStrUnwrap_of_toStr {s : CString} {str : String} (h : s.toStr = some str) :
    s.toStrUnwrap = .ok str := by
  simp [toStrUnwrap, h]

theorem CString.toStrUnwrap_of_none {s : CString} (h : s.toStr = none) :
    s.toStrUnwrap = .error .unwrapErr := by
  simp [toStrUnwrap, h]

end ElfLoader
