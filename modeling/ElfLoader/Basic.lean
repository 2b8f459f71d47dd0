import Mathlib.Data.List.Basic

/-!
The vocabulary every part of the loader shares: machine words, the ways a call
can stop without returning, the library's `Error` (lib.rs), and the relocation
constants of `src/arch`.

Words are `BitVec 64`: `usize` on the 64-bit targets the library supports
(lib.rs refuses any other), so `+` is the two's-complement sum a release build
computes. A Rust function that may panic is modelled as returning
`Except Abort _`; one that returns the library's `Result` as well returns
`Except Abort (Result _)`.
-/

namespace ElfLoader

/-- `usize` on the supported targets. -/
abbrev Usize := BitVec 64

/-- How a call can stop without returning: a panic of one of the kinds the
modelled code raises, or an operation whose behaviour Rust leaves undefined. -/
inductive Abort where
  /-- A `Vec` or slice index past the end. -/
  | indexOutOfBounds
  /-- A failed `assert!`. -/
  | assertFailed
  /-- `unreachable!()`. -/
  | unreachable
  /-- `unimplemented!()`. -/
  | unimplemented
  /-- `panic!(msg)`. -/
  | panic (msg : String)
  /-- `Option::unwrap` on `None`. -/
  | unwrapNone
  /-- `Result::unwrap` on `Err`. -/
  | unwrapErr
  /-- Undefined behaviour: `unwrap_unchecked` on `None`, or a read past the
  memory the model holds. -/
  | undefined
  deriving DecidableEq, Repr

/-- `xs[i]` on a slice or a `Vec`: panics past the end. -/
def sliceIndex {α : Type} (xs : List α) (i : Nat) : Except Abort α :=
  match xs[i]? with
  | some x => .ok x
  | none => .error .indexOutOfBounds

theorem sliceIndex_eq_ok_iff {α : Type} {xs : List α} {i : Nat} {x : α} :
    sliceIndex xs i = .ok x ↔ xs[i]? = some x := by
  unfold sliceIndex
  cases xs[i]? <;> simp

theorem sliceIndex_of_lt {α : Type} {xs : List α} {i : Nat} (h : i < xs.length) :
    sliceIndex xs i = .ok (xs.get ⟨i, h⟩) := by
  simp [sliceIndex, List.getElem?_eq_getElem h]

/-- A `?` that returns: the call before it returned, and so did the rest. -/
theorem bind_eq_ok {ε α β : Type} {x : Except ε α} {f : α → Except ε β} {b : β} :
    x >>= f = .ok b ↔ ∃ a, x = .ok a ∧ f a = .ok b := by
  cases x <;> simp [bind, Except.bind]

theorem map_eq_ok {ε α β : Type} {x : Except ε α} {f : α → β} {b : β} :
    f <$> x = .ok b ↔ ∃ a, x = .ok a ∧ f a = b := by
  cases x <;> simp [Functor.map, Except.map]

/-- The library's `Error`. `IOError` comes from the object source, which is not
modelled. -/
inductive Error where
  | mmapError (msg : String)
  | relocateError (msg : String)
  | findSymbolError (msg : String)
  | parseDynamicError (msg : String)
  | parseEhdrError (msg : String)
  deriving DecidableEq, Repr

/-- The library's `Result`. -/
abbrev Result (α : Type) := Except Error α

/-! ### Architecture constants -/

/-- What `src/arch` defines for the build target. Only `riscv64.rs` is among
the sources, so the target is a parameter. `distinct` records that a target
gives its relocation classes distinct type codes, which the handlers' `match`
arms rely on. -/
structure Arch where
  REL_RELATIVE : Nat
  REL_GOT : Nat
  REL_DTPMOD : Nat
  REL_SYMBOLIC : Nat
  REL_JUMP_SLOT : Nat
  REL_DTPOFF : Nat
  TLS_DTV_OFFSET : Usize
  distinct : [REL_RELATIVE, REL_GOT, REL_DTPMOD, REL_SYMBOLIC, REL_JUMP_SLOT,
    REL_DTPOFF].Nodup

/-- `src/arch/riscv64.rs`, with the `elf::abi` codes of `R_RISCV_RELATIVE`,
`R_RISCV_TLS_DTPMOD64`, `R_RISCV_64`, `R_RISCV_JUMP_SLOT` and
`R_RISCV_TLS_DTPREL64`. RISC-V has no GOT relocation: `REL_GOT` is the
sentinel `u32::MAX`. -/
def riscv64 : Arch where
  REL_RELATIVE := 3
  REL_GOT := 0xffffffff
  REL_DTPMOD := 7
  REL_SYMBOLIC := 2
  REL_JUMP_SLOT := 5
  REL_DTPOFF := 9
  TLS_DTV_OFFSET := 0x800
  distinct := by decide

/-- The dynamic handler tests GOT, SYMBOLIC and RELATIVE before DTPMOD, and
DTPMOD before DTPOFF: each TLS type differs from the types tested before it. -/
theorem Arch.dtpmod_ne (arch : Arch) :
    arch.REL_DTPMOD ≠ arch.REL_GOT ∧ arch.REL_DTPMOD ≠ arch.REL_SYMBOLIC ∧
      arch.REL_DTPMOD ≠ arch.REL_RELATIVE := by
  have h := arch.distinct
  simp only [List.nodup_cons, List.mem_cons, List.mem_singleton, List.not_mem_nil, not_or] at h
  obtain ⟨⟨-, hRM, -⟩, ⟨hGM, -⟩, ⟨hMS, -⟩, -⟩ := h
  exact ⟨Ne.symm hGM, hMS, Ne.symm hRM⟩

theorem Arch.dtpoff_ne (arch : Arch) :
    arch.REL_DTPOFF ≠ arch.REL_GOT ∧ arch.REL_DTPOFF ≠ arch.REL_SYMBOLIC ∧
      arch.REL_DTPOFF ≠ arch.REL_RELATIVE ∧ arch.REL_DTPOFF ≠ arch.REL_DTPMOD := by
  have h := arch.distinct
  simp only [List.nodup_cons, List.mem_cons, List.mem_singleton, List.not_mem_nil, not_or] at h
  obtain ⟨⟨-, -, -, -, hRO, -⟩, ⟨-, -, -, hGO, -⟩, ⟨-, -, hMO, -⟩, ⟨-, hSO, -⟩, -⟩ := h
  exact ⟨Ne.symm hGO, Ne.symm hSO, Ne.symm hRO, Ne.symm hMO⟩

/-- Modelled from the spec: `ElfRela` and its accessors live in
`src/arch/mod.rs`, which is not among the sources. An `Elf64_Rela` entry read
as the ELF64 format lays out `r_info`: the symbol index in the high 32 bits,
the type in the low 32; `rAddend` holds the bits of the signed addend, which
`r_addend()` returns as a `usize`. -/
structure ElfRela where
  rOffset : Usize
  rInfo : Usize
  rAddend : Usize
  deriving DecidableEq, Repr

namespace ElfRela

/-- `r_type()`. -/
def rType (rela : ElfRela) : Nat := (rela.rInfo &&& 0xffffffff).toNat

/-- `r_symbol()`. -/
def rSymbol (rela : ElfRela) : Nat := (rela.rInfo >>> 32).toNat

end ElfRela

end ElfLoader
