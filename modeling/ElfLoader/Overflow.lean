import ElfLoader.Relocation.Dylib
import ElfLoader.MiniLoader

/-!
The additions that compute relocated values: `B + A` for RELATIVE in
`relocate_impl` (relocation.rs) and in the mini-loader's self-relocation, `S + A`
for GOT and SYMBOLIC, `st_value + A` for DTPOFF, with `A = r_addend() as usize`.
The model computes them as a build without overflow checks does, modulo 2^64
(`BitVec` addition). `checkedAdd` is `+` on `usize` in a build with overflow
checks, Rust's default for debug builds: it panics when the sum leaves the
word.

* `add_toNat_of_neg` — the wrapped sum is the two's-complement sum: with a
  negative addend, the word written is the address `X + A`.
* `checkedAdd_of_neg` — with a negative addend, the checked addition panics
  exactly when `X + A` is an address (not below 0): every such relocation a
  loader meets overflows.
* `negative_addend_overflows` — both RELATIVE sites write `B + A`, and with a
  negative addend that addition overflows for every base at or above `-A`.
-/

namespace ElfLoader

/-- `a + b` on `usize` in a build with overflow checks: the sum, or the panic
`attempt to add with overflow` when it does not fit the word. -/
def checkedAdd (a b : Usize) : Except Abort Usize :=
  if a.toNat + b.toNat < UInt64.size then .ok (a + b)
  else .error (.panic "attempt to add with overflow")

/-- A negative word, read as `usize`, is `2^64` above its signed value. -/
theorem toInt_of_neg {b : Usize} (hb : b.toInt < 0) : b.toInt = b.toNat - (UInt64.size : Int) := by
  rw [BitVec.toInt_eq_toNat_cond] at hb ⊢
  split at hb
  · omega
  · rw [if_neg ‹_›]

/-- **The wrapped sum is the two's-complement sum.** With a negative addend,
whenever `X + A` is not below 0 the word the wrapping addition gives is that
address. -/
theorem add_toNat_of_neg (a b : Usize) (hb : b.toInt < 0) (h : 0 ≤ (a.toNat : Int) + b.toInt) :
    ((a + b).toNat : Int) = a.toNat + b.toInt := by
  have hb' := toInt_of_neg hb
  have ha := a.isLt
  rw [BitVec.toNat_add]
  simp only [UInt64.size] at hb' ha ⊢
  omega

/-- **A negative addend overflows.** With a negative addend, the checked
addition panics exactly when `X + A` is not below 0. -/
theorem checkedAdd_of_neg (a b : Usize) (hb : b.toInt < 0) :
    checkedAdd a b = .error (.panic "attempt to add with overflow") ↔ 0 ≤ (a.toNat : Int) + b.toInt := by
  have hb' := toInt_of_neg hb
  unfold checkedAdd
  split <;> simp only [UInt64.size, reduceCtorEq, false_iff, true_iff, not_le] at * <;> omega

/-! ### The two RELATIVE sites -/

/-- The dynamic handler tests GOT and SYMBOLIC before RELATIVE: RELATIVE
differs from both. -/
theorem Arch.relative_ne (arch : Arch) :
    arch.REL_RELATIVE ≠ arch.REL_GOT ∧ arch.REL_RELATIVE ≠ arch.REL_SYMBOLIC := by
  have h := arch.distinct
  simp only [List.nodup_cons, List.mem_cons, List.mem_singleton, List.not_mem_nil, not_or] at h
  exact ⟨h.1.1, h.1.2.2.1⟩

open Relocation in
/-- **A negative addend overflows at both RELATIVE sites.** For a RELATIVE
entry with a negative addend `A`, `relocate_impl` writes `B + A` at
`B + r_offset`, and the mini-loader's self-relocation writes `B + A` at
`r_offset + B`. For every `X` the addend is added to (the base `B`, or `S` and
`st_value` for the other types) with `X + A` not below 0, the wrapped sum is
that address, and the `usize` addition overflows: a build with overflow checks
panics there. -/
theorem negative_addend_overflows (arch : Arch) (ifunc : Usize → Usize) (lib : ElfDylib)
    (libs : List RelocatedDylib) (findSymbol : FindSymbol) (rela : ElfRela) (idx : Nat) (mem : Writes)
    (hrel : rela.rType = arch.REL_RELATIVE) (hneg : rela.rAddend.toInt < 0) :
    lib.dynHandler arch ifunc libs findSymbol rela idx mem =
        .ok (mem ++ [(lib.base + rela.rOffset, lib.base + rela.rAddend)], false) ∧
      MiniLoader.selfRelocate arch lib.base 1 [rela] =
        .ok ([], [(rela.rOffset + lib.base, lib.base + rela.rAddend)]) ∧
      ∀ X : Usize, 0 ≤ (X.toNat : Int) + rela.rAddend.toInt →
        ((X + rela.rAddend).toNat : Int) = X.toNat + rela.rAddend.toInt ∧
          checkedAdd X rela.rAddend = .error (.panic "attempt to add with overflow") := by
  have hne := arch.relative_ne
  refine ⟨?_, ?_, fun X hX => ⟨add_toNat_of_neg X _ hneg hX, (checkedAdd_of_neg X _ hneg).mpr hX⟩⟩
  · simp [ElfDylib.dynHandler, hrel, hne.1, hne.2, ElfDylib.writeVal]
  · simp [MiniLoader.selfRelocate, hrel, bind, Except.bind, pure, Except.pure]

/-- On riscv64, the test image at `0x10000` with a RELATIVE entry of addend
`-8`: both sites write `0x10000 + A`, the address `0xfff8`, by an addition that
overflows. -/
theorem negative_addend_overflows_riscv64 :
    (⟨0x2000, 3, 0xfffffffffffffff8⟩ : ElfRela).rType = riscv64.REL_RELATIVE ∧
      (0xfffffffffffffff8 : Usize).toInt < 0 ∧
      ((Relocation.testImage ⟨0, Relocation.SHN_UNDEF, 0⟩ ⟨none, none⟩).dynHandler riscv64 id [] (fun _ => none)
          ⟨0x2000, 3, 0xfffffffffffffff8⟩ 0 [] = .ok ([((0x10000 : Usize) + 0x2000, 0x10000 + 0xfffffffffffffff8)], false) ∧
        MiniLoader.selfRelocate riscv64 0x10000 1 [⟨0x2000, 3, 0xfffffffffffffff8⟩] =
          .ok ([], [(0x2000 + 0x10000, 0x10000 + 0xfffffffffffffff8)]) ∧
        ∀ X : Usize, 0 ≤ (X.toNat : Int) + (0xfffffffffffffff8 : Usize).toInt →
          ((X + 0xfffffffffffffff8).toNat : Int) = X.toNat + (0xfffffffffffffff8 : Usize).toInt ∧
            checkedAdd X 0xfffffffffffffff8 = .error (.panic "attempt to add with overflow")) :=
  ⟨rfl, by decide, negative_addend_overflows riscv64 id _ [] (fun _ => none) ⟨0x2000, 3, 0xfffffffffffffff8⟩ 0 []
    rfl (by decide)⟩

end ElfLoader
