import ElfLoader.Relocation.Dylib

/-!
What one call of a relocation handler does: where `S` comes from, which entries
call `deal_fail`, and the word a relocated entry receives.

* `resolution_order` — for an entry naming a symbol, both handlers take `S`
  from `resolveInOrder`: the fallback resolver first, then the image's own
  definition, then the first library of `libs` that exports the name.
* `relocation_formulas` — a call that calls `deal_fail` writes nothing; any
  other call that returns writes one word, at `base + r_offset`, with the
  value the relocation formulas (`Formula`) give for its type.
* `ElfDylib.dynHandler_fails_iff` — when the dynamic handler calls `deal_fail`;
  `null_symbol_unresolved` — it does so for every SYMBOLIC, GOT or DTPOFF
  entry of the null symbol under `relocate`, although DTPMOD resolves the null
  symbol to the image itself.
-/

namespace ElfLoader.Relocation

/-! ### Finding a definition -/

theorem findSymdef_append (elfLib : ElfDylib) (L₁ L₂ : List RelocatedDylib) (dynsym : ElfSymbol)
    (syminfo : SymbolInfo) :
    findSymdef elfLib (L₁ ++ L₂) dynsym syminfo =
      (findSymdef elfLib L₁ dynsym syminfo).or (findSymdef elfLib L₂ dynsym syminfo) := by
  unfold findSymdef
  split_ifs <;> simp [List.findSome?_append]

theorem findSymdef_eq_none (elfLib : ElfDylib) (libs : List RelocatedDylib) (dynsym : ElfSymbol)
    (syminfo : SymbolInfo) :
    findSymdef elfLib libs dynsym syminfo = none ↔
      dynsym.stShndx = SHN_UNDEF ∧ ∀ lib ∈ libs, lib.symbols.getSym syminfo = none := by
  unfold findSymdef
  split_ifs with h
  · simp [h]
  · simp [List.findSome?_eq_none_iff, not_not.mp h]

theorem ElfDylib.lookup_append (lib : ElfDylib) (L₁ L₂ : List RelocatedDylib) (rSym : Nat) :
    lib.lookup (L₁ ++ L₂) rSym =
      ((lib.lookup L₁ rSym).1, (lib.lookup L₁ rSym).2.or (lib.lookup L₂ rSym).2) := by
  unfold lookup
  split_ifs <;> simp [findSymdef_append]

@[simp]
theorem ElfDylib.lookup_zero (lib : ElfDylib) (libs : List RelocatedDylib) :
    lib.lookup libs 0 = ("", none) := rfl

theorem ElfDylib.lookup_of_ne_zero (lib : ElfDylib) (libs : List RelocatedDylib) {rSym : Nat}
    (h : rSym ≠ 0) : lib.lookup libs rSym = ((lib.symbols.relSymbol rSym).2.name,
      findSymdef lib libs (lib.symbols.relSymbol rSym).1 (lib.symbols.relSymbol rSym).2) := by
  simp [lookup, h]

/-! ### The library's own lookup -/

/-- `Dylib::get` and `Dylib::get_version` (lib.rs), to which those of
`RelocatedDylib` delegate: `base() + st_value` of the definition the library
exports under `syminfo`, or an error naming the symbol, without its version. -/
def RelocatedDylib.lookupSymbol (lib : RelocatedDylib) (syminfo : SymbolInfo) : Result Usize :=
  match lib.symbols.getSym syminfo with
  | some sym => .ok (lib.base + sym.stValue)
  | none => .error (.findSymbolError ("can not find symbol:" ++ syminfo.name))

/-- `Dylib::get(name)` (lib.rs), whose `SymbolInfo::new(name)` asks for no
version. -/
def RelocatedDylib.get (lib : RelocatedDylib) (name : String) : Result Usize :=
  lib.lookupSymbol ⟨name, none⟩

/-- `Dylib::get_version(name, version)` (lib.rs). -/
def RelocatedDylib.getVersion (lib : RelocatedDylib) (name version : String) : Result Usize :=
  lib.lookupSymbol ⟨name, some version⟩

/-- A failed lookup names the symbol it looked for. -/
theorem RelocatedDylib.lookupSymbol_eq_error (lib : RelocatedDylib) (syminfo : SymbolInfo) {e : Error} :
    lib.lookupSymbol syminfo = .error e ↔
      lib.symbols.getSym syminfo = none ∧ e = .findSymbolError ("can not find symbol:" ++ syminfo.name) := by
  unfold lookupSymbol
  cases lib.symbols.getSym syminfo <;> simp [eq_comm]

/-- A library at `0x20000` that exports every name at `0x40`. -/
def fooLib : RelocatedDylib :=
  ⟨0x20000, ⟨fun _ => (⟨0, SHN_UNDEF, 0⟩, ⟨"foo", none⟩), fun _ => some ⟨0x12, 1, 0x40⟩⟩, none⟩

section Symbol

variable (ifunc : Usize → Usize) (findSymbol : FindSymbol)

theorem symbolOf_or (name : String) (d₁ d₂ : Option SymDef) :
    symbolOf ifunc findSymbol name (d₁.or d₂) =
      (symbolOf ifunc findSymbol name d₁).or (symbolOf ifunc findSymbol name d₂) := by
  unfold symbolOf
  cases findSymbol name <;> cases d₁ <;> simp

theorem symbolOf_eq_none (name : String) (symdef : Option SymDef) :
    symbolOf ifunc findSymbol name symdef = none ↔ findSymbol name = none ∧ symdef = none := by
  simp [symbolOf, Option.or_eq_none]

/-- The order in which relocation consults the sources of `S`: the fallback
resolver first, then the image's own definition of a symbol it defines, then
the first library of `libs`, in slice order, whose symbol index has the name. -/
def resolveInOrder (lib : ElfDylib) (libs : List RelocatedDylib) (dynsym : ElfSymbol)
    (syminfo : SymbolInfo) : Option Usize :=
  match findSymbol syminfo.name with
  | some p => some p
  | none =>
    if dynsym.stShndx ≠ SHN_UNDEF then some (SymDef.into ifunc ⟨dynsym, lib.base, lib.tls⟩)
    else match libs.find? fun l => (l.symbols.getSym syminfo).isSome with
      | some l => (l.symbols.getSym syminfo).map fun sym => SymDef.into ifunc ⟨sym, l.base, l.tls⟩
      | none => none

theorem findSome?_getSym (syminfo : SymbolInfo) :
    ∀ libs : List RelocatedDylib,
      ((libs.findSome? fun l => (l.symbols.getSym syminfo).map fun sym =>
        (⟨sym, l.base, l.tls⟩ : SymDef)).map (SymDef.into ifunc)) =
      match libs.find? fun l => (l.symbols.getSym syminfo).isSome with
      | some l => (l.symbols.getSym syminfo).map fun sym => SymDef.into ifunc ⟨sym, l.base, l.tls⟩
      | none => none
  | [] => rfl
  | l :: rest => by
    rw [List.findSome?_cons, List.find?_cons]
    cases h : l.symbols.getSym syminfo with
    | none => exact findSome?_getSym syminfo rest
    | some sym => simp [h]

/-- Both handlers compute `S` as `resolveInOrder` says. -/
theorem symbolOf_findSymdef (lib : ElfDylib) (libs : List RelocatedDylib) (dynsym : ElfSymbol)
    (syminfo : SymbolInfo) :
    symbolOf ifunc findSymbol syminfo.name (findSymdef lib libs dynsym syminfo) =
      resolveInOrder ifunc findSymbol lib libs dynsym syminfo := by
  unfold symbolOf resolveInOrder findSymdef
  cases findSymbol syminfo.name with
  | some p => rfl
  | none =>
    simp only [Option.none_or]
    split_ifs
    · rfl
    · exact findSome?_getSym ifunc syminfo libs

/-- `S`, as the relocation formulas use it: the fallback resolver's address for
the name; otherwise the base of the image defining the symbol plus its
`st_value`, or what the resolver at that address returns for an
`STT_GNU_IFUNC`. -/
inductive SymbolValue (name : String) (symdef : Option SymDef) : Usize → Prop
  | fallback {p : Usize} : findSymbol name = some p → SymbolValue name symdef p
  | defined {d : SymDef} : findSymbol name = none → symdef = some d →
      d.sym.stInfo &&& 0xf ≠ STT_GNU_IFUNC → SymbolValue name symdef (d.base + d.sym.stValue)
  | indirect {d : SymDef} : findSymbol name = none → symdef = some d →
      d.sym.stInfo &&& 0xf = STT_GNU_IFUNC →
      SymbolValue name symdef (ifunc (d.base + d.sym.stValue))

theorem symbolValue_of_symbolOf {name : String} {symdef : Option SymDef} {S : Usize}
    (h : symbolOf ifunc findSymbol name symdef = some S) :
    SymbolValue ifunc findSymbol name symdef S := by
  unfold symbolOf at h
  cases hf : findSymbol name with
  | some p =>
    rw [hf] at h
    cases h
    exact .fallback hf
  | none =>
    rw [hf, Option.none_or] at h
    obtain ⟨d, hd, rfl⟩ := Option.map_eq_some'.mp h
    unfold SymDef.into
    split_ifs with hi
    · exact .defined hf hd hi
    · exact .indirect hf hd (not_not.mp hi)

end Symbol

/-! ### The relocation formulas -/

section Formulas

variable (arch : Arch) (ifunc : Usize → Usize) (lib : ElfDylib) (libs : List RelocatedDylib)
  (findSymbol : FindSymbol) (rela : ElfRela)

/-- The relocation formulas: the word an entry receives, by type. `B` is the
image's base, `A` the addend, `S` a `SymbolValue` of the entry's symbol, and the
definition of the symbol the one `find_symdef` finds. -/
inductive Formula : Usize → Prop
  /-- `JUMP_SLOT`: `S`. -/
  | jumpSlot {S : Usize} : rela.rType = arch.REL_JUMP_SLOT →
      SymbolValue ifunc findSymbol (lib.lookup libs rela.rSymbol).1 (lib.lookup libs rela.rSymbol).2 S →
      Formula S
  /-- `GOT` and `SYMBOLIC`: `S + A`. -/
  | symbolic {S : Usize} : rela.rType = arch.REL_GOT ∨ rela.rType = arch.REL_SYMBOLIC →
      SymbolValue ifunc findSymbol (lib.lookup libs rela.rSymbol).1 (lib.lookup libs rela.rSymbol).2 S →
      Formula (S + rela.rAddend)
  /-- `RELATIVE`: `B + A`. -/
  | relative : rela.rType = arch.REL_RELATIVE → Formula (lib.base + rela.rAddend)
  /-- `DTPMOD` of a symbol: the TLS module id of the image that defines it. -/
  | dtpmod {d : SymDef} {tls : Usize} : rela.rType = arch.REL_DTPMOD → rela.rSymbol ≠ 0 →
      (lib.lookup libs rela.rSymbol).2 = some d → d.tls = some tls → Formula tls
  /-- `DTPMOD` of the null symbol: the image's own TLS module id. -/
  | dtpmodSelf {tls : Usize} : rela.rType = arch.REL_DTPMOD → rela.rSymbol = 0 →
      lib.tls = some tls → Formula tls
  /-- `DTPOFF`: `st_value + A - TLS_DTV_OFFSET`, modulo 2^64. -/
  | dtpoff {d : SymDef} : rela.rType = arch.REL_DTPOFF → (lib.lookup libs rela.rSymbol).2 = some d →
      Formula (d.sym.stValue + rela.rAddend - arch.TLS_DTV_OFFSET)

/-- What the formulas allow a handler call to do: one that calls `deal_fail`
writes nothing, and any other that returns writes one word, at
`base + r_offset`, with a value the formulas give. -/
def Obeys (mem : Writes) : Except Abort (Writes × Bool) → Prop
  | .ok (mem', true) => mem' = mem
  | .ok (mem', false) =>
    ∃ v, mem' = mem ++ [(lib.base + rela.rOffset, v)] ∧ Formula arch ifunc lib libs findSymbol rela v
  | .error _ => True

theorem ElfDylib.pltHandler_obeys (idx : Nat) (mem : Writes) :
    Obeys arch ifunc lib libs findSymbol rela mem (lib.pltHandler arch ifunc libs findSymbol rela idx mem) := by
  unfold ElfDylib.pltHandler
  by_cases hsym : rela.rSymbol = 0
  · simp [hsym, Obeys]
  simp only [hsym, if_false]
  split
  · rfl
  · rename_i S hS
    split_ifs with ht
    · refine ⟨S, rfl, .jumpSlot ht ?_⟩
      rw [lib.lookup_of_ne_zero libs hsym]
      exact symbolValue_of_symbolOf ifunc findSymbol hS
    · trivial

theorem ElfDylib.dynHandler_obeys (idx : Nat) (mem : Writes) :
    Obeys arch ifunc lib libs findSymbol rela mem (lib.dynHandler arch ifunc libs findSymbol rela idx mem) := by
  unfold ElfDylib.dynHandler
  dsimp only
  split_ifs with hsymb hrel hmod hsym hoff
  · split
    · rfl
    · rename_i S hS
      exact ⟨_, rfl, .symbolic hsymb (symbolValue_of_symbolOf ifunc findSymbol hS)⟩
  · exact ⟨_, rfl, .relative hrel⟩
  · split
    · rfl
    · rename_i d hd
      split
      · rename_i tls ht
        exact ⟨_, rfl, .dtpmod hmod hsym hd ht⟩
      · trivial
  · split
    · rename_i tls ht
      exact ⟨_, rfl, .dtpmodSelf hmod (not_not.mp hsym) ht⟩
    · trivial
  · split
    · rfl
    · rename_i d hd
      exact ⟨_, rfl, .dtpoff hoff hd⟩
  · trivial

end Formulas

/-! ### Where `S` comes from -/

/-- **Where `S` comes from.** For an entry that names a symbol, the PLT handler
on a JUMP_SLOT entry and the dynamic handler on a GOT or SYMBOLIC entry take `S`
from `resolveInOrder`, the fallback resolver before the image's own definition
and the libraries, and call `deal_fail` when it has none. -/
theorem resolution_order (arch : Arch) (ifunc : Usize → Usize) (lib : ElfDylib)
    (libs : List RelocatedDylib) (findSymbol : FindSymbol) (rela : ElfRela) (idx : Nat)
    (mem : Writes) (hsym : rela.rSymbol ≠ 0) :
    (rela.rType = arch.REL_JUMP_SLOT →
      lib.pltHandler arch ifunc libs findSymbol rela idx mem =
        match resolveInOrder ifunc findSymbol lib libs (lib.symbols.relSymbol rela.rSymbol).1
          (lib.symbols.relSymbol rela.rSymbol).2 with
        | some S => .ok (mem ++ [(lib.base + rela.rOffset, S)], false)
        | none => .ok (mem, true)) ∧
    (rela.rType = arch.REL_GOT ∨ rela.rType = arch.REL_SYMBOLIC →
      lib.dynHandler arch ifunc libs findSymbol rela idx mem =
        match resolveInOrder ifunc findSymbol lib libs (lib.symbols.relSymbol rela.rSymbol).1
          (lib.symbols.relSymbol rela.rSymbol).2 with
        | some S => .ok (mem ++ [(lib.base + rela.rOffset, S + rela.rAddend)], false)
        | none => .ok (mem, true)) := by
  constructor
  · intro ht
    simp only [ElfDylib.pltHandler, hsym, if_false, symbolOf_findSymdef]
    split <;> rename_i hS <;> simp [hS, ht, ElfDylib.writeVal]
  · intro ht
    simp only [ElfDylib.dynHandler, lib.lookup_of_ne_zero libs hsym, ht, if_true,
      symbolOf_findSymdef]
    split <;> rename_i hS <;> simp [hS, ElfDylib.writeVal]

/-- On riscv64, a SYMBOLIC entry of symbol 1 in an image that defines it at
`0x100`, relocated with a resolver that answers `0x5000`, gets `0x5000`. -/
theorem resolution_order_resolver_first :
    (⟨0x2000, 0x100000002, 0⟩ : ElfRela).rSymbol ≠ 0 ∧
      ((⟨0x2000, 0x100000002, 0⟩ : ElfRela).rType = riscv64.REL_GOT ∨
        (⟨0x2000, 0x100000002, 0⟩ : ElfRela).rType = riscv64.REL_SYMBOLIC →
        (testImage ⟨0x12, 1, 0x100⟩ ⟨none, none⟩).dynHandler riscv64 id [] (fun _ => some 0x5000)
          ⟨0x2000, 0x100000002, 0⟩ 0 [] = .ok ([(0x12000, 0x5000)], false)) :=
  ⟨by decide, (resolution_order riscv64 id (testImage ⟨0x12, 1, 0x100⟩ ⟨none, none⟩) []
    (fun _ => some 0x5000) ⟨0x2000, 0x100000002, 0⟩ 0 [] (by decide)).2⟩

/-- **A resolver shadows the image's own definition.** On riscv64, an image
that defines symbol 1 at `0x100` and has one SYMBOLIC entry for it, relocated by
`relocate_with` with a resolver that answers `0x5000` for every name, gets
`0x5000` rather than its own `0x10000 + 0x100`. -/
theorem resolver_shadows_definition :
    ∃ lib, (testImage ⟨0x12, 1, 0x100⟩ (ElfRelocation.new none
        (some [⟨0x2000, 0x100000002, 0⟩]))).relocateWith riscv64 id [] (fun _ => some 0x5000) [] =
      .ok (lib, [(0x12000, 0x5000)]) ∧ (0x5000 : Usize) ≠ 0x10000 + 0x100 :=
  ⟨_, rfl, by decide⟩

/-! ### When a handler calls `deal_fail` -/

section Failure

variable (arch : Arch) (ifunc : Usize → Usize) (lib : ElfDylib) (libs : List RelocatedDylib)
  (findSymbol : FindSymbol) (rela : ElfRela)

/-- The PLT handler calls `deal_fail` on an entry exactly when the resolver, the
image and every library lack its symbol. -/
theorem ElfDylib.pltHandler_fails_iff (idx : Nat) (mem mem' : Writes) (hsym : rela.rSymbol ≠ 0) :
    lib.pltHandler arch ifunc libs findSymbol rela idx mem = .ok (mem', true) ↔ mem' = mem ∧
      findSymbol (lib.symbols.relSymbol rela.rSymbol).2.name = none ∧
      (lib.symbols.relSymbol rela.rSymbol).1.stShndx = SHN_UNDEF ∧
      ∀ l ∈ libs, l.symbols.getSym (lib.symbols.relSymbol rela.rSymbol).2 = none := by
  simp only [ElfDylib.pltHandler, hsym, if_false]
  split
  · rename_i hS
    rw [symbolOf_eq_none, findSymdef_eq_none] at hS
    simp only [Except.ok.injEq, Prod.mk.injEq, and_true]
    exact ⟨fun h => ⟨h.symm, hS⟩, fun h => h.1.symm⟩
  · rename_i S hS
    have hne : ¬(findSymbol (lib.symbols.relSymbol rela.rSymbol).2.name = none ∧
        findSymdef lib libs (lib.symbols.relSymbol rela.rSymbol).1
          (lib.symbols.relSymbol rela.rSymbol).2 = none) := by
      rw [← symbolOf_eq_none, hS]
      simp
    rw [findSymdef_eq_none] at hne
    split_ifs <;> simp only [Except.ok.injEq, Prod.mk.injEq, Bool.false_eq_true, and_false,
      false_iff, reduceCtorEq] <;> tauto

/-- When the dynamic handler calls `deal_fail`: a GOT or SYMBOLIC entry without
`S`, a DTPMOD entry of a symbol without a definition, and a DTPOFF entry without
a definition (the null symbol has none). -/
inductive Unresolved : Prop
  | symbolic : rela.rType = arch.REL_GOT ∨ rela.rType = arch.REL_SYMBOLIC →
      symbolOf ifunc findSymbol (lib.lookup libs rela.rSymbol).1 (lib.lookup libs rela.rSymbol).2 = none →
      Unresolved
  | dtpmod : rela.rType = arch.REL_DTPMOD → rela.rSymbol ≠ 0 → (lib.lookup libs rela.rSymbol).2 = none →
      Unresolved
  | dtpoff : rela.rType = arch.REL_DTPOFF → (lib.lookup libs rela.rSymbol).2 = none → Unresolved

theorem ElfDylib.dynHandler_fails_iff (idx : Nat) (mem mem' : Writes) :
    lib.dynHandler arch ifunc libs findSymbol rela idx mem = .ok (mem', true) ↔
      mem' = mem ∧ Unresolved arch ifunc lib libs findSymbol rela := by
  constructor
  · intro h
    unfold ElfDylib.dynHandler at h
    dsimp only at h
    split_ifs at h with hsymb hrel hmod hsym hoff <;> (try split at h) <;> (try split at h) <;>
      simp only [Except.ok.injEq, Prod.mk.injEq, Bool.false_eq_true, and_false, and_true,
        reduceCtorEq] at h
    · exact ⟨h.symm, .symbolic hsymb ‹_›⟩
    · exact ⟨h.symm, .dtpmod hmod hsym ‹_›⟩
    · exact ⟨h.symm, .dtpoff hoff ‹_›⟩
  · rintro ⟨rfl, h⟩
    cases h with
    | symbolic ht hS => simp [ElfDylib.dynHandler, ht, hS]
    | dtpmod ht hsym hd =>
      have := arch.dtpmod_ne
      simp [ElfDylib.dynHandler, ht, hsym, hd, this]
    | dtpoff ht hd =>
      have := arch.dtpoff_ne
      simp [ElfDylib.dynHandler, ht, hd, this]

end Failure

/-- **The null symbol stays unresolved.** Under `relocate`, whose resolver
finds nothing, the dynamic handler calls `deal_fail` on every GOT, SYMBOLIC or
DTPOFF entry of symbol 0, whatever the image and the libraries: no call ever
relocates it, while a DTPMOD entry of symbol 0 gets the image's own module. -/
theorem null_symbol_unresolved (arch : Arch) (ifunc : Usize → Usize) (lib : ElfDylib)
    (libs : List RelocatedDylib) (rela : ElfRela) (idx : Nat) (mem : Writes)
    (hsym : rela.rSymbol = 0)
    (htype : rela.rType = arch.REL_GOT ∨ rela.rType = arch.REL_SYMBOLIC ∨
      rela.rType = arch.REL_DTPOFF) :
    lib.dynHandler arch ifunc libs (fun _ => none) rela idx mem = .ok (mem, true) := by
  refine (lib.dynHandler_fails_iff arch ifunc libs _ rela idx mem mem).mpr ⟨rfl, ?_⟩
  rcases htype with ht | ht | ht
  · exact .symbolic (Or.inl ht) (by simp [hsym, symbolOf])
  · exact .symbolic (Or.inr ht) (by simp [hsym, symbolOf])
  · exact .dtpoff ht (by simp [hsym])

/-- On riscv64, an `R_RISCV_64` entry of symbol 0 with addend `0x1234`. -/
theorem null_symbol_unresolved_riscv64 :
    (⟨0x2000, 2, 0x1234⟩ : ElfRela).rSymbol = 0 ∧
      (⟨0x2000, 2, 0x1234⟩ : ElfRela).rType = riscv64.REL_SYMBOLIC ∧
      (testImage ⟨0, SHN_UNDEF, 0⟩ ⟨none, none⟩).dynHandler riscv64 id [] (fun _ => none)
        ⟨0x2000, 2, 0x1234⟩ 0 [] = .ok ([], true) :=
  ⟨by decide, by decide, null_symbol_unresolved riscv64 id _ [] _ 0 [] (by decide)
    (Or.inr (Or.inl (by decide)))⟩

end ElfLoader.Relocation
