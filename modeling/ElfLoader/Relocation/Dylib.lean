import ElfLoader.CString
import ElfLoader.Relocation.RelaArray

/-!
`ElfDylib::relocate_impl` (relocation.rs): the two passes over an image's
relocation arrays, the handlers they run, and the symbol search behind them.

* `findSymdef` is `find_symdef`: the image's own definition of a symbol it
  defines, otherwise the first library of `libs` that exports the name.
* `ElfDylib.pltHandler` and `ElfDylib.dynHandler` are the closures the PLT pass
  and the dynamic pass hand to `ElfRelaArray::relocate`; the fallback resolver
  `findSymbol` is asked before `find_symdef` is consulted.
* `ElfDylib.relocateImpl` runs the PLT pass unless the image binds lazily, then
  the dynamic pass, and appends `libs` to `dep_libs`; `relocate` calls it with
  a resolver that knows nothing, `relocate_with` with the caller's and keeps it.
* `ElfDylib.isFinished_iff` — `is_finished` reads the dynamic array's stage
  whenever there is a dynamic array, and the PLT array's only when there is none.

Memory is the list of words written, in order (`Writes`): `write_val` appends
`(segments.base() + offset, val)`. Calling the IFUNC resolver at an address is
the function `ifunc`, so a resolver is a function of its address.
-/

namespace ElfLoader.Relocation

/-- `SHN_UNDEF`: the section index of a symbol the image does not define. -/
def SHN_UNDEF : BitVec 16 := 0

/-- `STT_GNU_IFUNC`: the type of a symbol whose address is a resolver. -/
def STT_GNU_IFUNC : BitVec 8 := 10

/-- An `ElfSymbol` (`Elf64_Sym`), the fields relocation reads. -/
structure ElfSymbol where
  stInfo : BitVec 8
  stShndx : BitVec 16
  stValue : Usize
  deriving DecidableEq, Repr

/-- A `SymbolInfo`: the name a relocation entry asks for, with its version. -/
structure SymbolInfo where
  name : String
  version : Option String
  deriving DecidableEq, Repr

/-- Modelled from the spec: `SymbolData` (symbol.rs is not among the sources),
an image's symbol tables as the two lookups relocation makes. `relSymbol` is
`rel_symbol`, the entry and name of a symbol index; `getSym` is `get_sym`, the
definition the image exports under a name and version, if any. -/
structure SymbolData where
  relSymbol : Nat → ElfSymbol × SymbolInfo
  getSym : SymbolInfo → Option ElfSymbol

/-- A `RelocatedDylib` as relocation reads it: its `base()`, its symbol tables
and the module id of its TLS block. -/
structure RelocatedDylib where
  base : Usize
  symbols : SymbolData
  tls : Option Usize

/-- A fallback resolver, `Fn(&str) -> Option<*const ()>`. -/
abbrev FindSymbol := String → Option Usize

/-- An `ElfDylib`, the fields relocation and `finish` read. `name` is the
`CString` the object gave as its file name, `base` is `segments.base()`, `tls`
the module id of the image's TLS block, and `relro` the outcome of `relro()`,
the mprotect of its GNU_RELRO segment, when it has one. -/
structure ElfDylib where
  name : CString
  symbols : SymbolData
  tls : Option Usize
  base : Usize
  depLibs : List RelocatedDylib
  closures : List FindSymbol
  relocation : ElfRelocation
  relro : Option (Result Unit)
  lazy : Bool

/-- The words relocation writes, oldest first: `(address, value)`. -/
abbrev Writes := List (Usize × Usize)

/-- `write_val`: the word `val` stored at `segments.base() + offset`. -/
def ElfDylib.writeVal (lib : ElfDylib) (offset val : Usize) (mem : Writes) : Writes :=
  mem ++ [(lib.base + offset, val)]

/-- A `SymDef`: a definition, the base of the image that holds it and that
image's TLS module id. -/
structure SymDef where
  sym : ElfSymbol
  base : Usize
  tls : Option Usize

/-- `From<SymDef> for *const ()`: the definition's address, or what the
resolver at that address returns when the symbol is an `STT_GNU_IFUNC`. -/
def SymDef.into (ifunc : Usize → Usize) (symdef : SymDef) : Usize :=
  if symdef.sym.stInfo &&& 0xf ≠ STT_GNU_IFUNC then symdef.base + symdef.sym.stValue
  else ifunc (symdef.base + symdef.sym.stValue)

/-- `find_symdef`: the image's own definition when it defines the symbol,
otherwise the first library of `libs` whose `get_sym` finds it. -/
def findSymdef (elfLib : ElfDylib) (libs : List RelocatedDylib) (dynsym : ElfSymbol)
    (syminfo : SymbolInfo) : Option SymDef :=
  if dynsym.stShndx ≠ SHN_UNDEF then some ⟨dynsym, elfLib.base, elfLib.tls⟩
  else libs.findSome? fun lib => (lib.symbols.getSym syminfo).map fun sym => ⟨sym, lib.base, lib.tls⟩

/-! ### The handlers of the two passes -/

section Handlers

variable (arch : Arch) (ifunc : Usize → Usize)

/-- `S` as both handlers compute it: the fallback resolver's answer for the
name, else the address of the definition found. -/
def symbolOf (findSymbol : FindSymbol) (name : String) (symdef : Option SymDef) : Option Usize :=
  (findSymbol name).or (symdef.map (SymDef.into ifunc))

/-- The closure of the PLT pass: every entry is a `REL_JUMP_SLOT` and gets `S`. -/
def ElfDylib.pltHandler (lib : ElfDylib) (libs : List RelocatedDylib) (findSymbol : FindSymbol) :
    Handler Writes := fun rela _ mem =>
  let rType := rela.rType
  let rSym := rela.rSymbol
  if rSym = 0 then .error .assertFailed else
  let dynsym := (lib.symbols.relSymbol rSym).1
  let syminfo := (lib.symbols.relSymbol rSym).2
  match symbolOf ifunc findSymbol syminfo.name (findSymdef lib libs dynsym syminfo) with
  | none => .ok (mem, true)
  | some symbol =>
    if rType = arch.REL_JUMP_SLOT then .ok (lib.writeVal rela.rOffset symbol mem, false)
    else .error .unreachable

/-- The name and the definition the dynamic pass looks up for a symbol index:
`("", None)` for the null symbol. -/
def ElfDylib.lookup (lib : ElfDylib) (libs : List RelocatedDylib) (rSym : Nat) :
    String × Option SymDef :=
  if rSym ≠ 0 then
    let dynsym := (lib.symbols.relSymbol rSym).1
    let syminfo := (lib.symbols.relSymbol rSym).2
    (syminfo.name, findSymdef lib libs dynsym syminfo)
  else ("", none)

/-- The closure of the dynamic pass, one branch per relocation type in the
order of the source's `match`. -/
def ElfDylib.dynHandler (lib : ElfDylib) (libs : List RelocatedDylib) (findSymbol : FindSymbol) :
    Handler Writes := fun rela _ mem =>
  let rType := rela.rType
  let rSym := rela.rSymbol
  let name := (lib.lookup libs rSym).1
  let symdef := (lib.lookup libs rSym).2
  if rType = arch.REL_GOT ∨ rType = arch.REL_SYMBOLIC then
    match symbolOf ifunc findSymbol name symdef with
    | none => .ok (mem, true)
    | some symbol => .ok (lib.writeVal rela.rOffset (symbol + rela.rAddend) mem, false)
  else if rType = arch.REL_RELATIVE then
    .ok (lib.writeVal rela.rOffset (lib.base + rela.rAddend) mem, false)
  else if rType = arch.REL_DTPMOD then
    if rSym ≠ 0 then
      match symdef with
      | none => .ok (mem, true)
      | some symdef =>
        match symdef.tls with
        | some tls => .ok (lib.writeVal rela.rOffset tls mem, false)
        | none => .error .unwrapNone
    else
      match lib.tls with
      | some tls => .ok (lib.writeVal rela.rOffset tls mem, false)
      | none => .error .unwrapNone
  else if rType = arch.REL_DTPOFF then
    match symdef with
    | none => .ok (mem, true)
    | some symdef =>
      .ok (lib.writeVal rela.rOffset
        (symdef.sym.stValue + rela.rAddend - arch.TLS_DTV_OFFSET) mem, false)
  else .error .unimplemented

end Handlers

/-! ### `relocate_impl`, `relocate` and `relocate_with` -/

section Relocate

variable {σ : Type}

/-- `if let Some(rela_array) = array { rela_array.relocate(f) }`. -/
def relocateArray (array : Option ElfRelaArray) (f : Handler σ) (m : σ) :
    Except Abort (Option ElfRelaArray × σ) :=
  match array with
  | some a => do
    let (a, m) ← a.relocate f m
    pure (some a, m)
  | none => pure (none, m)

variable (arch : Arch) (ifunc : Usize → Usize)

/-- `relocate_impl`: the PLT pass unless the image binds lazily, then the
dynamic pass; `libs` joins `dep_libs`. -/
def ElfDylib.relocateImpl (lib : ElfDylib) (libs : List RelocatedDylib) (findSymbol : FindSymbol)
    (mem : Writes) : Except Abort (ElfDylib × Writes) := do
  let relocation := lib.relocation
  let (pltrel, mem) ← if !lib.lazy then
      relocateArray relocation.pltrel (lib.pltHandler arch ifunc libs findSymbol) mem
    else pure (relocation.pltrel, mem)
  let (dynrel, mem) ← relocateArray relocation.dynrel (lib.dynHandler arch ifunc libs findSymbol) mem
  pure ({ lib with relocation := ⟨pltrel, dynrel⟩, depLibs := lib.depLibs ++ libs }, mem)

/-- `relocate`: `relocate_impl` with a resolver that finds nothing. -/
def ElfDylib.relocate (lib : ElfDylib) (libs : List RelocatedDylib) (mem : Writes) :
    Except Abort (ElfDylib × Writes) :=
  lib.relocateImpl arch ifunc libs (fun _ => none) mem

/-- `relocate_with`: `relocate_impl` with the caller's resolver, which the image
then keeps among its `closures`. -/
def ElfDylib.relocateWith (lib : ElfDylib) (libs : List RelocatedDylib) (func : FindSymbol)
    (mem : Writes) : Except Abort (ElfDylib × Writes) := do
  let (lib, mem) ← lib.relocateImpl arch ifunc libs (fun name => func name) mem
  pure ({ lib with closures := lib.closures ++ [func] }, mem)

end Relocate

/-! ### `is_finished` -/

/-- `ElfDylib::is_finished`: `finished` starts true, takes the PLT array's
answer unless the image binds lazily, then the dynamic array's. -/
def ElfDylib.isFinished (lib : ElfDylib) : Bool :=
  let finished := true
  let finished := if !lib.lazy then
      match lib.relocation.pltrel with
      | some array => array.isFinished
      | none => finished
    else finished
  match lib.relocation.dynrel with
  | some array => array.isFinished
  | none => finished

@[simp]
theorem ElfRelaArray.isFinished_iff (a : ElfRelaArray) :
    a.isFinished = true ↔ a.state.stage = .finish := by
  unfold ElfRelaArray.isFinished
  split_ifs with h <;> simp_all

/-- What `is_finished` reads: the dynamic array's stage whenever the image has
a dynamic array, and the PLT array's (if not lazy) only when it has none. -/
theorem ElfDylib.isFinished_iff (lib : ElfDylib) :
    lib.isFinished = true ↔ match lib.relocation.dynrel with
      | some array => array.state.stage = .finish
      | none => lib.lazy = false → ∀ array ∈ lib.relocation.pltrel, array.state.stage = .finish := by
  unfold ElfDylib.isFinished
  rcases lib.relocation.dynrel with _ | dyn
  · rcases lib.relocation.pltrel with _ | plt <;> cases lib.lazy <;> simp
  · simp

/-- A test image `libtest.so` at base `0x10000` that binds eagerly, exports
nothing, has no TLS block, and whose every symbol index names `foo` with the
entry `sym`. -/
def testImage (sym : ElfSymbol) (relocation : ElfRelocation) : ElfDylib where
  name := ⟨"libtest.so".toUTF8.data.toList, by decide⟩
  symbols := ⟨fun _ => (sym, ⟨"foo", none⟩), fun _ => none⟩
  tls := none
  base := 0x10000
  depLibs := []
  closures := []
  relocation := relocation
  relro := none
  lazy := false

/-- The test image whose one SYMBOLIC entry names `foo`, which nothing defines. -/
def unresolvedImage : ElfDylib :=
  testImage ⟨0, SHN_UNDEF, 0⟩ (ElfRelocation.new none (some [⟨0x2000, 0x100000002, 0⟩]))

end ElfLoader.Relocation
