import ElfLoader.Relocation.Dylib

/-!
`ElfDylib::not_relocated` and `ElfDylib::finish` (relocation.rs): the check
that ends relocation, and the message it fails with.

* `ElfDylib.notRelocated_of_not_utf8` — `to_str().unwrap()` panics on a name
  that is not UTF-8, before any array is read.
* `ElfDylib.notRelocated_eq` — when the name is UTF-8 and every array the image
  has is non-empty, `not_relocated` returns the name followed by `[name] ` for
  every entry whose bit is clear and that names a symbol, PLT array first.
* `ElfDylib.notRelocated_of_empty` — an array that is present but empty has a
  bitmap of no units, and `BitMapIterator::new` panics on it.
* `isFinished_unresolved_plt` — `is_finished` lets the dynamic array's answer
  overwrite the PLT array's, so an image whose PLT entry is unresolved passes
  `finish`'s check once its dynamic array is done.
* `notRelocated_empty_plt` — an empty PLT array beside a dynamic array with an
  unresolved entry makes `finish` panic while it builds its error.
-/

namespace ElfLoader.Relocation

/-! ### `not_relocated` -/

/-- What `not_relocated` lists for an entry: `[name] ` when it names a symbol. -/
def ElfDylib.entryName (lib : ElfDylib) (rela : ElfRela) : Option String :=
  if rela.rSymbol ≠ 0 then some ("[" ++ (lib.symbols.relSymbol rela.rSymbol).2.name ++ "] ")
  else none

/-- One turn of `not_relocated`'s loop, on the index the iterator yields. -/
def ElfDylib.pushName (lib : ElfDylib) (array : List ElfRela) (f : String) (idx : Nat) :
    Except Abort String := do
  let rela ← sliceIndex array idx
  let rSym := rela.rSymbol
  if rSym ≠ 0 then
    let syminfo := (lib.symbols.relSymbol rSym).2
    pure (f ++ "[" ++ syminfo.name ++ "] ")
  else pure f

/-- `if let Some(array) = .. { let mut iter = BitMapIterator::new(..); while .. }`:
the loop over one array, when the image has it. -/
def ElfDylib.pushNames (lib : ElfDylib) (f : String) : Option ElfRelaArray → Except Abort String
  | some array => do
    let iter ← BitMapIterator.new array.state
    iter.fold (lib.pushName array.array) f
  | none => pure f

/-- `not_relocated`: the image's name, which `to_str().unwrap()` reads as
UTF-8, then the loops over the PLT array and the dynamic array. -/
def ElfDylib.notRelocated (lib : ElfDylib) : Except Abort String := do
  let name ← lib.name.toStrUnwrap
  let f := name ++ ": The symbols that have not been relocated:   "
  let f ← lib.pushNames f lib.relocation.pltrel
  lib.pushNames f lib.relocation.dynrel

/-- The names an array contributes: those of its entries whose bit is clear, in
index order. -/
def ElfDylib.missingNames (lib : ElfDylib) (a : ElfRelaArray) : List String :=
  a.state.relocated.zeros.filterMap fun idx => a.array[idx]?.bind lib.entryName

/-- The names of the image's unrelocated entries, PLT array first. -/
def ElfDylib.unrelocatedNames (lib : ElfDylib) : List String :=
  (lib.relocation.pltrel.toList ++ lib.relocation.dynrel.toList).flatMap lib.missingNames

theorem ElfDylib.pushName_eq (lib : ElfDylib) (array : List ElfRela) (f : String) (idx : Nat) :
    lib.pushName array f idx = (sliceIndex array idx).map fun rela =>
      match lib.entryName rela with
      | some s => f ++ s
      | none => f := by
  unfold pushName entryName
  cases sliceIndex array idx with
  | error e => rfl
  | ok rela =>
    by_cases h : rela.rSymbol = 0
    · simp [h, bind, Except.bind, pure, Except.pure, Except.map]
    · simp [h, bind, Except.bind, pure, Except.pure, Except.map, String.append_assoc]

theorem ElfDylib.foldlM_pushName (lib : ElfDylib) (array : List ElfRela) :
    ∀ (l : List Nat), (∀ idx ∈ l, idx < array.length) → ∀ f,
      l.foldlM (lib.pushName array) f =
        .ok ((l.filterMap fun idx => array[idx]?.bind lib.entryName).foldl (· ++ ·) f)
  | [], _, f => rfl
  | idx :: l, hl, f => by
    have hidx : idx < array.length := hl idx (List.mem_cons_self _ _)
    have ih := lib.foldlM_pushName array l fun i hi => hl i (List.mem_cons_of_mem _ hi)
    rw [List.foldlM_cons, lib.pushName_eq, sliceIndex_of_lt hidx, List.filterMap_cons,
      List.getElem?_eq_getElem hidx, Option.some_bind, List.get_eq_getElem]
    simp only [Except.map, bind, Except.bind, ih]
    cases lib.entryName array[idx] <;> rfl

/-- On well-formed non-empty arrays, the loop appends the array's missing names. -/
theorem ElfDylib.pushNames_eq (lib : ElfDylib) (f : String) {o : Option ElfRelaArray}
    (h : ∀ a ∈ o, a.WellFormed ∧ a.array ≠ []) :
    lib.pushNames f o = .ok ((o.toList.flatMap lib.missingNames).foldl (· ++ ·) f) := by
  rcases o with _ | a
  · rfl
  obtain ⟨wf, hne⟩ := h a rfl
  have hv : 0 < a.state.relocated.unitCount := by
    rw [wf.unitCount]
    have := List.length_pos.mpr hne
    omega
  have hnew : BitMapIterator.new a.state = .ok ⟨a.state.relocated.bitmap.get ⟨0, hv⟩, 0, a.state⟩ := by
    simp [BitMapIterator.new, BitMap.unit_eq_ok hv, bind, Except.bind, pure, Except.pure]
  simp only [pushNames, hnew, bind, Except.bind]
  rw [BitMapIterator.fold_eq _ _ _ hv, BitMapIterator.remaining_new hnew,
    lib.foldlM_pushName a.array _ wf.zeros_lt]
  simp [missingNames]

/-- A well-formed array with no entries has a bitmap of no units, which panics
the loop. -/
theorem ElfDylib.pushNames_of_empty (lib : ElfDylib) (f : String) {a : ElfRelaArray}
    (wf : a.WellFormed) (h : a.array = []) : lib.pushNames f (some a) = .error .indexOutOfBounds := by
  have hunits : a.state.relocated.unitCount ≤ 0 := by rw [wf.unitCount, h]; decide
  simp [pushNames, BitMapIterator.new, BitMap.unit_eq_error hunits, bind, Except.bind]

/-- A name that is not UTF-8 panics `not_relocated` at `to_str().unwrap()`,
before either array is read. -/
theorem ElfDylib.notRelocated_of_not_utf8 (lib : ElfDylib) (h : lib.name.toStr = none) :
    lib.notRelocated = .error .unwrapErr := by
  simp [notRelocated, CString.toStrUnwrap_of_none h, bind, Except.bind]

/-- **What `not_relocated` says.** When the image's name is UTF-8 and every
array the image has is well formed and non-empty, it returns the name followed
by `[name] ` for every entry whose bit is clear and that names a symbol, PLT
array first, each array in index order. -/
theorem ElfDylib.notRelocated_eq (lib : ElfDylib) {name : String} (hname : lib.name.toStr = some name)
    (hplt : ∀ a ∈ lib.relocation.pltrel, a.WellFormed ∧ a.array ≠ [])
    (hdyn : ∀ a ∈ lib.relocation.dynrel, a.WellFormed ∧ a.array ≠ []) :
    lib.notRelocated = .ok (lib.unrelocatedNames.foldl (· ++ ·)
      (name ++ ": The symbols that have not been relocated:   ")) := by
  simp only [notRelocated, CString.toStrUnwrap_of_toStr hname, pushNames_eq lib _ hplt, bind,
    Except.bind, pushNames_eq lib _ hdyn, unrelocatedNames, List.flatMap_append, List.foldl_append]

/-- **An empty array panics `not_relocated`.** When the image's name is UTF-8,
whichever of its well-formed arrays is present but empty stops the walk at
`BitMapIterator::new`, before the other array or after it. -/
theorem ElfDylib.notRelocated_of_empty (lib : ElfDylib) {name : String} (hname : lib.name.toStr = some name)
    (hplt : ∀ a ∈ lib.relocation.pltrel, a.WellFormed)
    (hdyn : ∀ a ∈ lib.relocation.dynrel, a.WellFormed)
    (hempty : (∃ a ∈ lib.relocation.pltrel, a.array = []) ∨
      ∃ a ∈ lib.relocation.dynrel, a.array = []) :
    lib.notRelocated = .error .indexOutOfBounds := by
  unfold notRelocated
  rw [CString.toStrUnwrap_of_toStr hname]
  by_cases hp : ∃ a ∈ lib.relocation.pltrel, a.array = []
  · obtain ⟨a, ha, he⟩ := hp
    simp [Option.mem_def.mp ha, bind, Except.bind, pushNames_of_empty lib _ (hplt a ha) he]
  · obtain ⟨a, ha, he⟩ := hempty.resolve_left hp
    push_neg at hp
    simp [pushNames_eq lib _ fun a ha => ⟨hplt a ha, hp a ha⟩, bind, Except.bind,
      Option.mem_def.mp ha, pushNames_of_empty lib _ (hdyn a ha) he]

/-! ### `finish` -/

/-- `finish`: the error `not_relocated` describes while `is_finished` is false;
otherwise the GNU_RELRO segment made read-only unless the image binds lazily,
and the `RelocatedDylib`. The `.init` and `.init_array` functions it calls are
outside the model. -/
def ElfDylib.finish (lib : ElfDylib) : Except Abort (Result RelocatedDylib) :=
  if !lib.isFinished then do
    let msg ← lib.notRelocated
    pure (.error (.relocateError msg))
  else
    let relro : Result Unit := if !lib.lazy then lib.relro.getD (.ok ()) else .ok ()
    pure (relro.map fun _ => ⟨lib.base, lib.symbols, lib.tls⟩)

/-- **`is_finished` overlooks an unresolved PLT entry.** On riscv64, an eager
image with one JUMP_SLOT entry for a symbol nothing defines and one RELATIVE
entry: after `relocate(&[])` the PLT array is still Relocating, yet
`is_finished` is true and `finish` returns the relocated library. -/
theorem isFinished_unresolved_plt :
    ∃ lib mem, (testImage ⟨0, SHN_UNDEF, 0⟩ (ElfRelocation.new (some [⟨0x3000, 0x100000005, 0⟩])
        (some [⟨0x2000, 3, 0x100⟩]))).relocate riscv64 id [] [] = .ok (lib, mem) ∧
      lib.relocation.pltrel.map (·.state.stage) = some .relocating ∧ lib.isFinished = true ∧
      ∃ dylib, lib.finish = .ok (.ok dylib) :=
  ⟨_, _, rfl, rfl, rfl, _, rfl⟩

/-- **An empty PLT array panics `finish`.** On riscv64, an image with a present
but empty PLT array and one SYMBOLIC entry for a symbol nothing defines: after
`relocate(&[])` the image is not finished, and `not_relocated`, called by
`finish` to build its error, indexes unit 0 of the empty PLT bitmap. -/
theorem notRelocated_empty_plt :
    ∃ lib mem, (testImage ⟨0, SHN_UNDEF, 0⟩ (ElfRelocation.new (some [])
        (some [⟨0x2000, 0x100000002, 0⟩]))).relocate riscv64 id [] [] = .ok (lib, mem) ∧
      lib.isFinished = false ∧ lib.notRelocated = .error .indexOutOfBounds ∧
      lib.finish = .error .indexOutOfBounds :=
  ⟨_, _, rfl, rfl, rfl, rfl⟩

end ElfLoader.Relocation
