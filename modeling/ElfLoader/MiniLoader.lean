import ElfLoader.Dynamic

/-!
What `rust_main` (mini-loader/src/main.rs) does to the initial process stack
before it jumps to the target: it finds the environment and the auxiliary
vector, rewrites the auxv entries that describe the running image so that they
describe the target, and moves everything above `argc` one word down to drop
its own `argv[0]`.

* `ProcessStack` is the layout the kernel documents, with the facts that make
  it one (`argc` fits a word, no environment pointer is null, no auxv tag
  before the end is `AT_NULL`); `ProcessStack.words` lays it out from `sp`.
* `countEnv_words` and `rewriteAux_words` — the two loops over that layout.
* `rust_main_stack` — from a stack with at least two arguments, `rust_main`
  leaves the layout of `argc - 1`, `argv[1..]`, the same environment, and the
  same auxv entries with the target's values (`ProcessStack.forTarget`).
* `selfRelocation` is the self-relocation `rust_main` runs first;
  `selfRelocation_eq` — it writes `base + r_addend` at `r_offset + base` for
  each of the first `DT_RELACOUNT` entries, whatever their type, and only
  prints a line for an entry that is not RELATIVE.

Addresses are word offsets from `sp`; the stack is the list of words the model
holds there, and a read or write past its end is undefined. The loading of the
target is outside the model: the target is what `rust_main` reads of it
(`Target`).
-/

namespace ElfLoader.MiniLoader

/-! ### Stack memory -/

/-- `ptr.read()` at word `i` from `sp`. -/
def read (mem : List Usize) (i : Nat) : Except Abort Usize :=
  match mem[i]? with
  | some w => .ok w
  | none => .error .undefined

/-- `ptr.write(v)` at word `i` from `sp`. -/
def write (mem : List Usize) (i : Nat) (v : Usize) : Except Abort (List Usize) :=
  if i < mem.length then .ok (mem.set i v) else .error .undefined

/-- `core::ptr::copy(src, dst, count)` on words: the `count` words at `src` are
read as through a buffer and written at `dst`. -/
def copy (mem : List Usize) (src dst count : Nat) : Except Abort (List Usize) :=
  if src + count ≤ mem.length ∧ dst + count ≤ mem.length then
    .ok (mem.take dst ++ (mem.drop src).take count ++ mem.drop (dst + count))
  else .error .undefined

theorem read_cons_zero (w : Usize) (mem : List Usize) : read (w :: mem) 0 = .ok w := by
  simp [read]

theorem write_cons_zero (w v : Usize) (mem : List Usize) : write (w :: mem) 0 v = .ok (v :: mem) := by
  simp [write]

/-- Moving the words above `sp` one down. -/
theorem copy_down (w : Usize) (mem : List Usize) {n : Nat} (hn : n ≤ mem.length) :
    copy (w :: mem) 1 0 n = .ok (mem.take n ++ (w :: mem).drop n) := by
  simp only [copy, List.length_cons, List.take_zero, List.drop_one, List.tail_cons, List.nil_append,
    Nat.zero_add]
  rw [if_pos ⟨by omega, by omega⟩]

/-! ### The auxiliary vector -/

/-- `AT_NULL`: the end of the auxv. -/
def AT_NULL : Usize := 0
/-- `AT_PHDR`: the address of the program headers. -/
def AT_PHDR : Usize := 3
/-- `AT_PHENT`: the size of one program header. -/
def AT_PHENT : Usize := 4
/-- `AT_PHNUM`: how many program headers there are. -/
def AT_PHNUM : Usize := 5
/-- `AT_BASE`: the base of the interpreter. -/
def AT_BASE : Usize := 7
/-- `AT_ENTRY`: the entry point of the program. -/
def AT_ENTRY : Usize := 9
/-- `AT_EXECFN`: the file name of the program. -/
def AT_EXECFN : Usize := 31

/-- `size_of::<Phdr>()`, an `Elf64_Phdr`. -/
def sizeOfPhdr : Usize := 56

/-- What `rust_main` reads of the image it loaded: `phdrs().as_ptr()`,
`phdrs().len()`, `entry()`, and the entry of the interpreter it loaded, if the
target asks for one. -/
structure Target where
  phdrs : Usize
  phnum : Usize
  entry : Usize
  interpEntry : Option Usize

/-- The `match` of the second auxv loop: the new value of an entry that is not
`AT_NULL`, `execfn` being `argv[1]`. -/
def auxVal (target : Target) (execfn : Usize) (tag val : Usize) : Usize :=
  if tag = AT_PHDR then target.phdrs
  else if tag = AT_PHNUM then target.phnum
  else if tag = AT_PHENT then sizeOfPhdr
  else if tag = AT_ENTRY then target.entry
  else if tag = AT_EXECFN then execfn
  else if tag = AT_BASE then 0
  else val

/-! ### The loops -/

/-- The loop that counts environment pointers, from `env` on. -/
def countEnv : List Usize → Except Abort Nat
  | [] => .error .undefined
  | w :: rest => if w ≠ 0 then (· + 1) <$> countEnv rest else .ok 0

/-- The second auxv loop, from `cur_aux_ptr` on: each entry's value rewritten
until the `AT_NULL` entry, and the number of entries before it. -/
def rewriteAux (newVal : Usize → Usize → Usize) : List Usize → Except Abort (List Usize × Nat)
  | tag :: val :: rest =>
    if tag = AT_NULL then .ok (tag :: val :: rest, 0)
    else (fun r => (tag :: newVal tag val :: r.1, r.2 + 1)) <$> rewriteAux newVal rest
  | _ => .error .undefined

/-! ### `rust_main` -/

/-- `rust_main` as it acts on the stack: the words from `sp` it leaves, and the
entry it hands to `trampoline`. The self-relocation it runs between the
environment count and the `argc` check writes only the loader's own image; it
is `selfRelocation` below. -/
def rustMain (target : Target) (mem : List Usize) : Except Abort (Usize × List Usize) := do
  let argc ← read mem 0
  let argv := 1
  let env := argv + argc.toNat + 1
  let envCount ← countEnv (mem.drop env)
  let auxv := env + (envCount + 1)
  if argc = 1 then throw (.panic "no input file")
  let elfName ← read mem (argv + 1)
  let (aux, n) ← rewriteAux (auxVal target elfName) (mem.drop auxv)
  let mem := mem.take auxv ++ aux
  -- `cur_aux_ptr` stops on the `AT_NULL` entry, two words per entry
  let curAuxPtr := auxv + 2 * n
  -- `cur_aux_ptr.add(1) as usize - sp.add(1) as usize`, in bytes
  let size := 8 * (curAuxPtr + 2) - 8 * argv
  let mem ← copy mem argv 0 (size / 8)
  let mem ← write mem 0 (argc - 1)
  pure (target.interpEntry.getD target.entry, mem)

/-! ### The layout the kernel documents -/

/-- The auxv entries as words, two per entry. -/
def auxWords (auxv : List (Usize × Usize)) : List Usize :=
  auxv.flatMap fun a => [a.1, a.2]

/-- An initial process stack: `argc`, `argv`, `NULL`, the environment, `NULL`,
and the auxv entries, ended by an `AT_NULL` entry with its value. -/
structure ProcessStack where
  argv : List Usize
  envp : List Usize
  auxv : List (Usize × Usize)
  atNullVal : Usize
  argc_lt : argv.length < UInt64.size
  envp_ne : ∀ e ∈ envp, e ≠ 0
  auxv_ne : ∀ a ∈ auxv, a.1 ≠ AT_NULL

/-- The words of the stack from `sp`. -/
def ProcessStack.words (s : ProcessStack) : List Usize :=
  [BitVec.ofNat 64 s.argv.length] ++ s.argv ++ [0] ++ s.envp ++ [0] ++ auxWords s.auxv ++
    [AT_NULL, s.atNullVal]

/-- The stack the target should find: its own arguments, the same environment,
and the auxv describing it. -/
def ProcessStack.forTarget (s : ProcessStack) (target : Target) : ProcessStack where
  argv := s.argv.tail
  envp := s.envp
  auxv := s.auxv.map fun a => (a.1, auxVal target (s.argv.getD 1 0) a.1 a.2)
  atNullVal := s.atNullVal
  argc_lt := by
    have := s.argc_lt
    rw [List.length_tail]
    omega
  envp_ne := s.envp_ne
  auxv_ne := by
    simp only [List.mem_map, forall_exists_index, and_imp]
    rintro _ a ha rfl
    exact s.auxv_ne a ha

/-- `argc` is the number of arguments: it fits a word. -/
theorem ProcessStack.argc_toNat (s : ProcessStack) :
    (BitVec.ofNat 64 s.argv.length).toNat = s.argv.length := by
  rw [BitVec.toNat_ofNat]
  exact Nat.mod_eq_of_lt s.argc_lt

theorem auxWords_cons (a : Usize × Usize) (auxv : List (Usize × Usize)) :
    auxWords (a :: auxv) = a.1 :: a.2 :: auxWords auxv := rfl

theorem auxWords_length (auxv : List (Usize × Usize)) : (auxWords auxv).length = 2 * auxv.length := by
  induction auxv with
  | nil => rfl
  | cons a auxv ih => simp [auxWords] at ih ⊢; omega

/-- **The environment loop.** It counts the environment pointers. -/
theorem countEnv_words (envp rest : List Usize) (h : ∀ e ∈ envp, e ≠ 0) :
    countEnv (envp ++ 0 :: rest) = .ok envp.length := by
  induction envp with
  | nil => rfl
  | cons e envp ih =>
    have he : e ≠ 0 := h e (List.mem_cons_self _ _)
    rw [List.cons_append, countEnv, if_pos he, ih fun e' he' => h e' (List.mem_cons_of_mem _ he')]
    rfl

/-- **The auxv loop.** It rewrites every entry before `AT_NULL` and stops on
that entry. -/
theorem rewriteAux_words (f : Usize → Usize → Usize) (auxv : List (Usize × Usize))
    (v : Usize) (rest : List Usize) (h : ∀ a ∈ auxv, a.1 ≠ AT_NULL) :
    rewriteAux f (auxWords auxv ++ AT_NULL :: v :: rest) =
      .ok (auxWords (auxv.map fun a => (a.1, f a.1 a.2)) ++ AT_NULL :: v :: rest, auxv.length) := by
  induction auxv with
  | nil => rfl
  | cons a auxv ih =>
    have ha : a.1 ≠ AT_NULL := h a (List.mem_cons_self _ _)
    rw [auxWords_cons, List.map_cons, auxWords_cons, List.cons_append, List.cons_append, rewriteAux,
      if_neg ha, ih fun a' ha' => h a' (List.mem_cons_of_mem _ ha')]
    rfl

/-! ### The blocks of the layout -/

section Blocks

variable (w : Usize) (argv envp auxw : List Usize)

theorem drop_to_env :
    (w :: (argv ++ 0 :: (envp ++ 0 :: auxw))).drop (1 + argv.length + 1) = envp ++ 0 :: auxw := by
  rw [show 1 + argv.length + 1 = (argv.length + 1) + 1 by omega, List.drop_succ_cons,
    List.drop_append, List.drop_one, List.tail_cons]

theorem drop_to_auxv :
    (w :: (argv ++ 0 :: (envp ++ 0 :: auxw))).drop (1 + argv.length + 1 + (envp.length + 1)) = auxw := by
  rw [← List.drop_drop, drop_to_env, List.drop_append, List.drop_one, List.tail_cons]

theorem take_to_auxv :
    (w :: (argv ++ 0 :: (envp ++ 0 :: auxw))).take (1 + argv.length + 1 + (envp.length + 1)) =
      w :: (argv ++ 0 :: (envp ++ [0])) := by
  rw [show 1 + argv.length + 1 + (envp.length + 1) = (argv.length + ((envp.length + 1) + 1)) + 1 by omega,
    List.take_succ_cons, List.take_append, List.take_succ_cons, List.take_append]
  rfl

/-- The copy that drops `argv[0]`: everything from `argv` to the `AT_NULL`
entry moves one word down, and the word after it keeps its value. -/
theorem copy_to_sp (low : List Usize) (v : Usize) (rest : List Usize) {n : Nat}
    (hn : n = low.length + auxw.length + 2) :
    copy (w :: (low ++ (auxw ++ AT_NULL :: v :: rest))) 1 0 n =
      .ok (low ++ (auxw ++ [AT_NULL, v]) ++ v :: rest) := by
  subst hn
  rw [copy_down _ _ (by simp; omega), List.drop_succ_cons,
    show low.length + auxw.length + 1 = low.length + (auxw.length + 1) by omega, List.drop_append,
    List.drop_append, show low.length + auxw.length + 2 = low.length + (auxw.length + 2) by omega,
    List.take_append, List.take_append]
  rfl

end Blocks

/-- A stack with two arguments, one environment pointer, and the auxv entries
`AT_PHDR`, `AT_EXECFN` and `AT_RANDOM`. -/
def exampleStack : ProcessStack where
  argv := [0x7ff0, 0x7ff8]
  envp := [0x7fe0]
  auxv := [(AT_PHDR, 0x40), (AT_EXECFN, 0x7ff0), (25, 0x7fd0)]
  atNullVal := 0
  argc_lt := by decide
  envp_ne := by simp
  auxv_ne := by simp [AT_PHDR, AT_EXECFN, AT_NULL]

open ElfLoader.Dynamic (Dyn DT_NULL DT_RELA lastOf prefixOf lastOf_append_singleton)

/-- `DT_RELACOUNT`: how many of the `DT_RELA` entries are RELATIVE ones. -/
def DT_RELACOUNT : Int := 0x6ffffff9

/-- `PT_DYNAMIC`: the program header of the dynamic table. -/
def PT_DYNAMIC : BitVec 32 := 2

/-- A program header, the fields `rust_main` reads. -/
structure Phdr where
  pType : BitVec 32
  pVaddr : Usize

/-- The loader's own image as the self-relocation reads it: the entries from
`dynv`, and the program headers and relocation entries the model holds from an
address on. -/
structure OwnImage where
  dynamic : List Dyn
  phdrs : Usize → List Phdr
  relas : Usize → List ElfRela

/-- `Option::unwrap`. -/
def unwrap {α : Type} : Option α → Except Abort α
  | some a => .ok a
  | none => .error .unwrapNone

/-- The loop over the loader's dynamic table, up to `DT_NULL`. -/
def relaScan (rela relaCount : Option Usize) : List Dyn → Except Abort (Option Usize × Option Usize)
  | [] => .error .undefined
  | d :: rest =>
    if d.dTag = DT_NULL then .ok (rela, relaCount)
    else if d.dTag = DT_RELA then relaScan (some d.dUn) relaCount rest
    else if d.dTag = DT_RELACOUNT then relaScan rela (some d.dUn) rest
    else relaScan rela relaCount rest

/-- The first auxv loop, up to `AT_NULL`. -/
def auxScan (ph phnum base : Usize) : List Usize → Except Abort (Usize × Usize × Usize)
  | tag :: val :: rest =>
    if tag = AT_NULL then .ok (ph, phnum, base)
    else if tag = AT_PHDR then auxScan val phnum base rest
    else if tag = AT_PHNUM then auxScan ph val base rest
    else if tag = AT_BASE then auxScan ph phnum val rest
    else auxScan ph phnum base rest
  | _ => .error .undefined

/-- The search of the first `phnum` program headers for `PT_DYNAMIC`, which
sets `base` to `dynv - p_vaddr`. -/
def findDynamic (dynv base : Usize) : Nat → List Phdr → Except Abort Usize
  | 0, _ => .ok base
  | _ + 1, [] => .error .undefined
  | n + 1, phdr :: rest =>
    if phdr.pType = PT_DYNAMIC then .ok (dynv - phdr.pVaddr) else findDynamic dynv base n rest

/-- The relocation loop over the first `rela_count` entries: the lines it
prints and the words it writes, in order. The addend is what `r_append()`
returns, read as `r_addend()` (both live in the arch module, which is not among
the sources). -/
def selfRelocate (arch : Arch) (base : Usize) : Nat → List ElfRela → Except Abort (List String × List (Usize × Usize))
  | 0, _ => .ok ([], [])
  | _ + 1, [] => .error .undefined
  | n + 1, rela :: rest => do
    let out := if rela.rType ≠ arch.REL_RELATIVE then ["unknown rela type"] else []
    let (out', mem) ← selfRelocate arch base n rest
    pure (out ++ out', (rela.rOffset + base, base + rela.rAddend) :: mem)

/-- `if base == 0 { .. }`: the base `AT_BASE` gave, or else the one the
`PT_DYNAMIC` header gives. -/
def selfBase (image : OwnImage) (dynv ph phnum base : Usize) : Except Abort Usize :=
  if base = 0 then findDynamic dynv base phnum.toNat (image.phdrs ph) else pure base

/-- The self-relocation of `rust_main`, from the auxv words on: `DT_RELA` and
`DT_RELACOUNT` from the loader's dynamic table, its base from `AT_BASE` or
else from its `PT_DYNAMIC` header, then the relocation loop. -/
def selfRelocation (arch : Arch) (image : OwnImage) (dynv : Usize) (auxv : List Usize) :
    Except Abort (List String × List (Usize × Usize)) := do
  let (rela, relaCount) ← relaScan none none image.dynamic
  let rela ← unwrap rela
  let relaCount ← unwrap relaCount
  let (ph, phnum, base) ← auxScan 0 0 0 auxv
  let base ← selfBase image dynv ph phnum base
  selfRelocate arch base relaCount.toNat (image.relas (rela + base))

/-- The value of the last auxv entry tagged `tag`. -/
def auxLast (tag : Usize) (auxv : List (Usize × Usize)) : Option Usize :=
  ((auxv.filter fun a => a.1 = tag).getLast?).map (·.2)

theorem auxLast_append_singleton (tag : Usize) (auxv : List (Usize × Usize)) (a : Usize × Usize) :
    auxLast tag (auxv ++ [a]) = if a.1 = tag then some a.2 else auxLast tag auxv := by
  unfold auxLast
  by_cases h : a.1 = tag <;> simp [List.filter_append, h]

/-- **The dynamic loop.** From the values of a table read so far, it reads the
entries up to the first `DT_NULL`: each value is the last of its tag. -/
theorem relaScan_eq (table : List Dyn) :
    ∀ entries : List Dyn, (∃ d ∈ entries, d.dTag = DT_NULL) →
      relaScan (lastOf DT_RELA table) (lastOf DT_RELACOUNT table) entries =
        .ok (lastOf DT_RELA (table ++ prefixOf entries), lastOf DT_RELACOUNT (table ++ prefixOf entries))
  | [], h => by simp at h
  | d :: rest, h => by
    by_cases hd : d.dTag = DT_NULL
    · simp [relaScan, hd, prefixOf]
    · have hrest : ∃ d ∈ rest, d.dTag = DT_NULL := by
        obtain ⟨e, he, hnull⟩ := h
        rcases List.mem_cons.mp he with rfl | he
        · exact absurd hnull hd
        · exact ⟨e, he, hnull⟩
      have hpre : prefixOf (d :: rest) = d :: prefixOf rest :=
        List.takeWhile_cons_of_pos (by simpa using hd)
      have ih := relaScan_eq (table ++ [d]) rest hrest
      rw [lastOf_append_singleton, lastOf_append_singleton] at ih
      rw [hpre, List.append_cons, ← ih, relaScan, if_neg hd]
      by_cases hr : d.dTag = DT_RELA
      · simp [hr, DT_RELA, DT_RELACOUNT]
      · by_cases hc : d.dTag = DT_RELACOUNT
        · simp [hc, DT_RELA, DT_RELACOUNT]
        · simp [hr, hc]

/-- **The first auxv loop.** From the values of the entries read so far, it
reads every entry up to `AT_NULL`: each value is the last of its tag, `0` when
there is none. -/
theorem auxScan_eq (v : Usize) (rest : List Usize) (seen : List (Usize × Usize)) :
    ∀ auxv : List (Usize × Usize), (∀ a ∈ auxv, a.1 ≠ AT_NULL) →
      auxScan ((auxLast AT_PHDR seen).getD 0) ((auxLast AT_PHNUM seen).getD 0)
          ((auxLast AT_BASE seen).getD 0) (auxWords auxv ++ AT_NULL :: v :: rest) =
        .ok ((auxLast AT_PHDR (seen ++ auxv)).getD 0, (auxLast AT_PHNUM (seen ++ auxv)).getD 0,
          (auxLast AT_BASE (seen ++ auxv)).getD 0)
  | [], _ => by simp [auxWords, auxScan]
  | a :: auxv, h => by
    have ha : a.1 ≠ AT_NULL := h a (List.mem_cons_self _ _)
    have ih := auxScan_eq v rest (seen ++ [a]) auxv fun a' ha' => h a' (List.mem_cons_of_mem _ ha')
    rw [auxLast_append_singleton, auxLast_append_singleton, auxLast_append_singleton] at ih
    rw [List.append_cons seen a auxv, ← ih, auxWords_cons, List.cons_append, List.cons_append, auxScan,
      if_neg ha]
    by_cases h₁ : a.1 = AT_PHDR
    · simp [h₁, AT_PHDR, AT_PHNUM, AT_BASE]
    · by_cases h₂ : a.1 = AT_PHNUM
      · simp [h₂, AT_PHDR, AT_PHNUM, AT_BASE]
      · by_cases h₃ : a.1 = AT_BASE
        · simp [h₃, AT_PHDR, AT_PHNUM, AT_BASE]
        · simp [h₁, h₂, h₃]

/-- The search stops at the first `PT_DYNAMIC` header among the first `phnum`. -/
theorem findDynamic_eq (dynv base : Usize) (pre : List Phdr) (phdr : Phdr) (rest : List Phdr)
    (n : Nat) (hpre : ∀ p ∈ pre, p.pType ≠ PT_DYNAMIC) (hdyn : phdr.pType = PT_DYNAMIC)
    (hn : pre.length < n) :
    findDynamic dynv base n (pre ++ phdr :: rest) = .ok (dynv - phdr.pVaddr) := by
  induction pre generalizing n with
  | nil =>
    obtain ⟨n, rfl⟩ : ∃ m, n = m + 1 := ⟨n - 1, by simp at hn; omega⟩
    simp [findDynamic, hdyn]
  | cons p pre ih =>
    obtain ⟨n, rfl⟩ : ∃ m, n = m + 1 := ⟨n - 1, by simp at hn; omega⟩
    have hp : p.pType ≠ PT_DYNAMIC := hpre p (List.mem_cons_self _ _)
    rw [List.cons_append, findDynamic, if_neg hp]
    exact ih n (fun q hq => hpre q (List.mem_cons_of_mem _ hq)) (by simp at hn; omega)

/-- **The relocation loop.** Over `n` entries it holds, it writes
`base + r_addend` at `r_offset + base` for each, whatever its type, and prints
one line for each entry that is not RELATIVE: it never stops on one. -/
theorem selfRelocate_eq (arch : Arch) (base : Usize) :
    ∀ (n : Nat) (relas : List ElfRela), n ≤ relas.length →
      selfRelocate arch base n relas =
        .ok ((relas.take n).filterMap fun r =>
            if r.rType ≠ arch.REL_RELATIVE then some "unknown rela type" else none,
          (relas.take n).map fun r => (r.rOffset + base, base + r.rAddend))
  | 0, _, _ => rfl
  | _ + 1, [], h => by simp at h
  | n + 1, rela :: rest, h => by
    rw [selfRelocate, selfRelocate_eq arch base n rest (by simp at h; omega)]
    by_cases hr : rela.rType = arch.REL_RELATIVE <;> simp [hr, bind, Except.bind, pure, Except.pure]

/-- A RELATIVE entry and an `R_RISCV_64` one: both get `base + r_addend`, and
only the second prints a line. -/
example : selfRelocate riscv64 0x7fff00000000 2 [⟨0x10, 3, 0x200⟩, ⟨0x18, 2, 0x208⟩] =
    .ok (["unknown rela type"], [(0x7fff00000010, 0x7fff00000200), (0x7fff00000018, 0x7fff00000208)]) := by
  rfl

/-- **The self-relocation.** On a loader whose dynamic table holds `DT_RELA`
and `DT_RELACOUNT` before its `DT_NULL`, whose base is `base`, and which holds
`DT_RELACOUNT` entries at `DT_RELA + base`: the self-relocation writes
`base + r_addend` at `r_offset + base` for each of them, in order, whatever
its type, and prints one line for each entry that is not RELATIVE. -/
theorem selfRelocation_eq (arch : Arch) (image : OwnImage) (dynv : Usize)
    (auxv : List (Usize × Usize)) (v : Usize) (rest : List Usize) (haux : ∀ a ∈ auxv, a.1 ≠ AT_NULL)
    (hnull : ∃ d ∈ image.dynamic, d.dTag = DT_NULL) {rela relaCount base : Usize}
    (hrela : lastOf DT_RELA (prefixOf image.dynamic) = some rela)
    (hcount : lastOf DT_RELACOUNT (prefixOf image.dynamic) = some relaCount)
    (hbase : selfBase image dynv ((auxLast AT_PHDR auxv).getD 0) ((auxLast AT_PHNUM auxv).getD 0)
      ((auxLast AT_BASE auxv).getD 0) = .ok base)
    (hlen : relaCount.toNat ≤ (image.relas (rela + base)).length) :
    selfRelocation arch image dynv (auxWords auxv ++ AT_NULL :: v :: rest) =
      .ok (((image.relas (rela + base)).take relaCount.toNat).filterMap fun r =>
          if r.rType ≠ arch.REL_RELATIVE then some "unknown rela type" else none,
        ((image.relas (rela + base)).take relaCount.toNat).map fun r => (r.rOffset + base, base + r.rAddend)) := by
  have hdyn := relaScan_eq [] image.dynamic hnull
  have haux' := auxScan_eq v rest [] auxv haux
  have hnil : ∀ tag, lastOf tag [] = none := fun _ => rfl
  have hnil' : ∀ tag, auxLast tag [] = none := fun _ => rfl
  simp only [List.nil_append, hnil, hnil', Option.getD_none] at hdyn haux'
  simp only [selfRelocation, hdyn, haux', hrela, hcount, unwrap, bind, Except.bind, hbase]
  exact selfRelocate_eq arch base _ _ hlen

/-- A loader whose one relocation entry, RELATIVE, is at `DT_RELA = 0x100`. -/
def relativeLoader : OwnImage where
  dynamic := [⟨DT_RELA, 0x100⟩, ⟨DT_RELACOUNT, 1⟩, ⟨DT_NULL, 0⟩]
  phdrs := fun _ => []
  relas := fun _ => [⟨0x10, 3, 0x200⟩]

/-- That loader, started with `AT_BASE = 0x7fff00000000`: one word, no line. -/
theorem selfRelocation_eq_relative :
    selfRelocation riscv64 relativeLoader 0 (auxWords [(AT_BASE, 0x7fff00000000)] ++ [AT_NULL, 0]) =
      .ok ([], [(0x10 + 0x7fff00000000, 0x7fff00000000 + 0x200)]) :=
  (selfRelocation_eq riscv64 relativeLoader 0 [(AT_BASE, 0x7fff00000000)] 0 [] (by decide)
    ⟨⟨DT_NULL, 0⟩, by decide, rfl⟩ rfl rfl rfl (by decide)).trans rfl

/-- An `AT_BASE` that is not `0` is the base. -/
theorem selfBase_of_ne_zero (image : OwnImage) (dynv ph phnum : Usize) {base : Usize} (h : base ≠ 0) :
    selfBase image dynv ph phnum base = .ok base := by
  simp only [selfBase, if_neg h]
  rfl

/-- With no `AT_BASE`, the base is the address of the dynamic table less the
`p_vaddr` of the first `PT_DYNAMIC` header among the first `AT_PHNUM`. -/
theorem selfBase_of_dynamic (image : OwnImage) (dynv ph phnum : Usize) (pre : List Phdr) (phdr : Phdr)
    (rest : List Phdr) (hmem : image.phdrs ph = pre ++ phdr :: rest)
    (hpre : ∀ p ∈ pre, p.pType ≠ PT_DYNAMIC) (hdyn : phdr.pType = PT_DYNAMIC) (hn : pre.length < phnum.toNat) :
    selfBase image dynv ph phnum 0 = .ok (dynv - phdr.pVaddr) := by
  simp only [selfBase, if_true, hmem]
  exact findDynamic_eq dynv 0 pre phdr rest _ hpre hdyn hn

end ElfLoader.MiniLoader
