import Mathlib.Data.List.Forall2
import ElfLoader.Relocation.Resolve

/-!
A pass of `relocate_impl`, entry by entry. Both handlers only ever append to
the memory, and what a call appends does not depend on what was written before
it (`Appends`), so a pass is the calls on its pending indices taken one at a
time (`entryCall`), their writes concatenated in order.

* `foldlM_callStep_of_ok`, `foldlM_callStep_of_error` — the calls of a pass with
  such a handler, when every call returns and when one panics.
* `relocation_formulas` — **what a pass writes**: for each index it calls the
  handler on, in order, nothing when the entry's bit is clear after the pass,
  and otherwise one word at `base + r_offset` with the value the formulas give.
-/

namespace ElfLoader.Relocation

/-! ### Handlers that append -/

/-- A handler whose call appends its words to the memory, and returns the same
words and the same outcome whatever the memory before it. -/
def Appends (f : Handler Writes) : Prop :=
  ∀ rela idx mem, f rela idx mem = (fun r => (mem ++ r.1, r.2)) <$> f rela idx []

/-- The handler's call on entry `idx`, from an empty memory. -/
def entryCall (f : Handler Writes) (array : List ElfRela) (idx : Nat) :
    Except Abort (Writes × Bool) := do
  let rela ← sliceIndex array idx
  f rela idx []

section Handlers

variable (arch : Arch) (ifunc : Usize → Usize) (lib : ElfDylib) (libs : List RelocatedDylib)
  (findSymbol : FindSymbol)

theorem ElfDylib.pltHandler_appends : Appends (lib.pltHandler arch ifunc libs findSymbol) := by
  intro rela idx mem
  unfold ElfDylib.pltHandler
  dsimp only
  split_ifs <;> (try split) <;> simp [Functor.map, Except.map, ElfDylib.writeVal]

theorem ElfDylib.dynHandler_appends : Appends (lib.dynHandler arch ifunc libs findSymbol) := by
  intro rela idx mem
  unfold ElfDylib.dynHandler
  dsimp only
  split_ifs <;> (try split) <;> (try split) <;> simp [Functor.map, Except.map, ElfDylib.writeVal]

end Handlers

/-! ### The calls of a pass -/

section Calls

variable {f : Handler Writes} {array : List ElfRela}

theorem callStep_of_appends (hf : Appends f) (F : List Nat) (mem : Writes) (idx : Nat) :
    callStep f array (F, mem) idx =
      (fun r => (if r.2 then F ++ [idx] else F, mem ++ r.1)) <$> entryCall f array idx := by
  unfold callStep entryCall
  cases sliceIndex array idx with
  | error e => rfl
  | ok rela =>
    simp only [bind, Except.bind]
    rw [hf]
    cases f rela idx [] <;> rfl

/-- Calls that all return: the indices whose call failed, in order, and the
words of every call, in order. -/
theorem foldlM_callStep_of_ok (hf : Appends f) (out : Nat → Writes × Bool) :
    ∀ P : List Nat, (∀ i ∈ P, entryCall f array i = .ok (out i)) → ∀ F mem,
      P.foldlM (callStep f array) (F, mem) =
        .ok (F ++ P.filter (fun i => (out i).2), mem ++ (P.map fun i => (out i).1).flatten)
  | [], _, F, mem => by simp [pure, Except.pure]
  | i :: P, h, F, mem => by
    rw [List.foldlM_cons, callStep_of_appends hf, h i (List.mem_cons_self _ _)]
    simp only [Functor.map, Except.map, bind, Except.bind]
    rw [foldlM_callStep_of_ok hf out P (fun j hj => h j (List.mem_cons_of_mem _ hj))]
    cases hb : (out i).2 <;> simp [hb, List.filter_cons]

/-- A call that panics makes the calls panic. -/
theorem foldlM_callStep_of_error (hf : Appends f) :
    ∀ P : List Nat, (∃ i ∈ P, ∃ e, entryCall f array i = .error e) → ∀ F mem,
      ∃ e, P.foldlM (callStep f array) (F, mem) = .error e
  | [], h, _, _ => by simp at h
  | i :: P, h, F, mem => by
    rw [List.foldlM_cons, callStep_of_appends hf]
    cases hi : entryCall f array i with
    | error e => exact ⟨e, rfl⟩
    | ok r =>
      obtain ⟨j, hj, e, he⟩ := h
      have hjP : j ∈ P := by
        rcases List.mem_cons.mp hj with rfl | hjP
        · rw [hi] at he
          cases he
        · exact hjP
      exact foldlM_callStep_of_error hf P ⟨j, hjP, e, he⟩ _ _

/-- The outcome of each call of a list of calls that all return. -/
def outcomes (f : Handler Writes) (array : List ElfRela) (i : Nat) : Writes × Bool :=
  match entryCall f array i with
  | .ok r => r
  | .error _ => ([], false)

theorem entryCall_eq_outcomes {i : Nat} (h : ∀ e, entryCall f array i ≠ .error e) :
    entryCall f array i = .ok (outcomes f array i) := by
  cases he : entryCall f array i with
  | ok r => simp [outcomes, he]
  | error e => exact absurd he (h e)

/-- A pass that returns made calls that all returned: its failures are the
indices whose call failed, and its words those of its calls, in order. -/
theorem callAll_of_ok (hf : Appends f) {P failed : List Nat} {mem mem' : Writes}
    (h : callAll f array P mem = .ok (failed, mem')) :
    (∀ i ∈ P, entryCall f array i = .ok (outcomes f array i)) ∧
      failed = P.filter (fun i => (outcomes f array i).2) ∧
      mem' = mem ++ (P.map fun i => (outcomes f array i).1).flatten := by
  unfold callAll at h
  have hall : ∀ i ∈ P, entryCall f array i = .ok (outcomes f array i) :=
    fun i hi => entryCall_eq_outcomes fun e he => by
      obtain ⟨e', he'⟩ := foldlM_callStep_of_error hf P ⟨i, hi, e, he⟩ [] mem
      rw [he'] at h
      cases h
  rw [foldlM_callStep_of_ok hf _ P hall] at h
  simp only [Except.ok.injEq, Prod.mk.injEq, List.nil_append] at h
  exact ⟨hall, h.1.symm, h.2.symm⟩

end Calls

/-! ### What a pass writes -/

section Pass

variable (arch : Arch) (ifunc : Usize → Usize) (lib : ElfDylib) (libs : List RelocatedDylib)
  (findSymbol : FindSymbol)

/-- What the formulas allow a pass from `a` to `a'` to have written: for each
index it called the handler on, in order, the words of that call, nothing when
the entry's bit is clear after the pass (it called `deal_fail`) and one word
at `base + r_offset` with a formula's value otherwise. -/
def PassObeys (a a' : ElfRelaArray) (mem mem' : Writes) : Prop :=
  ∃ ws : List Writes, mem' = mem ++ ws.flatten ∧ List.Forall₂ (fun i w => ∃ rela,
    a.array[i]? = some rela ∧ Obeys arch ifunc lib libs findSymbol rela []
      (.ok (w, !a'.state.relocated.isSet i))) a.pending ws

theorem passObeys_of_relocate {f : Handler Writes} (hf : Appends f)
    (hobeys : ∀ rela idx, Obeys arch ifunc lib libs findSymbol rela [] (f rela idx []))
    {a a' : ElfRelaArray} (wf : a.WellFormed) {mem mem' : Writes}
    (h : a.relocate f mem = .ok (a', mem')) :
    PassObeys arch ifunc lib libs findSymbol a a' mem mem' := by
  obtain ⟨failed, hcall, -, hag⟩ := relocate_agrees wf h
  obtain ⟨hall, hfailed, hmem⟩ := callAll_of_ok hf hcall
  refine ⟨a.pending.map fun i => (outcomes f a.array i).1, hmem,
    List.forall₂_map_right_iff.mpr (List.forall₂_same.mpr fun i hi => ?_)⟩
  have hi' := hall i hi
  unfold entryCall at hi'
  cases hs : sliceIndex a.array i with
  | error e => rw [hs] at hi'; cases hi'
  | ok rela =>
    rw [hs] at hi'
    refine ⟨rela, sliceIndex_eq_ok_iff.mp hs, ?_⟩
    have hlt : i < 32 * a.state.relocated.unitCount := by
      have := wf.pending_lt i hi
      rw [wf.unitCount]
      omega
    have hbit : (!a'.state.relocated.isSet i) = (outcomes f a.array i).2 := by
      rw [wf.isSet_after hag i hlt, hfailed]
      simp [hi]
    rw [hbit]
    have := hobeys rela i
    exact hi' ▸ this

/-- **What a pass writes.** A pass of `relocate_impl` over a well-formed array,
with either handler, writes for each index it calls the handler on, in order:
nothing when it called `deal_fail` on the entry, whose bit is then clear, and
otherwise exactly one word, at `segments.base() + r_offset`, whose value is
`B + A`, `S`, `S + A`, a module id or a TLS offset as the entry's type says. -/
theorem relocation_formulas (a a' : ElfRelaArray) (wf : a.WellFormed) (mem mem' : Writes) :
    (a.relocate (lib.pltHandler arch ifunc libs findSymbol) mem = .ok (a', mem') →
      PassObeys arch ifunc lib libs findSymbol a a' mem mem') ∧
    (a.relocate (lib.dynHandler arch ifunc libs findSymbol) mem = .ok (a', mem') →
      PassObeys arch ifunc lib libs findSymbol a a' mem mem') :=
  ⟨passObeys_of_relocate arch ifunc lib libs findSymbol (lib.pltHandler_appends arch ifunc libs findSymbol)
      (fun rela idx => lib.pltHandler_obeys arch ifunc libs findSymbol rela idx []) wf,
    passObeys_of_relocate arch ifunc lib libs findSymbol (lib.dynHandler_appends arch ifunc libs findSymbol)
      (fun rela idx => lib.dynHandler_obeys arch ifunc libs findSymbol rela idx []) wf⟩

/-- The dynamic pass over a fresh array with one RELATIVE entry: one word,
`0x10000 + 0x100` at `0x10000 + 0x2000`. -/
theorem relocation_formulas_relative :
    (⟨[⟨0x2000, 3, 0x100⟩], ⟨BitMap.new 1, .init⟩⟩ : ElfRelaArray).WellFormed ∧
      ∃ a', (⟨[⟨0x2000, 3, 0x100⟩], ⟨BitMap.new 1, .init⟩⟩ : ElfRelaArray).relocate
          ((testImage ⟨0, SHN_UNDEF, 0⟩ ⟨none, none⟩).dynHandler riscv64 id [] fun _ => none) [] =
        .ok (a', [(0x12000, 0x10100)]) ∧
        PassObeys riscv64 id (testImage ⟨0, SHN_UNDEF, 0⟩ ⟨none, none⟩) [] (fun _ => none)
          ⟨[⟨0x2000, 3, 0x100⟩], ⟨BitMap.new 1, .init⟩⟩ a' [] [(0x12000, 0x10100)] :=
  ⟨wellFormed_new _, _, rfl,
    (relocation_formulas riscv64 id _ [] _ _ _ (wellFormed_new _) _ _).2 rfl⟩

end Pass

end ElfLoader.Relocation
