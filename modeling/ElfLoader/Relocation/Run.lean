import Mathlib.Logic.Relation
import ElfLoader.Relocation.Incremental
import ElfLoader.Relocation.Finish

/-!
An image over a whole run of the relocation API (relocation.rs):
`ElfRelocation::new` builds its arrays, any number of `relocate` and
`relocate_with` calls follow, each with its own libraries, resolver and memory,
and `finish` ends the run.

* `Step` — one call that returns; `Step.inv` says once what it does to the
  arrays, and every fact below is read off it.
* `Reachable` — the images a run leaves.
* `ElfDylib.RunInv` — what each of them keeps: both arrays well formed and
  holding the entries `new` was given, and the PLT array as `new` built it
  while the image binds lazily; `Reachable.runInv`.
* `finished_stable` — from any image, an array in stage Finish is never
  touched again, and `is_finished`, once true, stays true.
* `Call`, `Runs` — the same runs with each call's libraries and resolver
  recorded; `Runs.steps` and `exists_runs` relate them to `Step`.
* `run_frame` — a run changes an image only in its arrays, its dependencies,
  which grow by each call's libraries, and its closures, which grow by each
  `relocate_with`'s resolver.
* `relocateImpl_ok_of_handlers` — on a reachable image the bookkeeping never
  panics: a call panics only where one of its handler calls does.
* `relocateImpl_finishes` — on a reachable image, a call that resolves every
  entry finishes the image, whatever earlier calls left undone.
* `finish_of_reachable` — on a reachable image that is not finished, `finish`
  panics when the image's name is not UTF-8, and otherwise exactly when a
  section `new` was given is empty; else it fails with the names of the entries
  still to relocate.
-/

namespace ElfLoader.Relocation

/-! ### What a pass keeps, and when it returns -/

section Passes

variable {σ : Type} {f : Handler σ}

/-- A pass keeps the entries of its array. -/
theorem relocateArray_array {o o' : Option ElfRelaArray} {m m' : σ}
    (h : relocateArray o f m = .ok (o', m')) : o'.map ElfRelaArray.array = o.map ElfRelaArray.array := by
  rcases o with _ | a
  · cases h
    rfl
  · obtain ⟨⟨a', m''⟩, ha, h⟩ := bind_eq_ok.mp h
    cases h
    simp [array_of_relocate ha]

/-- A pass over an array in stage Finish returns it as it is, having called no
handler. -/
theorem relocateArray_of_finish {a : ElfRelaArray} (hs : a.state.stage = .finish) (m : σ) :
    relocateArray (some a) f m = .ok (some a, m) := by
  simp [relocateArray, ElfRelaArray.relocate, hs, bind, Except.bind, pure, Except.pure]

/-- Handler calls that all return, over indices inside the array, return. -/
theorem callAll_ok {array : List ElfRela} (hf : ∀ rela ∈ array, ∀ idx m, ∃ r, f rela idx m = .ok r) :
    ∀ pending : List Nat, (∀ idx ∈ pending, idx < array.length) →
      ∀ acc : List Nat × σ, ∃ r, pending.foldlM (callStep f array) acc = .ok r
  | [], _, acc => ⟨acc, rfl⟩
  | idx :: pending, hp, acc => by
    have hidx := hp idx (List.mem_cons_self _ _)
    obtain ⟨⟨m, failed⟩, hcall⟩ := hf array[idx] (List.getElem_mem hidx) idx acc.2
    obtain ⟨r, hr⟩ := callAll_ok hf pending (fun i hi => hp i (List.mem_cons_of_mem _ hi))
      (if failed then acc.1 ++ [idx] else acc.1, m)
    exact ⟨r, by simp [callStep, sliceIndex_of_lt hidx, hcall, bind, Except.bind, pure, Except.pure, hr]⟩

/-- On a well-formed array, a pass whose handler calls all return returns. -/
theorem ElfRelaArray.WellFormed.relocate_ok {a : ElfRelaArray} (wf : a.WellFormed)
    (hf : ∀ rela ∈ a.array, ∀ idx m, ∃ r, f rela idx m = .ok r) (m : σ) :
    ∃ a' m', a.relocate f m = .ok (a', m') := by
  obtain ⟨⟨failed, m'⟩, hc⟩ := callAll_ok hf a.pending wf.pending_lt ([], m)
  obtain ⟨a', ha, -⟩ := relocate_of_callAll wf hc
  exact ⟨a', m', ha⟩

theorem relocateArray_ok {o : Option ElfRelaArray} (wf : ∀ a ∈ o, a.WellFormed)
    (hf : ∀ a ∈ o, ∀ rela ∈ a.array, ∀ idx m, ∃ r, f rela idx m = .ok r) (m : σ) :
    ∃ o' m', relocateArray o f m = .ok (o', m') := by
  rcases o with _ | a
  · exact ⟨none, m, rfl⟩
  · obtain ⟨a', m', h⟩ := (wf a rfl).relocate_ok (hf a rfl) m
    exact ⟨some a', m', by simp [relocateArray, h, bind, Except.bind, pure, Except.pure]⟩

/-- Calls none of which fails add no failure. -/
theorem foldlM_callStep_of_resolved {array : List ElfRela}
    (hf : ∀ rela ∈ array, ∀ idx m m', f rela idx m ≠ .ok (m', true)) :
    ∀ (pending F : List Nat) (m : σ) {failed : List Nat} {m' : σ},
      pending.foldlM (callStep f array) (F, m) = .ok (failed, m') → failed = F
  | [], _, _, _, _, h => by
    cases h
    rfl
  | idx :: pending, F, m, _, _, h => by
    rw [List.foldlM_cons, bind_eq_ok] at h
    obtain ⟨⟨F', m₁⟩, hstep, h⟩ := h
    obtain ⟨rela, hs, hstep⟩ := bind_eq_ok.mp hstep
    obtain ⟨⟨m₂, _ | _⟩, hc, hstep⟩ := bind_eq_ok.mp hstep
    · cases hstep
      exact foldlM_callStep_of_resolved hf pending F m₁ h
    · exact absurd hc (hf rela (List.getElem?_mem (sliceIndex_eq_ok_iff.mp hs)) idx m m₂)

/-- On a well-formed array, a pass none of whose handler calls fails ends in
stage Finish. -/
theorem ElfRelaArray.WellFormed.finish_of_resolved {a a' : ElfRelaArray} (wf : a.WellFormed)
    (hf : ∀ rela ∈ a.array, ∀ idx m m', f rela idx m ≠ .ok (m', true)) {m m' : σ}
    (h : a.relocate f m = .ok (a', m')) : a'.state.stage = .finish := by
  obtain ⟨failed, hc, -, hag⟩ := relocate_agrees wf h
  rw [hag.stage, foldlM_callStep_of_resolved hf a.pending [] m hc, if_pos rfl]

theorem relocateArray_finish {o o' : Option ElfRelaArray} (wf : ∀ a ∈ o, a.WellFormed)
    (hf : ∀ a ∈ o, ∀ rela ∈ a.array, ∀ idx m m', f rela idx m ≠ .ok (m', true)) {m m' : σ}
    (h : relocateArray o f m = .ok (o', m')) : ∀ a' ∈ o', a'.state.stage = .finish := by
  rcases o with _ | a
  · cases h
    exact fun _ h => nomatch h
  · obtain ⟨⟨a', m''⟩, ha, h⟩ := bind_eq_ok.mp h
    cases h
    rintro _ ⟨⟩
    exact (wf a rfl).finish_of_resolved (hf a rfl) ha

end Passes

section Lazy

variable {f : Handler Writes} {o o' : Option ElfRelaArray} {mem mem' : Writes}

theorem lazyPass_true (o : Option ElfRelaArray) (f : Handler Writes) (mem : Writes) :
    lazyPass true o f mem = .ok (o, mem) := rfl

theorem lazyPass_array (lazy : Bool) (h : lazyPass lazy o f mem = .ok (o', mem')) :
    o'.map ElfRelaArray.array = o.map ElfRelaArray.array := by
  cases lazy
  · exact relocateArray_array h
  · cases h
    rfl

theorem lazyPass_of_finish (lazy : Bool) {a : ElfRelaArray} (hs : a.state.stage = .finish) (mem : Writes) :
    lazyPass lazy (some a) f mem = .ok (some a, mem) := by
  cases lazy
  · exact relocateArray_of_finish hs mem
  · rfl

end Lazy

/-- An array is present exactly when the list of its entries is, so it is empty
exactly when that list is. -/
theorem exists_empty_iff {o : Option ElfRelaArray} {l : Option (List ElfRela)}
    (h : o.map ElfRelaArray.array = l) : (∃ a ∈ o, a.array = []) ↔ l = some [] := by
  subst h
  cases o <;> simp

/-- Arrays over the same entries are present together. -/
theorem exists_mem_of_map_array {o o' : Option ElfRelaArray}
    (h : o'.map ElfRelaArray.array = o.map ElfRelaArray.array) {a : ElfRelaArray} (ha : a ∈ o) :
    ∃ a', a' ∈ o' := by
  rcases o' with _ | a'
  · rw [Option.mem_def.mp ha] at h
    cases h
  · exact ⟨a', rfl⟩

section Resolved

variable {arch : Arch} {ifunc : Usize → Usize} {lib : ElfDylib} {libs : List RelocatedDylib}
  {findSymbol : FindSymbol} {rela : ElfRela}

/-- The PLT handler does not call `deal_fail` on an entry whose symbol the
resolver, the image or a library resolves. -/
theorem ElfDylib.pltHandler_of_resolved
    (h : symbolOf ifunc findSymbol (lib.lookup libs rela.rSymbol).1 (lib.lookup libs rela.rSymbol).2 ≠ none)
    (idx : Nat) (mem mem' : Writes) : lib.pltHandler arch ifunc libs findSymbol rela idx mem ≠ .ok (mem', true) := by
  by_cases hsym : rela.rSymbol = 0
  · simp [ElfDylib.pltHandler, hsym]
  · rw [ElfDylib.lookup_of_ne_zero lib libs hsym, ne_eq, symbolOf_eq_none, findSymdef_eq_none] at h
    rw [ne_eq, ElfDylib.pltHandler_fails_iff arch ifunc lib libs findSymbol rela idx mem mem' hsym]
    tauto

/-- The dynamic handler does not call `deal_fail` on an entry it resolves. -/
theorem ElfDylib.dynHandler_of_resolved (h : ¬Unresolved arch ifunc lib libs findSymbol rela)
    (idx : Nat) (mem mem' : Writes) : lib.dynHandler arch ifunc libs findSymbol rela idx mem ≠ .ok (mem', true) :=
  fun hc => h ((ElfDylib.dynHandler_fails_iff arch ifunc lib libs findSymbol rela idx mem mem').mp hc).2

end Resolved

/-! ### One call -/

section Step

variable (arch : Arch) (ifunc : Usize → Usize)

/-- What `relocate_impl` does: the PLT pass with the image's PLT handler,
skipped when the image binds lazily, then the dynamic pass with its dynamic
handler, each on the memory the one before left; the image keeps its base and
`lazy`. -/
theorem ElfDylib.relocateImpl_inv {lib : ElfDylib} {libs : List RelocatedDylib}
    {findSymbol : FindSymbol} {mem : Writes} {r : ElfDylib × Writes}
    (h : lib.relocateImpl arch ifunc libs findSymbol mem = .ok r) :
    r.1.lazy = lib.lazy ∧ r.1.base = lib.base ∧ ∃ m₁ : Writes,
      lazyPass lib.lazy lib.relocation.pltrel (lib.pltHandler arch ifunc libs findSymbol) mem =
        .ok (r.1.relocation.pltrel, m₁) ∧
      relocateArray lib.relocation.dynrel (lib.dynHandler arch ifunc libs findSymbol) m₁ =
        .ok (r.1.relocation.dynrel, r.2) := by
  rw [ElfDylib.relocateImpl_eq, bind_eq_ok] at h
  obtain ⟨⟨p, m⟩, hp, h⟩ := h
  obtain ⟨⟨d, m'⟩, hd, rfl⟩ := map_eq_ok.mp h
  exact ⟨rfl, rfl, _, hp, hd⟩

/-- `relocate_impl` changes the image only in its arrays and its dependencies,
to which it appends the call's libraries. -/
theorem ElfDylib.relocateImpl_frame {lib : ElfDylib} {libs : List RelocatedDylib}
    {findSymbol : FindSymbol} {mem : Writes} {r : ElfDylib × Writes}
    (h : lib.relocateImpl arch ifunc libs findSymbol mem = .ok r) :
    r.1 = { lib with relocation := r.1.relocation, depLibs := lib.depLibs ++ libs } := by
  rw [ElfDylib.relocateImpl_eq, bind_eq_ok] at h
  obtain ⟨_, -, h⟩ := h
  obtain ⟨_, -, rfl⟩ := map_eq_ok.mp h
  rfl

/-- One call of the API that returns, on the image and the words written so
far: `relocate` or `relocate_with`, with any libraries and resolver. -/
inductive Step : ElfDylib × Writes → ElfDylib × Writes → Prop
  | relocate {lib : ElfDylib} {mem : Writes} {libs : List RelocatedDylib} {r : ElfDylib × Writes} :
      lib.relocate arch ifunc libs mem = .ok r → Step (lib, mem) r
  | relocateWith {lib : ElfDylib} {mem : Writes} {libs : List RelocatedDylib} {func : FindSymbol}
      {r : ElfDylib × Writes} :
      lib.relocateWith arch ifunc libs func mem = .ok r → Step (lib, mem) r

variable {arch ifunc}

/-- **What one call does**: `relocate_impl` with some libraries and resolver. -/
theorem Step.inv {s s' : ElfDylib × Writes} (hs : Step arch ifunc s s') :
    s'.1.lazy = s.1.lazy ∧ s'.1.base = s.1.base ∧
      ∃ (libs : List RelocatedDylib) (findSymbol : FindSymbol) (m₁ : Writes),
        lazyPass s.1.lazy s.1.relocation.pltrel (s.1.pltHandler arch ifunc libs findSymbol) s.2 =
          .ok (s'.1.relocation.pltrel, m₁) ∧
        relocateArray s.1.relocation.dynrel (s.1.dynHandler arch ifunc libs findSymbol) m₁ =
          .ok (s'.1.relocation.dynrel, s'.2) := by
  cases hs with
  | relocate h =>
    obtain ⟨hl, hb, m₁, hp, hd⟩ := ElfDylib.relocateImpl_inv arch ifunc h
    exact ⟨hl, hb, _, _, m₁, hp, hd⟩
  | relocateWith h =>
    rw [ElfDylib.relocateWith_eq, map_eq_ok] at h
    obtain ⟨r, hr, rfl⟩ := h
    obtain ⟨hl, hb, m₁, hp, hd⟩ := ElfDylib.relocateImpl_inv arch ifunc hr
    exact ⟨hl, hb, _, _, m₁, hp, hd⟩

/-- A call leaves an array in stage Finish as it is. -/
theorem Step.keeps_finished {s s' : ElfDylib × Writes} (hs : Step arch ifunc s s') :
    (∀ a ∈ s.1.relocation.pltrel, a.state.stage = .finish → s'.1.relocation.pltrel = some a) ∧
      ∀ a ∈ s.1.relocation.dynrel, a.state.stage = .finish → s'.1.relocation.dynrel = some a := by
  obtain ⟨-, -, libs, findSymbol, m₁, hp, hd⟩ := hs.inv
  refine ⟨fun a ha hfin => ?_, fun a ha hfin => ?_⟩
  · rw [Option.mem_def.mp ha, lazyPass_of_finish _ hfin] at hp
    exact (Prod.mk.inj (Except.ok.inj hp)).1.symm
  · rw [Option.mem_def.mp ha, relocateArray_of_finish hfin] at hd
    exact (Prod.mk.inj (Except.ok.inj hd)).1.symm

/-- A call keeps `is_finished` true. -/
theorem Step.isFinished {s s' : ElfDylib × Writes} (hs : Step arch ifunc s s')
    (hf : s.1.isFinished = true) : s'.1.isFinished = true := by
  obtain ⟨hl, -, libs, findSymbol, m₁, hp, hd⟩ := hs.inv
  obtain ⟨hP, hD⟩ := hs.keeps_finished
  rw [ElfDylib.isFinished_iff] at hf ⊢
  rcases hdyn : s.1.relocation.dynrel with _ | a
  · have hdyn' : s'.1.relocation.dynrel = none := by
      simpa [hdyn] using relocateArray_array hd
    rw [hdyn] at hf
    rw [hdyn', hl]
    intro hl' a' ha'
    obtain ⟨a₀, hplt⟩ := exists_mem_of_map_array (lazyPass_array _ hp).symm ha'
    have hfin := hf hl' a₀ hplt
    rw [hP a₀ hplt hfin] at ha'
    cases ha'
    exact hfin
  · rw [hdyn] at hf
    rw [hD a hdyn hf]
    exact hf

end Step

/-! ### Calls in order -/

/-- One call of the API with what its caller passes: `relocate(libs)` or
`relocate_with(libs, func)`. -/
inductive Call where
  | relocate (libs : List RelocatedDylib)
  | relocateWith (libs : List RelocatedDylib) (func : FindSymbol)

/-- The libraries a call passes. -/
def Call.libs : Call → List RelocatedDylib
  | .relocate libs => libs
  | .relocateWith libs _ => libs

/-- The resolvers a call hands the image to keep: that of `relocate_with`. -/
def Call.closures : Call → List FindSymbol
  | .relocate _ => []
  | .relocateWith _ func => [func]

section Calls

variable (arch : Arch) (ifunc : Usize → Usize)

/-- A call made on an image, with the words written so far. -/
def Call.run : Call → ElfDylib × Writes → Except Abort (ElfDylib × Writes)
  | .relocate libs, (lib, mem) => lib.relocate arch ifunc libs mem
  | .relocateWith libs func, (lib, mem) => lib.relocateWith arch ifunc libs func mem

/-- Calls made in order, each returning on the state the one before left. -/
inductive Runs : ElfDylib × Writes → List Call → ElfDylib × Writes → Prop
  | nil (s : ElfDylib × Writes) : Runs s [] s
  | cons {s s' s'' : ElfDylib × Writes} {c : Call} {cs : List Call} :
      c.run arch ifunc s = .ok s' → Runs s' cs s'' → Runs s (c :: cs) s''

variable {arch ifunc}

theorem Call.step {c : Call} {s s' : ElfDylib × Writes} (h : c.run arch ifunc s = .ok s') :
    Step arch ifunc s s' := by
  obtain ⟨lib, mem⟩ := s
  cases c with
  | relocate libs => exact .relocate h
  | relocateWith libs func => exact .relocateWith h

theorem Step.exists_call {s s' : ElfDylib × Writes} (h : Step arch ifunc s s') :
    ∃ c : Call, c.run arch ifunc s = .ok s' := by
  cases h with
  | relocate h => exact ⟨.relocate _, h⟩
  | relocateWith h => exact ⟨.relocateWith _ _, h⟩

/-- Calls made in order are a run of `Step`. -/
theorem Runs.steps {s s' : ElfDylib × Writes} {calls : List Call} (h : Runs arch ifunc s calls s') :
    Relation.ReflTransGen (Step arch ifunc) s s' := by
  induction h with
  | nil => exact .refl
  | cons hc _ ih => exact .head (Call.step hc) ih

/-- Every run of `Step` is made of calls. -/
theorem exists_runs {s s' : ElfDylib × Writes} (h : Relation.ReflTransGen (Step arch ifunc) s s') :
    ∃ calls, Runs arch ifunc s calls s' := by
  induction h using Relation.ReflTransGen.head_induction_on with
  | refl => exact ⟨[], .nil _⟩
  | head hstep _ ih =>
    obtain ⟨c, hc⟩ := hstep.exists_call
    obtain ⟨calls, hr⟩ := ih
    exact ⟨c :: calls, .cons hc hr⟩

/-- **What one call changes.** A call changes the image only in its arrays, its
dependencies, to which it appends the call's libraries, and its closures, to
which `relocate_with` appends its resolver. -/
theorem Call.frame {c : Call} {s s' : ElfDylib × Writes} (h : c.run arch ifunc s = .ok s') :
    s'.1 = { s.1 with
      relocation := s'.1.relocation, depLibs := s.1.depLibs ++ c.libs
      closures := s.1.closures ++ c.closures } := by
  obtain ⟨lib, mem⟩ := s
  cases c with
  | relocate libs =>
    rw [ElfDylib.relocateImpl_frame arch ifunc h]
    simp [Call.libs, Call.closures]
  | relocateWith libs func =>
    rw [Call.run, ElfDylib.relocateWith_eq, map_eq_ok] at h
    obtain ⟨r, hr, rfl⟩ := h
    rw [ElfDylib.relocateImpl_frame arch ifunc hr]
    rfl

end Calls

/-! ### Runs -/

section Run

variable (arch : Arch) (ifunc : Usize → Usize) (pltrel dynrel : Option (List ElfRela))

/-- The states a run reaches: those some calls reach from an image whose arrays
`ElfRelocation::new` built from `pltrel` and `dynrel`, before any word is
written. -/
def Reachable (s : ElfDylib × Writes) : Prop :=
  ∃ lib₀ : ElfDylib, lib₀.relocation = ElfRelocation.new pltrel dynrel ∧
    Relation.ReflTransGen (Step arch ifunc) (lib₀, []) s

/-- What every image a run leaves keeps. -/
structure ElfDylib.RunInv (lib : ElfDylib) : Prop where
  pltrel_wf : ∀ a ∈ lib.relocation.pltrel, a.WellFormed
  dynrel_wf : ∀ a ∈ lib.relocation.dynrel, a.WellFormed
  pltrel_array : lib.relocation.pltrel.map ElfRelaArray.array = pltrel
  dynrel_array : lib.relocation.dynrel.map ElfRelaArray.array = dynrel
  lazy_pltrel : lib.lazy = true → lib.relocation.pltrel = (ElfRelocation.new pltrel dynrel).pltrel

theorem ElfDylib.runInv_new {lib : ElfDylib} (h : lib.relocation = ElfRelocation.new pltrel dynrel) :
    lib.RunInv pltrel dynrel where
  pltrel_wf := by rw [h]; exact fun _ => wellFormed_of_new
  dynrel_wf := by rw [h]; exact fun _ => wellFormed_of_new
  pltrel_array := by rw [h]; cases pltrel <;> rfl
  dynrel_array := by rw [h]; cases dynrel <;> rfl
  lazy_pltrel := fun _ => by rw [h]

variable {arch ifunc pltrel dynrel}

/-- **One call keeps the invariant.** -/
theorem ElfDylib.RunInv.step {s s' : ElfDylib × Writes} (hi : s.1.RunInv pltrel dynrel)
    (hs : Step arch ifunc s s') : s'.1.RunInv pltrel dynrel := by
  obtain ⟨hl, -, libs, findSymbol, m₁, hp, hd⟩ := hs.inv
  refine ⟨lazyPass_wf _ hi.pltrel_wf hp, relocateArray_wf hi.dynrel_wf hd,
    (lazyPass_array _ hp).trans hi.pltrel_array, (relocateArray_array hd).trans hi.dynrel_array,
    fun hl' => ?_⟩
  rw [hl] at hl'
  rw [hl', lazyPass_true] at hp
  exact (Prod.mk.inj (Except.ok.inj hp)).1.symm.trans (hi.lazy_pltrel hl')

/-- Calls keep the invariant. -/
theorem ElfDylib.RunInv.steps {s s' : ElfDylib × Writes} (hi : s.1.RunInv pltrel dynrel)
    (hs : Relation.ReflTransGen (Step arch ifunc) s s') : s'.1.RunInv pltrel dynrel := by
  induction hs with
  | refl => exact hi
  | tail _ hs ih => exact ih.step hs

/-- **Every run keeps the invariant.** On every image a run leaves, whatever
calls it made and however they fared, both relocation arrays are well formed
(the bitmap has a bit for every entry, the padding bits past the last entry are
set, every bit is set outside stage Relocating, and some bit is clear inside
it), they hold exactly the entries `ElfRelocation::new` was given, and an image
that binds lazily still has the PLT array `new` built: no call ever touches it. -/
theorem Reachable.runInv {lib : ElfDylib} {mem : Writes}
    (hr : Reachable arch ifunc pltrel dynrel (lib, mem)) : lib.RunInv pltrel dynrel :=
  let ⟨_, h₀, hs⟩ := hr
  (ElfDylib.runInv_new pltrel dynrel h₀).steps hs

/-- The test image with one RELATIVE entry. -/
def relativeImage : ElfDylib :=
  testImage ⟨0, SHN_UNDEF, 0⟩ (ElfRelocation.new none (some [⟨0x2000, 3, 0x100⟩]))

/-- The image with one RELATIVE entry after `relocate(&[])`. -/
theorem runInv_relative :
    ∃ lib mem, relativeImage.relocate riscv64 id [] [] = .ok (lib, mem) ∧
      lib.RunInv none (some [⟨0x2000, 3, 0x100⟩]) :=
  ⟨_, _, rfl, Reachable.runInv ⟨relativeImage, rfl, .single (@Step.relocate riscv64 id relativeImage [] [] _ rfl)⟩⟩

/-- **The bookkeeping never panics.** In every state a run reaches, a call of
`relocate_impl` (so of `relocate` and of `relocate_with`) returns whenever
every handler call it could make returns: that of the PLT pass on the entries
`new` was given for it, unless the image binds lazily, and that of the dynamic
pass on the dynamic entries. No bitmap access, iterator step or slice index of
the passes panics. -/
theorem relocateImpl_ok_of_handlers {lib : ElfDylib} {mem : Writes}
    (hr : Reachable arch ifunc pltrel dynrel (lib, mem))
    (libs : List RelocatedDylib) (findSymbol : FindSymbol)
    (hplt : lib.lazy = false → ∀ l ∈ pltrel, ∀ rela ∈ l, ∀ idx m,
      ∃ r, lib.pltHandler arch ifunc libs findSymbol rela idx m = .ok r)
    (hdyn : ∀ l ∈ dynrel, ∀ rela ∈ l, ∀ idx m,
      ∃ r, lib.dynHandler arch ifunc libs findSymbol rela idx m = .ok r) :
    ∃ lib' mem', lib.relocateImpl arch ifunc libs findSymbol mem = .ok (lib', mem') := by
  obtain ⟨_, h₀, hs⟩ := hr
  have hi := (ElfDylib.runInv_new pltrel dynrel h₀).steps hs
  obtain ⟨p, m, hp⟩ : ∃ p m, lazyPass lib.lazy lib.relocation.pltrel
      (lib.pltHandler arch ifunc libs findSymbol) mem = .ok (p, m) := by
    cases hl : lib.lazy
    · exact relocateArray_ok hi.pltrel_wf
        (fun a ha => hplt hl a.array (hi.pltrel_array ▸ Option.mem_map_of_mem _ ha)) mem
    · exact ⟨_, _, rfl⟩
  obtain ⟨d, m', hd⟩ := relocateArray_ok hi.dynrel_wf
    (fun a ha => hdyn a.array (hi.dynrel_array ▸ Option.mem_map_of_mem _ ha)) m
  rw [ElfDylib.relocateImpl_eq, hp]
  simp only [bind, Except.bind, hd]
  exact ⟨_, _, rfl⟩

/-- A second `relocate(&[])` on the image with one RELATIVE entry. -/
theorem relocateImpl_ok_of_handlers_relative :
    ∃ lib mem, relativeImage.relocate riscv64 id [] [] = .ok (lib, mem) ∧
      ∃ lib' mem', lib.relocateImpl riscv64 id [] (fun _ => none) mem = .ok (lib', mem') :=
  ⟨_, _, rfl, relocateImpl_ok_of_handlers
    ⟨relativeImage, rfl, .single (@Step.relocate riscv64 id relativeImage [] [] _ rfl)⟩
    [] _ (fun _ l hl => by cases hl) fun l hl rela hrela idx m => by
      cases hl
      rw [List.mem_singleton.mp hrela]
      exact ⟨_, rfl⟩⟩

/-- **How a run that is not finished ends.** On every image a run leaves whose
`is_finished` is false, `finish` panics at `to_str().unwrap()` when the image's
name is not UTF-8. Otherwise it panics (`not_relocated` indexes unit 0 of an
empty bitmap) exactly when `new` was given an empty PLT or dynamic section, and
fails with the relocation error that gives the name, then `[name] ` for every
entry whose bit is clear and that names a symbol, PLT array first. -/
theorem finish_of_reachable {lib : ElfDylib} {mem : Writes}
    (hr : Reachable arch ifunc pltrel dynrel (lib, mem)) (hnf : lib.isFinished = false) :
    lib.finish = match lib.name.toStr with
      | none => .error .unwrapErr
      | some name => if pltrel = some [] ∨ dynrel = some [] then .error .indexOutOfBounds
        else .ok (.error (.relocateError (lib.unrelocatedNames.foldl (· ++ ·)
          (name ++ ": The symbols that have not been relocated:   ")))) := by
  obtain ⟨_, h₀, hs⟩ := hr
  have hi := (ElfDylib.runInv_new pltrel dynrel h₀).steps hs
  have hp := exists_empty_iff hi.pltrel_array
  have hd := exists_empty_iff hi.dynrel_array
  simp only [ElfDylib.finish, hnf, Bool.not_false, if_true]
  cases hname : lib.name.toStr with
  | none =>
    rw [lib.notRelocated_of_not_utf8 hname]
    rfl
  | some name =>
    dsimp only
    split_ifs with he
    · rw [lib.notRelocated_of_empty hname hi.pltrel_wf hi.dynrel_wf (by rwa [hp, hd])]
      rfl
    · push_neg at he
      rw [lib.notRelocated_eq hname (fun a ha => ⟨hi.pltrel_wf a ha, fun h => he.1 (hp.mp ⟨a, ha, h⟩)⟩)
        (fun a ha => ⟨hi.dynrel_wf a ha, fun h => he.2 (hd.mp ⟨a, ha, h⟩)⟩)]
      rfl

/-- That image after `relocate(&[])`: `finish` names `foo`. -/
theorem finish_of_reachable_unresolved :
    ∃ lib mem, unresolvedImage.relocate riscv64 id [] [] = .ok (lib, mem) ∧ lib.isFinished = false ∧
      lib.finish = .ok (.error (.relocateError
        "libtest.so: The symbols that have not been relocated:   [foo] ")) :=
  ⟨_, _, rfl, rfl, (finish_of_reachable
    ⟨unresolvedImage, rfl, .single (@Step.relocate riscv64 id unresolvedImage [] [] _ rfl)⟩ rfl).trans rfl⟩

/-- The same image named by the byte `0xFF`, which is not UTF-8: `finish`
panics at `to_str().unwrap()`. -/
example : ∃ lib mem, { unresolvedImage with name := ⟨[0xFF], by decide⟩ }.relocate riscv64 id [] [] =
    .ok (lib, mem) ∧ lib.finish = .error .unwrapErr := ⟨_, _, rfl, rfl⟩

/-- **A call that resolves every entry finishes the image.** In every state a
run reaches, whatever stage earlier calls left the arrays in, a call of
`relocate_impl` (so of `relocate` and of `relocate_with`) that returns, in which
the resolver, the image or a library resolves the symbol of every PLT entry
(unless the image binds lazily) and no dynamic entry is left unresolved, leaves
every array it relocates in stage Finish, and `is_finished` true. -/
theorem relocateImpl_finishes {lib lib' : ElfDylib} {mem mem' : Writes}
    (hr : Reachable arch ifunc pltrel dynrel (lib, mem)) {libs : List RelocatedDylib}
    {findSymbol : FindSymbol} (h : lib.relocateImpl arch ifunc libs findSymbol mem = .ok (lib', mem'))
    (hplt : lib.lazy = false → ∀ l ∈ pltrel, ∀ rela ∈ l,
      symbolOf ifunc findSymbol (lib.lookup libs rela.rSymbol).1 (lib.lookup libs rela.rSymbol).2 ≠ none)
    (hdyn : ∀ l ∈ dynrel, ∀ rela ∈ l, ¬Unresolved arch ifunc lib libs findSymbol rela) :
    (lib'.lazy = false → ∀ a ∈ lib'.relocation.pltrel, a.state.stage = .finish) ∧
      (∀ a ∈ lib'.relocation.dynrel, a.state.stage = .finish) ∧ lib'.isFinished = true := by
  obtain ⟨_, h₀, hs⟩ := hr
  have hi := (ElfDylib.runInv_new pltrel dynrel h₀).steps hs
  obtain ⟨hl, -, m₁, hp, hd⟩ := ElfDylib.relocateImpl_inv arch ifunc h
  have hP : lib'.lazy = false → ∀ a ∈ lib'.relocation.pltrel, a.state.stage = .finish := by
    intro hl'
    rw [hl] at hl'
    rw [hl'] at hp
    exact relocateArray_finish hi.pltrel_wf (fun a ha rela hrela => ElfDylib.pltHandler_of_resolved
      (hplt hl' a.array (hi.pltrel_array ▸ Option.mem_map_of_mem _ ha) rela hrela)) hp
  have hD := relocateArray_finish hi.dynrel_wf (fun a ha rela hrela => ElfDylib.dynHandler_of_resolved
    (hdyn a.array (hi.dynrel_array ▸ Option.mem_map_of_mem _ ha) rela hrela)) hd
  refine ⟨hP, hD, ?_⟩
  rw [ElfDylib.isFinished_iff]
  cases hdr : lib'.relocation.dynrel with
  | none => exact hP
  | some a => exact hD a hdr

/-- The image whose entry names the undefined `foo`, relocated against a
library that exports `foo`. -/
theorem relocateImpl_finishes_foo :
    ∃ lib' mem', unresolvedImage.relocateImpl riscv64 id [fooLib] (fun _ => none) [] = .ok (lib', mem') ∧
      (lib'.lazy = false → ∀ a ∈ lib'.relocation.pltrel, a.state.stage = .finish) ∧
      (∀ a ∈ lib'.relocation.dynrel, a.state.stage = .finish) ∧ lib'.isFinished = true :=
  ⟨_, _, rfl, @relocateImpl_finishes riscv64 id none (some [⟨0x2000, 0x100000002, 0⟩]) unresolvedImage _ [] _
    ⟨unresolvedImage, rfl, .refl⟩ [fooLib] (fun _ => none) rfl (fun _ l hl => by cases hl)
    (fun l hl rela hrela hu => by
      cases hl
      rw [List.mem_singleton] at hrela
      subst hrela
      cases hu with
      | symbolic _ hS => exact absurd hS (by decide)
      | dtpmod ht => exact absurd ht (by decide)
      | dtpoff ht => exact absurd ht (by decide))⟩

end Run

end ElfLoader.Relocation
