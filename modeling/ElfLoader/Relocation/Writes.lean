import Mathlib.Data.List.Nodup
import ElfLoader.Relocation.Run

/-!
What a whole run writes (relocation.rs). Every word relocation writes belongs
to one entry, and the bitmap records which: over any run from an image whose
arrays `ElfRelocation::new` built, the words written are one for each entry
whose bit is set after its array's first pass, at that entry's
`segments.base() + r_offset`, and no other. No entry is written twice, and
none is marked relocated without its word.

* `ElfRelaArray.relocatedIdx` — the entries of an array its passes have
  relocated: none before the first pass, those whose bit is set after it.
* `ElfRelaArray.WellFormed.relocatedIdx_perm` — a pass adds to them exactly the
  pending entries whose call succeeded.
* `Step.writes` — a call appends one word for each entry it relocates.
* `writes_relocated` — over a whole run, the addresses written are those of the
  relocated entries, each once; an array in stage Finish has all its words.
* `relocated_monotone` — nothing is undone: later calls only append to the
  memory, and an entry once relocated stays relocated.
-/

namespace ElfLoader.Relocation

/-- The indices of the entries of an array that its passes have relocated: none
before the first pass (stage Init, every bit set), and afterwards those whose
bit is set. -/
def ElfRelaArray.relocatedIdx (a : ElfRelaArray) : List Nat :=
  if a.state.stage = .init then [] else (List.range a.array.length).filter a.state.relocated.isSet

/-- Where the word of entry `i` goes: `segments.base() + r_offset`. -/
def ElfRelaArray.addrOf (base : Usize) (a : ElfRelaArray) (i : Nat) : Option Usize :=
  a.array[i]?.map fun rela => base + rela.rOffset

/-- The addresses of the words of an array's relocated entries. -/
def ElfRelaArray.relocatedAt (base : Usize) (a : ElfRelaArray) : List Usize :=
  a.relocatedIdx.filterMap (a.addrOf base)

/-- The addresses of the words of an image's relocated entries, PLT array
first. -/
def ElfDylib.relocatedAt (lib : ElfDylib) : List Usize :=
  (lib.relocation.pltrel.toList ++ lib.relocation.dynrel.toList).flatMap (ElfRelaArray.relocatedAt lib.base)

/-! ### One pass -/

/-- **A pass relocates what succeeded.** After a pass over a well-formed array,
the relocated entries are those relocated before and the pending entries whose
call succeeded. -/
theorem ElfRelaArray.WellFormed.relocatedIdx_perm {a a' : ElfRelaArray} (wf : a.WellFormed)
    {failed : List Nat} (hag : Agrees a.state.relocated a.pending failed a'.state)
    (harr : a'.array = a.array) :
    a'.relocatedIdx.Perm (a.relocatedIdx ++ a.pending.filter a'.state.relocated.isSet) := by
  have hst : a'.state.stage ≠ .init := by
    rw [hag.stage]
    split <;> simp
  have hunit : a.array.length ≤ 32 * a.state.relocated.unitCount := by rw [wf.unitCount]; omega
  unfold ElfRelaArray.relocatedIdx
  rw [if_neg hst, harr]
  cases hs : a.state.stage with
  | init => simp [ElfRelaArray.pending, hs]
  | finish =>
    have hnil : failed = [] :=
      List.eq_nil_iff_forall_not_mem.mpr fun x hx => by simpa [ElfRelaArray.pending, hs] using hag.sub x hx
    have hbits : a'.state.relocated.isSet = a.state.relocated.isSet := by
      funext p
      simp [hag.isSet p, hnil, ElfRelaArray.pending, hs]
    simp [ElfRelaArray.pending, hs, hbits]
  | relocating =>
    have hz : a.pending = a.state.relocated.zeros := by simp [ElfRelaArray.pending, hs]
    have hnd : (List.range a.array.length).filter a.state.relocated.isSet ++
        a.pending.filter a'.state.relocated.isSet |>.Nodup := by
      refine List.Nodup.append ((List.nodup_range _).filter _) (a.pending_nodup.filter _) fun ⦃p⦄ h₁ h₂ => ?_
      rw [hz, List.mem_filter, BitMap.mem_zeros] at h₂
      simp [(List.mem_filter.mp h₁).2] at h₂
    rw [if_neg (by simp)]
    refine (List.perm_ext_iff_of_nodup ((List.nodup_range _).filter _) hnd).mpr fun p => ?_
    have hset := hag.isSet p
    rw [hz] at hset
    simp only [List.mem_append, List.mem_filter, List.mem_range, hz, BitMap.mem_zeros]
    by_cases hb : a.state.relocated.isSet p = true
    · have hnf : p ∉ failed := fun h => by
        have := BitMap.mem_zeros.mp (hz ▸ hag.sub p h)
        simp [hb] at this
      simp [hset, hb, hnf]
    · have hlt : p < 32 * a.state.relocated.unitCount → p < a.array.length := fun h =>
        wf.zeros_lt p (BitMap.mem_zeros.mpr ⟨h, by simpa using hb⟩)
      simp only [hb, Bool.false_eq_true, and_false, false_or, Bool.not_eq_true, and_true]
      exact ⟨fun ⟨h, hs⟩ => ⟨by omega, hs⟩, fun ⟨h, hs⟩ => ⟨hlt h, hs⟩⟩

section Mono

variable {σ : Type} {f : Handler σ}

/-- A pass keeps relocated every entry it finds relocated. -/
theorem relocateArray_relocatedIdx {o o' : Option ElfRelaArray} (wf : ∀ a ∈ o, a.WellFormed) {m m' : σ}
    (h : relocateArray o f m = .ok (o', m')) : ∀ a ∈ o, ∀ a' ∈ o', a.relocatedIdx ⊆ a'.relocatedIdx := by
  rcases o with _ | a
  · intro _ h
    cases h
  · obtain ⟨⟨a', m''⟩, ha, h⟩ := bind_eq_ok.mp h
    cases h
    rintro _ ⟨⟩ _ ⟨⟩
    obtain ⟨failed, -, harr, hag⟩ := relocate_agrees (wf a rfl) ha
    exact fun i hi => ((wf a rfl).relocatedIdx_perm hag harr).symm.subset (List.mem_append_left _ hi)

theorem lazyPass_relocatedIdx (lazy : Bool) {o o' : Option ElfRelaArray} (wf : ∀ a ∈ o, a.WellFormed)
    {f : Handler Writes} {mem mem' : Writes} (h : lazyPass lazy o f mem = .ok (o', mem')) :
    ∀ a ∈ o, ∀ a' ∈ o', a.relocatedIdx ⊆ a'.relocatedIdx := by
  cases lazy
  · exact relocateArray_relocatedIdx wf h
  · cases h
    intro a ha a' ha'
    exact Option.mem_unique ha ha' ▸ List.Subset.refl _

end Mono

section Pass

variable {arch : Arch} {ifunc : Usize → Usize} {lib : ElfDylib} {libs : List RelocatedDylib}
  {findSymbol : FindSymbol}

/-- The addresses the calls of a pass write: one for each call that did not
call `deal_fail`, at its entry's `base + r_offset`. -/
theorem addrs_of_obeys {a : ElfRelaArray} {b : Nat → Bool} :
    ∀ {P : List Nat} {ws : List Writes}, List.Forall₂ (fun i w => ∃ rela, a.array[i]? = some rela ∧
      Obeys arch ifunc lib libs findSymbol rela [] (.ok (w, !b i))) P ws →
      ws.flatten.map Prod.fst = (P.filter b).filterMap (a.addrOf lib.base)
  | [], [], .nil => rfl
  | i :: P, w :: ws, .cons ⟨rela, hr, hob⟩ h => by
    have ih := addrs_of_obeys h
    cases hb : b i
    · simp only [hb, Bool.not_false, Obeys] at hob
      simp [hob, hb, ih]
    · simp only [hb, Bool.not_true, Obeys] at hob
      obtain ⟨v, rfl, -⟩ := hob
      simp [hb, hr, ih, ElfRelaArray.addrOf]

/-- **What a pass writes, entry by entry.** A pass over a well-formed array
appends one word for each entry it relocates, at its `base + r_offset`. -/
theorem ElfRelaArray.WellFormed.relocatedAt_of_relocate {a a' : ElfRelaArray} (wf : a.WellFormed)
    {f : Handler Writes} (hf : Appends f)
    (hobeys : ∀ rela idx, Obeys arch ifunc lib libs findSymbol rela [] (f rela idx []))
    {mem mem' : Writes} (h : a.relocate f mem = .ok (a', mem')) :
    ∃ ws : Writes, mem' = mem ++ ws ∧
      (a'.relocatedAt lib.base).Perm (a.relocatedAt lib.base ++ ws.map Prod.fst) := by
  obtain ⟨ws, hmem, hfa⟩ := passObeys_of_relocate arch ifunc lib libs findSymbol hf hobeys wf h
  obtain ⟨failed, -, harr, hag⟩ := relocate_agrees wf h
  refine ⟨ws.flatten, hmem, ?_⟩
  have haddr : a'.addrOf lib.base = a.addrOf lib.base := by
    funext i
    simp [ElfRelaArray.addrOf, harr]
  rw [addrs_of_obeys hfa, ElfRelaArray.relocatedAt, ElfRelaArray.relocatedAt, haddr,
    ← List.filterMap_append]
  exact (wf.relocatedIdx_perm hag harr).filterMap _

theorem relocateArray_writes {o o' : Option ElfRelaArray} (wf : ∀ a ∈ o, a.WellFormed)
    {f : Handler Writes} (hf : Appends f)
    (hobeys : ∀ rela idx, Obeys arch ifunc lib libs findSymbol rela [] (f rela idx []))
    {mem mem' : Writes} (h : relocateArray o f mem = .ok (o', mem')) :
    ∃ ws : Writes, mem' = mem ++ ws ∧ (o'.toList.flatMap (ElfRelaArray.relocatedAt lib.base)).Perm
      (o.toList.flatMap (ElfRelaArray.relocatedAt lib.base) ++ ws.map Prod.fst) := by
  rcases o with _ | a
  · cases h
    exact ⟨[], by simp, by simp⟩
  · obtain ⟨⟨a', m⟩, ha, h⟩ := bind_eq_ok.mp h
    cases h
    obtain ⟨ws, hmem, hperm⟩ := (wf a rfl).relocatedAt_of_relocate hf hobeys ha
    exact ⟨ws, hmem, by simpa using hperm⟩

theorem lazyPass_writes (lazy : Bool) {o o' : Option ElfRelaArray} (wf : ∀ a ∈ o, a.WellFormed)
    {f : Handler Writes} (hf : Appends f)
    (hobeys : ∀ rela idx, Obeys arch ifunc lib libs findSymbol rela [] (f rela idx []))
    {mem mem' : Writes} (h : lazyPass lazy o f mem = .ok (o', mem')) :
    ∃ ws : Writes, mem' = mem ++ ws ∧ (o'.toList.flatMap (ElfRelaArray.relocatedAt lib.base)).Perm
      (o.toList.flatMap (ElfRelaArray.relocatedAt lib.base) ++ ws.map Prod.fst) := by
  cases lazy
  · exact relocateArray_writes wf hf hobeys h
  · cases h
    exact ⟨[], by simp, by simp⟩

end Pass

/-! ### Calls and runs -/

section Run

variable {arch : Arch} {ifunc : Usize → Usize} {pltrel dynrel : Option (List ElfRela)}

/-- **What a call writes.** A call on an image with well-formed arrays appends
one word for each entry it relocates, at its `base + r_offset`. -/
theorem Step.writes {s s' : ElfDylib × Writes} (hs : Step arch ifunc s s')
    (hplt : ∀ a ∈ s.1.relocation.pltrel, a.WellFormed) (hdyn : ∀ a ∈ s.1.relocation.dynrel, a.WellFormed) :
    ∃ ws : Writes, s'.2 = s.2 ++ ws ∧ s'.1.relocatedAt.Perm (s.1.relocatedAt ++ ws.map Prod.fst) := by
  obtain ⟨-, hb, libs, findSymbol, m₁, hp, hd⟩ := hs.inv
  obtain ⟨ws₁, rfl, hperm₁⟩ := lazyPass_writes _ hplt (s.1.pltHandler_appends arch ifunc libs findSymbol)
    (fun rela idx => s.1.pltHandler_obeys arch ifunc libs findSymbol rela idx []) hp
  obtain ⟨ws₂, hmem, hperm₂⟩ := relocateArray_writes hdyn (s.1.dynHandler_appends arch ifunc libs findSymbol)
    (fun rela idx => s.1.dynHandler_obeys arch ifunc libs findSymbol rela idx []) hd
  refine ⟨ws₁ ++ ws₂, by rw [hmem, List.append_assoc], ?_⟩
  simp only [ElfDylib.relocatedAt, hb, List.flatMap_append, List.map_append, List.append_assoc]
  refine (hperm₁.append hperm₂).trans ?_
  simp only [List.append_assoc]
  exact List.Perm.append_left _ (List.perm_append_comm_assoc _ _ _)

/-- A call on an image with well-formed arrays keeps relocated every entry it
finds relocated. -/
theorem Step.relocatedIdx_subset {s s' : ElfDylib × Writes} (hs : Step arch ifunc s s')
    (hplt : ∀ a ∈ s.1.relocation.pltrel, a.WellFormed) (hdyn : ∀ a ∈ s.1.relocation.dynrel, a.WellFormed) :
    (∀ a ∈ s.1.relocation.pltrel, ∀ a' ∈ s'.1.relocation.pltrel, a.relocatedIdx ⊆ a'.relocatedIdx) ∧
      ∀ a ∈ s.1.relocation.dynrel, ∀ a' ∈ s'.1.relocation.dynrel, a.relocatedIdx ⊆ a'.relocatedIdx := by
  obtain ⟨-, -, _, _, _, hp, hd⟩ := hs.inv
  exact ⟨lazyPass_relocatedIdx _ hplt hp, relocateArray_relocatedIdx hdyn hd⟩

/-- Every entry of a well-formed array in stage Finish is relocated. -/
theorem ElfRelaArray.WellFormed.mem_relocatedAt {a : ElfRelaArray} (wf : a.WellFormed)
    (hs : a.state.stage = .finish) (base : Usize) {rela : ElfRela} (hr : rela ∈ a.array) :
    base + rela.rOffset ∈ a.relocatedAt base := by
  obtain ⟨i, hi, rfl⟩ := List.getElem_of_mem hr
  have hset := wf.settled (by simp [hs]) i hi
  rw [ElfRelaArray.relocatedAt, ElfRelaArray.relocatedIdx, if_neg (by simp [hs])]
  simp only [List.mem_filterMap, List.mem_filter, List.mem_range, ElfRelaArray.addrOf]
  exact ⟨i, ⟨hi, hset⟩, by simp [List.getElem?_eq_getElem hi]⟩

/-- **Each relocated entry is written once.** In every state a run reaches, the
words written so far are, up to order, one for each entry relocated so far, at
its `segments.base() + r_offset`: no entry is written twice, no word is written
for an entry whose bit is clear or whose array has not been passed, and no
other word is written. So every entry of an array in stage Finish has had its
word written. -/
theorem writes_relocated {s : ElfDylib × Writes} (hr : Reachable arch ifunc pltrel dynrel s) :
    (s.2.map Prod.fst).Perm s.1.relocatedAt ∧
      ∀ a ∈ s.1.relocation.pltrel.toList ++ s.1.relocation.dynrel.toList, a.state.stage = .finish →
        ∀ rela ∈ a.array, s.1.base + rela.rOffset ∈ s.2.map Prod.fst := by
  obtain ⟨lib₀, h₀, hs⟩ := hr
  have hperm : (s.2.map Prod.fst).Perm s.1.relocatedAt := by
    induction hs with
    | refl =>
      rcases pltrel with _ | _ <;> rcases dynrel with _ | _ <;>
        simp [ElfDylib.relocatedAt, h₀, ElfRelocation.new, ElfRelaArray.relocatedAt,
          ElfRelaArray.relocatedIdx]
    | tail hp hstep ih =>
      have hi := (ElfDylib.runInv_new pltrel dynrel h₀).steps hp
      obtain ⟨ws, hmem, hperm⟩ := hstep.writes hi.pltrel_wf hi.dynrel_wf
      rw [hmem, List.map_append]
      exact (ih.append_right _).trans hperm.symm
  have hi := (ElfDylib.runInv_new pltrel dynrel h₀).steps hs
  have wf : ∀ a ∈ s.1.relocation.pltrel.toList ++ s.1.relocation.dynrel.toList, a.WellFormed := by
    simp only [List.mem_append, Option.mem_toList]
    exact fun a ha => ha.elim (hi.pltrel_wf a) (hi.dynrel_wf a)
  exact ⟨hperm, fun a ha hs rela hr =>
    hperm.symm.subset (List.mem_flatMap.mpr ⟨a, ha, (wf a ha).mem_relocatedAt hs _ hr⟩)⟩

/-- The image with one RELATIVE entry after `relocate(&[])`: one word, at
`0x10000 + 0x2000`. -/
theorem writes_relocated_relative :
    ∃ lib mem, relativeImage.relocate riscv64 id [] [] = .ok (lib, mem) ∧
      (mem.map Prod.fst).Perm lib.relocatedAt ∧
      ∀ a ∈ lib.relocation.pltrel.toList ++ lib.relocation.dynrel.toList, a.state.stage = .finish →
        ∀ rela ∈ a.array, lib.base + rela.rOffset ∈ mem.map Prod.fst :=
  ⟨_, _, rfl, @writes_relocated riscv64 id none (some [⟨0x2000, 3, 0x100⟩]) (_, _)
    ⟨relativeImage, rfl, .single (@Step.relocate riscv64 id relativeImage [] [] _ rfl)⟩⟩

/-- **Nothing is undone.** From any state a run reaches, along any further
calls, the words written stay written (later calls only append to the memory),
and an entry relocated stays relocated: its bit is never cleared again, so no
later pass calls its handler again. -/
theorem relocated_monotone {s s' : ElfDylib × Writes} (hr : Reachable arch ifunc pltrel dynrel s)
    (hs : Relation.ReflTransGen (Step arch ifunc) s s') :
    s.2 <+: s'.2 ∧
      (∀ a ∈ s.1.relocation.pltrel, ∀ a' ∈ s'.1.relocation.pltrel, a.relocatedIdx ⊆ a'.relocatedIdx) ∧
      ∀ a ∈ s.1.relocation.dynrel, ∀ a' ∈ s'.1.relocation.dynrel, a.relocatedIdx ⊆ a'.relocatedIdx := by
  obtain ⟨lib₀, h₀, hs₀⟩ := hr
  have hi₀ := ElfDylib.runInv_new pltrel dynrel h₀
  have hi := hi₀.steps hs₀
  induction hs with
  | refl =>
    refine ⟨List.prefix_refl _, ?_, ?_⟩ <;> intro a ha a' ha' <;> exact Option.mem_unique ha ha' ▸ List.Subset.refl _
  | tail hp hstep ih =>
    have hb := hi₀.steps (hs₀.trans hp)
    obtain ⟨ws, hmem, -⟩ := hstep.writes hb.pltrel_wf hb.dynrel_wf
    obtain ⟨hP, hD⟩ := hstep.relocatedIdx_subset hb.pltrel_wf hb.dynrel_wf
    refine ⟨hmem ▸ ih.1.trans (List.prefix_append _ _), fun a ha a'' ha'' => ?_, fun a ha a'' ha'' => ?_⟩
    · obtain ⟨a', ha'⟩ := exists_mem_of_map_array (hb.pltrel_array.trans hi.pltrel_array.symm) ha
      exact (ih.2.1 a ha a' ha').trans (hP a' ha' a'' ha'')
    · obtain ⟨a', ha'⟩ := exists_mem_of_map_array (hb.dynrel_array.trans hi.dynrel_array.symm) ha
      exact (ih.2.2 a ha a' ha').trans (hD a' ha' a'' ha'')

/-- The image with one RELATIVE entry, relocated by `relocate(&[])` and then
again: the second call finds the entry relocated and writes nothing. -/
theorem relocated_monotone_relative :
    ∃ lib mem lib' mem', relativeImage.relocate riscv64 id [] [] = .ok (lib, mem) ∧
      lib.relocate riscv64 id [] mem = .ok (lib', mem') ∧ mem <+: mem' ∧
      (∀ a ∈ lib.relocation.pltrel, ∀ a' ∈ lib'.relocation.pltrel, a.relocatedIdx ⊆ a'.relocatedIdx) ∧
      ∀ a ∈ lib.relocation.dynrel, ∀ a' ∈ lib'.relocation.dynrel, a.relocatedIdx ⊆ a'.relocatedIdx :=
  by
  refine ⟨_, _, _, _, rfl, rfl, ?_⟩
  exact relocated_monotone ⟨relativeImage, rfl, .single (@Step.relocate riscv64 id relativeImage [] [] _ rfl)⟩
    (.single (Step.relocate rfl))

end Run

end ElfLoader.Relocation
