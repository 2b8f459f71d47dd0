import ElfLoader.Relocation.Calls

/-!
Relocating in steps. `relocate(L₁)` followed by `relocate(L₂)` reaches what
`relocate(L₁ ++ L₂)` reaches: the second call retries exactly the entries the
first could not resolve, and `find_symdef` over `L₁ ++ L₂` is the search over
`L₁`, then over `L₂` where that found nothing.

* `Fallback` — a handler that does what a first handler does, and what a second
  does where the first calls `deal_fail`; `ElfDylib.pltHandler_append` and
  `ElfDylib.dynHandler_append` — the handlers for `L₁ ++ L₂` are such.
* `callAll_fallback` and `ElfRelaArray.relocate_fallback` — one pass with the
  combined handler against two passes: both panic, or both leave the same array
  and write the same words, in some order (`SameUpTo`).
* `ElfRelaArray.relocate_relocate` — a second pass with the same handler
  changes nothing and writes nothing.
* `relocate_incremental` — the same for a whole image, with `relocate` and with
  `relocate_with`.
-/

namespace ElfLoader.Relocation

/-- Two outcomes that both panic, or both return the same value having written
the same words, in some order. -/
def SameUpTo {α : Type} : Except Abort (α × Writes) → Except Abort (α × Writes) → Prop
  | .ok (x, w), .ok (y, v) => x = y ∧ w.Perm v
  | .error _, .error _ => True
  | _, _ => False

theorem sameUpTo_error_left {α : Type} {e : Abort} {y : Except Abort (α × Writes)}
    (h : SameUpTo y (.error e)) : ∃ e', y = .error e' := by
  rcases y with e' | ⟨a, w⟩
  · exact ⟨e', rfl⟩
  · exact h.elim

theorem sameUpTo_ok_left {α : Type} {a : α} {w : Writes} {y : Except Abort (α × Writes)}
    (h : SameUpTo y (.ok (a, w))) : ∃ w', y = .ok (a, w') ∧ w'.Perm w := by
  rcases y with e' | ⟨a', w'⟩
  · exact h.elim
  · obtain ⟨rfl, hp⟩ := h
    exact ⟨w', rfl, hp⟩

/-- `f` does what `f₁` does, and what `f₂` does where `f₁` calls `deal_fail`. -/
def Fallback (f f₁ f₂ : Handler Writes) : Prop :=
  ∀ rela idx, f rela idx [] = match f₁ rela idx [] with
    | .ok (_, true) => f₂ rela idx []
    | r => r

/-- A handler whose failing calls write nothing. -/
def Clean (f : Handler Writes) : Prop :=
  ∀ rela idx w, f rela idx [] = .ok (w, true) → w = []

/-! ### Passes over the same indices -/

section Calls

variable {f f₁ f₂ : Handler Writes} {array : List ElfRela}

theorem foldlM_callStep_append (hf : Appends f) :
    ∀ (P F : List Nat) (mem : Writes), P.foldlM (callStep f array) (F, mem) =
      (fun r => (r.1, mem ++ r.2)) <$> P.foldlM (callStep f array) (F, []) := by
  intro P
  induction P with
  | nil => intro F mem; simp [pure, Except.pure, Functor.map, Except.map]
  | cons i P ih =>
    intro F mem
    simp only [List.foldlM_cons, callStep_of_appends hf]
    cases entryCall f array i with
    | error e => rfl
    | ok r =>
      simp only [Functor.map, Except.map, bind, Except.bind]
      rw [ih _ (mem ++ r.1), ih _ ([] ++ r.1)]
      cases List.foldlM (callStep f array) (if r.2 = true then F ++ [i] else F, []) P <;>
        simp [Functor.map, Except.map]

/-- A pass with a handler that appends is the pass from an empty memory,
written after `mem`. -/
theorem callAll_append (hf : Appends f) (P : List Nat) (mem : Writes) :
    callAll f array P mem = (fun r => (r.1, mem ++ r.2)) <$> callAll f array P [] :=
  foldlM_callStep_append hf P [] mem

theorem entryCall_fallback (hfb : Fallback f f₁ f₂) (i : Nat) :
    entryCall f array i = match entryCall f₁ array i with
      | .ok (_, true) => entryCall f₂ array i
      | r => r := by
  unfold entryCall
  cases sliceIndex array i with
  | error e => rfl
  | ok rela => exact hfb rela i

theorem Clean.nil_of_entryCall (hc : Clean f) {i : Nat} {w : Writes}
    (h : entryCall f array i = .ok (w, true)) : w = [] := by
  unfold entryCall at h
  cases hs : sliceIndex array i with
  | error e => rw [hs] at h; cases h
  | ok rela => rw [hs] at h; exact hc rela i w h

theorem fallback_of_true {r : Writes × Bool} (r₂ : Except Abort (Writes × Bool)) (hb : r.2 = true) :
    (match (.ok r : Except Abort (Writes × Bool)) with
      | .ok (_, true) => r₂
      | r => r) = r₂ := by
  obtain ⟨w, b⟩ := r
  cases hb
  rfl

theorem fallback_of_false {r : Writes × Bool} (r₂ : Except Abort (Writes × Bool)) (hb : r.2 = false) :
    (match (.ok r : Except Abort (Writes × Bool)) with
      | .ok (_, true) => r₂
      | r => r) = .ok r := by
  obtain ⟨w, b⟩ := r
  cases hb
  rfl

/-- The words of the combined calls are those of the first calls, then those
of the retries, up to order. -/
theorem flatten_map_ite_perm (b : Nat → Bool) (g h : Nat → Writes) :
    ∀ P : List Nat, (P.map fun i => if b i then g i else h i).flatten.Perm
      ((P.map fun i => if b i then [] else h i).flatten ++ ((P.filter b).map g).flatten)
  | [] => by simp
  | i :: P => by
    have ih := flatten_map_ite_perm b g h P
    cases hb : b i
    · simpa [hb, List.filter_cons] using ih.append_left (h i)
    · simp only [List.map_cons, List.flatten_cons, hb, if_true, List.filter_cons,
        List.nil_append, List.map_cons]
      exact (ih.append_left (g i)).trans (List.perm_append_comm_assoc _ _ _).symm

/-- **One pass with the combined handler against two passes.** Over the same
indices, the handler that falls back on `f₂` where `f₁` fails panics exactly
when the calls of `f₁`, then the retries with `f₂` of the indices `f₁` failed
on, panic; otherwise it fails on the indices the retries failed on and writes
the words of both, in some order. -/
theorem callAll_fallback (hf : Appends f) (hf₁ : Appends f₁) (hf₂ : Appends f₂)
    (hc : Clean f₁) (hfb : Fallback f f₁ f₂) (P : List Nat) (mem : Writes) :
    SameUpTo (callAll f array P mem) (callAll f₁ array P mem >>= fun r => callAll f₂ array r.1 r.2) := by
  by_cases he₁ : ∃ i ∈ P, ∃ e, entryCall f₁ array i = .error e
  · obtain ⟨i, hi, e, he⟩ := he₁
    have hfe : entryCall f array i = .error e := by rw [entryCall_fallback hfb, he]
    obtain ⟨e', h'⟩ := foldlM_callStep_of_error hf P ⟨i, hi, e, hfe⟩ [] mem
    obtain ⟨e₁, h₁⟩ := foldlM_callStep_of_error hf₁ P ⟨i, hi, e, he⟩ [] mem
    simp only [callAll, h', h₁, bind, Except.bind, SameUpTo]
  push_neg at he₁
  have hall₁ : ∀ i ∈ P, entryCall f₁ array i = .ok (outcomes f₁ array i) :=
    fun i hi => entryCall_eq_outcomes (he₁ i hi)
  have hclean : ∀ i ∈ P, (outcomes f₁ array i).2 = true → (outcomes f₁ array i).1 = [] :=
    fun i hi hb => hc.nil_of_entryCall (by rw [hall₁ i hi, ← hb])
  have hpass₁ := foldlM_callStep_of_ok hf₁ _ P hall₁ [] mem
  rw [List.nil_append] at hpass₁
  let F₁ := P.filter fun i => (outcomes f₁ array i).2
  have hfail : ∀ i ∈ F₁, entryCall f array i = entryCall f₂ array i := fun i hi => by
    obtain ⟨hiP, hb⟩ := List.mem_filter.mp hi
    rw [entryCall_fallback hfb, hall₁ i hiP]
    exact fallback_of_true _ hb
  by_cases he₂ : ∃ i ∈ F₁, ∃ e, entryCall f₂ array i = .error e
  · obtain ⟨i, hi, e, he⟩ := he₂
    obtain ⟨e', h'⟩ := foldlM_callStep_of_error hf P
      ⟨i, (List.mem_filter.mp hi).1, e, (hfail i hi).trans he⟩ [] mem
    obtain ⟨e₂, h₂⟩ := foldlM_callStep_of_error hf₂ F₁ ⟨i, hi, e, he⟩ []
      (mem ++ (P.map fun i => (outcomes f₁ array i).1).flatten)
    simp only [callAll, h', hpass₁, h₂, bind, Except.bind, SameUpTo]
  push_neg at he₂
  have hall₂ : ∀ i ∈ F₁, entryCall f₂ array i = .ok (outcomes f₂ array i) :=
    fun i hi => entryCall_eq_outcomes (he₂ i hi)
  let out := fun i => if (outcomes f₁ array i).2 then outcomes f₂ array i else outcomes f₁ array i
  have hall : ∀ i ∈ P, entryCall f array i = .ok (out i) := fun i hi => by
    by_cases hb : (outcomes f₁ array i).2 = true
    · rw [hfail i (List.mem_filter.mpr ⟨hi, hb⟩), hall₂ i (List.mem_filter.mpr ⟨hi, hb⟩)]
      simp [out, hb]
    · rw [entryCall_fallback hfb, hall₁ i hi, fallback_of_false _ (by simpa using hb)]
      simp [out, hb]
  simp only [callAll, foldlM_callStep_of_ok hf out P hall, hpass₁, bind, Except.bind,
    foldlM_callStep_of_ok hf₂ _ F₁ hall₂, List.nil_append, SameUpTo]
  refine ⟨?_, ?_⟩
  · simp only [F₁, List.filter_filter, out]
    congr 1
    funext i
    cases hb : (outcomes f₁ array i).2 <;> simp [hb]
  · rw [List.append_assoc]
    refine List.Perm.append_left mem ?_
    have hw₁ : (P.map fun i => (outcomes f₁ array i).1) =
        P.map fun i => if (outcomes f₁ array i).2 then [] else (outcomes f₁ array i).1 :=
      List.map_congr_left fun i hi => by split <;> simp_all
    simp only [out, apply_ite Prod.fst, hw₁]
    exact flatten_map_ite_perm _ _ _ P

end Calls

/-! ### Passes over an array -/

section Arrays

theorem Agrees.unique {base : BitMap} {done failed : List Nat} {s s' : RelocateState}
    (h : Agrees base done failed s) (h' : Agrees base done failed s') : s = s' := by
  obtain ⟨r, st⟩ := s
  obtain ⟨r', st'⟩ := s'
  have hr : r = r' := BitMap.ext (h.unitCount.trans h'.unitCount.symm) fun p _ =>
    (h.isSet p).trans (h'.isSet p).symm
  have hs : st = st' := h.stage.trans h'.stage.symm
  rw [hr, hs]

/-- A second pass on the indices the first failed on, with the bookkeeping the
first left, agrees with one pass that failed where the second did. -/
theorem Agrees.trans {base : BitMap} {done failed failed' : List Nat} {s s' : RelocateState}
    (h : Agrees base done failed s) (h' : Agrees s.relocated failed failed' s') :
    Agrees base done failed' s' where
  unitCount := h'.unitCount.trans h.unitCount
  isSet p := by
    rw [h'.isSet, h.isSet]
    by_cases hp : p ∈ failed
    · simp [hp, h.sub p hp]
    · simp [hp]
  stage := h'.stage
  sub x hx := h.sub x (h'.sub x hx)

/-- A pass that fails again on every index it retries leaves the bookkeeping
as it found it. -/
theorem Agrees.self {base : BitMap} {done failed : List Nat} {s : RelocateState}
    (h : Agrees base done failed s) : Agrees s.relocated failed failed s where
  unitCount := rfl
  isSet p := by
    by_cases hp : p ∈ failed
    · simp [h.isSet p, hp]
    · simp [hp]
  stage := h.stage
  sub _ hx := hx

theorem ElfRelaArray.eq_of_state {a b : ElfRelaArray} (harr : a.array = b.array)
    (hs : a.state = b.state) : a = b := by
  cases a
  cases b
  simp_all

/-- The members of a sublist of a duplicate-free list, in the list's order,
are the sublist. -/
theorem filter_mem_of_sublist : ∀ {l L : List Nat}, l.Sublist L → L.Nodup →
    L.filter (fun x => decide (x ∈ l)) = l
  | _, _, .slnil, _ => rfl
  | l, a :: L, .cons _ h, hnd => by
    have ha : a ∉ l := fun hal => (List.nodup_cons.mp hnd).1 (h.subset hal)
    rw [List.filter_cons_of_neg (by simpa using ha)]
    exact filter_mem_of_sublist h (List.nodup_cons.mp hnd).2
  | _, _, @List.Sublist.cons₂ _ l L a h, hnd => by
    rw [List.filter_cons_of_pos (by simp)]
    congr 1
    have ha : a ∉ L := (List.nodup_cons.mp hnd).1
    rw [List.filter_congr fun x hx => decide_eq_decide.mpr (show x ∈ a :: l ↔ x ∈ l by
      rw [List.mem_cons]; exact or_iff_right fun hxa => ha (hxa ▸ hx))]
    exact filter_mem_of_sublist h (List.nodup_cons.mp hnd).2

theorem ElfRelaArray.WellFormed.pending_sublist {a : ElfRelaArray} (wf : a.WellFormed) :
    a.pending.Sublist (List.range (32 * a.state.relocated.unitCount)) := by
  unfold ElfRelaArray.pending
  split
  · exact List.range_sublist.mpr (by rw [wf.unitCount]; omega)
  · exact List.filter_sublist _
  · exact List.nil_sublist _

/-- **The next pass retries exactly what failed.** After a pass that failed on
a sublist of its pending indices, those are the pending indices. -/
theorem ElfRelaArray.WellFormed.pending_of_agrees {a a' : ElfRelaArray} (wf : a.WellFormed)
    {failed : List Nat} (hag : Agrees a.state.relocated a.pending failed a'.state)
    (hsub : failed.Sublist a.pending) : a'.pending = failed := by
  unfold ElfRelaArray.pending
  rw [hag.stage]
  split_ifs with hnil
  · exact hnil.symm
  · simp only [BitMap.zeros, hag.unitCount]
    rw [List.filter_congr fun p hp => by
      rw [wf.isSet_after hag p (List.mem_range.mp hp), Bool.not_not]]
    exact filter_mem_of_sublist (hsub.trans wf.pending_sublist) (List.nodup_range _)

variable {f f₁ f₂ : Handler Writes}

theorem ElfRelaArray.relocate_eq_error {a : ElfRelaArray} (wf : a.WellFormed) {m : Writes}
    {e : Abort} : a.relocate f m = .error e ↔ callAll f a.array a.pending m = .error e := by
  have hs := relocate_spec wf f m
  cases hr : a.relocate f m <;> cases hc : callAll f a.array a.pending m <;> rw [hr, hc] at hs <;>
    simp_all [StepRel, Functor.map, Except.map]

/-- A pass with a handler that appends is the pass from an empty memory,
written after `mem`. -/
theorem ElfRelaArray.relocate_append {a : ElfRelaArray} (wf : a.WellFormed) (hf : Appends f)
    (mem : Writes) : a.relocate f mem = (fun r => (r.1, mem ++ r.2)) <$> a.relocate f [] := by
  cases hc : callAll f a.array a.pending [] with
  | error e =>
    have hc' : callAll f a.array a.pending mem = .error e := by
      rw [callAll_append hf, hc]
      rfl
    rw [(relocate_eq_error wf).mpr hc', (relocate_eq_error wf).mpr hc]
    rfl
  | ok r =>
    obtain ⟨a₀, h₀, harr₀, hag₀⟩ := relocate_of_callAll wf hc
    have hc' : callAll f a.array a.pending mem = .ok (r.1, mem ++ r.2) := by
      rw [callAll_append hf, hc]
      rfl
    obtain ⟨a₁, h₁, harr₁, hag₁⟩ := relocate_of_callAll wf hc'
    rw [h₀, h₁, ElfRelaArray.eq_of_state (harr₁.trans harr₀.symm) (hag₁.unique hag₀)]
    rfl

/-- **One pass with the combined handler against two passes, on an array.** -/
theorem ElfRelaArray.relocate_fallback {a : ElfRelaArray} (wf : a.WellFormed) (hf : Appends f)
    (hf₁ : Appends f₁) (hf₂ : Appends f₂) (hc : Clean f₁) (hfb : Fallback f f₁ f₂) (mem : Writes) :
    SameUpTo (a.relocate f mem) (a.relocate f₁ mem >>= fun r => r.1.relocate f₂ r.2) := by
  have hpass : SameUpTo (callAll f a.array a.pending mem)
      (callAll f₁ a.array a.pending mem >>= fun r => callAll f₂ a.array r.1 r.2) :=
    callAll_fallback hf hf₁ hf₂ hc hfb a.pending mem
  cases h₁ : a.relocate f₁ mem with
  | error e₁ =>
    rw [(relocate_eq_error wf).mp h₁] at hpass
    obtain ⟨e, hc₀⟩ := sameUpTo_error_left hpass
    simp [(relocate_eq_error wf).mpr hc₀, bind, Except.bind, SameUpTo]
  | ok r₁ =>
    obtain ⟨a₁, mem₁⟩ := r₁
    obtain ⟨F₁, hcall₁, harr₁, hag₁⟩ := relocate_agrees wf h₁
    have wf₁ := wf.relocate h₁
    have hpend : a₁.pending = F₁ := wf.pending_of_agrees hag₁
      ((callAll_of_ok hf₁ hcall₁).2.1 ▸ List.filter_sublist _)
    rw [hcall₁] at hpass
    simp only [bind, Except.bind] at hpass ⊢
    cases h₂ : a₁.relocate f₂ mem₁ with
    | error e₂ =>
      have hc₂ := (relocate_eq_error wf₁).mp h₂
      rw [harr₁, hpend] at hc₂
      rw [hc₂] at hpass
      obtain ⟨e, hc₀⟩ := sameUpTo_error_left hpass
      simp [(relocate_eq_error wf).mpr hc₀, SameUpTo]
    | ok r₂ =>
      obtain ⟨a₂, mem₂⟩ := r₂
      obtain ⟨F₂, hcall₂, harr₂, hag₂⟩ := relocate_agrees wf₁ h₂
      rw [harr₁, hpend] at hcall₂
      rw [hpend] at hag₂
      rw [hcall₂] at hpass
      obtain ⟨W, hc₀, hperm⟩ := sameUpTo_ok_left hpass
      obtain ⟨a', h', harr', hag'⟩ := relocate_of_callAll wf hc₀
      rw [h']
      exact ⟨ElfRelaArray.eq_of_state (harr'.trans (harr₂.trans harr₁).symm)
        (hag'.unique (hag₁.trans hag₂)), hperm⟩

/-- **A second pass with the same handler changes nothing.** Every index it
retries fails again, without writing. -/
theorem ElfRelaArray.relocate_relocate {a a₁ : ElfRelaArray} (wf : a.WellFormed) (hf : Appends f)
    (hc : Clean f) {mem mem₁ : Writes} (h : a.relocate f mem = .ok (a₁, mem₁)) :
    a₁.relocate f mem₁ = .ok (a₁, mem₁) := by
  obtain ⟨F₁, hcall, harr, hag⟩ := relocate_agrees wf h
  obtain ⟨hall, hF₁, -⟩ := callAll_of_ok hf hcall
  have hpend : a₁.pending = F₁ := wf.pending_of_agrees hag (hF₁ ▸ List.filter_sublist _)
  have hretry : ∀ i ∈ F₁, entryCall f a.array i = .ok ([], true) := fun i hi => by
    have hb : (outcomes f a.array i).2 = true := by rw [hF₁] at hi; exact (List.mem_filter.mp hi).2
    have hi' := hall i (hag.sub i hi)
    rw [show outcomes f a.array i = ((outcomes f a.array i).1, true) from Prod.ext rfl hb] at hi'
    rw [hi', hc.nil_of_entryCall hi']
  have hcall₁ : callAll f a₁.array a₁.pending mem₁ = .ok (F₁, mem₁) := by
    rw [harr, hpend]
    unfold callAll
    rw [foldlM_callStep_of_ok hf (fun _ => ([], true)) F₁ hretry]
    simp
  obtain ⟨a₂, h₂, harr₂, hag₂⟩ := relocate_of_callAll (wf.relocate h) hcall₁
  rw [h₂, ElfRelaArray.eq_of_state harr₂ (hag₂.unique (hpend ▸ hag.self))]

/-! ### Passes over an array the image may lack -/

variable {o : Option ElfRelaArray}

theorem relocateArray_append (wf : ∀ a ∈ o, a.WellFormed) (hf : Appends f) (mem : Writes) :
    relocateArray o f mem = (fun r => (r.1, mem ++ r.2)) <$> relocateArray o f [] := by
  rcases o with _ | a
  · simp [relocateArray, pure, Except.pure, Functor.map, Except.map]
  · simp only [relocateArray, ElfRelaArray.relocate_append (wf a rfl) hf mem]
    cases a.relocate f [] <;> rfl

theorem SameUpTo.map {α β : Type} (k : α → β) {x y : Except Abort (α × Writes)}
    (h : SameUpTo x y) :
    SameUpTo ((fun r => (k r.1, r.2)) <$> x) ((fun r => (k r.1, r.2)) <$> y) := by
  rcases x with _ | ⟨a, w⟩ <;> rcases y with _ | ⟨b, v⟩ <;>
    simp_all [SameUpTo, Functor.map, Except.map]

theorem relocateArray_some (a : ElfRelaArray) (f : Handler Writes) (mem : Writes) :
    relocateArray (some a) f mem = (fun r => (some r.1, r.2)) <$> a.relocate f mem := by
  simp only [relocateArray]
  cases a.relocate f mem <;> rfl

theorem relocateArray_fallback (wf : ∀ a ∈ o, a.WellFormed) (hf : Appends f) (hf₁ : Appends f₁)
    (hf₂ : Appends f₂) (hc : Clean f₁) (hfb : Fallback f f₁ f₂) (mem : Writes) :
    SameUpTo (relocateArray o f mem) (relocateArray o f₁ mem >>= fun r => relocateArray r.1 f₂ r.2) := by
  rcases o with _ | a
  · exact ⟨rfl, List.Perm.refl _⟩
  · have h := (ElfRelaArray.relocate_fallback (wf a rfl) hf hf₁ hf₂ hc hfb mem).map some
    have hbind : (relocateArray (some a) f₁ mem >>= fun r => relocateArray r.1 f₂ r.2) =
        (fun r => (some r.1, r.2)) <$> (a.relocate f₁ mem >>= fun r => r.1.relocate f₂ r.2) := by
      rw [relocateArray_some]
      cases a.relocate f₁ mem with
      | error e => rfl
      | ok r => simp [Functor.map, Except.map, bind, Except.bind, relocateArray_some]
    rw [hbind, relocateArray_some]
    exact h

theorem relocateArray_relocateArray (wf : ∀ a ∈ o, a.WellFormed) (hf : Appends f) (hc : Clean f)
    {o₁ : Option ElfRelaArray} {mem mem₁ : Writes} (h : relocateArray o f mem = .ok (o₁, mem₁)) :
    relocateArray o₁ f mem₁ = .ok (o₁, mem₁) := by
  rcases o with _ | a
  · cases h
    rfl
  · simp only [relocateArray, bind, Except.bind] at h
    cases ha : a.relocate f mem with
    | error e => rw [ha] at h; cases h
    | ok r =>
      rw [ha] at h
      cases h
      simp [relocateArray, ElfRelaArray.relocate_relocate (wf a rfl) hf hc ha, bind, Except.bind, pure,
        Except.pure]

theorem relocateArray_wf {o' : Option ElfRelaArray} (wf : ∀ a ∈ o, a.WellFormed)
    {mem mem' : Writes} (h : relocateArray o f mem = .ok (o', mem')) : ∀ a ∈ o', a.WellFormed := by
  rcases o with _ | a
  · cases h
    exact wf
  · rw [relocateArray_some] at h
    cases ha : a.relocate f mem with
    | error e => rw [ha] at h; cases h
    | ok r =>
      rw [ha] at h
      cases h
      intro a' ha'
      cases ha'
      exact (wf a rfl).relocate ha

/-- A pass run again, from any memory, changes nothing and writes nothing. -/
theorem relocateArray_again {o₁ : Option ElfRelaArray}
    (wf : ∀ a ∈ o, a.WellFormed) (hf : Appends f) (hc : Clean f) {mem mem₁ : Writes}
    (h : relocateArray o f mem = .ok (o₁, mem₁)) (m : Writes) :
    relocateArray o₁ f m = .ok (o₁, m) := by
  have h₁ := relocateArray_relocateArray wf hf hc h
  have wf₁ := relocateArray_wf wf h
  rw [relocateArray_append wf₁ hf] at h₁ ⊢
  cases h₀ : relocateArray o₁ f [] with
  | error e => rw [h₀] at h₁; cases h₁
  | ok r =>
    rw [h₀] at h₁
    simp only [Functor.map, Except.map, Except.ok.injEq, Prod.mk.injEq, List.append_right_eq_self] at h₁
    obtain ⟨o', w⟩ := r
    obtain ⟨rfl, rfl⟩ := h₁
    simp [Functor.map, Except.map]

end Arrays

/-! ### Two arrays in sequence -/

/-- **Two passes over two arrays, in steps.** If one pass `x` is a pass `x₁`
followed by `x₂` up to the order of the words, and `y` is `y₁` then `y₂`, and
all of them only append, then `x₁; y₁; x₂; y₂` is `x; y` up to the order of
the words: the PLT and dynamic passes of two calls of `relocate_impl` against
those of one. -/
theorem sameUpTo_product {α β : Type}
    (x x₁ : Writes → Except Abort (α × Writes)) (x₂ : α → Writes → Except Abort (α × Writes))
    (y y₁ : Writes → Except Abort (β × Writes)) (y₂ : β → Writes → Except Abort (β × Writes))
    (hx : ∀ m, SameUpTo (x m) (x₁ m >>= fun r => x₂ r.1 r.2))
    (hy : ∀ m, SameUpTo (y m) (y₁ m >>= fun r => y₂ r.1 r.2))
    (lx₁ : ∀ m, x₁ m = (fun r => (r.1, m ++ r.2)) <$> x₁ [])
    (ly₁ : ∀ m, y₁ m = (fun r => (r.1, m ++ r.2)) <$> y₁ [])
    (lx₂ : ∀ p w, x₁ [] = .ok (p, w) → ∀ m, x₂ p m = (fun r => (r.1, m ++ r.2)) <$> x₂ p [])
    (ly₂ : ∀ d w, y₁ [] = .ok (d, w) → ∀ m, y₂ d m = (fun r => (r.1, m ++ r.2)) <$> y₂ d [])
    (mem : Writes) :
    SameUpTo (x₁ mem >>= fun r => y₁ r.2 >>= fun s => x₂ r.1 s.2 >>= fun r' =>
        (fun s' => ((r'.1, s'.1), s'.2)) <$> y₂ s.1 r'.2)
      (x mem >>= fun r => (fun s => ((r.1, s.1), s.2)) <$> y r.2) := by
  have hxm := hx mem
  rw [lx₁ mem] at hxm ⊢
  cases hX₁ : x₁ [] with
  | error e =>
    obtain ⟨e', hX⟩ := sameUpTo_error_left (by rw [hX₁] at hxm; exact hxm)
    simp [hX, Functor.map, Except.map, bind, Except.bind, SameUpTo]
  | ok r₁ =>
    obtain ⟨p₁, A⟩ := r₁
    rw [hX₁] at hxm
    have lx := lx₂ p₁ A hX₁
    simp only [Functor.map, Except.map, bind, Except.bind] at hxm ⊢
    rw [lx] at hxm
    rw [ly₁]
    cases hY₁ : y₁ [] with
    | error e =>
      cases hX : x mem with
      | error e' => simp [SameUpTo]
      | ok r =>
        have hym := hy r.2
        rw [ly₁, hY₁] at hym
        obtain ⟨e'', hY⟩ := sameUpTo_error_left hym
        simp [hY, SameUpTo]
    | ok s₁ =>
      obtain ⟨d₁, B⟩ := s₁
      have ly := ly₂ d₁ B hY₁
      simp only [Functor.map, Except.map]
      rw [lx]
      cases hX₂ : x₂ p₁ [] with
      | error e =>
        rw [hX₂] at hxm
        obtain ⟨e', hX⟩ := sameUpTo_error_left hxm
        simp [hX, SameUpTo]
      | ok r₂ =>
        obtain ⟨p₂, C⟩ := r₂
        rw [hX₂] at hxm
        obtain ⟨W, hX, hW⟩ := sameUpTo_ok_left hxm
        have hym := hy W
        rw [ly₁, hY₁] at hym
        simp only [Functor.map, Except.map, bind, Except.bind] at hym
        rw [ly] at hym
        simp only [hX, Functor.map, Except.map]
        rw [ly]
        cases hY₂ : y₂ d₁ [] with
        | error e =>
          rw [hY₂] at hym
          obtain ⟨e', hY⟩ := sameUpTo_error_left hym
          simp [hY, SameUpTo]
        | ok s₂ =>
          obtain ⟨d₂, D⟩ := s₂
          rw [hY₂] at hym
          obtain ⟨V, hY, hV⟩ := sameUpTo_ok_left hym
          simp only [hY, Functor.map, Except.map, SameUpTo, true_and]
          have hswap : (mem ++ A ++ B ++ C ++ D).Perm (mem ++ A ++ C ++ B ++ D) := by
            simp only [List.append_assoc]
            exact ((List.perm_append_comm_assoc B C D).append_left A).append_left mem
          exact hswap.trans (((hW.symm.append_right B).append_right D).trans hV.symm)

/-! ### The handlers for a longer dependency list -/

section Handlers

variable (arch : Arch) (ifunc : Usize → Usize) (lib : ElfDylib) (findSymbol : FindSymbol)

theorem ElfDylib.lookup_fst (L₁ L₂ : List RelocatedDylib) (rSym : Nat) :
    (lib.lookup L₁ rSym).1 = (lib.lookup L₂ rSym).1 := by
  unfold ElfDylib.lookup
  split_ifs <;> rfl

theorem ElfDylib.pltHandler_append (L₁ L₂ : List RelocatedDylib) :
    Fallback (lib.pltHandler arch ifunc (L₁ ++ L₂) findSymbol) (lib.pltHandler arch ifunc L₁ findSymbol)
      (lib.pltHandler arch ifunc L₂ findSymbol) := by
  intro rela idx
  unfold ElfDylib.pltHandler
  dsimp only
  split_ifs
  · rfl
  all_goals
    rw [findSymdef_append, symbolOf_or]
    cases symbolOf ifunc findSymbol (lib.symbols.relSymbol rela.rSymbol).2.name
      (findSymdef lib L₁ (lib.symbols.relSymbol rela.rSymbol).1 (lib.symbols.relSymbol rela.rSymbol).2) <;> rfl

theorem ElfDylib.dynHandler_append (L₁ L₂ : List RelocatedDylib) :
    Fallback (lib.dynHandler arch ifunc (L₁ ++ L₂) findSymbol) (lib.dynHandler arch ifunc L₁ findSymbol)
      (lib.dynHandler arch ifunc L₂ findSymbol) := by
  intro rela idx
  unfold ElfDylib.dynHandler
  dsimp only
  rw [lib.lookup_append, lib.lookup_fst L₂ L₁]
  dsimp only
  split_ifs
  · rw [symbolOf_or]
    cases symbolOf ifunc findSymbol (lib.lookup L₁ rela.rSymbol).1 (lib.lookup L₁ rela.rSymbol).2 <;> rfl
  · rfl
  · cases (lib.lookup L₁ rela.rSymbol).2 with
    | none => rfl
    | some d =>
      rw [Option.or_some]
      cases h : d.tls <;> simp [h]
  · cases lib.tls <;> rfl
  · cases (lib.lookup L₁ rela.rSymbol).2 <;> rfl
  · rfl

theorem clean_of_obeys {libs : List RelocatedDylib} {f : Handler Writes}
    (h : ∀ rela idx, Obeys arch ifunc lib libs findSymbol rela [] (f rela idx [])) : Clean f := by
  intro rela idx w hw
  have := h rela idx
  rw [hw] at this
  exact this

end Handlers

/-! ### The whole image -/

section Image

variable (arch : Arch) (ifunc : Usize → Usize)

/-- The PLT pass as `relocate_impl` runs it: skipped for an image that binds lazily. -/
def lazyPass (lazy : Bool) (o : Option ElfRelaArray) (f : Handler Writes) (mem : Writes) :
    Except Abort (Option ElfRelaArray × Writes) :=
  if !lazy then relocateArray o f mem else pure (o, mem)

theorem ElfDylib.relocateImpl_eq (lib : ElfDylib) (libs : List RelocatedDylib)
    (findSymbol : FindSymbol) (mem : Writes) :
    lib.relocateImpl arch ifunc libs findSymbol mem =
      lazyPass lib.lazy lib.relocation.pltrel (lib.pltHandler arch ifunc libs findSymbol) mem >>= fun r =>
        (fun s => ({ lib with relocation := ⟨r.1, s.1⟩, depLibs := lib.depLibs ++ libs }, s.2)) <$>
          relocateArray lib.relocation.dynrel (lib.dynHandler arch ifunc libs findSymbol) r.2 := by
  unfold ElfDylib.relocateImpl lazyPass
  dsimp only
  split_ifs
  · cases relocateArray lib.relocation.pltrel (lib.pltHandler arch ifunc libs findSymbol) mem with
    | error e => rfl
    | ok r =>
      obtain ⟨p, m⟩ := r
      cases relocateArray lib.relocation.dynrel (lib.dynHandler arch ifunc libs findSymbol) m <;> rfl
  · cases relocateArray lib.relocation.dynrel (lib.dynHandler arch ifunc libs findSymbol) mem <;> rfl

variable {f f₁ f₂ : Handler Writes} {o : Option ElfRelaArray}

theorem lazyPass_append (lazy : Bool) (wf : ∀ a ∈ o, a.WellFormed) (hf : Appends f) (mem : Writes) :
    lazyPass lazy o f mem = (fun r => (r.1, mem ++ r.2)) <$> lazyPass lazy o f [] := by
  cases lazy
  · exact relocateArray_append wf hf mem
  · simp [lazyPass, pure, Except.pure, Functor.map, Except.map]

theorem lazyPass_fallback (lazy : Bool) (wf : ∀ a ∈ o, a.WellFormed) (hf : Appends f)
    (hf₁ : Appends f₁) (hf₂ : Appends f₂) (hc : Clean f₁) (hfb : Fallback f f₁ f₂) (mem : Writes) :
    SameUpTo (lazyPass lazy o f mem) (lazyPass lazy o f₁ mem >>= fun r => lazyPass lazy r.1 f₂ r.2) := by
  cases lazy
  · exact relocateArray_fallback wf hf hf₁ hf₂ hc hfb mem
  · exact ⟨rfl, by simp⟩

theorem lazyPass_wf (lazy : Bool) (wf : ∀ a ∈ o, a.WellFormed) {o' : Option ElfRelaArray}
    {mem mem' : Writes} (h : lazyPass lazy o f mem = .ok (o', mem')) : ∀ a ∈ o', a.WellFormed := by
  cases lazy
  · exact relocateArray_wf wf h
  · cases h
    exact wf

theorem lazyPass_again (lazy : Bool) (wf : ∀ a ∈ o, a.WellFormed) (hf : Appends f) (hc : Clean f)
    {o₁ : Option ElfRelaArray} {mem mem₁ : Writes} (h : lazyPass lazy o f mem = .ok (o₁, mem₁))
    (m : Writes) : lazyPass lazy o₁ f m = .ok (o₁, m) := by
  cases lazy
  · exact relocateArray_again wf hf hc h m
  · cases h
    rfl


theorem ElfDylib.relocateImpl_mk (lib : ElfDylib) (r : ElfRelocation) (d libs : List RelocatedDylib)
    (findSymbol : FindSymbol) (mem : Writes) :
    ({ lib with relocation := r, depLibs := d } : ElfDylib).relocateImpl arch ifunc libs findSymbol mem =
      lazyPass lib.lazy r.pltrel (lib.pltHandler arch ifunc libs findSymbol) mem >>= fun r' =>
        (fun s => ({ lib with relocation := ⟨r'.1, s.1⟩, depLibs := d ++ libs }, s.2)) <$>
          relocateArray r.dynrel (lib.dynHandler arch ifunc libs findSymbol) r'.2 :=
  ElfDylib.relocateImpl_eq arch ifunc _ libs findSymbol mem

/-- Two calls of `relocate_impl` as the four passes they run, in order. -/
theorem ElfDylib.relocateImpl_twice (lib : ElfDylib) (L₁ L₂ : List RelocatedDylib)
    (findSymbol : FindSymbol) (mem : Writes) :
    (lib.relocateImpl arch ifunc L₁ findSymbol mem >>= fun r =>
      r.1.relocateImpl arch ifunc L₂ findSymbol r.2) =
    (fun r => ({ lib with relocation := ⟨r.1.1, r.1.2⟩, depLibs := lib.depLibs ++ L₁ ++ L₂ }, r.2)) <$>
      (lazyPass lib.lazy lib.relocation.pltrel (lib.pltHandler arch ifunc L₁ findSymbol) mem >>= fun r =>
        relocateArray lib.relocation.dynrel (lib.dynHandler arch ifunc L₁ findSymbol) r.2 >>= fun s =>
        lazyPass lib.lazy r.1 (lib.pltHandler arch ifunc L₂ findSymbol) s.2 >>= fun r' =>
        (fun s' => ((r'.1, s'.1), s'.2)) <$> relocateArray s.1 (lib.dynHandler arch ifunc L₂ findSymbol) r'.2) := by
  rw [ElfDylib.relocateImpl_eq]
  cases lazyPass lib.lazy lib.relocation.pltrel (lib.pltHandler arch ifunc L₁ findSymbol) mem with
  | error e => rfl
  | ok r₁ =>
    obtain ⟨p₁, m₁⟩ := r₁
    simp only [bind, Except.bind, Functor.map, Except.map]
    cases relocateArray lib.relocation.dynrel (lib.dynHandler arch ifunc L₁ findSymbol) m₁ with
    | error e => rfl
    | ok r₂ =>
      obtain ⟨d₁, m₂⟩ := r₂
      simp only
      rw [ElfDylib.relocateImpl_mk]
      cases lazyPass lib.lazy p₁ (lib.pltHandler arch ifunc L₂ findSymbol) m₂ with
      | error e => rfl
      | ok r₃ =>
        obtain ⟨p₂, m₃⟩ := r₃
        simp only [bind, Except.bind, Functor.map, Except.map]
        cases relocateArray d₁ (lib.dynHandler arch ifunc L₂ findSymbol) m₃ <;> rfl

theorem ElfDylib.relocateImpl_passes (lib : ElfDylib) (libs : List RelocatedDylib)
    (findSymbol : FindSymbol) (mem : Writes) :
    lib.relocateImpl arch ifunc libs findSymbol mem =
    (fun r => ({ lib with relocation := ⟨r.1.1, r.1.2⟩, depLibs := lib.depLibs ++ libs }, r.2)) <$>
      (lazyPass lib.lazy lib.relocation.pltrel (lib.pltHandler arch ifunc libs findSymbol) mem >>= fun r =>
        (fun s => ((r.1, s.1), s.2)) <$> relocateArray lib.relocation.dynrel (lib.dynHandler arch ifunc libs findSymbol) r.2) := by
  rw [ElfDylib.relocateImpl_eq]
  cases lazyPass lib.lazy lib.relocation.pltrel (lib.pltHandler arch ifunc libs findSymbol) mem with
  | error e => rfl
  | ok r₁ =>
    simp only [bind, Except.bind, Functor.map, Except.map]
    cases relocateArray lib.relocation.dynrel (lib.dynHandler arch ifunc libs findSymbol) r₁.2 <;> rfl

/-- **Two calls of `relocate_impl` against one.** -/
theorem ElfDylib.relocateImpl_split (lib : ElfDylib)
    (hplt : ∀ a ∈ lib.relocation.pltrel, a.WellFormed) (hdyn : ∀ a ∈ lib.relocation.dynrel, a.WellFormed)
    (L₁ L₂ : List RelocatedDylib) (findSymbol : FindSymbol) (mem : Writes) :
    SameUpTo (lib.relocateImpl arch ifunc L₁ findSymbol mem >>= fun r =>
        r.1.relocateImpl arch ifunc L₂ findSymbol r.2)
      (lib.relocateImpl arch ifunc (L₁ ++ L₂) findSymbol mem) := by
  have aP := fun L => lib.pltHandler_appends arch ifunc L findSymbol
  have aD := fun L => lib.dynHandler_appends arch ifunc L findSymbol
  have cP := fun L => clean_of_obeys arch ifunc lib findSymbol
    (fun rela idx => lib.pltHandler_obeys arch ifunc L findSymbol rela idx [])
  have cD := fun L => clean_of_obeys arch ifunc lib findSymbol
    (fun rela idx => lib.dynHandler_obeys arch ifunc L findSymbol rela idx [])
  have key := sameUpTo_product
    (fun m => lazyPass lib.lazy lib.relocation.pltrel (lib.pltHandler arch ifunc (L₁ ++ L₂) findSymbol) m)
    (fun m => lazyPass lib.lazy lib.relocation.pltrel (lib.pltHandler arch ifunc L₁ findSymbol) m)
    (fun p m => lazyPass lib.lazy p (lib.pltHandler arch ifunc L₂ findSymbol) m)
    (fun m => relocateArray lib.relocation.dynrel (lib.dynHandler arch ifunc (L₁ ++ L₂) findSymbol) m)
    (fun m => relocateArray lib.relocation.dynrel (lib.dynHandler arch ifunc L₁ findSymbol) m)
    (fun d m => relocateArray d (lib.dynHandler arch ifunc L₂ findSymbol) m)
    (fun m => lazyPass_fallback lib.lazy hplt (aP _) (aP _) (aP _) (cP _)
      (lib.pltHandler_append arch ifunc findSymbol L₁ L₂) m)
    (fun m => relocateArray_fallback hdyn (aD _) (aD _) (aD _) (cD _)
      (lib.dynHandler_append arch ifunc findSymbol L₁ L₂) m)
    (fun m => lazyPass_append lib.lazy hplt (aP _) m)
    (fun m => relocateArray_append hdyn (aD _) m)
    (fun _ _ h m => lazyPass_append lib.lazy (lazyPass_wf lib.lazy hplt h) (aP _) m)
    (fun _ _ h m => relocateArray_append (relocateArray_wf hdyn h) (aD _) m)
    mem
  rw [ElfDylib.relocateImpl_twice, ElfDylib.relocateImpl_passes, ← List.append_assoc lib.depLibs L₁ L₂]
  exact key.map fun r => { lib with relocation := ⟨r.1, r.2⟩, depLibs := lib.depLibs ++ L₁ ++ L₂ }

/-- The image with its stored resolvers dropped. -/
def ElfDylib.withoutClosures (lib : ElfDylib) : ElfDylib := { lib with closures := [] }

theorem ElfDylib.relocateWith_eq (lib : ElfDylib) (libs : List RelocatedDylib) (func : FindSymbol)
    (mem : Writes) :
    lib.relocateWith arch ifunc libs func mem =
      (fun r => ({ r.1 with closures := r.1.closures ++ [func] }, r.2)) <$>
        lib.relocateImpl arch ifunc libs (fun name => func name) mem := by
  unfold ElfDylib.relocateWith
  cases lib.relocateImpl arch ifunc libs (fun name => func name) mem <;> rfl

theorem ElfDylib.pltHandler_closures (lib : ElfDylib) (c : List FindSymbol)
    (libs : List RelocatedDylib) (findSymbol : FindSymbol) :
    ({ lib with closures := c } : ElfDylib).pltHandler arch ifunc libs findSymbol =
      lib.pltHandler arch ifunc libs findSymbol := rfl

theorem ElfDylib.dynHandler_closures (lib : ElfDylib) (c : List FindSymbol)
    (libs : List RelocatedDylib) (findSymbol : FindSymbol) :
    ({ lib with closures := c } : ElfDylib).dynHandler arch ifunc libs findSymbol =
      lib.dynHandler arch ifunc libs findSymbol := rfl

theorem ElfDylib.relocateImpl_closures (lib : ElfDylib) (c : List FindSymbol) (libs : List RelocatedDylib)
    (findSymbol : FindSymbol) (mem : Writes) :
    ({ lib with closures := c } : ElfDylib).relocateImpl arch ifunc libs findSymbol mem =
      (fun r => ({ r.1 with closures := c }, r.2)) <$> lib.relocateImpl arch ifunc libs findSymbol mem := by
  rw [ElfDylib.relocateImpl_passes, ElfDylib.relocateImpl_passes, ElfDylib.pltHandler_closures,
    ElfDylib.dynHandler_closures]
  cases lazyPass lib.lazy lib.relocation.pltrel (lib.pltHandler arch ifunc libs findSymbol) mem with
  | error e => rfl
  | ok r₁ =>
    simp only [bind, Except.bind, Functor.map, Except.map]
    cases relocateArray lib.relocation.dynrel (lib.dynHandler arch ifunc libs findSymbol) r₁.2 <;> rfl

/-- **`relocate_with` in two calls against one**, the stored resolvers aside. -/
theorem ElfDylib.relocateWith_split (lib : ElfDylib)
    (hplt : ∀ a ∈ lib.relocation.pltrel, a.WellFormed) (hdyn : ∀ a ∈ lib.relocation.dynrel, a.WellFormed)
    (L₁ L₂ : List RelocatedDylib) (func : FindSymbol) (mem : Writes) :
    SameUpTo ((fun r => (r.1.withoutClosures, r.2)) <$>
        (lib.relocateWith arch ifunc L₁ func mem >>= fun r => r.1.relocateWith arch ifunc L₂ func r.2))
      ((fun r => (r.1.withoutClosures, r.2)) <$> lib.relocateWith arch ifunc (L₁ ++ L₂) func mem) := by
  have hone : ((fun r => (r.1.withoutClosures, r.2)) <$> lib.relocateWith arch ifunc (L₁ ++ L₂) func mem) =
      (fun r => (r.1.withoutClosures, r.2)) <$>
        lib.relocateImpl arch ifunc (L₁ ++ L₂) (fun name => func name) mem := by
    rw [ElfDylib.relocateWith_eq]
    cases lib.relocateImpl arch ifunc (L₁ ++ L₂) (fun name => func name) mem <;> rfl
  have htwo : ((fun r => (r.1.withoutClosures, r.2)) <$>
      (lib.relocateWith arch ifunc L₁ func mem >>= fun r => r.1.relocateWith arch ifunc L₂ func r.2)) =
      (fun r => (r.1.withoutClosures, r.2)) <$> (lib.relocateImpl arch ifunc L₁ (fun name => func name) mem
        >>= fun r => r.1.relocateImpl arch ifunc L₂ (fun name => func name) r.2) := by
    rw [ElfDylib.relocateWith_eq]
    cases lib.relocateImpl arch ifunc L₁ (fun name => func name) mem with
    | error e => rfl
    | ok r =>
      simp only [bind, Except.bind, Functor.map, Except.map]
      rw [ElfDylib.relocateWith_eq, ElfDylib.relocateImpl_closures]
      cases r.1.relocateImpl arch ifunc L₂ (fun name => func name) r.2 <;> rfl
  rw [hone, htwo]
  exact (lib.relocateImpl_split arch ifunc hplt hdyn L₁ L₂ (fun name => func name) mem).map
    ElfDylib.withoutClosures

/-- **A second call against the same list changes nothing**: it writes no word
and leaves every array as it was; only `dep_libs` grows. -/
theorem ElfDylib.relocateImpl_again (lib : ElfDylib)
    (hplt : ∀ a ∈ lib.relocation.pltrel, a.WellFormed) (hdyn : ∀ a ∈ lib.relocation.dynrel, a.WellFormed)
    (L : List RelocatedDylib) (findSymbol : FindSymbol) {mem : Writes} {lib₁ : ElfDylib} {mem₁ : Writes}
    (h : lib.relocateImpl arch ifunc L findSymbol mem = .ok (lib₁, mem₁)) :
    lib₁.relocateImpl arch ifunc L findSymbol mem₁ = .ok ({ lib₁ with depLibs := lib₁.depLibs ++ L }, mem₁) := by
  have aP := lib.pltHandler_appends arch ifunc L findSymbol
  have aD := lib.dynHandler_appends arch ifunc L findSymbol
  have cP := clean_of_obeys arch ifunc lib findSymbol
    (fun rela idx => lib.pltHandler_obeys arch ifunc L findSymbol rela idx [])
  have cD := clean_of_obeys arch ifunc lib findSymbol
    (fun rela idx => lib.dynHandler_obeys arch ifunc L findSymbol rela idx [])
  rw [ElfDylib.relocateImpl_eq] at h
  cases hp : lazyPass lib.lazy lib.relocation.pltrel (lib.pltHandler arch ifunc L findSymbol) mem with
  | error e => rw [hp] at h; cases h
  | ok r₁ =>
    obtain ⟨p₁, m₁⟩ := r₁
    rw [hp] at h
    simp only [bind, Except.bind, Functor.map, Except.map] at h
    cases hd : relocateArray lib.relocation.dynrel (lib.dynHandler arch ifunc L findSymbol) m₁ with
    | error e => rw [hd] at h; cases h
    | ok r₂ =>
      obtain ⟨d₁, m₂⟩ := r₂
      rw [hd] at h
      simp only [Except.ok.injEq, Prod.mk.injEq] at h
      obtain ⟨rfl, rfl⟩ := h
      rw [ElfDylib.relocateImpl_mk, lazyPass_again lib.lazy hplt aP cP hp]
      simp only [bind, Except.bind, Functor.map, Except.map, relocateArray_again hdyn aD cD hd]

end Image

/-- **Relocating in steps.** Take an image whose relocation arrays
`ElfRelocation::new` built, and any two dependency lists `L₁` and `L₂`, symbol
lookups and IFUNC resolvers being functions of their inputs. `relocate(L₁)`
then `relocate(L₂)` panics exactly when `relocate(L₁ ++ L₂)` does; otherwise
both leave the same image (the same arrays, bitmaps and stages, and `dep_libs`
extended by `L₁ ++ L₂`) and write the same words at the same addresses, in some
order. The same holds for `relocate_with` with one resolver, the stored
resolvers aside. And a second `relocate` against the same list writes nothing
and changes no array. -/
theorem relocate_incremental (arch : Arch) (ifunc : Usize → Usize) (lib : ElfDylib)
    (pltrel dynrel : Option (List ElfRela)) (fresh : lib.relocation = ElfRelocation.new pltrel dynrel) :
    (∀ L₁ L₂ mem, SameUpTo (lib.relocate arch ifunc L₁ mem >>= fun r => r.1.relocate arch ifunc L₂ r.2)
      (lib.relocate arch ifunc (L₁ ++ L₂) mem)) ∧
    (∀ L₁ L₂ func mem, SameUpTo
      ((fun r => (r.1.withoutClosures, r.2)) <$>
        (lib.relocateWith arch ifunc L₁ func mem >>= fun r => r.1.relocateWith arch ifunc L₂ func r.2))
      ((fun r => (r.1.withoutClosures, r.2)) <$> lib.relocateWith arch ifunc (L₁ ++ L₂) func mem)) ∧
    (∀ L mem lib₁ mem₁, lib.relocate arch ifunc L mem = .ok (lib₁, mem₁) →
      lib₁.relocate arch ifunc L mem₁ = .ok ({ lib₁ with depLibs := lib₁.depLibs ++ L }, mem₁)) := by
  have hplt : ∀ a ∈ lib.relocation.pltrel, a.WellFormed := by
    rw [fresh]
    exact fun _ => wellFormed_of_new
  have hdyn : ∀ a ∈ lib.relocation.dynrel, a.WellFormed := by
    rw [fresh]
    exact fun _ => wellFormed_of_new
  exact ⟨fun L₁ L₂ mem => lib.relocateImpl_split arch ifunc hplt hdyn L₁ L₂ _ mem,
    fun L₁ L₂ func mem => lib.relocateWith_split arch ifunc hplt hdyn L₁ L₂ func mem,
    fun L mem _ _ h => lib.relocateImpl_again arch ifunc hplt hdyn L _ h⟩

/-- The image whose entry names `foo`: `relocate(&[])` leaves the entry
unresolved, and `relocate(&[fooLib])` after it ends as one
`relocate(&[fooLib])` does. -/
theorem relocate_incremental_foo :
    unresolvedImage.relocation = ElfRelocation.new none (some [⟨0x2000, 0x100000002, 0⟩]) ∧
      (∃ lib mem, unresolvedImage.relocate riscv64 id [] [] = .ok (lib, mem) ∧ lib.isFinished = false) ∧
      SameUpTo (unresolvedImage.relocate riscv64 id [] [] >>= fun r => r.1.relocate riscv64 id [fooLib] r.2)
        (unresolvedImage.relocate riscv64 id ([] ++ [fooLib]) []) :=
  ⟨rfl, ⟨_, _, rfl, rfl⟩, (relocate_incremental riscv64 id _ none (some [⟨0x2000, 0x100000002, 0⟩]) rfl).1 [] [fooLib] []⟩

end ElfLoader.Relocation
