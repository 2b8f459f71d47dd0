import ElfLoader.Relocation.BitMap

/-!
`BitMapIterator` (relocation.rs) walks the clear bits of a `RelocateState`'s
bitmap. It copies the unit under its cursor into `cur_bit` and marks each
position it yields in that copy, so the consumer may set or clear the bit it
was given without disturbing the walk.

* `view` is the bitmap as the iterator reads it, and `remaining` the positions
  it has still to yield: the clear bits of the view from the cursor's unit on.
* `next_spec` — from a cursor inside the bitmap, `next` never panics; it yields
  the head of `remaining` and leaves the tail, or reports the end exactly when
  nothing remains. `measure` drops at every yield.
* `remaining_new` — a fresh iterator has every clear bit of the bitmap still to
  yield; `remaining_congr` — rewriting the cursor's unit in the state changes
  nothing the iterator yields.
-/

namespace ElfLoader.Relocation

/-- `RelocateStage`. -/
inductive RelocateStage where
  | init
  | relocating
  | finish
  deriving DecidableEq, Repr

/-- `RelocateState`: the bitmap of one relocation array and its stage. -/
structure RelocateState where
  relocated : BitMap
  stage : RelocateStage
  deriving DecidableEq, Repr

/-- `BitMapIterator`; the `&mut RelocateState` it borrows is its `state`. -/
structure BitMapIterator where
  curBit : BitVec 32
  index : Nat
  state : RelocateState

/-- The lowest position in `range n` that `q` accepts heads the filtered
list; the rest is the filter that also rejects it. -/
theorem filter_range_eq_cons {q : Nat → Bool} {n : Nat} (x : Nat) (hx : x < n) (hq : q x = true)
    (below : ∀ y < x, q y = false) :
    (List.range n).filter q = x :: (List.range n).filter (fun y => q y && y ≠ x) := by
  induction n with
  | zero => omega
  | succ n ih =>
    rw [List.range_succ, List.filter_append, List.filter_append]
    rcases Nat.lt_succ_iff_lt_or_eq.mp hx with hx | rfl
    · rw [ih hx]
      simp [List.filter_cons, show ¬n = x by omega]
    · have hnil : ∀ r : Nat → Bool, (∀ y < x, r y = false) → (List.range x).filter r = [] :=
        fun r hr => List.filter_eq_nil_iff.mpr fun y hy => by simp [hr y (List.mem_range.mp hy)]
      rw [hnil q below, hnil _ fun y hy => by simp [below y hy]]
      simp [hq]

namespace BitMapIterator

/-- `BitMapIterator::new`: reads unit 0, which panics on an empty bitmap. -/
def new (state : RelocateState) : Except Abort BitMapIterator := do
  let curBit ← state.relocated.unit 0
  pure ⟨curBit, 0, state⟩

/-- `BitMapIterator::next`: the lowest zero of `cur_bit` is yielded and marked
in the copy; a full unit moves the cursor to the next unit, read afresh from
the state, and reaching the unit count ends the walk. -/
def next (it : BitMapIterator) : Except Abort (Option (BitMapIterator × Nat)) :=
  let idx := trailingOnes it.curBit
  if idx = 32 then
    if it.index + 1 = it.state.relocated.unitCount then .ok none
    else
      match h : it.state.relocated.unit (it.index + 1) with
      | .error e => .error e
      | .ok curBit => next ⟨curBit, it.index + 1, it.state⟩
  else .ok (some (⟨it.curBit ||| 1#32 <<< idx, it.index, it.state⟩, it.index * 32 + idx))
termination_by it.state.relocated.unitCount - it.index
decreasing_by have := BitMap.lt_of_unit_eq_ok h; simp_wf; omega

/-- A full unit before the last whose successor reads: the call goes on from
the next unit. -/
theorem next_of_full (it : BitMapIterator) (ht : trailingOnes it.curBit = 32)
    (hend : it.index + 1 ≠ it.state.relocated.unitCount) {u : BitVec 32}
    (hu : it.state.relocated.unit (it.index + 1) = .ok u) :
    it.next = next ⟨u, it.index + 1, it.state⟩ := by
  rw [next]
  simp only [ht, hend, if_true, if_false]
  split <;> simp_all

/-- A full unit before the last whose successor does not read: the read
panics. -/
theorem next_of_error (it : BitMapIterator) (ht : trailingOnes it.curBit = 32)
    (hend : it.index + 1 ≠ it.state.relocated.unitCount) {e : Abort}
    (he : it.state.relocated.unit (it.index + 1) = .error e) :
    it.next = .error e := by
  rw [next]
  simp only [ht, hend, if_true, if_false]
  split <;> simp_all

/-- The bitmap as the iterator reads it: unit `index` is its copy `curBit`. -/
def view (it : BitMapIterator) : BitMap := ⟨it.state.relocated.bitmap.set it.index it.curBit⟩

/-- The positions the iterator has still to yield, in increasing order. -/
def remaining (it : BitMapIterator) : List Nat :=
  (List.range (32 * it.state.relocated.unitCount)).filter
    (fun p => decide (32 * it.index ≤ p) && !it.view.isSet p)

/-- Drops at every position `next` yields. -/
def measure (it : BitMapIterator) : Nat :=
  (it.state.relocated.unitCount - it.index) * 33 + (32 - trailingOnes it.curBit)

theorem isSet_view (it : BitMapIterator) (hv : it.index < it.state.relocated.unitCount)
    (p : Nat) : it.view.isSet p =
      if p / 32 = it.index then it.curBit.getLsbD (p % 32) else it.state.relocated.isSet p := by
  simp only [view, BitMap.isSet, List.getD_eq_getElem?_getD, List.getElem?_set]
  by_cases hp : p / 32 = it.index
  · rw [if_pos hp.symm, if_pos (show it.index < it.state.relocated.bitmap.length from hv),
      if_pos hp, Option.getD_some]
  · rw [if_neg (Ne.symm hp), if_neg hp]

/-- A fresh iterator has every clear bit of the bitmap still to yield. -/
theorem remaining_new {state : RelocateState} {it : BitMapIterator} (h : new state = .ok it) :
    it.remaining = state.relocated.zeros := by
  simp only [new, bind, Except.bind] at h
  split at h
  · cases h
  · rename_i u hu
    cases h
    have hv := BitMap.lt_of_unit_eq_ok hu
    have hu := BitMap.unit_eq_ok_iff.mp hu
    refine List.filter_congr fun p _ => ?_
    rw [isSet_view ⟨u, 0, state⟩ hv]
    by_cases hp : p / 32 = 0
    · simp [hp, hu, BitMap.isSet, List.getD_eq_getElem?_getD]
    · simp [hp]

/-- Rewriting, in the state, the unit under the cursor (and nothing else)
leaves the view, and so every position still to yield, as it was. -/
theorem remaining_congr {it : BitMapIterator} {state : RelocateState}
    (hv : it.index < it.state.relocated.unitCount)
    (hc : state.relocated.unitCount = it.state.relocated.unitCount)
    (same : ∀ p, p / 32 ≠ it.index → state.relocated.isSet p = it.state.relocated.isSet p) :
    { it with state }.remaining = it.remaining := by
  have hv' : it.index < state.relocated.unitCount := hc ▸ hv
  unfold remaining
  rw [hc]
  refine List.filter_congr fun p _ => ?_
  rw [isSet_view { it with state } hv', isSet_view it hv]
  by_cases hp : p / 32 = it.index
  · simp [hp]
  · simp [hp, same p hp]

theorem getLsbD_mark (x : BitVec 32) (t j : Nat) (ht : t < 32) :
    (x ||| 1#32 <<< t).getLsbD j = (x.getLsbD j || decide (j = t)) := by
  simp only [BitVec.getLsbD_or, BitMap.one_shiftLeft, BitVec.getLsbD_twoPow]
  by_cases hj : j = t
  · simp [hj, ht]
  · simp [hj, Ne.symm hj]

/-- The measure drops when the lowest zero of the copy is marked. -/
theorem measure_mark_lt (it : BitMapIterator) (hlt : trailingOnes it.curBit < 32) :
    (⟨it.curBit ||| 1#32 <<< trailingOnes it.curBit, it.index, it.state⟩ : BitMapIterator).measure
      < it.measure := by
  obtain ⟨-, hones, -⟩ := trailingOnes_spec it.curBit
  have : trailingOnes it.curBit + 1 ≤
      trailingOnes (it.curBit ||| 1#32 <<< trailingOnes it.curBit) :=
    le_trailingOnes (by omega) fun j hj => by
      rw [getLsbD_mark _ _ _ hlt]
      rcases Nat.lt_succ_iff_lt_or_eq.mp hj with hj | rfl
      · simp [hones j hj]
      · simp
  simp only [measure]
  omega

/-- Every position `next` yields lowers the measure, whatever the cursor: this
is what makes the Relocating pass's loop terminate. -/
theorem measure_next {it it' : BitMapIterator} {idx : Nat}
    (h : it.next = .ok (some (it', idx))) : it'.measure < it.measure ∧ it'.state = it.state := by
  induction it using next.induct with
  | case1 it idx hidx hend =>
    have ht : trailingOnes it.curBit = 32 := hidx
    rw [next] at h
    simp [ht, hend] at h
  | case2 it idx hidx hend e herr =>
    rw [next_of_error it hidx hend herr] at h
    cases h
  | case3 it idx hidx hend u hu ih =>
    have hv₁ := BitMap.lt_of_unit_eq_ok hu
    rw [next_of_full it hidx hend hu] at h
    obtain ⟨hm, hs⟩ := ih h
    refine ⟨Nat.lt_of_lt_of_le hm ?_, hs⟩
    simp only [measure, show trailingOnes it.curBit = 32 from hidx]
    omega
  | case4 it idx hidx =>
    have ht : trailingOnes it.curBit ≠ 32 := hidx
    have hlt : trailingOnes it.curBit < 32 := by
      have := (trailingOnes_spec it.curBit).1
      omega
    rw [next] at h
    simp only [ht, if_false, Except.ok.injEq, Option.some.injEq, Prod.mk.injEq] at h
    obtain ⟨rfl, rfl⟩ := h
    exact ⟨measure_mark_lt it hlt, rfl⟩

/-- What a call of `next` from `it` is meant to return: the lowest position
still to yield, with the cursor on its unit, the state untouched and the others
still to yield; the end only when nothing remains; and never a panic. -/
def Steps (it : BitMapIterator) : Except Abort (Option (BitMapIterator × Nat)) → Prop
  | .error _ => False
  | .ok none => it.remaining = []
  | .ok (some (it', idx)) =>
      it.remaining = idx :: it'.remaining ∧ it'.state = it.state ∧ idx / 32 = it'.index ∧
        it'.index < it'.state.relocated.unitCount

/-- `Steps` carries over from an iterator to one with the same state and the
same positions still to yield. -/
theorem Steps.of_remaining_eq {it it₁ : BitMapIterator}
    {r : Except Abort (Option (BitMapIterator × Nat))} (hrem : it.remaining = it₁.remaining)
    (hstate : it₁.state = it.state) (h : it₁.Steps r) : it.Steps r := by
  match r, h with
  | .ok none, h => exact hrem.trans h
  | .ok (some (it', idx)), ⟨hr, hs, hi, hv⟩ => exact ⟨hrem.trans hr, hs.trans hstate, hi, hv⟩

/-- A last unit with every bit set leaves nothing to yield. -/
theorem remaining_of_end (it : BitMapIterator) (hv : it.index < it.state.relocated.unitCount)
    (ht : trailingOnes it.curBit = 32) (hend : it.index + 1 = it.state.relocated.unitCount) :
    it.remaining = [] := by
  refine List.filter_eq_nil_iff.mpr fun p hp => ?_
  have hp := List.mem_range.mp hp
  by_cases hlo : 32 * it.index ≤ p
  · have hq : p / 32 = it.index := by omega
    simp [isSet_view it hv, hq, getLsbD_of_trailingOnes_eq ht (Nat.mod_lt p (by decide))]
  · simp [hlo]

/-- A unit with every bit set yields nothing: what remains is what remains
from the next unit. -/
theorem remaining_of_full (it : BitMapIterator) (hv₁ : it.index + 1 < it.state.relocated.unitCount)
    (ht : trailingOnes it.curBit = 32) {u : BitVec 32}
    (hu : it.state.relocated.unit (it.index + 1) = .ok u) :
    it.remaining = (⟨u, it.index + 1, it.state⟩ : BitMapIterator).remaining := by
  have hv : it.index < it.state.relocated.unitCount := by omega
  have hu' := BitMap.unit_eq_ok_iff.mp hu
  unfold remaining
  refine List.filter_congr fun p _ => ?_
  rw [isSet_view it hv, isSet_view ⟨u, it.index + 1, it.state⟩ hv₁]
  by_cases hlo : 32 * (it.index + 1) ≤ p
  · have h₁ : p / 32 ≠ it.index := by omega
    have h₂ : 32 * it.index ≤ p := by omega
    by_cases h₃ : p / 32 = it.index + 1
    · simp [hlo, h₁, h₂, h₃, BitMap.isSet, List.getD_eq_getElem?_getD, hu']
    · simp [hlo, h₁, h₂, h₃]
  · by_cases hlo' : 32 * it.index ≤ p
    · have : p / 32 = it.index := by omega
      simp [hlo, hlo', this, getLsbD_of_trailingOnes_eq ht (Nat.mod_lt p (by decide))]
    · simp [hlo, hlo']

/-- Marking the lowest clear bit of the unit: its position is the first still
to yield, and the rest remain. -/
theorem remaining_of_mark (it : BitMapIterator) (hv : it.index < it.state.relocated.unitCount)
    (hlt : trailingOnes it.curBit < 32) :
    it.remaining = (it.index * 32 + trailingOnes it.curBit) ::
      (⟨it.curBit ||| 1#32 <<< trailingOnes it.curBit, it.index, it.state⟩ : BitMapIterator).remaining := by
  obtain ⟨-, hones, hzero⟩ := trailingOnes_spec it.curBit
  unfold remaining
  rw [filter_range_eq_cons (it.index * 32 + trailingOnes it.curBit) (by omega) ?_ ?_]
  · congr 1
    refine List.filter_congr fun p _ => ?_
    rw [isSet_view it hv, isSet_view ⟨it.curBit ||| 1#32 <<< trailingOnes it.curBit, it.index, it.state⟩ hv]
    by_cases hp : p / 32 = it.index
    · have : (p % 32 = trailingOnes it.curBit) ↔ (p = it.index * 32 + trailingOnes it.curBit) := by
        omega
      simp [hp, getLsbD_mark _ _ _ hlt, this, Bool.and_assoc]
    · have : p ≠ it.index * 32 + trailingOnes it.curBit := by omega
      simp [hp, this]
  · rw [isSet_view it hv, if_pos (by omega), show (it.index * 32 + trailingOnes it.curBit) % 32 =
      trailingOnes it.curBit by omega, hzero hlt]
    simp; omega
  · intro y hy
    rw [isSet_view it hv]
    by_cases hlo : 32 * it.index ≤ y
    · rw [if_pos (by omega), hones _ (by omega)]
      simp
    · simp [hlo]

/-- **One step of the walk.** From a cursor inside the bitmap, `next` does what
`Steps` says. -/
theorem next_spec (it : BitMapIterator) (hv : it.index < it.state.relocated.unitCount) :
    it.Steps it.next := by
  induction it using next.induct with
  | case1 it idx hidx hend =>
    rw [next]
    simp only [show trailingOnes it.curBit = 32 from hidx, hend, if_true, Steps]
    exact remaining_of_end it hv hidx hend
  | case2 it idx _ hend e herr =>
    rw [BitMap.unit_eq_ok (by omega)] at herr
    cases herr
  | case3 it idx hidx hend u hu ih =>
    have hv₁ : it.index + 1 < it.state.relocated.unitCount := by omega
    rw [next_of_full it hidx hend hu]
    exact Steps.of_remaining_eq (remaining_of_full it hv₁ hidx hu) rfl (ih hv₁)
  | case4 it idx hidx =>
    have hlt : trailingOnes it.curBit < 32 := by
      have := (trailingOnes_spec it.curBit).1
      omega
    rw [next]
    simp only [show trailingOnes it.curBit ≠ 32 from hidx, if_false]
    exact ⟨remaining_of_mark it hv hlt, rfl, by simp; omega, hv⟩

/-- `while let Some((_, idx)) = iter.next() { body }`: a walk that leaves the
bitmap alone, as `not_relocated`'s does. -/
def fold {σ : Type} (body : σ → Nat → Except Abort σ) (it : BitMapIterator) (acc : σ) :
    Except Abort σ :=
  match h : it.next with
  | .error e => .error e
  | .ok none => .ok acc
  | .ok (some (it', idx)) => do
    let acc ← body acc idx
    fold body it' acc
termination_by it.measure
decreasing_by exact (measure_next h).1

/-- A walk that leaves the bitmap alone runs its body on what remains to yield,
in order. -/
theorem fold_eq {σ : Type} (body : σ → Nat → Except Abort σ) (it : BitMapIterator) (acc : σ)
    (hv : it.index < it.state.relocated.unitCount) :
    it.fold body acc = it.remaining.foldlM body acc := by
  induction it, acc using fold.induct body with
  | case1 it acc e hn => exact False.elim (hn ▸ next_spec it hv : Steps it (.error e))
  | case2 it acc hn =>
    have hs : it.remaining = [] := (hn ▸ next_spec it hv : Steps it (.ok none))
    rw [fold, hs]
    split <;> simp_all [pure, Except.pure]
  | case3 it acc it' idx hn ih =>
    obtain ⟨hrem, -, -, hv'⟩ := (hn ▸ next_spec it hv :)
    rw [fold, hrem, List.foldlM_cons]
    split
    · simp_all
    · simp_all
    · rename_i it₁ idx₁ hn₁
      rw [hn] at hn₁
      cases hn₁
      exact bind_congr fun a => ih a hv'

end BitMapIterator

end ElfLoader.Relocation
