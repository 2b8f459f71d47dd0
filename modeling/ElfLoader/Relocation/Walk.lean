import ElfLoader.Relocation.Iterator

/-!
A whole walk of `BitMapIterator` (relocation.rs), as
`while let Some((state, idx)) = iter.next() { .. }` runs it. Between two calls
of `next` the body may rewrite the state through the reference `next` hands
out, setting or clearing the bit it was given and no other: the Relocating pass
sets it, and its handler's `deal_fail` clears it again.

* `nextCounted` is `next` with a count of the runs of its `loop`;
  `nextCounted_fst` — without the count it is `next`.
* `Consumer` is a loop body that keeps to its bit, and `walk` runs the iterator
  to its end under one.
* `walk_remaining` — from a cursor inside the bitmap, a walk yields what
  remains to yield, and the `loop` of `next` runs once for every unit from the
  cursor's on and once for every position yielded.
* `walk_yields_clear_bits` — from `BitMapIterator::new` on a bitmap of at least
  one unit, whatever the body does with the bits it is given: the walk yields
  the clear bits, each once and in increasing order, then ends, and the `loop`
  of `next` runs once per unit and once per clear bit.
-/

namespace ElfLoader.Relocation

namespace BitMapIterator

/-- `next` with a ghost counter: what it returns, and how many times its
`loop` body ran. -/
def nextCounted (it : BitMapIterator) : Except Abort (Option (BitMapIterator × Nat)) × Nat :=
  let idx := trailingOnes it.curBit
  if idx = 32 then
    if it.index + 1 = it.state.relocated.unitCount then (.ok none, 1)
    else
      match h : it.state.relocated.unit (it.index + 1) with
      | .error e => (.error e, 1)
      | .ok curBit =>
        let r := nextCounted ⟨curBit, it.index + 1, it.state⟩
        (r.1, r.2 + 1)
  else (.ok (some (⟨it.curBit ||| 1#32 <<< idx, it.index, it.state⟩, it.index * 32 + idx)), 1)
termination_by it.state.relocated.unitCount - it.index
decreasing_by have := BitMap.lt_of_unit_eq_ok h; simp_wf; omega

/-- A full unit before the last whose successor reads: one run of the `loop`,
then the call goes on from the next unit. -/
theorem nextCounted_of_full (it : BitMapIterator) (ht : trailingOnes it.curBit = 32)
    (hend : it.index + 1 ≠ it.state.relocated.unitCount) {u : BitVec 32}
    (hu : it.state.relocated.unit (it.index + 1) = .ok u) :
    nextCounted it = ((nextCounted ⟨u, it.index + 1, it.state⟩).1,
      (nextCounted ⟨u, it.index + 1, it.state⟩).2 + 1) := by
  rw [nextCounted]
  simp only [ht, hend, if_true, if_false]
  split <;> simp_all

/-- A full unit before the last whose successor does not read: the read
panics in the first run of the `loop`. -/
theorem nextCounted_of_error (it : BitMapIterator) (ht : trailingOnes it.curBit = 32)
    (hend : it.index + 1 ≠ it.state.relocated.unitCount) {e : Abort}
    (he : it.state.relocated.unit (it.index + 1) = .error e) :
    nextCounted it = (.error e, 1) := by
  rw [nextCounted]
  simp only [ht, hend, if_true, if_false]
  split <;> simp_all

/-- Dropping the counter gives `next`. -/
theorem nextCounted_fst (it : BitMapIterator) : (nextCounted it).1 = it.next := by
  induction it using nextCounted.induct with
  | case1 it idx ht hend =>
    rw [nextCounted, next]
    simp only [show trailingOnes it.curBit = 32 from ht, hend, if_true]
  | case2 it idx ht hend e he =>
    rw [nextCounted_of_error it ht hend he, next_of_error it ht hend he]
  | case3 it idx ht hend u hu ih =>
    rw [nextCounted_of_full it ht hend hu, next_of_full it ht hend hu, ← ih]
  | case4 it idx hidx =>
    rw [nextCounted, next]
    simp only [show trailingOnes it.curBit ≠ 32 from hidx, if_false]

/-- **How long one call runs.** From a cursor inside the bitmap, the `loop` of
`next` runs once for each unit it moves past and once more to yield or to
stop: to the end, once per unit from the cursor's on. -/
theorem nextCounted_snd (it : BitMapIterator) (hv : it.index < it.state.relocated.unitCount) :
    (it.next = .ok none → (nextCounted it).2 = it.state.relocated.unitCount - it.index) ∧
      ∀ it' idx, it.next = .ok (some (it', idx)) → (nextCounted it).2 + it.index = it'.index + 1 := by
  rw [← nextCounted_fst]
  induction it using nextCounted.induct with
  | case1 it idx ht hend =>
    rw [nextCounted]
    simp only [show trailingOnes it.curBit = 32 from ht, hend, if_true]
    simp
    omega
  | case2 it idx _ hend e herr =>
    rw [BitMap.unit_eq_ok (by omega)] at herr
    cases herr
  | case3 it idx ht hend u hu ih =>
    obtain ⟨ihn, ihs⟩ := ih (by dsimp only; omega)
    rw [nextCounted_of_full it ht hend hu]
    exact ⟨fun hn => by have := ihn hn; dsimp only at this ⊢; omega,
      fun it' idx hs => by have := ihs it' idx hs; dsimp only at this ⊢; omega⟩
  | case4 it idx hidx =>
    rw [nextCounted]
    simp [show trailingOnes it.curBit ≠ 32 from hidx]
    omega

/-! ### A walk under a body that keeps to its bit -/

/-- A body of the loop over `next` that keeps to its bit: handed the state and
the position `next` yielded, it may set or clear that bit and no other, and it
carries what it computes (`σ`) from one call to the next. -/
structure Consumer (σ : Type) where
  step : σ → RelocateState → Nat → RelocateState × σ
  unitCount_step : ∀ acc s idx, (step acc s idx).1.relocated.unitCount = s.relocated.unitCount
  isSet_step : ∀ acc s idx p, p ≠ idx → (step acc s idx).1.relocated.isSet p = s.relocated.isSet p

/-- A body that only reads, as `not_relocated`'s does. -/
def Consumer.readOnly {σ : Type} (f : σ → Nat → σ) : Consumer σ where
  step acc s idx := (s, f acc idx)
  unitCount_step _ _ _ := rfl
  isSet_step _ _ _ _ _ := rfl

/-- `while let Some((state, idx)) = iter.next() { body }` under a consumer: the
positions `next` yielded, in order, how many times its `loop` ran over the
whole walk, and what the consumer holds at the end. -/
def walk {σ : Type} (c : Consumer σ) (it : BitMapIterator) (acc : σ) :
    Except Abort (List Nat × Nat × σ) :=
  match h : it.next with
  | .error e => .error e
  | .ok none => .ok ([], (nextCounted it).2, acc)
  | .ok (some (it', idx)) =>
    let r := c.step acc it'.state idx
    (fun w => (idx :: w.1, (nextCounted it).2 + w.2.1, w.2.2)) <$> walk c { it' with state := r.1 } r.2
termination_by it.measure
decreasing_by
  have hm := (measure_next h).1
  simp only [measure, c.unitCount_step] at hm ⊢
  exact hm

/-- One round of the walk, once `next` has yielded a position. -/
theorem walk_of_next {σ : Type} (c : Consumer σ) {it it' : BitMapIterator} {idx : Nat} (acc : σ)
    (hn : it.next = .ok (some (it', idx))) :
    walk c it acc = (fun w => (idx :: w.1, (nextCounted it).2 + w.2.1, w.2.2)) <$>
      walk c { it' with state := (c.step acc it'.state idx).1 } (c.step acc it'.state idx).2 := by
  rw [walk]
  split <;> simp_all

/-- **The walk yields what remains.** From a cursor inside the bitmap, whatever
the body does with the bits it is given, the walk yields every position still
to yield, in order, and ends; the `loop` of `next` runs once for every unit from
the cursor's on and once for every position yielded. -/
theorem walk_remaining {σ : Type} (c : Consumer σ) (it : BitMapIterator) (acc : σ)
    (hv : it.index < it.state.relocated.unitCount) :
    ∃ acc', walk c it acc =
      .ok (it.remaining, it.state.relocated.unitCount - it.index + it.remaining.length, acc') := by
  induction it, acc using walk.induct c with
  | case1 it acc e hn => exact False.elim (hn ▸ next_spec it hv : Steps it (.error e))
  | case2 it acc hn =>
    have hs : it.remaining = [] := (hn ▸ next_spec it hv : Steps it (.ok none))
    refine ⟨acc, ?_⟩
    rw [walk, hs, (nextCounted_snd it hv).1 hn]
    split <;> simp_all
  | case3 it acc it' idx hn r ih =>
    obtain ⟨hrem, hstate, hunit, hv'⟩ := (hn ▸ next_spec it hv :)
    have hcount := (nextCounted_snd it hv).2 it' idx hn
    have hc := c.unitCount_step acc it'.state idx
    have hcongr : ({ it' with state := (c.step acc it'.state idx).1 } : BitMapIterator).remaining =
        it'.remaining :=
      remaining_congr hv' hc fun p hp => c.isSet_step acc it'.state idx p fun h => hp (h ▸ hunit)
    have hn' : (c.step acc it'.state idx).1.relocated.unitCount = it.state.relocated.unitCount :=
      hc.trans (congrArg (fun s => s.relocated.unitCount) hstate)
    have hv'' : it'.index < it.state.relocated.unitCount := hstate ▸ hv'
    obtain ⟨acc', hw⟩ := ih (by simpa [r, hc] using hv')
    simp only [r] at hw
    refine ⟨acc', ?_⟩
    rw [walk_of_next c acc hn, hw, hcongr, hrem]
    simp only [hn', Functor.map, Except.map, List.length_cons, Except.ok.injEq, Prod.mk.injEq,
      true_and, and_true]
    omega

/-- **The walk of a fresh iterator.** On a bitmap of at least one unit, and
whatever the body does with the bit it is given, so long as it keeps to it:
`BitMapIterator::new` succeeds, and the walk yields exactly the positions whose
bit is clear, each once and in increasing order, then ends; over the whole walk
the `loop` of `next` runs once per unit and once per clear bit. -/
theorem walk_yields_clear_bits {σ : Type} (c : Consumer σ) (state : RelocateState) (acc : σ)
    (hunits : 0 < state.relocated.unitCount) :
    ∃ it, new state = .ok it ∧ ∃ ys count acc', walk c it acc = .ok (ys, count, acc') ∧
      (∀ p, p ∈ ys ↔ p < 32 * state.relocated.unitCount ∧ state.relocated.isSet p = false) ∧
      ys.Pairwise (· < ·) ∧ count = state.relocated.unitCount + ys.length := by
  have hnew : new state = .ok ⟨state.relocated.bitmap.get ⟨0, hunits⟩, 0, state⟩ := by
    simp [new, BitMap.unit_eq_ok hunits, bind, Except.bind, pure, Except.pure]
  obtain ⟨acc', hw⟩ := walk_remaining c ⟨state.relocated.bitmap.get ⟨0, hunits⟩, 0, state⟩ acc hunits
  rw [remaining_new hnew] at hw
  exact ⟨_, hnew, _, _, acc', hw, fun p => BitMap.mem_zeros, (List.pairwise_lt_range _).filter _,
    Nat.sub_zero _⟩

/-- Two units with bits 0, 2 and 63 clear, walked by a body that counts. -/
theorem walk_yields_clear_bits_two_units :
    0 < (⟨⟨[0xfffffffa#32, 0x7fffffff#32]⟩, .relocating⟩ : RelocateState).relocated.unitCount ∧
      ∃ it, new ⟨⟨[0xfffffffa#32, 0x7fffffff#32]⟩, .relocating⟩ = .ok it ∧ ∃ ys count acc',
        walk (Consumer.readOnly fun n _ => n + 1) it 0 = .ok (ys, count, acc') ∧
        (∀ p, p ∈ ys ↔ p < 32 * (⟨⟨[0xfffffffa#32, 0x7fffffff#32]⟩, .relocating⟩ : RelocateState).relocated.unitCount ∧
          (⟨⟨[0xfffffffa#32, 0x7fffffff#32]⟩, .relocating⟩ : RelocateState).relocated.isSet p = false) ∧
        ys.Pairwise (· < ·) ∧
        count = (⟨⟨[0xfffffffa#32, 0x7fffffff#32]⟩, .relocating⟩ : RelocateState).relocated.unitCount + ys.length :=
  ⟨by decide, walk_yields_clear_bits _ _ 0 (by decide)⟩

end BitMapIterator

end ElfLoader.Relocation
