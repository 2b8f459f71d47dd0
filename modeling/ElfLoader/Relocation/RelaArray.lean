import ElfLoader.Relocation.Iterator

/-!
`ElfRelaArray::relocate` (relocation.rs): one pass of the relocation engine
over one relocation array, with the partial-relocation bookkeeping.

* `ElfRelaArray.relocate` is the pass as the source runs it. In stage Init it
  calls the handler on every entry; in stage Relocating it walks the clear bits
  of the bitmap with a `BitMapIterator`, setting each bit again before the
  handler retries the entry; in stage Finish it does nothing. A handler reports
  whether it called `deal_fail` on its index, which is all it may do to the
  `RelocateState`.
* `callAll` is what a pass is for: the handler called on the `pending` indices
  in increasing order, and the list of those whose call failed.
* `relocate_spec` — **the pass refines `callAll`**: on a well-formed array the
  pass panics exactly when `callAll` does, with the same panic, and otherwise
  leaves the bits and the stage that `Agrees` describes.
  `ElfRelaArray.WellFormed.relocate` keeps the array well formed, so this holds
  for every pass of every run.
-/

namespace ElfLoader.Relocation

/-- `ElfRelaArray`: a relocation array and its bookkeeping. -/
structure ElfRelaArray where
  array : List ElfRela
  state : RelocateState
  deriving DecidableEq, Repr

/-- `ElfRelocation`: the PLT relocation array and the dynamic one, when the
dynamic section has them. -/
structure ElfRelocation where
  pltrel : Option ElfRelaArray
  dynrel : Option ElfRelaArray
  deriving DecidableEq, Repr

/-- `ElfRelocation::new`: each array starts in stage Init with every bit set. -/
def ElfRelocation.new (pltrel dynrel : Option (List ElfRela)) : ElfRelocation where
  pltrel := pltrel.map fun array => ⟨array, ⟨BitMap.new array.length, .init⟩⟩
  dynrel := dynrel.map fun array => ⟨array, ⟨BitMap.new array.length, .init⟩⟩

/-- A relocation handler, as the two closures of `relocate_impl` are: given the
entry, its index and the memory it writes to, it returns the new memory and
whether it called `deal_fail` on that index, its only access to the
`RelocateState`. -/
abbrev Handler (σ : Type) := ElfRela → Nat → σ → Except Abort (σ × Bool)

section Pass

variable {σ : Type}

/-- `deal_fail`, the same closure in both stages: clear the entry's bit and
mark the array unfinished. -/
def dealFail (idx : Nat) (state : RelocateState) : Except Abort RelocateState := do
  let relocated ← state.relocated.clear idx
  pure { relocated, stage := .relocating }

/-- One call `f(rela, idx, state, deal_fail)`. -/
def callHandler (f : Handler σ) (rela : ElfRela) (idx : Nat) (state : RelocateState) (m : σ) :
    Except Abort (RelocateState × σ) := do
  let (m, failed) ← f rela idx m
  if failed then
    let state ← dealFail idx state
    pure (state, m)
  else pure (state, m)

/-- The body of the Relocating stage's loop:
`state.relocated.set(idx); f(&self.array[idx], idx, state, deal_fail)`. -/
def retry (f : Handler σ) (array : List ElfRela) (idx : Nat) (state : RelocateState) (m : σ) :
    Except Abort (RelocateState × σ) := do
  let relocated ← state.relocated.set idx
  let rela ← sliceIndex array idx
  callHandler f rela idx { state with relocated } m

theorem of_dealFail {idx : Nat} {state state' : RelocateState}
    (h : dealFail idx state = .ok state') :
    state'.relocated.unitCount = state.relocated.unitCount ∧
      (∀ p, state'.relocated.isSet p = (state.relocated.isSet p && !decide (p = idx))) ∧
      state'.stage = .relocating := by
  simp only [dealFail, bind, Except.bind] at h
  split at h
  · cases h
  · rename_i b hb
    cases h
    exact ⟨(BitMap.isSet_of_clear hb).1, (BitMap.isSet_of_clear hb).2, rfl⟩

theorem dealFail_ok {idx : Nat} {state : RelocateState}
    (h : idx / 32 < state.relocated.unitCount) : ∃ state', dealFail idx state = .ok state' := by
  obtain ⟨b, hb⟩ := BitMap.clear_ok h
  exact ⟨⟨b, .relocating⟩, by simp [dealFail, hb, bind, Except.bind, pure, Except.pure]⟩

theorem callHandler_of_ok {f : Handler σ} {rela : ElfRela} {idx : Nat} {state : RelocateState}
    {m m' : σ} {failed : Bool} (hf : f rela idx m = .ok (m', failed)) :
    callHandler f rela idx state m =
      if failed then (dealFail idx state).map (·, m') else .ok (state, m') := by
  cases failed <;> simp [callHandler, hf, bind, Except.bind, pure, Except.pure, Except.map]

theorem callHandler_of_error {f : Handler σ} {rela : ElfRela} {idx : Nat} {state : RelocateState}
    {m : σ} {e : Abort} (hf : f rela idx m = .error e) :
    callHandler f rela idx state m = .error e := by
  simp [callHandler, hf, bind, Except.bind]

/-- A successful handler call keeps the unit count and changes no bit but its
own. -/
theorem callHandler_frame {f : Handler σ} {rela : ElfRela} {idx : Nat}
    {state state' : RelocateState} {m m' : σ} (h : callHandler f rela idx state m = .ok (state', m')) :
    state'.relocated.unitCount = state.relocated.unitCount ∧
      ∀ p, p ≠ idx → state'.relocated.isSet p = state.relocated.isSet p := by
  cases hf : f rela idx m with
  | error e => rw [callHandler_of_error hf] at h; cases h
  | ok r =>
    obtain ⟨m'', failed⟩ := r
    rw [callHandler_of_ok hf] at h
    cases failed with
    | false => cases h; exact ⟨rfl, fun _ _ => rfl⟩
    | true =>
      cases hd : dealFail idx state with
      | error e => rw [hd] at h; cases h
      | ok s =>
        rw [hd] at h
        cases h
        obtain ⟨hc, hb, -⟩ := of_dealFail hd
        exact ⟨hc, fun p hp => by simp [hb, hp]⟩

/-- A successful retry keeps the unit count and changes no bit but its own. -/
theorem retry_frame {f : Handler σ} {array : List ElfRela} {idx : Nat}
    {state state' : RelocateState} {m m' : σ} (h : retry f array idx state m = .ok (state', m')) :
    state'.relocated.unitCount = state.relocated.unitCount ∧
      ∀ p, p ≠ idx → state'.relocated.isSet p = state.relocated.isSet p := by
  simp only [retry, bind, Except.bind] at h
  split at h
  · cases h
  · rename_i b hb
    split at h
    · cases h
    · obtain ⟨hc, hp⟩ := callHandler_frame h
      obtain ⟨hc', hp'⟩ := BitMap.isSet_of_set hb
      exact ⟨hc.trans hc', fun p hne => (hp p hne).trans (by simp [hp', hne])⟩

/-- `while let Some((state, idx)) = iter.next() { .. }`, the loop of the
Relocating stage; `retry` keeps the unit count, so the iterator's measure
bounds it. -/
def relocatingLoop (f : Handler σ) (array : List ElfRela) (it : BitMapIterator) (m : σ) :
    Except Abort (RelocateState × σ) :=
  match h : it.next with
  | .error e => .error e
  | .ok none => .ok (it.state, m)
  | .ok (some (it', idx)) =>
    match h' : retry f array idx it'.state m with
    | .error e => .error e
    | .ok (state, m') => relocatingLoop f array { it' with state } m'
termination_by it.measure
decreasing_by
  have hc := (retry_frame h').1
  have hm := (BitMapIterator.measure_next h).1
  simp only [BitMapIterator.measure] at hm ⊢
  rw [hc]
  exact hm

/-- `retry` as a step of a fold. -/
def retryStep (f : Handler σ) (array : List ElfRela) (acc : RelocateState × σ) (idx : Nat) :
    Except Abort (RelocateState × σ) :=
  retry f array idx acc.1 acc.2

/-- One round of the loop, once `next` has yielded a position. -/
theorem relocatingLoop_of_next (f : Handler σ) (array : List ElfRela) {it it' : BitMapIterator}
    {idx : Nat} (m : σ) (hn : it.next = .ok (some (it', idx))) :
    relocatingLoop f array it m = retry f array idx it'.state m >>= fun r =>
      relocatingLoop f array { it' with state := r.1 } r.2 := by
  rw [relocatingLoop]
  split
  · simp_all
  · simp_all
  · rename_i it₁ idx₁ hn₁
    rw [hn] at hn₁
    cases hn₁
    split <;> simp_all [bind, Except.bind]

/-- **The loop is a fold over what the iterator has still to yield.** A retry
changes only its own bit, which lies in the unit under the cursor, so the walk
yields the clear bits it found, each once and in increasing order, whatever the
handler does. -/
theorem relocatingLoop_eq (f : Handler σ) (array : List ElfRela) (it : BitMapIterator) (m : σ)
    (hv : it.index < it.state.relocated.unitCount) :
    relocatingLoop f array it m = it.remaining.foldlM (retryStep f array) (it.state, m) := by
  induction it, m using relocatingLoop.induct f array with
  | case1 it m e hn => exact False.elim (hn ▸ BitMapIterator.next_spec it hv : BitMapIterator.Steps it (.error e))
  | case2 it m hn =>
    have hs : it.remaining = [] := (hn ▸ BitMapIterator.next_spec it hv : BitMapIterator.Steps it (.ok none))
    rw [relocatingLoop, hs]
    split <;> simp_all [pure, Except.pure]
  | case3 it m it' idx hn e hr =>
    obtain ⟨hrem, hstate, -, -⟩ := (hn ▸ BitMapIterator.next_spec it hv :)
    rw [relocatingLoop_of_next f array m hn, hrem, List.foldlM_cons, retryStep, ← hstate, hr]
    rfl
  | case4 it m it' idx hn state m' hr ih =>
    obtain ⟨hrem, hstate, hunit, hv'⟩ := (hn ▸ BitMapIterator.next_spec it hv :)
    obtain ⟨hc, hsame⟩ := retry_frame hr
    have hcongr : ({ it' with state } : BitMapIterator).remaining = it'.remaining :=
      BitMapIterator.remaining_congr hv' hc fun p hp => hsame p fun h => hp (h ▸ hunit)
    rw [relocatingLoop_of_next f array m hn, hrem, List.foldlM_cons, retryStep, ← hstate, hr]
    simp only [bind, Except.bind]
    rw [ih (by simpa [hc] using hv'), hcongr]

/-- `ElfRelaArray::relocate`: one pass over the array, by stage. -/
def ElfRelaArray.relocate (a : ElfRelaArray) (f : Handler σ) (m : σ) :
    Except Abort (ElfRelaArray × σ) :=
  match a.state.stage with
  | .init => do
    let (state, m) ← a.array.enum.foldlM (fun acc x => callHandler f x.2 x.1 acc.1 acc.2)
      ({ a.state with stage := .finish }, m)
    pure ({ a with state }, m)
  | .relocating => do
    let it ← BitMapIterator.new { a.state with stage := .finish }
    let (state, m) ← relocatingLoop f a.array it m
    pure ({ a with state }, m)
  | .finish => pure (a, m)

end Pass

/-- `ElfRelaArray::is_finished`. -/
def ElfRelaArray.isFinished (a : ElfRelaArray) : Bool :=
  if a.state.stage ≠ .finish then false else true


/-! ### What a pass is for -/

section Spec

variable {σ : Type}

/-- One call as the bookkeeping means it: the handler on entry `idx`, its
failure recorded. -/
def callStep (f : Handler σ) (array : List ElfRela) (acc : List Nat × σ) (idx : Nat) :
    Except Abort (List Nat × σ) := do
  let rela ← sliceIndex array idx
  let (m, failed) ← f rela idx acc.2
  pure (if failed then acc.1 ++ [idx] else acc.1, m)

/-- The handler called on the indices of `pending` in order, and the indices
whose call failed, in order. -/
def callAll (f : Handler σ) (array : List ElfRela) (pending : List Nat) (m : σ) :
    Except Abort (List Nat × σ) :=
  pending.foldlM (callStep f array) ([], m)

/-- The indices a pass calls the handler on: all of them in stage Init, the
clear bits in stage Relocating, none in stage Finish. -/
def ElfRelaArray.pending (a : ElfRelaArray) : List Nat :=
  match a.state.stage with
  | .init => List.range a.array.length
  | .relocating => a.state.relocated.zeros
  | .finish => []

/-- The bookkeeping of a pass that started from the bitmap `base`, once the
handler has been called on `done` and failed on `failed`: the bits of `done`
raised unless failed, the stage Finish exactly when nothing failed. -/
structure Agrees (base : BitMap) (done failed : List Nat) (state : RelocateState) : Prop where
  unitCount : state.relocated.unitCount = base.unitCount
  isSet : ∀ p, state.relocated.isSet p = ((base.isSet p || decide (p ∈ done)) && !decide (p ∈ failed))
  stage : state.stage = if failed = [] then .finish else .relocating
  sub : ∀ x ∈ failed, x ∈ done

/-- A pass as the source runs it (first) against the pass as meant (second):
the same panic, or the same memory and `Agrees` bookkeeping. -/
def StepRel (base : BitMap) (done : List Nat) :
    Except Abort (RelocateState × σ) → Except Abort (List Nat × σ) → Prop
  | .error e, .error e' => e = e'
  | .ok (state, m), .ok (failed, m') => m = m' ∧ Agrees base done failed state
  | _, _ => False

theorem StepRel.bind {base : BitMap} {done done' : List Nat}
    {x : Except Abort (RelocateState × σ)} {y : Except Abort (List Nat × σ)}
    {g : RelocateState × σ → Except Abort (RelocateState × σ)}
    {h : List Nat × σ → Except Abort (List Nat × σ)} (hxy : StepRel base done x y)
    (hgh : ∀ state failed m, Agrees base done failed state →
      StepRel base done' (g (state, m)) (h (failed, m))) :
    StepRel base done' (x >>= g) (y >>= h) := by
  match x, y, hxy with
  | .error e, .error _, rfl => exact rfl
  | .ok (state, m), .ok (failed, _), ⟨rfl, hag⟩ => exact hgh state failed m hag

theorem Agrees.start (state : RelocateState) :
    Agrees state.relocated [] [] { state with stage := .finish } :=
  ⟨rfl, fun p => by simp, rfl, fun _ h => h⟩

/-- Counting as done an index whose bit was set at the start changes nothing. -/
theorem Agrees.extend {base : BitMap} {done failed : List Nat} {state : RelocateState}
    {idx : Nat} (hag : Agrees base done failed state) (hb : base.isSet idx = true) :
    Agrees base (done ++ [idx]) failed state := by
  refine ⟨hag.unitCount, fun p => ?_, hag.stage, fun x hx => List.mem_append_left _ (hag.sub x hx)⟩
  rw [hag.isSet p]
  by_cases hp : p = idx
  · subst hp; simp [hb]
  · simp [hp]

/-- Raising the bit of an index not yet failed counts it as done. -/
theorem Agrees.set {base : BitMap} {done failed : List Nat} {state : RelocateState}
    {idx : Nat} {b : BitMap} (hag : Agrees base done failed state) (hnew : idx ∉ failed)
    (hs : state.relocated.set idx = .ok b) :
    Agrees base (done ++ [idx]) failed { state with relocated := b } := by
  obtain ⟨hc, hb⟩ := BitMap.isSet_of_set hs
  refine ⟨hc.trans hag.unitCount, fun p => ?_, hag.stage,
    fun x hx => List.mem_append_left _ (hag.sub x hx)⟩
  simp only [hb, hag.isSet p]
  by_cases hp : p = idx
  · subst hp; simp [hnew]
  · simp [hp]

/-- **One handler call.** On an index already counted as done and not failed,
the call of the source and the call as meant agree. -/
theorem callHandler_agrees {f : Handler σ} {array : List ElfRela} {rela : ElfRela} {idx : Nat}
    {base : BitMap} {done failed : List Nat} {state : RelocateState} {m : σ}
    (hag : Agrees base done failed state) (hdone : idx ∈ done) (hnew : idx ∉ failed)
    (hrela : sliceIndex array idx = .ok rela) (hunit : idx / 32 < base.unitCount) :
    StepRel base done (callHandler f rela idx state m) (callStep f array (failed, m) idx) := by
  simp only [callStep, hrela, bind, Except.bind]
  cases hf : f rela idx m with
  | error e => simp [callHandler_of_error hf, StepRel]
  | ok r =>
    obtain ⟨m', fail⟩ := r
    rw [callHandler_of_ok hf]
    cases fail with
    | false => exact ⟨rfl, hag⟩
    | true =>
      obtain ⟨state', hd⟩ := dealFail_ok (hag.unitCount ▸ hunit)
      obtain ⟨hc, hb, hs⟩ := of_dealFail hd
      simp only [hd, Except.map, if_true]
      refine ⟨rfl, hc.trans hag.unitCount, fun p => ?_, by simp [hs], fun x hx => ?_⟩
      · rw [hb, hag.isSet p]
        by_cases hp : p = idx
        · subst hp; simp
        · simp [hp]
      · rcases List.mem_append.mp hx with hx | hx
        · exact hag.sub x hx
        · rw [List.mem_singleton.mp hx]; exact hdone

theorem retry_agrees {f : Handler σ} {array : List ElfRela} {idx : Nat} {base : BitMap}
    {done failed : List Nat} {state : RelocateState} {m : σ}
    (hag : Agrees base done failed state) (hnew : idx ∉ failed) (hunit : idx / 32 < base.unitCount) :
    StepRel base (done ++ [idx]) (retry f array idx state m) (callStep f array (failed, m) idx) := by
  obtain ⟨b, hs⟩ := BitMap.set_ok (hag.unitCount ▸ hunit)
  cases hrela : sliceIndex array idx with
  | error e => simp [retry, callStep, hs, hrela, bind, Except.bind, StepRel]
  | ok rela =>
    have : StepRel base (done ++ [idx]) (callHandler f rela idx { state with relocated := b } m)
        (callStep f array (failed, m) idx) :=
      callHandler_agrees (hag.set hnew hs) (List.mem_append_right _ (List.mem_singleton_self idx))
        hnew hrela hunit
    simpa [retry, hs, hrela, bind, Except.bind] using this

/-- The stage-Init walk over the entries `l` that follow `pre`, against the
calls as meant over their indices. -/
theorem init_fold (f : Handler σ) (base : BitMap) (l : List ElfRela) :
    ∀ (pre : List ElfRela) (done failed : List Nat) (state : RelocateState) (m : σ),
      (∀ p < pre.length + l.length, base.isSet p = true) →
      pre.length + l.length ≤ 32 * base.unitCount →
      (∀ x ∈ done, x < pre.length) → Agrees base done failed state →
      StepRel base (done ++ List.range' pre.length l.length)
        ((l.enumFrom pre.length).foldlM (fun acc x => callHandler f x.2 x.1 acc.1 acc.2) (state, m))
        ((List.range' pre.length l.length).foldlM (callStep f (pre ++ l)) (failed, m)) := by
  induction l with
  | nil =>
    intro pre done failed state m _ _ _ hag
    exact ⟨rfl, by simpa using hag⟩
  | cons r l ih =>
    intro pre done failed state m hset hunit hdone hag
    simp only [List.length_cons] at hset hunit
    simp only [List.enumFrom_cons, List.length_cons, List.range'_succ, List.foldlM_cons]
    have hk : pre.length ∉ done := fun h => by have := hdone _ h; omega
    have hrela : sliceIndex (pre ++ r :: l) pre.length = .ok r := by
      rw [sliceIndex_eq_ok_iff, List.getElem?_append_right (le_refl _)]
      simp
    refine StepRel.bind (callHandler_agrees (hag.extend (hset _ (by omega)))
      (List.mem_append_right _ (List.mem_singleton_self _)) (fun h => hk (hag.sub _ h)) hrela
      (by omega)) fun state' failed' m' hag' => ?_
    have := ih (pre ++ [r]) (done ++ [pre.length]) failed' state' m'
      (fun p hp => hset p (by simp at hp; omega)) (by simp at hunit ⊢; omega)
      (fun x hx => by
        rcases List.mem_append.mp hx with hx | hx
        · have := hdone x hx; simp; omega
        · simp at hx; simp; omega) hag'
    simpa [List.append_assoc] using this

/-- The stage-Relocating fold of retries over distinct indices not yet done,
against the calls as meant over the same indices. -/
theorem retry_fold (f : Handler σ) (array : List ElfRela) (base : BitMap) (P : List Nat) :
    ∀ (done failed : List Nat) (state : RelocateState) (m : σ),
      P.Nodup → (∀ x ∈ P, x ∉ done) → (∀ x ∈ P, x / 32 < base.unitCount) →
      Agrees base done failed state →
      StepRel base (done ++ P) (P.foldlM (retryStep f array) (state, m))
        (P.foldlM (callStep f array) (failed, m)) := by
  induction P with
  | nil =>
    intro done failed state m _ _ _ hag
    exact ⟨rfl, by simpa using hag⟩
  | cons x P ih =>
    intro done failed state m hnd hnew hunit hag
    obtain ⟨hx, hnd⟩ := List.nodup_cons.mp hnd
    simp only [List.foldlM_cons]
    refine StepRel.bind (retry_agrees hag (fun h => hnew x (List.mem_cons_self _ _) (hag.sub x h))
      (hunit x (List.mem_cons_self _ _))) fun state' failed' m' hag' => ?_
    have := ih (done ++ [x]) failed' state' m' hnd
      (fun y hy hmem => by
        rcases List.mem_append.mp hmem with h | h
        · exact hnew y (List.mem_cons_of_mem _ hy) h
        · exact hx (List.mem_singleton.mp h ▸ hy))
      (fun y hy => hunit y (List.mem_cons_of_mem _ hy)) hag'
    simpa [List.append_assoc] using this

/-! ### Well-formed arrays and the pass theorem -/

/-- What the bookkeeping keeps of an array: `(n + 31) / 32` units, the padding
bits past the last entry set, every bit set outside stage Relocating, and some
bit clear inside it. -/
structure ElfRelaArray.WellFormed (a : ElfRelaArray) : Prop where
  unitCount : a.state.relocated.unitCount = (a.array.length + 31) / 32
  padding : ∀ p, a.array.length ≤ p → p < 32 * a.state.relocated.unitCount →
    a.state.relocated.isSet p = true
  settled : a.state.stage ≠ .relocating → ∀ p < a.array.length, a.state.relocated.isSet p = true
  unsettled : a.state.stage = .relocating → a.state.relocated.zeros ≠ []

theorem ElfRelaArray.WellFormed.zeros_lt {a : ElfRelaArray} (wf : a.WellFormed) :
    ∀ x ∈ a.state.relocated.zeros, x < a.array.length := by
  intro x hx
  obtain ⟨hlt, hclear⟩ := BitMap.mem_zeros.mp hx
  by_contra hge
  rw [wf.padding x (by omega) hlt] at hclear
  exact absurd hclear (by decide)

theorem ElfRelaArray.WellFormed.pending_lt {a : ElfRelaArray} (wf : a.WellFormed) :
    ∀ x ∈ a.pending, x < a.array.length := by
  unfold ElfRelaArray.pending
  split
  · exact fun x hx => List.mem_range.mp hx
  · exact wf.zeros_lt
  · exact fun x hx => absurd hx (List.not_mem_nil x)

theorem ElfRelaArray.pending_nodup (a : ElfRelaArray) : a.pending.Nodup := by
  unfold ElfRelaArray.pending
  split
  · exact List.nodup_range _
  · exact (List.nodup_range _).filter _
  · exact List.nodup_nil

/-- `ElfRelocation::new` builds well-formed arrays. -/
theorem wellFormed_new (array : List ElfRela) :
    (⟨array, ⟨BitMap.new array.length, .init⟩⟩ : ElfRelaArray).WellFormed where
  unitCount := BitMap.unitCount_new _
  padding := fun p _ hp => by simpa using hp
  settled := fun _ p hp => by simp at hp ⊢; omega
  unsettled := fun h => nomatch h

theorem wellFormed_of_new {o : Option (List ElfRela)} {a : ElfRelaArray}
    (h : a ∈ o.map fun array => (⟨array, ⟨BitMap.new array.length, .init⟩⟩ : ElfRelaArray)) :
    a.WellFormed := by
  obtain ⟨array, -, rfl⟩ := Option.map_eq_some'.mp h
  exact wellFormed_new array

theorem map_state_bind (a : ElfRelaArray) (x : Except Abort (RelocateState × σ)) :
    (fun r : ElfRelaArray × σ => (r.1.state, r.2)) <$>
      (do let (state, m) ← x; pure ({ a with state }, m)) = x := by
  rcases x with _ | ⟨_, _⟩ <;> rfl

/-- **The pass refines `callAll`.** On a well-formed array, `relocate` panics
exactly when the handler called on `pending` in increasing order does, with the
same panic; otherwise it returns the same memory and a bitmap and stage that
`Agrees` with those calls: each pending bit raised unless its call failed,
every other bit as it was, and stage Finish exactly when no call failed. -/
theorem relocate_spec {a : ElfRelaArray} (wf : a.WellFormed) (f : Handler σ) (m : σ) :
    StepRel a.state.relocated a.pending ((fun r => (r.1.state, r.2)) <$> a.relocate f m)
      (callAll f a.array a.pending m) := by
  unfold ElfRelaArray.relocate ElfRelaArray.pending callAll
  cases hs : a.state.stage with
  | init =>
    simp only [map_state_bind]
    have := init_fold f a.state.relocated a.array [] [] [] { a.state with stage := .finish } m
      (fun p hp => wf.settled (by simp [hs]) p (by simpa using hp))
      (by simp [wf.unitCount]; omega) (fun _ h => absurd h (List.not_mem_nil _))
      (Agrees.start a.state)
    simpa [List.enum, List.range_eq_range'] using this
  | relocating =>
    have hv : 0 < a.state.relocated.unitCount := by
      obtain ⟨x, hx⟩ := List.exists_mem_of_ne_nil _ (wf.unsettled hs)
      have := (BitMap.mem_zeros.mp hx).1
      omega
    have hnew : BitMapIterator.new { a.state with stage := .finish } =
        pure ⟨a.state.relocated.bitmap.get ⟨0, hv⟩, 0, { a.state with stage := .finish }⟩ := by
      simp [BitMapIterator.new, BitMap.unit_eq_ok (show 0 < ({ a.state with stage := .finish } :
        RelocateState).relocated.unitCount from hv), bind, Except.bind, pure, Except.pure]
    rw [hnew, pure_bind, map_state_bind, relocatingLoop_eq f a.array _ m hv,
      BitMapIterator.remaining_new hnew]
    have := retry_fold f a.array a.state.relocated a.state.relocated.zeros [] []
      { a.state with stage := .finish } m ((List.nodup_range _).filter _)
      (fun _ _ h => absurd h (List.not_mem_nil _))
      (fun x hx => by have := (BitMap.mem_zeros.mp hx).1; omega) (Agrees.start a.state)
    simpa using this
  | finish =>
    refine ⟨rfl, rfl, fun p => by simp, by simp [hs], fun _ h => h⟩

theorem array_of_bind {a a' : ElfRelaArray} {x : Except Abort (RelocateState × σ)} {m' : σ}
    (h : (do let (state, m) ← x; pure ({ a with state }, m)) = .ok (a', m')) :
    a'.array = a.array := by
  rcases x with _ | ⟨_, _⟩ <;> cases h; rfl

/-- A pass rewrites the bookkeeping, never the entries. -/
theorem array_of_relocate {a a' : ElfRelaArray} {f : Handler σ} {m m' : σ}
    (h : a.relocate f m = .ok (a', m')) : a'.array = a.array := by
  unfold ElfRelaArray.relocate at h
  split at h
  · exact array_of_bind h
  · simp only [bind, Except.bind] at h
    split at h
    · cases h
    · exact array_of_bind h
  · cases h; rfl

/-- A pass that returns is the calls over `pending` that return. -/
theorem relocate_agrees {a a' : ElfRelaArray} (wf : a.WellFormed) {f : Handler σ} {m m' : σ}
    (h : a.relocate f m = .ok (a', m')) : ∃ failed, callAll f a.array a.pending m = .ok (failed, m') ∧
      a'.array = a.array ∧ Agrees a.state.relocated a.pending failed a'.state := by
  have hs := relocate_spec wf f m
  rw [h] at hs
  cases hc : callAll f a.array a.pending m with
  | error e => rw [hc] at hs; exact hs.elim
  | ok r =>
    rw [hc] at hs
    obtain ⟨rfl, hag⟩ := hs
    exact ⟨r.1, rfl, array_of_relocate h, hag⟩

/-- A pass whose calls over `pending` return does return. -/
theorem relocate_of_callAll {a : ElfRelaArray} (wf : a.WellFormed) {f : Handler σ}
    {m m' : σ} {failed : List Nat} (h : callAll f a.array a.pending m = .ok (failed, m')) :
    ∃ a', a.relocate f m = .ok (a', m') ∧ a'.array = a.array ∧
      Agrees a.state.relocated a.pending failed a'.state := by
  have hs := relocate_spec wf f m
  rw [h] at hs
  cases hr : a.relocate f m with
  | error e => rw [hr] at hs; exact hs.elim
  | ok r =>
    rw [hr] at hs
    obtain ⟨hm, hag⟩ := hs
    obtain ⟨a', m''⟩ := r
    cases hm
    exact ⟨a', rfl, array_of_relocate hr, hag⟩

/-- After a pass over a well-formed array, a bit inside the units is clear
exactly when its call failed. -/
theorem ElfRelaArray.WellFormed.isSet_after {a : ElfRelaArray} (wf : a.WellFormed)
    {failed : List Nat} {state : RelocateState}
    (hag : Agrees a.state.relocated a.pending failed state) (p : Nat)
    (hp : p < 32 * a.state.relocated.unitCount) : state.relocated.isSet p = !decide (p ∈ failed) := by
  rw [hag.isSet]
  by_cases hn : p < a.array.length
  · cases hs : a.state.stage with
    | relocating =>
      by_cases hb : a.state.relocated.isSet p = true
      · simp [hb]
      · have : p ∈ a.state.relocated.zeros := BitMap.mem_zeros.mpr ⟨hp, by simpa using hb⟩
        simp [ElfRelaArray.pending, hs, this]
    | init => simp [wf.settled (by simp [hs]) p hn]
    | finish => simp [wf.settled (by simp [hs]) p hn]
  · have hnot : p ∉ failed := fun hx => hn (wf.pending_lt p (hag.sub p hx))
    simp [wf.padding p (by omega) hp, hnot]

/-- **Passes keep arrays well formed.** -/
theorem ElfRelaArray.WellFormed.relocate {a a' : ElfRelaArray} (wf : a.WellFormed) {f : Handler σ}
    {m m' : σ} (h : a.relocate f m = .ok (a', m')) : a'.WellFormed := by
  obtain ⟨failed, -, harr, hag⟩ := relocate_agrees wf h
  have hfailed : ∀ x ∈ failed, x < a.array.length := fun x hx => wf.pending_lt x (hag.sub x hx)
  have hunit : a.array.length ≤ 32 * a.state.relocated.unitCount := by rw [wf.unitCount]; omega
  refine ⟨?_, fun p hp hlt => ?_, fun hst p hp => ?_, fun hst => ?_⟩
  · rw [hag.unitCount, harr, wf.unitCount]
  · rw [hag.unitCount] at hlt
    have hnot : p ∉ failed := fun hx => by have := hfailed p hx; rw [harr] at hp; omega
    simp [wf.isSet_after hag p hlt, hnot]
  · have hnil : failed = [] := by
      by_contra hne
      exact hst (by simp [hag.stage, hne])
    rw [harr] at hp
    simp [wf.isSet_after hag p (by omega), hnil]
  · have hne : failed ≠ [] := fun hnil => by simp [hag.stage, hnil] at hst
    obtain ⟨x, hx⟩ := List.exists_mem_of_ne_nil _ hne
    have hxlt := hfailed x hx
    have hmem : x ∈ a'.state.relocated.zeros := BitMap.mem_zeros.mpr
      ⟨by rw [hag.unitCount]; omega, by simp [wf.isSet_after hag x (by omega), hx]⟩
    exact List.ne_nil_of_mem hmem

end Spec

end ElfLoader.Relocation
