import Mathlib.Data.List.Nodup
import ElfLoader.Relocation.RelaArray

/-!
The partial-relocation bookkeeping over whole runs of passes: an array built by
`ElfRelocation::new`, then passes one after another, each with its own pattern
of successes and failures.

* `logged` turns a rule deciding, from the entry, its index and all the calls
  before it, whether to call `deal_fail`, into a handler that records its calls;
  every pattern of success and failure is such a rule.
* `unrelocated n log` lists the indices below `n` that no recorded call has
  relocated.
* `relocate_tracks` — one pass from a state that `Tracks` the log calls the
  handler on exactly `unrelocated`, in order, and again `Tracks` the longer log.
* `relocate_bookkeeping` — the whole bookkeeping contract, over every run.
-/

namespace ElfLoader.Relocation

/-- A run's record of handler calls: the index each call was given and whether
it called `deal_fail`. -/
abbrev CallLog := List (Nat × Bool)

/-- The handler that calls `deal_fail` when `outcome` says so, given the entry,
its index and every call before it, and records the call. -/
def logged (outcome : ElfRela → Nat → CallLog → Bool) : Handler CallLog :=
  fun rela idx log => .ok (log ++ [(idx, outcome rela idx log)], outcome rela idx log)

/-- The indices below `n` that no recorded call has relocated, in increasing
order. -/
def unrelocated (n : Nat) (log : CallLog) : List Nat :=
  (List.range n).filter fun i => decide ((i, false) ∉ log)

/-- Passes one after another, each with its own `outcome`. -/
def runPasses (a : ElfRelaArray) (log : CallLog) :
    List (ElfRela → Nat → CallLog → Bool) → Except Abort (ElfRelaArray × CallLog)
  | [] => .ok (a, log)
  | outcome :: rest => do
    let (a, log) ← a.relocate (logged outcome) log
    runPasses a log rest

/-- The calls of a pass with a recording handler: one per pending index, in
order; the failed indices are those recorded as failing. -/
theorem foldlM_logged (outcome : ElfRela → Nat → CallLog → Bool) (array : List ElfRela)
    (P : List Nat) (hP : ∀ x ∈ P, x < array.length) :
    ∀ failed log, ∃ calls, P.foldlM (callStep (logged outcome) array) (failed, log) =
      .ok (failed ++ (calls.filter (·.2)).map (·.1), log ++ calls) ∧ calls.map (·.1) = P := by
  induction P with
  | nil => exact fun failed log => ⟨[], by simp [pure, Except.pure]⟩
  | cons x P ih =>
    intro failed log
    have hx := hP x (List.mem_cons_self _ _)
    obtain ⟨calls, hcalls, hmap⟩ := ih (fun y hy => hP y (List.mem_cons_of_mem _ hy))
      (if outcome (array.get ⟨x, hx⟩) x log then failed ++ [x] else failed)
      (log ++ [(x, outcome (array.get ⟨x, hx⟩) x log)])
    refine ⟨(x, outcome (array.get ⟨x, hx⟩) x log) :: calls, ?_, by simp [hmap]⟩
    simp only [List.foldlM_cons, callStep, sliceIndex_of_lt hx, logged, bind, Except.bind, pure,
      Except.pure]
    rw [hcalls]
    cases outcome (array.get ⟨x, hx⟩) x log <;> simp

/-- An array whose pending indices are those no recorded call relocated. -/
structure Tracks (n : Nat) (a : ElfRelaArray) (log : CallLog) : Prop where
  wf : a.WellFormed
  length : a.array.length = n
  pending : a.pending = unrelocated n log

/-- After a pass, an entry is still unrelocated exactly when its call of the
pass failed. -/
theorem unrelocated_after {n : Nat} {log calls : CallLog}
    (hmap : calls.map (·.1) = unrelocated n log) {i : Nat} (hi : i < n) :
    (i, false) ∉ log ++ calls ↔ i ∈ (calls.filter (·.2)).map (·.1) := by
  have hnd : (calls.map (·.1)).Nodup := hmap ▸ (List.nodup_range n).filter _
  simp only [List.mem_append, not_or, List.mem_map, List.mem_filter, Prod.exists,
    exists_and_right, exists_eq_right]
  constructor
  · rintro ⟨hlog, hcalls⟩
    have : i ∈ calls.map (·.1) := by rw [hmap]; simp [unrelocated, hi, hlog]
    obtain ⟨⟨j, b⟩, hmem, hj⟩ := List.mem_map.mp this
    simp only at hj
    subst hj
    cases b with
    | false => exact absurd hmem hcalls
    | true => exact hmem
  · intro htrue
    have hpend : i ∈ unrelocated n log := hmap ▸ List.mem_map_of_mem (·.1) htrue
    refine ⟨(by simpa [unrelocated] using hpend : i < n ∧ _).2, fun hfalse => ?_⟩
    have := List.inj_on_of_nodup_map hnd htrue hfalse rfl
    simp at this

theorem Tracks.start (array : List ElfRela) :
    Tracks array.length ⟨array, ⟨BitMap.new array.length, .init⟩⟩ [] :=
  ⟨wellFormed_new array, rfl, by simp [ElfRelaArray.pending, unrelocated]⟩

/-- Filtering a longer range by a test that only passes below `n` is filtering
`range n`. -/
theorem filter_range_of_lt {q : Nat → Bool} {n N : Nat} (hN : n ≤ N)
    (hq : ∀ p, q p = true → p < n) : (List.range N).filter q = (List.range n).filter q := by
  obtain ⟨k, rfl⟩ := Nat.exists_eq_add_of_le hN
  have hnil : ((List.range k).map (n + ·)).filter q = [] :=
    List.filter_eq_nil_iff.mpr fun p hp hqp => by
      obtain ⟨j, -, rfl⟩ := List.mem_map.mp hp
      have := hq _ hqp
      omega
  rw [List.range_add, List.filter_append, hnil, List.append_nil]

/-- **One pass of a run.** From a state that tracks the log, the pass calls the
handler on exactly the indices no call has relocated, once each and in
increasing order, leaves the entries alone, and tracks the longer log. -/
theorem relocate_tracks {n : Nat} {a : ElfRelaArray} {log : CallLog} (ht : Tracks n a log)
    (outcome : ElfRela → Nat → CallLog → Bool) :
    ∃ a' calls, a.relocate (logged outcome) log = .ok (a', log ++ calls) ∧
      calls.map (·.1) = unrelocated n log ∧ a'.array = a.array ∧
      Tracks n a' (log ++ calls) ∧ a'.state.stage ≠ .init := by
  obtain ⟨calls, hcall, hmap⟩ := foldlM_logged outcome a.array a.pending ht.wf.pending_lt [] log
  rw [List.nil_append] at hcall
  obtain ⟨a', hrel, harr, hag⟩ := relocate_of_callAll ht.wf hcall
  rw [ht.pending] at hmap
  have hn : n ≤ 32 * a.state.relocated.unitCount := by
    rw [ht.wf.unitCount, ht.length]; omega
  have hfailed : ∀ x ∈ (calls.filter (·.2)).map (·.1), x < n := fun x hx => by
    have := ht.wf.pending_lt x (hag.sub x (by simpa using hx))
    rwa [ht.length] at this
  -- both lists are the failed calls' indices
  have hunrel : unrelocated n (log ++ calls) = (List.range n).filter
      (fun i => decide (i ∈ (calls.filter (·.2)).map (·.1))) :=
    List.filter_congr fun i hi => by
      rw [decide_eq_decide]; exact unrelocated_after hmap (List.mem_range.mp hi)
  refine ⟨a', calls, hrel, hmap, harr, ⟨ht.wf.relocate hrel, harr ▸ ht.length, ?_⟩, ?_⟩
  · rw [hunrel]
    unfold ElfRelaArray.pending
    rw [hag.stage]
    split_ifs with hnil
    · simp [hnil]
    · simp only [BitMap.zeros, hag.unitCount]
      rw [List.filter_congr fun p hp => by
        rw [ht.wf.isSet_after hag p (List.mem_range.mp hp), Bool.not_not]]
      exact filter_range_of_lt hn fun p hp => hfailed p (by simpa using hp)
  · rw [hag.stage]
    split_ifs <;> simp

/-- Every state of a run from a tracked state tracks its log. -/
theorem runPasses_tracks {n : Nat} (passes : List (ElfRela → Nat → CallLog → Bool)) :
    ∀ {a : ElfRelaArray} {log : CallLog}, Tracks n a log →
      ∃ a' log', runPasses a log passes = .ok (a', log') ∧ a'.array = a.array ∧
        Tracks n a' log' := by
  induction passes with
  | nil => exact fun {a log} ht => ⟨a, log, rfl, rfl, ht⟩
  | cons outcome rest ih =>
    intro a log ht
    obtain ⟨a₁, calls, hrel, -, harr, ht₁, -⟩ := relocate_tracks ht outcome
    obtain ⟨a', log', hrun, harr', ht'⟩ := ih ht₁
    exact ⟨a', log', by simp [runPasses, hrel, bind, Except.bind, hrun], harr'.trans harr, ht'⟩

/-- Once a pass has run, the bits and the stage say what the log says. -/
theorem Tracks.after_pass {n : Nat} {a : ElfRelaArray} {log : CallLog} (ht : Tracks n a log)
    (hs : a.state.stage ≠ .init) :
    (∀ i < n, a.state.relocated.isSet i = false ↔ i ∈ unrelocated n log) ∧
      a.state.stage = if unrelocated n log = [] then .finish else .relocating := by
  have hpend := ht.pending
  have hn : n ≤ 32 * a.state.relocated.unitCount := by
    rw [ht.wf.unitCount, ht.length]; omega
  unfold ElfRelaArray.pending at hpend
  cases hst : a.state.stage with
  | init => exact absurd hst hs
  | relocating =>
    rw [hst] at hpend
    refine ⟨fun i hi => ?_, by rw [← hpend, if_neg (ht.wf.unsettled hst)]⟩
    rw [← hpend, BitMap.mem_zeros]
    simp only [show i < 32 * a.state.relocated.unitCount by omega, true_and]
  | finish =>
    rw [hst] at hpend
    refine ⟨fun i hi => ?_, by rw [← hpend]; simp⟩
    rw [← hpend, ht.wf.settled (by simp [hst]) i (by rw [ht.length]; exact hi)]
    simp

/-- **Partial relocation bookkeeping, over every run.** Take an array built by
`ElfRelocation::new`, any run of passes, and one more pass, each pass with its
own pattern of successes and failures. That pass calls the handler exactly on
the indices no earlier call relocated, once each and in increasing order: on
none once the stage is Finish, and never again on an entry that succeeded.
After it, the bit of an entry is clear exactly when no call has relocated it,
every padding bit past the last entry is still set, and the stage is Finish
exactly when every entry has been relocated, Relocating otherwise. -/
theorem relocate_bookkeeping (pltrel dynrel : Option (List ElfRela)) (a₀ : ElfRelaArray)
    (built : a₀ ∈ (ElfRelocation.new pltrel dynrel).pltrel ∨
      a₀ ∈ (ElfRelocation.new pltrel dynrel).dynrel)
    (passes : List (ElfRela → Nat → CallLog → Bool)) (outcome : ElfRela → Nat → CallLog → Bool) :
    ∃ a log, runPasses a₀ [] passes = .ok (a, log) ∧
      ∃ a' calls, a.relocate (logged outcome) log = .ok (a', log ++ calls) ∧
        calls.map (·.1) = unrelocated a₀.array.length log ∧ a'.array = a₀.array ∧
        (∀ i < a₀.array.length,
          a'.state.relocated.isSet i = false ↔ i ∈ unrelocated a₀.array.length (log ++ calls)) ∧
        (∀ p, a₀.array.length ≤ p → p < 32 * a'.state.relocated.unitCount →
          a'.state.relocated.isSet p = true) ∧
        a'.state.stage =
          if unrelocated a₀.array.length (log ++ calls) = [] then .finish else .relocating := by
  have h₀ : ∃ array, a₀ = ⟨array, ⟨BitMap.new array.length, .init⟩⟩ := by
    rcases built with h | h <;>
    · simp only [ElfRelocation.new, Option.mem_def, Option.map_eq_some'] at h
      obtain ⟨array, -, rfl⟩ := h
      exact ⟨array, rfl⟩
  obtain ⟨array, rfl⟩ := h₀
  obtain ⟨a, log, hrun, harr, ht⟩ := runPasses_tracks passes (Tracks.start array)
  obtain ⟨a', calls, hrel, hmap, harr', ht', hs⟩ := relocate_tracks ht outcome
  obtain ⟨hbits, hstage⟩ := ht'.after_pass hs
  exact ⟨a, log, hrun, a', calls, hrel, hmap, harr'.trans harr, hbits,
    fun p hp hlt => ht'.wf.padding p (by rw [ht'.length]; exact hp) hlt, hstage⟩

/-- A one-entry dynamic array whose first pass fails and whose next pass
retries the entry. -/
theorem relocate_bookkeeping_retry :
    (⟨[⟨0, 0, 0⟩], ⟨BitMap.new 1, .init⟩⟩ : ElfRelaArray) ∈
        (ElfRelocation.new none (some [⟨0, 0, 0⟩])).dynrel ∧
      ∃ a log, runPasses ⟨[⟨0, 0, 0⟩], ⟨BitMap.new 1, .init⟩⟩ [] [fun _ _ _ => true] =
          .ok (a, log) ∧
        ∃ a' calls, a.relocate (logged fun _ _ _ => false) log = .ok (a', log ++ calls) ∧
          calls.map (·.1) = unrelocated 1 log ∧ a'.array = [⟨0, 0, 0⟩] ∧
          (∀ i < 1, a'.state.relocated.isSet i = false ↔ i ∈ unrelocated 1 (log ++ calls)) ∧
          (∀ p, 1 ≤ p → p < 32 * a'.state.relocated.unitCount →
            a'.state.relocated.isSet p = true) ∧
          a'.state.stage = if unrelocated 1 (log ++ calls) = [] then .finish else .relocating :=
  ⟨rfl, relocate_bookkeeping none (some [⟨0, 0, 0⟩]) _ (Or.inr rfl) [fun _ _ _ => true]
    fun _ _ _ => false⟩

end ElfLoader.Relocation
