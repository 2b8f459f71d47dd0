import ElfLoader.Basic

/-!
`BitMap` (relocation.rs): one bit per relocation entry, packed into `u32`
units. `new` sets every bit; a pass clears the bit of an entry whose handler
calls `deal_fail`, and the Relocating pass sets a bit again before retrying.

* `isSet` reads one bit; `isSet_new`, `isSet_of_set` and `isSet_of_clear` say
  what `new`, `set` and `clear` do to every bit, and `BitMap.ext` that the bits
  and the unit count determine the bitmap.
* `zeros` lists the clear positions in increasing order: the entries the
  Relocating pass visits.
* `trailingOnes` is `u32::trailing_ones`, characterised by `trailingOnes_spec`.
-/

namespace ElfLoader.Relocation

/-! ### `u32::trailing_ones` -/

/-- The length of the run of ones starting at bit `j`, looking at `fuel` bits
at most. -/
def onesFrom (x : BitVec 32) (j : Nat) : Nat → Nat
  | 0 => 0
  | fuel + 1 => if x.getLsbD j then onesFrom x (j + 1) fuel + 1 else 0

/-- `u32::trailing_ones`. -/
def trailingOnes (x : BitVec 32) : Nat := onesFrom x 0 32

theorem onesFrom_spec (x : BitVec 32) (fuel : Nat) : ∀ j,
    onesFrom x j fuel ≤ fuel ∧ (∀ i < onesFrom x j fuel, x.getLsbD (j + i)) ∧
      (onesFrom x j fuel < fuel → x.getLsbD (j + onesFrom x j fuel) = false) := by
  induction fuel with
  | zero => simp [onesFrom]
  | succ fuel ih =>
    intro j
    by_cases hj : x.getLsbD j = true
    · obtain ⟨hle, hones, hzero⟩ := ih (j + 1)
      simp only [onesFrom, hj, if_true]
      refine ⟨by omega, fun i hi => ?_, fun hlt => ?_⟩
      · rcases i with _ | i
        · exact hj
        · have h1 := hones i (by omega)
          rwa [Nat.add_right_comm, Nat.add_assoc] at h1
      · have h2 := hzero (by omega)
        rwa [Nat.add_right_comm, Nat.add_assoc] at h2
    · simp [onesFrom, hj]

/-- The count is the position of the lowest zero bit, or 32 when there is none. -/
theorem trailingOnes_spec (x : BitVec 32) :
    trailingOnes x ≤ 32 ∧ (∀ j < trailingOnes x, x.getLsbD j) ∧
      (trailingOnes x < 32 → x.getLsbD (trailingOnes x) = false) := by
  simpa using onesFrom_spec x 32 0

theorem le_trailingOnes {x : BitVec 32} {k : Nat} (hk : k ≤ 32)
    (ones : ∀ j < k, x.getLsbD j) : k ≤ trailingOnes x := by
  obtain ⟨-, -, hzero⟩ := trailingOnes_spec x
  by_contra hlt
  have := hzero (by omega)
  rw [ones _ (by omega)] at this
  exact absurd this (by decide)

theorem getLsbD_of_trailingOnes_eq {x : BitVec 32} (h : trailingOnes x = 32) {j : Nat}
    (hj : j < 32) : x.getLsbD j := (trailingOnes_spec x).2.1 j (by omega)

/-! ### The bitmap -/

/-- `BitMap`: the units of the bitmap. -/
structure BitMap where
  bitmap : List (BitVec 32)
  deriving DecidableEq, Repr

namespace BitMap

/-- `BitMap::new`: `(size + 31) / 32` units with every bit set. -/
def new (size : Nat) : BitMap := ⟨List.replicate ((size + 31) / 32) (BitVec.allOnes 32)⟩

/-- `BitMap::unit`; the `Vec` index panics past the end. -/
def unit (b : BitMap) (index : Nat) : Except Abort (BitVec 32) := sliceIndex b.bitmap index

/-- `BitMap::unit_count`. -/
def unitCount (b : BitMap) : Nat := b.bitmap.length

/-- The body `set` and `clear` share: rewrite unit `bit_index / 32` by `op`
applied to it and to `bit_index % 32`; the `Vec` index panics past the end. -/
def update (op : BitVec 32 → Nat → BitVec 32) (b : BitMap) (bitIndex : Nat) :
    Except Abort BitMap := do
  let unitIndex := bitIndex / 32
  let index := bitIndex % 32
  let u ← sliceIndex b.bitmap unitIndex
  pure ⟨b.bitmap.set unitIndex (op u index)⟩

/-- `BitMap::set`: `bitmap[unit_index] |= 1 << index`. -/
def set (b : BitMap) (bitIndex : Nat) : Except Abort BitMap :=
  update (fun u index => u ||| 1#32 <<< index) b bitIndex

/-- `BitMap::clear`: `bitmap[unit_index] &= !(1 << index)`. -/
def clear (b : BitMap) (bitIndex : Nat) : Except Abort BitMap :=
  update (fun u index => u &&& ~~~(1#32 <<< index)) b bitIndex

/-- Bit `p`, read through its unit; positions past the last unit read as
clear. -/
def isSet (b : BitMap) (p : Nat) : Bool := (b.bitmap.getD (p / 32) 0#32).getLsbD (p % 32)

/-- The clear positions below `32 * unitCount`, in increasing order. -/
def zeros (b : BitMap) : List Nat := (List.range (32 * b.unitCount)).filter (fun p => !b.isSet p)

@[simp] theorem unitCount_new (size : Nat) : (new size).unitCount = (size + 31) / 32 := by
  simp [new, unitCount]

@[simp] theorem isSet_new (size p : Nat) :
    (new size).isSet p = decide (p < 32 * ((size + 31) / 32)) := by
  simp only [new, isSet, List.getD_eq_getElem?_getD, List.getElem?_replicate]
  split_ifs with h
  · simp only [Option.getD_some, BitVec.getLsbD_allOnes]
    simp only [decide_eq_decide]; omega
  · simp only [Option.getD_none, BitVec.getLsbD_zero]
    simp only [Bool.false_eq, decide_eq_false_iff_not]
    omega

theorem unit_eq_ok {b : BitMap} {index : Nat} (h : index < b.unitCount) :
    b.unit index = .ok (b.bitmap.get ⟨index, h⟩) := sliceIndex_of_lt h

theorem unit_eq_ok_iff {b : BitMap} {index : Nat} {u : BitVec 32} :
    b.unit index = .ok u ↔ b.bitmap[index]? = some u := sliceIndex_eq_ok_iff

theorem lt_of_unit_eq_ok {b : BitMap} {index : Nat} {u : BitVec 32}
    (h : b.unit index = .ok u) : index < b.unitCount :=
  (List.getElem?_eq_some_iff.mp (unit_eq_ok_iff.mp h)).1

theorem unit_eq_error {b : BitMap} {index : Nat} (h : b.unitCount ≤ index) :
    b.unit index = .error .indexOutOfBounds := by
  simp [unit, sliceIndex, List.getElem?_eq_none (show b.bitmap.length ≤ index from h)]

/-- A successful `update` keeps the unit count and rewrites only unit
`bit_index / 32`. -/
theorem of_update {op : BitVec 32 → Nat → BitVec 32} {b b' : BitMap} {i : Nat}
    (h : update op b i = .ok b') :
    ∃ u, b.bitmap[i / 32]? = some u ∧ b' = ⟨b.bitmap.set (i / 32) (op u (i % 32))⟩ := by
  simp only [update, bind, Except.bind] at h
  split at h
  · cases h
  · rename_i u hu
    cases h
    exact ⟨u, sliceIndex_eq_ok_iff.mp hu, rfl⟩

theorem update_ok {op : BitVec 32 → Nat → BitVec 32} {b : BitMap} {i : Nat}
    (h : i / 32 < b.unitCount) : ∃ b', update op b i = .ok b' := by
  simp [update, sliceIndex_of_lt (show i / 32 < b.bitmap.length from h), bind, Except.bind,
    pure, Except.pure]

/-- The bits after rewriting unit `i / 32` by a word whose bit `i % 32` is
`v` and whose other bits are the old ones. -/
theorem isSet_update {op : BitVec 32 → Nat → BitVec 32} {b b' : BitMap} {i : Nat} (v : Bool)
    (h : update op b i = .ok b')
    (hop : ∀ u j, j < 32 → (op u (i % 32)).getLsbD j = if j = i % 32 then v else u.getLsbD j) :
    b'.unitCount = b.unitCount ∧ ∀ p, b'.isSet p = if p = i then v else b.isSet p := by
  obtain ⟨u, hu, rfl⟩ := of_update h
  refine ⟨by simp [unitCount], fun p => ?_⟩
  simp only [isSet, List.getD_eq_getElem?_getD, List.getElem?_set]
  have hlt : i / 32 < b.bitmap.length := (List.getElem?_eq_some_iff.mp hu).1
  by_cases hq : i / 32 = p / 32
  · rw [if_pos hq, if_pos hlt, Option.getD_some, hop u _ (Nat.mod_lt _ (by decide)), ← hq, hu,
      Option.getD_some]
    by_cases hp : p = i
    · simp [hp]
    · rw [if_neg (by omega), if_neg hp]
  · rw [if_neg hq, if_neg (by omega)]

theorem set_ok {b : BitMap} {i : Nat} (h : i / 32 < b.unitCount) : ∃ b', b.set i = .ok b' :=
  update_ok h

theorem clear_ok {b : BitMap} {i : Nat} (h : i / 32 < b.unitCount) : ∃ b', b.clear i = .ok b' :=
  update_ok h

theorem one_shiftLeft (k : Nat) : 1#32 <<< k = BitVec.twoPow 32 k := rfl

theorem isSet_of_set {b b' : BitMap} {i : Nat} (h : b.set i = .ok b') :
    b'.unitCount = b.unitCount ∧ ∀ p, b'.isSet p = (b.isSet p || decide (p = i)) := by
  have hi : i % 32 < 32 := Nat.mod_lt _ (by decide)
  obtain ⟨hc, hp⟩ := isSet_update true h fun u j _ => by
    by_cases hji : j = i % 32 <;> simp [hji, one_shiftLeft, hi]
    omega
  exact ⟨hc, fun p => by by_cases hpi : p = i <;> simp [hp, hpi]⟩

theorem isSet_of_clear {b b' : BitMap} {i : Nat} (h : b.clear i = .ok b') :
    b'.unitCount = b.unitCount ∧ ∀ p, b'.isSet p = (b.isSet p && !decide (p = i)) := by
  have hi : i % 32 < 32 := Nat.mod_lt _ (by decide)
  obtain ⟨hc, hp⟩ := isSet_update false h fun u j hj => by
    by_cases hji : j = i % 32 <;> simp [hji, one_shiftLeft, hi, hj]
    omega
  exact ⟨hc, fun p => by by_cases hpi : p = i <;> simp [hp, hpi]⟩

/-- **A bitmap is its bits**: two bitmaps with the same unit count and the same
bits are equal. -/
theorem ext {b b' : BitMap} (hc : b.unitCount = b'.unitCount)
    (hb : ∀ p < 32 * b.unitCount, b.isSet p = b'.isSet p) : b = b' := by
  cases b with
  | mk us =>
  cases b' with
  | mk us' =>
  simp only [unitCount] at hc hb
  congr 1
  refine List.ext_getElem hc fun k hk hk' => BitVec.eq_of_getLsbD_eq fun j => ?_
  have := hb (32 * k + j) (by omega)
  simp only [isSet, List.getD_eq_getElem?_getD] at this
  rwa [show (32 * k + j) / 32 = k by omega, show (32 * k + j) % 32 = j by omega,
    List.getElem?_eq_getElem hk, List.getElem?_eq_getElem hk', Option.getD_some,
    Option.getD_some] at this

theorem mem_zeros {b : BitMap} {p : Nat} :
    p ∈ b.zeros ↔ p < 32 * b.unitCount ∧ b.isSet p = false := by
  simp [zeros]

end BitMap

end ElfLoader.Relocation
