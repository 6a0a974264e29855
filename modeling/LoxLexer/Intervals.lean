/-!
# Sets of numbers given by intervals

A character property is published as a list of ranges of code points,
ascending and apart from one another. Asking such a list takes a walk past
every range below the point asked for, so `Intervals` keeps the ranges as a
balanced search tree: `ofList` builds it, `contains` asks it, and
`contains_ofList` says that nothing else about the tree can be observed –
its members are the points of the ranges it was built from.

`runs` goes the other way. Given a property of numbers, it lists the maximal
ranges on which the property holds between two bounds.
-/

namespace LoxLexer

/-- A set of numbers as a search tree. A node holds one closed range; the
ranges of `below` lie under it and those of `above` over it. -/
inductive Intervals where
  /-- No number at all. -/
  | empty
  /-- The range from `low` to `high`, both included, and what lies on either
  side of it. -/
  | node (below : Intervals) (low high : Nat) (above : Intervals)

namespace Intervals

/-- Whether `n` lies in one of the ranges. -/
def contains : Intervals → Nat → Bool
  | empty, _ => false
  | node below low high above, n =>
    if n < low then below.contains n
    else if high < n then above.contains n
    else true

/-- Takes up to `2 ^ depth - 1` ranges off the front of a list into a tree of
that depth, and gives back the ranges that it left. -/
def take : Nat → List (Nat × Nat) → Intervals × List (Nat × Nat)
  | 0, ranges => (empty, ranges)
  | depth + 1, ranges =>
    match take depth ranges with
    | (below, []) => (below, [])
    | (below, (low, high) :: rest) =>
      let (above, left) := take depth rest
      (node below low high above, left)

/-- The set of a list of ranges. The depth is the least at which every range
finds a place. -/
def ofList (ranges : List (Nat × Nat)) : Intervals :=
  (take (ranges.length.log2 + 1) ranges).1

/-- Whether each range ends before the next begins, and none is empty. This
is what a search relies on. -/
def ascends : List (Nat × Nat) → Bool
  | [] => true
  | [(low, high)] => low ≤ high
  | (low, high) :: (low', high') :: rest =>
    low ≤ high && high < low' && ascends ((low', high') :: rest)

/-! ## What the tree holds -/

/-- The ranges of a tree, from the lowest to the highest. -/
def toList : Intervals → List (Nat × Nat)
  | empty => []
  | node below low high above => below.toList ++ (low, high) :: above.toList

/-- Nothing is lost between the tree and the ranges left over. -/
theorem toList_take (depth : Nat) (ranges : List (Nat × Nat)) :
    (take depth ranges).1.toList ++ (take depth ranges).2 = ranges := by
  induction depth generalizing ranges with
  | zero => rfl
  | succ depth ih =>
    have hbelow := ih ranges
    rw [take]
    split
    · next below heq => simpa [heq] using hbelow
    · next below low high rest heq =>
      rw [heq] at hbelow
      simpa [toList, ih rest] using hbelow

/-- A tree of depth `depth` leaves the ranges after the first
`2 ^ depth - 1`. -/
theorem length_take_snd (depth : Nat) (ranges : List (Nat × Nat)) :
    (take depth ranges).2.length = ranges.length - (Nat.pow 2 depth - 1) := by
  induction depth generalizing ranges with
  | zero => simp [take]
  | succ depth ih =>
    have hbelow := ih ranges
    have hpos : 0 < Nat.pow 2 depth := Nat.two_pow_pos depth
    have hdouble : Nat.pow 2 (depth + 1) = Nat.pow 2 depth * 2 := rfl
    rw [take, hdouble]
    split
    · next below heq => rw [heq] at hbelow; simp at hbelow ⊢; omega
    · next below low high rest heq =>
      rw [heq] at hbelow
      simp only [List.length_cons] at hbelow
      simp only [ih rest]
      omega

/-- The tree built from a list holds the ranges of that list. -/
@[simp] theorem toList_ofList (ranges : List (Nat × Nat)) :
    (ofList ranges).toList = ranges := by
  have hrest : (take (ranges.length.log2 + 1) ranges).2 = [] := by
    apply List.eq_nil_of_length_eq_zero
    rw [length_take_snd]
    have : ranges.length < Nat.pow 2 (ranges.length.log2 + 1) :=
      Nat.lt_log2_self
    omega
  simpa [ofList, hrest] using toList_take (ranges.length.log2 + 1) ranges

/-- What `ascends` checks of neighbours holds of any two ranges. -/
theorem pairwise_of_ascends {ranges : List (Nat × Nat)}
    (h : ascends ranges = true) :
    ranges.Pairwise (fun r s => r.2 < s.1) ∧ ∀ r ∈ ranges, r.1 ≤ r.2 := by
  fun_induction ascends ranges with
  | case1 => simp
  | case2 low high => simpa using h
  | case3 low high low' high' rest ih =>
    simp only [Bool.and_eq_true, decide_eq_true_eq] at h
    obtain ⟨⟨hle, hlt⟩, hrest⟩ := h
    obtain ⟨hpair, hall⟩ := ih hrest
    have hfirst := hall (low', high') List.mem_cons_self
    refine ⟨List.pairwise_cons.mpr ⟨fun r hr => ?_, hpair⟩, fun r hr => ?_⟩
    · rcases List.mem_cons.mp hr with rfl | hr
      · exact hlt
      · have := (List.pairwise_cons.mp hpair).1 r hr
        simp only at this hfirst ⊢
        omega
    · rcases List.mem_cons.mp hr with rfl | hr
      · exact hle
      · exact hall r hr

/-- A search finds exactly the points of the ranges, as long as these lie
apart and in order. -/
theorem contains_iff_of_pairwise (tree : Intervals) (n : Nat)
    (hpair : tree.toList.Pairwise (fun r s => r.2 < s.1))
    (hall : ∀ r ∈ tree.toList, r.1 ≤ r.2) :
    tree.contains n = true ↔ ∃ r ∈ tree.toList, r.1 ≤ n ∧ n ≤ r.2 := by
  induction tree with
  | empty => simp [contains, toList]
  | node below low high above ihBelow ihAbove =>
    obtain ⟨hbelow, hright, hunder⟩ := List.pairwise_append.mp hpair
    obtain ⟨hover, habove⟩ := List.pairwise_cons.mp hright
    have hunder : ∀ r ∈ below.toList, r.2 < low :=
      fun r hr => hunder r hr (low, high) List.mem_cons_self
    have ihBelow := ihBelow hbelow (fun r hr => hall r (by simp [toList, hr]))
    have ihAbove := ihAbove habove (fun r hr => hall r (by simp [toList, hr]))
    have hle : low ≤ high := hall (low, high) (by simp [toList])
    have hnode : (∃ r ∈ (node below low high above).toList, r.1 ≤ n ∧ n ≤ r.2) ↔
        (∃ r ∈ below.toList, r.1 ≤ n ∧ n ≤ r.2) ∨ (low ≤ n ∧ n ≤ high) ∨
          ∃ r ∈ above.toList, r.1 ≤ n ∧ n ≤ r.2 := by
      simp only [toList, List.mem_append, List.mem_cons, or_and_right, exists_or,
        exists_eq_left]
    rw [hnode, ← ihBelow, ← ihAbove, contains]
    have hb : below.contains n = true → n < low := fun h => by
      obtain ⟨r, hr, -, hn⟩ := ihBelow.mp h
      exact Nat.lt_of_le_of_lt hn (hunder r hr)
    have ha : above.contains n = true → high < n := fun h => by
      obtain ⟨r, hr, hn, -⟩ := ihAbove.mp h
      exact Nat.lt_of_lt_of_le (hover r hr) hn
    split
    · next hlt =>
      refine ⟨Or.inl, fun h => h.resolve_right ?_⟩
      rintro (h | h)
      · omega
      · have := ha h
        omega
    · next hge =>
      split
      · next hgt =>
        refine ⟨fun h => Or.inr (Or.inr h), fun h => ?_⟩
        rcases h with h | h | h
        · have := hb h
          omega
        · omega
        · exact h
      · next hnot =>
        simp only [true_iff]
        exact Or.inr (Or.inl ⟨by omega, by omega⟩)

/-- A set built from ascending ranges holds the points of these ranges and no
other. -/
theorem contains_ofList {ranges : List (Nat × Nat)} (h : ascends ranges = true)
    (n : Nat) :
    (ofList ranges).contains n = true ↔ ∃ r ∈ ranges, r.1 ≤ n ∧ n ≤ r.2 := by
  obtain ⟨hpair, hall⟩ := pairwise_of_ascends h
  simpa using contains_iff_of_pairwise (ofList ranges) n (by simpa using hpair)
    (by simpa using hall)

/-! ## Ranges of a property -/

/-- The maximal ranges on which `p` holds among the `count` numbers from `n`
on, when a range that reaches up to `n` began at `since`. -/
def runsFrom (p : Nat → Bool) : (count n : Nat) → (since : Option Nat) →
    List (Nat × Nat)
  | 0, _, none => []
  | 0, n, some low => [(low, n - 1)]
  | count + 1, n, since =>
    if p n then runsFrom p count (n + 1) (some (since.getD n))
    else match since with
      | none => runsFrom p count (n + 1) none
      | some low => (low, n - 1) :: runsFrom p count (n + 1) none

/-- The maximal ranges on which `p` holds from `first` to `last`, both
included. There is none when `first` lies above `last`. -/
def runs (p : Nat → Bool) (first last : Nat) : List (Nat × Nat) :=
  runsFrom p (last + 1 - first) first none

end Intervals

end LoxLexer
