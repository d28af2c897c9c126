import Mathlib.Data.List.GetD
import Mathlib.Data.List.Sort
import WordMachine.Debugger.Basic

/-! # Searching among breakpoints

Breakpoints stand in increasing order, which lets an address be found by a search that looks only at some of
them.  The place that such a search answers with is the place at which the address has to be taken out or
put in, so adding and removing there keeps the order and gives the same list as looking at all of them.

* `Breakpoints.Found`, `Breakpoints.IsSearch` : what a search in an ordered list answers.
* `Breakpoints.isSearch_bisect` : bisection is such a search.
* `Breakpoints.addAt_eq`, `Breakpoints.removeAt_eq` : adding and removing where a search says. -/

namespace WordMachine

namespace Breakpoints

/-! ### Order -/

theorem pairwise_insert {bs : Breakpoints} (h : bs.Pairwise (· < ·)) (a : Word) :
    (insert a bs).Pairwise (· < ·) := by
  induction bs with
  | nil => simp [insert]
  | cons b bs ih =>
      obtain ⟨hb, hbs⟩ := List.pairwise_cons.mp h
      rw [insert]
      split
      next hlt =>
        refine List.pairwise_cons.mpr ⟨?_, h⟩
        intro x hx
        rcases List.mem_cons.mp hx with rfl | hx
        · exact hlt
        · exact UInt16.lt_trans hlt (hb x hx)
      next hge =>
        split
        next => exact h
        next hne =>
          refine List.pairwise_cons.mpr ⟨?_, ih hbs⟩
          intro x hx
          rcases mem_insert.mp hx with rfl | hx
          · exact UInt16.lt_of_le_of_ne (UInt16.not_lt.mp hge) (Ne.symm hne)
          · exact hb x hx

theorem pairwise_remove {bs : Breakpoints} (h : bs.Pairwise (· < ·)) (a : Word) :
    (remove a bs).Pairwise (· < ·) :=
  h.filter _

theorem insert_of_mem {bs : Breakpoints} (h : bs.Pairwise (· < ·)) {a : Word} (ha : a ∈ bs) :
    insert a bs = bs := by
  apply (pairwise_insert h a).eq_of_mem_iff h
  intro x
  rw [mem_insert]
  exact ⟨fun hx => hx.elim (· ▸ ha) id, .inr⟩

theorem remove_of_not_mem {bs : Breakpoints} (h : bs.Pairwise (· < ·)) {a : Word} (ha : a ∉ bs) :
    remove a bs = bs := by
  apply (pairwise_remove h a).eq_of_mem_iff h
  intro x
  rw [mem_remove]
  exact ⟨And.left, fun hx => ⟨hx, fun hxa => ha (hxa ▸ hx)⟩⟩

/-! ### Searching -/

/-- What a search for an address answers: a place at which it stands, or, if it stands nowhere, a place at
which it can be put without breaking the order. -/
inductive Found (bs : Breakpoints) (a : Word) : Except Nat Nat → Prop
  | here {i : Nat} : bs[i]? = some a → Found bs a (.ok i)
  | nowhere {i : Nat} : a ∉ bs → i ≤ bs.length → (bs.insertIdx i a).Pairwise (· ≤ ·) →
      Found bs a (.error i)

/-- A search in ordered lists.  Where it looks is left open. -/
def IsSearch (find : Breakpoints → Word → Except Nat Nat) : Prop :=
  ∀ bs a, bs.Pairwise (· ≤ ·) → Found bs a (find bs a)

/-- An address belongs behind what is smaller and before what is greater. -/
theorem found_of_between {bs : Breakpoints} {a : Word} {i : Nat} (h : bs.Pairwise (· ≤ ·))
    (hi : i ≤ bs.length) (hbelow : ∀ j (hj : j < bs.length), j < i → bs[j] < a)
    (habove : ∀ j (hj : j < bs.length), i ≤ j → a < bs[j]) : Found bs a (.error i) := by
  refine .nowhere ?_ hi ?_
  · intro ha
    obtain ⟨j, hj, rfl⟩ := List.getElem_of_mem ha
    rcases Nat.lt_or_ge j i with hlt | hge
    · exact UInt16.lt_irrefl _ (hbelow j hj hlt)
    · exact UInt16.lt_irrefl _ (habove j hj hge)
  · -- The address stands at `i`, and what stood there or behind has moved up by one place.
    rw [List.pairwise_iff_getElem] at h ⊢
    intro p q hp hq hpq
    rw [List.length_insertIdx_of_le_length hi] at hq
    rw [List.getElem_insertIdx, List.getElem_insertIdx]
    rcases Nat.lt_trichotomy q i with hlt | heq | hgt
    · simp only [show p < i by omega, hlt, dite_true]
      exact h p q (by omega) (by omega) hpq
    · simp only [show p < i by omega, heq, dite_true, lt_irrefl, dite_false]
      exact UInt16.le_of_lt (hbelow p (by omega) (by omega))
    · simp only [show ¬q < i by omega, show q ≠ i by omega, dite_false]
      rcases Nat.lt_trichotomy p i with hlt | rfl | hgt
      · simp only [hlt, dite_true]
        exact h p (q - 1) (by omega) (by omega) (by omega)
      · simp only [lt_irrefl, dite_false, dite_true]
        exact UInt16.le_of_lt (habove (q - 1) (by omega) (by omega))
      · simp only [show ¬p < i by omega, show p ≠ i by omega, dite_false]
        exact h (p - 1) (q - 1) (by omega) (by omega) (by omega)

/-- Bisection of the `size` addresses from the place `lo` on. -/
def bisectFrom (bs : Breakpoints) (a : Word) (lo size : Nat) : Except Nat Nat :=
  if size = 0 then .error lo
  else
    let mid := lo + size / 2
    if bs.getD mid 0 = a then .ok mid
    else if bs.getD mid 0 < a then bisectFrom bs a (mid + 1) (size - size / 2 - 1)
    else bisectFrom bs a lo (size / 2)
  termination_by size

/-- Bisection of the whole list. -/
def bisect (bs : Breakpoints) (a : Word) : Except Nat Nat := bisectFrom bs a 0 bs.length

theorem getElem_le_getElem {bs : Breakpoints} (h : bs.Pairwise (· ≤ ·)) {i j : Nat} (hj : j < bs.length)
    (hij : i ≤ j) : bs[i] ≤ bs[j] := by
  rcases Nat.lt_or_eq_of_le hij with hlt | rfl
  · exact List.pairwise_iff_getElem.mp h i j (by omega) hj hlt
  · exact UInt16.le_refl _

/-- Bisection goes on with a part of the list.  What stands before the part is smaller than the address and
what stands behind it is greater. -/
theorem found_bisectFrom {bs : Breakpoints} {a : Word} (h : bs.Pairwise (· ≤ ·)) {lo size : Nat}
    (hsize : lo + size ≤ bs.length) (hbelow : ∀ j (hj : j < bs.length), j < lo → bs[j] < a)
    (habove : ∀ j (hj : j < bs.length), lo + size ≤ j → a < bs[j]) :
    Found bs a (bisectFrom bs a lo size) := by
  fun_induction bisectFrom bs a lo size with
  | case1 lo => exact found_of_between h hsize hbelow habove
  | case2 lo size hpos mid heq =>
      have hmid : mid < bs.length := by omega
      rw [List.getD_eq_getElem _ _ hmid] at heq
      exact .here (List.getElem?_eq_some_iff.mpr ⟨hmid, heq⟩)
  | case3 lo size hpos mid hne hlt ih =>
      have hmid : mid < bs.length := by omega
      rw [List.getD_eq_getElem _ _ hmid] at hlt
      apply ih
      · omega
      · intro j hj hjmid
        exact UInt16.lt_of_le_of_lt (getElem_le_getElem h hmid (by omega)) hlt
      · intro j hj hjmid
        exact habove j hj (by omega)
  | case4 lo size hpos mid hne hge ih =>
      have hmid : mid < bs.length := by omega
      rw [List.getD_eq_getElem _ _ hmid] at hne hge
      have hlt : a < bs[mid] := UInt16.lt_of_le_of_ne (UInt16.not_lt.mp hge) (Ne.symm hne)
      apply ih
      · omega
      · exact hbelow
      · intro j hj hjmid
        exact UInt16.lt_of_lt_of_le hlt (getElem_le_getElem h hj (by omega))

/-- Bisection is a search. -/
theorem isSearch_bisect : IsSearch bisect := by
  intro bs a h
  apply found_bisectFrom h
  · omega
  · intro j hj hlt
    omega
  · intro j hj hle
    omega

/-! ### Adding and removing where a search says -/

/-- Adds an address at the place that a search answers with, and tells whether it was new. -/
def addAt (find : Breakpoints → Word → Except Nat Nat) (bs : Breakpoints) (a : Word) :
    Bool × Breakpoints :=
  match find bs a with
  | .ok _ => (false, bs)
  | .error i => (true, bs.insertIdx i a)

/-- Removes an address from the place that a search answers with, and tells whether it was there. -/
def removeAt (find : Breakpoints → Word → Except Nat Nat) (bs : Breakpoints) (a : Word) :
    Bool × Breakpoints :=
  match find bs a with
  | .ok i => (true, bs.eraseIdx i)
  | .error _ => (false, bs)

theorem insertIdx_eq_insert {bs : Breakpoints} (h : bs.Pairwise (· < ·)) {a : Word} {i : Nat}
    (ha : a ∉ bs) (hi : i ≤ bs.length) (hle : (bs.insertIdx i a).Pairwise (· ≤ ·)) :
    bs.insertIdx i a = insert a bs := by
  have hnodup : (bs.insertIdx i a).Nodup :=
    (List.perm_insertIdx a bs hi).nodup_iff.mpr (List.nodup_cons.mpr ⟨ha, h.nodup⟩)
  have hlt : (bs.insertIdx i a).Pairwise (· < ·) :=
    hle.imp₂ (fun _ _ hxy hne => UInt16.lt_of_le_of_ne hxy hne) hnodup
  apply hlt.eq_of_mem_iff (pairwise_insert h a)
  intro x
  rw [List.mem_insertIdx hi, mem_insert]

theorem eraseIdx_eq_remove {bs : Breakpoints} (h : bs.Pairwise (· < ·)) {a : Word} {i : Nat}
    (hi : bs[i]? = some a) : bs.eraseIdx i = remove a bs := by
  obtain ⟨hlt, rfl⟩ := List.getElem?_eq_some_iff.mp hi
  apply (h.sublist (List.eraseIdx_sublist bs i)).eq_of_mem_iff (pairwise_remove h _)
  intro x
  rw [← List.Nodup.erase_getElem h.nodup, List.Nodup.mem_erase_iff h.nodup, mem_remove, and_comm]

variable {find : Breakpoints → Word → Except Nat Nat}

theorem addAt_eq (hfind : IsSearch find) {bs : Breakpoints} (h : bs.Pairwise (· < ·)) (a : Word) :
    addAt find bs a = (!bs.contains a, insert a bs) := by
  have hfound := hfind bs a (h.imp UInt16.le_of_lt)
  unfold addAt
  cases hf : find bs a with
  | ok i =>
      rw [hf] at hfound
      cases hfound with
      | here hi =>
          have ha : a ∈ bs := List.mem_of_getElem? hi
          simp [ha, insert_of_mem h ha]
  | error i =>
      rw [hf] at hfound
      cases hfound with
      | nowhere ha hi hle => simp [ha, insertIdx_eq_insert h ha hi hle]

theorem removeAt_eq (hfind : IsSearch find) {bs : Breakpoints} (h : bs.Pairwise (· < ·)) (a : Word) :
    removeAt find bs a = (bs.contains a, remove a bs) := by
  have hfound := hfind bs a (h.imp UInt16.le_of_lt)
  unfold removeAt
  cases hf : find bs a with
  | ok i =>
      rw [hf] at hfound
      cases hfound with
      | here hi =>
          have ha : a ∈ bs := List.mem_of_getElem? hi
          simp [ha, eraseIdx_eq_remove h hi]
  | error i =>
      rw [hf] at hfound
      cases hfound with
      | nowhere ha hi hle => simp [ha, remove_of_not_mem h ha]

/-- A search finds exactly the addresses that are there. -/
theorem exists_find_eq_ok_iff (hfind : IsSearch find) {bs : Breakpoints} (h : bs.Pairwise (· < ·)) (a : Word) :
    (∃ i, find bs a = .ok i) ↔ a ∈ bs := by
  have hfound := hfind bs a (h.imp UInt16.le_of_lt)
  constructor
  · rintro ⟨i, hi⟩
    rw [hi] at hfound
    cases hfound with
    | here hi => exact List.mem_of_getElem? hi
  · intro ha
    generalize find bs a = found at hfound
    cases hfound with
    | here hi => exact ⟨_, rfl⟩
    | nowhere hnot _ _ => exact absurd ha hnot

end Breakpoints

end WordMachine
