import Mathlib.Data.List.DropRight
import WordMachine.Text.Blank
import WordMachine.Proofs.Numeral

/-! # Texts in pieces

A text that was put together from pieces can be taken apart again: at the characters that join the pieces, at
those that close them, and at the blanks around it.

* `Text.pieces_intercalate`, `Text.pieces_terminated` : joined and closed texts are the pieces of the whole.
* `Text.words_eq_nil_iff` : a text without words is one of blanks.
* `Text.Trimmed`, `Text.trim_eq_iff` : what trimming leaves, said without trimming. -/

namespace WordMachine.Text

/-! ### Pieces -/

theorem pieces_ne_nil (cut : Char → Bool) (cs : List Char) : pieces cut cs ≠ [] := by
  cases cs with
  | nil => simp [pieces]
  | cons c cs =>
      rw [pieces]
      split
      · simp
      · split <;> simp

theorem pieces_empty_iff (cut : Char → Bool) (cs : List Char) :
    (∀ w ∈ pieces cut cs, w = []) ↔ ∀ c ∈ cs, cut c = true := by
  induction cs with
  | nil => simp [pieces]
  | cons c cs ih =>
      rw [pieces, List.forall_mem_cons]
      split
      next hc => simp [hc, ih]
      next hc =>
        split
        next h => exact absurd h (pieces_ne_nil cut cs)
        next => simp [hc]

/-- A text has no words if and only if all of it is blank. -/
theorem words_eq_nil_iff {text : String} :
    words text = [] ↔ ∀ c ∈ text.toList, isBlank c = true := by
  rw [← pieces_empty_iff]
  simp [words]

theorem pieces_append_cut {cut : Char → Bool} {xs : List Char} (hxs : ∀ c ∈ xs, cut c = false) {c : Char}
    (hc : cut c = true) (cs : List Char) : pieces cut (xs ++ c :: cs) = xs :: pieces cut cs := by
  induction xs with
  | nil =>
      rw [List.nil_append, pieces, if_pos hc]
  | cons x xs ih =>
      have hx : ¬ cut x = true := by
        rw [hxs x List.mem_cons_self]
        exact Bool.false_ne_true
      rw [List.cons_append, pieces, if_neg hx, ih (fun y hy => hxs y (List.mem_cons_of_mem x hy))]

theorem pieces_of_forall {cut : Char → Bool} {xs : List Char} (hxs : ∀ c ∈ xs, cut c = false) :
    pieces cut xs = [xs] := by
  induction xs with
  | nil => rfl
  | cons x xs ih =>
      have hx : ¬ cut x = true := by
        rw [hxs x List.mem_cons_self]
        exact Bool.false_ne_true
      rw [pieces, if_neg hx, ih (fun y hy => hxs y (List.mem_cons_of_mem x hy))]

/-- Texts that are joined by a cut character are the pieces of the whole. -/
theorem pieces_intercalate {cut : Char → Bool} {c : Char} (hc : cut c = true) {xss : List (List Char)}
    (hne : xss ≠ []) (hxss : ∀ xs ∈ xss, ∀ x ∈ xs, cut x = false) :
    pieces cut ([c].intercalate xss) = xss := by
  induction xss with
  | nil => exact absurd rfl hne
  | cons xs rest ih =>
      have hxs := hxss xs List.mem_cons_self
      cases rest with
      | nil =>
          rw [List.intercalate_singleton]
          exact pieces_of_forall hxs
      | cons ys rest =>
          rw [List.intercalate_cons_cons, List.append_assoc, List.singleton_append,
            pieces_append_cut hxs hc,
            ih (List.cons_ne_nil _ _) (fun zs hzs => hxss zs (List.mem_cons_of_mem xs hzs))]

/-- Texts that are each closed by a cut character are the pieces of the whole, and nothing follows the last
of them. -/
theorem pieces_terminated {cut : Char → Bool} {c : Char} (hc : cut c = true) {xss : List (List Char)}
    (hxss : ∀ xs ∈ xss, ∀ x ∈ xs, cut x = false) :
    pieces cut (xss.flatMap (· ++ [c])) = xss ++ [[]] := by
  induction xss with
  | nil => rfl
  | cons xs rest ih =>
      rw [List.flatMap_cons, List.append_assoc, List.singleton_append,
        pieces_append_cut (hxss xs List.mem_cons_self) hc,
        ih (fun ys hys => hxss ys (List.mem_cons_of_mem xs hys)), List.cons_append]

/-! ### Joined texts -/

theorem intercalate_ne_nil {sep xs : List Char} (hxs : xs ≠ []) (xss : List (List Char)) :
    sep.intercalate (xs :: xss) ≠ [] := by
  cases xss with
  | nil =>
      rw [List.intercalate_singleton]
      exact hxs
  | cons ys yss =>
      rw [List.intercalate_cons_cons, List.append_assoc]
      exact List.append_ne_nil_of_left_ne_nil hxs _

/-- Joined texts begin with a character of one of them. -/
theorem mem_of_head?_intercalate {sep : List Char} {xss : List (List Char)}
    (hxss : ∀ xs ∈ xss, xs ≠ []) {c : Char} (h : c ∈ (sep.intercalate xss).head?) :
    ∃ xs ∈ xss, c ∈ xs := by
  cases xss with
  | nil => cases h
  | cons xs rest =>
      have hxs := hxss xs List.mem_cons_self
      refine ⟨xs, List.mem_cons_self, List.mem_of_head? ?_⟩
      cases rest with
      | nil =>
          rw [List.intercalate_singleton] at h
          exact h
      | cons ys rest =>
          rw [List.intercalate_cons_cons, List.append_assoc, List.head?_append_of_ne_nil _ hxs] at h
          exact h

/-- Joined texts end with a character of one of them. -/
theorem mem_of_getLast?_intercalate {sep : List Char} {xss : List (List Char)}
    (hxss : ∀ xs ∈ xss, xs ≠ []) {c : Char} (h : c ∈ (sep.intercalate xss).getLast?) :
    ∃ xs ∈ xss, c ∈ xs := by
  induction xss with
  | nil => cases h
  | cons xs rest ih =>
      cases rest with
      | nil =>
          rw [List.intercalate_singleton] at h
          exact ⟨xs, List.mem_cons_self, List.mem_of_getLast? h⟩
      | cons ys rest =>
          have hys : ys ≠ [] := hxss ys (by simp)
          rw [List.intercalate_cons_cons,
            List.getLast?_append_of_ne_nil _ (intercalate_ne_nil hys rest)] at h
          obtain ⟨zs, hzs, hc⟩ := ih (fun zs hzs => hxss zs (List.mem_cons_of_mem xs hzs)) h
          exact ⟨zs, List.mem_cons_of_mem xs hzs, hc⟩

/-- Texts of a common length that are joined by single characters. -/
theorem length_intercalate_le {c : Char} {n : Nat} {xss : List (List Char)}
    (hxss : ∀ xs ∈ xss, xs.length = n) : ([c].intercalate xss).length ≤ xss.length * (n + 1) := by
  induction xss with
  | nil => exact Nat.zero_le _
  | cons xs rest ih =>
      have hxs := hxss xs List.mem_cons_self
      cases rest with
      | nil =>
          rw [List.intercalate_singleton, List.length_singleton, hxs]
          omega
      | cons ys rest =>
          have hrest := ih (fun zs hzs => hxss zs (List.mem_cons_of_mem xs hzs))
          rw [List.intercalate_cons_cons, List.length_append, List.length_append, hxs,
            List.length_singleton, List.length_cons, Nat.succ_mul]
          omega

/-! ### Trimming -/

/-- A hexadecimal digit is no blank. -/
theorem isBlank_of_isLowerHex {c : Char} (h : isLowerHex c = true) : isBlank c = false := by
  have hcode : (48 ≤ c.toNat ∧ c.toNat ≤ 57) ∨ (97 ≤ c.toNat ∧ c.toNat ≤ 102) := by
    simpa [isLowerHex, Char.le_def, UInt32.le_iff_toNat_le] using h
  simp only [isBlank, Bool.or_eq_false_iff, Bool.and_eq_false_iff, decide_eq_false_iff_not,
    beq_eq_false_iff_ne]
  omega

/-- `Trimmed cs ts`: the characters are blanks around `ts`, which neither begins nor ends with a blank. -/
def Trimmed (cs ts : List Char) : Prop :=
  ∃ before after, cs = before ++ (ts ++ after) ∧ (∀ c ∈ before ++ after, isBlank c = true) ∧
    (∀ c ∈ ts.head?, isBlank c = false) ∧ (∀ c ∈ ts.getLast?, isBlank c = false)

theorem trimmed_trim (cs : List Char) : Trimmed cs (trim cs) := by
  have hsplit : trim cs ++ (cs.dropWhile isBlank).rtakeWhile isBlank = cs.dropWhile isBlank :=
    List.rdropWhile_append_rtakeWhile ..
  refine ⟨cs.takeWhile isBlank, (cs.dropWhile isBlank).rtakeWhile isBlank, ?_, ?_, ?_, ?_⟩
  · rw [hsplit, List.takeWhile_append_dropWhile]
  · intro c hc
    rcases List.mem_append.mp hc with hc | hc
    · exact List.mem_takeWhile_imp hc
    · exact List.mem_rtakeWhile_imp hc
  · intro c hc
    have hhead : (cs.dropWhile isBlank).head? = some c := by
      rw [← hsplit, List.head?_append, hc]
      rfl
    have hnot := List.head?_dropWhile_not isBlank cs
    rw [hhead] at hnot
    exact hnot
  · intro c hc
    obtain ⟨hne, rfl⟩ := List.mem_getLast?_eq_getLast hc
    have hlast := List.rdropWhile_last_not isBlank (cs.dropWhile isBlank) hne
    exact Bool.eq_false_of_not_eq_true hlast

theorem dropWhile_of_head {p : Char → Bool} {cs : List Char} (h : ∀ c ∈ cs.head?, p c = false) :
    cs.dropWhile p = cs := by
  cases cs with
  | nil => rfl
  | cons c cs => simp [h c rfl]

theorem trim_of_trimmed {cs ts : List Char} (h : Trimmed cs ts) : trim cs = ts := by
  obtain ⟨before, after, rfl, hblank, hfirst, hlast⟩ := h
  have hbefore : ∀ c ∈ before, isBlank c = true := fun c hc => hblank c (List.mem_append_left _ hc)
  have hafter : ∀ c ∈ after.reverse, isBlank c = true :=
    fun c hc => hblank c (List.mem_append_right _ (List.mem_reverse.mp hc))
  unfold trim dropTrailingBlanks
  rw [List.dropWhile_append_of_pos hbefore]
  rcases eq_or_ne ts [] with rfl | hne
  · have hnone : after.dropWhile isBlank = [] :=
      List.dropWhile_eq_nil_iff.mpr fun c hc => hblank c (List.mem_append_right _ hc)
    rw [List.nil_append, hnone]
    rfl
  · have hhead : ∀ c ∈ (ts ++ after).head?, isBlank c = false := by
      rw [List.head?_append_of_ne_nil _ hne]
      exact hfirst
    have hreverse : ∀ c ∈ ts.reverse.head?, isBlank c = false := by
      rw [List.head?_reverse]
      exact hlast
    rw [dropWhile_of_head hhead, List.reverse_append, List.dropWhile_append_of_pos hafter,
      dropWhile_of_head hreverse, List.reverse_reverse]

theorem trim_eq_iff {cs ts : List Char} : trim cs = ts ↔ Trimmed cs ts :=
  ⟨fun h => h ▸ trimmed_trim cs, trim_of_trimmed⟩

/-- Trimming takes away the spaces behind a text that has no blank at its ends. -/
theorem trim_append_spaces {cs : List Char} (hfirst : ∀ c ∈ cs.head?, isBlank c = false)
    (hlast : ∀ c ∈ cs.getLast?, isBlank c = false) (n : Nat) :
    trim (cs ++ List.replicate n ' ') = cs := by
  refine trim_of_trimmed ⟨[], List.replicate n ' ', rfl, ?_, hfirst, hlast⟩
  intro c hc
  rw [List.eq_of_mem_replicate hc]
  decide

end WordMachine.Text
