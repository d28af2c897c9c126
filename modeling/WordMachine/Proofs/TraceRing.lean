import Mathlib.Data.List.DropRight
import Mathlib.Data.List.Induction
import WordMachine.Trace

/-! # The newest lines

A trace keeps the newest of the lines that were recorded in it, as many as its capacity allows, and
counts all of them.  A trace that is cleared starts again with no lines, but goes on counting.

* `Trace.recordAll` : lines recorded one after the other.
* `Trace.Keeps` : the lines kept are the newest ones of a history.
* `Trace.Keeps.record`, `Trace.Keeps.recordAll` : one more line, and any number of them.
* `Trace.Update`, `Trace.recent` : lines that are recorded and forgotten, and those since the latest
  clearing.
* `Trace.newest_lines_are_kept` : what a trace holds, counts and shows after any updates. -/

namespace WordMachine

namespace Trace

/-- The trace after some lines have been recorded, in order. -/
def recordAll (t : Trace) (history : List String) : Trace := history.foldl record t

theorem recordAll_append (t : Trace) (older newer : List String) :
    t.recordAll (older ++ newer) = (t.recordAll older).recordAll newer := by
  simp [recordAll]

@[simp] theorem capacity_recordAll (t : Trace) (history : List String) :
    (t.recordAll history).capacity = t.capacity := by
  induction history generalizing t with
  | nil => rfl
  | cons line history ih => exact ih (t.record line)

@[simp] theorem total_recordAll (t : Trace) (history : List String) :
    (t.recordAll history).total = t.total + history.length := by
  induction history generalizing t with
  | nil => rfl
  | cons line history ih =>
      have hone : (t.record line).total = t.total + 1 := rfl
      have hrest : (t.recordAll (line :: history)).total = _ := ih (t.record line)
      rw [hrest, hone, List.length_cons]
      omega

/-- The trace keeps the newest lines of a history, as many as it can. -/
def Keeps (t : Trace) (history : List String) : Prop :=
  t.lines.toList = history.rtake t.capacity

theorem keeps_ofCapacity (capacity : Nat) : (ofCapacity capacity).Keeps [] := by
  simp [Keeps, ofCapacity]

/-- A full trace loses its oldest line to a new one, and any other keeps all that it has. -/
theorem toList_lines_record (t : Trace) (line : String) :
    (t.record line).lines.toList =
      (if t.lines.size = t.capacity then t.lines.toList.tail else t.lines.toList) ++ [line] := by
  unfold record
  split
  next hfull => simp [List.take_of_length_le]
  next hroom => simp

/-- The newest lines without their oldest one, which is there only if they fill the capacity. -/
theorem tail_rtake {history : List String} {n : Nat} (h : (history.rtake (n + 1)).length = n + 1) :
    (history.rtake (n + 1)).tail = history.rtake n := by
  simp only [List.rtake, List.length_drop] at h ⊢
  rw [List.tail_drop]
  congr 1
  omega

theorem rtake_of_short {history : List String} {n : Nat} (h : (history.rtake (n + 1)).length ≠ n + 1) :
    history.rtake (n + 1) = history.rtake n := by
  simp only [List.rtake, List.length_drop] at h ⊢
  congr 1
  omega

theorem Keeps.record {t : Trace} {history : List String} (h : t.Keeps history) (line : String) :
    (t.record line).Keeps (history ++ [line]) := by
  have hcap : (t.record line).capacity = t.capacity := rfl
  obtain ⟨n, hn⟩ : ∃ n, t.capacity = n + 1 := ⟨t.capacity - 1, by have := t.capacity_pos; omega⟩
  have hsize : t.lines.size = (history.rtake (n + 1)).length := by
    rw [← Array.length_toList, ← hn, ← h]
  unfold Keeps at h ⊢
  rw [toList_lines_record, hcap, h, hsize, hn, List.rtake_concat_succ]
  split
  next hfull => rw [tail_rtake hfull]
  next hroom => rw [rtake_of_short hroom]

/-- Lines that are recorded join the history, of which the newest lines are kept. -/
theorem Keeps.recordAll {t : Trace} {older : List String} (h : t.Keeps older)
    (newer : List String) : (t.recordAll newer).Keeps (older ++ newer) := by
  induction newer generalizing t older with
  | nil =>
      rw [List.append_nil]
      exact h
  | cons line newer ih =>
      have hrest := ih (h.record line)
      rw [List.append_assoc] at hrest
      exact hrest

/-! ### Recording and clearing -/

/-- What is done to a trace. -/
inductive Update where
  | record (line : String)
  | clear
  deriving DecidableEq, Repr

/-- The line that an update records, if it records one. -/
def Update.line? : Update → Option String
  | .record line => some line
  | .clear => none

/-- The trace after an update. -/
def update (t : Trace) : Update → Trace
  | .record line => t.record line
  | .clear => t.clear

/-- The trace after some updates, in order. -/
def updateAll (t : Trace) (us : List Update) : Trace := us.foldl update t

/-- The lines that some updates have recorded since the latest clearing, or since the first update if
there was no clearing. -/
def recent (us : List Update) : List String :=
  (us.rtakeWhile (fun u => u.line?.isSome)).filterMap Update.line?

theorem updateAll_concat (t : Trace) (us : List Update) (u : Update) :
    t.updateAll (us ++ [u]) = (t.updateAll us).update u := by
  simp [updateAll]

theorem recent_record (us : List Update) (line : String) :
    recent (us ++ [.record line]) = recent us ++ [line] := by
  unfold recent
  rw [List.rtakeWhile_concat_pos _ _ _ rfl, List.filterMap_append]
  rfl

theorem recent_clear (us : List Update) : recent (us ++ [.clear]) = [] := by
  unfold recent
  rw [List.rtakeWhile_concat_neg _ _ _ (by decide)]
  rfl

@[simp] theorem capacity_updateAll (t : Trace) (us : List Update) :
    (t.updateAll us).capacity = t.capacity := by
  induction us generalizing t with
  | nil => rfl
  | cons u us ih =>
      have hone : (t.update u).capacity = t.capacity := by cases u <;> rfl
      exact (ih (t.update u)).trans hone

/-- Clearing and losing the oldest line do not change the count, so all lines ever recorded are counted. -/
theorem total_updateAll (t : Trace) (us : List Update) :
    (t.updateAll us).total = t.total + (us.filterMap Update.line?).length := by
  induction us using List.reverseRecOn with
  | nil => rfl
  | append_singleton us u ih =>
      rw [updateAll_concat, List.filterMap_append, List.length_append]
      cases u with
      | record line =>
          have hone : ((t.updateAll us).update (.record line)).total = (t.updateAll us).total + 1 := rfl
          rw [hone, ih]
          rfl
      | clear => exact ih

/-- After any updates the newest of the lines since the latest clearing are kept. -/
theorem keeps_updateAll (capacity : Nat) (us : List Update) :
    ((ofCapacity capacity).updateAll us).Keeps (recent us) := by
  induction us using List.reverseRecOn with
  | nil => exact keeps_ofCapacity capacity
  | append_singleton us u ih =>
      rw [updateAll_concat]
      cases u with
      | record line =>
          rw [recent_record]
          exact ih.record line
      | clear =>
          rw [recent_clear]
          simp [Keeps, update, clear]

/-- The newest lines that are shown are the last ones that are kept. -/
theorem last_suffix (t : Trace) (n : Nat) :
    t.last n <:+ t.lines.toList ∧ (t.last n).length = min n t.lines.size := by
  refine ⟨List.drop_suffix _ _, ?_⟩
  simp only [last, List.length_drop, Array.length_toList]
  omega

/-- **A trace keeps the newest lines.**  After any recording and clearing, a trace that began empty holds
the last of the lines recorded since the latest clearing, in order: all of them, or as many as its capacity
allows, which is at least one.  It has counted every line that was ever recorded.  Asked for its newest
lines, it shows the last ones that it holds, as many as asked for or all. -/
theorem newest_lines_are_kept (capacity : Nat) (us : List Update) :
    let t := (ofCapacity capacity).updateAll us
    t.capacity = max capacity 1 ∧
    (t.lines.toList <:+ recent us ∧ t.lines.size = min (recent us).length (max capacity 1)) ∧
    t.total = (us.filterMap Update.line?).length ∧
    ∀ n, t.last n <:+ t.lines.toList ∧ (t.last n).length = min n t.lines.size := by
  intro t
  have hcap : t.capacity = max capacity 1 := capacity_updateAll (ofCapacity capacity) us
  have hkeeps : t.lines.toList = (recent us).rtake (max capacity 1) := hcap ▸ keeps_updateAll capacity us
  have htotal : t.total = 0 + _ := total_updateAll (ofCapacity capacity) us
  refine ⟨hcap, ⟨?_, ?_⟩, by omega, t.last_suffix⟩
  · rw [hkeeps]
    exact List.drop_suffix _ _
  · rw [← Array.length_toList, hkeeps]
    simp only [List.rtake, List.length_drop]
    omega

end Trace
end WordMachine
