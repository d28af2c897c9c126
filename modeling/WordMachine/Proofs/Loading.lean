import WordMachine.Machine.Basic

/-! # Loaded memory

The memory that loading a list of words gives, in a form that computes word by word. -/

namespace WordMachine

namespace Memory

theorem size_append_zeros {ws : List Word} (h : ws.length ≤ 32768) :
    (ws ++ List.replicate (32768 - ws.length) (0 : Word)).toArray.size = 32768 := by
  rw [List.size_toArray, List.length_append, List.length_replicate]
  omega

/-- The memory that holds a list of words from address zero on, and zeros behind it. -/
def holding (ws : List Word) (h : ws.length ≤ 32768) : Memory where
  words := ⟨(ws ++ List.replicate (32768 - ws.length) 0).toArray, size_append_zeros h⟩
  loaded := ws.length
  loaded_le := h

theorem ofWords_of_le {ws : List Word} (h : ws.length ≤ 32768) :
    ofWords ws = .ok (holding ws h) := by
  unfold ofWords
  rw [dif_pos h]
  have e : padded ws h = (holding ws h).words := by
    apply Vector.toArray_inj.mp
    simp [padded, holding]
  rw [e]
  rfl

end Memory

/-- The machine at the start of the program in a list of words. -/
def Machine.holding (ws : List Word) (h : ws.length ≤ 32768) : Machine :=
  Machine.ofMemory (Memory.holding ws h)

end WordMachine
