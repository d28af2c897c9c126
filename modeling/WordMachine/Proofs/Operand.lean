import WordMachine.Core

/-! # Reading and writing through operand words

What an operand word denotes, as a total function, and what a store through one
changes, cell by cell.  Both are stated over the numeric ranges of the encoding:

* below `32768` a word is a literal as a source and an address as a destination;
* the next eight words name the registers;
* from `32776` on a word is refused as a source and dropped as a destination. -/

namespace WordMachine

namespace Opcode

theorem toWord_toNat_le (op : Opcode) : op.toWord.toNat ≤ 21 := by
  cases op <;> decide

theorem arity_le (op : Opcode) : op.arity ≤ 3 := by
  cases op <;> decide

theorem ofWord?_eq_some_iff {w : Word} {op : Opcode} : ofWord? w = some op ↔ w = op.toWord := by
  constructor
  · intro h
    obtain ⟨hlt, he⟩ := List.getElem?_eq_some_iff.mp h
    -- The list of all opcodes has the opcode of number `n` at place `n`.
    have hall : ∀ n (hn : n < all.length), (all[n]).toWord.toNat = n := by decide
    rw [← he]
    exact UInt16.toNat_inj.mp (hall w.toNat hlt).symm
  · intro h
    rw [h, ofWord?_toWord]

theorem toWord_inj {op op' : Opcode} : op.toWord = op'.toWord ↔ op = op' := by
  constructor
  · intro h
    have := congrArg ofWord? h
    rw [ofWord?_toWord, ofWord?_toWord] at this
    exact Option.some.inj this
  · intro h
    rw [h]

theorem ofWord?_eq_none_iff {w : Word} : ofWord? w = none ↔ 21 < w.toNat := by
  unfold ofWord?
  rw [List.getElem?_eq_none_iff]
  show 22 ≤ w.toNat ↔ 21 < w.toNat
  omega

end Opcode

namespace Core

/-! ### Sources -/

theorem register_lt {w : Word} (h : w.toNat < 32776) : w.toNat - 32768 < 8 := by omega

/-- The value of a source word: a literal is its own value and a register has its content.
A word that denotes nothing is given the value zero. -/
def sourceValue (c : Core) (w : Word) : Word :=
  if w.toNat < 32768 then w
  else if h : w.toNat < 32776 then c.registers.get ⟨w.toNat - 32768, register_lt h⟩
  else 0

theorem value_of_lt (c : Core) {w : Word} (h : w.toNat < 32776) :
    c.value w = .ok (c.sourceValue w) := by
  unfold value sourceValue Operand.ofWord?
  by_cases hl : w.toNat < 32768
  · rw [if_pos hl, if_pos hl]
  · rw [if_neg hl, if_neg hl, dif_pos h, dif_pos h]

theorem value_of_ge (c : Core) {w : Word} (h : 32776 ≤ w.toNat) :
    c.value w = .error (.invalidOperand c.pc w) := by
  unfold value Operand.ofWord?
  rw [if_neg (by omega), dif_neg (by omega)]

/-- Reading a source in front of a computation: it fails on a word that denotes nothing and
otherwise hands on the value. -/
theorem value_bind {α : Type} (c : Core) (w : Word) (k : Word → Except Fault α) :
    (c.value w >>= k) =
      if 32776 ≤ w.toNat then .error (.invalidOperand c.pc w) else k (c.sourceValue w) := by
  by_cases h : 32776 ≤ w.toNat
  · rw [if_pos h, value_of_ge c h]
    rfl
  · rw [if_neg h, value_of_lt c (by omega)]
    rfl

/-! ### Destinations -/

theorem read_write (c : Core) (addr v : Word) (a : Nat) :
    (c.write addr v).memory.read a =
      if addr.toNat = a ∧ a < 32768 then v else c.memory.read a := by
  show (c.memory.write addr.toNat v).read a = _
  rw [Memory.read_write]
  by_cases h : addr.toNat = a
  · subst h
    rfl
  · simp [h]

/-- Behind the memory there are only zeros. -/
theorem read_of_ge (c : Core) {addr : Word} (h : 32768 ≤ addr.toNat) : c.read addr = 0 := by
  unfold read Memory.read
  rw [dif_neg (by omega)]

/-- A store changes the word of memory at its destination, if there is one. -/
theorem read_store (c : Core) (dst v : Word) (a : Nat) :
    (c.store dst v).memory.read a =
      if dst.toNat = a ∧ a < 32768 then v else c.memory.read a := by
  unfold store Operand.ofWord?
  by_cases hl : dst.toNat < 32768
  · rw [if_pos hl]
    exact c.read_write dst v a
  · have hne : ¬(dst.toNat = a ∧ a < 32768) := by omega
    rw [if_neg hl, if_neg hne]
    by_cases hr : dst.toNat < 32776
    · rw [dif_pos hr]
      rfl
    · rw [dif_neg hr]

/-- A store changes the register that its destination names, if there is one. -/
theorem get_store (c : Core) (dst v : Word) (r : Fin 8) :
    (c.store dst v).registers.get r =
      if dst.toNat = 32768 + r.val then v else c.registers.get r := by
  unfold store Operand.ofWord?
  by_cases hl : dst.toNat < 32768
  · rw [if_pos hl, if_neg (by omega)]
    rfl
  · rw [if_neg hl]
    by_cases hr : dst.toNat < 32776
    · rw [dif_pos hr]
      show (c.registers.set (dst.toNat - 32768) v (by omega))[r.val] = _
      rw [Vector.getElem_set]
      have e : dst.toNat - 32768 = r.val ↔ dst.toNat = 32768 + r.val := by omega
      simp only [e]
      rfl
    · rw [dif_neg hr, if_neg (by omega)]

@[simp] theorem loaded_store (c : Core) (dst v : Word) :
    (c.store dst v).memory.loaded = c.memory.loaded := by
  unfold store
  split
  · exact Memory.loaded_write _ _ _
  · rfl
  · rfl

@[simp] theorem stack_store (c : Core) (dst v : Word) : (c.store dst v).stack = c.stack := by
  unfold store
  split <;> rfl

@[simp] theorem pc_store (c : Core) (dst v : Word) : (c.store dst v).pc = c.pc := by
  unfold store
  split <;> rfl

end Core
end WordMachine
