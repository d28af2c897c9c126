/-! # Words

A word has sixteen bits.  Programs compute with the lower half of them, the values
below `2 ^ 15`; the upper half names registers in the encoding of instructions and
can still reach a register, the stack or the output through memory. -/

namespace WordMachine

/-- A machine word.  All sixteen bits are kept. -/
abbrev Word := UInt16

namespace Word

/-- Whether a word fits in fifteen bits. -/
def isNarrow (w : Word) : Bool := w.toNat < 32768

theorem isNarrow_iff {w : Word} : w.isNarrow = true ↔ w.toNat ≤ 32767 := by
  simp only [isNarrow, decide_eq_true_eq]
  omega

theorem isNarrow_eq_false_iff {w : Word} : w.isNarrow = false ↔ 32767 < w.toNat := by
  simp only [isNarrow, decide_eq_false_iff_not]
  omega

/-- The sum modulo `2 ^ 15`. -/
def sum (b c : Word) : Word := UInt16.ofNat ((b.toNat + c.toNat) % 32768)

/-- The product modulo `2 ^ 15`. -/
def product (b c : Word) : Word := UInt16.ofNat (b.toNat * c.toNat % 32768)

/-- The bitwise complement of the low fifteen bits. -/
def complement (b : Word) : Word := ~~~b &&& 0x7FFF

end Word
end WordMachine
