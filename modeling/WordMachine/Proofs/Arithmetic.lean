import WordMachine.Proofs.InstructionTable

/-! # How wide the results of arithmetic are

Words have sixteen bits, of which arithmetic is meant to use fifteen.  Comparisons, sums, products
and complements have results of fifteen bits whatever they are computed from.  Remainders,
conjunctions and disjunctions do not: they pass on the sixteenth bit of their sources, in ways that
`Opcode.PassesWide` says exactly.  A register can have that bit, since a word of memory can be
read into it.

* `Core.effect_arithmetic` : what an arithmetic instruction stores, and when this is wide.
* `Machine.arithmetic_wide_iff` : the same of a step. -/

namespace WordMachine

namespace Word

/-! ### Words of more than fifteen bits -/

theorem wide_iff_msb (w : Word) : 32767 < w.toNat ↔ w.toBitVec.msb = true := by
  rw [BitVec.msb_eq_decide, decide_eq_true_iff, UInt16.toNat_toBitVec]
  exact Iff.rfl

theorem wide_and_iff (x y : Word) :
    32767 < (x &&& y).toNat ↔ 32767 < x.toNat ∧ 32767 < y.toNat := by
  simp only [wide_iff_msb, UInt16.toBitVec_and, BitVec.msb_and, Bool.and_eq_true]

theorem wide_or_iff (x y : Word) :
    32767 < (x ||| y).toNat ↔ 32767 < x.toNat ∨ 32767 < y.toNat := by
  simp only [wide_iff_msb, UInt16.toBitVec_or, BitVec.msb_or, Bool.or_eq_true]

/-- A remainder of more than fifteen bits is its own dividend: a larger dividend would leave
fewer bits. -/
theorem wide_mod_iff (x : Word) {y : Word} (hy : y ≠ 0) :
    32767 < (x % y).toNat ↔ 32767 < x.toNat ∧ x.toNat < y.toNat := by
  have hx := x.toNat_lt
  have hpos : 0 < y.toNat := by
    apply Nat.pos_of_ne_zero
    intro hz
    exact hy (UInt16.toNat_inj.mp hz)
  rw [UInt16.toNat_mod]
  by_cases hlt : x.toNat < y.toNat
  · rw [Nat.mod_eq_of_lt hlt]
    omega
  · have hle : x.toNat % y.toNat ≤ x.toNat - y.toNat := by
      rw [Nat.mod_eq_sub_mod (by omega)]
      exact Nat.mod_le _ _
    have hmod := Nat.mod_lt x.toNat hpos
    omega

theorem sum_le (x y : Word) : (sum x y).toNat ≤ 32767 := by
  have hlt : (x.toNat + y.toNat) % 32768 < 32768 := Nat.mod_lt _ (by decide)
  unfold sum
  rw [UInt16.toNat_ofNat']
  omega

theorem product_le (x y : Word) : (product x y).toNat ≤ 32767 := by
  have hlt : x.toNat * y.toNat % 32768 < 32768 := Nat.mod_lt _ (by decide)
  unfold product
  rw [UInt16.toNat_ofNat']
  omega

theorem complement_le (x : Word) : (complement x).toNat ≤ 32767 := by
  have hnot := wide_and_iff (~~~x) 0x7FFF
  have hmask : ¬ 32767 < (0x7FFF : Word).toNat := by decide
  unfold complement
  omega

theorem bit_le (p : Prop) [Decidable p] : (if p then (1 : Word) else 0).toNat ≤ 32767 := by
  split <;> decide

end Word

/-- An arithmetic operation on two values has a result of more than fifteen bits. -/
def Opcode.PassesWide (op : Opcode) (x y : Word) : Prop :=
  match op with
  | .mod => 32767 < x.toNat ∧ x.toNat < y.toNat
  | .and => 32767 < x.toNat ∧ 32767 < y.toNat
  | .or => 32767 < x.toNat ∨ 32767 < y.toNat
  | _ => False

theorem Opcode.not_passesWide (op : Opcode) {x y : Word} (hx : x.toNat ≤ 32767)
    (hy : y.toNat ≤ 32767) : ¬ op.PassesWide x y := by
  unfold PassesWide
  split
  · omega
  · omega
  · omega
  · exact id

namespace Core

/-- An arithmetic operation stores its result, which is wide in the cases described. -/
theorem effect_arithmetic (c : Core) (next? : Option Word) {op : Opcode} {operands : List Word}
    (hf : op.family? = some .arithmetic) (ho : c.obstacle? op operands = none) :
    ∃ v, c.effect next? op operands = .assign (operands.getD 0 0) v ∧
      (32767 < v.toNat ↔ op.PassesWide (c.sourceValue (operands.getD 1 0))
        (c.sourceValue (operands.getD 2 0))) := by
  -- A result that is never wide.
  have hnarrow : ∀ {v : Word}, v.toNat ≤ 32767 → (32767 < v.toNat ↔ False) := by
    intro v hv
    simp only [iff_false]
    omega
  cases op with
  | eq | gt => exact ⟨_, rfl, hnarrow (Word.bit_le _)⟩
  | add => exact ⟨_, rfl, hnarrow (Word.sum_le _ _)⟩
  | mult => exact ⟨_, rfl, hnarrow (Word.product_le _ _)⟩
  | not => exact ⟨_, rfl, hnarrow (Word.complement_le _)⟩
  | and => exact ⟨_, rfl, Word.wide_and_iff _ _⟩
  | or => exact ⟨_, rfl, Word.wide_or_iff _ _⟩
  | mod =>
      refine ⟨_, rfl, Word.wide_mod_iff _ ?_⟩
      intro hz
      unfold obstacle? at ho
      split at ho
      · cases ho
      · rw [if_neg (by simp), if_pos ⟨rfl, hz⟩] at ho
        cases ho
  | _ => cases hf

end Core

namespace Machine

/-- **The results of arithmetic fit in fifteen bits but in three cases.**  A step that executes an
arithmetic instruction stores one value through the destination of the instruction.  This value
has more than fifteen bits exactly for a remainder whose dividend has and is less than the divisor,
for a conjunction whose sources both have, and for a disjunction one of whose sources has. -/
theorem arithmetic_wide_iff {m m' : Machine} {i : Instruction} {o : Outcome}
    (hm : m.mode ≠ .halted) (hi : m.core.fetch = .ok i)
    (hf : i.opcode.family? = some .arithmetic) (h : m.step = (.ok o, m')) :
    ∃ v, o = .advanced ∧ m.core.Writes (some (i.operands.getD 0 0, v)) m'.core ∧
      (v.toNat ≤ 32767 ↔ ¬ i.opcode.PassesWide (m.core.sourceValue (i.operands.getD 1 0))
        (m.core.sourceValue (i.operands.getD 2 0))) := by
  obtain ⟨hread, _, hwords⟩ := Core.fetch_eq_ok_iff.mp hi
  rcases m.step_cases with ⟨hh, _⟩ | ⟨_, f, _, hs⟩ | ⟨_, _, op, hop, ho, hs⟩
  · exact absurd hh hm
  · rw [hs] at h
    cases h
  · obtain rfl : op = i.opcode := Opcode.toWord_inj.mp (hop.symm.trans hread)
    obtain ⟨v, heff, hwide⟩ := m.core.effect_arithmetic m.input.head? hf ho
    rw [← hwords] at heff hwide
    have hassign : m.effect i.opcode = .assign (i.operands.getD 0 0) v := by
      unfold effect
      rw [← hwords]
      exact heff
    rw [hs, hassign] at h
    cases h
    refine ⟨v, rfl, ?_, ?_⟩
    · exact (Core.Writes.store m.core (i.operands.getD 0 0) v).congr rfl rfl rfl rfl
    · rw [← hwide]
      omega

/-- A program that reads a wide word of memory into a register and takes the disjunction of this
register with zero. -/
def wideReader : Machine :=
  Machine.holding [15, 32768, 8, 13, 32769, 32768, 0, 0, 40000] (by decide)

/-- The second instruction of the program stores a word of more than fifteen bits. -/
theorem disjunction_of_wide_register :
    ∃ loaded done, wideReader.step = (.ok .advanced, loaded) ∧
      loaded.core.fetch = .ok ⟨3, .or, [32769, 32768, 0]⟩ ∧ loaded.step = (.ok .advanced, done) ∧
      32767 < (done.core.registers.get 1).toNat := by
  let loaded := wideReader.after .rmem (.assign 32768 40000)
  let done := loaded.after .or (loaded.effect .or)
  have hload : wideReader.step = (.ok .advanced, loaded) :=
    @step_of_opcode wideReader .rmem nofun rfl rfl
  have hfetch : loaded.core.fetch = .ok ⟨3, .or, [32769, 32768, 0]⟩ := rfl
  have hstep : loaded.step = (.ok .advanced, done) := @step_of_opcode loaded .or nofun rfl rfl
  obtain ⟨v, _, hwrites, hwide⟩ := arithmetic_wide_iff (m := loaded) nofun hfetch rfl hstep
  have hget : done.core.registers.get 1 = v := hwrites.registers 1
  have hsource : 32767 < (loaded.core.sourceValue 32768).toNat := by decide
  have hv : ¬ v.toNat ≤ 32767 := fun hle => hwide.mp hle (Or.inl hsource)
  refine ⟨loaded, done, hload, hfetch, hstep, ?_⟩
  rw [hget]
  omega

end Machine
end WordMachine
