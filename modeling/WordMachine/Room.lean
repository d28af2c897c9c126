/-! # Room for lists

Where the length of a list is asked for, room for all of it is made before its first part.
A block of memory has less than `2 ^ 63` bytes, and a list that would need more is not
begun.  Whether the system can spare a smaller block is not asked here: it is granted. -/

namespace WordMachine

/-- A block of memory can hold `count` parts of `size` bytes each. -/
def HasRoom (size count : Nat) : Prop := size * count < 0x8000000000000000

instance (size count : Nat) : Decidable (HasRoom size count) := Nat.decLt _ _

/-- A list of `count` parts of `size` bytes each, if there is room for it. -/
def withRoom {α : Type} (size count : Nat) (x : α) : Option α :=
  if HasRoom size count then some x else none

end WordMachine
