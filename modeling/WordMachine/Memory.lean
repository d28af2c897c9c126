import WordMachine.Fault

/-! # Memory

The memory has `2 ^ 15` words.  A program image is a list of little-endian words;
it is loaded at address zero and the rest of the memory is zero.

* `Memory.ofWords`, `Memory.ofBytes` : loading, which fails for a program that is too long.
* `Memory.read`, `Memory.write` : total access; what lies outside reads as zero and
  keeps nothing.
* `bytesOfWords`, `wordsOfBytes` : the two directions of the little-endian encoding. -/

namespace WordMachine

/-- The little-endian bytes of a list of words. -/
def bytesOfWords (ws : List Word) : List UInt8 :=
  ws.flatMap (fun w => [UInt8.ofNat (w.toNat % 256), UInt8.ofNat (w.toNat / 256)])

/-- The words that a list of bytes encodes.  An odd byte at the end is the low byte of
one more word. -/
def wordsOfBytes : List UInt8 → List Word
  | [] => []
  | [lo] => [UInt16.ofNat lo.toNat]
  | lo :: hi :: rest => UInt16.ofNat (lo.toNat + 256 * hi.toNat) :: wordsOfBytes rest

/-- The memory of the machine. -/
structure Memory where
  words : Vector Word 32768
  /-- The number of words that the program image supplied. -/
  loaded : Nat
  loaded_le : loaded ≤ 32768

namespace Memory

/-- A list of words followed by zeros. -/
def padded (ws : List Word) (h : ws.length ≤ 32768) : Vector Word 32768 :=
  ⟨ws.toArray ++ Array.replicate (32768 - ws.length) 0, by simp; omega⟩

/-- Memory loaded with a list of words. -/
def ofWords (ws : List Word) : Except Error Memory :=
  if h : ws.length ≤ 32768 then .ok ⟨padded ws h, ws.length, h⟩
  else .error (.imageTooLarge ws.length)

/-- Memory loaded with a list of bytes. -/
def ofBytes (bytes : List UInt8) : Except Error Memory := ofWords (wordsOfBytes bytes)

/-- Memory loaded from a stream: its bytes, or the reason for which it broke off. -/
def ofStream : Except String (List UInt8) → Except Error Memory
  | .ok bytes => ofBytes bytes
  | .error reason => .error (.stream reason)

/-- The word at an address; zero outside the memory. -/
def read (m : Memory) (addr : Nat) : Word :=
  if h : addr < 32768 then m.words[addr] else 0

/-- The memory with one word replaced.  A write outside the memory is dropped. -/
def write (m : Memory) (addr : Nat) (value : Word) : Memory :=
  if h : addr < 32768 then
    ⟨m.words.set addr value h, m.loaded, m.loaded_le⟩
  else m

/-- Whether a write at an address is kept. -/
def isWritable (addr : Nat) : Bool := addr < 32768

/-- The words from `start` up to but not including `stop`. -/
def slice (m : Memory) (start stop : Nat) : List Word :=
  (List.range (stop - start)).map (fun i => m.read (start + i))

/-- A write changes one word, and none if it is outside the memory. -/
theorem read_write (m : Memory) (a b : Nat) (v : Word) :
    (m.write a v).read b = if a = b ∧ a < 32768 then v else m.read b := by
  unfold write
  split
  next ha =>
    unfold read
    split
    next hb =>
      by_cases hab : a = b
      · subst hab
        simp [ha]
      · simp [hab, Vector.getElem_set_ne]
    next hb =>
      have hne : a ≠ b := by omega
      simp [hne]
  next ha => simp [ha]

/-- A write does not change how much was loaded. -/
@[simp] theorem loaded_write (m : Memory) (a : Nat) (v : Word) :
    (m.write a v).loaded = m.loaded := by
  unfold write
  split <;> rfl

end Memory
end WordMachine
