import WordMachine.Proofs.Loading

/-! # Program images

A program image is a list of bytes, two of them for each word and the lower one first.  Loading it is the
inverse of encoding: the bytes of a list of words load as the words, and what an image was loaded as encodes
to the image again, with a zero byte behind it if it ended in half a word.  Zero bytes behind an image load as
zero words, which lie there anyway.

* `wordsOfBytes_bytesOfWords`, `bytesOfWords_wordsOfBytes` : the two directions.
* `Memory.ofBytes_eq_ok`, `Memory.Encodes` : when an image is loaded, and what the memory then holds.
* `Memory.words_of_trailing_zeros` : zero bytes behind an image do not change the words of the memory. -/

namespace WordMachine

/-! ### Words and bytes -/

/-- A word is determined by its two bytes. -/
theorem ofNat_of_bytes (w : Word) :
    UInt16.ofNat ((UInt8.ofNat (w.toNat % 256)).toNat + 256 * (UInt8.ofNat (w.toNat / 256)).toNat) = w := by
  have hlt := w.toNat_lt
  apply UInt16.toNat_inj.mp
  simp only [UInt8.toNat_ofNat', UInt16.toNat_ofNat']
  omega

/-- The two bytes of the word that two bytes encode. -/
theorem bytes_of_ofNat (lo hi : UInt8) :
    UInt8.ofNat ((UInt16.ofNat (lo.toNat + 256 * hi.toNat)).toNat % 256) = lo ∧
      UInt8.ofNat ((UInt16.ofNat (lo.toNat + 256 * hi.toNat)).toNat / 256) = hi := by
  have hlo := lo.toNat_lt
  have hhi := hi.toNat_lt
  constructor
  · apply UInt8.toNat_inj.mp
    simp only [UInt8.toNat_ofNat', UInt16.toNat_ofNat']
    omega
  · apply UInt8.toNat_inj.mp
    simp only [UInt8.toNat_ofNat', UInt16.toNat_ofNat']
    omega

theorem wordsOfBytes_cons_cons (lo hi : UInt8) (bs : List UInt8) :
    wordsOfBytes (lo :: hi :: bs) = UInt16.ofNat (lo.toNat + 256 * hi.toNat) :: wordsOfBytes bs := rfl

theorem bytesOfWords_cons (w : Word) (ws : List Word) :
    bytesOfWords (w :: ws) =
      UInt8.ofNat (w.toNat % 256) :: UInt8.ofNat (w.toNat / 256) :: bytesOfWords ws := rfl

theorem wordsOfBytes_bytesOfWords (ws : List Word) : wordsOfBytes (bytesOfWords ws) = ws := by
  induction ws with
  | nil => rfl
  | cons w ws ih => rw [bytesOfWords_cons, wordsOfBytes_cons_cons, ofNat_of_bytes, ih]

theorem length_wordsOfBytes (bs : List UInt8) : (wordsOfBytes bs).length = (bs.length + 1) / 2 := by
  fun_induction wordsOfBytes bs with
  | case1 => rfl
  | case2 lo => simp
  | case3 lo hi bs ih =>
      simp only [List.length_cons, ih]
      omega

/-- An image that ends in half a word gets its second half when it is encoded again. -/
theorem bytesOfWords_wordsOfBytes (bs : List UInt8) :
    bytesOfWords (wordsOfBytes bs) = bs ++ if bs.length % 2 = 1 then [0] else [] := by
  fun_induction wordsOfBytes bs with
  | case1 => rfl
  | case2 lo =>
      obtain ⟨hlo, hhi⟩ := bytes_of_ofNat lo 0
      simp only [UInt8.toNat_zero, Nat.mul_zero, Nat.add_zero] at hlo hhi
      rw [bytesOfWords_cons, hlo, hhi]
      rfl
  | case3 lo hi bs ih =>
      obtain ⟨hlo, hhi⟩ := bytes_of_ofNat lo hi
      have hparity : (lo :: hi :: bs).length % 2 = bs.length % 2 := by
        simp only [List.length_cons]
        omega
      rw [bytesOfWords_cons, hlo, hhi, ih, hparity]
      rfl

/-! ### Zeros behind an image -/

theorem wordsOfBytes_zeros : ∀ k, ∃ j, wordsOfBytes (List.replicate k 0) = List.replicate j 0
  | 0 => ⟨0, rfl⟩
  | 1 => ⟨1, rfl⟩
  | k + 2 => by
      obtain ⟨j, hj⟩ := wordsOfBytes_zeros k
      refine ⟨j + 1, ?_⟩
      rw [List.replicate_succ, List.replicate_succ, wordsOfBytes_cons_cons, hj]
      rfl

/-- Zero bytes behind an image are zero words behind its words, and may complete the last one. -/
theorem wordsOfBytes_append_zeros (bs : List UInt8) (k : Nat) :
    ∃ j, wordsOfBytes (bs ++ List.replicate k 0) = wordsOfBytes bs ++ List.replicate j 0 := by
  fun_induction wordsOfBytes bs with
  | case1 => exact wordsOfBytes_zeros k
  | case2 lo =>
      cases k with
      | zero => exact ⟨0, rfl⟩
      | succ k =>
          -- The first of the zeros is the upper half of the last word.
          obtain ⟨j, hj⟩ := wordsOfBytes_zeros k
          refine ⟨j, ?_⟩
          rw [List.replicate_succ, List.singleton_append, wordsOfBytes_cons_cons, hj]
          simp
  | case3 lo hi bs ih =>
      obtain ⟨j, hj⟩ := ih
      refine ⟨j, ?_⟩
      rw [List.cons_append, List.cons_append, wordsOfBytes_cons_cons, hj]
      rfl

/-! ### Loading -/

namespace Memory

theorem toList_words_holding {ws : List Word} (h : ws.length ≤ 32768) :
    (holding ws h).words.toList = ws ++ List.replicate (32768 - ws.length) 0 := rfl

/-- Behind the loaded words there are zeros, and zeros behind the memory. -/
theorem read_holding {ws : List Word} (h : ws.length ≤ 32768) (a : Nat) :
    (holding ws h).read a = ws.getD a 0 := by
  unfold read
  split
  next ha =>
    have hbound : a < (ws ++ List.replicate (32768 - ws.length) (0 : Word)).toArray.size := by
      rwa [size_append_zeros h]
    show (ws ++ List.replicate (32768 - ws.length) (0 : Word)).toArray[a] = _
    rcases Nat.lt_or_ge a ws.length with hlt | hge
    · simp [hlt]
    · simp [hge]
  next ha => simp [show ws.length ≤ a by omega]

/-- An image is loaded if its words fit. -/
theorem ofBytes_of_le {bs : List UInt8} (h : (bs.length + 1) / 2 ≤ 32768) :
    ∃ hws, ofBytes bs = .ok (holding (wordsOfBytes bs) hws) := by
  have hws : (wordsOfBytes bs).length ≤ 32768 := by rwa [length_wordsOfBytes]
  exact ⟨hws, ofWords_of_le hws⟩

theorem ofBytes_of_gt {bs : List UInt8} (h : 32768 < (bs.length + 1) / 2) :
    ofBytes bs = .error (.imageTooLarge ((bs.length + 1) / 2)) := by
  rw [← length_wordsOfBytes] at h ⊢
  exact dif_neg (by omega)

/-- An image that is loaded fits, and the memory holds its words. -/
theorem ofBytes_eq_ok {bs : List UInt8} {memory : Memory} (h : ofBytes bs = .ok memory) :
    (bs.length + 1) / 2 ≤ 32768 ∧ ∃ hws, memory = holding (wordsOfBytes bs) hws := by
  rcases Nat.lt_or_ge 32768 ((bs.length + 1) / 2) with hgt | hle
  · rw [ofBytes_of_gt hgt] at h
    cases h
  · obtain ⟨hws, hload⟩ := ofBytes_of_le hle
    rw [hload] at h
    cases h
    exact ⟨hle, hws, rfl⟩

/-- `Encodes memory bs`: the memory is the one that an image of the given bytes gives.  It counts the words
of the image and has `2 ^ 15` words.  Those of the image are its bytes, with a zero byte behind them if one is
missing, and all others are zero. -/
structure Encodes (memory : Memory) (bs : List UInt8) : Prop where
  loaded : memory.loaded = (bs.length + 1) / 2
  size : memory.words.toList.length = 32768
  bytes : bytesOfWords (memory.words.toList.take memory.loaded) =
    bs ++ if bs.length % 2 = 1 then [0] else []
  zeros : ∀ a, memory.loaded ≤ a → memory.read a = 0

theorem encodes_of_ofBytes {bs : List UInt8} {memory : Memory} (h : ofBytes bs = .ok memory) :
    memory.Encodes bs := by
  obtain ⟨_, hws, rfl⟩ := ofBytes_eq_ok h
  have hloaded : (holding (wordsOfBytes bs) hws).loaded = (wordsOfBytes bs).length := rfl
  constructor
  · rw [hloaded, length_wordsOfBytes]
  · exact Vector.length_toList
  · rw [hloaded, toList_words_holding, List.take_left, bytesOfWords_wordsOfBytes]
  · intro a ha
    rw [hloaded] at ha
    simp [read_holding, ha]

/-- Two lists of words that differ in zeros behind them fill the memory alike. -/
theorem words_holding_append_zeros {ws : List Word} {j : Nat} (h : ws.length ≤ 32768)
    (h' : (ws ++ List.replicate j 0).length ≤ 32768) :
    (holding (ws ++ List.replicate j 0) h').words = (holding ws h).words := by
  apply Vector.toList_inj.mp
  rw [List.length_append, List.length_replicate] at h'
  rw [toList_words_holding, toList_words_holding, List.append_assoc, List.replicate_append_replicate,
    List.length_append, List.length_replicate, show j + (32768 - (ws.length + j)) = 32768 - ws.length by omega]

/-- Zero bytes behind an image do not change the words of the memory. -/
theorem words_of_trailing_zeros {bs : List UInt8} {j k : Nat} {memory memory' : Memory}
    (h : ofBytes (bs ++ List.replicate j 0) = .ok memory)
    (h' : ofBytes (bs ++ List.replicate k 0) = .ok memory') : memory.words = memory'.words := by
  -- Both are compared with the image without any of the zeros, which fits all the more.
  obtain ⟨hle, hws, rfl⟩ := ofBytes_eq_ok h
  obtain ⟨_, hws', rfl⟩ := ofBytes_eq_ok h'
  have hfits : (wordsOfBytes bs).length ≤ 32768 := by
    rw [List.length_append] at hle
    rw [length_wordsOfBytes]
    omega
  obtain ⟨i, hi⟩ := wordsOfBytes_append_zeros bs j
  obtain ⟨i', hi'⟩ := wordsOfBytes_append_zeros bs k
  simp only [hi, hi']
  rw [words_holding_append_zeros hfits (hi ▸ hws), words_holding_append_zeros hfits (hi' ▸ hws')]

end Memory

end WordMachine
