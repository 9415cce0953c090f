import DemandPaging.Random.ChaCha
import Mathlib.Logic.Function.Basic
import Mathlib.Tactic.IntervalCases

/-!
# What the stream keeps of its seed

Draws have to follow from the seed and differ with it. A seed goes through four stages before the
last addition makes a block of the stream: it is stretched to states, states give the words of the
key, the key and the counter are laid out as a block, and that is mixed. Stretching, laying out and
mixing lose nothing. A word of the key has half the bits of its state; what it loses are the lowest
27 bits, and which of the words it is depends on the highest five, so states that agree in these
bits and give one word are one state.

Every step of a quarter round changes one word by another in a way that can be undone
(`set_injective`), and everything about mixing comes from that. The draws of a block show all its
words, so what cannot be undone is the last addition alone.

> `stretched_injective`: different seeds are different states, however far they are stretched.
> `keyWord_inj`: a word of the key, with the bits it loses, has one state.
> `mixed_inj`: a block before the last addition has one key and one counter.
> `mixed_ne`: different seeds with the same lost bits have no such block in common.
> `draws_eq_iff`: eight draws show all of a block of the stream.
> `draw_depends_on_seed`: no one stream is that of all seeds.
-/

namespace DemandPaging.Random

open Function (Injective)

/-! ## Rotations -/

theorem turn_injective {k : Nat} (hk : k < 32) :
    Injective fun x : BitVec 32 => x >>> k ||| x <<< (32 - k) := by
  intro x y h
  refine BitVec.eq_of_getLsbD_eq fun i hi => ?_
  -- the bit has moved down by `k` places, or around
  by_cases hik : k ≤ i
  · have hbit := congrArg (BitVec.getLsbD · (i - k)) h
    have hsum : k + (i - k) = i := by omega
    have hlow : i - k < 32 - k := by omega
    simpa [BitVec.getLsbD_ushiftRight, BitVec.getLsbD_shiftLeft, hsum, hlow] using hbit
  · have hbit := congrArg (BitVec.getLsbD · (i + (32 - k))) h
    have hsum : 32 ≤ k + (i + (32 - k)) := by omega
    have hin : i + (32 - k) < 32 := by omega
    have hhigh : ¬ i + (32 - k) < 32 - k := by omega
    simpa [BitVec.getLsbD_ushiftRight, BitVec.getLsbD_shiftLeft, BitVec.getLsbD_of_ge, hsum, hin,
      hhigh, BitVec.getLsbD_eq_getElem hi] using hbit

theorem toBitVec_rotateRight (x : UInt32) {n : UInt32} (h : n < 32) :
    (rotateRight x n).toBitVec = x.toBitVec >>> n.toNat ||| x.toBitVec <<< (32 - n.toNat) := by
  have hn : n.toNat < 32 := h
  have hrest : (32 - n).toNat = 32 - n.toNat := UInt32.toNat_sub_of_le 32 n (Nat.le_of_lt hn)
  have hmod : (n.toBitVec % 32).toNat = n.toNat := Nat.mod_eq_of_lt hn
  have hmod' : ((32 - n).toBitVec % 32).toNat = (32 - n.toNat) % 32 := congrArg (· % 32) hrest
  simp only [rotateRight, UInt32.toBitVec_or, UInt32.toBitVec_shiftLeft,
    UInt32.toBitVec_shiftRight, BitVec.shiftLeft_eq', BitVec.ushiftRight_eq', hmod, hmod']
  rcases Nat.eq_zero_or_pos n.toNat with hzero | hpos
  · -- a shift by all places leaves nothing to add
    rw [hzero]
    simp
  · rw [Nat.mod_eq_of_lt (by omega)]

/-- A rotation to the right can be undone. -/
theorem rotateRight_injective {n : UInt32} (hn : n < 32) : Injective (rotateRight · n) := by
  intro x y h
  have hbits := congrArg UInt32.toBitVec h
  simp only [toBitVec_rotateRight _ hn] at hbits
  exact UInt32.toBitVec_inj.mp (turn_injective hn hbits)

/-- A rotation to the left is one to the right by the other places. -/
theorem rotateLeft_injective {n : UInt32} (hpos : 0 < n) (hn : n < 32) :
    Injective (rotateLeft · n) := by
  have hpos' : 0 < n.toNat := hpos
  have hn' : n.toNat < 32 := hn
  have hrest : (32 - n).toNat = 32 - n.toNat := UInt32.toNat_sub_of_le 32 n (Nat.le_of_lt hn')
  have hlt : 32 - n < 32 := by
    rw [UInt32.lt_iff_toNat_lt, hrest]
    exact Nat.sub_lt (by decide) hpos'
  have hback : 32 - (32 - n) = n := by
    rw [← UInt32.toNat_inj, UInt32.toNat_sub_of_le 32 (32 - n) (Nat.le_of_lt hlt), hrest]
    exact Nat.sub_sub_self (Nat.le_of_lt hn')
  have hleft : ∀ x, rotateLeft x n = rotateRight x (32 - n) := by
    intro x
    rw [rotateLeft, rotateRight, hback, UInt32.or_comm]
  simp only [hleft]
  exact rotateRight_injective hlt

/-! ## Mixing -/

/-- A word that is changed by another word can be changed back. -/
theorem set_injective {i j : Nat} (hi : i < 16) (hj : j < 16) (hij : i ≠ j)
    {f : UInt32 → UInt32 → UInt32} (hf : ∀ y, Injective (f · y)) :
    Injective fun s : Block => s.set i (f s[i] s[j]) := by
  intro s s' h
  have hother : ∀ k (_ : k < 16), i ≠ k → s[k] = s'[k] := by
    intro k hk hne
    have hset := congrArg (fun t : Block => t[k]) h
    simpa [hne] using hset
  have hsame : s[i] = s'[i] := by
    have hset := congrArg (fun t : Block => t[i]) h
    simp only [Vector.getElem_set_self, hother j hj hij] at hset
    exact hf _ hset
  refine Vector.ext fun k hk => ?_
  by_cases hki : i = k
  · subst hki
    exact hsame
  · exact hother k hk hki

/-- The words of a quarter round are mixed by additions and rotations, one after the other. -/
theorem quarterRound_injective {a b c d : Fin 16} (hab : a ≠ b) (hbc : b ≠ c) (hcd : c ≠ d)
    (hda : d ≠ a) : Injective (quarterRound · a b c d) := by
  have hadd : ∀ {i j : Fin 16}, i ≠ j → Injective fun s : Block => s.set i (s[i] + s[j]) :=
    fun hne => set_injective _ _ (Fin.val_ne_of_ne hne) fun y x x' h =>
      (UInt32.add_left_inj y).mp h
  have hturn : ∀ {i j : Fin 16}, i ≠ j → ∀ {n : UInt32}, 0 < n → n < 32 →
      Injective fun s : Block => s.set i (rotateLeft (s[i] ^^^ s[j]) n) :=
    fun hne _ hpos hn => set_injective _ _ (Fin.val_ne_of_ne hne) fun y x x' h =>
      (UInt32.xor_left_inj y).mp (rotateLeft_injective hpos hn h)
  have h16 := hturn hda (n := 16) (by decide) (by decide)
  have h12 := hturn hbc (n := 12) (by decide) (by decide)
  have h8 := hturn hda (n := 8) (by decide) (by decide)
  have h7 := hturn hbc (n := 7) (by decide) (by decide)
  have hfirst := h12.comp ((hadd hcd).comp (h16.comp (hadd hab)))
  have hsecond := h7.comp ((hadd hcd).comp (h8.comp (hadd hab)))
  exact hsecond.comp hfirst

theorem doubleRound_injective : Injective doubleRound := by
  have hquarter {a b c d : Fin 16} (h : a ≠ b ∧ b ≠ c ∧ c ≠ d ∧ d ≠ a) :
      Injective (quarterRound · a b c d) := quarterRound_injective h.1 h.2.1 h.2.2.1 h.2.2.2
  have hcolumns : Injective fun s => quarterRound (quarterRound (quarterRound
      (quarterRound s 0 4 8 12) 1 5 9 13) 2 6 10 14) 3 7 11 15 :=
    (hquarter (by decide)).comp ((hquarter (by decide)).comp
      ((hquarter (by decide)).comp (hquarter (by decide))))
  have hdiagonals : Injective fun s => quarterRound (quarterRound (quarterRound
      (quarterRound s 0 5 10 15) 1 6 11 12) 2 7 8 13) 3 4 9 14 :=
    (hquarter (by decide)).comp ((hquarter (by decide)).comp
      ((hquarter (by decide)).comp (hquarter (by decide))))
  exact hdiagonals.comp hcolumns

/-- Mixing loses nothing, however long it goes on. -/
theorem doubleRounds_injective : ∀ n, Injective (doubleRounds n)
  | 0 => Function.injective_id
  | n + 1 => (doubleRounds_injective n).comp doubleRound_injective

/-! ## Keys and counters -/

theorem toNat_shiftRight_toUInt32 (n : UInt64) :
    (n >>> 32).toUInt32.toNat = n.toNat / 2 ^ 32 % 2 ^ 32 := by
  simp [Nat.shiftRight_eq_div_pow]

/-- The key and the counter can be read off the block that is mixed. -/
theorem initial_inj {k k' : Vector UInt32 8} {n n' : UInt64} :
    initial k n = initial k' n' ↔ k = k' ∧ n = n' := by
  refine ⟨fun h => ?_, fun ⟨hk, hn⟩ => by rw [hk, hn]⟩
  simp only [initial, Vector.mk.injEq, Array.mk.injEq, List.cons.injEq] at h
  obtain ⟨-, -, -, -, h0, h1, h2, h3, h4, h5, h6, h7, hlow, hhigh, -⟩ := h
  refine ⟨Vector.ext fun i hi => ?_, ?_⟩
  · interval_cases i <;> assumption
  · have hlow' : n.toNat % 2 ^ 32 = n'.toNat % 2 ^ 32 := congrArg UInt32.toNat hlow
    have hhigh' := congrArg UInt32.toNat hhigh
    rw [toNat_shiftRight_toUInt32, toNat_shiftRight_toUInt32] at hhigh'
    have hn := n.toNat_lt
    have hn' := n'.toNat_lt
    rw [← UInt64.toNat_inj]
    omega

/-- A block before the last addition has one key and one counter. -/
theorem mixed_inj {rounds : Nat} {k k' : Vector UInt32 8} {n n' : UInt64} :
    doubleRounds rounds (initial k n) = doubleRounds rounds (initial k' n') ↔ k = k' ∧ n = n' :=
  (doubleRounds_injective rounds).eq_iff.trans initial_inj

/-! ## Seeds -/

/-- The factor is odd, so it has an inverse. -/
theorem stretch_injective : Injective stretch := by
  have hunit : (6364136223846793005 : UInt64) * 13877824140714322085 = 1 := by decide
  intro x y h
  have hproduct : x * 6364136223846793005 = y * 6364136223846793005 := by
    simpa only [stretch, UInt64.add_left_inj] using h
  have hback := congrArg (· * (13877824140714322085 : UInt64)) hproduct
  simpa only [UInt64.mul_assoc, hunit, UInt64.mul_one] using hback

/-- Different seeds are different states, however far they are stretched. -/
theorem stretched_injective : ∀ n, Injective (stretched · n)
  | 0 => Function.injective_id
  | n + 1 => stretch_injective.comp (stretched_injective n)

/-- The bits of a state that a word of the key does not show: the highest five, by which it was
rotated, and the lowest 27, which are dropped. -/
def SameLostBits (s s' : UInt64) : Prop :=
  s.toNat / 2 ^ 59 = s'.toNat / 2 ^ 59 ∧ s.toNat % 2 ^ 27 = s'.toNat % 2 ^ 27

theorem SameLostBits.turn {s s' : UInt64} (h : SameLostBits s s') :
    (s >>> 59).toUInt32 = (s' >>> 59).toUInt32 ∧ (s' >>> 59).toUInt32 < 32 := by
  have hturn : ∀ s : UInt64, (s >>> 59).toUInt32.toNat = s.toNat / 2 ^ 59 := by
    intro s
    have hlt := s.toNat_lt
    have hshift : (s >>> 59).toUInt32.toNat = s.toNat / 2 ^ 59 % 2 ^ 32 := by
      simp [Nat.shiftRight_eq_div_pow]
    omega
  refine ⟨?_, ?_⟩
  · rw [← UInt32.toNat_inj, hturn, hturn, h.1]
  · have hlt := s'.toNat_lt
    have hbound : (32 : UInt32).toNat = 32 := rfl
    rw [UInt32.lt_iff_toNat_lt, hturn, hbound]
    omega

/-- The bits that a word of the key shows, in the order of the rotation: each of the state together
with the one 18 places above it. -/
theorem testBit_shown {s s' : UInt64}
    (h : (((s >>> 18) ^^^ s) >>> 27).toUInt32 = (((s' >>> 18) ^^^ s') >>> 27).toUInt32) {i : Nat}
    (hlow : 27 ≤ i) (hhigh : i < 59) :
    (s.toNat.testBit (18 + i) ^^ s.toNat.testBit i)
      = (s'.toNat.testBit (18 + i) ^^ s'.toNat.testBit i) := by
  have hshown : ∀ s : UInt64, (((s >>> 18) ^^^ s) >>> 27).toUInt32.toNat
      = (s.toNat >>> 18 ^^^ s.toNat) >>> 27 % 2 ^ 32 := fun s => by simp
  have hbit := congrArg (fun w : UInt32 => w.toNat.testBit (i - 27)) h
  have hin : i - 27 < 32 := by omega
  have hsum : 27 + (i - 27) = i := by omega
  simpa only [hshown, Nat.testBit_mod_two_pow, hin, decide_true, Bool.true_and,
    Nat.testBit_shiftRight, Nat.testBit_xor, hsum] using hbit

/-- A word of the key, with the bits it loses, has one state. -/
theorem keyWord_inj {s s' : UInt64} (hlost : SameLostBits s s') (h : keyWord s = keyWord s') :
    s = s' := by
  obtain ⟨hturn, hlt⟩ := hlost.turn
  rw [keyWord, keyWord, hturn] at h
  have hshown := rotateRight_injective hlt h
  have hhighest : ∀ i, 59 ≤ i → s.toNat.testBit i = s'.toNat.testBit i := by
    intro i hi
    have hbit := congrArg (Nat.testBit · (i - 59)) hlost.1
    simpa only [Nat.testBit_div_two_pow, Nat.sub_add_cancel hi] using hbit
  -- from the highest bit down, each is what is shown and the bit 18 places above it
  have hbits : ∀ j i, 59 ≤ i + j → s.toNat.testBit i = s'.toNat.testBit i := by
    intro j
    induction j with
    | zero => exact hhighest
    | succ j ih =>
      intro i hi
      rcases Nat.lt_or_ge i 27 with hlow | hlow
      · have hbit := congrArg (Nat.testBit · i) hlost.2
        simpa only [Nat.testBit_mod_two_pow, hlow, decide_true, Bool.true_and] using hbit
      · rcases Nat.lt_or_ge i 59 with hhigh | hhigh
        · have hpair := testBit_shown hshown hlow hhigh
          rw [ih (18 + i) (by omega)] at hpair
          exact Bool.xor_right_inj.mp hpair
        · exact hhighest i hhigh
  rw [← UInt64.toNat_inj]
  exact Nat.eq_of_testBit_eq fun i => hbits 59 i (by omega)

/-- Different seeds whose states lose the same bits have no block before the last addition in
common, wherever in their streams. -/
theorem mixed_ne {seed seed' : UInt64} (hne : seed ≠ seed') {i : Fin 8}
    (hlost : SameLostBits (stretched seed (i + 1)) (stretched seed' (i + 1))) (rounds : Nat)
    (n n' : UInt64) :
    doubleRounds rounds (initial (key seed) n) ≠ doubleRounds rounds (initial (key seed') n') := by
  intro h
  obtain ⟨hkey, -⟩ := mixed_inj.mp h
  have hword : (key seed)[i] = (key seed')[i] := congrArg (·[i]) hkey
  simp only [key, Fin.getElem_fin, Vector.getElem_ofFn] at hword
  exact hne (stretched_injective (i + 1) (keyWord_inj hlost hword))

/-! ## Draws -/

/-- Two words are joined side by side. -/
theorem toNat_joined (low high : UInt32) :
    (low.toUInt64 ||| (high.toUInt64 <<< 32)).toNat = 2 ^ 32 * high.toNat + low.toNat := by
  have hlow := low.toNat_lt
  have hhigh := high.toNat_lt
  have hfits : 2 ^ 32 * high.toNat < 2 ^ 64 := by omega
  have hshift : (high.toUInt64 <<< 32).toNat = 2 ^ 32 * high.toNat := by
    simp only [UInt64.toNat_shiftLeft, UInt32.toNat_toUInt64, Nat.shiftLeft_eq]
    rw [Nat.mul_comm]
    exact Nat.mod_eq_of_lt hfits
  rw [UInt64.toNat_or, UInt32.toNat_toUInt64, hshift, Nat.or_comm,
    ← Nat.two_pow_add_eq_or_of_lt hlow]

/-- A draw gives back the two words of the stream that it joins. -/
theorem draw_eq_iff {seed seed' : UInt64} {n n' : Nat} : draw seed n = draw seed' n' ↔
    word seed (2 * n) = word seed' (2 * n') ∧ word seed (2 * n + 1) = word seed' (2 * n' + 1) := by
  refine ⟨fun h => ?_, fun ⟨hlow, hhigh⟩ => by rw [draw, draw, hlow, hhigh]⟩
  have hjoined := congrArg UInt64.toNat h
  rw [draw, draw, toNat_joined, toNat_joined] at hjoined
  have hlow := (word seed (2 * n)).toNat_lt
  have hlow' := (word seed' (2 * n')).toNat_lt
  refine ⟨UInt32.toNat_inj.mp ?_, UInt32.toNat_inj.mp ?_⟩
  · omega
  · omega

/-- The words of a block are those of the stream at sixteen positions. -/
theorem word_block (seed : UInt64) (n : Nat) {i : Nat} (hi : i < 16) :
    word seed (16 * n + i) = (block seed n)[i] := by
  have hblock : (16 * n + i) / 16 = n := by omega
  have hplace : (16 * n + i) % 16 = i := by omega
  simp only [word, hblock, Fin.getElem_fin, Fin.val_ofNat, hplace]

/-- Eight draws are a block, and lose none of its words. -/
theorem draws_eq_iff {seed seed' : UInt64} {n n' : Nat} :
    (∀ j < 8, draw seed (8 * n + j) = draw seed' (8 * n' + j)) ↔
      block seed n = block seed' n' := by
  have hpositions : ∀ n j : Nat, 2 * (8 * n + j) = 16 * n + 2 * j := fun n j => by omega
  simp only [draw_eq_iff, hpositions, Nat.add_assoc]
  refine ⟨fun h => Vector.ext fun i hi => ?_, fun h j hj => ?_⟩
  · obtain ⟨hlow, hhigh⟩ := h (i / 2) (by omega)
    rw [← word_block seed n hi, ← word_block seed' n' hi]
    rcases Nat.even_or_odd' i with ⟨j, rfl | rfl⟩
    · rwa [Nat.mul_div_cancel_left j (by decide)] at hlow
    · rwa [Nat.mul_add_div (by decide)] at hhigh
  · have hlow : 2 * j < 16 := by omega
    have hhigh : 2 * j + 1 < 16 := by omega
    rw [word_block seed n hlow, word_block seed' n' hlow, word_block seed n hhigh,
      word_block seed' n' hhigh, h]
    exact ⟨rfl, rfl⟩

/-- No one stream is that of all seeds. -/
theorem draw_depends_on_seed : ¬ ∃ stream : Nat → UInt64, ∀ seed n, draw seed n = stream n := by
  rintro ⟨stream, hstream⟩
  have hdiffer : draw 369 0 ≠ draw 370 0 := by decide +kernel
  exact hdiffer ((hstream 369 0).trans (hstream 370 0).symm)

end DemandPaging.Random
