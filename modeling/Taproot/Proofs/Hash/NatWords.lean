import Mathlib.Data.List.GetD
import Taproot.Hash.Tagged

/-! # SHA-256 on natural numbers

The same digest with natural numbers below `2 ^ 32` in the place of words. The kernel computes with
natural numbers at once, so that digests of fixed messages can be evaluated in proofs.
-/
namespace Taproot.Sha256

/-! ## Rounds -/

def rotateNat (x k : Nat) : Nat := x >>> k ||| x <<< (32 - k) % 0x100000000

theorem toNat_rotateRight (x k : UInt32) (h₀ : 0 < k.toNat) (h : k.toNat < 32) :
    (rotateRight x k).toNat = rotateNat x.toNat k.toNat := by
  have hk : (32 - k).toNat = 32 - k.toNat :=
    UInt32.toNat_sub_of_le 32 k (UInt32.le_iff_toNat_le.mpr (Nat.le_of_lt h))
  rw [rotateRight, rotateNat, UInt32.toNat_or, UInt32.toNat_shiftRight, UInt32.toNat_shiftLeft, hk,
    Nat.mod_eq_of_lt h, Nat.mod_eq_of_lt (by omega : 32 - k.toNat < 32)]

/-- The words of a state as natural numbers. -/
structure NatState where
  a : Nat
  b : Nat
  c : Nat
  d : Nat
  e : Nat
  f : Nat
  g : Nat
  h : Nat

def State.toNats (s : State) : NatState :=
  ⟨s.a.toNat, s.b.toNat, s.c.toNat, s.d.toNat, s.e.toNat, s.f.toNat, s.g.toNat, s.h.toNat⟩

namespace NatState

def round (s : NatState) (word constant : Nat) : NatState :=
  let s1 := rotateNat s.e 6 ^^^ rotateNat s.e 11 ^^^ rotateNat s.e 25
  let choice := (s.e &&& s.f) ^^^ ((0xffffffff - s.e) &&& s.g)
  let t1 := s.h + s1 + choice + constant + word
  let s0 := rotateNat s.a 2 ^^^ rotateNat s.a 13 ^^^ rotateNat s.a 22
  let majority := (s.a &&& s.b) ^^^ (s.a &&& s.c) ^^^ (s.b &&& s.c)
  ⟨(t1 + (s0 + majority)) % 0x100000000, s.a, s.b, s.c, (s.d + t1) % 0x100000000, s.e, s.f, s.g⟩

def rounds : NatState → List Nat → List Nat → NatState
  | s, w :: ws, c :: cs => rounds (s.round w c) ws cs
  | s, _, _ => s

def add (s t : NatState) : NatState :=
  ⟨(s.a + t.a) % 0x100000000, (s.b + t.b) % 0x100000000, (s.c + t.c) % 0x100000000,
    (s.d + t.d) % 0x100000000, (s.e + t.e) % 0x100000000, (s.f + t.f) % 0x100000000,
    (s.g + t.g) % 0x100000000, (s.h + t.h) % 0x100000000⟩

end NatState

namespace State

theorem toNats_round (s : State) (word constant : UInt32) :
    (s.round word constant).toNats = s.toNats.round word.toNat constant.toNat := by
  have hn : ∀ x : UInt32, (~~~x).toNat = 0xffffffff - x.toNat := UInt32.toNat_not
  simp (disch := decide) only [round, toNats, NatState.round, UInt32.toNat_add, UInt32.toNat_xor,
    UInt32.toNat_and, hn, toNat_rotateRight, UInt32.reduceToNat]
  simp only [NatState.mk.injEq, true_and, and_true]
  constructor <;> omega

theorem toNats_foldl (s : State) (ws cs : List UInt32) :
    ((ws.zip cs).foldl (fun t wk => t.round wk.1 wk.2) s).toNats =
      s.toNats.rounds (ws.map UInt32.toNat) (cs.map UInt32.toNat) := by
  induction ws generalizing s cs with
  | nil => rfl
  | cons w ws ih =>
    cases cs with
    | nil => rfl
    | cons c cs =>
      rw [List.zip_cons_cons, List.foldl_cons, ih, toNats_round, List.map_cons, List.map_cons,
        NatState.rounds]

theorem toNats_add (s t : State) : (s.add t).toNats = s.toNats.add t.toNats := by
  simp only [add, toNats, NatState.add, UInt32.toNat_add]

end State

/-! ## The message schedule -/

/-- One more word of the schedule; the latest word comes first. -/
def extendOnce (w : List Nat) : List Nat :=
  let x := w.getD 14 0
  let y := w.getD 1 0
  let s0 := rotateNat x 7 ^^^ rotateNat x 18 ^^^ x >>> 3
  let s1 := rotateNat y 17 ^^^ rotateNat y 19 ^^^ y >>> 10
  (w.getD 15 0 + s0 + w.getD 6 0 + s1) % 0x100000000 :: w

def extend : Nat → List Nat → List Nat
  | 0, w => w
  | n + 1, w => extend n (extendOnce w)

theorem extend_succ (n : Nat) (w : List Nat) : extend (n + 1) w = extendOnce (extend n w) := by
  induction n generalizing w with
  | zero => rfl
  | succ n ih => rw [extend, ih, extend]

/-- The numbers of the words of a schedule, the latest word first. -/
def latestFirst (w : Array UInt32) : List Nat := (w.toList.map UInt32.toNat).reverse

theorem latestFirst_push (w : Array UInt32) (x : UInt32) :
    latestFirst (w.push x) = x.toNat :: latestFirst w := by
  simp [latestFirst]

theorem getD_latestFirst {w : Array UInt32} {i j : Nat} (h : i + j + 1 = w.size) :
    (latestFirst w).getD j 0 = (w.getD i 0).toNat := by
  have hj : j < (w.toList.map UInt32.toNat).length := by
    rw [List.length_map, Array.length_toList]
    omega
  have hi : w.toList.length - 1 - j = i := by
    rw [Array.length_toList]
    omega
  rw [latestFirst, List.getD_eq_getElem?_getD, List.getElem?_reverse hj, List.length_map, hi,
    List.getElem?_map, Array.getD_eq_getD_getElem?, Array.getElem?_toList]
  cases w[i]? <;> rfl

/-- What one step of the schedule puts behind the words so far. -/
def nextWord (w : Array UInt32) (i : Nat) : UInt32 :=
  let x := w.getD (i + 1) 0
  let y := w.getD (i + 14) 0
  let s0 := rotateRight x 7 ^^^ rotateRight x 18 ^^^ (x >>> 3)
  let s1 := rotateRight y 17 ^^^ rotateRight y 19 ^^^ (y >>> 10)
  w.getD i 0 + s0 + w.getD (i + 9) 0 + s1

theorem latestFirst_next {w : Array UInt32} {i : Nat} (h : w.size = 16 + i) :
    latestFirst (w.push (nextWord w i)) = extendOnce (latestFirst w) := by
  rw [latestFirst_push, extendOnce, getD_latestFirst (i := i + 1) (j := 14) (by omega),
    getD_latestFirst (i := i + 14) (j := 1) (by omega),
    getD_latestFirst (i := i) (j := 15) (by omega),
    getD_latestFirst (i := i + 9) (j := 6) (by omega)]
  simp (disch := decide) only [nextWord, UInt32.toNat_add, UInt32.toNat_xor,
    UInt32.toNat_shiftRight, toNat_rotateRight, UInt32.reduceToNat, Nat.reduceMod]
  congr 1
  omega

theorem latestFirst_foldl {block : List UInt32} (h : block.length = 16) (n : Nat) :
    ((List.range n).foldl (fun w i => w.push (nextWord w i)) block.toArray).size = 16 + n ∧
      latestFirst ((List.range n).foldl (fun w i => w.push (nextWord w i)) block.toArray) =
        extend n (block.map UInt32.toNat).reverse := by
  induction n with
  | zero => exact ⟨h, rfl⟩
  | succ n ih =>
    rw [List.range_succ, List.foldl_append, List.foldl_cons, List.foldl_nil, extend_succ, ← ih.2]
    exact ⟨by rw [Array.size_push, ih.1]; rfl, latestFirst_next ih.1⟩

theorem map_toNat_schedule {block : List UInt32} (h : block.length = 16) :
    (schedule block).map UInt32.toNat = (extend 48 (block.map UInt32.toNat).reverse).reverse := by
  rw [← (latestFirst_foldl h 48).2, latestFirst, List.reverse_reverse]
  rfl

/-! ## Blocks -/

def wordsNat : Bytes → List Nat
  | w :: x :: y :: z :: rest =>
    (w.toNat <<< 24 ||| x.toNat <<< 16 ||| y.toNat <<< 8 ||| z.toNat) :: wordsNat rest
  | _ => []

theorem toNat_shiftLeft_byte (b : UInt8) (k : UInt32) (hk : k.toNat ≤ 24) :
    (b.toUInt32 <<< k).toNat = b.toNat <<< k.toNat := by
  have hb := b.toNat_lt
  rw [UInt32.toNat_shiftLeft, UInt8.toNat_toUInt32, Nat.mod_eq_of_lt (by omega : k.toNat < 32)]
  refine Nat.mod_eq_of_lt ?_
  rw [Nat.shiftLeft_eq]
  calc b.toNat * 2 ^ k.toNat < 2 ^ 8 * 2 ^ k.toNat :=
        Nat.mul_lt_mul_of_pos_right hb (Nat.two_pow_pos k.toNat)
    _ ≤ 2 ^ 8 * 2 ^ 24 := Nat.mul_le_mul_left _ (Nat.pow_le_pow_right (by decide) hk)
    _ = 2 ^ 32 := rfl

theorem map_toNat_words (b : Bytes) : (words b).map UInt32.toNat = wordsNat b := by
  fun_induction words b with
  | case1 w x y z rest ih =>
    simp (disch := decide) only [List.map_cons, ih, wordsNat, UInt32.toNat_or, UInt8.toNat_toUInt32,
      toNat_shiftLeft_byte, UInt32.reduceToNat]
  | case2 b h => rw [wordsNat, List.map_nil]; exact h

theorem length_words (b : Bytes) : (words b).length = b.length / 4 := by
  fun_induction words b with
  | case1 w x y z rest ih =>
    simp only [List.length_cons, ih]
    omega
  | case2 b h =>
    rcases b with _ | ⟨w, _ | ⟨x, _ | ⟨y, _ | ⟨z, rest⟩⟩⟩⟩
    · simp
    · simp
    · simp
    · simp
    · exact (h w x y z rest rfl).elim

namespace NatState

def compress (s : NatState) (block : Bytes) : NatState :=
  s.add (s.rounds (extend 48 (wordsNat block).reverse).reverse (roundConstants.map UInt32.toNat))

def absorb : Nat → Bytes → NatState → NatState
  | 0, _, s => s
  | n + 1, m, s => absorb n (m.drop 64) (s.compress (m.take 64))

def wordBytes (w : Nat) : Bytes :=
  [UInt8.ofNat (w >>> 24), UInt8.ofNat (w >>> 16), UInt8.ofNat (w >>> 8), UInt8.ofNat w]

def bytes (s : NatState) : Bytes :=
  wordBytes s.a ++ wordBytes s.b ++ wordBytes s.c ++ wordBytes s.d ++
    wordBytes s.e ++ wordBytes s.f ++ wordBytes s.g ++ wordBytes s.h

end NatState

namespace State

theorem toNats_compress (s : State) {block : Bytes} (h : block.length = 64) :
    (s.compress block).toNats = s.toNats.compress block := by
  have hw : (words block).length = 16 := by rw [length_words, h]
  rw [compress, toNats_add, toNats_foldl, map_toNat_schedule hw, map_toNat_words,
    NatState.compress]

theorem toNats_absorb (s : State) {n : Nat} {m : Bytes} (h : m.length = 64 * n) :
    (absorb n m s).toNats = s.toNats.absorb n m := by
  induction n generalizing s m with
  | zero => rfl
  | succ n ih =>
    have hd : (m.drop 64).length = 64 * n := by
      rw [List.length_drop]
      omega
    have ht : (m.take 64).length = 64 := by
      rw [List.length_take]
      omega
    rw [absorb, ih _ hd, toNats_compress s ht, NatState.absorb]

theorem bytes_toNats (s : State) : s.toNats.bytes = s.bytes := by
  have hw : ∀ w : UInt32, NatState.wordBytes w.toNat = wordBytes w := by
    intro w
    have hb : ∀ x : UInt32, UInt8.ofNat x.toNat = x.toUInt8 := fun x => by
      apply UInt8.toNat_inj.mp
      rw [UInt8.toNat_ofNat', UInt32.toNat_toUInt8]
    simp only [NatState.wordBytes, wordBytes, ← hb, UInt32.toNat_shiftRight, UInt32.reduceToNat,
      Nat.reduceMod]
  simp only [NatState.bytes, toNats, hw, bytes]

end State
end Sha256

def sha256Nat (m : Bytes) : Bytes :=
  let padded := Sha256.pad m
  (Sha256.State.initial.toNats.absorb (padded.length / 64) padded).bytes

theorem sha256_eq (m : Bytes) : sha256 m = sha256Nat m := by
  have hp : (Sha256.pad m).length = 64 * ((Sha256.pad m).length / 64) := by
    have h := Sha256.length_pad m
    omega
  rw [sha256Nat, sha256, ← Sha256.State.toNats_absorb _ hp, Sha256.State.bytes_toNats]

end Taproot
