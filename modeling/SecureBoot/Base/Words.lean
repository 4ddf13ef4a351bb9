import Mathlib.Algebra.Ring.Nat

/-!
# Bytes and machine words

Fixed-width words as bit vectors, and the two byte orders used by serial
formats: big-endian concatenation and little-endian shift-and-or packing.
-/

namespace SecureBoot

abbrev Byte := BitVec 8
abbrev Word := BitVec 32
abbrev DWord := BitVec 64

namespace Words

/-- Byte `i` of a word, least significant first. -/
def byteAt {w : Nat} (x : BitVec w) (i : Nat) : Byte := (x >>> (8 * i)).setWidth 8

/-- Four bytes, most significant first. -/
def beWord (b0 b1 b2 b3 : Byte) : Word := b0 ++ b1 ++ b2 ++ b3

/-- Four bytes, least significant first. -/
def leWord (b0 b1 b2 b3 : Byte) : Word := beWord b3 b2 b1 b0

/-- The bytes of a word as a little-endian bus delivers them. -/
def leBytes (x : Word) : List Byte := [byteAt x 0, byteAt x 1, byteAt x 2, byteAt x 3]

@[simp] theorem leBytes_length (x : Word) : (leBytes x).length = 4 := rfl

/-- The last word of a range may be partial. -/
theorem leBytes_take_length (x : Word) (n : Nat) : ((leBytes x).take n).length = min 4 n := by
  rw [List.length_take, leBytes_length, Nat.min_comm]

theorem flatMap_leBytes_length (ws : List Word) :
    (ws.flatMap leBytes).length = 4 * ws.length := by
  induction ws with
  | nil => rfl
  | cons w ws ih =>
      rw [List.flatMap_cons, List.length_append, leBytes_length, ih, List.length_cons]
      omega

/-- A byte string as little-endian words; an incomplete word is dropped. -/
def leWords : List Byte → List Word
  | b0 :: b1 :: b2 :: b3 :: rest => leWord b0 b1 b2 b3 :: leWords rest
  | _ => []

/-- A hexadecimal dump of `len` bytes, first byte first. -/
def ofHex (len x : Nat) : List Byte :=
  (List.range len).map fun i => BitVec.ofNat 8 (x >>> (8 * (len - 1 - i)))

theorem byteAt_toNat {w : Nat} (x : BitVec w) (i : Nat) :
    (byteAt x i).toNat = x.toNat / 2 ^ (8 * i) % 256 := by
  simp [byteAt, BitVec.toNat_setWidth, Nat.shiftRight_eq_div_pow]

theorem beWord_toNat (b0 b1 b2 b3 : Byte) :
    (beWord b0 b1 b2 b3).toNat =
      ((b0.toNat * 256 + b1.toNat) * 256 + b2.toNat) * 256 + b3.toNat := by
  unfold beWord
  rw [BitVec.toNat_append, BitVec.toNat_append, BitVec.toNat_append]
  rw [← Nat.shiftLeft_add_eq_or_of_lt b1.isLt, ← Nat.shiftLeft_add_eq_or_of_lt b2.isLt,
    ← Nat.shiftLeft_add_eq_or_of_lt b3.isLt]
  simp only [Nat.shiftLeft_eq]

theorem leWord_toNat (b0 b1 b2 b3 : Byte) :
    (leWord b0 b1 b2 b3).toNat =
      b0.toNat + 256 * b1.toNat + 65536 * b2.toNat + 16777216 * b3.toNat := by
  unfold leWord
  rw [beWord_toNat]
  omega

@[simp] theorem leBytes_leWord (b0 b1 b2 b3 : Byte) :
    leBytes (leWord b0 b1 b2 b3) = [b0, b1, b2, b3] := by
  have hw := leWord_toNat b0 b1 b2 b3
  have hb : ∀ (i : Nat) (b : Byte), (leWord b0 b1 b2 b3).toNat / 2 ^ (8 * i) % 256 = b.toNat →
      byteAt (leWord b0 b1 b2 b3) i = b := by
    intro i b h
    apply BitVec.eq_of_toNat_eq
    rw [byteAt_toNat, h]
  have h0 := b0.isLt
  have h1 := b1.isLt
  have h2 := b2.isLt
  have h3 := b3.isLt
  simp only [leBytes, hb 0 b0 (by omega), hb 1 b1 (by omega), hb 2 b2 (by omega),
    hb 3 b3 (by omega)]

@[simp] theorem leWord_byteAt (x : Word) :
    leWord (byteAt x 0) (byteAt x 1) (byteAt x 2) (byteAt x 3) = x := by
  apply BitVec.eq_of_toNat_eq
  rw [leWord_toNat, byteAt_toNat, byteAt_toNat, byteAt_toNat, byteAt_toNat]
  have hx := x.isLt
  omega

theorem eq_nil_of_incomplete {bs : List Byte} (h : bs.length % 4 = 0)
    (hshort : ∀ b0 b1 b2 b3 rest, bs = b0 :: b1 :: b2 :: b3 :: rest → False) : bs = [] := by
  match bs, h with
  | [], _ => rfl
  | b0 :: b1 :: b2 :: b3 :: rest, _ => exact (hshort _ _ _ _ _ rfl).elim

theorem leBytes_injective : Function.Injective leBytes := by
  intro x y h
  simp only [leBytes, List.cons.injEq, and_true] at h
  obtain ⟨h0, h1, h2, h3⟩ := h
  rw [← leWord_byteAt x, ← leWord_byteAt y, h0, h1, h2, h3]

/-- Codes of one positive length are uniquely decodable. -/
theorem flatMap_injective {α β : Type} {f : α → List β} {n : Nat} (hlen : ∀ a, (f a).length = n + 1)
    (hf : Function.Injective f) : Function.Injective fun l : List α => l.flatMap f := by
  intro l
  induction l with
  | nil =>
      intro l' h
      cases l' with
      | nil => rfl
      | cons b l' =>
          have hnil := congrArg List.length h
          simp only [List.flatMap_nil, List.flatMap_cons, List.length_nil, List.length_append,
            hlen] at hnil
          omega
  | cons a l ih =>
      intro l' h
      cases l' with
      | nil =>
          have hnil := congrArg List.length h
          simp only [List.flatMap_nil, List.flatMap_cons, List.length_nil, List.length_append,
            hlen] at hnil
          omega
      | cons b l' =>
          simp only [List.flatMap_cons] at h
          obtain ⟨hhead, htail⟩ := List.append_inj h (by rw [hlen, hlen])
          rw [hf hhead, ih htail]

theorem leBytes_leWords_getD (bs : List Byte) (k : Nat) (h : 4 * k + 4 ≤ bs.length) :
    leBytes ((leWords bs).getD k 0) = (bs.drop (4 * k)).take 4 := by
  induction k generalizing bs with
  | zero =>
      match bs, h with
      | b0 :: b1 :: b2 :: b3 :: rest, _ => exact leBytes_leWord b0 b1 b2 b3
  | succ k ih =>
      match bs, h with
      | b0 :: b1 :: b2 :: b3 :: rest, h =>
          have hrest := ih rest (by simp only [List.length_cons] at h; omega)
          simpa [leWords, Nat.mul_succ] using hrest

theorem shiftOr_eq_beWord (b0 b1 b2 b3 : Byte) :
    (b0.setWidth 32 <<< 24) ||| (b1.setWidth 32 <<< 16) ||| (b2.setWidth 32 <<< 8) |||
      b3.setWidth 32 = beWord b0 b1 b2 b3 := by
  have out : ∀ (b : Byte) (k : Nat), 8 ≤ k → b.getLsbD k = false :=
    fun b k hk => BitVec.getLsbD_of_ge b k hk
  apply BitVec.eq_of_getLsbD_eq
  intro j hj
  simp only [beWord, BitVec.getLsbD_append, BitVec.getLsbD_or, BitVec.getLsbD_shiftLeft,
    BitVec.getLsbD_setWidth, hj, decide_true, Bool.true_and]
  by_cases h8 : j < 8
  · simp [h8, show j < 16 by omega, show j < 24 by omega]
  · by_cases h16 : j < 16
    · simp [h8, h16, show j < 24 by omega, show j - 8 < 8 by omega, show j - 8 < 32 by omega,
        out b3 j (by omega)]
    · by_cases h24 : j < 24
      · simp [h8, h16, h24, show ¬ j - 8 < 8 by omega, show j - 8 - 8 = j - 16 by omega,
          show j - 16 < 8 by omega, show j - 16 < 32 by omega, out b3 j (by omega),
          out b2 (j - 8) (by omega)]
      · simp [h8, h16, h24, show ¬ j - 8 < 8 by omega, show ¬ j - 8 - 8 < 8 by omega,
          show j - 8 - 8 - 8 = j - 24 by omega, show j - 24 < 32 by omega, out b3 j (by omega),
          out b2 (j - 8) (by omega), out b1 (j - 16) (by omega)]

end Words

end SecureBoot
