import SecureBoot.Base.Fips180
import SecureBoot.Sha256.Code

/-!
# `sha256_block` is the compression function

The C macros, the round-constant table, the two schedule loops and the mixing
loop against FIPS 180-4, loop by loop.
-/

namespace SecureBoot.Sha256

open Words Fips180

/-! ## Macros and the constant table -/

theorem BIG0_eq (x : Word) : BIG0 x = bigSigma0 x := rfl
theorem BIG1_eq (x : Word) : BIG1 x = bigSigma1 x := rfl
theorem SMALL0_eq (x : Word) : SMALL0 x = smallSigma0 x := rfl
theorem SMALL1_eq (x : Word) : SMALL1 x = smallSigma1 x := rfl

/-- The table holds the cube-root fractions, entry by entry. -/
theorem sha256K_eq (t : Nat) (ht : t < 64) : sha256K[t]! = K t := by
  have h : ∀ t : Fin 64, sha256K[t.val]! = K t.val := by decide +kernel
  exact h ⟨t, ht⟩

theorem loadBe32_eq (block : Vector Byte 64) (i : Nat) :
    loadBe32 block i = beWord block[i]! block[i + 1]! block[i + 2]! block[i + 3]! :=
  shiftOr_eq_beWord _ _ _ _

/-! ## The schedule loops -/

theorem words_getD (bytes : List Byte) (j : Nat) (hj : 4 * j + 4 ≤ bytes.length) :
    (words bytes).getD j 0 =
      beWord (bytes.getD (4 * j) 0) (bytes.getD (4 * j + 1) 0) (bytes.getD (4 * j + 2) 0)
        (bytes.getD (4 * j + 3) 0) := by
  induction j generalizing bytes with
  | zero =>
      match bytes with
      | b0 :: b1 :: b2 :: b3 :: rest => rfl
      | [] | [_] | [_, _] | [_, _, _] => simp at hj
  | succ j ih =>
      match bytes with
      | b0 :: b1 :: b2 :: b3 :: rest =>
          have hr := ih rest (by simp only [List.length_cons] at hj; omega)
          simpa [words, Nat.mul_succ] using hr
      | [] | [_] | [_, _] | [_, _, _] => simp at hj

theorem words_length (bytes : List Byte) : (words bytes).length = bytes.length / 4 := by
  induction bytes using words.induct with
  | case1 b0 b1 b2 b3 rest ih =>
      simp only [words, List.length_cons, ih]
      omega
  | case2 bytes h =>
      match bytes with
      | b0 :: b1 :: b2 :: b3 :: rest => exact (h _ _ _ _ _ rfl).elim
      | [] | [_] | [_, _] | [_, _, _] => simp [words]

private theorem vector_getElem!_set! {n : Nat} (w : Vector Word n) (i j : Nat) (x : Word)
    (hi : i < n) : (w.set! i x)[j]! = if i = j then x else w[j]! := by
  by_cases hj : j < n
  · simp only [getElem!_pos, hj, Vector.set!_eq_setIfInBounds, Vector.getElem_setIfInBounds]
  · have hne : i ≠ j := by omega
    simp [getElem!_neg, hj, hne]

theorem loadSchedule_getElem (block : Vector Byte 64) (w : Vector Word 64) (n j : Nat)
    (hn : n ≤ 16) :
    ((List.range n).foldl (fun w i => w.set! i (loadBe32 block (i * 4))) w)[j]! =
      if j < n then loadBe32 block (j * 4) else w[j]! := by
  induction n with
  | zero => simp
  | succ n ih =>
      rw [List.range_succ, List.foldl_append, List.foldl_cons, List.foldl_nil,
        vector_getElem!_set! _ _ _ _ (by omega), ih (by omega)]
      by_cases hj : n = j
      · subst hj
        simp
      · have hlt : j < n ↔ j < n + 1 := by omega
        simp [hj, hlt]

theorem expand_getD (W : List Word) (t j : Nat) (hj : j < W.length) :
    (expand W t).getD j 0 = W.getD j 0 := by
  simp [expand, List.getD_eq_getElem?_getD, List.getElem?_append_left hj]

theorem foldl_expand_length (M : List Word) (ts : List Nat) :
    (ts.foldl expand M).length = M.length + ts.length := by
  induction ts generalizing M with
  | nil => rfl
  | cons t ts ih =>
      rw [List.foldl_cons, ih, List.length_cons, expand, List.length_append, List.length_singleton]
      omega

/-- Loop invariant: after `n` rounds the first `16 + n` array cells hold the
first `16 + n` words of the recurrence. -/
theorem expandSchedule_getElem (w : Vector Word 64) (M : List Word) (hM : M.length = 16)
    (hw : ∀ j < 16, w[j]! = M.getD j 0) (n : Nat) (hn : n ≤ 48) (j : Nat) (hj : j < 16 + n) :
    ((List.range' 16 n).foldl
        (fun w i => w.set! i (SMALL1 w[i - 2]! + w[i - 7]! + SMALL0 w[i - 15]! +
          w[i - 16]!)) w)[j]! =
      ((List.range' 16 n).foldl expand M).getD j 0 := by
  induction n generalizing j with
  | zero => exact hw j (by omega)
  | succ n ih =>
      rw [List.range'_concat, List.foldl_append, List.foldl_append, Nat.one_mul]
      simp only [List.foldl_cons, List.foldl_nil]
      rw [vector_getElem!_set! _ _ _ _ (by omega)]
      have hlen := foldl_expand_length M (List.range' 16 n)
      rw [List.length_range', hM] at hlen
      by_cases he : 16 + n = j
      · subst he
        rw [if_pos rfl, ih (by omega) _ (by omega), ih (by omega) _ (by omega),
          ih (by omega) _ (by omega), ih (by omega) _ (by omega)]
        simp only [expand, SMALL1_eq, SMALL0_eq, List.getD_eq_getElem?_getD]
        rw [List.getElem?_append_right (by omega), hlen, Nat.sub_self]
        rfl
      · rw [if_neg he, ih (by omega) j (by omega), expand_getD _ _ _ (by omega)]

theorem schedule_correct (block : Vector Byte 64) (j : Nat) (hj : j < 64) :
    (expandSchedule (loadSchedule block (Vector.replicate 64 0)))[j]! =
      (schedule (words block.toList)).getD j 0 := by
  apply expandSchedule_getElem _ _ _ _ 48 (by omega) j hj
  · simp [words_length]
  · intro i hi
    have hget : ∀ k, k < 64 → block[k]! = block.toList.getD k 0 := by
      intro k hk
      simp [getElem!_pos, hk, List.getD_eq_getElem?_getD]
    rw [loadSchedule, loadSchedule_getElem _ _ 16 i (Nat.le_refl _), if_pos hi,
      words_getD _ _ (by simp; omega), loadBe32_eq, hget _ (by omega), hget _ (by omega),
      hget _ (by omega), hget _ (by omega), Nat.mul_comm]

/-! ## The mixing loop -/

def Locals.chain (v : Locals) : Chain := ⟨v.a, v.b, v.c, v.d, v.e, v.f, v.g, v.h⟩

/-- The chaining value a context holds. -/
def chainOf (s : Vector Word 8) : Chain :=
  ⟨s.get 0, s.get 1, s.get 2, s.get 3, s.get 4, s.get 5, s.get 6, s.get 7⟩

theorem mix_chain (w : Vector Word 64) (W : List Word) (v : Locals) (t : Nat) (ht : t < 64)
    (hw : w[t]! = W.getD t 0) : (mix w v t).chain = Fips180.round W v.chain t := by
  simp only [mix, Locals.chain, Fips180.round, sha256K_eq t ht, hw, BIG0_eq, BIG1_eq]
  rfl

theorem foldl_mix_chain (w : Vector Word 64) (W : List Word) (v : Locals)
    (hw : ∀ t < 64, w[t]! = W.getD t 0) (n : Nat) (hn : n ≤ 64) :
    ((List.range n).foldl (mix w) v).chain = (List.range n).foldl (round W) v.chain := by
  induction n with
  | zero => rfl
  | succ n ih =>
      simp only [List.range_succ, List.foldl_append, List.foldl_cons, List.foldl_nil]
      rw [mix_chain w W _ n (by omega) (hw n (by omega)), ih (by omega)]

/-- One call of `sha256_block` is one application of the compression function. -/
theorem sha256Block_chain (ctx : Sha256Ctx) (block : Vector Byte 64) :
    chainOf (sha256Block ctx block).state = compress (chainOf ctx.state) block.toList := by
  have hmix := foldl_mix_chain _ _
    ⟨ctx.state[0], ctx.state[1], ctx.state[2], ctx.state[3], ctx.state[4], ctx.state[5],
      ctx.state[6], ctx.state[7]⟩ (schedule_correct block) 64 (Nat.le_refl _)
  have hstart : (Locals.mk ctx.state[0] ctx.state[1] ctx.state[2] ctx.state[3] ctx.state[4]
      ctx.state[5] ctx.state[6] ctx.state[7]).chain = chainOf ctx.state := rfl
  rw [hstart] at hmix
  rw [compress, ← hmix]
  rfl

/-- The digest bytes are the chaining words, most significant byte first. -/
theorem digest_bytes (s : Vector Word 8) : s.toList.flatMap storeBe32 = (chainOf s).bytes := by
  obtain ⟨⟨l⟩, hl⟩ := s
  match l, hl with
  | [a, b, c, d, e, f, g, h], _ => rfl

end SecureBoot.Sha256
