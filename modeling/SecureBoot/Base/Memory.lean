import SecureBoot.Base.Words

/-!
# Byte memory

Memory is a function from addresses, natural numbers, to bytes; ranges are read and written as
byte lists. Frame facts are stated with `ChangedOnly`.
-/

namespace SecureBoot

abbrev Memory := Nat → Byte

namespace Memory

def store (m : Memory) (a : Nat) (b : Byte) : Memory := fun x => if x = a then b else m x

def write (m : Memory) (a : Nat) (bs : List Byte) : Memory := fun x =>
  if a ≤ x ∧ x < a + bs.length then bs.getD (x - a) 0 else m x

def read (m : Memory) (a : Nat) (n : Nat) : List Byte := (List.range n).map fun i => m (a + i)

@[simp] theorem read_length (m : Memory) (a : Nat) (n : Nat) : (m.read a n).length = n := by
  simp [read]

@[simp] theorem read_zero (m : Memory) (a : Nat) : m.read a 0 = [] := rfl

theorem read_one (m : Memory) (a : Nat) : m.read a 1 = [m a] := rfl

theorem read_getD (m : Memory) (a : Nat) (n i : Nat) (hi : i < n) :
    (m.read a n).getD i 0 = m (a + i) := by
  simp [read, List.getD_eq_getElem?_getD, hi]

theorem read_succ (m : Memory) (a : Nat) (n : Nat) :
    m.read a (n + 1) = m a :: m.read (a + 1) n := by
  simp only [read, List.range_succ_eq_map, List.map_cons, List.map_map, Nat.add_zero]
  congr 1
  apply List.map_congr_left
  intro i _
  simp only [Function.comp]
  congr 1
  omega

theorem read_add (m : Memory) (a : Nat) (n k : Nat) :
    m.read a (n + k) = m.read a n ++ m.read (a + n) k := by
  induction n generalizing a with
  | zero => simp
  | succ n ih =>
      rw [Nat.succ_add, read_succ, read_succ, ih, List.cons_append]
      congr 3
      omega

theorem take_read (m : Memory) (a n k : Nat) : (m.read a k).take n = m.read a (min n k) := by
  rw [read, ← List.map_take, List.take_range]
  rfl

/-- A range word by word; the last word may be partial. -/
theorem read_split (m : Memory) (a n : Nat) :
    m.read a n = m.read a (min n 4) ++ m.read (a + 4) (n - 4) := by
  by_cases h : n ≤ 4
  · rw [Nat.min_eq_left h, Nat.sub_eq_zero_of_le h, read_zero, List.append_nil]
  · have hsplit := read_add m a 4 (n - 4)
    rw [show 4 + (n - 4) = n by omega] at hsplit
    rw [hsplit, Nat.min_eq_right (by omega)]

theorem read_congr {m m' : Memory} {a : Nat} {n : Nat} (h : ∀ i < n, m (a + i) = m' (a + i)) :
    m.read a n = m'.read a n := by
  apply List.map_congr_left
  intro i hi
  exact h i (List.mem_range.mp hi)

/-- A little-endian 32-bit field. -/
def word (m : Memory) (a : Nat) : Word := Words.leWord (m a) (m (a + 1)) (m (a + 2)) (m (a + 3))

def half (m : Memory) (a : Nat) : BitVec 16 := m (a + 1) ++ m a

theorem leBytes_word (m : Memory) (a : Nat) : Words.leBytes (m.word a) = m.read a 4 :=
  Words.leBytes_leWord _ _ _ _

/-! ## Writes -/

@[simp] theorem write_nil (m : Memory) (a : Nat) : m.write a [] = m := by
  funext x
  rw [write, if_neg (by rw [List.length_nil]; omega)]

theorem write_apply_of_outside (m : Memory) (a : Nat) (bs : List Byte) (x : Nat)
    (h : x < a ∨ a + bs.length ≤ x) : m.write a bs x = m x := by
  rw [write, if_neg (by omega)]

theorem write_apply_of_inside (m : Memory) (a : Nat) (bs : List Byte) (x : Nat)
    (ha : a ≤ x) (hx : x < a + bs.length) : m.write a bs x = bs.getD (x - a) 0 := by
  rw [write, if_pos ⟨ha, hx⟩]

theorem write_cons (m : Memory) (a : Nat) (b : Byte) (bs : List Byte) :
    m.write a (b :: bs) = (m.store a b).write (a + 1) bs := by
  funext x
  simp only [write, store, List.length_cons]
  by_cases hx : x = a
  · subst hx
    rw [if_pos (by omega), if_neg (by omega), if_pos rfl, Nat.sub_self]
    rfl
  · by_cases hin : a + 1 ≤ x ∧ x < a + 1 + bs.length
    · have hidx : x - a = x - (a + 1) + 1 := by omega
      rw [if_pos (by omega), if_pos hin, hidx, List.getD_cons_succ]
    · rw [if_neg (by omega), if_neg hin, if_neg hx]

theorem store_eq_write (m : Memory) (a : Nat) (b : Byte) : m.store a b = m.write a [b] := by
  rw [write_cons, write_nil]

theorem write_append (m : Memory) (a : Nat) (bs cs : List Byte) :
    m.write a (bs ++ cs) = (m.write a bs).write (a + bs.length) cs := by
  induction bs generalizing m a with
  | nil => simp
  | cons b bs ih =>
      rw [List.cons_append, write_cons, ih, write_cons, List.length_cons]
      congr 1
      omega

@[simp] theorem read_write_same (m : Memory) (a : Nat) (bs : List Byte) :
    (m.write a bs).read a bs.length = bs := by
  apply List.ext_getElem (by simp)
  intro i hi hi'
  have hw := write_apply_of_inside m a bs (a + i) (by omega) (by omega)
  simp only [read, List.getElem_map, List.getElem_range, hw]
  rw [show a + i - a = i by omega, List.getD_eq_getElem?_getD, List.getElem?_eq_getElem hi']
  rfl

theorem read_write_same_of_length (m : Memory) (a : Nat) (bs : List Byte) (n : Nat)
    (h : bs.length = n) : (m.write a bs).read a n = bs := by
  rw [← h, read_write_same]

theorem read_write_disjoint (m : Memory) (a b : Nat) (n : Nat) (bs : List Byte)
    (h : a + n ≤ b ∨ b + bs.length ≤ a) : (m.write b bs).read a n = m.read a n := by
  apply read_congr
  intro i hi
  exact write_apply_of_outside m b bs (a + i) (by omega)

theorem read_write_slice (m : Memory) (a k n : Nat) (bs : List Byte) (h : k + n ≤ bs.length) :
    (m.write a bs).read (a + k) n = (bs.drop k).take n := by
  apply List.ext_getElem
  · rw [read_length, List.length_take, List.length_drop]
    omega
  · intro i hi hi'
    rw [read_length] at hi
    have hw := write_apply_of_inside m a bs (a + k + i) (by omega) (by omega)
    simp only [read, List.getElem_map, List.getElem_range, List.getElem_take, List.getElem_drop, hw]
    rw [show a + k + i - a = k + i by omega, List.getD_eq_getElem?_getD,
      List.getElem?_eq_getElem (by omega)]
    rfl

/-! ## Frames -/

/-- Outside `S` the two memories agree. -/
def ChangedOnly (S : Nat → Prop) (m m' : Memory) : Prop := ∀ x, ¬ S x → m' x = m x

theorem ChangedOnly.refl (S : Nat → Prop) (m : Memory) : ChangedOnly S m m := fun _ _ => rfl

theorem ChangedOnly.trans {S : Nat → Prop} {m₁ m₂ m₃ : Memory} (h₁ : ChangedOnly S m₁ m₂)
    (h₂ : ChangedOnly S m₂ m₃) : ChangedOnly S m₁ m₃ := by
  intro x hx
  rw [h₂ x hx, h₁ x hx]

theorem ChangedOnly.mono {S T : Nat → Prop} {m m' : Memory} (h : ChangedOnly S m m')
    (hST : ∀ x, S x → T x) : ChangedOnly T m m' :=
  fun x hx => h x fun hs => hx (hST x hs)

theorem ChangedOnly.read_eq {S : Nat → Prop} {m m' : Memory} (h : ChangedOnly S m m')
    {a : Nat} {n : Nat} (hout : ∀ x, a ≤ x → x < a + n → ¬ S x) :
    m'.read a n = m.read a n :=
  read_congr fun i hi => h (a + i) (hout (a + i) (by omega) (by omega))

theorem write_changedOnly (m : Memory) (a : Nat) (bs : List Byte) {S : Nat → Prop}
    (h : ∀ x, a ≤ x → x < a + bs.length → S x) : ChangedOnly S m (m.write a bs) := by
  intro x hx
  apply write_apply_of_outside
  by_cases hin : a ≤ x ∧ x < a + bs.length
  · exact absurd (h x hin.1 hin.2) hx
  · omega

end Memory

end SecureBoot
