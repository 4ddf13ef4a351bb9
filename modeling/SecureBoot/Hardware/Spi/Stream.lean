import SecureBoot.Hardware.Spi.Flow

/-!
# The data stream of the register block

No word is lost or repeated on its way from the flash to the DATA register,
whatever the bus does while a transaction runs.
-/

namespace SecureBoot.Spi

open Words

/-! ## Packing -/

/-- What a transaction of `n` bytes from `address` on delivers: little-endian words, the last
one padded with zeros. -/
def pack (f : Storage) (address : BitVec 24) (n : Nat) : List Word :=
  leWords ((List.range n).map (f.byte address) ++ List.replicate (4 * wordCount n - n) 0)

theorem leWords_concat (bs : List Byte) (b0 b1 b2 b3 : Byte) (h : bs.length % 4 = 0) :
    leWords (bs ++ [b0, b1, b2, b3]) = leWords bs ++ [leWord b0 b1 b2 b3] := by
  induction bs using leWords.induct with
  | case1 c0 c1 c2 c3 rest ih =>
      simp only [List.length_cons] at h
      exact congrArg (leWord c0 c1 c2 c3 :: ·) (ih (by omega))
  | case2 bs hshort =>
      rw [eq_nil_of_incomplete h hshort]
      rfl

theorem leWords_range (g : Nat → Byte) (count : Nat) :
    leWords ((List.range (4 * count)).map g) = (List.range count).map fun i =>
      leWord (g (4 * i)) (g (4 * i + 1)) (g (4 * i + 2)) (g (4 * i + 3)) := by
  induction count with
  | zero => rfl
  | succ count ih =>
      have hbytes : (List.range (4 * (count + 1))).map g = (List.range (4 * count)).map g ++
          [g (4 * count), g (4 * count + 1), g (4 * count + 2), g (4 * count + 3)] := by
        rw [Nat.mul_succ, List.range_add, List.map_append]
        rfl
      rw [hbytes, leWords_concat _ _ _ _ _ (by simp), ih, List.range_succ, List.map_append]
      rfl

theorem padded_range (g : Nat → Byte) (n k : Nat) :
    (List.range n).map g ++ List.replicate k 0 =
      (List.range (n + k)).map fun i => if i < n then g i else 0 := by
  have hleft : (List.range n).map g = (List.range n).map fun i => if i < n then g i else 0 := by
    apply List.map_congr_left
    intro i hi
    rw [if_pos (List.mem_range.mp hi)]
  have hright : List.replicate k (0 : Byte) =
      (List.range k).map fun i => if n + i < n then g (n + i) else 0 := by
    symm
    apply List.eq_replicate_iff.mpr
    refine ⟨by simp, fun w hw => ?_⟩
    rcases List.mem_map.mp hw with ⟨i, _, hi⟩
    rw [if_neg (by omega)] at hi
    exact hi.symm
  rw [List.range_add, List.map_append, hleft, hright, List.map_map]
  rfl

theorem byte_packedWord (f : Storage) (address : BitVec 24) (n i j : Nat) (hj : j < 4) :
    byteAt (packedWord f address n i) j =
      if 4 * i + j < n then f.byte address (4 * i + j) else 0 := by
  rw [packedWord, byteAt_partialWord f address _ _ j hj]
  by_cases h : 4 * i + j < n
  · rw [if_pos h, if_pos (by omega)]
  · rw [if_neg h, if_neg (by omega)]

/-- The words that the master emits are the packed words. -/
theorem pack_eq (f : Storage) (address : BitVec 24) (n : Nat) :
    pack f address n = (List.range (wordCount n)).map (packedWord f address n) := by
  have hlength : n + (4 * wordCount n - n) = 4 * wordCount n := by
    unfold wordCount
    omega
  rw [pack, padded_range, hlength, leWords_range]
  apply List.map_congr_left
  intro i _
  have h0 := byte_packedWord f address n i 0 (by omega)
  have h1 := byte_packedWord f address n i 1 (by omega)
  have h2 := byte_packedWord f address n i 2 (by omega)
  have h3 := byte_packedWord f address n i 3 (by omega)
  rw [← leWord_byteAt (packedWord f address n i), h0, h1, h2, h3]
  rfl

namespace Block

variable {f : Storage} {b : Block}

/-! ## Words read and transactions begun -/

/-- What a bus access reads from DATA; with an empty FIFO it is not accepted. -/
def dataRead (b : Block) : Access → List Word
  | .data => b.fifo.take 1
  | _ => []

/-- The words that software reads, in order. -/
def dataReads (f : Storage) (b : Block) : List Access → List Word
  | [] => []
  | a :: later => b.dataRead a ++ dataReads f (b.step f a) later

/-- The transactions that the master begins, in order: ADDR modulo 2^24 and LEN of that cycle. -/
def transactions (f : Storage) (b : Block) : List Access → List (BitVec 24 × Nat)
  | [] => []
  | a :: later => (b.begun a).toList ++ transactions f (b.step f a) later

/-- What a list of transactions delivers. -/
def delivered (f : Storage) (ts : List (BitVec 24 × Nat)) : List Word :=
  ts.flatMap fun t => pack f t.1 t.2

/-! ## Conservation -/

/-- The words of the transaction under way that are not yet in the FIFO. -/
def Owes (f : Storage) (b : Block) (ws : List Word) : Prop :=
  (b.Rests ∧ ws = []) ∨
    ∃ address n ph, b.InPhase f address n ph ∧ ws = (pack f address n).drop ph.words

theorem dataRead_append (b : Block) (a : Access) :
    b.fifo = b.dataRead a ++ (if a = .data then b.fifo.tail else b.fifo) := by
  cases a with
  | data =>
      cases hfifo : b.fifo with
      | nil => simp [dataRead, hfifo]
      | cons w ws => simp [dataRead, hfifo]
  | idle => rfl
  | addr value => rfl
  | len value => rfl
  | command value => rfl

/-- The word on offer is the next one of the transaction. -/
theorem InPhase.drop_words {address : BitVec 24} {n : Nat} {ph : Phase}
    (h : b.InPhase f address n ph) (hoffers : ph.offers = true) :
    (pack f address n).drop ph.words =
      b.master.emitWord :: (pack f address n).drop (ph.words + 1) := by
  have hlt := Phase.words_lt n ph h.positive h.valid
  have hlength : ph.words < (pack f address n).length := by
    rw [pack_eq]
    simpa using hlt
  rw [List.drop_eq_getElem_cons hlength, h.emitWord hoffers]
  simp [pack_eq]

theorem InPhase.step_owes {address : BitVec 24} {n : Nat} {ph : Phase}
    (h : b.InPhase f address n ph) (a : Access) :
    ∃ ws, Owes f (b.step f a) ws ∧ (pack f address n).drop ph.words =
      (if b.master.dataValid && b.enqReady then [b.master.emitWord] else []) ++ ws := by
  by_cases hlast : b.handsOverLast
  · have hfinal := h.handsOverLast_iff.mp hlast
    have hvalid : b.master.dataValid = true := by simp [Master.dataValid, hlast.1]
    have hoffers : ph.offers = true := by rw [← h.dataValid, hvalid]
    have hend : (pack f address n).drop (ph.words + 1) = [] := by
      rw [Phase.words_last n ph h.positive hfinal.1, pack_eq]
      simp
    refine ⟨[], .inl ⟨(h.finish a hlast).1, rfl⟩, ?_⟩
    rw [h.drop_words hoffers, hend, hvalid, hfinal.2]
    rfl
  · have hnot : ¬ (ph.Last n ∧ b.enqReady = true) := fun hl => hlast (h.handsOverLast_iff.mpr hl)
    have hwords := Phase.words_next n ph b.enqReady h.valid hnot
    refine ⟨_, .inr ⟨address, n, _, h.step a hlast, rfl⟩, ?_⟩
    rw [hwords, h.dataValid]
    cases hsends : ph.offers && b.enqReady with
    | false => simp
    | true => simpa using h.drop_words (Bool.and_eq_true_iff.mp hsends).1

/-- Every word that is there or about to come, or whose transaction begins in this cycle, is read
now or stays. -/
theorem Owes.step {ws : List Word} (h : Owes f b ws) (a : Access) :
    ∃ ws', Owes f (b.step f a) ws' ∧
      b.fifo ++ ws ++ delivered f (b.begun a).toList =
        b.dataRead a ++ ((b.step f a).fifo ++ ws') := by
  rcases h with ⟨hrests, hws⟩ | ⟨address, n, ph, hphase, hws⟩
  · have hfifo : b.dataRead a ++ (b.step f a).fifo = b.fifo := by
      rw [step_fifo, hrests.dataValid, Bool.false_and]
      simpa using (dataRead_append b a).symm
    rcases hrests.step (f := f) a with ⟨hnone, hr⟩ | ⟨address, n, hsome, hp⟩
    · refine ⟨[], .inl ⟨hr, rfl⟩, ?_⟩
      rw [hws, hnone, ← List.append_assoc, hfifo]
      simp [delivered]
    · refine ⟨pack f address n, .inr ⟨address, n, _, hp, rfl⟩, ?_⟩
      rw [hws, hsome, ← List.append_assoc, hfifo]
      simp [delivered]
  · rcases hphase.step_owes a with ⟨ws', howes, hsplit⟩
    refine ⟨ws', howes, ?_⟩
    have hfifo : b.dataRead a ++ (b.step f a).fifo = b.fifo ++
        (if b.master.dataValid && b.enqReady then [b.master.emitWord] else []) := by
      rw [step_fifo, ← List.append_assoc, ← dataRead_append b a]
    rw [begun_of_busy hphase.busy a, hws, hsplit, ← List.append_assoc, ← List.append_assoc, hfifo]
    simp [delivered]

theorem Owes.run {ws : List Word} (h : Owes f b ws) (accesses : List Access) :
    ∃ ws', Owes f (run f b accesses) ws' ∧
      b.fifo ++ ws ++ delivered f (transactions f b accesses) =
        dataReads f b accesses ++ ((run f b accesses).fifo ++ ws') := by
  induction accesses generalizing b ws with
  | nil => exact ⟨ws, h, by simp [delivered, transactions, dataReads, Block.run]⟩
  | cons a later ih =>
      rcases h.step a with ⟨ws₁, h₁, hnow⟩
      rcases ih h₁ with ⟨ws', h', hlater⟩
      refine ⟨ws', h', ?_⟩
      have hsplit : delivered f (transactions f b (a :: later)) =
          delivered f (b.begun a).toList ++ delivered f (transactions f (b.step f a) later) :=
        List.flatMap_append
      rw [hsplit, ← List.append_assoc, hnow, List.append_assoc, hlater, dataReads,
        List.append_assoc]
      rfl

/-- Back-pressure neither loses nor repeats a word: what software has read since reset is a prefix
of what the transactions begun since reset deliver. -/
theorem dataReads_prefix (f : Storage) (accesses : List Access) :
    dataReads f reset accesses <+: delivered f (transactions f reset accesses) := by
  have howes : Owes f reset [] := .inl ⟨⟨rfl, rfl, rfl, .inl ⟨rfl, rfl⟩⟩, rfl⟩
  rcases howes.run accesses with ⟨ws, _, hrun⟩
  exact ⟨_, hrun.symm⟩

end Block

end SecureBoot.Spi
