import SecureBoot.Sha256.Block

/-!
# The streaming interface computes SHA-256

`Absorbed ctx msg` is the meaning of a context: which message it has seen. The
three interface functions keep it, for every split of the message, and the
digest is the one of the padded message. The padding argument is a case split
on whether the length field still fits the buffered block.
-/

namespace SecureBoot.Sha256

open Words Fips180

/-! ## Buffer stores -/

/-- Stores inside the array succeed and replace exactly their range. -/
theorem putBytes_spec (buffer : Vector Byte 64) (i : Nat) (bs : List Byte)
    (h : i + bs.length ≤ 64) :
    ∃ buffer', putBytes buffer i bs = some buffer' ∧
      buffer'.toList = buffer.toList.take i ++ bs ++ buffer.toList.drop (i + bs.length) := by
  induction bs generalizing buffer i with
  | nil => exact ⟨buffer, rfl, by simp⟩
  | cons b bs ih =>
      simp only [List.length_cons] at h
      have hi : i < 64 := by omega
      obtain ⟨buffer', hput, hlist⟩ := ih (buffer.set i b) (i + 1) (by omega)
      refine ⟨buffer', by simp [putBytes, putByte, hi, hput], ?_⟩
      have htake : (buffer.toList.set i b).take (i + 1) = buffer.toList.take i ++ [b] := by
        rw [List.take_succ_eq_append_getElem (by simpa using hi), List.take_set_of_le (by omega)]
        simp
      have hdrop : (buffer.toList.set i b).drop (i + 1 + bs.length) =
          buffer.toList.drop (i + 1 + bs.length) := List.drop_set_of_lt (by omega)
      rw [hlist, Vector.toList_set, htake, hdrop]
      simp [Nat.add_assoc, Nat.add_comm 1]

/-! ## What a context has absorbed -/

structure Absorbed (ctx : Sha256Ctx) (msg : List Byte) : Prop where
  state : chainOf ctx.state = foldBlocks (msg.length / 64) H0 msg
  bitLen : ctx.bitLen = BitVec.ofNat 64 (512 * (msg.length / 64))
  bufferLen : ctx.bufferLen = BitVec.ofNat 64 (msg.length % 64)
  buffer : ctx.buffer.toList.take (msg.length % 64) = msg.drop (64 * (msg.length / 64))

theorem Absorbed.bufferLen_toNat {ctx : Sha256Ctx} {msg : List Byte} (h : Absorbed ctx msg) :
    ctx.bufferLen.toNat = msg.length % 64 := by
  rw [h.bufferLen, BitVec.toNat_ofNat]
  omega

/-- The chaining value `sha256_init` writes is the square-root fractions. -/
theorem sha256Init_absorbed (ctx : Sha256Ctx) : Absorbed (sha256Init ctx) [] := by
  refine ⟨?_, rfl, rfl, rfl⟩
  have h : chainOf #v[0x6a09e667, 0xbb67ae85, 0x3c6ef372, 0xa54ff53a,
      0x510e527f, 0x9b05688c, 0x1f83d9ab, 0x5be0cd19] = H0 := by decide +kernel
  exact h

/-- A chunk that fits the current block lands behind the bytes already buffered. -/
theorem Absorbed.fill {ctx : Sha256Ctx} {msg : List Byte} (h : Absorbed ctx msg)
    (chunk : List Byte) (hc : msg.length % 64 + chunk.length ≤ 64) :
    ∃ buffer, putBytes ctx.buffer ctx.bufferLen.toNat chunk = some buffer ∧
      buffer.toList.take (msg.length % 64 + chunk.length) =
        (msg ++ chunk).drop (64 * (msg.length / 64)) := by
  obtain ⟨buffer, hput, hlist⟩ := putBytes_spec ctx.buffer (msg.length % 64) chunk hc
  refine ⟨buffer, by rw [h.bufferLen_toNat, hput], ?_⟩
  have hlen : (ctx.buffer.toList.take (msg.length % 64) ++ chunk).length =
      msg.length % 64 + chunk.length := by
    rw [List.length_append, List.length_take, Vector.length_toList]
    omega
  rw [hlist, List.take_append_of_le_length (by omega), ← hlen, List.take_length, h.buffer,
    List.drop_append_of_le_length (by omega)]

/-- A full buffer is the next block of the message. -/
theorem Absorbed.flush {ctx : Sha256Ctx} {msg chunk : List Byte} {buffer : Vector Byte 64}
    (h : Absorbed ctx msg) (hfull : msg.length % 64 + chunk.length = 64)
    (hbuf : buffer.toList.take (msg.length % 64 + chunk.length) =
      (msg ++ chunk).drop (64 * (msg.length / 64))) :
    compress (chainOf ctx.state) buffer.toList =
      foldBlocks (msg.length / 64 + 1) H0 (msg ++ chunk) := by
  have hblock : buffer.toList = (msg ++ chunk).drop (64 * (msg.length / 64)) := by
    rw [← hbuf, hfull, List.take_of_length_le (by simp)]
  have hsplit : msg ++ chunk = msg.take (64 * (msg.length / 64)) ++ buffer.toList := by
    rw [hblock, List.drop_append_of_le_length (by omega), ← List.append_assoc,
      List.take_append_drop]
  rw [hsplit, foldBlocks_succ _ _ _ _ (by rw [List.length_take]; omega) (by simp),
    foldBlocks_take, h.state]

theorem Absorbed.flushed {ctx : Sha256Ctx} {msg chunk : List Byte} {buffer : Vector Byte 64}
    (h : Absorbed ctx msg) (n : DWord) (hfull : msg.length % 64 + chunk.length = 64)
    (hbuf : buffer.toList.take (msg.length % 64 + chunk.length) =
      (msg ++ chunk).drop (64 * (msg.length / 64))) :
    Absorbed
      { sha256Block { ctx with buffer := buffer, bufferLen := n } buffer with
        bitLen := ctx.bitLen + 512, bufferLen := 0 } (msg ++ chunk) := by
  have hlen : (msg ++ chunk).length = msg.length + chunk.length := List.length_append
  have hq : (msg ++ chunk).length / 64 = msg.length / 64 + 1 := by omega
  have hr : (msg ++ chunk).length % 64 = 0 := by omega
  have hbits : ctx.bitLen + 512 = BitVec.ofNat 64 (512 * (msg.length / 64 + 1)) := by
    rw [h.bitLen]
    bv_omega
  refine ⟨?_, by rw [hq]; exact hbits, by rw [hr]; rfl, ?_⟩
  · rw [hq, ← h.flush hfull hbuf]
    exact sha256Block_chain { ctx with buffer := buffer, bufferLen := n } buffer
  · rw [hq, hr, List.take_zero, List.drop_eq_nil_of_le (by omega)]

theorem Absorbed.buffered {ctx : Sha256Ctx} {msg chunk : List Byte} {buffer : Vector Byte 64}
    (h : Absorbed ctx msg) (hroom : msg.length % 64 + chunk.length < 64)
    (hbuf : buffer.toList.take (msg.length % 64 + chunk.length) =
      (msg ++ chunk).drop (64 * (msg.length / 64))) :
    Absorbed
      { ctx with
        buffer := buffer, bufferLen := ctx.bufferLen + BitVec.ofNat 64 chunk.length }
      (msg ++ chunk) := by
  have hlen : (msg ++ chunk).length = msg.length + chunk.length := List.length_append
  have hq : (msg ++ chunk).length / 64 = msg.length / 64 := by omega
  have hr : (msg ++ chunk).length % 64 = msg.length % 64 + chunk.length := by omega
  refine ⟨?_, by rw [hq]; exact h.bitLen, ?_, by rw [hq, hr]; exact hbuf⟩
  · rw [hq, foldBlocks_append _ _ _ _ (by omega)]
    exact h.state
  · rw [hr]
    show ctx.bufferLen + _ = _
    rw [h.bufferLen]
    bv_omega

/-- `sha256_update` appends to what has been absorbed, whatever the length. -/
theorem sha256Update_absorbed (ctx : Sha256Ctx) (msg data : List Byte) (h : Absorbed ctx msg) :
    ∃ ctx', sha256Update ctx data = some ctx' ∧ Absorbed ctx' (msg ++ data) := by
  generalize hn : data.length = n
  induction n using Nat.strongRecOn generalizing ctx msg data with
  | ind n ih =>
      rw [sha256Update]
      by_cases hd : data = []
      · exact ⟨ctx, by simp [hd], by simpa [hd] using h⟩
      have hpos : 0 < data.length := List.length_pos_iff.mpr hd
      have hlen := h.bufferLen_toNat
      have hspace : (64 - ctx.bufferLen).toNat = 64 - msg.length % 64 := by bv_omega
      rw [dif_neg hd]
      simp only [hspace]
      generalize htake : min data.length (64 - msg.length % 64) = take
      have hchunk : (data.take take).length = take := by rw [List.length_take]; omega
      have hrest : (data.drop take).length < n := by rw [List.length_drop]; omega
      have hmsg : msg ++ data.take take ++ data.drop take = msg ++ data := by
        rw [List.append_assoc, List.take_append_drop]
      obtain ⟨buffer, hput, hbuf⟩ := h.fill (data.take take) (by omega)
      simp only [hput, Option.bind_eq_bind, Option.bind_some]
      by_cases hfull : msg.length % 64 + take = 64
      · rw [dif_pos (by bv_omega), ← hmsg]
        exact ih _ hrest _ _ _ (h.flushed _ (by omega) hbuf) rfl
      · rw [dif_neg (by bv_omega), ← hmsg]
        have hb := h.buffered (by omega) hbuf
        rw [hchunk] at hb
        exact ih _ hrest _ _ _ hb rfl

/-! ## Padding -/

/-- The block `sha256_final` ends with, once its first bytes are known. -/
theorem lastBlock (buffer : Vector Byte 64) (front : List Byte) (bits : DWord)
    (hf : front.length ≤ 56) (hbuf : buffer.toList.take front.length = front) :
    ∃ zeros full, padZeros buffer front.length 56 = some zeros ∧
      putBytes zeros 56 ((List.range 8).map fun j => byteAt bits (7 - j)) = some full ∧
      full.toList = front ++ List.replicate (56 - front.length) 0 ++
        ((List.range 8).map fun j => byteAt bits (7 - j)) := by
  obtain ⟨zeros, hz, hzl⟩ := putBytes_spec buffer front.length
    (List.replicate (56 - front.length) 0) (by rw [List.length_replicate]; omega)
  obtain ⟨full, hp, hpl⟩ := putBytes_spec zeros 56
    ((List.range 8).map fun j => byteAt bits (7 - j)) (by simp)
  refine ⟨zeros, full, hz, hp, ?_⟩
  have hfront : zeros.toList.take 56 = front ++ List.replicate (56 - front.length) 0 := by
    rw [hzl, hbuf, List.take_append_of_le_length (by simp; omega), List.take_of_length_le]
    simp
    omega
  rw [hpl, hfront, List.drop_eq_nil_of_le (by simp), List.append_nil]

/-- The marker byte goes behind the buffered tail of the message. -/
theorem Absorbed.marker {ctx : Sha256Ctx} {msg : List Byte} (h : Absorbed ctx msg) :
    ∃ buffer, putByte ctx.buffer ctx.bufferLen.toNat 0x80 = some buffer ∧
      buffer.toList.take (msg.length % 64 + 1) =
        msg.drop (64 * (msg.length / 64)) ++ [0x80] := by
  obtain ⟨buffer, hput, hbuf⟩ := h.fill [0x80] (by
    rw [List.length_singleton]
    omega)
  refine ⟨buffer, ?_, ?_⟩
  · simpa [putBytes] using hput
  · rw [← List.drop_append_of_le_length (by omega)]
    simpa using hbuf

theorem Absorbed.totalBits {ctx : Sha256Ctx} {msg : List Byte} (h : Absorbed ctx msg) :
    ctx.bitLen + ctx.bufferLen * 8 = BitVec.ofNat 64 (8 * msg.length) := by
  rw [h.bitLen, h.bufferLen]
  bv_omega

/-! ## The digest -/

/-- The context of a finished hash. -/
structure Spent (ctx : Sha256Ctx) (msg : List Byte) : Prop where
  state : ctx.state.toList.flatMap storeBe32 = Fips180.sha256 msg
  bitLen : ctx.bitLen = BitVec.ofNat 64 (512 * (msg.length / 64))
  buffer : ctx.buffer.toList = Fips180.lastBlock msg
  bufferLen : ctx.bufferLen = BitVec.ofNat 64 (msg.length % 64)

/-- Not by `rfl`, so that no check unfolds the stores on either side. -/
theorem bind_of_some {α β : Type} {x : Option α} {a : α} (h : x = some a)
    (f : α → Option β) : (x >>= f) = f a := by
  rw [h]
  rfl

theorem sha256Final_eq {ctx ctx' : Sha256Ctx} {marked closed zeros full : Vector Byte 64}
    {i : Nat} (hmark : putByte ctx.buffer ctx.bufferLen.toNat 0x80 = some marked)
    (hclose : closeBlock ctx marked (ctx.bufferLen.toNat + 1) = some (ctx', closed, i))
    (hzeros : padZeros closed i 56 = some zeros)
    (hfull : putBytes zeros 56 ((List.range 8).map fun j =>
      byteAt (ctx.bitLen + ctx.bufferLen * 8) (7 - j)) = some full) :
    sha256Final ctx = some (sha256Block { ctx' with buffer := full } full,
      (compress (chainOf ctx'.state) full.toList).bytes) := by
  have hchain : chainOf (sha256Block { ctx' with buffer := full } full).state =
      compress (chainOf ctx'.state) full.toList :=
    sha256Block_chain { ctx' with buffer := full } full
  simp only [sha256Final]
  rw [bind_of_some hmark, bind_of_some hclose, bind_of_some hzeros, bind_of_some hfull,
    ← hchain, ← digest_bytes]
  rfl

theorem Absorbed.final_oneBlock {ctx : Sha256Ctx} {msg : List Byte} (h : Absorbed ctx msg)
    (hr : msg.length % 64 < 56) :
    ∃ ctx', sha256Final ctx = some (ctx', Fips180.sha256 msg) ∧ Spent ctx' msg := by
  obtain ⟨buffer, hmark, hfront⟩ := h.marker
  have hflen : (msg.drop (64 * (msg.length / 64)) ++ [(0x80 : Byte)]).length =
      ctx.bufferLen.toNat + 1 := by
    rw [List.length_append, List.length_drop, List.length_singleton, h.bufferLen_toNat]
    omega
  have hclose : closeBlock ctx buffer (ctx.bufferLen.toNat + 1) =
      some (ctx, buffer, ctx.bufferLen.toNat + 1) := by
    rw [closeBlock, if_neg (by rw [h.bufferLen_toNat]; omega)]
    rfl
  obtain ⟨zeros, full, hz, hp, hfull⟩ :=
    lastBlock buffer (msg.drop (64 * (msg.length / 64)) ++ [0x80])
      (ctx.bitLen + ctx.bufferLen * 8) (by rw [hflen, h.bufferLen_toNat]; omega)
      (by rw [hflen, h.bufferLen_toNat, hfront])
  have hlast : full.toList = Fips180.lastBlock msg := by
    rw [lastBlock_oneBlock msg hr, hfull, hflen, h.bufferLen_toNat, h.totalBits, lengthBytes,
      show 56 - (msg.length % 64 + 1) = 55 - msg.length % 64 by omega]
  have hsha : (compress (chainOf ctx.state) full.toList).bytes = Fips180.sha256 msg := by
    rw [h.state, sha256_oneBlock msg full.toList hr (hlast.trans (lastBlock_oneBlock msg hr))]
  rw [hflen] at hz
  refine ⟨_, by rw [sha256Final_eq hmark hclose hz hp, hsha], ?_, ?_, ?_, ?_⟩
  · rw [digest_bytes, sha256Block_chain, hsha]
  · exact h.bitLen
  · exact hlast
  · exact h.bufferLen

theorem Absorbed.final_twoBlocks {ctx : Sha256Ctx} {msg : List Byte} (h : Absorbed ctx msg)
    (hr : 56 ≤ msg.length % 64) :
    ∃ ctx', sha256Final ctx = some (ctx', Fips180.sha256 msg) ∧ Spent ctx' msg := by
  obtain ⟨buffer, hmark, hfront⟩ := h.marker
  obtain ⟨first, hput, hfirst⟩ := putBytes_spec buffer (msg.length % 64 + 1)
    (List.replicate (64 - (msg.length % 64 + 1)) 0) (by rw [List.length_replicate]; omega)
  have hclose : closeBlock ctx buffer (ctx.bufferLen.toNat + 1) =
      some (sha256Block ctx first, first, 0) := by
    rw [closeBlock, if_pos (by rw [h.bufferLen_toNat]; omega), h.bufferLen_toNat, padZeros,
      bind_of_some hput]
    rfl
  obtain ⟨zeros, last, hz, hp, hlast⟩ :=
    lastBlock first [] (ctx.bitLen + ctx.bufferLen * 8) (by simp) rfl
  have hnil : buffer.toList.drop (msg.length % 64 + 1 +
      (List.replicate (64 - (msg.length % 64 + 1)) (0 : Byte)).length) = [] :=
    List.drop_eq_nil_of_le (by simp; omega)
  have hlast' : last.toList = Fips180.lastBlock msg := by
    rw [lastBlock_twoBlocks msg hr, hlast, h.totalBits, lengthBytes]
    rfl
  have hsha : (compress (chainOf (sha256Block ctx first).state) last.toList).bytes =
      Fips180.sha256 msg := by
    rw [sha256Block_chain, h.state, sha256_twoBlocks msg first.toList last.toList hr
      (by
        rw [hfirst, hfront, hnil, List.append_nil,
          show 64 - (msg.length % 64 + 1) = 63 - msg.length % 64 by omega])
      (hlast'.trans (lastBlock_twoBlocks msg hr))]
  refine ⟨_, by rw [sha256Final_eq hmark hclose hz hp, hsha], ?_, ?_, ?_, ?_⟩
  · rw [digest_bytes, sha256Block_chain, hsha]
  · exact h.bitLen
  · exact hlast'
  · exact h.bufferLen

theorem sha256Final_spent (ctx : Sha256Ctx) (msg : List Byte) (h : Absorbed ctx msg) :
    ∃ ctx', sha256Final ctx = some (ctx', Fips180.sha256 msg) ∧ Spent ctx' msg := by
  by_cases hr : msg.length % 64 < 56
  · exact h.final_oneBlock hr
  · exact h.final_twoBlocks (by omega)

/-- `sha256_final` stores inside the buffer and delivers the digest of what was absorbed. -/
theorem sha256Final_absorbed (ctx : Sha256Ctx) (msg : List Byte) (h : Absorbed ctx msg) :
    ∃ ctx', sha256Final ctx = some (ctx', Fips180.sha256 msg) := by
  obtain ⟨ctx', hfinal, _⟩ := sha256Final_spent ctx msg h
  exact ⟨ctx', hfinal⟩

/-! ## Every chunking -/

/-- Consecutive `sha256_update` calls. -/
def sha256UpdateAll (ctx : Sha256Ctx) (chunks : List (List Byte)) : Option Sha256Ctx :=
  chunks.foldlM sha256Update ctx

theorem sha256UpdateAll_absorbed (ctx : Sha256Ctx) (msg : List Byte) (chunks : List (List Byte))
    (h : Absorbed ctx msg) :
    ∃ ctx', sha256UpdateAll ctx chunks = some ctx' ∧ Absorbed ctx' (msg ++ chunks.flatten) := by
  induction chunks generalizing ctx msg with
  | nil => exact ⟨ctx, rfl, by simpa using h⟩
  | cons chunk chunks ih =>
      obtain ⟨ctx₁, h₁, habs₁⟩ := sha256Update_absorbed ctx msg chunk h
      obtain ⟨ctx', h', habs'⟩ := ih ctx₁ _ habs₁
      refine ⟨ctx', ?_, by simpa using habs'⟩
      rw [sha256UpdateAll, List.foldlM_cons, h₁]
      exact h'

/-- What the automatic object of `sha256_hash` held before does not show in it afterwards. -/
theorem sha256Hash_spent (ctx : Sha256Ctx) (data : List Byte) :
    ∃ ctx', sha256Hash ctx data = some (ctx', Fips180.sha256 data) ∧ Spent ctx' data := by
  obtain ⟨ctx₁, h₁, habs₁⟩ := sha256Update_absorbed _ [] data (sha256Init_absorbed ctx)
  obtain ⟨ctx', h', hspent⟩ := sha256Final_spent ctx₁ _ habs₁
  rw [List.nil_append] at h' hspent
  exact ⟨ctx', by rw [sha256Hash, bind_of_some h₁, h'], hspent⟩

theorem sha256Hash_digest (ctx : Sha256Ctx) (data : List Byte) :
    ∃ ctx', sha256Hash ctx data = some (ctx', Fips180.sha256 data) := by
  obtain ⟨ctx', h', _⟩ := sha256Hash_spent ctx data
  exact ⟨ctx', h'⟩

/-- The streaming interface computes FIPS 180-4 for every chunking and every message, whatever
the uninitialised context held. From `2 ^ 61` bytes on both sides reduce the length field
modulo `2 ^ 64`. -/
theorem sha256_streaming_correct (ctx : Sha256Ctx) :
    (∀ chunks : List (List Byte),
      ((sha256UpdateAll (sha256Init ctx) chunks).bind sha256Final).map Prod.snd =
        some (Fips180.sha256 chunks.flatten)) ∧
    ∀ data : List Byte, (sha256Hash ctx data).map Prod.snd = some (Fips180.sha256 data) := by
  refine ⟨fun chunks => ?_, fun data => ?_⟩
  · obtain ⟨ctx₁, h₁, habs₁⟩ := sha256UpdateAll_absorbed _ [] chunks (sha256Init_absorbed ctx)
    obtain ⟨ctx', h'⟩ := sha256Final_absorbed ctx₁ _ habs₁
    rw [h₁, Option.bind_some, h']
    rfl
  · obtain ⟨ctx', h'⟩ := sha256Hash_digest ctx data
    rw [h']
    rfl

end SecureBoot.Sha256
