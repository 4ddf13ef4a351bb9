import SecureBoot.Base.Traced
import SecureBoot.Sha256.Stream

/-!
# Stores and rounds of the streaming interface

The loops of `sha256.c` with a record of the buffer indices they write and of
what each round of `sha256_update` consumes. The invariant of a context in use is
`buffer_len < 64`; it is broken and restored within one round.
-/

namespace SecureBoot.Sha256

/-! ## The functions with their trace -/

inductive Event where
  /-- One round of the `while` loop in `sha256_update`. -/
  | round (take : Nat)
  /-- A store to `ctx->buffer[i]`. -/
  | store (i : Nat)
  /-- A call of `sha256_block`. -/
  | block
deriving DecidableEq, Repr

/-- A round consumes a byte, a store is inside the array. -/
def Event.Safe : Event → Prop
  | .round take => 0 < take
  | .store i => i < 64
  | .block => True

/-- The blocks processed. -/
def blocks (events : List Event) : Nat := events.count .block

namespace Traced

def putByte (buffer : Vector Byte 64) (i : Nat) (b : Byte) : Traced Event (Vector Byte 64) :=
  ⟨[.store i], Sha256.putByte buffer i b⟩

def putBytes (buffer : Vector Byte 64) (i : Nat) : List Byte → Traced Event (Vector Byte 64)
  | [] => pure buffer
  | b :: bs => do
      let buffer ← putByte buffer i b
      putBytes buffer (i + 1) bs

def sha256Block (ctx : Sha256Ctx) (block : Vector Byte 64) : Traced Event Sha256Ctx := do
  Traced.emit .block
  pure (Sha256.sha256Block ctx block)

/-- The body of the loop: the context and the data that is left. -/
def updateRound (ctx : Sha256Ctx) (data : List Byte) : Traced Event (Sha256Ctx × List Byte) := do
  let space := (64 - ctx.bufferLen).toNat
  let take := min data.length space
  Traced.emit (.round take)
  let buffer ← putBytes ctx.buffer ctx.bufferLen.toNat (data.take take)
  let ctx := { ctx with buffer := buffer, bufferLen := ctx.bufferLen + BitVec.ofNat 64 take }
  if ctx.bufferLen = 64 then
    let flushed ← sha256Block ctx ctx.buffer
    pure ({ flushed with bitLen := flushed.bitLen + 512, bufferLen := 0 }, data.drop take)
  else
    pure (ctx, data.drop take)

/-- At most `fuel` rounds. -/
def sha256Update : Nat → Sha256Ctx → List Byte → Traced Event Sha256Ctx
  | _, ctx, [] => pure ctx
  | 0, _, _ :: _ => ⟨[], none⟩
  | fuel + 1, ctx, b :: bs => do
      let (ctx, rest) ← updateRound ctx (b :: bs)
      sha256Update fuel ctx rest

def padZeros (buffer : Vector Byte 64) (i hi : Nat) : Traced Event (Vector Byte 64) :=
  putBytes buffer i (List.replicate (hi - i) 0)

def closeBlock (ctx : Sha256Ctx) (buffer : Vector Byte 64) (i : Nat) :
    Traced Event (Sha256Ctx × Vector Byte 64 × Nat) :=
  if 56 < i then do
    let buffer ← padZeros buffer i 64
    let ctx ← sha256Block ctx buffer
    pure (ctx, buffer, 0)
  else pure (ctx, buffer, i)

def sha256Final (ctx : Sha256Ctx) : Traced Event (Sha256Ctx × List Byte) := do
  let totalBits := ctx.bitLen + ctx.bufferLen * 8
  let buffer ← putByte ctx.buffer ctx.bufferLen.toNat 0x80
  let (ctx, buffer, i) ← closeBlock ctx buffer (ctx.bufferLen.toNat + 1)
  let buffer ← padZeros buffer i 56
  let buffer ← putBytes buffer 56 ((List.range 8).map fun j => Words.byteAt totalBits (7 - j))
  let ctx ← sha256Block { ctx with buffer := buffer } buffer
  pure (ctx, ctx.state.toList.flatMap storeBe32)

end Traced

/-! ## Stores -/

/-- The indices of consecutive stores. -/
theorem putBytes_traced (buffer : Vector Byte 64) (i : Nat) (bs : List Byte)
    (h : i + bs.length ≤ 64) :
    ∃ buffer', putBytes buffer i bs = some buffer' ∧
      Traced.putBytes buffer i bs =
        ⟨(List.range' i bs.length).map .store, some buffer'⟩ := by
  induction bs generalizing buffer i with
  | nil => exact ⟨buffer, rfl, rfl⟩
  | cons b bs ih =>
      simp only [List.length_cons] at h
      have hput : putByte buffer i b = some (buffer.set i b) := dif_pos (by omega)
      rcases ih (buffer.set i b) (i + 1) (by omega) with ⟨buffer', hplain, htraced⟩
      refine ⟨buffer', by rw [putBytes, hput]; exact hplain, ?_⟩
      have hfirst : Traced.putByte buffer i b = ⟨[.store i], some (buffer.set i b)⟩ := by
        rw [Traced.putByte, hput]
      exact Traced.bind_eq hfirst htraced

theorem safe_append {first second : List Event} (h : ∀ e ∈ first, e.Safe)
    (h' : ∀ e ∈ second, e.Safe) : ∀ e ∈ first ++ second, e.Safe :=
  List.forall_mem_append.mpr ⟨h, h'⟩

theorem safe_one {e : Event} (h : e.Safe) : ∀ e' ∈ [e], e'.Safe := by
  intro e' he'
  rw [List.mem_singleton.mp he']
  exact h

theorem safe_block : ∀ e ∈ [Event.block], e.Safe := safe_one (e := .block) trivial

theorem safe_stores {i n : Nat} (h : i + n ≤ 64) :
    ∀ e ∈ (List.range' i n).map Event.store, e.Safe := by
  intro e he
  rcases List.mem_map.mp he with ⟨j, hj, rfl⟩
  have hlt := (List.mem_range'_1.mp hj).2
  show j < 64
  omega

theorem blocks_stores (i n : Nat) : blocks ((List.range' i n).map Event.store) = 0 := by
  refine List.count_eq_zero.mpr fun hmem => ?_
  rcases List.mem_map.mp hmem with ⟨j, _, hj⟩
  cases hj

theorem blocks_append (first second : List Event) :
    blocks (first ++ second) = blocks first + blocks second := List.count_append

/-! ## One round -/

/-- From one round boundary to another. -/
structure Kept (events : List Event) (ctx ctx' : Sha256Ctx) : Prop where
  safe : ∀ e ∈ events, e.Safe
  bufferLen : ctx'.bufferLen.toNat < 64
  bitLen : ctx'.bitLen = ctx.bitLen + BitVec.ofNat 64 (512 * blocks events)

theorem Kept.refl {ctx : Sha256Ctx} (h : ctx.bufferLen.toNat < 64) : Kept [] ctx ctx where
  safe := by simp
  bufferLen := h
  bitLen := (BitVec.add_zero _).symm

theorem Kept.trans {first second : List Event} {ctx ctx' ctx'' : Sha256Ctx}
    (h : Kept first ctx ctx') (h' : Kept second ctx' ctx'') :
    Kept (first ++ second) ctx ctx'' where
  safe := by
    intro e he
    exact (List.mem_append.mp he).elim (h.safe e) (h'.safe e)
  bufferLen := h'.bufferLen
  bitLen := by
    rw [h'.bitLen, h.bitLen, blocks_append, Nat.mul_add, BitVec.ofNat_add, BitVec.add_assoc]

/-- The buffer has taken some bytes, … -/
def filled (ctx : Sha256Ctx) (buffer : Vector Byte 64) (take : Nat) : Sha256Ctx :=
  { ctx with buffer := buffer, bufferLen := ctx.bufferLen + BitVec.ofNat 64 take }

/-- … and a full buffer has been processed. -/
def flushed (ctx : Sha256Ctx) : Sha256Ctx :=
  { sha256Block ctx ctx.buffer with bitLen := ctx.bitLen + 512, bufferLen := 0 }

/-- A round with room in the buffer consumes data and leaves room again. -/
theorem updateRound_kept {ctx : Sha256Ctx} {data : List Byte} (hroom : ctx.bufferLen.toNat < 64)
    (hdata : data ≠ []) :
    ∃ events ctx' take, 0 < take ∧
      Traced.updateRound ctx data = ⟨events, some (ctx', data.drop take)⟩ ∧
      Kept events ctx ctx' ∧ sha256Update ctx data = sha256Update ctx' (data.drop take) := by
  have hpos : 0 < data.length := List.length_pos_iff.mpr hdata
  have hspace : (64 - ctx.bufferLen).toNat = 64 - ctx.bufferLen.toNat := by bv_omega
  generalize htake : min data.length (64 - ctx.bufferLen).toNat = take
  have hchunk : (data.take take).length = take := by
    rw [List.length_take]
    omega
  rcases putBytes_traced ctx.buffer ctx.bufferLen.toNat (data.take take) (by omega)
    with ⟨buffer, hplain, htraced⟩
  rw [hchunk] at htraced
  have hstores := safe_stores (i := ctx.bufferLen.toNat) (n := take) (by omega)
  have hnone := blocks_stores ctx.bufferLen.toNat take
  generalize hevents : (List.range' ctx.bufferLen.toNat take).map Event.store = stores
    at htraced hstores hnone
  have hsome : Event.Safe (.round take) := by
    show 0 < take
    omega
  by_cases hfull : ctx.bufferLen + BitVec.ofNat 64 take = 64
  · refine ⟨[.round take] ++ (stores ++ [.block]), flushed (filled ctx buffer take), take,
      by omega, ?_,
      ⟨safe_append (safe_one hsome) (safe_append hstores safe_block), ?_, ?_⟩, ?_⟩
    · rw [Traced.updateRound, htake]
      refine Traced.bind_eq rfl (Traced.bind_eq htraced ?_)
      exact (if_pos hfull).trans rfl
    · show (0 : DWord).toNat < 64
      decide
    · rw [blocks_append, blocks_append, hnone]
      rfl
    · rw [sha256Update, dif_neg hdata]
      simp only [htake, hplain, Option.bind_eq_bind, Option.bind_some]
      exact dif_pos hfull
  · refine ⟨[.round take] ++ (stores ++ []), filled ctx buffer take, take, by omega, ?_,
      ⟨safe_append (safe_one hsome) (safe_append hstores (by simp)), ?_, ?_⟩, ?_⟩
    · rw [Traced.updateRound, htake]
      exact Traced.bind_eq rfl (Traced.bind_eq htraced (if_neg hfull))
    · show (ctx.bufferLen + BitVec.ofNat 64 take).toNat < 64
      bv_omega
    · rw [blocks_append, blocks_append, hnone]
      exact (BitVec.add_zero _).symm
    · rw [sha256Update, dif_neg hdata]
      simp only [htake, hplain, Option.bind_eq_bind, Option.bind_some]
      exact dif_neg hfull

/-! ## A whole call -/

/-- As many rounds as there are bytes are enough. -/
theorem sha256Update_kept {ctx : Sha256Ctx} (hroom : ctx.bufferLen.toNat < 64) (fuel : Nat)
    (data : List Byte) (hfuel : data.length ≤ fuel) :
    ∃ events ctx', Traced.sha256Update fuel ctx data = ⟨events, some ctx'⟩ ∧
      Kept events ctx ctx' ∧ sha256Update ctx data = some ctx' := by
  induction fuel generalizing ctx data with
  | zero =>
      have hnil : data = [] := List.length_eq_zero_iff.mp (by omega)
      subst hnil
      exact ⟨[], ctx, rfl, Kept.refl hroom, by rw [sha256Update, dif_pos rfl]⟩
  | succ fuel ih =>
      cases data with
      | nil => exact ⟨[], ctx, rfl, Kept.refl hroom, by rw [sha256Update, dif_pos rfl]⟩
      | cons b bs =>
          rcases updateRound_kept hroom (List.cons_ne_nil b bs) with
            ⟨first, ctx₁, take, htake, hround, hkept, hsame⟩
          have hshorter : ((b :: bs).drop take).length ≤ fuel := by
            rw [List.length_drop]
            omega
          rcases ih hkept.bufferLen _ hshorter with ⟨second, ctx', hrest, hkept', hplain⟩
          exact ⟨first ++ second, ctx', Traced.bind_eq hround hrest, hkept.trans hkept',
            hsame.trans hplain⟩

/-- More fuel changes nothing. -/
theorem sha256Update_fuel {fuel : Nat} {ctx ctx' : Sha256Ctx} {data : List Byte}
    {events : List Event} (h : Traced.sha256Update fuel ctx data = ⟨events, some ctx'⟩)
    (more : Nat) : Traced.sha256Update (fuel + more) ctx data = ⟨events, some ctx'⟩ := by
  induction fuel generalizing ctx data events with
  | zero =>
      cases data with
      | nil => rw [← h, Traced.sha256Update, Traced.sha256Update]
      | cons b bs => cases h
  | succ fuel ih =>
      cases data with
      | nil => rw [← h, Traced.sha256Update, Traced.sha256Update]
      | cons b bs =>
          rcases Traced.bind_returned h with ⟨first, ⟨ctx₁, rest⟩, second, hround, hrest, hevents⟩
          rw [Nat.add_right_comm, hevents]
          exact Traced.bind_eq hround (ih hrest)

/-! ## Padding -/

theorem padZeros_traced (buffer : Vector Byte 64) {i hi : Nat} (hle : i ≤ hi) (h : hi ≤ 64) :
    ∃ events buffer', padZeros buffer i hi = some buffer' ∧
      Traced.padZeros buffer i hi = ⟨events, some buffer'⟩ ∧ ∀ e ∈ events, e.Safe := by
  have hlen : (List.replicate (hi - i) (0 : Byte)).length = hi - i := List.length_replicate
  rcases putBytes_traced buffer i (List.replicate (hi - i) 0) (by omega) with
    ⟨buffer', hplain, htraced⟩
  exact ⟨_, buffer', hplain, htraced, safe_stores (by omega)⟩

/-- Behind the marker byte the zeros end at index 63 or not at all. -/
theorem closeBlock_traced (ctx : Sha256Ctx) (buffer : Vector Byte 64) {i : Nat} (h : i ≤ 64) :
    ∃ events ctx' closed i', i' ≤ 56 ∧ closeBlock ctx buffer i = some (ctx', closed, i') ∧
      Traced.closeBlock ctx buffer i = ⟨events, some (ctx', closed, i')⟩ ∧
      ∀ e ∈ events, e.Safe := by
  by_cases hlate : 56 < i
  · rcases padZeros_traced buffer h (Nat.le_refl 64) with ⟨zeros, closed, hplain, htraced, hsafe⟩
    refine ⟨zeros ++ [.block], sha256Block ctx closed, closed, 0, by omega, ?_, ?_,
      safe_append hsafe safe_block⟩
    · rw [closeBlock, if_pos hlate, bind_of_some hplain]
      rfl
    · rw [Traced.closeBlock, if_pos hlate]
      exact Traced.bind_eq htraced rfl
  · refine ⟨[], ctx, buffer, i, by omega, ?_, ?_, by simp⟩
    · rw [closeBlock, if_neg hlate]
      rfl
    · rw [Traced.closeBlock, if_neg hlate]
      rfl

/-- Padding from any fill level below 64. -/
theorem sha256Final_traced {ctx : Sha256Ctx} (hroom : ctx.bufferLen.toNat < 64) :
    ∃ events out, Traced.sha256Final ctx = ⟨events, some out⟩ ∧ sha256Final ctx = some out ∧
      ∀ e ∈ events, e.Safe := by
  have hmark : putByte ctx.buffer ctx.bufferLen.toNat 0x80 =
      some (ctx.buffer.set ctx.bufferLen.toNat 0x80) := dif_pos hroom
  have hmark' : Traced.putByte ctx.buffer ctx.bufferLen.toNat 0x80 =
      ⟨[.store ctx.bufferLen.toNat], some (ctx.buffer.set ctx.bufferLen.toNat 0x80)⟩ := by
    rw [Traced.putByte, hmark]
  have hsafe : Event.Safe (.store ctx.bufferLen.toNat) := hroom
  rcases closeBlock_traced ctx (ctx.buffer.set ctx.bufferLen.toNat 0x80)
    (show ctx.bufferLen.toNat + 1 ≤ 64 by omega) with
    ⟨closing, ctx', closed, i, hi, hclose, hclose', hsafe₁⟩
  rcases padZeros_traced closed hi (by omega) with ⟨zeros, padded, hzeros, hzeros', hsafe₂⟩
  rcases putBytes_traced padded 56 ((List.range 8).map fun j =>
    Words.byteAt (ctx.bitLen + ctx.bufferLen * 8) (7 - j)) (by simp) with
    ⟨full, hfull, hfull'⟩
  refine ⟨_, (sha256Block { ctx' with buffer := full } full,
    (sha256Block { ctx' with buffer := full } full).state.toList.flatMap storeBe32),
    Traced.bind_eq hmark' (Traced.bind_eq hclose' (Traced.bind_eq hzeros'
      (Traced.bind_eq hfull' rfl))), ?_, ?_⟩
  · simp only [sha256Final]
    rw [bind_of_some hmark, bind_of_some hclose, bind_of_some hzeros, bind_of_some hfull]
    rfl
  · exact safe_append (safe_one hsafe) (safe_append hsafe₁ (safe_append hsafe₂
      (safe_append (safe_stores (by simp)) safe_block)))

/-! ## Every context in use -/

/-- The contexts after `sha256_init` and any calls of `sha256_update`, with the number of blocks
processed since. -/
inductive Reached (start : Sha256Ctx) : Nat → Sha256Ctx → Prop where
  | init : Reached start 0 (sha256Init start)
  | update {n fuel : Nat} {ctx ctx' : Sha256Ctx} {data : List Byte} {events : List Event}
      (before : Reached start n ctx)
      (returned : Traced.sha256Update fuel ctx data = ⟨events, some ctx'⟩) :
      Reached start (n + blocks events) ctx'

theorem Reached.invariant {start ctx : Sha256Ctx} {n : Nat} (h : Reached start n ctx) :
    ctx.bufferLen.toNat < 64 ∧ ctx.bitLen = BitVec.ofNat 64 (512 * n) := by
  induction h with
  | init => exact ⟨Nat.zero_lt_succ 63, rfl⟩
  | @update n fuel ctx ctx' data events before returned ih =>
      rcases sha256Update_kept ih.1 (fuel + data.length) data (by omega) with
        ⟨events', ctx'', hkept, hcall, _⟩
      rw [sha256Update_fuel returned] at hkept
      injection hkept with hevents hresult
      injection hresult with hctx
      subst hevents hctx
      refine ⟨hcall.bufferLen, ?_⟩
      rw [hcall.bitLen, ih.2, Nat.mul_add, BitVec.ofNat_add]

/-- In every context in use the buffer has room and the bits counted are those of the blocks
processed; every `sha256_update` returns, every round of it consumes a byte, and its stores
and those of `sha256_final` are inside the buffer. -/
theorem sha256_context_invariant (start : Sha256Ctx) :
    (∀ n ctx, Reached start n ctx →
      ctx.bufferLen.toNat < 64 ∧ ctx.bitLen = BitVec.ofNat 64 (512 * n) ∧
        ∀ data, ∃ events ctx',
          (∀ fuel, data.length ≤ fuel →
            Traced.sha256Update fuel ctx data = ⟨events, some ctx'⟩) ∧
          sha256Update ctx data = some ctx' ∧ ∀ e ∈ events, e.Safe) ∧
    ∀ ctx : Sha256Ctx, ctx.bufferLen.toNat < 64 →
      ∃ events out, Traced.sha256Final ctx = ⟨events, some out⟩ ∧ sha256Final ctx = some out ∧
        ∀ e ∈ events, e.Safe := by
  refine ⟨fun n ctx h => ?_, fun ctx h => sha256Final_traced h⟩
  rcases h.invariant with ⟨hroom, hbits⟩
  refine ⟨hroom, hbits, fun data => ?_⟩
  rcases sha256Update_kept hroom data.length data (Nat.le_refl _) with
    ⟨events, ctx', htraced, hkept, hplain⟩
  refine ⟨events, ctx', fun fuel hfuel => ?_, hplain, hkept.safe⟩
  rw [← Nat.add_sub_of_le hfuel]
  exact sha256Update_fuel htraced _

theorem sha256_context_invariant_abc :
    ∃ ctx, Traced.sha256Update 3
        (sha256Init ⟨Vector.replicate 8 0, 0, Vector.replicate 64 0, 0⟩) [0x61, 0x62, 0x63] =
        ⟨[.round 3, .store 0, .store 1, .store 2], some ctx⟩ ∧
      ctx.bufferLen.toNat < 64 ∧ ctx.bitLen = BitVec.ofNat 64 (512 * 0) := by
  have hcall : Traced.sha256Update 3
      (sha256Init ⟨Vector.replicate 8 0, 0, Vector.replicate 64 0, 0⟩) [0x61, 0x62, 0x63] =
      ⟨[.round 3, .store 0, .store 1, .store 2],
        some { sha256Init ⟨Vector.replicate 8 0, 0, Vector.replicate 64 0, 0⟩ with
          buffer := (((Vector.replicate 64 0).set 0 0x61).set 1 0x62).set 2 0x63
          bufferLen := 3 }⟩ := rfl
  have h := (sha256_context_invariant _).1 0 _ (.update .init hcall)
  exact ⟨_, hcall, h.1, h.2.1⟩

end SecureBoot.Sha256
