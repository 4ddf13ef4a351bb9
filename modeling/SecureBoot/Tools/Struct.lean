import Mathlib.Data.List.Forall2
import SecureBoot.Tools.Artifacts

/-!
# `struct` both ways

What `struct.unpack` reads is what `struct.pack` writes, for every format. The manifest's
dictionary follows.
-/

namespace SecureBoot.Tools

open Words

/-! ## One value -/

/-- `pack` neither cuts nor fills the value. -/
def Code.Exact : Code → Value → Prop
  | .s count, .bytes bs => bs.length = count
  | _, _ => True

theorem halfWord_byteAt (x : BitVec 16) : (byteAt x 1 ++ byteAt x 0 : BitVec 16) = x := by
  apply BitVec.eq_of_toNat_eq
  have hx := x.isLt
  rw [BitVec.toNat_append, ← Nat.shiftLeft_add_eq_or_of_lt (byteAt x 0).isLt, Nat.shiftLeft_eq,
    byteAt_toNat, byteAt_toNat]
  omega

theorem byteAt_halfWord (b c : Byte) :
    (List.range 2).map (byteAt (c ++ b : BitVec 16)) = [b, c] := by
  have hvalue : (c ++ b : BitVec 16).toNat = b.toNat + 256 * c.toNat := by
    rw [BitVec.toNat_append, ← Nat.shiftLeft_add_eq_or_of_lt b.isLt, Nat.shiftLeft_eq]
    omega
  have hb := b.isLt
  have hc := c.isLt
  have hlow : byteAt (c ++ b : BitVec 16) 0 = b := by
    apply BitVec.eq_of_toNat_eq
    rw [byteAt_toNat, hvalue]
    omega
  have hhigh : byteAt (c ++ b : BitVec 16) 1 = c := by
    apply BitVec.eq_of_toNat_eq
    rw [byteAt_toNat, hvalue]
    omega
  show [byteAt (c ++ b : BitVec 16) 0, byteAt (c ++ b : BitVec 16) 1] = [b, c]
  rw [hlow, hhigh]

theorem packItem_length {code : Code} {value : Value} {item : List Byte}
    (h : packItem code value = some item) : item.length = code.size := by
  cases code with
  | I =>
      cases value with
      | int n =>
          rw [packItem] at h
          split at h
          · cases h
            rfl
          · cases h
      | bytes bs => cases h
  | H =>
      cases value with
      | int n =>
          rw [packItem] at h
          split at h
          · cases h
            rfl
          · cases h
      | bytes bs => cases h
  | s count =>
      cases value with
      | int n => cases h
      | bytes bs =>
          cases h
          rw [List.length_append, List.length_take, List.length_replicate, Code.size]
          omega

/-- Written, then read. -/
theorem unpackItem_append {code : Code} {value : Value} {item : List Byte}
    (h : packItem code value = some item) (hexact : code.Exact value) (rest : List Byte) :
    unpackItem code (item ++ rest) = value := by
  cases code with
  | I =>
      cases value with
      | int n =>
          rw [packItem] at h
          split at h
          · rename_i hn
            cases h
            show Value.int (leWord (byteAt (BitVec.ofNat 32 n) 0) (byteAt (BitVec.ofNat 32 n) 1)
              (byteAt (BitVec.ofNat 32 n) 2) (byteAt (BitVec.ofNat 32 n) 3)).toNat = .int n
            rw [leWord_byteAt, BitVec.toNat_ofNat, Nat.mod_eq_of_lt hn]
          · cases h
      | bytes bs => cases h
  | H =>
      cases value with
      | int n =>
          rw [packItem] at h
          split at h
          · rename_i hn
            cases h
            show Value.int (byteAt (BitVec.ofNat 16 n) 1 ++ byteAt (BitVec.ofNat 16 n) 0 :
              BitVec 16).toNat = .int n
            rw [halfWord_byteAt, BitVec.toNat_ofNat, Nat.mod_eq_of_lt hn]
          · cases h
      | bytes bs => cases h
  | s count =>
      cases value with
      | int n => cases h
      | bytes bs =>
          have hlen : bs.length = count := hexact
          rw [packItem_s hlen] at h
          cases h
          rw [unpackItem, List.take_left' hlen]

/-- Read, then written. -/
theorem packItem_unpackItem (code : Code) {bs : List Byte} (h : code.size ≤ bs.length) :
    packItem code (unpackItem code bs) = some (bs.take code.size) ∧
      code.Exact (unpackItem code bs) := by
  cases code with
  | I =>
      match bs, h with
      | b0 :: b1 :: b2 :: b3 :: rest, _ =>
          refine ⟨?_, trivial⟩
          show packItem .I (.int (leWord b0 b1 b2 b3).toNat) = some [b0, b1, b2, b3]
          rw [packItem_I (leWord b0 b1 b2 b3).isLt, BitVec.ofNat_toNat, BitVec.setWidth_eq,
            leBytes_leWord]
  | H =>
      match bs, h with
      | b0 :: b1 :: rest, _ =>
          refine ⟨?_, trivial⟩
          show packItem .H (.int (b1 ++ b0 : BitVec 16).toNat) = some [b0, b1]
          rw [packItem, if_pos (b1 ++ b0 : BitVec 16).isLt, BitVec.ofNat_toNat,
            BitVec.setWidth_eq, byteAt_halfWord]
  | s count =>
      have hlen : (bs.take count).length = count := by
        rw [List.length_take]
        exact Nat.min_eq_left h
      exact ⟨packItem_s hlen, hlen⟩

/-! ## A format -/

theorem unpack_of_pack {codes : List Code} {values : List Value} {bs : List Byte}
    (h : pack codes values = some bs) (hexact : List.Forall₂ Code.Exact codes values) :
    unpack codes bs = some values := by
  induction hexact generalizing bs with
  | nil =>
      cases h
      rfl
  | @cons code value codes values hfirst _ ih =>
      rw [pack] at h
      rcases Option.bind_eq_some_iff.mp h with ⟨item, hitem, h⟩
      rcases Option.bind_eq_some_iff.mp h with ⟨items, hitems, h⟩
      cases h
      have hlen := packItem_length hitem
      have hlong : ¬ (item ++ items).length < code.size := by
        rw [List.length_append]
        omega
      rw [unpack, if_neg hlong, List.drop_left' hlen, ih hitems,
        unpackItem_append hitem hfirst items]
      rfl

theorem pack_of_unpack {codes : List Code} {values : List Value} {bs : List Byte}
    (h : unpack codes bs = some values) :
    pack codes values = some bs ∧ List.Forall₂ Code.Exact codes values := by
  induction codes generalizing values bs with
  | nil =>
      cases bs with
      | nil =>
          cases h
          exact ⟨rfl, .nil⟩
      | cons b bs => cases h
  | cons code codes ih =>
      rw [unpack] at h
      split at h
      · cases h
      · rename_i hlong
        rcases Option.bind_eq_some_iff.mp h with ⟨rest, hrest, h⟩
        cases h
        rcases ih hrest with ⟨hpack, hexact⟩
        rcases packItem_unpackItem code (Nat.le_of_not_lt hlong) with ⟨hitem, hfirst⟩
        refine ⟨?_, .cons hfirst hexact⟩
        rw [pack, hitem, hpack]
        show some (bs.take code.size ++ bs.drop code.size) = some bs
        rw [List.take_append_drop]

theorem unpack_length {codes : List Code} {values : List Value} {bs : List Byte}
    (h : unpack codes bs = some values) : bs.length = (codes.map Code.size).sum := by
  induction codes generalizing values bs with
  | nil =>
      cases bs with
      | nil => rfl
      | cons b bs => cases h
  | cons code codes ih =>
      rw [unpack] at h
      split at h
      · cases h
      · rename_i hlong
        rcases Option.bind_eq_some_iff.mp h with ⟨rest, hrest, _⟩
        have hlen := ih hrest
        rw [List.length_drop] at hlen
        rw [List.map_cons, List.sum_cons]
        omega

/-! ## The manifest -/

/-- `(m[name] for name in MANIFEST_FIELDS)` -/
def Fields.values (m : Fields) : List Value :=
  [.int m.magic, .int m.headerVersion, .int m.flags, .int m.version, .int m.payloadSize,
    .int m.loadAddress, .int m.entryPoint, .int m.reserved, .int m.pad, .bytes m.payloadHash,
    .bytes m.nextPubkeyHash]

/-- A field out of range is a `struct.error`. -/
def packManifest (m : Fields) : Option (List Byte) := pack MANIFEST_STRUCT m.values

/-- Both hashes have their size. -/
def Fields.Sized (m : Fields) : Prop := m.payloadHash.length = 32 ∧ m.nextPubkeyHash.length = 32

theorem values_of_ofValues {values : List Value} {m : Fields}
    (h : Fields.ofValues values = some m) : values = m.values := by
  unfold Fields.ofValues at h
  split at h
  · cases h
    rfl
  · cases h

theorem exact_values (m : Fields) :
    List.Forall₂ Code.Exact MANIFEST_STRUCT m.values ↔ m.Sized := by
  simp [MANIFEST_STRUCT, Fields.values, Code.Exact, Fields.Sized]

theorem pack_of_parseManifest {data : List Byte} {m : Fields}
    (h : parseManifest data = some m) : packManifest m = some data ∧ m.Sized := by
  rw [parseManifest] at h
  split at h
  · cases h
  · rcases Option.bind_eq_some_iff.mp h with ⟨values, hvalues, h⟩
    rw [values_of_ofValues h] at hvalues
    rcases pack_of_unpack hvalues with ⟨hpack, hexact⟩
    exact ⟨hpack, (exact_values m).mp hexact⟩

theorem parseManifest_of_pack {data : List Byte} {m : Fields}
    (hpack : packManifest m = some data) (hsized : m.Sized) : parseManifest data = some m := by
  have hvalues := unpack_of_pack hpack ((exact_values m).mpr hsized)
  have hlen : data.length = MANIFEST_SIZE := unpack_length hvalues
  rw [parseManifest, if_neg (not_not_intro hlen), hvalues]
  rfl

/-- `parse_manifest` is the inverse of `pack_manifest`. -/
theorem parseManifest_iff (data : List Byte) (m : Fields) :
    parseManifest data = some m ↔ packManifest m = some data ∧ m.Sized :=
  ⟨pack_of_parseManifest, fun h => parseManifest_of_pack h.1 h.2⟩

theorem parseManifest_length {data : List Byte} {m : Fields} (h : parseManifest data = some m) :
    data.length = 96 := by
  rw [parseManifest] at h
  split at h
  · cases h
  · rename_i hlen
    exact of_not_not hlen

end SecureBoot.Tools
