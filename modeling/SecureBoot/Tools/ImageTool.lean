import SecureBoot.Base.Exec
import SecureBoot.Tools.Struct

/-!
# `image_tool.py`, command by command

The subcommands on the files of a repository, with their errors and what each of them does. What
they print on success is left out.
-/

namespace SecureBoot.Tools

open Exec

/-! ## Files -/

/-- A file may be missing. -/
structure Repo where
  manifest : Option (List Byte)
  signature : Option (List Byte)
  publicKey : Option (List Byte)
  pubkeyHash : Option (List Byte)
  kernel : Option (List Byte)
  flash : Option (List Byte)
deriving DecidableEq, Repr

/-- How a run breaks off: with a message, or with an exception of `open`, `assert` or
`struct.pack`. -/
inductive Failure where
  | systemExit (message : String)
  | fileNotFound (path : String)
  | assertionError (message : String)
  | structError
deriving DecidableEq, Repr

abbrev Tool := EStateM Failure Repo

/-- `p(repo, rel)` shows as `rel` here. -/
def read (path : String) (file : Option (List Byte)) : Tool (List Byte) :=
  match file with
  | some data => pure data
  | none => throw (.systemExit ("missing file: " ++ path))

def stat (path : String) (file : Option (List Byte)) : Tool Nat :=
  match file with
  | some data => pure data.length
  | none => throw (.fileNotFound path)

/-- `f"{n:x}"` -/
def hexText (n : Int) : String :=
  (if n < 0 then "-" else "") ++ String.ofList (Nat.toDigits 16 n.natAbs)

/-! ## Fields -/

inductive Field where
  | magic
  | headerVersion
  | flags
  | version
  | payloadSize
  | loadAddress
  | entryPoint
  | reserved
  | pad
  | payloadHash
  | nextPubkeyHash
deriving DecidableEq, Repr

namespace Field

def name : Field → String
  | magic => "magic"
  | headerVersion => "header_version"
  | flags => "flags"
  | version => "version"
  | payloadSize => "payload_size"
  | loadAddress => "load_address"
  | entryPoint => "entry_point"
  | reserved => "reserved"
  | pad => "pad"
  | payloadHash => "payload_hash"
  | nextPubkeyHash => "next_pubkey_hash"

/-- `field in {"payload_hash", "next_pubkey_hash"}` -/
def isBytes (f : Field) : Bool := f = payloadHash || f = nextPubkeyHash

/-- Integers below are written without a `struct.error`. -/
def bound : Field → Nat
  | headerVersion => 2 ^ 16
  | flags => 2 ^ 16
  | _ => 2 ^ 32

end Field

def MANIFEST_FIELDS : List Field :=
  [.magic, .headerVersion, .flags, .version, .payloadSize, .loadAddress, .entryPoint, .reserved,
    .pad, .payloadHash, .nextPubkeyHash]

/-- `field not in MANIFEST_FIELDS` -/
def findField (field : String) : Option Field := MANIFEST_FIELDS.find? fun f => f.name == field

/-- `m[field] = value` for an integer field. -/
def Fields.set (m : Fields) (field : Field) (value : Nat) : Fields :=
  match field with
  | .magic => { m with magic := value }
  | .headerVersion => { m with headerVersion := value }
  | .flags => { m with flags := value }
  | .version => { m with version := value }
  | .payloadSize => { m with payloadSize := value }
  | .loadAddress => { m with loadAddress := value }
  | .entryPoint => { m with entryPoint := value }
  | .reserved => { m with reserved := value }
  | .pad => { m with pad := value }
  | .payloadHash => m
  | .nextPubkeyHash => m

/-- `m[field]` of an integer field. -/
def Fields.get (m : Fields) : Field → Nat
  | .magic => m.magic
  | .headerVersion => m.headerVersion
  | .flags => m.flags
  | .version => m.version
  | .payloadSize => m.payloadSize
  | .loadAddress => m.loadAddress
  | .entryPoint => m.entryPoint
  | .reserved => m.reserved
  | .pad => m.pad
  | .payloadHash => 0
  | .nextPubkeyHash => 0

/-! ## Commands -/

def loadManifest : Tool Fields := do
  let data ← read "metadata/manifest.bin" (← get).manifest
  match parseManifest data with
  | some m => pure m
  | none =>
      throw (.systemExit ("manifest must be 96 bytes, got " ++ toString data.length))

def inspect : Tool Nat := do
  let _ ← loadManifest
  let _ ← stat "metadata/signature.bin" (← get).signature
  let _ ← stat "metadata/public_key.bin" (← get).publicKey
  let _ ← stat "metadata/pubkey_hash.bin" (← get).pubkeyHash
  let _ ← stat "flash_image/flash_image.bin" (← get).flash
  pure 0

def runCheckArtifacts : Tool Nat := do
  let manifest ← read "metadata/manifest.bin" (← get).manifest
  let signature ← read "metadata/signature.bin" (← get).signature
  let publicKey ← read "metadata/public_key.bin" (← get).publicKey
  let pubkeyHash ← read "metadata/pubkey_hash.bin" (← get).pubkeyHash
  let kernel ← read "software/kernel/kernel.bin" (← get).kernel
  let flash ← read "flash_image/flash_image.bin" (← get).flash
  pure (checkArtifacts ⟨manifest, signature, publicKey, pubkeyHash, kernel, flash⟩)

def readFlashImage : Tool (List Byte) := do
  read "flash_image/flash_image.bin" (← get).flash

/-- `value & 0xff`, or the old byte xor the mask. -/
def patchByte (xorValue value : Option Int) (old : Byte) : Byte :=
  match value with
  | some v => BitVec.ofInt 8 v
  | none => old ^^^ BitVec.ofInt 8 (xorValue.getD 0xff)

def patchFlashByte (offset : Int) (xorValue value : Option Int) : Tool Nat := do
  let data ← readFlashImage
  if offset < 0 ∨ data.length ≤ offset then
    throw (.systemExit ("offset 0x" ++ hexText offset ++ " out of flash image range 0..0x" ++
      hexText (data.length - 1)))
  let old := data.getD offset.toNat 0
  modify fun r => { r with flash := some (data.set offset.toNat (patchByte xorValue value old)) }
  pure 0

/-- Where a slice index points. -/
def sliceIndex (length : Nat) (i : Int) : Nat :=
  if i < 0 then (i + length).toNat else min i.toNat length

/-- `data[start:stop] = bs` on a `bytearray`. -/
def setSlice (data : List Byte) (start stop : Int) (bs : List Byte) : List Byte :=
  data.take (sliceIndex data.length start) ++ bs ++
    data.drop (max (sliceIndex data.length start) (sliceIndex data.length stop))

def zeroFlashRegion (offset length : Int) : Tool Nat := do
  let data ← readFlashImage
  if offset < 0 ∨ data.length < offset + length then
    throw (.systemExit ("region 0x" ++ hexText offset ++ "..0x" ++ hexText (offset + length - 1) ++
      " out of flash image range"))
  modify fun r =>
    { r with
      flash := some (setSlice data offset (offset + length) (List.replicate length.toNat 0)) }
  pure 0

def patchManifestField (field : String) (value : Int) : Tool Nat :=
  match findField field with
  | none => throw (.systemExit ("unknown manifest field: " ++ field))
  | some f =>
      if f.isBytes then
        throw (.systemExit
          ("field " ++ field ++ " is bytes; this tool only patches integer fields"))
      else do
        let m ← loadManifest
        match value with
        -- `struct.pack` takes no negative number for `I` or `H`
        | .negSucc _ => throw .structError
        | .ofNat n =>
            match packManifest (m.set f n) with
            | none => throw .structError
            | some data =>
                modify fun r => { r with manifest := some data }
                pure 0

inductive Command where
  | inspect
  | checkArtifacts
  | patchFlashByte (offset : Int) (xorValue value : Option Int)
  | zeroFlashRegion (offset length : Int)
  | patchManifestField (field : String) (value : Int)
deriving DecidableEq, Repr

/-- The exit code. -/
def main : Command → Tool Nat
  | .inspect => inspect
  | .checkArtifacts => runCheckArtifacts
  | .patchFlashByte offset xorValue value => patchFlashByte offset xorValue value
  | .zeroFlashRegion offset length => zeroFlashRegion offset length
  | .patchManifestField field value => patchManifestField field value

/-! ## Fields of a manifest -/

theorem pack_isSome (codes : List Code) (values : List Value) :
    (pack codes values).isSome ↔
      List.Forall₂ (fun code value => (packItem code value).isSome) codes values := by
  induction codes generalizing values with
  | nil =>
      cases values with
      | nil => simp [pack]
      | cons value values => simp [pack]
  | cons code codes ih =>
      cases values with
      | nil => simp [pack]
      | cons value values =>
          rw [List.forall₂_cons, ← ih, pack]
          cases packItem code value with
          | none => simp
          | some item => cases pack codes values <;> simp

/-- The fields that `pack_manifest` takes. -/
theorem packManifest_isSome (m : Fields) : (packManifest m).isSome ↔ ∀ f, m.get f < f.bound := by
  have hall : (∀ f : Field, m.get f < f.bound) ↔ m.magic < 2 ^ 32 ∧ m.headerVersion < 2 ^ 16 ∧
      m.flags < 2 ^ 16 ∧ m.version < 2 ^ 32 ∧ m.payloadSize < 2 ^ 32 ∧ m.loadAddress < 2 ^ 32 ∧
      m.entryPoint < 2 ^ 32 ∧ m.reserved < 2 ^ 32 ∧ m.pad < 2 ^ 32 := by
    constructor
    · intro h
      exact ⟨h .magic, h .headerVersion, h .flags, h .version, h .payloadSize, h .loadAddress,
        h .entryPoint, h .reserved, h .pad⟩
    · intro h f
      rcases h with ⟨h₁, h₂, h₃, h₄, h₅, h₆, h₇, h₈, h₉⟩
      cases f with
      | magic => exact h₁
      | headerVersion => exact h₂
      | flags => exact h₃
      | version => exact h₄
      | payloadSize => exact h₅
      | loadAddress => exact h₆
      | entryPoint => exact h₇
      | reserved => exact h₈
      | pad => exact h₉
      | payloadHash => exact Nat.two_pow_pos 32
      | nextPubkeyHash => exact Nat.two_pow_pos 32
  rw [hall, packManifest, pack_isSome]
  simp [MANIFEST_STRUCT, Fields.values, packItem]

@[simp] theorem Fields.get_set_same (m : Fields) (f : Field) (n : Nat) (h : f.isBytes = false) :
    (m.set f n).get f = n := by
  cases f with
  | payloadHash => cases h
  | nextPubkeyHash => cases h
  | _ => rfl

@[simp] theorem Fields.get_set_other (m : Fields) {f g : Field} (n : Nat) (h : g ≠ f) :
    (m.set f n).get g = m.get g := by
  cases f <;> cases g <;> first | rfl | exact absurd rfl h

@[simp] theorem Fields.set_payloadHash (m : Fields) (f : Field) (n : Nat) :
    (m.set f n).payloadHash = m.payloadHash := by
  cases f <;> rfl

@[simp] theorem Fields.set_nextPubkeyHash (m : Fields) (f : Field) (n : Nat) :
    (m.set f n).nextPubkeyHash = m.nextPubkeyHash := by
  cases f <;> rfl

/-- One field of a manifest can be set to what its code takes. -/
theorem packManifest_set {m : Fields} (hpack : (packManifest m).isSome) (f : Field)
    (hinteger : f.isBytes = false) (n : Nat) :
    (packManifest (m.set f n)).isSome ↔ n < f.bound := by
  rw [packManifest_isSome] at hpack ⊢
  constructor
  · intro h
    have hf := h f
    rwa [m.get_set_same f n hinteger] at hf
  · intro hn g
    by_cases hg : g = f
    · rw [hg, m.get_set_same f n hinteger]
      exact hn
    · rw [m.get_set_other n hg]
      exact hpack g

/-! ## What a command does -/

/-- The files stay as they are. -/
def Keeps {α : Type} (x : Tool α) : Prop :=
  ∀ r, Wp x (fun _ r' => r' = r) (fun _ r' => r' = r) r

theorem Keeps.bind {α β : Type} {x : Tool α} {f : α → Tool β} (hx : Keeps x)
    (hf : ∀ a, Keeps (f a)) : Keeps (x >>= f) := by
  intro r
  refine (hx r).bind ?_ fun _ _ h => h
  intro a r' h
  subst h
  exact hf a r'

theorem keeps_get : Keeps (get : Tool Repo) := fun r => wp_of_ok (get_apply r) rfl

theorem keeps_pure {α : Type} (a : α) : Keeps (pure a : Tool α) :=
  fun r => wp_of_ok (pure_apply a r) rfl

theorem keeps_throw {α : Type} (e : Failure) : Keeps (throw e : Tool α) :=
  fun _ => wp_of_error rfl rfl

theorem read_keeps (path : String) (file : Option (List Byte)) : Keeps (read path file) := by
  cases file with
  | some data => exact keeps_pure data
  | none => exact keeps_throw _

theorem stat_keeps (path : String) (file : Option (List Byte)) : Keeps (stat path file) := by
  cases file with
  | some data => exact keeps_pure data.length
  | none => exact keeps_throw _

theorem loadManifest_keeps : Keeps loadManifest := by
  refine keeps_get.bind fun r => (read_keeps _ r.manifest).bind fun data => ?_
  cases parseManifest data with
  | some m => exact keeps_pure m
  | none => exact keeps_throw _

theorem inspect_keeps : Keeps inspect :=
  loadManifest_keeps.bind fun _ =>
    keeps_get.bind fun _ => (stat_keeps _ _).bind fun _ =>
    keeps_get.bind fun _ => (stat_keeps _ _).bind fun _ =>
    keeps_get.bind fun _ => (stat_keeps _ _).bind fun _ =>
    keeps_get.bind fun _ => (stat_keeps _ _).bind fun _ => keeps_pure 0

theorem runCheckArtifacts_keeps : Keeps runCheckArtifacts :=
  keeps_get.bind fun _ => (read_keeps _ _).bind fun _ =>
  keeps_get.bind fun _ => (read_keeps _ _).bind fun _ =>
  keeps_get.bind fun _ => (read_keeps _ _).bind fun _ =>
  keeps_get.bind fun _ => (read_keeps _ _).bind fun _ =>
  keeps_get.bind fun _ => (read_keeps _ _).bind fun _ =>
  keeps_get.bind fun _ => (read_keeps _ _).bind fun _ => keeps_pure _

theorem read_wp (path : String) (file : Option (List Byte)) (r : Repo) :
    Wp (read path file) (fun data r' => file = some data ∧ r' = r)
      (fun _ r' => file = none ∧ r' = r) r := by
  cases file with
  | some data => exact wp_of_ok rfl ⟨rfl, rfl⟩
  | none => exact wp_of_error rfl ⟨rfl, rfl⟩

/-- The manifest as the tool reads it. -/
def Repo.fields (r : Repo) : Option Fields := r.manifest.bind parseManifest

theorem loadManifest_wp (r : Repo) :
    Wp loadManifest (fun m r' => r.fields = some m ∧ r' = r)
      (fun _ r' => r.fields = none ∧ r' = r) r := by
  unfold loadManifest
  refine wp_bind (wp_of_ok (get_apply r) ?_)
  refine (read_wp _ r.manifest r).bind ?_ ?_
  · intro data r' h
    rcases h with ⟨hfile, rfl⟩
    cases hparse : parseManifest data with
    | some m => exact wp_of_ok rfl ⟨by rw [Repo.fields, hfile]; exact hparse, rfl⟩
    | none => exact wp_of_error rfl ⟨by rw [Repo.fields, hfile]; exact hparse, rfl⟩
  · intro _ r' h
    exact ⟨by rw [Repo.fields, h.1]; rfl, h.2⟩

theorem readFlashImage_wp (r : Repo) :
    Wp readFlashImage (fun data r' => r.flash = some data ∧ r' = r)
      (fun _ r' => r.flash = none ∧ r' = r) r :=
  wp_bind (wp_of_ok (get_apply r) (read_wp _ r.flash r))

/-- The conditions of `patch-manifest-field`. -/
structure Patches (field : String) (value : Int) (r : Repo) (m : Fields) (f : Field) (n : Nat) :
    Prop where
  found : findField field = some f
  integer : f.isBytes = false
  fields : r.fields = some m
  value_eq : value = n
  fits : n < f.bound

theorem parseManifest_isSome {data : List Byte} (hlen : data.length = 96) :
    ∃ m, parseManifest data = some m := by
  have hend : data.drop 96 = [] := List.drop_eq_nil_of_le (by omega)
  have hsize : ¬ data.length ≠ MANIFEST_SIZE := not_not_intro hlen
  rw [parseManifest, if_neg hsize]
  simp only [MANIFEST_STRUCT, unpack, Code.size, List.length_drop, hlen, List.drop_drop,
    Nat.reduceAdd, hend, Nat.reduceSub, Nat.reduceLT, if_false, unpackItem, Option.pure_def,
    Option.bind_eq_bind, Option.bind_some]
  exact ⟨_, rfl⟩

theorem Repo.fields_packed {r : Repo} {m : Fields} (h : r.fields = some m) :
    (packManifest m).isSome ∧ m.Sized := by
  rcases Option.bind_eq_some_iff.mp h with ⟨data, _, hparse⟩
  rcases pack_of_parseManifest hparse with ⟨hpack, hsized⟩
  exact ⟨by rw [hpack]; rfl, hsized⟩

theorem patchManifestField_wp (field : String) (value : Int) (r : Repo) :
    Wp (patchManifestField field value)
      (fun _ r' => ∃ m f n data, Patches field value r m f n ∧
        packManifest (m.set f n) = some data ∧ r' = { r with manifest := some data })
      (fun _ r' => (∀ m f n, ¬ Patches field value r m f n) ∧ r' = r) r := by
  unfold patchManifestField
  cases hfound : findField field with
  | none =>
      refine wp_of_error rfl ⟨?_, rfl⟩
      intro m f n h
      have hsome := h.found
      rw [hfound] at hsome
      cases hsome
  | some f =>
      have hsame : ∀ m f' n, Patches field value r m f' n → f' = f := by
        intro m f' n h
        exact (Option.some.inj (hfound.symm.trans h.found)).symm
      refine wp_ite (fun hbytes => ?_) fun hinteger => ?_
      · refine wp_of_error rfl ⟨?_, rfl⟩
        intro m f' n h
        have hint := h.integer
        rw [hsame m f' n h, hbytes] at hint
        cases hint
      rw [Bool.not_eq_true] at hinteger
      refine (loadManifest_wp r).bind ?_ ?_
      · intro m r' h
        rcases h with ⟨hfields, rfl⟩
        have hm : ∀ m' f' n, Patches field value r' m' f' n → m' = m := by
          intro m' f' n h
          exact (Option.some.inj (hfields.symm.trans h.fields)).symm
        have hset := packManifest_set (Repo.fields_packed hfields).1 f hinteger
        cases value with
        | negSucc k =>
            refine wp_of_error rfl ⟨?_, rfl⟩
            intro m' f' n h
            cases h.value_eq
        | ofNat n =>
            cases hpack : packManifest (m.set f n) with
            | some data =>
                have hfits : n < f.bound := (hset n).mp (by rw [hpack]; rfl)
                refine wp_of_ok (?_ : _ = EStateM.Result.ok 0 { r' with manifest := some data })
                  ⟨m, f, n, data, ⟨hfound, hinteger, hfields, rfl, hfits⟩, hpack, rfl⟩
                simp only [hpack]
                rfl
            | none =>
                refine wp_of_error (?_ : _ = EStateM.Result.error .structError r') ⟨?_, rfl⟩
                · simp only [hpack]
                  rfl
                · intro m' f' n' h
                  have hn : n' = n := (Int.ofNat.inj h.value_eq).symm
                  have hsome := (hset n).mpr (hn ▸ hsame m' f' n' h ▸ h.fits)
                  rw [hpack] at hsome
                  cases hsome
      · intro _ r' h
        rcases h with ⟨hnone, rfl⟩
        refine ⟨?_, rfl⟩
        intro m f' n h
        have hsome := h.fields
        rw [hnone] at hsome
        cases hsome

theorem patchFlashByte_wp (offset : Int) (xorValue value : Option Int) (r : Repo) :
    Wp (patchFlashByte offset xorValue value)
      (fun _ r' => ∃ data, r.flash = some data ∧ 0 ≤ offset ∧ offset < data.length ∧
        r' = { r with
          flash := some (data.set offset.toNat
            (patchByte xorValue value (data.getD offset.toNat 0))) })
      (fun _ r' => (∀ data, r.flash = some data → offset < 0 ∨ data.length ≤ offset) ∧ r' = r)
      r := by
  unfold patchFlashByte
  refine (readFlashImage_wp r).bind ?_ ?_
  · intro data r' h
    rcases h with ⟨hflash, rfl⟩
    refine wp_ite (fun hout => ?_) fun hin => ?_
    · refine wp_of_error rfl ⟨?_, rfl⟩
      intro data' h
      rw [hflash] at h
      cases h
      exact hout
    · refine wp_of_ok rfl ⟨data, hflash, ?_, ?_, rfl⟩
      · exact Int.not_lt.mp fun h => hin (.inl h)
      · exact Int.not_le.mp fun h => hin (.inr h)
  · intro _ r' h
    rcases h with ⟨hnone, rfl⟩
    refine ⟨?_, rfl⟩
    intro data h
    rw [hnone] at h
    cases h

theorem zeroFlashRegion_wp (offset length : Int) (r : Repo) :
    Wp (zeroFlashRegion offset length)
      (fun _ r' => ∃ data, r.flash = some data ∧ 0 ≤ offset ∧ offset + length ≤ data.length ∧
        r' = { r with
          flash := some (setSlice data offset (offset + length)
            (List.replicate length.toNat 0)) })
      (fun _ r' => (∀ data, r.flash = some data → offset < 0 ∨ data.length < offset + length) ∧
        r' = r) r := by
  unfold zeroFlashRegion
  refine (readFlashImage_wp r).bind ?_ ?_
  · intro data r' h
    rcases h with ⟨hflash, rfl⟩
    refine wp_ite (fun hout => ?_) fun hin => ?_
    · refine wp_of_error rfl ⟨?_, rfl⟩
      intro data' h
      rw [hflash] at h
      cases h
      exact hout
    · refine wp_of_ok rfl ⟨data, hflash, ?_, ?_, rfl⟩
      · exact Int.not_lt.mp fun h => hin (.inl h)
      · exact Int.not_lt.mp fun h => hin (.inr h)
  · intro _ r' h
    rcases h with ⟨hnone, rfl⟩
    refine ⟨?_, rfl⟩
    intro data h
    rw [hnone] at h
    cases h

end SecureBoot.Tools
