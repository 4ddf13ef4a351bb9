import SecureBoot.Base.Transition
import SecureBoot.Tools.ImageTool

/-!
# Sessions with the tools

The files of a repository as the scripts build them, and what any sequence of `image_tool.py`
commands makes of them, failed ones among them: which files and fields it leaves, what
`check-artifacts` says then, and what `sign_firmware.py` does with them.
-/

namespace SecureBoot.Tools

open Exec

/-! ## One command -/

/-- What `patch-manifest-field` sets. -/
def Command.sets : Command → Option (Field × Nat)
  | .patchManifestField field (.ofNat n) =>
      match findField field with
      | some f => if f.isBytes = false ∧ n < f.bound then some (f, n) else none
      | none => none
  | _ => none

def Fields.after (m : Fields) (c : Command) : Fields :=
  match c.sets with
  | some (f, n) => m.set f n
  | none => m

/-- Every command but `zero-flash-region` with a negative length. -/
def Command.KeepsSize (c : Command) : Prop :=
  ∀ offset length, c = .zeroFlashRegion offset length → 0 ≤ length

theorem Command.of_sets {c : Command} {f : Field} {n : Nat} (h : c.sets = some (f, n)) :
    ∃ name, c = .patchManifestField name n ∧ findField name = some f ∧ f.isBytes = false ∧
      n < f.bound := by
  cases c with
  | patchManifestField name value =>
      cases value with
      | negSucc k => cases h
      | ofNat k =>
          rw [Command.sets] at h
          cases hfound : findField name with
          | none =>
              rw [hfound] at h
              cases h
          | some g =>
              simp only [hfound] at h
              by_cases hfits : g.isBytes = false ∧ k < g.bound
              · rw [if_pos hfits] at h
                cases h
                exact ⟨name, rfl, hfound, hfits⟩
              · rw [if_neg hfits] at h
                cases h
  | _ => cases h

theorem Command.sets_of_found {name : String} {f : Field} (hfound : findField name = some f)
    (hinteger : f.isBytes = false) {n : Nat} (hfits : n < f.bound) :
    (Command.patchManifestField name n).sets = some (f, n) := by
  show (match findField name with
    | some g => if g.isBytes = false ∧ n < g.bound then some (g, n) else none
    | none => none) = some (f, n)
  rw [hfound]
  exact if_pos ⟨hinteger, hfits⟩

theorem setSlice_length {data : List Byte} {offset length : Int} (hoffset : 0 ≤ offset)
    (hlength : 0 ≤ length) (hin : offset + length ≤ data.length) :
    (setSlice data offset (offset + length) (List.replicate length.toNat 0)).length =
      data.length := by
  have hstart : sliceIndex data.length offset = offset.toNat := by
    rw [sliceIndex, if_neg (by omega), Nat.min_eq_left (by omega)]
  have hstop : sliceIndex data.length (offset + length) = (offset + length).toNat := by
    rw [sliceIndex, if_neg (by omega), Nat.min_eq_left (by omega)]
  rw [setSlice, hstart, hstop, List.length_append, List.length_append, List.length_take,
    List.length_replicate, List.length_drop]
  omega

/-- What a command can do to files with a manifest. -/
inductive Edit (r : Repo) (m : Fields) (c : Command) : Repo → Prop
  | keep (hsets : c.sets = none) : Edit r m c r
  | flash (hsets : c.sets = none) (data data' : List Byte) (hflash : r.flash = some data)
      (hsize : c.KeepsSize → data'.length = data.length) :
      Edit r m c { r with flash := some data' }
  | field (f : Field) (n : Nat) (hsets : c.sets = some (f, n)) (data : List Byte)
      (hpack : packManifest (m.set f n) = some data) : Edit r m c { r with manifest := some data }

theorem sets_none_of_keeps {r : Repo} {m : Fields} (hm : r.fields = some m) {name : String}
    {value : Int} (h : ∀ m f n, ¬ Patches name value r m f n) :
    (Command.patchManifestField name value).sets = none := by
  cases hsets : (Command.patchManifestField name value).sets with
  | none => rfl
  | some set =>
      rcases Command.of_sets hsets with ⟨_, heq, hfound, hinteger, hfits⟩
      cases heq
      exact absurd ⟨hfound, hinteger, hm, rfl, hfits⟩ (h m set.1 set.2)

/-- A command that fails does nothing, and would have set no field. -/
theorem main_wp (c : Command) {r : Repo} {m : Fields} (hm : r.fields = some m) :
    Wp (main c) (fun _ r' => Edit r m c r') (fun _ r' => c.sets = none ∧ r' = r) r := by
  cases c with
  | inspect => exact (inspect_keeps r).mono (fun _ _ h => h ▸ .keep rfl) fun _ _ h => ⟨rfl, h⟩
  | checkArtifacts =>
      exact (runCheckArtifacts_keeps r).mono (fun _ _ h => h ▸ .keep rfl) fun _ _ h => ⟨rfl, h⟩
  | patchFlashByte offset xorValue value =>
      refine (patchFlashByte_wp offset xorValue value r).mono ?_ fun _ _ h => ⟨rfl, h.2⟩
      intro _ r' h
      rcases h with ⟨data, hflash, _, _, rfl⟩
      exact .flash rfl data _ hflash fun _ => List.length_set
  | zeroFlashRegion offset length =>
      refine (zeroFlashRegion_wp offset length r).mono ?_ fun _ _ h => ⟨rfl, h.2⟩
      intro _ r' h
      rcases h with ⟨data, hflash, hoffset, hin, rfl⟩
      exact .flash rfl data _ hflash fun hkeeps =>
        setSlice_length hoffset (hkeeps offset length rfl) hin
  | patchManifestField name value =>
      refine (patchManifestField_wp name value r).mono ?_ ?_
      · intro _ r' h
        rcases h with ⟨m', f, n, data, hpatches, hpack, rfl⟩
        cases hm.symm.trans hpatches.fields
        have hvalue := hpatches.value_eq
        subst hvalue
        exact .field f n (Command.sets_of_found hpatches.found hpatches.integer hpatches.fits) data
          hpack
      · intro _ r' h
        exact ⟨sets_none_of_keeps hm h.1, h.2⟩

/-! ## Sessions -/

/-- The files after a run of the tool, however it ended. -/
def Ran (r : Repo) (c : Command) (r' : Repo) : Prop :=
  (∃ code, main c r = .ok code r') ∨ ∃ e, main c r = .error e r'

theorem ran_exists (r : Repo) (c : Command) : ∃ r', Ran r c r' := by
  cases h : main c r with
  | ok code r' => exact ⟨r', .inl ⟨code, h⟩⟩
  | error e r' => exact ⟨r', .inr ⟨e, h⟩⟩

theorem edit_of_ran {r r' : Repo} {m : Fields} (hm : r.fields = some m) {c : Command}
    (h : Ran r c r') : Edit r m c r' := by
  rcases h with ⟨code, h⟩ | ⟨e, h⟩
  · exact (main_wp c hm).ok h
  · rcases (main_wp c hm).error h with ⟨hsets, rfl⟩
    exact .keep hsets

/-- All files are there. -/
def Artifacts.repo (a : Artifacts) : Repo :=
  ⟨some a.manifest, some a.signature, some a.publicKey, some a.pubkeyHash, some a.kernel,
    some a.flash⟩

theorem Artifacts.repo_injective {a a' : Artifacts} (h : a.repo = a'.repo) : a = a' := by
  cases a
  cases a'
  cases h
  rfl

/-- Only the manifest and the flash image may differ. -/
structure Derived (a a' : Artifacts) : Prop where
  signature : a'.signature = a.signature
  publicKey : a'.publicKey = a.publicKey
  pubkeyHash : a'.pubkeyHash = a.pubkeyHash
  kernel : a'.kernel = a.kernel

/-- The files with the fields that commands leave. -/
structure Edited (a : Artifacts) (m : Fields) (a' : Artifacts) : Prop extends Derived a a' where
  fields : parseManifest a'.manifest = some m

theorem Edited.repo_fields {a a' : Artifacts} {m : Fields} (h : Edited a m a') :
    a'.repo.fields = some m := h.fields

theorem edited_edit {a a₁ : Artifacts} {m : Fields} (h : Edited a m a₁) {c : Command} {r : Repo}
    (hedit : Edit a₁.repo m c r) :
    ∃ a', r = a'.repo ∧ Edited a (m.after c) a' ∧
      (c.KeepsSize → a'.flash.length = a₁.flash.length) := by
  cases hedit with
  | keep hsets =>
      refine ⟨a₁, rfl, ⟨h.toDerived, ?_⟩, fun _ => rfl⟩
      rw [Fields.after, hsets]
      exact h.fields
  | flash hsets data data' hflash hsize =>
      cases hflash
      refine ⟨{ a₁ with flash := data' }, rfl,
        ⟨⟨h.signature, h.publicKey, h.pubkeyHash, h.kernel⟩, ?_⟩, hsize⟩
      rw [Fields.after, hsets]
      exact h.fields
  | field f n hsets data hpack =>
      refine ⟨{ a₁ with manifest := data }, rfl,
        ⟨⟨h.signature, h.publicKey, h.pubkeyHash, h.kernel⟩, ?_⟩, fun _ => rfl⟩
      rw [Fields.after, hsets]
      have hsized := (pack_of_parseManifest h.fields).2
      apply parseManifest_of_pack hpack
      rw [Fields.Sized, Fields.set_payloadHash, Fields.set_nextPubkeyHash]
      exact hsized

/-- A session leaves the fields as its commands set them. -/
theorem edited_session {a : Artifacts} {r r' : Repo} {commands : List Command}
    (hrun : Transition.Run Ran r commands r') {a₁ : Artifacts} (hr : r = a₁.repo) {m : Fields}
    (h : Edited a m a₁) : ∃ a', r' = a'.repo ∧ Edited a (commands.foldl Fields.after m) a' := by
  induction hrun generalizing a₁ m with
  | nil r => exact ⟨a₁, hr, h⟩
  | cons r r₁ r' c commands hstep _ ih =>
      subst hr
      rcases edited_edit h (edit_of_ran h.repo_fields hstep) with ⟨a₂, hr₁, h₂, _⟩
      exact ih hr₁ h₂

/-- And the flash image as long as it was. -/
theorem flash_length_session {a : Artifacts} {r r' : Repo} {commands : List Command}
    (hrun : Transition.Run Ran r commands r') (hkeeps : ∀ c ∈ commands, c.KeepsSize)
    {a₁ : Artifacts} (hr : r = a₁.repo) {m : Fields} (h : Edited a m a₁) :
    ∃ data, r'.flash = some data ∧ data.length = a₁.flash.length := by
  induction hrun generalizing a₁ m with
  | nil r => exact ⟨a₁.flash, by rw [hr]; rfl, rfl⟩
  | cons r r₁ r' c commands hstep _ ih =>
      subst hr
      rcases edited_edit h (edit_of_ran h.repo_fields hstep) with ⟨a₂, hr₁, h₂, hsize⟩
      rcases ih (fun c hc => hkeeps c (List.mem_cons_of_mem _ hc)) hr₁ h₂ with ⟨data, hdata, hlen⟩
      exact ⟨data, hdata, hlen.trans (hsize (hkeeps c List.mem_cons_self))⟩

theorem edited_self {a : Artifacts} {m : Fields} (hm : parseManifest a.manifest = some m) :
    Edited a m a := ⟨⟨rfl, rfl, rfl, rfl⟩, hm⟩

/-! ## The last write wins -/

/-- The value a command gives a field. -/
def Command.setsField (f : Field) (c : Command) : Option Nat :=
  match c.sets with
  | some (g, n) => if g = f then some n else none
  | none => none

theorem get_after (m : Fields) (c : Command) (f : Field) :
    (m.after c).get f = (c.setsField f).getD (m.get f) := by
  rw [Fields.after, Command.setsField]
  cases hsets : c.sets with
  | none => rfl
  | some set =>
      rcases set with ⟨g, n⟩
      show (m.set g n).get f = (if g = f then some n else none).getD (m.get f)
      by_cases hg : g = f
      · rcases Command.of_sets hsets with ⟨_, _, _, hinteger, _⟩
        rw [if_pos hg, ← hg, m.get_set_same g n hinteger]
        rfl
      · rw [if_neg hg, m.get_set_other n (Ne.symm hg)]
        rfl

theorem get_foldl_after (m : Fields) (commands : List Command) (f : Field) :
    (commands.foldl Fields.after m).get f =
      (commands.reverse.findSome? (Command.setsField f)).getD (m.get f) := by
  induction commands generalizing m with
  | nil => rfl
  | cons c commands ih =>
      rw [List.foldl_cons, ih, get_after, List.reverse_cons, List.findSome?_append]
      cases commands.reverse.findSome? (Command.setsField f) with
      | some n => rfl
      | none => cases hset : c.setsField f <;> simp [List.findSome?, hset]

theorem hashes_foldl_after (m : Fields) (commands : List Command) :
    (commands.foldl Fields.after m).payloadHash = m.payloadHash ∧
      (commands.foldl Fields.after m).nextPubkeyHash = m.nextPubkeyHash := by
  have hone : ∀ (m : Fields) (c : Command), (m.after c).payloadHash = m.payloadHash ∧
      (m.after c).nextPubkeyHash = m.nextPubkeyHash := by
    intro m c
    rw [Fields.after]
    cases c.sets with
    | none => exact ⟨rfl, rfl⟩
    | some set => exact ⟨m.set_payloadHash _ _, m.set_nextPubkeyHash _ _⟩
  induction commands generalizing m with
  | nil => exact ⟨rfl, rfl⟩
  | cons c commands ih =>
      rcases ih (m.after c) with ⟨hhash, hnext⟩
      exact ⟨hhash.trans (hone m c).1, hnext.trans (hone m c).2⟩

/-! ## The checker -/

/-- The checker's comparisons of the fields that the tool can change. -/
structure IntegersOk (m : Fields) (kernel : List Byte) : Prop where
  magic : m.magic = 0x54424F53
  headerVersion : m.headerVersion = 1
  version : 1 ≤ m.version
  payloadSize : m.payloadSize = kernel.length
  loadAddress : 0x80000000 ≤ m.loadAddress
  entryPoint : 0x80000000 ≤ m.entryPoint

theorem fieldsOk_iff (m : Fields) (kernel : List Byte) :
    FieldsOk m kernel ↔ IntegersOk m kernel ∧ m.payloadHash = Fips180.sha256 kernel := by
  constructor
  · intro h
    exact ⟨⟨h.magic, h.headerVersion, h.version, h.payloadSize, h.loadAddress, h.entryPoint⟩,
      h.payloadHash⟩
  · intro h
    rcases h with ⟨h, hhash⟩
    exact ⟨h.magic, h.headerVersion, h.version, h.payloadSize, h.loadAddress, h.entryPoint, hhash⟩

/-- The image as the files have it. -/
def Artifacts.image (a : Artifacts) : List Byte :=
  a.manifest ++ a.signature ++ a.publicKey ++ a.kernel

theorem take_slices (data : List Byte) (n : Nat) : data.take (0xC0 + n) =
    slice data 0 96 ++ slice data 0x60 64 ++ slice data 0xA0 32 ++ slice data 0xC0 n := by
  rw [show 0xC0 + n = 96 + 64 + 32 + n by omega, List.take_add, List.take_add, List.take_add]
  rfl

theorem Consistent.take_flash {a : Artifacts} (h : Consistent a) :
    a.flash.take (0xC0 + a.kernel.length) = a.image := by
  rw [take_slices, h.flashManifest, h.flashSignature, h.flashPublicKey, h.flashKernel]
  rfl

/-- The parts at their offsets. -/
structure Layout (a : Artifacts) : Prop where
  size : 0xC0 + a.kernel.length ≤ a.flash.length
  manifest : slice a.flash 0 96 = a.manifest
  signature : slice a.flash 0x60 64 = a.signature
  publicKey : slice a.flash 0xA0 32 = a.publicKey
  kernel : slice a.flash 0xC0 a.kernel.length = a.kernel

/-- A flash that begins with the image has them there. -/
theorem layout_of_image {a : Artifacts} (hmanifest : a.manifest.length = 96)
    (hsignature : a.signature.length = 64) (hkey : a.publicKey.length = 32)
    (hflash : a.flash.take (0xC0 + a.kernel.length) = a.image) : Layout a := by
  have hsize : 0xC0 + a.kernel.length ≤ a.flash.length := by
    have htake := congrArg List.length hflash
    simp only [Artifacts.image, List.length_take, List.length_append, hmanifest, hsignature, hkey]
      at htake
    omega
  have hslice : ∀ start size, start + size ≤ a.flash.length →
      (slice a.flash start size).length = size := by
    intro start size h
    rw [slice, List.length_take, List.length_drop]
    omega
  rw [take_slices, Artifacts.image] at hflash
  rcases List.append_inj' hflash (hslice _ _ hsize) with ⟨hflash, h₄⟩
  rcases List.append_inj' hflash ((hslice _ _ (by omega)).trans hkey.symm) with ⟨hflash, h₃⟩
  rcases List.append_inj' hflash ((hslice _ _ (by omega)).trans hsignature.symm) with ⟨h₁, h₂⟩
  exact ⟨hsize, h₁, h₂, h₃, h₄⟩

/-- On files that go together a flash is accepted if it begins with the image. -/
theorem consistent_of_image {a : Artifacts} (hmanifest : a.manifest.length = 96)
    (hsignature : a.signature.length = 64) (hkey : a.publicKey.length = 32)
    (hhash : a.pubkeyHash.length = 32) (hotp : Fips180.sha256 a.publicKey = a.pubkeyHash)
    (hfields : ∀ m, parseManifest a.manifest = some m → FieldsOk m a.kernel)
    (hflash : a.flash.take (0xC0 + a.kernel.length) = a.image) : Consistent a := by
  have h := layout_of_image hmanifest hsignature hkey hflash
  exact ⟨hmanifest, hsignature, hkey, hhash, hfields, hotp, h.size, h.manifest, h.signature,
    h.publicKey, h.kernel⟩

/-! ## The files of a build -/

/-- The values in `manifest_generators.py`. -/
def manifestFields (version : Nat) (kernelData : List Byte) : Fields where
  magic := 0x54424F53
  headerVersion := 1
  flags := 0
  version := version
  payloadSize := kernelData.length
  loadAddress := 0x80000000
  entryPoint := 0x80000000
  reserved := 0
  pad := 0
  payloadHash := Fips180.sha256 kernelData
  nextPubkeyHash := List.replicate 32 0

/-- Both scripts have the format. -/
theorem manifestBin_fields (version : Nat) (kernelData : List Byte) :
    manifestBin version kernelData = packManifest (manifestFields version kernelData) := rfl

theorem parseManifest_manifestBin {version : Nat} {kernelData manifest : List Byte}
    (h : manifestBin version kernelData = some manifest) :
    parseManifest manifest = some (manifestFields version kernelData) := by
  rw [manifestBin_fields] at h
  exact parseManifest_of_pack h ⟨Fips180.sha256_length kernelData, List.length_replicate⟩

theorem manifestFields_ok (version : Nat) (kernelData : List Byte) :
    FieldsOk (manifestFields version kernelData) kernelData ↔ 1 ≤ version :=
  ⟨fun h => h.version, fun h => ⟨rfl, rfl, h, rfl, Nat.le_refl _, Nat.le_refl _, rfl⟩⟩

/-- A manifest that passes, with a signature, a key and a kernel of any contents. -/
def Artifacts.ofParts (manifest signature publicKey kernel : List Byte) : Artifacts where
  manifest := manifest
  signature := signature
  publicKey := publicKey
  pubkeyHash := Fips180.sha256 publicKey
  kernel := kernel
  flash := manifest ++ signature ++ publicKey ++ kernel

theorem consistent_ofParts {m : Fields} {manifest signature publicKey kernel : List Byte}
    (hm : parseManifest manifest = some m) (hsignature : signature.length = 64)
    (hkey : publicKey.length = 32) :
    Consistent (.ofParts manifest signature publicKey kernel) ↔ FieldsOk m kernel := by
  have hmanifest := parseManifest_length hm
  constructor
  · exact fun h => h.fields m hm
  · intro hok
    apply consistent_of_image
    · exact hmanifest
    · exact hsignature
    · exact hkey
    · exact Fips180.sha256_length publicKey
    · rfl
    · intro m' hm'
      cases hm.symm.trans hm'
      exact hok
    · apply List.take_of_length_le
      show (manifest ++ signature ++ publicKey ++ kernel).length ≤ 0xC0 + kernel.length
      simp only [List.length_append, hmanifest, hsignature, hkey]
      omega

section Built

variable (nacl : NaCl) (sk : nacl.SigningKey)

/-- The files that `key_generator.py`, `manifest_generators.py` and `sign_firmware.py` leave. -/
def built (version : Nat) (kernel : List Byte) : Option Artifacts := do
  let manifest ← manifestBin version kernel
  let flash ← flashImageBin nacl sk manifest (publicKeyBin nacl sk) kernel
  pure ⟨manifest, nacl.sign sk manifest, publicKeyBin nacl sk, pubkeyHashBin nacl sk, kernel, flash⟩

theorem built_eq {version : Nat} {kernel manifest : List Byte}
    (h : manifestBin version kernel = some manifest) :
    built nacl sk version kernel =
      some (.ofParts manifest (nacl.sign sk manifest) (nacl.verifyKey sk) kernel) := by
  have hparse := parseManifest_manifestBin h
  simp only [built, h, flashImageBin, parseManifest_length hparse, if_true, Option.bind_eq_bind,
    Option.bind_some, Option.pure_def, Artifacts.ofParts, publicKeyBin, pubkeyHashBin]

theorem manifestBin_isSome (version : Nat) (kernel : List Byte) :
    (manifestBin version kernel).isSome ↔ version < 2 ^ 32 ∧ kernel.length < 2 ^ 32 := by
  rw [manifestBin_fields, packManifest_isSome]
  constructor
  · exact fun h => ⟨h .version, h .payloadSize⟩
  · intro h f
    rcases h with ⟨hversion, hsize⟩
    cases f with
    | version => exact hversion
    | payloadSize => exact hsize
    | _ => simp [manifestFields, Fields.get, Field.bound]

theorem built_isSome (version : Nat) (kernel : List Byte) :
    (∃ a, built nacl sk version kernel = some a) ↔
      version < 2 ^ 32 ∧ kernel.length < 2 ^ 32 := by
  rw [← manifestBin_isSome]
  cases hmanifest : manifestBin version kernel with
  | none => simp [built, hmanifest]
  | some manifest => simp [built_eq nacl sk hmanifest]

/-- What is built is accepted unless its version is 0. -/
theorem checkArtifacts_built {version : Nat} {kernel : List Byte} {a : Artifacts}
    (h : built nacl sk version kernel = some a) : checkArtifacts a = 0 ↔ 1 ≤ version := by
  cases hmanifest : manifestBin version kernel with
  | none =>
      rw [built, hmanifest] at h
      cases h
  | some manifest =>
      have hconsistent : Consistent (.ofParts manifest (nacl.sign sk manifest) (nacl.verifyKey sk)
          kernel) ↔ FieldsOk (manifestFields version kernel) kernel :=
        consistent_ofParts (parseManifest_manifestBin hmanifest) (nacl.sign_length sk manifest)
          (nacl.verifyKey_length sk)
      rw [built_eq nacl sk hmanifest] at h
      cases h
      rwa [manifestFields_ok, ← checkArtifacts_iff] at hconsistent

/-- The scripts build files that `check-artifacts` accepts exactly for the versions from 1 on and
the kernels whose size fits the manifest, and files that it rejects exactly for version 0. -/
theorem built_checked_iff (version : Nat) (kernel : List Byte) :
    ((∃ a, built nacl sk version kernel = some a ∧ checkArtifacts a = 0) ↔
        1 ≤ version ∧ version < 2 ^ 32 ∧ kernel.length < 2 ^ 32) ∧
      ((∃ a, built nacl sk version kernel = some a ∧ checkArtifacts a ≠ 0) ↔
        version = 0 ∧ kernel.length < 2 ^ 32) := by
  have hbuilt := built_isSome nacl sk version kernel
  have hcheck : ∀ a, built nacl sk version kernel = some a →
      (checkArtifacts a = 0 ↔ 1 ≤ version) := fun a => checkArtifacts_built nacl sk
  constructor
  · constructor
    · intro h
      rcases h with ⟨a, ha, hok⟩
      exact ⟨(hcheck a ha).mp hok, hbuilt.mp ⟨a, ha⟩⟩
    · intro h
      rcases hbuilt.mpr h.2 with ⟨a, ha⟩
      exact ⟨a, ha, (hcheck a ha).mpr h.1⟩
  · constructor
    · intro h
      rcases h with ⟨a, ha, hrejected⟩
      have hzero := (hcheck a ha).not.mp hrejected
      exact ⟨by omega, (hbuilt.mp ⟨a, ha⟩).2⟩
    · intro h
      rcases h with ⟨hzero, hsize⟩
      rcases hbuilt.mpr ⟨by omega, hsize⟩ with ⟨a, ha⟩
      exact ⟨a, ha, (hcheck a ha).not.mpr (by omega)⟩

end Built

/-! ## The checker after a session -/

/-- No kernel, with a signature and a key that the checker cannot tell from others. -/
def emptyFiles : Artifacts :=
  .ofParts ((manifestBin 1 []).getD []) (List.replicate 64 0) (List.replicate 32 0) []

theorem emptyFiles_fields : parseManifest emptyFiles.manifest = some (manifestFields 1 []) := by
  rcases Option.isSome_iff_exists.mp ((manifestBin_isSome 1 []).mpr ⟨by decide, by decide⟩) with
    ⟨manifest, hmanifest⟩
  show parseManifest ((manifestBin 1 []).getD []) = _
  rw [hmanifest]
  exact parseManifest_manifestBin hmanifest

theorem emptyFiles_consistent : Consistent emptyFiles :=
  (consistent_ofParts emptyFiles_fields List.length_replicate List.length_replicate).mpr
    ((manifestFields_ok 1 []).mpr (Nat.le_refl 1))

/-! ## After a session -/

/-- After any commands, failed ones among them, every integer field of the manifest is the last
value in its range that was given for it, else the old one; both hashes, the signature, the keys
and the kernel are the old ones. -/
theorem session_leaves {a : Artifacts} {m : Fields} (hm : parseManifest a.manifest = some m)
    {r : Repo} {commands : List Command} (hrun : Transition.Run Ran a.repo commands r) :
    ∃ a' m', r = a'.repo ∧ Derived a a' ∧ parseManifest a'.manifest = some m' ∧
      m'.payloadHash = m.payloadHash ∧ m'.nextPubkeyHash = m.nextPubkeyHash ∧
      ∀ f, m'.get f = (commands.reverse.findSome? (Command.setsField f)).getD (m.get f) := by
  rcases edited_session hrun rfl (edited_self hm) with ⟨a', hr, h⟩
  rcases hashes_foldl_after m commands with ⟨hhash, hnext⟩
  exact ⟨a', _, hr, h.toDerived, h.fields, hhash, hnext, get_foldl_after m commands⟩

theorem emptyFiles_leaves :
    ∃ r, Transition.Run Ran emptyFiles.repo
        [.patchManifestField "version" 7, .patchManifestField "version" (-1)] r ∧
      ∃ a' m', r = a'.repo ∧ Derived emptyFiles a' ∧ parseManifest a'.manifest = some m' ∧
        m'.get .version = 7 := by
  rcases ran_exists emptyFiles.repo (.patchManifestField "version" 7) with ⟨r₁, h₁⟩
  rcases ran_exists r₁ (.patchManifestField "version" (-1)) with ⟨r, h⟩
  have hrun := Transition.Run.cons emptyFiles.repo r₁ r _ _ h₁ (.one h)
  rcases session_leaves emptyFiles_fields hrun with ⟨a', m', hr, hderived, hm', _, _, hget⟩
  exact ⟨r, hrun, a', m', hr, hderived, hm', hget .version⟩

/-- With the tool's edits two things decide: the flash begins with the present manifest and the old
rest, and the present manifest passes. -/
theorem Derived.consistent_iff {a a' : Artifacts} (ha : Consistent a) (h : Derived a a')
    {m m' : Fields} (hm : parseManifest a.manifest = some m)
    (hm' : parseManifest a'.manifest = some m') (hhash : m'.payloadHash = m.payloadHash) :
    Consistent a' ↔ a'.flash.take (0xC0 + a.kernel.length) =
        a'.manifest ++ a.signature ++ a.publicKey ++ a.kernel ∧ IntegersOk m' a.kernel := by
  have himage : a'.manifest ++ a.signature ++ a.publicKey ++ a.kernel = a'.image := by
    rw [Artifacts.image, h.signature, h.publicKey, h.kernel]
  rw [himage]
  constructor
  · intro hc
    refine ⟨?_, ?_⟩
    · rw [← h.kernel]
      exact hc.take_flash
    · rw [← h.kernel]
      exact ((fieldsOk_iff m' a'.kernel).mp (hc.fields m' hm')).1
  · intro hc
    rcases hc with ⟨hflash, hok⟩
    refine consistent_of_image (parseManifest_length hm') ?_ ?_ ?_ ?_ ?_ (h.kernel ▸ hflash)
    · rw [h.signature, ha.signatureSize]
    · rw [h.publicKey, ha.publicKeySize]
    · rw [h.pubkeyHash, ha.pubkeyHashSize]
    · rw [h.publicKey, h.pubkeyHash, ha.pubkeyHash]
    · intro m₁ hm₁
      cases hm'.symm.trans hm₁
      rw [h.kernel]
      exact (fieldsOk_iff m' a.kernel).mpr ⟨hok, hhash.trans (ha.fields m hm).payloadHash⟩

/-- After any commands on files that go together, failed ones among them, the checker accepts
exactly if the flash begins with the manifest as the commands left it and the signature, the key
and the kernel from before, and the integer fields of that manifest pass. -/
theorem check_after_session {a : Artifacts} (ha : Consistent a) {m : Fields}
    (hm : parseManifest a.manifest = some m) {r : Repo} {commands : List Command}
    (hrun : Transition.Run Ran a.repo commands r) :
    ∃ a', r = a'.repo ∧ runCheckArtifacts r = .ok (checkArtifacts a') r ∧
      packManifest (commands.foldl Fields.after m) = some a'.manifest ∧
      (checkArtifacts a' = 0 ↔ a'.flash.take (0xC0 + a.kernel.length) =
        a'.manifest ++ a.signature ++ a.publicKey ++ a.kernel ∧
        IntegersOk (commands.foldl Fields.after m) a.kernel) := by
  rcases edited_session hrun rfl (edited_self hm) with ⟨a', rfl, h⟩
  refine ⟨a', rfl, rfl, (pack_of_parseManifest h.fields).1, ?_⟩
  rw [checkArtifacts_iff]
  exact h.toDerived.consistent_iff ha hm h.fields (hashes_foldl_after m commands).1

theorem emptyFiles_after_session :
    ∃ r, Transition.Run Ran emptyFiles.repo [.patchManifestField "version" 0] r ∧
      ∃ a', r = a'.repo ∧ checkArtifacts a' ≠ 0 := by
  rcases ran_exists emptyFiles.repo (.patchManifestField "version" 0) with ⟨r, h⟩
  rcases check_after_session emptyFiles_consistent emptyFiles_fields (.one h) with
    ⟨a', hr, _, _, hiff⟩
  exact ⟨r, .one h, a', hr, fun hzero => absurd (hiff.mp hzero).2.version (by decide)⟩

/-! ## Edits of the flash -/

/-- Every command but `patch-manifest-field`. -/
def Command.OnFlash (c : Command) : Prop := ∀ field value, c ≠ .patchManifestField field value

theorem Command.OnFlash.sets_eq {c : Command} (h : c.OnFlash) : c.sets = none := by
  cases c with
  | patchManifestField field value => exact absurd rfl (h field value)
  | _ => rfl

theorem foldl_after_onFlash (m : Fields) {commands : List Command}
    (honly : ∀ c ∈ commands, c.OnFlash) : commands.foldl Fields.after m = m := by
  induction commands with
  | nil => rfl
  | cons c commands ih =>
      have hfirst : m.after c = m := by
        rw [Fields.after, (honly c List.mem_cons_self).sets_eq]
      rw [List.foldl_cons, hfirst]
      exact ih fun c hc => honly c (List.mem_cons_of_mem _ hc)

/-- After any edits of the flash the checker accepts exactly if the image in it is untouched. -/
theorem check_after_flash_session {a : Artifacts} (ha : Consistent a) {r : Repo}
    {commands : List Command} (hrun : Transition.Run Ran a.repo commands r)
    (honly : ∀ c ∈ commands, c.OnFlash) :
    ∃ a', r = a'.repo ∧ Derived a a' ∧ a'.manifest = a.manifest ∧ (checkArtifacts a' = 0 ↔
      a'.flash.take (0xC0 + a.kernel.length) = a.flash.take (0xC0 + a.kernel.length)) := by
  rcases parseManifest_isSome ha.manifestSize with ⟨m, hm⟩
  rcases edited_session hrun rfl (edited_self hm) with ⟨a', rfl, h⟩
  have hfields := h.fields
  rw [foldl_after_onFlash m honly] at hfields
  have hmanifest : a'.manifest = a.manifest :=
    Option.some.inj
      ((pack_of_parseManifest hfields).1.symm.trans (pack_of_parseManifest hm).1)
  refine ⟨a', rfl, h.toDerived, hmanifest, ?_⟩
  rw [checkArtifacts_iff, h.toDerived.consistent_iff ha hm hfields rfl, hmanifest, ha.take_flash]
  exact and_iff_left ((fieldsOk_iff m a.kernel).mp (ha.fields m hm)).1

/-! ## `sign_firmware.py` -/

/-- `open(path, "rb").read()` -/
def openFile (path : String) (file : Option (List Byte)) : Tool (List Byte) :=
  match file with
  | some data => pure data
  | none => throw (.fileNotFound path)

variable (nacl : NaCl) (sk : nacl.SigningKey)

/-- With the private key at hand. -/
def signFirmware : Tool Unit := do
  let publicKeyBytes ← openFile "../metadata/public_key.bin" (← get).publicKey
  let manifestBytes ← openFile "../metadata/manifest.bin" (← get).manifest
  if manifestBytes.length ≠ 96 then
    throw (.assertionError ("manifest must be 96 bytes (got " ++ toString manifestBytes.length ++
      "); re-run manifest_generators.py"))
  let kernelBytes ← openFile "../software/kernel/kernel.bin" (← get).kernel
  let signature := nacl.sign sk manifestBytes
  modify fun r => { r with signature := some signature }
  modify fun r =>
    { r with flash := some (manifestBytes ++ signature ++ publicKeyBytes ++ kernelBytes) }

/-- The files with a signature and a flash image of their manifest. -/
def Artifacts.signed (a : Artifacts) : Artifacts :=
  { a with
    signature := nacl.sign sk a.manifest
    flash := a.manifest ++ nacl.sign sk a.manifest ++ a.publicKey ++ a.kernel }

theorem signFirmware_repo (a : Artifacts) (hlen : a.manifest.length = 96) :
    signFirmware nacl sk a.repo = .ok () (a.signed nacl sk).repo := by
  have hkey : openFile "../metadata/public_key.bin" a.repo.publicKey a.repo =
      .ok a.publicKey a.repo := rfl
  have hmanifest : openFile "../metadata/manifest.bin" a.repo.manifest a.repo =
      .ok a.manifest a.repo := rfl
  rw [signFirmware, bind_of_ok (get_apply a.repo), bind_of_ok hkey,
    bind_of_ok (get_apply a.repo), bind_of_ok hmanifest]
  simp only [hlen, ne_eq, not_true_eq_false, if_false]
  rfl

/-- A fresh flash image has the parts it was made of. -/
theorem layout_signed {a : Artifacts} (hmanifest : a.manifest.length = 96)
    (hkey : a.publicKey.length = 32) : Layout (a.signed nacl sk) := by
  apply layout_of_image
  · exact hmanifest
  · exact nacl.sign_length sk a.manifest
  · exact hkey
  · apply List.take_of_length_le
    show (a.manifest ++ nacl.sign sk a.manifest ++ a.publicKey ++ a.kernel).length ≤
      0xC0 + a.kernel.length
    simp only [List.length_append, hmanifest, nacl.sign_length, hkey]
    omega

/-- So the fields decide. -/
theorem consistent_signed {a a' : Artifacts} (ha : Consistent a) (h : Derived a a') {m' : Fields}
    (hm' : parseManifest a'.manifest = some m')
    (hhash : m'.payloadHash = Fips180.sha256 a.kernel) :
    Consistent (a'.signed nacl sk) ↔ IntegersOk m' a.kernel := by
  constructor
  · intro hc
    rw [← h.kernel]
    exact ((fieldsOk_iff m' a'.kernel).mp (hc.fields m' hm')).1
  · intro hok
    have hmanifest := parseManifest_length hm'
    have hkey : a'.publicKey.length = 32 := by rw [h.publicKey, ha.publicKeySize]
    have hlayout := layout_signed nacl sk hmanifest hkey
    refine ⟨hmanifest, nacl.sign_length sk a'.manifest, hkey, ?_, ?_, ?_, hlayout.size,
      hlayout.manifest, hlayout.signature, hlayout.publicKey, hlayout.kernel⟩
    · show a'.pubkeyHash.length = 32
      rw [h.pubkeyHash, ha.pubkeyHashSize]
    · intro m₁ hm₁
      cases hm'.symm.trans hm₁
      show FieldsOk m' a'.kernel
      rw [h.kernel]
      exact (fieldsOk_iff m' a.kernel).mpr ⟨hok, hhash⟩
    · show Fips180.sha256 a'.publicKey = a'.pubkeyHash
      rw [h.publicKey, h.pubkeyHash, ha.pubkeyHash]

/-- After any commands the files can be signed again. -/
theorem signed_session {a : Artifacts} (ha : Consistent a) {m : Fields}
    (hm : parseManifest a.manifest = some m) {r : Repo} {commands : List Command}
    (hrun : Transition.Run Ran a.repo commands r) :
    ∃ a', signFirmware nacl sk r = .ok () (a'.signed nacl sk).repo ∧
      Edited a (commands.foldl Fields.after m) a' ∧
      (Consistent (a'.signed nacl sk) ↔ IntegersOk (commands.foldl Fields.after m) a.kernel) := by
  rcases edited_session hrun rfl (edited_self hm) with ⟨a', rfl, h⟩
  refine ⟨a', signFirmware_repo nacl sk a' (parseManifest_length h.fields), h, ?_⟩
  exact consistent_signed nacl sk ha h.toDerived h.fields
    ((hashes_foldl_after m commands).1.trans (ha.fields m hm).payloadHash)

end SecureBoot.Tools
