import SecureBoot.Bootrom.Alike
import SecureBoot.Bootrom.Checked
import SecureBoot.Bootrom.Attribution
import SecureBoot.Tools.Session

/-!
# Mutated flash images on the chip

What the mutations of the validation suite do to a boot. Every edit of the flash is found by the
check of the first part it touches, and the recovery console says so, unless it produces a second
key or kernel with the digest of the first, or a new signature.
-/

namespace SecureBoot.Bootrom

open Words Exec Spi

/-! ## Parts that differ -/

theorem take_eq_map_getD (bs : List Byte) (n : Nat) (h : n ≤ bs.length) :
    bs.take n = (List.range n).map fun i => bs.getD i 0 := by
  apply List.ext_getElem
  · rw [List.length_take, List.length_map, List.length_range, Nat.min_eq_left h]
  · intro i hi hi'
    rw [List.length_take] at hi
    rw [List.getElem_take, List.getElem_map, List.getElem_range, List.getD_eq_getElem?_getD,
      List.getElem?_eq_getElem (by omega), Option.getD_some]

/-- The two header fields are the first six bytes. -/
theorem Manifest.take_header (M : Manifest) :
    M.bytes.take 6 = leBytes M.magic ++ (List.range 2).map (byteAt M.headerVersion) := by
  have hlen := M.length_eq
  rw [take_eq_map_getD _ _ (by omega), magic, word, leBytes_leWord, headerVersion,
    Tools.byteAt_halfWord]
  rfl

theorem halfBytes_injective {x y : BitVec 16}
    (h : (List.range 2).map (byteAt x) = (List.range 2).map (byteAt y)) : x = y := by
  have hbytes := List.map_inj_left.mp h
  have hlow := congrArg BitVec.toNat (hbytes 0 (by decide))
  have hhigh := congrArg BitVec.toNat (hbytes 1 (by decide))
  rw [byteAt_toNat, byteAt_toNat] at hlow hhigh
  have hx := x.isLt
  have hy := y.isLt
  apply BitVec.eq_of_toNat_eq
  omega

theorem Manifest.headerOk_iff {M M' : Manifest} (h : M'.HeaderOk) :
    M.HeaderOk ↔ M.bytes.take 6 = M'.bytes.take 6 := by
  rw [take_header, take_header, h.1, h.2]
  constructor
  · intro h
    rw [h.1, h.2]
  · intro h
    rcases List.append_inj h (by rw [leBytes_length, leBytes_length]) with ⟨hmagic, hversion⟩
    exact ⟨leBytes_injective hmagic, halfBytes_injective hversion⟩

variable (verify : Tools.Verify) (a : Tools.Artifacts)

/-- The first part, in the order of the stages, in which an image differs from the files. -/
def Image.differs (I : Image) : Option Check :=
  if I.manifest.bytes.take 6 ≠ a.manifest.take 6 then some .header
  else if I.publicKey ≠ a.publicKey then some .publicKey
  else if I.manifest.bytes ≠ a.manifest ∨ I.signature ≠ a.signature then some .signature
  else if I.payload ≠ a.kernel then some .payload
  else none

/-- What it takes to get past a check with other bytes. -/
inductive Image.Breaks (I : Image) : Prop
  | publicKey (h : I.publicKey ≠ a.publicKey)
      (hash : Fips180.sha256 I.publicKey = Fips180.sha256 a.publicKey)
  | signature (h : I.manifest.bytes ≠ a.manifest ∨ I.signature ≠ a.signature)
      (verified : verify a.publicKey I.manifest.bytes I.signature = true)
  | payload (h : I.payload ≠ a.kernel) (hash : Fips180.sha256 I.payload = Fips180.sha256 a.kernel)

/-- Files that go together, with a signature and a kernel that fits the flash and the memory below
the scratch area. -/
structure Installable : Prop where
  consistent : Tools.Consistent a
  signed : verify a.publicKey a.manifest a.signature = true
  nonempty : a.kernel ≠ []
  fits : 0xC0 + a.kernel.length ≤ 2 ^ 20
  below : ∀ m, Tools.parseManifest a.manifest = some m →
    m.loadAddress + a.kernel.length ≤ BOOT_SCRATCH_BASE

theorem selfLoop_installable : Installable selfLoop.accepts selfLoop.files where
  consistent := (Tools.checkArtifacts_iff _).mp selfLoop_files
  signed := decide_eq_true ⟨rfl, rfl, rfl⟩
  nonempty := by decide
  fits := by decide
  below := by
    intro m hm
    cases (parseManifest_bytes selfLoop.manifest).symm.trans hm
    have hload : selfLoop.manifest.fields.parsed.loadAddress = 0x80000000 := selfLoop_load
    rw [hload]
    decide

variable {verify a}

/-- The kernel is not loaded over a recovery image of this length. -/
def OffRecovery (a : Tools.Artifacts) (len : Nat) : Prop :=
  ∀ m, Tools.parseManifest a.manifest = some m →
    m.loadAddress + a.kernel.length ≤ RECOVERY_ENTRY ∨ RECOVERY_ENTRY + len ≤ m.loadAddress

/-- What the manifest of the files says. -/
structure Described (a : Tools.Artifacts) (M : Manifest) : Prop where
  guards : ¬ LoadRefused M
  size : M.payloadSize = a.kernel.length
  hash : M.payloadHash = Fips180.sha256 a.kernel
  dram : DRAM_BASE ≤ M.loadAddress
  below : M.loadAddress + M.payloadSize ≤ BOOT_SCRATCH_BASE

section Decision

variable (h : Installable verify a) (I : Image)
include h

theorem Installable.described (hman : I.manifest.bytes = a.manifest) : Described a I.manifest := by
  have hparse := parseManifest_bytes I.manifest
  rw [hman] at hparse
  have hfields := h.consistent.fields _ hparse
  have hsize : I.manifest.payloadSize = a.kernel.length := hfields.payloadSize
  have hload : DRAM_BASE ≤ I.manifest.loadAddress := hfields.loadAddress
  have hbelow : I.manifest.loadAddress + a.kernel.length ≤ BOOT_SCRATCH_BASE := h.below _ hparse
  refine ⟨?_, hsize, hfields.payloadHash, hload, by rwa [hsize]⟩
  intro hrefused
  rcases hrefused with hzero | hlow
  · exact h.nonempty (List.length_eq_zero_iff.mp (hsize ▸ hzero))
  · exact Nat.not_lt.mpr hload hlow

theorem Installable.sparesRecovery {len : Nat} (hoff : OffRecovery a len)
    (hman : I.manifest.bytes = a.manifest) : SparesRecovery len I.manifest := by
  have hparse := parseManifest_bytes I.manifest
  rw [hman] at hparse
  refine .inr fun x hx hin => ?_
  rw [LoadRange, (h.described I hman).size, Within] at hx
  rw [Within] at hin
  have hrange : I.manifest.loadAddress + a.kernel.length ≤ RECOVERY_ENTRY ∨
      RECOVERY_ENTRY + len ≤ I.manifest.loadAddress := hoff _ hparse
  omega

theorem Installable.headerOk_iff :
    I.manifest.HeaderOk ↔ I.manifest.bytes.take 6 = a.manifest.take 6 := by
  have hfields := readImage_fields h.consistent
  have hheader : (readImage h.consistent).manifest.HeaderOk :=
    ⟨BitVec.eq_of_toNat_eq hfields.magic, BitVec.eq_of_toNat_eq hfields.headerVersion⟩
  exact Manifest.headerOk_iff hheader

omit h in
theorem Image.keyOk_iff (hbreak : ¬ I.Breaks verify a) (soc : Soc Host)
    (hotp : soc.otpHash.toList = Fips180.sha256 a.publicKey) :
    I.KeyOk soc ↔ I.publicKey = a.publicKey := by
  rw [Image.KeyOk, hotp]
  constructor
  · intro hhash
    by_contra hkey
    exact hbreak (.publicKey hkey hhash)
  · intro hkey
    rw [hkey]

theorem Installable.signatureOk_iff (hbreak : ¬ I.Breaks verify a) (soc : Soc Host)
    (hscript : soc.script = Tools.hostScript verify) (hkey : I.publicKey = a.publicKey) :
    I.SignatureOk soc ↔ ¬ (I.manifest.bytes ≠ a.manifest ∨ I.signature ≠ a.signature) := by
  rw [Image.SignatureOk, hscript, Tools.hostScript_eq verify _ I.manifest.length_eq
    I.signature_length I.publicKey_length]
  show verify I.publicKey I.manifest.bytes I.signature = true ↔ _
  rw [hkey]
  constructor
  · intro hverify hdiffers
    exact hbreak (.signature hdiffers hverify)
  · intro hsame
    rw [not_or, not_not, not_not] at hsame
    rw [hsame.1, hsame.2]
    exact h.signed

theorem Installable.payloadOk_iff (hbreak : ¬ I.Breaks verify a)
    (hman : I.manifest.bytes = a.manifest) :
    I.PayloadOk ↔ I.payload = a.kernel := by
  have hdescribed := h.described I hman
  rw [Image.PayloadOk, hdescribed.hash]
  constructor
  · intro hok
    by_contra hpayload
    exact hbreak (.payload hpayload hok.2)
  · intro hpayload
    rw [hpayload]
    exact ⟨hdescribed.guards, rfl⟩

variable (hbreak : ¬ I.Breaks verify a) (soc : Soc Host)
  (hotp : soc.otpHash.toList = Fips180.sha256 a.publicKey)
  (hscript : soc.script = Tools.hostScript verify)
include hbreak hotp hscript

/-- The first part that differs fails its check. -/
theorem Installable.firstFailing (counter : DWord) :
    I.firstFailing soc counter =
      (I.differs a).or (if I.manifest.version < counter then some .version else none) := by
  unfold Image.firstFailing Image.differs
  by_cases hheader : I.manifest.bytes.take 6 = a.manifest.take 6
  case neg =>
    rw [if_pos ((h.headerOk_iff I).not.mpr hheader), if_pos hheader]
    rfl
  rw [if_neg (not_not_intro ((h.headerOk_iff I).mpr hheader)), if_neg (not_not_intro hheader)]
  by_cases hkey : I.publicKey = a.publicKey
  case neg =>
    rw [if_pos ((I.keyOk_iff hbreak soc hotp).not.mpr hkey), if_pos hkey]
    rfl
  rw [if_neg (not_not_intro ((I.keyOk_iff hbreak soc hotp).mpr hkey)),
    if_neg (not_not_intro hkey)]
  have hsigIff := h.signatureOk_iff I hbreak soc hscript hkey
  by_cases hsig : I.manifest.bytes ≠ a.manifest ∨ I.signature ≠ a.signature
  · rw [if_pos fun hok => hsigIff.mp hok hsig, if_pos hsig]
    rfl
  rw [if_neg (not_not_intro (hsigIff.mpr hsig)), if_neg hsig]
  rw [not_or, not_not] at hsig
  have hpayloadIff := h.payloadOk_iff I hbreak hsig.1
  by_cases hpayload : I.payload = a.kernel
  · rw [if_neg (not_not_intro (hpayloadIff.mpr hpayload)), if_neg (not_not_intro hpayload)]
    rfl
  · rw [if_pos (hpayloadIff.not.mpr hpayload), if_pos hpayload]
    rfl

theorem Installable.clearLoad (hverified : I.Verified soc) : I.ClearLoad soc := by
  have hkey := (I.keyOk_iff hbreak soc hotp).mp hverified.2.1
  have hsig := (h.signatureOk_iff I hbreak soc hscript hkey).mp hverified.2.2
  rw [not_or, not_not] at hsig
  have hdescribed := h.described I hsig.1
  have hdram := hdescribed.dram
  have hbelow := hdescribed.below
  have haddr := addresses
  have hbase : BOOT_SCRATCH_BASE = 0x88000000 := rfl
  exact ⟨soc.ramRange _ _ (by omega) (by omega), loadClear_below hbelow⟩

end Decision

/-! ## On the chip -/

section Chip

variable (a) (mem : Nat → Byte)

/-- What a boot finds in the flash. -/
def onChip : Image := .ofFlash (hexStorage (Tools.flashImageHex a.flash) mem).memory

/-! The parts, where the file has them. -/

theorem hexStorage_read (data : List Byte) {x n : Nat} (hlen : x + n ≤ data.length)
    (hfits : x + n ≤ 2 ^ 20) :
    (hexStorage (Tools.flashImageHex data) mem).memory.read x n = Tools.slice data x n := by
  rw [Tools.slice, take_eq_map_getD _ _ (by rw [List.length_drop]; omega), Memory.read]
  apply List.map_congr_left
  intro i hi
  have hlt := List.mem_range.mp hi
  rw [hexStorage_byte _ _ _ (by omega), Nat.mod_eq_of_lt (by omega), List.getD_eq_getElem?_getD,
    List.getD_eq_getElem?_getD, List.getElem?_drop]

/-- The parts at their offsets in the file. -/
theorem onChip_parts (a' : Tools.Artifacts) (hlen : 0xC0 ≤ a'.flash.length) :
    (onChip a' mem).manifest.bytes = Tools.slice a'.flash 0 96 ∧
      (onChip a' mem).signature = Tools.slice a'.flash 0x60 64 ∧
      (onChip a' mem).publicKey = Tools.slice a'.flash 0xA0 32 :=
  ⟨hexStorage_read mem _ (by omega) (by omega), hexStorage_read mem _ (by omega) (by omega),
    hexStorage_read mem _ (by omega) (by omega)⟩

theorem onChip_payload {a' : Tools.Artifacts} {n : Nat}
    (hsize : (onChip a' mem).manifest.payloadSize = n) (hlen : 0xC0 + n ≤ a'.flash.length)
    (hfits : 0xC0 + n ≤ 2 ^ 20) : (onChip a' mem).payload = Tools.slice a'.flash 0xC0 n := by
  show (hexStorage (Tools.flashImageHex a'.flash) mem).memory.read 0xC0
    (onChip a' mem).manifest.payloadSize = _
  rw [hsize]
  exact hexStorage_read mem _ hlen hfits

variable (verify) (soc : Soc Host) (gap : Nat → Nat) (patience : Nat)

theorem onChip_servedBy (q : Host) (hq : q.Ready) :
    (onChip a mem).ServedBy (installed verify soc a mem gap patience) q :=
  Image.servedBy_host _ (hexStorage (Tools.flashImageHex a.flash) mem) gap patience _ rfl
    (Image.ofFlash_length _) (fun _ hx => (Image.flash_ofFlash _ _ hx).symm) q hq

variable {verify a}

/-- Edited flash images on the chip of the files they come from. -/
theorem mutated_ends (h : Installable verify a) {a' : Tools.Artifacts}
    (hderived : Tools.Derived a a') (hbreak : ¬ (onChip a' mem).Breaks verify a)
    (s : Machine (Devices Host)) (hready : s.dev.spi.Ready) :
    ∃ e s', bootromMain (installed verify soc a' mem gap patience).platform s = .error e s' ∧
      PolicyEnd (installed verify soc a' mem gap patience) (onChip a' mem) s
        (((onChip a' mem).differs a).or
          (if (onChip a' mem).manifest.version < s.dev.counter then some .version else none))
        e s' := by
  have hotp : (installed verify soc a' mem gap patience).otpHash.toList =
      Fips180.sha256 a.publicKey := by
    show (Vector.ofFn fun i : Fin 32 => a'.pubkeyHash.getD i 0).toList = _
    rw [hderived.pubkeyHash, h.consistent.pubkeyHash]
    exact installed_otpHash verify soc mem gap patience h.consistent
  have hrun := bootromMain_policyEnd (installed verify soc a' mem gap patience) (onChip a' mem) s
    (onChip_servedBy verify a' mem soc gap patience _ hready)
    fun hverified _ => h.clearLoad _ hbreak _ hotp rfl hverified
  rwa [h.firstFailing _ hbreak _ hotp rfl] at hrun

/-- A difference that is found after Stage 2 is not in the manifest. -/
theorem Image.manifest_of_differs {I : Image} {k : Check} (h : I.differs a = some k)
    (hstage : 2 < k.stage) : I.manifest.bytes = a.manifest := by
  unfold Image.differs at h
  split at h
  · cases h
    exact absurd hstage (by decide)
  split at h
  · cases h
    exact absurd hstage (by decide)
  split at h
  · cases h
    exact absurd hstage (by decide)
  rename_i hsig
  exact not_not.mp (not_or.mp hsig).1

/-- Whatever commands edit the flash, a boot that can see it is refused by the check of the first
part that differs, and from a clear register the console says which, if the kernel's place is off
the recovery image; unless the flash now has another key or kernel with the same digest, or another
manifest or signature that verifies. -/
theorem mutation_attributed (h : Installable verify a) {image : List Byte}
    (hoff : OffRecovery a image.length) {r : Tools.Repo} {commands : List Tools.Command}
    (hrun : Transition.Run Tools.Ran a.repo commands r) (honly : ∀ c ∈ commands, c.OnFlash)
    (s : Machine (Devices Host)) (hready : s.dev.spi.Ready) (himage : RecoveryLoaded image s.mem) :
    ∃ a', r = a'.repo ∧ ((onChip a' mem).Breaks verify a ∨
      ∀ k, (onChip a' mem).differs a = some k →
        ∃ s', bootromMain (installed verify soc a' mem gap patience).platform s =
            .error .recovery s' ∧ Recovers k s s' ∧
          (s.dev.status = 0 →
            recoveryConsole (installed verify soc a' mem gap patience).platform image s' =
              some (banner k.bit ++ [k.line]))) := by
  rcases Tools.check_after_flash_session h.consistent hrun honly with ⟨a', hr, hderived, _, _⟩
  refine ⟨a', hr, ?_⟩
  by_cases hbreak : (onChip a' mem).Breaks verify a
  · exact .inl hbreak
  right
  intro k hk
  rcases mutated_ends mem soc gap patience h hderived hbreak s hready with ⟨e, s', hboot, hends⟩
  rw [hk] at hends
  cases hends with
  | refused _ _ hrecovers =>
      refine ⟨s', hboot, hrecovers, fun hclear => hrecovers.console hclear ?_⟩
      refine hrecovers.intact (onChip_servedBy verify a' mem soc gap patience _ hready) ?_ hboot
        himage
      exact fun hstage => h.sparesRecovery _ hoff (Image.manifest_of_differs hk hstage)

/-! One byte of the flash. -/

theorem ran_patchFlashByte {a : Tools.Artifacts} {i : Nat} (hin : i < a.flash.length) (v : Int) :
    Tools.Ran a.repo (.patchFlashByte i none (some v))
      { a with flash := a.flash.set i (BitVec.ofInt 8 v) }.repo := by
  have hwp := Tools.patchFlashByte_wp i none (some v) a.repo
  rcases Tools.ran_exists a.repo (.patchFlashByte i none (some v)) with
    ⟨r, ⟨code, hrun⟩ | ⟨e, hrun⟩⟩
  · rcases hwp.ok hrun with ⟨data, hdata, _, _, rfl⟩
    cases hdata
    exact .inl ⟨code, hrun⟩
  · rcases (hwp.error hrun).1 _ rfl with hneg | hout
    · omega
    · omega

theorem slice_set_before (data : List Byte) (b : Byte) {i x n : Nat} (h : x + n ≤ i) :
    Tools.slice (data.set i b) x n = Tools.slice data x n := by
  rw [Tools.slice, List.drop_set, if_neg (by omega), List.take_set_of_le (by omega), Tools.slice]

theorem slice_set_first (data : List Byte) (b : Byte) (i n : Nat) :
    Tools.slice (data.set i b) i n = (Tools.slice data i n).set 0 b := by
  rw [Tools.slice, List.drop_set, if_neg (Nat.lt_irrefl i), Nat.sub_self, List.take_set,
    Tools.slice]

/-- The one-instruction kernel with another first byte. -/
def otherByte : Tools.Artifacts :=
  { selfLoop.files with flash := selfLoop.files.flash.set 0xC0 0x90 }

theorem otherByte_inFlash : 0xC0 < selfLoop.files.flash.length :=
  Nat.lt_of_lt_of_eq (by decide : 0xC0 < 0xC4) selfLoop.image_length.symm

theorem otherByte_flash : otherByte.flash = selfLoop.files.flash.set 0xC0 0x90 := rfl

theorem otherByte_parts : (onChip otherByte mem).manifest.bytes = selfLoop.files.manifest ∧
    (onChip otherByte mem).signature = selfLoop.files.signature ∧
    (onChip otherByte mem).publicKey = selfLoop.files.publicKey ∧
    (onChip otherByte mem).payload = [0x90, 0, 0, 0] := by
  have h := selfLoop_installable.consistent
  have hlen : otherByte.flash.length = 0xC4 := by
    rw [otherByte_flash, List.length_set]
    exact selfLoop.image_length
  obtain ⟨hman, hsig, hkey⟩ := onChip_parts mem otherByte (by omega)
  rw [otherByte_flash, slice_set_before _ _ (by decide)] at hman hsig hkey
  have hmanifest := hman.trans h.flashManifest
  refine ⟨hmanifest, hsig.trans h.flashSignature, hkey.trans h.flashPublicKey, ?_⟩
  rw [onChip_payload mem (selfLoop_installable.described _ hmanifest).size
    (Nat.le_of_eq hlen.symm) (by decide), otherByte_flash, slice_set_first, h.flashKernel]
  rfl

theorem otherByte_differs : (onChip otherByte mem).differs selfLoop.files = some .payload := by
  obtain ⟨hman, hsig, hkey, hpayload⟩ := otherByte_parts mem
  have hkernel : ([0x90, 0, 0, 0] : List Byte) ≠ selfLoop.files.kernel := by decide
  rw [Image.differs, hman, hsig, hkey, hpayload, if_neg (not_not_intro rfl),
    if_neg (not_not_intro rfl), if_neg (by simp), if_pos hkernel]

/-- Its digest is another one. -/
theorem otherByte_breaks_nothing :
    ¬ (onChip otherByte mem).Breaks selfLoop.accepts selfLoop.files := by
  obtain ⟨hman, hsig, hkey, hpayload⟩ := otherByte_parts mem
  intro h
  cases h with
  | publicKey h => exact h hkey
  | signature h => exact h.elim (fun h => h hman) fun h => h hsig
  | payload _ hash =>
      rw [hpayload] at hash
      exact absurd hash (by decide +kernel)

def stubReset : Machine (Devices Host) := { blankReset with mem := stubMemory }

/-- The payload check refuses it, and the console says so. -/
theorem otherByte_attributed :
    ∃ s', bootromMain (installed selfLoop.accepts blankSoc otherByte (fun _ => 0xFF) (fun _ => 3)
        0).platform stubReset = .error .recovery s' ∧ Recovers .payload stubReset s' ∧
      recoveryConsole (installed selfLoop.accepts blankSoc otherByte (fun _ => 0xFF) (fun _ => 3)
        0).platform recoveryStub s' = some (banner SR_LOAD_KERNEL ++
          ["  - check_and_load_kernel failed (bit 3) -- kernel hash mismatch / bad params\n"]) := by
  have hoff : OffRecovery selfLoop.files recoveryStub.length := by
    intro m hm
    cases (parseManifest_bytes selfLoop.manifest).symm.trans hm
    have hload : selfLoop.manifest.fields.parsed.loadAddress = 0x80000000 := selfLoop_load
    rw [hload]
    exact .inl (by decide)
  obtain ⟨a', ha', hbreaks | hends⟩ := mutation_attributed (fun _ => 0xFF) blankSoc (fun _ => 3)
    0 selfLoop_installable hoff (.one (ran_patchFlashByte otherByte_inFlash 0x90))
    (by simp [Tools.Command.OnFlash]) stubReset Host.ready_reset stubMemory_loaded
  · rw [← Tools.Artifacts.repo_injective ha'] at hbreaks
    exact absurd hbreaks (otherByte_breaks_nothing _)
  · rw [← Tools.Artifacts.repo_injective ha'] at hends
    obtain ⟨s', hrun, hrecovers, hconsole⟩ := hends .payload (otherByte_differs _)
    exact ⟨s', hrun, hrecovers, hconsole rfl⟩

/-! ## The checker and the chip -/

theorem Image.differs_none (I : Image) : I.differs a = none ↔ I.manifest.bytes = a.manifest ∧
    I.signature = a.signature ∧ I.publicKey = a.publicKey ∧ I.payload = a.kernel := by
  unfold Image.differs
  constructor
  · intro h
    split at h
    · cases h
    split at h
    · cases h
    rename_i hkey
    split at h
    · cases h
    rename_i hsig
    split at h
    · cases h
    rename_i hpayload
    rw [not_or, not_not, not_not] at hsig
    exact ⟨hsig.1, hsig.2, not_not.mp hkey, not_not.mp hpayload⟩
  · intro h
    rcases h with ⟨hman, hsignature, hkey, hpayload⟩
    rw [hman, hsignature, hkey, hpayload]
    simp

/-- A boot finds nothing different exactly if the image is untouched. -/
theorem onChip_differs_none (h : Installable verify a) {a' : Tools.Artifacts}
    (hlen : 0xC0 + a.kernel.length ≤ a'.flash.length) :
    (onChip a' mem).differs a = none ↔
      a'.flash.take (0xC0 + a.kernel.length) = a.flash.take (0xC0 + a.kernel.length) := by
  rcases onChip_parts mem a' (by omega) with ⟨hman, hsignature, hkey⟩
  have hpayload : (onChip a' mem).manifest.bytes = a.manifest →
      (onChip a' mem).payload = Tools.slice a'.flash 0xC0 a.kernel.length :=
    fun hsame => onChip_payload mem (h.described _ hsame).size hlen h.fits
  rw [Image.differs_none, h.consistent.take_flash]
  constructor
  · intro hall
    rcases hall with ⟨h₁, h₂, h₃, h₄⟩
    rw [Tools.take_slices, Tools.Artifacts.image, ← hman, ← hsignature, ← hkey, ← hpayload h₁, h₁,
      h₂, h₃, h₄]
  · intro himage
    have hlayout := Tools.layout_of_image (a := { a with flash := a'.flash })
      h.consistent.manifestSize h.consistent.signatureSize h.consistent.publicKeySize himage
    have hsame := hman.trans hlayout.manifest
    exact ⟨hsame, hsignature.trans hlayout.signature, hkey.trans hlayout.publicKey,
      (hpayload hsame).trans hlayout.kernel⟩

/-- After any edits of the flash that keep its size the chip enters the kernel exactly if the
checker accepts the files, or the flash has broken one of the checks. -/
theorem mutation_checked (h : Installable verify a) {r : Tools.Repo}
    {commands : List Tools.Command} (hrun : Transition.Run Tools.Ran a.repo commands r)
    (honly : ∀ c ∈ commands, c.OnFlash) (hkeeps : ∀ c ∈ commands, c.KeepsSize)
    (s : Machine (Devices Host)) (hready : s.dev.spi.Ready)
    (hcounter : ∀ m, Tools.parseManifest a.manifest = some m → s.dev.counter.toNat ≤ m.version) :
    ∃ a', r = a'.repo ∧ ((onChip a' mem).Breaks verify a ∨
      (EntersKernel verify soc a' mem gap patience s ↔ Tools.checkArtifacts a' = 0)) := by
  rcases Tools.check_after_flash_session h.consistent hrun honly with
    ⟨a', hr, hderived, hmanifest, hcheck⟩
  refine ⟨a', hr, ?_⟩
  by_cases hbreak : (onChip a' mem).Breaks verify a
  · exact .inl hbreak
  right
  have hlen : a'.flash.length = a.flash.length := by
    rcases Tools.parseManifest_isSome h.consistent.manifestSize with ⟨m, hm⟩
    rcases Tools.flash_length_session hrun hkeeps rfl (Tools.edited_self hm) with
      ⟨data, hdata, hsame⟩
    rw [hr] at hdata
    cases hdata
    exact hsame
  have hsize := h.consistent.flashSize
  rw [hcheck, ← onChip_differs_none mem h (by omega)]
  rcases mutated_ends mem soc gap patience h hderived hbreak s hready with ⟨e, s', hboot, hends⟩
  constructor
  · intro henters
    rcases henters with ⟨s₁, hkernel⟩
    rw [hkernel] at hboot
    cases hboot
    cases hdiffers : (onChip a' mem).differs a with
    | none => rfl
    | some k =>
        rw [hdiffers] at hends
        cases hends
  · intro hdiffers
    have hman := ((onChip a' mem).differs_none.mp hdiffers).1
    have hparse := parseManifest_bytes (onChip a' mem).manifest
    rw [hman] at hparse
    have hversion : ¬ (onChip a' mem).manifest.version < s.dev.counter := by
      have hle := hcounter _ hparse
      have hwide : (onChip a' mem).manifest.version.toNat =
          ((onChip a' mem).manifest.word VERSION).toNat := by
        rw [Manifest.version, BitVec.toNat_setWidth]
        exact Nat.mod_eq_of_lt (by omega)
      rw [BitVec.lt_def, hwide]
      exact Nat.not_lt.mpr hle
    rw [hdiffers, if_neg hversion] at hends
    cases hends with
    | started t _ => exact ⟨_, hboot⟩

/-- With another first byte. -/
theorem otherByte_checked :
    EntersKernel selfLoop.accepts blankSoc otherByte (fun _ => 0xFF) (fun _ => 3) 0 blankReset ↔
      Tools.checkArtifacts otherByte = 0 := by
  obtain ⟨a', ha', hbreaks | hiff⟩ := mutation_checked (fun _ => 0xFF) blankSoc (fun _ => 3) 0
    selfLoop_installable (.one (ran_patchFlashByte otherByte_inFlash 0x90))
    (by simp [Tools.Command.OnFlash]) (by simp [Tools.Command.KeepsSize]) blankReset
    Host.ready_reset fun _ _ => Nat.zero_le _
  · rw [← Tools.Artifacts.repo_injective ha'] at hbreaks
    exact absurd hbreaks (otherByte_breaks_nothing _)
  · rwa [← Tools.Artifacts.repo_injective ha'] at hiff

end Chip

end SecureBoot.Bootrom
