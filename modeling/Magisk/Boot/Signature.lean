import Magisk.Boot.SmallImage

/-!
# Signatures of images

An image for the first version of verified boot has a signature behind it.  `repack` signs the new
image, from its header to the position behind the trailers, and the parser checks the signature of
what the sizes in the header say.

* `verify`, `signBootImage`: checking and making a signature, with libraries for keys, certificates
  and their encoding;
* `SignLib.Sound`: what is asked of the libraries;
* `verify_signPayload`: what was signed is verified;
* `PackedBy.exists_signature`: where `repack` stores the signature;
* `SignatureKept`, `signatureKept_iff`: the new image is verified, unless it has a DHTB header.
-/

namespace Magisk.Boot

open Magisk.Base Magisk.Lib List Option

/-! ### Making and checking signatures -/

/-- `AuthenticatedAttributes`. -/
structure AuthenticatedAttributes where
  target : Str
  length : Nat
  deriving DecidableEq

/-- `BootSignature`, with a certificate and an algorithm of the library. -/
structure BootSignature (Cert Alg : Type) where
  formatVersion : Int
  certificate : Cert
  algorithmIdentifier : Alg
  authenticatedAttributes : AuthenticatedAttributes
  signature : Str

/-- The libraries for certificates and keys, and what is on the disk. -/
structure SignLib (Cert Alg Public Private : Type) where
  /-- `MappedFile::open`. -/
  openFile : Str → Option Str
  /-- The certificate and the key that are used if no others are given. -/
  verityPem : Str
  verityPk8 : Str
  fromPem : Str → Option Cert
  signatureAlgorithm : Cert → Alg
  /-- `Verifier::from_public_key`, of the key in a certificate. -/
  fromPublicKey : Cert → Option Public
  /-- `Signer::from_private_key`. -/
  fromPrivateKey : Str → Option Private
  /-- The check of a signature, for all the data that the verifier was given. -/
  verifyData : Public → Str → Str → Bool
  /-- The signature of all the data that the signer was given. -/
  signData : Private → Str → Option Str
  /-- `PrintableString::new`. -/
  printable : Str → Bool
  attrToDer : AuthenticatedAttributes → Option Str
  toDer : BootSignature Cert Alg → Option Str
  /-- `BootSignature::decode`, which does not mind what comes after the signature. -/
  decode : Str → Option (BootSignature Cert Alg)

section Model

variable {Cert Alg Public Private : Type} (lib : SignLib Cert Alg Public Private)

/-- `BootSignature::verify`. -/
def BootSignature.verify (sig : BootSignature Cert Alg) (payload : Str) : Bool :=
  if sig.authenticatedAttributes.length ≠ payload.length then false
  else
    match lib.fromPublicKey sig.certificate, lib.attrToDer sig.authenticatedAttributes with
    | some key, some attr => lib.verifyData key (payload ++ attr) sig.signature
    | _, _ => false

namespace SignLib

/-- `BootImage::verify`, of a payload and a tail. -/
def verify (cert : Option Str) (payload tail : Str) : Bool :=
  if (str "AVB0").isPrefixOf tail then false
  else
    match lib.decode tail with
    | none => false
    | some sig =>
      match cert with
      | none => sig.verify lib payload
      | some s =>
        match (lib.openFile s).bind lib.fromPem with
        | none => false
        | some certificate => BootSignature.verify lib { sig with certificate } payload

/-- `verify_for_cxx`. -/
def verifyForCxx (payload tail : Str) : Bool := lib.verify none payload tail

/-- `sign_boot_image`. -/
def signBootImage (payload name : Str) (cert key : Option Str) : Option Str := do
  let cert ← match cert with
    | some s => lib.openFile s
    | none => some lib.verityPem
  let key ← match key with
    | some s => lib.openFile s
    | none => some lib.verityPk8
  let cert ← lib.fromPem cert
  let signer ← lib.fromPrivateKey key
  if !lib.printable name then none
  let attr : AuthenticatedAttributes := { target := name, length := payload.length }
  let der ← lib.attrToDer attr
  let sig ← lib.signData signer (payload ++ der)
  lib.toDer {
    formatVersion := 1
    certificate := cert
    algorithmIdentifier := lib.signatureAlgorithm cert
    authenticatedAttributes := attr
    signature := sig }

/-- `sign_payload_for_cxx`: nothing if there was an error. -/
def signPayloadForCxx (payload : Str) : Str :=
  (lib.signBootImage payload (str "/boot") none none).getD []

end SignLib

/-! ### What is asked of the libraries -/

/-- Decoding undoes encoding, the default key signs what the default certificate verifies, and an
encoded signature starts like a sequence, has at least the size of a footer and has no mark of a
footer in it. -/
structure SignLib.Sound (lib : SignLib Cert Alg Public Private) : Prop where
  decode : ∀ sig der rest, lib.toDer sig = some der → lib.decode (der ++ rest) = some sig
  verifies : ∀ cert key data sig, lib.fromPem lib.verityPem = some cert →
    lib.fromPrivateKey lib.verityPk8 = some key → lib.signData key data = some sig →
      ∃ pub, lib.fromPublicKey cert = some pub ∧ lib.verifyData pub data sig = true
  signs : ∀ payload : Str, payload.length < 2 ^ 32 →
    (lib.signBootImage payload (str "/boot") none none).isSome
  sequence : ∀ sig der, lib.toDer sig = some der → ∃ rest, der = 0x30 :: rest
  size : ∀ sig der, lib.toDer sig = some der → avbFooterSz ≤ der.length
  noFooter : ∀ sig der o, lib.toDer sig = some der → window der o 4 ≠ str "AVBf"

variable {lib}

/-- The steps of a signature that was made with the default key. -/
lemma exists_of_signBootImage (h : lib.signBootImage payload (str "/boot") none none = some der) :
    ∃ cert key attr sig, lib.fromPem lib.verityPem = some cert ∧
      lib.fromPrivateKey lib.verityPk8 = some key ∧
      lib.attrToDer ⟨str "/boot", payload.length⟩ = some attr ∧
      lib.signData key (payload ++ attr) = some sig ∧
      lib.toDer ⟨1, cert, lib.signatureAlgorithm cert, ⟨str "/boot", payload.length⟩, sig⟩ =
        some der := by
  simp only [SignLib.signBootImage, bind_eq_bind, bind_some,
    bind_eq_some_iff] at h
  obtain ⟨cert, hcert, key, hkey, h⟩ := h
  split at h
  · cases h
  · simp only [bind_eq_some_iff] at h
    obtain ⟨attr, hattr, sig, hsig, hder⟩ := h
    exact ⟨cert, key, attr, sig, hcert, hkey, hattr, hsig, hder⟩

namespace SignLib.Sound

variable (hlib : lib.Sound)

include hlib

lemma exists_signPayload (hlen : payload.length < 2 ^ 32) :
    ∃ sig, lib.toDer sig = some (lib.signPayloadForCxx payload) ∧
      lib.signBootImage payload (str "/boot") none none = some (lib.signPayloadForCxx payload) := by
  obtain ⟨der, hder⟩ := isSome_iff_exists.mp (hlib.signs payload hlen)
  have hsign : lib.signPayloadForCxx payload = der := by
    rw [SignLib.signPayloadForCxx, hder]
    rfl
  obtain ⟨_, _, _, _, -, -, -, -, hto⟩ := exists_of_signBootImage hder
  rw [hsign]
  exact ⟨_, hto, hder⟩

/-- **What was signed is verified**, whatever comes after the signature. -/
lemma verify_signPayload (hlen : payload.length < 2 ^ 32) (rest : Str) :
    lib.verifyForCxx payload (lib.signPayloadForCxx payload ++ rest) = true := by
  obtain ⟨-, -, hder⟩ := hlib.exists_signPayload hlen
  obtain ⟨cert, key, attr, sig, hcert, hkey, hattr, hsig, hto⟩ := exists_of_signBootImage hder
  obtain ⟨pub, hpub, hverify⟩ := hlib.verifies cert key _ sig hcert hkey hsig
  obtain ⟨tail, htail⟩ := hlib.sequence _ _ hto
  have havb : (str "AVB0").isPrefixOf (lib.signPayloadForCxx payload ++ rest) = false := by
    rw [htail]
    rfl
  rw [SignLib.verifyForCxx, SignLib.verify, havb, if_neg Bool.false_ne_true,
    hlib.decode _ _ rest hto]
  simp [BootSignature.verify, hpub, hattr, hverify]

end SignLib.Sound

end Model

/-! ### Where the signature is stored -/

/-- Without a footer only zeros are written behind the trailer. -/
lemma writeTail_of_not_avb (mem : Str) (mapSize : Nat) (w : ImgWriter)
    (off : Offsets) (havb : boot.flags.avb = false) :
    ∃ k, (writeTail mem boot mapSize w off).1.out =
      w.out ++ vendorTrailer boot ++ List.replicate k 0 := by
  have hvbmeta : ∀ v : ImgWriter, writeVbmeta mem boot off.header v = (v, 0) := fun v => by
    rw [writeVbmeta, havb, if_neg Bool.false_ne_true]
  let padded := (w.append (vendorTrailer boot)).align off.header (boot.hdr.get .pageSize)
  obtain ⟨m, hm⟩ : ∃ m, padded.out = w.out ++ vendorTrailer boot ++ List.replicate m 0 := ⟨_, rfl⟩
  have hout : (writeTail mem boot mapSize w off).1.out = (writeZero boot mapSize padded).out := by
    rw [writeTail, hvbmeta]
  rw [hout, writeZero]
  split
  · exact ⟨m, hm⟩
  · refine ⟨m + (mapSize - padded.out.length), ?_⟩
    change padded.out ++ List.replicate _ 0 = _
    rw [replicate_add, ← append_assoc, ← hm]

variable {mem : Str} {boot : BootImg} {files : Files}

/-- **The signature is stored behind the image**, and behind it there are zeros. -/
lemma PackedBy.exists_signature (h : PackedBy t mem mapSize boot files d w₀ off₀ w off)
    (hr : Ready mem boot) (hroom : Roomy boot) (havb : boot.flags.avb = false)
    (hsigned : boot.flags.avb1Signed = true) :
    ∃ front k, front.length = off.tail ∧ w.out = front ++
      (t.sign (window front off.header (off.tail - off.header)) ++ List.replicate k 0) := by
  have hle := h.located.le
  obtain ⟨out₁, out₂, out₃, hlen₁, hframe, hfooter, hpre, hsign⟩ := exists_of_patchImage h.patch
  obtain rfl : out₁ = out₂ := by
    rw [patchFooter, havb] at hfooter
    exact Except.ok.inj hfooter
  have hlen₃ := (patchPreHeader_frame hpre).1
  obtain ⟨k, hk⟩ := writeTail_of_not_avb mem mapSize w₀ off₀ havb
  have htail : (w₀.out ++ vendorTrailer boot).length = off.tail := by
    rw [h.packed.tail, length_append]
    exact congrArg (·.length + _) h.written.laid.out
  -- the zeros behind the image are not patched
  have hzeros : out₃ = out₃.take off.tail ++ List.replicate k 0 := by
    have hlen : out₃.length = off.tail + k := by
      rw [hlen₃, hlen₁, hk, length_append, htail, length_replicate]
    obtain ⟨hdhtb, hblob⟩ := h.le_header hr
    have hwindow : window out₃ off.tail k = window (writeTail mem boot mapSize w₀ off₀).1.out
        off.tail k := by
      rw [(patchPreHeader_frame hpre).2 (fun hflag => .inr ((hdhtb hflag).trans hle))
        (fun hflag => .inr ((hblob hflag).trans hle)),
        hframe (h.hdrRoom_packed hr hroom) _ _ (h.blocksSpared hr hroom le_rfl k)]
    have hdrop : window out₃ off.tail k = out₃.drop off.tail := by
      refine take_of_length_le ?_
      rw [length_drop]
      omega
    have hall := window_length (List.replicate k (0 : UInt8))
    rw [length_replicate] at hall
    rw [hdrop, hk, window_append_right htail.le, htail, Nat.sub_self, hall] at hwindow
    rw [← hwindow, take_append_drop]
  generalize hfront : out₃.take off.tail = front at hzeros
  have hlen : front.length = off.tail := by
    rw [← hfront, length_take]
    have hin := h.located.tail
    omega
  rw [signPayload, if_pos hsigned] at hsign
  obtain ⟨payload, hview, hsign⟩ := bind_eq_ok.mp hsign
  have hpayload : payload = window front off.header (off.tail - off.header) := by
    rw [view, h.located.aospImgSize] at hview
    split at hview
    · rename_i hzero
      rw [hzero, ← Except.ok.inj hview]
      rfl
    · obtain ⟨-, rfl⟩ := load_eq_ok hview
      have hin := h.located.tail
      rw [window_mapped (by omega), hzeros, window_append_left (by omega)]
  refine ⟨front, k - (t.sign payload).length, hlen, ?_⟩
  rw [← hpayload, ← Except.ok.inj hsign, hzeros, Lib.patch, ← hlen, take_left,
    append_assoc, ← drop_drop, drop_left, drop_replicate]

/-! ### Signatures that are kept -/

/-- The output is parsed to a payload that is what was signed, with the signature behind it, and
it is verified. -/
def SignatureKept {Cert Alg Public Private : Type} (lib : SignLib Cert Alg Public Private)
    (out : Str) (off : Offsets) : Prop :=
  ∃ boot', bootImg lib.verifyForCxx out = .ok (some boot') ∧
    boot'.payload.bytes (mapped out) = window out off.header (aospImgSize off) ∧
    lib.signPayloadForCxx (window out off.header (aospImgSize off)) <+:
      boot'.tail.bytes (mapped out) ∧
    lib.verifyForCxx (boot'.payload.bytes (mapped out)) (boot'.tail.bytes (mapped out)) = true ∧
    boot'.flags.avb1Signed = true

lemma window_zeros_ne {l : Str} (h : ∀ o, window l o 4 ≠ str "AVBf") (k o : Nat) :
    window (l ++ List.replicate k 0) o 4 ≠ str "AVBf" := by
  intro heq
  by_cases hin : o + 4 ≤ l.length
  · rw [window_append_left hin] at heq
    exact h o heq
  · have hlast : (window (l ++ List.replicate k 0) o 4)[3]? = some 0x66 := by
      rw [heq]
      rfl
    rw [getElem?_window, if_pos (by decide), getElem?_append_right (by omega),
      getElem?_replicate] at hlast
    split at hlast <;> cases hlast

section Kept

variable {Cert Alg Public Private : Type} {lib : SignLib Cert Alg Public Private}

lemma tailFlags_signature (hlib : lib.Sound) (hder : lib.toDer sig = some der)
    (hrest : img.tail.bytes mem = der ++ rest)
    (hverify : lib.verifyForCxx (img.payload.bytes mem) (der ++ rest) = true) :
    tailFlags mem lib.verifyForCxx img = { img.flags with avb1Signed := true } := by
  obtain ⟨der', rfl⟩ := hlib.sequence _ _ hder
  have hmagic : ∀ magic : Str, magic.head? ≠ some 0x30 →
      (0x30 :: der' ++ rest).take 16 ≠ magic := by
    rintro magic hne rfl
    exact hne rfl
  rw [tailFlags, hrest, if_neg fun hif => hmagic _ (by decide) hif.2,
    if_neg fun hif => hmagic _ (by decide) hif.2, if_pos hverify]

section Packed

variable {t : Tools} {mapSize : Nat} {content table : Str} {ramdisk : Option Str}
  {w₀ w : ImgWriter} {off₀ off : Offsets} (hr : Ready mem boot)
  (hp : Reparsable t mem mapSize boot files content ramdisk table)
  (hm : boot.hdr.cls.Marked boot.hdr.raw 0)
  (h : PackedBy t mem mapSize boot files (newBlocks t mem boot files content ramdisk table) w₀ off₀
    w off) (havb : boot.flags.avb = false) (hsigned : boot.flags.avb1Signed = true)

include hr hp hm h havb hsigned

/-- With a trailer the range that is signed is not that of the payload. -/
lemma PackedBy.trailer_of_signatureKept (hkept : SignatureKept lib w.out off) :
    vendorTrailer boot = [] := by
  obtain ⟨boot', hboot', hpayload, -⟩ := hkept
  obtain ⟨front, k, hfront, hout⟩ := h.exists_signature hr hp.packable.roomy havb hsigned
  have htail := h.packed.tail
  have hle := h.located.le
  have hmap := le_length_mapped w.out
  have hlen : off.tail ≤ w.out.length := by
    rw [hout, length_append]
    omega
  obtain ⟨img, hparse, -, himg, -⟩ := h.exists_parseTail hr hp.packable hm hp.findable hboot'
  obtain ⟨_, _, _, rfl, -⟩ := parseTail_eq_ok hparse
  generalize hstop : blocksEnd mem boot (newBlocks t mem boot files content ramdisk table) = stop
    at htail himg
  have hlens := congrArg List.length hpayload
  rw [h.located.aospImgSize, length_window (by omega)] at hlens
  change (img.payload.bytes (mapped w.out)).length = _ at hlens
  have hstart : off.header ≤ stop := by
    have ha := apart_place hr (newBlocks t mem boot files content ramdisk table)
    have hkernel := ha.start .kernel
    have hend := ha.stop .kernel
    have hheader := h.packed.header
    omega
  have hbytes : (img.payload.bytes (mapped w.out)).length = stop - off.header := by
    have hin : off.header + (stop - off.header) ≤ (mapped w.out).length := by omega
    rw [himg]
    exact length_window hin
  exact eq_nil_of_length_eq_zero (by omega)

/-- Without one it is, and the output is verified. -/
lemma PackedBy.signatureKept (hlib : lib.Sound) (ht : t.sign = lib.signPayloadForCxx)
    (htrailer : vendorTrailer boot = []) : SignatureKept lib w.out off := by
  have hsize := h.located.aospImgSize
  have hle := h.located.le
  have hlt := h.located.lt
  have hstop : blocksEnd mem boot (newBlocks t mem boot files content ramdisk table) =
      off.tail := by
    rw [h.packed.tail, htrailer]
    rfl
  obtain ⟨front, k, hfront, hout⟩ := h.exists_signature hr hp.packable.roomy havb hsigned
  generalize hpay : window front off.header (off.tail - off.header) = payload at hout
  have hpaylen : payload.length < 2 ^ 32 := by
    rw [← hpay, length_window (by omega)]
    omega
  obtain ⟨sig, hder, -⟩ := hlib.exists_signPayload hpaylen
  have hverify := hlib.verify_signPayload hpaylen
  rw [ht] at hout
  generalize hsignature : lib.signPayloadForCxx payload = der at hout hder hverify
  have hdersize := hlib.size _ _ hder
  rw [avbFooterSz] at hdersize
  -- the mapping is the image, the signature and zeros
  obtain ⟨m, hmapped⟩ : ∃ m, mapped w.out = front ++ (der ++ List.replicate m 0) := by
    refine ⟨k + (alignTo w.out.length getpagesize - w.out.length), ?_⟩
    rw [mapped]
    nth_rewrite 1 [hout]
    rw [replicate_add, append_assoc, append_assoc]
  have hlong : (mapped w.out).length = off.tail + (der.length + m) := by
    rw [hmapped, length_append, length_append, length_replicate, hfront]
  have htailBytes : window (mapped w.out) off.tail ((mapped w.out).length - off.tail) =
      der ++ List.replicate m 0 := by
    have hall := window_length (der ++ List.replicate m 0)
    rw [length_append, length_replicate] at hall
    rw [hlong, Nat.add_sub_cancel_left, hmapped, window_append_right hfront.le, hfront,
      Nat.sub_self, hall]
  have hpayBytes : window (mapped w.out) off.header (off.tail - off.header) = payload := by
    rw [hmapped, window_append_left (by omega), hpay]
  have hfooter : ∀ size, FooterSafe (mapped w.out) ⟨off.header, size⟩
      ⟨off.tail, (mapped w.out).length - off.tail⟩ := by
    intro size
    have hend : off.tail + ((mapped w.out).length - off.tail) = (mapped w.out).length := by omega
    rw [FooterSafe]
    simp only [hend]
    rw [avbFooterSz]
    refine ⟨by omega, by omega, fun hmagic => ?_⟩
    rw [hmapped, window_append_right (by rw [← hmapped]; omega)] at hmagic
    exact absurd hmagic (window_zeros_ne (fun o => hlib.noFooter _ _ o hder) _ _)
  obtain ⟨boot', hboot'⟩ := h.exists_bootImg hr hp.packable hm hp.findable
    lib.verifyForCxx hp.legible (by omega) (by rwa [hstop])
  obtain ⟨img, hparse, -, himg, himg'⟩ :=
    h.exists_parseTail hr hp.packable hm hp.findable hboot'
  rw [hstop] at himg himg'
  obtain ⟨avb, hflags⟩ := parseTail_flags hparse (by rw [himg']; change _ - _ ≠ 0; omega)
  obtain ⟨_, _, _, rfl, -⟩ := parseTail_eq_ok hparse
  have hpayload : img.payload.bytes (mapped w.out) = payload := by
    rw [himg]
    exact hpayBytes
  have htailed : img.tail.bytes (mapped w.out) = der ++ List.replicate m 0 := by
    rw [himg']
    exact htailBytes
  have hrange : window w.out off.header (aospImgSize off) = payload := by
    have hlen : off.tail ≤ w.out.length := by
      rw [hout, length_append]
      omega
    rw [hsize, ← hpayBytes, window_mapped (by omega)]
  have hok := hverify (List.replicate m 0)
  refine ⟨_, hboot', hpayload.trans hrange.symm, ?_, ?_, ?_⟩
  · rw [hrange, hsignature]
    exact htailed ▸ prefix_append _ _
  · change lib.verifyForCxx (img.payload.bytes _) (img.tail.bytes _) = true
    rw [hpayload, htailed, hok]
  · rw [hflags, tailFlags_signature hlib hder htailed (by rw [hpayload, hok])]

end Packed

end Kept

/-! ### Images that are signed -/

/-- The bits of a size. -/
def sizeBits (n : Nat) : Str := List.ofFn fun i : Fin 64 => if n.testBit i then 1 else 0

/-- Libraries whose signatures say only the size of what was signed. -/
def plainLib : SignLib Unit Unit Unit Unit where
  openFile _ := none
  verityPem := []
  verityPk8 := []
  fromPem _ := some ()
  signatureAlgorithm _ := ()
  fromPublicKey _ := some ()
  fromPrivateKey _ := some ()
  verifyData _ _ sig := sig = []
  signData _ _ := some []
  printable _ := true
  attrToDer _ := some []
  toDer sig :=
    if sig.formatVersion = 1 ∧ sig.authenticatedAttributes.target = str "/boot" ∧
        sig.authenticatedAttributes.length < 2 ^ 64 ∧ sig.signature = [] then
      some (0x30 :: sizeBits sig.authenticatedAttributes.length)
    else none
  decode l :=
    match l with
    | 0x30 :: l =>
      some ⟨1, (), (), ⟨str "/boot", Nat.ofBits fun i : Fin 64 => l.getD i 0 == 1⟩, []⟩
    | _ => none

lemma toDer_plainLib (h : plainLib.toDer sig = some der) :
    (sig.formatVersion = 1 ∧ sig.authenticatedAttributes.target = str "/boot" ∧
      sig.authenticatedAttributes.length < 2 ^ 64 ∧ sig.signature = []) ∧
      der = 0x30 :: sizeBits sig.authenticatedAttributes.length := by
  simp only [plainLib] at h
  split at h
  · exact ⟨‹_›, (some.inj h).symm⟩
  · cases h

lemma sound_plainLib : plainLib.Sound where
  decode sig der rest h := by
    obtain ⟨⟨hversion, htarget, hlen, hsig⟩, rfl⟩ := toDer_plainLib h
    obtain ⟨version, cert, alg, ⟨target, len⟩, signature⟩ := sig
    subst hversion htarget hsig
    have hbits : (fun i : Fin 64 => (sizeBits len ++ rest).getD i 0 == 1) =
        fun i : Fin 64 => len.testBit i := by
      funext i
      have hi : (i : Nat) < (sizeBits len).length := by
        exact i.isLt
      rw [List.getD_eq_getElem?_getD, List.getElem?_append_left hi, sizeBits, List.getElem?_ofFn,
        dif_pos i.isLt]
      cases len.testBit i <;> rfl
    have hlength : Nat.ofBits (fun i : Fin 64 => (sizeBits len ++ rest).getD i 0 == 1) = len := by
      rw [hbits, Nat.ofBits_testBit, Nat.mod_eq_of_lt hlen]
    exact congrArg (fun n => (some ⟨1, (), (), ⟨str "/boot", n⟩, []⟩ :
      Option (BootSignature Unit Unit))) hlength
  verifies cert key data sig _ _ hsig := ⟨(), rfl, by
    cases hsig
    rfl⟩
  signs payload hlen := by
    have hlen' : payload.length < 2 ^ 64 := hlen.trans (by decide)
    change (if (1 : Int) = 1 ∧ str "/boot" = str "/boot" ∧ payload.length < 2 ^ 64 ∧ ([] : Str) = []
      then some _ else none).isSome = true
    rw [if_pos ⟨rfl, rfl, hlen', rfl⟩]
    rfl
  sequence sig der h := ⟨_, (toDer_plainLib h).2⟩
  size sig der h := by
    rw [(toDer_plainLib h).2, length_cons, sizeBits, length_ofFn]
    decide
  noFooter sig der o h heq := by
    have hmem : (0x41 : UInt8) ∈ der := by
      have hwindow : (0x41 : UInt8) ∈ window der o 4 := by
        rw [heq]
        decide
      exact mem_of_mem_drop (mem_of_mem_take hwindow)
    rw [(toDer_plainLib h).2, mem_cons, sizeBits, mem_ofFn] at hmem
    obtain hhead | ⟨i, hi⟩ := hmem
    · cases hhead
    · split at hi <;> cases hi

/-- A small image with a signature, behind what comes before it. -/
def signedImage (front : Str) : Str :=
  front ++ (smallImage ++ plainLib.signPayloadForCxx smallImage)

/-- What it is parsed as. -/
def signedBoot (front : Str) (flags : Flags) : BootImg :=
  { BootImg.ofHdr (mapped (signedImage front)) front.length smallHdr flags with
    flags := { flags with avb1Signed := true } }

/-- The tools for it. -/
def signTools : Tools := { sampleTools with sign := plainLib.signPayloadForCxx }

lemma length_signPayload_plainLib : (plainLib.signPayloadForCxx smallImage).length = 65 := by
  obtain ⟨sig, hder, -⟩ := sound_plainLib.exists_signPayload
    (by rw [length_smallImage]; decide : smallImage.length < 2 ^ 32)
  rw [(toDer_plainLib hder).2, length_cons, sizeBits, length_ofFn]

section Signed

variable (front : Str)

lemma length_signedImage : (signedImage front).length = front.length + 3345 := by
  rw [signedImage, length_append, length_append, length_smallImage,
    length_signPayload_plainLib]

lemma mapped_signedImage : ∃ m, mapped (signedImage front) =
    front ++ (smallImage ++ (plainLib.signPayloadForCxx smallImage ++ List.replicate m 0)) := by
  refine ⟨alignTo (signedImage front).length getpagesize - (signedImage front).length, ?_⟩
  rw [mapped]
  nth_rewrite 1 [signedImage]
  rw [append_assoc, append_assoc]

lemma window_signedImage : window (mapped (signedImage front)) front.length 3280 = smallImage := by
  obtain ⟨m, hm⟩ := mapped_signedImage front
  rw [hm, window_append_right le_rfl, Nat.sub_self, window_append_left length_smallImage.ge,
    ← length_smallImage, window_length]

/-- **The image is found to be signed.** -/
lemma parseTail_signedImage (flags : Flags) :
    parseTail (mapped (signedImage front)) plainLib.verifyForCxx
      (.ofHdr (mapped (signedImage front)) front.length smallHdr flags) =
      .ok (signedBoot front flags) := by
  obtain ⟨hpay, hview, -⟩ := @payload_small (mapped (signedImage front)) front.length flags
  obtain ⟨m, hm⟩ := mapped_signedImage front
  have hshort : smallImage.length < 2 ^ 32 := by
    rw [length_smallImage]
    decide
  obtain ⟨sig, hder, -⟩ := sound_plainLib.exists_signPayload hshort
  have hverify := sound_plainLib.verify_signPayload hshort (List.replicate m 0)
  have hder65 := length_signPayload_plainLib
  rw [signedBoot]
  generalize hmem : mapped (signedImage front) = mem at hpay hview hm ⊢
  generalize plainLib.signPayloadForCxx smallImage = der at hm hder hverify hder65
  have hlen : mem.length = front.length + 3280 + (65 + m) := by
    rw [hm, length_append, length_append, length_append, length_replicate,
      length_smallImage, hder65, Nat.add_assoc]
  have hpayload : (BootImg.ofHdr mem front.length smallHdr flags).payload.bytes mem =
      smallImage := by
    rw [← hmem]
    exact window_signedImage front
  have htail : (BootImg.ofHdr mem front.length smallHdr flags).tail.bytes mem =
      der ++ List.replicate m 0 := by
    have hall := window_length (der ++ List.replicate m 0)
    rw [length_append, length_replicate, hder65] at hall
    change window mem (front.length + 3280) (mem.length - (front.length + 3280)) = _
    rw [hlen, Nat.add_sub_cancel_left, hm, window_append_right (by omega), Nat.add_sub_cancel_left,
      window_append_right length_smallImage.le, length_smallImage, Nat.sub_self, hall]
  have hflags := tailFlags_signature sound_plainLib hder htail (by rw [hpayload, hverify])
  rw [flags_ofHdr hasSha256_smallHdr] at hflags
  rw [parseTail_of_plain, hflags]
  · rw [hview]
    change mem.length - (front.length + 3280) ≠ 0
    omega
  · rw [avbFooterSz]
    change 64 ≤ front.length + 3280 + (mem.length - (front.length + 3280))
    omega
  · rw [avbFooterSz]
    change front.length + 3280 + (mem.length - (front.length + 3280)) - 64 + 4 ≤ mem.length
    omega
  · rw [avbFooterSz]
    change window mem (front.length + 3280 + (mem.length - (front.length + 3280)) - 64) 4 ≠ _
    have hsmall := length_smallImage
    rw [hlen, hm, window_append_right (by omega), window_append_right (by omega)]
    exact window_zeros_ne (fun o => sound_plainLib.noFooter _ _ o hder) _ _

/-- It can be packed again, and is then found. -/
lemma reparsable_signedImage (hboot : bootImg plainLib.verifyForCxx (signedImage front) =
      .ok (some (signedBoot front flags)))
    (hmtk : flags.mtkKernel = false ∧ flags.mtkRamdisk = false)
    (hzimage : flags.zimageKernel = false) (hamonet : flags.amonet = false)
    (havb : flags.avb = false) (hshort : (signedImage front).length < 2 ^ 30)
    (hloader : (signedBoot front flags).behindLoader = false)
    (hpre : PreHeaderFirst (mapped (signedImage front)) (signedBoot front flags)) :
    Reparsable signTools (mapped (signedImage front)) (signedImage front).length
      (signedBoot front flags) {} [0] none [] := by
  exact reparsable_small (ready_of_bootImg hboot) rfl hmtk hzimage rfl hamonet
    (window_signedImage front) (@payload_small (mapped (signedImage front)) front.length flags).2.2
    (fun h => by cases havb.symm.trans h) ⟨hshort, fun h => by cases havb.symm.trans h⟩ hloader hpre

end Signed

lemma bootImg_signedImage :
    bootImg plainLib.verifyForCxx (signedImage []) = .ok (some (signedBoot [] {})) := by
  refine bootImg_small ?_ (window_signedImage []) (parseTail_signedImage [] {})
  rw [length_signedImage]
  decide

/-- A DHTB header. -/
def dhtbFront : Str := dhtbMagic ++ List.replicate 504 0

/-- The image behind it. -/
lemma bootImg_signedImage_dhtb :
    bootImg plainLib.verifyForCxx (signedImage dhtbFront) =
      .ok (some (signedBoot dhtbFront { dhtb := true, seandroid := true })) := by
  have hfront : dhtbFront.length = dhtbHdrSz := by
    rw [dhtbFront, length_append, length_replicate]
    rfl
  have hwindow := window_signedImage dhtbFront
  have htail := parseTail_signedImage dhtbFront { dhtb := true, seandroid := true }
  rw [hfront] at hwindow htail
  refine bootImg_small_dhtb ?_ rfl hwindow htail
  rw [length_signedImage, hfront]
  decide

end Magisk.Boot
