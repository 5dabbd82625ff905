import SgKeyDist.Calendar
import SgKeyDist.Packet
import SgKeyDist.TlvConst
import SgKeyDist.Identity

namespace SgKeyDist.Cert

open SgKeyDist.ByteOrder SgKeyDist.Tlv SgKeyDist.Identity SgKeyDist.Iso8601 SgKeyDist.Calendar
open SgKeyDist.TlvConst SgKeyDist.Packet

/-- An `iso8601`: `std::array<uint8_t, 15>`. -/
structure Stamp where
  bytes : Bytes
  size_eq : bytes.length = 15

theorem iso8601_length (tp : Int) : (iso8601 tp).length = 15 := by
  simp [iso8601]

/-- `iso8601(tp)`. -/
def Stamp.ofTime (tp : Int) : Stamp := ⟨iso8601 tp, iso8601_length tp⟩

/-- The patterns `rCert::validForm` compares at offsets 0, 5, 41 and 64 of the signature info. -/
def si0 : Bytes := [22, 81, 27, 1]

def si5 : Bytes := [28, UInt8.ofNat (thumbPrintS + 2), 29, UInt8.ofNat thumbPrintS]

def si41 : Bytes := [253, 0, 253, 38, 253, 0, 254, 15]

def si64 : Bytes := [253, 0, 255, 15]

/-- `rCert::validForm()` (lines 260-273). Each `std::memcmp` reads the pattern's size of bytes
at its offset. -/
def validForm (contentType : UInt8) (si : Bytes) : Bool :=
  if contentType ≠ UInt8.ofNat TlvType.contentType_Key.code then false
  else if memcmp si0.length si si0 ≠ .eq ∨ memcmp si5.length (si.drop 5) si5 ≠ .eq ∨
      memcmp si41.length (si.drop 41) si41 ≠ .eq ∨ memcmp si64.length (si.drop 64) si64 ≠ .eq then
    false
  else true

/-- `rCert::valid()` (lines 276-285) at the clock reading `now`: not before the stamp at
offset 49, not after the stamp at offset 68, compared as 15 bytes. -/
def valid (contentType : UInt8) (si : Bytes) (now : Int) : Bool :=
  if !validForm contentType si then false
  else
    let n := iso8601 now
    if memcmp 15 n (si.drop 49) = .lt then false
    else if memcmp 15 (si.drop 68) n = .lt then false
    else true

/-- `rCert::valid(sType)` (lines 289-292). -/
def validFor (contentType : UInt8) (si : Bytes) (sigType : UInt8) (now : Int) (sType : UInt8) :
    Bool :=
  valid contentType si now && sigType == sType

/-- `rCert::validAfter()` (line 295): the 15 bytes at offset 49, read by `iso8601::toTP`. -/
def validAfter (si : Bytes) : Int := toTP ((si.drop 49).take 15)

/-- `rCert::validUntil()` (line 296): the 15 bytes at offset 68. -/
def validUntil (si : Bytes) : Int := toTP ((si.drop 68).take 15)

/-- The signature info of a DCT certificate, as the block types of `tlv.hpp` lay it out: the
signature type, a key locator holding the signer's thumbprint as a key digest, and a validity
period of two stamps. -/
def certSigInfo (sigType : UInt8) (signer : ThumbPrint) (notBefore notAfter : Stamp) : Bytes :=
  tlv TlvType.signatureInfo.code (tlv TlvType.signatureType.code [sigType] ++
    tlv TlvType.keyLocator.code (tlv TlvType.keyDigest.code signer.bytes) ++
    tlv TlvType.validityPeriod.code (tlv TlvType.notBefore.code notBefore.bytes ++
      tlv TlvType.notAfter.code notAfter.bytes))

section Layout

theorem certSigInfo_eq (st : UInt8) (signer : ThumbPrint) (nb na : Stamp) :
    certSigInfo st signer nb na =
      si0 ++ [st] ++ si5 ++ signer.bytes ++ si41 ++ nb.bytes ++ si64 ++ na.bytes := by
  have hs : signer.bytes.length = 32 := signer.size_eq
  simp only [certSigInfo, tlv, List.length_append, List.length_singleton, hs, nb.size_eq,
    na.size_eq, List.append_assoc]
  rfl

theorem certSigInfo_length (st : UInt8) (signer : ThumbPrint) (nb na : Stamp) :
    (certSigInfo st signer nb na).length = 83 := by
  have hs : signer.bytes.length = 32 := signer.size_eq
  simp only [certSigInfo_eq, List.length_append, hs, nb.size_eq, na.size_eq]
  rfl

theorem drop_of_drop_append {l a b : Bytes} {i n j : Nat} (hl : l.drop i = a ++ b)
    (ha : a.length = n) (hj : i + n = j) : l.drop j = b := by
  subst hj; rw [← List.drop_drop, hl, List.drop_left' ha]

theorem take_append_drop_of_add (l : Bytes) {i n j : Nat} (h : i + n = j) :
    (l.drop i).take n ++ l.drop j = l.drop i := by
  subst h
  rw [← List.drop_drop, List.take_append_drop]

theorem certSigInfo_reads (st : UInt8) (signer : ThumbPrint) (nb na : Stamp) (rest : Bytes) :
    let si := certSigInfo st signer nb na ++ rest
    si.take 4 = si0 ∧ si[4]? = some st ∧ (si.drop 5).take 4 = si5 ∧
      (si.drop 9).take 32 = signer.bytes ∧ (si.drop 41).take 8 = si41 ∧
      (si.drop 49).take 15 = nb.bytes ∧ (si.drop 64).take 4 = si64 ∧
      (si.drop 68).take 15 = na.bytes ∧ si.drop 83 = rest := by
  intro si
  have d0 : si.drop 0 = si0 ++ ([st] ++ (si5 ++ (signer.bytes ++ (si41 ++ (nb.bytes ++ (si64 ++
      (na.bytes ++ rest))))))) := by
    simp only [si, List.drop_zero, certSigInfo_eq, List.append_assoc]
  have d4 : si.drop 4 = _ := drop_of_drop_append d0 rfl rfl
  have d5 : si.drop 5 = _ := drop_of_drop_append d4 rfl rfl
  have d9 : si.drop 9 = _ := drop_of_drop_append d5 rfl rfl
  have d41 : si.drop 41 = _ := drop_of_drop_append d9 signer.size_eq rfl
  have d49 : si.drop 49 = _ := drop_of_drop_append d41 rfl rfl
  have d64 : si.drop 64 = _ := drop_of_drop_append d49 nb.size_eq rfl
  have d68 : si.drop 68 = _ := drop_of_drop_append d64 rfl rfl
  refine ⟨?_, ?_, ?_, ?_, ?_, ?_, ?_, ?_, drop_of_drop_append d68 na.size_eq rfl⟩
  · rw [← List.drop_zero si, d0]; exact List.take_left' rfl
  · rw [show si[4]? = (si.drop 4)[0]? by rw [List.getElem?_drop], d4]; rfl
  · rw [d5]; exact List.take_left' rfl
  · rw [d9]; exact List.take_left' signer.size_eq
  · rw [d41]; exact List.take_left' rfl
  · rw [d49]; exact List.take_left' nb.size_eq
  · rw [d64]; exact List.take_left' rfl
  · rw [d68]; exact List.take_left' na.size_eq

end Layout

section Memcmp

theorem memcmp_swap : ∀ (n : Nat) (a b : Bytes), memcmp n b a = (memcmp n a b).swap
  | 0, a, b => by simp [memcmp_zero, Ordering.swap]
  | _ + 1, [], b => by cases b <;> rfl
  | _ + 1, _ :: _, [] => rfl
  | n + 1, x :: as, y :: bs => by
    rw [memcmp_cons, memcmp_cons, memcmp_swap n as bs]
    by_cases hxy : x < y
    · simp [hxy, UInt8.lt_asymm hxy, Ordering.swap]
    · by_cases hyx : y < x <;> simp [hxy, hyx, Ordering.swap]

theorem memcmp_pattern_eq_iff {p a : Bytes} (h : p.length ≤ a.length) :
    memcmp p.length a p = .eq ↔ a.take p.length = p :=
  calc memcmp p.length a p = .eq ↔ memcmp p.length p a = .eq := by
        rw [memcmp_swap]; cases memcmp p.length p a <;> decide
    _ ↔ p <+: a := memcmp_eq_iff_isPrefix h
    _ ↔ a.take p.length = p := by rw [List.prefix_iff_eq_take, eq_comm]

theorem memcmp_take_right : ∀ (n : Nat) (a b : Bytes), memcmp n a (b.take n) = memcmp n a b
  | 0, a, b => by simp [memcmp_zero]
  | _ + 1, [], b => by cases b <;> rfl
  | _ + 1, _ :: _, [] => rfl
  | n + 1, x :: as, y :: bs => by
    rw [List.take_succ_cons, memcmp_cons, memcmp_cons, memcmp_take_right n as bs]

theorem memcmp_take_left (n : Nat) (a b : Bytes) : memcmp n (a.take n) b = memcmp n a b := by
  rw [memcmp_swap, memcmp_take_right, ← memcmp_swap]

end Memcmp

theorem validForm_certSigInfo (ct st : UInt8) (signer : ThumbPrint) (nb na : Stamp)
    (rest : Bytes) : validForm ct (certSigInfo st signer nb na ++ rest) = decide (ct = 2) := by
  obtain ⟨h0, -, h5, -, h41, -, h64, -, -⟩ := certSigInfo_reads st signer nb na rest
  have hl : 83 ≤ (certSigInfo st signer nb na ++ rest).length := by
    rw [List.length_append, certSigInfo_length]; omega
  unfold validForm
  by_cases hct : ct = 2
  · rw [if_neg (by rw [hct]; decide), if_neg, decide_eq_true hct]
    simp only [not_or, not_not]
    exact ⟨(memcmp_pattern_eq_iff (show 4 ≤ _ by omega)).2 h0,
      (memcmp_pattern_eq_iff (show 4 ≤ _ by rw [List.length_drop]; omega)).2 h5,
      (memcmp_pattern_eq_iff (show 8 ≤ _ by rw [List.length_drop]; omega)).2 h41,
      (memcmp_pattern_eq_iff (show 4 ≤ _ by rw [List.length_drop]; omega)).2 h64⟩
  · rw [if_pos (by exact hct), decide_eq_false hct]

/-- `validForm` accepts exactly the key certificates whose signature info has the DCT layout:
the four patterns it compares pin down every byte but the signature type, the signer's
thumbprint and the two stamps. -/
theorem validForm_iff {ct : UInt8} {si : Bytes} (hl : 83 ≤ si.length) :
    validForm ct si = true ↔
      ct = 2 ∧ ∃ st signer nb na rest, si = certSigInfo st signer nb na ++ rest := by
  constructor
  · intro h
    unfold validForm at h
    split_ifs at h with h1 h2
    simp only [not_or, not_not, ne_eq] at h1 h2
    have e0 : si.take 4 = si0 := (memcmp_pattern_eq_iff (show 4 ≤ _ by omega)).1 h2.1
    have e5 : (si.drop 5).take 4 = si5 :=
      (memcmp_pattern_eq_iff (show 4 ≤ _ by rw [List.length_drop]; omega)).1 h2.2.1
    have e41 : (si.drop 41).take 8 = si41 :=
      (memcmp_pattern_eq_iff (show 8 ≤ _ by rw [List.length_drop]; omega)).1 h2.2.2.1
    have e64 : (si.drop 64).take 4 = si64 :=
      (memcmp_pattern_eq_iff (show 4 ≤ _ by rw [List.length_drop]; omega)).1 h2.2.2.2
    obtain ⟨st, hst⟩ : ∃ st, (si.drop 4).take 1 = [st] := by
      match hd : si.drop 4 with
      | [] => exact absurd (congrArg List.length hd) (by rw [List.length_drop]; simp only [List.length_nil]; omega)
      | x :: _ => exact ⟨x, rfl⟩
    refine ⟨h1, st, ⟨(si.drop 9).take 32, by
      rw [List.length_take, List.length_drop, thumbPrintS]; omega⟩,
      ⟨(si.drop 49).take 15, by rw [List.length_take, List.length_drop]; omega⟩,
      ⟨(si.drop 68).take 15, by rw [List.length_take, List.length_drop]; omega⟩, si.drop 83, ?_⟩
    rw [certSigInfo_eq]
    simp only [List.append_assoc]
    rw [take_append_drop_of_add si (rfl : 68 + 15 = 83), ← e64,
      take_append_drop_of_add si (rfl : 64 + 4 = 68), take_append_drop_of_add si (rfl : 49 + 15 = 64),
      ← e41, take_append_drop_of_add si (rfl : 41 + 8 = 49),
      take_append_drop_of_add si (rfl : 9 + 32 = 41), ← e5,
      take_append_drop_of_add si (rfl : 5 + 4 = 9), ← hst, take_append_drop_of_add si (rfl : 4 + 1 = 5),
      ← e0, List.take_append_drop]
  · rintro ⟨hct, st, signer, nb, na, rest, rfl⟩
    rw [validForm_certSigInfo, decide_eq_true hct]

/-- 2024-06-01T00:00:00Z and 2025-06-01T00:00:00Z. -/
def earlyJune : Int := 1717200000 * 1000000000

def nextJune : Int := 1748736000 * 1000000000

def sampleSigInfo : Bytes :=
  certSigInfo 3 ThumbPrint.zero (Stamp.ofTime earlyJune) (Stamp.ofTime nextJune)

theorem validForm_iff_sample :
    83 ≤ sampleSigInfo.length ∧
      (validForm 2 sampleSigInfo = true ↔
        (2 : UInt8) = 2 ∧ ∃ st signer nb na rest, sampleSigInfo = certSigInfo st signer nb na ++ rest) :=
  have h : 83 ≤ sampleSigInfo.length := (certSigInfo_length _ _ _ _).ge
  ⟨h, validForm_iff h⟩

theorem valid_certSigInfo (ct st : UInt8) (signer : ThumbPrint) (nb na : Stamp) (rest : Bytes)
    (now : Int) :
    valid ct (certSigInfo st signer nb na ++ rest) now =
      (decide (ct = 2) && decide (Iso8601.cmp (iso8601 now) nb.bytes ≠ .lt) &&
        decide (Iso8601.cmp na.bytes (iso8601 now) ≠ .lt)) := by
  obtain ⟨-, -, -, -, -, h49, -, h68, -⟩ := certSigInfo_reads st signer nb na rest
  rw [valid, validForm_certSigInfo]
  dsimp only
  rw [← memcmp_take_right 15 (iso8601 now), h49,
    ← memcmp_take_left 15 ((certSigInfo st signer nb na ++ rest).drop 68), h68]
  by_cases hct : ct = 2 <;> simp [hct, Iso8601.cmp]

/-- `validAfter` and `validUntil` read a certificate's validity period back to the second the
stamps were made from, whenever each stamp names its calendar year. -/
theorem validAfter_validUntil_certSigInfo (st : UInt8) (signer : ThumbPrint) {t₀ t₁ : Int}
    (rest : Bytes) (h₀ : YearExact t₀) (h₁ : YearExact t₁) :
    validAfter (certSigInfo st signer (Stamp.ofTime t₀) (Stamp.ofTime t₁) ++ rest) =
        toTimeT t₀ * 1000000 ∧
      validUntil (certSigInfo st signer (Stamp.ofTime t₀) (Stamp.ofTime t₁) ++ rest) =
        toTimeT t₁ * 1000000 := by
  obtain ⟨-, -, -, -, -, h49, -, h68, -⟩ :=
    certSigInfo_reads st signer (Stamp.ofTime t₀) (Stamp.ofTime t₁) rest
  rw [validAfter, validUntil, h49, h68]
  exact ⟨toTP_iso8601 h₀, toTP_iso8601 h₁⟩

theorem validAfter_validUntil_certSigInfo_sample :
    (YearExact earlyJune ∧ YearExact nextJune) ∧
      validAfter (sampleSigInfo ++ []) = toTimeT earlyJune * 1000000 ∧
        validUntil (sampleSigInfo ++ []) = toTimeT nextJune * 1000000 :=
  have h : YearExact earlyJune ∧ YearExact nextJune := by decide
  ⟨h, validAfter_validUntil_certSigInfo 3 ThumbPrint.zero [] h.1 h.2⟩

end SgKeyDist.Cert
