import SgKeyDist.Tlv

namespace SgKeyDist.TlvConst

open SgKeyDist.ByteOrder SgKeyDist.Tlv

/-- `enum class tlv : uint16_t`: the block types of NDN packets as DCT uses them. -/
inductive TlvType
  | name | generic | implicitSha256Digest | parametersSha256Digest | keyword | segment
  | byteOffset | version | timestamp | sequenceNum
  | interest | nonce | interestLifetime | canBePrefix | mustBeFresh
  | data | metaInfo | contentType | contentType_Blob | contentType_Link | contentType_Key
  | contentType_Nack | contentType_Manifest | contentType_CAdd | freshnessPeriod
  | content | signatureInfo | signatureType | digestSha256 | signatureSha256WithRsa
  | signatureSha256WithEcdsa | signatureHmacWithSha256 | keyLocator | keyDigest
  | validityPeriod | notBefore | notAfter | signatureValue
  deriving DecidableEq, Repr

/-- The value of each enumerator. -/
def TlvType.code : TlvType → Nat
  | .name => 7 | .generic => 8 | .implicitSha256Digest => 1 | .parametersSha256Digest => 2
  | .keyword => 32 | .segment => 33 | .byteOffset => 34 | .version => 35 | .timestamp => 36
  | .sequenceNum => 37
  | .interest => 5 | .nonce => 10 | .interestLifetime => 12 | .canBePrefix => 33
  | .mustBeFresh => 18
  | .data => 6 | .metaInfo => 20 | .contentType => 24 | .contentType_Blob => 0
  | .contentType_Link => 1 | .contentType_Key => 2 | .contentType_Nack => 3
  | .contentType_Manifest => 4 | .contentType_CAdd => 42 | .freshnessPeriod => 25
  | .content => 21 | .signatureInfo => 22 | .signatureType => 27 | .digestSha256 => 0
  | .signatureSha256WithRsa => 1 | .signatureSha256WithEcdsa => 3
  | .signatureHmacWithSha256 => 4 | .keyLocator => 28 | .keyDigest => 29
  | .validityPeriod => 253 | .notBefore => 254 | .notAfter => 255 | .signatureValue => 23

theorem TlvType.code_lt (t : TlvType) : t.code < 256 := by cases t <;> decide

theorem TlvType.wide_cases {t : TlvType} (h : 253 ≤ t.code) :
    t = .validityPeriod ∨ t = .notBefore ∨ t = .notAfter := by
  cases t <;> revert h <;> decide

/-- `tlvFlatten(args...)`: the arrays one after another. -/
def tlvFlatten (args : List Bytes) : Bytes := args.flatten

/-- One field of `TLVhdr`, written the same way for the type and the size: a value of 253 or
more gets the marker 253 and the byte `uint8_t(v >> 8)`; then comes `uint8_t(v)`. -/
def hdrField (v : Nat) : Bytes :=
  (if 253 ≤ v then [253, UInt8.ofNat (v >>> 8)] else []) ++ [UInt8.ofNat v]

/-- `TLVhdr<typ, siz>()`. -/
def TLVhdr (typ : TlvType) (siz : Nat) : Bytes := hdrField typ.code ++ hdrField siz

/-- `xTLV<typ>(args...)`: the type and the size each as one byte, then the arguments. The
braced list must not narrow the size, so it compiles only for at most 255 arguments. -/
def xTLV (typ : TlvType) (args : Bytes) : Bytes :=
  UInt8.ofNat typ.code :: UInt8.ofNat args.length :: args

/-- `TLV<typ>(std::array<uint8_t, S>)`: a `TLVhdr` and the array. -/
def TLV (typ : TlvType) (arg : Bytes) : Bytes := tlvFlatten [TLVhdr typ arg.length, arg]

/-- `TLV<typ>(uint8_t)`: the type, the size 1 and the byte. -/
def TLVByte (typ : TlvType) (arg : UInt8) : Bytes := [UInt8.ofNat typ.code, 1, arg]

section ReadBack

theorem fromBigEndian_cons (b : UInt8) (bs : Bytes) :
    fromBigEndian (b :: bs) = b.toNat * 256 ^ bs.length + fromBigEndian bs := by
  induction bs using List.reverseRecOn with
  | nil => simp [fromBigEndian]
  | append_singleton bs c ih =>
    rw [← List.cons_append, fromBigEndian_append_byte, fromBigEndian_append_byte, ih,
      List.length_append, List.length_singleton, Nat.pow_succ]
    ring

theorem readVarNumber_hdrField (v : Nat) (rest : Bytes) :
    readVarNumber (hdrField v ++ rest) = some (v % 65536, rest) := by
  unfold hdrField
  split_ifs with h
  · have hm := readVarNumber_marker 253 2 [UInt8.ofNat (v >>> 8), UInt8.ofNat v] rest
      (by decide) (by decide) rfl
    simp only [List.cons_append, List.nil_append] at hm ⊢
    rw [hm]
    simp only [fromBigEndian, List.foldl, toNat_ofNat_byte, Nat.shiftRight_eq_div_pow,
      Option.some.injEq, Prod.mk.injEq, and_true]
    omega
  · have hv : (UInt8.ofNat v).toNat = v := by rw [toNat_ofNat_byte]; omega
    simp [readVarNumber, hv, show v < 253 by omega, show v % 65536 = v by omega]

theorem nextBlk_wide {m c : UInt8} (hm : 253 ≤ m.toNat) (hc : c ≠ 0) {t : Nat} (ht : t < 256)
    (bs : Bytes) : nextBlk t (m :: c :: bs) = none := by
  have hc' : 1 ≤ c.toNat := Nat.pos_of_ne_zero fun h => hc (byte_ext h)
  obtain ⟨w, hw2, hw⟩ : ∃ w, 2 ≤ w ∧
      w = if m.toNat = 253 then 2 else if m.toNat = 254 then 4 else 8 :=
    ⟨_, by split_ifs <;> decide, rfl⟩
  have hr : readVarNumber (m :: c :: bs) = if w ≤ (c :: bs).length then
      some (fromBigEndian ((c :: bs).take w), (c :: bs).drop w) else none := by
    simp only [readVarNumber, if_neg (show ¬ m.toNat < 253 by omega), ← hw]
  unfold nextBlk
  rw [hr]
  split_ifs with hl
  · obtain ⟨k, rfl⟩ : ∃ k, w = k + 1 + 1 := ⟨w - 2, by omega⟩
    have hk : (bs.take (k + 1)).length = k + 1 := by
      rw [List.length_take]; simp only [List.length_cons] at hl; omega
    have hv : 256 ≤ fromBigEndian ((c :: bs).take (k + 1 + 1)) := by
      rw [List.take_succ_cons, fromBigEndian_cons, hk, Nat.pow_succ]
      have h256 : 1 * (1 * 256) ≤ c.toNat * (256 ^ k * 256) :=
        Nat.mul_le_mul hc' (Nat.mul_le_mul_right 256 (Nat.one_le_pow _ _ (by decide)))
      omega
    simp only [show fromBigEndian ((c :: bs).take (k + 1 + 1)) ≠ t by omega, ne_eq,
      not_false_eq_true, if_true]
  · rfl

theorem readVarNumber_wide_short {m : UInt8} (hm : 253 ≤ m.toNat) {bs : Bytes}
    (hl : bs.length < 2) : readVarNumber (m :: bs) = none := by
  simp only [readVarNumber, if_neg (show ¬ m.toNat < 253 by omega)]
  split_ifs <;> first | rfl | omega

theorem code_toNat (typ : TlvType) : (UInt8.ofNat typ.code).toNat = typ.code := by
  rw [toNat_ofNat_byte, Nat.mod_eq_of_lt typ.code_lt]

theorem nextBlk_TLV (typ : TlvType) (arg : Bytes) :
    nextBlk typ.code (TLV typ arg) =
      some (arg.take (arg.length % 65536), arg.drop (arg.length % 65536)) := by
  have ht := typ.code_lt
  simp only [TLV, tlvFlatten, TLVhdr, List.flatten_cons, List.flatten_nil, List.append_nil,
    List.append_assoc]
  unfold nextBlk
  rw [readVarNumber_hdrField, Nat.mod_eq_of_lt (by omega)]
  simp only [ne_eq, not_true_eq_false, if_false, readVarNumber_hdrField]
  rw [if_pos (Nat.mod_le _ _)]

theorem xTLV_eq_TLV {typ : TlvType} {args : Bytes} (ht : typ.code < 253) (ha : args.length < 253) :
    xTLV typ args = TLV typ args := by
  simp [xTLV, TLV, tlvFlatten, TLVhdr, hdrField, show ¬ 253 ≤ typ.code by omega,
    show ¬ 253 ≤ args.length by omega]

theorem TLVByte_eq_TLV {typ : TlvType} (ht : typ.code < 253) (b : UInt8) :
    TLVByte typ b = TLV typ [b] := by
  simp [TLVByte, TLV, tlvFlatten, TLVhdr, hdrField, show ¬ 253 ≤ typ.code by omega]

theorem nextBlk_xTLV_wide {typ : TlvType} {args : Bytes} (ht : 253 ≤ typ.code)
    (ha : args.length < 256) : nextBlk typ.code (xTLV typ args) = none := by
  have hm : 253 ≤ (UInt8.ofNat typ.code).toNat := by rw [code_toNat]; exact ht
  cases args with
  | nil => simp [xTLV, nextBlk, readVarNumber_wide_short hm]
  | cons a as =>
    refine nextBlk_wide hm (fun h => ?_) typ.code_lt (a :: as)
    have := congrArg UInt8.toNat h
    rw [toNat_ofNat_byte, List.length_cons] at this
    rw [List.length_cons] at ha
    exact absurd this (by rw [Nat.mod_eq_of_lt ha]; exact Nat.succ_ne_zero _)

theorem nextBlk_TLVByte_wide {typ : TlvType} (ht : 253 ≤ typ.code) (b : UInt8) :
    nextBlk typ.code (TLVByte typ b) = none :=
  nextBlk_wide (by rw [code_toNat]; exact ht) (by decide) typ.code_lt [b]

end ReadBack

/-- The compile-time constructors read back under the VAR-NUMBER rules only in part: `TLV`
keeps two bytes of a size of `2 ^ 16` or more, and `xTLV` and `TLV(uint8_t)` write the types
253 to 255 as a lone marker byte, which no reader takes for the type. -/
theorem tlv_headers_misread :
    (∀ typ arg, nextBlk typ.code (TLV typ arg) =
      some (arg.take (arg.length % 65536), arg.drop (arg.length % 65536))) ∧
    (∀ typ args, 253 ≤ typ.code → args.length < 256 → nextBlk typ.code (xTLV typ args) = none) ∧
    (∀ typ b, 253 ≤ typ.code → nextBlk typ.code (TLVByte typ b) = none) :=
  ⟨nextBlk_TLV, fun _ _ ht ha => nextBlk_xTLV_wide ht ha, fun _ b ht => nextBlk_TLVByte_wide ht b⟩

end SgKeyDist.TlvConst
