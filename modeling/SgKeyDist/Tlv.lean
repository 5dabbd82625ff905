import SgKeyDist.ByteOrder

namespace SgKeyDist.Tlv

open SgKeyDist.ByteOrder

/-- Modelled from the spec: `tlv_encoder.hpp` is not among the sources. The NDN
VAR-NUMBER that encodes TLV types and lengths: one byte below 253, else the marker 253,
254 or 255 and then 2, 4 or 8 big-endian bytes. -/
def varNumber (n : Nat) : Bytes :=
  if n < 253 then [UInt8.ofNat n]
  else if n < 2 ^ 16 then 253 :: bigEndian 2 n
  else if n < 2 ^ 32 then 254 :: bigEndian 4 n
  else 255 :: bigEndian 8 n

/-- Modelled from the spec: `tlv_parser.hpp` is not among the sources. Reads one
VAR-NUMBER and returns the bytes after it; `none` where the parser throws. -/
def readVarNumber : Bytes → Option (Nat × Bytes)
  | [] => none
  | b :: rest =>
    if b.toNat < 253 then some (b.toNat, rest)
    else
      let w := if b.toNat = 253 then 2 else if b.toNat = 254 then 4 else 8
      if w ≤ rest.length then some (fromBigEndian (rest.take w), rest.drop w) else none

/-- Modelled from the spec: the value `tlvEncoder::addNumber` writes, an NDN
nonNegativeInteger of 1, 2, 4 or 8 big-endian bytes. -/
def nonNegInt (n : Nat) : Bytes :=
  if n < 2 ^ 8 then bigEndian 1 n
  else if n < 2 ^ 16 then bigEndian 2 n
  else if n < 2 ^ 32 then bigEndian 4 n
  else bigEndian 8 n

/-- Modelled from the spec: `tlvParser::toNumber`, which reads a nonNegativeInteger
value and throws on any other width. -/
def toNumber (v : Bytes) : Option Nat :=
  if v.length = 1 ∨ v.length = 2 ∨ v.length = 4 ∨ v.length = 8 then some (fromBigEndian v)
  else none

/-- One TLV block: type, length, value. `tlvEncoder::addArray` appends one. -/
def tlv (t : Nat) (v : Bytes) : Bytes := varNumber t ++ varNumber v.length ++ v

/-- Modelled from the spec: `tlvParser::nextBlk(t)`. The value of the next block, which
must have type `t` and fit in what is left, and the bytes after it. -/
def nextBlk (t : Nat) (bs : Bytes) : Option (Bytes × Bytes) :=
  match readVarNumber bs with
  | none => none
  | some (t', r) =>
    if t' ≠ t then none
    else match readVarNumber r with
      | none => none
      | some (len, r') => if len ≤ r'.length then some (r'.take len, r'.drop len) else none

theorem readVarNumber_marker (m : UInt8) (w : Nat) (bs rest : Bytes) (hm : 253 ≤ m.toNat)
    (hw : w = if m.toNat = 253 then 2 else if m.toNat = 254 then 4 else 8) (hl : bs.length = w) :
    readVarNumber (m :: (bs ++ rest)) = some (fromBigEndian bs, rest) := by
  have hlen : w ≤ (bs ++ rest).length := by simp [hl]
  simp only [readVarNumber, show ¬ m.toNat < 253 by omega, if_false, ← hw, hlen, if_true,
    List.take_left' hl, List.drop_left' hl]

theorem readVarNumber_varNumber {n : Nat} (h : n < 2 ^ 64) (rest : Bytes) :
    readVarNumber (varNumber n ++ rest) = some (n, rest) := by
  unfold varNumber
  split_ifs with h₁ h₂ h₃
  · have : (UInt8.ofNat n).toNat = n := by rw [toNat_ofNat_byte]; omega
    simp [readVarNumber, this, h₁]
  · rw [List.cons_append, readVarNumber_marker 253 2 _ rest (by decide) (by decide) (by simp),
      fromBigEndian_bigEndian_of_lt (by omega)]
  · rw [List.cons_append, readVarNumber_marker 254 4 _ rest (by decide) (by decide) (by simp),
      fromBigEndian_bigEndian_of_lt (by omega)]
  · rw [List.cons_append, readVarNumber_marker 255 8 _ rest (by decide) (by decide) (by simp),
      fromBigEndian_bigEndian_of_lt (by omega)]

theorem toNumber_bigEndian {k n : Nat} (hk : k = 1 ∨ k = 2 ∨ k = 4 ∨ k = 8)
    (h : n < 256 ^ k) : toNumber (bigEndian k n) = some n := by
  rw [toNumber, bigEndian_length, if_pos hk, fromBigEndian_bigEndian_of_lt h]

theorem toNumber_nonNegInt {n : Nat} (h : n < 2 ^ 64) : toNumber (nonNegInt n) = some n := by
  unfold nonNegInt
  split_ifs with h₁ h₂ h₃
  · exact toNumber_bigEndian (by decide) (by omega)
  · exact toNumber_bigEndian (by decide) (by omega)
  · exact toNumber_bigEndian (by decide) (by omega)
  · exact toNumber_bigEndian (by decide) (by omega)

theorem toNumber_lt {v : Bytes} {n : Nat} (h : toNumber v = some n) : n < 2 ^ 64 := by
  unfold toNumber at h
  split_ifs at h with hv
  cases h
  have := fromBigEndian_lt v
  have : 256 ^ v.length ≤ 2 ^ 64 := by
    rcases hv with hv | hv | hv | hv <;> rw [hv] <;> decide
  omega

theorem nextBlk_tlv {t : Nat} {v : Bytes} (ht : t < 2 ^ 64) (hv : v.length < 2 ^ 64)
    (rest : Bytes) : nextBlk t (tlv t v ++ rest) = some (v, rest) := by
  simp only [nextBlk, tlv, List.append_assoc, readVarNumber_varNumber ht,
    readVarNumber_varNumber hv, ne_eq, not_true_eq_false, if_false, List.length_append,
    Nat.le_add_right, if_true, List.take_left, List.drop_left]

end SgKeyDist.Tlv
