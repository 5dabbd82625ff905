import SgKeyDist.Tlv
import SgKeyDist.Identity

namespace SgKeyDist.KeyRecord

open SgKeyDist.ByteOrder SgKeyDist.Tlv SgKeyDist.Identity

/-- A name as the list of its component values. No modelled function reads a
component's TLV type, so the types are left out. -/
abbrev Name := List Bytes

/-- A publication as dist_sgkey reads it: name, content, and the thumbprint in the key
locator of its signature (`rData::thumbprint()`), which the sync layer has validated. -/
structure Pub where
  name : Name
  content : Bytes
  signer : ThumbPrint
  deriving DecidableEq

def crypto_box_SEALBYTES : Nat := 48

def kxpkKeySz : Nat := 32

def kxskKeySz : Nat := 32

def encSGKeySz : Nat := crypto_box_SEALBYTES + kxskKeySz

/-- `sizeof(egkr)`: a thumbprint and a sealed group secret key. -/
def egkrSize : Nat := thumbPrintS + encSGKeySz

/-- `crName / system_clock::now()`: the nine-byte tagged timestamp that the name formatter
of `rpacket.hpp` decodes, `0xfc 0x00` and seven big-endian bytes of microseconds. -/
def timestamp (us : Nat) : Bytes := 0xfc :: 0 :: bigEndian 7 us

/-- `<krPrefix>/<epoch>/<low tpId>/<high tpId>/<timestamp>`, as `publishKeyRange` names
a key-record publication. -/
def krName (krPrefix : Name) (epoch : Nat) (tpl tph : ThumbPrint) (ts : Nat) : Name :=
  krPrefix ++ [nonNegInt epoch, tpId tpl, tpId tph, timestamp ts]

theorem krName_range (pre : Name) (e : Nat) (lo hi : ThumbPrint) (ts : Nat) :
    (krName pre e lo hi ts)[pre.length + 1]? = some (tpId lo) ∧
      (krName pre e lo hi ts)[pre.length + 2]? = some (tpId hi) := by
  simp only [krName, List.getElem?_append_right (Nat.le_add_right _ _), Nat.add_sub_cancel_left]
  exact ⟨rfl, rfl⟩

/-- One `egkr` as it lies in the record array. -/
def egkrBytes (r : ThumbPrint × Bytes) : Bytes := r.1.bytes ++ r.2

/-- Key-record content as `makeSGKey` and `addGroupMem` encode it: the creation time
(type 36), the group public key (type 150) and the sealed records (type 130). -/
def krContent (ct : Nat) (pk : Bytes) (recs : List (ThumbPrint × Bytes)) : Bytes :=
  tlv 36 (nonNegInt ct) ++ tlv 150 pk ++ tlv 130 (recs.flatMap egkrBytes)

def splitEgkr : Nat → Bytes → List (Bytes × Bytes)
  | 0, _ => []
  | n + 1, v => (v.take thumbPrintS, (v.drop thumbPrintS).take encSGKeySz) ::
      splitEgkr n (v.drop egkrSize)

/-- Modelled from the spec: `tlvParser::toSpan<egkr>()`, the value viewed as an array of
whole `egkr` records (thumbprint bytes, sealed key bytes). -/
def toSpanEgkr (v : Bytes) : List (Bytes × Bytes) := splitEgkr (v.length / egkrSize) v

/-- `content.nextBlk(36).toNumber()`: the creation time and the content after it. -/
def readCT (c : Bytes) : Option (Nat × Bytes) :=
  match nextBlk 36 c with
  | none => none
  | some (v, r) => (toNumber v).map (fun n => (n, r))

/-- The record array a receiver reads from key-record content: past the creation time and
the public key, the value of the type-130 block viewed as `egkr` records. -/
def recordsOf (c : Bytes) : Option (List (Bytes × Bytes)) :=
  match nextBlk 36 c with
  | none => none
  | some (_, c₁) =>
    match nextBlk 150 c₁ with
    | none => none
    | some (_, c₂) => (nextBlk 130 c₂).map (fun b => toSpanEgkr b.1)

theorem nonNegInt_length_le (n : Nat) : (nonNegInt n).length ≤ 8 := by
  unfold nonNegInt; split_ifs <;> simp

theorem nonNegInt_length_lt (n : Nat) : (nonNegInt n).length < 2 ^ 64 :=
  lt_of_le_of_lt (nonNegInt_length_le n) (by decide)

theorem varNumber_length_le (n : Nat) : (varNumber n).length ≤ 9 := by
  unfold varNumber; split_ifs <;> simp

theorem krContent_length_le (ct : Nat) (pk : Bytes) (recs : List (ThumbPrint × Bytes)) :
    (krContent ct pk recs).length ≤ 62 + pk.length + (recs.flatMap egkrBytes).length := by
  have h₁ := varNumber_length_le 36
  have h₂ := varNumber_length_le 150
  have h₃ := varNumber_length_le 130
  have h₄ := varNumber_length_le (nonNegInt ct).length
  have h₅ := varNumber_length_le pk.length
  have h₆ := varNumber_length_le (recs.flatMap egkrBytes).length
  have h₇ := nonNegInt_length_le ct
  simp only [krContent, tlv, List.length_append]
  omega

theorem egkrBytes_length (r : ThumbPrint × Bytes) (h : r.2.length = encSGKeySz) :
    (egkrBytes r).length = egkrSize := by
  simp [egkrBytes, r.1.size_eq, h, egkrSize]

theorem splitEgkr_records (recs : List (ThumbPrint × Bytes))
    (h : ∀ r ∈ recs, r.2.length = encSGKeySz) (rest : Bytes) :
    splitEgkr recs.length (recs.flatMap egkrBytes ++ rest) = recs.map (fun r => (r.1.bytes, r.2)) := by
  induction recs with
  | nil => rfl
  | cons r recs ih =>
    have hr := h r (List.mem_cons_self _ _)
    have ht : r.1.bytes.length = thumbPrintS := r.1.size_eq
    simp only [List.length_cons, splitEgkr, List.flatMap_cons, List.map_cons, egkrBytes,
      List.append_assoc]
    rw [List.take_left' ht, List.drop_left' ht, List.take_left' hr,
      show egkrSize = r.1.bytes.length + r.2.length by simp [ht, hr, egkrSize],
      ← List.drop_drop, List.drop_left, List.drop_left,
      ih (fun r' hr' => h r' (List.mem_cons_of_mem _ hr'))]

theorem flatMap_egkrBytes_length (recs : List (ThumbPrint × Bytes))
    (h : ∀ r ∈ recs, r.2.length = encSGKeySz) :
    (recs.flatMap egkrBytes).length = recs.length * egkrSize := by
  induction recs with
  | nil => rfl
  | cons r recs ih =>
    simp only [List.flatMap_cons, List.length_append, List.length_cons,
      egkrBytes_length r (h r (List.mem_cons_self _ _)),
      ih (fun r' hr' => h r' (List.mem_cons_of_mem _ hr')), Nat.succ_mul, Nat.add_comm]

theorem toSpanEgkr_records (recs : List (ThumbPrint × Bytes))
    (h : ∀ r ∈ recs, r.2.length = encSGKeySz) :
    toSpanEgkr (recs.flatMap egkrBytes) = recs.map (fun r => (r.1.bytes, r.2)) := by
  have hn : (recs.flatMap egkrBytes).length / egkrSize = recs.length := by
    rw [flatMap_egkrBytes_length recs h, Nat.mul_div_cancel _ (by decide)]
  have := splitEgkr_records recs h []
  rwa [List.append_nil, ← hn] at this

theorem readCT_lt {c rest : Bytes} {n : Nat} (h : readCT c = some (n, rest)) : n < 2 ^ 64 := by
  unfold readCT at h
  split at h
  · cases h
  · obtain ⟨m, hm, hmn⟩ := Option.map_eq_some'.mp h
    cases hmn
    exact toNumber_lt hm

theorem readCT_tlv {ct : Nat} (h : ct < 2 ^ 64) (rest : Bytes) :
    readCT (tlv 36 (nonNegInt ct) ++ rest) = some (ct, rest) := by
  simp [readCT, nextBlk_tlv (by decide : 36 < 2 ^ 64) (nonNegInt_length_lt ct) rest, toNumber_nonNegInt h]

theorem readCT_krContent {ct : Nat} (h : ct < 2 ^ 64) (pk : Bytes) (recs : List (ThumbPrint × Bytes)) :
    readCT (krContent ct pk recs) = some (ct, tlv 150 pk ++ tlv 130 (recs.flatMap egkrBytes)) := by
  rw [krContent, List.append_assoc, readCT_tlv h]

theorem recordsOf_krContent (ct : Nat) {pk : Bytes} {recs : List (ThumbPrint × Bytes)}
    (hpk : pk.length < 2 ^ 64) (hv : (recs.flatMap egkrBytes).length < 2 ^ 64)
    (h : ∀ r ∈ recs, r.2.length = encSGKeySz) :
    recordsOf (krContent ct pk recs) = some (recs.map fun r => (r.1.bytes, r.2)) := by
  have h130 := nextBlk_tlv (by decide : 130 < 2 ^ 64) hv []
  rw [List.append_nil] at h130
  simp [recordsOf, krContent, nextBlk_tlv (by decide : 36 < 2 ^ 64) (nonNegInt_length_lt ct),
    nextBlk_tlv (by decide : 150 < 2 ^ 64) hpk, h130, toSpanEgkr_records recs h]

end SgKeyDist.KeyRecord
