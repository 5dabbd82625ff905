import SgKeyDist.ByteOrder

namespace SgKeyDist.Identity

open SgKeyDist.ByteOrder

/-- A thumbprint is the SHA-256 digest of a signing certificate (`rData::computeTP`),
so `thumbPrint` is a 32-byte array. -/
def thumbPrintS : Nat := 32

/-- A peer identity: 32 bytes, ordered as `std::array` orders them. -/
structure ThumbPrint where
  bytes : Bytes
  size_eq : bytes.length = thumbPrintS
  deriving DecidableEq

namespace ThumbPrint

theorem ext {a b : ThumbPrint} (h : a.bytes = b.bytes) : a = b := by
  cases a; cases b; cases h; rfl

instance : LT ThumbPrint := ⟨fun a b => lexLt a.bytes b.bytes⟩

instance : LE ThumbPrint := ⟨fun a b => lexLt b.bytes a.bytes = false⟩

theorem lt_iff_lexLt (a b : ThumbPrint) : a < b ↔ lexLt a.bytes b.bytes := Iff.rfl

theorem le_iff_lexLt (a b : ThumbPrint) : a ≤ b ↔ lexLt b.bytes a.bytes = false := Iff.rfl

instance : LinearOrder ThumbPrint where
  le_refl a := lexLt_irrefl a.bytes
  le_trans a b c hab hbc := by
    rw [le_iff_lexLt] at *
    cases hca : lexLt c.bytes a.bytes
    · rfl
    · rcases lexLt_trichotomy a.bytes b.bytes with h | h | h
      · rw [lexLt_trans hca h] at hbc; exact hbc
      · rw [← h, hca] at hbc; exact hbc
      · rw [h] at hab; exact hab
  lt_iff_le_not_le a b := by
    rw [lt_iff_lexLt, le_iff_lexLt, le_iff_lexLt]
    constructor
    · intro h; exact ⟨lexLt_asymm h, by simp [h]⟩
    · intro h; simpa using h.2
  le_antisymm a b hab hba := by
    rw [le_iff_lexLt] at hab hba
    rcases lexLt_trichotomy a.bytes b.bytes with h | h | h
    · rw [h] at hba; cases hba
    · exact ext h
    · rw [h] at hab; cases hab
  le_total a b := by
    rw [le_iff_lexLt, le_iff_lexLt]
    rcases lexLt_trichotomy a.bytes b.bytes with h | h | h
    · exact .inl (lexLt_asymm h)
    · exact .inl (by rw [h]; exact lexLt_irrefl _)
    · exact .inr (lexLt_asymm h)
  decidableLE a b := inferInstanceAs (Decidable (lexLt b.bytes a.bytes = false))
  decidableLT a b := inferInstanceAs (Decidable (lexLt a.bytes b.bytes = true))

/-- The value-initialised thumbprint, and what `m_kmtp.fill(0)` writes. -/
def zero : ThumbPrint := ⟨List.replicate thumbPrintS 0, List.length_replicate _ _⟩

theorem zero_le (tp : ThumbPrint) : zero ≤ tp := by
  show lexLt tp.bytes (List.replicate thumbPrintS 0) = false
  rw [← tp.size_eq]; exact lexLt_replicate_zero _

end ThumbPrint

/-- `TP(tp)` of `publishKeyRange`: the first four bytes, which key-record names carry
as the low and high ends of their recipient range. -/
def tpId (tp : ThumbPrint) : Bytes := tp.bytes.take 4

@[simp] theorem tpId_length (tp : ThumbPrint) : (tpId tp).length = 4 := by
  simp [tpId, tp.size_eq, thumbPrintS]

theorem tpId_mono {a b : ThumbPrint} (h : a ≤ b) : lexLt (tpId b) (tpId a) = false := by
  cases hl : lexLt (tpId b) (tpId a)
  · rfl
  · exact absurd (lexLt_of_take 4 hl) (by simpa using h)

end SgKeyDist.Identity
