import Mathlib

namespace SgKeyDist.ByteOrder

/-- Byte strings. The source's `std::vector<uint8_t>`, its spans and its fixed
`std::array`s of bytes all become lists of `UInt8`. -/
abbrev Bytes := List UInt8

theorem toNat_ofNat_byte (n : Nat) : (UInt8.ofNat n).toNat = n % 256 := by
  simp [UInt8.ofNat, UInt8.toNat, BitVec.toNat_ofNat]

theorem byte_lt (b : UInt8) : b.toNat < 256 := b.toNat_lt_size

theorem byte_ext {a b : UInt8} (h : a.toNat = b.toNat) : a = b := UInt8.toNat.inj h

theorem uint64_ofNat_toNat (x : UInt64) : UInt64.ofNat x.toNat = x :=
  UInt64.eq_of_val_eq (by simp [UInt64.ofNat, UInt64.toNat])

theorem byte_lt_iff (a b : UInt8) : a < b ↔ a.toNat < b.toNat := by
  rw [UInt8.lt_def, BitVec.lt_def]; rfl

/-- Network byte order: the low `k` bytes of `n`, most significant first. -/
def bigEndian : Nat → Nat → Bytes
  | 0, _ => []
  | k + 1, n => bigEndian k (n / 256) ++ [UInt8.ofNat n]

/-- Read a big-endian unsigned integer of any width. -/
def fromBigEndian (bs : Bytes) : Nat := bs.foldl (fun acc b => acc * 256 + b.toNat) 0

@[simp] theorem bigEndian_length (k n : Nat) : (bigEndian k n).length = k := by
  induction k generalizing n with
  | zero => rfl
  | succ k ih => simp [bigEndian, ih]

theorem fromBigEndian_append_byte (bs : Bytes) (b : UInt8) :
    fromBigEndian (bs ++ [b]) = fromBigEndian bs * 256 + b.toNat := by
  simp [fromBigEndian, List.foldl_append]

theorem fromBigEndian_bigEndian (k n : Nat) : fromBigEndian (bigEndian k n) = n % 256 ^ k := by
  induction k generalizing n with
  | zero => simp [bigEndian, fromBigEndian, Nat.mod_one]
  | succ k ih =>
    rw [bigEndian, fromBigEndian_append_byte, ih, toNat_ofNat_byte, Nat.pow_succ,
      Nat.mul_comm (256 ^ k), Nat.mod_mul]
    omega

theorem fromBigEndian_lt (bs : Bytes) : fromBigEndian bs < 256 ^ bs.length := by
  induction bs using List.reverseRecOn with
  | nil => decide
  | append_singleton bs b ih =>
    rw [fromBigEndian_append_byte, List.length_append, List.length_singleton, Nat.pow_succ]
    have := byte_lt b
    have : (fromBigEndian bs + 1) * 256 ≤ 256 ^ bs.length * 256 := Nat.mul_le_mul_right _ ih
    omega

theorem fromBigEndian_bigEndian_of_lt {k n : Nat} (h : n < 256 ^ k) :
    fromBigEndian (bigEndian k n) = n := by
  rw [fromBigEndian_bigEndian, Nat.mod_eq_of_lt h]

theorem byte_trichotomy {a b : UInt8} (h₁ : ¬ a < b) (h₂ : ¬ b < a) : a = b := by
  rw [byte_lt_iff] at h₁ h₂
  exact byte_ext (by omega)

/-- `std::lexicographical_compare` on bytes: the `<` of `std::array<uint8_t, N>`, and so
the `<` of thumbprints and the key order of `std::map<thumbPrint, _>`. -/
def lexLt : Bytes → Bytes → Bool
  | [], [] => false
  | [], _ :: _ => true
  | _ :: _, [] => false
  | a :: as, b :: bs => decide (a < b) || (a == b && lexLt as bs)

/-- `std::memcmp(a, b, n)`, as the sign of the first differing byte. -/
def memcmp : Nat → Bytes → Bytes → Ordering
  | n + 1, a :: as, b :: bs => if a < b then .lt else if b < a then .gt else memcmp n as bs
  | _, _, _ => .eq

/-- The `less` lambda of `receiveSGKeyRecords`: memcmp over the shorter length, and
on a tie the shorter string is the smaller. -/
def less (a b : Bytes) : Bool :=
  match memcmp (min a.length b.length) a b with
  | .lt => true
  | .gt => false
  | .eq => decide (a.length < b.length)

theorem lexLt_irrefl (a : Bytes) : lexLt a a = false := by
  induction a with
  | nil => rfl
  | cons x as ih => simp [lexLt, ih]

theorem lexLt_trans {a b c : Bytes} (h₁ : lexLt a b) (h₂ : lexLt b c) : lexLt a c := by
  induction a generalizing b c with
  | nil => cases b <;> cases c <;> simp_all [lexLt]
  | cons x as ih =>
    cases b with
    | nil => simp [lexLt] at h₁
    | cons y bs =>
      cases c with
      | nil => simp [lexLt] at h₂
      | cons z cs =>
        simp only [lexLt, Bool.or_eq_true, decide_eq_true_eq, Bool.and_eq_true, beq_iff_eq] at *
        rcases h₁ with h₁ | ⟨rfl, h₁⟩ <;> rcases h₂ with h₂ | ⟨rfl, h₂⟩
        · exact .inl (UInt8.lt_trans h₁ h₂)
        · exact .inl h₁
        · exact .inl h₂
        · exact .inr ⟨rfl, ih h₁ h₂⟩

theorem lexLt_asymm {a b : Bytes} (h : lexLt a b) : lexLt b a = false := by
  cases hba : lexLt b a
  · rfl
  · have := lexLt_trans h hba
    rw [lexLt_irrefl] at this
    exact absurd this (by decide)

theorem lexLt_trichotomy (a b : Bytes) : lexLt a b ∨ a = b ∨ lexLt b a := by
  induction a generalizing b with
  | nil => cases b <;> simp [lexLt]
  | cons x as ih =>
    cases b with
    | nil => simp [lexLt]
    | cons y bs =>
      simp only [lexLt, Bool.or_eq_true, decide_eq_true_eq, Bool.and_eq_true, beq_iff_eq,
        List.cons.injEq]
      by_cases hxy : x < y
      · exact .inl (.inl hxy)
      by_cases hyx : y < x
      · exact .inr (.inr (.inl hyx))
      obtain rfl := byte_trichotomy hxy hyx
      rcases ih bs with h | h | h
      · exact .inl (.inr ⟨rfl, h⟩)
      · exact .inr (.inl ⟨rfl, h⟩)
      · exact .inr (.inr (.inr ⟨rfl, h⟩))

theorem lexLt_of_take {a b : Bytes} (k : Nat) (h : lexLt (a.take k) (b.take k)) : lexLt a b := by
  induction a generalizing b k with
  | nil => cases b <;> cases k <;> simp_all [lexLt]
  | cons x as ih =>
    cases b with
    | nil => cases k <;> simp [lexLt] at h
    | cons y bs =>
      cases k with
      | zero => simp [lexLt] at h
      | succ k =>
        simp only [List.take_succ_cons, lexLt, Bool.or_eq_true, Bool.and_eq_true] at h ⊢
        exact h.imp id (fun h => ⟨h.1, ih k h.2⟩)

theorem lexLt_replicate_zero (a : Bytes) : lexLt a (List.replicate a.length 0) = false := by
  induction a with
  | nil => rfl
  | cons x as ih =>
    have : ¬ x < 0 := by rw [byte_lt_iff]; exact Nat.not_lt_zero _
    simp [lexLt, List.replicate_succ, ih, this]

theorem less_cons (x y : UInt8) (as bs : Bytes) :
    less (x :: as) (y :: bs) = if x < y then true else if y < x then false else less as bs := by
  unfold less
  rw [List.length_cons, List.length_cons, Nat.succ_min_succ]
  simp only [memcmp]
  split_ifs <;> simp

theorem less_eq_lexLt (a b : Bytes) : less a b = lexLt a b := by
  induction a generalizing b with
  | nil => cases b <;> simp [less, memcmp, lexLt]
  | cons x as ih =>
    cases b with
    | nil => simp [less, memcmp, lexLt]
    | cons y bs =>
      rw [less_cons, ih]
      by_cases hxy : x < y
      · simp [lexLt, hxy]
      by_cases hyx : y < x
      · have hne : x ≠ y := by rintro rfl; exact UInt8.lt_irrefl x hyx
        simp [lexLt, hxy, hyx, hne]
      obtain rfl := byte_trichotomy hxy hyx
      simp [lexLt, hxy]

end SgKeyDist.ByteOrder
