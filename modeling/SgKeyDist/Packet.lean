import SgKeyDist.Tlv

namespace SgKeyDist.Packet

open SgKeyDist.ByteOrder SgKeyDist.Tlv

namespace RPrefix

/-- `rPrefix::operator<=>`: `memcmp` over the shorter length; if that is zero, or on a tie,
the shorter is the smaller. -/
def cmp (a b : Bytes) : Ordering :=
  let msz := min a.length b.length
  if msz = 0 then compare a.length b.length
  else match memcmp msz a b with
    | .eq => compare a.length b.length
    | .lt => .lt
    | .gt => .gt

/-- `rPrefix::operator==`. -/
def eq (a b : Bytes) : Bool := a.length == b.length && memcmp a.length a b == .eq

/-- `rPrefix::isPrefix(p)`: whether this prefix is a prefix of `p`. -/
def isPrefix (a p : Bytes) : Bool := if p.length < a.length then false else memcmp a.length a p == .eq

end RPrefix

/-- An `rName`: a Name TLV. `rPrefix(n)` is the parser over `n.rest()`, the name's body of
component TLVs, and the name's order and prefix test are those of its body. -/
structure RName where
  body : Bytes

/-- `rName::operator<=>`. -/
def RName.cmp (a b : RName) : Ordering := RPrefix.cmp a.body b.body

/-- `rName::isPrefix(nm)`. -/
def RName.isPrefix (a b : RName) : Bool := RPrefix.isPrefix a.body b.body

/-- Modelled from the spec: `tlvParser::nextBlk()` of `tlv_parser.hpp`, which is not among the
sources. It reads one block of any type, a VAR-NUMBER type and length and then the value, and
returns the block's bytes and the bytes after it; `none` where the parser throws. -/
def nextBlkAny (bs : Bytes) : Option (Bytes × Bytes) :=
  match readVarNumber bs with
  | none => none
  | some (_, r) =>
    match readVarNumber r with
    | none => none
    | some (len, r') =>
      if len ≤ r'.length then some (bs.take (bs.length - (r'.length - len)), r'.drop len) else none

/-- The `nextBlk()` loop of `rName::valid()`, keeping the blocks it steps over; `none` where
`nextBlk` throws. Every block has at least two bytes, so the length is enough fuel. -/
def components (fuel : Nat) (bs : Bytes) : Option (List Bytes) :=
  match bs, fuel with
  | [], _ => some []
  | _ :: _, 0 => none
  | b :: bs, fuel + 1 =>
    match nextBlkAny (b :: bs) with
    | none => none
    | some (blk, rest) => (components fuel rest).map (blk :: ·)

/-- `rName::valid()`: the body is exactly covered by component blocks. -/
def RName.valid (n : RName) : Bool := (components n.body.length n.body).isSome

/-- Modelled from the spec: the parser `rData(d)` builds, from `tlv_parser.hpp`, which is not
among the sources. It stands at the value of the packet's outer TLV; `none` where the header
does not read or the value does not fit. -/
def dataValue (d : Bytes) : Option Bytes :=
  match readVarNumber d with
  | none => none
  | some (_, r) =>
    match readVarNumber r with
    | none => none
    | some (len, r') => if len ≤ r'.length then some (r'.take len) else none

/-- `rData::valid()`: the Name, MetaInfo, Content, SignatureInfo and SignatureValue blocks in
that order and nothing after them; a parser exception is `false`. The source calls
`rName(t.nextBlk(tlv::Name)).valid()` and drops its result, so the name's body goes
unchecked. -/
def RData.valid (d : Bytes) : Bool :=
  ((dataValue d).bind fun v => (nextBlk 7 v).bind fun (_, v) =>
    (nextBlk 20 v).bind fun (_, v) => (nextBlk 21 v).bind fun (_, v) =>
    (nextBlk 22 v).bind fun (_, v) => (nextBlk 23 v).map fun (_, v) => v.isEmpty).getD false

section Order

theorem memcmp_zero (a b : Bytes) : memcmp 0 a b = .eq := by
  cases a <;> cases b <;> rfl

theorem memcmp_cons (n : Nat) (x y : UInt8) (as bs : Bytes) :
    memcmp (n + 1) (x :: as) (y :: bs) = if x < y then .lt else if y < x then .gt else memcmp n as bs :=
  rfl

theorem compare_succ (a b : Nat) : compare (a + 1) (b + 1) = compare a b := by
  simp only [Nat.compare_def_lt, Nat.add_lt_add_iff_right]

theorem cmp_eq_memcmp (a b : Bytes) : RPrefix.cmp a b =
    match memcmp (min a.length b.length) a b with
    | .eq => compare a.length b.length
    | .lt => .lt
    | .gt => .gt := by
  unfold RPrefix.cmp; dsimp only
  split_ifs with h
  · rw [h, memcmp_zero]
  · rfl

theorem cmp_eq_lexLt (a b : Bytes) :
    RPrefix.cmp a b = if lexLt a b then .lt else if a = b then .eq else .gt := by
  induction a generalizing b with
  | nil => cases b <;> simp [cmp_eq_memcmp, lexLt, memcmp_zero, Nat.compare_def_lt]
  | cons x as ih =>
    cases b with
    | nil => simp [cmp_eq_memcmp, lexLt, memcmp_zero, Nat.compare_def_lt]
    | cons y bs =>
      rw [cmp_eq_memcmp, List.length_cons, List.length_cons, Nat.succ_min_succ, memcmp_cons,
        compare_succ]
      by_cases hxy : x < y
      · simp [hxy, lexLt]
      by_cases hyx : y < x
      · have hne : x ≠ y := fun h => UInt8.lt_irrefl x (h ▸ hyx)
        simp [hxy, hyx, hne, lexLt]
      obtain rfl := byte_trichotomy hxy hyx
      rw [if_neg hxy, if_neg hxy, ← cmp_eq_memcmp, ih]
      simp [lexLt, hxy]

theorem cmp_eq_eq_iff (a b : Bytes) : RPrefix.cmp a b = .eq ↔ a = b := by
  rw [cmp_eq_lexLt]
  split_ifs with h₁ h₂
  · exact ⟨nofun, fun h => by rw [h, lexLt_irrefl] at h₁; cases h₁⟩
  · exact ⟨fun _ => h₂, fun _ => rfl⟩
  · exact ⟨nofun, fun h => absurd h h₂⟩

theorem cmp_eq_lt_iff (a b : Bytes) : RPrefix.cmp a b = .lt ↔ lexLt a b = true := by
  rw [cmp_eq_lexLt]; split_ifs <;> simp_all

theorem cmp_ne_gt_iff (a b : Bytes) : RPrefix.cmp a b ≠ .gt ↔ lexLt a b = true ∨ a = b := by
  rw [cmp_eq_lexLt]; split_ifs <;> simp_all

theorem cmp_swap (a b : Bytes) : RPrefix.cmp b a = (RPrefix.cmp a b).swap := by
  rw [cmp_eq_lexLt, cmp_eq_lexLt]
  rcases lexLt_trichotomy a b with h | rfl | h
  · have hne : b ≠ a := fun e => by rw [e, lexLt_irrefl] at h; cases h
    simp [h, lexLt_asymm h, hne, Ordering.swap]
  · simp [lexLt_irrefl, Ordering.swap]
  · have hne : a ≠ b := fun e => by rw [e, lexLt_irrefl] at h; cases h
    simp [h, lexLt_asymm h, hne, Ordering.swap]

theorem ordering_beq_eq (o : Ordering) : (o == .eq) = true ↔ o = .eq := by
  cases o <;> decide

theorem memcmp_eq_iff_isPrefix {a p : Bytes} (h : a.length ≤ p.length) :
    memcmp a.length a p = .eq ↔ a <+: p := by
  induction a generalizing p with
  | nil => simp [memcmp_zero]
  | cons x as ih =>
    cases p with
    | nil => simp at h
    | cons y ps =>
      rw [List.length_cons, memcmp_cons, List.cons_prefix_cons]
      by_cases hxy : x < y
      · simp [hxy, (UInt8.ne_of_lt hxy)]
      by_cases hyx : y < x
      · simp [hxy, hyx, (UInt8.ne_of_lt hyx).symm]
      obtain rfl := byte_trichotomy hxy hyx
      simp only [if_neg hxy, true_and]
      exact ih (by simpa using h)

theorem isPrefix_iff (a p : Bytes) : RPrefix.isPrefix a p = true ↔ a <+: p := by
  unfold RPrefix.isPrefix
  split_ifs with h
  · exact ⟨nofun, fun hp => absurd hp.length_le (by omega)⟩
  · rw [ordering_beq_eq, memcmp_eq_iff_isPrefix (by omega)]

theorem eq_iff (a b : Bytes) : RPrefix.eq a b = true ↔ a = b := by
  simp only [RPrefix.eq, Bool.and_eq_true, beq_iff_eq, ordering_beq_eq]
  constructor
  · rintro ⟨hl, hm⟩
    exact ((memcmp_eq_iff_isPrefix hl.le).mp hm).eq_of_length hl
  · rintro rfl
    exact ⟨rfl, (memcmp_eq_iff_isPrefix le_rfl).mpr (List.prefix_refl a)⟩

theorem prefix_of_between {a b c : Bytes} (hac : a <+: c) (hab : lexLt a b = true ∨ a = b)
    (hbc : lexLt b c = true ∨ b = c) : a <+: b := by
  induction a generalizing b c with
  | nil => exact List.nil_prefix
  | cons x as ih =>
    obtain ⟨cs, rfl⟩ : ∃ cs, c = x :: cs := by
      obtain ⟨t, rfl⟩ := hac; exact ⟨as ++ t, rfl⟩
    rw [List.cons_prefix_cons] at hac
    cases b with
    | nil => simp [lexLt] at hab
    | cons y bs =>
      simp only [lexLt, Bool.or_eq_true, decide_eq_true_eq, Bool.and_eq_true, beq_iff_eq,
        List.cons.injEq] at hab hbc
      have hxy : x = y := by
        rcases hab with (h | ⟨h, -⟩) | ⟨h, -⟩
        · rcases hbc with (h' | ⟨h', -⟩) | ⟨h', -⟩
          · exact absurd (UInt8.lt_trans h h') (UInt8.lt_irrefl x)
          · exact absurd h (h' ▸ UInt8.lt_irrefl y)
          · exact absurd h (h' ▸ UInt8.lt_irrefl y)
        · exact h
        · exact h
      subst hxy
      have hab' : lexLt as bs = true ∨ as = bs := by
        rcases hab with (h | ⟨-, h⟩) | ⟨-, h⟩
        · exact absurd h (UInt8.lt_irrefl x)
        · exact .inl h
        · exact .inr h
      have hbc' : lexLt bs cs = true ∨ bs = cs := by
        rcases hbc with (h | ⟨-, h⟩) | ⟨-, h⟩
        · exact absurd h (UInt8.lt_irrefl x)
        · exact .inl h
        · exact .inr h
      exact List.cons_prefix_cons.mpr ⟨rfl, ih hac.2 hab' hbc'⟩

end Order

section Components

theorem readVarNumber_split {bs r : Bytes} {n : Nat} (h : readVarNumber bs = some (n, r)) :
    ∃ hd, hd ≠ [] ∧ bs = hd ++ r := by
  cases bs with
  | nil => cases h
  | cons b rest =>
    dsimp only [readVarNumber] at h
    generalize (if b.toNat = 253 then 2 else if b.toNat = 254 then 4 else 8) = w at h
    split_ifs at h with h₁ h₂ <;> cases h
    · exact ⟨[b], by simp, rfl⟩
    · exact ⟨b :: rest.take _, by simp, by rw [List.cons_append, List.take_append_drop]⟩

theorem readVarNumber_append {bs r : Bytes} {n : Nat} (h : readVarNumber bs = some (n, r))
    (x : Bytes) : readVarNumber (bs ++ x) = some (n, r ++ x) := by
  cases bs with
  | nil => cases h
  | cons b rest =>
    dsimp only [readVarNumber, List.cons_append] at h ⊢
    generalize (if b.toNat = 253 then 2 else if b.toNat = 254 then 4 else 8) = w at h ⊢
    split_ifs at h ⊢ with h₁ h₂ h₃ <;> cases h
    · rfl
    · rw [List.take_append_of_le_length h₃, List.drop_append_of_le_length h₃]
    all_goals simp only [List.length_append] at *; omega

theorem nextBlkAny_split {bs blk rest : Bytes} (h : nextBlkAny bs = some (blk, rest)) :
    blk ≠ [] ∧ bs = blk ++ rest := by
  unfold nextBlkAny at h
  split at h
  · cases h
  rename_i r h₁
  split at h
  · cases h
  rename_i len r' h₂
  split_ifs at h with hl
  cases h
  obtain ⟨h1, hne1, rfl⟩ := readVarNumber_split h₁
  obtain ⟨h2, -, rfl⟩ := readVarNumber_split h₂
  have hlen : (h1 ++ (h2 ++ r')).length - (r'.length - len) = h1.length + h2.length + len := by
    simp only [List.length_append]; omega
  rw [hlen]
  refine ⟨fun he => hne1 (List.eq_nil_of_length_eq_zero ?_), ?_⟩
  · have := congrArg List.length he
    simp only [List.length_take, List.length_append, List.length_nil] at this; omega
  · rw [← List.append_assoc, List.take_append_eq_append_take, List.take_of_length_le (by simp),
      List.length_append, show h1.length + h2.length + len - (h1.length + h2.length) = len by omega]
    simp only [List.append_assoc, List.take_append_drop]

theorem nextBlkAny_append {bs blk rest : Bytes} (h : nextBlkAny bs = some (blk, rest)) (x : Bytes) :
    nextBlkAny (bs ++ x) = some (blk, rest ++ x) := by
  obtain ⟨-, hsplit⟩ := nextBlkAny_split h
  unfold nextBlkAny at h ⊢
  split at h
  · cases h
  rename_i r h₁
  split at h
  · cases h
  rename_i len r' h₂
  split_ifs at h with hl
  cases h
  simp only [readVarNumber_append h₁, readVarNumber_append h₂, List.length_append,
    show len ≤ r'.length + x.length by omega, if_true, List.drop_append_of_le_length hl]
  obtain ⟨h1, -, rfl⟩ := readVarNumber_split h₁
  obtain ⟨h2, -, rfl⟩ := readVarNumber_split h₂
  congr 2
  rw [List.take_append_of_le_length (by simp only [List.length_append]; omega)]
  congr 1
  simp only [List.length_append]; omega

@[simp] theorem components_nil (n : Nat) : components n [] = some [] := by cases n <;> rfl

theorem components_succ {bs blk rest : Bytes} (h : nextBlkAny bs = some (blk, rest)) (n : Nat) :
    components (n + 1) bs = (components n rest).map (blk :: ·) := by
  cases bs with
  | nil => simp [nextBlkAny, readVarNumber] at h
  | cons b bs => simp only [components, h]

theorem components_flatten : ∀ {n : Nat} {bs : Bytes} {l : List Bytes},
    components n bs = some l → l.flatten = bs
  | _, [], _, h => by rw [components_nil] at h; cases h; rfl
  | 0, _ :: _, _, h => by cases h
  | n + 1, b :: bs, l, h => by
    cases hb : nextBlkAny (b :: bs) with
    | none => simp [components, hb] at h
    | some p =>
      obtain ⟨blk, rest⟩ := p
      rw [components_succ hb] at h
      obtain ⟨l', hl', rfl⟩ := Option.map_eq_some'.mp h
      rw [List.flatten_cons, components_flatten hl', (nextBlkAny_split hb).2]

theorem components_append : ∀ {k : Nat} {a : Bytes} {ca : List Bytes},
    components k a = some ca → ∀ {n : Nat} {x : Bytes} {cb : List Bytes},
    components n (a ++ x) = some cb → ∃ cx, cb = ca ++ cx
  | _, [], _, ha, _, _, cb, _ => by rw [components_nil] at ha; cases ha; exact ⟨cb, rfl⟩
  | 0, _ :: _, _, ha, _, _, _, _ => by cases ha
  | k + 1, b :: bs, ca, ha, n, x, cb, hb => by
    cases hblk : nextBlkAny (b :: bs) with
    | none => simp [components, hblk] at ha
    | some p =>
      obtain ⟨blk, rest⟩ := p
      rw [components_succ hblk] at ha
      obtain ⟨ca', hca', rfl⟩ := Option.map_eq_some'.mp ha
      cases n with
      | zero => cases hb
      | succ n =>
        rw [components_succ (nextBlkAny_append hblk x)] at hb
        obtain ⟨cb', hcb', rfl⟩ := Option.map_eq_some'.mp hb
        obtain ⟨cx, rfl⟩ := components_append hca' hcb'
        exact ⟨cx, rfl⟩

end Components

/-- For names whose bodies are exactly covered by component blocks, the byte-level
`isPrefix` is the component-level one: one name's components are the first components of
the other's. So `<pfx>/kr` is not a prefix of `<pfx>/krX`. -/
theorem name_prefix_iff_components (a b : RName) {ca cb : List Bytes}
    (ha : components a.body.length a.body = some ca)
    (hb : components b.body.length b.body = some cb) : a.isPrefix b = true ↔ ca <+: cb := by
  unfold RName.isPrefix
  rw [isPrefix_iff]
  constructor
  · rintro ⟨x, hx⟩
    rw [← hx] at hb
    obtain ⟨cx, rfl⟩ := components_append ha hb
    exact List.prefix_append _ _
  · rintro ⟨t, rfl⟩
    rw [← components_flatten ha, ← components_flatten hb, List.flatten_append]
    exact List.prefix_append _ _

theorem name_prefix_iff_components_kr :
    components 7 [8, 1, 112, 8, 2, 107, 114] = some [[8, 1, 112], [8, 2, 107, 114]] ∧
    components 8 [8, 1, 112, 8, 3, 107, 114, 88] = some [[8, 1, 112], [8, 3, 107, 114, 88]] ∧
    (RName.isPrefix ⟨[8, 1, 112, 8, 2, 107, 114]⟩ ⟨[8, 1, 112, 8, 3, 107, 114, 88]⟩ = true ↔
      ([[8, 1, 112], [8, 2, 107, 114]] : List Bytes) <+: [[8, 1, 112], [8, 3, 107, 114, 88]]) ∧
    RName.isPrefix ⟨[8, 1, 112, 8, 2, 107, 114]⟩ ⟨[8, 1, 112, 8, 3, 107, 114, 88]⟩ = false := by
  have ha : components 7 [8, 1, 112, 8, 2, 107, 114] = some [[8, 1, 112], [8, 2, 107, 114]] := by
    decide
  have hb : components 8 [8, 1, 112, 8, 3, 107, 114, 88] =
      some [[8, 1, 112], [8, 3, 107, 114, 88]] := by decide
  exact ⟨ha, hb, name_prefix_iff_components ⟨[8, 1, 112, 8, 2, 107, 114]⟩
    ⟨[8, 1, 112, 8, 3, 107, 114, 88]⟩ ha hb, by decide⟩

theorem dataValue_tlv {t : Nat} {v : Bytes} (ht : t < 2 ^ 64) (hv : v.length < 2 ^ 64) :
    dataValue (tlv t v) = some v := by
  simp only [dataValue, tlv, List.append_assoc, readVarNumber_varNumber ht,
    readVarNumber_varNumber hv, le_refl, if_true, List.take_length]

/-- `rData::valid` accepts every packet of the five blocks in order, whatever its name holds:
a name body that no component blocks cover passes as well. -/
theorem valid_ignores_name_body (n m c si sv : Bytes)
    (h : (tlv 7 n ++ tlv 20 m ++ tlv 21 c ++ tlv 22 si ++ tlv 23 sv).length < 2 ^ 64) :
    RData.valid (tlv 6 (tlv 7 n ++ tlv 20 m ++ tlv 21 c ++ tlv 22 si ++ tlv 23 sv)) = true := by
  have hl := h
  simp only [tlv, List.length_append] at hl
  have h23 := nextBlk_tlv (by decide : 23 < 2 ^ 64) (show sv.length < 2 ^ 64 by omega) []
  rw [List.append_nil] at h23
  rw [RData.valid, dataValue_tlv (by decide : 6 < 2 ^ 64) h]
  simp only [List.append_assoc, Option.some_bind,
    nextBlk_tlv (by decide : 7 < 2 ^ 64) (show n.length < 2 ^ 64 by omega),
    nextBlk_tlv (by decide : 20 < 2 ^ 64) (show m.length < 2 ^ 64 by omega),
    nextBlk_tlv (by decide : 21 < 2 ^ 64) (show c.length < 2 ^ 64 by omega),
    nextBlk_tlv (by decide : 22 < 2 ^ 64) (show si.length < 2 ^ 64 by omega), h23]
  rfl

theorem valid_ignores_name_body_malformed :
    RData.valid (tlv 6 (tlv 7 [8, 5] ++ tlv 20 [] ++ tlv 21 [] ++ tlv 22 [] ++ tlv 23 [])) = true ∧
      RName.valid ⟨[8, 5]⟩ = false :=
  ⟨valid_ignores_name_body [8, 5] [] [] [] [] (by decide), by decide⟩

/-- `rPrefix::operator<=>` is a strong total order, the lexicographic order on unsigned bytes
with a proper prefix first: it finds two prefixes equal exactly when `operator==` does, it is
antisymmetric and transitive, `isPrefix` is the initial-segment test, the prefixes between a
prefix and one of its extensions extend it too, and the `less` lambda of
`receiveSGKeyRecords` and the order of names through their bodies are the same order. -/
theorem prefix_order_is_lexicographic :
    (∀ a b, RPrefix.cmp a b = .lt ↔ lexLt a b = true) ∧
    (∀ a b, RPrefix.cmp a b = .eq ↔ RPrefix.eq a b = true) ∧
    (∀ a b, RPrefix.eq a b = true ↔ a = b) ∧
    (∀ a b, RPrefix.cmp b a = (RPrefix.cmp a b).swap) ∧
    (∀ a b, RPrefix.cmp a b ≠ .gt → RPrefix.cmp b a ≠ .gt → a = b) ∧
    (∀ a b c, RPrefix.cmp a b ≠ .gt → RPrefix.cmp b c ≠ .gt → RPrefix.cmp a c ≠ .gt) ∧
    (∀ a p, RPrefix.isPrefix a p = true ↔ a <+: p) ∧
    (∀ a b c, RPrefix.isPrefix a c = true → RPrefix.cmp a b ≠ .gt → RPrefix.cmp b c ≠ .gt →
      RPrefix.isPrefix a b = true) ∧
    (∀ a b, less a b = true ↔ RPrefix.cmp a b = .lt) ∧
    (∀ a b : RName, a.cmp b = .lt ↔ lexLt a.body b.body = true) := by
  refine ⟨cmp_eq_lt_iff, fun a b => (cmp_eq_eq_iff a b).trans (eq_iff a b).symm, eq_iff, cmp_swap,
    ?_, ?_, isPrefix_iff, ?_, fun a b => by rw [less_eq_lexLt, cmp_eq_lt_iff],
    fun a b => cmp_eq_lt_iff a.body b.body⟩
  · intro a b hab hba
    rw [cmp_ne_gt_iff] at hab hba
    rcases hab with h | h
    · rcases hba with h' | h'
      · rw [lexLt_asymm h] at h'; cases h'
      · exact h'.symm
    · exact h
  · intro a b c hab hbc
    rw [cmp_ne_gt_iff] at *
    rcases hab with h₁ | rfl <;> rcases hbc with h₂ | rfl
    exacts [.inl (lexLt_trans h₁ h₂), .inl h₁, .inl h₂, .inr rfl]
  · intro a b c hac hab hbc
    rw [isPrefix_iff] at *
    exact prefix_of_between hac ((cmp_ne_gt_iff a b).mp hab) ((cmp_ne_gt_iff b c).mp hbc)

end SgKeyDist.Packet
