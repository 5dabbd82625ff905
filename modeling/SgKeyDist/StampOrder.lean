import SgKeyDist.Cert

namespace SgKeyDist.StampOrder

open SgKeyDist.ByteOrder SgKeyDist.Identity SgKeyDist.Iso8601 SgKeyDist.Calendar
open SgKeyDist.Packet SgKeyDist.Cert

section Dates

/-- A date `toTP` accepts. -/
structure ValidDate (y : Int) (m d : Nat) : Prop where
  month_pos : 1 ≤ m
  month_le : m ≤ 12
  day_pos : 1 ≤ d
  day_le : d ≤ lastDay y m

theorem daysFromCivil_eq (y : Int) (m d : Nat) :
    daysFromCivil y m d = daysFromCivil y m 0 + d := by
  simp only [daysFromCivil]; push_cast; ring

theorem monthStart_succ (y : Int) {m : Nat} (h1 : 1 ≤ m) (h2 : m ≤ 11) :
    daysFromCivil y (m + 1) 0 = daysFromCivil y m 0 + lastDay y m := by
  rcases Nat.lt_or_ge m 3 with hm | hm
  · interval_cases m <;> simp [daysFromCivil, lastDay] <;> (try split_ifs) <;> omega
  · -- from March on, both months fall in the same March-based year
    simp only [daysFromCivil, lastDay]
    rw [if_neg (show ¬ m + 1 ≤ 2 by omega), if_neg (show ¬ m ≤ 2 by omega),
      if_pos (show 2 < m + 1 by omega), if_pos (show 2 < m by omega), if_neg (show m ≠ 2 by omega)]
    push_cast
    interval_cases m <;> split_ifs <;> omega

theorem yearStart_succ (y : Int) : daysFromCivil (y + 1) 1 0 = daysFromCivil y 12 0 + 31 := by
  simp [daysFromCivil]; omega

theorem monthStart_le (y : Int) {m m' : Nat} (h1 : 1 ≤ m) (hlt : m < m') (h12 : m' ≤ 12) :
    daysFromCivil y m 0 + lastDay y m ≤ daysFromCivil y m' 0 := by
  induction m', hlt using Nat.le_induction with
  | base => rw [monthStart_succ y h1 (by omega)]
  | succ m' hm ih =>
    have := ih (by omega)
    rw [monthStart_succ y (by omega) (by omega)]
    omega

theorem yearStart_le {y y' : Int} (h : y < y') :
    daysFromCivil y 12 0 + 31 ≤ daysFromCivil y' 1 0 := by
  refine Int.le_induction (P := fun y' => daysFromCivil y 12 0 + 31 ≤ daysFromCivil y' 1 0)
    (yearStart_succ y).ge (fun y' _ ih => ?_) y' h
  have := monthStart_le y' (le_refl 1) (by omega : 1 < 12) le_rfl
  dsimp only at ih ⊢
  rw [yearStart_succ]
  omega

theorem daysFromCivil_lt_month {y : Int} {m d m' : Nat} (hv : ValidDate y m d) (hlt : m < m')
    (h12 : m' ≤ 12) : daysFromCivil y m d < daysFromCivil y m' 1 := by
  have := monthStart_le y hv.month_pos hlt h12
  have := hv.day_le
  rw [daysFromCivil_eq y m, daysFromCivil_eq y m']
  omega

theorem daysFromCivil_lt_year {y y' : Int} {m d m' d' : Nat} (hv : ValidDate y m d)
    (hv' : ValidDate y' m' d') (h : y < y') : daysFromCivil y m d < daysFromCivil y' m' d' := by
  have hend : daysFromCivil y m d < daysFromCivil y 12 0 + 32 := by
    rcases Nat.lt_or_ge m 12 with hm | hm
    · have := daysFromCivil_lt_month hv hm le_rfl
      rw [daysFromCivil_eq y 12 1] at this
      omega
    · obtain rfl : m = 12 := le_antisymm hv.month_le hm
      have := hv.day_le.trans (lastDay_le y 12)
      rw [daysFromCivil_eq y 12]
      omega
  have hstart : daysFromCivil y' 1 0 < daysFromCivil y' m' d' := by
    have := hv'.day_pos
    rw [daysFromCivil_eq y' m']
    rcases Nat.lt_or_ge 1 m' with hm | hm
    · have := monthStart_le y' le_rfl hm hv'.month_le
      omega
    · obtain rfl : m' = 1 := le_antisymm hm hv'.month_pos
      omega
  have := yearStart_le h
  omega

theorem daysFromCivil_lt {y y' : Int} {m d m' d' : Nat} (hv : ValidDate y m d)
    (hv' : ValidDate y' m' d') (h : y < y' ∨ y = y' ∧ (m < m' ∨ m = m' ∧ d < d')) :
    daysFromCivil y m d < daysFromCivil y' m' d' := by
  rcases h with hy | ⟨rfl, hm | ⟨rfl, hd⟩⟩
  · exact daysFromCivil_lt_year hv hv' hy
  · have hlt := daysFromCivil_lt_month hv hm hv'.month_le
    have := hv'.day_pos
    rw [daysFromCivil_eq y m' 1] at hlt
    rw [daysFromCivil_eq y m' d']
    omega
  · rw [daysFromCivil_eq y m d, daysFromCivil_eq y m d']
    omega

end Dates

section Digits

theorem decimal_succ (w n : Nat) :
    decimal (w + 1) n = UInt8.ofNat (48 + n / 10 ^ w % 10) :: decimal w n := by
  simp [decimal, List.range_succ]

theorem digit_lt_iff {d d' : Nat} (hd : d < 10) (hd' : d' < 10) :
    UInt8.ofNat (48 + d) < UInt8.ofNat (48 + d') ↔ d < d' := by
  rw [byte_lt_iff, toNat_ofNat_byte, toNat_ofNat_byte, Nat.mod_eq_of_lt (by omega),
    Nat.mod_eq_of_lt (by omega)]
  omega

theorem compare_digit {M ra rb da db : Nat} (ha : ra < M) (hb : rb < M) :
    (if da < db then Ordering.lt else if db < da then .gt else compare ra rb) =
      compare (ra + M * da) (rb + M * db) := by
  have hlt : ∀ {x y}, x < y → M * x + M ≤ M * y := fun h => by
    simpa only [Nat.mul_succ] using Nat.mul_le_mul_left M h
  rw [Nat.compare_def_lt ra, Nat.compare_def_lt (ra + _)]
  by_cases h₁ : da < db
  · have := hlt h₁
    rw [if_pos h₁, if_pos (by omega)]
  by_cases h₂ : db < da
  · have := hlt h₂
    rw [if_neg h₁, if_pos h₂, if_neg (by omega), if_pos (by omega)]
  · obtain rfl : da = db := by omega
    simp only [if_neg h₁, Nat.add_lt_add_iff_right]

theorem memcmp_decimal (w a b : Nat) :
    memcmp w (decimal w a) (decimal w b) = compare (a % 10 ^ w) (b % 10 ^ w) := by
  induction w with
  | zero => exact (Nat.compare_eq_eq.mpr (by simp [Nat.mod_one])).symm
  | succ w ih =>
    rw [decimal_succ, decimal_succ, memcmp_cons, ih, Nat.mod_pow_succ, Nat.mod_pow_succ]
    simp only [digit_lt_iff (Nat.mod_lt _ (by norm_num)) (Nat.mod_lt _ (by norm_num))]
    exact compare_digit (Nat.mod_lt _ (by positivity)) (Nat.mod_lt _ (by positivity))

theorem memcmp_append {a b : Bytes} (as bs : Bytes) (hb : b.length = a.length) (k : Nat) :
    memcmp (a.length + k) (a ++ as) (b ++ bs) = (memcmp a.length a b).then (memcmp k as bs) := by
  induction a generalizing b with
  | nil =>
    cases b with
    | nil => rw [List.length_nil, Nat.zero_add, memcmp_zero]; rfl
    | cons => cases hb
  | cons x a ih =>
    cases b with
    | nil => cases hb
    | cons y b =>
      rw [List.cons_append, List.cons_append, List.length_cons, Nat.add_right_comm, memcmp_cons,
        memcmp_cons, ih (Nat.succ.inj hb)]
      split_ifs <;> rfl

theorem memcmp_cons_self (n : Nat) (x : UInt8) (as bs : Bytes) :
    memcmp (n + 1) (x :: as) (x :: bs) = memcmp n as bs := by
  simp [memcmp_cons, byte_lt_iff]

theorem memcmp_decimal_append {w a b : Nat} (ha : a < 10 ^ w) (hb : b < 10 ^ w) (k : Nat)
    (as bs : Bytes) :
    memcmp (w + k) (decimal w a ++ as) (decimal w b ++ bs) = (compare a b).then (memcmp k as bs) := by
  have := memcmp_append (a := decimal w a) (b := decimal w b) as bs (by simp) k
  rw [decimal_length, memcmp_decimal, Nat.mod_eq_of_lt ha, Nat.mod_eq_of_lt hb] at this
  exact this

end Digits

section Stamp

/-- The six fields of a stamp, most significant first. -/
structure Fields where
  year : Nat
  month : Nat
  day : Nat
  hour : Nat
  minute : Nat
  second : Nat
  deriving DecidableEq

/-- The 15 bytes `fmt` writes for the fields: `YYYYMMDDTHHMMSS`. -/
def Fields.stamp (f : Fields) : Bytes :=
  decimal 4 f.year ++ decimal 2 f.month ++ decimal 2 f.day ++ [84] ++ decimal 2 f.hour ++
    decimal 2 f.minute ++ decimal 2 f.second

/-- The fields `toTP` accepts: a four-digit year, a date of the calendar and a time of day. -/
structure Fields.Valid (f : Fields) : Prop where
  year : f.year < 10000
  date : ValidDate f.year f.month f.day
  hour : f.hour < 24
  minute : f.minute < 60
  second : f.second < 60

/-- The second since the epoch that `toTP` reads from the fields. -/
def Fields.toSeconds (f : Fields) : Int :=
  daysFromCivil f.year f.month f.day * 86400 + f.hour * 3600 + f.minute * 60 + f.second

/-- The fields compared one by one, most significant first. -/
def Fields.cmp (f g : Fields) : Ordering :=
  (compare f.year g.year).then <| (compare f.month g.month).then <| (compare f.day g.day).then <|
    (compare f.hour g.hour).then <| (compare f.minute g.minute).then (compare f.second g.second)

variable {f g : Fields}

theorem Fields.Valid.month_lt (hf : f.Valid) : f.month < 100 := by
  have := hf.date.month_le; omega

theorem Fields.Valid.day_lt (hf : f.Valid) : f.day < 100 := by
  have := hf.date.day_le.trans (lastDay_le _ _); omega

theorem Fields.toTP_stamp (hf : f.Valid) : toTP f.stamp = f.toSeconds * 1000000 := by
  obtain ⟨hy, ⟨h1, h2, h3, h4⟩, hh, hmi, hs⟩ := hf
  rw [Fields.stamp, toTP_fields hy (by omega) (by have := lastDay_le f.year f.month; omega)
    (by omega) (by omega) (by omega), if_pos ⟨h1, h2, h3, h4, hh, hmi, hs⟩, Fields.toSeconds]

theorem Fields.memcmp_stamp (hf : f.Valid) (hg : g.Valid) : memcmp 15 f.stamp g.stamp = f.cmp g := by
  simp only [Fields.stamp, List.append_assoc, List.singleton_append, List.cons_append,
    List.nil_append]
  show memcmp (4 + (2 + (2 + ((2 + (2 + 2)) + 1)))) _ _ = _
  have h₁ := hf.hour.trans (by norm_num : 24 < 100)
  have h₂ := hf.minute.trans (by norm_num : 60 < 100)
  have h₃ : f.second < 10 ^ 2 := hf.second.trans (by norm_num)
  have h₄ := hg.hour.trans (by norm_num : 24 < 100)
  have h₅ := hg.minute.trans (by norm_num : 60 < 100)
  have h₆ : g.second < 10 ^ 2 := hg.second.trans (by norm_num)
  rw [memcmp_decimal_append hf.year hg.year, memcmp_decimal_append hf.month_lt hg.month_lt,
    memcmp_decimal_append hf.day_lt hg.day_lt, memcmp_cons_self, memcmp_decimal_append h₁ h₄,
    memcmp_decimal_append h₂ h₅ 2, memcmp_decimal,
    Nat.mod_eq_of_lt h₃, Nat.mod_eq_of_lt h₆]
  rfl

theorem Fields.cmp_swap (f g : Fields) : (f.cmp g).swap = g.cmp f := by
  simp only [Fields.cmp, Ordering.swap_then, Nat.compare_swap]

theorem Fields.eq_of_cmp_eq (h : f.cmp g = .eq) : f = g := by
  simp only [Fields.cmp, Ordering.then_eq_eq, Nat.compare_eq_eq] at h
  obtain ⟨h1, h2, h3, h4, h5, h6⟩ := h
  cases f; cases g
  dsimp only at h1 h2 h3 h4 h5 h6
  subst h1 h2 h3 h4 h5 h6
  rfl

theorem Fields.toSeconds_lt (hf : f.Valid) (hg : g.Valid) (h : f.cmp g = .lt) :
    f.toSeconds < g.toSeconds := by
  have := hf.hour; have := hf.minute; have := hf.second
  have := hg.hour; have := hg.minute; have := hg.second
  simp only [Fields.cmp, Ordering.then_eq_lt, Ordering.then_eq_eq, Nat.compare_eq_lt,
    Nat.compare_eq_eq] at h
  simp only [Fields.toSeconds]
  rcases h with hY | ⟨hY, hM | ⟨hM, hD | ⟨hD, ht⟩⟩⟩
  · have := daysFromCivil_lt hf.date hg.date (.inl (by exact_mod_cast hY))
    omega
  · have := daysFromCivil_lt hf.date hg.date (.inr ⟨by rw [hY], .inl hM⟩)
    omega
  · have := daysFromCivil_lt hf.date hg.date (.inr ⟨by rw [hY], .inr ⟨hM, hD⟩⟩)
    omega
  · rw [hY, hM, hD]
    omega

theorem Fields.cmp_eq_compare_toSeconds (hf : f.Valid) (hg : g.Valid) :
    f.cmp g = compare f.toSeconds g.toSeconds := by
  rw [← cmp_eq_compare]
  refine (Ordering.Compares.cmp_eq ?_).symm
  cases h : f.cmp g
  · exact Fields.toSeconds_lt hf hg h
  · exact congrArg Fields.toSeconds (Fields.eq_of_cmp_eq h)
  · exact Fields.toSeconds_lt hg hf (by rw [← Fields.cmp_swap, h]; rfl)

theorem compare_mul_right_of_pos {a b c : Int} (hc : 0 < c) : compare (a * c) (b * c) = compare a b := by
  rw [← cmp_eq_compare, ← cmp_eq_compare, cmp_mul_pos_right hc]

/-- `iso8601::operator<=>` orders the stamps `toTP` accepts as the instants it reads from them:
`memcmp` of two such stamps is the comparison of their time points. -/
theorem stamp_order_is_chronological (hf : f.Valid) (hg : g.Valid) :
    Iso8601.cmp f.stamp g.stamp = compare (toTP f.stamp) (toTP g.stamp) := by
  rw [Iso8601.cmp, Fields.memcmp_stamp hf hg, Fields.toTP_stamp hf, Fields.toTP_stamp hg,
    compare_mul_right_of_pos (by norm_num), Fields.cmp_eq_compare_toSeconds hf hg]

theorem stamp_order_is_chronological_sample :
    (Fields.Valid ⟨2024, 12, 30, 0, 0, 0⟩ ∧ Fields.Valid ⟨2025, 1, 5, 0, 0, 0⟩) ∧
      Iso8601.cmp (Fields.stamp ⟨2024, 12, 30, 0, 0, 0⟩) (Fields.stamp ⟨2025, 1, 5, 0, 0, 0⟩) =
        compare (toTP (Fields.stamp ⟨2024, 12, 30, 0, 0, 0⟩))
          (toTP (Fields.stamp ⟨2025, 1, 5, 0, 0, 0⟩)) :=
  have hf : Fields.Valid ⟨2024, 12, 30, 0, 0, 0⟩ :=
    ⟨by decide, ⟨by decide, by decide, by decide, by decide⟩, by decide, by decide, by decide⟩
  have hg : Fields.Valid ⟨2025, 1, 5, 0, 0, 0⟩ :=
    ⟨by decide, ⟨by decide, by decide, by decide, by decide⟩, by decide, by decide, by decide⟩
  ⟨⟨hf, hg⟩, stamp_order_is_chronological hf hg⟩

end Stamp

section Clock

/-- The fields `iso8601` writes for a time point: the week-based year, the calendar's month and
day, and the time of day. -/
def isoFields (tp : Int) : Fields :=
  let s := toTimeT tp
  let days := s / 86400
  let secs := (s % 86400).toNat
  let date := civilFromDays days
  ⟨(isoWeekYear days).toNat, date.2.1, date.2.2, secs / 3600, secs / 60 % 60, secs % 60⟩

theorem iso8601_eq_stamp (tp : Int) : iso8601 tp = (isoFields tp).stamp := rfl

theorem isoFields_spec {tp : Int} (h : YearExact tp) :
    (isoFields tp).Valid ∧ (isoFields tp).toSeconds = toTimeT tp := by
  obtain ⟨hy, hr⟩ := h
  have hv := civilFromDays_valid (toTimeT tp / 86400)
  have hinv := daysFromCivil_civilFromDays (toTimeT tp / 86400)
  simp only [isoFields, Fields.toSeconds, hy]
  generalize toTimeT tp = s at *
  generalize civilFromDays (s / 86400) = c at *
  obtain ⟨Y, M, D⟩ := c
  obtain ⟨h1, h2, h3, h4⟩ := hv
  dsimp only at h1 h2 h3 h4 hinv hr ⊢
  have hs : (s % 86400).toNat < 86400 := by omega
  refine ⟨⟨?_, ⟨h1, h2, h3, ?_⟩, ?_, ?_, ?_⟩, ?_⟩ <;> dsimp only <;>
    (try rw [Int.toNat_of_nonneg hr.1]) <;> omega

theorem cmp_iso8601 {t₁ t₂ : Int} (h₁ : YearExact t₁) (h₂ : YearExact t₂) :
    Iso8601.cmp (iso8601 t₁) (iso8601 t₂) = compare (toTimeT t₁) (toTimeT t₂) := by
  obtain ⟨hv₁, hs₁⟩ := isoFields_spec h₁
  obtain ⟨hv₂, hs₂⟩ := isoFields_spec h₂
  rw [Iso8601.cmp, iso8601_eq_stamp, iso8601_eq_stamp, Fields.memcmp_stamp hv₁ hv₂,
    Fields.cmp_eq_compare_toSeconds hv₁ hv₂, hs₁, hs₂]

/-- `rCert::valid` decides a certificate's validity period in time whenever the clock's stamp
and the period's stamps name their calendar years: a certificate made for the period from `nb`
to `na` is valid at `now` exactly when it is a key certificate and `now` lies in the period, to
the second. -/
theorem valid_iff_within_period_in_time (ct st : UInt8) (signer : ThumbPrint) (rest : Bytes)
    {nb na now : Int} (hnb : YearExact nb) (hna : YearExact na) (hnow : YearExact now) :
    valid ct (certSigInfo st signer (Stamp.ofTime nb) (Stamp.ofTime na) ++ rest) now = true ↔
      ct = 2 ∧ toTimeT nb ≤ toTimeT now ∧ toTimeT now ≤ toTimeT na := by
  rw [valid_certSigInfo]
  simp only [Stamp.ofTime, cmp_iso8601 hnow hnb, cmp_iso8601 hna hnow, Bool.and_eq_true,
    decide_eq_true_eq, ne_eq, compare_lt_iff_lt, not_lt, and_assoc]

theorem valid_iff_within_period_in_time_sample :
    (YearExact earlyJune ∧ YearExact nextJune ∧ YearExact (1726000000 * 1000000000)) ∧
      (valid 2 (certSigInfo 3 ThumbPrint.zero (Stamp.ofTime earlyJune) (Stamp.ofTime nextJune) ++ [])
          (1726000000 * 1000000000) = true ↔
        (2 : UInt8) = 2 ∧ toTimeT earlyJune ≤ toTimeT (1726000000 * 1000000000) ∧
          toTimeT (1726000000 * 1000000000) ≤ toTimeT nextJune) :=
  have h : YearExact earlyJune ∧ YearExact nextJune ∧ YearExact (1726000000 * 1000000000) := by
    decide
  ⟨h, valid_iff_within_period_in_time 2 3 ThumbPrint.zero [] h.1 h.2.1 h.2.2⟩

example (st : UInt8) (signer : ThumbPrint) (rest : Bytes) :
    earlyJune < lateDecember ∧ lateDecember < nextJune ∧
      valid 2 (certSigInfo st signer (Stamp.ofTime earlyJune) (Stamp.ofTime nextJune) ++ rest)
        lateDecember = false := by
  refine ⟨by decide, by decide, ?_⟩
  rw [valid_certSigInfo]
  decide

end Clock

end SgKeyDist.StampOrder
