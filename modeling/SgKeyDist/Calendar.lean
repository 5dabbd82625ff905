import SgKeyDist.Iso8601

namespace SgKeyDist.Calendar

open SgKeyDist.ByteOrder SgKeyDist.Iso8601

section Era

theorem doe_split {doe : Int} (h0 : 0 ≤ doe) (h1 : doe ≤ 146096) :
    ∃ k j t : Int, doe = 36524 * k + 1461 * j + t ∧ 0 ≤ k ∧ k ≤ 3 ∧ 0 ≤ j ∧ j ≤ 24 ∧ 0 ≤ t ∧
      t ≤ 1460 ∧ (k ≤ 2 → 1461 * j + t ≤ 36523) := by
  by_cases hd : doe = 146096
  · exact ⟨3, 24, 1460, by omega, by omega⟩
  · exact ⟨doe / 36524, doe % 36524 / 1461, doe % 36524 % 1461, by omega⟩

theorem leapDays_eq {k j t : Int} (hk0 : 0 ≤ k) (hk3 : k ≤ 3) (hj0 : 0 ≤ j) (hj24 : j ≤ 24)
    (ht0 : 0 ≤ t) (ht1 : t ≤ 1460) (hr : k ≤ 2 → 1461 * j + t ≤ 36523) :
    (36524 * k + 1461 * j + t) / 1460 - (36524 * k + 1461 * j + t) / 36524 +
      (36524 * k + 1461 * j + t) / 146096 = 24 * k + j + (24 * k + j + t) / 1460 := by
  omega

/-- A year of the era and a day of that year, as `civilFromDays` finds them: the day is at
most 365, and 365 only in a year whose February, in the next calendar year, has a leap day. -/
structure YearDay (yoe doy : Int) : Prop where
  yoe_nonneg : 0 ≤ yoe
  yoe_le : yoe ≤ 399
  doy_nonneg : 0 ≤ doy
  doy_le : doy ≤ 365
  leap : doy = 365 → (yoe + 1) % 4 = 0 ∧ ((yoe + 1) % 100 ≠ 0 ∨ yoe = 399)

theorem yearOfEra_spec {doe : Int} (h0 : 0 ≤ doe) (h1 : doe ≤ 146096) :
    ∃ yoe doy : Int, (doe - doe / 1460 + doe / 36524 - doe / 146096) / 365 = yoe ∧
      doe = 365 * yoe + yoe / 4 - yoe / 100 + doy ∧ YearDay yoe doy := by
  obtain ⟨k, j, t, rfl, hk0, hk3, hj0, hj24, ht0, ht1, hr⟩ := doe_split h0 h1
  have hN := leapDays_eq hk0 hk3 hj0 hj24 ht0 ht1 hr
  rw [show ∀ x a b c : Int, x - a + b - c = x - (a - b + c) by intros; ring, hN]
  clear hN h0 h1
  have hδ : 0 ≤ (24 * k + j + t) / 1460 ∧ (24 * k + j + t) / 1460 ≤ 1 ∧
      (t = 1460 → (24 * k + j + t) / 1460 = 1) ∧ ((24 * k + j + t) / 1460 = 1 → 1364 ≤ t) := by
    omega
  generalize (24 * k + j + t) / 1460 = δ at hδ ⊢
  have hu : 0 ≤ (t - δ) / 365 ∧ (t - δ) / 365 ≤ 3 ∧ 365 * ((t - δ) / 365) ≤ t - δ ∧
      t - δ < 365 * ((t - δ) / 365) + 365 := by omega
  generalize (t - δ) / 365 = u at hu
  have hy : (36524 * k + 1461 * j + t - (24 * k + j + δ)) / 365 = 100 * k + 4 * j + u := by omega
  have h4 : (100 * k + 4 * j + u) / 4 = 25 * k + j := by omega
  have h100 : (100 * k + 4 * j + u) / 100 = k := by omega
  exact ⟨_, t - 365 * u, hy, by rw [h4, h100]; ring,
    ⟨by omega, by omega, by omega, by omega, by omega⟩⟩

theorem civilFromDays_parts (z : Int) : ∃ era yoe doy mp : Int,
    z + 719468 = era * 146097 + (365 * yoe + yoe / 4 - yoe / 100 + doy) ∧ YearDay yoe doy ∧
      (5 * doy + 2) / 153 = mp ∧
      civilFromDays z =
        (yoe + era * 400 + (if (if mp < 10 then mp + 3 else mp - 9) ≤ 2 then 1 else 0),
          (if mp < 10 then mp + 3 else mp - 9).toNat, (doy - (153 * mp + 2) / 5 + 1).toNat) := by
  obtain ⟨yoe, doy, hy, hd, hyd⟩ :=
    yearOfEra_spec (show 0 ≤ z + 719468 - (z + 719468) / 146097 * 146097 by omega) (by omega)
  refine ⟨(z + 719468) / 146097, yoe, doy, _, by omega, hyd, rfl, ?_⟩
  have hdoy : z + 719468 - (z + 719468) / 146097 * 146097 - (365 * yoe + yoe / 4 - yoe / 100) =
      doy := by omega
  simp only [civilFromDays, hy, hdoy]

end Era

theorem daysFromCivil_civilFromDays (z : Int) :
    daysFromCivil (civilFromDays z).1 (civilFromDays z).2.1 (civilFromDays z).2.2 = z := by
  obtain ⟨era, yoe, doy, mp, hz, hyd, hmp, hc⟩ := civilFromDays_parts z
  have := hyd.yoe_nonneg; have := hyd.yoe_le; have := hyd.doy_nonneg; have := hyd.doy_le
  have hd1 : ((doy - (153 * mp + 2) / 5 + 1).toNat : Int) = doy - (153 * mp + 2) / 5 + 1 :=
    Int.toNat_of_nonneg (by omega)
  rw [hc]
  by_cases h10 : mp < 10
  · have hm3 : ((mp + 3).toNat : Int) = mp + 3 := Int.toNat_of_nonneg (by omega)
    simp only [daysFromCivil, if_pos h10, if_neg (show ¬ (mp + 3 ≤ 2) by omega),
      if_neg (show ¬ (mp + 3).toNat ≤ 2 by omega), if_pos (show 2 < (mp + 3).toNat by omega), hm3,
      hd1, add_zero, add_sub_cancel_right, show (yoe + era * 400) / 400 = era by omega]
    omega
  · have hm9 : ((mp - 9).toNat : Int) = mp - 9 := Int.toNat_of_nonneg (by omega)
    simp only [daysFromCivil, if_neg h10, if_pos (show mp - 9 ≤ 2 by omega),
      if_pos (show (mp - 9).toNat ≤ 2 by omega), if_neg (show ¬ 2 < (mp - 9).toNat by omega), hm9,
      hd1, add_sub_cancel_right, sub_add_cancel, show (yoe + era * 400) / 400 = era by omega]
    omega

theorem civilFromDays_valid (z : Int) :
    1 ≤ (civilFromDays z).2.1 ∧ (civilFromDays z).2.1 ≤ 12 ∧ 1 ≤ (civilFromDays z).2.2 ∧
      (civilFromDays z).2.2 ≤ lastDay (civilFromDays z).1 (civilFromDays z).2.1 := by
  obtain ⟨era, yoe, doy, mp, -, hyd, hmp, hc⟩ := civilFromDays_parts z
  have := hyd.doy_nonneg; have := hyd.doy_le
  rw [hc]
  simp only [lastDay]
  by_cases h10 : mp < 10
  · rw [if_pos h10, if_neg (show (mp + 3).toNat ≠ 2 by omega)]
    split_ifs <;> omega
  · have hl := hyd.leap; have := hyd.yoe_nonneg
    rw [if_neg h10, if_pos (show mp - 9 ≤ 2 by omega)]
    split_ifs <;> omega

theorem lastDay_le (y : Int) (m : Nat) : lastDay y m ≤ 31 := by
  unfold lastDay; split_ifs <;> omega

section Stamp

@[simp] theorem decimal_length (w n : Nat) : (decimal w n).length = w := by simp [decimal]

theorem foldlM_decimal (w n acc : Nat) :
    (decimal w n).foldlM (fun acc b => if 48 ≤ b.toNat ∧ b.toNat ≤ 57 then
      some (acc * 10 + (b.toNat - 48)) else none) acc = some (acc * 10 ^ w + n % 10 ^ w) := by
  induction w generalizing acc with
  | zero => simp [decimal, Nat.mod_one]
  | succ w ih =>
    have hd : (UInt8.ofNat (48 + n / 10 ^ w % 10)).toNat = 48 + n / 10 ^ w % 10 := by
      rw [toNat_ofNat_byte, Nat.mod_eq_of_lt (by omega)]
    simp only [decimal, List.range_succ, List.reverse_append, List.reverse_singleton,
      List.singleton_append, List.map_cons, List.foldlM_cons, hd] at ih ⊢
    rw [if_pos (by omega), Option.bind_eq_bind, Option.some_bind, ih, Nat.mod_pow_succ,
      Nat.add_sub_cancel_left, Nat.pow_succ]
    ring_nf

theorem readDecimal_decimal (w n : Nat) : readDecimal (decimal w n) = some (n % 10 ^ w) := by
  simpa using foldlM_decimal w n 0

theorem toTP_fields {Y M D h mi sec : Nat} (hY : Y < 10000) (hM : M < 100) (hD : D < 100)
    (hh : h < 100) (hmi : mi < 100) (hsec : sec < 100) :
    toTP (decimal 4 Y ++ decimal 2 M ++ decimal 2 D ++ [84] ++ decimal 2 h ++ decimal 2 mi ++
      decimal 2 sec) =
      if 1 ≤ M ∧ M ≤ 12 ∧ 1 ≤ D ∧ D ≤ lastDay Y M ∧ h < 24 ∧ mi < 60 ∧ sec < 60 then
        (daysFromCivil Y M D * 86400 + h * 3600 + mi * 60 + sec) * 1000000
      else 0 := by
  have h8 : (decimal 4 Y ++ (decimal 2 M ++ (decimal 2 D ++ 84 :: (decimal 2 h ++
      (decimal 2 mi ++ decimal 2 sec)))))[8]? = some 84 := by
    rw [List.getElem?_append_right (by simp), List.getElem?_append_right (by simp),
      List.getElem?_append_right (by simp)]
    rfl
  simp only [toTP, List.append_assoc, List.singleton_append, List.cons_append, List.nil_append]
  rw [h8]
  simp [List.take_append_eq_append_take, List.drop_append_eq_append_drop, readDecimal_decimal,
    List.drop_eq_nil_of_le, List.take_of_length_le, Nat.mod_eq_of_lt, hY, hM, hD, hh, hmi, hsec]

/-- The stamp of `tp` names its calendar year: the ISO week-based year that `%G` writes is the
calendar year, and it has four digits. -/
def YearExact (tp : Int) : Prop :=
  isoWeekYear (toTimeT tp / 86400) = (civilFromDays (toTimeT tp / 86400)).1 ∧
    0 ≤ (civilFromDays (toTimeT tp / 86400)).1 ∧ (civilFromDays (toTimeT tp / 86400)).1 < 10000

instance : DecidablePred YearExact := fun _ => inferInstanceAs (Decidable (_ ∧ _ ∧ _))

theorem toTP_iso8601 {tp : Int} (h : YearExact tp) : toTP (iso8601 tp) = toTimeT tp * 1000000 := by
  obtain ⟨hy, hr⟩ := h
  have hv := civilFromDays_valid (toTimeT tp / 86400)
  have hinv := daysFromCivil_civilFromDays (toTimeT tp / 86400)
  have h31 := lastDay_le (civilFromDays (toTimeT tp / 86400)).1
    (civilFromDays (toTimeT tp / 86400)).2.1
  simp only [iso8601]
  rw [hy]
  generalize toTimeT tp = s at *
  generalize civilFromDays (s / 86400) = c at *
  obtain ⟨Y, M, D⟩ := c
  dsimp only at hv hinv h31 hr ⊢
  have hs : (s % 86400).toNat < 86400 := by omega
  rw [toTP_fields (by omega) (by omega) (by omega) (by omega) (by omega) (by omega),
    if_pos (by rw [Int.toNat_of_nonneg hr.1]; omega), Int.toNat_of_nonneg hr.1, hinv]
  omega

example : YearExact earlyJanuary ∧ ¬ YearExact lateDecember := by decide

end Stamp

end SgKeyDist.Calendar
