import SgKeyDist.Enrolment

namespace SgKeyDist.Receiver

open SgKeyDist.ByteOrder SgKeyDist.Tlv SgKeyDist.Identity SgKeyDist.Members SgKeyDist.KeyRecord
open SgKeyDist.State SgKeyDist.Member SgKeyDist.KeyMaker SgKeyDist.Peer SgKeyDist.Enrolment

/-- Key-record publications handed to the subscription callback one after another, each with
the clock reading at its arrival. -/
def deliver (ps : List (Pub × Nat)) : List Event := ps.map fun q => .receiveSGKeyRecords q.1 q.2

theorem run_deliver_cons (E : Env) (r : DistSGKey) (q : Pub × Nat) (ps : List (Pub × Nat)) :
    run E r (deliver (q :: ps)) = andThen (receiveSGKeyRecords E r q.1 q.2) (run E · (deliver ps)) :=
  rfl

section Member

variable {E : Env} {s s₁ r : DistSGKey} {p : Pub} {now e : Nat}

theorem checkEpoch_self (s : DistSGKey) : checkEpoch s s.m_KMepoch.toNat = some s := by
  simp [checkEpoch]

theorem checkEpoch_other (hne : e ≠ s.m_KMepoch.toNat) (h1 : e ≤ 1) :
    checkEpoch s e = some { s with m_KMepoch := UInt32.ofNat e, m_kmtp := ThumbPrint.zero } := by
  simp [checkEpoch, hne, Nat.not_lt.mpr h1]

theorem checkEpoch_some (hc : checkEpoch s e = some s₁) :
    s₁ = s ∨ e ≠ s.m_KMepoch.toNat ∧ e ≤ 1 ∧
      s₁ = { s with m_KMepoch := UInt32.ofNat e, m_kmtp := ThumbPrint.zero } := by
  unfold checkEpoch at hc
  split_ifs at hc with h₁ h₂ <;> cases hc
  exacts [.inr ⟨h₁, Nat.le_of_not_lt h₂, rfl⟩, .inl rfl]

theorem checkDrift_of_not_lt (h : ¬ s.m_kmtp < p.signer) : checkDrift s p.signer = s := by
  simp [checkDrift, h]

@[simp] theorem adoptKey_kmtp (E : Env) (s : DistSGKey) (c : Bytes) :
    (adoptKey E s c).1.m_kmtp = s.m_kmtp := by
  rcases adoptKey_cases E s c with h | ⟨_, -, -, h⟩ <;> rw [h]

@[simp] theorem adoptKey_KMepoch (E : Env) (s : DistSGKey) (c : Bytes) :
    (adoptKey E s c).1.m_KMepoch = s.m_KMepoch := by
  rcases adoptKey_cases E s c with h | ⟨_, -, -, h⟩ <;> rw [h]

theorem adoptKey_gate (E : Env) (c : Bytes) (hg : (s.m_init && s.m_subr && !s.m_mrPending) = false) :
    ((adoptKey E s c).1.m_init && (adoptKey E s c).1.m_subr && !(adoptKey E s c).1.m_mrPending) =
      false := by
  rcases adoptKey_cases E s c with h | ⟨_, -, -, h⟩ <;> rw [h]
  · exact hg
  · rfl

theorem adoptKey_stale (E : Env) {c : Bytes}
    (h : ∀ ct rest, readCT c = some (ct, rest) → ct ≤ s.m_curKeyCT.toNat) : adoptKey E s c = (s, []) := by
  rcases adoptKey_spec E s c with he | ⟨_, _, _, _, hct, hn, -⟩
  · exact he
  · exact absurd (h _ _ hct) (Nat.not_le.mpr hn)

theorem adoptKey_unaddressed (E : Env) (s : DistSGKey) {ct : Nat} {pk : Bytes}
    {recs : List (ThumbPrint × Bytes)} (hct : ct < 2 ^ 64) (hpk : pk.length < 2 ^ 64)
    (hsub : s.m_subr = true) (hlen : recs.length ≤ maxKR) (hl : ∀ x ∈ recs, x.2.length = encSGKeySz)
    (hn : ∀ x ∈ recs, x.1 ≠ s.m_tp) : adoptKey E s (krContent ct pk recs) = (s, []) := by
  have h130 := nextBlk_tlv (by decide : 130 < 2 ^ 64) (flatMap_egkrBytes_lt hlen hl) []
  rw [List.append_nil] at h130
  have hf : (recs.map fun x => (x.1.bytes, x.2)).find? (fun y => y.1 == s.m_tp.bytes) = none :=
    List.find?_eq_none.mpr fun y hy => by
      obtain ⟨x, hx, rfl⟩ := List.mem_map.mp hy
      simpa using fun h => hn x hx (ThumbPrint.ext h)
  unfold adoptKey
  by_cases hs : ct ≤ s.m_curKeyCT.toNat
  · simp only [readCT_krContent hct, if_pos hs]
  · simp only [readCT_krContent hct, if_neg hs, nextBlk_tlv (by decide : 150 < 2 ^ 64) hpk, hsub,
      Bool.not_true, Bool.false_eq_true, if_false, h130, toSpanEgkr_records recs hl, hf]

theorem receiveSGKeyRecords_member (hk : s.m_keyMaker = false) (hpri : 0 < kmpri E s p.signer) :
    receiveSGKeyRecords E s p now = receiveAsMember E s p now := by
  simp only [receiveSGKeyRecords, if_neg (Int.not_le.mpr hpri), hk, Bool.false_eq_true, if_false]

theorem receiveSGKeyRecords_untouched_member (hk : s.m_keyMaker = false) (E : Env) (p : Pub)
    (now : Nat) : untouched (receiveSGKeyRecords E s p now).1 = untouched s :=
  (receiveSGKeyRecords_untouched E s p now).elim id fun h => h.trans (by rw [← hk]; rfl)

theorem receiveAsMember_cases (E : Env) (now : Nat) (hg : (s.m_init && s.m_subr && !s.m_mrPending) = false)
    (he : recordEpoch s p = some e) (hc : checkEpoch s e = some s₁) :
    receiveAsMember E s p now = (checkDrift s₁ p.signer, [.raise]) ∨
      receiveAsMember E s p now = (checkDrift s₁ p.signer, []) ∨
      receiveAsMember E s p now = adoptKey E (checkDrift s₁ p.signer) p.content := by
  unfold receiveAsMember
  simp only [hg, he, hc, Bool.false_eq_true, if_false]
  split
  · split
    · exact .inr (.inl (by rw [omitted_eq_nil]))
    · exact .inr (.inr rfl)
  · exact .inl rfl

theorem receiveAsMember_krName (E : Env) (now : Nat) (hg : (s.m_init && s.m_subr && !s.m_mrPending) = false)
    (he : recordEpoch s p = some e) (hc : checkEpoch s e = some s₁) {e' : Nat} {lo hi : ThumbPrint}
    {ts : Nat} (hn : p.name = krName s.m_krPrefix e' lo hi ts) :
    receiveAsMember E s p now = (checkDrift s₁ p.signer, []) ∨
      receiveAsMember E s p now = adoptKey E (checkDrift s₁ p.signer) p.content := by
  obtain ⟨h₁, h₂⟩ := krName_range s.m_krPrefix e' lo hi ts
  unfold receiveAsMember
  simp only [hg, he, hc, hn, h₁, h₂, Bool.false_eq_true, if_false]
  split
  · exact .inl (by rw [omitted_eq_nil])
  · exact .inr rfl

theorem receiveAsMember_ignored (E : Env) (now : Nat) (hg : (s.m_init && s.m_subr && !s.m_mrPending) = false)
    (he : recordEpoch s p = some e) (hc : checkEpoch s e = none) : receiveAsMember E s p now = (s, []) := by
  unfold receiveAsMember
  simp only [hg, he, hc, Bool.false_eq_true, if_false]

theorem receiveAsMember_position (E : Env) (now : Nat) (hg : (s.m_init && s.m_subr && !s.m_mrPending) = false)
    (he : recordEpoch s p = some e) (hc : checkEpoch s e = some s₁) :
    (receiveAsMember E s p now).1.m_kmtp = max s₁.m_kmtp p.signer ∧
      (receiveAsMember E s p now).1.m_KMepoch = s₁.m_KMepoch := by
  rcases receiveAsMember_cases E now hg he hc with h | h | h <;>
    simp [h, checkDrift_eq]

theorem publishMembershipReq_fst (s : DistSGKey) (now : Nat) :
    (publishMembershipReq s now).1 = { s with m_mrPending := s.m_mrPending || s.m_subr } := by
  cases s with
  | mk _ _ _ _ _ _ _ _ _ _ _ _ _ _ _ _ _ subr _ _ _ => cases subr <;> simp [publishMembershipReq]

theorem receiveSGKeyRecords_demote (now : Nat) (hk : s.m_keyMaker = true)
    (hpri : 0 < kmpri E s p.signer) (hlt : s.m_tp < p.signer) :
    receiveSGKeyRecords E s p now = andThen ({ s with m_keyMaker := false, m_kmtp := p.signer },
      [.unsubscribe s.m_mrPrefix]) (publishMembershipReq · now) := by
  simp only [receiveSGKeyRecords, if_neg (Int.not_le.mpr hpri), hk, if_true, demote, if_pos hlt]

theorem receiveSGKeyRecords_stale (now : Nat) (hk : r.m_keyMaker = false)
    (hg : (r.m_init && r.m_subr && !r.m_mrPending) = false) (hkm : ¬ r.m_kmtp < p.signer)
    (he : recordEpoch r p = some r.m_KMepoch.toNat)
    (hct : ∀ ct rest, readCT p.content = some (ct, rest) → ct ≤ r.m_curKeyCT.toNat) :
    (receiveSGKeyRecords E r p now).1 = r ∧ Keyless (receiveSGKeyRecords E r p now).2 := by
  by_cases hpri : kmpri E r p.signer ≤ 0
  · simp [receiveSGKeyRecords, hpri, Keyless]
  rw [receiveSGKeyRecords_member hk (Int.not_le.mp hpri)]
  rcases receiveAsMember_cases E now hg he (checkEpoch_self r) with h | h | h <;>
    rw [h, checkDrift_of_not_lt hkm]
  · exact ⟨rfl, by simp [Keyless, Effect.keyCT?]⟩
  · exact ⟨rfl, by simp [Keyless]⟩
  · rw [adoptKey_stale E hct]
    exact ⟨rfl, by simp [Keyless]⟩

theorem receiveSGKeyRecords_checked (now : Nat) (hk : r.m_keyMaker = false)
    (hg : (r.m_init && r.m_subr && !r.m_mrPending) = false) (hpri : 0 < kmpri E r p.signer)
    (he : recordEpoch r p = some e) (hc : checkEpoch r e = some s₁) :
    (receiveSGKeyRecords E r p now).1.m_kmtp = max s₁.m_kmtp p.signer ∧
      (receiveSGKeyRecords E r p now).1.m_KMepoch = s₁.m_KMepoch ∧
      untouched (receiveSGKeyRecords E r p now).1 = untouched r ∧
      ((receiveSGKeyRecords E r p now).1.m_init && (receiveSGKeyRecords E r p now).1.m_subr &&
        !(receiveSGKeyRecords E r p now).1.m_mrPending) = false := by
  rw [receiveSGKeyRecords_member hk hpri]
  obtain ⟨h₁, h₂⟩ := receiveAsMember_position E now hg he hc
  have hg' : ((checkDrift s₁ p.signer).m_init && (checkDrift s₁ p.signer).m_subr &&
      !(checkDrift s₁ p.signer).m_mrPending) = false := by
    rw [checkDrift_eq]; rcases checkEpoch_some hc with rfl | ⟨-, -, rfl⟩ <;> exact hg
  refine ⟨h₁, h₂, receiveAsMember_untouched E r p now, ?_⟩
  rcases receiveAsMember_cases E now hg he hc with h | h | h <;> rw [h]
  exacts [hg', hg', adoptKey_gate E _ hg']

theorem receiveSGKeyRecords_sameEpoch (now : Nat) (hk : r.m_keyMaker = false)
    (hg : (r.m_init && r.m_subr && !r.m_mrPending) = false) (hpri : 0 < kmpri E r p.signer)
    (he : recordEpoch r p = some r.m_KMepoch.toNat) :
    (receiveSGKeyRecords E r p now).1.m_kmtp = max r.m_kmtp p.signer ∧
      (receiveSGKeyRecords E r p now).1.m_KMepoch = r.m_KMepoch ∧
      untouched (receiveSGKeyRecords E r p now).1 = untouched r ∧
      ((receiveSGKeyRecords E r p now).1.m_init && (receiveSGKeyRecords E r p now).1.m_subr &&
        !(receiveSGKeyRecords E r p now).1.m_mrPending) = false :=
  receiveSGKeyRecords_checked now hk hg hpri he (checkEpoch_self r)

end Member

section Convergence

variable {E : Env} {r : DistSGKey}

/-- The key-maker a peer records from key records of epoch `e` signed by `signers`, as lines
284-297 decide it: records of its own epoch raise its record to their largest signer; records
of another epoch up to 1 move it to that epoch and record their largest signer; records of a
later epoch are ignored. -/
def recordedKeyMaker (r : DistSGKey) (e : Nat) (signers : List ThumbPrint) : ThumbPrint :=
  if e = r.m_KMepoch.toNat then signers.foldl max r.m_kmtp
  else if 1 < e ∨ signers = [] then r.m_kmtp
  else signers.foldl max ThumbPrint.zero

theorem recordedKeyMaker_perm {e : Nat} {l l' : List ThumbPrint} (h : l'.Perm l) :
    recordedKeyMaker r e l' = recordedKeyMaker r e l := by
  have hf : ∀ t, l'.foldl max t = l.foldl max t := h.foldl_eq' fun x _ y _ t => by
    rw [max_assoc, max_comm x, ← max_assoc]
  simp only [recordedKeyMaker, hf, ← List.length_eq_zero, h.length_eq]

theorem run_deliver_recorded (hk : r.m_keyMaker = false)
    (hg : (r.m_init && r.m_subr && !r.m_mrPending) = false) {e : Nat} (ps : List (Pub × Nat))
    (hps : ∀ q ∈ ps, 0 < kmpri E r q.1.signer ∧ recordEpoch r q.1 = some e) :
    (run E r (deliver ps)).1.m_kmtp = recordedKeyMaker r e (ps.map fun q => q.1.signer) := by
  induction ps generalizing r with
  | nil => simp [recordedKeyMaker, deliver, run]
  | cons q ps ih =>
    obtain ⟨hpri, he⟩ := hps q (List.mem_cons_self _ _)
    have hnext : ∀ {r₁ : DistSGKey}, untouched r₁ = untouched r →
        (r₁.m_init && r₁.m_subr && !r₁.m_mrPending) = false →
        (run E r₁ (deliver ps)).1.m_kmtp = recordedKeyMaker r₁ e (ps.map fun q => q.1.signer) :=
      fun hu hg' => ih ((congrArg Untouched.m_keyMaker hu).trans hk) hg' fun q' hq' => by
        rw [kmpri_congr hu, recordEpoch_congr hu]; exact hps q' (List.mem_cons_of_mem _ hq')
    rw [run_deliver_cons, andThen_fst, List.map_cons]
    by_cases hown : e = r.m_KMepoch.toNat
    · -- the peer's own epoch
      obtain ⟨hkmtp, hep, hu, hg'⟩ := receiveSGKeyRecords_checked q.2 hk hg hpri he
        (hown ▸ checkEpoch_self r)
      rw [hnext hu hg', recordedKeyMaker, recordedKeyMaker, if_pos (hep ▸ hown), if_pos hown,
        List.foldl_cons, hkmtp]
    by_cases hlate : 1 < e
    · -- a later epoch: the record is ignored
      have hc : checkEpoch r e = none := by simp [checkEpoch, hown, hlate]
      rw [receiveSGKeyRecords_member hk hpri, receiveAsMember_ignored E q.2 hg he hc, hnext rfl hg]
      simp only [recordedKeyMaker, if_neg hown, hlate, true_or, if_true]
    · -- another epoch up to 1: the peer takes it
      obtain ⟨hkmtp, hep, hu, hg'⟩ := receiveSGKeyRecords_checked q.2 hk hg hpri he
        (checkEpoch_other hown (Nat.le_of_not_lt hlate))
      have hep' : e = (receiveSGKeyRecords E r q.1 q.2).1.m_KMepoch.toNat := by
        rw [hep]; exact (UInt32.toNat_ofNat_of_lt (by unfold UInt32.size; omega)).symm
      rw [hnext hu hg', recordedKeyMaker, recordedKeyMaker, if_pos hep', if_neg hown,
        if_neg (by simp [hlate]), List.foldl_cons, hkmtp]

/-- Split-brain convergence of the recorded key-maker: a peer that is not the key-maker and is
past its init gate, handed authorized key records of any one epoch in any order, ends with the
same recorded key-maker, the largest of its own record and the signers for its own epoch, and
the largest signer for another epoch up to 1. -/
theorem recorded_keyMaker_order_independent (hk : r.m_keyMaker = false)
    (hg : (r.m_init && r.m_subr && !r.m_mrPending) = false) {e : Nat} (ps : List (Pub × Nat))
    (hps : ∀ q ∈ ps, 0 < kmpri E r q.1.signer ∧ recordEpoch r q.1 = some e)
    (ps' : List (Pub × Nat)) (hperm : ps'.Perm ps) :
    (run E r (deliver ps')).1.m_kmtp = recordedKeyMaker r e (ps.map fun q => q.1.signer) := by
  rw [run_deliver_recorded hk hg ps' fun q hq => hps q (hperm.subset hq)]
  exact recordedKeyMaker_perm (hperm.map _)

def samplePublisher : DistSGKey :=
  construct sampleEnv [asBytes "g"] (asBytes "pub") (sampleTp 3) [] 1000 10

def sampleRecord (b : UInt8) (ct : Nat) : Pub :=
  ⟨krName samplePublisher.m_krPrefix 0 (sampleTp b) (sampleTp b) 0, krContent ct [b] [], sampleTp b⟩

theorem sampleRecord_authorized (b : UInt8) (ct : Nat) :
    0 < kmpri sampleEnv samplePublisher (sampleRecord b ct).signer ∧
      recordEpoch samplePublisher (sampleRecord b ct) = some samplePublisher.m_KMepoch.toNat :=
  ⟨by rw [show kmpri sampleEnv samplePublisher (sampleRecord b ct).signer = 5 from rfl]; decide,
    recordEpoch_krName samplePublisher (by decide) _ _ _ _ _⟩

def sampleLateRecord (b : UInt8) (ct : Nat) : Pub :=
  ⟨krName samplePublisher.m_krPrefix 1 (sampleTp b) (sampleTp b) 0, krContent ct [b] [], sampleTp b⟩

theorem recorded_keyMaker_order_independent_sample :
    samplePublisher.m_keyMaker = false ∧
    (samplePublisher.m_init && samplePublisher.m_subr && !samplePublisher.m_mrPending) = false ∧
    (∀ q ∈ [(sampleLateRecord 1 10, 0), (sampleLateRecord 2 5, 0)],
      0 < kmpri sampleEnv samplePublisher q.1.signer ∧ recordEpoch samplePublisher q.1 = some 1) ∧
    [(sampleLateRecord 2 5, 0), (sampleLateRecord 1 10, 0)].Perm
      [(sampleLateRecord 1 10, 0), (sampleLateRecord 2 5, 0)] ∧
    (run sampleEnv samplePublisher
        (deliver [(sampleLateRecord 2 5, 0), (sampleLateRecord 1 10, 0)])).1.m_kmtp =
      recordedKeyMaker samplePublisher 1
        ([(sampleLateRecord 1 10, 0), (sampleLateRecord 2 5, 0)].map fun q => q.1.signer) := by
  have hps : ∀ q ∈ [(sampleLateRecord 1 10, 0), (sampleLateRecord 2 5, 0)],
      0 < kmpri sampleEnv samplePublisher q.1.signer ∧ recordEpoch samplePublisher q.1 = some 1 := by
    simp only [List.mem_cons, List.not_mem_nil, or_false, forall_eq_or_imp, forall_eq]
    refine ⟨⟨?_, recordEpoch_krName _ (by decide) _ _ _ _ _⟩, ⟨?_, recordEpoch_krName _ (by decide) _ _ _ _ _⟩⟩ <;>
      decide
  have hperm := List.Perm.swap (sampleLateRecord 1 10, 0) (sampleLateRecord 2 5, 0) []
  have hk : samplePublisher.m_keyMaker = false := rfl
  have hg : (samplePublisher.m_init && samplePublisher.m_subr && !samplePublisher.m_mrPending) = false :=
    rfl
  exact ⟨hk, hg, hps, hperm, recorded_keyMaker_order_independent hk hg _ hps _ hperm⟩

example : recordedKeyMaker samplePublisher 1 [sampleTp 1, sampleTp 2] = sampleTp 2 := by decide

theorem adopted_key_order_dependent :
    Reachable sampleEnv samplePublisher ∧ samplePublisher.m_keyMaker = false ∧
    (samplePublisher.m_init && samplePublisher.m_subr && !samplePublisher.m_mrPending) = false ∧
    (∀ q ∈ [(sampleRecord 1 10, 0), (sampleRecord 2 5, 0)],
      0 < kmpri sampleEnv samplePublisher q.1.signer ∧
        recordEpoch samplePublisher q.1 = some samplePublisher.m_KMepoch.toNat) ∧
    (sampleRecord 1 10).signer < (sampleRecord 2 5).signer ∧
    Effect.newKey [1] [] 10 ∈
      (run sampleEnv samplePublisher (deliver [(sampleRecord 2 5, 0), (sampleRecord 1 10, 0)])).2 ∧
    (run sampleEnv samplePublisher (deliver [(sampleRecord 2 5, 0), (sampleRecord 1 10, 0)])).1.m_curKeyCT ≠
      (run sampleEnv samplePublisher (deliver [(sampleRecord 1 10, 0), (sampleRecord 2 5, 0)])).1.m_curKeyCT := by
  refine ⟨.construct _ _ _ _ _ _, rfl, rfl, by simp [sampleRecord_authorized], by decide, ?_, ?_⟩
  · rw [show (run sampleEnv samplePublisher (deliver [(sampleRecord 2 5, 0), (sampleRecord 1 10, 0)])).2 =
      [.newKey [2] [] 5, .connected, .newKey [1] [] 10] from rfl]
    simp
  · rw [show (run sampleEnv samplePublisher (deliver [(sampleRecord 2 5, 0), (sampleRecord 1 10, 0)])).1.m_curKeyCT
      = 10 from rfl, show (run sampleEnv samplePublisher (deliver [(sampleRecord 1 10, 0),
      (sampleRecord 2 5, 0)])).1.m_curKeyCT = 5 from rfl]
    decide

end Convergence

section Demotion

variable {E : Env} {s : DistSGKey} {p₁ p₂ : Pub}

/-- A key-maker demoted by a record of a larger thumbprint keeps its creation time, where the
drift check of a member clears it. A later record of the same signer and epoch whose creation
time is not newer, such as the answer to the membership request the demotion sends, is
dropped: the creation time stays and no key reaches the application. -/
theorem demoted_keeps_creation_time (hk : s.m_keyMaker = true) (hlt : s.m_tp < p₁.signer)
    (hpri : 0 < kmpri E s p₁.signer) (hsg : p₂.signer = p₁.signer)
    (he : recordEpoch s p₂ = some s.m_KMepoch.toNat)
    (hct : ∀ ct rest, readCT p₂.content = some (ct, rest) → ct ≤ s.m_curKeyCT.toNat) (now now' : Nat) :
    (run E s [.receiveSGKeyRecords p₁ now, .receiveSGKeyRecords p₂ now']).1.m_curKeyCT =
        s.m_curKeyCT ∧
      Keyless (run E s [.receiveSGKeyRecords p₁ now, .receiveSGKeyRecords p₂ now']).2 := by
  have hg : (s.m_init && s.m_subr && !(s.m_mrPending || s.m_subr)) = false := by
    cases s.m_subr <;> simp
  obtain ⟨h₁, h₂⟩ := receiveSGKeyRecords_stale (E := E)
    (r := { s with m_keyMaker := false, m_kmtp := p₁.signer, m_mrPending := s.m_mrPending || s.m_subr })
    now' rfl hg (by rw [hsg]; exact lt_irrefl _) he hct
  simp only [run, step, receiveSGKeyRecords_demote now hk hpri hlt, andThen_fst, andThen_snd,
    publishMembershipReq_fst, h₁, List.append_nil]
  refine ⟨trivial, fun e he' => ?_⟩
  rcases List.mem_append.mp he' with h | h
  · rcases List.mem_append.mp h with h | h
    · rw [List.mem_singleton.mp h]; rfl
    · exact keyless_publishMembershipReq _ now e h
  · exact h₂ e h

/-- A key record of `sampleKeyMaker`'s epoch signed by `sampleTp 2`, named by the range of
`sampleTp 1`, with creation time 3 and the records `recs`. -/
def rivalRecord (recs : List (ThumbPrint × Bytes)) : Pub :=
  ⟨krName sampleKeyMaker.m_krPrefix 1 (sampleTp 1) (sampleTp 1) 0,
    krContent 3 (List.replicate kxpkKeySz 7) recs, sampleTp 2⟩

/-- The rival's answer to `sampleTp 1`'s membership request: its secret key sealed to the
converted key of `sampleTp 1`. -/
def rivalAnswer : Pub :=
  rivalRecord [(sampleTp 1, sampleEnv.sodium.boxSeal (List.replicate kxskKeySz 7) (sampleTp 1).bytes)]

theorem demoted_keeps_creation_time_sample :
    sampleKeyMaker.m_keyMaker = true ∧ sampleKeyMaker.m_tp < (rivalRecord []).signer ∧
    0 < kmpri sampleEnv sampleKeyMaker (rivalRecord []).signer ∧
    rivalAnswer.signer = (rivalRecord []).signer ∧
    recordEpoch sampleKeyMaker rivalAnswer = some sampleKeyMaker.m_KMepoch.toNat ∧
    (∀ ct rest, readCT rivalAnswer.content = some (ct, rest) → ct ≤ sampleKeyMaker.m_curKeyCT.toNat) ∧
    (run sampleEnv sampleKeyMaker
        [.receiveSGKeyRecords (rivalRecord []) 10, .receiveSGKeyRecords rivalAnswer 11]).1.m_curKeyCT =
      sampleKeyMaker.m_curKeyCT ∧
    Keyless (run sampleEnv sampleKeyMaker
        [.receiveSGKeyRecords (rivalRecord []) 10, .receiveSGKeyRecords rivalAnswer 11]).2 := by
  have hk : sampleKeyMaker.m_keyMaker = true := rfl
  have hlt : sampleKeyMaker.m_tp < (rivalRecord []).signer := by decide
  have hpri : 0 < kmpri sampleEnv sampleKeyMaker (rivalRecord []).signer := by
    rw [show kmpri sampleEnv sampleKeyMaker (rivalRecord []).signer = 5 from rfl]; decide
  have he : recordEpoch sampleKeyMaker rivalAnswer = some sampleKeyMaker.m_KMepoch.toNat :=
    recordEpoch_krName sampleKeyMaker (by decide) _ _ _ _ _
  have hct : ∀ ct rest, readCT rivalAnswer.content = some (ct, rest) →
      ct ≤ sampleKeyMaker.m_curKeyCT.toNat := by
    intro ct rest h
    rw [rivalAnswer, rivalRecord, readCT_krContent (by decide)] at h
    cases h
    rw [show sampleKeyMaker.m_curKeyCT.toNat = 5 from rfl]; decide
  have hsg : rivalAnswer.signer = (rivalRecord []).signer := rfl
  exact ⟨hk, hlt, hpri, hsg, he, hct, demoted_keeps_creation_time hk hlt hpri hsg he hct 10 11⟩

end Demotion

section Rollback

variable {E : Env} {r : DistSGKey} {p : Pub} {e : Nat}

/-- A record of an earlier epoch is not ignored: an epoch of 0 or 1 passes the `epoch > 1`
test, so a peer of a later epoch moves back to the record's epoch and takes its signer as the
key-maker. -/
theorem earlier_epoch_rolls_back (hk : r.m_keyMaker = false)
    (hg : (r.m_init && r.m_subr && !r.m_mrPending) = false) (hpri : 0 < kmpri E r p.signer)
    (he : recordEpoch r p = some e) (hlt : e < r.m_KMepoch.toNat) (h1 : e ≤ 1) (now : Nat) :
    (receiveSGKeyRecords E r p now).1.m_KMepoch.toNat = e ∧
      (receiveSGKeyRecords E r p now).1.m_kmtp = p.signer := by
  rw [receiveSGKeyRecords_member hk hpri]
  obtain ⟨h₁, h₂⟩ := receiveAsMember_position E now hg he (checkEpoch_other (Nat.ne_of_lt hlt) h1)
  rw [h₁, h₂]
  exact ⟨UInt32.toNat_ofNat_of_lt (by unfold UInt32.size; omega), max_eq_right (ThumbPrint.zero_le _)⟩

def sampleHolder : DistSGKey :=
  (receiveSGKeyRecords sampleEnv sampleReceiver
    (admitPub sampleEnv sampleKeyMaker (sampleTp 2) (sampleTp 2).bytes 7) 8).1

/-- A key record of epoch 0 from `sampleTp 1`, with an older creation time, sealing a key to
`sampleTp 2`. -/
def epochZeroRecord : Pub :=
  ⟨krName sampleHolder.m_krPrefix 0 (sampleTp 2) (sampleTp 2) 0,
    krContent 3 (List.replicate kxpkKeySz 9)
      [(sampleTp 2, sampleEnv.sodium.boxSeal (List.replicate kxskKeySz 9) (sampleTp 2).bytes)],
    sampleTp 1⟩

set_option maxRecDepth 4000 in
theorem earlier_epoch_rolls_back_sample :
    sampleHolder.m_keyMaker = false ∧
    (sampleHolder.m_init && sampleHolder.m_subr && !sampleHolder.m_mrPending) = false ∧
    0 < kmpri sampleEnv sampleHolder epochZeroRecord.signer ∧
    recordEpoch sampleHolder epochZeroRecord = some 0 ∧ 0 < sampleHolder.m_KMepoch.toNat ∧
    (receiveSGKeyRecords sampleEnv sampleHolder epochZeroRecord 12).1.m_KMepoch.toNat = 0 ∧
    (receiveSGKeyRecords sampleEnv sampleHolder epochZeroRecord 12).1.m_kmtp = epochZeroRecord.signer ∧
    sampleHolder.m_curKeyCT = 5 ∧
    Effect.newKey (List.replicate kxpkKeySz 9) (List.replicate kxskKeySz 9) 3 ∈
      (receiveSGKeyRecords sampleEnv sampleHolder epochZeroRecord 12).2 := by
  have hk : sampleHolder.m_keyMaker = false := rfl
  have hg : (sampleHolder.m_init && sampleHolder.m_subr && !sampleHolder.m_mrPending) = false := rfl
  have hpri : 0 < kmpri sampleEnv sampleHolder epochZeroRecord.signer := by
    rw [show kmpri sampleEnv sampleHolder epochZeroRecord.signer = 5 from rfl]; decide
  have he : recordEpoch sampleHolder epochZeroRecord = some 0 :=
    recordEpoch_krName sampleHolder (by decide) _ _ _ _ _
  have hlt : 0 < sampleHolder.m_KMepoch.toNat := by
    rw [show sampleHolder.m_KMepoch.toNat = 1 from rfl]; decide
  have hnew : Effect.newKey (List.replicate kxpkKeySz 9) (List.replicate kxskKeySz 9) 3 ∈
      (receiveSGKeyRecords sampleEnv sampleHolder epochZeroRecord 12).2 := by
    rw [show (receiveSGKeyRecords sampleEnv sampleHolder epochZeroRecord 12).2 =
      [.newKey (List.replicate kxpkKeySz 9) (List.replicate kxskKeySz 9) 3, .cancelRefresh] from rfl]
    exact List.mem_cons_self _ _
  obtain ⟨h₁, h₂⟩ := earlier_epoch_rolls_back hk hg hpri he hlt (Nat.zero_le 1) 12
  exact ⟨hk, hg, hpri, he, hlt, h₁, h₂, rfl, hnew⟩

end Rollback

section Monotonicity

variable {E : Env} {r s : DistSGKey} {p : Pub} {e : Nat}

/-- A member's place in the key succession: its epoch, its recorded key-maker and its key's
creation time, compared in that order. -/
def position (s : DistSGKey) : ℕ ×ₗ (ThumbPrint ×ₗ ℕ) :=
  toLex (s.m_KMepoch.toNat, toLex (s.m_kmtp, s.m_curKeyCT.toNat))

theorem position_lt_iff {s s' : DistSGKey} : position s < position s' ↔
    s.m_KMepoch.toNat < s'.m_KMepoch.toNat ∨ s.m_KMepoch.toNat = s'.m_KMepoch.toNat ∧
      (s.m_kmtp < s'.m_kmtp ∨ s.m_kmtp = s'.m_kmtp ∧ s.m_curKeyCT.toNat < s'.m_curKeyCT.toNat) := by
  simp only [position, Prod.Lex.lt_iff]

theorem position_checkDrift (hc : checkEpoch r e = some s) (hle : r.m_KMepoch.toNat ≤ e)
    (t : ThumbPrint) :
    position r ≤ position (checkDrift s t) ∧ (checkDrift s t).m_KMepoch.toNat ≤ e := by
  rw [checkDrift_eq]
  rcases checkEpoch_some hc with rfl | ⟨hne, h1, rfl⟩
  · refine ⟨?_, hle⟩
    by_cases h : s.m_kmtp < t
    · exact le_of_lt (position_lt_iff.mpr (.inr ⟨rfl, .inl (lt_max_of_lt_right h)⟩))
    · simp only [position, if_neg h, max_eq_left (not_lt.mp h)]
      rfl
  · have he : (UInt32.ofNat e).toNat = e := UInt32.toNat_ofNat_of_lt (by unfold UInt32.size; omega)
    refine ⟨le_of_lt (position_lt_iff.mpr (.inl ?_)), he.le⟩
    show r.m_KMepoch.toNat < (UInt32.ofNat e).toNat
    omega

theorem receiveSGKeyRecords_position (hk : r.m_keyMaker = false) (he : recordEpoch r p = some e)
    (hle : r.m_KMepoch.toNat ≤ e) (now : Nat) :
    position r ≤ position (receiveSGKeyRecords E r p now).1 ∧
      (Keyless (receiveSGKeyRecords E r p now).2 ∨
        position r < position (receiveSGKeyRecords E r p now).1) ∧
      (receiveSGKeyRecords E r p now).1.m_KMepoch.toNat ≤ e := by
  by_cases hpri : kmpri E r p.signer ≤ 0
  · simp only [receiveSGKeyRecords, if_pos hpri]
    exact ⟨le_rfl, .inl (by simp [Keyless]), hle⟩
  rw [receiveSGKeyRecords_member hk (Int.not_le.mp hpri)]
  by_cases hg : (r.m_init && r.m_subr && !r.m_mrPending) = true
  · rw [show receiveAsMember E r p now = publishMembershipReq r now from if_pos hg,
      publishMembershipReq_fst]
    exact ⟨le_rfl, .inl (keyless_publishMembershipReq r now), hle⟩
  rw [Bool.not_eq_true] at hg
  cases hc : checkEpoch r e with
  | none =>
    rw [receiveAsMember_ignored E now hg he hc]
    exact ⟨le_rfl, .inl (by simp [Keyless]), hle⟩
  | some s =>
    obtain ⟨hpos, hep⟩ := position_checkDrift hc hle p.signer
    rcases receiveAsMember_cases E now hg he hc with h | h | h <;> rw [h]
    · exact ⟨hpos, .inl (by simp [Keyless, Effect.keyCT?]), hep⟩
    · exact ⟨hpos, .inl (by simp [Keyless]), hep⟩
    rcases adoptKey_cases E (checkDrift s p.signer) p.content with ha | ⟨n, hlt, hn, ha⟩
    · rw [ha]
      exact ⟨hpos, .inl (by simp [Keyless]), hep⟩
    have hadv : position (checkDrift s p.signer) <
        position (adoptKey E (checkDrift s p.signer) p.content).1 := by
      rw [ha]
      refine position_lt_iff.mpr (.inr ⟨rfl, .inr ⟨rfl, ?_⟩⟩)
      show _ < (UInt64.ofNat n).toNat
      rwa [UInt64.toNat_ofNat_of_lt hn]
    have hlt' := lt_of_le_of_lt hpos hadv
    exact ⟨hlt'.le, .inr hlt', by rw [adoptKey_KMepoch]; exact hep⟩

/-- A member never goes back in the key succession: handed key records of one epoch not below
its own, in any order, a member that is not the key-maker ends no earlier than it began, and
strictly later if any key was handed to the application on the way. -/
theorem position_never_decreases (hk : r.m_keyMaker = false) (hle : r.m_KMepoch.toNat ≤ e)
    (ps : List (Pub × Nat)) (hps : ∀ q ∈ ps, recordEpoch r q.1 = some e) :
    position r ≤ position (run E r (deliver ps)).1 ∧
      (¬ Keyless (run E r (deliver ps)).2 → position r < position (run E r (deliver ps)).1) := by
  induction ps generalizing r with
  | nil => exact ⟨le_rfl, fun h => (h (by simp [run, deliver, Keyless])).elim⟩
  | cons q ps ih =>
    obtain ⟨h₁, h₂, h₃⟩ :=
      receiveSGKeyRecords_position (E := E) hk (hps q (List.mem_cons_self _ _)) hle q.2
    have hu := receiveSGKeyRecords_untouched_member hk E q.1 q.2
    obtain ⟨ih₁, ih₂⟩ := ih ((congrArg Untouched.m_keyMaker hu).trans hk) h₃
      fun q' hq' => (recordEpoch_congr hu).symm ▸ hps q' (List.mem_cons_of_mem _ hq')
    rw [run_deliver_cons, andThen_fst, andThen_snd]
    refine ⟨h₁.trans ih₁, fun hne => ?_⟩
    rcases h₂ with hkl | hlt
    · refine lt_of_le_of_lt h₁ (ih₂ fun hkl' => hne fun x hx => ?_)
      exact (List.mem_append.mp hx).elim (hkl x) (hkl' x)
    · exact lt_of_lt_of_le hlt ih₁

theorem position_never_decreases_sample :
    samplePublisher.m_keyMaker = false ∧ samplePublisher.m_KMepoch.toNat ≤ 0 ∧
    (∀ q ∈ [(sampleRecord 2 5, 0), (sampleRecord 1 10, 0)], recordEpoch samplePublisher q.1 = some 0) ∧
    position samplePublisher <
      position (run sampleEnv samplePublisher (deliver [(sampleRecord 2 5, 0), (sampleRecord 1 10, 0)])).1 := by
  have hk : samplePublisher.m_keyMaker = false := rfl
  have hle : samplePublisher.m_KMepoch.toNat ≤ 0 := le_of_eq rfl
  have hps : ∀ q ∈ [(sampleRecord 2 5, 0), (sampleRecord 1 10, 0)],
      recordEpoch samplePublisher q.1 = some 0 := by
    simp only [List.mem_cons, List.not_mem_nil, or_false, forall_eq_or_imp, forall_eq]
    exact ⟨(sampleRecord_authorized 2 5).2, (sampleRecord_authorized 1 10).2⟩
  have hkl : ¬ Keyless (run sampleEnv samplePublisher
      (deliver [(sampleRecord 2 5, 0), (sampleRecord 1 10, 0)])).2 := by
    rw [show (run sampleEnv samplePublisher (deliver [(sampleRecord 2 5, 0), (sampleRecord 1 10, 0)])).2 =
      [.newKey [2] [] 5, .connected, .newKey [1] [] 10] from rfl]
    simp [Keyless, Effect.keyCT?]
  exact ⟨hk, hle, hps, (position_never_decreases hk hle _ hps).2 hkl⟩

end Monotonicity

section Omission

variable {E : Env} {K r s : DistSGKey} {q : Pub}

theorem receiveSGKeyRecords_unaddressed (now : Nat) (hk : r.m_keyMaker = false)
    (hs : r.m_subr = true) (hi : r.m_init = false) (hpfx : r.m_krPrefix = K.m_krPrefix)
    (hn : ∀ x, (r.m_tp, x) ∉ K.m_mbrList.entries) (hsk : K.m_sgSK.length = kxskKeySz)
    (hpk : K.m_sgPK.length = kxpkKeySz) (hq : SealedFromTable E K q) :
    (receiveSGKeyRecords E r q now).2 = [] ∧
      untouched (receiveSGKeyRecords E r q now).1 = untouched r ∧
      (receiveSGKeyRecords E r q now).1.m_init = false := by
  obtain ⟨lo, hi', ts, recs, rfl, hlen, hrecs⟩ := hq
  by_cases hpri : kmpri E r K.m_tp ≤ 0
  · simp [receiveSGKeyRecords, hpri, hi]
  rw [receiveSGKeyRecords_member hk (Int.not_le.mp hpri), ← hpfx]
  have hg : (r.m_init && r.m_subr && !r.m_mrPending) = false := by simp [hi]
  have he := recordEpoch_krName r (lt_trans K.m_KMepoch.toNat_lt_size (by decide)) lo hi' ts
    (krContent K.m_curKeyCT.toNat K.m_sgPK recs) K.m_tp
  cases hc : checkEpoch r K.m_KMepoch.toNat with
  | none =>
    rw [receiveAsMember_ignored E now hg he hc]
    exact ⟨rfl, rfl, hi⟩
  | some s₁ =>
    have hu : untouched (checkDrift s₁ K.m_tp) = untouched r :=
      (checkDrift_untouched _ _).trans (checkEpoch_untouched hc)
    have htp : (checkDrift s₁ K.m_tp).m_tp = r.m_tp := congrArg Untouched.m_tp hu
    have hi₁ : (checkDrift s₁ K.m_tp).m_init = false := by
      rcases checkEpoch_some hc with rfl | ⟨-, -, rfl⟩ <;> rw [checkDrift_eq] <;> exact hi
    have hl : ∀ x ∈ recs, x.2.length = encSGKeySz := fun x hx => by
      obtain ⟨y, -, hy⟩ := hrecs x hx
      rw [hy, E.sodium.boxSeal_length, hsk]; rfl
    have hnot : ∀ x ∈ recs, x.1 ≠ (checkDrift s₁ K.m_tp).m_tp := fun x hx hx' => by
      obtain ⟨y, hy, -⟩ := hrecs x hx
      rw [hx', htp] at hy
      exact hn y hy
    rcases receiveAsMember_krName E now hg he hc rfl with h | h <;> rw [h]
    · exact ⟨rfl, hu, hi₁⟩
    · rw [adoptKey_unaddressed E _ K.m_curKeyCT.toNat_lt_size (by rw [hpk]; decide)
        ((congrArg Untouched.m_subr hu).trans hs) hlen hl hnot]
      exact ⟨rfl, hu, hi₁⟩

theorem run_deliver_unaddressed (hk : r.m_keyMaker = false) (hs : r.m_subr = true)
    (hi : r.m_init = false) (hpfx : r.m_krPrefix = K.m_krPrefix)
    (hn : ∀ x, (r.m_tp, x) ∉ K.m_mbrList.entries) (hsk : K.m_sgSK.length = kxskKeySz)
    (hpk : K.m_sgPK.length = kxpkKeySz) (ps : List (Pub × Nat))
    (hps : ∀ q ∈ ps, SealedFromTable E K q.1) : (run E r (deliver ps)).2 = [] := by
  induction ps generalizing r with
  | nil => rfl
  | cons q ps ih =>
    obtain ⟨h₁, hu, hi'⟩ :=
      receiveSGKeyRecords_unaddressed q.2 hk hs hi hpfx hn hsk hpk (hps q (List.mem_cons_self _ _))
    have htp : (receiveSGKeyRecords E r q.1 q.2).1.m_tp = r.m_tp := congrArg Untouched.m_tp hu
    rw [run_deliver_cons, andThen_snd, h₁, List.nil_append]
    exact ih ((congrArg Untouched.m_keyMaker hu).trans hk) ((congrArg Untouched.m_subr hu).trans hs) hi'
      ((congrArg Untouched.m_krPrefix hu).trans hpfx) (htp ▸ hn)
      fun q' hq' => hps q' (List.mem_cons_of_mem _ hq')

/-- A subscriber that a rekey leaves out is not told. Past initialisation, sharing the
key-maker's prefix and absent from the swept table, it handles the key records of the rekey,
any of them in any order, without publishing or scheduling a membership request: it does
nothing at all. -/
theorem omitted_subscriber_not_rerequesting (hk : r.m_keyMaker = false) (hs : r.m_subr = true)
    (hi : r.m_init = false) (hpfx : r.m_krPrefix = s.m_krPrefix) (mi : Mint)
    (hn : ∀ x, (r.m_tp, x) ∉ (makeSGKey E s mi).1.m_mbrList.entries) (ps : List (Pub × Nat))
    (hps : ∀ q ∈ ps, q.1 ∈ published (makeSGKey E s mi).2) : (run E r (deliver ps)).2 = [] := by
  have hK : (makeSGKey E s mi).1.m_krPrefix = s.m_krPrefix := by rw [makeSGKey_state]; rfl
  have hpk : (makeSGKey E s mi).1.m_sgPK = mi.kp.pk := by rw [makeSGKey_state]; rfl
  exact run_deliver_unaddressed hk hs hi (hpfx.trans hK.symm) hn
    ((makeSGKey_sgSK E s mi).symm ▸ mi.kp.sk_size) (hpk.symm ▸ mi.kp.pk_size) ps
    fun q hq => makeSGKey_sealed E s mi (hps q hq)

def sampleRemoving : DistSGKey :=
  let s := (addGroupMem sampleEnv sampleKeyMaker (mrPub (samplePeer 2) 6) 7).1
  { s with m_mbrList := s.m_mbrList.erase (sampleTp 2) }

set_option maxRecDepth 4000 in
theorem omitted_subscriber_not_rerequesting_sample :
    sampleHolder.m_keyMaker = false ∧ sampleHolder.m_subr = true ∧ sampleHolder.m_init = false ∧
    sampleHolder.m_mrPending = false ∧ sampleHolder.m_krPrefix = sampleRemoving.m_krPrefix ∧
    sampleHolder.m_curKeyCT.toNat < (makeSGKey sampleEnv sampleRemoving (sampleMint 8)).1.m_curKeyCT.toNat ∧
    (∀ x, (sampleHolder.m_tp, x) ∉ (makeSGKey sampleEnv sampleRemoving (sampleMint 8)).1.m_mbrList.entries) ∧
    (∀ q ∈ [(anchorPub (minted sampleEnv sampleRemoving (sampleMint 8)) 8, 9)],
      q.1 ∈ published (makeSGKey sampleEnv sampleRemoving (sampleMint 8)).2) ∧
    (run sampleEnv sampleHolder
      (deliver [(anchorPub (minted sampleEnv sampleRemoving (sampleMint 8)) 8, 9)])).2 = [] := by
  have hn : ∀ x, (sampleHolder.m_tp, x) ∉
      (makeSGKey sampleEnv sampleRemoving (sampleMint 8)).1.m_mbrList.entries := by
    rw [show (makeSGKey sampleEnv sampleRemoving (sampleMint 8)).1.m_mbrList.entries = [] from rfl]
    exact fun _ => List.not_mem_nil _
  have hps : ∀ q ∈ [(anchorPub (minted sampleEnv sampleRemoving (sampleMint 8)) 8, 9)],
      q.1 ∈ published (makeSGKey sampleEnv sampleRemoving (sampleMint 8)).2 := by
    rw [show published (makeSGKey sampleEnv sampleRemoving (sampleMint 8)).2 =
      [anchorPub (minted sampleEnv sampleRemoving (sampleMint 8)) 8] from rfl]
    simp
  have hct : sampleHolder.m_curKeyCT.toNat <
      (makeSGKey sampleEnv sampleRemoving (sampleMint 8)).1.m_curKeyCT.toNat := by
    rw [show sampleHolder.m_curKeyCT.toNat = 5 from rfl,
      show (makeSGKey sampleEnv sampleRemoving (sampleMint 8)).1.m_curKeyCT.toNat = 8 from rfl]
    decide
  have hk : sampleHolder.m_keyMaker = false := rfl
  have hs : sampleHolder.m_subr = true := rfl
  have hi : sampleHolder.m_init = false := rfl
  have hpfx : sampleHolder.m_krPrefix = sampleRemoving.m_krPrefix := rfl
  exact ⟨hk, hs, hi, rfl, hpfx, hct, hn, hps,
    omitted_subscriber_not_rerequesting hk hs hi hpfx _ hn _ hps⟩

end Omission

section Malformed

variable {E : Env} {s s₁ : DistSGKey} {p : Pub} {e : Nat}

/-- Lines 327-343: the content reads as a key record, a type-36 creation time and a type-150
public key, then, for a subscriber, a type-130 record array. -/
def krLayout (subr : Bool) (c : Bytes) : Bool :=
  match readCT c with
  | none => false
  | some (_, c₁) =>
    match nextBlk 150 c₁ with
    | none => false
    | some (_, c₂) => !subr || (nextBlk 130 c₂).isSome

theorem adoptKey_malformed (E : Env) (s : DistSGKey) {c : Bytes} (h : krLayout s.m_subr c = false) :
    adoptKey E s c = (s, []) := by
  rcases adoptKey_spec E s c with he | ⟨_, _, _, _, hct, -, h150, ⟨hs, -⟩ | ⟨_, _, _, _, _, hs, h130, -⟩⟩
  · exact he
  · simp [krLayout, hct, h150, hs] at h
  · simp [krLayout, hct, h150, hs, h130] at h

theorem receiveAsMember_short (E : Env) (now : Nat)
    (hg : (s.m_init && s.m_subr && !s.m_mrPending) = false) (he : recordEpoch s p = some e)
    (hc : checkEpoch s e = some s₁) (hn : p.name.length ≤ s.m_krPrefix.length + 2) :
    receiveAsMember E s p now = (checkDrift s₁ p.signer, [.raise]) := by
  unfold receiveAsMember
  simp only [hg, he, hc, Bool.false_eq_true, if_false]
  split
  · rename_i h; rw [List.getElem?_eq_none hn] at h; cases h
  · rfl

theorem receiveAsMember_range (E : Env) (now : Nat)
    (hg : (s.m_init && s.m_subr && !s.m_mrPending) = false) (he : recordEpoch s p = some e)
    (hc : checkEpoch s e = some s₁) (hn : s.m_krPrefix.length + 2 < p.name.length) :
    receiveAsMember E s p now = (checkDrift s₁ p.signer, []) ∨
      receiveAsMember E s p now = adoptKey E (checkDrift s₁ p.signer) p.content := by
  unfold receiveAsMember
  simp only [hg, he, hc, Bool.false_eq_true, if_false,
    List.getElem?_eq_getElem (show s.m_krPrefix.length + 1 < p.name.length by omega),
    List.getElem?_eq_getElem hn]
  split
  · exact .inl (by rw [omitted_eq_nil])
  · exact .inr rfl

/-- A malformed key record is not dropped without trace. Past the init gate, a record whose name
has no epoch raises; one whose name stops before its low or high component raises after the
epoch and drift checks; and content that does not read as a key record is dropped only after
those checks, which may have moved the epoch, the recorded key-maker and the creation time. -/
theorem malformed_record_outcome (hk : s.m_keyMaker = false) (hpri : 0 < kmpri E s p.signer)
    (hg : (s.m_init && s.m_subr && !s.m_mrPending) = false) (now : Nat) :
    (recordEpoch s p = none → receiveSGKeyRecords E s p now = (s, [.raise])) ∧
    (∀ e s₁, recordEpoch s p = some e → checkEpoch s e = some s₁ →
      p.name.length ≤ s.m_krPrefix.length + 2 →
        receiveSGKeyRecords E s p now = (checkDrift s₁ p.signer, [.raise])) ∧
    (∀ e s₁, recordEpoch s p = some e → checkEpoch s e = some s₁ →
      s.m_krPrefix.length + 2 < p.name.length → krLayout s.m_subr p.content = false →
        receiveSGKeyRecords E s p now = (checkDrift s₁ p.signer, [])) := by
  rw [receiveSGKeyRecords_member hk hpri]
  refine ⟨fun he => ?_, fun _ _ he hc hn => receiveAsMember_short E now hg he hc hn,
    fun _ s₁ he hc hn hl => ?_⟩
  · simp only [receiveAsMember, hg, he, Bool.false_eq_true, if_false]
  · have hs : (checkDrift s₁ p.signer).m_subr = s.m_subr :=
      congrArg Untouched.m_subr ((checkDrift_untouched _ _).trans (checkEpoch_untouched hc))
    rcases receiveAsMember_range E now hg he hc hn with h | h <;> rw [h]
    rw [adoptKey_malformed E _ (hs ▸ hl)]

/-- Two key records that `sampleHolder`, holding a key of epoch 1 from `sampleTp 1`, gets from the
authorized identity `sampleTp 3`: one named only up to its epoch, and one named in full, for
epoch 0, with empty content. -/
def truncatedRecord : Pub := ⟨sampleHolder.m_krPrefix ++ [nonNegInt 1], [], sampleTp 3⟩

def emptyRecord : Pub := ⟨krName sampleHolder.m_krPrefix 0 (sampleTp 2) (sampleTp 2) 0, [], sampleTp 3⟩

set_option maxRecDepth 4000 in
theorem malformed_record_outcome_sample :
    sampleHolder.m_keyMaker = false ∧ 0 < kmpri sampleEnv sampleHolder (sampleTp 3) ∧
    (sampleHolder.m_init && sampleHolder.m_subr && !sampleHolder.m_mrPending) = false ∧
    sampleHolder.m_KMepoch = 1 ∧ sampleHolder.m_curKeyCT = 5 ∧
    receiveSGKeyRecords sampleEnv sampleHolder truncatedRecord 12 =
      ({ sampleHolder with m_curKeyCT := 0, m_kmtp := sampleTp 3 }, [.raise]) ∧
    receiveSGKeyRecords sampleEnv sampleHolder emptyRecord 12 =
      ({ sampleHolder with m_KMepoch := 0, m_curKeyCT := 0, m_kmtp := sampleTp 3 }, []) := by
  have hk : sampleHolder.m_keyMaker = false := rfl
  have hpri : 0 < kmpri sampleEnv sampleHolder (sampleTp 3) := by
    rw [show kmpri sampleEnv sampleHolder (sampleTp 3) = 5 from rfl]; decide
  have hg : (sampleHolder.m_init && sampleHolder.m_subr && !sampleHolder.m_mrPending) = false := rfl
  have hkm : sampleHolder.m_kmtp = sampleTp 1 := rfl
  have hep : sampleHolder.m_KMepoch = 1 := rfl
  have hc₁ : checkEpoch sampleHolder 1 = some sampleHolder := by
    rw [show (1 : Nat) = sampleHolder.m_KMepoch.toNat by rw [hep]; rfl]; exact checkEpoch_self _
  have hc₀ := checkEpoch_other (s := sampleHolder) (by rw [hep]; decide) (Nat.zero_le 1)
  have ht := (malformed_record_outcome (E := sampleEnv) (p := truncatedRecord) hk hpri hg 12).2.1 1 _
    rfl hc₁ (by simp [truncatedRecord])
  have hm := (malformed_record_outcome (E := sampleEnv) (p := emptyRecord) hk hpri hg 12).2.2 0 _
    (recordEpoch_krName _ (by decide) _ _ _ _ _) hc₀ (by simp [emptyRecord, krName]) rfl
  refine ⟨hk, hpri, hg, hep, rfl, ?_, ?_⟩
  · rw [ht, checkDrift, if_pos (by rw [hkm]; decide)]; rfl
  · rw [hm, checkDrift, if_pos (by decide)]; rfl

end Malformed

end SgKeyDist.Receiver
