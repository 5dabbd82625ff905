import SgKeyDist.Peer

namespace SgKeyDist.Enrolment

open SgKeyDist.ByteOrder SgKeyDist.Tlv SgKeyDist.Identity SgKeyDist.Members SgKeyDist.KeyRecord
open SgKeyDist.State SgKeyDist.Member SgKeyDist.KeyMaker SgKeyDist.Peer

variable {E : Env} {s r : DistSGKey} {m : ThumbPrint} {x : Bytes} {p : Pub} {log : List Pub}

def logEffect (log : List Pub) (e : Effect) : List Pub :=
  if e.keyCT?.isSome then [] else log ++ e.pub?.toList

/-- The publications sent since the last `newKey`, starting from `log`. -/
def keyLog (log : List Pub) (es : List Effect) : List Pub := es.foldl logEffect log

/-- Effects that hand no key to the application. -/
def Keyless (es : List Effect) : Prop := ∀ e ∈ es, e.keyCT? = none

theorem keyLog_append (log : List Pub) (es fs : List Effect) :
    keyLog log (es ++ fs) = keyLog (keyLog log es) fs := List.foldl_append _ _ _ _

theorem keyLog_of_keyless {es : List Effect} (h : Keyless es) (log : List Pub) :
    keyLog log es = log ++ published es := by
  induction es generalizing log with
  | nil => simp [keyLog, published]
  | cons e es ih =>
    have he : e.keyCT? = none := h e (List.mem_cons_self _ _)
    rw [keyLog, List.foldl_cons, ← keyLog, ih (fun e' h' => h e' (List.mem_cons_of_mem _ h'))]
    cases hp : e.pub? <;> simp [logEffect, he, hp, published, List.filterMap_cons]

theorem keyless_initDone (s : DistSGKey) : Keyless (initDone s).2 := by
  unfold initDone; split <;> simp [Keyless, Effect.keyCT?]

theorem keyless_setup (E : Env) (s : DistSGKey) : Keyless (setup E s).2 := by
  unfold setup
  generalize (if s.m_keyColl = asBytes "pubs" then { s with m_pubdist := true } else s) = s₁
  dsimp only
  split
  · exact keyless_initDone _
  · split <;> simp [Keyless, Effect.keyCT?]

theorem keyless_publishMembershipReq (s : DistSGKey) (now : Nat) :
    Keyless (publishMembershipReq s now).2 := by
  unfold publishMembershipReq; split <;> simp [Keyless, Effect.keyCT?]

theorem keyLog_makeSGKey (E : Env) (s : DistSGKey) (mi : Mint) (log : List Pub) :
    keyLog log (makeSGKey E s mi).2 = published (makeSGKey E s mi).2 := by
  have hloop := keyCT_publishLoop (minted E s mi) mi.pubNow (sealedPairs E (minted E s mi))
    (pubCount (minted E s mi).m_mbrList.size) 0 (minted E s mi).m_mbrList.size 0
  unfold makeSGKey; dsimp only
  split_ifs
  · rw [andThen_snd, List.cons_append, keyLog, List.foldl_cons, ← keyLog,
      keyLog_of_keyless fun e he => (List.mem_append.mp he).elim (hloop e) (keyless_initDone _ e)]
    simp [logEffect, Effect.keyCT?, published, Effect.pub?]
  · rw [keyLog, List.foldl_cons, ← keyLog, keyLog_of_keyless hloop]
    simp [logEffect, Effect.keyCT?, published, Effect.pub?]

/-- `p` is a key record of `s`'s current key, named by a range around `m`, that holds
the group secret key sealed to `x` under `m`'s thumbprint among at most `maxKR` whole
records with distinct thumbprints. -/
def Carries (E : Env) (s : DistSGKey) (m : ThumbPrint) (x : Bytes) (p : Pub) : Prop :=
  ∃ lo hi ts recs, p = ⟨krName s.m_krPrefix s.m_KMepoch.toNat lo hi ts,
      krContent s.m_curKeyCT.toNat s.m_sgPK recs, s.m_tp⟩ ∧
    lo ≤ m ∧ m ≤ hi ∧ (m, E.sodium.boxSeal s.m_sgSK x) ∈ recs ∧ (recs.map Prod.fst).Nodup ∧
    recs.length ≤ maxKR ∧ ∀ r ∈ recs, r.2.length = encSGKeySz

section Sorted

variable {l : List (ThumbPrint × Bytes)} {a d : ThumbPrint × Bytes}

theorem head_le_of_sorted (hs : l.Pairwise (fun a b => a.1 < b.1)) (ha : a ∈ l) :
    (l.head?.getD d).1 ≤ a.1 := by
  cases l with
  | nil => cases ha
  | cons b l =>
    rcases List.mem_cons.mp ha with rfl | ha
    · exact le_refl _
    · exact le_of_lt (List.rel_of_pairwise_cons hs ha)

theorem le_last_of_sorted (hs : l.Pairwise (fun a b => a.1 < b.1)) (ha : a ∈ l) :
    a.1 ≤ (l.getLast?.getD d).1 := by
  induction l with
  | nil => cases ha
  | cons b l ih =>
    cases l with
    | nil => rw [List.mem_singleton.mp ha]; exact le_refl _
    | cons c l =>
      rw [List.getLast?_cons_cons]
      rcases List.mem_cons.mp ha with rfl | ha
      · have hl : ((c :: l).getLast?.getD d) ∈ c :: l := by
          rw [List.getLast?_eq_getLast (c :: l) (List.cons_ne_nil _ _)]
          exact List.getLast_mem _
        exact le_of_lt (List.rel_of_pairwise_cons hs hl)
      · exact ih hs.of_cons ha

end Sorted

theorem carries_makeSGKey (E : Env) (s : DistSGKey) (mi : Mint)
    (hm : (m, x) ∈ (makeSGKey E s mi).1.m_mbrList.entries) :
    ∃ p ∈ published (makeSGKey E s mi).2, Carries E (makeSGKey E s mi).1 m x p := by
  rw [makeSGKey_mbrList] at hm
  have hn : (minted E s mi).m_mbrList.size ≠ 0 := fun h0 =>
    List.ne_nil_of_mem hm (List.eq_nil_of_length_eq_zero h0)
  have hsorted : (sealedPairs E (minted E s mi)).Pairwise (fun a b => a.1 < b.1) :=
    List.pairwise_map.mpr (minted E s mi).m_mbrList.sorted
  have hlen : (sealedPairs E (minted E s mi)).length = (minted E s mi).m_mbrList.size :=
    List.length_map _ _
  obtain ⟨hpos, -, hfit⟩ := pubCount_spec (Nat.pos_of_ne_zero hn)
  have hpair : (m, E.sodium.boxSeal mi.kp.sk x) ∈ sealedPairs E (minted E s mi) :=
    List.mem_map_of_mem (fun kv => (kv.1, E.sodium.boxSeal mi.kp.sk kv.2)) hm
  rw [← flatten_chunks _ (sealedPairs E (minted E s mi)) hpos] at hpair
  obtain ⟨c, hc, hmc⟩ := List.mem_flatten.mp hpair
  have hsub := sublist_of_mem_chunks hc
  rw [makeSGKey_published, if_neg hn, makeSGKey_state]
  refine ⟨_, List.mem_map_of_mem _ hc, _, _, _, c, rfl, head_le_of_sorted (hsorted.sublist hsub) hmc,
    le_last_of_sorted (hsorted.sublist hsub) hmc, hmc, ?_, length_le_of_mem_chunks (hlen ▸ hfit) hc,
    fun r hr => ?_⟩
  · have hkeys : (sealedPairs E (minted E s mi)).map Prod.fst = (minted E s mi).m_mbrList.entries.map Prod.fst := by
      simp [sealedPairs]
    exact (hkeys ▸ MbrList.keys_nodup _).sublist (hsub.map _)
  · obtain ⟨y, -, hy⟩ := mem_sealedPairs (hsub.subset hr)
    rw [hy, E.sodium.boxSeal_length, show (minted E s mi).m_sgSK = mi.kp.sk from rfl, mi.kp.sk_size,
      encSGKeySz, Nat.add_comm]

/-- A member `r` ready to take a record of key-maker `s`: a subscriber with thumbprint
`m` that is not the key-maker, is past the init gate, shares the key-maker's prefix and
epoch, holds an older key than `s`'s once the drift check has run, grants `s` key-maker
priority, holds the conversion of `m`'s certified key, and opens what is sealed to it. -/
structure Ready (E : Env) (s r : DistSGKey) (m : ThumbPrint) : Prop where
  tp_eq : r.m_tp = m
  subr : r.m_subr = true
  member : r.m_keyMaker = false
  gate : (r.m_init && r.m_subr && !r.m_mrPending) = false
  krPrefix_eq : r.m_krPrefix = s.m_krPrefix
  epoch_eq : r.m_KMepoch = s.m_KMepoch
  older : (checkDrift r s.m_tp).m_curKeyCT.toNat < s.m_curKeyCT.toNat
  trusted : 0 < kmpri E r s.m_tp
  decKey : E.sodium.pkToCurve25519 (E.certs.content m) = some r.m_pDecKey
  opens : E.sodium.boxSealOpen (E.sodium.boxSeal s.m_sgSK r.m_pDecKey) r.m_pDecKey r.m_sDecKey =
    some s.m_sgSK

theorem outOfRange_tpId (s : DistSGKey) {lo hi : ThumbPrint} (hlo : lo ≤ s.m_tp) (hhi : s.m_tp ≤ hi) :
    outOfRange s (tpId lo) (tpId hi) = false := by
  simp only [outOfRange, tpId_length, less_eq_lexLt]
  rw [show s.m_tp.bytes.take 4 = tpId s.m_tp from rfl, tpId_mono hlo, tpId_mono hhi]
  simp

theorem find?_record {recs : List (ThumbPrint × Bytes)} (hnd : (recs.map Prod.fst).Nodup)
    {c : Bytes} (hm : (m, c) ∈ recs) :
    (recs.map fun r => (r.1.bytes, r.2)).find? (fun r => r.1 == m.bytes) = some (m.bytes, c) := by
  induction recs with
  | nil => cases hm
  | cons r recs ih =>
    rw [List.map_cons, List.nodup_cons] at hnd
    rw [List.map_cons, List.find?_cons]
    rcases List.mem_cons.mp hm with rfl | hm
    · simp
    · have hne : (r.1.bytes == m.bytes) = false := by
        simpa using fun h => hnd.1 (by rw [ThumbPrint.ext h]; exact List.mem_map_of_mem Prod.fst hm)
      rw [hne]; exact ih hnd.2 hm

theorem adoptKey_krContent (E : Env) (r : DistSGKey) {ct : Nat} {pk c sk : Bytes}
    {recs : List (ThumbPrint × Bytes)} (hct : ct < 2 ^ 64) (hnew : r.m_curKeyCT.toNat < ct)
    (hpk : pk.length < 2 ^ 64) (hsub : r.m_subr = true) (hlen : recs.length ≤ maxKR)
    (hl : ∀ x ∈ recs, x.2.length = encSGKeySz) (hnd : (recs.map Prod.fst).Nodup)
    (hm : (r.m_tp, c) ∈ recs) (hopen : E.sodium.boxSealOpen c r.m_pDecKey r.m_sDecKey = some sk) :
    (adoptKey E r (krContent ct pk recs)).1.m_curKeyCT = UInt64.ofNat ct ∧
      Effect.newKey pk sk (UInt64.ofNat ct) ∈ (adoptKey E r (krContent ct pk recs)).2 := by
  have h130 := nextBlk_tlv (by decide : 130 < 2 ^ 64) (flatMap_egkrBytes_lt hlen hl) []
  rw [List.append_nil] at h130
  unfold adoptKey
  simp only [readCT_krContent hct,if_neg (Nat.not_le.mpr hnew), nextBlk_tlv (by decide : 150 < 2 ^ 64) hpk, hsub,
    Bool.not_true, Bool.false_eq_true, if_false, h130, toSpanEgkr_records recs hl,
    find?_record hnd hm, hopen]
  simp [andThen, receivedGK, initDone_fst]

theorem receiveSGKeyRecords_carried (hc : Carries E s m r.m_pDecKey p) (hr : Ready E s r m)
    (hpk : s.m_sgPK.length < 2 ^ 64) (now : Nat) :
    (receiveSGKeyRecords E r p now).1.m_curKeyCT = s.m_curKeyCT ∧
      Effect.newKey s.m_sgPK s.m_sgSK s.m_curKeyCT ∈ (receiveSGKeyRecords E r p now).2 := by
  obtain ⟨lo, hi, ts, recs, rfl, hlo, hhi, hmem, hnd, hlen, hl⟩ := hc
  have hep := recordEpoch_krName r (lt_trans s.m_KMepoch.toNat_lt_size (by decide)) lo hi ts
    (krContent s.m_curKeyCT.toNat s.m_sgPK recs) s.m_tp
  rw [hr.krPrefix_eq] at hep
  obtain ⟨h₁, h₂⟩ := krName_range s.m_krPrefix s.m_KMepoch.toNat lo hi ts
  have hu := checkDrift_untouched r s.m_tp
  have htp : (checkDrift r s.m_tp).m_tp = m := (congrArg Untouched.m_tp hu).trans hr.tp_eq
  have hadopt := adoptKey_krContent E (checkDrift r s.m_tp) s.m_curKeyCT.toNat_lt_size hr.older hpk
    ((congrArg Untouched.m_subr hu).trans hr.subr) hlen hl hnd (htp ▸ hmem)
    (by rw [show (checkDrift r s.m_tp).m_pDecKey = r.m_pDecKey from congrArg Untouched.m_pDecKey hu,
      show (checkDrift r s.m_tp).m_sDecKey = r.m_sDecKey from congrArg Untouched.m_sDecKey hu]
        exact hr.opens)
  rw [uint64_ofNat_toNat] at hadopt
  have hrange : outOfRange (checkDrift r s.m_tp) (tpId lo) (tpId hi) = false :=
    outOfRange_tpId _ (htp ▸ hlo) (htp ▸ hhi)
  unfold receiveSGKeyRecords receiveAsMember; dsimp only
  rw [if_neg (Int.not_le.mpr hr.trusted), if_neg (by rw [hr.member]; decide),
    if_neg (by rw [hr.gate]; decide), hep]
  simp only [checkEpoch, hr.epoch_eq, ne_eq, not_true_eq_false, if_false, hr.krPrefix_eq, h₁, h₂,
    hrange]
  exact hadopt

/-- Every member of a key-maker that holds a key has been sent, since the key was minted,
a record that carries the key to it. -/
def Enrolled (E : Env) (s : DistSGKey) (log : List Pub) : Prop :=
  s.m_keyMaker → s.m_curKeyCT ≠ 0 → ∀ m x, (m, x) ∈ s.m_mbrList.entries → ∃ p ∈ log, Carries E s m x p

theorem Enrolled.mono {log' : List Pub} (h : Enrolled E s log) (hsub : log ⊆ log') : Enrolled E s log' :=
  fun hk hct m x hm => let ⟨p, hp, hc⟩ := h hk hct m x hm; ⟨p, hsub hp, hc⟩

theorem enrolled_sgkeyTimeout (E : Env) (mi : Mint) (hk : s.m_keyMaker = true) (log : List Pub) :
    Enrolled E (sgkeyTimeout E s mi).1 (keyLog log (sgkeyTimeout E s mi).2) := by
  simp only [sgkeyTimeout, hk, Bool.not_true, Bool.false_eq_true, if_false, andThen_fst, andThen_snd,
    keyLog_append, keyLog_makeSGKey]
  rw [keyLog_of_keyless (by simp [Keyless, Effect.keyCT?]),
    show published [Effect.oneTime _ .sgkeyTimeout] = [] from rfl, List.append_nil]
  exact fun _ _ m x hm => carries_makeSGKey E s mi hm

theorem enrolled_addGroupMem (hw : Wf E s) (h : Enrolled E s log) (q : Pub) (now : Nat) :
    Enrolled E (addGroupMem E s q now).1 (keyLog log (addGroupMem E s q now).2) := by
  rcases addGroupMem_cases E s q now with h' | h' | ⟨x, -, hk, -, ⟨h0, h'⟩ | ⟨-, h'⟩⟩ <;> rw [h']
  · exact h
  · exact fun hk hct m y hm => h hk hct m y (MbrList.mem_erase.mp hm).1
  · exact fun _ hct => absurd h0 hct
  rw [andThen_fst, initDone_fst, andThen_snd, keyLog_of_keyless fun e he =>
    (List.mem_append.mp he).elim (fun he => by simp [List.mem_singleton.mp he, Effect.keyCT?])
      (keyless_initDone _ e), published_append, published_initDone, List.append_nil]
  intro _ hct m y hm
  rcases MbrList.mem_insert hm with he | hm
  · cases he
    refine ⟨admitPub E s q.signer x now, by simp [published, Effect.pub?], q.signer, q.signer, now,
      [(q.signer, E.sodium.boxSeal s.m_sgSK x)], rfl, le_refl _, le_refl _,
      List.mem_singleton_self _, by simp, by simp [maxKR_eq], ?_⟩
    simp [E.sodium.boxSeal_length, (hw.sized hk).2, encSGKeySz, Nat.add_comm]
  · obtain ⟨p, hp, hc⟩ := h hk hct m y hm
    exact ⟨p, List.mem_append_left _ hp, hc⟩

theorem enrolled_step (hw : Wf E s) (h : Enrolled E s log) (ev : Event) :
    Enrolled E (step E s ev).1 (keyLog log (step E s ev).2) := by
  cases ev with
  | setup =>
    show Enrolled E (setup E s).1 (keyLog log (setup E s).2)
    rw [keyLog_of_keyless (keyless_setup E s) log, published_setup, List.append_nil]
    rcases setup_fst E s hw.pubdist with h' | h' <;> rw [h'] <;> exact h
  | electionDone elected epoch mi =>
    cases elected
    · exact fun hk => nomatch hk
    · simp only [step, electionDone, Bool.not_true, Bool.false_eq_true, if_false, andThen_fst,
        andThen_snd, keyLog_append]
      exact enrolled_sgkeyTimeout E mi rfl _
  | receiveSGKeyRecords q now =>
    by_cases hk : (receiveSGKeyRecords E s q now).1.m_keyMaker
    · show Enrolled E (receiveSGKeyRecords E s q now).1 (keyLog log (receiveSGKeyRecords E s q now).2)
      rw [receiveSGKeyRecords_keyMaker hk]; exact h
    · exact fun hk' => absurd hk' hk
  | addGroupMem q now => exact enrolled_addGroupMem hw h q now
  | sgkeyTimeout mi =>
    by_cases hk : s.m_keyMaker
    · exact enrolled_sgkeyTimeout E mi hk log
    · simp only [step, sgkeyTimeout, hk, Bool.not_false, if_true]; exact h
  | publishMembershipReq now =>
    show Enrolled E (publishMembershipReq s now).1 (keyLog log (publishMembershipReq s now).2)
    rw [keyLog_of_keyless (keyless_publishMembershipReq s now)]
    unfold publishMembershipReq; split <;> exact h.mono (List.subset_append_left _ _)
  | delivered ok =>
    cases ok
    · exact h
    · show Enrolled E (initDone s).1 (keyLog log (initDone s).2)
      rw [initDone_fst, keyLog_of_keyless (keyless_initDone s)]
      exact h.mono (List.subset_append_left _ _)
  | removeGroupMem tp reKey mi =>
    cases reKey
    · exact fun hk hct m y hm => h hk hct m y (MbrList.mem_erase.mp hm).1
    · show Enrolled E (makeSGKey E _ mi).1 (keyLog log (makeSGKey E _ mi).2)
      rw [keyLog_makeSGKey]
      exact fun _ _ m y hm => carries_makeSGKey E _ mi hm

theorem enrolled_run (h₀ : Reachable E s) (hk : s.m_keyMaker = false) (evs : List Event) :
    Enrolled E (run E s evs).1 (keyLog [] (run E s evs).2) := by
  induction evs using List.reverseRecOn with
  | nil => exact fun hk' => absurd hk' (by simp [run, hk])
  | append_singleton evs ev ih =>
    simp only [run_append, run, andThen_fst, andThen_snd, List.append_nil, keyLog_append]
    exact enrolled_step (h₀.run evs).wf ih ev

/-- Every enrolled member can obtain the current key. Run a reachable peer that is not the
key-maker until it is the key-maker and holds a key: each member `m` of its table has been
sent, since that key was minted, a key record that carries the key to `m`, and a ready
member with thumbprint `m` adopts the key from that record. -/
theorem member_gets_current_key {s₀ s : DistSGKey} {effs : List Effect} (h₀ : Reachable E s₀)
    (hk₀ : s₀.m_keyMaker = false) (evs : List Event) (hrun : run E s₀ evs = (s, effs))
    (hk : s.m_keyMaker) (hct : s.m_curKeyCT ≠ 0) (hm : (m, x) ∈ s.m_mbrList.entries) :
    ∃ p ∈ keyLog [] effs, Carries E s m x p ∧ ∀ r now, Ready E s r m →
      (receiveSGKeyRecords E r p now).1.m_curKeyCT = s.m_curKeyCT ∧
        Effect.newKey s.m_sgPK s.m_sgSK s.m_curKeyCT ∈ (receiveSGKeyRecords E r p now).2 := by
  have hw : Wf E s := by simpa only [hrun] using (h₀.run evs).wf
  have he := enrolled_run h₀ hk₀ evs
  rw [hrun] at he
  obtain ⟨p, hp, hc⟩ := he hk hct m x hm
  refine ⟨p, hp, hc, fun r now hr => ?_⟩
  obtain rfl : x = r.m_pDecKey := Option.some.inj ((hw.admitted m x hm).2.2.symm.trans hr.decKey)
  exact receiveSGKeyRecords_carried hc hr (by rw [(hw.sized hk).1]; decide) now

def sampleEnrolled : DistSGKey × List Effect :=
  run sampleEnv (samplePeer 1) [.electionDone true 1 (sampleMint 5), .addGroupMem (mrPub (samplePeer 2) 6) 7]

def sampleReceiver : DistSGKey :=
  (run sampleEnv (samplePeer 2) [.electionDone false 1 (sampleMint 5), .publishMembershipReq 6]).1

theorem member_gets_current_key_sample :
    Reachable sampleEnv (samplePeer 1) ∧ (samplePeer 1).m_keyMaker = false ∧
    sampleEnrolled.1.m_keyMaker = true ∧ sampleEnrolled.1.m_curKeyCT ≠ 0 ∧
    (sampleTp 2, (sampleTp 2).bytes) ∈ sampleEnrolled.1.m_mbrList.entries ∧
    Ready sampleEnv sampleEnrolled.1 sampleReceiver (sampleTp 2) ∧
    ∃ p ∈ keyLog [] sampleEnrolled.2, Carries sampleEnv sampleEnrolled.1 (sampleTp 2) (sampleTp 2).bytes p ∧
      ∀ r now, Ready sampleEnv sampleEnrolled.1 r (sampleTp 2) →
        (receiveSGKeyRecords sampleEnv r p now).1.m_curKeyCT = sampleEnrolled.1.m_curKeyCT ∧
        Effect.newKey sampleEnrolled.1.m_sgPK sampleEnrolled.1.m_sgSK sampleEnrolled.1.m_curKeyCT ∈
          (receiveSGKeyRecords sampleEnv r p now).2 := by
  have hm : (sampleTp 2, (sampleTp 2).bytes) ∈ sampleEnrolled.1.m_mbrList.entries := by
    rw [show sampleEnrolled.1.m_mbrList.entries = [(sampleTp 2, (sampleTp 2).bytes)] from rfl]
    exact List.mem_singleton_self _
  have hct : sampleEnrolled.1.m_curKeyCT ≠ 0 := by
    rw [show sampleEnrolled.1.m_curKeyCT = 5 from rfl]; decide
  have hready : Ready sampleEnv sampleEnrolled.1 sampleReceiver (sampleTp 2) :=
    ⟨rfl, rfl, rfl, rfl, rfl, rfl, by rw [show (checkDrift sampleReceiver sampleEnrolled.1.m_tp).m_curKeyCT.toNat = 0 from rfl,
      show sampleEnrolled.1.m_curKeyCT.toNat = 5 from rfl]; decide,
      by rw [show kmpri sampleEnv sampleReceiver sampleEnrolled.1.m_tp = 5 from rfl]; decide, rfl, rfl⟩
  have h₀ : Reachable sampleEnv (samplePeer 1) := .construct _ _ _ _ _ _
  exact ⟨h₀, rfl, rfl, hct, hm, hready, member_gets_current_key h₀ rfl _ rfl rfl hct hm⟩

end SgKeyDist.Enrolment
