import SgKeyDist.Receiver

namespace SgKeyDist.Rekey

open SgKeyDist.ByteOrder SgKeyDist.Tlv SgKeyDist.Identity SgKeyDist.Members SgKeyDist.KeyRecord
open SgKeyDist.State SgKeyDist.Member SgKeyDist.KeyMaker SgKeyDist.Peer SgKeyDist.Enrolment
open SgKeyDist.Receiver

section Publications

variable {E : Env} {s : DistSGKey}

theorem pubCount_pos (n : Nat) : 0 < pubCount n := by
  unfold pubCount; rw [maxKR_eq]; split_ifs <;> omega

theorem rekey_publication_count (E : Env) (s : DistSGKey) (mi : Mint) :
    (published (makeSGKey E s mi).2).length = pubCount (minted E s mi).m_mbrList.size := by
  rw [makeSGKey_published]
  split_ifs with h
  · rw [h]; rfl
  · rw [List.length_map, length_chunks]

theorem pubCount_ceil {n : Nat} (hn : 0 < n) : pubCount n = (n + maxKR - 1) / maxKR := by
  unfold pubCount; rw [maxKR_eq]; split_ifs <;> omega

theorem mem_sweep_iff (E : Env) (mi : Mint) (m : MbrList) (e : ThumbPrint × Bytes) :
    e ∈ (sweep E mi m).entries ↔
      e ∈ m.entries ∧ mi.contains e.1 = true ∧ mi.sweepNow < E.certs.validUntil e.1 := by
  rw [sweep, MbrList.mem_eraseIf]
  cases mi.contains e.1 <;> simp

theorem rangePub_name (s : DistSGKey) (ts : Nat) {c : List (ThumbPrint × Bytes)} (hc : c ≠ []) :
    (rangePub s ts c).name = krName s.m_krPrefix s.m_KMepoch.toNat (c.head hc).1 (c.getLast hc).1 ts := by
  rw [rangePub, List.head?_eq_head hc, List.getLast?_eq_getLast c hc]
  rfl

theorem makeSGKey_empty (E : Env) (s : DistSGKey) (mi : Mint) (h : (minted E s mi).m_mbrList.size = 0) :
    (makeSGKey E s mi).2 = [.newKey mi.kp.pk mi.kp.sk (mi.creationTime),
      .publishConfirmed (anchorPub (minted E s mi) mi.pubNow)] := by
  have he : sealedPairs E (minted E s mi) = [] := by
    rw [sealedPairs, List.map_eq_nil_iff]; exact List.eq_nil_of_length_eq_zero h
  unfold makeSGKey
  simp only [h, he, ne_eq, not_true_eq_false, Bool.and_false, decide_False, if_false, Bool.false_eq_true]
  rw [show pubCount 0 = 1 from rfl, publishLoop, if_pos h]
  rfl

/-- `makeSGKey` partitions the swept table exactly. The table `T` it keeps holds the members
whose certificate is held and still valid. An empty `T` gives the anchor alone, with the
delivery callback. Otherwise the loop runs `loopPub` for each of its `pubCount n` iterations,
reading `pubPairs` only in bounds, and its publications are one per chunk, `n / maxKR` rounded
up of them. Their records, in order, are `T`'s members sealed in ascending thumbprint order;
each chunk holds 1 to `maxKR` records and is named by its first and last. -/
theorem makeSGKey_partitions_table (E : Env) (s : DistSGKey) (mi : Mint) :
    (∀ e, e ∈ (minted E s mi).m_mbrList.entries ↔
      e ∈ s.m_mbrList.entries ∧ mi.contains e.1 = true ∧ mi.sweepNow < E.certs.validUntil e.1) ∧
    ((minted E s mi).m_mbrList.size = 0 →
      (makeSGKey E s mi).2 = [.newKey mi.kp.pk mi.kp.sk (mi.creationTime),
        .publishConfirmed (anchorPub (minted E s mi) mi.pubNow)]) ∧
    (0 < (minted E s mi).m_mbrList.size →
      publishLoop (minted E s mi) mi.pubNow (sealedPairs E (minted E s mi)) 0
          (pubCount (minted E s mi).m_mbrList.size) (minted E s mi).m_mbrList.size 0 =
        (List.range (pubCount (minted E s mi).m_mbrList.size)).map (loopPub (minted E s mi) mi.pubNow
          (sealedPairs E (minted E s mi)) (pubCount (minted E s mi).m_mbrList.size)
          (minted E s mi).m_mbrList.size) ∧
      (∀ i < pubCount (minted E s mi).m_mbrList.size,
        0 < loopR (pubCount (minted E s mi).m_mbrList.size) (minted E s mi).m_mbrList.size i ∧
        i * maxKR + loopR (pubCount (minted E s mi).m_mbrList.size) (minted E s mi).m_mbrList.size i ≤
          (sealedPairs E (minted E s mi)).length) ∧
      ∃ cs : List (List (ThumbPrint × Bytes)),
        published (makeSGKey E s mi).2 = cs.map (rangePub (minted E s mi) mi.pubNow) ∧
        cs.length = ((minted E s mi).m_mbrList.size + maxKR - 1) / maxKR ∧
        cs.flatten = (minted E s mi).m_mbrList.entries.map (fun kv => (kv.1, E.sodium.boxSeal mi.kp.sk kv.2)) ∧
        (cs.flatten.map Prod.fst).Pairwise (· < ·) ∧
        ∀ c ∈ cs, ∃ hc : c ≠ [], c.length ≤ maxKR ∧
          (rangePub (minted E s mi) mi.pubNow c).name = krName s.m_krPrefix s.m_KMepoch.toNat
            (c.head hc).1 (c.getLast hc).1 mi.pubNow) := by
  refine ⟨mem_sweep_iff E mi s.m_mbrList, makeSGKey_empty E s mi, fun hn => ?_⟩
  have hlen : (sealedPairs E (minted E s mi)).length = (minted E s mi).m_mbrList.size :=
    List.length_map _ _
  obtain ⟨hp, hlo, hhi⟩ := pubCount_spec hn
  refine ⟨publishLoop_range _ _ _ hn.ne' _ _, fun i hi => by rw [hlen]; exact loopR_bounds hn hi,
    chunks (pubCount (minted E s mi).m_mbrList.size) (sealedPairs E (minted E s mi)), ?_, ?_, ?_, ?_, ?_⟩
  · rw [makeSGKey_published, if_neg hn.ne']
  · rw [length_chunks, pubCount_ceil hn]
  · exact flatten_chunks _ _ hp
  · rw [flatten_chunks _ _ hp, sealedPairs, List.map_map]
    exact List.pairwise_map.mpr (minted E s mi).m_mbrList.sorted
  · intro c hc
    refine ⟨ne_nil_of_mem_chunks (hlen ▸ hlo) hc, length_le_of_mem_chunks (hlen ▸ hhi) hc, ?_⟩
    exact rangePub_name _ _ _

theorem keyCTs_makeSGKey (E : Env) (s : DistSGKey) (mi : Mint) :
    (makeSGKey E s mi).2.filterMap Effect.keyCT? = [mi.creationTime] := by
  have hloop := keyCT_publishLoop (minted E s mi) mi.pubNow (sealedPairs E (minted E s mi))
    (pubCount (minted E s mi).m_mbrList.size) 0 (minted E s mi).m_mbrList.size 0
  unfold makeSGKey; dsimp only
  split_ifs
  · rw [andThen_snd, List.cons_append, List.filterMap_cons, List.filterMap_eq_nil_iff.mpr
      fun e he => (List.mem_append.mp he).elim (hloop e) (keyless_initDone _ e)]
    rfl
  · rw [List.filterMap_cons, List.filterMap_eq_nil_iff.mpr hloop]
    rfl

theorem removeGroupMem_reKey (E : Env) (s : DistSGKey) (tp : ThumbPrint) (mi : Mint) :
    step E s (.removeGroupMem tp true mi) = makeSGKey E { s with m_mbrList := s.m_mbrList.erase tp } mi :=
  rfl

/-- `removeGroupMem` with a rekey mints and publishes whatever the role: a peer that is not
the key-maker, and stays one, hands a fresh key to the application and publishes key records
of it. -/
theorem removeGroupMem_rekeys_without_role (hk : s.m_keyMaker = false) (tp : ThumbPrint) (mi : Mint) :
    (step E s (.removeGroupMem tp true mi)).1.m_keyMaker = false ∧
      mi.creationTime ∈ (step E s (.removeGroupMem tp true mi)).2.filterMap Effect.keyCT? ∧
      published (step E s (.removeGroupMem tp true mi)).2 ≠ [] := by
  rw [removeGroupMem_reKey]
  refine ⟨by rw [makeSGKey_state]; exact hk, by rw [keyCTs_makeSGKey]; exact List.mem_singleton_self _,
    fun h => ?_⟩
  have := rekey_publication_count E { s with m_mbrList := s.m_mbrList.erase tp } mi
  rw [h, List.length_nil] at this
  exact (pubCount_pos _).ne this

theorem removeGroupMem_rekeys_without_role_sample :
    Reachable sampleEnv (samplePeer 1) ∧ (samplePeer 1).m_keyMaker = false ∧
    (step sampleEnv (samplePeer 1) (.removeGroupMem (sampleTp 2) true (sampleMint 9))).1.m_keyMaker = false ∧
    (sampleMint 9).creationTime ∈
      (step sampleEnv (samplePeer 1) (.removeGroupMem (sampleTp 2) true (sampleMint 9))).2.filterMap
        Effect.keyCT? ∧
    published (step sampleEnv (samplePeer 1) (.removeGroupMem (sampleTp 2) true (sampleMint 9))).2 ≠ [] := by
  have hk : (samplePeer 1).m_keyMaker = false := rfl
  exact ⟨.construct _ _ _ _ _ _, hk, removeGroupMem_rekeys_without_role hk (sampleTp 2) (sampleMint 9)⟩

theorem publisher_cases (ev : Event) {p : Pub} (hp : p ∈ published (step E s ev).2) :
    (∃ now, p = mrPub s now) ∨ s.m_keyMaker = true ∨ (∃ epoch mi, ev = .electionDone true epoch mi) ∨
      ∃ tp mi, ev = .removeGroupMem tp true mi := by
  cases ev with
  | setup => simp [step, published_setup] at hp
  | electionDone elected epoch mi =>
    cases elected
    · simp [step, electionDone, published, Effect.pub?] at hp
    · exact .inr (.inr (.inl ⟨epoch, mi, rfl⟩))
  | receiveSGKeyRecords q now =>
    exact .inl ⟨now, List.mem_singleton.mp (published_receiveSGKeyRecords E s q now hp)⟩
  | addGroupMem q now =>
    rcases addGroupMem_cases E s q now with h | h | ⟨x, -, hk, -⟩
    · simp [step, h, published] at hp
    · simp [step, h, published] at hp
    · exact .inr (.inl hk)
  | sgkeyTimeout mi =>
    cases hk : s.m_keyMaker
    · simp [step, sgkeyTimeout, hk, published] at hp
    · exact .inr (.inl rfl)
  | publishMembershipReq now =>
    exact .inl ⟨now, List.mem_singleton.mp (published_publishMembershipReq s now hp)⟩
  | delivered ok =>
    cases ok
    · simp [step, published] at hp
    · simp [step, published_initDone] at hp
  | removeGroupMem tp reKey mi =>
    cases reKey
    · simp [step, removeGroupMem, published] at hp
    · exact .inr (.inr (.inr ⟨tp, mi, rfl⟩))

theorem keyMaker_step (hk : s.m_keyMaker = false) (ev : Event)
    (hev : ∀ epoch mi, ev ≠ .electionDone true epoch mi) : (step E s ev).1.m_keyMaker = false := by
  cases ev with
  | setup =>
    unfold step setup; dsimp only
    split_ifs <;> first | exact hk | rw [initDone_fst]; exact hk
  | electionDone elected epoch mi =>
    cases elected
    · rfl
    · exact absurd rfl (hev epoch mi)
  | receiveSGKeyRecords q now =>
    exact (congrArg Untouched.m_keyMaker (receiveSGKeyRecords_untouched_member hk E q now)).trans hk
  | addGroupMem q now => simp [step, addGroupMem, hk]
  | sgkeyTimeout mi => simp [step, sgkeyTimeout, hk]
  | publishMembershipReq now => exact (congrArg Untouched.m_keyMaker (publishMembershipReq_untouched s now)).trans hk
  | delivered ok => cases ok <;> simp [step, initDone_fst, hk]
  | removeGroupMem tp reKey mi =>
    cases reKey
    · exact hk
    · rw [removeGroupMem_reKey, makeSGKey_state]; exact hk

theorem mrPub_of_untouched {s' : DistSGKey}
    (hu : untouched s' = untouched s ∨ untouched s' = { untouched s with m_keyMaker := false }) :
    mrPub s' = mrPub s := by
  funext now
  rcases hu with hu | hu <;>
    simp only [mrPub, show s'.m_mrPrefix = s.m_mrPrefix from congrArg Untouched.m_mrPrefix hu,
      show s'.m_tp = s.m_tp from congrArg Untouched.m_tp hu]

theorem mrPub_step (E : Env) (s : DistSGKey) (ev : Event) : mrPub (step E s ev).1 = mrPub s := by
  funext now
  cases ev with
  | setup =>
    unfold step setup; dsimp only
    split_ifs <;> first | rfl | (rw [initDone_fst]; rfl)
  | electionDone elected epoch mi =>
    cases elected
    · rfl
    · simp only [step, electionDone, Bool.not_true, Bool.false_eq_true, if_false, andThen_fst,
        sgkeyTimeout_fst, if_true, makeSGKey_state]
      rfl
  | receiveSGKeyRecords q now' =>
    exact congrFun (mrPub_of_untouched (receiveSGKeyRecords_untouched E s q now')) now
  | addGroupMem q now' =>
    rcases addGroupMem_cases E s q now' with h | h | ⟨x, -, -, -, ⟨-, h⟩ | ⟨-, h⟩⟩ <;>
      simp only [step, h, andThen_fst, initDone_fst] <;> rfl
  | sgkeyTimeout mi =>
    simp only [step, sgkeyTimeout_fst]
    split_ifs
    · rw [makeSGKey_state]; rfl
    · rfl
  | publishMembershipReq now' =>
    exact congrFun (mrPub_of_untouched (.inl (publishMembershipReq_untouched s now'))) now
  | delivered ok =>
    cases ok
    · rfl
    · simp only [step, if_true, initDone_fst]; rfl
  | removeGroupMem tp reKey mi =>
    cases reKey
    · rfl
    · rw [removeGroupMem_reKey, makeSGKey_state]; rfl

/-- A peer that is not the key-maker, over a run in which it wins no election and calls
`removeGroupMem` with no rekey, publishes nothing but its own membership requests. -/
theorem only_requests_without_role (hk : s.m_keyMaker = false) (evs : List Event)
    (hev : ∀ ev ∈ evs, (∀ epoch mi, ev ≠ .electionDone true epoch mi) ∧
      ∀ tp mi, ev ≠ .removeGroupMem tp true mi) :
    ∀ p ∈ published (run E s evs).2, ∃ now, p = mrPub s now := by
  induction evs generalizing s with
  | nil => simp [run, published]
  | cons ev evs ih =>
    obtain ⟨he, hr⟩ := hev ev (List.mem_cons_self _ _)
    intro p hp
    simp only [run, andThen_snd, published_append, List.mem_append] at hp
    rcases hp with hp | hp
    · rcases publisher_cases ev hp with h | h | ⟨epoch, mi, h⟩ | ⟨tp, mi, h⟩
      · exact h
      · rw [hk] at h; cases h
      · exact absurd h (he epoch mi)
      · exact absurd h (hr tp mi)
    · rw [← mrPub_step E s ev]
      exact ih (keyMaker_step hk ev he) (fun ev' h' => hev ev' (List.mem_cons_of_mem _ h')) p hp

theorem only_requests_without_role_sample :
    (samplePeer 2).m_keyMaker = false ∧
    (∀ ev ∈ [Event.setup, .electionDone false 1 (sampleMint 5), .publishMembershipReq 6],
      (∀ epoch mi, ev ≠ .electionDone true epoch mi) ∧ ∀ tp mi, ev ≠ .removeGroupMem tp true mi) ∧
    ∀ p ∈ published (run sampleEnv (samplePeer 2)
      [.setup, .electionDone false 1 (sampleMint 5), .publishMembershipReq 6]).2,
      ∃ now, p = mrPub (samplePeer 2) now := by
  have hk : (samplePeer 2).m_keyMaker = false := rfl
  have hev : ∀ ev ∈ [Event.setup, .electionDone false 1 (sampleMint 5), .publishMembershipReq 6],
      (∀ epoch mi, ev ≠ .electionDone true epoch mi) ∧ ∀ tp mi, ev ≠ .removeGroupMem tp true mi := by
    simp
  exact ⟨hk, hev, only_requests_without_role hk _ hev⟩

end Publications

section Cap

variable {E : Env} {s : DistSGKey} {q : Pub} {x : Bytes}

theorem minted_mbrList (E : Env) (s : DistSGKey) (mi : Mint) :
    (minted E s mi).m_mbrList = sweep E mi s.m_mbrList := rfl

theorem size_sweep_of_valid (E : Env) (mi : Mint) {m : MbrList}
    (h : ∀ e ∈ m.entries, mi.contains e.1 = true ∧ mi.sweepNow < E.certs.validUntil e.1) :
    (sweep E mi m).size = m.size := by
  show (m.entries.filter _).length = m.entries.length
  rw [List.filter_eq_self.mpr fun e he => by simp [(h e he).1, Nat.not_le.mpr (h e he).2]]

theorem rekey_publications_le (E : Env) (s : DistSGKey) (mi : Mint) (hcap : s.m_mbrList.size ≤ 80 * maxKR) :
    (published (makeSGKey E s mi).2).length ≤ 80 := by
  have hsw : (minted E s mi).m_mbrList.size ≤ s.m_mbrList.size := MbrList.size_eraseIf_le _ _
  rw [rekey_publication_count]
  unfold pubCount
  rw [maxKR_eq] at hcap ⊢
  split_ifs <;> omega

/-- The member table never exceeds its cap of `80 * maxKR`, and no rekey of a reachable
peer makes more than 80 publications. -/
theorem rekey_within_threshold (hr : Reachable E s) (mi : Mint) :
    s.m_mbrList.size ≤ 80 * maxKR ∧ (published (makeSGKey E s mi).2).length ≤ 80 :=
  ⟨hr.wf.capped, rekey_publications_le E s mi hr.wf.capped⟩

theorem rekey_within_threshold_sample :
    Reachable sampleEnv sampleKeyMaker ∧
    sampleKeyMaker.m_mbrList.size ≤ 80 * maxKR ∧
    (published (makeSGKey sampleEnv sampleKeyMaker (sampleMint 9)).2).length ≤ 80 := by
  have hr : Reachable sampleEnv sampleKeyMaker := (Reachable.construct _ _ _ _ _ _).step _
  exact ⟨hr, rekey_within_threshold hr (sampleMint 9)⟩

theorem addGroupMem_admit (hk : s.m_keyMaker = true) (hcap : s.m_mbrList.size ≠ 80 * maxKR)
    (ha : Admitted E s q.signer x) (now : Nat) :
    (addGroupMem E s q now).1 = { s with m_mbrList := s.m_mbrList.insert q.signer x,
                                         m_init := (addGroupMem E s q now).1.m_init } := by
  obtain ⟨hsg, hrel, hx⟩ := ha
  have hrel' : (s.m_pubdist && isRelay E q.signer) = false := by simpa using hrel
  unfold addGroupMem
  simp only [hk, Bool.not_true, Bool.false_eq_true, if_false, hcap, hsg, hrel', hx]
  split_ifs
  · rfl
  · simp only [andThen_fst, initDone_fst]

theorem run_admit (hk : s.m_keyMaker = true) (qs : List Pub) (hnd : (qs.map Pub.signer).Nodup)
    (hnew : ∀ q ∈ qs, ∀ y, (q.signer, y) ∉ s.m_mbrList.entries)
    (hcap : s.m_mbrList.size + qs.length ≤ 80 * maxKR)
    (hadm : ∀ q ∈ qs, ∃ x, Admitted E s q.signer x) (now : Nat) :
    (run E s (qs.map fun q => .addGroupMem q now)).1.m_keyMaker = true ∧
      (run E s (qs.map fun q => .addGroupMem q now)).1.m_mbrList.size = s.m_mbrList.size + qs.length := by
  induction qs generalizing s with
  | nil => exact ⟨hk, rfl⟩
  | cons q qs ih =>
    rw [List.map_cons, List.nodup_cons] at hnd
    obtain ⟨x, hx⟩ := hadm q (List.mem_cons_self _ _)
    have hq := addGroupMem_admit hk (by simp only [List.length_cons] at hcap; omega) hx now
    have hsize := MbrList.size_insert s.m_mbrList q.signer x (hnew q (List.mem_cons_self _ _))
    have hmem : ∀ q' ∈ qs, ∀ y, (q'.signer, y) ∉ (addGroupMem E s q now).1.m_mbrList.entries := by
      intro q' hq' y hy
      rw [hq] at hy
      rcases MbrList.mem_insert hy with he | he
      · have he' : q'.signer = q.signer := congrArg Prod.fst he
        exact hnd.1 (he' ▸ List.mem_map_of_mem _ hq')
      · exact hnew q' (List.mem_cons_of_mem _ hq') y he
    obtain ⟨hk', hs'⟩ := ih (by rw [hq]; exact hk) hnd.2 hmem
      (by rw [hq]; show (s.m_mbrList.insert q.signer x).size + _ ≤ _
          rw [hsize]; simp only [List.length_cons] at hcap; omega)
      (fun q' hq' => by rw [hq]; exact hadm q' (List.mem_cons_of_mem _ hq'))
    refine ⟨hk', ?_⟩
    show (run E (addGroupMem E s q now).1 _).1.m_mbrList.size = _
    rw [hs', hq]
    show (s.m_mbrList.insert q.signer x).size + _ = _
    rw [hsize, List.length_cons]; omega

/-- The thumbprint whose 32 bytes are `n` in network byte order. -/
def memberTp (n : Nat) : ThumbPrint := ⟨bigEndian thumbPrintS n, bigEndian_length _ _⟩

theorem memberTp_inj {a b : Nat} (ha : a < 256 ^ thumbPrintS) (hb : b < 256 ^ thumbPrintS)
    (h : memberTp a = memberTp b) : a = b := by
  have := congrArg (fun t => fromBigEndian t.bytes) h
  simpa only [memberTp, fromBigEndian_bigEndian_of_lt ha, fromBigEndian_bigEndian_of_lt hb] using this

/-- A membership request of `memberTp n`. -/
def memberReq (n : Nat) : Pub := ⟨sampleKeyMaker.m_mrPrefix ++ [timestamp 0], [], memberTp n⟩

/-- Membership requests of 560 distinct members, handled by `sampleKeyMaker` at clock 0. -/
def fullRequests : List Event := ((List.range (80 * maxKR)).map memberReq).map fun q => .addGroupMem q 0

/-- The cap is checked with `==`, so a reachable table holds `80 * maxKR` members, and its
rekey makes 80 publications: the IBLT threshold the cap is meant to stay under. -/
theorem full_table_rekey_publishes_threshold :
    Reachable sampleEnv (run sampleEnv sampleKeyMaker fullRequests).1 ∧
    (run sampleEnv sampleKeyMaker fullRequests).1.m_keyMaker = true ∧
    (run sampleEnv sampleKeyMaker fullRequests).1.m_mbrList.size = 80 * maxKR ∧
    (published (step sampleEnv (run sampleEnv sampleKeyMaker fullRequests).1
      (.sgkeyTimeout (sampleMint 9))).2).length = 80 := by
  have hr : Reachable sampleEnv sampleKeyMaker := (Reachable.construct _ _ _ _ _ _).step _
  have hempty : sampleKeyMaker.m_mbrList.entries = [] := rfl
  have h0 : sampleKeyMaker.m_mbrList.size = 0 := rfl
  have hnd : (((List.range (80 * maxKR)).map memberReq).map Pub.signer).Nodup := by
    rw [List.map_map]
    refine List.Nodup.map_on (fun a ha b hb h => memberTp_inj ?_ ?_ h) (List.nodup_range _)
    · exact lt_trans (List.mem_range.mp ha) (by rw [maxKR_eq]; decide)
    · exact lt_trans (List.mem_range.mp hb) (by rw [maxKR_eq]; decide)
  have hadm : ∀ q ∈ (List.range (80 * maxKR)).map memberReq,
      ∃ x, Admitted sampleEnv sampleKeyMaker q.signer x :=
    fun q _ => ⟨q.signer.bytes, rfl, fun h => absurd h.1 (by decide), rfl⟩
  obtain ⟨hk, hsize⟩ := run_admit (E := sampleEnv) rfl ((List.range (80 * maxKR)).map memberReq) hnd
    (fun q _ y hy => by rw [hempty] at hy; cases hy)
    (by rw [h0, List.length_map, List.length_range, Nat.zero_add]) hadm 0
  rw [h0, Nat.zero_add, List.length_map, List.length_range] at hsize
  rw [show fullRequests = ((List.range (80 * maxKR)).map memberReq).map
    (fun q => Event.addGroupMem q 0) from rfl]
  refine ⟨hr.run _, hk, hsize, ?_⟩
  show (published (sgkeyTimeout sampleEnv _ (sampleMint 9)).2).length = 80
  rw [published_sgkeyTimeout, if_pos hk, rekey_publication_count, minted_mbrList,
    size_sweep_of_valid sampleEnv (sampleMint 9) fun _ _ => ⟨rfl, Nat.two_pow_pos 63⟩, hsize]
  rfl

end Cap

section CreationTime

variable {E : Env} {s : DistSGKey}

/-- The key pair a method mints, when it runs `makeSGKey`: a won election, the rekey timer of
a key-maker, and `removeGroupMem` with a rekey. -/
def rekeyMint (s : DistSGKey) : Event → Option Mint
  | .electionDone true _ mi => some mi
  | .sgkeyTimeout mi => if s.m_keyMaker then some mi else none
  | .removeGroupMem _ true mi => some mi
  | _ => none

theorem keyCTs_rekey {ev : Event} {mi : Mint} (hm : rekeyMint s ev = some mi) :
    (step E s ev).2.filterMap Effect.keyCT? = [mi.creationTime] := by
  match ev, hm with
  | .electionDone true _ _, rfl =>
    simp only [step, electionDone, Bool.not_true, Bool.false_eq_true, if_false, andThen_snd,
      sgkeyTimeout, List.filterMap_append, keyCTs_makeSGKey]
    rfl
  | .sgkeyTimeout _, h =>
    simp only [rekeyMint] at h
    split_ifs at h with hk
    cases h
    simp only [step, sgkeyTimeout, hk, Bool.not_true, Bool.false_eq_true, if_false, andThen_snd,
      List.filterMap_append, keyCTs_makeSGKey]
    rfl
  | .removeGroupMem _ true _, rfl => rw [removeGroupMem_reKey, keyCTs_makeSGKey]

/-- The keys a run mints, in order. -/
def runMints (E : Env) : DistSGKey → List Event → List Mint
  | _, [] => []
  | s, ev :: evs => (rekeyMint s ev).toList ++ runMints E (step E s ev).1 evs

/-- The creation times of the keys the minting steps of a run hand to the application. -/
def mintedKeyCTs (E : Env) : DistSGKey → List Event → List UInt64
  | _, [] => []
  | s, ev :: evs =>
    (if (rekeyMint s ev).isSome then (step E s ev).2.filterMap Effect.keyCT? else []) ++
      mintedKeyCTs E (step E s ev).1 evs

theorem mintedKeyCTs_eq (s : DistSGKey) (evs : List Event) :
    mintedKeyCTs E s evs = (runMints E s evs).map Mint.creationTime := by
  induction evs generalizing s with
  | nil => rfl
  | cons ev evs ih =>
    rw [mintedKeyCTs, runMints, ih, List.map_append]
    congr 1
    cases hm : rekeyMint s ev with
    | none => rfl
    | some mi => simp only [Option.isSome_some, if_true, keyCTs_rekey hm]; rfl

/-- Successive keys a peer mints carry strictly increasing creation times exactly when the
clock readings of its rekeys, taken modulo 2^64, strictly increase: `makeSGKey` stores the
signed reading in the `uint64_t` `m_curKeyCT` and orders it after nothing. -/
theorem creation_times_increase_iff_clock (E : Env) (s : DistSGKey) (evs : List Event) :
    ((mintedKeyCTs E s evs).map UInt64.toNat).Pairwise (· < ·) ↔
      ((runMints E s evs).map fun mi => (mi.ctNow % 2 ^ 64).toNat).Pairwise (· < ·) := by
  have hct : UInt64.toNat ∘ Mint.creationTime = fun mi => (mi.ctNow % 2 ^ 64).toNat :=
    funext fun mi => UInt64.toNat_ofNat_of_lt (by unfold UInt64.size; omega)
  rw [mintedKeyCTs_eq, List.map_map, hct]

theorem adoptKey_rekey_same_reading (E : Env) (s : DistSGKey) (mi : Mint) {r : DistSGKey}
    (hr : r.m_curKeyCT = mi.creationTime) {p : Pub} (hp : p ∈ published (makeSGKey E s mi).2) :
    adoptKey E r p.content = (r, []) := by
  obtain ⟨lo, hi, ts, recs, rfl, -⟩ := makeSGKey_sealed E s mi hp
  refine adoptKey_stale E fun ct rest h => ?_
  rw [readCT_krContent (UInt64.toNat_lt_size _)] at h
  cases h
  rw [hr, makeSGKey_state]
  exact le_refl _

theorem creation_times_increase_iff_clock_sample :
    mintedKeyCTs sampleEnv sampleKeyMaker
        [.sgkeyTimeout (sampleMint 9), .removeGroupMem (sampleTp 2) true (sampleMint 9)] =
      [UInt64.ofNat 9, UInt64.ofNat 9] ∧
    (((mintedKeyCTs sampleEnv sampleKeyMaker
        [.sgkeyTimeout (sampleMint 9), .removeGroupMem (sampleTp 2) true (sampleMint 9)]).map
          UInt64.toNat).Pairwise (· < ·) ↔
      ((runMints sampleEnv sampleKeyMaker
        [.sgkeyTimeout (sampleMint 9), .removeGroupMem (sampleTp 2) true (sampleMint 9)]).map
          fun mi => (mi.ctNow % 2 ^ 64).toNat).Pairwise (· < ·)) ∧
    ¬ ((runMints sampleEnv sampleKeyMaker
        [.sgkeyTimeout (sampleMint 9), .removeGroupMem (sampleTp 2) true (sampleMint 9)]).map
          fun mi => (mi.ctNow % 2 ^ 64).toNat).Pairwise (· < ·) ∧
    ∀ r : DistSGKey, r.m_curKeyCT = UInt64.ofNat 9 →
      ∀ p ∈ published (step sampleEnv (step sampleEnv sampleKeyMaker (.sgkeyTimeout (sampleMint 9))).1
        (.removeGroupMem (sampleTp 2) true (sampleMint 9))).2, adoptKey sampleEnv r p.content = (r, []) := by
  refine ⟨by rw [mintedKeyCTs_eq]; rfl, creation_times_increase_iff_clock _ _ _, by decide,
    fun r hr p hp => ?_⟩
  rw [removeGroupMem_reKey] at hp
  exact adoptKey_rekey_same_reading sampleEnv _ (sampleMint 9) hr hp

end CreationTime

end SgKeyDist.Rekey
