import SgKeyDist.KeyMaker

namespace SgKeyDist.Peer

open SgKeyDist.ByteOrder SgKeyDist.Identity SgKeyDist.Members SgKeyDist.KeyRecord
open SgKeyDist.State SgKeyDist.Member SgKeyDist.KeyMaker

/-- `setup(ccb)`: a relay of the pubs distributor is done at once; an identity with the SG
capability and a key-maker priority joins the election; any other subscribes to key
records. -/
def setup (E : Env) (s : DistSGKey) : DistSGKey × List Effect :=
  let s := if s.m_keyColl = asBytes "pubs" then { s with m_pubdist := true } else s
  if s.m_pubdist && isRelay E s.m_tp then initDone s
  else if s.m_subr && 0 < kmpri E s s.m_tp then
    (s, [.joinElection (s.m_prefix ++ [asBytes "km"]) (if s.m_pubdist then 5000 else 500)])
  else (s, [.subscribe s.m_krPrefix .receiveSGKeyRecords])

/-- The election's completion callback `eDone(elected, epoch)` of `setup`. -/
def electionDone (E : Env) (s : DistSGKey) (elected : Bool) (epoch : UInt32) (mi : Mint) :
    DistSGKey × List Effect :=
  let s₁ := { s with m_keyMaker := elected, m_KMepoch := epoch }
  if !elected then (s₁, [.subscribe s₁.m_krPrefix .receiveSGKeyRecords])
  else andThen (s₁, [.subscribe s₁.m_krPrefix .receiveSGKeyRecords,
    .subscribe s₁.m_mrPrefix .addGroupMem]) (sgkeyTimeout E · mi)

/-- Everything that runs a method of `DistSGKey`: the call of `setup`, the election's
completion, the two subscriptions, the rekey timer, the member-request timers (the
refresh and the two-second one-shot both call `publishMembershipReq`), a confirmed
delivery, and the application's `removeGroupMem`. Each carries the clock readings and
fresh keys its method takes. -/
inductive Event
  | setup
  | electionDone (elected : Bool) (epoch : UInt32) (mi : Mint)
  | receiveSGKeyRecords (p : Pub) (now : Nat)
  | addGroupMem (p : Pub) (now : Nat)
  | sgkeyTimeout (mi : Mint)
  | publishMembershipReq (now : Nat)
  | delivered (ok : Bool)
  | removeGroupMem (tp : ThumbPrint) (reKey : Bool) (mi : Mint)

def step (E : Env) (s : DistSGKey) : Event → DistSGKey × List Effect
  | .setup => setup E s
  | .electionDone elected epoch mi => electionDone E s elected epoch mi
  | .receiveSGKeyRecords p now => receiveSGKeyRecords E s p now
  | .addGroupMem p now => addGroupMem E s p now
  | .sgkeyTimeout mi => sgkeyTimeout E s mi
  | .publishMembershipReq now => publishMembershipReq s now
  | .delivered ok => if ok then initDone s else (s, [])
  | .removeGroupMem tp reKey mi => removeGroupMem E s tp reKey mi

/-- A sequence of events from `s`: the final state and every effect, in order. -/
def run (E : Env) (s : DistSGKey) : List Event → DistSGKey × List Effect
  | [] => (s, [])
  | ev :: evs => andThen (step E s ev) (run E · evs)

/-- The states a constructed instance reaches. -/
inductive Reachable (E : Env) : DistSGKey → Prop
  | construct (pPre : Name) (keyColl : Bytes) (tp : ThumbPrint) (sk : Bytes) (ri rr : Nat) :
      Reachable E (construct E pPre keyColl tp sk ri rr)
  | step {s : DistSGKey} (ev : Event) : Reachable E s → Reachable E (step E s ev).1

theorem run_append (E : Env) (s : DistSGKey) (evs evs' : List Event) :
    run E s (evs ++ evs') = andThen (run E s evs) (run E · evs') := by
  induction evs generalizing s with
  | nil => rfl
  | cons ev evs ih => simp only [List.cons_append, run.eq_2, ih, andThen, List.append_assoc]

theorem Reachable.run {E : Env} {s : DistSGKey} (h : Reachable E s) (evs : List Event) :
    Reachable E (run E s evs).1 := by
  induction evs generalizing s with
  | nil => exact h
  | cons ev evs ih => exact ih (h.step ev)

section Handlers

variable {E : Env} {s : DistSGKey} {p : Pub}

theorem sgkeyTimeout_fst (E : Env) (s : DistSGKey) (mi : Mint) :
    (sgkeyTimeout E s mi).1 = if s.m_keyMaker then (makeSGKey E s mi).1 else s := by
  unfold sgkeyTimeout; cases s.m_keyMaker <;> rfl

theorem published_sgkeyTimeout (E : Env) (s : DistSGKey) (mi : Mint) :
    published (sgkeyTimeout E s mi).2 =
      if s.m_keyMaker then published (makeSGKey E s mi).2 else [] := by
  unfold sgkeyTimeout
  cases s.m_keyMaker <;> simp [published, Effect.pub?]

theorem sgkeyTimeout_sealed (mi : Mint) (hp : p ∈ published (sgkeyTimeout E s mi).2) :
    SealedFromTable E (sgkeyTimeout E s mi).1 p ∧ (sgkeyTimeout E s mi).1.m_sgSK.length = kxskKeySz := by
  rw [published_sgkeyTimeout] at hp
  rw [sgkeyTimeout_fst]
  split_ifs at hp ⊢
  · exact ⟨makeSGKey_sealed E s mi hp, by rw [makeSGKey_sgSK]; exact mi.kp.sk_size⟩
  · simp at hp

theorem setup_fst (E : Env) (s : DistSGKey) (hp : s.m_pubdist = (s.m_keyColl == asBytes "pubs")) :
    (setup E s).1 = s ∨ (setup E s).1 = { s with m_init := false } := by
  have hs : (if s.m_keyColl = asBytes "pubs" then { s with m_pubdist := true } else s) = s := by
    split_ifs with hc
    · rw [hc, beq_self_eq_true] at hp; rw [← hp]
    · rfl
  unfold setup; rw [hs]; dsimp only
  split_ifs <;> first | exact .inl rfl | exact .inr (initDone_fst s)

theorem setup_untouched (E : Env) (s : DistSGKey) (hp : s.m_pubdist = (s.m_keyColl == asBytes "pubs")) :
    untouched (setup E s).1 = untouched s := by
  rcases setup_fst E s hp with h | h <;> rw [h]; rfl

theorem published_setup (E : Env) (s : DistSGKey) : published (setup E s).2 = [] := by
  unfold setup
  generalize (if s.m_keyColl = asBytes "pubs" then { s with m_pubdist := true } else s) = s₁
  dsimp only
  split
  · exact published_initDone _
  · split <;> rfl

theorem mbrList_of_untouched {s' : DistSGKey}
    (hu : untouched s' = untouched s ∨ untouched s' = { untouched s with m_keyMaker := false }) :
    s'.m_mbrList = s.m_mbrList := by
  rcases hu with hu | hu <;> exact congrArg Untouched.m_mbrList hu

end Handlers

/-- What holds in every state a constructed instance reaches: the distributor kind is the
collection's, every member passed the checks of `addGroupMem`, the table respects its cap,
and a key-maker holds a full-size group key pair. -/
structure Wf (E : Env) (s : DistSGKey) : Prop where
  pubdist : s.m_pubdist = (s.m_keyColl == asBytes "pubs")
  admitted : ∀ tp x, (tp, x) ∈ s.m_mbrList.entries → Admitted E s tp x
  capped : s.m_mbrList.size ≤ 80 * maxKR
  sized : s.m_keyMaker → s.m_sgPK.length = kxpkKeySz ∧ s.m_sgSK.length = kxskKeySz

section Invariant

variable {E : Env} {s s' : DistSGKey}

theorem wf_construct (E : Env) (pPre : Name) (keyColl : Bytes) (tp : ThumbPrint) (sk : Bytes)
    (ri rr : Nat) : Wf E (construct E pPre keyColl tp sk ri rr) := by
  unfold construct; dsimp only
  split_ifs <;> exact ⟨rfl, by simp [MbrList.empty], by simp [MbrList.size, MbrList.empty],
    by simp⟩

theorem Wf.of_frame (h : Wf E s) (hc : s'.m_keyColl = s.m_keyColl) (hd : s'.m_pubdist = s.m_pubdist)
    (hm : s'.m_mbrList = s.m_mbrList)
    (hk : s'.m_keyMaker → s.m_keyMaker ∧ s'.m_sgPK = s.m_sgPK ∧ s'.m_sgSK = s.m_sgSK) : Wf E s' where
  pubdist := by rw [hc, hd]; exact h.pubdist
  admitted tp x hx := by
    obtain ⟨h₁, h₂, h₃⟩ := h.admitted tp x (hm ▸ hx)
    exact ⟨by simpa only [sgMem, hc] using h₁, by simpa only [hd] using h₂, h₃⟩
  capped := hm ▸ h.capped
  sized hk' := by
    obtain ⟨hk, hpk, hsk⟩ := hk hk'
    rw [hpk, hsk]; exact h.sized hk

theorem Wf.of_untouched (h : Wf E s)
    (hu : untouched s' = untouched s ∨ untouched s' = { untouched s with m_keyMaker := false }) :
    Wf E s' := by
  rcases hu with hu | hu <;> simp only [untouched, Untouched.mk.injEq] at hu <;>
    obtain ⟨-, -, -, hc, -, -, -, hsk, hpk, hm, -, -, -, hd, hk⟩ := hu <;>
    refine h.of_frame hc hd hm fun h' => ⟨?_, hpk, hsk⟩
  · rwa [← hk]
  · simp [hk] at h'

theorem Wf.erase (h : Wf E s) (tp : ThumbPrint) :
    Wf E { s with m_mbrList := s.m_mbrList.erase tp } :=
  ⟨h.pubdist, fun t x hx => h.admitted t x (MbrList.mem_erase.mp hx).1,
    (MbrList.size_eraseIf_le _ _).trans h.capped, h.sized⟩

theorem wf_makeSGKey (mi : Mint) (hp : s.m_pubdist = (s.m_keyColl == asBytes "pubs"))
    (ha : ∀ tp x, (tp, x) ∈ s.m_mbrList.entries → Admitted E s tp x)
    (hc : s.m_mbrList.size ≤ 80 * maxKR) : Wf E (makeSGKey E s mi).1 := by
  rw [makeSGKey_state]
  exact ⟨hp, fun tp x hx => ha tp x (mem_of_mem_sweep hx), (MbrList.size_eraseIf_le _ _).trans hc,
    fun _ => ⟨mi.kp.pk_size, mi.kp.sk_size⟩⟩

theorem Wf.addGroupMem (h : Wf E s) (q : Pub) (now : Nat) : Wf E (addGroupMem E s q now).1 := by
  have hins : ∀ x, Admitted E s q.signer x → s.m_mbrList.size ≠ 80 * maxKR →
      Wf E { s with m_mbrList := s.m_mbrList.insert q.signer x } := fun x hx hcap =>
    ⟨h.pubdist, fun tp y hy => (MbrList.mem_insert hy).elim
      (fun he => by cases he; exact hx) (h.admitted tp y),
      show (s.m_mbrList.insert q.signer x).size ≤ _ by
        have := MbrList.size_insert_le s.m_mbrList q.signer x; have := h.capped; omega, h.sized⟩
  rcases addGroupMem_cases E s q now with he | he | ⟨x, hx, -, hcap, ⟨-, he⟩ | ⟨-, he⟩⟩ <;> rw [he]
  · exact h
  · exact h.erase q.signer
  · exact hins x hx hcap
  · exact (hins x hx hcap).of_untouched (.inl (initDone_untouched _))

theorem Wf.step (h : Wf E s) (ev : Event) : Wf E (step E s ev).1 := by
  cases ev with
  | setup => exact h.of_untouched (.inl (setup_untouched E s h.pubdist))
  | electionDone elected epoch mi =>
    cases elected
    · exact ⟨h.pubdist, h.admitted, h.capped, fun hk => nomatch hk⟩
    · exact wf_makeSGKey mi h.pubdist h.admitted h.capped
  | receiveSGKeyRecords q now => exact h.of_untouched (receiveSGKeyRecords_untouched E s q now)
  | addGroupMem q now => exact h.addGroupMem q now
  | sgkeyTimeout mi =>
    show Wf E (sgkeyTimeout E s mi).1
    rw [sgkeyTimeout_fst]; split_ifs
    · exact wf_makeSGKey mi h.pubdist h.admitted h.capped
    · exact h
  | publishMembershipReq now => exact h.of_untouched (.inl (publishMembershipReq_untouched s now))
  | delivered ok =>
    cases ok
    · exact h
    · exact h.of_untouched (.inl (initDone_untouched s))
  | removeGroupMem tp reKey mi =>
    have he := h.erase tp
    cases reKey
    · exact he
    · exact wf_makeSGKey mi he.pubdist he.admitted he.capped

theorem keyColl_step (h : Wf E s) (ev : Event) : (step E s ev).1.m_keyColl = s.m_keyColl := by
  have hu : ∀ {s'}, (untouched s' = untouched s ∨
      untouched s' = { untouched s with m_keyMaker := false }) → s'.m_keyColl = s.m_keyColl :=
    fun hu => hu.elim (congrArg Untouched.m_keyColl) (congrArg Untouched.m_keyColl)
  have hmk : ∀ s₁ mi, (makeSGKey E s₁ mi).1.m_keyColl = s₁.m_keyColl := fun s₁ mi => by
    rw [makeSGKey_state]; rfl
  cases ev with
  | setup => exact hu (.inl (setup_untouched E s h.pubdist))
  | electionDone elected epoch mi =>
    cases elected
    · rfl
    · simp only [step, electionDone, Bool.not_true, Bool.false_eq_true, if_false, andThen_fst,
        sgkeyTimeout_fst, if_true]
      exact hmk _ mi
  | receiveSGKeyRecords q now => exact hu (receiveSGKeyRecords_untouched E s q now)
  | addGroupMem q now =>
    rcases addGroupMem_cases E s q now with he | he | ⟨x, -, -, -, ⟨-, he⟩ | ⟨-, he⟩⟩ <;>
      simp only [step, he, andThen_fst, initDone_fst]
  | sgkeyTimeout mi =>
    show (sgkeyTimeout E s mi).1.m_keyColl = _
    rw [sgkeyTimeout_fst]; split_ifs
    · exact hmk s mi
    · rfl
  | publishMembershipReq now => exact hu (.inl (publishMembershipReq_untouched s now))
  | delivered ok =>
    cases ok
    · rfl
    · exact hu (.inl (initDone_untouched s))
  | removeGroupMem tp reKey mi =>
    cases reKey
    · rfl
    · exact hmk _ mi

theorem Reachable.wf (h : Reachable E s) : Wf E s := by
  induction h with
  | construct pPre keyColl tp sk ri rr => exact wf_construct E pPre keyColl tp sk ri rr
  | step ev _ ih => exact ih.step ev

theorem published_step (h : Wf E s) (ev : Event) {p : Pub} (hp : p ∈ published (step E s ev).2) :
    (∃ now, p = mrPub s now) ∨
      SealedFromTable E (step E s ev).1 p ∧ (step E s ev).1.m_sgSK.length = kxskKeySz := by
  cases ev with
  | setup => simp [step, published_setup] at hp
  | electionDone elected epoch mi =>
    cases elected
    · simp [step, electionDone, published, Effect.pub?] at hp
    · refine .inr (sgkeyTimeout_sealed mi ?_)
      simpa [step, electionDone, published, Effect.pub?] using hp
  | receiveSGKeyRecords q now =>
    exact .inl ⟨now, List.mem_singleton.mp (published_receiveSGKeyRecords E s q now hp)⟩
  | addGroupMem q now =>
    refine .inr ⟨addGroupMem_sealed E s q now hp, ?_⟩
    rcases addGroupMem_cases E s q now with h' | h' | ⟨x, -, hk, -, ⟨-, h'⟩ | ⟨-, h'⟩⟩ <;>
      simp only [step, h'] at hp ⊢
    · simp [published] at hp
    · simp [published] at hp
    · simp [published] at hp
    · rw [andThen_fst, initDone_fst]; exact (h.sized hk).2
  | sgkeyTimeout mi => exact .inr (sgkeyTimeout_sealed mi hp)
  | publishMembershipReq now =>
    exact .inl ⟨now, List.mem_singleton.mp (published_publishMembershipReq s now hp)⟩
  | delivered ok =>
    cases ok
    · simp [step, published] at hp
    · simp only [step, if_true, published_initDone] at hp; simp at hp
  | removeGroupMem tp reKey mi =>
    cases reKey
    · simp [step, removeGroupMem, published] at hp
    · exact .inr ⟨makeSGKey_sealed E _ mi hp, by
        show (makeSGKey E _ mi).1.m_sgSK.length = _; rw [makeSGKey_sgSK]; exact mi.kp.sk_size⟩

theorem mem_step_mbrList (h : Wf E s) (ev : Event) {e : ThumbPrint × Bytes}
    (he : e ∈ (step E s ev).1.m_mbrList.entries) :
    e ∈ s.m_mbrList.entries ∨
      ∃ q now, ev = .addGroupMem q now ∧ e.1 = q.signer ∧ Admitted E s q.signer e.2 := by
  cases ev with
  | setup => exact .inl (mbrList_of_untouched (.inl (setup_untouched E s h.pubdist)) ▸ he)
  | electionDone elected epoch mi =>
    cases elected
    · exact .inl he
    · exact .inl (mem_of_mem_sweep ((makeSGKey_mbrList E _ mi) ▸ he))
  | receiveSGKeyRecords q now =>
    exact .inl (mbrList_of_untouched (receiveSGKeyRecords_untouched E s q now) ▸ he)
  | addGroupMem q now =>
    rcases addGroupMem_cases E s q now with h' | h' | ⟨x, hx, -, -, ⟨-, h'⟩ | ⟨-, h'⟩⟩ <;>
      simp only [step, h', andThen_fst, initDone_fst] at he
    · exact .inl he
    · exact .inl (MbrList.mem_erase.mp he).1
    all_goals
      rcases MbrList.mem_insert he with rfl | he
      · exact .inr ⟨q, now, rfl, rfl, hx⟩
      · exact .inl he
  | sgkeyTimeout mi =>
    simp only [step, sgkeyTimeout_fst] at he
    split_ifs at he
    · exact .inl (mem_of_mem_sweep ((makeSGKey_mbrList E s mi) ▸ he))
    · exact .inl he
  | publishMembershipReq now =>
    exact .inl (mbrList_of_untouched (.inl (publishMembershipReq_untouched s now)) ▸ he)
  | delivered ok =>
    cases ok
    · exact .inl he
    · exact .inl (mbrList_of_untouched (.inl (initDone_untouched s)) ▸ he)
  | removeGroupMem tp reKey mi =>
    cases reKey
    · exact .inl (MbrList.mem_erase.mp he).1
    · exact .inl (MbrList.mem_erase.mp (mem_of_mem_sweep ((makeSGKey_mbrList E _ mi) ▸ he))).1

end Invariant

section Sample

def sampleEnv : Env where
  sodium :=
    { pkToCurve25519 := some
      skToCurve25519 := some
      boxSeal := fun m _ => List.replicate crypto_box_SEALBYTES 0 ++ m
      boxSealOpen := fun c _ _ => some (c.drop crypto_box_SEALBYTES)
      boxSeal_length := fun m _ => by simp [Nat.add_comm] }
  certs :=
    { content := ThumbPrint.bytes
      role := fun _ => []
      validUntil := fun _ => 2 ^ 63
      capArg := fun cap _ => if cap = "SG" then asBytes "sg" else asBytes "5" }

def sampleTp (b : UInt8) : ThumbPrint := ⟨List.replicate thumbPrintS b, List.length_replicate _ _⟩

def sampleMint (ct : Nat) : Mint :=
  ⟨⟨List.replicate kxpkKeySz 1, List.replicate kxskKeySz 2, List.length_replicate _ _,
    List.length_replicate _ _⟩, ct, 0, ct, fun _ => true⟩

def samplePeer (b : UInt8) : DistSGKey :=
  construct sampleEnv [asBytes "g"] (asBytes "sg") (sampleTp b) [] 1000 10

def sampleKeyMaker : DistSGKey :=
  (step sampleEnv (samplePeer 1) (.electionDone true 1 (sampleMint 5))).1

end Sample

end SgKeyDist.Peer
