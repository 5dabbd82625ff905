import SgKeyDist.Connect
import SgKeyDist.EventLoop
import SgKeyDist.Rotation

namespace SgKeyDist.Fabric

open SgKeyDist.ByteOrder SgKeyDist.Tlv SgKeyDist.Identity SgKeyDist.Members SgKeyDist.KeyRecord
open SgKeyDist.State SgKeyDist.Member SgKeyDist.KeyMaker SgKeyDist.Peer SgKeyDist.Enrolment
open SgKeyDist.Receiver SgKeyDist.Rekey SgKeyDist.Rotation

/-- A group key as a peer holds it or hands it to its application: public key, secret key and
creation time. -/
structure GroupKey where
  pk : Bytes
  sk : Bytes
  ct : UInt64
  deriving DecidableEq

/-- The key a rekey mints. -/
def mintKey (mi : Mint) : GroupKey := ⟨mi.kp.pk, mi.kp.sk, mi.creationTime⟩

/-- The key a peer holds: `m_sgPK`, `m_sgSK` and `m_curKeyCT`. -/
def heldKey (s : DistSGKey) : GroupKey := ⟨s.m_sgPK, s.m_sgSK, s.m_curKeyCT⟩

/-- A key record of the key `k`: its content is the creation time, the public key and at
most `maxKR` records, each sealing the secret key to someone. -/
def CarriesKey (E : Env) (k : GroupKey) (p : Pub) : Prop :=
  ∃ recs, p.content = krContent k.ct.toNat k.pk recs ∧ recs.length ≤ maxKR ∧
    ∀ r ∈ recs, ∃ x, r.2 = E.sodium.boxSeal k.sk x

/-- `crypto_box_seal_open` gives back only what `crypto_box_seal` sealed: whatever key pair
opens a sealed box, what comes out is the sealed message. -/
def SealOpenSound (E : Env) : Prop :=
  ∀ m pk pk' sk m', E.sodium.boxSealOpen (E.sodium.boxSeal m pk) pk' sk = some m' → m' = m

/-- The publication the fabric hands to a method, if any. -/
def inputOf : Event → Option Pub
  | .receiveSGKeyRecords p _ | .addGroupMem p _ => some p
  | _ => none

section Peer

variable {E : Env} {s : DistSGKey} {pk sk : Bytes} {ct : UInt64} {es : List Effect}

theorem newKey_not_mem (h : Keyless es) : Effect.newKey pk sk ct ∉ es :=
  fun hm => by simpa [Effect.keyCT?] using h _ hm

theorem keyless_append {fs : List Effect} (h : Keyless es) (h' : Keyless fs) : Keyless (es ++ fs) :=
  fun e he => (List.mem_append.mp he).elim (h e) (h' e)

theorem newKey_mem_cons {a b : Bytes} {c : UInt64} (hes : Keyless es)
    (h : Effect.newKey pk sk ct ∈ Effect.newKey a b c :: es) : pk = a ∧ sk = b ∧ ct = c := by
  rcases List.mem_cons.mp h with h | h
  · exact Effect.newKey.inj h
  · exact absurd h (newKey_not_mem hes)

theorem heldKey_makeSGKey (E : Env) (s : DistSGKey) (mi : Mint) :
    heldKey (makeSGKey E s mi).1 = mintKey mi := by
  rw [makeSGKey_state]; rfl

theorem newKey_makeSGKey (E : Env) (s : DistSGKey) (mi : Mint)
    (h : Effect.newKey pk sk ct ∈ (makeSGKey E s mi).2) : GroupKey.mk pk sk ct = mintKey mi := by
  have hloop : Keyless (publishLoop (minted E s mi) mi.pubNow (sealedPairs E (minted E s mi)) 0
      (pubCount (minted E s mi).m_mbrList.size) (minted E s mi).m_mbrList.size 0) :=
    keyCT_publishLoop _ _ _ _ _ _ _
  unfold makeSGKey at h; dsimp only at h
  split_ifs at h
  · rw [andThen_snd, List.cons_append] at h
    obtain ⟨rfl, rfl, rfl⟩ := newKey_mem_cons (keyless_append hloop (keyless_initDone _)) h
    rfl
  · obtain ⟨rfl, rfl, rfl⟩ := newKey_mem_cons hloop h
    rfl

theorem heldKey_rekey {ev : Event} {mi : Mint} (h : rekeyMint s ev = some mi) :
    heldKey (step E s ev).1 = mintKey mi := by
  match ev, h with
  | .electionDone true _ _, rfl =>
    simp only [step, electionDone, Bool.not_true, Bool.false_eq_true, if_false, andThen_fst,
      sgkeyTimeout_fst, if_true, heldKey_makeSGKey]
  | .sgkeyTimeout _, h =>
    simp only [rekeyMint] at h
    split_ifs at h with hk
    cases h
    simp only [step, sgkeyTimeout_fst, hk, if_true, heldKey_makeSGKey]
  | .removeGroupMem _ true _, rfl => exact heldKey_makeSGKey E _ _

theorem heldKey_step_of_keyMaker (hw : Wf E s) (hk : s.m_keyMaker = true) {ev : Event}
    (h : rekeyMint s ev = none) : heldKey (step E s ev).1 = heldKey s := by
  cases ev with
  | setup =>
    rcases setup_fst E s hw.pubdist with h' | h'
    · simp only [step, h']
    · simp only [step, h']; rfl
  | electionDone elected epoch mi =>
    cases elected
    · rfl
    · cases h
  | receiveSGKeyRecords q now =>
    rcases receiveSGKeyRecords_spec E s q now with h' | ⟨-, h'⟩ | ⟨hk', -⟩
    · simp only [step, h']
    · simp only [step, h', andThen_fst, publishMembershipReq_fst]; rfl
    · rw [hk] at hk'; cases hk'
  | addGroupMem q now =>
    rcases addGroupMem_cases E s q now with h' | h' | ⟨x, -, -, -, ⟨-, h'⟩ | ⟨-, h'⟩⟩ <;>
      simp only [step, h', andThen_fst, initDone_fst] <;> rfl
  | sgkeyTimeout mi => simp [rekeyMint, hk] at h
  | publishMembershipReq now => simp only [step, publishMembershipReq_fst]; rfl
  | delivered ok =>
    cases ok
    · rfl
    · simp only [step, if_true, initDone_fst]; rfl
  | removeGroupMem tp reKey mi =>
    cases reKey
    · rfl
    · cases h

theorem heldKey_step_minted (hw : Wf E s) {ms : List Mint}
    (hm : s.m_keyMaker = true → ∃ mi ∈ ms, heldKey s = mintKey mi) {ev : Event}
    (hr : rekeyMint s ev ≠ none ∨ s.m_keyMaker = true) :
    ∃ mi ∈ ms ++ (rekeyMint s ev).toList, heldKey (step E s ev).1 = mintKey mi := by
  cases hre : rekeyMint s ev with
  | some mi => exact ⟨mi, by simp, heldKey_rekey hre⟩
  | none =>
    have hk := hr.resolve_left (fun h => h hre)
    obtain ⟨mi, hmi, he⟩ := hm hk
    exact ⟨mi, by simp [hmi], (heldKey_step_of_keyMaker hw hk hre).trans he⟩

theorem keyMaker_of_step {ev : Event} (h : rekeyMint s ev = none)
    (hk : (step E s ev).1.m_keyMaker = true) : s.m_keyMaker = true := by
  by_contra hs
  have hev : ∀ epoch mi, ev ≠ .electionDone true epoch mi := by
    rintro epoch mi rfl; cases h
  rw [keyMaker_step (Bool.eq_false_iff.mpr hs) ev hev] at hk
  cases hk

theorem carriesKey_of_sealed {p : Pub} (h : SealedFromTable E s p) : CarriesKey E (heldKey s) p := by
  obtain ⟨lo, hi, ts, recs, rfl, hlen, hrecs⟩ := h
  exact ⟨recs, rfl, hlen, fun r hr => (hrecs r hr).imp fun _ hx => hx.2⟩

theorem published_step_carries (hw : Wf E s) (ev : Event) {p : Pub}
    (hp : p ∈ published (step E s ev).2) :
    p.content = [] ∨ CarriesKey E (heldKey (step E s ev).1) p ∧
      (rekeyMint s ev ≠ none ∨ s.m_keyMaker = true) := by
  rcases published_step hw ev hp with ⟨now, rfl⟩ | ⟨hs, -⟩
  · exact .inl rfl
  rcases publisher_cases ev hp with ⟨now, rfl⟩ | hk | ⟨epoch, mi, rfl⟩ | ⟨tp, mi, rfl⟩
  · exact .inl rfl
  · exact .inr ⟨carriesKey_of_sealed hs, .inr hk⟩
  · exact .inr ⟨carriesKey_of_sealed hs, .inl (by simp [rekeyMint])⟩
  · exact .inr ⟨carriesKey_of_sealed hs, .inl (by simp [rekeyMint])⟩

theorem newKey_adoptKey_carried (hso : SealOpenSound E) {mi : Mint} {q : Pub} {r : DistSGKey}
    (hc : CarriesKey E (mintKey mi) q) (h : Effect.newKey pk sk ct ∈ (adoptKey E r q.content).2) :
    pk = mi.kp.pk ∧ ct = mi.creationTime ∧ (sk = mi.kp.sk ∨ sk = [] ∧ r.m_subr = false) := by
  obtain ⟨recs, hq, hlen, hrecs⟩ := hc
  dsimp only [mintKey] at hq hrecs
  have hl : ∀ x ∈ recs, x.2.length = encSGKeySz := fun x hx => by
    obtain ⟨y, hy⟩ := hrecs x hx
    rw [hy, E.sodium.boxSeal_length, mi.kp.sk_size]; rfl
  have hct : readCT q.content = some (mi.creationTime.toNat,
      tlv 150 mi.kp.pk ++ tlv 130 (recs.flatMap egkrBytes)) := by
    rw [hq]; exact readCT_krContent (UInt64.toNat_lt_size _) _ _
  have h150 : nextBlk 150 (tlv 150 mi.kp.pk ++ tlv 130 (recs.flatMap egkrBytes)) =
      some (mi.kp.pk, tlv 130 (recs.flatMap egkrBytes)) :=
    nextBlk_tlv (by decide) (by rw [mi.kp.pk_size]; decide) _
  have h130 : nextBlk 130 (tlv 130 (recs.flatMap egkrBytes)) = some (recs.flatMap egkrBytes, []) := by
    simpa using nextBlk_tlv (by decide : 130 < 2 ^ 64) (flatMap_egkrBytes_lt hlen hl) []
  have hct' : UInt64.ofNat mi.creationTime.toNat = mi.creationTime := uint64_ofNat_toNat _
  rcases adoptKey_spec E r q.content with h' | ⟨n, c₁, pk', c₂, hn, -, hp, ⟨hsub, h'⟩ |
    ⟨v, rest, tp, nk, sk', -, hv, hf, ho, h'⟩⟩ <;> rw [h'] at h
  · cases h
  all_goals
    rw [hct, Option.some.injEq, Prod.mk.injEq] at hn
    obtain ⟨rfl, rfl⟩ := hn
    rw [h150, Option.some.injEq, Prod.mk.injEq] at hp
    obtain ⟨rfl, rfl⟩ := hp
  · rw [andThen_snd, List.singleton_append] at h
    obtain ⟨rfl, rfl, rfl⟩ := newKey_mem_cons (keyless_initDone _) h
    exact ⟨rfl, hct', .inr ⟨rfl, hsub⟩⟩
  · rw [h130, Option.some.injEq, Prod.mk.injEq] at hv
    obtain ⟨rfl, -⟩ := hv
    rw [toSpanEgkr_records recs hl] at hf
    obtain ⟨x, hx, hxe⟩ := List.mem_map.mp (List.mem_of_find?_eq_some hf)
    obtain ⟨y, hy⟩ := hrecs x hx
    have hnk : nk = E.sodium.boxSeal mi.kp.sk y := (Prod.mk.inj hxe).2.symm.trans hy
    have hsk : sk' = mi.kp.sk := hso _ _ _ _ _ (hnk ▸ ho)
    rw [andThen_snd, andThen_snd, List.singleton_append, List.cons_append] at h
    obtain ⟨rfl, rfl, rfl⟩ := newKey_mem_cons
      (keyless_append (by simp [Keyless, receivedGK, Effect.keyCT?]) (keyless_initDone _)) h
    exact ⟨rfl, hct', .inl hsk⟩

theorem newKey_step {ev : Event} (h : Effect.newKey pk sk ct ∈ (step E s ev).2) :
    (∃ mi, rekeyMint s ev = some mi ∧ GroupKey.mk pk sk ct = mintKey mi) ∨
    ∃ q now r, ev = .receiveSGKeyRecords q now ∧ r.m_subr = s.m_subr ∧
      Effect.newKey pk sk ct ∈ (adoptKey E r q.content).2 := by
  cases ev with
  | setup => exact absurd h (newKey_not_mem (keyless_setup E s))
  | electionDone elected epoch mi =>
    cases elected
    · simp [step, electionDone] at h
    · simp only [step, electionDone, Bool.not_true, Bool.false_eq_true, if_false, andThen_snd,
        sgkeyTimeout, if_true, List.mem_append, List.mem_cons, List.mem_singleton,
        List.not_mem_nil, reduceCtorEq, false_or, or_false] at h
      exact .inl ⟨mi, rfl, newKey_makeSGKey E _ mi h⟩
  | receiveSGKeyRecords q now =>
    rcases receiveSGKeyRecords_spec E s q now with h' | ⟨-, h'⟩ | ⟨-, h'⟩ <;> simp only [step, h'] at h
    · cases h
    · exact absurd h (newKey_not_mem (keyless_append (by simp [Keyless, Effect.keyCT?])
        (keyless_publishMembershipReq _ now)))
    rcases receiveAsMember_spec E s q now with h' | h' | h' | ⟨e, s₁, hc, h' | h' | h'⟩ <;> rw [h'] at h
    · exact absurd h (newKey_not_mem (keyless_publishMembershipReq s now))
    · simp at h
    · cases h
    · simp at h
    · cases h
    · exact .inr ⟨q, now, _, rfl, congrArg Untouched.m_subr ((checkDrift_untouched s₁ q.signer).trans
        (checkEpoch_untouched hc)), h⟩
  | addGroupMem q now =>
    rcases addGroupMem_cases E s q now with h' | h' | ⟨x, -, -, -, ⟨-, h'⟩ | ⟨-, h'⟩⟩ <;>
      simp only [step, h'] at h
    · cases h
    · cases h
    · cases h
    · exact absurd h (newKey_not_mem (keyless_append (by simp [Keyless, Effect.keyCT?])
        (keyless_initDone _)))
  | sgkeyTimeout mi =>
    cases hk : s.m_keyMaker
    · simp [step, sgkeyTimeout, hk] at h
    · refine .inl ⟨mi, by simp [rekeyMint, hk], newKey_makeSGKey E s mi ?_⟩
      simp only [step, sgkeyTimeout, hk, Bool.not_true, Bool.false_eq_true, if_false, andThen_snd,
        List.mem_append, List.mem_singleton, reduceCtorEq, or_false] at h
      exact h
  | publishMembershipReq now => exact absurd h (newKey_not_mem (keyless_publishMembershipReq s now))
  | delivered ok =>
    cases ok
    · cases h
    · exact absurd h (newKey_not_mem (keyless_initDone s))
  | removeGroupMem tp reKey mi =>
    cases reKey
    · cases h
    · exact .inl ⟨mi, rfl, newKey_makeSGKey E _ mi h⟩

end Peer

/-- The group: its peers, every effect their methods produced, in order, and the key pairs
their rekeys minted. -/
structure Group where
  peers : List DistSGKey
  out : List Effect
  mints : List Mint

/-- Peer `i` runs the method `ev`. -/
def groupStep (E : Env) (g : Group) (i : Nat) (ev : Event) : Group :=
  match g.peers[i]? with
  | none => g
  | some s => ⟨g.peers.set i (step E s ev).1, g.out ++ (step E s ev).2, g.mints ++ (rekeyMint s ev).toList⟩

/-- Peer `i` replaces its signing key pair. -/
def groupRotate (E : Env) (g : Group) (i : Nat) (k : SigningKey) (now : Nat) : Group :=
  match g.peers[i]? with
  | none => g
  | some s => ⟨g.peers.set i (updateSigningKey E s k now).1, g.out ++ (updateSigningKey E s k now).2,
      g.mints⟩

/-- The states a group of constructed peers reaches when the fabric hands a method only a
publication some peer has sent, and any peer may replace its signing key at any time. -/
inductive GroupReachable (E : Env) : Group → Prop
  | init (peers : List DistSGKey)
      (h : ∀ s ∈ peers, ∃ pPre keyColl tp sk ri rr, s = construct E pPre keyColl tp sk ri rr) :
      GroupReachable E ⟨peers, [], []⟩
  | step {g : Group} (i : Nat) (ev : Event) : GroupReachable E g →
      (∀ q ∈ inputOf ev, q ∈ published g.out) → GroupReachable E (groupStep E g i ev)
  | rotate {g : Group} (i : Nat) (k : SigningKey) (now : Nat) : GroupReachable E g →
      GroupReachable E (groupRotate E g i k now)

section Invariant

variable {E : Env} {g : Group}

/-- What holds of every group the peers reach: the peers are well formed, a key-maker holds
a minted key, and every publication on the fabric is a membership request, which is empty, or
a key record of a minted key. -/
structure GroupInv (E : Env) (g : Group) : Prop where
  wf : ∀ s ∈ g.peers, Wf E s
  keyMaker : ∀ s ∈ g.peers, s.m_keyMaker = true → ∃ mi ∈ g.mints, heldKey s = mintKey mi
  sent : ∀ p ∈ published g.out, p.content = [] ∨ ∃ mi ∈ g.mints, CarriesKey E (mintKey mi) p

theorem groupInv_init (peers : List DistSGKey)
    (h : ∀ s ∈ peers, ∃ pPre keyColl tp sk ri rr, s = construct E pPre keyColl tp sk ri rr) :
    GroupInv E ⟨peers, [], []⟩ where
  wf s hs := by
    obtain ⟨pPre, keyColl, tp, sk, ri, rr, rfl⟩ := h s hs
    exact wf_construct E pPre keyColl tp sk ri rr
  keyMaker s hs hk := by
    obtain ⟨pPre, keyColl, tp, sk, ri, rr, rfl⟩ := h s hs
    revert hk; unfold construct; dsimp only; split_ifs <;> exact fun h => nomatch h
  sent p hp := by cases hp

theorem GroupInv.step (h : GroupInv E g) (i : Nat) (ev : Event) :
    GroupInv E (groupStep E g i ev) := by
  unfold groupStep
  split
  · exact h
  rename_i s hs
  have hw := h.wf s (List.getElem?_mem hs)
  have hm := h.keyMaker s (List.getElem?_mem hs)
  have hold : ∀ {mi}, mi ∈ g.mints → mi ∈ g.mints ++ (rekeyMint s ev).toList :=
    List.mem_append_left _
  refine ⟨fun s' hs' => ?_, fun s' hs' hk => ?_, fun p hp => ?_⟩
  · rcases List.mem_or_eq_of_mem_set hs' with hs' | rfl
    · exact h.wf s' hs'
    · exact hw.step ev
  · rcases List.mem_or_eq_of_mem_set hs' with hs' | rfl
    · obtain ⟨mi, hmi, he⟩ := h.keyMaker s' hs' hk
      exact ⟨mi, hold hmi, he⟩
    · refine heldKey_step_minted hw hm ?_
      by_cases hre : rekeyMint s ev = none
      · exact .inr (keyMaker_of_step hre hk)
      · exact .inl hre
  · rw [published_append, List.mem_append] at hp
    rcases hp with hp | hp
    · exact (h.sent p hp).imp_right fun ⟨mi, hmi, hc⟩ => ⟨mi, hold hmi, hc⟩
    · rcases published_step_carries hw ev hp with hc | ⟨hc, hr⟩
      · exact .inl hc
      · obtain ⟨mi, hmi, he⟩ := heldKey_step_minted hw hm hr
        exact .inr ⟨mi, hmi, he ▸ hc⟩

theorem GroupInv.rotate (h : GroupInv E g) (i : Nat) (k : SigningKey) (now : Nat) :
    GroupInv E (groupRotate E g i k now) := by
  unfold groupRotate
  split
  · exact h
  rename_i s hs
  have hs' := List.getElem?_mem hs
  obtain ⟨hr, -, -, hpub⟩ := updateSigningKey_spec E s k now
  refine ⟨fun s' h' => ?_, fun s' h' hk => ?_, fun p hp => ?_⟩
  · rcases List.mem_or_eq_of_mem_set h' with h' | rfl
    · exact h.wf s' h'
    · exact wf_updateSigningKey (h.wf s hs') k now
  · rcases List.mem_or_eq_of_mem_set h' with h' | rfl
    · exact h.keyMaker s' h' hk
    · obtain ⟨mi, hmi, he⟩ := h.keyMaker s hs' (hr.keyMaker ▸ hk)
      refine ⟨mi, hmi, Eq.trans ?_ he⟩
      simp only [heldKey, hr.sgPK, hr.sgSK, hr.curKeyCT]
  · rcases List.mem_append.mp (published_append _ _ ▸ hp) with hp | hp
    · exact h.sent p hp
    · rw [List.mem_singleton.mp (hpub hp)]; exact .inl rfl

theorem GroupReachable.inv (h : GroupReachable E g) : GroupInv E g := by
  induction h with
  | init peers h => exact groupInv_init peers h
  | step i ev _ _ ih => exact ih.step i ev
  | rotate i k now _ ih => exact ih.rotate i k now

end Invariant

section Runs

variable {E : Env} {g : Group}

/-- Key authenticity across the group: whatever the interleaving of the peers' methods and
signing-key rotations, and however the fabric orders, repeats or drops publications, every key a
peer hands to its application is a key pair some rekey minted, with that rekey's creation time,
and with the minted secret unless the peer is a publish-only identity, which is handed none. -/
theorem handed_keys_minted (hso : SealOpenSound E) (h : GroupReachable E g) {i : Nat}
    {s : DistSGKey} (hs : g.peers[i]? = some s) {ev : Event}
    (hd : ∀ q ∈ inputOf ev, q ∈ published g.out) {pk sk : Bytes} {ct : UInt64}
    (hk : Effect.newKey pk sk ct ∈ (step E s ev).2) :
    ∃ mi ∈ (groupStep E g i ev).mints, pk = mi.kp.pk ∧ ct = mi.creationTime ∧
      (sk = mi.kp.sk ∨ sk = [] ∧ s.m_subr = false) := by
  have hm : (groupStep E g i ev).mints = g.mints ++ (rekeyMint s ev).toList := by
    simp only [groupStep, hs]
  rw [hm]
  rcases newKey_step hk with ⟨mi, hre, he⟩ | ⟨q, now, r, rfl, hr, ha⟩
  · obtain ⟨rfl, rfl, rfl⟩ := GroupKey.mk.inj he
    exact ⟨mi, by simp [hre], rfl, rfl, .inl rfl⟩
  · rcases h.inv.sent q (hd q rfl) with hc | ⟨mi, hmi, hc⟩
    · rw [hc] at ha; cases ha
    · obtain ⟨h₁, h₂, h₃⟩ := newKey_adoptKey_carried hso hc ha
      exact ⟨mi, List.mem_append_left _ hmi, h₁, h₂, hr ▸ h₃⟩

/-- Every publication on the fabric is a membership request, which is empty, or a key record
of a key some rekey minted: that key's creation time and public key, with records that seal
its secret. -/
theorem fabric_carries_minted_keys (h : GroupReachable E g) {p : Pub} (hp : p ∈ published g.out) :
    p.content = [] ∨ ∃ mi ∈ g.mints, CarriesKey E (mintKey mi) p :=
  h.inv.sent p hp

end Runs

section Loops

open SgKeyDist.EventLoop

/-- The group with each peer driven by its own event loop: every method a peer runs is the
one its loop raises, and a publication reaches a subscription only once some peer sent it. -/
structure LoopGroup where
  peers : List (DistSGKey × Loop)
  out : List Effect
  mints : List Mint

/-- The group of the peers' states alone. -/
def LoopGroup.toGroup (lg : LoopGroup) : Group := ⟨lg.peers.map Prod.fst, lg.out, lg.mints⟩

/-- Peer `i`'s loop raises `ev`. -/
def loopGroupStep (E : Env) (lg : LoopGroup) (i : Nat) (ev : LoopEvent) : LoopGroup :=
  match lg.peers[i]? with
  | none => lg
  | some st => ⟨lg.peers.set i (loopStep E st ev), lg.out ++ (step E st.1 (st.2.method ev)).2,
      lg.mints ++ (rekeyMint st.1 (st.2.method ev)).toList⟩

/-- The states a group of constructed peers reaches, each peer starting with an empty loop,
when a loop raises only an enabled event and hands a subscription only a publication some peer
has sent. -/
inductive LoopGroupReachable (E : Env) : LoopGroup → Prop
  | init (peers : List DistSGKey)
      (h : ∀ s ∈ peers, ∃ pPre keyColl tp sk ri rr, s = construct E pPre keyColl tp sk ri rr) :
      LoopGroupReachable E ⟨peers.map (·, Loop.init), [], []⟩
  | step {lg : LoopGroup} (i : Nat) (ev : LoopEvent) : LoopGroupReachable E lg →
      (∀ st, lg.peers[i]? = some st → st.2.enabled ev) →
      (∀ pfx p now, ev = .deliver pfx p now → p ∈ published lg.out) →
      LoopGroupReachable E (loopGroupStep E lg i ev)

variable {E : Env} {lg : LoopGroup}

/-- Whether the loop of peer `i` may raise `ev`: the event is enabled, and a delivered
publication has been sent. -/
def LoopGroup.allows (lg : LoopGroup) (i : Nat) (ev : LoopEvent) : Bool :=
  (match lg.peers[i]? with
    | none => true
    | some st => decide (st.2.enabled ev)) &&
  (match ev with
    | .deliver _ p _ => decide (p ∈ published lg.out)
    | _ => true)

/-- Run a schedule of loop events, or fail at the first one the group does not allow. -/
def runLoops (E : Env) (lg : LoopGroup) : List (Nat × LoopEvent) → Option LoopGroup
  | [] => some lg
  | (i, ev) :: evs => if lg.allows i ev then runLoops E (loopGroupStep E lg i ev) evs else none

theorem inputOf_method {l : Loop} {ev : LoopEvent} {q : Pub} (h : q ∈ inputOf (l.method ev)) :
    ∃ pfx now, ev = .deliver pfx q now := by
  cases ev with
  | deliver pfx p now =>
    refine ⟨pfx, now, ?_⟩
    simp only [Loop.method] at h
    split_ifs at h <;> cases h <;> rfl
  | timerFires cb now mi => cases cb <;> cases h
  | _ => cases h

theorem toGroup_loopGroupStep {i : Nat} {st : DistSGKey × Loop} (hs : lg.peers[i]? = some st)
    (ev : LoopEvent) :
    (loopGroupStep E lg i ev).toGroup = groupStep E lg.toGroup i (st.2.method ev) := by
  simp [loopGroupStep, groupStep, LoopGroup.toGroup, hs, List.map_set, loopStep]

theorem LoopGroupReachable.loopReachable (h : LoopGroupReachable E lg) :
    ∀ st ∈ lg.peers, LoopReachable E st := by
  induction h with
  | init peers h =>
    intro st hst
    obtain ⟨s, hs, rfl⟩ := List.mem_map.mp hst
    obtain ⟨pPre, keyColl, tp, sk, ri, rr, rfl⟩ := h s hs
    exact .construct pPre keyColl tp sk ri rr
  | @step lg i ev _ hen _ ih =>
    intro st' hst'
    cases hs : lg.peers[i]? with
    | none => simp only [loopGroupStep, hs] at hst'; exact ih st' hst'
    | some st =>
      simp only [loopGroupStep, hs] at hst'
      rcases List.mem_or_eq_of_mem_set hst' with hst' | rfl
      · exact ih st' hst'
      · exact .step ev (ih st (List.getElem?_mem hs)) (hen st hs)

theorem loops_refine_group (h : LoopGroupReachable E lg) :
    GroupReachable E lg.toGroup ∧ ∀ st ∈ lg.peers, LoopReachable E st := by
  refine ⟨?_, h.loopReachable⟩
  induction h with
  | init peers h =>
    simpa [LoopGroup.toGroup, List.map_map, Function.comp_def] using GroupReachable.init peers h
  | @step lg i ev _ _ hd ih =>
    cases hs : lg.peers[i]? with
    | none => simp only [loopGroupStep, hs]; exact ih
    | some st =>
      refine toGroup_loopGroupStep hs ev ▸ .step i _ ih fun q hq => ?_
      obtain ⟨pfx, now, rfl⟩ := inputOf_method hq
      exact hd pfx q now rfl

theorem LoopGroup.enabled_of_allows {i : Nat} {ev : LoopEvent} (ha : lg.allows i ev = true)
    (st : DistSGKey × Loop) (hs : lg.peers[i]? = some st) : st.2.enabled ev := by
  simp only [LoopGroup.allows, hs, Bool.and_eq_true, decide_eq_true_eq] at ha
  exact ha.1

theorem LoopGroup.sent_of_allows {i : Nat} {ev : LoopEvent} (ha : lg.allows i ev = true)
    (pfx : Name) (p : Pub) (now : Nat) (he : ev = .deliver pfx p now) : p ∈ published lg.out := by
  subst he
  simp only [LoopGroup.allows, Bool.and_eq_true, decide_eq_true_eq] at ha
  exact ha.2

theorem LoopGroupReachable.runLoops (h : LoopGroupReachable E lg) {evs : List (Nat × LoopEvent)}
    {lg' : LoopGroup} (hr : runLoops E lg evs = some lg') : LoopGroupReachable E lg' := by
  induction evs generalizing lg with
  | nil => cases hr; exact h
  | cons e evs ih =>
    obtain ⟨i, ev⟩ := e
    simp only [Fabric.runLoops] at hr
    split_ifs at hr with ha
    exact ih (h.step i ev (lg.enabled_of_allows ha) (lg.sent_of_allows ha)) hr

end Loops

section Sample

def sampleAdmitted : Group :=
  groupStep sampleEnv
    (groupStep sampleEnv
      (groupStep sampleEnv
        (groupStep sampleEnv ⟨[samplePeer 1, samplePeer 2], [], []⟩ 0
          (.electionDone true 1 (sampleMint 5)))
        1 (.electionDone false 1 (sampleMint 5)))
      1 (.publishMembershipReq 6))
    0 (.addGroupMem (mrPub (samplePeer 2) 6) 7)

def sampleRequester : DistSGKey :=
  (step sampleEnv (step sampleEnv (samplePeer 2) (.electionDone false 1 (sampleMint 5))).1
    (.publishMembershipReq 6)).1

def sampleAdmit : Event :=
  .receiveSGKeyRecords (admitPub sampleEnv sampleKeyMaker (sampleTp 2) (sampleTp 2).bytes 7) 8

def sampleGroup : Group := groupStep sampleEnv sampleAdmitted 1 sampleAdmit

theorem sealOpenSound_sampleEnv : SealOpenSound sampleEnv := by
  intro m pk pk' sk m' h
  simp only [sampleEnv, Option.some.injEq] at h
  rw [← h]; exact List.drop_left' (List.length_replicate _ _)

set_option maxRecDepth 4000 in
theorem groupReachable_sampleAdmitted : GroupReachable sampleEnv sampleAdmitted := by
  have h₀ : GroupReachable sampleEnv ⟨[samplePeer 1, samplePeer 2], [], []⟩ := by
    refine .init _ fun s hs => ?_
    rcases List.mem_pair.mp hs with rfl | rfl <;> exact ⟨_, _, _, _, _, _, rfl⟩
  refine .step _ _ (.step _ _ (.step _ _ (.step _ _ h₀ ?_) ?_) ?_) ?_ <;> intro q hq <;> cases hq
  decide

set_option maxRecDepth 4000 in
theorem groupReachable_sampleGroup : GroupReachable sampleEnv sampleGroup :=
  .step _ _ groupReachable_sampleAdmitted fun q hq => by cases hq; decide

set_option maxRecDepth 4000 in
theorem handed_keys_minted_sample :
    SealOpenSound sampleEnv ∧ GroupReachable sampleEnv sampleAdmitted ∧
      sampleAdmitted.peers[1]? = some sampleRequester ∧
      (∀ q ∈ inputOf sampleAdmit, q ∈ published sampleAdmitted.out) ∧
      Effect.newKey (sampleMint 5).kp.pk (sampleMint 5).kp.sk (UInt64.ofNat 5) ∈
        (step sampleEnv sampleRequester sampleAdmit).2 ∧
      ∃ mi ∈ (groupStep sampleEnv sampleAdmitted 1 sampleAdmit).mints,
        (sampleMint 5).kp.pk = mi.kp.pk ∧ UInt64.ofNat 5 = mi.creationTime ∧
          ((sampleMint 5).kp.sk = mi.kp.sk ∨
            (sampleMint 5).kp.sk = [] ∧ sampleRequester.m_subr = false) := by
  have hs : sampleAdmitted.peers[1]? = some sampleRequester := rfl
  have hd : ∀ q ∈ inputOf sampleAdmit, q ∈ published sampleAdmitted.out := fun q hq => by
    cases hq; decide
  have hk : Effect.newKey (sampleMint 5).kp.pk (sampleMint 5).kp.sk (UInt64.ofNat 5) ∈
      (step sampleEnv sampleRequester sampleAdmit).2 := by decide
  exact ⟨sealOpenSound_sampleEnv, groupReachable_sampleAdmitted, hs, hd, hk,
    handed_keys_minted sealOpenSound_sampleEnv groupReachable_sampleAdmitted hs hd hk⟩

set_option maxRecDepth 4000 in
theorem fabric_carries_minted_keys_sample :
    GroupReachable sampleEnv sampleGroup ∧
      admitPub sampleEnv sampleKeyMaker (sampleTp 2) (sampleTp 2).bytes 7 ∈ published sampleGroup.out ∧
      ((admitPub sampleEnv sampleKeyMaker (sampleTp 2) (sampleTp 2).bytes 7).content = [] ∨
        ∃ mi ∈ sampleGroup.mints,
          CarriesKey sampleEnv (mintKey mi) (admitPub sampleEnv sampleKeyMaker (sampleTp 2) (sampleTp 2).bytes 7)) := by
  have hp : admitPub sampleEnv sampleKeyMaker (sampleTp 2) (sampleTp 2).bytes 7 ∈
      published sampleGroup.out := by decide
  exact ⟨groupReachable_sampleGroup, hp, fabric_carries_minted_keys groupReachable_sampleGroup hp⟩

open SgKeyDist.EventLoop in
def sampleSchedule : List (Nat × LoopEvent) :=
  [(0, .setup), (0, .electionDone true 1 (sampleMint 5)), (1, .setup),
    (1, .electionDone false 1 (sampleMint 5)),
    (1, .deliver (samplePeer 2).m_krPrefix (anchorPub sampleKeyMaker (sampleMint 5).pubNow) 6),
    (0, .deliver (samplePeer 1).m_mrPrefix (mrPub (samplePeer 2) 6) 7),
    (1, .deliver (samplePeer 2).m_krPrefix
      (admitPub sampleEnv sampleKeyMaker (sampleTp 2) (sampleTp 2).bytes 7) 8)]

open SgKeyDist.EventLoop in
def sampleStart : LoopGroup := ⟨[samplePeer 1, samplePeer 2].map (·, Loop.init), [], []⟩

set_option maxRecDepth 4000 in
theorem sampleSchedule_allowed : (runLoops sampleEnv sampleStart sampleSchedule).isSome = true := by
  decide

def sampleLoopGroup : LoopGroup := (runLoops sampleEnv sampleStart sampleSchedule).get sampleSchedule_allowed

theorem loopGroupReachable_sampleLoopGroup : LoopGroupReachable sampleEnv sampleLoopGroup := by
  have h₀ : LoopGroupReachable sampleEnv sampleStart := by
    refine .init _ fun s hs => ?_
    rcases List.mem_pair.mp hs with rfl | rfl <;> exact ⟨_, _, _, _, _, _, rfl⟩
  exact h₀.runLoops (Option.some_get sampleSchedule_allowed).symm

end Sample

end SgKeyDist.Fabric
