import SgKeyDist.Rekey
import SgKeyDist.Refresh

namespace SgKeyDist.Connect

open SgKeyDist.ByteOrder SgKeyDist.Tlv SgKeyDist.Identity SgKeyDist.Members SgKeyDist.KeyRecord
open SgKeyDist.State SgKeyDist.Member SgKeyDist.KeyMaker SgKeyDist.Peer SgKeyDist.Receiver
open SgKeyDist.Rekey SgKeyDist.Refresh

/-- `crypto_box_seal_open` writes `clen - crypto_box_SEALBYTES` bytes into its buffer. -/
def SealOpenSized (E : Env) : Prop :=
  ∀ c pk sk m, E.sodium.boxSealOpen c pk sk = some m → m.length = c.length - crypto_box_SEALBYTES

/-- A key handed to the application among `es`, with a secret unless the identity is
publish-only. -/
def HasKey (subr : Bool) (es : List Effect) : Prop :=
  ∃ pk sk ct, Effect.newKey pk sk ct ∈ es ∧ (subr = true → sk ≠ [])

/-- Every `connected` among `es` comes after a key handed over among `es`. -/
def KeyFirst (subr : Bool) (es : List Effect) : Prop :=
  ∀ pre post, es = pre ++ .connected :: post → HasKey subr pre

section Keys

variable {b : Bool} {es fs : List Effect}

theorem HasKey.mono (h : HasKey b es) (hs : es ⊆ fs) : HasKey b fs :=
  let ⟨pk, sk, ct, hm, hk⟩ := h
  ⟨pk, sk, ct, hs hm, hk⟩

theorem hasKey_newKey {pk sk : Bytes} {ct : UInt64} (h : b = true → sk ≠ []) :
    HasKey b (.newKey pk sk ct :: es) :=
  ⟨pk, sk, ct, List.mem_cons_self _ _, h⟩

theorem keyFirst_of_not_mem (h : Effect.connected ∉ es) : KeyFirst b es :=
  fun pre _ he => absurd (he ▸ List.mem_append_right pre (List.mem_cons_self _ _)) h

theorem keyFirst_newKey {pk sk : Bytes} {ct : UInt64} (h : b = true → sk ≠ []) (es : List Effect) :
    KeyFirst b (.newKey pk sk ct :: es) := fun pre post he => by
  cases pre with
  | nil => cases he
  | cons e pre =>
    obtain ⟨rfl, -⟩ := List.cons.inj he
    exact hasKey_newKey h

theorem KeyFirst.append (h₁ : KeyFirst b es) (h₂ : HasKey b es ∨ KeyFirst b fs) :
    KeyFirst b (es ++ fs) := fun pre post he => by
  rcases List.append_eq_append_iff.mp he with ⟨a, rfl, hfs⟩ | ⟨c, hes, hc⟩
  · rcases h₂ with h | h
    · exact h.mono (List.subset_append_left _ _)
    · exact (h a post hfs).mono (List.subset_append_right _ _)
  · cases c with
    | nil =>
      rw [List.append_nil] at hes
      subst hes
      rcases h₂ with h | h
      · exact h
      · obtain ⟨_, _, _, hm, -⟩ := h [] post hc.symm
        exact absurd hm (List.not_mem_nil _)
    | cons x c =>
      obtain ⟨rfl, -⟩ := List.cons.inj hc
      exact h₁ pre c hes

theorem splitEgkr_sealed_length : ∀ (n : Nat) (v : Bytes), n * egkrSize ≤ v.length →
    ∀ r ∈ splitEgkr n v, r.2.length = encSGKeySz
  | 0, _, _, _, h => by simp [splitEgkr] at h
  | n + 1, v, hv, r, h => by
    have h112 : egkrSize = thumbPrintS + encSGKeySz := rfl
    rw [splitEgkr, List.mem_cons] at h
    rcases h with rfl | h
    · rw [List.length_take, List.length_drop, Nat.succ_mul] at *; omega
    · exact splitEgkr_sealed_length n _ (by rw [List.length_drop, Nat.succ_mul] at *; omega) r h

theorem opened_ne_nil {E : Env} (hopen : SealOpenSized E) {v nk pk sk m tp tp' : Bytes}
    (hf : (toSpanEgkr v).find? (fun r => r.1 == tp) = some (tp', nk))
    (ho : E.sodium.boxSealOpen nk pk sk = some m) : m ≠ [] := by
  have hl := splitEgkr_sealed_length _ v (Nat.div_mul_le_self _ _) _ (List.mem_of_find?_eq_some hf)
  have hm := hopen _ _ _ _ ho
  rw [hl] at hm
  exact List.ne_nil_of_length_pos (by rw [hm]; decide)

end Keys

section Moves

variable {E : Env} {b : Bool} {s s₁ s₂ s' : DistSGKey} {es fs : List Effect}

/-- What a method does to the connection and the held key: each `connected` spends the init
flag, which nothing sets again; a non-zero creation time held afterwards was held before or
came with a key handed over; and a publication with a delivery callback comes with a key
handed over. -/
structure ConnectMove (b : Bool) (s s' : DistSGKey) (es : List Effect) : Prop where
  connects : es.count .connected + s'.m_init.toNat ≤ s.m_init.toNat
  keyCT : s'.m_curKeyCT ≠ 0 → s'.m_curKeyCT = s.m_curKeyCT ∨ HasKey b es
  confirmed : ∀ p, Effect.publishConfirmed p ∈ es → HasKey b es

theorem ConnectMove.quiet (hi : s'.m_init = s.m_init) (hct : s'.m_curKeyCT = s.m_curKeyCT ∨ s'.m_curKeyCT = 0)
    (hc : Effect.connected ∉ es) (hp : ∀ p, Effect.publishConfirmed p ∉ es) : ConnectMove b s s' es where
  connects := by rw [List.count_eq_zero.mpr hc, hi]; omega
  keyCT := fun h => .inl (hct.resolve_right h)
  confirmed := fun p h => absurd h (hp p)

theorem ConnectMove.trans (h₁ : ConnectMove b s s₁ es) (h₂ : ConnectMove b s₁ s₂ fs) :
    ConnectMove b s s₂ (es ++ fs) where
  connects := by have := h₁.connects; have := h₂.connects; rw [List.count_append]; omega
  keyCT := fun h => by
    rcases h₂.keyCT h with h' | h'
    · rcases h₁.keyCT (h' ▸ h) with h'' | h''
      · exact .inl (h'.trans h'')
      · exact .inr (h''.mono (List.subset_append_left _ _))
    · exact .inr (h'.mono (List.subset_append_right _ _))
  confirmed := fun p h => by
    rcases List.mem_append.mp h with h | h
    · exact (h₁.confirmed p h).mono (List.subset_append_left _ _)
    · exact (h₂.confirmed p h).mono (List.subset_append_right _ _)

theorem ConnectMove.of_hasKey (hc : es.count .connected + s'.m_init.toNat ≤ s.m_init.toNat)
    (hk : HasKey b es) : ConnectMove b s s' es :=
  ⟨hc, fun _ => .inr hk, fun _ _ => hk⟩

theorem ConnectMove.of_eq (h : ConnectMove b s₁ s' es) (hi : s₁.m_init = s.m_init)
    (hct : s₁.m_curKeyCT = s.m_curKeyCT) : ConnectMove b s s' es :=
  ⟨hi ▸ h.connects, hct ▸ h.keyCT, h.confirmed⟩

theorem connected_not_mem_publishMembershipReq (s : DistSGKey) (now : Nat) :
    Effect.connected ∉ (publishMembershipReq s now).2 := by
  unfold publishMembershipReq; split <;> simp

theorem connectMove_initDone (s : DistSGKey) : ConnectMove b s (initDone s).1 (initDone s).2 := by
  unfold initDone
  split
  · exact ⟨by simp [*], fun h => .inl rfl, by simp⟩
  · exact .quiet rfl (.inl rfl) (by simp) (by simp)

theorem connectMove_publishMembershipReq (s : DistSGKey) (now : Nat) :
    ConnectMove b s (publishMembershipReq s now).1 (publishMembershipReq s now).2 := by
  unfold publishMembershipReq
  split <;> exact .quiet rfl (.inl rfl) (by simp) (by simp)

theorem connectMove_makeSGKey (E : Env) (s : DistSGKey) (mi : Mint) :
    ConnectMove b s (makeSGKey E s mi).1 (makeSGKey E s mi).2 := by
  have hsk : b = true → mi.kp.sk ≠ [] := fun _ h => by
    have := mi.kp.sk_size; rw [h] at this; cases this
  have hl : Effect.connected ∉ publishLoop (minted E s mi) mi.pubNow (sealedPairs E (minted E s mi)) 0
      (pubCount (minted E s mi).m_mbrList.size) (minted E s mi).m_mbrList.size 0 :=
    fun h => by simpa [Effect.pub?] using pub_publishLoop _ _ _ _ _ _ _ _ h
  unfold makeSGKey; dsimp only
  split_ifs with h
  · have hi : s.m_init = true := (Bool.and_eq_true _ _ ▸ h).1
    refine .of_hasKey ?_ (hasKey_newKey hsk)
    have hd : initDone (minted E s mi) = ({ minted E s mi with m_init := false }, [.connected]) := by
      simp only [initDone, minted, hi, if_true]
    simp only [andThen_snd, andThen_fst, hd, List.count_append, List.count_cons, List.count_eq_zero.mpr hl]
    simp [hi]
  · refine .of_hasKey ?_ (hasKey_newKey hsk)
    rw [List.count_cons, List.count_eq_zero.mpr hl]
    simp only [minted]
    cases s.m_init <;> simp

theorem keyFirst_makeSGKey (E : Env) (s : DistSGKey) (mi : Mint) : KeyFirst b (makeSGKey E s mi).2 := by
  have hsk : b = true → mi.kp.sk ≠ [] := fun _ h => by
    have := mi.kp.sk_size; rw [h] at this; cases this
  unfold makeSGKey; dsimp only
  split_ifs
  · rw [andThen_snd, List.cons_append]; exact keyFirst_newKey hsk _
  · exact keyFirst_newKey hsk _

theorem connectMove_nil (s : DistSGKey) : ConnectMove b s s [] ∧ KeyFirst b [] :=
  ⟨.quiet rfl (.inl rfl) (by simp) (by simp), keyFirst_of_not_mem (List.not_mem_nil _)⟩

theorem connectMove_adoptKey (hopen : SealOpenSized E) (s : DistSGKey) (c : Bytes) :
    ConnectMove s.m_subr s (adoptKey E s c).1 (adoptKey E s c).2 ∧
      KeyFirst s.m_subr (adoptKey E s c).2 := by
  rcases adoptKey_spec E s c with h | ⟨_, _, _, _, -, -, -, ⟨hs, h⟩ | ⟨_, _, _, _, sk, -, -, hf, ho, h⟩⟩ <;>
    rw [h]
  · exact connectMove_nil s
  · have hk : s.m_subr = true → ([] : Bytes) ≠ [] := fun h => by simp [h] at hs
    exact ⟨(ConnectMove.of_hasKey (by simp) (hasKey_newKey hk)).trans (connectMove_initDone _),
      keyFirst_newKey hk _⟩
  · have hk : s.m_subr = true → sk ≠ [] := fun _ => opened_ne_nil hopen hf ho
    refine ⟨((ConnectMove.of_hasKey (by simp [receivedGK]) (hasKey_newKey hk)).trans
      (.quiet rfl (.inl rfl) (by simp [receivedGK]) (by simp [receivedGK]))).trans (connectMove_initDone _), ?_⟩
    simp only [andThen_snd, andThen_fst, receivedGK, List.singleton_append, List.cons_append]
    exact keyFirst_newKey hk _

theorem connectMove_checkDrift {e : Nat} (hc : checkEpoch s e = some s₁) (signer : ThumbPrint) :
    ConnectMove b s (checkDrift s₁ signer) [] := by
  refine .quiet ?_ ?_ (by simp) (by simp) <;>
    rcases checkEpoch_some hc with rfl | ⟨-, -, rfl⟩ <;> rw [checkDrift_eq] <;> simp only
  all_goals split_ifs <;> simp

theorem connectMove_receiveAsMember (hopen : SealOpenSized E) (s : DistSGKey) (p : Pub) (now : Nat) :
    ConnectMove s.m_subr s (receiveAsMember E s p now).1 (receiveAsMember E s p now).2 ∧
      KeyFirst s.m_subr (receiveAsMember E s p now).2 := by
  rcases receiveAsMember_spec E s p now with h | h | h | ⟨e, s₁, h₁, h⟩
  · rw [h]; exact ⟨connectMove_publishMembershipReq s now,
      keyFirst_of_not_mem (connected_not_mem_publishMembershipReq s now)⟩
  · rw [h]; exact ⟨.quiet rfl (.inl rfl) (by simp) (by simp), keyFirst_of_not_mem (by simp)⟩
  · rw [h]; exact connectMove_nil s
  have hd := connectMove_checkDrift (b := s.m_subr) h₁ p.signer
  have hs : (checkDrift s₁ p.signer).m_subr = s.m_subr :=
    congrArg Untouched.m_subr ((checkDrift_untouched _ _).trans (checkEpoch_untouched h₁))
  rcases h with h | h | h <;> rw [h]
  · exact ⟨hd.trans (.quiet rfl (.inl rfl) (by simp) (by simp)), keyFirst_of_not_mem (by simp)⟩
  · exact ⟨hd, keyFirst_of_not_mem (List.not_mem_nil _)⟩
  · obtain ⟨h₂, hk⟩ := connectMove_adoptKey hopen (checkDrift s₁ p.signer) p.content
    rw [hs] at h₂ hk
    exact ⟨hd.trans h₂, hk⟩

theorem connectMove_receiveSGKeyRecords (hopen : SealOpenSized E) (s : DistSGKey) (p : Pub) (now : Nat) :
    ConnectMove s.m_subr s (receiveSGKeyRecords E s p now).1 (receiveSGKeyRecords E s p now).2 ∧
      KeyFirst s.m_subr (receiveSGKeyRecords E s p now).2 := by
  unfold receiveSGKeyRecords
  split_ifs
  · exact connectMove_nil s
  · unfold demote; split_ifs
    · rw [andThen_fst, andThen_snd]
      refine ⟨ConnectMove.trans ?_ (connectMove_publishMembershipReq _ now), keyFirst_of_not_mem ?_⟩
      · exact .quiet rfl (.inl rfl) (by simp) (by simp)
      · simpa using connected_not_mem_publishMembershipReq _ now
    · exact connectMove_nil s
  · exact connectMove_receiveAsMember hopen s p now

theorem connectMove_setup (E : Env) (s : DistSGKey) :
    ConnectMove b s (setup E s).1 (setup E s).2 ∧ (KeyFirst b (setup E s).2 ∨
      (s.m_keyColl = asBytes "pubs" ∨ s.m_pubdist = true) ∧ isRelay E s.m_tp = true) := by
  unfold setup
  generalize hs₁ : (if s.m_keyColl = asBytes "pubs" then { s with m_pubdist := true } else s) = s₁
  have hp : s₁.m_init = s.m_init ∧ s₁.m_curKeyCT = s.m_curKeyCT ∧ s₁.m_tp = s.m_tp ∧
      (s₁.m_pubdist = true → s.m_keyColl = asBytes "pubs" ∨ s.m_pubdist = true) := by
    subst hs₁; split_ifs with hc
    exacts [⟨rfl, rfl, rfl, fun _ => .inl hc⟩, ⟨rfl, rfl, rfl, .inr⟩]
  dsimp only
  split_ifs with hr
  · rw [Bool.and_eq_true] at hr
    exact ⟨(connectMove_initDone s₁).of_eq hp.1 hp.2.1, .inr ⟨hp.2.2.2 hr.1, hp.2.2.1 ▸ hr.2⟩⟩
  all_goals exact ⟨.quiet hp.1 (.inl hp.2.1) (by simp) (by simp), .inl (keyFirst_of_not_mem (by simp))⟩

theorem connectMove_sgkeyTimeout (E : Env) (s : DistSGKey) (mi : Mint) :
    ConnectMove b s (sgkeyTimeout E s mi).1 (sgkeyTimeout E s mi).2 ∧ KeyFirst b (sgkeyTimeout E s mi).2 := by
  unfold sgkeyTimeout
  split
  · exact connectMove_nil s
  · rw [andThen_fst, andThen_snd]
    exact ⟨(connectMove_makeSGKey E s mi).trans (.quiet rfl (.inl rfl) (by simp) (by simp)),
      (keyFirst_makeSGKey E s mi).append (.inr (keyFirst_of_not_mem (by simp)))⟩

theorem connectMove_electionDone (E : Env) (s : DistSGKey) (elected : Bool) (epoch : UInt32) (mi : Mint) :
    ConnectMove b s (electionDone E s elected epoch mi).1 (electionDone E s elected epoch mi).2 ∧
      KeyFirst b (electionDone E s elected epoch mi).2 := by
  unfold electionDone; dsimp only
  split
  · exact ⟨.quiet rfl (.inl rfl) (by simp) (by simp), keyFirst_of_not_mem (by simp)⟩
  · rw [andThen_fst, andThen_snd]
    obtain ⟨h₁, h₂⟩ := connectMove_sgkeyTimeout (b := b) E { s with m_keyMaker := elected, m_KMepoch := epoch } mi
    refine ⟨ConnectMove.trans ?_ h₁, (keyFirst_of_not_mem (by simp)).append (.inr h₂)⟩
    exact .quiet rfl (.inl rfl) (by simp) (by simp)

theorem connectMove_addGroupMem (E : Env) (s : DistSGKey) (q : Pub) (now : Nat) :
    ConnectMove b s (addGroupMem E s q now).1 (addGroupMem E s q now).2 ∧
      (KeyFirst b (addGroupMem E s q now).2 ∨ s.m_curKeyCT ≠ 0) := by
  rcases addGroupMem_cases E s q now with h | h | ⟨x, -, -, -, ⟨-, h⟩ | ⟨hct, h⟩⟩ <;> rw [h]
  · exact ⟨(connectMove_nil s).1, .inl (connectMove_nil s).2⟩
  all_goals try exact ⟨.quiet rfl (.inl rfl) (by simp) (by simp), .inl (keyFirst_of_not_mem (by simp))⟩
  rw [andThen_fst, andThen_snd]
  refine ⟨ConnectMove.trans ?_ (connectMove_initDone _), .inr hct⟩
  exact .quiet rfl (.inl rfl) (by simp) (by simp)

theorem connectMove_removeGroupMem (E : Env) (s : DistSGKey) (tp : ThumbPrint) (reKey : Bool) (mi : Mint) :
    ConnectMove b s (removeGroupMem E s tp reKey mi).1 (removeGroupMem E s tp reKey mi).2 ∧
      KeyFirst b (removeGroupMem E s tp reKey mi).2 := by
  cases reKey
  · exact ⟨.quiet rfl (.inl rfl) (by simp [removeGroupMem]) (by simp [removeGroupMem]),
      keyFirst_of_not_mem (by simp [removeGroupMem])⟩
  · exact ⟨(connectMove_makeSGKey E { s with m_mbrList := s.m_mbrList.erase tp } mi).of_eq rfl rfl,
      keyFirst_makeSGKey E _ mi⟩

theorem connectMove_step (hopen : SealOpenSized E) (s : DistSGKey) (ev : Event) :
    ConnectMove s.m_subr s (step E s ev).1 (step E s ev).2 ∧
      (KeyFirst s.m_subr (step E s ev).2 ∨
        (ev = .setup ∧ (s.m_keyColl = asBytes "pubs" ∨ s.m_pubdist = true) ∧
          isRelay E s.m_tp = true) ∨
        ev = .delivered true ∨ s.m_curKeyCT ≠ 0) := by
  cases ev with
  | setup =>
    obtain ⟨h, hk | hr⟩ := connectMove_setup (b := s.m_subr) E s
    exacts [⟨h, .inl hk⟩, ⟨h, .inr (.inl ⟨rfl, hr⟩)⟩]
  | electionDone elected epoch mi =>
    obtain ⟨h, hk⟩ := connectMove_electionDone (b := s.m_subr) E s elected epoch mi
    exact ⟨h, .inl hk⟩
  | receiveSGKeyRecords q now =>
    obtain ⟨h, hk⟩ := connectMove_receiveSGKeyRecords hopen s q now
    exact ⟨h, .inl hk⟩
  | addGroupMem q now =>
    obtain ⟨h, hk | hct⟩ := connectMove_addGroupMem (b := s.m_subr) E s q now
    exacts [⟨h, .inl hk⟩, ⟨h, .inr (.inr (.inr hct))⟩]
  | sgkeyTimeout mi =>
    obtain ⟨h, hk⟩ := connectMove_sgkeyTimeout (b := s.m_subr) E s mi
    exact ⟨h, .inl hk⟩
  | publishMembershipReq now =>
    exact ⟨connectMove_publishMembershipReq s now,
      .inl (keyFirst_of_not_mem (connected_not_mem_publishMembershipReq s now))⟩
  | delivered ok =>
    cases ok
    · exact ⟨(connectMove_nil s).1, .inl (connectMove_nil s).2⟩
    · exact ⟨connectMove_initDone s, .inr (.inr (.inl rfl))⟩
  | removeGroupMem tp reKey mi =>
    obtain ⟨h, hk⟩ := connectMove_removeGroupMem (b := s.m_subr) E s tp reKey mi
    exact ⟨h, .inl hk⟩

end Moves

section Runs

variable {E : Env} {b : Bool} {s : DistSGKey} {es : List Effect}

/-- What holds along a run of a peer of SG capability `b` after effects `es`: a creation time
it holds came with a key handed over, and so did every publication with a delivery
callback. -/
structure KeyHeld (b : Bool) (s : DistSGKey) (es : List Effect) : Prop where
  subr : s.m_subr = b
  keyCT : s.m_curKeyCT ≠ 0 → HasKey b es
  confirmed : ∀ p, Effect.publishConfirmed p ∈ es → HasKey b es

theorem KeyHeld.step (hopen : SealOpenSized E) (h : KeyHeld b s es) (ev : Event) :
    KeyHeld b (step E s ev).1 (es ++ (step E s ev).2) := by
  have hm := (connectMove_step hopen s ev).1
  rw [h.subr] at hm
  refine ⟨(move_step E s ev).1.trans h.subr, fun hct => ?_, fun p hp => ?_⟩
  · rcases hm.keyCT hct with heq | hk
    · exact (h.keyCT (heq ▸ hct)).mono (List.subset_append_left _ _)
    · exact hk.mono (List.subset_append_right _ _)
  · rcases List.mem_append.mp hp with hp | hp
    · exact (h.confirmed p hp).mono (List.subset_append_left _ _)
    · exact (hm.confirmed p hp).mono (List.subset_append_right _ _)

theorem KeyHeld.run (hopen : SealOpenSized E) (h : KeyHeld b s es) (evs : List Event) :
    KeyHeld b (run E s evs).1 (es ++ (run E s evs).2) := by
  induction evs generalizing s es with
  | nil => simpa [run] using h
  | cons ev evs ih =>
    simpa only [run, andThen_fst, andThen_snd, List.append_assoc] using ih (h.step hopen ev)

theorem run_connects (hopen : SealOpenSized E) (s : DistSGKey) (evs : List Event) :
    (run E s evs).2.count .connected + (run E s evs).1.m_init.toNat ≤ s.m_init.toNat := by
  induction evs generalizing s with
  | nil => simp [run]
  | cons ev evs ih =>
    have h₁ := (connectMove_step hopen s ev).1.connects
    have h₂ := ih (step E s ev).1
    simp only [run, andThen_fst, andThen_snd, List.count_append]
    omega

theorem run_keyColl (h : Wf E s) (evs : List Event) : (run E s evs).1.m_keyColl = s.m_keyColl := by
  induction evs generalizing s with
  | nil => rfl
  | cons ev evs ih => exact (ih (h.step ev)).trans (keyColl_step h ev)

theorem run_tp (E : Env) (s : DistSGKey) (evs : List Event) : (run E s evs).1.m_tp = s.m_tp := by
  induction evs generalizing s with
  | nil => rfl
  | cons ev evs ih =>
    exact (ih (step E s ev).1).trans (congrArg Pub.signer (congrFun (mrPub_step E s ev) 0))

/-- `m_connCb(true)` fires at most once in a run of a constructed instance, and only after the
instance handed a key to the application, with a secret if it is a subscriber, except by the
short-cut `setup` takes for a relay distributing the pubs collection. The environment calls a delivery callback only for a publication
sent with one, and `crypto_box_seal_open` keeps its contract. -/
theorem connected_once_after_key (hopen : SealOpenSized E) (pPre : Name) (keyColl : Bytes)
    (tp : ThumbPrint) (sk : Bytes) (ri rr : Nat) {s₀ : DistSGKey}
    (hs₀ : s₀ = construct E pPre keyColl tp sk ri rr) (evs : List Event)
    (hdel : ∀ evs₁ evs₂, evs = evs₁ ++ .delivered true :: evs₂ →
      ∃ p, Effect.publishConfirmed p ∈ (run E s₀ evs₁).2) :
    (run E s₀ evs).2.count .connected ≤ 1 ∧
    ∀ evs₁ ev evs₂, evs = evs₁ ++ ev :: evs₂ → ∀ pre post,
      (step E (run E s₀ evs₁).1 ev).2 = pre ++ .connected :: post →
        (ev = .setup ∧ keyColl = asBytes "pubs" ∧ isRelay E tp = true) ∨
          HasKey s₀.m_subr ((run E s₀ evs₁).2 ++ pre) := by
  have hc : s₀.m_curKeyCT = 0 ∧ s₀.m_tp = tp ∧ s₀.m_keyColl = keyColl := by
    rw [hs₀]; unfold construct; dsimp only; split_ifs <;> exact ⟨rfl, rfl, rfl⟩
  have h₀ : KeyHeld s₀.m_subr s₀ [] := ⟨rfl, fun h => absurd hc.1 h, fun _ h => absurd h (List.not_mem_nil _)⟩
  refine ⟨by have := run_connects hopen s₀ evs; have := Bool.toNat_le s₀.m_init; omega, ?_⟩
  intro evs₁ ev evs₂ hevs pre post he
  have hw : Wf E (run E s₀ evs₁).1 := (hs₀ ▸ Reachable.construct pPre keyColl tp sk ri rr).run evs₁ |>.wf
  have hkc : (run E s₀ evs₁).1.m_keyColl = keyColl :=
    (run_keyColl (hs₀ ▸ wf_construct E pPre keyColl tp sk ri rr) evs₁).trans hc.2.2
  have hk := h₀.run hopen evs₁
  rw [List.nil_append] at hk
  have hev := (connectMove_step hopen (run E s₀ evs₁).1 ev).2
  rw [hk.subr, run_tp, hc.2.1] at hev
  rcases hev with hf | ⟨hev, hpubs, hr⟩ | rfl | hct
  · exact .inr ((hf pre post he).mono (List.subset_append_right _ _))
  · -- the relay short-cut is taken only by a distributor of the pubs collection
    have hpd := hw.pubdist
    refine .inl ⟨hev, hkc ▸ hpubs.elim id fun h => ?_, hr⟩
    rw [h, eq_comm, beq_iff_eq] at hpd
    exact hpd
  · obtain ⟨p, hp⟩ := hdel evs₁ evs₂ hevs
    exact .inr ((hk.confirmed p hp).mono (List.subset_append_left _ _))
  · exact .inr ((hk.keyCT hct).mono (List.subset_append_left _ _))

def sampleJoin : List Event :=
  [.electionDone false 1 (sampleMint 5), .publishMembershipReq 6,
    .receiveSGKeyRecords (admitPub sampleEnv sampleKeyMaker (sampleTp 2) (sampleTp 2).bytes 7) 8]

set_option maxRecDepth 4000 in
theorem connected_once_after_key_sample :
    SealOpenSized sampleEnv ∧
    (∀ evs₁ evs₂, sampleJoin = evs₁ ++ .delivered true :: evs₂ →
      ∃ p, Effect.publishConfirmed p ∈ (run sampleEnv (samplePeer 2) evs₁).2) ∧
    Effect.connected ∈ (run sampleEnv (samplePeer 2) sampleJoin).2 ∧
    (run sampleEnv (samplePeer 2) sampleJoin).2.count .connected ≤ 1 ∧
    ∀ evs₁ ev evs₂, sampleJoin = evs₁ ++ ev :: evs₂ → ∀ pre post,
      (step sampleEnv (run sampleEnv (samplePeer 2) evs₁).1 ev).2 = pre ++ .connected :: post →
        (ev = .setup ∧ asBytes "sg" = asBytes "pubs" ∧ isRelay sampleEnv (sampleTp 2) = true) ∨
          HasKey (samplePeer 2).m_subr ((run sampleEnv (samplePeer 2) evs₁).2 ++ pre) := by
  have hopen : SealOpenSized sampleEnv := fun c _ _ m h => by
    cases h; exact List.length_drop _ _
  have hdel : ∀ evs₁ evs₂, sampleJoin = evs₁ ++ .delivered true :: evs₂ →
      ∃ p, Effect.publishConfirmed p ∈ (run sampleEnv (samplePeer 2) evs₁).2 := fun evs₁ evs₂ h => by
    have : Event.delivered true ∈ sampleJoin := h ▸ List.mem_append_right _ (List.mem_cons_self _ _)
    simp [sampleJoin] at this
  have hconn : Effect.connected ∈ (run sampleEnv (samplePeer 2) sampleJoin).2 := by decide
  exact ⟨hopen, hdel, hconn,
    connected_once_after_key hopen [asBytes "g"] (asBytes "sg") (sampleTp 2) [] 1000 10 rfl sampleJoin hdel⟩

end Runs

end SgKeyDist.Connect
