import SgKeyDist.Receiver

namespace SgKeyDist.Refresh

open SgKeyDist.ByteOrder SgKeyDist.Identity SgKeyDist.Members SgKeyDist.KeyRecord
open SgKeyDist.State SgKeyDist.Member SgKeyDist.KeyMaker SgKeyDist.Peer SgKeyDist.Receiver

/-- The refresh timers in the queue: `armed` are those scheduled and neither fired nor
cancelled, `handle` the one `m_mrRefresh` points to, and `next` the id the next one gets. -/
structure RefreshTimers where
  armed : List Nat
  handle : Nat
  next : Nat
  deriving DecidableEq, Repr

namespace RefreshTimers

/-- `m_mrRefresh` as the member initializer makes it: a timer never scheduled. -/
def init : RefreshTimers := ⟨[], 0, 1⟩

/-- `m_mrRefresh->cancel()`: the timer the handle points to is disarmed, if it was armed. -/
def cancel (t : RefreshTimers) : RefreshTimers := { t with armed := t.armed.erase t.handle }

/-- `m_mrRefresh = m_sync.schedule(...)`: a new timer is armed and the handle points to it. -/
def schedule (t : RefreshTimers) : RefreshTimers := ⟨t.next :: t.armed, t.next, t.next + 1⟩

/-- What one effect of a method does to the refresh timers. -/
def apply (t : RefreshTimers) : Effect → RefreshTimers
  | .cancelRefresh => t.cancel
  | .scheduleRefresh _ => t.schedule
  | _ => t

def applyAll (t : RefreshTimers) (es : List Effect) : RefreshTimers := es.foldl apply t

theorem applyAll_append (t : RefreshTimers) (es fs : List Effect) :
    t.applyAll (es ++ fs) = (t.applyAll es).applyAll fs := List.foldl_append _ _ _ _

end RefreshTimers

open RefreshTimers

/-- What the instance's event loop runs: one of its methods, or the refresh timer `id` firing,
whose callback is `publishMembershipReq`. -/
inductive SysEvent
  | call (ev : Event)
  | refreshFires (id now : Nat)

def sysStep (E : Env) (st : DistSGKey × RefreshTimers) : SysEvent → DistSGKey × RefreshTimers
  | .call ev => ((step E st.1 ev).1, st.2.applyAll (step E st.1 ev).2)
  | .refreshFires id now => ((publishMembershipReq st.1 now).1,
      { st.2 with armed := st.2.armed.erase id }.applyAll (publishMembershipReq st.1 now).2)

/-- The states an instance and its refresh timers reach from construction, where a refresh
timer fires only while armed. -/
inductive SysReachable (E : Env) : DistSGKey × RefreshTimers → Prop
  | construct (pPre : Name) (keyColl : Bytes) (tp : ThumbPrint) (sk : Bytes) (ri rr : Nat) :
      SysReachable E (construct E pPre keyColl tp sk ri rr, .init)
  | call {st : DistSGKey × RefreshTimers} (ev : Event) :
      SysReachable E st → SysReachable E (sysStep E st (.call ev))
  | fire {st : DistSGKey × RefreshTimers} (id now : Nat) :
      SysReachable E st → id ∈ st.2.armed → SysReachable E (sysStep E st (.refreshFires id now))

section Moves

variable {E : Env} {s s₁ s' : DistSGKey} {es fs : List Effect}

/-- Effects that leave the refresh timers alone. -/
def Quiet (es : List Effect) : Prop := ∀ e ∈ es, ∀ t : RefreshTimers, t.apply e = t

theorem applyAll_quiet (h : Quiet es) (t : RefreshTimers) : t.applyAll es = t := by
  induction es generalizing t with
  | nil => rfl
  | cons e es ih =>
    rw [applyAll, List.foldl_cons, h e (List.mem_cons_self _ _), ← applyAll]
    exact ih (fun e' he' => h e' (List.mem_cons_of_mem _ he')) t

theorem Quiet.append (h₁ : Quiet es) (h₂ : Quiet fs) : Quiet (es ++ fs) :=
  fun e he => (List.mem_append.mp he).elim (h₁ e) (h₂ e)

theorem quiet_of_pub {e : Effect} (h : e.pub?.isSome) (t : RefreshTimers) : t.apply e = t := by
  cases e <;> first | rfl | simp [Effect.pub?] at h

theorem quiet_initDone (s : DistSGKey) : Quiet (initDone s).2 := by
  unfold initDone; split <;> simp [Quiet, apply]

theorem quiet_publishLoop (s : DistSGKey) (ts : Nat) (pairs : List (ThumbPrint × Bytes))
    (k i rem it : Nat) : Quiet (publishLoop s ts pairs i k rem it) :=
  fun e he => quiet_of_pub (pub_publishLoop s ts pairs k i rem it e he)

theorem quiet_makeSGKey (E : Env) (s : DistSGKey) (mi : Mint) : Quiet (makeSGKey E s mi).2 := by
  have hk : Quiet [Effect.newKey (minted E s mi).m_sgPK (minted E s mi).m_sgSK (minted E s mi).m_curKeyCT] := by
    simp [Quiet, apply]
  have hl := quiet_publishLoop (minted E s mi) mi.pubNow (sealedPairs E (minted E s mi))
    (pubCount (minted E s mi).m_mbrList.size) 0 (minted E s mi).m_mbrList.size 0
  unfold makeSGKey; dsimp only
  split_ifs
  · exact (hk.append hl).append (quiet_initDone _)
  · exact hk.append hl

/-- What a method can do to the request flag and the refresh timer, leaving the identity's
SG capability alone: nothing; clear both, as `receivedGK`; or request anew, as
`publishMembershipReq`, which cancels first and, for a subscriber, schedules a new timer. -/
def RefreshMove (s s' : DistSGKey) (es : List Effect) : Prop :=
  s'.m_subr = s.m_subr ∧
    ((s'.m_mrPending = s.m_mrPending ∧ Quiet es) ∨
     (s'.m_mrPending = false ∧ ∀ t : RefreshTimers, t.applyAll es = t.cancel) ∨
     (s'.m_mrPending = (s.m_mrPending || s.m_subr) ∧
       ∀ t : RefreshTimers, t.applyAll es = if s.m_subr then t.cancel.schedule else t.cancel))

theorem RefreshMove.keep (hp : s'.m_mrPending = s.m_mrPending) (hs : s'.m_subr = s.m_subr)
    (hq : Quiet es) : RefreshMove s s' es := ⟨hs, .inl ⟨hp, hq⟩⟩

theorem RefreshMove.of_eq (hp : s₁.m_mrPending = s.m_mrPending) (hs : s₁.m_subr = s.m_subr)
    (h : RefreshMove s₁ s' es) : RefreshMove s s' es := by
  obtain ⟨hs', h⟩ := h
  exact ⟨hs'.trans hs, by rwa [hp, hs] at h⟩

theorem RefreshMove.congr (hq : Quiet es → Quiet fs) (ha : ∀ t : RefreshTimers, t.applyAll fs = t.applyAll es)
    (h : RefreshMove s s' es) : RefreshMove s s' fs := by
  obtain ⟨hs, h | h | h⟩ := h
  · exact ⟨hs, .inl ⟨h.1, hq h.2⟩⟩
  · exact ⟨hs, .inr (.inl ⟨h.1, fun t => (ha t).trans (h.2 t)⟩)⟩
  · exact ⟨hs, .inr (.inr ⟨h.1, fun t => (ha t).trans (h.2 t)⟩)⟩

theorem RefreshMove.quiet_append (hq : Quiet fs) (h : RefreshMove s s' es) :
    RefreshMove s s' (fs ++ es) :=
  h.congr hq.append fun t => by rw [applyAll_append, applyAll_quiet hq]

theorem RefreshMove.append_quiet (hq : Quiet fs) (h : RefreshMove s s' es) :
    RefreshMove s s' (es ++ fs) :=
  h.congr (·.append hq) fun t => by rw [applyAll_append, applyAll_quiet hq]

theorem move_publishMembershipReq (s : DistSGKey) (now : Nat) :
    RefreshMove s (publishMembershipReq s now).1 (publishMembershipReq s now).2 := by
  refine ⟨by rw [publishMembershipReq_fst], .inr (.inr ⟨by rw [publishMembershipReq_fst], fun t => ?_⟩)⟩
  unfold publishMembershipReq
  cases s.m_subr <;> rfl

theorem move_initDone (s : DistSGKey) : RefreshMove s (initDone s).1 (initDone s).2 :=
  .keep (by rw [initDone_fst]) (by rw [initDone_fst]) (quiet_initDone s)

theorem move_makeSGKey (E : Env) (s : DistSGKey) (mi : Mint) :
    RefreshMove s (makeSGKey E s mi).1 (makeSGKey E s mi).2 :=
  .keep (by rw [makeSGKey_state]; rfl) (by rw [makeSGKey_state]; rfl) (quiet_makeSGKey E s mi)

theorem move_adoptKey (E : Env) (s : DistSGKey) (c : Bytes) :
    RefreshMove s (adoptKey E s c).1 (adoptKey E s c).2 := by
  have hn : ∀ pk sk ct, Quiet [Effect.newKey pk sk ct] := by simp [Quiet, apply]
  rcases adoptKey_spec E s c with h | ⟨_, _, _, _, -, -, -, ⟨-, h⟩ | ⟨_, _, _, _, _, -, -, -, -, h⟩⟩ <;>
    rw [h]
  · exact .keep rfl rfl (by simp [Quiet])
  · exact .keep (by simp [initDone_fst]) (by simp [initDone_fst]) ((hn _ _ _).append (quiet_initDone _))
  · refine ⟨by simp [initDone_fst, receivedGK], .inr (.inl ⟨by simp [initDone_fst, receivedGK], fun t => ?_⟩)⟩
    simp only [andThen_snd, andThen_fst, applyAll_append, applyAll_quiet (hn _ _ _),
      applyAll_quiet (quiet_initDone _), receivedGK]
    rfl

theorem move_receiveAsMember (E : Env) (s : DistSGKey) (p : Pub) (now : Nat) :
    RefreshMove s (receiveAsMember E s p now).1 (receiveAsMember E s p now).2 := by
  rcases receiveAsMember_spec E s p now with h | h | h | ⟨e, s₁, h₁, h⟩
  · rw [h]; exact move_publishMembershipReq s now
  · rw [h]; exact .keep rfl rfl (by simp [Quiet, apply])
  · rw [h]; exact .keep rfl rfl (by simp [Quiet])
  have hp : (checkDrift s₁ p.signer).m_mrPending = s.m_mrPending := by
    rcases checkEpoch_some h₁ with rfl | ⟨-, -, rfl⟩ <;> rw [checkDrift_eq]
  have hs : (checkDrift s₁ p.signer).m_subr = s.m_subr :=
    congrArg Untouched.m_subr ((checkDrift_untouched s₁ p.signer).trans (checkEpoch_untouched h₁))
  rcases h with h | h | h <;> rw [h]
  · exact .keep hp hs (by simp [Quiet, apply])
  · exact .keep hp hs (by simp [Quiet])
  · exact (move_adoptKey E _ p.content).of_eq hp hs

theorem move_receiveSGKeyRecords (E : Env) (s : DistSGKey) (p : Pub) (now : Nat) :
    RefreshMove s (receiveSGKeyRecords E s p now).1 (receiveSGKeyRecords E s p now).2 := by
  unfold receiveSGKeyRecords
  split_ifs
  · exact .keep rfl rfl (by simp [Quiet])
  · unfold demote; split_ifs
    · exact ((move_publishMembershipReq _ now).of_eq rfl rfl).quiet_append (by simp [Quiet, apply])
    · exact .keep rfl rfl (by simp [Quiet])
  · exact move_receiveAsMember E s p now

theorem move_addGroupMem (E : Env) (s : DistSGKey) (q : Pub) (now : Nat) :
    RefreshMove s (addGroupMem E s q now).1 (addGroupMem E s q now).2 := by
  rcases addGroupMem_cases E s q now with h | h | ⟨x, -, -, -, ⟨-, h⟩ | ⟨-, h⟩⟩ <;> rw [h]
  · exact .keep rfl rfl (by simp [Quiet])
  · exact .keep rfl rfl (by simp [Quiet])
  · exact .keep rfl rfl (by simp [Quiet])
  · refine .keep (by simp [initDone_fst]) (by simp [initDone_fst]) (Quiet.append ?_ (quiet_initDone _))
    simp [Quiet, apply]

theorem move_sgkeyTimeout (E : Env) (s : DistSGKey) (mi : Mint) :
    RefreshMove s (sgkeyTimeout E s mi).1 (sgkeyTimeout E s mi).2 := by
  unfold sgkeyTimeout
  split
  · exact .keep rfl rfl (by simp [Quiet])
  · exact (move_makeSGKey E s mi).append_quiet (by simp [Quiet, apply])

theorem move_step (E : Env) (s : DistSGKey) (ev : Event) :
    RefreshMove s (step E s ev).1 (step E s ev).2 := by
  cases ev with
  | setup =>
    show RefreshMove s (setup E s).1 (setup E s).2
    unfold setup
    generalize hs₁ : (if s.m_keyColl = asBytes "pubs" then { s with m_pubdist := true } else s) = s₁
    have hp : s₁.m_mrPending = s.m_mrPending ∧ s₁.m_subr = s.m_subr := by
      subst hs₁; split_ifs <;> exact ⟨rfl, rfl⟩
    dsimp only
    split_ifs
    · exact (move_initDone _).of_eq hp.1 hp.2
    all_goals exact .keep hp.1 hp.2 (by simp [Quiet, apply])
  | electionDone elected epoch mi =>
    show RefreshMove s (electionDone E s elected epoch mi).1 (electionDone E s elected epoch mi).2
    unfold electionDone; dsimp only
    split
    · exact .keep rfl rfl (by simp [Quiet, apply])
    · exact ((move_sgkeyTimeout E _ mi).of_eq rfl rfl).quiet_append (by simp [Quiet, apply])
  | receiveSGKeyRecords q now => exact move_receiveSGKeyRecords E s q now
  | addGroupMem q now => exact move_addGroupMem E s q now
  | sgkeyTimeout mi => exact move_sgkeyTimeout E s mi
  | publishMembershipReq now => exact move_publishMembershipReq s now
  | delivered ok =>
    cases ok
    · exact .keep rfl rfl (by simp [Quiet, step])
    · exact move_initDone s
  | removeGroupMem tp reKey mi =>
    cases reKey
    · exact .keep rfl rfl (by simp [Quiet, step, removeGroupMem])
    · exact (move_makeSGKey E _ mi).of_eq rfl rfl

end Moves

section Tracking

variable {E : Env} {s s' : DistSGKey} {t : RefreshTimers} {es : List Effect}

/-- The refresh timer tracks `m_mrPending`: the one timer armed, if any, is the handle's, and
it is armed exactly while a request is pending, which only a subscriber has. -/
def Tracks (s : DistSGKey) (t : RefreshTimers) : Prop :=
  t.armed = (if s.m_mrPending then [t.handle] else []) ∧ (s.m_mrPending = true → s.m_subr = true)

theorem tracks_construct (E : Env) (pPre : Name) (keyColl : Bytes) (tp : ThumbPrint) (sk : Bytes)
    (ri rr : Nat) : Tracks (construct E pPre keyColl tp sk ri rr) .init := by
  unfold construct; dsimp only; split_ifs <;> exact ⟨rfl, fun h => nomatch h⟩

theorem Tracks.cancel_armed (h : Tracks s t) : t.cancel.armed = [] := by
  rw [cancel, h.1]; split_ifs <;> simp

theorem Tracks.move (h : Tracks s t) (hm : RefreshMove s s' es) : Tracks s' (t.applyAll es) := by
  unfold Tracks
  obtain ⟨hs, ⟨hp, hq⟩ | ⟨hp, ha⟩ | ⟨hp, ha⟩⟩ := hm
  · rw [applyAll_quiet hq, hp, hs]; exact h
  · rw [ha, hp]; exact ⟨h.cancel_armed, fun h => nomatch h⟩
  · rw [ha, hs]
    cases hsub : s.m_subr
    · have hf : s.m_mrPending = false := Bool.eq_false_iff.mpr fun hp' => by simpa [hsub] using h.2 hp'
      rw [hsub, hf, Bool.or_false] at hp
      rw [hp, if_neg Bool.false_ne_true, if_neg Bool.false_ne_true]
      exact ⟨h.cancel_armed, fun h => nomatch h⟩
    · rw [hsub, Bool.or_true] at hp
      rw [hp, if_pos rfl, if_pos rfl, schedule, h.cancel_armed]
      exact ⟨rfl, fun _ => rfl⟩

theorem Tracks.fire (h : Tracks s t) {id : Nat} (hid : id ∈ t.armed) (now : Nat) :
    Tracks (publishMembershipReq s now).1
      ({ t with armed := t.armed.erase id }.applyAll (publishMembershipReq s now).2) := by
  have hp : s.m_mrPending = true := by
    cases hp : s.m_mrPending
    · rw [h.1, hp] at hid; exact absurd hid (List.not_mem_nil _)
    · rfl
  have hs := h.2 hp
  have ha : t.armed = [t.handle] := by rw [h.1, hp]; rfl
  rw [ha, List.mem_singleton] at hid
  subst hid
  simp only [publishMembershipReq, hs, Bool.not_true, Bool.false_eq_true, if_false]
  refine ⟨?_, fun _ => rfl⟩
  simp [applyAll, apply, cancel, schedule, ha]

theorem SysReachable.tracks {st : DistSGKey × RefreshTimers} (h : SysReachable E st) :
    Tracks st.1 st.2 := by
  induction h with
  | construct pPre keyColl tp sk ri rr => exact tracks_construct E pPre keyColl tp sk ri rr
  | call ev _ ih => exact ih.move (move_step E _ ev)
  | fire id now _ hid ih => exact ih.fire hid now

/-- At most one membership-request refresh timer is armed, and one is armed exactly while a
request is pending, in every state an instance reaches by any interleaving of its methods
and the firing of armed refresh timers. -/
theorem refresh_timer_tracks_pending {st : DistSGKey × RefreshTimers} (h : SysReachable E st) :
    st.2.armed.length ≤ 1 ∧ (st.2.armed ≠ [] ↔ st.1.m_mrPending = true) := by
  rw [h.tracks.1]
  cases st.1.m_mrPending <;> simp

def sampleRefreshed : DistSGKey × RefreshTimers :=
  sysStep sampleEnv (sysStep sampleEnv (samplePeer 2, .init) (.call (.publishMembershipReq 6)))
    (.refreshFires 1 7)

theorem refresh_timer_tracks_pending_sample :
    SysReachable sampleEnv sampleRefreshed ∧ sampleRefreshed.2.armed.length ≤ 1 ∧
      (sampleRefreshed.2.armed ≠ [] ↔ sampleRefreshed.1.m_mrPending = true) := by
  have h₀ : SysReachable sampleEnv (samplePeer 2, .init) := .construct _ _ _ _ _ _
  have h₁ := h₀.call (.publishMembershipReq 6)
  have hr : SysReachable sampleEnv sampleRefreshed := h₁.fire 1 7 (by decide)
  exact ⟨hr, refresh_timer_tracks_pending hr⟩

end Tracking

end SgKeyDist.Refresh
