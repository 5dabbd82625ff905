import SgKeyDist.Refresh

namespace SgKeyDist.EventLoop

open SgKeyDist.ByteOrder SgKeyDist.Identity SgKeyDist.Members SgKeyDist.KeyRecord
open SgKeyDist.State SgKeyDist.Member SgKeyDist.KeyMaker SgKeyDist.Peer SgKeyDist.Receiver
open SgKeyDist.Refresh

/-- Where the key-maker election of `setup` stands. -/
inductive Election
  | idle
  | running
  | finished
  deriving DecidableEq, Repr

/-- Modelled from the spec: `syncps.hpp` and the election are not among the sources; the
spec runs every callback on one single-threaded loop. The collaborators of one instance as
its loop keeps them: the subscriptions of `m_sync` by prefix, the one-shot timers armed with
`oneTime`, the refresh timers, the election, the publications whose delivery callback is
still to come, and whether `setup` was called. -/
structure Loop where
  subs : Name → Option Handler
  oneShots : List Timer
  refresh : RefreshTimers
  election : Election
  awaiting : List Pub
  setupCalled : Bool

namespace Loop

def init : Loop := ⟨fun _ => none, [], .init, .idle, [], false⟩

/-- Modelled from the spec: what one effect of a method does to the loop. A subscription
replaces the one of its prefix. -/
def apply (l : Loop) : Effect → Loop
  | .publishConfirmed p => { l with awaiting := p :: l.awaiting }
  | .subscribe pfx h => { l with subs := Function.update l.subs pfx (some h) }
  | .unsubscribe pfx => { l with subs := Function.update l.subs pfx none }
  | .oneTime _ cb => { l with oneShots := cb :: l.oneShots }
  | .joinElection _ _ => { l with election := .running }
  | e => { l with refresh := l.refresh.apply e }

def applyAll (l : Loop) (es : List Effect) : Loop := es.foldl apply l

@[simp] theorem applyAll_nil (l : Loop) : l.applyAll [] = l := rfl

@[simp] theorem applyAll_cons (l : Loop) (e : Effect) (es : List Effect) :
    l.applyAll (e :: es) = (l.apply e).applyAll es := rfl

theorem applyAll_append (l : Loop) (es fs : List Effect) :
    l.applyAll (es ++ fs) = (l.applyAll es).applyAll fs := List.foldl_append _ _ _ _

/-- The rekey timers armed and not yet fired. -/
def rekeys (l : Loop) : Nat := l.oneShots.count .sgkeyTimeout

end Loop

/-- What the loop can do next: the calls of the application, the completion of the
election, a publication handed to a subscription, a timer firing, and a delivery callback. -/
inductive LoopEvent
  | setup
  | electionDone (elected : Bool) (epoch : UInt32) (mi : Mint)
  | deliver (pfx : Name) (p : Pub) (now : Nat)
  | timerFires (cb : Timer) (now : Nat) (mi : Mint)
  | refreshFires (id now : Nat)
  | confirmed (p : Pub) (ok : Bool)
  | removeGroupMem (tp : ThumbPrint) (reKey : Bool) (mi : Mint)

namespace Loop

/-- The method of the instance that an event runs. -/
def method (l : Loop) : LoopEvent → Event
  | .setup => .setup
  | .electionDone elected epoch mi => .electionDone elected epoch mi
  | .deliver pfx p now =>
    if l.subs pfx = some .addGroupMem then .addGroupMem p now else .receiveSGKeyRecords p now
  | .timerFires .sgkeyTimeout _ mi => .sgkeyTimeout mi
  | .timerFires .publishMembershipReq now _ => .publishMembershipReq now
  | .refreshFires _ now => .publishMembershipReq now
  | .confirmed _ ok => .delivered ok
  | .removeGroupMem tp reKey mi => .removeGroupMem tp reKey mi

/-- What the collaborator raising an event records before the method runs. -/
def consume (l : Loop) : LoopEvent → Loop
  | .setup => { l with setupCalled := true }
  | .electionDone .. => { l with election := .finished }
  | .timerFires cb _ _ => { l with oneShots := l.oneShots.erase cb }
  | .refreshFires id _ => { l with refresh := { l.refresh with armed := l.refresh.armed.erase id } }
  | .confirmed p _ => { l with awaiting := l.awaiting.erase p }
  | _ => l

/-- When the loop can raise an event. -/
def enabled (l : Loop) : LoopEvent → Prop
  | .setup => l.setupCalled = false
  | .electionDone .. => l.election = .running
  | .deliver pfx p _ => l.subs pfx ≠ none ∧ pfx <+: p.name
  | .timerFires cb _ _ => cb ∈ l.oneShots
  | .refreshFires id _ => id ∈ l.refresh.armed
  | .confirmed p _ => p ∈ l.awaiting
  | .removeGroupMem .. => True

instance (l : Loop) : (ev : LoopEvent) → Decidable (l.enabled ev)
  | .setup => inferInstanceAs (Decidable (l.setupCalled = false))
  | .electionDone .. => inferInstanceAs (Decidable (l.election = .running))
  | .deliver pfx p _ => inferInstanceAs (Decidable (l.subs pfx ≠ none ∧ pfx <+: p.name))
  | .timerFires cb _ _ => inferInstanceAs (Decidable (cb ∈ l.oneShots))
  | .refreshFires id _ => inferInstanceAs (Decidable (id ∈ l.refresh.armed))
  | .confirmed p _ => inferInstanceAs (Decidable (p ∈ l.awaiting))
  | .removeGroupMem .. => inferInstanceAs (Decidable True)

end Loop

/-- One event of the loop: its collaborator's record, then the method and its effects. -/
def loopStep (E : Env) (st : DistSGKey × Loop) (ev : LoopEvent) : DistSGKey × Loop :=
  ((step E st.1 (st.2.method ev)).1, (st.2.consume ev).applyAll (step E st.1 (st.2.method ev)).2)

/-- The states a constructed instance and its loop reach. -/
inductive LoopReachable (E : Env) : DistSGKey × Loop → Prop
  | construct (pPre : Name) (keyColl : Bytes) (tp : ThumbPrint) (sk : Bytes) (ri rr : Nat) :
      LoopReachable E (construct E pPre keyColl tp sk ri rr, .init)
  | step {st : DistSGKey × Loop} (ev : LoopEvent) :
      LoopReachable E st → st.2.enabled ev → LoopReachable E (loopStep E st ev)

theorem LoopReachable.reachable {E : Env} {st : DistSGKey × Loop} (h : LoopReachable E st) :
    Reachable E st.1 := by
  induction h with
  | construct pPre keyColl tp sk ri rr => exact .construct pPre keyColl tp sk ri rr
  | step ev _ _ ih => exact ih.step _

section Frame

variable {E : Env} {s s' : DistSGKey}

/-- The fields the constructor sets and no method writes, with the distributor kind once
`setup` has fixed it. -/
structure Config where
  krPrefix : Name
  mrPrefix : Name
  tp : ThumbPrint
  subr : Bool
  pubdist : Bool
  groupPrefix : Name
  keyLifetime : Nat

def config (s : DistSGKey) : Config :=
  ⟨s.m_krPrefix, s.m_mrPrefix, s.m_tp, s.m_subr, s.m_pubdist, s.m_prefix, s.m_keyLifetime⟩

theorem config_of_untouched
    (hu : untouched s' = untouched s ∨ untouched s' = { untouched s with m_keyMaker := false }) :
    config s' = config s := by
  rcases hu with hu | hu <;> simp only [untouched, Untouched.mk.injEq] at hu <;> simp only [config, hu]

theorem config_makeSGKey (E : Env) (s : DistSGKey) (mi : Mint) :
    config (makeSGKey E s mi).1 = config s := by
  rw [makeSGKey_state]; rfl

theorem config_step (hw : Wf E s) (ev : Event) : config (step E s ev).1 = config s := by
  cases ev with
  | setup => exact config_of_untouched (.inl (setup_untouched E s hw.pubdist))
  | electionDone elected epoch mi =>
    cases elected
    · rfl
    · simp only [step, electionDone, Bool.not_true, Bool.false_eq_true, if_false, andThen_fst,
        sgkeyTimeout_fst, if_true]
      exact config_makeSGKey E _ mi
  | receiveSGKeyRecords q now => exact config_of_untouched (receiveSGKeyRecords_untouched E s q now)
  | addGroupMem q now =>
    rcases addGroupMem_cases E s q now with h | h | ⟨x, -, -, -, ⟨-, h⟩ | ⟨-, h⟩⟩ <;>
      simp only [step, h, andThen_fst, initDone_fst] <;> rfl
  | sgkeyTimeout mi =>
    simp only [step, sgkeyTimeout_fst]
    split_ifs
    · exact config_makeSGKey E s mi
    · rfl
  | publishMembershipReq now => exact config_of_untouched (.inl (publishMembershipReq_untouched s now))
  | delivered ok =>
    cases ok
    · rfl
    · exact config_of_untouched (.inl (initDone_untouched s))
  | removeGroupMem tp reKey mi =>
    cases reKey
    · rfl
    · exact config_makeSGKey E _ mi

end Frame

section Silent

variable {es fs : List Effect}

/-- What the invariant of the loop reads: the subscriptions, the armed rekey timers, the
election and whether `setup` was called. -/
structure View where
  subs : Name → Option Handler
  rekeys : Nat
  election : Election
  setupCalled : Bool

def view (l : Loop) : View := ⟨l.subs, l.rekeys, l.election, l.setupCalled⟩

/-- Effects that leave what the invariant reads alone. -/
def Silent (es : List Effect) : Prop := ∀ e ∈ es, ∀ l : Loop, view (l.apply e) = view l

theorem view_applyAll (h : Silent es) (l : Loop) : view (l.applyAll es) = view l := by
  induction es generalizing l with
  | nil => rfl
  | cons e es ih =>
    rw [Loop.applyAll_cons, ih (fun e' he' => h e' (List.mem_cons_of_mem _ he')) _,
      h e (List.mem_cons_self _ _)]

theorem view_apply_congr {l l' : Loop} (hv : view l = view l') (e : Effect) :
    view (l.apply e) = view (l'.apply e) := by
  simp only [view, View.mk.injEq, Loop.rekeys] at hv ⊢
  obtain ⟨hs, hr, he, hsc⟩ := hv
  cases e <;> simp only [Loop.apply, List.count_cons, hs, hr, he, hsc, and_self]

theorem view_applyAll_silent_append (h : Silent es) (l : Loop) (e : Effect) :
    view ((l.applyAll es).apply e) = view (l.apply e) :=
  view_apply_congr (view_applyAll h l) e

theorem Silent.append (h₁ : Silent es) (h₂ : Silent fs) : Silent (es ++ fs) :=
  fun e he => (List.mem_append.mp he).elim (h₁ e) (h₂ e)

theorem silent_nil : Silent [] := fun _ h => absurd h (List.not_mem_nil _)

theorem silent_cons {e : Effect} (he : ∀ l : Loop, view (l.apply e) = view l) (h : Silent es) :
    Silent (e :: es) :=
  fun _ h' => (List.mem_cons.mp h').elim (fun h => h ▸ he) (h _)

theorem silent_of_pub {e : Effect} (h : e.pub?.isSome) (l : Loop) : view (l.apply e) = view l := by
  cases e <;> first | rfl | simp [Effect.pub?] at h

theorem silent_publishMembershipReq (s : DistSGKey) (now : Nat) :
    Silent (publishMembershipReq s now).2 := by
  unfold publishMembershipReq; split
  · exact silent_cons (fun _ => rfl) silent_nil
  · exact silent_cons (fun _ => rfl) (silent_cons (fun _ => rfl) (silent_cons (fun _ => rfl) silent_nil))

theorem silent_initDone (s : DistSGKey) : Silent (initDone s).2 := by
  unfold initDone; split
  · exact silent_cons (fun _ => rfl) silent_nil
  · exact silent_nil

theorem silent_makeSGKey (E : Env) (s : DistSGKey) (mi : Mint) : Silent (makeSGKey E s mi).2 := by
  have hl : Silent (.newKey (minted E s mi).m_sgPK (minted E s mi).m_sgSK (minted E s mi).m_curKeyCT ::
      publishLoop (minted E s mi) mi.pubNow (sealedPairs E (minted E s mi)) 0
        (pubCount (minted E s mi).m_mbrList.size) (minted E s mi).m_mbrList.size 0) := by
    intro e he l
    rcases List.mem_cons.mp he with rfl | he
    · rfl
    · exact silent_of_pub (pub_publishLoop _ _ _ _ _ _ _ e he) l
  unfold makeSGKey; dsimp only
  split_ifs
  · exact hl.append (silent_initDone _)
  · exact hl

theorem silent_adoptKey (E : Env) (s : DistSGKey) (c : Bytes) : Silent (adoptKey E s c).2 := by
  rcases adoptKey_spec E s c with h | ⟨_, _, _, _, -, -, -, ⟨-, h⟩ | ⟨_, _, _, _, _, -, -, -, -, h⟩⟩ <;>
    rw [h]
  · exact silent_nil
  · exact Silent.append (silent_cons (fun _ => rfl) silent_nil) (silent_initDone _)
  · exact Silent.append (silent_cons (fun _ => rfl) (silent_cons (fun _ => rfl) silent_nil))
      (silent_initDone _)

theorem silent_receiveAsMember (E : Env) (s : DistSGKey) (p : Pub) (now : Nat) :
    Silent (receiveAsMember E s p now).2 := by
  rcases receiveAsMember_spec E s p now with h | h | h | ⟨_, _, -, h | h | h⟩ <;> rw [h]
  · exact silent_publishMembershipReq s now
  · exact silent_cons (fun _ => rfl) silent_nil
  · exact silent_nil
  · exact silent_cons (fun _ => rfl) silent_nil
  · exact silent_nil
  · exact silent_adoptKey E _ _

theorem silent_addGroupMem (E : Env) (s : DistSGKey) (q : Pub) (now : Nat) :
    Silent (addGroupMem E s q now).2 := by
  rcases addGroupMem_cases E s q now with h | h | ⟨x, -, -, -, ⟨-, h⟩ | ⟨-, h⟩⟩ <;> rw [h]
  · exact silent_nil
  · exact silent_nil
  · exact silent_nil
  · exact Silent.append (silent_cons (fun _ => rfl) silent_nil) (silent_initDone _)

end Silent

section Invariant

variable {E : Env} {s s' : DistSGKey} {l l' : Loop}

theorem setup_cases (hp : s.m_pubdist = (s.m_keyColl == asBytes "pubs")) :
    ((s.m_pubdist = true ∧ isRelay E s.m_tp = true) ∧ setup E s = initDone s) ∨
    (¬(s.m_pubdist = true ∧ isRelay E s.m_tp = true) ∧ (s.m_subr = true ∧ 0 < kmpri E s s.m_tp) ∧
      setup E s = (s, [.joinElection (s.m_prefix ++ [asBytes "km"]) (if s.m_pubdist then 5000 else 500)])) ∨
    (¬(s.m_pubdist = true ∧ isRelay E s.m_tp = true) ∧ ¬(s.m_subr = true ∧ 0 < kmpri E s s.m_tp) ∧
      setup E s = (s, [.subscribe s.m_krPrefix .receiveSGKeyRecords])) := by
  have hs : (if s.m_keyColl = asBytes "pubs" then { s with m_pubdist := true } else s) = s := by
    split_ifs with hc
    · rw [hc, beq_self_eq_true] at hp; rw [← hp]
    · rfl
  generalize hr : setup E s = r
  unfold setup at hr; dsimp only at hr; rw [hs] at hr
  split at hr
  · rename_i h₁
    exact .inl ⟨by simpa using h₁, hr.symm⟩
  rename_i h₁
  split at hr
  · rename_i h₂
    exact .inr (.inl ⟨by simpa using h₁, by simpa using h₂, hr.symm⟩)
  · rename_i h₂
    exact .inr (.inr ⟨by simpa using h₁, by simpa using h₂, hr.symm⟩)

/-- The invariant of an instance and its loop. The subscriptions are exactly the key-record
one, from the end of `setup` on (while the election runs it waits for it) but never on the
relay short-cut, and the membership-request one, held while the instance is the key-maker;
the election is joined only with the SG capability and a key-maker priority; and the rekey
timer is armed once, from the election won on. -/
structure LoopInv (E : Env) (s : DistSGKey) (l : Loop) : Prop where
  kr_ne_mr : s.m_krPrefix ≠ s.m_mrPrefix
  subs_kr : l.subs s.m_krPrefix =
    if l.setupCalled = true ∧ l.election ≠ .running ∧ ¬(s.m_pubdist = true ∧ isRelay E s.m_tp = true)
    then some .receiveSGKeyRecords else none
  subs_mr : l.subs s.m_mrPrefix = if s.m_keyMaker then some .addGroupMem else none
  subs_other : ∀ pfx, pfx ≠ s.m_krPrefix → pfx ≠ s.m_mrPrefix → l.subs pfx = none
  idle : l.setupCalled = false → l.election = .idle
  joined : l.election ≠ .idle →
    (s.m_subr = true ∧ 0 < kmpri E s s.m_tp) ∧ ¬(s.m_pubdist = true ∧ isRelay E s.m_tp = true)
  unelected : l.election ≠ .finished → s.m_keyMaker = false ∧ l.rekeys = 0
  rekey : l.rekeys ≤ 1 ∧ (s.m_keyMaker = true → l.rekeys = 1)

theorem LoopInv.congr (h : LoopInv E s l) (hc : config s' = config s)
    (hk : s'.m_keyMaker = s.m_keyMaker) (hv : view l' = view l) : LoopInv E s' l' := by
  simp only [config, Config.mk.injEq] at hc
  obtain ⟨hkr, hmr, htp, hsub, hpd, -, -⟩ := hc
  simp only [view, View.mk.injEq] at hv
  obtain ⟨hs, hr, he, hsc⟩ := hv
  have hpri : kmpri E s' = kmpri E s := by funext tp; simp only [kmpri, hpd]
  obtain ⟨h₁, h₂, h₃, h₄, h₅, h₆, h₇, h₈⟩ := h
  constructor <;> simp only [hkr, hmr, htp, hsub, hpd, hk, hs, hr, he, hsc, hpri] <;> assumption

theorem LoopInv.silent (hw : Wf E s) (h : LoopInv E s l) {l₀ : Loop} (hv : view l₀ = view l)
    {m : Event} (hk : (step E s m).1.m_keyMaker = s.m_keyMaker) (hs : Silent (step E s m).2) :
    LoopInv E (step E s m).1 (l₀.applyAll (step E s m).2) :=
  h.congr (config_step hw m) hk (by rw [view_applyAll hs, hv])

theorem LoopInv.subs_none (h : LoopInv E s l) (hl : l.setupCalled = false ∨ l.election = .running)
    (pfx : Name) : l.subs pfx = none := by
  have hel : l.election ≠ .finished := by
    rcases hl with hl | hl <;> simp [h.idle, hl]
  by_cases h₁ : pfx = s.m_krPrefix
  · rw [h₁, h.subs_kr, if_neg]
    rintro ⟨hsc, hrun, -⟩
    rcases hl with hl | hl
    · rw [hl] at hsc; cases hsc
    · exact hrun hl
  by_cases h₂ : pfx = s.m_mrPrefix
  · rw [h₂, h.subs_mr, (h.unelected hel).1]; rfl
  exact h.subs_other pfx h₁ h₂

theorem method_eq_addGroupMem {l : Loop} {ev : LoopEvent} {q : Pub} {now : Nat}
    (h : l.method ev = .addGroupMem q now) :
    ∃ pfx, ev = .deliver pfx q now ∧ l.subs pfx = some .addGroupMem := by
  cases ev with
  | deliver pfx p now' =>
    simp only [Loop.method] at h
    split_ifs at h with hs
    · cases h; exact ⟨pfx, rfl, hs⟩
  | timerFires cb now mi => cases cb <;> cases h
  | _ => cases h

theorem LoopInv.subs_addGroupMem {pfx : Name} (hi : LoopInv E s l)
    (h : l.subs pfx = some .addGroupMem) : pfx = s.m_mrPrefix := by
  by_contra hmr
  by_cases hkr : pfx = s.m_krPrefix
  · subst hkr
    rw [hi.subs_kr] at h
    split_ifs at h
    cases h
  · rw [hi.subs_other pfx hkr hmr] at h; cases h

end Invariant

section Preservation

variable {E : Env} {s : DistSGKey} {l : Loop}

theorem keyMaker_addGroupMem (E : Env) (s : DistSGKey) (q : Pub) (now : Nat) :
    (addGroupMem E s q now).1.m_keyMaker = s.m_keyMaker := by
  rcases addGroupMem_cases E s q now with h | h | ⟨x, -, -, -, ⟨-, h⟩ | ⟨-, h⟩⟩ <;>
    simp only [h, andThen_fst, initDone_fst]

theorem keyMaker_makeSGKey (E : Env) (s : DistSGKey) (mi : Mint) :
    (makeSGKey E s mi).1.m_keyMaker = s.m_keyMaker := by
  rw [makeSGKey_state]; rfl

theorem keyMaker_electionDone (E : Env) (s : DistSGKey) (elected : Bool) (epoch : UInt32) (mi : Mint) :
    (electionDone E s elected epoch mi).1.m_keyMaker = elected := by
  cases elected
  · rfl
  · simp only [Peer.electionDone, Bool.not_true, Bool.false_eq_true, if_false, andThen_fst,
      sgkeyTimeout_fst, if_true, keyMaker_makeSGKey]

theorem LoopInv.setup (hw : Wf E s) (h : LoopInv E s l) (he : l.setupCalled = false) :
    LoopInv E (setup E s).1 ({ l with setupCalled := true }.applyAll (setup E s).2) := by
  have hel := h.idle he
  obtain ⟨hk, h0⟩ := h.unelected (by rw [hel]; decide)
  have hn := h.subs_none (.inl he)
  rcases setup_cases hw.pubdist with ⟨hr, hs⟩ | ⟨hr, hj, hs⟩ | ⟨hr, -, hs⟩ <;> rw [hs]
  · refine LoopInv.congr (s := s) (l := { l with setupCalled := true }) ⟨h.kr_ne_mr, ?_, h.subs_mr,
      h.subs_other, (fun h' => nomatch h'), fun h' => absurd hel h', h.unelected, h.rekey⟩
      (by rw [initDone_fst]; rfl) (by rw [initDone_fst]) (view_applyAll (silent_initDone s) _)
    rw [if_neg (fun hc => hc.2.2 hr)]; exact hn _
  · exact ⟨h.kr_ne_mr, by simp [Loop.apply, hn], h.subs_mr, h.subs_other,
      (fun h' => nomatch h'), fun _ => ⟨hj, hr⟩, fun _ => ⟨hk, h0⟩, h.rekey⟩
  · refine ⟨h.kr_ne_mr, ?_, ?_, fun pfx h₁ h₂ => ?_, (fun h' => nomatch h'), fun h' => absurd hel h',
      h.unelected, h.rekey⟩
    · simp [Loop.apply, hr, hel]
    · simp [Loop.apply, Function.update_noteq h.kr_ne_mr.symm, h.subs_mr]
    · simp [Loop.apply, Function.update_noteq h₁, h.subs_other pfx h₁ h₂]

theorem LoopInv.rearm (h : LoopInv E s { l with oneShots := .sgkeyTimeout :: l.oneShots })
    (mi : Mint) (d : Nat) :
    LoopInv E (makeSGKey E s mi).1 (l.applyAll ((makeSGKey E s mi).2 ++ [.oneTime d .sgkeyTimeout])) := by
  refine h.congr (config_makeSGKey E s mi) (keyMaker_makeSGKey E s mi) ?_
  rw [Loop.applyAll_append, Loop.applyAll_cons, Loop.applyAll_nil,
    view_applyAll_silent_append (silent_makeSGKey E s mi)]
  rfl

theorem LoopInv.electionDone (h : LoopInv E s l) (he : l.election = .running)
    (elected : Bool) (epoch : UInt32) (mi : Mint) :
    LoopInv E (electionDone E s elected epoch mi).1
      ({ l with election := .finished }.applyAll (electionDone E s elected epoch mi).2) := by
  have hsc : l.setupCalled = true := by
    cases hc : l.setupCalled
    · rw [h.idle hc] at he; cases he
    · rfl
  obtain ⟨hj, hr⟩ := h.joined (by rw [he]; decide)
  obtain ⟨hk, h0⟩ := h.unelected (by rw [he]; decide)
  have hn := h.subs_none (.inr he)
  have hkm := h.kr_ne_mr
  cases elected
  · simp only [Peer.electionDone, Bool.not_false, ite_true, Loop.applyAll_cons, Loop.applyAll_nil]
    refine ⟨hkm, ?_, ?_, fun pfx h₁ h₂ => ?_, fun h' => by simp [Loop.apply, hsc] at h',
      fun _ => ⟨hj, hr⟩, fun h' => absurd rfl h', ⟨?_, fun h' => nomatch h'⟩⟩
    · simp [Loop.apply, hsc, hr]
    · simp [Loop.apply, Function.update_noteq hkm.symm, hn]
    · simp [Loop.apply, Function.update_noteq h₁, hn]
    · simp [Loop.apply, Loop.rekeys] at h0 ⊢; omega
  · simp only [Peer.electionDone, Bool.not_true, ite_false, andThen_fst, andThen_snd, KeyMaker.sgkeyTimeout,
      ite_true, List.cons_append, Loop.applyAll_cons, List.nil_append]
    apply LoopInv.rearm
    refine ⟨hkm, ?_, ?_, fun pfx h₁ h₂ => ?_, fun h' => by simp [Loop.apply, hsc] at h',
      fun _ => ⟨hj, hr⟩, fun h' => absurd rfl h', ?_⟩
    · simp [Loop.apply, Function.update_noteq hkm, hsc, hr]
    · simp [Loop.apply]
    · simp [Loop.apply, Function.update_noteq h₁, Function.update_noteq h₂, hn]
    · simp [Loop.apply, Loop.rekeys] at h0 ⊢; omega

theorem LoopInv.sgkeyTimeout (h : LoopInv E s l) (he : Timer.sgkeyTimeout ∈ l.oneShots) (mi : Mint) :
    LoopInv E (sgkeyTimeout E s mi).1
      ({ l with oneShots := l.oneShots.erase .sgkeyTimeout }.applyAll (sgkeyTimeout E s mi).2) := by
  have hpos : 0 < l.rekeys := List.count_pos_iff.2 he
  have hfin : l.election = .finished := by
    by_contra hne; have := (h.unelected hne).2; omega
  have hone : l.rekeys = 1 := by have := h.rekey.1; omega
  have herase : (l.oneShots.erase .sgkeyTimeout).count .sgkeyTimeout = 0 := by
    rw [List.count_erase_self]; exact Nat.sub_eq_zero_of_le (le_of_eq hone)
  cases hk : s.m_keyMaker
  · simp only [KeyMaker.sgkeyTimeout, hk, Bool.not_false, ite_true, Loop.applyAll_nil]
    exact ⟨h.kr_ne_mr, h.subs_kr, h.subs_mr, h.subs_other, h.idle, h.joined,
      fun h' => absurd hfin h', ⟨by simp [Loop.rekeys, herase], by simp [hk]⟩⟩
  · simp only [KeyMaker.sgkeyTimeout, hk, Bool.not_true, ite_false, andThen_fst, andThen_snd]
    refine LoopInv.rearm (h.congr rfl rfl ?_) mi _
    simp only [view, Loop.rekeys, ((List.perm_cons_erase he).count_eq _).symm]

theorem LoopInv.deliver (hw : Wf E s) (h : LoopInv E s l) {pfx : Name} {p : Pub} (now : Nat)
    (he : l.subs pfx ≠ none) :
    LoopInv E (step E s (l.method (.deliver pfx p now))).1
      (l.applyAll (step E s (l.method (.deliver pfx p now))).2) := by
  have hkm := h.kr_ne_mr
  by_cases hmr : pfx = s.m_mrPrefix
  · subst hmr
    have hk : s.m_keyMaker = true := by
      by_contra hk; simp [h.subs_mr, hk] at he
    have hm : l.method (.deliver s.m_mrPrefix p now) = .addGroupMem p now := by
      simp [Loop.method, h.subs_mr, hk]
    rw [hm]
    exact h.silent hw rfl (keyMaker_addGroupMem E s p now) (silent_addGroupMem E s p now)
  have hkr : pfx = s.m_krPrefix := by
    by_contra hkr; exact he (h.subs_other pfx hkr hmr)
  subst hkr
  have hna : l.subs s.m_krPrefix ≠ some .addGroupMem := by
    rw [h.subs_kr]; split_ifs <;> simp
  rw [Loop.method, if_neg hna]
  rcases receiveSGKeyRecords_spec E s p now with hr | ⟨hk, hr⟩ | ⟨hk, hr⟩
  · simp only [step, hr, Loop.applyAll_nil]; exact h
  · have hfin : l.election = .finished := by
      by_contra hne; rw [(h.unelected hne).1] at hk; cases hk
    simp only [step, hr, andThen_fst, andThen_snd, List.singleton_append, Loop.applyAll_cons]
    set s' : DistSGKey := { s with m_keyMaker := false, m_kmtp := p.signer }
    have h' : LoopInv E s' (l.apply (.unsubscribe s.m_mrPrefix)) :=
      ⟨hkm, by simp only [Loop.apply, Function.update_noteq hkm]; exact h.subs_kr, by simp [Loop.apply, s'],
        fun pfx h₁ h₂ => by simp only [Loop.apply, Function.update_noteq h₂]; exact h.subs_other pfx h₁ h₂,
        h.idle, h.joined, fun hne => absurd hfin hne, ⟨h.rekey.1, fun h' => nomatch h'⟩⟩
    exact h'.congr (config_of_untouched (.inl (publishMembershipReq_untouched s' now)))
      (congrArg Untouched.m_keyMaker (publishMembershipReq_untouched s' now))
      (view_applyAll (silent_publishMembershipReq s' now) _)
  · have hs : step E s (.receiveSGKeyRecords p now) = receiveAsMember E s p now := hr
    exact h.silent hw rfl (congrArg Untouched.m_keyMaker (receiveSGKeyRecords_untouched_member hk E p now))
      (by rw [hs]; exact silent_receiveAsMember E s p now)

theorem LoopInv.loopStep (hw : Wf E s) (h : LoopInv E s l) {ev : LoopEvent} (he : l.enabled ev) :
    LoopInv E (loopStep E (s, l) ev).1 (loopStep E (s, l) ev).2 := by
  cases ev with
  | setup => exact h.setup hw he
  | electionDone elected epoch mi => exact h.electionDone he elected epoch mi
  | deliver pfx p now => exact h.deliver hw now he.1
  | timerFires cb now mi =>
    cases cb with
    | sgkeyTimeout => exact h.sgkeyTimeout he mi
    | publishMembershipReq =>
      refine h.silent hw ?_ (congrArg Untouched.m_keyMaker (publishMembershipReq_untouched s now))
        (silent_publishMembershipReq s now)
      simp only [view, Loop.consume, Loop.rekeys, List.count_erase_of_ne (by decide : Timer.sgkeyTimeout ≠ .publishMembershipReq)]
  | refreshFires id now =>
    exact h.silent hw (m := .publishMembershipReq now)
      (rfl : view (l.consume (.refreshFires id now)) = view l) (congrArg Untouched.m_keyMaker (publishMembershipReq_untouched s now))
      (silent_publishMembershipReq s now)
  | confirmed p ok =>
    cases ok
    · exact h.silent hw (m := .delivered false) (rfl : view (l.consume (.confirmed p false)) = _) rfl
        silent_nil
    · exact h.silent hw (m := .delivered true) (rfl : view (l.consume (.confirmed p true)) = _) (congrArg Untouched.m_keyMaker (initDone_untouched s)) (silent_initDone s)
  | removeGroupMem tp reKey mi =>
    cases reKey
    · exact h.silent hw (m := .removeGroupMem tp false mi) rfl rfl silent_nil
    · exact h.silent hw (m := .removeGroupMem tp true mi) rfl (keyMaker_makeSGKey E _ mi) (silent_makeSGKey E _ mi)

end Preservation

section Runs

variable {E : Env} {st : DistSGKey × Loop}

theorem loopInv_construct (E : Env) (pPre : Name) (keyColl : Bytes) (tp : ThumbPrint) (sk : Bytes)
    (ri rr : Nat) : LoopInv E (construct E pPre keyColl tp sk ri rr) .init := by
  have hkm : pPre ++ [asBytes "kr"] ≠ pPre ++ [asBytes "mr"] :=
    fun h => absurd (List.append_cancel_left h) (by decide)
  unfold construct; dsimp only
  split_ifs <;> exact ⟨hkm, rfl, rfl, fun _ _ _ => rfl, fun _ => rfl, fun h => absurd rfl h,
    fun _ => ⟨rfl, rfl⟩, ⟨Nat.zero_le _, fun h => nomatch h⟩⟩

theorem LoopReachable.inv (h : LoopReachable E st) : LoopInv E st.1 st.2 := by
  induction h with
  | construct pPre keyColl tp sk ri rr => exact loopInv_construct E pPre keyColl tp sk ri rr
  | step ev hr he ih => exact ih.loopStep hr.reachable.wf he

/-- An instance subscribes to its member-request prefix, for `addGroupMem`, exactly while it
is key maker; to its key-record prefix, for `receiveSGKeyRecords`, once `setup` has run
unless it is a relay or its election is still running; and to nothing else. -/
theorem subscriptions_of_reachable (h : LoopReachable E st) (pfx : Name) :
    st.2.subs pfx =
      if pfx = st.1.m_mrPrefix ∧ st.1.m_keyMaker = true then some .addGroupMem
      else if pfx = st.1.m_krPrefix ∧ st.2.setupCalled = true ∧ st.2.election ≠ .running ∧
        ¬(st.1.m_pubdist = true ∧ isRelay E st.1.m_tp = true) then some .receiveSGKeyRecords
      else none := by
  have hi := h.inv
  by_cases hmr : pfx = st.1.m_mrPrefix
  · subst hmr
    rw [hi.subs_mr]
    by_cases hk : st.1.m_keyMaker = true <;> simp [hk, hi.kr_ne_mr.symm]
  by_cases hkr : pfx = st.1.m_krPrefix
  · subst hkr
    rw [hi.subs_kr]
    simp [hmr]
  · simp [hmr, hkr, hi.subs_other pfx hkr hmr]

/-- A publication the loop hands over runs `addGroupMem` only on the key maker and only
through its member-request prefix; any other runs `receiveSGKeyRecords`, through the
key-record prefix. So the key-maker test at the top of `addGroupMem` never fails. -/
theorem member_requests_reach_only_keyMaker (h : LoopReachable E st) {pfx : Name} {p : Pub} {now : Nat}
    (he : st.2.enabled (.deliver pfx p now)) :
    (st.2.method (.deliver pfx p now) = .addGroupMem p now ∧ st.1.m_keyMaker = true ∧
      pfx = st.1.m_mrPrefix) ∨
    (st.2.method (.deliver pfx p now) = .receiveSGKeyRecords p now ∧ pfx = st.1.m_krPrefix) := by
  have hs := subscriptions_of_reachable h pfx
  have hne : st.2.subs pfx ≠ none := he.1
  simp only [Loop.method]
  split_ifs at hs with h₁ h₂
  · exact .inl ⟨if_pos hs, h₁.2, h₁.1⟩
  · exact .inr ⟨if_neg (by rw [hs]; simp), h₂.1⟩
  · exact absurd hs hne

/-- At most one rekey timer is armed, and exactly one while the instance is key maker: a
rekey re-arms the timer that fired, and none is armed before the election is won. -/
theorem rekey_timer_armed_once (h : LoopReachable E st) :
    st.2.oneShots.count .sgkeyTimeout ≤ 1 ∧
      (st.1.m_keyMaker = true → st.2.oneShots.count .sgkeyTimeout = 1) :=
  h.inv.rekey

/-- A key maker holds the SG capability, has a positive key-maker priority, and is not a
relay: only such an instance joins the election. -/
theorem keyMaker_is_eligible (h : LoopReachable E st) (hk : st.1.m_keyMaker = true) :
    (st.1.m_subr = true ∧ 0 < kmpri E st.1 st.1.m_tp) ∧
      ¬(st.1.m_pubdist = true ∧ isRelay E st.1.m_tp = true) := by
  have hi := h.inv
  have hfin : st.2.election = .finished := by
    by_contra hne; rw [(hi.unelected hne).1] at hk; cases hk
  exact hi.joined (by rw [hfin]; decide)

end Runs

section Sample

def sampleLoopKeyMaker : DistSGKey × Loop :=
  loopStep sampleEnv (loopStep sampleEnv (samplePeer 2, .init) .setup) (.electionDone true 1 (sampleMint 5))

set_option maxRecDepth 4000 in
theorem loopReachable_sampleLoopKeyMaker : LoopReachable sampleEnv sampleLoopKeyMaker :=
  .step _ (.step _ (.construct _ _ _ _ _ _) rfl) (by decide)

theorem sampleLoopKeyMaker_keyMaker : sampleLoopKeyMaker.1.m_keyMaker = true :=
  keyMaker_electionDone sampleEnv _ true 1 (sampleMint 5)

theorem subscriptions_of_reachable_sample :
    LoopReachable sampleEnv sampleLoopKeyMaker ∧
      sampleLoopKeyMaker.2.subs sampleLoopKeyMaker.1.m_mrPrefix = some .addGroupMem :=
  ⟨loopReachable_sampleLoopKeyMaker,
    (subscriptions_of_reachable loopReachable_sampleLoopKeyMaker _).trans
      (by simp [sampleLoopKeyMaker_keyMaker])⟩

set_option maxRecDepth 4000 in
theorem member_requests_reach_only_keyMaker_sample :
    LoopReachable sampleEnv sampleLoopKeyMaker ∧
      sampleLoopKeyMaker.2.enabled (.deliver sampleLoopKeyMaker.1.m_mrPrefix (mrPub (samplePeer 3) 6) 7) ∧
      ((sampleLoopKeyMaker.2.method (.deliver sampleLoopKeyMaker.1.m_mrPrefix (mrPub (samplePeer 3) 6) 7) =
          .addGroupMem (mrPub (samplePeer 3) 6) 7 ∧ sampleLoopKeyMaker.1.m_keyMaker = true ∧
          sampleLoopKeyMaker.1.m_mrPrefix = sampleLoopKeyMaker.1.m_mrPrefix) ∨
        (sampleLoopKeyMaker.2.method (.deliver sampleLoopKeyMaker.1.m_mrPrefix (mrPub (samplePeer 3) 6) 7) =
          .receiveSGKeyRecords (mrPub (samplePeer 3) 6) 7 ∧
          sampleLoopKeyMaker.1.m_mrPrefix = sampleLoopKeyMaker.1.m_krPrefix)) := by
  have he : sampleLoopKeyMaker.2.enabled
      (.deliver sampleLoopKeyMaker.1.m_mrPrefix (mrPub (samplePeer 3) 6) 7) := by decide
  exact ⟨loopReachable_sampleLoopKeyMaker, he,
    member_requests_reach_only_keyMaker loopReachable_sampleLoopKeyMaker he⟩

theorem rekey_timer_armed_once_sample :
    LoopReachable sampleEnv sampleLoopKeyMaker ∧
      sampleLoopKeyMaker.2.oneShots.count .sgkeyTimeout ≤ 1 ∧
      (sampleLoopKeyMaker.1.m_keyMaker = true → sampleLoopKeyMaker.2.oneShots.count .sgkeyTimeout = 1) :=
  ⟨loopReachable_sampleLoopKeyMaker, rekey_timer_armed_once loopReachable_sampleLoopKeyMaker⟩

theorem keyMaker_is_eligible_sample :
    LoopReachable sampleEnv sampleLoopKeyMaker ∧ sampleLoopKeyMaker.1.m_keyMaker = true ∧
      (sampleLoopKeyMaker.1.m_subr = true ∧ 0 < kmpri sampleEnv sampleLoopKeyMaker.1 sampleLoopKeyMaker.1.m_tp) ∧
      ¬(sampleLoopKeyMaker.1.m_pubdist = true ∧ isRelay sampleEnv sampleLoopKeyMaker.1.m_tp = true) :=
  ⟨loopReachable_sampleLoopKeyMaker, sampleLoopKeyMaker_keyMaker,
    keyMaker_is_eligible loopReachable_sampleLoopKeyMaker sampleLoopKeyMaker_keyMaker⟩

end Sample

end SgKeyDist.EventLoop
