import Mathlib.Logic.Relation
import SgKeyDist.EventLoop
import SgKeyDist.Rekey

namespace SgKeyDist.Conflict

open SgKeyDist.ByteOrder SgKeyDist.Identity SgKeyDist.KeyRecord SgKeyDist.State
open SgKeyDist.Member SgKeyDist.KeyMaker SgKeyDist.Peer SgKeyDist.Receiver SgKeyDist.Rekey
open SgKeyDist.EventLoop

section Election

variable {E : Env} {s : DistSGKey} {es : List Effect}

theorem election_apply (l : Loop) {e : Effect} (he : ∀ pfx ms, e ≠ .joinElection pfx ms) :
    (l.apply e).election = l.election := by
  cases e <;> first | rfl | exact absurd rfl (he _ _)

theorem election_applyAll (l : Loop) (h : ∀ pfx ms, Effect.joinElection pfx ms ∉ es) :
    (l.applyAll es).election = l.election := by
  induction es generalizing l with
  | nil => rfl
  | cons e es ih =>
    rw [Loop.applyAll_cons, ih _ fun a b hm => h a b (List.mem_cons_of_mem _ hm)]
    exact election_apply l fun a b he => h a b (he ▸ List.mem_cons_self _ _)

theorem not_joinElection_of_silent (h : Silent es) (pfx : Name) (ms : Nat) :
    Effect.joinElection pfx ms ∉ es := fun hm => by
  cases congrArg View.election (h _ hm Loop.init)

theorem not_joinElection_sgkeyTimeout (E : Env) (s : DistSGKey) (mi : Mint) (pfx : Name)
    (ms : Nat) : Effect.joinElection pfx ms ∉ (sgkeyTimeout E s mi).2 := by
  unfold sgkeyTimeout
  split
  · exact List.not_mem_nil _
  · rw [andThen_snd, List.mem_append, List.mem_singleton, not_or]
    exact ⟨not_joinElection_of_silent (silent_makeSGKey E s mi) pfx ms, nofun⟩

theorem not_joinElection_step {ev : Event} (hev : ev ≠ .setup) (pfx : Name) (ms : Nat) :
    Effect.joinElection pfx ms ∉ (step E s ev).2 := by
  cases ev with
  | setup => exact absurd rfl hev
  | electionDone elected epoch mi =>
    cases elected
    · simp [step, electionDone]
    · simp [step, electionDone, not_joinElection_sgkeyTimeout]
  | receiveSGKeyRecords p now =>
    rcases receiveSGKeyRecords_spec E s p now with h | ⟨-, h⟩ | ⟨-, h⟩ <;>
      simp only [step, h]
    · exact List.not_mem_nil _
    · rw [andThen_snd, List.mem_append, not_or]
      exact ⟨by simp, not_joinElection_of_silent (silent_publishMembershipReq _ now) pfx ms⟩
    · exact not_joinElection_of_silent (silent_receiveAsMember E s p now) pfx ms
  | addGroupMem p now => exact not_joinElection_of_silent (silent_addGroupMem E s p now) pfx ms
  | sgkeyTimeout mi => exact not_joinElection_sgkeyTimeout E s mi pfx ms
  | publishMembershipReq now =>
    exact not_joinElection_of_silent (silent_publishMembershipReq s now) pfx ms
  | delivered ok =>
    cases ok
    · exact List.not_mem_nil _
    · exact not_joinElection_of_silent (silent_initDone s) pfx ms
  | removeGroupMem tp reKey mi =>
    cases reKey
    · exact List.not_mem_nil _
    · exact not_joinElection_of_silent (silent_makeSGKey E _ mi) pfx ms

end Election

section Demotion

variable {E : Env} {st st' : DistSGKey × Loop} {ev : LoopEvent}

theorem election_loopStep (h : LoopReachable E st) (hfin : st.2.election = .finished)
    (he : st.2.enabled ev) : (loopStep E st ev).2.election = .finished := by
  have hev : st.2.method ev ≠ .setup := by
    cases ev with
    | setup => have := h.inv.idle he; rw [hfin] at this; cases this
    | deliver => simp only [Loop.method]; split_ifs <;> nofun
    | timerFires cb => cases cb <;> nofun
    | _ => nofun
  rw [loopStep, election_applyAll _ (not_joinElection_step hev)]
  cases ev <;> first | exact hfin | rfl

theorem keyMaker_loopStep (hfin : st.2.election = .finished) (hk : st.1.m_keyMaker = false)
    (he : st.2.enabled ev) : (loopStep E st ev).1.m_keyMaker = false := by
  refine keyMaker_step hk _ fun epoch mi hm => ?_
  cases ev with
  | electionDone => cases hfin.symm.trans (show st.2.election = .running from he)
  | deliver => simp only [Loop.method] at hm; split_ifs at hm
  | timerFires cb => cases cb <;> cases hm
  | _ => cases hm

/-- The loop goes from `st` to `st'` by one enabled event. -/
def LoopNext (E : Env) (st st' : DistSGKey × Loop) : Prop :=
  ∃ ev, st.2.enabled ev ∧ st' = loopStep E st ev

theorem stays_demoted (h : LoopReachable E st) (hfin : st.2.election = .finished)
    (hk : st.1.m_keyMaker = false) (hr : Relation.ReflTransGen (LoopNext E) st st') :
    LoopReachable E st' ∧ st'.2.election = .finished ∧ st'.1.m_keyMaker = false := by
  induction hr with
  | refl => exact ⟨h, hfin, hk⟩
  | tail _ hn ih =>
    obtain ⟨ev, he, rfl⟩ := hn
    obtain ⟨h', hfin', hk'⟩ := ih
    exact ⟨.step ev h' he, election_loopStep h' hfin' he, keyMaker_loopStep hfin' hk' he⟩

/-- The conflict between two key makers is settled for good: a key maker handed, through its
key-record subscription, a publication of an identity with a positive key-maker priority and a
larger thumbprint gives the role up, and is not the key maker in any state its loop reaches
afterwards. -/
theorem demoted_key_maker_stays_demoted (h : LoopReachable E st) (hk : st.1.m_keyMaker = true)
    {p : Pub} {now : Nat} (he : st.2.enabled (.deliver st.1.m_krPrefix p now))
    (hpri : 0 < kmpri E st.1 p.signer) (hlt : st.1.m_tp < p.signer)
    (hr : Relation.ReflTransGen (LoopNext E) (loopStep E st (.deliver st.1.m_krPrefix p now)) st') :
    st'.1.m_keyMaker = false := by
  have hi := h.inv
  have hfin : st.2.election = .finished := by
    by_contra hne; rw [(hi.unelected hne).1] at hk; cases hk
  have hm : st.2.method (.deliver st.1.m_krPrefix p now) = .receiveSGKeyRecords p now := by
    simp only [Loop.method, hi.subs_kr]; split_ifs <;> simp_all
  have hk' : (loopStep E st (.deliver st.1.m_krPrefix p now)).1.m_keyMaker = false := by
    simp only [loopStep, hm, step, receiveSGKeyRecords_demote now hk hpri hlt, andThen_fst]
    exact congrArg Untouched.m_keyMaker (publishMembershipReq_untouched _ now)
  exact (stays_demoted (h.step _ he) (election_loopStep h hfin he) hk' hr).2.2

end Demotion

section Sample

def sampleRival : DistSGKey :=
  (step sampleEnv (samplePeer 3) (.electionDone true 1 (sampleMint 5))).1

set_option maxRecDepth 4000 in
theorem demoted_key_maker_stays_demoted_sample :
    LoopReachable sampleEnv sampleLoopKeyMaker ∧ sampleLoopKeyMaker.1.m_keyMaker = true ∧
      sampleLoopKeyMaker.2.enabled
        (.deliver sampleLoopKeyMaker.1.m_krPrefix (anchorPub sampleRival 5) 9) ∧
      0 < kmpri sampleEnv sampleLoopKeyMaker.1 (anchorPub sampleRival 5).signer ∧
      sampleLoopKeyMaker.1.m_tp < (anchorPub sampleRival 5).signer ∧
      (loopStep sampleEnv sampleLoopKeyMaker
        (.deliver sampleLoopKeyMaker.1.m_krPrefix (anchorPub sampleRival 5) 9)).1.m_keyMaker = false := by
  have he : sampleLoopKeyMaker.2.enabled
      (.deliver sampleLoopKeyMaker.1.m_krPrefix (anchorPub sampleRival 5) 9) := by decide
  have hpri : 0 < kmpri sampleEnv sampleLoopKeyMaker.1 (anchorPub sampleRival 5).signer := by decide
  have hlt : sampleLoopKeyMaker.1.m_tp < (anchorPub sampleRival 5).signer := by decide
  exact ⟨loopReachable_sampleLoopKeyMaker, sampleLoopKeyMaker_keyMaker, he, hpri, hlt,
    demoted_key_maker_stays_demoted loopReachable_sampleLoopKeyMaker sampleLoopKeyMaker_keyMaker
      he hpri hlt .refl⟩

end Sample

end SgKeyDist.Conflict
