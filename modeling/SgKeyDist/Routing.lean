import SgKeyDist.Fabric
import SgKeyDist.Lifetime

namespace SgKeyDist.Routing

open SgKeyDist.ByteOrder SgKeyDist.Identity SgKeyDist.KeyRecord SgKeyDist.State
open SgKeyDist.Member SgKeyDist.KeyMaker SgKeyDist.Peer SgKeyDist.EventLoop SgKeyDist.Fabric
open SgKeyDist.Lifetime

section Naming

variable {E : Env} {s s' : DistSGKey} {lg : LoopGroup}

/-- `p` is a publication `s` makes: an empty membership request under its member-request
prefix, or a key record under its key-record prefix. -/
def NamedBy (s : DistSGKey) (p : Pub) : Prop :=
  (∃ ts, p.name = s.m_mrPrefix ++ [timestamp ts] ∧ p.content = []) ∨
    ∃ epoch lo hi ts ct pk recs,
      p.name = krName s.m_krPrefix epoch lo hi ts ∧ p.content = krContent ct pk recs

theorem namedBy_of_prefixes (hmr : s'.m_mrPrefix = s.m_mrPrefix)
    (hkr : s'.m_krPrefix = s.m_krPrefix) {p : Pub} : NamedBy s' p ↔ NamedBy s p := by
  simp only [NamedBy, hmr, hkr]

theorem namedBy_congr (hc : config s' = config s) {p : Pub} : NamedBy s' p ↔ NamedBy s p :=
  namedBy_of_prefixes (congrArg Config.mrPrefix hc) (congrArg Config.krPrefix hc)

theorem namedBy_step (h : Reachable E s) (ev : Event) {p : Pub}
    (hp : p ∈ published (step E s ev).2) : NamedBy s p := by
  rcases published_step h.wf ev hp with ⟨now, rfl⟩ | ⟨⟨lo, hi, ts, recs, rfl, -⟩, -⟩
  · exact .inl ⟨now, rfl, rfl⟩
  · exact (namedBy_congr (config_step h.wf ev)).mp (.inr ⟨_, lo, hi, ts, _, _, recs, rfl, rfl⟩)

theorem mem_set_or_getElem? {α : Type} {l : List α} {x y : α} {i : Nat} (h : x ∈ l) :
    x ∈ l.set i y ∨ l[i]? = some x := by
  obtain ⟨j, hj⟩ := List.mem_iff_getElem?.mp h
  by_cases hij : i = j
  · exact .inr (hij ▸ hj)
  · exact .inl (List.mem_iff_getElem?.mpr ⟨j, by rw [List.getElem?_set_ne hij, hj]⟩)

theorem namedBy_of_reachable (h : LoopGroupReachable E lg) {p : Pub}
    (hp : p ∈ published lg.out) : ∃ st ∈ lg.peers, NamedBy st.1 p := by
  induction h generalizing p with
  | init => cases hp
  | @step lg i ev hr _ _ ih =>
    cases hsi : lg.peers[i]? with
    | none => simp only [loopGroupStep, hsi] at hp ⊢; exact ih hp
    | some st₀ =>
      have h₀ := hr.loopReachable st₀ (List.getElem?_mem hsi)
      have hnew : loopStep E st₀ ev ∈ lg.peers.set i (loopStep E st₀ ev) :=
        List.mem_set _ _ (List.getElem?_eq_some_iff.mp hsi).1 _
      have hc := config_step h₀.reachable.wf (st₀.2.method ev)
      simp only [loopGroupStep, hsi, published_append, List.mem_append] at hp ⊢
      rcases hp with hp | hp
      · obtain ⟨st, hs, hn⟩ := ih hp
        rcases mem_set_or_getElem? (y := loopStep E st₀ ev) hs with hs | hs
        · exact ⟨st, hs, hn⟩
        · cases hsi.symm.trans hs
          exact ⟨_, hnew, (namedBy_congr hc).mpr hn⟩
      · exact ⟨_, hnew, (namedBy_congr hc).mpr (namedBy_step h₀.reachable _ hp)⟩

end Naming

section Routing

variable {E : Env} {lg : LoopGroup}

theorem eq_of_prefix_append {pre n : Name} {a b : Bytes} (ha : pre ++ [a] <+: n)
    (hb : pre ++ [b] <+: n) : a = b := by
  obtain ⟨r, hr⟩ := ha
  obtain ⟨r', hr'⟩ := hb
  have := hr.trans hr'.symm
  simp only [List.append_assoc, List.singleton_append, List.append_cancel_left_eq,
    List.cons.injEq] at this
  exact this.1

/-- In a group whose peers share one prefix, each subscription is handed only its own kind of
publication: `addGroupMem` only empty membership requests under the member-request prefix, and
`receiveSGKeyRecords` only key records under the key-record prefix. -/
theorem subscriptions_hand_their_kind (h : LoopGroupReachable E lg) {pPre : Name}
    (hpre : ∀ st ∈ lg.peers, DistSGKey.m_prefix st.1 = pPre) {st : DistSGKey × Loop}
    (hs : st ∈ lg.peers) {pfx : Name} {p : Pub} {now : Nat}
    (he : st.2.enabled (.deliver pfx p now)) (hp : p ∈ published lg.out) :
    (st.2.method (.deliver pfx p now) = .addGroupMem p now →
      p.content = [] ∧ ∃ ts, p.name = st.1.m_mrPrefix ++ [timestamp ts]) ∧
    (st.2.method (.deliver pfx p now) = .receiveSGKeyRecords p now →
      ∃ epoch lo hi ts ct pk recs,
        p.name = krName st.1.m_krPrefix epoch lo hi ts ∧ p.content = krContent ct pk recs) := by
  have hi := (h.loopReachable st hs).inv
  have hb := bound_of_reachable (h.loopReachable st hs).reachable
  obtain ⟨st', hs', hn⟩ := namedBy_of_reachable h hp
  have hb' := bound_of_reachable (h.loopReachable st' hs').reachable
  have hpre' : DistSGKey.m_prefix st'.1 = DistSGKey.m_prefix st.1 :=
    (hpre _ hs').trans (hpre _ hs).symm
  have hmrEq : st'.1.m_mrPrefix = st.1.m_mrPrefix := by rw [hb'.mr, hb.mr, hpre']
  have hkrEq : st'.1.m_krPrefix = st.1.m_krPrefix := by rw [hb'.kr, hb.kr, hpre']
  rw [namedBy_of_prefixes hmrEq hkrEq] at hn
  have hkr : asBytes "mr" ≠ asBytes "kr" := by decide
  constructor
  · intro hm
    obtain ⟨pfx', hev, hsub⟩ := method_eq_addGroupMem hm
    cases hev
    have hmr : st.1.m_mrPrefix <+: p.name := hi.subs_addGroupMem hsub ▸ he.2
    rcases hn with ⟨ts, hname, hc⟩ | ⟨epoch, lo, hi', ts, ct, pk, recs, hname, -⟩
    · exact ⟨hc, ts, hname⟩
    · refine absurd (eq_of_prefix_append (hb.mr ▸ hmr) ?_) hkr
      rw [← hb.kr, hname]; exact List.prefix_append _ _
  · intro hm
    have hpfx : pfx = st.1.m_krPrefix := by
      by_contra hne
      by_cases hmr : pfx = st.1.m_mrPrefix
      · have hsub := hi.subs_mr
        rw [← hmr] at hsub
        by_cases hk : st.1.m_keyMaker
        · rw [if_pos hk] at hsub
          rw [Loop.method, if_pos hsub] at hm
          cases hm
        · rw [if_neg hk] at hsub
          exact he.1 hsub
      · exact he.1 (hi.subs_other pfx hne hmr)
    rcases hn with ⟨ts, hname, -⟩ | hn
    · refine absurd (eq_of_prefix_append ?_ (hb.kr ▸ hpfx ▸ he.2)) hkr
      rw [← hb.mr, hname]; exact List.prefix_append _ _
    · exact hn

end Routing

section Sample

set_option maxRecDepth 4000 in
def sampleMaker : DistSGKey × Loop := sampleLoopGroup.peers.get ⟨0, by decide⟩

set_option maxRecDepth 4000 in
theorem subscriptions_hand_their_kind_sample :
    LoopGroupReachable sampleEnv sampleLoopGroup ∧
      (∀ st ∈ sampleLoopGroup.peers, DistSGKey.m_prefix st.1 = [asBytes "g"]) ∧
      sampleMaker ∈ sampleLoopGroup.peers ∧
      sampleMaker.2.enabled (.deliver sampleMaker.1.m_mrPrefix (mrPub (samplePeer 2) 6) 9) ∧
      mrPub (samplePeer 2) 6 ∈ published sampleLoopGroup.out ∧
      (sampleMaker.2.method (.deliver sampleMaker.1.m_mrPrefix (mrPub (samplePeer 2) 6) 9) =
          .addGroupMem (mrPub (samplePeer 2) 6) 9 →
        (mrPub (samplePeer 2) 6).content = [] ∧
          ∃ ts, (mrPub (samplePeer 2) 6).name = sampleMaker.1.m_mrPrefix ++ [timestamp ts]) ∧
      (sampleMaker.2.method (.deliver sampleMaker.1.m_mrPrefix (mrPub (samplePeer 2) 6) 9) =
          .receiveSGKeyRecords (mrPub (samplePeer 2) 6) 9 →
        ∃ epoch lo hi ts ct pk recs,
          (mrPub (samplePeer 2) 6).name = krName sampleMaker.1.m_krPrefix epoch lo hi ts ∧
            (mrPub (samplePeer 2) 6).content = krContent ct pk recs) := by
  have hpre : ∀ st ∈ sampleLoopGroup.peers, DistSGKey.m_prefix st.1 = [asBytes "g"] := by decide
  have hs : sampleMaker ∈ sampleLoopGroup.peers := List.get_mem _ _ _
  have he : sampleMaker.2.enabled
      (.deliver sampleMaker.1.m_mrPrefix (mrPub (samplePeer 2) 6) 9) := by decide
  have hp : mrPub (samplePeer 2) 6 ∈ published sampleLoopGroup.out := by decide
  exact ⟨loopGroupReachable_sampleLoopGroup, hpre, hs, he, hp,
    subscriptions_hand_their_kind loopGroupReachable_sampleLoopGroup hpre hs he hp⟩

end Sample

end SgKeyDist.Routing
