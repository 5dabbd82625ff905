import SgKeyDist.EventLoop

namespace SgKeyDist.Lifetime

open SgKeyDist.ByteOrder SgKeyDist.Tlv SgKeyDist.Identity SgKeyDist.KeyRecord SgKeyDist.State
open SgKeyDist.Member SgKeyDist.KeyMaker SgKeyDist.Peer SgKeyDist.EventLoop

/-- The lifetime callback of the constructor (lines 129-132), in milliseconds: a membership
request lives 6000, a publication of the election's candidates 1000, and anything else
`m_keyLifetime`. The lambda captures both prefixes when the constructor runs and reads
`m_keyLifetime` when it is called; no method writes any of them. `crPrefix::isPrefix` is the
prefix order on the components of the names. -/
def getLifetime (s : DistSGKey) (p : Pub) : Nat :=
  if s.m_mrPrefix <+: p.name then 6000
  else if s.m_prefix ++ [asBytes "km", asBytes "cand"] <+: p.name then 1000
  else s.m_keyLifetime

section Policy

variable {E : Env} {s s' : DistSGKey}

theorem getLifetime_congr (hc : config s' = config s) : getLifetime s' = getLifetime s := by
  simp only [config, Config.mk.injEq] at hc
  obtain ⟨-, hmr, -, -, -, hpre, hlt⟩ := hc
  funext p; simp only [getLifetime, hmr, hpre, hlt]

/-- The key-record and member-request prefixes a peer binds under its group prefix. -/
structure Bound (s : DistSGKey) : Prop where
  kr : s.m_krPrefix = s.m_prefix ++ [asBytes "kr"]
  mr : s.m_mrPrefix = s.m_prefix ++ [asBytes "mr"]

theorem Bound.congr (h : Bound s) (hc : config s' = config s) : Bound s' := by
  simp only [config, Config.mk.injEq] at hc
  obtain ⟨hkr, hmr, -, -, -, hpre, -⟩ := hc
  exact ⟨by rw [hkr, hpre, h.kr], by rw [hmr, hpre, h.mr]⟩

theorem construct_bound (E : Env) (pPre : Name) (keyColl : Bytes) (tp : ThumbPrint) (sk : Bytes)
    (ri rr : Nat) :
    Bound (construct E pPre keyColl tp sk ri rr) ∧
      (construct E pPre keyColl tp sk ri rr).m_keyLifetime = ri + rr := by
  unfold construct; dsimp only; split <;> exact ⟨⟨rfl, rfl⟩, rfl⟩

theorem bound_of_reachable (h : Reachable E s) : Bound s := by
  induction h with
  | construct pPre keyColl tp sk ri rr => exact (construct_bound E pPre keyColl tp sk ri rr).1
  | step ev hr ih => exact ih.congr (config_step hr.wf ev)

theorem config_run (h : Reachable E s) (evs : List Event) : config (run E s evs).1 = config s := by
  induction evs generalizing s with
  | nil => rfl
  | cons ev evs ih => exact (ih (h.step ev)).trans (config_step h.wf ev)

theorem getLifetime_mrPub (s : DistSGKey) (now : Nat) : getLifetime s (mrPub s now) = 6000 :=
  if_pos (List.prefix_append _ _)

theorem getLifetime_krName (h : Bound s) (epoch : Nat) (lo hi : ThumbPrint) (ts : Nat)
    (c : Bytes) (tp : ThumbPrint) :
    getLifetime s ⟨krName s.m_krPrefix epoch lo hi ts, c, tp⟩ = s.m_keyLifetime := by
  simp only [getLifetime, krName, h.kr, h.mr, List.append_assoc, List.singleton_append,
    List.cons_append, List.prefix_append_right_inj, List.cons_prefix_cons]
  rw [if_neg fun h => absurd h.1 (by decide), if_neg fun h => absurd h.1 (by decide)]

theorem krContent_ne_nil (ct : Nat) (pk : Bytes) (recs : List (ThumbPrint × Bytes)) :
    krContent ct pk recs ≠ [] := by
  simp [krContent, tlv, varNumber]

theorem getLifetime_step (h : Reachable E s) (ev : Event) {p : Pub}
    (hp : p ∈ published (step E s ev).2) :
    getLifetime s p = if p.content = [] then 6000 else s.m_keyLifetime := by
  have hc := config_step h.wf ev
  rcases published_step h.wf ev hp with ⟨now, rfl⟩ | ⟨⟨lo, hi, ts, recs, rfl, -⟩, -⟩
  · exact getLifetime_mrPub s now
  · rw [← getLifetime_congr hc, getLifetime_krName (bound_of_reachable (h.step ev)),
      if_neg (krContent_ne_nil _ _ _)]
    exact congrArg Config.keyLifetime hc

theorem getLifetime_run (h : Reachable E s) (evs : List Event) {p : Pub}
    (hp : p ∈ published (run E s evs).2) :
    getLifetime (run E s evs).1 p = if p.content = [] then 6000 else s.m_keyLifetime := by
  rw [getLifetime_congr (config_run h evs)]
  induction evs generalizing s with
  | nil => cases hp
  | cons ev evs ih =>
    simp only [run, andThen_snd, published_append, List.mem_append] at hp
    rcases hp with hp | hp
    · exact getLifetime_step h ev hp
    · have hc := config_step h.wf ev
      have hlt : (step E s ev).1.m_keyLifetime = s.m_keyLifetime := congrArg Config.keyLifetime hc
      rw [← getLifetime_congr hc, ih (h.step ev) hp, hlt]

/-- The sync layer keeps every publication of a constructed peer, over any run, 6000 ms if it
is a membership request and `reKeyInterval + reKeyRandomize` if it is a key record: the
`expirationGB` the constructor takes does not enter a key record's lifetime. -/
theorem lifetime_policy (E : Env) (pPre : Name) (keyColl : Bytes) (tp : ThumbPrint) (sk : Bytes)
    (ri rr : Nat) (evs : List Event) {p : Pub}
    (hp : p ∈ published (run E (construct E pPre keyColl tp sk ri rr) evs).2) :
    getLifetime (run E (construct E pPre keyColl tp sk ri rr) evs).1 p =
      if p.content = [] then 6000 else ri + rr := by
  rw [getLifetime_run (.construct pPre keyColl tp sk ri rr) evs hp,
    (construct_bound E pPre keyColl tp sk ri rr).2]

def sampleRun : DistSGKey × List Effect :=
  run sampleEnv (construct sampleEnv [asBytes "g"] (asBytes "sg") (sampleTp 1) [] 1000 10)
    [.electionDone true 1 (sampleMint 5)]

set_option maxRecDepth 4000 in
theorem lifetime_policy_sample :
    anchorPub sampleKeyMaker (sampleMint 5).pubNow ∈ published sampleRun.2 ∧
      getLifetime sampleRun.1 (anchorPub sampleKeyMaker (sampleMint 5).pubNow) =
        if (anchorPub sampleKeyMaker (sampleMint 5).pubNow).content = [] then 6000 else 1000 + 10 := by
  have hp : anchorPub sampleKeyMaker (sampleMint 5).pubNow ∈ published sampleRun.2 := by decide
  exact ⟨hp, lifetime_policy sampleEnv [asBytes "g"] (asBytes "sg") (sampleTp 1) [] 1000 10 _ hp⟩

end Policy

end SgKeyDist.Lifetime
