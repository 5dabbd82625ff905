import SgKeyDist.Conflict
import SgKeyDist.Fabric
import SgKeyDist.Lifetime

namespace SgKeyDist.Secrecy

open SgKeyDist.ByteOrder SgKeyDist.Identity SgKeyDist.Members SgKeyDist.KeyRecord
open SgKeyDist.State SgKeyDist.Member SgKeyDist.KeyMaker SgKeyDist.Peer SgKeyDist.EventLoop
open SgKeyDist.Fabric SgKeyDist.Lifetime SgKeyDist.Conflict

section Provenance

variable {E : Env} {lg : LoopGroup}

/-- `tp` signed a publication under `mr` that the fabric carried. -/
def Requested (out : List Effect) (mr : Name) (tp : ThumbPrint) : Prop :=
  ∃ q ∈ published out, mr <+: q.name ∧ q.signer = tp

theorem Requested.append {out : List Effect} {mr : Name} {tp : ThumbPrint}
    (h : Requested out mr tp) (es : List Effect) : Requested (out ++ es) mr tp := by
  obtain ⟨q, hq, hp, hs⟩ := h
  exact ⟨q, by rw [published_append]; exact List.mem_append_left _ hq, hp, hs⟩

theorem construct_mbrList (E : Env) (pPre : Name) (keyColl : Bytes) (tp : ThumbPrint)
    (sk : Bytes) (ri rr : Nat) :
    (construct E pPre keyColl tp sk ri rr).m_mbrList = MbrList.empty := by
  unfold construct; dsimp only; split <;> rfl

theorem requested_of_mem_mbrList (h : LoopGroupReachable E lg) {st : DistSGKey × Loop}
    (hs : st ∈ lg.peers) {e : ThumbPrint × Bytes} (he : e ∈ st.1.m_mbrList.entries) :
    Requested lg.out st.1.m_mrPrefix e.1 := by
  induction h generalizing st with
  | init peers h₀ =>
    obtain ⟨s, hs', rfl⟩ := List.mem_map.mp hs
    obtain ⟨pPre, keyColl, tp, sk, ri, rr, rfl⟩ := h₀ s hs'
    rw [construct_mbrList] at he
    cases he
  | @step lg i ev hr hen hd ih =>
    cases hsi : lg.peers[i]? with
    | none => simp only [loopGroupStep, hsi] at hs ⊢; exact ih hs he
    | some st₀ =>
      simp only [loopGroupStep, hsi] at hs ⊢
      rcases List.mem_or_eq_of_mem_set hs with hs | rfl
      · exact (ih hs he).append _
      · have h₀ := hr.loopReachable st₀ (List.getElem?_mem hsi)
        have hw := h₀.reachable.wf
        have hmr : (step E st₀.1 (st₀.2.method ev)).1.m_mrPrefix = st₀.1.m_mrPrefix :=
          congrArg Config.mrPrefix (config_step hw (st₀.2.method ev))
        simp only [loopStep] at he ⊢
        rw [hmr]
        rcases mem_step_mbrList hw _ he with he | ⟨q, now, hm, hsg, -⟩
        · exact (ih (List.getElem?_mem hsi) he).append _
        · obtain ⟨pfx, rfl, hsub⟩ := method_eq_addGroupMem hm
          refine ⟨q, ?_, h₀.inv.subs_addGroupMem hsub ▸ (hen st₀ hsi).2, hsg.symm⟩
          rw [published_append]; exact List.mem_append_left _ (hd pfx q now rfl)

/-- A peer admits only identities that asked: each member of its table signed a publication
under the peer's member-request prefix, and the fabric carried that publication. The sync
layer validates every signature, so no identity is admitted without its own request. -/
theorem admitted_only_on_request (h : LoopGroupReachable E lg) {st : DistSGKey × Loop}
    (hs : st ∈ lg.peers) {e : ThumbPrint × Bytes} (he : e ∈ st.1.m_mbrList.entries) :
    ∃ q ∈ published lg.out, st.1.m_mrPrefix <+: q.name ∧ q.signer = e.1 :=
  requested_of_mem_mbrList h hs he

/-- What a sealed record `r` of a key record of the group `<pPre>`, made by a peer of
collection `keyColl` with secret key `sk`, says of the identity it names: it requested
membership under `<pPre>/mr`, it holds the SG capability for that collection, it is no relay of
a publication-level distributor, and the key is sealed to the key `addGroupMem` converts from
its certificate. -/
structure Addressee (E : Env) (out : List Effect) (pPre : Name) (keyColl sk : Bytes)
    (r : ThumbPrint × Bytes) : Prop where
  requested : Requested out (pPre ++ [asBytes "mr"]) r.1
  capable : E.certs.capArg "SG" r.1 = keyColl
  notRelay : keyColl = asBytes "pubs" → isRelay E r.1 = false
  sealed : ∃ x, E.sodium.pkToCurve25519 (E.certs.content r.1) = some x ∧
    r.2 = E.sodium.boxSeal sk x

theorem Addressee.append {out : List Effect} {pPre : Name} {keyColl sk : Bytes}
    {r : ThumbPrint × Bytes} (h : Addressee E out pPre keyColl sk r) (es : List Effect) :
    Addressee E (out ++ es) pPre keyColl sk r :=
  ⟨h.requested.append es, h.capable, h.notRelay, h.sealed⟩

/-- `p` is a key record the peer sends from state `s`: signed by it, named under its group's
key-record prefix in its epoch, carrying its key's creation time and public key, and each of
whose sealed records seals its secret key for an addressee of its group and collection. -/
def SealedToRequesters (E : Env) (out : List Effect) (s : DistSGKey) (p : Pub) : Prop :=
  ∃ lo hi ts recs, p = ⟨krName ( DistSGKey.m_prefix s ++ [asBytes "kr"]) s.m_KMepoch.toNat lo hi ts,
      krContent s.m_curKeyCT.toNat s.m_sgPK recs, s.m_tp⟩ ∧
    ∀ r ∈ recs, Addressee E out ( DistSGKey.m_prefix s) s.m_keyColl s.m_sgSK r

theorem SealedToRequesters.append {out : List Effect} {s : DistSGKey} {p : Pub}
    (h : SealedToRequesters E out s p) (es : List Effect) : SealedToRequesters E (out ++ es) s p :=
  let ⟨lo, hi, ts, recs, hp, hrecs⟩ := h
  ⟨lo, hi, ts, recs, hp, fun r hr => (hrecs r hr).append es⟩

end Provenance

section Sample

set_option maxRecDepth 4000 in
theorem admitted_only_on_request_sample :
    LoopGroupReachable sampleEnv sampleLoopGroup ∧
      (sampleTp 2, (sampleTp 2).bytes) ∈
        (sampleLoopGroup.peers.get ⟨0, by decide⟩).1.m_mbrList.entries ∧
      ∃ q ∈ published sampleLoopGroup.out,
        (sampleLoopGroup.peers.get ⟨0, by decide⟩).1.m_mrPrefix <+: q.name ∧
          q.signer = sampleTp 2 := by
  have he : (sampleTp 2, (sampleTp 2).bytes) ∈
      (sampleLoopGroup.peers.get ⟨0, by decide⟩).1.m_mbrList.entries := by decide
  exact ⟨loopGroupReachable_sampleLoopGroup, he,
    admitted_only_on_request loopGroupReachable_sampleLoopGroup (List.get_mem _ _ _) he⟩

end Sample

end SgKeyDist.Secrecy
