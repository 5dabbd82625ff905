import SgKeyDist.Peer

namespace SgKeyDist.Rotation

open SgKeyDist.ByteOrder SgKeyDist.Identity SgKeyDist.Members SgKeyDist.KeyRecord
open SgKeyDist.State SgKeyDist.Member SgKeyDist.KeyMaker SgKeyDist.Peer

/-- What `updateSigningKey` reads besides the state: the thumbprint of the store's first
signing chain (`m_certs.Chains()[0]`), the new signing secret key, and the thumbprint and
content of the new public certificate. -/
structure SigningKey where
  chain0 : ThumbPrint
  sk : Bytes
  certTP : ThumbPrint
  certContent : Bytes

/-- `std::vector::resize(32)`: truncate, or pad with zero bytes. -/
def resize32 (b : Bytes) : Bytes := b.take 32 ++ List.replicate (32 - b.length) 0

@[simp] theorem resize32_nil : resize32 [] = List.replicate 32 0 := rfl

/-- `DistSGKey::updateSigningKey` (lines 191-239). Line 195 raises when the new certificate is
not the first chain's, after line 194 has written `m_tp`. The errors of lines 212, 225, 229 and
238 are built and dropped, never thrown; a failed key conversion leaves the resized buffer. -/
def updateSigningKey (E : Env) (s : DistSGKey) (k : SigningKey) (now : Nat) :
    DistSGKey × List Effect :=
  let s₁ := { s with m_tp := k.chain0 }
  if s₁.m_tp ≠ k.certTP then (s₁, [.raise])
  else
    let s₂ := { s₁ with m_subr := sgMem E s₁ s₁.m_tp }
    if !s₂.m_subr then (s₂, [])
    else
      let s₃ := { s₂ with
        m_sDecKey := (E.sodium.skToCurve25519 (k.sk.take 32)).getD (resize32 s₂.m_sDecKey),
        m_pDecKey := (E.sodium.pkToCurve25519 k.certContent).getD (resize32 s₂.m_pDecKey) }
      if s₃.m_init then (s₃, [])
      else if !s₃.m_keyMaker then publishMembershipReq s₃ now
      else if 0 < kmpri E s₃ s₃.m_tp then ({ s₃ with m_kmtp := s₃.m_tp }, [])
      else (s₃, [])

/-- The constructor's member initialisers and line 151, before its call of
`updateSigningKey`; `m_tp` still holds its zero initial value. -/
def fresh (pPre : Name) (keyColl : Bytes) (reKeyInterval reKeyRandomize : Nat) : DistSGKey :=
  { m_prefix := pPre, m_krPrefix := pPre ++ [asBytes "kr"], m_mrPrefix := pPre ++ [asBytes "mr"],
    m_keyColl := keyColl, m_tp := ThumbPrint.zero, m_kmtp := ThumbPrint.zero, m_pDecKey := [],
    m_sDecKey := [], m_sgSK := [], m_sgPK := [], m_curKeyCT := 0, m_mbrList := MbrList.empty,
    m_reKeyInt := reKeyInterval, m_keyRand := reKeyRandomize,
    m_keyLifetime := reKeyInterval + reKeyRandomize, m_KMepoch := 0, m_keyMaker := false,
    m_subr := false, m_init := true, m_pubdist := keyColl == asBytes "pubs", m_mrPending := false }

section Spec

variable {E : Env} {s : DistSGKey} {k : SigningKey} {now : Nat}

/-- The fields a rotation leaves alone: the group key pair and its creation time, the role,
the member table, the collection, the distributor kind and the member-request prefix. -/
structure Rotated (s s' : DistSGKey) : Prop where
  sgPK : s'.m_sgPK = s.m_sgPK
  sgSK : s'.m_sgSK = s.m_sgSK
  curKeyCT : s'.m_curKeyCT = s.m_curKeyCT
  keyMaker : s'.m_keyMaker = s.m_keyMaker
  mbrList : s'.m_mbrList = s.m_mbrList
  keyColl : s'.m_keyColl = s.m_keyColl
  pubdist : s'.m_pubdist = s.m_pubdist
  mrPrefix : s'.m_mrPrefix = s.m_mrPrefix

theorem updateSigningKey_cases (E : Env) (s : DistSGKey) (k : SigningKey) (now : Nat) :
    ∃ s', Rotated s s' ∧ s'.m_tp = k.chain0 ∧
      ((k.chain0 ≠ k.certTP ∧ updateSigningKey E s k now = (s', [.raise])) ∨
        (k.chain0 = k.certTP ∧ (updateSigningKey E s k now = (s', []) ∨
          updateSigningKey E s k now = publishMembershipReq s' now))) := by
  generalize hr : updateSigningKey E s k now = r
  unfold updateSigningKey at hr
  dsimp only at hr
  split at hr
  next h₁ =>
    subst hr
    refine ⟨_, ?_, ?_, .inl ⟨h₁, rfl⟩⟩
    exacts [⟨rfl, rfl, rfl, rfl, rfl, rfl, rfl, rfl⟩, rfl]
  next h₁ =>
    have hq : k.chain0 = k.certTP := not_not.1 h₁
    repeat' split at hr
    all_goals
      subst hr
      first
      | refine ⟨_, ?_, ?_, .inr ⟨hq, .inl rfl⟩⟩
      | refine ⟨_, ?_, ?_, .inr ⟨hq, .inr rfl⟩⟩
      exacts [⟨rfl, rfl, rfl, rfl, rfl, rfl, rfl, rfl⟩, rfl]

theorem rotated_publishMembershipReq {s s' : DistSGKey} (h : Rotated s s') (now : Nat) :
    Rotated s (publishMembershipReq s' now).1 ∧ (publishMembershipReq s' now).1.m_tp = s'.m_tp ∧
      mrPub (publishMembershipReq s' now).1 now = mrPub s' now := by
  unfold publishMembershipReq
  split <;>
    exact ⟨⟨h.sgPK, h.sgSK, h.curKeyCT, h.keyMaker, h.mbrList, h.keyColl, h.pubdist, h.mrPrefix⟩,
      rfl, rfl⟩

theorem keyCT_publishMembershipReq (s : DistSGKey) (now : Nat) :
    ∀ e ∈ (publishMembershipReq s now).2, e.keyCT? = none := by
  unfold publishMembershipReq
  split <;> intro e he <;> simp only [List.mem_cons, List.mem_singleton, List.not_mem_nil,
    or_false] at he <;> rcases he with rfl | rfl | rfl <;> rfl

theorem updateSigningKey_spec (E : Env) (s : DistSGKey) (k : SigningKey) (now : Nat) :
    Rotated s (updateSigningKey E s k now).1 ∧ (updateSigningKey E s k now).1.m_tp = k.chain0 ∧
      (∀ e ∈ (updateSigningKey E s k now).2, e.keyCT? = none) ∧
      published (updateSigningKey E s k now).2 ⊆ [mrPub (updateSigningKey E s k now).1 now] := by
  obtain ⟨s', hr, htp, ⟨-, h⟩ | ⟨-, h | h⟩⟩ := updateSigningKey_cases E s k now <;> rw [h]
  · exact ⟨hr, htp, fun e he => by rw [List.mem_singleton.1 he]; rfl,
      by simp [published, Effect.pub?]⟩
  · exact ⟨hr, htp, by simp, by simp [published]⟩
  · obtain ⟨hr', htp', hm⟩ := rotated_publishMembershipReq hr now
    exact ⟨hr', htp'.trans htp, keyCT_publishMembershipReq s' now,
      hm ▸ published_publishMembershipReq s' now⟩

theorem wf_updateSigningKey (hw : Wf E s) (k : SigningKey) (now : Nat) :
    Wf E (updateSigningKey E s k now).1 :=
  have hr := (updateSigningKey_spec E s k now).1
  hw.of_frame hr.keyColl hr.pubdist hr.mbrList fun hk => ⟨hr.keyMaker ▸ hk, hr.sgPK, hr.sgSK⟩

theorem construct_first_update (E : Env) (pPre : Name) (keyColl : Bytes) (tp : ThumbPrint)
    (sk : Bytes) (ri rr now : Nat) :
    updateSigningKey E (fresh pPre keyColl ri rr) ⟨tp, sk, tp, E.certs.content tp⟩ now =
      (construct E pPre keyColl tp sk ri rr, []) := by
  unfold updateSigningKey construct fresh
  by_cases hg : E.certs.capArg "SG" tp = keyColl <;> simp [sgMem, hg]

end Spec

end SgKeyDist.Rotation
