import SgKeyDist.State

namespace SgKeyDist.Member

open SgKeyDist.ByteOrder SgKeyDist.Tlv SgKeyDist.Identity SgKeyDist.Members SgKeyDist.KeyRecord
open SgKeyDist.State

/-- Sequencing inside a method: run `f` on the state `o` left, after `o`'s effects. -/
def andThen (o : DistSGKey × List Effect) (f : DistSGKey → DistSGKey × List Effect) :
    DistSGKey × List Effect :=
  ((f o.1).1, o.2 ++ (f o.1).2)

@[simp] theorem andThen_fst (o : DistSGKey × List Effect) (f : DistSGKey → DistSGKey × List Effect) :
    (andThen o f).1 = (f o.1).1 := rfl

@[simp] theorem andThen_snd (o : DistSGKey × List Effect) (f : DistSGKey → DistSGKey × List Effect) :
    (andThen o f).2 = o.2 ++ (f o.1).2 := rfl

/-- The fields that a member's handling of a key record never writes. -/
structure Untouched where
  m_prefix : Name
  m_krPrefix : Name
  m_mrPrefix : Name
  m_keyColl : Bytes
  m_tp : ThumbPrint
  m_pDecKey : Bytes
  m_sDecKey : Bytes
  m_sgSK : Bytes
  m_sgPK : Bytes
  m_mbrList : MbrList
  m_keyLifetime : Nat
  m_reKeyInt : Nat
  m_subr : Bool
  m_pubdist : Bool
  m_keyMaker : Bool

def untouched (s : DistSGKey) : Untouched :=
  ⟨s.m_prefix, s.m_krPrefix, s.m_mrPrefix, s.m_keyColl, s.m_tp, s.m_pDecKey, s.m_sDecKey,
    s.m_sgSK, s.m_sgPK, s.m_mbrList, s.m_keyLifetime, s.m_reKeyInt, s.m_subr, s.m_pubdist,
    s.m_keyMaker⟩

theorem kmpri_congr {E : Env} {s s' : DistSGKey} (h : untouched s' = untouched s) :
    kmpri E s' = kmpri E s := by
  funext tp; simp only [kmpri, show s'.m_pubdist = s.m_pubdist from congrArg Untouched.m_pubdist h]

/-- A membership request: `<m_mrPrefix>/<timestamp>`, empty, signed with our key. -/
def mrPub (s : DistSGKey) (now : Nat) : Pub := ⟨s.m_mrPrefix ++ [timestamp now], [], s.m_tp⟩

/-- Publish a membership request and arm its refresh for a key lifetime; an identity
without the SG capability only cancels. -/
def publishMembershipReq (s : DistSGKey) (now : Nat) : DistSGKey × List Effect :=
  if !s.m_subr then (s, [.cancelRefresh])
  else ({ s with m_mrPending := true },
    [.cancelRefresh, .publish (mrPub s now), .scheduleRefresh s.m_keyLifetime])

def receivedGK (s : DistSGKey) : DistSGKey × List Effect :=
  ({ s with m_mrPending := false }, [.cancelRefresh])

def initDone (s : DistSGKey) : DistSGKey × List Effect :=
  if s.m_init then ({ s with m_init := false }, [.connected]) else (s, [])

/-- Lines 263-273: a key-maker that gets a key record from a larger thumbprint stands
down and asks the winner for membership. -/
def demote (s : DistSGKey) (signer : ThumbPrint) (now : Nat) : DistSGKey × List Effect :=
  if s.m_tp < signer then
    andThen ({ s with m_keyMaker := false, m_kmtp := signer }, [.unsubscribe s.m_mrPrefix])
      (publishMembershipReq · now)
  else (s, [])

/-- Lines 286-294: a record of another epoch is ignored unless the epoch is 0 or 1, which
is adopted with the recorded key-maker cleared. -/
def checkEpoch (s : DistSGKey) (epoch : Nat) : Option DistSGKey :=
  if epoch ≠ s.m_KMepoch.toNat then
    if epoch > 1 then none
    else some { s with m_KMepoch := UInt32.ofNat epoch, m_kmtp := ThumbPrint.zero }
  else some s

/-- Line 297: a larger key-maker thumbprint is recorded and the current creation time reset,
so that its next key is taken. -/
def checkDrift (s : DistSGKey) (signer : ThumbPrint) : DistSGKey :=
  if s.m_kmtp < signer then { s with m_curKeyCT := 0, m_kmtp := signer } else s

/-- Line 316: a subscriber whose identifier lies outside the record's range. -/
def outOfRange (s : DistSGKey) (tpl tph : Bytes) : Bool :=
  s.m_subr && (less (s.m_tp.bytes.take tpl.length) tpl || less tph (s.m_tp.bytes.take tpl.length))

/-- Lines 312-323, reached when out of range. `newCT` is compared before the content is
parsed, so it still holds its initial 0. -/
def omitted (s : DistSGKey) : List Effect :=
  let newCT : Nat := 0
  if s.m_curKeyCT.toNat < newCT ∧ !s.m_mrPending then [.oneTime 2000 .publishMembershipReq] else []

/-- Lines 324-367: parse the content and take a newer key. A parse error is caught and
drops the record; a publisher-only identity takes the public key alone. -/
def adoptKey (E : Env) (s : DistSGKey) (c : Bytes) : DistSGKey × List Effect :=
  match readCT c with
  | none => (s, [])
  | some (newCT, c₁) =>
    if newCT ≤ s.m_curKeyCT.toNat then (s, [])
    else match nextBlk 150 c₁ with
    | none => (s, [])
    | some (sgPK, c₂) =>
      if !s.m_subr then
        andThen ({ s with m_curKeyCT := UInt64.ofNat newCT },
          [.newKey sgPK [] (UInt64.ofNat newCT)]) initDone
      else match nextBlk 130 c₂ with
      | none => (s, [])
      | some (v, _) =>
        match (toSpanEgkr v).find? (fun r => r.1 == s.m_tp.bytes) with
        | none => (s, [])
        | some (_, nk) =>
          match E.sodium.boxSealOpen nk s.m_pDecKey s.m_sDecKey with
          | none => (s, [])
          | some sgSK =>
            andThen (andThen ({ s with m_curKeyCT := UInt64.ofNat newCT },
              [.newKey sgPK sgSK (UInt64.ofNat newCT)]) receivedGK) initDone

/-- `n.nextAt(m_krPrefix.size()).toNumber()`: the epoch a key-record name carries. -/
def recordEpoch (s : DistSGKey) (p : Pub) : Option Nat := p.name[s.m_krPrefix.length]?.bind toNumber

theorem recordEpoch_krName (r : DistSGKey) {e : Nat} (he : e < 2 ^ 64) (lo hi : ThumbPrint)
    (ts : Nat) (c : Bytes) (sg : ThumbPrint) :
    recordEpoch r ⟨krName r.m_krPrefix e lo hi ts, c, sg⟩ = some e := by
  simp only [recordEpoch, krName, List.getElem?_append_right (Nat.le_refl _), Nat.sub_self,
    List.getElem?_cons_zero, Option.some_bind, toNumber_nonNegInt he]

theorem recordEpoch_congr {s s' : DistSGKey} (h : untouched s' = untouched s) :
    recordEpoch s' = recordEpoch s := by
  funext p; simp only [recordEpoch, show s'.m_krPrefix = s.m_krPrefix from congrArg Untouched.m_krPrefix h]

/-- Lines 274-367: a member's handling of an authorized key record. Names are
`<m_krPrefix>/<epoch>/<low tpId>/<high tpId>/<timestamp>`; reading them is outside the
`try`, so a missing or malformed component raises. -/
def receiveAsMember (E : Env) (s : DistSGKey) (p : Pub) (now : Nat) : DistSGKey × List Effect :=
  if s.m_init && s.m_subr && !s.m_mrPending then publishMembershipReq s now
  else match recordEpoch s p with
    | none => (s, [.raise])
    | some epoch =>
      match checkEpoch s epoch with
      | none => (s, [])
      | some s₁ =>
        let s₂ := checkDrift s₁ p.signer
        match p.name[s.m_krPrefix.length + 1]?, p.name[s.m_krPrefix.length + 2]? with
        | some tpl, some tph =>
          if outOfRange s₂ tpl tph then (s₂, omitted s₂) else adoptKey E s₂ p.content
        | _, _ => (s₂, [.raise])

/-- The key-record subscription callback. -/
def receiveSGKeyRecords (E : Env) (s : DistSGKey) (p : Pub) (now : Nat) :
    DistSGKey × List Effect :=
  if kmpri E s p.signer ≤ 0 then (s, [])
  else if s.m_keyMaker then demote s p.signer now
  else receiveAsMember E s p now

theorem publishMembershipReq_untouched (s : DistSGKey) (now : Nat) :
    untouched (publishMembershipReq s now).1 = untouched s := by
  unfold publishMembershipReq; split <;> rfl

theorem initDone_fst (s : DistSGKey) : (initDone s).1 = { s with m_init := false } := by
  unfold initDone; split
  · rfl
  · rename_i h; simp only [Bool.not_eq_true] at h; rw [← h]

theorem initDone_untouched (s : DistSGKey) : untouched (initDone s).1 = untouched s := by
  rw [initDone_fst]; rfl

theorem checkEpoch_untouched {s s₁ : DistSGKey} {epoch : Nat} (h : checkEpoch s epoch = some s₁) :
    untouched s₁ = untouched s := by
  unfold checkEpoch at h; split_ifs at h <;> cases h <;> rfl

theorem checkDrift_eq (s : DistSGKey) (signer : ThumbPrint) :
    checkDrift s signer = { s with m_curKeyCT := if s.m_kmtp < signer then 0 else s.m_curKeyCT,
                                   m_kmtp := max s.m_kmtp signer } := by
  unfold checkDrift; split_ifs with h
  · rw [max_eq_right h.le]
  · rw [max_eq_left (not_lt.mp h)]

theorem omitted_eq_nil (s : DistSGKey) : omitted s = [] := by
  simp [omitted]

theorem checkDrift_untouched (s : DistSGKey) (signer : ThumbPrint) :
    untouched (checkDrift s signer) = untouched s := by
  unfold checkDrift; split <;> rfl

theorem adoptKey_spec (E : Env) (s : DistSGKey) (c : Bytes) :
    adoptKey E s c = (s, []) ∨
    ∃ n c₁ pk c₂, readCT c = some (n, c₁) ∧ s.m_curKeyCT.toNat < n ∧ nextBlk 150 c₁ = some (pk, c₂) ∧
      ((s.m_subr = false ∧ adoptKey E s c =
          andThen ({ s with m_curKeyCT := UInt64.ofNat n }, [.newKey pk [] (UInt64.ofNat n)]) initDone) ∨
       ∃ v rest tp nk sk, s.m_subr = true ∧ nextBlk 130 c₂ = some (v, rest) ∧
         (toSpanEgkr v).find? (fun r => r.1 == s.m_tp.bytes) = some (tp, nk) ∧
         E.sodium.boxSealOpen nk s.m_pDecKey s.m_sDecKey = some sk ∧
         adoptKey E s c = andThen (andThen ({ s with m_curKeyCT := UInt64.ofNat n },
           [.newKey pk sk (UInt64.ofNat n)]) receivedGK) initDone) := by
  generalize hr : adoptKey E s c = r
  unfold adoptKey at hr
  split at hr
  · exact .inl hr.symm
  rename_i n c₁ hct
  split at hr
  · exact .inl hr.symm
  rename_i hn
  split at hr
  · exact .inl hr.symm
  rename_i pk c₂ h150
  split at hr
  · rename_i hs
    exact .inr ⟨n, c₁, pk, c₂, hct, Nat.lt_of_not_le hn, h150, .inl ⟨by simpa using hs, hr.symm⟩⟩
  rename_i hs
  split at hr
  · exact .inl hr.symm
  rename_i v rest h130
  split at hr
  · exact .inl hr.symm
  rename_i tp nk hf
  split at hr
  · exact .inl hr.symm
  rename_i sk ho
  exact .inr ⟨n, c₁, pk, c₂, hct, Nat.lt_of_not_le hn, h150,
    .inr ⟨v, rest, tp, nk, sk, by simpa using hs, h130, hf, ho, hr.symm⟩⟩

theorem adoptKey_untouched (E : Env) (s : DistSGKey) (c : Bytes) :
    untouched (adoptKey E s c).1 = untouched s := by
  rcases adoptKey_spec E s c with h | ⟨_, _, _, _, -, -, -, ⟨-, h⟩ | ⟨_, _, _, _, _, -, -, -, -, h⟩⟩ <;>
    rw [h]
  all_goals exact initDone_untouched _

theorem adoptKey_cases (E : Env) (s : DistSGKey) (c : Bytes) :
    adoptKey E s c = (s, []) ∨ ∃ n, s.m_curKeyCT.toNat < n ∧ n < 2 ^ 64 ∧ (adoptKey E s c).1 =
      { s with m_curKeyCT := UInt64.ofNat n, m_mrPending := s.m_mrPending && !s.m_subr,
               m_init := false } := by
  rcases adoptKey_spec E s c with h | ⟨n, _, _, _, hct, hn, -, ⟨hs, h⟩ | ⟨_, _, _, _, _, hs, -, -, -, h⟩⟩
  · exact .inl h
  · exact .inr ⟨n, hn, readCT_lt hct, by
      rw [h]; simp only [andThen_fst, initDone_fst, hs, Bool.not_false, Bool.and_true]⟩
  · exact .inr ⟨n, hn, readCT_lt hct, by
      rw [h]; simp only [andThen_fst, initDone_fst, receivedGK, hs, Bool.not_true, Bool.and_false]⟩

theorem receiveAsMember_spec (E : Env) (s : DistSGKey) (p : Pub) (now : Nat) :
    receiveAsMember E s p now = publishMembershipReq s now ∨
    receiveAsMember E s p now = (s, [.raise]) ∨ receiveAsMember E s p now = (s, []) ∨
    ∃ e s₁, checkEpoch s e = some s₁ ∧
      (receiveAsMember E s p now = (checkDrift s₁ p.signer, [.raise]) ∨
        receiveAsMember E s p now = (checkDrift s₁ p.signer, []) ∨
        receiveAsMember E s p now = adoptKey E (checkDrift s₁ p.signer) p.content) := by
  generalize hr : receiveAsMember E s p now = r
  unfold receiveAsMember at hr
  split at hr
  · exact .inl hr.symm
  split at hr
  · exact .inr (.inl hr.symm)
  split at hr
  · exact .inr (.inr (.inl hr.symm))
  rename_i e _ _ s₁ h₁
  refine .inr (.inr (.inr ⟨e, s₁, h₁, ?_⟩))
  split at hr
  · dsimp only at hr; split at hr
    · exact .inr (.inl (by rw [← hr, omitted_eq_nil]))
    · exact .inr (.inr hr.symm)
  · exact .inl hr.symm

theorem receiveSGKeyRecords_spec (E : Env) (s : DistSGKey) (p : Pub) (now : Nat) :
    receiveSGKeyRecords E s p now = (s, []) ∨
    (s.m_keyMaker = true ∧ receiveSGKeyRecords E s p now =
      andThen ({ s with m_keyMaker := false, m_kmtp := p.signer }, [.unsubscribe s.m_mrPrefix])
        (publishMembershipReq · now)) ∨
    (s.m_keyMaker = false ∧ receiveSGKeyRecords E s p now = receiveAsMember E s p now) := by
  generalize hr : receiveSGKeyRecords E s p now = r
  unfold receiveSGKeyRecords demote at hr
  split_ifs at hr with h₁ h₂ h₃
  · exact .inl hr.symm
  · exact .inr (.inl ⟨h₂, hr.symm⟩)
  · exact .inl hr.symm
  · exact .inr (.inr ⟨by simpa using h₂, hr.symm⟩)

theorem receiveAsMember_untouched (E : Env) (s : DistSGKey) (p : Pub) (now : Nat) :
    untouched (receiveAsMember E s p now).1 = untouched s := by
  rcases receiveAsMember_spec E s p now with h | h | h | ⟨e, s₁, h₁, h⟩
  · rw [h]; exact publishMembershipReq_untouched _ _
  · rw [h]
  · rw [h]
  have h₂ := (checkDrift_untouched s₁ p.signer).trans (checkEpoch_untouched h₁)
  rcases h with h | h | h <;> rw [h]
  · exact h₂
  · exact h₂
  · exact (adoptKey_untouched E _ _).trans h₂

theorem receiveSGKeyRecords_untouched (E : Env) (s : DistSGKey) (p : Pub) (now : Nat) :
    untouched (receiveSGKeyRecords E s p now).1 = untouched s ∨
      untouched (receiveSGKeyRecords E s p now).1 = { untouched s with m_keyMaker := false } := by
  unfold receiveSGKeyRecords
  split_ifs
  · exact .inl rfl
  · unfold demote; split_ifs
    · exact .inr (publishMembershipReq_untouched _ _)
    · exact .inl rfl
  · exact .inl (receiveAsMember_untouched E s p now)

theorem receiveSGKeyRecords_keyMaker {E : Env} {s : DistSGKey} {p : Pub} {now : Nat}
    (h : (receiveSGKeyRecords E s p now).1.m_keyMaker) : receiveSGKeyRecords E s p now = (s, []) := by
  unfold receiveSGKeyRecords at h ⊢
  split_ifs at h ⊢ with h₁ h₂
  · rfl
  · unfold demote at h ⊢
    split_ifs at h ⊢ with h₃
    · have := congrArg Untouched.m_keyMaker (publishMembershipReq_untouched
        { s with m_keyMaker := false, m_kmtp := p.signer } now)
      simp_all [untouched]
    · rfl
  · have := congrArg Untouched.m_keyMaker (receiveAsMember_untouched E s p now)
    simp_all [untouched]

theorem published_publishMembershipReq (s : DistSGKey) (now : Nat) :
    published (publishMembershipReq s now).2 ⊆ [mrPub s now] := by
  unfold publishMembershipReq; split <;> simp [published, Effect.pub?]

theorem published_initDone (s : DistSGKey) : published (initDone s).2 = [] := by
  unfold initDone; split <;> rfl

theorem published_adoptKey (E : Env) (s : DistSGKey) (c : Bytes) :
    published (adoptKey E s c).2 = [] := by
  rcases adoptKey_spec E s c with h | ⟨_, _, _, _, -, -, -, ⟨-, h⟩ | ⟨_, _, _, _, _, -, -, -, -, h⟩⟩ <;>
    rw [h]
  · rfl
  all_goals simp only [andThen_snd, andThen_fst, published_append, published_initDone]; rfl

theorem published_receiveAsMember (E : Env) (s : DistSGKey) (p : Pub) (now : Nat) :
    published (receiveAsMember E s p now).2 ⊆ [mrPub s now] := by
  rcases receiveAsMember_spec E s p now with h | h | h | ⟨_, _, -, h | h | h⟩ <;> rw [h]
  · exact published_publishMembershipReq _ _
  all_goals first
    | rw [published_adoptKey]; exact List.nil_subset _
    | simp [published, Effect.pub?]

theorem published_receiveSGKeyRecords (E : Env) (s : DistSGKey) (p : Pub) (now : Nat) :
    published (receiveSGKeyRecords E s p now).2 ⊆ [mrPub s now] := by
  unfold receiveSGKeyRecords
  split
  · simp [published]
  split
  · unfold demote; split
    · simp only [andThen_snd, published_append]
      exact List.append_subset.mpr ⟨by simp [published, Effect.pub?],
        published_publishMembershipReq _ now⟩
    · simp [published]
  · exact published_receiveAsMember E s p now

end SgKeyDist.Member
