import SgKeyDist.Peer

namespace SgKeyDist.Admission

open SgKeyDist.ByteOrder SgKeyDist.Tlv SgKeyDist.Identity SgKeyDist.Members SgKeyDist.KeyRecord
open SgKeyDist.State SgKeyDist.Member SgKeyDist.KeyMaker SgKeyDist.Peer

variable {E : Env} {s : DistSGKey} {tp : ThumbPrint} {p : Pub}

/-- A key record of `s`'s current key each of whose records seals the group secret key to
the converted key of a member that passed the checks of `addGroupMem`. -/
def SealedToAdmitted (E : Env) (s : DistSGKey) (p : Pub) : Prop :=
  ∃ lo hi ts recs, p = ⟨krName s.m_krPrefix s.m_KMepoch.toNat lo hi ts,
      krContent s.m_curKeyCT.toNat s.m_sgPK recs, s.m_tp⟩ ∧
    ∀ r ∈ recs, ∃ x, (r.1, x) ∈ s.m_mbrList.entries ∧ Admitted E s r.1 x ∧
      r.2 = E.sodium.boxSeal s.m_sgSK x

/-- The group secret goes only to admitted subscribers: whatever a reachable peer does
next, each of its publications is a membership request or a key record whose every record
seals the current group secret key to a member that passed `addGroupMem`'s checks. -/
theorem secret_only_to_admitted (hr : Reachable E s) (ev : Event)
    (hp : p ∈ published (step E s ev).2) :
    (∃ now, p = mrPub s now) ∨ SealedToAdmitted E (step E s ev).1 p := by
  rcases published_step hr.wf ev hp with h | ⟨⟨lo, hi, ts, recs, rfl, -, hrecs⟩, -⟩
  · exact .inl h
  · refine .inr ⟨lo, hi, ts, recs, rfl, fun r hr' => ?_⟩
    obtain ⟨x, hx, hc⟩ := hrecs r hr'
    exact ⟨x, hx, (hr.step ev).wf.admitted _ _ hx, hc⟩

theorem secret_only_to_admitted_sample :
    Reachable sampleEnv sampleKeyMaker ∧
    admitPub sampleEnv sampleKeyMaker (sampleTp 2) (sampleTp 2).bytes 7 ∈
      published (step sampleEnv sampleKeyMaker (.addGroupMem (mrPub (samplePeer 2) 6) 7)).2 ∧
    ((∃ now, admitPub sampleEnv sampleKeyMaker (sampleTp 2) (sampleTp 2).bytes 7 =
        mrPub sampleKeyMaker now) ∨
      SealedToAdmitted sampleEnv
        (step sampleEnv sampleKeyMaker (.addGroupMem (mrPub (samplePeer 2) 6) 7)).1
        (admitPub sampleEnv sampleKeyMaker (sampleTp 2) (sampleTp 2).bytes 7)) := by
  have hr : Reachable sampleEnv sampleKeyMaker := (Reachable.construct _ _ _ _ _ _).step _
  have hp : admitPub sampleEnv sampleKeyMaker (sampleTp 2) (sampleTp 2).bytes 7 ∈
      published (step sampleEnv sampleKeyMaker (.addGroupMem (mrPub (samplePeer 2) 6) 7)).2 := by
    rw [show published (step sampleEnv sampleKeyMaker (.addGroupMem (mrPub (samplePeer 2) 6) 7)).2 =
      [admitPub sampleEnv sampleKeyMaker (sampleTp 2) (sampleTp 2).bytes 7] from rfl]
    exact List.mem_singleton_self _
  exact ⟨hr, hp, secret_only_to_admitted hr _ hp⟩

/-- `p` addresses no record to `tp`: a membership request has no content, and a key
record's content encodes whole records (a thumbprint and an 80-byte sealed key), none of
them `tp`'s. -/
def Excludes (tp : ThumbPrint) (p : Pub) : Prop :=
  p.content = [] ∨ ∃ ct pk recs, p.content = krContent ct pk recs ∧
    ∀ r ∈ recs, r.1 ≠ tp ∧ r.2.length = encSGKeySz

theorem excludes_of_published (h : Wf E s) (ev : Event)
    (hn : ∀ x, (tp, x) ∉ (step E s ev).1.m_mbrList.entries)
    (hp : p ∈ published (step E s ev).2) : Excludes tp p := by
  rcases published_step h ev hp with ⟨now, rfl⟩ | ⟨⟨lo, hi, ts, recs, rfl, -, hrecs⟩, hsk⟩
  · exact .inl rfl
  · refine .inr ⟨_, _, recs, rfl, fun r hr => ?_⟩
    obtain ⟨x, hx, hc⟩ := hrecs r hr
    refine ⟨fun he => hn x (he ▸ hx), ?_⟩
    rw [hc, E.sodium.boxSeal_length, hsk, encSGKeySz, Nat.add_comm]

theorem not_mem_step (h : Wf E s) (ev : Event) (hn : ∀ x, (tp, x) ∉ s.m_mbrList.entries)
    (hev : ∀ q now, ev = .addGroupMem q now → q.signer ≠ tp) :
    ∀ x, (tp, x) ∉ (step E s ev).1.m_mbrList.entries := fun x hx =>
  (mem_step_mbrList h ev hx).elim (hn x) fun ⟨q, now, hq, he, _⟩ => hev q now hq he.symm

theorem excludes_run (h : Wf E s) (hn : ∀ x, (tp, x) ∉ s.m_mbrList.entries) (evs : List Event)
    (hev : ∀ q now, Event.addGroupMem q now ∈ evs → q.signer ≠ tp) :
    ∀ p ∈ published (run E s evs).2, Excludes tp p := by
  induction evs generalizing s with
  | nil => simp [run, published]
  | cons ev evs ih =>
    have hn₁ := not_mem_step h ev hn fun q now he => hev q now (he ▸ List.mem_cons_self _ _)
    intro p hp
    simp only [run, andThen_snd, published_append, List.mem_append] at hp
    exact hp.elim (excludes_of_published h ev hn₁)
      (ih (h.step ev) hn₁ (fun q now hq => hev q now (List.mem_cons_of_mem _ hq)) p)

/-- A removed member stays removed until it asks again: after `removeGroupMem tp`, no
publication addresses a record to `tp` as long as no membership request signed by `tp`
is handled. -/
theorem removed_until_requested (hr : Reachable E s) (tp : ThumbPrint) (reKey : Bool) (mi : Mint)
    (evs : List Event) (hev : ∀ q now, Event.addGroupMem q now ∈ evs → q.signer ≠ tp) :
    ∀ p ∈ published (run E s (.removeGroupMem tp reKey mi :: evs)).2, Excludes tp p := by
  have hn : ∀ x, (tp, x) ∉ (step E s (.removeGroupMem tp reKey mi)).1.m_mbrList.entries :=
    fun x hx => (mem_removeGroupMem_mbrList hx).2 rfl
  intro p hp
  simp only [run, andThen_snd, published_append, List.mem_append] at hp
  exact hp.elim (excludes_of_published hr.wf _ hn) (excludes_run (hr.wf.step _) hn evs hev p)

theorem not_excludes_of_recordsOf (hlen : p.content.length < 2 ^ 64) {rs : List (Bytes × Bytes)}
    (hrs : recordsOf p.content = some rs) {c : Bytes} (hc : (tp.bytes, c) ∈ rs) :
    ¬ Excludes tp p := by
  rintro (h | ⟨ct, pk, recs, h, hr⟩)
  · rw [h] at hrs; cases hrs
  · have hl := congrArg List.length h
    simp only [krContent, tlv, List.length_append] at hl
    rw [h, recordsOf_krContent ct (by omega) (by omega) fun r hr' => (hr r hr').2] at hrs
    cases hrs
    obtain ⟨r, hr', he⟩ := List.mem_map.mp hc
    exact (hr r hr').1 (ThumbPrint.ext (congrArg Prod.fst he))

def sampleMember : DistSGKey :=
  (step sampleEnv sampleKeyMaker (.addGroupMem (mrPub (samplePeer 2) 6) 7)).1

def sampleRemoved : DistSGKey :=
  (step sampleEnv sampleMember (.removeGroupMem (sampleTp 2) true (sampleMint 8))).1

theorem readmitted_member_addressed :
    Reachable sampleEnv sampleMember ∧
    ¬ ∀ p ∈ published (run sampleEnv sampleMember
      [.removeGroupMem (sampleTp 2) true (sampleMint 8), .addGroupMem (mrPub (samplePeer 2) 10) 11]).2,
      Excludes (sampleTp 2) p := by
  refine ⟨((Reachable.construct _ _ _ _ _ _).step _).step _, fun h => ?_⟩
  have hp : admitPub sampleEnv sampleRemoved (sampleTp 2) (sampleTp 2).bytes 11 ∈
      published (run sampleEnv sampleMember
        [.removeGroupMem (sampleTp 2) true (sampleMint 8), .addGroupMem (mrPub (samplePeer 2) 10) 11]).2 := by
    rw [show published (run sampleEnv sampleMember
        [.removeGroupMem (sampleTp 2) true (sampleMint 8), .addGroupMem (mrPub (samplePeer 2) 10) 11]).2 =
      [anchorPub sampleRemoved 8, admitPub sampleEnv sampleRemoved (sampleTp 2) (sampleTp 2).bytes 11]
      from rfl]
    simp
  have hsk : sampleRemoved.m_sgSK.length = kxskKeySz := rfl
  have hrs := recordsOf_krContent sampleRemoved.m_curKeyCT.toNat
    (show sampleRemoved.m_sgPK.length < 2 ^ 64 by rw [show sampleRemoved.m_sgPK.length = 32 from rfl]; decide)
    (show ([(sampleTp 2, sampleEnv.sodium.boxSeal sampleRemoved.m_sgSK (sampleTp 2).bytes)].flatMap
      egkrBytes).length < 2 ^ 64 by
        rw [List.flatMap_singleton, egkrBytes_length _ (by rw [sampleEnv.sodium.boxSeal_length, hsk]; rfl)]
        decide)
    (by simp only [List.mem_singleton, forall_eq, sampleEnv.sodium.boxSeal_length, hsk]; rfl)
  have hlen : (admitPub sampleEnv sampleRemoved (sampleTp 2) (sampleTp 2).bytes 11).content.length
      < 2 ^ 64 := by
    refine lt_of_le_of_lt (krContent_length_le _ _ _) ?_
    rw [show sampleRemoved.m_sgPK.length = 32 from rfl, List.flatMap_singleton,
      egkrBytes_length _ (by rw [sampleEnv.sodium.boxSeal_length, hsk]; rfl)]
    decide
  exact not_excludes_of_recordsOf hlen hrs (List.mem_singleton_self _) (h _ hp)

theorem removed_until_requested_sample :
    Reachable sampleEnv sampleMember ∧
    (sampleTp 2, (sampleTp 2).bytes) ∈ sampleMember.m_mbrList.entries ∧
    (∀ q now, Event.addGroupMem q now ∈
        [Event.sgkeyTimeout (sampleMint 9), .addGroupMem (mrPub (samplePeer 3) 10) 11] →
      q.signer ≠ sampleTp 2) ∧
    ∀ p ∈ published (run sampleEnv sampleMember
      [.removeGroupMem (sampleTp 2) true (sampleMint 8), .sgkeyTimeout (sampleMint 9),
        .addGroupMem (mrPub (samplePeer 3) 10) 11]).2,
      Excludes (sampleTp 2) p := by
  have hr : Reachable sampleEnv sampleMember := ((Reachable.construct _ _ _ _ _ _).step _).step _
  have hev : ∀ q now, Event.addGroupMem q now ∈
      [Event.sgkeyTimeout (sampleMint 9), .addGroupMem (mrPub (samplePeer 3) 10) 11] →
      q.signer ≠ sampleTp 2 := by
    simp only [List.mem_cons, List.mem_singleton, List.not_mem_nil, or_false]
    rintro q now (h | h) <;> cases h
    decide
  exact ⟨hr, by decide, hev, removed_until_requested hr _ true _ _ hev⟩

end SgKeyDist.Admission
