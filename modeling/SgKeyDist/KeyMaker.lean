import SgKeyDist.Member

namespace SgKeyDist.KeyMaker

open SgKeyDist.ByteOrder SgKeyDist.Tlv SgKeyDist.Identity SgKeyDist.Members
open SgKeyDist.KeyRecord SgKeyDist.State SgKeyDist.Member

/-- Modelled from the spec: `maxPubSize` is declared in `syncps.hpp`, which is not among
the sources. The spec derives `maxKR` from it by the formula below, and the comment of
`addGroupMem` gives the default publication size of 1024 bytes. -/
def maxPubSize : Nat := 1024

/-- Key records per publication. -/
def maxKR : Nat := (maxPubSize - kxpkKeySz - 8 - 96) / egkrSize

theorem maxKR_eq : maxKR = 7 := rfl

/-- The group key pair `crypto_kx_keypair` writes into its two 32-byte buffers. -/
structure KxPair where
  pk : Bytes
  sk : Bytes
  pk_size : pk.length = kxpkKeySz
  sk_size : sk.length = kxskKeySz

/-- What the environment supplies to one run of `makeSGKey`: the fresh key pair, its three
clock readings in microseconds (creation time, member sweep, publication timestamp) and
which certificates the store holds at that moment. The creation-time reading is the signed
`system_clock` count, which may be negative. -/
structure Mint where
  kp : KxPair
  ctNow : Int
  sweepNow : Nat
  pubNow : Nat
  contains : ThumbPrint → Bool

/-- Line 450: the signed count is stored in the `uint64_t` `m_curKeyCT`, modulo 2^64. -/
def Mint.creationTime (mi : Mint) : UInt64 := UInt64.ofNat (mi.ctNow % 2 ^ 64).toNat

/-- Sign and publish a key-record publication named by the range `tpl`..`tph`; with
`conf` the publication carries a delivery callback that calls `initDone`. -/
def publishKeyRange (s : DistSGKey) (tpl tph : ThumbPrint) (ts : Nat) (c : Bytes)
    (conf : Bool) : Effect :=
  let p : Pub := ⟨krName s.m_krPrefix s.m_KMepoch.toNat tpl tph ts, c, s.m_tp⟩
  if conf then .publishConfirmed p else .publish p

/-- The `for` loop of `makeSGKey` at iteration `i` with `k` iterations left, `rem` records
not yet published (the source's `s`) and `it` the position of the next one. -/
def publishLoop (s : DistSGKey) (ts : Nat) (pubPairs : List (ThumbPrint × Bytes)) :
    Nat → Nat → Nat → Nat → List Effect
  | _, 0, _, _ => []
  | i, k + 1, rem, it =>
    let r := if 0 < k then maxKR else rem
    if s.m_mbrList.size = 0 then
      [publishKeyRange s s.m_tp s.m_tp ts (krContent s.m_curKeyCT.toNat s.m_sgPK pubPairs) true]
    else
      let l := i * maxKR
      publishKeyRange s (pubPairs.getD l (ThumbPrint.zero, [])).1
        (pubPairs.getD (l + r - 1) (ThumbPrint.zero, [])).1 ts
        (krContent s.m_curKeyCT.toNat s.m_sgPK ((pubPairs.drop it).take r)) false ::
      publishLoop s ts pubPairs (i + 1) k (rem - r) (it + r)

/-- The number of publications a rekey of `n` members makes. -/
def pubCount (n : Nat) : Nat := if n ≤ maxKR then 1 else (n + maxKR - 1) / maxKR

/-- The expiry sweep: members whose certificate the store lacks or that is no longer valid. -/
def sweep (E : Env) (mi : Mint) (m : MbrList) : MbrList :=
  m.eraseIf (fun kv => if mi.contains kv.1 then decide (E.certs.validUntil kv.1 ≤ mi.sweepNow)
    else true)

/-- The state `makeSGKey` publishes from: the new pair, its creation time, the swept table. -/
def minted (E : Env) (s : DistSGKey) (mi : Mint) : DistSGKey :=
  { s with m_sgPK := mi.kp.pk, m_sgSK := mi.kp.sk, m_curKeyCT := mi.creationTime,
           m_mbrList := sweep E mi s.m_mbrList }

/-- The group secret key sealed for every member, in thumbprint order. -/
def sealedPairs (E : Env) (s : DistSGKey) : List (ThumbPrint × Bytes) :=
  s.m_mbrList.entries.map (fun kv => (kv.1, E.sodium.boxSeal s.m_sgSK kv.2))

/-- Make a new group key pair, switch to it locally, then publish it sealed for every
member, `maxKR` records a publication. An empty table still publishes the public key,
named by the key-maker's own thumbprint and with a delivery callback. -/
def makeSGKey (E : Env) (s : DistSGKey) (mi : Mint) : DistSGKey × List Effect :=
  let s₁ := minted E s mi
  let n := s₁.m_mbrList.size
  let effs := .newKey s₁.m_sgPK s₁.m_sgSK s₁.m_curKeyCT ::
    publishLoop s₁ mi.pubNow (sealedPairs E s₁) 0 (pubCount n) n 0
  if s₁.m_init && n ≠ 0 then andThen (s₁, effs) initDone else (s₁, effs)

/-- The periodic rekey. The timer cannot be cancelled, so a peer that is no longer the
key-maker stops the cycle here. -/
def sgkeyTimeout (E : Env) (s : DistSGKey) (mi : Mint) : DistSGKey × List Effect :=
  if !s.m_keyMaker then (s, [])
  else andThen (makeSGKey E s mi) (fun s => (s, [.oneTime s.m_reKeyInt .sgkeyTimeout]))

/-- A membership request signed by `p.signer`: admit the signer and, once a group key
exists, publish that key sealed for it alone. -/
def addGroupMem (E : Env) (s : DistSGKey) (p : Pub) (now : Nat) : DistSGKey × List Effect :=
  if !s.m_keyMaker then (s, [])
  else if s.m_mbrList.size = 80 * maxKR then (s, [])
  else if !sgMem E s p.signer then (s, [])
  else if s.m_pubdist && isRelay E p.signer then (s, [])
  else match E.sodium.pkToCurve25519 (E.certs.content p.signer) with
    | none => ({ s with m_mbrList := s.m_mbrList.erase p.signer }, [])
    | some x =>
      let s₁ := { s with m_mbrList := s.m_mbrList.insert p.signer x }
      if s₁.m_curKeyCT = 0 then (s₁, [])
      else andThen (s₁, [publishKeyRange s₁ p.signer p.signer now
        (krContent s₁.m_curKeyCT.toNat s₁.m_sgPK [(p.signer, E.sodium.boxSeal s₁.m_sgSK x)])
        false]) initDone

/-- Stop sealing group keys for `tp`; with `reKey`, rekey at once, outside the schedule. -/
def removeGroupMem (E : Env) (s : DistSGKey) (tp : ThumbPrint) (reKey : Bool) (mi : Mint) :
    DistSGKey × List Effect :=
  let s₁ := { s with m_mbrList := s.m_mbrList.erase tp }
  if reKey then makeSGKey E s₁ mi else (s₁, [])

theorem pub_publishLoop (s : DistSGKey) (ts : Nat) (pairs : List (ThumbPrint × Bytes)) :
    ∀ (k i rem it : Nat), ∀ e ∈ publishLoop s ts pairs i k rem it, e.pub?.isSome
  | 0, _, _, _, e, he => by simp [publishLoop] at he
  | k + 1, i, rem, it, e, he => by
    have hr : ∀ tpl tph c conf, (publishKeyRange s tpl tph ts c conf).pub?.isSome := by
      intros; unfold publishKeyRange; split <;> rfl
    unfold publishLoop at he; dsimp only at he
    split_ifs at he
    all_goals first
      | exact (List.mem_singleton.mp he) ▸ hr _ _ _ _
      | exact (List.mem_cons.mp he).elim (· ▸ hr _ _ _ _) (pub_publishLoop s ts pairs k _ _ _ e)

theorem keyCT_publishLoop (s : DistSGKey) (ts : Nat) (pairs : List (ThumbPrint × Bytes)) :
    ∀ (k i rem it : Nat), ∀ e ∈ publishLoop s ts pairs i k rem it, e.keyCT? = none :=
  fun k i rem it e he => by
    have := pub_publishLoop s ts pairs k i rem it e he
    cases e <;> first | rfl | simp [Effect.pub?] at this

/-- `k` pieces of `l`: `k - 1` of `maxKR` records and then the rest, as the loop of
`makeSGKey` cuts the sealed records. -/
def chunks {α : Type} : Nat → List α → List (List α)
  | 0, _ => []
  | k + 1, l => if 0 < k then l.take maxKR :: chunks k (l.drop maxKR) else [l]

/-- The publication `publishKeyRange` makes for one chunk of records, named by the
chunk's first and last thumbprints. -/
def rangePub (s : DistSGKey) (ts : Nat) (recs : List (ThumbPrint × Bytes)) : Pub :=
  ⟨krName s.m_krPrefix s.m_KMepoch.toNat (recs.head?.getD (ThumbPrint.zero, [])).1
    (recs.getLast?.getD (ThumbPrint.zero, [])).1 ts, krContent s.m_curKeyCT.toNat s.m_sgPK recs, s.m_tp⟩

theorem head_chunk {α : Type} (l : List α) (it r : Nat) (d : α) (hr : 0 < r) :
    ((l.drop it).take r).head?.getD d = l.getD it d := by
  rw [List.head?_take, if_neg (by omega), List.head?_drop, List.getD_eq_getElem?_getD]

theorem last_chunk {α : Type} (l : List α) (it r : Nat) (d : α) (hr : 0 < r)
    (h : it + r ≤ l.length) : ((l.drop it).take r).getLast?.getD d = l.getD (it + r - 1) d := by
  have hi : it + (r - 1) < l.length := by omega
  rw [List.getLast?_take, if_neg (by omega), List.getElem?_drop, List.getElem?_eq_getElem hi,
    List.getD_eq_getElem?_getD, show it + r - 1 = it + (r - 1) by omega,
    List.getElem?_eq_getElem hi]
  rfl

theorem publishKeyRange_chunk (s : DistSGKey) (ts : Nat) (pairs : List (ThumbPrint × Bytes))
    (it r : Nat) (hr : 0 < r) (h : it + r ≤ pairs.length) :
    publishKeyRange s (pairs.getD it (ThumbPrint.zero, [])).1
      (pairs.getD (it + r - 1) (ThumbPrint.zero, [])).1 ts
      (krContent s.m_curKeyCT.toNat s.m_sgPK ((pairs.drop it).take r)) false =
    .publish (rangePub s ts ((pairs.drop it).take r)) := by
  rw [rangePub, head_chunk pairs it r _ hr, last_chunk pairs it r _ hr h]
  rfl

theorem publishLoop_eq (s : DistSGKey) (ts : Nat) (pairs : List (ThumbPrint × Bytes))
    (hs : s.m_mbrList.size ≠ 0) (k : Nat) : ∀ (i rem it : Nat), it = i * maxKR →
      it + rem = pairs.length → (k - 1) * maxKR < rem →
      publishLoop s ts pairs i k rem it = (chunks k (pairs.drop it)).map (.publish ∘ rangePub s ts) := by
  induction k with
  | zero => intros; rfl
  | succ k ih =>
    intro i rem it hit hlen hrem
    have h7 := maxKR_eq
    simp only [publishLoop, chunks, hs, if_false, ← hit]
    split_ifs with hk
    · rw [List.map_cons, List.drop_drop,
        ← ih (i + 1) (rem - maxKR) (it + maxKR) (by rw [hit, Nat.succ_mul])
          (by rw [h7] at hrem ⊢; omega) (by rw [h7] at hrem ⊢; omega),
        publishKeyRange_chunk s ts pairs it maxKR (by omega) (by rw [h7] at hrem ⊢; omega)]
      rfl
    · have hk0 : k = 0 := by omega
      subst hk0
      rw [publishKeyRange_chunk s ts pairs it rem (by omega) (by omega),
        List.take_of_length_le (by rw [List.length_drop]; omega)]
      rfl

/-- The `r` of iteration `i` of the loop of `makeSGKey` over `n` records in `p` publications,
in closed form: `maxKR` before the last iteration, and the records left, `n - i * maxKR`, at
the last. -/
def loopR (p n i : Nat) : Nat := if i + 1 < p then maxKR else n - i * maxKR

/-- Iteration `i` of the loop of `makeSGKey` over a non-empty table, as the source writes its
body: the `r` records from `l = i * maxKR`, named by `pubPairs[l]` and `pubPairs[l + r - 1]`. -/
def loopPub (s : DistSGKey) (ts : Nat) (pairs : List (ThumbPrint × Bytes)) (p n i : Nat) : Effect :=
  let r := loopR p n i
  let l := i * maxKR
  publishKeyRange s (pairs.getD l (ThumbPrint.zero, [])).1 (pairs.getD (l + r - 1) (ThumbPrint.zero, [])).1
    ts (krContent s.m_curKeyCT.toNat s.m_sgPK ((pairs.drop l).take r)) false

theorem publishLoop_range' (s : DistSGKey) (ts : Nat) (pairs : List (ThumbPrint × Bytes))
    (hs : s.m_mbrList.size ≠ 0) (p n : Nat) : ∀ k i, i + k = p →
    publishLoop s ts pairs i k (n - i * maxKR) (i * maxKR) = (List.range' i k).map (loopPub s ts pairs p n)
  | 0, _, _ => rfl
  | 1, i, h => by
    simp only [publishLoop, hs, if_false, Nat.lt_irrefl, List.range'_succ, List.range'_zero,
      List.map_cons, List.map_nil, loopPub, loopR, show ¬ i + 1 < p by omega]
  | k + 2, i, h => by
    have hrec := publishLoop_range' s ts pairs hs p n (k + 1) (i + 1) (by omega)
    rw [Nat.succ_mul, ← Nat.sub_sub] at hrec
    rw [publishLoop]
    simp only [hs, if_false, Nat.succ_pos, if_true, List.range'_succ, List.map_cons, hrec]
    simp only [loopPub, loopR, show i + 1 < p by omega, if_true]

theorem publishLoop_range (s : DistSGKey) (ts : Nat) (pairs : List (ThumbPrint × Bytes))
    (hs : s.m_mbrList.size ≠ 0) (p n : Nat) :
    publishLoop s ts pairs 0 p n 0 = (List.range p).map (loopPub s ts pairs p n) := by
  simpa [List.range_eq_range'] using publishLoop_range' s ts pairs hs p n p 0 (Nat.zero_add p)

section Chunks

variable {α : Type}

theorem length_chunks : ∀ (k : Nat) (l : List α), (chunks k l).length = k
  | 0, _ => rfl
  | k + 1, l => by
    unfold chunks; split_ifs with hk
    · rw [List.length_cons, length_chunks k]
    · simp; omega

theorem flatten_chunks : ∀ (k : Nat) (l : List α), 0 < k → (chunks k l).flatten = l
  | 0, _, h => absurd h (Nat.lt_irrefl 0)
  | k + 1, l, _ => by
    unfold chunks; split_ifs with hk
    · rw [List.flatten_cons, flatten_chunks k _ hk, List.take_append_drop]
    · simp

theorem sublist_of_mem_chunks : ∀ {k : Nat} {l c : List α}, c ∈ chunks k l → c.Sublist l
  | 0, _, _, h => by simp [chunks] at h
  | k + 1, l, c, h => by
    unfold chunks at h; split_ifs at h
    · rcases List.mem_cons.mp h with rfl | h
      · exact List.take_sublist _ _
      · exact (sublist_of_mem_chunks h).trans (List.drop_sublist _ _)
    · rw [List.mem_singleton.mp h]

theorem length_le_of_mem_chunks : ∀ {k : Nat} {l c : List α}, l.length ≤ k * maxKR →
    c ∈ chunks k l → c.length ≤ maxKR
  | 0, _, _, _, h => by simp [chunks] at h
  | k + 1, l, c, hl, h => by
    unfold chunks at h; split_ifs at h with hk
    · rcases List.mem_cons.mp h with rfl | h
      · exact (List.length_take_le _ _)
      · exact length_le_of_mem_chunks (by rw [List.length_drop, Nat.succ_mul] at *; omega) h
    · rw [List.mem_singleton.mp h]; rw [show k = 0 by omega] at hl; simpa using hl

theorem ne_nil_of_mem_chunks : ∀ {k : Nat} {l c : List α}, (k - 1) * maxKR < l.length →
    c ∈ chunks k l → c ≠ []
  | 0, _, _, _, h => by simp [chunks] at h
  | k + 1, l, c, hl, h => by
    have h7 := maxKR_eq
    unfold chunks at h; split_ifs at h with hk
    · rcases List.mem_cons.mp h with rfl | h
      · rw [← List.length_pos, List.length_take]; rw [h7] at hl ⊢
        exact lt_min (by decide) (by omega)
      · exact ne_nil_of_mem_chunks (by rw [List.length_drop]; rw [h7] at hl ⊢; omega) h
    · rw [List.mem_singleton.mp h]; rw [show k = 0 by omega] at hl
      exact List.ne_nil_of_length_pos (by simpa using hl)

end Chunks

theorem pubCount_spec {n : Nat} (hn : 0 < n) :
    0 < pubCount n ∧ (pubCount n - 1) * maxKR < n ∧ n ≤ pubCount n * maxKR := by
  unfold pubCount; rw [maxKR_eq]; split_ifs <;> omega

theorem loopR_bounds {n i : Nat} (hn : 0 < n) (hi : i < pubCount n) :
    0 < loopR (pubCount n) n i ∧ i * maxKR + loopR (pubCount n) n i ≤ n := by
  obtain ⟨-, hlo, -⟩ := pubCount_spec hn
  unfold loopR; rw [maxKR_eq] at *; split_ifs <;> omega

/-- The key-record publication of a rekey with no members: the public key alone, named
by the key-maker's own thumbprint. -/
def anchorPub (s : DistSGKey) (ts : Nat) : Pub :=
  ⟨krName s.m_krPrefix s.m_KMepoch.toNat s.m_tp s.m_tp ts, krContent s.m_curKeyCT.toNat s.m_sgPK [],
    s.m_tp⟩

theorem makeSGKey_state (E : Env) (s : DistSGKey) (mi : Mint) :
    (makeSGKey E s mi).1 =
      { minted E s mi with m_init := s.m_init && (minted E s mi).m_mbrList.size = 0 } := by
  unfold makeSGKey; dsimp only
  split_ifs with h
  · simp only [Bool.and_eq_true, decide_eq_true_eq] at h
    have hi : s.m_init = true := h.1
    have hn : (sweep E mi s.m_mbrList).size ≠ 0 := h.2
    simp [andThen, initDone, minted, hi, hn]
  · cases hi : s.m_init <;> simp_all [minted]

theorem makeSGKey_mbrList (E : Env) (s : DistSGKey) (mi : Mint) :
    (makeSGKey E s mi).1.m_mbrList = sweep E mi s.m_mbrList := by
  rw [makeSGKey_state]; rfl

theorem makeSGKey_sgSK (E : Env) (s : DistSGKey) (mi : Mint) :
    (makeSGKey E s mi).1.m_sgSK = mi.kp.sk := by
  rw [makeSGKey_state]; rfl

theorem mem_of_mem_sweep {E : Env} {mi : Mint} {m : MbrList} {e : ThumbPrint × Bytes}
    (h : e ∈ (sweep E mi m).entries) : e ∈ m.entries := (MbrList.mem_eraseIf.mp h).1

theorem makeSGKey_published (E : Env) (s : DistSGKey) (mi : Mint) :
    published (makeSGKey E s mi).2 =
      if (minted E s mi).m_mbrList.size = 0 then [anchorPub (minted E s mi) mi.pubNow]
      else (chunks (pubCount (minted E s mi).m_mbrList.size)
        (sealedPairs E (minted E s mi))).map (rangePub (minted E s mi) mi.pubNow) := by
  have hpairs : (sealedPairs E (minted E s mi)).length = (minted E s mi).m_mbrList.size := by
    simp [sealedPairs, MbrList.size]
  have hloop : published (publishLoop (minted E s mi) mi.pubNow (sealedPairs E (minted E s mi)) 0
      (pubCount (minted E s mi).m_mbrList.size) (minted E s mi).m_mbrList.size 0) =
      if (minted E s mi).m_mbrList.size = 0 then [anchorPub (minted E s mi) mi.pubNow]
      else (chunks (pubCount (minted E s mi).m_mbrList.size)
        (sealedPairs E (minted E s mi))).map (rangePub (minted E s mi) mi.pubNow) := by
    split_ifs with h0
    · have he : sealedPairs E (minted E s mi) = [] := List.eq_nil_of_length_eq_zero (hpairs.trans h0)
      rw [h0, he]
      simp [pubCount, publishLoop, h0, publishKeyRange, anchorPub, published, Effect.pub?]
    · obtain ⟨_, hlo, _⟩ := pubCount_spec (Nat.pos_of_ne_zero h0)
      rw [publishLoop_eq _ _ _ h0 _ 0 _ 0 (by simp) (by simp [hpairs]) hlo, List.drop_zero]
      simp only [published, List.filterMap_map]
      exact congrFun (List.filterMap_eq_map _) _
  rw [← hloop]
  unfold makeSGKey; dsimp only
  split_ifs <;> simp only [andThen_snd, published_append, published_initDone, List.append_nil]
    <;> rfl

theorem flatMap_egkrBytes_lt {recs : List (ThumbPrint × Bytes)} (hlen : recs.length ≤ maxKR)
    (hl : ∀ r ∈ recs, r.2.length = encSGKeySz) : (recs.flatMap egkrBytes).length < 2 ^ 64 := by
  rw [flatMap_egkrBytes_length recs hl, show egkrSize = 112 from rfl]
  rw [maxKR_eq] at hlen; omega

/-- A key-record publication of the key-maker `s`: named in its epoch by some range,
signed by it, carrying its creation time, its group public key, and at most `maxKR` records
that seal its group secret key to members of its table. -/
def SealedFromTable (E : Env) (s : DistSGKey) (p : Pub) : Prop :=
  ∃ lo hi ts recs, p = ⟨krName s.m_krPrefix s.m_KMepoch.toNat lo hi ts,
      krContent s.m_curKeyCT.toNat s.m_sgPK recs, s.m_tp⟩ ∧ recs.length ≤ maxKR ∧
    ∀ r ∈ recs, ∃ x, (r.1, x) ∈ s.m_mbrList.entries ∧ r.2 = E.sodium.boxSeal s.m_sgSK x

theorem sealedFromTable_init {E : Env} {s : DistSGKey} {p : Pub} (b : Bool) :
    SealedFromTable E { s with m_init := b } p ↔ SealedFromTable E s p := Iff.rfl

theorem mem_sealedPairs {E : Env} {s : DistSGKey} {r : ThumbPrint × Bytes}
    (h : r ∈ sealedPairs E s) : ∃ x, (r.1, x) ∈ s.m_mbrList.entries ∧ r.2 = E.sodium.boxSeal s.m_sgSK x := by
  obtain ⟨kv, hkv, rfl⟩ := List.mem_map.mp h
  exact ⟨kv.2, hkv, rfl⟩

theorem makeSGKey_sealed (E : Env) (s : DistSGKey) (mi : Mint) {p : Pub}
    (hp : p ∈ published (makeSGKey E s mi).2) : SealedFromTable E (makeSGKey E s mi).1 p := by
  rw [makeSGKey_state, sealedFromTable_init]
  rw [makeSGKey_published] at hp
  split_ifs at hp with hn
  · rw [List.mem_singleton.mp hp]
    exact ⟨_, _, _, [], rfl, Nat.zero_le _, by simp⟩
  · obtain ⟨c, hc, rfl⟩ := List.mem_map.mp hp
    have hfit : (sealedPairs E (minted E s mi)).length ≤ pubCount (minted E s mi).m_mbrList.size * maxKR :=
      (List.length_map _ _).trans_le (pubCount_spec (Nat.pos_of_ne_zero hn)).2.2
    exact ⟨_, _, _, c, rfl, length_le_of_mem_chunks hfit hc,
      fun r hr => mem_sealedPairs ((sublist_of_mem_chunks hc).subset hr)⟩

/-- What `addGroupMem` checks before it admits `tp` with the converted key `x`. -/
def Admitted (E : Env) (s : DistSGKey) (tp : ThumbPrint) (x : Bytes) : Prop :=
  sgMem E s tp ∧ ¬(s.m_pubdist ∧ isRelay E tp) ∧
    E.sodium.pkToCurve25519 (E.certs.content tp) = some x

/-- The key record `addGroupMem` sends a newly admitted member. -/
def admitPub (E : Env) (s : DistSGKey) (tp : ThumbPrint) (x : Bytes) (now : Nat) : Pub :=
  ⟨krName s.m_krPrefix s.m_KMepoch.toNat tp tp now,
    krContent s.m_curKeyCT.toNat s.m_sgPK [(tp, E.sodium.boxSeal s.m_sgSK x)], s.m_tp⟩

theorem addGroupMem_cases (E : Env) (s : DistSGKey) (q : Pub) (now : Nat) :
    addGroupMem E s q now = (s, []) ∨
    addGroupMem E s q now = ({ s with m_mbrList := s.m_mbrList.erase q.signer }, []) ∨
    ∃ x, Admitted E s q.signer x ∧ s.m_keyMaker ∧ s.m_mbrList.size ≠ 80 * maxKR ∧
      (s.m_curKeyCT = 0 ∧
        addGroupMem E s q now = ({ s with m_mbrList := s.m_mbrList.insert q.signer x }, []) ∨
       s.m_curKeyCT ≠ 0 ∧ addGroupMem E s q now =
         andThen ({ s with m_mbrList := s.m_mbrList.insert q.signer x },
           [.publish (admitPub E s q.signer x now)]) initDone) := by
  generalize hr : addGroupMem E s q now = r
  unfold addGroupMem at hr
  split_ifs at hr with h₁ h₂ h₃ h₄
  · exact .inl hr.symm
  · exact .inl hr.symm
  · exact .inl hr.symm
  · exact .inl hr.symm
  split at hr
  · exact .inr (.inl hr.symm)
  rename_i x hx
  refine .inr (.inr ⟨x, ⟨by simpa using h₃, by simpa using h₄, hx⟩, by simpa using h₁, h₂, ?_⟩)
  dsimp only at hr
  split_ifs at hr with h₅
  · exact .inl ⟨h₅, hr.symm⟩
  · exact .inr ⟨h₅, hr.symm⟩

theorem addGroupMem_sealed (E : Env) (s : DistSGKey) (q : Pub) (now : Nat) {p : Pub}
    (hp : p ∈ published (addGroupMem E s q now).2) : SealedFromTable E (addGroupMem E s q now).1 p := by
  rcases addGroupMem_cases E s q now with h | h | ⟨x, -, -, -, ⟨-, h⟩ | ⟨-, h⟩⟩
  · rw [h] at hp; simp [published] at hp
  · rw [h] at hp; simp [published] at hp
  · rw [h] at hp; simp [published] at hp
  · rw [h, andThen_snd, published_append, published_initDone, List.append_nil] at hp
    simp only [published, List.filterMap_cons, List.filterMap_nil, Effect.pub?,
      List.mem_singleton] at hp
    rw [h, andThen_fst, initDone_fst, sealedFromTable_init, hp]
    exact ⟨_, _, _, _, rfl, by simp [maxKR_eq], by simpa using ⟨x, MbrList.mem_insert_self _ _ _, rfl⟩⟩

theorem mem_removeGroupMem_mbrList {E : Env} {s : DistSGKey} {tp : ThumbPrint} {reKey : Bool}
    {mi : Mint} {e : ThumbPrint × Bytes} (he : e ∈ (removeGroupMem E s tp reKey mi).1.m_mbrList.entries) :
    e ∈ s.m_mbrList.entries ∧ e.1 ≠ tp := by
  unfold removeGroupMem at he
  cases reKey
  · exact MbrList.mem_erase.mp he
  · exact MbrList.mem_erase.mp (mem_of_mem_sweep ((makeSGKey_mbrList E _ mi) ▸ he))

end SgKeyDist.KeyMaker
