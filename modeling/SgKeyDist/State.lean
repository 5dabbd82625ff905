import SgKeyDist.KeyRecord
import SgKeyDist.Members

namespace SgKeyDist.State

open SgKeyDist.ByteOrder SgKeyDist.Tlv SgKeyDist.Identity SgKeyDist.Members SgKeyDist.KeyRecord

/-- The libsodium calls of dist_sgkey. A conversion that returns non-zero is `none`;
`crypto_box_seal` writes `crypto_box_SEALBYTES` more bytes than it seals. -/
structure Sodium where
  pkToCurve25519 : Bytes → Option Bytes
  skToCurve25519 : Bytes → Option Bytes
  boxSeal : Bytes → Bytes → Bytes
  boxSealOpen : Bytes → Bytes → Bytes → Option Bytes
  boxSeal_length : ∀ m pk, (boxSeal m pk).length = m.length + crypto_box_SEALBYTES

/-- What dist_sgkey reads about the certificate of a thumbprint: its content (the Ed25519
public key), `name()[1]`, `validUntil()` in microseconds, and the argument of a
capability on its signing chain (`Cap::getval`). A thumbprint is the hash of its
certificate, so these are functions of it; which certificates the store holds is read
by the member sweep alone, and `makeSGKey` receives it. -/
structure CertStore where
  content : ThumbPrint → Bytes
  role : ThumbPrint → Bytes
  validUntil : ThumbPrint → Nat
  capArg : String → ThumbPrint → Bytes

/-- The collaborators that stay the same over a run. -/
structure Env where
  sodium : Sodium
  certs : CertStore

def asBytes (s : String) : Bytes := s.toList.map (fun c => c.toNat.toUInt8)

/-- The fields of `DistSGKey` that its methods read or write. The signature managers,
the sync object, the callbacks and the timer handle are collaborators: what the methods
do to them is an `Effect`. -/
structure DistSGKey where
  m_prefix : Name
  m_krPrefix : Name
  m_mrPrefix : Name
  m_keyColl : Bytes
  m_tp : ThumbPrint
  m_kmtp : ThumbPrint
  m_pDecKey : Bytes
  m_sDecKey : Bytes
  m_sgSK : Bytes
  m_sgPK : Bytes
  m_curKeyCT : UInt64
  m_mbrList : MbrList
  m_reKeyInt : Nat
  m_keyRand : Nat
  m_keyLifetime : Nat
  m_KMepoch : UInt32
  m_keyMaker : Bool
  m_subr : Bool
  m_init : Bool
  m_pubdist : Bool
  m_mrPending : Bool

/-- The callbacks of the one-shot timers dist_sgkey arms with `m_sync.oneTime`. -/
inductive Timer
  | publishMembershipReq
  | sgkeyTimeout
  deriving DecidableEq

/-- The callbacks dist_sgkey subscribes with. -/
inductive Handler
  | receiveSGKeyRecords
  | addGroupMem
  deriving DecidableEq

/-- One action of a handler on its collaborators. `publishConfirmed` is a publication
whose delivery callback calls `initDone`; `raise` is an exception leaving the handler. -/
inductive Effect
  | publish (p : Pub)
  | publishConfirmed (p : Pub)
  | newKey (pk sk : Bytes) (ct : UInt64)
  | connected
  | subscribe (pfx : Name) (h : Handler)
  | unsubscribe (pfx : Name)
  | cancelRefresh
  | scheduleRefresh (delay : Nat)
  | oneTime (delay : Nat) (cb : Timer)
  | joinElection (pfx : Name) (delay : Nat)
  | raise
  deriving DecidableEq

def Effect.pub? : Effect → Option Pub
  | .publish p | .publishConfirmed p => some p
  | _ => none

/-- The creation time a `newKey` effect hands to the application. -/
def Effect.keyCT? : Effect → Option UInt64
  | .newKey _ _ ct => some ct
  | _ => none

/-- Every publication a list of effects sends. -/
def published (es : List Effect) : List Pub := es.filterMap Effect.pub?

@[simp] theorem published_append (es fs : List Effect) :
    published (es ++ fs) = published es ++ published fs := List.filterMap_append _ _ _

/-- The `kmpri` lambda of `setup`. The argument of the KM capability (KMP for the pubs
distributor) is a single digit, the election priority; any other argument gives 0.
The source tests `kmv.size() != 3` on the argument's block: two header bytes and the digit. -/
def kmpriOf (kmv : Bytes) : Int :=
  match kmv with
  | [c] => if c.toNat < '0'.toNat ∨ c.toNat > '9'.toNat then 0 else c.toNat - '0'.toNat
  | _ => 0

/-- `m_kmpri(tp)`. -/
def kmpri (E : Env) (s : DistSGKey) (tp : ThumbPrint) : Int :=
  kmpriOf (E.certs.capArg (if s.m_pubdist then "KMP" else "KM") tp)

/-- `m_sgMem(tp)`: the SG capability's argument names this distributor's collection. -/
def sgMem (E : Env) (s : DistSGKey) (tp : ThumbPrint) : Bool :=
  E.certs.capArg "SG" tp == s.m_keyColl

/-- The relay test of `setup` and `addGroupMem` on `name()[1]`. -/
def isRelay (E : Env) (tp : ThumbPrint) : Bool := E.certs.role tp == asBytes "relay"

/-- The constructor, with `tp = m_certs.Chains()[0]`, its signing secret key `sk` and
`keyColl` the last component of `dPre`, including the call of `updateSigningKey` it
makes while `m_init` holds. A failed key conversion only builds a `runtime_error` that is
never thrown, so the resized, zeroed buffer stays. -/
def construct (E : Env) (pPre : Name) (keyColl : Bytes) (tp : ThumbPrint) (sk : Bytes)
    (reKeyInterval reKeyRandomize : Nat) : DistSGKey :=
  let s : DistSGKey :=
    { m_prefix := pPre, m_krPrefix := pPre ++ [asBytes "kr"], m_mrPrefix := pPre ++ [asBytes "mr"],
      m_keyColl := keyColl, m_tp := tp, m_kmtp := ThumbPrint.zero, m_pDecKey := [],
      m_sDecKey := [], m_sgSK := [], m_sgPK := [], m_curKeyCT := 0, m_mbrList := MbrList.empty,
      m_reKeyInt := reKeyInterval, m_keyRand := reKeyRandomize,
      m_keyLifetime := reKeyInterval + reKeyRandomize, m_KMepoch := 0, m_keyMaker := false,
      m_subr := false, m_init := true, m_pubdist := keyColl == asBytes "pubs",
      m_mrPending := false }
  if sgMem E s tp then
    { s with m_subr := true,
             m_sDecKey := (E.sodium.skToCurve25519 (sk.take 32)).getD (List.replicate 32 0),
             m_pDecKey := (E.sodium.pkToCurve25519 (E.certs.content tp)).getD (List.replicate 32 0) }
  else s

end SgKeyDist.State
