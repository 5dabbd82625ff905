import SgKeyDist.ByteOrder
import SgKeyDist.Tlv
import SgKeyDist.Identity
import SgKeyDist.Members
import SgKeyDist.KeyRecord
import SgKeyDist.State
import SgKeyDist.Member
import SgKeyDist.KeyMaker
import SgKeyDist.Peer
import SgKeyDist.Admission
import SgKeyDist.Enrolment
import SgKeyDist.Receiver
import SgKeyDist.Rekey
import SgKeyDist.TlvConst
import SgKeyDist.Packet
import SgKeyDist.Iso8601
import SgKeyDist.Refresh
import SgKeyDist.Connect
import SgKeyDist.EventLoop
import SgKeyDist.Rotation
import SgKeyDist.Fabric
import SgKeyDist.Lifetime
import SgKeyDist.Conflict
import SgKeyDist.Secrecy
import SgKeyDist.Routing
import SgKeyDist.Calendar
import SgKeyDist.Cert
import SgKeyDist.StampOrder
