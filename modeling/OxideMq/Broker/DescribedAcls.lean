import OxideMq.Broker.AclDecisions
import OxideMq.Protocol.MessageRoundTrips

/-! What a description of the bindings says on the wire. -/

namespace OxideMq.Broker

open Lib OxideMq.Core OxideMq.Protocol KafkaEncoder KafkaDecoder Decoder List

structure AclBinding.Fits (version : ℤ) (b : AclBinding) : Prop where
  resourceName : TextFits (fromVersion 2 version) b.resourceName
  principal : TextFits (fromVersion 2 version) b.principal
  host : TextFits (fromVersion 2 version) b.host

namespace AclAuthorizer

variable {acl : AclAuthorizer} {filter : AclFilter} {version : ℤ}

end AclAuthorizer

end OxideMq.Broker
