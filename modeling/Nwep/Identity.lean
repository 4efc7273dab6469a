import Nwep.Lib.Buffers
import Nwep.Sys

/-!
# Identities

Model of `Identity` (`nwep/src/identity.rs` 121-270) with its local buffers: the raw keypair
(`nwep_keypair`), the node id and the PEM buffer. A function takes what its C calls answer; a call may
have written to its out parameters before it failed.
-/

namespace Nwep

open Nwep.Lib

/-- `NodeId`. -/
abbrev Identity.NodeId := Octets 32

/-- `Identity`. -/
structure Identity where
  nodeId  : Identity.NodeId
  pubkey  : Octets 32
  privkey : Octets 32
  deriving DecidableEq

/-- The C calls. -/
inductive KeyCall
  | identityGenerate
  | loadPem (pem : Bytes)
  | nodeidFromPubkey (pubkey : Octets 32)
  | savePem (capacity : Nat) (pubkey privkey : Octets 32)
  deriving DecidableEq

/-- What a call that fills a `nwep_keypair`, and perhaps a `nwep_node_id`, answers. -/
structure KeyAnswer where
  rc     : CInt
  nodeId : Bytes
  pub    : Bytes
  priv   : Bytes
  deriving DecidableEq

namespace Identity

/-- `Identity::generate`. -/
def generate (a : KeyAnswer) : Ran Error KeyCall Identity :=
  let id := received 32 a.nodeId
  let pub := received 32 a.pub
  let priv := received 32 a.priv
  match Error.check a.rc with
  | .error e =>
    ⟨.error e, [.identityGenerate], [.plain id.1, .plain pub.1, .secret priv.1]⟩
  | .ok _ =>
    ⟨.ok ⟨id, pub, priv⟩, [.identityGenerate],
      [.plain id.1, .plain pub.1, (Cell.secret priv.1).wipe]⟩

/-- `Identity::from_pem`, when the load answers `load` and the derivation `derived` and writes
`nid`. -/
def fromPem (pem : Bytes) (load : KeyAnswer) (derived : CInt) (nid : Bytes) :
    Ran Error KeyCall Identity :=
  let pub := received 32 load.pub
  let priv := received 32 load.priv
  match Error.check load.rc with
  | .error e => ⟨.error e, [.loadPem pem], [.plain pub.1, .secret priv.1]⟩
  | .ok _ =>
    let nid := received 32 nid
    let calls := [.loadPem pem, .nodeidFromPubkey pub]
    let cells := [.plain pub.1, (Cell.secret priv.1).wipe, .plain nid.1]
    match Error.check derived with
    | .error e => ⟨.error e, calls, cells⟩
    | .ok _ => ⟨.ok ⟨nid, pub, priv⟩, calls, cells⟩

/-- `String::from_utf8(..).is_ok()`. -/
def validUtf8 (b : Bytes) : Bool := ByteArray.validateUTF8 ⟨b.toArray⟩

/-- `buf` of `to_pem` after the call and `buf.truncate(len)`. -/
def pemText (a : OutAnswer) : Bytes := (received 4096 a.written).1.take a.len

/-- `Identity::to_pem`. Where it succeeds, `buf` is the returned string. -/
def toPem (self : Identity) (a : OutAnswer) : Ran Error KeyCall Bytes :=
  let calls := [.savePem 4096 self.pubkey self.privkey]
  let kp := [.plain self.pubkey.1, (Cell.secret self.privkey.1).wipe]
  let buf := Cell.secret (received 4096 a.written).1
  match Error.check a.rc with
  | .error e => ⟨.error e, calls, kp ++ [buf]⟩
  | .ok _ =>
    if validUtf8 (pemText a) then ⟨.ok (pemText a), calls, kp⟩
    else ⟨.error .internal, calls, kp ++ [buf]⟩

/-- `Identity::with_keypair`: `f` gets the raw keypair. -/
def withKeypair {α : Type} (self : Identity) (f : Octets 32 → Octets 32 → α) : α × List Cell :=
  (f self.pubkey self.privkey,
    [.plain self.pubkey.1, (Cell.secret self.privkey.1).wipe])

/-- `Identity::with_raw_keys`: the public key is lent from the identity itself. -/
def withRawKeys {α : Type} (self : Identity) (f : Octets 32 → Octets 32 → α) : α × List Cell :=
  (f self.pubkey self.privkey, [(Cell.secret self.privkey.1).wipe])

end Identity

end Nwep
