import OxideMq.Broker.FrameDecoding
import OxideMq.Lib.HashMap
import OxideMq.Protocol.ErrorCode
import OxideMq.Protocol.KafkaEncoder

/-! SASL authentication: the two requests that change the state of a connection. -/

namespace OxideMq.Broker

open Lib OxideMq.Core OxideMq.Protocol

namespace Sasl

inductive SaslMechanism where
  | plain | scramSha256 | scramSha512
  deriving DecidableEq, Repr

/-- The characters that `str::trim` takes off. -/
def isWhitespace (c : Char) : Bool :=
  (9 ≤ c.toNat && c.toNat ≤ 13) || c.toNat == 0x20 || c.toNat == 0x85 || c.toNat == 0xa0 ||
    c.toNat == 0x1680 || (0x2000 ≤ c.toNat && c.toNat ≤ 0x200a) || c.toNat == 0x2028 ||
    c.toNat == 0x2029 || c.toNat == 0x202f || c.toNat == 0x205f || c.toNat == 0x3000

def trim (text : List Char) : List Char :=
  ((text.dropWhile isWhitespace).reverse.dropWhile isWhitespace).reverse

namespace SaslMechanism

def asStr : SaslMechanism → String
  | .plain => "PLAIN"
  | .scramSha256 => "SCRAM-SHA-256"
  | .scramSha512 => "SCRAM-SHA-512"

def fromStrCaseInsensitive (s : String) : Option SaslMechanism :=
  match String.ofList ((trim s.toList).map Char.toUpper) with
  | "PLAIN" => some .plain
  | "SCRAM-SHA-256" => some .scramSha256
  | "SCRAM-SHA-512" => some .scramSha512
  | _ => none

end SaslMechanism

structure Crypto where
  pbkdf2 : SaslMechanism → ℕ+ → Bytes → Bytes → Bytes
  hmac : SaslMechanism → Bytes → Bytes → Bytes
  digest : SaslMechanism → Bytes → Bytes
  base64Encode : Bytes → String
  base64Decode : Bytes → Option Bytes

structure Draws where
  nonce : Option Bytes
  salt : Option Bytes

def find (pattern : List Char) : List Char → Option (List Char × List Char)
  | [] => if pattern = [] then some ([], []) else none
  | c :: text =>
      if pattern.isPrefixOf (c :: text) then some ([], c :: text)
      else (find pattern text).map fun (before, found) => (c :: before, found)

structure ScramServerSession where
  mechanism : SaslMechanism
  username : String
  clientNonce : String
  serverNonce : String
  fullNonce : String
  salt : Bytes
  iterations : ℕ+
  authMessagePrefix : String
  deriving DecidableEq

namespace ScramServerSession

def new (mechanism : SaslMechanism) : ScramServerSession :=
  ⟨mechanism, "", "", "", "", [], 4096, ""⟩

def readPart (found : Option String × Option String) (part : List Char) :
    Option String × Option String :=
  match part.dropPrefix? "n=".toList with
  | some val => (some (String.ofList val), found.2)
  | none =>
      match part.dropPrefix? "r=".toList with
      | some val => (found.1, some (String.ofList val))
      | none => found

def orFail {α : Type} (code : KafkaErrorCode) : Option α → Except KafkaErrorCode α
  | some a => .ok a
  | none => .error code

def serverFirstMessage (crypto : Crypto) (session : ScramServerSession) : String :=
  "r=" ++ session.fullNonce ++ ",s=" ++ crypto.base64Encode session.salt ++ ",i=" ++
    toString (session.iterations : ℕ)

def processClientFirst (crypto : Crypto) (draws : Draws) (session : ScramServerSession)
    (authBytes : Bytes) (saltOverride : Option Bytes) (serverNonceOverride : Option String) :
    Except KafkaErrorCode (ScramServerSession × String) := do
  let msg ← orFail .saslAuthenticationFailed (utf8 authBytes)
  let (_, clientFirstBare) ← orFail .saslAuthenticationFailed (find "n=".toList msg.toList)
  let found := (clientFirstBare.splitOn ',').foldl readPart (none, none)
  let username ← orFail .saslAuthenticationFailed found.1
  let clientNonce ← orFail .saslAuthenticationFailed found.2
  let serverNonce ← orFail .unknownServer
    (serverNonceOverride.or (draws.nonce.map crypto.base64Encode))
  let salt ← orFail .unknownServer (saltOverride.or draws.salt)
  let started : ScramServerSession :=
    { session with
      username, clientNonce, serverNonce, salt
      fullNonce := clientNonce ++ serverNonce
      iterations := 4096 }
  let serverFirst := started.serverFirstMessage crypto
  return ({ started with
    authMessagePrefix := String.ofList clientFirstBare ++ "," ++ serverFirst }, serverFirst)

def clientKey (crypto : Crypto) (session : ScramServerSession) (password : String) : Bytes :=
  crypto.hmac session.mechanism
    (crypto.pbkdf2 session.mechanism session.iterations session.salt (textBytes password))
    (textBytes "Client Key")

def storedKey (crypto : Crypto) (session : ScramServerSession) (password : String) : Bytes :=
  crypto.digest session.mechanism (session.clientKey crypto password)

def recoveredClientKey (crypto : Crypto) (session : ScramServerSession) (password : String)
    (clientProof : Bytes) (authMessage : String) : Bytes :=
  List.zipWith (· ^^^ ·) clientProof
    (crypto.hmac session.mechanism (session.storedKey crypto password) (textBytes authMessage))

def serverFinal (crypto : Crypto) (session : ScramServerSession) (password : String)
    (authMessage : String) : String :=
  let serverKey := crypto.hmac session.mechanism
    (crypto.pbkdf2 session.mechanism session.iterations session.salt (textBytes password))
    (textBytes "Server Key")
  "v=" ++ crypto.base64Encode (crypto.hmac session.mechanism serverKey (textBytes authMessage))

def processClientFinal (crypto : Crypto) (session : ScramServerSession) (authBytes : Bytes)
    (password : String) : Except KafkaErrorCode (String × String) := do
  let msg ← orFail .saslAuthenticationFailed (utf8 authBytes)
  let (withoutProof, fromProof) ← orFail .saslAuthenticationFailed (find ",p=".toList msg.toList)
  if (withoutProof.splitOn ',').any
      (fun part => part.dropPrefix? "r=".toList == some session.fullNonce.toList) then
    let clientProof ← orFail .saslAuthenticationFailed
      (crypto.base64Decode (textBytes (String.ofList (fromProof.drop 3))))
    let authMessage := session.authMessagePrefix ++ "," ++ String.ofList withoutProof
    if session.mechanism = .plain then throw .unsupportedSaslMechanism
    else if clientProof.length ≠ (session.clientKey crypto password).length then
      throw .saslAuthenticationFailed
    else if crypto.digest session.mechanism
        (session.recoveredClientKey crypto password clientProof authMessage) ≠
        session.storedKey crypto password then throw .saslAuthenticationFailed
    else return (session.username, session.serverFinal crypto password authMessage)
  else throw .saslAuthenticationFailed

end ScramServerSession

structure SaslAuthenticator where
  users : HashMap String String
  enabledMechanisms : List SaslMechanism
  requireSasl : Bool

namespace SaslAuthenticator

def getPassword (auth : SaslAuthenticator) (username : String) : Option String :=
  auth.users.lookup username

def isMechanismEnabled (auth : SaslAuthenticator) (mechanism : SaslMechanism) : Bool :=
  auth.enabledMechanisms.contains mechanism

def enabledMechanismNames (auth : SaslAuthenticator) : List String :=
  auth.enabledMechanisms.map SaslMechanism.asStr

def authenticatePlain (auth : SaslAuthenticator) (authBytes : Bytes) :
    Except KafkaErrorCode String :=
  match authBytes.splitOn 0 with
  | [_, user, pass] => do
      let username ← ScramServerSession.orFail .saslAuthenticationFailed (utf8 user)
      let password ← ScramServerSession.orFail .saslAuthenticationFailed (utf8 pass)
      let expected ← ScramServerSession.orFail .saslAuthenticationFailed (auth.getPassword username)
      if expected ≠ password then throw .saslAuthenticationFailed else return username
  | _ => .error .saslAuthenticationFailed

end SaslAuthenticator

inductive ConnectionAuthState where
  | unauthenticated
  | handshakeReceived (mechanism : SaslMechanism)
  | scramChallengeSent (session : ScramServerSession)
  | authenticated (principal : String)
  | failed
  deriving DecidableEq

namespace ConnectionAuthState

def outline : ConnectionAuthState → Broker.ConnectionAuthState
  | .unauthenticated => .unauthenticated
  | .handshakeReceived _ => .handshakeReceived
  | .scramChallengeSent _ => .scramChallengeSent
  | .authenticated _ => .authenticated
  | .failed => .failed

def principal : ConnectionAuthState → Option String
  | .authenticated principal => some principal
  | _ => none

end ConnectionAuthState

structure SaslHandshakeResponse where
  errorCode : KafkaErrorCode
  enabledMechanisms : List String

structure SaslAuthenticateResponse where
  errorCode : KafkaErrorCode
  errorMessage : Option String
  authBytes : Bytes
  sessionLifetimeMs : ℤ

namespace SaslAuthenticateResponse

def accepted (authBytes : Bytes) : SaslAuthenticateResponse := ⟨.none, none, authBytes, 0⟩

def refused (errorCode : KafkaErrorCode) (errorMessage : String) : SaslAuthenticateResponse :=
  ⟨errorCode, some errorMessage, [], 0⟩

end SaslAuthenticateResponse

namespace SaslAuthenticator

def handleSaslHandshake (auth : SaslAuthenticator) (session : ConnectionAuthState)
    (request : SaslHandshakeRequest) : ConnectionAuthState × SaslHandshakeResponse :=
  match (SaslMechanism.fromStrCaseInsensitive request.mechanism).filter auth.isMechanismEnabled with
  | some m => (.handshakeReceived m, ⟨.none, auth.enabledMechanismNames⟩)
  | none => (session, ⟨.unsupportedSaslMechanism, auth.enabledMechanismNames⟩)

def handleSaslAuthenticate (auth : SaslAuthenticator) (crypto : Crypto) (draws : Draws)
    (session : ConnectionAuthState) (request : SaslAuthenticateRequest) :
    ConnectionAuthState × SaslAuthenticateResponse :=
  match session with
  | .handshakeReceived .plain =>
      match auth.authenticatePlain request.authBytes with
      | .ok user => (.authenticated user, .accepted [])
      | .error err => (.failed, .refused err "SASL PLAIN authentication failed")
  | .handshakeReceived m =>
      match (ScramServerSession.new m).processClientFirst crypto draws request.authBytes none
          none with
      | .ok (scramSession, serverFirst) =>
          (.scramChallengeSent scramSession, .accepted (textBytes serverFirst))
      | .error err => (.failed, .refused err "SCRAM client-first message validation failed")
  | .scramChallengeSent scramSession =>
      match auth.getPassword scramSession.username with
      | some pass =>
          match scramSession.processClientFinal crypto request.authBytes pass with
          | .ok (user, serverFinal) => (.authenticated user, .accepted (textBytes serverFinal))
          | .error err => (.failed, .refused err "SCRAM proof verification failed")
      | none => (.failed, .refused .saslAuthenticationFailed "Unknown user")
  | session =>
      (session, .refused .illegalSaslState "SaslAuthenticate request received in unexpected state")

end SaslAuthenticator

section

variable {crypto : Crypto} {draws : Draws} {auth : SaslAuthenticator} {authBytes : Bytes}

theorem orFail_bind_eq_ok {α β : Type} {code : KafkaErrorCode} {o : Option α}
    {f : α → Except KafkaErrorCode β} {b : β} :
    (ScramServerSession.orFail code o >>= f) = .ok b ↔ ∃ a, o = some a ∧ f a = .ok b := by
  cases o with
  | none => exact iff_of_false nofun nofun
  | some a => exact ⟨fun h => ⟨a, rfl, h⟩, fun ⟨_, ha, h⟩ => Option.some.inj ha ▸ h⟩

def HoldsPassword (auth : SaslAuthenticator) (authBytes : Bytes) (user : String) : Prop :=
  ∃ authzid name pass password, authBytes.splitOn 0 = [authzid, name, pass] ∧
    utf8 name = some user ∧ utf8 pass = some password ∧ auth.getPassword user = some password

theorem authenticatePlain_eq_ok {user : String} (h : auth.authenticatePlain authBytes = .ok user) :
    HoldsPassword auth authBytes user := by
  rw [SaslAuthenticator.authenticatePlain] at h
  split at h
  · rename_i authzid name pass hparts
    obtain ⟨username, hname, h⟩ := orFail_bind_eq_ok.mp h
    obtain ⟨pw, hpass, h⟩ := orFail_bind_eq_ok.mp h
    obtain ⟨expected, hstored, h⟩ := orFail_bind_eq_ok.mp h
    split at h
    · cases h
    · rename_i hsame
      cases h
      rw [not_ne_iff.mp hsame] at hstored
      exact ⟨authzid, name, pass, pw, hparts, hname, hpass, hstored⟩
  · cases h

structure Challenges (crypto : Crypto) (draws : Draws) (mechanism : SaslMechanism)
    (session : ScramServerSession) (serverFirst : String) : Prop where
  mechanism : session.mechanism = mechanism
  nonce : ∃ drawn, draws.nonce = some drawn ∧
    session.fullNonce = session.clientNonce ++ crypto.base64Encode drawn
  message : serverFirst = session.serverFirstMessage crypto

theorem processClientFirst_eq_ok {sess started : ScramServerSession} {serverFirst : String}
    (h : sess.processClientFirst crypto draws authBytes none none = .ok (started, serverFirst)) :
    Challenges crypto draws sess.mechanism started serverFirst := by
  obtain ⟨msg, -, h⟩ := orFail_bind_eq_ok.mp h
  obtain ⟨⟨before, bare⟩, -, h⟩ := orFail_bind_eq_ok.mp h
  obtain ⟨user, -, h⟩ := orFail_bind_eq_ok.mp h
  obtain ⟨clientNonce, -, h⟩ := orFail_bind_eq_ok.mp h
  obtain ⟨serverNonce, hnonce, h⟩ := orFail_bind_eq_ok.mp h
  obtain ⟨salt, -, h⟩ := orFail_bind_eq_ok.mp h
  cases h
  obtain ⟨drawn, hdrawn, rfl⟩ := Option.map_eq_some_iff.mp hnonce
  exact ⟨rfl, ⟨drawn, hdrawn, rfl⟩, rfl⟩

def ProvesPassword (crypto : Crypto) (session : ScramServerSession) (authBytes : Bytes)
    (password : String) : Prop :=
  ∃ msg withoutProof fromProof clientProof, utf8 authBytes = some msg ∧
    find ",p=".toList msg.toList = some (withoutProof, fromProof) ∧
    (∃ part ∈ withoutProof.splitOn ',',
      part.dropPrefix? "r=".toList = some session.fullNonce.toList) ∧
    crypto.base64Decode (textBytes (String.ofList (fromProof.drop 3))) = some clientProof ∧
    clientProof.length = (session.clientKey crypto password).length ∧
    crypto.digest session.mechanism (session.recoveredClientKey crypto password clientProof
      (session.authMessagePrefix ++ "," ++ String.ofList withoutProof)) =
        session.storedKey crypto password

theorem processClientFinal_eq_ok {session : ScramServerSession} {password user final : String}
    (h : session.processClientFinal crypto authBytes password = .ok (user, final)) :
    user = session.username ∧ session.mechanism ≠ .plain ∧
      ProvesPassword crypto session authBytes password := by
  obtain ⟨msg, hmsg, h⟩ := orFail_bind_eq_ok.mp h
  obtain ⟨⟨withoutProof, fromProof⟩, hfind, h⟩ := orFail_bind_eq_ok.mp h
  dsimp only at h
  split at h
  · rename_i hnonce
    obtain ⟨part, hpart, hsame⟩ := List.any_eq_true.mp hnonce
    obtain ⟨clientProof, hproof, h⟩ := orFail_bind_eq_ok.mp h
    split at h
    · cases h
    rename_i hmech
    split at h
    · cases h
    rename_i hlen
    split at h
    · cases h
    rename_i hdigest
    cases h
    exact ⟨rfl, hmech, msg, withoutProof, fromProof, clientProof, hmsg, hfind,
      ⟨part, hpart, beq_iff_eq.mp hsame⟩, hproof, not_ne_iff.mp hlen, not_ne_iff.mp hdigest⟩
  · cases h

end

theorem handleSaslHandshake_cases (auth : SaslAuthenticator) (sess : ConnectionAuthState)
    (req : SaslHandshakeRequest) :
    (∃ m, m ∈ auth.enabledMechanisms ∧
      (auth.handleSaslHandshake sess req).1 = .handshakeReceived m ∧
      SaslMechanism.fromStrCaseInsensitive req.mechanism = some m ∧
      (auth.handleSaslHandshake sess req).2.errorCode = .none) ∨
    (auth.handleSaslHandshake sess req).1 = sess ∧
      (auth.handleSaslHandshake sess req).2.errorCode = .unsupportedSaslMechanism := by
  unfold SaslAuthenticator.handleSaslHandshake
  split
  · rename_i m hm
    obtain ⟨hmech, hen⟩ := Option.filter_eq_some_iff.mp hm
    exact Or.inl ⟨m, List.contains_iff_mem.mp hen, rfl, hmech, rfl⟩
  · exact Or.inr ⟨rfl, rfl⟩

/-- Everything a `SaslAuthenticate` can do to the state of a connection. -/
inductive Authenticates (auth : SaslAuthenticator) (crypto : Crypto) (draws : Draws)
    (authBytes : Bytes) : ConnectionAuthState → ConnectionAuthState → SaslAuthenticateResponse →
    Prop
  | plain {user : String} (hpassword : HoldsPassword auth authBytes user) :
      Authenticates auth crypto draws authBytes (.handshakeReceived .plain) (.authenticated user)
        (.accepted [])
  | challenge {m : SaslMechanism} {session : ScramServerSession} {serverFirst : String}
      (hm : m ≠ .plain) (hchallenge : Challenges crypto draws m session serverFirst) :
      Authenticates auth crypto draws authBytes (.handshakeReceived m) (.scramChallengeSent session)
        (.accepted (textBytes serverFirst))
  | final {session : ScramServerSession} {password serverFinal : String}
      (hm : session.mechanism ≠ .plain) (hstored : auth.getPassword session.username = some password)
      (hproof : ProvesPassword crypto session authBytes password) :
      Authenticates auth crypto draws authBytes (.scramChallengeSent session)
        (.authenticated session.username) (.accepted (textBytes serverFinal))
  | failure (session : ConnectionAuthState) (code : KafkaErrorCode) (message : String) :
      Authenticates auth crypto draws authBytes session .failed (.refused code message)
  | illegal (session : ConnectionAuthState) (message : String) :
      Authenticates auth crypto draws authBytes session session (.refused .illegalSaslState message)

theorem authenticates_handleSaslAuthenticate (auth : SaslAuthenticator) (crypto : Crypto)
    (draws : Draws) (sess : ConnectionAuthState) (req : SaslAuthenticateRequest) :
    Authenticates auth crypto draws req.authBytes sess
      (auth.handleSaslAuthenticate crypto draws sess req).1
      (auth.handleSaslAuthenticate crypto draws sess req).2 := by
  unfold SaslAuthenticator.handleSaslAuthenticate
  split
  · split
    · rename_i user huser
      exact Authenticates.plain (authenticatePlain_eq_ok huser)
    · exact Authenticates.failure _ _ _
  · rename_i m hm
    split
    · rename_i started serverFirst hfirst
      exact Authenticates.challenge hm (processClientFirst_eq_ok hfirst)
    · exact Authenticates.failure _ _ _
  · split
    · rename_i scramSession pw hstored
      split
      · rename_i user serverFinal hfinal
        obtain ⟨rfl, hm, hproof⟩ := processClientFinal_eq_ok hfinal
        exact Authenticates.final hm hstored hproof
      · exact Authenticates.failure _ _ _
    · exact Authenticates.failure _ _ _
  · exact Authenticates.illegal _ _

end Sasl

end OxideMq.Broker
