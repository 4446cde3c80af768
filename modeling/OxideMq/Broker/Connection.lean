import OxideMq.Broker.Sasl
import OxideMq.Lib.Run

/-! A connection. -/

namespace OxideMq.Broker

open Lib OxideMq.Core OxideMq.Protocol List

namespace Sasl

variable {E R : Type}

inductive Reply (R : Type) where
  | saslHandshake (response : SaslHandshakeResponse)
  | saslAuthenticate (response : SaslAuthenticateResponse)
  | other (response : R)

abbrev Execute (E R : Type) := E → String → Request → Option (E × Except OxideMqError R)

/-- `handle_connection_request` behind the security check and the decoder. -/
def handleRequest (execute : Execute E R) (auth : SaslAuthenticator) (crypto : Crypto)
    (draws : Draws) (engine : E) (session : ConnectionAuthState) :
    Request → Option (E × ConnectionAuthState × Except OxideMqError (Reply R))
  | .saslHandshake request =>
      let (session', response) := auth.handleSaslHandshake session request
      some (engine, session', .ok (.saslHandshake response))
  | .saslAuthenticate request =>
      let (session', response) := auth.handleSaslAuthenticate crypto draws session request
      some (engine, session', .ok (.saslAuthenticate response))
  | request =>
      (execute engine (session.principal.getD "ANONYMOUS") request).map fun (engine', result) =>
        (engine', session, result.map .other)

def handleConnectionFrame (execute : Execute E R) (auth : SaslAuthenticator) (crypto : Crypto)
    (draws : Draws) (engine : E) (session : ConnectionAuthState) (frame : Bytes) :
    Option (E × ConnectionAuthState × Except OxideMqError (Reply R)) :=
  match (decodeFrame auth.requireSasl session.outline).run frame with
  | .ok request _ => handleRequest execute auth crypto draws engine session request
  | .err e => some (engine, session, .error e)
  | .panic => none

structure Exchange (R : Type) where
  auth : SaslAuthenticator
  draws : Draws
  session : ConnectionAuthState
  request : Request
  result : Option (Except OxideMqError (Reply R))

structure Frame (E : Type) where
  engine : E
  users : HashMap String String
  draws : Draws
  bytes : Bytes
  written : Bool

structure Connection (R : Type) where
  session : ConnectionAuthState
  isOpen : Bool
  transcript : List (Exchange R)

namespace Connection

def new : Connection R := ⟨.unauthenticated, true, []⟩

def exchange (auth : SaslAuthenticator) (conn : Connection R) (frame : Frame E)
    (outcome : Option (E × ConnectionAuthState × Except OxideMqError (Reply R))) :
    List (Exchange R) :=
  match (decodeFrame auth.requireSasl conn.session.outline).run frame.bytes with
  | .ok request _ =>
      [⟨auth, frame.draws, conn.session, request, outcome.map fun (_, _, result) => result⟩]
  | _ => []

/-- One turn of the loop of `process_connection`. -/
def exec (execute : Execute E R) (config : SaslAuthenticator) (crypto : Crypto)
    (conn : Connection R) (frame : Frame E) : Option (Connection R) :=
  if conn.isOpen then
    if frame.bytes.length = 0 ∨ frame.bytes.length > 64 * 1024 * 1024 then
      some { conn with isOpen := false }
    else
      let auth := { config with users := frame.users }
      let outcome := handleConnectionFrame execute auth crypto frame.draws frame.engine conn.session
        frame.bytes
      let transcript := conn.transcript ++ conn.exchange auth frame outcome
      match outcome with
      | some (_, session, .ok _) => some ⟨session, frame.written && session != .failed, transcript⟩
      | some (_, session, .error _) => some ⟨session, false, transcript⟩
      | none => some ⟨conn.session, false, transcript⟩
  else none

end Connection

namespace Exchange

def Handshake (x : Exchange R) (m : SaslMechanism) : Prop :=
  ∃ request response, x.request = .saslHandshake request ∧
    x.result = some (.ok (.saslHandshake response)) ∧ response.errorCode = .none ∧
    SaslMechanism.fromStrCaseInsensitive request.mechanism = some m

def Plain (x : Exchange R) (user : String) : Prop :=
  ∃ request, x.request = .saslAuthenticate request ∧
    x.result = some (.ok (.saslAuthenticate (.accepted []))) ∧
    HoldsPassword x.auth request.authBytes user

def Challenge (crypto : Crypto) (x : Exchange R) (session : ScramServerSession) : Prop :=
  ∃ request serverFirst, x.request = .saslAuthenticate request ∧
    x.result = some (.ok (.saslAuthenticate (.accepted (textBytes serverFirst)))) ∧
    Challenges crypto x.draws session.mechanism session serverFirst

def Final (crypto : Crypto) (x : Exchange R) (session : ScramServerSession) : Prop :=
  ∃ request password serverFinal, x.request = .saslAuthenticate request ∧
    x.result = some (.ok (.saslAuthenticate (.accepted (textBytes serverFinal)))) ∧
    x.auth.getPassword session.username = some password ∧
    ProvesPassword crypto session request.authBytes password

def Failure (x : Exchange R) : Prop :=
  ∃ request response, x.request = .saslAuthenticate request ∧
    x.result = some (.ok (.saslAuthenticate response)) ∧
    response.errorCode ≠ .none ∧ response.errorCode ≠ .illegalSaslState

end Exchange

inductive AcceptedIn (crypto : Crypto) (user : String) (later : List (Exchange R)) :
    SaslMechanism → Prop
  | plain (x : Exchange R) (hx : x ∈ later) (haccepted : x.Plain user) :
      AcceptedIn crypto user later .plain
  | scram (session : ScramServerSession) (before after : List (Exchange R)) (x y : Exchange R)
      (hlater : later = before ++ after) (hx : x ∈ before) (hy : y ∈ after)
      (huser : session.username = user) (hm : session.mechanism ≠ .plain)
      (hchallenge : x.Challenge crypto session) (haccepted : y.Final crypto session) :
      AcceptedIn crypto user later session.mechanism

def SinceHandshake (enabled : List SaslMechanism) (P : SaslMechanism → List (Exchange R) → Prop)
    (transcript : List (Exchange R)) : Prop :=
  ∃ m earlier shake later, transcript = earlier ++ shake :: later ∧ shake.Handshake m ∧
    m ∈ enabled ∧ (∀ x ∈ later, ∀ m', ¬ x.Handshake m') ∧ P m later

def Recorded (crypto : Crypto) (enabled : List SaslMechanism) :
    ConnectionAuthState → List (Exchange R) → Prop
  | .unauthenticated, _ => True
  | .handshakeReceived m, transcript => SinceHandshake enabled (fun m' _ => m' = m) transcript
  | .scramChallengeSent session, transcript =>
      SinceHandshake enabled
        (fun m later => m = session.mechanism ∧ ∃ x ∈ later, x.Challenge crypto session) transcript
  | .authenticated user, transcript =>
      SinceHandshake enabled (fun m later => AcceptedIn crypto user later m) transcript
  | .failed, _ => True

section

variable {crypto : Crypto} {enabled : List SaslMechanism} {transcript : List (Exchange R)}
  {x : Exchange R} {session' : ConnectionAuthState}

inductive Moves (crypto : Crypto) (x : Exchange R) : ConnectionAuthState → Prop
  | handshake {request : SaslHandshakeRequest} {response : SaslHandshakeResponse}
      {m : SaslMechanism} (hrequest : x.request = .saslHandshake request)
      (hresult : x.result = some (.ok (.saslHandshake response)))
      (hcode : response.errorCode = .none) (henabled : m ∈ x.auth.enabledMechanisms)
      (hm : SaslMechanism.fromStrCaseInsensitive request.mechanism = some m) :
      Moves crypto x (.handshakeReceived m)
  | authenticate {request : SaslAuthenticateRequest} {response : SaslAuthenticateResponse}
      {session' : ConnectionAuthState} (hrequest : x.request = .saslAuthenticate request)
      (hresult : x.result = some (.ok (.saslAuthenticate response)))
      (hauth : Authenticates x.auth crypto x.draws request.authBytes x.session session' response) :
      Moves crypto x session'
  | other (hhandshake : ∀ m, ¬ x.Handshake m) (hfailure : ¬ x.Failure) : Moves crypto x x.session

theorem not_handshake_of_authenticate {req : SaslAuthenticateRequest}
    (h : x.request = .saslAuthenticate req) (m : SaslMechanism) : ¬ x.Handshake m := by
  rintro ⟨req', response, hreq, -⟩
  cases h.symm.trans hreq

theorem SinceHandshake.concat {P Q : SaslMechanism → List (Exchange R) → Prop}
    (h : SinceHandshake enabled P transcript) (hx : ∀ m, ¬ x.Handshake m)
    (hQ : ∀ m later, P m later → Q m (later ++ [x])) :
    SinceHandshake enabled Q (transcript ++ [x]) := by
  obtain ⟨m, earlier, shake, later, rfl, hshake, hen, hlater, hP⟩ := h
  refine ⟨m, earlier, shake, later ++ [x], ?_, hshake, hen, ?_, hQ m later hP⟩
  · rw [append_assoc, cons_append]
  · exact forall_mem_append.mpr ⟨hlater, forall_mem_singleton.mpr hx⟩

theorem AcceptedIn.concat {user : String} {later : List (Exchange R)} {m : SaslMechanism}
    (h : AcceptedIn crypto user later m) (x : Exchange R) :
    AcceptedIn crypto user (later ++ [x]) m := by
  cases h with
  | plain y hy hacc => exact .plain y (mem_append_left _ hy) hacc
  | scram sess before after y z hlater hy hz huser hm hchal hacc =>
    refine .scram sess before (after ++ [x]) y z ?_ hy (mem_append_left _ hz) huser hm hchal hacc
    rw [hlater, append_assoc]

theorem Recorded.concat {sess : ConnectionAuthState}
    (h : Recorded crypto enabled sess transcript) (hx : ∀ m, ¬ x.Handshake m) :
    Recorded crypto enabled sess (transcript ++ [x]) := by
  cases sess with
  | unauthenticated => trivial
  | handshakeReceived m => exact SinceHandshake.concat h hx fun _ _ hm => hm
  | scramChallengeSent sess =>
    refine SinceHandshake.concat h hx fun m later hm => ?_
    obtain ⟨hm, y, hy, hchal⟩ := hm
    exact ⟨hm, y, mem_append_left _ hy, hchal⟩
  | authenticated user => exact SinceHandshake.concat h hx fun _ _ hacc => hacc.concat x
  | failed => trivial

theorem Recorded.moves (h : Recorded crypto enabled x.session transcript)
    (hen : x.auth.enabledMechanisms = enabled) (hmove : Moves crypto x session') :
    Recorded crypto enabled session' (transcript ++ [x]) := by
  cases hmove with
  | handshake hreq hres hcode hmem hm =>
    refine ⟨_, transcript, x, [], rfl, ⟨_, _, hreq, hres, hcode, hm⟩, hen ▸ hmem,
      forall_mem_nil _, rfl⟩
  | other hhandshake _ => exact h.concat hhandshake
  | @authenticate request resp _ hreq hres hauth =>
    have hx := not_handshake_of_authenticate (x := x) hreq
    generalize x.session = sess at h hauth
    cases hauth with
    | @plain user hpassword =>
      refine SinceHandshake.concat h hx fun m later hm => ?_
      rw [hm]
      exact .plain x (mem_append_right _ mem_cons_self) ⟨request, hreq, hres, hpassword⟩
    | @challenge m sess serverFirst hm hchal =>
      refine SinceHandshake.concat h hx fun m' later hm' => ?_
      refine ⟨hm'.trans hchal.mechanism.symm, x,
        mem_append_right _ mem_cons_self, request, serverFirst, hreq, hres, ?_⟩
      rw [hchal.mechanism]
      exact hchal
    | @final sess pw serverFinal hm hstored hproof =>
      refine SinceHandshake.concat h hx fun m later hlater => ?_
      obtain ⟨rfl, y, hy, hchal⟩ := hlater
      exact .scram sess later [x] y x rfl hy mem_cons_self rfl hm hchal
        ⟨request, pw, serverFinal, hreq, hres, hstored, hproof⟩
    | failure => trivial
    | illegal => exact h.concat hx

theorem Moves.failed (hmove : Moves crypto x session') (hfailure : x.Failure) :
    session' = .failed := by
  obtain ⟨request, response, hreq, hres, hcode, hleg⟩ := hfailure
  cases hmove with
  | handshake hreq' => cases hreq.symm.trans hreq'
  | other _ hno => exact absurd ⟨request, response, hreq, hres, hcode, hleg⟩ hno
  | @authenticate request' response' _ hreq' hres' hauth =>
    obtain rfl : response' = response := by
      rw [hres] at hres'
      exact (Reply.saslAuthenticate.inj (Except.ok.inj (Option.some.inj hres'))).symm
    generalize x.session = session at hauth
    cases hauth with
    | plain => exact absurd rfl hcode
    | challenge => exact absurd rfl hcode
    | final => exact absurd rfl hcode
    | failure => rfl
    | illegal => exact absurd rfl hleg

end

section

variable {execute : Execute E R} {auth config : SaslAuthenticator} {crypto : Crypto}
variable {request : Request}

def NeedsUser (request : Request) : Prop :=
  request.apiKey ≠ .apiVersions ∧ request.apiKey ≠ .saslHandshake ∧
    request.apiKey ≠ .saslAuthenticate

theorem admits_of_decodeFrame {saslRequired : Bool} {sess : Broker.ConnectionAuthState}
    {frame rest : Bytes} (h : (decodeFrame saslRequired sess).run frame = .ok request rest) :
    admits saslRequired sess request.apiKey = true := by
  obtain ⟨header, body, -, hdec⟩ := Decoder.run_bind_eq_ok h
  rw [decodeRequest] at hdec
  split at hdec
  · rename_i hadm
    rw [Request.apiKey_of_decode hdec]
    exact hadm
  · cases hdec

theorem authenticated_of_admits {sess : ConnectionAuthState}
    (h : admits true sess.outline request.apiKey = true) (hneeds : NeedsUser request) :
    ∃ user, sess = .authenticated user := by
  obtain ⟨h₁, h₂, h₃⟩ := hneeds
  cases sess with
  | authenticated user => exact ⟨user, rfl⟩
  | _ => simp [admits, ConnectionAuthState.outline, Broker.ConnectionAuthState.isAuthenticated,
      h₁, h₂, h₃] at h

theorem moves_handleRequest {draws : Draws} {engine engine' : E}
    {session session' : ConnectionAuthState} {result : Except OxideMqError (Reply R)}
    (h : handleRequest execute auth crypto draws engine session request =
      some (engine', session', result)) :
    Moves crypto ⟨auth, draws, session, request, some result⟩ session' := by
  unfold handleRequest at h
  split at h
  · rename_i request
    obtain ⟨-, rfl, rfl⟩ : _ ∧ _ ∧ _ := by simpa only [Option.some.injEq, Prod.mk.injEq] using h
    obtain ⟨m, hm, hsession, hmech, hcode⟩ | ⟨hsession, hcode⟩ :=
      handleSaslHandshake_cases auth session request
    · rw [hsession]
      exact .handshake rfl rfl hcode hm hmech
    · rw [hsession]
      refine .other (fun m => ?_) ?_
      · rintro ⟨_, response, -, hres, hnone, -⟩
        obtain rfl := Reply.saslHandshake.inj (Except.ok.inj (Option.some.inj hres))
        cases hcode.symm.trans hnone
      · rintro ⟨_, _, hreq, -⟩
        cases hreq
  · cases h
    exact .authenticate rfl rfl (authenticates_handleSaslAuthenticate auth crypto draws session _)
  · rename_i hhandshake hauthenticate
    obtain ⟨⟨_, outcome⟩, -, heq⟩ := Option.map_eq_some_iff.mp h
    cases heq
    refine .other (fun m => ?_) ?_
    · rintro ⟨request, _, hreq, -⟩
      exact hhandshake request hreq
    · rintro ⟨request, _, hreq, -⟩
      exact hauthenticate request hreq

namespace Connection

theorem exec_eq_some {conn conn' : Connection R} {frame : Frame E}
    (h : exec execute config crypto conn frame = some conn') :
    conn.isOpen = true ∧
      (conn'.isOpen = false ∧ conn'.session = conn.session ∧ conn'.transcript = conn.transcript ∨
        ∃ x, conn'.transcript = conn.transcript ++ [x] ∧ x.session = conn.session ∧
          x.auth.enabledMechanisms = config.enabledMechanisms ∧
          admits config.requireSasl conn.session.outline x.request.apiKey = true ∧
          Moves crypto x conn'.session ∧ (conn'.session = .failed → conn'.isOpen = false)) := by
  unfold exec at h
  split at h
  swap
  · cases h
  rename_i hopen
  refine ⟨hopen, ?_⟩
  split at h
  · cases h
    exact Or.inl ⟨rfl, rfl, rfl⟩
  dsimp only at h
  unfold handleConnectionFrame exchange at h
  dsimp only at h
  cases hdec : (decodeFrame config.requireSasl conn.session.outline).run frame.bytes with
  | err e =>
    rw [hdec] at h
    cases h
    exact Or.inl ⟨rfl, rfl, append_nil _⟩
  | panic =>
    rw [hdec] at h
    cases h
    exact Or.inl ⟨rfl, rfl, append_nil _⟩
  | ok request rest =>
    have hadm := admits_of_decodeFrame hdec
    rw [hdec] at h
    dsimp only at h
    cases hout : handleRequest execute { config with users := frame.users } crypto
        frame.draws frame.engine conn.session request with
    | none =>
      rw [hout] at h
      cases h
      refine Or.inr ⟨_, rfl, rfl, rfl, hadm, .other (fun m => ?_) ?_, fun _ => rfl⟩
      · rintro ⟨_, _, -, hres, -⟩
        cases hres
      · rintro ⟨_, _, -, hres, -⟩
        cases hres
    | some outcome =>
      obtain ⟨engine', session', result⟩ := outcome
      rw [hout] at h
      have hmove := moves_handleRequest hout
      cases result with
      | error e =>
        cases h
        exact Or.inr ⟨_, rfl, rfl, rfl, hadm, hmove, fun _ => rfl⟩
      | ok reply =>
        cases h
        refine Or.inr ⟨_, rfl, rfl, rfl, hadm, hmove, fun hfailed => ?_⟩
        show (frame.written && session' != .failed) = false
        rw [show session' = .failed from hfailed, bne_self_eq_false, Bool.and_false]

structure Inv (crypto : Crypto) (enabled : List SaslMechanism) (conn : Connection R) : Prop where
  recorded : Recorded crypto enabled conn.session conn.transcript
  gate : ∀ before x after, conn.transcript = before ++ x :: after → NeedsUser x.request →
    ∃ user, x.session = .authenticated user ∧
      Recorded crypto enabled (.authenticated user) before
  failure : ∀ before x after, conn.transcript = before ++ x :: after → x.Failure →
    after = [] ∧ conn.isOpen = false

theorem inv_new (enabled : List SaslMechanism) : Inv crypto enabled (new : Connection R) :=
  ⟨trivial, fun _ _ _ h => absurd h (by simp [new]), fun _ _ _ h => absurd h (by simp [new])⟩

theorem inv_exec (hrequired : config.requireSasl = true) (conn : Connection R) (frame : Frame E)
    (conn' : Connection R) (hinv : Inv crypto config.enabledMechanisms conn) (_ : True)
    (hexec : exec execute config crypto conn frame = some conn') :
    Inv crypto config.enabledMechanisms conn' := by
  obtain ⟨hopen, ⟨hcl, hsession, htr⟩ |
    ⟨x, htr, hsession, henabled, hadm, hmoves, hfailed⟩⟩ := exec_eq_some hexec
  · refine ⟨by rw [hsession, htr]; exact hinv.recorded, ?_, fun before x after h hx => ?_⟩
    · rw [htr]
      exact hinv.gate
    · rw [htr] at h
      exact ⟨(hinv.failure before x after h hx).1, hcl⟩
  · have hrec := hinv.recorded
    rw [← hsession] at hrec
    refine ⟨?_, fun before y after h hy => ?_, fun before y after h hy => ?_⟩
    · rw [htr]
      exact hrec.moves henabled hmoves
    · rw [htr] at h
      obtain ⟨rfl, rfl, rfl⟩ | ⟨rest, hrest, rfl⟩ := concat_eq_append_cons.mp h
      · rw [hrequired] at hadm
        obtain ⟨user, huser⟩ := authenticated_of_admits hadm hy
        rw [← hsession] at huser
        exact ⟨user, huser, huser ▸ hrec⟩
      · exact hinv.gate before y rest hrest hy
    · rw [htr] at h
      obtain ⟨rfl, rfl, rfl⟩ | ⟨rest, hrest, rfl⟩ := concat_eq_append_cons.mp h
      · exact ⟨rfl, hfailed (hmoves.failed hy)⟩
      -- a connection that has seen a failure takes no more frames
      · exact absurd hopen (by rw [(hinv.failure before y rest hrest hy).2]; decide)

theorem user_accepted_since_handshake (execute : Execute E R) (config : SaslAuthenticator)
    (crypto : Crypto) (hrequired : config.requireSasl = true) (frames : List (Frame E))
    (conn : Connection R) (hrun : run (exec execute config crypto) new frames = some conn) :
    (∀ before x after, conn.transcript = before ++ x :: after → NeedsUser x.request →
      ∃ user, x.session = .authenticated user ∧
        SinceHandshake config.enabledMechanisms (fun m later => AcceptedIn crypto user later m)
          before) ∧
    ∀ before x after, conn.transcript = before ++ x :: after → x.Failure → after = [] := by
  have hinv : Inv crypto config.enabledMechanisms conn :=
    run_invariant (inv_exec hrequired) (inv_new _) (along_of_forall fun _ _ => trivial) hrun
  exact ⟨hinv.gate, fun before x after h hx => (hinv.failure before x after h hx).1⟩

def idle : Execute Unit Unit := fun _ _ _ => some ((), .ok ())

def plainCrypto : Crypto :=
  ⟨fun _ _ _ _ => [], fun _ _ data => data, fun _ data => data, fun _ => "", fun _ => none⟩

def plainOnly : SaslAuthenticator := ⟨∅, [.plain], true⟩

def aliceFrames : List (Frame Unit) :=
  [[0, 17, 0, 1, 0, 0, 0, 1, 255, 255, 0, 5, 80, 76, 65, 73, 78],
    [0, 36, 0, 1, 0, 0, 0, 2, 255, 255, 0, 0, 0, 9, 0, 97, 108, 105, 99, 101, 0, 112, 119],
    [0, 16, 0, 0, 0, 0, 0, 3, 255, 255]].map fun bytes =>
      ⟨(), AList.insert "alice" "pw" ∅, ⟨none, none⟩, bytes, true⟩

theorem alice_accepted_since_handshake :
    ∃ conn, run (exec idle plainOnly plainCrypto) new aliceFrames = some conn ∧
      ∃ before x, conn.transcript = before ++ [x] ∧ x.request.apiKey = .listGroups ∧
        ∃ user, x.session = .authenticated user ∧
          SinceHandshake [.plain] (fun m later => AcceptedIn plainCrypto user later m) before := by
  have hkeys : (run (exec idle plainOnly plainCrypto) new aliceFrames).map
      (fun conn => conn.transcript.map fun x => x.request.apiKey) =
        some ([.saslHandshake, .saslAuthenticate] ++ [.listGroups]) := by decide +kernel
  obtain ⟨conn, hrun, hmap⟩ := Option.map_eq_some_iff.mp hkeys
  obtain ⟨before, last, htr, -, hlast⟩ := List.map_eq_append_iff.mp hmap
  obtain ⟨x, rfl, hkey⟩ := List.map_eq_singleton_iff.mp hlast
  refine ⟨conn, hrun, before, x, htr, hkey, ?_⟩
  exact (user_accepted_since_handshake idle plainOnly plainCrypto rfl aliceFrames conn hrun).1
    before x [] htr (by rw [NeedsUser, hkey]; decide)

end Connection

end

end Sasl

end OxideMq.Broker
