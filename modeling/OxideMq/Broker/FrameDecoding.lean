import OxideMq.Protocol.RequestLayouts

/-! From a frame to a request. -/

namespace OxideMq.Broker

open Lib OxideMq.Core OxideMq.Protocol Layout Decoder

inductive ConnectionAuthState where
  | unauthenticated
  | handshakeReceived
  | scramChallengeSent
  | authenticated
  | failed
  deriving DecidableEq, Repr

def ConnectionAuthState.isAuthenticated : ConnectionAuthState → Bool
  | .authenticated => true
  | _ => false

def admits (saslRequired : Bool) (session : ConnectionAuthState) (key : ApiKey) : Bool :=
  !(saslRequired && !session.isAuthenticated && key != .apiVersions && key != .saslHandshake
    && key != .saslAuthenticate)

/-- `handle_connection_request` up to the point where the request is decoded. -/
def decodeRequest (saslRequired : Bool) (session : ConnectionAuthState) (header : RequestHeader) :
    Parser Request :=
  if admits saslRequired session header.apiKey then Request.decode header.apiVersion header.apiKey
  else protocolError ("Rejected unauthenticated request " ++ header.apiKey.debug ++
    ": SASL authentication required on this broker")

/-- `handle_connection_frame` up to the point where the request is decoded. -/
def decodeFrame (saslRequired : Bool) (session : ConnectionAuthState) : Parser Request := do
  let header ← RequestHeader.decode
  decodeRequest saslRequired session header

def frameKey (frame : Bytes) : Option ApiKey :=
  ApiKey.fromI16 (toSigned 16 (beDecode (frame.take 2)))

def frameVersion (frame : Bytes) : ℤ := toSigned 16 (beDecode ((frame.drop 2).take 2))

def headerTail (key : ApiKey) (version : ℤ) : List Layout :=
  [Layout.string, Layout.tags (key == .apiVersions && fromVersion 3 version)]

def FieldsPresent (saslRequired : Bool) (session : ConnectionAuthState) (frame : Bytes) : Prop :=
  8 ≤ frame.length → ∀ key, frameKey frame = some key → admits saslRequired session key = true →
    Layout.seq (headerTail key (frameVersion frame) ++ [Layout.request (frameVersion frame) key])
      (frame.drop 8) ≠ .crash

variable {saslRequired : Bool} {session : ConnectionAuthState} {frame : Bytes}

def headerRest (key : ApiKey) (version : ℤ) : Parser RequestHeader := do
  let correlationId ← getI32
  let clientId ← KafkaDecoder.readString
  let _ ← trailingTags (key == .apiVersions && fromVersion 3 version)
  return ⟨key, version, correlationId, clientId⟩

theorem run_getI16 {src : Bytes} (h : 2 ≤ src.length) :
    getI16.run src = .ok (toSigned 16 (beDecode (src.take 2))) (src.drop 2) := by
  have hread := run_getInt 2 src
  rw [if_neg (not_lt.mpr h)] at hread
  exact hread

theorem run_header_of_reads {keyRaw version : ℤ} (hlong : 8 ≤ frame.length)
    (hkey : getI16.run frame = .ok keyRaw (frame.drop 2))
    (hver : getI16.run (frame.drop 2) = .ok version (frame.drop 4)) :
    RequestHeader.decode.run frame = match ApiKey.fromI16 keyRaw with
      | none => .err (.protocol ("Unsupported API key: " ++ toString keyRaw))
      | some key => (headerRest key version).run (frame.drop 4) := by
  have htest : (atLeast 8 (.protocol "Truncated request header") : Parser Unit).run frame =
      .ok () frame := by
    rw [run_atLeast, if_neg (not_lt.mpr hlong)]
  rw [RequestHeader.decode, run_bind_of_ok htest, run_bind_of_ok hkey]
  cases ApiKey.fromI16 keyRaw with
  | none => rfl
  | some key => exact run_bind_of_ok hver _

theorem run_header (hlong : 8 ≤ frame.length) : RequestHeader.decode.run frame =
      match frameKey frame with
      | none => .err (.protocol
          ("Unsupported API key: " ++ toString (toSigned 16 (beDecode (frame.take 2)))))
      | some key => (headerRest key (frameVersion frame)).run (frame.drop 4) := by
  have hver : getI16.run (frame.drop 2) = .ok (frameVersion frame) (frame.drop 4) := by
    have hrest : 2 ≤ (frame.drop 2).length := by
      rw [List.length_drop]
      omega
    have hread := run_getI16 hrest
    rw [List.drop_drop] at hread
    exact hread
  rw [run_header_of_reads hlong (run_getI16 (by omega)) hver, frameKey]

theorem walk_headerRest (key : ApiKey) (v : ℤ) {src : Bytes} (hlong : 4 ≤ src.length) :
    ((headerRest key v >>= decodeRequest saslRequired session).run src).walk =
      seq (headerTail key v ++ [if admits saslRequired session key then
        request v key else stops]) (src.drop 4) := by
  have hunder : Under 4 (headerRest key v >>= decodeRequest saslRequired session)
      (seq (checked 4 :: (headerTail key v ++
        [if admits saslRequired session key then request v key
          else stops]))) := by
    simp only [headerRest, bind_assoc]
    refine under_knownInt le_rfl fun correlationId => ?_
    refine .bind (under_reads _) fun cid => ?_
    refine .bind (under_trailingTags _) fun _ => ?_
    exact .last (.ite (under_request v key) (.fail _))
  rw [hunder src hlong, seq, checked, if_neg (not_lt.mpr hlong)]
  rfl

theorem neverCrashes_turnedAway (key : ApiKey) (v : ℤ) :
    (seq (headerTail key v ++ [stops])).NeverCrashes :=
  neverCrashes_cons neverCrashes_string
    (neverCrashes_cons (neverCrashes_tags _)
      (neverCrashes_cons neverCrashes_stops neverCrashes_nil))

theorem run_decodeFrame (hlong : 8 ≤ frame.length) {key : ApiKey} (hkey : frameKey frame = some key) :
    (decodeFrame saslRequired session).run frame =
      (headerRest key (frameVersion frame) >>= decodeRequest saslRequired session).run
        (frame.drop 4) := by
  rw [decodeFrame, run_bind, run_bind, run_header hlong, hkey]

theorem decodeFrame_short (hshort : frame.length < 8) :
    (decodeFrame saslRequired session).run frame ≠ .panic := by
  rw [decodeFrame, RequestHeader.decode, run_bind, run_bind, run_atLeast, if_pos hshort]
  exact nofun

theorem walk_eq_crash {α : Type} (out : Outcome OxideMqError α) :
    out.walk = .crash ↔ out = .panic := by
  cases out with
  | ok a rest => exact ⟨nofun, nofun⟩
  | err e => exact ⟨nofun, nofun⟩
  | panic => exact ⟨fun _ => rfl, fun _ => rfl⟩

theorem decodeFrame_returns_iff (saslRequired : Bool) (session : ConnectionAuthState)
    (frame : Bytes) :
    (decodeFrame saslRequired session).run frame ≠ .panic ↔
      FieldsPresent saslRequired session frame := by
  by_cases hshort : frame.length < 8
  · exact ⟨fun _ hlong => absurd hshort (not_lt.mpr hlong), fun _ => decodeFrame_short hshort⟩
  have hlong := not_lt.mp hshort
  cases hkey : frameKey frame with
  | none =>
    refine ⟨fun _ _ key hsome => by simp [hkey] at hsome, fun _ => ?_⟩
    rw [decodeFrame, run_bind, run_header hlong, hkey]
    exact nofun
  | some key =>
    have hdrop : (frame.drop 4).drop 4 = frame.drop 8 := by rw [List.drop_drop]
    have hrest : 4 ≤ (frame.drop 4).length := by
      rw [List.length_drop]
      omega
    rw [run_decodeFrame hlong hkey, ne_eq, ← walk_eq_crash, walk_headerRest key _ hrest, hdrop]
    cases hadm : admits saslRequired session key with
    | true => simp [FieldsPresent, hlong, hkey, hadm]
    | false =>
      refine ⟨fun _ _ key' hkey' h => ?_, fun _ => neverCrashes_turnedAway key _ _⟩
      rw [hkey, Option.some.injEq] at hkey'
      rw [← hkey', hadm] at h
      exact absurd h (by decide)

def emptyProduce : Bytes := [0, 0, 0, 0, 0, 0, 0, 1, 255, 255]

theorem emptyProduce_aborts : (decodeFrame false .authenticated).run emptyProduce = .panic :=
  (walk_eq_crash _).mp (by decide +kernel)

end OxideMq.Broker
