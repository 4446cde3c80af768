import OxideMq.Broker.Sasl

/-! A client that follows RFC 5802 and the server of the broker. -/

namespace OxideMq.Broker

open Lib OxideMq.Core OxideMq.Protocol List

namespace Sasl

open ScramServerSession KafkaDecoder

def escapeChar (c : Char) : List Char :=
  if c = ',' then "=2C".toList else if c = '=' then "=3D".toList else [c]

def saslname (username : String) : String := String.ofList (username.toList.flatMap escapeChar)

def clientFirstBare (username nonce : String) : String :=
  "n=" ++ saslname username ++ ",r=" ++ nonce

def clientFirst (username nonce : String) : String := "n,," ++ clientFirstBare username nonce

def readDecimal (digits : List Char) : Option ℕ :=
  if digits.all Char.isDigit then
    some (digits.foldl (fun n c => 10 * n + (c.toNat - '0'.toNat)) 0)
  else none

def readChallenge (crypto : Crypto) (serverFirst : String) : Option (String × Bytes × ℕ) :=
  match serverFirst.toList.splitOn ',' with
  | [r, s, i] => do
      let nonce ← r.dropPrefix? "r=".toList
      let salt ← crypto.base64Decode (textBytes (String.ofList (← s.dropPrefix? "s=".toList)))
      let iterations ← readDecimal (← i.dropPrefix? "i=".toList)
      return (String.ofList nonce, salt, iterations)
  | _ => none

def clientProof (crypto : Crypto) (m : SaslMechanism) (password : String) (salt : Bytes)
    (iterations : ℕ+) (authMessage : String) : Bytes :=
  let key := crypto.hmac m (crypto.pbkdf2 m iterations salt (textBytes password))
    (textBytes "Client Key")
  List.zipWith (· ^^^ ·) key (crypto.hmac m (crypto.digest m key) (textBytes authMessage))

def clientFinal (crypto : Crypto) (m : SaslMechanism) (username nonce password serverFirst : String) :
    Option String := do
  let (fullNonce, salt, iterations) ← readChallenge crypto serverFirst
  if h : 0 < iterations then
    let withoutProof := "c=biws,r=" ++ fullNonce
    let authMessage := clientFirstBare username nonce ++ "," ++ serverFirst ++ "," ++ withoutProof
    return withoutProof ++ ",p=" ++ crypto.base64Encode
      (clientProof crypto m password salt ⟨iterations, h⟩ authMessage)
  else none

structure Crypto.Sound (crypto : Crypto) : Prop where
  decode_encode : ∀ bytes, crypto.base64Decode (textBytes (crypto.base64Encode bytes)) = some bytes
  comma_notMem : ∀ bytes, ',' ∉ (crypto.base64Encode bytes).toList
  length_hmac : ∀ m key text key' text', (crypto.hmac m key text).length =
    (crypto.hmac m key' text').length

theorem length_escaped (text : List Char) :
    (text.flatMap escapeChar).length = text.length + 2 * text.countP fun c => c = ',' ∨ c = '=' := by
  induction text with
  | nil => rfl
  | cons c text ih =>
    rw [flatMap_cons, length_append, ih, countP_cons, escapeChar]
    by_cases hcomma : c = ','
    · simp [hcomma]
      omega
    · by_cases hequals : c = '='
      · simp [hequals]
        omega
      · simp [hcomma, hequals]
        omega

theorem saslname_eq_self_iff (user : String) :
    saslname user = user ↔ ',' ∉ user.toList ∧ '=' ∉ user.toList := by
  constructor
  · intro h
    have hlen := congrArg (fun s : String => s.toList.length) h
    simp only [saslname, String.toList_ofList, length_escaped] at hlen
    have hnone : user.toList.countP (fun c => c = ',' ∨ c = '=') = 0 := by omega
    rw [countP_eq_zero] at hnone
    exact ⟨fun hmem => hnone _ hmem rfl, fun hmem => hnone _ hmem rfl⟩
  · rintro ⟨hcomma, hequals⟩
    have hself : user.toList.flatMap escapeChar = user.toList.flatMap fun c => [c] := by
      refine flatMap_congr fun c hc => ?_
      have hc₁ : c ≠ ',' := fun h => hcomma (h ▸ hc)
      have hc₂ : c ≠ '=' := fun h => hequals (h ▸ hc)
      rw [escapeChar, if_neg hc₁, if_neg hc₂]
    rw [saslname, hself, flatMap_singleton', String.ofList_toList]

theorem comma_notMem_saslname (user : String) : ',' ∉ (saslname user).toList := by
  rw [saslname, String.toList_ofList, mem_flatMap]
  rintro ⟨c, -, hc⟩
  rw [escapeChar] at hc
  split at hc
  · exact absurd hc (by decide)
  · split at hc
    · exact absurd hc (by decide)
    · next hcomma _ => exact hcomma (mem_singleton.mp hc).symm

theorem find_append {c : Char} {pattern before : List Char} (h : c ∉ before) (text : List Char) :
    find (c :: pattern) (before ++ text) =
      (find (c :: pattern) text).map fun (front, found) => (before ++ front, found) := by
  induction before with
  | nil => simp
  | cons d before ih =>
    rw [mem_cons, not_or] at h
    rw [cons_append, find, if_neg (by simp [h.1]), ih h.2, Option.map_map]
    rfl

theorem xor_xor_cancel {a b : Bytes} (h : a.length = b.length) :
    zipWith (· ^^^ ·) (zipWith (· ^^^ ·) a b) b = a := by
  induction a generalizing b with
  | nil => rfl
  | cons x a ih =>
    cases b with
    | nil => cases h
    | cons y b => simp [ih (by simpa using h)]

section

variable (crypto : Crypto) (m : SaslMechanism) (username nonce password : String)
  (drawn salt : Bytes)

def challenged : ScramServerSession :=
  let started : ScramServerSession :=
    { ScramServerSession.new m with
      username := saslname username
      clientNonce := nonce
      serverNonce := crypto.base64Encode drawn
      salt := salt
      fullNonce := nonce ++ crypto.base64Encode drawn }
  { started with
    authMessagePrefix := clientFirstBare username nonce ++ "," ++ started.serverFirstMessage crypto }

theorem processClientFirst_client (hnonce : ',' ∉ nonce.toList) :
    (ScramServerSession.new m).processClientFirst crypto ⟨some drawn, some salt⟩
        (textBytes (clientFirst username nonce)) none none =
      .ok (challenged crypto m username nonce drawn salt,
        (challenged crypto m username nonce drawn salt).serverFirstMessage crypto) := by
  have hfind : find "n=".toList (clientFirst username nonce).toList =
      some ("n,,".toList, (clientFirstBare username nonce).toList) := by
    simp only [clientFirst, clientFirstBare, String.toList_append]
    rfl
  have hparts : (clientFirstBare username nonce).toList.splitOn ',' =
      ['n' :: '=' :: (saslname username).toList, 'r' :: '=' :: nonce.toList] := by
    have hname : ',' ∉ 'n' :: '=' :: (saslname username).toList := by
      simp [comma_notMem_saslname]
    have hrest : ',' ∉ 'r' :: '=' :: nonce.toList := by simp [hnonce]
    have hbare : (clientFirstBare username nonce).toList =
        ('n' :: '=' :: (saslname username).toList) ++ ',' :: ('r' :: '=' :: nonce.toList) := by
      simp [clientFirstBare]
    rw [hbare, splitOn_append_cons_self, splitOn_eq_singleton hname, splitOn_eq_singleton hrest]
    rfl
  have hread : ((clientFirstBare username nonce).toList.splitOn ',').foldl readPart (none, none) =
      (some (saslname username), some nonce) := by
    rw [hparts]
    simp [readPart, dropPrefix?]
  simp only [processClientFirst, utf8_textBytes, hfind, hread, orFail, bind, Except.bind]
  simp [challenged, serverFirstMessage, ScramServerSession.new, pure, Except.pure]

theorem comma_notMem_fullNonce (hsound : crypto.Sound) (hnonce : ',' ∉ nonce.toList) :
    ',' ∉ (nonce ++ crypto.base64Encode drawn).toList := by
  rw [String.toList_append, mem_append, not_or]
  exact ⟨hnonce, hsound.comma_notMem drawn⟩

theorem readChallenge_serverFirst (hsound : crypto.Sound) (hnonce : ',' ∉ nonce.toList) :
    readChallenge crypto
        ((challenged crypto m username nonce drawn salt).serverFirstMessage crypto) =
      some (nonce ++ crypto.base64Encode drawn, salt, 4096) := by
  have hfull := comma_notMem_fullNonce crypto nonce drawn hsound hnonce
  generalize hn : nonce ++ crypto.base64Encode drawn = fullNonce at hfull
  have hr : ',' ∉ 'r' :: '=' :: fullNonce.toList := by simp [hfull]
  have hs : ',' ∉ 's' :: '=' :: (crypto.base64Encode salt).toList := by
    simp [hsound.comma_notMem salt]
  have hparts : ((challenged crypto m username nonce drawn salt).serverFirstMessage
      crypto).toList.splitOn ',' = ['r' :: '=' :: fullNonce.toList,
        's' :: '=' :: (crypto.base64Encode salt).toList, "i=4096".toList] := by
    have hmsg : ((challenged crypto m username nonce drawn salt).serverFirstMessage crypto).toList =
        ('r' :: '=' :: fullNonce.toList) ++ ',' :: (('s' :: '=' ::
          (crypto.base64Encode salt).toList) ++ ',' :: "i=4096".toList) := by
      have hdigits : (toString ((4096 : ℕ+) : ℕ)).toList = "4096".toList := by decide +kernel
      simp only [serverFirstMessage, challenged, ScramServerSession.new, hn, String.toList_append,
        hdigits]
      simp
    rw [hmsg, splitOn_append_cons_self, splitOn_append_cons_self,
      splitOn_eq_singleton hr, splitOn_eq_singleton hs]
    rfl
  rw [readChallenge, hparts]
  have hdecimal : readDecimal ['4', '0', '9', '6'] = some 4096 := by decide
  simp [dropPrefix?, hsound.decode_encode, hdecimal]

theorem find_proof {fullNonce : String} (hfull : ',' ∉ fullNonce.toList) (proof : String) :
    find ",p=".toList ("c=biws,r=" ++ fullNonce ++ ",p=" ++ proof).toList =
      some (("c=biws,r=" ++ fullNonce).toList, ",p=".toList ++ proof.toList) := by
  have hmsg : ("c=biws,r=" ++ fullNonce ++ ",p=" ++ proof).toList =
      "c=biws".toList ++ ',' :: (('r' :: '=' :: fullNonce.toList) ++ (",p=".toList ++
        proof.toList)) := by
    simp
  have hr : ',' ∉ 'r' :: '=' :: fullNonce.toList := by simp [hfull]
  have hhere : find (',' :: "p=".toList) (",p=".toList ++ proof.toList) =
      some ([], ",p=".toList ++ proof.toList) := rfl
  rw [hmsg]
  show find (',' :: "p=".toList) _ = _
  rw [find_append (by decide), find, if_neg (by simp), find_append hr, hhere]
  simp

theorem processClientFinal_client (hsound : crypto.Sound) (hm : m ≠ .plain)
    (hnonce : ',' ∉ nonce.toList) :
    let sess := challenged crypto m username nonce drawn salt
    ∃ final serverFinal,
      clientFinal crypto m username nonce password (sess.serverFirstMessage crypto) = some final ∧
      sess.processClientFinal crypto (textBytes final) password =
        .ok (saslname username, serverFinal) := by
  intro sess
  have hfull := comma_notMem_fullNonce crypto nonce drawn hsound hnonce
  have hread := readChallenge_serverFirst crypto m username nonce drawn salt hsound hnonce
  let withoutProof := "c=biws,r=" ++ (nonce ++ crypto.base64Encode drawn)
  let authMessage := sess.authMessagePrefix ++ "," ++ withoutProof
  let proof := clientProof crypto m password salt 4096 authMessage
  have hlens : (sess.clientKey crypto password).length = (crypto.hmac m
      (sess.storedKey crypto password) (textBytes authMessage)).length :=
    hsound.length_hmac _ _ _ _ _
  have hlen : proof.length = (sess.clientKey crypto password).length :=
    length_zipWith.trans (min_eq_left hlens.le)
  have hkey : sess.recoveredClientKey crypto password proof authMessage =
      sess.clientKey crypto password := xor_xor_cancel hlens
  have hrepeats : (withoutProof.toList.splitOn ',').any (fun part =>
      part.dropPrefix? "r=".toList == some sess.fullNonce.toList) = true := by
    have htext : withoutProof.toList = "c=biws".toList ++ ',' :: ('r' :: '=' ::
        sess.fullNonce.toList) := by
      simp [withoutProof, sess, challenged]
    have hr : ',' ∉ 'r' :: '=' :: sess.fullNonce.toList := by simpa [sess, challenged] using hfull
    rw [htext, splitOn_append_cons_self, splitOn_eq_singleton hr]
    simp [dropPrefix?]
  refine ⟨withoutProof ++ ",p=" ++ crypto.base64Encode proof,
    sess.serverFinal crypto password authMessage, ?_, ?_⟩
  · rw [clientFinal, hread]
    rfl
  · simp only [processClientFinal, utf8_textBytes, orFail, bind, Except.bind,
      show find ",p=".toList (withoutProof ++ ",p=" ++ crypto.base64Encode proof).toList = _ from
        find_proof hfull _]
    have hdec : crypto.base64Decode (textBytes (String.ofList ((",p=".toList ++
        (crypto.base64Encode proof).toList).drop 3))) = some proof := by
      simpa using hsound.decode_encode proof
    have hdigest : crypto.digest sess.mechanism (sess.recoveredClientKey crypto password proof
        (sess.authMessagePrefix ++ "," ++ String.ofList withoutProof.toList)) =
        sess.storedKey crypto password := by
      rw [String.ofList_toList, hkey, storedKey]
    rw [if_pos hrepeats, hdec]
    dsimp only
    rw [if_neg (show sess.mechanism ≠ .plain from hm), if_neg (not_not.mpr hlen),
      if_neg (not_not.mpr hdigest), String.ofList_toList]
    rfl

def LogsIn (auth : SaslAuthenticator) : Prop :=
  ∃ session serverFirst final pass serverFinal,
    (ScramServerSession.new m).processClientFirst crypto ⟨some drawn, some salt⟩
        (textBytes (clientFirst username nonce)) none none = .ok (session, serverFirst) ∧
    clientFinal crypto m username nonce password serverFirst = some final ∧
    auth.getPassword session.username = some pass ∧
    session.processClientFinal crypto (textBytes final) pass = .ok (username, serverFinal)

theorem scram_login_iff {crypto : Crypto} (hsound : crypto.Sound) {m : SaslMechanism}
    (hm : m ≠ .plain) {auth : SaslAuthenticator} {username password nonce : String}
    (hstored : auth.getPassword username = some password) (hnonce : ',' ∉ nonce.toList)
    (drawn salt : Bytes) :
    LogsIn crypto m username nonce password drawn salt auth ↔
      ',' ∉ username.toList ∧ '=' ∉ username.toList := by
  have hfirst := processClientFirst_client crypto m username nonce drawn salt hnonce
  rw [← saslname_eq_self_iff]
  constructor
  · rintro ⟨sess, serverFirst, final, pass, serverFinal, hchal, -, -, hacc⟩
    rw [hfirst] at hchal
    cases hchal
    exact (processClientFinal_eq_ok hacc).1.symm
  · intro hname
    obtain ⟨final, serverFinal, hfinal, hacc⟩ :=
      processClientFinal_client crypto m username nonce password drawn salt hsound hm hnonce
    refine ⟨_, _, final, password, serverFinal, hfirst, hfinal, ?_, ?_⟩
    · show auth.getPassword (saslname username) = some password
      rw [hname, hstored]
    · rw [hacc, hname]

end

def byteChar (byte : UInt8) : Char := Char.ofNat (byte.toNat + 256)

theorem toNat_byteChar (byte : UInt8) : (byteChar byte).toNat = byte.toNat + 256 := by
  have hvalid : (byte.toNat + 256).isValidChar := .inl (by have := byte.toNat_lt; omega)
  rw [byteChar, Char.toNat_ofNat, if_pos hvalid]

def openCrypto : Crypto :=
  ⟨fun _ _ _ password => password, fun _ _ _ => [], fun _ data => data,
    fun bytes => String.ofList (bytes.map byteChar),
    fun bytes => (utf8 bytes).map fun s => s.toList.map fun c => UInt8.ofNat (c.toNat - 256)⟩

theorem sound_openCrypto : Crypto.Sound openCrypto where
  decode_encode bytes := by
    simp [openCrypto, utf8_textBytes, Function.comp_def, toNat_byteChar]
  comma_notMem bytes := by
    rw [openCrypto, String.toList_ofList, mem_map]
    rintro ⟨byte, -, hcomma⟩
    have hcode := congrArg Char.toNat hcomma
    rw [toNat_byteChar] at hcode
    exact absurd hcode (by simp)
  length_hmac _ _ _ _ _ := rfl

def storing (username : String) : SaslAuthenticator :=
  ⟨AList.insert username "pw" ∅, [.scramSha256], true⟩

theorem alice_logs_in : LogsIn openCrypto .scramSha256 "alice" "x" "pw" [1] [2] (storing "alice") :=
  (scram_login_iff sound_openCrypto (by decide) (by decide) (by decide) [1] [2]).mpr
    ⟨by decide, by decide⟩

theorem escaped_name_unknown : openCrypto.Sound ∧ (storing "a=b").getPassword "a=b" = some "pw" ∧
      (storing "a=b").getPassword (challenged openCrypto .scramSha256 "a=b" "x" [1] [2]).username =
        none ∧
      ¬ LogsIn openCrypto .scramSha256 "a=b" "x" "pw" [1] [2] (storing "a=b") := by
  have hunknown : (storing "a=b").getPassword (saslname "a=b") = none := by decide
  refine ⟨sound_openCrypto, by decide, hunknown, ?_⟩
  rintro ⟨sess, serverFirst, final, pass, serverFinal, hchal, -, hstored, -⟩
  rw [processClientFirst_client _ _ _ _ _ _ (by decide)] at hchal
  cases hchal
  exact absurd (hunknown.symm.trans hstored) (by simp)

end Sasl

end OxideMq.Broker
