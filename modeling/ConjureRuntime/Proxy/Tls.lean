import ConjureRuntime.Client.Builder
import ConjureRuntime.Foundation.Returns
import ConjureRuntime.Foundation.Transition

/-!
# Who the servers have to be

`RawClient::new` turns the security configuration into one of TLS, with the
files it names.  Pinned certificates take the place of the root certificates:
the leaf that a server shows is compared with them, and its chain is not
looked at.  The signature of the handshake is left to the verifier too.
-/

namespace ConjureRuntime.Proxy.Tls

open ConjureRuntime.Client ConjureRuntime.Foundation ConjureRuntime.Service

abbrev Certificate := List UInt8

inductive Item where
  | pkcs1Key (key : List UInt8)
  | pkcs8Key (key : List UInt8)
  | sec1Key (key : List UInt8)
  | other
  deriving DecidableEq

inductive PrivateKey where
  | pkcs1 (key : List UInt8)
  | pkcs8 (key : List UInt8)
  | sec1 (key : List UInt8)
  deriving DecidableEq

inductive TlsVersion where
  | tls12
  | tls13
  deriving DecidableEq

/-- `DigitallySignedStruct`. -/
structure DigitallySigned where
  scheme : Nat
  signature : List UInt8
  deriving DecidableEq

/-- What a server sends in a handshake, and the message that it has signed to
prove that it holds the key of the leaf. -/
structure Presented where
  version : TlsVersion
  endEntity : Certificate
  intermediates : List Certificate
  message : List UInt8
  dss : DigitallySigned
  deriving DecidableEq

inductive TlsError where
  | unknownIssuer
  | other (text : String)
  deriving DecidableEq

/-- The trait of `rustls` by which a client verifies a server. -/
structure ServerCertVerifier where
  verifyServerCert : Certificate → List Certificate → String →
    Except TlsError Unit
  verifyTls12Signature : List UInt8 → Certificate → DigitallySigned →
    Except TlsError Unit
  verifyTls13Signature : List UInt8 → Certificate → DigitallySigned →
    Except TlsError Unit

/-- The algorithms of a `CryptoProvider`. -/
structure CryptoProvider where
  signatureVerificationAlgorithms : List Nat
  deriving DecidableEq

/-- The file system and the libraries under the client. -/
structure Library where
  openFile : String → Except Cause (List UInt8)
  certs : List UInt8 → List (Except Cause Certificate)
  readAll : List UInt8 → List (Except Cause Item)
  provider : CryptoProvider
  safeProtocolVersions : Except Cause Unit
  tlsServerRoots : List Certificate
  parsable : Certificate → Bool
  clientAuthCert : List Certificate → PrivateKey → Except Cause Unit
  /-- The verifier of `with_root_certificates`. -/
  webPki : List Certificate → CryptoProvider → ServerCertVerifier
  /-- `crypto::verify_tls12_signature`. -/
  verifyTls12Signature : List UInt8 → Certificate → DigitallySigned →
    List Nat → Except TlsError Unit
  /-- `crypto::verify_tls13_signature`. -/
  verifyTls13Signature : List UInt8 → Certificate → DigitallySigned →
    List Nat → Except TlsError Unit

structure PinnedLeafVerifier where
  pinned : List Certificate
  provider : CryptoProvider
  deriving DecidableEq

inductive Verifier where
  | roots (roots : List Certificate) (provider : CryptoProvider)
  | pinnedLeaf (verifier : PinnedLeafVerifier)
  deriving DecidableEq

structure ClientConfig where
  verifier : Verifier
  clientAuth : Option (List Certificate × PrivateKey)
  deriving DecidableEq

/-! ## The configuration -/

/-- `map_err(Error::internal_safe)`. -/
def internalSafe {α : Type} : Except Cause α → Except Error α
  | .ok value => .ok value
  | .error e => .error (Error.internalSafe e)

def fail {α : Type} (message : String) : Except Error α :=
  .error (Error.internalSafe (.foreign message))

variable (library : Library)

def loadCertsFile (path : String) : Except Error (List Certificate) := do
  let file ← internalSafe (library.openFile path)
  internalSafe ((library.certs file).mapM id)

def loadPrivateKey (path : String) : Except Error PrivateKey := do
  let file ← internalSafe (library.openFile path)
  let items ← internalSafe ((library.readAll file).mapM id)
  match items with
  | [.pkcs1Key key] => pure (.pkcs1 key)
  | [.pkcs8Key key] => pure (.pkcs8 key)
  | [.sec1Key key] => pure (.sec1 key)
  | [.other] => fail "expected a PKCS#1, PKCS#8, or Sec1 private key"
  | _ => fail "expected exactly one private key in key file"

/-- One iteration of the loop over the pinned certificates. -/
def pinnedCert (pem : String) : Except Error Certificate := do
  let certs ← internalSafe ((library.certs pem.toUTF8.toList).mapM id)
  match certs with
  | [cert] => pure cert
  | _ =>
      fail "pinned-certs entry must contain exactly one PEM-encoded certificate"

def verifier (security : SecurityConfig) : Except Error Verifier :=
  if security.pinnedCerts.isEmpty then
    match security.caFile with
    | some caFile => do
        let certs ← loadCertsFile library caFile
        pure (.roots (library.tlsServerRoots ++ certs.filter library.parsable)
          library.provider)
    | none => pure (.roots library.tlsServerRoots library.provider)
  else do
    let pinned ← security.pinnedCerts.mapM (pinnedCert library)
    pure (.pinnedLeaf ⟨pinned, library.provider⟩)

def clientAuth (security : SecurityConfig) :
    Except Error (Option (List Certificate × PrivateKey)) :=
  match security.certFile, security.keyFile with
  | some certFile, some keyFile => do
      let certChain ← loadCertsFile library certFile
      let privateKey ← loadPrivateKey library keyFile
      internalSafe (library.clientAuthCert certChain privateKey)
      pure (some (certChain, privateKey))
  | none, none => pure none
  | _, _ =>
      fail ("neither or both of key-file and cert-file must be set in the " ++
        "client security config")

/-- The part of `RawClient::new` about TLS. -/
def clientConfig (security : SecurityConfig) : Except Error ClientConfig := do
  internalSafe library.safeProtocolVersions
  let verifier ← verifier library security
  let clientAuth ← clientAuth library security
  pure ⟨verifier, clientAuth⟩

/-! ## The verification -/

/-- `ConstantTimeEq` of slices: all bytes are looked at. -/
def ctEq (bytes others : List UInt8) : Bool :=
  if bytes.length ≠ others.length then false
  else (bytes.zip others).foldl (fun equal pair =>
    equal && decide (pair.1 = pair.2)) true

namespace PinnedLeafVerifier

/-- The loop goes on after a match. -/
def matched (verifier : PinnedLeafVerifier) (endEntity : Certificate) : Bool :=
  verifier.pinned.foldl (fun matched pin => matched || ctEq pin endEntity)
    false

def verifyServerCert (verifier : PinnedLeafVerifier)
    (endEntity : Certificate) (_intermediates : List Certificate)
    (_serverName : String) : Except TlsError Unit :=
  if verifier.matched endEntity then .ok () else .error .unknownIssuer

def verifyTls12Signature (verifier : PinnedLeafVerifier)
    (message : List UInt8) (cert : Certificate) (dss : DigitallySigned) :
    Except TlsError Unit :=
  library.verifyTls12Signature message cert dss
    verifier.provider.signatureVerificationAlgorithms

def verifyTls13Signature (verifier : PinnedLeafVerifier)
    (message : List UInt8) (cert : Certificate) (dss : DigitallySigned) :
    Except TlsError Unit :=
  library.verifyTls13Signature message cert dss
    verifier.provider.signatureVerificationAlgorithms

def serverCertVerifier (verifier : PinnedLeafVerifier) :
    ServerCertVerifier where
  verifyServerCert := verifier.verifyServerCert
  verifyTls12Signature := verifier.verifyTls12Signature library
  verifyTls13Signature := verifier.verifyTls13Signature library

end PinnedLeafVerifier

def Verifier.serverCertVerifier : Verifier → ServerCertVerifier
  | .roots certs provider => library.webPki certs provider
  | .pinnedLeaf verifier => verifier.serverCertVerifier library

def ServerCertVerifier.verifySignature (verifier : ServerCertVerifier)
    (presented : Presented) : Except TlsError Unit :=
  match presented.version with
  | .tls12 => verifier.verifyTls12Signature presented.message
      presented.endEntity presented.dss
  | .tls13 => verifier.verifyTls13Signature presented.message
      presented.endEntity presented.dss

/-- A full handshake of `rustls` asks its verifier for both. -/
def handshake (config : ClientConfig) (serverName : String)
    (presented : Presented) : Except TlsError Unit := do
  let verifier := config.verifier.serverCertVerifier library
  verifier.verifyServerCert presented.endEntity presented.intermediates
    serverName
  verifier.verifySignature presented

variable {library : Library}

theorem foldl_and_eq_true {α : Type} (p : α → Bool) (l : List α)
    (start : Bool) : l.foldl (fun equal x => equal && p x) start = true ↔
      start = true ∧ ∀ x ∈ l, p x = true := by
  induction l generalizing start with
  | nil => simp
  | cons x l ih =>
      rw [List.foldl_cons, ih]
      simp [and_assoc]

theorem ctEq_iff {bytes others : List UInt8} :
    ctEq bytes others = true ↔ bytes = others := by
  unfold ctEq
  split
  · rename_i hlength
    simp only [Bool.false_eq_true, false_iff]
    rintro rfl
    exact hlength rfl
  · rename_i hlength
    rw [not_not] at hlength
    rw [foldl_and_eq_true, ← List.forall₂_eq_eq_eq, List.forall₂_iff_zip]
    simp [hlength]

theorem PinnedLeafVerifier.matched_iff {verifier : PinnedLeafVerifier}
    {endEntity : Certificate} :
    verifier.matched endEntity = true ↔ endEntity ∈ verifier.pinned := by
  obtain ⟨pinned, provider⟩ := verifier
  have hfold : ∀ start : Bool,
      pinned.foldl (fun matched pin => matched || ctEq pin endEntity) start =
        true ↔ start = true ∨ endEntity ∈ pinned := by
    induction pinned with
    | nil => simp
    | cons pin pinned ih =>
        intro start
        rw [List.foldl_cons, ih, List.mem_cons, Bool.or_eq_true, ctEq_iff,
          or_assoc, @eq_comm _ pin]
  simpa [matched] using hfold false

theorem PinnedLeafVerifier.verifyServerCert_iff
    {verifier : PinnedLeafVerifier} {endEntity : Certificate}
    (intermediates : List Certificate) (serverName : String) :
    verifier.verifyServerCert endEntity intermediates serverName = .ok () ↔
      endEntity ∈ verifier.pinned := by
  rw [← matched_iff, verifyServerCert]
  split <;> simp_all

/-! ## What a configuration trusts -/

/-- A text, of a file or a pin, holds just these certificates. -/
def Holds (library : Library) (file : List UInt8)
    (certs : List Certificate) : Prop :=
  library.certs file = certs.map .ok

def FileHolds (library : Library) (path : String)
    (certs : List Certificate) : Prop :=
  ∃ file, library.openFile path = .ok file ∧ Holds library file certs

def PrivateKey.item : PrivateKey → Item
  | .pkcs1 key => .pkcs1Key key
  | .pkcs8 key => .pkcs8Key key
  | .sec1 key => .sec1Key key

def FileHoldsKey (library : Library) (path : String)
    (key : PrivateKey) : Prop :=
  ∃ file, library.openFile path = .ok file ∧
    library.readAll file = [.ok key.item]

def IsRoots (library : Library) (security : SecurityConfig)
    (roots : List Certificate) : Prop :=
  match security.caFile with
  | none => roots = library.tlsServerRoots
  | some caFile => ∃ certs, FileHolds library caFile certs ∧
      roots = library.tlsServerRoots ++ certs.filter library.parsable

/-- What the client shows of itself: what both files hold, or nothing when
there are none. -/
def IsIdentity (library : Library) (security : SecurityConfig) :
    Option (List Certificate × PrivateKey) → Prop
  | none => security.certFile = none ∧ security.keyFile = none
  | some (certs, key) => ∃ certFile keyFile,
      security.certFile = some certFile ∧ security.keyFile = some keyFile ∧
      FileHolds library certFile certs ∧ FileHoldsKey library keyFile key

def Signed (library : Library) (presented : Presented) : Prop :=
  match presented.version with
  | .tls12 => library.verifyTls12Signature presented.message
      presented.endEntity presented.dss
      library.provider.signatureVerificationAlgorithms = .ok ()
  | .tls13 => library.verifyTls13Signature presented.message
      presented.endEntity presented.dss
      library.provider.signatureVerificationAlgorithms = .ok ()

/-- A server whose leaf is a pinned certificate, and that has proved to hold
its key; where there are no pins, one that the library trusts for its name and
the roots. -/
structure Trusted (library : Library) (security : SecurityConfig)
    (serverName : String) (presented : Presented) : Prop where
  pinned : security.pinnedCerts ≠ [] → Signed library presented ∧
    ∃ pem ∈ security.pinnedCerts,
      Holds library pem.toUTF8.toList [presented.endEntity]
  chain : security.pinnedCerts = [] → ∃ roots,
    IsRoots library security roots ∧
    (library.webPki roots library.provider).verifyServerCert
      presented.endEntity presented.intermediates serverName = .ok () ∧
    (library.webPki roots library.provider).verifySignature presented = .ok ()

variable {security : SecurityConfig}

theorem Holds.unique {file : List UInt8} {certs certs' : List Certificate}
    (h : Holds library file certs) (h' : Holds library file certs') :
    certs = certs' := by
  have heq : certs.map .ok = certs'.map (.ok : _ → Except Cause _) :=
    h.symm.trans h'
  refine List.map_injective_iff.mpr ?_ heq
  intro cert cert' hcert
  cases hcert
  rfl

theorem FileHolds.unique {path : String} {certs certs' : List Certificate}
    (h : FileHolds library path certs) (h' : FileHolds library path certs') :
    certs = certs' := by
  obtain ⟨file, hfile, hcerts⟩ := h
  obtain ⟨file', hfile', hcerts'⟩ := h'
  rw [hfile] at hfile'
  cases hfile'
  exact hcerts.unique hcerts'

theorem IsRoots.unique {roots roots' : List Certificate}
    (h : IsRoots library security roots)
    (h' : IsRoots library security roots') : roots = roots' := by
  unfold IsRoots at h h'
  cases hcaFile : security.caFile with
  | none =>
      rw [hcaFile] at h h'
      exact h.trans h'.symm
  | some caFile =>
      rw [hcaFile] at h h'
      obtain ⟨certs, hcerts, rfl⟩ := h
      obtain ⟨certs', hcerts', rfl⟩ := h'
      rw [hcerts.unique hcerts']

/-! ## The configuration is followed -/

theorem internalSafe_eq_ok {α : Type} {result : Except Cause α} {value : α}
    (h : internalSafe result = .ok value) : result = .ok value := by
  cases result with
  | ok => simpa [internalSafe] using h
  | error => cases h

theorem mapM_id_eq_ok {α : Type} {results : List (Except Cause α)}
    {values : List α} (h : results.mapM id = .ok values) :
    results = values.map .ok := by
  have hall := mapM_eq_ok h
  clear h
  induction hall with
  | nil => rfl
  | cons hfirst _ ih =>
      rw [List.map_cons, ← ih]
      exact congrArg (· :: _) hfirst

theorem loadCertsFile_holds {path : String} {certs : List Certificate}
    (h : loadCertsFile library path = .ok certs) :
    FileHolds library path certs := by
  obtain ⟨file, hfile, h⟩ := bind_eq_ok h
  exact ⟨file, internalSafe_eq_ok hfile,
    mapM_id_eq_ok (internalSafe_eq_ok h)⟩

theorem loadPrivateKey_holds {path : String} {key : PrivateKey}
    (h : loadPrivateKey library path = .ok key) :
    FileHoldsKey library path key := by
  obtain ⟨file, hfile, h⟩ := bind_eq_ok h
  obtain ⟨items, hitems, h⟩ := bind_eq_ok h
  refine ⟨file, internalSafe_eq_ok hfile, ?_⟩
  rw [mapM_id_eq_ok (internalSafe_eq_ok hitems)]
  split at h <;> cases h <;> rfl

theorem pinnedCert_holds {pem : String} {cert : Certificate}
    (h : pinnedCert library pem = .ok cert) :
    Holds library pem.toUTF8.toList [cert] := by
  obtain ⟨certs, hcerts, h⟩ := bind_eq_ok h
  have hholds := mapM_id_eq_ok (internalSafe_eq_ok hcerts)
  split at h
  · cases h
    exact hholds
  · cases h

theorem clientAuth_identity {auth : Option (List Certificate × PrivateKey)}
    (h : clientAuth library security = .ok auth) :
    IsIdentity library security auth := by
  unfold clientAuth at h
  split at h
  · rename_i certFile keyFile hcertFile hkeyFile
    obtain ⟨certChain, hcerts, h⟩ := bind_eq_ok h
    obtain ⟨privateKey, hkey, h⟩ := bind_eq_ok h
    obtain ⟨-, -, h⟩ := bind_eq_ok h
    cases h
    exact ⟨certFile, keyFile, hcertFile, hkeyFile,
      loadCertsFile_holds hcerts, loadPrivateKey_holds hkey⟩
  · rename_i hcertFile hkeyFile
    cases h
    exact ⟨hcertFile, hkeyFile⟩
  · cases h

theorem verifier_cases {made : Verifier}
    (h : verifier library security = .ok made) :
    (security.pinnedCerts = [] ∧ ∃ roots,
      made = .roots roots library.provider ∧
        IsRoots library security roots) ∨
    (security.pinnedCerts ≠ [] ∧ ∃ pinned,
      made = .pinnedLeaf ⟨pinned, library.provider⟩ ∧
      List.Forall₂ (fun pem cert => Holds library pem.toUTF8.toList [cert])
        security.pinnedCerts pinned) := by
  unfold verifier at h
  split at h
  · rename_i hempty
    refine .inl ⟨List.isEmpty_iff.mp hempty, ?_⟩
    split at h
    · rename_i caFile hcaFile
      obtain ⟨certs, hcerts, h⟩ := bind_eq_ok h
      cases h
      refine ⟨_, rfl, ?_⟩
      simp only [IsRoots, hcaFile]
      exact ⟨certs, loadCertsFile_holds hcerts, rfl⟩
    · rename_i hcaFile
      cases h
      refine ⟨_, rfl, ?_⟩
      simp only [IsRoots, hcaFile]
  · rename_i hpinned
    obtain ⟨pinned, hparsed, h⟩ := bind_eq_ok h
    cases h
    refine .inr ⟨fun hnil => hpinned (by simp [hnil]), pinned, rfl, ?_⟩
    exact (mapM_eq_ok hparsed).imp fun _ _ => pinnedCert_holds

theorem mem_pinned_iff {pinned : List Certificate} {cert : Certificate}
    (h : List.Forall₂ (fun pem cert => Holds library pem.toUTF8.toList [cert])
      security.pinnedCerts pinned) :
    cert ∈ pinned ↔
      ∃ pem ∈ security.pinnedCerts, Holds library pem.toUTF8.toList [cert] := by
  constructor
  · exact exists_of_forall₂_mem h
  · rintro ⟨pem, hpem, hholds⟩
    obtain ⟨pin, hpin, hpinned⟩ := exists_of_forall₂_mem h.flip hpem
    cases hholds.unique hpinned
    exact hpin

theorem mem_pinned_iff_trusted {pinned : List Certificate}
    (h : List.Forall₂ (fun pem cert => Holds library pem.toUTF8.toList [cert])
      security.pinnedCerts pinned) (hpins : security.pinnedCerts ≠ [])
    {serverName : String} {presented : Presented} :
    presented.endEntity ∈ pinned ∧ Signed library presented ↔
      Trusted library security serverName presented := by
  rw [mem_pinned_iff h]
  constructor
  · rintro ⟨hmem, hsigned⟩
    exact ⟨fun _ => ⟨hsigned, hmem⟩, fun hempty => absurd hempty hpins⟩
  · intro htrusted
    exact (htrusted.pinned hpins).symm

theorem handshake_iff {config : ClientConfig} {serverName : String}
    {presented : Presented} :
    handshake library config serverName presented = .ok () ↔
      (config.verifier.serverCertVerifier library).verifyServerCert
        presented.endEntity presented.intermediates serverName = .ok () ∧
      (config.verifier.serverCertVerifier library).verifySignature presented =
        .ok () := by
  unfold handshake
  constructor
  · intro h
    obtain ⟨⟨⟩, hcert, hsignature⟩ := bind_eq_ok h
    exact ⟨hcert, hsignature⟩
  · rintro ⟨hcert, hsignature⟩
    simp only [hcert]
    exact hsignature

theorem signed_iff {pinned : List Certificate} {presented : Presented} :
    ((Verifier.pinnedLeaf ⟨pinned, library.provider⟩).serverCertVerifier
      library).verifySignature presented = .ok () ↔
      Signed library presented := by
  unfold ServerCertVerifier.verifySignature Signed
  cases presented.version <;> exact Iff.rfl

/-- A client that could be made shows what its files hold, and its handshakes
succeed with those servers that its configuration trusts. -/
theorem trust_follows_config {config : ClientConfig}
    (hconfig : clientConfig library security = .ok config) :
    IsIdentity library security config.clientAuth ∧
      ∀ serverName presented,
        handshake library config serverName presented = .ok () ↔
          Trusted library security serverName presented := by
  obtain ⟨-, -, hconfig⟩ := bind_eq_ok hconfig
  obtain ⟨made, hmade, hconfig⟩ := bind_eq_ok hconfig
  obtain ⟨auth, hauth, hconfig⟩ := bind_eq_ok hconfig
  cases hconfig
  refine ⟨clientAuth_identity hauth, fun serverName presented => ?_⟩
  rw [handshake_iff]
  rcases verifier_cases hmade with
    ⟨hempty, roots, rfl, hroots⟩ | ⟨hnonempty, pinned, rfl, hpinned⟩
  · constructor
    · rintro ⟨hcert, hsignature⟩
      exact ⟨absurd hempty, fun _ => ⟨roots, hroots, hcert, hsignature⟩⟩
    · intro htrusted
      obtain ⟨roots', hroots', hverified⟩ := htrusted.chain hempty
      cases hroots.unique hroots'
      exact hverified
  · rw [signed_iff, ← mem_pinned_iff_trusted hpinned hnonempty]
    exact and_congr_left' (PinnedLeafVerifier.verifyServerCert_iff
      presented.intermediates serverName)

def foobarPem : String :=
  String.join (["-----BEGIN CERTIFICATE-----", "AQID",
    "-----END CERTIFICATE-----"].map fun line => line.push (Char.ofNat 10))

def foobarSigned (message : List UInt8) (cert : Certificate)
    (dss : DigitallySigned) : Except TlsError Unit :=
  if dss.signature = cert ++ message then .ok ()
  else .error (.other "bad signature")

def foobarLibrary : Library where
  openFile _ := .error (.foreign "No such file or directory")
  certs file := if file = foobarPem.toUTF8.toList then [.ok [1, 2, 3]] else []
  readAll _ := []
  provider := ⟨[0]⟩
  safeProtocolVersions := .ok ()
  tlsServerRoots := [[9]]
  parsable _ := true
  clientAuthCert _ _ := .ok ()
  webPki roots _ :=
    { verifyServerCert := fun _ intermediates _ =>
        if intermediates.any (· ∈ roots) then .ok ()
        else .error .unknownIssuer
      verifyTls12Signature := foobarSigned
      verifyTls13Signature := foobarSigned }
  verifyTls12Signature message cert dss _ := foobarSigned message cert dss
  verifyTls13Signature message cert dss _ := foobarSigned message cert dss

def foobarHello (leaf : Certificate) (chain : List Certificate)
    (key : Certificate) : Presented :=
  ⟨.tls13, leaf, chain, [7], ⟨0, key ++ [7]⟩⟩

/-- The pinned leaf is taken without a chain, and another one is not, whatever
its chain, nor is the pinned one without its key. -/
theorem foobar_trusts_pinned :
    IsIdentity foobarLibrary ⟨none, none, none, [foobarPem]⟩ none ∧
      Trusted foobarLibrary ⟨none, none, none, [foobarPem]⟩ "localhost"
        (foobarHello [1, 2, 3] [] [1, 2, 3]) ∧
      ¬ Trusted foobarLibrary ⟨none, none, none, [foobarPem]⟩ "localhost"
        (foobarHello [4, 5, 6] [[9]] [4, 5, 6]) ∧
      ¬ Trusted foobarLibrary ⟨none, none, none, [foobarPem]⟩ "localhost"
        (foobarHello [1, 2, 3] [] [4, 5, 6]) := by
  have hconfig : clientConfig foobarLibrary
      ⟨none, none, none, [foobarPem]⟩ =
        .ok ⟨.pinnedLeaf ⟨[[1, 2, 3]], ⟨[0]⟩⟩, none⟩ := by
    simp [clientConfig, verifier, pinnedCert, clientAuth, internalSafe,
      foobarLibrary]
    rfl
  obtain ⟨hidentity, haccepts⟩ := trust_follows_config hconfig
  refine ⟨hidentity, (haccepts _ _).mp rfl, ?_, ?_⟩
  · rw [← haccepts]
    exact fun h => absurd h (by decide)
  · rw [← haccepts]
    exact fun h => absurd h (by decide)

end ConjureRuntime.Proxy.Tls
